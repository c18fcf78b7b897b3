import Farsight.Controller.Completer
import Farsight.Controller.FeederStates
import Farsight.Controller.FrameLayout
import Farsight.Controller.FrameOwnership
import Farsight.Controller.Offload
import Farsight.Controller.Receiver
import Farsight.Controller.Scan
import Farsight.Controller.Scanner
import Farsight.Controller.Session
import Farsight.Controller.Setup
import Farsight.Controller.Writer
import Farsight.Database.PrefixGraph
import Farsight.Deque.Resize
import Farsight.Deque.Uninterrupted
import Farsight.Exclude.Grammar
import Farsight.Net.RangeExact
import Farsight.Protocol.Minecraft
import Farsight.Protocol.Scan
import Farsight.Protocol.Status
import Farsight.Responder.Authentic
import Farsight.Responder.Cookie
import Farsight.Responder.Decode
import Farsight.Responder.Duplicates
import Farsight.Responder.Expiry
import Farsight.Responder.InSequence
import Farsight.Responder.Reassembly
import Farsight.Responder.Recovery
import Farsight.Responder.ReorderLimits
import Farsight.Responder.SendErrors
import Farsight.Responder.WrongCookie
import Farsight.Strategy.GreedyPort
import Farsight.Strategy.HeapRefines
import Farsight.Strategy.HeapThreads
import Farsight.Strategy.HostBudget
import Farsight.Strategy.HostDeadlines
import Farsight.Strategy.IpCoverage
import Farsight.Strategy.IpRefinement
import Farsight.Strategy.IpScope
import Farsight.Strategy.PrefixPop
import Farsight.Strategy.PrefixScore
