import Farsight.Lib.Handler
import Farsight.Net.Tcp
import Mathlib.Data.List.AList

/-!
# The state of the responder

A responder thread receives the packets that scanned hosts send back, keeps a connection for every
host that answered a probe, collects what the host says, and hands it to the parser.

* `Responder.State` — one connection;
* `Tracker` — the part of the responder that remembers connections and results. The proofs are about
  this part;
* `Responder` — the tracker with the strategy it reports to and the transmit ring;
* `ResponderEnv` — what a responder is given: the strategy, the payload, the parser and the
  configuration.

Instants and durations are natural numbers. A send wakes the kernel before it takes a slot of the
ring and after it has submitted the packet, and either call may fail. `Wake` says how the wake-ups
of one send go; sends take theirs from `wakes`, and succeed when it is empty.
-/

namespace Farsight

/-- The `(ip, port)` of a host, the key of its connection. -/
abbrev Endpoint := Ipv4Addr × BitVec 16

/-- `ParseError`. -/
inductive ParseError where
  | invalid
  | incomplete
  deriving DecidableEq, Repr

/-- Segments that arrived ahead of their turn, by sequence number. -/
abbrev ReorderBuffer := AList fun _ : BitVec 32 => List UInt8

/-- The number of bytes in the buffer. -/
def ReorderBuffer.bytes (self : ReorderBuffer) : ℕ :=
  (self.entries.map fun segment => segment.2.length).sum

theorem ReorderBuffer.length_erase {buffer : ReorderBuffer} {seq : BitVec 32}
    {segment : List UInt8} (h : buffer.lookup seq = some segment) :
    (buffer.erase seq).entries.length + 1 = buffer.entries.length := by
  -- the buffer has as many keys as segments
  have hmem : seq ∈ buffer.entries.keys := AList.lookup_isSome.mp (by rw [h, Option.isSome_some])
  have hkeys (entries : List (Σ _ : BitVec 32, List UInt8)) :
      entries.keys.length = entries.length := List.length_map _
  change (buffer.entries.kerase seq).length + 1 = _
  rw [← hkeys, List.keys_kerase, List.length_erase_of_mem hmem, ← hkeys]
  have hpos : 0 < buffer.entries.keys.length := List.length_pos_of_mem hmem
  omega

/-- A connection, the `State` of the source. -/
structure Responder.State where
  ip : Ipv4Addr
  port : BitVec 16
  data : List UInt8
  nextExpectedSeq : BitVec 32
  nextExpectedAck : BitVec 32
  reorderBuffer : ReorderBuffer
  expiresAt : ℕ
  deriving DecidableEq

/-- An entry of the expiry queue. -/
abbrev Expiry := ℕ × Endpoint

/-- `Scanling`, a result. The time stamp is left out. -/
structure Scanling (B : Type) where
  ip : Ipv4Addr
  port : BitVec 16
  response : B
  deriving DecidableEq, Repr

/-- A call of the parser, with the acknowledgement number the connection expects. -/
structure Parsed where
  key : Endpoint
  nextExpectedAck : BitVec 32
  data : List UInt8
  deriving DecidableEq, Repr

/-- What the responder remembers. `parsed` records the calls of the parser. -/
structure Tracker (B : Type) where
  connections : Endpoint → Option Responder.State
  expiries : List Expiry
  pendingExpiry : Option Expiry
  scanlings : List (Scanling B)
  parsed : List Parsed

/-- A packet submitted to the transmit ring. -/
structure TxPacket where
  ip : Ipv4Addr
  sourcePort : BitVec 16
  port : BitVec 16
  seq : BitVec 32
  ack : BitVec 32
  flags : TcpFlags
  body : List UInt8
  deriving DecidableEq, Repr

/-- How the wake-ups of a send go. -/
inductive Wake where
  | ok
  /-- The first one fails: nothing is submitted. -/
  | failBefore
  /-- The last one fails: the packet is submitted all the same. -/
  | failAfter
  deriving DecidableEq, Repr

/-- A responder. `adapter` is the state of the port and the IP strategy and of the random
generator. -/
structure Responder (A B : Type) extends Tracker B where
  adapter : A
  sent : List TxPacket
  wakes : List Wake

/-- What a responder is given. -/
structure ResponderEnv (A B : Type) where
  /-- `PortAdapter::on_result`. -/
  onResult : A → Ipv4Addr → BitVec 16 → Option (BitVec 64) → Option PacketTemplate × A
  /-- `IpAdapter::on_result`. -/
  ipOnResult : A → Ipv4Addr → A
  /-- `Payload::build`. -/
  build : Ipv4Addr → BitVec 16 → Option (List UInt8)
  /-- `Parser::parse`. -/
  parse : List UInt8 → Except ParseError B
  hash64 : B → BitVec 64
  seed : BitVec 64
  maxReorderSegments : ℕ
  maxReorderBytes : ℕ
  timeout : ℕ

/-- A received packet, decoded. -/
structure Packet where
  ip : Ipv4Addr
  hdr : TcpHdr
  payload : List UInt8
  deriving DecidableEq, Repr

/-- The connection a packet belongs to. -/
def Packet.key (p : Packet) : Endpoint :=
  (p.ip, p.hdr.sourcePort)

namespace Tracker

variable {B : Type}

/-- Nothing to remember yet. -/
def empty : Tracker B where
  connections := fun _ => none
  expiries := []
  pendingExpiry := none
  scanlings := []
  parsed := []

def insert (m : Tracker B) (key : Endpoint) (state : Responder.State) : Tracker B :=
  { m with connections := Function.update m.connections key (some state) }

def remove (m : Tracker B) (key : Endpoint) : Tracker B :=
  { m with connections := Function.update m.connections key none }

def pushExpiry (m : Tracker B) (expiry : Expiry) : Tracker B :=
  { m with expiries := m.expiries ++ [expiry] }

def pushScanling (m : Tracker B) (scanling : Scanling B) : Tracker B :=
  { m with scanlings := m.scanlings ++ [scanling] }

def pushParsed (m : Tracker B) (parsed : Parsed) : Tracker B :=
  { m with parsed := m.parsed ++ [parsed] }

/-- The expiry queue as the loop of `tick` takes it: the pending entry comes first. -/
def queue (m : Tracker B) : List Expiry :=
  m.pendingExpiry.toList ++ m.expiries

/-- The results of one host. -/
def scanlingsOf (m : Tracker B) (key : Endpoint) : List (Scanling B) :=
  m.scanlings.filter fun scanling => (scanling.ip, scanling.port) = key

section Simp

variable (m : Tracker B) (key : Endpoint) (state : Responder.State) (expiry : Expiry)
variable (scanling : Scanling B) (call : Parsed)

@[simp] theorem connections_insert :
    (m.insert key state).connections = Function.update m.connections key (some state) := rfl

@[simp] theorem connections_remove :
    (m.remove key).connections = Function.update m.connections key none := rfl

@[simp] theorem connections_pushExpiry :
    (m.pushExpiry expiry).connections = m.connections := rfl

@[simp] theorem connections_pushScanling :
    (m.pushScanling scanling).connections = m.connections := rfl

@[simp] theorem connections_pushParsed :
    (m.pushParsed call).connections = m.connections := rfl

@[simp] theorem scanlingsOf_insert (key' : Endpoint) :
    (m.insert key state).scanlingsOf key' = m.scanlingsOf key' := rfl

@[simp] theorem scanlingsOf_remove (key' : Endpoint) :
    (m.remove key).scanlingsOf key' = m.scanlingsOf key' := rfl

@[simp] theorem scanlingsOf_pushExpiry :
    (m.pushExpiry expiry).scanlingsOf key = m.scanlingsOf key := rfl

@[simp] theorem scanlingsOf_pushParsed :
    (m.pushParsed call).scanlingsOf key = m.scanlingsOf key := rfl

theorem scanlingsOf_pushScanling (h : (scanling.ip, scanling.port) = key) :
    (m.pushScanling scanling).scanlingsOf key = m.scanlingsOf key ++ [scanling] := by
  simp only [scanlingsOf, pushScanling, List.filter_append, List.filter_singleton, h, decide_true,
    cond_true]

theorem scanlingsOf_pushScanling_of_ne (h : (scanling.ip, scanling.port) ≠ key) :
    (m.pushScanling scanling).scanlingsOf key = m.scanlingsOf key := by
  simp only [scanlingsOf, pushScanling, List.filter_append, List.filter_singleton, h, decide_false,
    cond_false, List.append_nil]

end Simp

/-- A property of every connection, after an insertion. -/
theorem forall_insert {m : Tracker B} {P : Endpoint → Responder.State → Prop} {key : Endpoint}
    {state : Responder.State} (h : ∀ key' state', m.connections key' = some state' → P key' state')
    (hstate : P key state) :
    ∀ key' state', (m.insert key state).connections key' = some state' → P key' state' := by
  intro key' state' hstate'
  rw [connections_insert] at hstate'
  -- the new connection, or one that was there before
  by_cases hkey : key' = key
  · subst hkey
    rw [Function.update_self] at hstate'
    cases hstate'
    exact hstate
  · rw [Function.update_of_ne hkey] at hstate'
    exact h key' state' hstate'

/-- A connection that is left after a removal is not the one that was removed. -/
theorem ne_of_remove {m : Tracker B} {key key' : Endpoint} {state' : Responder.State}
    (h : (m.remove key).connections key' = some state') : key' ≠ key := by
  rintro rfl
  rw [connections_remove, Function.update_self] at h
  cases h

/-- It was there before. -/
theorem connections_of_remove {m : Tracker B} {key key' : Endpoint} {state' : Responder.State}
    (h : (m.remove key).connections key' = some state') : m.connections key' = some state' := by
  rwa [connections_remove, Function.update_of_ne (ne_of_remove h)] at h

end Tracker

namespace Responder

variable {A B : Type}

/-- Change what the responder remembers. -/
def track (f : Tracker B → Tracker B) : Handler (Responder A B) Unit :=
  .modify fun w => { w with toTracker := f w.toTracker }

/-! ### Sending -/

/-- Submit a packet. -/
def transmit (packet : TxPacket) : Handler (Responder A B) Unit := fun w =>
  match w.wakes with
  | [] => (some (), { w with sent := w.sent ++ [packet] })
  | .ok :: wakes => (some (), { w with sent := w.sent ++ [packet], wakes })
  | .failBefore :: wakes => (none, { w with wakes })
  -- submitted, but the handler gets an error all the same
  | .failAfter :: wakes => (none, { w with sent := w.sent ++ [packet], wakes })

/-- `Sender::send`. -/
def send (flags : TcpFlags) (ip : Ipv4Addr) (sourcePort port : BitVec 16) (seq ack : BitVec 32) :
    Handler (Responder A B) Unit :=
  transmit { ip, sourcePort, port, seq, ack, flags, body := [] }

/-- `Sender::send_with_data`. -/
def sendWithData (ip : Ipv4Addr) (sourcePort port : BitVec 16) (seq ack : BitVec 32)
    (body : List UInt8) : Handler (Responder A B) Unit :=
  transmit { ip, sourcePort, port, seq, ack, flags := .psh ||| .ack, body }

/-- `Sender::send_syn`. -/
def sendSyn (template : PacketTemplate) (seed : BitVec 64) : Handler (Responder A B) Unit :=
  transmit {
    ip := template.ip
    sourcePort := template.sourcePort
    port := template.destinationPort
    seq := cookie template.ip template.destinationPort seed
    ack := 0
    flags := .syn
    body := [] }

/-! ### Reporting -/

/-- Report a result to the port strategy, and send the probe it asks for. -/
def record (env : ResponderEnv A B) (ip : Ipv4Addr) (port : BitVec 16)
    (hash : Option (BitVec 64)) : Handler (Responder A B) Unit := do
  let w ← .get
  let (template, adapter) := env.onResult w.adapter ip port hash
  Handler.modify fun w => { w with adapter }
  -- the strategy may ask for another port of the host
  match template with
  | none => return ()
  | some template => sendSyn template env.seed

def recordEmpty (env : ResponderEnv A B) (ip : Ipv4Addr) (port : BitVec 16) :
    Handler (Responder A B) Unit :=
  record env ip port none

def recordHit (env : ResponderEnv A B) (ip : Ipv4Addr) (port : BitVec 16) (hash : BitVec 64) :
    Handler (Responder A B) Unit :=
  record env ip port (some hash)

end Responder

end Farsight
