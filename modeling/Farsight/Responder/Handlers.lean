import Farsight.Lib.Run
import Farsight.Responder.State

/-!
# The packet handlers

`process_packet` and the handlers it dispatches to, the expiry loop, and `tick`, in the order of the
source. A `?` of the source is a bind: what was done before an error stays done, and `tick` only
logs the error of a packet.

Packets are given decoded. The clock that `process_syn_ack` reads and the wake-ups of the sends come
with each packet (`Arrival`).
-/

namespace Farsight

namespace Responder

variable {A B : Type}

/-! ### Connections -/

namespace State

/-- Keep a segment that is ahead of its turn, if it is near enough and fits. -/
def bufferSegment (env : ResponderEnv A B) (state : State) (seq : BitVec 32)
    (payload : List UInt8) : State :=
  -- wraps around, so a segment from the past looks far ahead
  let diff := seq - state.nextExpectedSeq
  if diff < 65535#32 ∧ payload ≠ [] ∧
      state.reorderBuffer.entries.length < env.maxReorderSegments ∧
      state.reorderBuffer.bytes + payload.length ≤ env.maxReorderBytes then
    { state with reorderBuffer := state.reorderBuffer.insert seq payload }
  else
    state

/-- Append bytes that are next in sequence. -/
def append (state : State) (bytes : List UInt8) : State :=
  { state with
    data := state.data ++ bytes
    nextExpectedSeq := state.nextExpectedSeq + BitVec.ofNat 32 bytes.length }

/-- Append the buffered segment whose turn it is. -/
def takeBuffered (state : State) (buffered : List UInt8) : State :=
  append { state with
    reorderBuffer := state.reorderBuffer.erase state.nextExpectedSeq } buffered

/-- The stitching loop. Every turn takes a segment from the buffer. -/
def stitchLoop : ℕ → State → State
  | 0, state => state
  | fuel + 1, state =>
    match state.reorderBuffer.lookup state.nextExpectedSeq with
    | none => state
    | some buffered => stitchLoop fuel (state.takeBuffered buffered)

def stitch (state : State) : State :=
  stitchLoop state.reorderBuffer.entries.length state

/-- What holds before the stitching loop and is kept when a segment is taken holds after it, and the
segment whose turn it is then is not in the buffer. -/
theorem stitchLoop_rule {P : State → Prop}
    (htake : ∀ state buffered, state.reorderBuffer.lookup state.nextExpectedSeq = some buffered →
      P state → P (state.takeBuffered buffered))
    (fuel : ℕ) (state : State) (hfuel : state.reorderBuffer.entries.length ≤ fuel)
    (h : P state) :
    P (stitchLoop fuel state) ∧ (stitchLoop fuel state).reorderBuffer.lookup
      (stitchLoop fuel state).nextExpectedSeq = none := by
  induction fuel generalizing state with
  | zero =>
    have hempty : state.reorderBuffer.entries = [] :=
      List.eq_nil_of_length_eq_zero (Nat.le_zero.mp hfuel)
    refine ⟨h, ?_⟩
    rw [stitchLoop, AList.lookup, hempty, List.dlookup_nil]
  | succ fuel ih =>
    rw [stitchLoop]
    split
    · next hlookup => exact ⟨h, hlookup⟩
    · next buffered hlookup =>
      -- the buffer is one segment smaller, so the fuel still suffices
      refine ih _ ?_ (htake state buffered hlookup h)
      have hlength := ReorderBuffer.length_erase hlookup
      change (state.reorderBuffer.erase state.nextExpectedSeq).entries.length ≤ fuel
      omega

theorem stitch_rule {P : State → Prop}
    (htake : ∀ state buffered, state.reorderBuffer.lookup state.nextExpectedSeq = some buffered →
      P state → P (state.takeBuffered buffered)) (state : State) (h : P state) :
    P state.stitch ∧ state.stitch.reorderBuffer.lookup state.stitch.nextExpectedSeq = none :=
  stitchLoop_rule htake _ state le_rfl h

end State

/-! ### Handlers -/

def processSynAck (env : ResponderEnv A B) (now : ℕ) (ip : Ipv4Addr) (hdr : TcpHdr) :
    Handler (Responder A B) Unit := do
  let sourcePort := hdr.destPort
  let port := hdr.sourcePort
  let ack := hdr.ack
  let expectedAck := cookie ip port env.seed + 1
  if ack ≠ expectedAck then
    recordEmpty env ip port
  else
    match env.build ip port with
    | none => do
      -- skip this server
      send .rst ip sourcePort port ack hdr.seq
      recordEmpty env ip port
      .fail
    | some payload => do
      -- whether there is a connection with this key already is not asked
      let seq := hdr.seq + 1
      sendWithData ip sourcePort port ack seq payload
      let expiresAt := now + env.timeout
      track fun m => (m.pushExpiry (expiresAt, (ip, port))).insert (ip, port) {
        ip
        port
        data := []
        nextExpectedSeq := seq
        nextExpectedAck := ack + BitVec.ofNat 32 payload.length
        reorderBuffer := ∅
        expiresAt }

def processAck (env : ResponderEnv A B) (ip : Ipv4Addr) (hdr : TcpHdr) (payload : List UInt8) :
    Handler (Responder A B) Unit := do
  let sourcePort := hdr.destPort
  let port := hdr.sourcePort
  let ack := hdr.ack
  let seq := hdr.seq
  let w ← .get
  match w.connections (ip, port) with
  | none => do
    -- the connection is gone, or never was
    recordEmpty env ip port
    send .rst ip sourcePort port ack (seq + BitVec.ofNat 32 payload.length)
  | some state =>
    if ack ≠ state.nextExpectedAck then
      return ()
    else if seq ≠ state.nextExpectedSeq then do
      track fun m => m.insert (ip, port) (state.bufferSegment env seq payload)
      -- send duplicate ack for retransmission
      send .ack ip sourcePort port state.nextExpectedAck state.nextExpectedSeq
    else if payload = [] then
      return ()
    else do
      -- what the buffer has next follows at once
      let state := (state.append payload).stitch
      track fun m => (m.insert (ip, port) state).pushParsed
        ⟨(ip, port), state.nextExpectedAck, state.data⟩
      match env.parse state.data with
      | .ok banner => do
        track fun m => m.remove (ip, port)
        send .rst ip sourcePort port state.nextExpectedAck state.nextExpectedSeq
        Handler.modify fun w => { w with adapter := env.ipOnResult w.adapter ip }
        recordHit env ip port (env.hash64 banner)
        track fun m => m.pushScanling ⟨ip, port, banner⟩
      | .error .invalid => do
        recordEmpty env ip port
        track fun m => m.remove (ip, port)
        send .rst ip sourcePort port state.nextExpectedAck state.nextExpectedSeq
      | .error .incomplete => do
        -- there might be more data coming, so wait a bit longer
        let expiresAt := state.expiresAt + env.timeout
        track fun m => (m.insert (ip, port) { state with expiresAt }).pushExpiry
          (expiresAt, (ip, port))
        send .ack ip sourcePort port state.nextExpectedAck state.nextExpectedSeq

def processFin (env : ResponderEnv A B) (ip : Ipv4Addr) (hdr : TcpHdr) (payload : List UInt8) :
    Handler (Responder A B) Unit := do
  let sourcePort := hdr.destPort
  let port := hdr.sourcePort
  let ack := hdr.ack
  let seq := hdr.seq
  send .rst ip sourcePort port ack (seq + 1 + BitVec.ofNat 32 payload.length)
  let w ← .get
  -- removed before the data is looked at
  track fun m => m.remove (ip, port)
  match w.connections (ip, port) with
  | none => recordEmpty env ip port
  | some state =>
    if payload = [] then
      recordEmpty env ip port
    else do
      -- neither number of the packet is compared with those of the connection
      let data := state.data ++ payload
      track fun m => m.pushParsed ⟨(ip, port), state.nextExpectedAck, data⟩
      match env.parse data with
      | .ok banner => do
        Handler.modify fun w => { w with adapter := env.ipOnResult w.adapter ip }
        recordHit env ip port (env.hash64 banner)
        track fun m => m.pushScanling ⟨ip, port, banner⟩
      | .error _ => recordEmpty env ip port

/-- `process_packet`, after the packet was decoded. -/
def processPacket (env : ResponderEnv A B) (now : ℕ) (p : Packet) :
    Handler (Responder A B) Unit :=
  if p.hdr.flags.contains .rst then do
    let port := p.hdr.sourcePort
    recordEmpty env p.ip port
    track fun m => m.remove (p.ip, port)
  else if p.hdr.flags.contains .fin then
    processFin env p.ip p.hdr p.payload
  else if p.hdr.flags.contains (.syn ||| .ack) then
    processSynAck env now p.ip p.hdr
  else if p.hdr.flags.contains .ack then
    processAck env p.ip p.hdr p.payload
  else
    return ()

/-! ### Ticks -/

/-- The expiry loop of `tick`, on the entries it has not taken yet. -/
def expiryLoop (env : ResponderEnv A B) (now : ℕ) : List Expiry → Handler (Responder A B) Unit
  | [] => track fun m => { m with pendingExpiry := none, expiries := [] }
  | (expiry, key) :: rest => do
    track fun m => { m with pendingExpiry := none, expiries := rest }
    let w ← .get
    match w.connections key with
    | none => expiryLoop env now rest
    | some connection =>
      -- the deadline of the entry, not that of the connection
      if now < expiry then
        track fun m => { m with pendingExpiry := some (expiry, key) }
      else do
        track fun m => m.remove key
        recordEmpty env connection.ip connection.port
        expiryLoop env now rest

/-- A packet with the instant at which it is processed. -/
structure Arrival where
  packet : Packet
  now : ℕ
  wakes : List Wake
  deriving DecidableEq, Repr

/-- What the responder does, step by step. -/
inductive Event where
  /-- Process a packet. -/
  | packet (arrival : Arrival)
  /-- Run the expiry loop. -/
  | expiry (now : ℕ) (wakes : List Wake)
  deriving DecidableEq, Repr

/-- The instant of an event. -/
def Event.now : Event → ℕ
  | .packet arrival => arrival.now
  | .expiry now _ => now

def expire (env : ResponderEnv A B) (now : ℕ) (wakes : List Wake) :
    Handler (Responder A B) Unit := do
  Handler.modify fun w => { w with wakes }
  let w ← .get
  expiryLoop env now w.queue

def receive (env : ResponderEnv A B) (arrival : Arrival) : Handler (Responder A B) Unit := do
  Handler.modify fun w => { w with wakes := arrival.wakes }
  processPacket env arrival.now arrival.packet

/-- What `receiver.receive` returns to `tick`, with the clock and the wake-ups of the expiry
loop. -/
inductive TickInput where
  | failed
  | noPackets
  | batch (arrivals : List Arrival) (now : ℕ) (wakes : List Wake)

def tick (env : ResponderEnv A B) : TickInput → Handler (Responder A B) (Option Unit)
  | .failed => .fail
  | .noPackets => return none
  | .batch arrivals now wakes => do
    -- the error of a packet is logged
    Handler.modify fun w => arrivals.foldl (fun w arrival => (receive env arrival w).2) w
    expire env now wakes
    return some ()

/-! ### Runs -/

def step (env : ResponderEnv A B) (w : Responder A B) : Event → Responder A B
  | .packet arrival => (receive env arrival w).2
  | .expiry now wakes => (expire env now wakes w).2

/-- Carry out the events. -/
def run (env : ResponderEnv A B) (w : Responder A B) (events : List Event) : Responder A B :=
  events.foldl (step env) w

theorem run_concat (env : ResponderEnv A B) (w : Responder A B) (events : List Event)
    (event : Event) : run env w (events ++ [event]) = step env (run env w events) event :=
  List.foldl_concat (step env) w event events

/-- The events of a tick. -/
def TickInput.events : TickInput → List Event
  | .failed | .noPackets => []
  | .batch arrivals now wakes => arrivals.map .packet ++ [.expiry now wakes]

/-- A responder that has received nothing yet. -/
def new (adapter : A) : Responder A B where
  toTracker := .empty
  adapter
  sent := []
  wakes := []

/-- A tick carries out its events. -/
theorem tick_eq_run (env : ResponderEnv A B) (input : TickInput) (w : Responder A B) :
    (tick env input w).2 = run env w input.events := by
  cases input with
  | failed => rfl
  | noPackets => rfl
  | batch arrivals now wakes =>
    -- the packets first, then one pass of the expiry loop
    rw [run, TickInput.events, List.foldl_append, List.foldl_map]
    change ((expire env now wakes >>= fun _ => (pure (some ()) : Handler _ _))
      (arrivals.foldl (fun w arrival => (receive env arrival w).2) w)).2 = _
    simp only [bind, pure, List.foldl_cons, List.foldl_nil, step]
    rcases h : expire env now wakes
      (arrivals.foldl (fun w arrival => (receive env arrival w).2) w) with ⟨_ | _, w'⟩ <;> rfl

end Responder

/-! ### A sample scan

One server, for the concrete runs about the theorems: the parser wants three bytes. -/

def ResponderEnv.sample : ResponderEnv Unit (List UInt8) where
  onResult := fun adapter _ _ _ => (none, adapter)
  ipOnResult := fun adapter _ => adapter
  build := fun _ _ => some [0]
  parse := fun data => if data.length < 3 then .error .incomplete else .ok (data.take 3)
  hash64 := fun _ => 0
  seed := 0
  maxReorderSegments := 2
  maxReorderBytes := 3
  timeout := 10

/-- A packet of port 25565 of `ip`, in answer to a probe from port 61000. Its sequence number is
relative to `0xffffffff`, and its acknowledgement number to the cookie. -/
def Packet.sample (ip : Ipv4Addr) (flags : TcpFlags) (seq ack : BitVec 32)
    (payload : List UInt8) : Packet where
  ip
  hdr := {
    sourcePort := 25565
    destPort := 61000
    seq := 0xffffffff + seq
    ack := cookie ip 25565 0 + ack
    flags }
  payload

/-- A sample packet whose sends all succeed. -/
def Responder.Event.sample (ip : Ipv4Addr) (now : ℕ) (flags : TcpFlags) (seq ack : BitVec 32)
    (payload : List UInt8) : Responder.Event :=
  .packet ⟨.sample ip flags seq ack payload, now, []⟩

end Farsight
