import Farsight.Responder.Replies

/-!
# The scanner and a host

A scanned host and the scanner exchange packets over a network that loses, repeats, delays and
reorders them. The scanner is the responder, with a saturator that sends the first probe. The host
is a TCP server: it has an end for each port of ours that has sent it a `SYN`, takes what is next in
sequence, and writes what its application answers to what it has read so far.

* `Host`, `Host.End` — the host, its ends of connections, what they take and what they send;
* `Dialogue` — the responder and the host, with everything either has sent;
* `Dialogue.Move` — the steps. A delivery names a packet that was sent at any time before, so loss,
  repetition and reordering need no steps of their own. A move that is not possible does nothing, so
  that every list of moves is a run;
* `FromScanner` — what every packet of the scanner is like;
* `Dialogue.host_reads_request` — the host reads our payload and nothing else.

The host is more patient than TCP. It ignores a `RST`, and it may repeat its `SYN+ACK` in any state.
What is proved for all runs holds for a host that a `RST` closes as well: such a host just makes no
more moves. But where a run is shown to exist (`Dialogue.recovery_records`), the host has to be one
that goes on. No host opens a second connection with the ports of an old one.
-/

namespace Farsight

open Responder (State Event Arrival)

/-! ### The host -/

/-- A host. `isn` are the initial sequence numbers of its ends, by our port, and `app` is what the
application has written when it has read the given bytes. -/
structure Host where
  key : Endpoint
  isn : BitVec 16 → BitVec 32
  app : List UInt8 → List UInt8
  app_mono : ∀ {read more}, read <+: more → app read <+: app more

/-- An end of a connection. -/
structure Host.End where
  /-- The number of the `SYN`. -/
  irs : Option (BitVec 32)
  received : List UInt8
  /-- How much of the answer was written to the connection. -/
  written : ℕ
  /-- Nothing more will be written. -/
  closed : Bool
  deriving DecidableEq, Repr

namespace Host

/-- Nothing has arrived yet. -/
def End.listen : End where
  irs := none
  received := []
  written := 0
  closed := false

/-- What was written to the connection. -/
def stream (host : Host) (e : End) : List UInt8 :=
  (host.app e.received).take e.written

/-- A packet arrives. A `SYN` opens the connection. Of a segment, the part from the next byte on is
taken, as far as the window goes. Other flags are not looked at, so a `RST` is ignored, and so are
acknowledgements: the end may send again what was acknowledged. -/
def End.receive (e : End) (tx : TxPacket) (window : ℕ) : End :=
  match e.irs with
  | none =>
    if tx.flags.contains .syn then { e with irs := some tx.seq } else e
  | some irs =>
    let old := (seqAt (irs + 1) e.received.length - tx.seq).toNat
    if tx.flags.contains .ack ∧ old ≤ tx.body.length then
      { e with received := e.received ++ (tx.body.drop old).take window }
    else e

/-- The application writes. -/
def write (host : Host) (e : End) (n : ℕ) : End :=
  if e.closed then e else { e with written := max e.written (min n (host.app e.received).length) }

/-- What an end can send. -/
inductive Emission where
  | synAck
  /-- A segment that starts at `offset`. It may be empty. -/
  | segment (offset length : ℕ) (push : Bool)
  /-- The rest of the stream from `offset` on, and the end of it. -/
  | fin (offset : ℕ)
  | rst (seq ack : BitVec 32)
  deriving DecidableEq, Repr

/-- A packet of the host to our port. -/
def packet (host : Host) (port : BitVec 16) (flags : TcpFlags) (seq ack : BitVec 32)
    (payload : List UInt8) : Packet where
  ip := host.key.1
  hdr := { sourcePort := host.key.2, destPort := port, seq, ack, flags }
  payload

/-- The packet, if the end can send it now. The number after the stream is that of the `FIN`. An end
that is open may send its `SYN+ACK` at any time, also after data or a `FIN`, and after a `RST` from
the scanner. -/
def emit (host : Host) (port : BitVec 16) (e : End) : Emission → Option Packet
  | .synAck => e.irs.map fun irs => host.packet port (.syn ||| .ack) (host.isn port) (irs + 1) []
  | .segment offset length push =>
    match e.irs with
    | none => none
    | some irs =>
      -- any part of the stream, also one that was sent before, with or without data
      if offset ≤ (host.stream e).length + e.closed.toNat then
        some (host.packet port (if push then .psh ||| .ack else .ack)
          (seqAt (host.isn port + 1) offset) (seqAt (irs + 1) e.received.length)
          (((host.stream e).drop offset).take length))
      else none
  | .fin offset =>
    match e.irs with
    | none => none
    | some irs =>
      -- the rest of the stream goes with the `FIN`
      if e.closed ∧ offset ≤ (host.stream e).length then
        some (host.packet port (.fin ||| .ack) (seqAt (host.isn port + 1) offset)
          (seqAt (irs + 1) e.received.length) ((host.stream e).drop offset))
      else none
  | .rst seq ack => some (host.packet port .rst seq ack [])

end Host

/-! ### The dialogue -/

variable {A B : Type}

/-- The two parties, and the packets that they have sent. Those of the responder are in it. -/
structure Dialogue (A B : Type) where
  responder : Responder A B
  /-- The ends of the host, by our port. -/
  ends : BitVec 16 → Host.End
  /-- The probes of the saturators. -/
  probes : List TxPacket
  /-- The packets of the host. -/
  wire : List Packet

namespace Dialogue

inductive Move where
  /-- A saturator probes the host. -/
  | probe (port : BitVec 16)
  /-- The host gets a packet of the scanner. -/
  | toHost (i window : ℕ)
  | write (port : BitVec 16) (n : ℕ)
  | close (port : BitVec 16)
  | emit (port : BitVec 16) (emission : Host.Emission)
  /-- The responder gets a packet of the host. -/
  | toScanner (i now : ℕ) (wakes : List Wake)
  /-- The responder gets a packet of another host. -/
  | stray (arrival : Arrival)
  | expiry (now : ℕ) (wakes : List Wake)
  deriving DecidableEq, Repr

/-- All packets of the scanner. -/
def sent (d : Dialogue A B) : List TxPacket :=
  d.probes ++ d.responder.sent

def withEnd (d : Dialogue A B) (port : BitVec 16) (e : Host.End) : Dialogue A B :=
  { d with ends := Function.update d.ends port e }

def withResponder (d : Dialogue A B) (responder : Responder A B) : Dialogue A B :=
  { d with responder }

/-- The template of the first probe. -/
def template (host : Host) (port : BitVec 16) : PacketTemplate where
  sourcePort := port
  ip := host.key.1
  destinationPort := host.key.2

def step (env : ResponderEnv A B) (host : Host) (d : Dialogue A B) : Move → Dialogue A B
  | .probe port => { d with probes := d.probes ++ [.probe (template host port) env.seed] }
  -- the network delivers any packet that was sent, at any time and as often as it likes
  | .toHost i window =>
    match d.sent[i]? with
    | none => d
    | some tx =>
      if (tx.ip, tx.port) = host.key then
        d.withEnd tx.sourcePort ((d.ends tx.sourcePort).receive tx window)
      else d
  | .write port n => d.withEnd port (host.write (d.ends port) n)
  | .close port => d.withEnd port { d.ends port with closed := true }
  | .emit port emission =>
    match host.emit port (d.ends port) emission with
    | none => d
    | some p => { d with wire := d.wire ++ [p] }
  | .toScanner i now wakes =>
    match d.wire[i]? with
    | none => d
    | some p => d.withResponder (Responder.step env d.responder (.packet ⟨p, now, wakes⟩))
  | .stray arrival =>
    -- nobody else sends with the address and port of the host
    if arrival.packet.key = host.key then d
    else d.withResponder (Responder.step env d.responder (.packet arrival))
  | .expiry now wakes => d.withResponder (Responder.step env d.responder (.expiry now wakes))

def run (env : ResponderEnv A B) (host : Host) (d : Dialogue A B) (moves : List Move) :
    Dialogue A B :=
  moves.foldl (step env host) d

/-- Nothing has been sent yet. -/
def new (adapter : A) : Dialogue A B where
  responder := .new adapter
  ends := fun _ => .listen
  probes := []
  wire := []

theorem run_append (env : ResponderEnv A B) (host : Host) (d : Dialogue A B)
    (moves moves' : List Move) :
    run env host d (moves ++ moves') = run env host (run env host d moves) moves' :=
  List.foldl_append

theorem run_concat (env : ResponderEnv A B) (host : Host) (d : Dialogue A B) (moves : List Move)
    (move : Move) : run env host d (moves ++ [move]) = step env host (run env host d moves) move :=
  List.foldl_concat (step env host) d move moves

end Dialogue

/-! ### The packets of the scanner -/

/-- The payload for a host, or nothing if it cannot be built. -/
def ResponderEnv.request (env : ResponderEnv A B) (key : Endpoint) : List UInt8 :=
  (env.build key.1 key.2).getD []

/-- A packet of the scanner: a `SYN` is numbered with the cookie, and data is the whole payload,
right after it. -/
structure FromScanner (env : ResponderEnv A B) (tx : TxPacket) : Prop where
  syn : tx.flags.contains .syn → tx.seq = cookie tx.ip tx.port env.seed
  body : tx.body ≠ [] → env.build tx.ip tx.port = some tx.body ∧
    tx.seq = cookie tx.ip tx.port env.seed + 1

theorem fromScanner_probe (env : ResponderEnv A B) (template : PacketTemplate) :
    FromScanner env (.probe template env.seed) :=
  ⟨fun _ => rfl, fun h => absurd rfl h⟩

theorem fromScanner_of_isProbe {env : ResponderEnv A B} {tx : TxPacket}
    (h : Responder.IsProbe env tx) : FromScanner env tx := by
  obtain ⟨_, _, _, _, template, _, rfl⟩ := h
  exact fromScanner_probe env template

/-- A packet without data that is no `SYN`. -/
theorem fromScanner_answer (env : ResponderEnv A B) (p : Packet) {flags : TcpFlags}
    (hflags : flags.contains .syn = false) (seq ack : BitVec 32) :
    FromScanner env (p.answer flags seq ack) :=
  ⟨fun h => absurd (hflags.symm.trans h) Bool.false_ne_true, fun h => absurd rfl h⟩

/-- Every reply of the responder is one of the scanner. Only the answer to a handshake has a body,
which is the request as a whole. -/
theorem fromScanner_of_reply {env : ResponderEnv A B} {m : Tracker B} {p : Packet} {tx : TxPacket}
    (h : Responder.Reply env m p tx) : FromScanner env tx := by
  cases h with
  | probe h => exact fromScanner_of_isProbe h
  | request payload hkind hack hbuild =>
    have hflags : ¬ (p.request payload).flags.contains .syn := by
      change ¬ TcpFlags.contains (.psh ||| .ack) .syn
      decide
    exact ⟨fun h => absurd h hflags, fun _ => ⟨hbuild, hack⟩⟩
  | refuse | stray | fin => exact fromScanner_answer env p (by decide) _ _
  | duplicate => exact fromScanner_answer env p (by decide) _ _
  | data state flags hin hflags =>
    rcases hflags with rfl | rfl
    · exact fromScanner_answer env p (by decide) _ _
    · exact fromScanner_answer env p (by decide) _ _

/-! ### What the host reads -/

/-- The end was opened by a cookie, and has read the beginning of our payload. -/
structure Host.End.Reads (env : ResponderEnv A B) (key : Endpoint) (e : End) : Prop where
  irs : ∀ irs, e.irs = some irs → irs = cookie key.1 key.2 env.seed
  received : e.received <+: env.request key

/-- The end finds its place in a segment that starts with our payload. -/
theorem Host.End.Reads.old_eq {env : ResponderEnv A B} {key : Endpoint} {e : End}
    (h : e.Reads env key) (hshort : (env.request key).length < 2 ^ 32) {irs seq : BitVec 32}
    (hirs : e.irs = some irs) (hseq : seq = cookie key.1 key.2 env.seed + 1) :
    (seqAt (irs + 1) e.received.length - seq).toNat = e.received.length := by
  have hlength := h.received.length_le.trans_lt hshort
  have hsub := @toNat_seqAt_sub_of_le 32 seq _ _ (Nat.zero_le _)
    ((Nat.sub_le e.received.length 0).trans_lt hlength)
  rw [seqAt_zero, Nat.sub_zero] at hsub
  rw [h.irs irs hirs, ← hseq, hsub]

/-- What a segment adds comes next in our payload. -/
theorem Host.End.Reads.receive {env : ResponderEnv A B} {key : Endpoint} {e : End} {tx : TxPacket}
    (h : e.Reads env key) (hshort : (env.request key).length < 2 ^ 32) (htx : FromScanner env tx)
    (hkey : (tx.ip, tx.port) = key) (window : ℕ) : (e.receive tx window).Reads env key := by
  subst hkey
  unfold End.receive
  cases hirs : e.irs with
  | none =>
    dsimp only
    split
    · next hsyn =>
      refine ⟨fun irs h => ?_, h.received⟩
      rw [← Option.some_inj.mp h]
      exact htx.syn hsyn
    · exact h
  | some irs =>
    dsimp only
    split
    · refine ⟨fun irs' h' => h.irs irs' (hirs ▸ h'), ?_⟩
      by_cases hbody : tx.body = []
      · simpa only [hbody, List.drop_nil, List.take_nil, List.append_nil] using h.received
      · -- the segment is the whole payload, so what was read before is skipped
        obtain ⟨hbuild, hseq⟩ := htx.body hbody
        have hrequest : env.request (tx.ip, tx.port) = tx.body := by
          rw [ResponderEnv.request, hbuild, Option.getD_some]
        have hold := h.old_eq hshort hirs hseq
        have hreceived := h.received
        rw [hrequest] at hreceived ⊢
        obtain ⟨rest, hrest⟩ := hreceived
        dsimp only
        rw [hold, ← hrest, List.drop_left]
        exact (List.prefix_append_right_inj _).mpr (List.take_prefix _ _)
    · exact h

namespace Dialogue

/-- The first invariant: every packet of the scanner is one, and every end reads our payload. -/
structure ReadInv (env : ResponderEnv A B) (host : Host) (d : Dialogue A B) : Prop where
  sent : ∀ tx ∈ d.sent, FromScanner env tx
  ends : ∀ port, (d.ends port).Reads env host.key

variable {env : ResponderEnv A B} {host : Host} {d : Dialogue A B}

/-- What the responder sends on an event are replies and probes, and the ends of the host do not see
it yet. -/
theorem ReadInv.withResponder (h : ReadInv env host d) (event : Event) :
    ReadInv env host (d.withResponder (Responder.step env d.responder event)) where
  sent tx htx := by
    rcases List.mem_append.mp htx with htx | htx
    · exact h.sent tx (List.mem_append_left _ htx)
    · exact Responder.forall_sent_step (fun tx htx => h.sent tx (List.mem_append_right _ htx))
        (fun _ => fromScanner_of_isProbe) (fun _ _ _ => fromScanner_of_reply) tx htx
  ends := h.ends

/-- One end of the host is replaced by one that has read a part of the request. -/
theorem ReadInv.withEnd (h : ReadInv env host d) {port : BitVec 16} {e : Host.End}
    (he : e.Reads env host.key) : ReadInv env host (d.withEnd port e) where
  sent := h.sent
  ends port' := by
    change (Function.update d.ends port e port').Reads env host.key
    by_cases hport : port' = port
    · subst hport
      rwa [Function.update_self]
    · rw [Function.update_of_ne hport]
      exact h.ends port'

/-- One move of the dialogue, whoever makes it. Only the delivery of a packet to the host changes
what it has read. -/
theorem readInv_step (hshort : (env.request host.key).length < 2 ^ 32) (move : Move)
    (h : ReadInv env host d) : ReadInv env host (step env host d move) := by
  cases move with
  | probe port =>
    -- the probe joins what the scanner has sent
    refine ⟨fun tx htx => ?_, h.ends⟩
    rcases List.mem_append.mp htx with htx | htx
    · rcases List.mem_append.mp htx with htx | htx
      · exact h.sent tx (List.mem_append_left _ htx)
      · rw [List.mem_singleton.mp htx]
        exact fromScanner_probe env _
    · exact h.sent tx (List.mem_append_right _ htx)
  | toHost i window =>
    simp only [step]
    split
    · exact h
    · next tx htx =>
      split
      · next hkey =>
        -- the packets are delivered in any order and any number of times, but each was sent by the
        -- scanner
        have hsent := h.sent tx (List.mem_of_getElem? htx)
        exact h.withEnd ((h.ends _).receive hshort hsent hkey window)
      · exact h
  | write port n =>
    refine h.withEnd ?_
    unfold Host.write
    split
    · exact h.ends port
    · exact ⟨(h.ends port).irs, (h.ends port).received⟩
  | close port => exact h.withEnd ⟨(h.ends port).irs, (h.ends port).received⟩
  | emit port emission =>
    simp only [step]
    split
    · exact h
    · exact ⟨h.sent, h.ends⟩
  | toScanner i now wakes =>
    simp only [step]
    split
    · exact h
    · exact h.withResponder _
  | stray arrival =>
    simp only [step]
    split
    · exact h
    · exact h.withResponder _
  | expiry now wakes => exact h.withResponder _

/-- After any run, the host has read a part of the request, on each of its ports. -/
theorem readInv_run (hshort : (env.request host.key).length < 2 ^ 32) (adapter : A)
    (moves : List Move) : ReadInv env host (run env host (new adapter) moves) := by
  induction moves using List.reverseRecOn with
  | nil =>
    refine ⟨fun tx htx => absurd htx List.not_mem_nil, fun port => ⟨fun irs h => ?_, ?_⟩⟩
    · cases h
    · exact List.nil_prefix
  | append_singleton moves move ih =>
    rw [run_concat]
    exact readInv_step hshort move ih

/-- **The host reads our payload and nothing else.** Whatever the network does, and whatever other
hosts send: every connection that the host has with the scanner was opened with the cookie of the
host, and the host has read a beginning of the payload for it, in order and without repetition. The
payload is shorter than the space of sequence numbers. -/
theorem host_reads_request (env : ResponderEnv A B) (host : Host) (adapter : A)
    (hshort : (env.request host.key).length < 2 ^ 32) (moves : List Move) (port : BitVec 16) :
    ((run env host (new adapter) moves).ends port).Reads env host.key :=
  (readInv_run hshort adapter moves).ends port

/-- A host that answers the first byte with three bytes. -/
def sampleHost : Host where
  key := (1, 25565)
  isn := fun port => port ++ 0xffff#16
  app := fun read => if read = [] then [] else [1, 2, 3]
  app_mono := by
    intro read more h
    by_cases hread : read = []
    · rw [if_pos hread]
      exact List.nil_prefix
    · have hmore : more ≠ [] := fun hnil => hread (List.prefix_nil.mp (hnil ▸ h))
      rw [if_neg hread, if_neg hmore]

/-- A scan of it. The last two segments of the answer arrive in the wrong order, and the first
probe, the `SYN+ACK` and our payload arrive twice. -/
def sampleMoves : List Move :=
  [.probe 61000, .toHost 0 1, .toHost 0 1, .emit 61000 .synAck, .toScanner 0 0 [],
    .toScanner 0 1 [], .toHost 1 1, .toHost 2 1, .write 61000 3, .emit 61000 (.segment 0 1 false),
    .emit 61000 (.segment 1 2 true), .toScanner 2 2 [], .toScanner 1 3 []]

theorem host_reads_request_sample :
    ((run .sample sampleHost (new ()) sampleMoves).ends 61000).received = [0] ∧
    ((run .sample sampleHost (new ()) sampleMoves).ends 61000).Reads .sample (1, 25565) :=
  ⟨by decide, host_reads_request .sample sampleHost () (by decide) sampleMoves 61000⟩

end Dialogue

end Farsight
