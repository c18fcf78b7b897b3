import Farsight.Lib.Sequence
import Farsight.Responder.Effect

/-!
# Duplicated SYN+ACKs

A server that does not see our payload in time sends its `SYN+ACK` again. The second copy passes the
cookie check like the first, and `process_syn_ack` puts a fresh connection in the place of the one
it finds.

* `Creates`, `receive_creates` — when a `SYN+ACK` creates a connection, and that it does nothing
  else;
* `creators`, `CreatedInv` — the packets that created the connections of a run. The next expected
  number of a connection counts its data from that packet;
* `Tracker.Alike`, `Responder.Alike` — responders that differ in deadlines only. No handler of a
  packet can tell them apart (`receive_alike`);
* `Responder.duplicate_harmless_iff` — a copy of the creating packet leaves the connection as it was
  if and only if nothing was received on it yet, or the copy could not be answered; and copies that
  come at such moments change no result of a run;
* `Responder.duplicateAfterData_harmful` — a copy that comes after the first segment.
-/

namespace Farsight

open Handler

namespace Responder

variable {A B : Type}

/-! ### When a connection is created -/

/-- The first send of a handler fails. -/
def SendFails (wakes : List Wake) : Prop :=
  wakes.head? = some .failBefore ∨ wakes.head? = some .failAfter

instance (wakes : List Wake) : Decidable (SendFails wakes) :=
  inferInstanceAs (Decidable (_ ∨ _))

/-- A `SYN+ACK` that answers a probe, for which there is a payload. -/
def Answers (env : ResponderEnv A B) (p : Packet) : Prop :=
  p.kind = .synAck ∧ p.hdr.ack = cookie p.ip p.hdr.sourcePort env.seed + 1 ∧
    (env.build p.ip p.hdr.sourcePort).isSome

instance (env : ResponderEnv A B) (p : Packet) : Decidable (Answers env p) :=
  inferInstanceAs (Decidable (_ ∧ _))

/-- The packet creates a connection: the payload is sent. -/
def Creates (env : ResponderEnv A B) (arrival : Arrival) : Prop :=
  Answers env arrival.packet ∧ ¬ SendFails arrival.wakes

instance (env : ResponderEnv A B) (arrival : Arrival) : Decidable (Creates env arrival) :=
  inferInstanceAs (Decidable (_ ∧ _))

/-- The dispatch is by the kind of the packet. -/
theorem processPacket_eq (env : ResponderEnv A B) (now : ℕ) (p : Packet) :
    processPacket env now p =
      match p.kind with
      | .rst => do
        recordEmpty env p.ip p.hdr.sourcePort
        track fun m => m.remove (p.ip, p.hdr.sourcePort)
      | .fin => processFin env p.ip p.hdr p.payload
      | .synAck => processSynAck env now p.ip p.hdr
      | .ack => processAck env p.ip p.hdr p.payload
      | .other => return () := by
  unfold processPacket Packet.kind
  split_ifs <;> rfl

/-- The dispatch on the flags, for a `SYN+ACK`. -/
theorem processPacket_of_synAck (env : ResponderEnv A B) (now : ℕ) {p : Packet}
    (hkind : p.kind = .synAck) :
    processPacket env now p = processSynAck env now p.ip p.hdr := by
  rw [processPacket_eq, hkind]

/-- For a packet that answers a probe, `process_syn_ack` is one send, and then the connection. -/
theorem processSynAck_eq {env : ResponderEnv A B} {now : ℕ} {p : Packet} {payload : List UInt8}
    (hack : p.hdr.ack = cookie p.ip p.hdr.sourcePort env.seed + 1)
    (hbuild : env.build p.ip p.hdr.sourcePort = some payload) :
    processSynAck env now p.ip p.hdr = (do
      sendWithData p.ip p.hdr.destPort p.hdr.sourcePort p.hdr.ack (p.hdr.seq + 1) payload
      track fun m => (m.pushExpiry (now + env.timeout, p.key)).insert p.key
        (.fresh env now p payload)) := by
  unfold processSynAck
  dsimp only
  rw [if_neg (not_not.mpr hack), hbuild]
  rfl

/-- Sending is all that the ring and the wake-ups see of a send. -/
theorem transmit_result (packet : TxPacket) (w : Responder A B) :
    Triple (· = w) (transmit packet)
      (fun _ t => ¬ SendFails w.wakes ∧ t.toTracker = w.toTracker ∧ t.adapter = w.adapter ∧
        t.wakes = w.wakes.tail)
      fun t => SendFails w.wakes ∧ t.toTracker = w.toTracker ∧ t.adapter = w.adapter := by
  rintro _ rfl
  rename_i w
  cases hwakes : w.wakes with
  | nil =>
    simp only [transmit, hwakes]
    exact ⟨by decide, trivial, trivial, rfl⟩
  | cons wake wakes =>
    -- an error before the submission or after it: in both cases the handler stops
    cases wake with
    | ok =>
      simp only [transmit, hwakes]
      have hok : ¬ SendFails (Wake.ok :: wakes) := by
        rintro (h | h)
        · cases h
        · cases h
      exact ⟨hok, trivial, trivial, rfl⟩
    | failBefore =>
      simp only [transmit, hwakes]
      exact ⟨.inl rfl, trivial, trivial⟩
    | failAfter =>
      simp only [transmit, hwakes]
      exact ⟨.inr rfl, trivial, trivial⟩

/-- A `SYN+ACK` that answers a probe creates the connection, or does nothing when the payload cannot
be sent. -/
theorem receive_answers {env : ResponderEnv A B} (arrival : Arrival) (w : Responder A B)
    (h : Answers env arrival.packet) :
    (receive env arrival w).2.adapter = w.adapter ∧
    ∃ payload, env.build arrival.packet.ip arrival.packet.hdr.sourcePort = some payload ∧
      (receive env arrival w).2.toTracker = if SendFails arrival.wakes then w.toTracker else
        (w.toTracker.pushExpiry (arrival.now + env.timeout, arrival.packet.key)).insert
          arrival.packet.key (.fresh env arrival.now arrival.packet payload) := by
  obtain ⟨hkind, hack, hbuild⟩ := h
  obtain ⟨payload, hbuild⟩ := Option.isSome_iff_exists.mp hbuild
  -- one send, and then the connection
  have hspec : Triple (· = { w with wakes := arrival.wakes })
      (processPacket env arrival.now arrival.packet)
      (fun _ t => ¬ SendFails arrival.wakes ∧ t.toTracker =
        (w.toTracker.pushExpiry (arrival.now + env.timeout, arrival.packet.key)).insert
          arrival.packet.key (.fresh env arrival.now arrival.packet payload) ∧
        t.adapter = w.adapter)
      fun t => SendFails arrival.wakes ∧ t.toTracker = w.toTracker ∧ t.adapter = w.adapter := by
    rw [processPacket_of_synAck env _ hkind, processSynAck_eq hack hbuild]
    refine Triple.bind (transmit_result _ _) fun _ => Triple.modify fun t ht => ?_
    exact ⟨ht.1, by rw [ht.2.1], ht.2.2.1⟩
  -- the handler has returned, or it was stopped by the error of the send
  rcases hspec.cases rfl with ⟨_, -, hsent, htracker, hadapter⟩ | ⟨-, hfails, htracker, hadapter⟩
  · exact ⟨hadapter, payload, hbuild, htracker.trans (if_neg hsent).symm⟩
  · exact ⟨hadapter, payload, hbuild, htracker.trans (if_pos hfails).symm⟩

/-- A `SYN+ACK` that does not create a connection leaves the tracker as it is. -/
theorem receive_not_creates {env : ResponderEnv A B} {arrival : Arrival} {w : Responder A B}
    (hkind : arrival.packet.kind = .synAck) (h : ¬ Creates env arrival) :
    (receive env arrival w).2.toTracker = w.toTracker := by
  by_cases hanswers : Answers env arrival.packet
  · -- an answer for which no connection is there: its payload was not sent
    have hfails : SendFails arrival.wakes := by
      by_contra hsent
      exact h ⟨hanswers, hsent⟩
    obtain ⟨-, payload, -, htracker⟩ := receive_answers arrival w hanswers
    rw [htracker, if_pos hfails]
  · -- the tests of the handler fail before anything is remembered
    have hstep := (receive_spec env arrival w).1
    generalize (receive env arrival w).2.toTracker = m' at hstep ⊢
    cases hstep with
    | idle => rfl
    | create payload _ hack hbuild =>
      exact absurd ⟨hkind, hack, Option.isSome_iff_exists.mpr ⟨payload, hbuild⟩⟩ hanswers
    | close hkind' => rcases hkind' with hkind' | hkind' <;> cases hkind.symm.trans hkind'
    | reorder _ hkind' => cases hkind.symm.trans hkind'
    | finHit _ _ hkind' => cases hkind.symm.trans hkind'
    | finDrop _ hkind' => cases hkind.symm.trans hkind'
    | hit _ _ hin => cases hkind.symm.trans hin.kind
    | drop _ hin => cases hkind.symm.trans hin.kind
    | keep _ hin => cases hkind.symm.trans hin.kind
    | extend _ hin => cases hkind.symm.trans hin.kind

/-! ### The packets that created the connections -/

/-- Take note of the packet that creates a connection. -/
def noteCreator (env : ResponderEnv A B) (creators : Endpoint → Option Packet) :
    Event → Endpoint → Option Packet
  | .packet arrival =>
    if Creates env arrival then
      Function.update creators arrival.packet.key (some arrival.packet)
    else creators
  | .expiry _ _ => creators

/-- The packet that last created a connection, for every host. -/
def creators (env : ResponderEnv A B) (events : List Event) : Endpoint → Option Packet :=
  events.foldl (noteCreator env) fun _ => none

/-- The packets are noted from the left, so the last event is noted last. -/
theorem creators_append (env : ResponderEnv A B) (events : List Event) (event : Event) :
    creators env (events ++ [event]) = noteCreator env (creators env events) event :=
  List.foldl_concat (noteCreator env) _ event events

/-- The connection was created by `p`, and its number has advanced with its data. -/
structure CreatedBy (env : ResponderEnv A B) (p : Packet) (key : Endpoint) (state : State) :
    Prop where
  answers : Answers env p
  key : p.key = key
  ip : state.ip = p.ip
  port : state.port = p.hdr.sourcePort
  nextExpectedSeq : state.nextExpectedSeq = seqAt (p.hdr.seq + 1) state.data.length
  nextExpectedAck : ∀ payload, env.build p.ip p.hdr.sourcePort = some payload →
    state.nextExpectedAck = p.hdr.ack + BitVec.ofNat 32 payload.length

variable {env : ResponderEnv A B} {p : Packet} {key : Endpoint} {state : State}

/-- Data that is appended moves the expected number by just its length, which is what ties the
number to the creating packet. -/
theorem CreatedBy.append (h : CreatedBy env p key state) (bytes : List UInt8) :
    CreatedBy env p key (state.append bytes) := by
  refine ⟨h.answers, h.key, h.ip, h.port, ?_, h.nextExpectedAck⟩
  change state.nextExpectedSeq + _ = seqAt _ (state.data ++ bytes).length
  rw [h.nextExpectedSeq, seqAt_add, List.length_append]

theorem CreatedBy.takeBuffered (h : CreatedBy env p key state) (buffered : List UInt8) :
    CreatedBy env p key (state.takeBuffered buffered) := by
  have herase : CreatedBy env p key { state with
      reorderBuffer := state.reorderBuffer.erase state.nextExpectedSeq } :=
    ⟨h.answers, h.key, h.ip, h.port, h.nextExpectedSeq, h.nextExpectedAck⟩
  exact herase.append buffered

/-- A segment in sequence appends its payload and what it makes contiguous. -/
theorem CreatedBy.accept (h : CreatedBy env p key state) (payload : List UInt8) :
    CreatedBy env p key (state.accept payload) :=
  (State.stitch_rule (fun _ buffered _ h => h.takeBuffered buffered) _ (h.append payload)).1

/-- A segment out of sequence is put aside, and no number moves. -/
theorem CreatedBy.bufferSegment (h : CreatedBy env p key state) (seq : BitVec 32)
    (payload : List UInt8) : CreatedBy env p key (state.bufferSegment env seq payload) := by
  unfold State.bufferSegment
  dsimp only
  split
  · exact ⟨h.answers, h.key, h.ip, h.port, h.nextExpectedSeq, h.nextExpectedAck⟩
  · exact h

/-- Every connection was created by the packet noted for its host. -/
def CreatedInv (env : ResponderEnv A B) (creators : Endpoint → Option Packet) (m : Tracker B) :
    Prop :=
  ∀ key state, m.connections key = some state →
    ∃ p, creators key = some p ∧ CreatedBy env p key state

theorem CreatedInv.insert {creators : Endpoint → Option Packet} {m : Tracker B}
    (h : CreatedInv env creators m) (hp : creators key = some p)
    (hcreated : CreatedBy env p key state) : CreatedInv env creators (m.insert key state) :=
  Tracker.forall_insert h ⟨p, hp, hcreated⟩

theorem CreatedInv.remove {creators : Endpoint → Option Packet} {m : Tracker B}
    (h : CreatedInv env creators m) (key : Endpoint) :
    CreatedInv env creators (m.remove key) :=
  fun key' state' hstate' => h key' state' (Tracker.connections_of_remove hstate')

/-- A packet that is not a `SYN+ACK` creates nothing. -/
theorem CreatedInv.packet {creators : Endpoint → Option Packet} {m m' : Tracker B} {now : ℕ}
    {q : Packet} (h : CreatedInv env creators m) (hstep : m.PacketStep env now q m')
    (hkind : q.kind ≠ .synAck) : CreatedInv env creators m' := by
  -- a segment only advances the number, and the rest removes
  cases hstep with
  | idle => exact h
  | create payload hkind' => exact absurd hkind' hkind
  | close => exact h.remove q.key
  -- the connection is written back with the segment put aside
  | reorder state _ hstate =>
    obtain ⟨p, hp, hcreated⟩ := h _ _ hstate
    exact h.insert hp (hcreated.bufferSegment q.hdr.seq q.payload)
  | hit state banner hin => exact h.remove q.key
  | drop state hin => exact h.remove q.key
  | keep state hin =>
    obtain ⟨p, hp, hcreated⟩ := h _ _ hin.connection
    exact h.insert hp (hcreated.accept q.payload)
  -- only the deadline differs from the case before
  | extend state hin =>
    obtain ⟨p, hp, hcreated⟩ := h _ _ hin.connection
    have haccept := hcreated.accept q.payload
    exact h.insert hp ⟨haccept.answers, haccept.key, haccept.ip, haccept.port,
      haccept.nextExpectedSeq, haccept.nextExpectedAck⟩
  | finHit state banner => exact h.remove q.key
  | finDrop state => exact h.remove q.key

/-- Only a `SYN+ACK` writes to both sides, the note and the connection; with any other event the
note stays and the connection is followed by its cases. -/
theorem CreatedInv.step {events : List Event} {w : Responder A B} {event : Event}
    (h : CreatedInv env (creators env events) w.toTracker) :
    CreatedInv env (creators env (events ++ [event])) (step env w event).toTracker := by
  rw [creators_append]
  cases event with
  -- an expiry pass only removes connections
  | expiry now wakes =>
    intro key state hstate
    exact h key state ((expire_spec env now wakes w).1.connections_of_some hstate)
  | packet arrival =>
    rw [noteCreator]
    split
    · next hcreates =>
      -- a new connection, and its packet is noted
      obtain ⟨-, payload, hbuild, htracker⟩ := receive_answers arrival w hcreates.1
      rw [if_neg hcreates.2] at htracker
      rw [Responder.step, htracker]
      intro key state hstate
      rw [Tracker.connections_insert, Tracker.connections_pushExpiry] at hstate
      by_cases hkey : key = arrival.packet.key
      · subst hkey
        rw [Function.update_self] at hstate ⊢
        cases hstate
        refine ⟨arrival.packet, rfl, hcreates.1, rfl, rfl, rfl, ?_, fun payload' hbuild' => ?_⟩
        · -- no data yet: the expected number is the one after the `SYN`
          change arrival.packet.hdr.seq + 1 = seqAt _ 0
          rw [seqAt_zero]
        · cases hbuild.symm.trans hbuild'
          rfl
      · rw [Function.update_of_ne hkey] at hstate ⊢
        exact h key state hstate
    · next hcreates =>
      -- a `SYN+ACK` that creates nothing leaves all as it is
      by_cases hkind : arrival.packet.kind = .synAck
      · rw [Responder.step, receive_not_creates hkind hcreates]
        exact h
      · exact h.packet (receive_spec env arrival w).1 hkind

/-- In every run each connection is known with the packet that created it, which is the one that a
duplicate has to be compared with. -/
theorem createdInv_run (env : ResponderEnv A B) (adapter : A) (events : List Event) :
    CreatedInv env (creators env events) (run env (new adapter) events).toTracker := by
  -- the creators are those of the whole past
  induction events using List.reverseRecOn with
  | nil => exact fun _ _ hstate => by cases hstate
  | append_singleton events event ih =>
    rw [run_concat]
    exact ih.step

/-! ### Responders that differ in deadlines -/

/-- The connection with another deadline. -/
def State.withExpiry (state : State) (expiresAt : ℕ) : State :=
  { state with expiresAt }

/-- The limits of the reorder buffer do not look at the deadline. -/
theorem State.bufferSegment_withExpiry (state : State) (expiresAt : ℕ) (seq : BitVec 32)
    (payload : List UInt8) :
    (state.withExpiry expiresAt).bufferSegment env seq payload =
      (state.bufferSegment env seq payload).withExpiry expiresAt := by
  unfold State.bufferSegment
  -- the tests do not read the deadline
  change (if seq - state.nextExpectedSeq < 65535#32 ∧ payload ≠ [] ∧
    state.reorderBuffer.entries.length < env.maxReorderSegments ∧
    state.reorderBuffer.bytes + payload.length ≤ env.maxReorderBytes then _ else _) = _
  dsimp only
  split
  · rfl
  · rfl

/-- Neither does the loop that takes contiguous segments out of it. -/
theorem State.stitchLoop_withExpiry (fuel : ℕ) (state : State) (expiresAt : ℕ) :
    stitchLoop fuel (state.withExpiry expiresAt) =
      (stitchLoop fuel state).withExpiry expiresAt := by
  induction fuel generalizing state with
  | zero => rfl
  | succ fuel ih =>
    -- the loop does not look at the expiry
    have hlookup : (state.withExpiry expiresAt).reorderBuffer.lookup
        (state.withExpiry expiresAt).nextExpectedSeq =
        state.reorderBuffer.lookup state.nextExpectedSeq := rfl
    rw [stitchLoop, stitchLoop, hlookup]
    cases state.reorderBuffer.lookup state.nextExpectedSeq with
    | none => rfl
    | some buffered => exact ih (state.takeBuffered buffered)

/-- Hence a segment in sequence does the same to two connections that differ in the deadline. -/
theorem State.accept_withExpiry (state : State) (expiresAt : ℕ) (payload : List UInt8) :
    (state.withExpiry expiresAt).accept payload =
      (state.accept payload).withExpiry expiresAt :=
  stitchLoop_withExpiry _ (state.append payload) expiresAt

end Responder

/-- The trackers differ in the deadlines of connections and in the expiry queue only. -/
structure Tracker.Alike {B : Type} (m m' : Tracker B) : Prop where
  connections : ∀ key, Option.Rel (fun state state' => ∃ expiresAt,
    state' = Responder.State.withExpiry state expiresAt) (m.connections key) (m'.connections key)
  scanlings : m.scanlings = m'.scanlings

namespace Tracker.Alike

variable {B : Type} {m m' : Tracker B}

theorem refl (m : Tracker B) : m.Alike m := by
  refine ⟨fun key => ?_, rfl⟩
  cases m.connections key with
  | none => exact .none
  | some state => exact .some ⟨state.expiresAt, rfl⟩

theorem insert (h : m.Alike m') (key : Endpoint) (state : Responder.State) (expiresAt : ℕ) :
    (m.insert key state).Alike (m'.insert key (state.withExpiry expiresAt)) := by
  refine ⟨fun key' => ?_, h.scanlings⟩
  rw [connections_insert, connections_insert]
  by_cases hkey : key' = key
  · subst hkey
    rw [Function.update_self, Function.update_self]
    exact .some ⟨expiresAt, rfl⟩
  · rw [Function.update_of_ne hkey, Function.update_of_ne hkey]
    exact h.connections key'

theorem remove (h : m.Alike m') (key : Endpoint) : (m.remove key).Alike (m'.remove key) := by
  refine ⟨fun key' => ?_, h.scanlings⟩
  rw [connections_remove, connections_remove]
  by_cases hkey : key' = key
  · rw [hkey, Function.update_self, Function.update_self]
    exact .none
  · rw [Function.update_of_ne hkey, Function.update_of_ne hkey]
    exact h.connections key'

theorem pushExpiry (h : m.Alike m') (expiry expiry' : Expiry) :
    (m.pushExpiry expiry).Alike (m'.pushExpiry expiry') :=
  ⟨h.connections, h.scanlings⟩

theorem pushParsed (h : m.Alike m') (call call' : Parsed) :
    (m.pushParsed call).Alike (m'.pushParsed call') :=
  ⟨h.connections, h.scanlings⟩

theorem pushScanling (h : m.Alike m') (scanling : Scanling B) :
    (m.pushScanling scanling).Alike (m'.pushScanling scanling) :=
  ⟨h.connections, congrArg (· ++ [scanling]) h.scanlings⟩

theorem connection_cases (h : m.Alike m') (key : Endpoint) :
    (m.connections key = none ∧ m'.connections key = none) ∨
    ∃ state expiresAt, m.connections key = some state ∧
      m'.connections key = some (Responder.State.withExpiry state expiresAt) := by
  have hrel := h.connections key
  generalize m.connections key = o at hrel ⊢
  generalize m'.connections key = o' at hrel ⊢
  cases hrel with
  | none => exact .inl ⟨rfl, rfl⟩
  | some hstate =>
    obtain ⟨expiresAt, rfl⟩ := hstate
    exact .inr ⟨_, expiresAt, rfl, rfl⟩

end Tracker.Alike

namespace Responder

variable {A B : Type} {env : ResponderEnv A B}

/-- The responders differ in deadlines, and in what they have sent. -/
structure Alike (w w' : Responder A B) : Prop where
  tracker : w.toTracker.Alike w'.toTracker
  adapter : w.adapter = w'.adapter

/-- The same, in the middle of a handler. -/
structure AlikeSending (w w' : Responder A B) : Prop extends Alike w w' where
  wakes : w.wakes = w'.wakes

/-- A send succeeds or fails by the wake-ups that are to come, which are the same. What is sent may
differ: the sequence numbers of an answer are not compared. -/
theorem transmit_alike (packet packet' : TxPacket) :
    Sim (σ := Responder A B) AlikeSending (transmit packet) (transmit packet') := by
  intro w w' h
  unfold transmit
  rw [← h.wakes]
  split
  · exact ⟨rfl, ⟨h.tracker, h.adapter⟩, rfl⟩
  · exact ⟨rfl, ⟨h.tracker, h.adapter⟩, rfl⟩
  · exact ⟨rfl, ⟨h.tracker, h.adapter⟩, rfl⟩
  · exact ⟨rfl, ⟨h.tracker, h.adapter⟩, rfl⟩

/-- A change of what is remembered keeps likeness if it keeps that of the trackers. -/
theorem track_alike {f g : Tracker B → Tracker B}
    (h : ∀ m m', m.Alike m' → (f m).Alike (g m')) :
    Sim (σ := Responder A B) AlikeSending (track f) (track g) :=
  Sim.modify fun _ _ hw => ⟨⟨h _ _ hw.tracker, hw.adapter⟩, hw.wakes⟩

/-- The adapters are equal, so they return the same next probe. -/
theorem record_alike (env : ResponderEnv A B) (ip : Ipv4Addr) (port : BitVec 16)
    (hash : Option (BitVec 64)) :
    Sim AlikeSending (record env ip port hash) (record env ip port hash) := by
  refine Sim.get_bind fun w w' h => ?_
  dsimp only
  rw [← h.adapter]
  refine Sim.bind (Sim.modify fun _ _ hw => ⟨⟨hw.tracker, rfl⟩, hw.wakes⟩) fun _ => ?_
  split
  · exact Sim.pure
  · exact transmit_alike _ _

theorem ipOnResult_alike (env : ResponderEnv A B) (ip : Ipv4Addr) :
    Sim (σ := Responder A B) AlikeSending
      (Handler.modify fun w => { w with adapter := env.ipOnResult w.adapter ip })
      (Handler.modify fun w => { w with adapter := env.ipOnResult w.adapter ip }) :=
  Sim.modify fun _ _ hw => ⟨⟨hw.tracker, congrArg (env.ipOnResult · ip) hw.adapter⟩, hw.wakes⟩

section

variable (env : ResponderEnv A B) (now : ℕ) (ip : Ipv4Addr) (hdr : TcpHdr) (payload : List UInt8)

/-- A `SYN+ACK` is judged by its own numbers and by the cookie, not by what is remembered. -/
theorem processSynAck_alike :
    Sim AlikeSending (processSynAck env now ip hdr) (processSynAck env now ip hdr) := by
  unfold processSynAck
  dsimp only
  split
  · exact record_alike env _ _ _
  · split
    · refine Sim.bind (transmit_alike _ _) fun _ => ?_
      exact Sim.bind (record_alike env _ _ _) fun _ => Sim.fail
    · refine Sim.bind (transmit_alike _ _) fun _ => ?_
      exact track_alike fun _ _ h => (h.pushExpiry _ _).insert _ _ _

/-- A `FIN` hands the data so far to the parser, and the data is the same on both sides. -/
theorem processFin_alike :
    Sim AlikeSending (processFin env ip hdr payload) (processFin env ip hdr payload) := by
  -- the reset is sent first, and then the connection is removed
  unfold processFin
  dsimp only
  refine Sim.bind (transmit_alike _ _) fun _ => ?_
  refine Sim.get_bind fun w w' h => ?_
  refine Sim.bind (track_alike fun _ _ h => h.remove _) fun _ => ?_
  -- both have the connection or neither has
  rcases h.tracker.connection_cases (ip, hdr.sourcePort) with ⟨hnone, hnone'⟩ |
    ⟨state, expiresAt, hsome, hsome'⟩
  · rw [hnone, hnone']
    exact record_alike env _ _ _
  · rw [hsome, hsome']
    dsimp only
    split
    · exact record_alike env _ _ _
    · refine Sim.bind (track_alike fun _ _ h => h.pushParsed _ _) fun _ => ?_
      rw [show (state.withExpiry expiresAt).data = state.data from rfl]
      cases env.parse (state.data ++ payload) with
      | ok banner =>
        refine Sim.bind (ipOnResult_alike env _) fun _ => ?_
        refine Sim.bind (record_alike env _ _ _) fun _ => ?_
        exact track_alike fun _ _ h => h.pushScanling _
      | error e => exact record_alike env _ _ _

/-- Every comparison of `process_ack` is with the expected numbers and the data, which are the same
on both sides. The deadline is only written. -/
theorem processAck_alike :
    Sim AlikeSending (processAck env ip hdr payload) (processAck env ip hdr payload) := by
  -- the connection is looked up once, at the start
  unfold processAck
  dsimp only
  refine Sim.get_bind fun w w' h => ?_
  rcases h.tracker.connection_cases (ip, hdr.sourcePort) with ⟨hnone, hnone'⟩ |
    ⟨state, expiresAt, hsome, hsome'⟩
  · rw [hnone, hnone']
    exact Sim.bind (record_alike env _ _ _) fun _ => transmit_alike _ _
  · rw [hsome, hsome']
    -- stitching does not look at the deadline
    have haccept : ((state.withExpiry expiresAt).append payload).stitch =
        ((state.append payload).stitch).withExpiry expiresAt := state.accept_withExpiry expiresAt _
    dsimp only
    rw [haccept, State.bufferSegment_withExpiry]
    generalize (state.append payload).stitch = accepted
    -- the three tests of the source, in its order
    change Sim _ _ (if hdr.ack ≠ state.nextExpectedAck then _
      else if hdr.seq ≠ state.nextExpectedSeq then _ else if payload = [] then _ else _)
    split
    · exact Sim.pure
    · split
      · refine Sim.bind (track_alike fun _ _ h => h.insert _ _ _) fun _ => ?_
        exact transmit_alike _ _
      · split
        · exact Sim.pure
        · refine Sim.bind (track_alike fun _ _ h => (h.insert _ _ _).pushParsed _ _) fun _ => ?_
          rw [show (accepted.withExpiry expiresAt).data = accepted.data from rfl]
          cases env.parse accepted.data with
          -- a result: the connection is reset and the strategies are told
          | ok banner =>
            refine Sim.bind (track_alike fun _ _ h => h.remove _) fun _ => ?_
            refine Sim.bind (transmit_alike _ _) fun _ => ?_
            refine Sim.bind (ipOnResult_alike env _) fun _ => ?_
            refine Sim.bind (record_alike env _ _ _) fun _ => ?_
            exact track_alike fun _ _ h => h.pushScanling _
          | error e =>
            cases e with
            | invalid =>
              refine Sim.bind (record_alike env _ _ _) fun _ => ?_
              refine Sim.bind (track_alike fun _ _ h => h.remove _) fun _ => ?_
              exact transmit_alike _ _
            | incomplete =>
              -- each deadline is extended from its own
              refine Sim.bind (track_alike fun _ _ h => (h.insert _ _
                (expiresAt + env.timeout)).pushExpiry _ _) fun _ => ?_
              exact transmit_alike _ _

/-- No handler tells the two apart. -/
theorem processPacket_alike (p : Packet) :
    Sim AlikeSending (processPacket env now p) (processPacket env now p) := by
  unfold processPacket
  split
  · refine Sim.bind (record_alike env _ _ _) fun _ => ?_
    exact track_alike fun _ _ h => h.remove _
  · split
    · exact processFin_alike env _ _ _
    · split
      · exact processSynAck_alike env _ _ _
      · split
        · exact processAck_alike env _ _ _
        · exact Sim.pure

end

/-- No packet tells alike responders apart. -/
theorem receive_alike (env : ResponderEnv A B) (arrival : Arrival) {w w' : Responder A B}
    (h : Alike w w') : Alike (receive env arrival w).2 (receive env arrival w').2 := by
  have hsending : AlikeSending { w with wakes := arrival.wakes }
      { w' with wakes := arrival.wakes } := ⟨⟨h.tracker, h.adapter⟩, rfl⟩
  exact (processPacket_alike env arrival.now arrival.packet _ _ hsending).2.toAlike

/-! ### Copies of the creating packet -/

/-- The connection is there, with the data, the number and the buffer of `state`. -/
def Unharmed (state : State) (connection : Option State) : Prop :=
  ∃ state' ∈ connection, state'.data = state.data ∧
    state'.nextExpectedSeq = state.nextExpectedSeq ∧ state'.reorderBuffer = state.reorderBuffer

/-- Nothing was received on the connection yet, or the copy cannot be answered. -/
def Untouched (state : State) (wakes : List Wake) : Prop :=
  SendFails wakes ∨ (state.data = [] ∧ state.reorderBuffer = ∅)

/-- A connection on which nothing was received is as its packet created it. -/
theorem CreatedBy.eq_fresh {p : Packet} {key : Endpoint} {state : State} {payload : List UInt8}
    (h : CreatedBy env p key state) (hdata : state.data = []) (hbuffer : state.reorderBuffer = ∅)
    (hbuild : env.build p.ip p.hdr.sourcePort = some payload) (now : ℕ) :
    State.fresh env now p payload = state.withExpiry (now + env.timeout) := by
  have hseq := h.nextExpectedSeq
  rw [hdata, List.length_nil, seqAt_zero] at hseq
  unfold State.fresh State.withExpiry
  rw [h.ip, h.port, hdata, hseq, h.nextExpectedAck payload hbuild, hbuffer]

/-- A copy puts the connection back to how its packet created it. That is no change if and only if
nothing has happened to it since. -/
theorem duplicate_unharmed_iff {p : Packet} {key : Endpoint} {state : State} {w : Responder A B}
    (h : CreatedBy env p key state) (hstate : w.connections key = some state) (now : ℕ)
    (wakes : List Wake) :
    Unharmed state ((step env w (.packet ⟨p, now, wakes⟩)).connections key) ↔
      Untouched state wakes := by
  obtain ⟨-, payload, hbuild, htracker⟩ :=
    receive_answers ⟨p, now, wakes⟩ w h.answers
  rw [step, htracker]
  -- a copy that cannot be answered changes nothing
  by_cases hfails : SendFails wakes
  · rw [if_pos hfails]
    exact ⟨fun _ => .inl hfails, fun _ => ⟨state, hstate, rfl, rfl, rfl⟩⟩
  · rw [if_neg hfails, Tracker.connections_insert, show (Arrival.packet _).key = key from h.key,
      Function.update_self]
    constructor
    · -- the fresh connection has received nothing, so neither had the old one
      rintro ⟨_, hfresh, hdata, -, hbuffer⟩
      cases hfresh
      exact .inr ⟨hdata.symm, hbuffer.symm⟩
    · rintro (hsent | ⟨hdata, hbuffer⟩)
      · exact absurd hsent hfails
      · rw [h.eq_fresh hdata hbuffer hbuild]
        exact ⟨_, rfl, rfl, rfl, rfl⟩

/-- A run of packets, and the same run with copies of creating packets put in, each at a moment at
which nothing was received yet on the connection. -/
inductive WithDuplicates (env : ResponderEnv A B) (adapter : A) :
    List Event → List Event → Prop
  | nil : WithDuplicates env adapter [] []
  | packet {events events' : List Event} (arrival : Arrival)
      (h : WithDuplicates env adapter events events') :
      WithDuplicates env adapter (events ++ [.packet arrival]) (events' ++ [.packet arrival])
  | duplicate {events events' : List Event} (arrival : Arrival) (state : State)
      (h : WithDuplicates env adapter events events')
      (hstate : (run env (new adapter) events').connections arrival.packet.key = some state)
      (hcreator : creators env events' arrival.packet.key = some arrival.packet)
      (huntouched : Untouched state arrival.wakes) :
      WithDuplicates env adapter events (events' ++ [.packet arrival])

/-- A copy that finds the connection untouched leaves an alike responder. -/
theorem Alike.duplicate {w w' : Responder A B} {arrival : Arrival} {state : State}
    (h : Alike w w') (hstate : w'.connections arrival.packet.key = some state)
    (hcreated : CreatedBy env arrival.packet arrival.packet.key state)
    (huntouched : Untouched state arrival.wakes) :
    Alike w (receive env arrival w').2 := by
  obtain ⟨hadapter, payload, hbuild, htracker⟩ := receive_answers arrival w' hcreated.answers
  refine ⟨?_, h.adapter.trans hadapter.symm⟩
  rw [htracker]
  -- the copy is not answered, or it makes a fresh connection
  split
  · exact h.tracker
  · next hsent =>
    obtain ⟨hdata, hbuffer⟩ := huntouched.resolve_left hsent
    rw [hcreated.eq_fresh hdata hbuffer hbuild]
    -- the connection on the other side differs in the deadline only
    refine ⟨fun key => ?_, h.tracker.scanlings⟩
    rw [Tracker.connections_insert, Tracker.connections_pushExpiry]
    by_cases hkey : key = arrival.packet.key
    · subst hkey
      rw [Function.update_self]
      rcases h.tracker.connection_cases arrival.packet.key with ⟨-, hnone⟩ |
        ⟨state₀, expiresAt, hsome, hsome'⟩
      · cases hnone.symm.trans hstate
      · cases hsome'.symm.trans hstate
        rw [hsome]
        exact .some ⟨_, rfl⟩
    · rw [Function.update_of_ne hkey]
      exact h.tracker.connections key

/-- By induction on how the copies came in: one that is harmless leaves the two runs alike, and
every other event is the same in both. -/
theorem WithDuplicates.alike {adapter : A} {events events' : List Event}
    (h : WithDuplicates env adapter events events') :
    Alike (run env (new adapter) events) (run env (new adapter) events') := by
  induction h with
  | nil => exact ⟨.refl _, rfl⟩
  | packet arrival h ih =>
    rw [run_concat, run_concat]
    exact receive_alike env arrival ih
  | @duplicate events events' arrival state h hstate hcreator huntouched ih =>
    -- the copy is of the packet that created the connection it finds
    obtain ⟨p, hp, hcreated⟩ := createdInv_run env adapter events' _ _ hstate
    cases hp.symm.trans hcreator
    rw [run_concat]
    exact ih.duplicate hstate hcreated huntouched

/-- **When a duplicated `SYN+ACK` is harmless.** In every state that is reached, a copy of the
packet that created a connection leaves its data, its number and its buffer as they were if and only
if nothing was received on it yet, or the copy cannot be answered. Copies that come at such moments
do not change the results of a run of packets. -/
theorem duplicate_harmless_iff (env : ResponderEnv A B) (adapter : A) :
    (∀ events key state, (run env (new adapter) events).connections key = some state →
      ∃ p, creators env events key = some p ∧ ∀ now wakes,
        (Unharmed state ((run env (new adapter)
          (events ++ [.packet ⟨p, now, wakes⟩])).connections key) ↔ Untouched state wakes)) ∧
    ∀ events events', WithDuplicates env adapter events events' →
      (run env (new adapter) events').scanlings = (run env (new adapter) events).scanlings := by
  constructor
  · intro events key state hstate
    -- the packet that created the connection, sent once more
    obtain ⟨p, hp, hcreated⟩ := createdInv_run env adapter events key state hstate
    refine ⟨p, hp, fun now wakes => ?_⟩
    rw [run_concat]
    exact duplicate_unharmed_iff hcreated hstate now wakes
  · intro events events' h
    exact h.alike.tracker.scanlings.symm

/-- A server that sends its `SYN+ACK` again after the first byte. -/
def firstByte : List Event :=
  [.sample 1 0 (.syn ||| .ack) (-1) 1 [], .sample 1 1 .ack 0 2 [1]]

/-- A copy that comes after the first byte: the byte is lost, and with it the result. -/
theorem duplicateAfterData_harmful :
    ∃ state, (run .sample (new ()) firstByte).connections (1, 25565) = some state ∧
      creators .sample firstByte (1, 25565) = some (.sample 1 (.syn ||| .ack) (-1) 1 []) ∧
      ¬ Unharmed state ((run .sample (new ())
        (firstByte ++ [.sample 1 2 (.syn ||| .ack) (-1) 1 []])).connections (1, 25565)) ∧
      (run .sample (new ()) (firstByte ++ [.sample 1 3 .ack 1 2 [2, 3]])).scanlings =
        [⟨1, 25565, [1, 2, 3]⟩] ∧
      (run .sample (new ()) (firstByte ++ [.sample 1 2 (.syn ||| .ack) (-1) 1 [],
        .sample 1 3 .ack 1 2 [2, 3]])).scanlings = [] := by
  refine ⟨⟨1, 25565, [1], 0, cookie 1 25565 0 + 2, ∅, 20⟩, rfl, by decide, ?_, by decide, by decide⟩
  rintro ⟨state', hstate', hdata, -⟩
  -- the byte that was read is gone, and the host does not send it again
  have hfresh : (run .sample (new ()) (firstByte ++
      [.sample 1 2 (.syn ||| .ack) (-1) 1 []])).connections (1, 25565) =
      some ⟨1, 25565, [], 0xffffffff, cookie 1 25565 0 + 2, ∅, 12⟩ := rfl
  cases hfresh.symm.trans hstate'
  cases hdata

end Responder

end Farsight
