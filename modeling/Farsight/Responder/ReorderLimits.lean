import Farsight.Responder.Effect
import Mathlib.Algebra.Order.BigOperators.Group.List
import Mathlib.Algebra.Order.Group.Nat

/-!
# The reorder buffer

A segment that is ahead of its turn is kept in the buffer of its connection, if the buffer has room
for it and its number is less than 65535 ahead. When the turn of a buffered segment comes, the
stitching loop takes it out again.

The limits on the number of segments and on their bytes hold in every run
(`Responder.reorder_limited`), since a segment only goes into a buffer that has room for it, also
where it replaces another one.

The loop only looks for a segment that starts exactly where the last one ended. A server that cuts
its stream differently the second time may send a segment that runs past the start of a buffered
one: that one is behind from then on, and stays in the buffer for nothing. Nothing else can put a
segment behind (`Responder.reorder_ahead`).

* `State.Limited`, `State.Ahead` — the two invariants of a connection;
* `State.Reached` — where the stitching loop gets to;
* `State.NoOverrun` — neither a segment nor what is stitched after it runs past the start of a
  buffered one.
-/

namespace Farsight

namespace ReorderBuffer

variable {buffer : ReorderBuffer} {seq : BitVec 32} {payload : List UInt8}

theorem bytes_erase_le (buffer : ReorderBuffer) (seq : BitVec 32) :
    bytes (buffer.erase seq) ≤ bytes buffer :=
  ((List.kerase_sublist seq buffer.entries).map _).sum_le_sum fun _ _ => Nat.zero_le _

/-- What is replaced makes room. -/
theorem bytes_insert_le (buffer : ReorderBuffer) (seq : BitVec 32) (payload : List UInt8) :
    bytes (buffer.insert seq payload) ≤ bytes buffer + payload.length := by
  have hle := bytes_erase_le buffer seq
  have hinsert : bytes (buffer.insert seq payload) =
      payload.length + bytes (buffer.erase seq) := rfl
  omega

theorem length_insert_le (buffer : ReorderBuffer) (seq : BitVec 32) (payload : List UInt8) :
    (buffer.insert seq payload).entries.length ≤ buffer.entries.length + 1 :=
  Nat.succ_le_succ (List.kerase_sublist seq buffer.entries).length_le

end ReorderBuffer

namespace Responder

variable {A B : Type}

namespace State

variable {env : ResponderEnv A B} {state : State} {seq : BitVec 32} {payload buffered : List UInt8}

/-! ### The limits -/

/-- The buffer keeps to the limits, and has no empty segment. -/
structure Limited (env : ResponderEnv A B) (state : State) : Prop where
  segments : state.reorderBuffer.entries.length ≤ env.maxReorderSegments
  bytes : state.reorderBuffer.bytes ≤ env.maxReorderBytes
  nonempty : ∀ entry ∈ state.reorderBuffer.entries, entry.2 ≠ []

/-- The limits are checked before a segment is stored. -/
theorem Limited.bufferSegment (h : Limited env state) :
    Limited env (state.bufferSegment env seq payload) := by
  unfold State.bufferSegment
  dsimp only
  split
  · next hroom =>
    obtain ⟨-, hpayload, hsegments, hbytes⟩ := hroom
    refine ⟨?_, ?_, fun entry hentry => ?_⟩
    · exact (ReorderBuffer.length_insert_le _ _ _).trans hsegments
    · exact (ReorderBuffer.bytes_insert_le _ _ _).trans hbytes
    · -- the new entry, or one that was there under another number
      rcases List.mem_cons.mp hentry with rfl | hentry
      · exact hpayload
      · exact h.nonempty entry ((List.kerase_sublist _ _).subset hentry)
  · exact h

theorem Limited.append (h : Limited env state) : Limited env (state.append payload) :=
  ⟨h.segments, h.bytes, h.nonempty⟩

theorem Limited.takeBuffered (h : Limited env state) :
    Limited env (state.takeBuffered buffered) := by
  have hsub := List.kerase_sublist state.nextExpectedSeq state.reorderBuffer.entries
  refine Limited.append ⟨?_, ?_, ?_⟩
  · exact hsub.length_le.trans h.segments
  · exact (ReorderBuffer.bytes_erase_le _ _).trans h.bytes
  · exact fun entry hentry => h.nonempty entry (hsub.subset hentry)

theorem Limited.accept (h : Limited env state) : Limited env (state.accept payload) :=
  (stitch_rule (fun _ _ _ h => h.takeBuffered) _ h.append).1

/-! ### The stitching loop -/

/-- One turn of the stitching loop. -/
def StitchTurn (before after : State) : Prop :=
  ∃ buffered, before.reorderBuffer.lookup before.nextExpectedSeq = some buffered ∧
    after = before.takeBuffered buffered

/-- The loop ends: turn by turn it comes to a connection that allows no further turn. -/
theorem stitch_terminates (state : State) :
    Relation.ReflTransGen StitchTurn state state.stitch ∧
      ∀ after, ¬ StitchTurn state.stitch after := by
  obtain ⟨hturns, hend⟩ := stitch_rule (P := Relation.ReflTransGen StitchTurn state)
    (fun _ buffered hlookup hturns => hturns.tail ⟨buffered, hlookup, rfl⟩) state .refl
  refine ⟨hturns, ?_⟩
  rintro after ⟨buffered, hlookup, -⟩
  rw [hend] at hlookup
  contradiction

/-! ### Segments that are ahead -/

/-- Every buffered segment starts after the number that is expected next, by less than 65535. -/
def Ahead (state : State) : Prop :=
  ∀ seq ∈ state.reorderBuffer,
    0 < (seq - state.nextExpectedSeq).toNat ∧ (seq - state.nextExpectedSeq).toNat < 65535

/-- The number is inside of a segment, after its first byte. -/
def Inside (start : BitVec 32) (segment : List UInt8) (seq : BitVec 32) : Prop :=
  0 < (seq - start).toNat ∧ (seq - start).toNat < segment.length

/-- Where the stitching loop gets to from a position, if the buffer is as it is now. -/
inductive Reached (buffer : ReorderBuffer) (start : BitVec 32) : BitVec 32 → Prop
  | start : Reached buffer start start
  | next {seq : BitVec 32} {buffered : List UInt8} (hseq : Reached buffer start seq)
      (hlookup : buffer.lookup seq = some buffered) :
      Reached buffer start (seq + BitVec.ofNat 32 buffered.length)

/-- No buffered segment starts inside of the payload, or inside of one that is stitched after it. -/
structure NoOverrun (state : State) (payload : List UInt8) : Prop where
  first : ∀ seq ∈ state.reorderBuffer, ¬ Inside state.nextExpectedSeq payload seq
  stitched : ∀ start buffered,
    Reached state.reorderBuffer (state.append payload).nextExpectedSeq start →
    state.reorderBuffer.lookup start = some buffered →
      ∀ seq ∈ state.reorderBuffer, ¬ Inside start buffered seq

/-- A distance is positive between different numbers, whichever is the smaller one. -/
theorem toNat_sub_pos {start : BitVec 32} (hne : seq ≠ start) : 0 < (seq - start).toNat := by
  bv_omega

/-- A number that is ahead and not inside of the next bytes is not passed by them. -/
theorem sub_add_lt {start : BitVec 32} (hlt : (seq - start).toNat < 65535)
    (hpos : 0 < (seq - start).toNat) (hinside : ¬ Inside start payload seq) :
    (seq - (start + BitVec.ofNat 32 payload.length)).toNat < 65535 := by
  -- the segment starts ahead of `start` and not inside the payload, so it starts behind it
  have hle : payload.length ≤ (seq - start).toNat := by
    by_contra hlength
    exact hinside ⟨hpos, Nat.lt_of_not_le hlength⟩
  have hword : (BitVec.ofNat 32 payload.length).toNat = payload.length := by
    rw [BitVec.toNat_ofNat]
    exact Nat.mod_eq_of_lt (by omega)
  have hsub : seq - (start + BitVec.ofNat 32 payload.length) =
      (seq - start) - BitVec.ofNat 32 payload.length := by
    rw [BitVec.sub_sub]
  rw [hsub, BitVec.toNat_sub_of_le (by rwa [BitVec.le_def, hword])]
  omega

/-- What the stitching loop keeps of the buffer it has started with. -/
structure Stitching (buffer : ReorderBuffer) (start : BitVec 32) (state : State) : Prop where
  reached : Reached buffer start state.nextExpectedSeq
  lookup : ∀ seq segment, state.reorderBuffer.lookup seq = some segment →
    buffer.lookup seq = some segment
  near : ∀ seq ∈ state.reorderBuffer, (seq - state.nextExpectedSeq).toNat < 65535

theorem Stitching.takeBuffered {buffer : ReorderBuffer} {start : BitVec 32}
    (h : Stitching buffer start state)
    (hclear : ∀ at' buffered, Reached buffer start at' → buffer.lookup at' = some buffered →
      ∀ seq ∈ buffer, ¬ Inside at' buffered seq)
    (hlookup : state.reorderBuffer.lookup state.nextExpectedSeq = some buffered) :
    Stitching buffer start (state.takeBuffered buffered) := by
  have hfirst := h.lookup _ _ hlookup
  refine ⟨.next h.reached hfirst, fun seq segment hseq => ?_, fun seq hseq => ?_⟩
  · change (state.reorderBuffer.erase state.nextExpectedSeq).lookup seq = _ at hseq
    -- what is left in the buffer was there from the start
    by_cases heq : seq = state.nextExpectedSeq
    · rw [heq, AList.lookup_erase] at hseq
      contradiction
    · rw [AList.lookup_erase_ne heq] at hseq
      exact h.lookup seq segment hseq
  · obtain ⟨hne, hmem⟩ := AList.mem_erase.mp hseq
    have hmem' : seq ∈ buffer := by
      obtain ⟨segment, hsegment⟩ := Option.isSome_iff_exists.mp (AList.lookup_isSome.mpr hmem)
      exact AList.lookup_isSome.mp (by rw [h.lookup seq segment hsegment]; rfl)
    -- no segment starts inside the one that is taken, so all that are left lie ahead of its end
    have hinside := hclear _ _ h.reached hfirst seq hmem'
    exact sub_add_lt (h.near seq hmem) (toNat_sub_pos hne) hinside

/-- A segment in turn leaves all buffered segments ahead, if it passes none of them. -/
theorem Ahead.accept (h : state.Ahead) (hclear : state.NoOverrun payload) :
    (state.accept payload).Ahead := by
  have hstart : Stitching state.reorderBuffer
      (state.append payload).nextExpectedSeq (state.append payload) := by
    refine ⟨.start, fun _ _ hlookup => hlookup, fun seq hseq => ?_⟩
    obtain ⟨hpos, hlt⟩ := h seq hseq
    exact sub_add_lt hlt hpos (hclear.first seq hseq)
  obtain ⟨hstitching, hend⟩ := stitch_rule
    (fun _ _ hlookup hturn => hturn.takeBuffered hclear.stitched hlookup) _ hstart
  intro seq hseq
  refine ⟨toNat_sub_pos ?_, hstitching.near seq hseq⟩
  -- the loop has taken the segment whose turn it is
  rintro rfl
  exact AList.lookup_eq_none.mp hend hseq

theorem Ahead.bufferSegment (h : state.Ahead) (hseq : seq ≠ state.nextExpectedSeq) :
    (state.bufferSegment env seq payload).Ahead := by
  unfold State.bufferSegment
  dsimp only
  split
  · next hroom =>
    intro seq' hmem
    rcases (AList.mem_insert _).mp hmem with rfl | hmem
    · exact ⟨toNat_sub_pos hseq, hroom.1⟩
    · exact h seq' hmem
  · exact h

end State

/-! ### Runs -/

/-- A segment in turn meets a condition on its connection and its bytes. -/
def SegmentsMeet (C : State → List UInt8 → Prop) (w : Responder A B) : Event → Prop
  | .packet arrival => ∀ state, w.InSequence arrival.packet state → C state arrival.packet.payload
  | .expiry _ _ => True

/-- A property of connections that the buffer operations keep holds in every run whose segments in
turn keep it. -/
theorem forall_connections_of_along {env : ResponderEnv A B} {P : State → Prop}
    {C : State → List UInt8 → Prop} (hfresh : ∀ now p payload, P (.fresh env now p payload))
    (hbuffer : ∀ (state : State) seq payload, seq ≠ state.nextExpectedSeq → P state →
      P (state.bufferSegment env seq payload))
    (haccept : ∀ (state : State) payload, C state payload → P state → P (state.accept payload))
    (hexpiry : ∀ (state : State) expiresAt, P state → P { state with expiresAt }) {adapter : A}
    {events : List Event} (h : Run.Along (step env) (SegmentsMeet C) (new adapter) events) :
    ∀ key state, (run env (new adapter) events).connections key = some state → P state := by
  refine h.invariant (I := fun w => ∀ key state, w.connections key = some state → P state)
    (fun w event hsegment hw => ?_) (by rintro key state ⟨⟩)
  -- the expiry loop only removes connections
  cases event with
  | expiry now wakes =>
    intro key state hstate
    exact hw key state ((expire_spec env now wakes w).1.connections_of_some hstate)
  | packet arrival =>
    refine (receive_spec env arrival w).1.forall_connections hw (hfresh _ _) ?_ ?_ hexpiry
    · exact fun state hseq => hbuffer state _ _ hseq
    · exact fun state hin => haccept state _ (hsegment state hin)

/-- **The limits hold.** Whatever packets came, and whichever sends failed, no connection has more
than `maxReorderSegments` segments in its buffer, none of them is empty, and together they have at
most `maxReorderBytes` bytes; and the stitching loop ends on every segment in turn. -/
theorem reorder_limited (env : ResponderEnv A B) (adapter : A) (events : List Event) :
    ∀ key state, (run env (new adapter) events).connections key = some state →
      state.Limited env ∧ ∀ payload,
        Relation.ReflTransGen State.StitchTurn (state.append payload) (state.accept payload) ∧
        ∀ after, ¬ State.StitchTurn (state.accept payload) after := by
  have hall : Run.Along (step env) (SegmentsMeet fun _ _ => True) (new adapter) events :=
    Run.along_of_preserving (I := fun _ => True)
      (fun event _ w _ => ⟨by cases event <;> simp [SegmentsMeet], trivial⟩) trivial
  intro key state hstate
  refine ⟨?_, fun payload => (state.append payload).stitch_terminates⟩
  refine forall_connections_of_along (P := State.Limited env) ?_ ?_ ?_ ?_ hall key state hstate
  · exact fun now p payload => ⟨Nat.zero_le _, Nat.zero_le _, by rintro entry ⟨⟩⟩
  · exact fun state seq payload _ h => h.bufferSegment
  · exact fun state payload _ h => h.accept
  · exact fun state expiresAt h => ⟨h.segments, h.bytes, h.nonempty⟩

/-- The second byte comes before the first. -/
def reordered : List Event :=
  [.sample 1 0 (.syn ||| .ack) (-1) 1 [], .sample 1 1 .ack 1 2 [2], .sample 1 2 .ack 0 2 [1]]

/-- It waits in the buffer. -/
theorem reordered_limited :
    ∃ state, (run .sample (new ()) (reordered.take 2)).connections (1, 25565) = some state ∧
      state.reorderBuffer.entries.length = 1 ∧ state.Limited .sample :=
  ⟨_, rfl, rfl, (reorder_limited .sample () (reordered.take 2) (1, 25565) _ rfl).1⟩

/-- **Buffered segments are ahead**, in every run in which no segment in turn runs past the start of
a buffered one, by itself or with what is stitched after it. -/
theorem reorder_ahead (env : ResponderEnv A B) (adapter : A) (events : List Event)
    (h : Run.Along (step env) (SegmentsMeet State.NoOverrun) (new adapter) events) :
    ∀ key state, (run env (new adapter) events).connections key = some state → state.Ahead := by
  refine forall_connections_of_along ?_ ?_ ?_ ?_ h
  · exact fun now p payload seq hseq => absurd hseq (AList.notMem_empty seq)
  · exact fun state seq payload hseq h => h.bufferSegment hseq
  · exact fun state payload hclear h => h.accept hclear
  · exact fun state expiresAt h => h

theorem reordered_ahead :
    Run.Along (step .sample) (SegmentsMeet State.NoOverrun) (new ()) reordered ∧
    ∀ key state, (run .sample (new ()) reordered).connections key = some state → state.Ahead := by
  have hone (seq : BitVec 32) (hseq : seq ∈ (AList.insert 0 [2] ∅ : ReorderBuffer)) : seq = 0 :=
    ((AList.mem_insert _).mp hseq).resolve_right (AList.notMem_empty seq)
  have h : Run.Along (step .sample) (SegmentsMeet State.NoOverrun) (new ()) reordered := by
    refine ⟨?_, ?_, ?_, trivial⟩
    · -- the handshake finds no connection
      rintro state ⟨⟨⟩⟩
    · rintro state ⟨-, hstate, -, hseq, -⟩
      obtain rfl := Option.some.inj ((rfl : _ = some (State.mk ..)).symm.trans hstate)
      exact absurd hseq (by decide)
    · rintro state ⟨-, hstate, -, -, -⟩
      obtain rfl := Option.some.inj ((rfl : _ = some (State.mk 1 25565 [] 0xffffffff
        (cookie 1 25565 0 + 2) (AList.insert 0 [2] ∅) 10)).symm.trans hstate)
      refine ⟨fun seq hseq => ?_, fun start buffered _ hlookup seq hseq => ?_⟩
      · rw [hone seq hseq]
        exact fun h => absurd h.2 (by decide)
      · -- there is only one segment in the buffer
        have hstart := hone start (AList.lookup_isSome.mp (by rw [hlookup]; rfl))
        rw [hone seq hseq, hstart]
        exact fun h => absurd h.1 (by decide)
  exact ⟨h, reorder_ahead .sample () reordered h⟩

/-- The second byte comes first, and the server then sends both again in one segment. -/
def resegmented : List Event :=
  [.sample 1 0 (.syn ||| .ack) (-1) 1 [], .sample 1 1 .ack 1 2 [2], .sample 1 2 .ack 0 2 [1, 2]]

/-- The buffered byte is behind from then on. -/
theorem resegmented_behind :
    ∃ key state, (run .sample (new ()) resegmented).connections key = some state ∧
      ¬ state.Ahead := by
  refine ⟨(1, 25565), ⟨1, 25565, [1, 2], 1, cookie 1 25565 0 + 2,
    AList.insert 0 [2] ∅, 20⟩, rfl, fun h => ?_⟩
  exact absurd (h 0 (by decide)).2 (by decide)

end Responder

end Farsight
