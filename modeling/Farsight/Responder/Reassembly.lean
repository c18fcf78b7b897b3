import Farsight.Lib.Sequence
import Farsight.Responder.Effect

/-!
# Reassembly

The responder collects what a host says whatever the order in which the segments arrive, and however
often.

* `Flow` — a stream cut into non-empty segments, with the numbers it has on a connection;
* `Flow.Collects` — a connection that has received a set of segments. Its data are the segments
  before the first one that is missing, and the reorder buffer holds exactly those received after
  it;
* `Flow.Collects.deliver` — one more segment, in any order. A segment that is new fits into the
  buffer, since the buffer and the missing segment are parts of one flow;
* `Flow.Progress` — a connection until and after the verdict of the parser, with
  `Flow.Progress.deliver` for one segment and `Flow.progress_run` for a run;
* `Flow.reassembly` — once every segment was delivered, the results are those of the whole stream.

The parser is any parser whose verdicts stand when more bytes follow (`Stable`).
-/

namespace Farsight

open Segments
open Responder (State Event Arrival)

variable {A B : Type}

/-- Verdicts of the parser are not changed by bytes that follow. -/
def ResponderEnv.Stable (env : ResponderEnv A B) : Prop :=
  ∀ data more, env.parse data ≠ .error .incomplete → env.parse (data ++ more) = env.parse data

/-- What a host sends on a connection: a stream shorter than the reordering window, cut into
segments. `start` is the number of its first byte, and `ack` is the acknowledgement number that
every segment carries. -/
structure Flow where
  key : Endpoint
  start : BitVec 32
  ack : BitVec 32
  segments : List (List UInt8)
  segments_ne : ∀ segment ∈ segments, segment ≠ []
  short : segments.flatten.length < 65535

namespace Flow

variable {flow : Flow} {i j k : ℕ} {received : Set ℕ} {state : State} {env : ResponderEnv A B}

/-- The position of segment `k` in the stream. -/
def offset (flow : Flow) (k : ℕ) : ℕ :=
  (upTo flow.segments k).length

/-- The number of segment `k`. -/
def seq (flow : Flow) (k : ℕ) : BitVec 32 :=
  seqAt flow.start (flow.offset k)

theorem lt_length {segment : List UInt8} (h : flow.segments[k]? = some segment) :
    k < flow.segments.length :=
  (List.getElem?_eq_some_iff.mp h).1

/-- The flow is shorter than the window, so an offset tells segments apart also after the numbers
have wrapped. -/
theorem offset_lt (flow : Flow) (k : ℕ) : flow.offset k < 65535 :=
  (upTo_length_le flow.segments k).trans_lt flow.short

theorem offset_lt_offset (hki : k < i) (hi : i ≤ flow.segments.length) :
    flow.offset k < flow.offset i :=
  upTo_length_lt flow.segments_ne hki hi

theorem offset_succ {segment : List UInt8} (h : flow.segments[k]? = some segment) :
    flow.offset (k + 1) = flow.offset k + segment.length := by
  rw [offset, upTo_succ h, List.length_append, offset]

theorem seq_succ {segment : List UInt8} (h : flow.segments[k]? = some segment) :
    flow.seq (k + 1) = flow.seq k + BitVec.ofNat 32 segment.length := by
  rw [seq, offset_succ h, seq, seqAt_add]

theorem seq_inj (hi : i ≤ flow.segments.length) (hj : j ≤ flow.segments.length)
    (h : flow.seq i = flow.seq j) : i = j := by
  have hoffset : flow.offset i = flow.offset j :=
    seqAt_inj ((flow.offset_lt i).trans (by decide)) ((flow.offset_lt j).trans (by decide)) h
  -- positions of different segments differ, and their numbers do not wrap
  rcases lt_trichotomy i j with hij | hij | hij
  · exact absurd hoffset (offset_lt_offset hij hj).ne
  · exact hij
  · exact absurd hoffset (offset_lt_offset hij hi).ne'

/-- A segment is in the window of an earlier one. -/
theorem seq_sub_lt_of_le (hki : k ≤ i) (hi : i ≤ flow.segments.length) :
    flow.seq i - flow.seq k < 65535#32 := by
  have hle : flow.offset k ≤ flow.offset i := by
    rcases hki.lt_or_eq with hki | rfl
    · exact (offset_lt_offset hki hi).le
    · exact le_rfl
  have hlt := flow.offset_lt i
  rw [BitVec.lt_def, seq, seq, toNat_seqAt_sub_of_le hle (by omega)]
  exact (Nat.sub_le _ _).trans_lt hlt

/-- A segment is not in the window of a later one. -/
theorem not_seq_sub_lt_of_lt (hik : i < k) (hk : k ≤ flow.segments.length) :
    ¬ flow.seq i - flow.seq k < 65535#32 := by
  have hlt := offset_lt_offset hik hk
  have hshort := flow.offset_lt k
  rw [BitVec.lt_def, seq, seq, toNat_seqAt_sub_of_lt hlt (by omega)]
  change ¬ _ < 65535
  omega

/-! ### A connection that collects a flow -/

/-- The connection has received the segments in `received`. All those before `k` are in its data,
and the buffer holds exactly the others. -/
structure Stitches (flow : Flow) (received : Set ℕ) (k : ℕ) (state : State) : Prop where
  le : k ≤ flow.segments.length
  below : ∀ i < k, i ∈ received
  data : state.data = upTo flow.segments k
  nextExpectedSeq : state.nextExpectedSeq = flow.seq k
  nextExpectedAck : state.nextExpectedAck = flow.ack
  buffer : ∀ seq segment, state.reorderBuffer.lookup seq = some segment ↔
    ∃ i, k ≤ i ∧ i ∈ received ∧ flow.segments[i]? = some segment ∧ flow.seq i = seq

/-- Segment `k` is the first one that is missing. -/
structure Collects (flow : Flow) (received : Set ℕ) (k : ℕ) (state : State) : Prop
    extends Stitches flow received k state where
  missing : k < flow.segments.length → k ∉ received

/-- One turn of the stitching loop. -/
theorem Stitches.takeBuffered {buffered : List UInt8} (h : flow.Stitches received k state)
    (hlookup : state.reorderBuffer.lookup state.nextExpectedSeq = some buffered) :
    flow.Stitches received (k + 1) (state.takeBuffered buffered) := by
  -- the segment found under the number of `k` is segment `k`
  rw [h.nextExpectedSeq] at hlookup
  obtain ⟨i, hki, hi, hsegment, hseq⟩ := (h.buffer _ _).mp hlookup
  have hlt : i < flow.segments.length := lt_length hsegment
  obtain rfl : i = k := seq_inj hlt.le h.le hseq
  refine ⟨hlt, fun j hj => ?_, ?_, ?_, h.nextExpectedAck, fun seq segment => ?_⟩
  · rcases (Nat.lt_succ_iff.mp hj).lt_or_eq with hj | rfl
    · exact h.below j hj
    · exact hi
  · change state.data ++ buffered = _
    rw [h.data, upTo_succ hsegment]
  · change state.nextExpectedSeq + _ = _
    rw [h.nextExpectedSeq, seq_succ hsegment]
  · change (state.reorderBuffer.erase state.nextExpectedSeq).lookup seq = _ ↔ _
    rw [h.nextExpectedSeq]
    -- erased, or still there
    by_cases hseq' : seq = flow.seq i
    · subst hseq'
      rw [AList.lookup_erase]
      constructor
      · intro hnone
        cases hnone
      · rintro ⟨j, hj, -, hsegment', hseq'⟩
        have hlt' : j < flow.segments.length := lt_length hsegment'
        have hji : j = i := seq_inj hlt'.le hlt.le hseq'
        omega
    · rw [AList.lookup_erase_ne hseq', h.buffer]
      refine ⟨?_, ?_⟩
      · rintro ⟨j, hj, hreceived, hsegment', rfl⟩
        have hne : j ≠ i := fun hji => hseq' (by rw [hji])
        exact ⟨j, by omega, hreceived, hsegment', rfl⟩
      · rintro ⟨j, hj, hreceived, hsegment', rfl⟩
        exact ⟨j, by omega, hreceived, hsegment', rfl⟩

/-- The stitching loop stops at the first segment that is missing. -/
theorem Stitches.stitch (h : flow.Stitches received k state) :
    ∃ k' ≥ k, flow.Collects received k' state.stitch := by
  obtain ⟨⟨k', hk', hstitches⟩, hnone⟩ := State.stitch_rule
    (P := fun state => ∃ k' ≥ k, flow.Stitches received k' state)
    (fun state buffered hlookup ⟨k', hk', h⟩ => ⟨k' + 1, by omega, h.takeBuffered hlookup⟩)
    state ⟨k, le_rfl, h⟩
  refine ⟨k', hk', hstitches, fun hlt hreceived => ?_⟩
  -- a received segment would be in the buffer
  have hlookup := (hstitches.buffer _ _).mpr
    ⟨k', le_rfl, hreceived, List.getElem?_eq_getElem hlt, rfl⟩
  rw [hstitches.nextExpectedSeq, hlookup] at hnone
  cases hnone

/-- The segments of the flow as the buffer keeps them. -/
def wire (flow : Flow) : List (Σ _ : BitVec 32, List UInt8) :=
  flow.segments.mapIdx fun i segment => ⟨flow.seq i, segment⟩

theorem mem_wire {segment : List UInt8} (h : flow.segments[i]? = some segment) :
    ⟨flow.seq i, segment⟩ ∈ flow.wire := by
  refine List.mem_of_getElem? (i := i) ?_
  rw [wire, List.getElem?_mapIdx, h, Option.map_some]

theorem map_snd_wire (flow : Flow) : flow.wire.map Sigma.snd = flow.segments := by
  refine List.ext_getElem? fun i => ?_
  rw [List.getElem?_map, wire, List.getElem?_mapIdx, Option.map_map]
  exact Option.map_id_apply

theorem sum_wire (flow : Flow) :
    (flow.wire.map fun segment => segment.2.length).sum = flow.segments.flatten.length := by
  have hsum := congrArg (fun segments => (segments.map List.length).sum) flow.map_snd_wire
  rw [List.map_map] at hsum
  rw [List.length_flatten]
  exact hsum

/-- The flow fits into the reorder buffer, but for one segment. -/
structure Fits (flow : Flow) (env : ResponderEnv A B) : Prop where
  segments : flow.segments.length ≤ env.maxReorderSegments + 1
  bytes : flow.segments.flatten.length ≤ env.maxReorderBytes

/-- What is in the buffer is a received segment. -/
theorem Stitches.mem_entries (h : flow.Stitches received k state)
    {entry : Σ _ : BitVec 32, List UInt8} (hentry : entry ∈ state.reorderBuffer.entries) :
    ∃ i, k ≤ i ∧ i ∈ received ∧ flow.segments[i]? = some entry.2 ∧ flow.seq i = entry.1 :=
  (h.buffer entry.1 entry.2).mp (AList.mem_lookup_iff.mpr hentry)

/-- A segment that was not received is not in the buffer. -/
theorem Stitches.not_mem_entries {segment : List UInt8} (h : flow.Stitches received k state)
    (hj : j ∉ received) (hjlt : j < flow.segments.length) :
    (⟨flow.seq j, segment⟩ : Σ _ : BitVec 32, List UInt8) ∉ state.reorderBuffer.entries := by
  intro hentry
  obtain ⟨i, -, hi, hsegment, hseq⟩ := h.mem_entries hentry
  have hilt : i < flow.segments.length := lt_length hsegment
  exact hj (seq_inj hilt.le hjlt.le hseq ▸ hi)

/-- There is room in the buffer for a segment that is new and not the missing one. -/
theorem Collects.room {segment : List UInt8} (h : flow.Collects received k state)
    (hfits : flow.Fits env) (hkj : k < j) (hj : j ∉ received)
    (hsegment : flow.segments[j]? = some segment) :
    state.reorderBuffer.entries.length < env.maxReorderSegments ∧
    state.reorderBuffer.bytes + segment.length ≤ env.maxReorderBytes := by
  have hjlt : j < flow.segments.length := lt_length hsegment
  have hklt : k < flow.segments.length := hkj.trans hjlt
  -- the missing segment, the new one and those in the buffer are different parts of the flow
  have hnodup : (⟨flow.seq k, flow.segments.get ⟨k, hklt⟩⟩ :: ⟨flow.seq j, segment⟩ ::
      state.reorderBuffer.entries : List (Σ _ : BitVec 32, List UInt8)).Nodup := by
    refine List.nodup_cons.mpr ⟨?_, List.nodup_cons.mpr
      ⟨h.not_mem_entries hj hjlt, state.reorderBuffer.nodupKeys.nodup⟩⟩
    rw [List.mem_cons, not_or]
    refine ⟨fun heq => ?_, h.not_mem_entries (h.missing hklt) hklt⟩
    exact hkj.ne (seq_inj hklt.le hjlt.le (congrArg Sigma.fst heq))
  -- all of them are on the wire
  have hsubset : (⟨flow.seq k, flow.segments.get ⟨k, hklt⟩⟩ :: ⟨flow.seq j, segment⟩ ::
      state.reorderBuffer.entries : List (Σ _ : BitVec 32, List UInt8)) ⊆ flow.wire := by
    refine List.cons_subset.mpr ⟨mem_wire (List.getElem?_eq_getElem hklt), ?_⟩
    refine List.cons_subset.mpr ⟨mem_wire hsegment, fun entry hentry => ?_⟩
    obtain ⟨i, -, -, hsegment, hseq⟩ := h.mem_entries hentry
    have hmem := mem_wire hsegment
    rwa [hseq] at hmem
  -- so together they are at most the flow, in number and in bytes
  have hlength := (hnodup.subperm hsubset).length_le
  have hsum := hnodup.sum_map_le_of_subset hsubset fun segment => segment.2.length
  rw [sum_wire, List.map_cons, List.map_cons, List.sum_cons, List.sum_cons] at hsum
  rw [wire, List.length_mapIdx, List.length_cons, List.length_cons] at hlength
  have hbytes := hfits.bytes
  have hsegments := hfits.segments
  refine ⟨by omega, ?_⟩
  unfold ReorderBuffer.bytes
  dsimp only at hsum
  omega

/-- A segment that is not the missing one: it is kept if it is new, and changes nothing else. -/
theorem Collects.bufferSegment {segment : List UInt8} (h : flow.Collects received k state)
    (hfits : flow.Fits env) (hjk : j ≠ k) (hsegment : flow.segments[j]? = some segment) :
    flow.Collects (insert j received) k (state.bufferSegment env (flow.seq j) segment) := by
  have hjlt : j < flow.segments.length := lt_length hsegment
  have hmissing (hlt : k < flow.segments.length) : k ∉ insert j received := by
    rintro (rfl | hk)
    · exact hjk rfl
    · exact h.missing hlt hk
  have hbelow (i : ℕ) (hi : i < k) : i ∈ insert j received := .inr (h.below i hi)
  unfold State.bufferSegment
  dsimp only
  rw [h.nextExpectedSeq]
  split
  · -- stored under its own number, whether it was there before or not
    next hstored =>
    -- it passed the window test, so it is ahead
    have hkj : k < j := by
      by_contra hle
      exact not_seq_sub_lt_of_lt (by omega) h.le hstored.1
    refine ⟨⟨h.le, hbelow, h.data, rfl, h.nextExpectedAck, fun seq segment' => ?_⟩, hmissing⟩
    change (state.reorderBuffer.insert (flow.seq j) segment).lookup seq = _ ↔ _
    by_cases hseq : seq = flow.seq j
    · subst hseq
      rw [AList.lookup_insert, Option.some_inj]
      refine ⟨?_, ?_⟩
      · rintro rfl
        exact ⟨j, hkj.le, .inl rfl, hsegment, rfl⟩
      · rintro ⟨i, -, -, hsegment', hseq⟩
        have hilt : i < flow.segments.length := lt_length hsegment'
        obtain rfl : i = j := seq_inj hilt.le hjlt.le hseq
        exact Option.some_inj.mp (hsegment.symm.trans hsegment')
    · rw [AList.lookup_insert_ne hseq, h.buffer]
      refine ⟨?_, ?_⟩
      · rintro ⟨i, hki, hi, hsegment', rfl⟩
        exact ⟨i, hki, .inr hi, hsegment', rfl⟩
      · rintro ⟨i, hki, rfl | hi, hsegment', rfl⟩
        · exact absurd rfl hseq
        · exact ⟨i, hki, hi, hsegment', rfl⟩
  · -- refused: it was received before
    next hrefused =>
    have hreceived : j ∈ received := by
      by_contra hj
      rcases lt_or_gt_of_ne hjk with hlt | hkj
      · exact hj (h.below j hlt)
      · have hroom := h.room hfits hkj hj hsegment
        exact hrefused ⟨seq_sub_lt_of_le hkj.le hjlt.le,
          flow.segments_ne _ (List.mem_of_getElem? hsegment), hroom.1, hroom.2⟩
    rw [Set.insert_eq_of_mem hreceived]
    exact h

/-- The missing segment: the data grows up to the next one that is missing. -/
theorem Collects.accept {segment : List UInt8} (h : flow.Collects received k state)
    (hsegment : flow.segments[k]? = some segment) :
    ∃ k' > k, flow.Collects (insert k received) k' (state.accept segment) := by
  have hklt : k < flow.segments.length := lt_length hsegment
  have happend : flow.Stitches (insert k received) (k + 1) (state.append segment) := by
    refine ⟨hklt, fun i hi => ?_, ?_, ?_, h.nextExpectedAck, fun seq segment' => ?_⟩
    · -- segment `k` is now received as well
      rcases (Nat.lt_succ_iff.mp hi).lt_or_eq with hi | rfl
      · exact .inr (h.below i hi)
      · exact .inl rfl
    · change state.data ++ segment = _
      rw [h.data, upTo_succ hsegment]
    · change state.nextExpectedSeq + _ = _
      rw [h.nextExpectedSeq, seq_succ hsegment]
    · change state.reorderBuffer.lookup seq = _ ↔ _
      rw [h.buffer]
      refine ⟨?_, ?_⟩
      · rintro ⟨i, hki, hi, hsegment', rfl⟩
        have hne : i ≠ k := fun heq => h.missing hklt (heq ▸ hi)
        exact ⟨i, by omega, .inr hi, hsegment', rfl⟩
      · rintro ⟨i, hki, rfl | hi, hsegment', rfl⟩
        · omega
        · exact ⟨i, by omega, hi, hsegment', rfl⟩
  -- and then whatever the buffer has that follows
  obtain ⟨k', hk', hcollects⟩ := happend.stitch
  exact ⟨k', hk', hcollects⟩

/-! ### Runs -/

/-- The packet carries segment `i` of the flow. -/
structure Carries (flow : Flow) (i : ℕ) (p : Packet) : Prop where
  kind : p.kind = .ack
  key : p.key = flow.key
  seq : p.hdr.seq = flow.seq i
  ack : p.hdr.ack = flow.ack
  payload : flow.segments[i]? = some p.payload

/-- A connection before and after the verdict of the parser, when the segments in `received` were
delivered. `results` are the results of the host before the flow. -/
inductive Progress (flow : Flow) (env : ResponderEnv A B) (results : List (Scanling B))
    (received : Set ℕ) (m : Tracker B) : Prop
  | collecting (k : ℕ) (state : State) (hstate : m.connections flow.key = some state)
      (hcollects : flow.Collects received k state)
      (hparse : k = 0 ∨ env.parse (upTo flow.segments k) = .error .incomplete)
      (hresults : m.scanlingsOf flow.key = results)
  | hit (k : ℕ) (banner : B) (hstate : m.connections flow.key = none)
      (hparse : env.parse (upTo flow.segments k) = .ok banner)
      (hresults : m.scanlingsOf flow.key = results ++ [⟨flow.key.1, flow.key.2, banner⟩])
  | dropped (k : ℕ) (hstate : m.connections flow.key = none)
      (hparse : env.parse (upTo flow.segments k) = .error .invalid)
      (hresults : m.scanlingsOf flow.key = results)

variable {results : List (Scanling B)} {m m' : Tracker B} {p : Packet}

/-- What does not touch the connection makes no progress. -/
theorem Progress.congr (h : flow.Progress env results received m)
    (hconnections : m'.connections flow.key = m.connections flow.key)
    (hscanlings : m'.scanlingsOf flow.key = m.scanlingsOf flow.key) :
    flow.Progress env results received m' := by
  cases h with
  | collecting k state hstate hcollects hparse hresults =>
    exact .collecting k state (hconnections.trans hstate) hcollects hparse
      (hscanlings.trans hresults)
  | hit k banner hstate hparse hresults =>
    exact .hit k banner (hconnections.trans hstate) hparse (hscanlings.trans hresults)
  | dropped k hstate hparse hresults =>
    exact .dropped k (hconnections.trans hstate) hparse (hscanlings.trans hresults)

/-- After the verdict, segments are ignored. -/
theorem onAck_of_none (hcarries : flow.Carries i p) (hstate : m.connections flow.key = none) :
    m.onAck env p = m := by
  rw [Tracker.onAck, hcarries.key, hstate]

/-- One more segment, while the connection collects. -/
theorem Collects.deliver (hfits : flow.Fits env) (hcarries : flow.Carries i p)
    (hstate : m.connections flow.key = some state) (hcollects : flow.Collects received k state)
    (hparse : k = 0 ∨ env.parse (upTo flow.segments k) = .error .incomplete)
    (hresults : m.scanlingsOf flow.key = results) :
    flow.Progress env results (insert i received) (m.onAck env p) := by
  have hkey : m.connections p.key = some state := hcarries.key ▸ hstate
  have hpayload : p.payload ≠ [] := flow.segments_ne _ (List.mem_of_getElem? hcarries.payload)
  have hilt : i < flow.segments.length := lt_length hcarries.payload
  simp only [Tracker.onAck, hkey]
  -- every segment carries the number that the connection expects
  rw [if_neg (by rw [hcarries.ack, hcollects.nextExpectedAck]; exact fun h => h rfl)]
  split
  · next hseq =>
    -- out of turn
    have hik : i ≠ k := by
      rintro rfl
      exact hseq (hcarries.seq.trans hcollects.nextExpectedSeq.symm)
    refine .collecting k _ ?_ (hcollects.bufferSegment hfits hik hcarries.payload) hparse hresults
    rw [Tracker.connections_insert, hcarries.key, Function.update_self, hcarries.seq]
  · next hseq =>
    -- its turn: the data grows and is parsed
    obtain rfl : i = k := by
      refine seq_inj hilt.le hcollects.le ?_
      rw [← hcarries.seq, ← hcollects.nextExpectedSeq]
      exact not_not.mp hseq
    obtain ⟨k', hk', haccept⟩ := hcollects.accept hcarries.payload
    have hdata : env.parse (state.accept p.payload).data = env.parse (upTo flow.segments k') := by
      rw [haccept.data]
    rw [Tracker.onData, hdata]
    split
    · next banner hbanner =>
      refine .hit k' banner ?_ hbanner ?_
      · rw [Tracker.connections_pushScanling, Tracker.connections_pushParsed,
          Tracker.connections_remove, hcarries.key, Function.update_self]
      · rw [Tracker.scanlingsOf_pushScanling _ _ _ hcarries.key, Tracker.scanlingsOf_pushParsed,
          Tracker.scanlingsOf_remove, hresults, ← hcarries.key]
        rfl
    · next hinvalid =>
      refine .dropped k' ?_ hinvalid hresults
      rw [Tracker.connections_pushParsed, Tracker.connections_remove, hcarries.key,
        Function.update_self]
    · next hincomplete =>
      refine .collecting k' { state.accept p.payload with
        expiresAt := (state.accept p.payload).expiresAt + env.timeout } ?_ ?_ (.inr hincomplete)
        hresults
      · rw [Tracker.connections_pushExpiry, Tracker.connections_pushParsed,
          Tracker.connections_insert, hcarries.key, Function.update_self]
      · exact ⟨⟨haccept.le, haccept.below, haccept.data, haccept.nextExpectedSeq,
          haccept.nextExpectedAck, haccept.buffer⟩, haccept.missing⟩

/-- **One segment.** Its delivery makes progress, in whatever order it comes. -/
theorem Progress.deliver (h : flow.Progress env results received m) (hfits : flow.Fits env)
    (hcarries : flow.Carries i p) :
    flow.Progress env results (insert i received) (m.onAck env p) := by
  cases h with
  | collecting k state hstate hcollects hparse hresults =>
    exact hcollects.deliver hfits hcarries hstate hparse hresults
  | hit k banner hstate hparse hresults =>
    rw [onAck_of_none hcarries hstate]
    exact .hit k banner hstate hparse hresults
  | dropped k hstate hparse hresults =>
    rw [onAck_of_none hcarries hstate]
    exact .dropped k hstate hparse hresults

/-- A packet carries one segment. -/
theorem Carries.unique (hi : flow.Carries i p) (hj : flow.Carries j p) : i = j := by
  have hilt : i < flow.segments.length := lt_length hi.payload
  have hjlt : j < flow.segments.length := lt_length hj.payload
  exact seq_inj hilt.le hjlt.le (hi.seq.symm.trans hj.seq)

/-- What may happen while the flow is delivered: a segment of it arrives, and every send succeeds;
or a packet of another connection; or an expiry pass that leaves the connection alone. -/
def Allows (flow : Flow) (env : ResponderEnv A B) (w : Responder A B) : Event → Prop
  | .packet arrival =>
    (∃ i, flow.Carries i arrival.packet ∧ arrival.wakes = []) ∨ arrival.packet.key ≠ flow.key
  | .expiry now wakes =>
    (Responder.step env w (.expiry now wakes)).connections flow.key = w.connections flow.key

/-- A run that delivers segments of the flow. -/
def Delivers (flow : Flow) (env : ResponderEnv A B) (w : Responder A B) (events : List Event) :
    Prop :=
  Run.Along (Responder.step env) (flow.Allows env) w events

/-- The segments that the events deliver. -/
def delivered (flow : Flow) (events : List Event) : Set ℕ :=
  { i | ∃ arrival, Event.packet arrival ∈ events ∧ flow.Carries i arrival.packet }

theorem delivered_nil : flow.delivered [] = ∅ :=
  Set.eq_empty_of_forall_notMem fun _ ⟨_, hmem, _⟩ => List.not_mem_nil hmem

/-- A packet that carries a segment delivers it, again or for the first time. -/
theorem delivered_append_of_carries {arrival : Arrival} (h : flow.Carries i arrival.packet)
    (past : List Event) :
    flow.delivered (past ++ [.packet arrival]) = insert i (flow.delivered past) := by
  ext j
  constructor
  · rintro ⟨arrival', hmem, hcarries⟩
    rcases List.mem_append.mp hmem with hmem | hmem
    · exact .inr ⟨arrival', hmem, hcarries⟩
    · cases List.mem_singleton.mp hmem
      exact .inl (hcarries.unique h)
  · rintro (rfl | ⟨arrival', hmem, hcarries⟩)
    · exact ⟨arrival, List.mem_append_right _ (List.mem_singleton_self _), h⟩
    · exact ⟨arrival', List.mem_append_left _ hmem, hcarries⟩

theorem delivered_append_of_not {event : Event}
    (h : ∀ arrival, event = .packet arrival → ∀ i, ¬ flow.Carries i arrival.packet)
    (past : List Event) : flow.delivered (past ++ [event]) = flow.delivered past := by
  ext j
  constructor
  · rintro ⟨arrival, hmem, hcarries⟩
    rcases List.mem_append.mp hmem with hmem | hmem
    · exact ⟨arrival, hmem, hcarries⟩
    · exact absurd hcarries (h arrival (List.mem_singleton.mp hmem).symm j)
  · rintro ⟨arrival, hmem, hcarries⟩
    exact ⟨arrival, List.mem_append_left _ hmem, hcarries⟩

/-- One step of a run that delivers the flow. -/
theorem Progress.step {past : List Event} {w : Responder A B} {event : Event}
    (hfits : flow.Fits env) (hallows : flow.Allows env w event)
    (h : flow.Progress env results (flow.delivered past) w.toTracker) :
    flow.Progress env results (flow.delivered (past ++ [event]))
      (Responder.step env w event).toTracker := by
  cases event with
  | packet arrival =>
    have hreceive := Responder.receive_spec env arrival w
    rcases hallows with ⟨i, hcarries, hwakes⟩ | hother
    · -- a segment of the flow
      have hstep : (Responder.step env w (.packet arrival)).toTracker =
          w.toTracker.onAck env arrival.packet := by
        rw [Responder.step, hreceive.2 hwakes, Tracker.onPacket, hcarries.kind]
      rw [delivered_append_of_carries hcarries, hstep]
      exact h.deliver hfits hcarries
    · -- a packet of another connection
      have hframe := hreceive.1.frame hother.symm
      rw [delivered_append_of_not]
      · exact h.congr hframe.1 hframe.2
      · intro arrival' heq i hcarries
        cases heq
        exact hother hcarries.key
  | expiry now wakes =>
    -- an expiry pass that leaves this connection
    have hframe := (Responder.expire_spec env now wakes w).1.frame
    rw [delivered_append_of_not]
    · exact h.congr hallows (congrArg (List.filter _) hframe.1)
    · intro arrival heq
      cases heq

/-- **A run.** Whatever the order of the segments, the connection has made the progress of the
segments delivered. -/
theorem progress_run (hfits : flow.Fits env) {w : Responder A B} {events : List Event}
    (h : flow.Progress env results ∅ w.toTracker) (hdelivers : flow.Delivers env w events) :
    flow.Progress env results (flow.delivered events) (Responder.run env w events).toTracker := by
  rw [← delivered_nil] at h
  exact hdelivers.rule (I := fun past w => flow.Progress env results (flow.delivered past)
    w.toTracker) (fun _ _ _ hallows h => h.step hfits hallows) h

/-! ### The whole stream -/

/-- The `SYN+ACK` that the flow follows. The responder answers it with a payload. -/
structure Opens (flow : Flow) (env : ResponderEnv A B) (synAck : Arrival) : Prop where
  kind : synAck.packet.kind = .synAck
  key : synAck.packet.key = flow.key
  cookie : synAck.packet.hdr.ack = cookie flow.key.1 flow.key.2 env.seed + 1
  start : flow.start = synAck.packet.hdr.seq + 1
  ack : ∃ payload, env.build flow.key.1 flow.key.2 = some payload ∧
    flow.ack = synAck.packet.hdr.ack + BitVec.ofNat 32 payload.length
  wakes : synAck.wakes = []

/-- The connection that was just created has received nothing. -/
theorem Opens.progress {synAck : Arrival} (h : flow.Opens env synAck) (w : Responder A B) :
    flow.Progress env (w.scanlingsOf flow.key) ∅
      (Responder.step env w (.packet synAck)).toTracker := by
  obtain ⟨payload, hbuild, hack⟩ := h.ack
  have hip : synAck.packet.ip = flow.key.1 := congrArg Prod.fst h.key
  have hport : synAck.packet.hdr.sourcePort = flow.key.2 := congrArg Prod.snd h.key
  have hstep : (Responder.step env w (.packet synAck)).toTracker =
      (w.toTracker.pushExpiry (synAck.now + env.timeout, flow.key)).insert flow.key
        (.fresh env synAck.now synAck.packet payload) := by
    rw [Responder.step, (Responder.receive_spec env synAck w).2 h.wakes, Tracker.onPacket, h.kind]
    simp only [Tracker.onSynAck, hip, hport, h.cookie, hbuild, h.key, ne_eq, not_true_eq_false,
      if_false]
  rw [hstep]
  refine .collecting 0 (.fresh env synAck.now synAck.packet payload) ?_ ?_ (.inl rfl) rfl
  · rw [Tracker.connections_insert, Function.update_self]
  -- no data, an empty buffer, and the number after that of the `SYN+ACK`
  refine ⟨⟨Nat.zero_le _, fun i hi => absurd hi (Nat.not_lt_zero i), rfl, ?_, hack.symm, ?_⟩,
    fun _ hmem => hmem⟩
  · rw [seq, offset, upTo_zero, List.length_nil, seqAt_zero, h.start]
    rfl
  · intro seq segment
    constructor
    · intro hlookup
      change AList.lookup seq ∅ = _ at hlookup
      rw [AList.lookup_empty] at hlookup
      cases hlookup
    · rintro ⟨i, -, hi, -⟩
      exact absurd hi (Set.notMem_empty i)

/-- A connection that has received every segment has the whole stream. -/
theorem Collects.complete (h : flow.Collects received k state)
    (hall : ∀ i < flow.segments.length, i ∈ received) :
    k = flow.segments.length ∧ state.data = flow.segments.flatten ∧ state.reorderBuffer = ∅ := by
  -- were it not at the end, the next segment would be missing, but all have arrived
  have hk : k = flow.segments.length := by
    by_contra hne
    have hlt : k < flow.segments.length := lt_of_le_of_ne h.le hne
    exact h.missing hlt (hall k hlt)
  refine ⟨hk, ?_, ?_⟩
  · rw [h.data, upTo_of_length_le hk.ge]
  · refine AList.ext (List.eq_nil_iff_forall_not_mem.mpr fun entry hentry => ?_)
    -- a buffered segment lies ahead of the position, where nothing is left
    obtain ⟨i, hki, -, hsegment, -⟩ := h.mem_entries hentry
    have hilt : i < flow.segments.length := lt_length hsegment
    omega

/-- A verdict on the first segments is the verdict on the stream. -/
theorem parse_flatten_of_upTo (hstable : env.Stable)
    (h : env.parse (upTo flow.segments k) ≠ .error .incomplete) :
    env.parse flow.segments.flatten = env.parse (upTo flow.segments k) := by
  rw [← upTo_append_drop flow.segments k]
  exact hstable _ _ h

/-- **Reassembly is independent of the order of delivery.** The segments of a flow are delivered
after its `SYN+ACK` in any order and with any repetitions, each at least once. If the parser accepts
the stream, one result was recorded for the host; if it rejects the stream, none was and the
connection is gone; if it wants more, the connection holds the stream and an empty reorder
buffer. -/
theorem reassembly (flow : Flow) (env : ResponderEnv A B) (hstable : env.Stable)
    (hfits : flow.Fits env) (hstream : flow.segments.flatten ≠ []) (w : Responder A B)
    (synAck : Arrival) (hopens : flow.Opens env synAck) (events : List Event)
    (hdelivers : flow.Delivers env (Responder.step env w (.packet synAck)) events)
    (hall : ∀ i < flow.segments.length, i ∈ flow.delivered events) :
    match env.parse flow.segments.flatten with
    | .ok banner =>
      (Responder.run env w (.packet synAck :: events)).scanlingsOf flow.key =
        w.scanlingsOf flow.key ++ [⟨flow.key.1, flow.key.2, banner⟩]
    | .error .invalid =>
      (Responder.run env w (.packet synAck :: events)).scanlingsOf flow.key =
        w.scanlingsOf flow.key ∧
      (Responder.run env w (.packet synAck :: events)).connections flow.key = none
    | .error .incomplete =>
      ∃ state, (Responder.run env w (.packet synAck :: events)).connections flow.key = some state ∧
        state.data = flow.segments.flatten ∧ state.reorderBuffer = ∅ := by
  have hprogress := progress_run hfits (hopens.progress w) hdelivers
  change flow.Progress env _ _ (Responder.run env w (.packet synAck :: events)).toTracker
    at hprogress
  cases hprogress with
  | collecting k state hstate hcollects hparse hresults =>
    obtain ⟨hk, hdata, hbuffer⟩ := hcollects.complete hall
    -- all segments are in the data, and the last verdict was on all of them
    have hparse : env.parse flow.segments.flatten = .error .incomplete := by
      rcases hparse with hzero | hparse
      · have hnil : flow.segments = [] := List.eq_nil_of_length_eq_zero (hk.symm.trans hzero)
        rw [hnil] at hstream
        exact absurd List.flatten_nil hstream
      · rwa [hk, upTo_of_length_le le_rfl] at hparse
    rw [hparse]
    exact ⟨state, hstate, hdata, hbuffer⟩
  | hit k banner hstate hparse hresults =>
    -- the verdict came before the end of the stream, and stands
    have hstream := parse_flatten_of_upTo hstable (by rw [hparse]; exact fun h => by cases h)
    rw [hstream, hparse]
    exact hresults
  | dropped k hstate hparse hresults =>
    have hstream := parse_flatten_of_upTo hstable (by rw [hparse]; exact fun h => by cases h)
    rw [hstream, hparse]
    exact ⟨hresults, hstate⟩

/-- Three segments whose numbers wrap around. -/
def threeBytes : Flow where
  key := (1, 25565)
  start := 0xffffffff
  ack := cookie 1 25565 0 + 2
  segments := [[1], [2], [3]]
  segments_ne := by decide
  short := by decide

/-- The sample parser looks at the first three bytes only, so its verdict stands when more come. -/
theorem sample_stable : ResponderEnv.sample.Stable := by
  intro data more h
  have hlength : ¬ data.length < 3 := fun hlt => h (if_pos hlt)
  have hlength' : ¬ (data ++ more).length < 3 := by
    rw [List.length_append]
    omega
  change (if (data ++ more).length < 3 then _ else _) = if data.length < 3 then _ else _
  rw [if_neg hlength, if_neg hlength', List.take_append_of_le_length (by omega)]

/-- Three segments out of order, one of them twice: the banner is reported once, with its bytes in
order. -/
theorem reassembly_threeBytes :
    (Responder.run .sample (Responder.new ())
      [.sample 1 0 (.syn ||| .ack) (-1) 1 [], .sample 1 1 .ack 2 2 [3], .sample 1 2 .ack 0 2 [1],
        .sample 1 3 .ack 0 2 [1], .sample 1 4 .ack 1 2 [2]]).scanlingsOf (1, 25565) =
      [⟨1, 25565, [1, 2, 3]⟩] :=
  reassembly threeBytes .sample sample_stable ⟨by decide, by decide⟩ (by decide) (Responder.new ())
    ⟨.sample 1 (.syn ||| .ack) (-1) 1 [], 0, []⟩
    ⟨by decide, rfl, by decide, by decide, ⟨[0], rfl, by decide⟩, rfl⟩
    [.sample 1 1 .ack 2 2 [3], .sample 1 2 .ack 0 2 [1], .sample 1 3 .ack 0 2 [1],
      .sample 1 4 .ack 1 2 [2]]
    ⟨.inl ⟨2, ⟨by decide, rfl, by decide, by decide, rfl⟩, rfl⟩,
      .inl ⟨0, ⟨by decide, rfl, by decide, by decide, rfl⟩, rfl⟩,
      .inl ⟨0, ⟨by decide, rfl, by decide, by decide, rfl⟩, rfl⟩,
      .inl ⟨1, ⟨by decide, rfl, by decide, by decide, rfl⟩, rfl⟩, trivial⟩
    (by
      intro i hi
      match i, hi with
      | 0, _ => exact ⟨_, List.mem_cons_of_mem _ List.mem_cons_self,
          by decide, rfl, by decide, by decide, rfl⟩
      | 1, _ => exact ⟨_, List.mem_cons_of_mem _ (List.mem_cons_of_mem _ (List.mem_cons_of_mem _
          List.mem_cons_self)), by decide, rfl, by decide, by decide, rfl⟩
      | 2, _ => exact ⟨_, List.mem_cons_self, by decide, rfl, by decide, by decide, rfl⟩)

end Flow

end Farsight
