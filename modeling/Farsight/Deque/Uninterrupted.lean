import Farsight.Deque.ConcurrentFifo
import Farsight.Deque.Fifo

/-!
# Uninterrupted operations

The operations of the deque are embedded twice: as whole operations of `Worker`, and as the steps of
an owner and of stealers that interleave (`DequeState`). An operation of the second kind that nobody
interrupts is one of the first kind: the owner, or the stealer, makes its steps in a row, and
afterwards the memory is the deque that the whole operation returns, with the same result.

The counters of `DequeState` are unbounded and those of `Worker` are their words. The two agree on
every value that is computed from them, since the steps compute on the words already.

* `DequeMemory.worker` — the deque that is in memory between two operations;
* `DequeState.push_uninterrupted`, `DequeState.steal_uninterrupted`,
  `DequeState.stealBatch_uninterrupted` — one operation;
* `DequeState.sequential_run` — a run of whole operations is a run of steps.
-/

namespace Farsight

open Machine

variable {T : Type}

/-- The deque that is in memory between two operations. -/
def DequeMemory.worker (m : DequeMemory T) : Worker T where
  consumed := word m.consumed
  produced := word m.produced
  cachedCons := word m.cachedCons
  buffer := m.own

namespace DequeState

/-- Nobody is inside an operation. The owner's cell and the shared pointer agree then, and the next
allocation is not the one in use. -/
structure Settled (s : DequeState T) : Prop where
  owner : s.owner = .idle
  stealers : ∀ t, s.stealers t = .idle
  ownBuffer_eq : s.ownBuffer = s.buffer
  buffer_lt : s.buffer < s.fresh

/-- The same party makes some steps in a row. -/
def Repeats (size : ℕ+) (act : DequeAct T) (s s' : DequeState T) : Prop :=
  ∃ k, (List.replicate k act).foldl (step size) s = s'

namespace Repeats

variable {size : ℕ+} {act : DequeAct T} {s s' s'' : DequeState T}

theorem refl (size : ℕ+) (act : DequeAct T) (s : DequeState T) : Repeats size act s s :=
  ⟨0, rfl⟩

theorem head (h : Repeats size act (s.step size act) s') : Repeats size act s s' := by
  obtain ⟨k, hk⟩ := h
  exact ⟨k + 1, hk⟩

theorem trans (h : Repeats size act s s') (h' : Repeats size act s' s'') :
    Repeats size act s s'' := by
  obtain ⟨k, rfl⟩ := h
  obtain ⟨l, rfl⟩ := h'
  exact ⟨k + l, by rw [List.replicate_add, List.foldl_append]⟩

end Repeats

/-! ### Pushing -/

section Push

variable {size : ℕ+} {task : List T} {prod new : ℕ}

/-- The moves of a resize, one read and one write each, fill the new buffer as the copy does. -/
theorem repeats_resizeMoves {moves : List (ℕ × ℕ)} {slots : ℕ → Option T} (s : DequeState T)
    (hnew : new ≠ s.ownBuffer)
    (hcopy : Ring.copyAll s.own.cap s.own.slots (s.mem new).cap (s.mem new).slots moves
      = .ok slots) :
    Repeats size .owner { s with owner := .resizeRead task prod new moves }
      { s with
        mem := Function.update s.mem new ((s.mem new).withSlots slots)
        owner := .resizeRead task prod new [] } := by
  induction moves generalizing s with
  | nil =>
    obtain rfl : (s.mem new).slots = slots := Except.ok.inj hcopy
    have hsame : Function.update s.mem new ((s.mem new).withSlots (s.mem new).slots) = s.mem :=
      Function.update_eq_self new s.mem
    rw [hsame]
    exact Repeats.refl ..
  | cons move moves ih =>
    obtain ⟨i, j⟩ := move
    obtain ⟨hinside, hrest⟩ := Ring.copyAll_cons_eq_ok hcopy
    -- the owner's buffer is another one
    have hown : DequeMemory.own { s.toDequeMemory with
        mem := Function.update s.mem new ((s.mem new).store j (s.own.slots i)) } = s.own :=
      Function.update_of_ne hnew.symm _ _
    have hih := ih { s with
      mem := Function.update s.mem new ((s.mem new).store j (s.own.slots i)) } hnew (by
        dsimp only
        rw [hown, Function.update_self]
        exact hrest)
    dsimp only at hih
    rw [Function.update_self, Function.update_idem] at hih
    have hwrite : ownerStep size
          { s with owner := .resizeWrite task prod new (s.own.slots i) j moves } =
        { s with
          mem := Function.update s.mem new ((s.mem new).store j (s.own.slots i))
          owner := .resizeRead task prod new moves } :=
      if_pos hinside.2
    -- two steps for each move: the read and the write
    refine Repeats.head (Repeats.head ?_)
    change Repeats size .owner (ownerStep size
      { s with owner := .resizeWrite task prod new (s.own.slots i) j moves }) _
    rw [hwrite]
    exact hih

/-- The writes of a push fill the buffer as the copy of the slice does. -/
theorem repeats_writes {moves : List (ℕ × ℕ)} {slots : ℕ → Option T} (s : DequeState T)
    (hcopy : Ring.copyAll task.length (fun i => task[i]?) s.own.cap s.own.slots moves = .ok slots) :
    Repeats size .owner { s with owner := .write task prod moves }
      { s with
        mem := Function.update s.mem s.ownBuffer (s.own.withSlots slots)
        owner := .write task prod [] } := by
  induction moves generalizing s with
  | nil =>
    obtain rfl : s.own.slots = slots := Except.ok.inj hcopy
    have hsame : Function.update s.mem s.ownBuffer (s.own.withSlots s.own.slots) = s.mem :=
      Function.update_eq_self s.ownBuffer s.mem
    rw [hsame]
    exact Repeats.refl ..
  | cons move moves ih =>
    obtain ⟨i, j⟩ := move
    obtain ⟨hinside, hrest⟩ := Ring.copyAll_cons_eq_ok hcopy
    -- the owner writes into its own buffer, whose capacity stays
    have hown := s.own_store j task[i]?
    have hih := ih { s with
      mem := Function.update s.mem s.ownBuffer (s.own.store j task[i]?) } (by
        dsimp only
        rw [hown]
        exact hrest)
    dsimp only at hih
    rw [hown, Function.update_idem] at hih
    have hwrite : ownerStep size { s with owner := .write task prod ((i, j) :: moves) } =
        { s with
          mem := Function.update s.mem s.ownBuffer (s.own.store j task[i]?)
          owner := .write task prod moves } :=
      if_pos hinside.2
    -- one step for each write
    refine Repeats.head ?_
    change Repeats size .owner
      (ownerStep size { s with owner := .write task prod ((i, j) :: moves) }) _
    rw [hwrite]
    exact hih

/-- What the owner's preparations leave. -/
structure Prepared (s s' : DequeState T) : Prop where
  ownBuffer_eq : s'.ownBuffer = s'.buffer
  buffer_lt : s'.buffer < s'.fresh
  consumed : s'.consumed = s.consumed
  produced : s'.produced = s.produced
  pushed : s'.pushed = s.pushed
  stealers : s'.stealers = s.stealers
  returns : s'.returns = s.returns

/-- `resize`, from the load of `produced` to the exchange of the buffers. -/
theorem repeats_resize {s : DequeState T} (hbuffer : s.ownBuffer = s.buffer)
    (hfresh : s.buffer < s.fresh) {w : Worker T}
    (hresize : s.worker.resize size (2 * s.own.cap) = .ok w) :
    ∃ s' : DequeState T, Repeats size .owner { s with owner := .resizeProd task prod }
        { s' with owner := .copy task prod } ∧ s'.worker = w ∧ Prepared s s' := by
  obtain ⟨new, halloc, hresize⟩ := exists_of_bind_eq_ok hresize
  obtain ⟨slots, hcopy, hresize⟩ := exists_of_bind_eq_ok hresize
  obtain rfl := Except.ok.inj hresize
  -- the memory with the new allocation, still empty
  let s₁ : DequeState T := { s with mem := Function.update s.mem s.fresh new, fresh := s.fresh + 1 }
  have hne : s.fresh ≠ s.ownBuffer := by omega
  have hown : s₁.own = s.own := Function.update_of_ne hne.symm _ _
  have hnew : s₁.mem s.fresh = new := Function.update_self ..
  have hmoves : Repeats size .owner
      { s₁ with
        owner := .resizeRead task prod s.fresh
          (s.own.resizePlan new (word s.consumed) (word s.produced)) }
      { s₁ with
        mem := Function.update s₁.mem s.fresh ((s₁.mem s.fresh).withSlots slots)
        owner := .resizeRead task prod s.fresh [] } := by
    refine repeats_resizeMoves s₁ hne ?_
    rw [hown, hnew]
    exact hcopy
  rw [hnew] at hmoves
  have halloced : ownerStep size { s with owner := .resizeCons task prod s.produced } =
      { s₁ with
        owner := .resizeRead task prod s.fresh
          (s.own.resizePlan new (word s.consumed) (word s.produced)) } := by
    unfold ownerStep
    dsimp only
    rw [halloc]
  refine ⟨{ s₁ with
    mem := Function.update s₁.mem s.fresh (new.withSlots slots), buffer := s.fresh,
    ownBuffer := s.fresh }, ?_, ?_, ⟨rfl, Nat.lt_succ_self _, rfl, rfl, rfl, rfl, rfl⟩⟩
  · refine .head (.head ?_)
    change Repeats size .owner
      (ownerStep size { s with owner := .resizeCons task prod s.produced }) _
    rw [halloced]
    exact hmoves.trans (.head (.refl ..))
  · unfold DequeMemory.worker DequeMemory.own
    dsimp only
    rw [Function.update_self]

/-- The first step of `push`: the test against the cached counter. -/
theorem step_readProd (s : DequeState T) :
    step size { s with owner := .readProd task } .owner =
      if s.worker.fullFor s.worker.cachedCons then { s with owner := .loadCons task s.produced }
      else { s with owner := .copy task s.produced } :=
  rfl

/-- The second one, if the buffer seemed full: the counter is loaded and tested again. -/
theorem step_loadCons (s : DequeState T) :
    step size { s with owner := .loadCons task s.produced } .owner =
      if s.worker.fullFor s.worker.consumed then
        { s with cachedCons := s.consumed, owner := .resizeProd task s.produced }
      else { s with cachedCons := s.consumed, owner := .copy task s.produced } :=
  rfl

/-- The first part of `push`. -/
theorem repeats_makeRoom {s : DequeState T} (hbuffer : s.ownBuffer = s.buffer)
    (hfresh : s.buffer < s.fresh) {w : Worker T} (hroom : s.worker.makeRoom size = .ok w) :
    ∃ s' : DequeState T, Repeats size .owner { s with owner := .readProd task }
        { s' with owner := .copy task s.produced } ∧ s'.worker = w ∧ Prepared s s' := by
  unfold Worker.makeRoom at hroom
  split at hroom
  · next hcached =>
    dsimp only at hroom
    split at hroom
    · next hfull =>
      -- full in both tests: the buffer is resized
      have hfull : s.worker.fullFor s.worker.consumed := hfull
      obtain ⟨s', hruns, hworker, hframe⟩ :=
        repeats_resize (s := { s with cachedCons := s.consumed }) hbuffer hfresh hroom
      refine ⟨s', .head (.head ?_), hworker, hframe.1, hframe.2, hframe.3, hframe.4, hframe.5,
        hframe.6, hframe.7⟩
      rw [step_readProd, if_pos hcached, step_loadCons, if_pos hfull]
      exact hruns
    · next hfull =>
      -- full for the cached counter only
      have hfull : ¬ s.worker.fullFor s.worker.consumed := hfull
      obtain rfl := Except.ok.inj hroom
      refine ⟨{ s with cachedCons := s.consumed }, .head (.head ?_), rfl, hbuffer, hfresh, rfl, rfl,
        rfl, rfl, rfl⟩
      rw [step_readProd, if_pos hcached, step_loadCons, if_neg hfull]
      exact Repeats.refl ..
  · next hcached =>
    obtain rfl := Except.ok.inj hroom
    refine ⟨s, .head ?_, rfl, hbuffer, hfresh, rfl, rfl, rfl, rfl, rfl⟩
    rw [step_readProd, if_neg hcached]
    exact Repeats.refl ..

/-- The second part of `push`. -/
theorem repeats_copyTask {s : DequeState T} {w : Worker T}
    (hcopy : s.worker.copyTask (word prod) task = .ok w) :
    ∃ slots : ℕ → Option T, Repeats size .owner { s with owner := .copy task prod }
        { s with
          mem := Function.update s.mem s.ownBuffer (s.own.withSlots slots)
          produced := prod + task.length
          pushed := s.pushed ++ task
          owner := .idle } ∧
      w = { s.worker with
        produced := word (prod + task.length), buffer := s.own.withSlots slots } := by
  obtain ⟨slots, hcopy, hw⟩ := exists_of_bind_eq_ok hcopy
  refine ⟨slots, .head ?_, (Except.ok.inj hw).symm.trans ?_⟩
  · -- all writes, and then the store of `produced`
    have hwrites : Repeats size .owner
        { s with
          owner := .write task prod
            (s.own.pushPlan (word prod) (word (prod + task.length))) }
        { s with
          mem := Function.update s.mem s.ownBuffer (s.own.withSlots slots)
          owner := .write task prod [] } := by
      refine repeats_writes s ?_
      rw [word_add]
      exact hcopy
    exact hwrites.trans (.head (.refl ..))
  · rw [word_add]
    rfl

/-- **A push that nobody interrupts** is the whole operation. -/
theorem push_uninterrupted {s : DequeState T} (hs : s.Settled) {w : Worker T}
    (hpush : s.worker.push size task = .ok w) :
    ∃ s' : DequeState T, Repeats size .owner (s.step size (.push task)) s' ∧ s'.Settled ∧
      s'.worker = w ∧ s'.pushed = s.pushed ++ task ∧ s'.returns = s.returns := by
  obtain ⟨w', hroom, hcopy⟩ := exists_of_bind_eq_ok hpush
  obtain ⟨s', hruns, rfl, hframe⟩ := repeats_makeRoom hs.ownBuffer_eq hs.buffer_lt hroom
  obtain ⟨slots, hwrites, hw⟩ := repeats_copyTask hcopy
  have hcall : s.step size (.push task) = { s with owner := .readProd task } := by
    rw [step, hs.owner]
  -- making room and writing, one after the other
  have hall := hruns.trans hwrites
  rw [← hcall] at hall
  refine ⟨_, hall, ⟨rfl, ?_, hframe.ownBuffer_eq, hframe.buffer_lt⟩, ?_, ?_, hframe.returns⟩
  · intro t
    dsimp only
    rw [hframe.stealers]
    exact hs.stealers t
  · rw [hw]
    unfold DequeMemory.worker DequeMemory.own
    dsimp only
    rw [Function.update_self]
  · dsimp only
    rw [hframe.pushed]

/-- If a whole `push` panics, it is the allocation that does. -/
theorem push_eq_panic {w : Worker T} (hpush : w.push size task = .error .panic) :
    w.fullFor w.cachedCons ∧ w.fullFor w.consumed ∧
      ∃ e, (Buffer.alloc size (2 * w.buffer.cap) : Except Fault (Buffer T)) = .error e := by
  unfold Worker.push at hpush
  cases hroom : w.makeRoom size with
  -- with room made, what is left is a copy, which does not panic
  | ok w' =>
    rw [hroom] at hpush
    change w'.copyTask w.produced task = .error .panic at hpush
    unfold Worker.copyTask at hpush
    dsimp only at hpush
    cases hcopy : Ring.copyAll task.length (fun i => task[i]?) w'.buffer.cap w'.buffer.slots
        (w'.buffer.pushPlan w.produced (w.produced + BitVec.ofNat 64 task.length)) with
    | ok slots =>
      rw [hcopy] at hpush
      cases hpush
    | error e =>
      rw [hcopy, Ring.copyAll_error hcopy] at hpush
      cases hpush
  | error e =>
    rw [hroom] at hpush
    obtain rfl : e = .panic := Except.error.inj hpush
    unfold Worker.makeRoom at hroom
    split at hroom
    · next hcached =>
      dsimp only at hroom
      split at hroom
      · next hfull =>
        refine ⟨hcached, hfull, ?_⟩
        cases halloc : (Buffer.alloc size (2 * w.buffer.cap) : Except Fault (Buffer T)) with
        | error e => exact ⟨e, rfl⟩
        | ok new =>
          -- a copy that leaves a buffer is no panic
          simp only [Worker.resize, halloc, bind, Except.bind] at hroom
          split at hroom
          · next e hcopy =>
            rw [Ring.copyAll_error hcopy] at hroom
            cases hroom
          · cases hroom
      · cases hroom
    · cases hroom

/-- The same if the allocation panics. -/
theorem push_uninterrupted_panic {s : DequeState T} (hs : s.Settled)
    (hpush : s.worker.push size task = .error .panic) :
    ∃ s' : DequeState T, Repeats size .owner (s.step size (.push task)) s' ∧
      s'.owner = .panicked := by
  obtain ⟨hcached, hfull, e, halloc⟩ := push_eq_panic hpush
  have hcall : s.step size (.push task) = { s with owner := .readProd task } := by
    rw [step, hs.owner]
  refine ⟨{ s with cachedCons := s.consumed, owner := .panicked }, ?_, rfl⟩
  rw [hcall]
  -- the cached counter and the current one both show a full buffer
  refine .head (.head ?_)
  rw [step_readProd, if_pos hcached, step_loadCons, if_pos hfull]
  have hpanic : ownerStep size
        { s with cachedCons := s.consumed, owner := .resizeCons task s.produced s.produced } =
      { s with cachedCons := s.consumed, owner := .panicked } := by
    have halloc : (Buffer.alloc size (2 * s.own.cap) : Except Fault (Buffer T)) = .error e := halloc
    unfold ownerStep
    dsimp only
    unfold DequeMemory.own at halloc ⊢
    dsimp only
    rw [halloc]
  refine .head (.head ?_)
  change Repeats size .owner (ownerStep size
    { s with cachedCons := s.consumed, owner := .resizeCons task s.produced s.produced }) _
  rw [hpanic]
  exact Repeats.refl ..

end Push

/-! ### Stealing -/

section Steal

variable {size : ℕ+} {t : ℕ}

theorem stealers_setStealer (s : DequeState T) (pc : StealerPc T) :
    (s.setStealer t pc).stealers t = pc :=
  Function.update_self ..

theorem setStealer_setStealer (s : DequeState T) (pc pc' : StealerPc T) :
    (s.setStealer t pc).setStealer t pc' = s.setStealer t pc' := by
  unfold setStealer
  dsimp only
  rw [Function.update_idem]

theorem finish_setStealer (s : DequeState T) (pc : StealerPc T)
    (result : Steal (ℕ × List (Option T))) :
    (s.setStealer t pc).finish t result = s.finish t result := by
  rw [finish, finish, setStealer_setStealer]
  rfl

/-- The reads of a stealer, one slot after the other. -/
theorem repeats_reads {f n buffer : ℕ} {slots : List ℕ} {values : List (Option T)}
    (s : DequeState T) :
    Repeats size (.stealer t) (s.setStealer t (.read f n buffer slots values))
      (s.setStealer t
        (.read f n buffer [] (values ++ slots.map (s.mem buffer).load))) := by
  -- one load for each slot, in order
  induction slots generalizing values with
  | nil =>
    rw [List.map_nil, List.append_nil]
    exact Repeats.refl ..
  | cons i slots ih =>
    have hread : stealerStep t (s.setStealer t (.read f n buffer (i :: slots) values)) =
        s.setStealer t (.read f n buffer slots (values ++ [(s.mem buffer).load i])) := by
      rw [stealerStep, stealers_setStealer]
      exact setStealer_setStealer ..
    refine .head ?_
    change Repeats size (.stealer t)
      (stealerStep t (s.setStealer t (.read f n buffer (i :: slots) values))) _
    rw [hread, List.map_cons, List.append_cons values _ (slots.map _)]
    exact ih

/-- A steal that nobody interrupts sees the counters as they are, reads from the buffer that is in
use and wins its compare-exchange. -/
theorem repeats_steal {s : DequeState T} (hidle : s.stealers t = .idle) (call : StealCall) {n : ℕ}
    (hn : call.count (stealLen (word s.produced) (word s.consumed)) = n) :
    Repeats size (.stealer t) (s.step size (.steal t call))
      (if n = 0 then s.finish t .empty
      else
        { s.finish t (.success (s.consumed,
            (call.slots (s.mem s.buffer) s.consumed n).map (s.mem s.buffer).load)) with
          consumed := s.consumed + n }) := by
  have hcall : s.step size (.steal t call) = s.setStealer t (.loadCons call) := by
    rw [step, hidle]
  -- nobody moves in between, so the counters loaded are those of the start
  have hcons : stealerStep t (s.setStealer t (.loadCons call)) =
      s.setStealer t (.loadProd call s.consumed) := by
    rw [stealerStep, stealers_setStealer]
    exact setStealer_setStealer ..
  have hprod : stealerStep t (s.setStealer t (.loadProd call s.consumed)) =
      if n = 0 then s.finish t .empty else s.setStealer t (.loadBuffer call s.consumed n) := by
    rw [stealerStep, stealers_setStealer]
    dsimp only
    rw [finish_setStealer, setStealer_setStealer, ← hn]
    rfl
  rw [hcall]
  refine .head (.head ?_)
  change Repeats size (.stealer t) (stealerStep t (stealerStep t _)) _
  rw [hcons, hprod]
  split
  · exact Repeats.refl ..
  · generalize hslots : call.slots (s.mem s.buffer) s.consumed n = slots
    generalize hvalues : slots.map (s.mem s.buffer).load = values
    have hbuffer : stealerStep t (s.setStealer t (.loadBuffer call s.consumed n)) =
        s.setStealer t (.read s.consumed n s.buffer slots []) := by
      rw [stealerStep, stealers_setStealer, ← hslots]
      exact setStealer_setStealer ..
    have hreload : stealerStep t (s.setStealer t (.read s.consumed n s.buffer [] values)) =
        s.setStealer t (.compareExchange s.consumed n values) := by
      rw [stealerStep, stealers_setStealer]
      exact (if_pos rfl).trans (setStealer_setStealer ..)
    -- and the exchange succeeds
    have hexchange : stealerStep t (s.setStealer t (.compareExchange s.consumed n values)) =
        { s.finish t (.success (s.consumed, values)) with consumed := s.consumed + n } := by
      rw [stealerStep, stealers_setStealer]
      dsimp only
      rw [finish_setStealer]
      exact if_pos rfl
    have hreads : Repeats size (.stealer t)
        (s.setStealer t (.read s.consumed n s.buffer slots []))
        (s.setStealer t (.read s.consumed n s.buffer [] values)) := by
      rw [← hvalues]
      exact repeats_reads s
    refine .head ?_
    change Repeats size (.stealer t) (stealerStep t _) _
    rw [hbuffer]
    refine hreads.trans (.head (.head ?_))
    change Repeats size (.stealer t) (stealerStep t (stealerStep t _)) _
    rw [hreload, hexchange]
    exact Repeats.refl ..

theorem settled_finish {s : DequeState T} (hs : s.Settled) (result : Steal (ℕ × List (Option T)))
    (consumed : ℕ) : Settled { s.finish t result with consumed } where
  owner := hs.owner
  stealers := by
    intro u
    by_cases hu : u = t
    · subst hu
      exact stealers_setStealer s .idle
    · exact (Function.update_of_ne hu _ _).trans (hs.stealers u)
  ownBuffer_eq := hs.ownBuffer_eq
  buffer_lt := hs.buffer_lt

/-- A slot of an index is read as it is. -/
theorem load_slotAt (buffer : Buffer T) (index : Isize) :
    buffer.load (buffer.slotAt index) = buffer.slots (buffer.slotAt index) := by
  rw [Buffer.load, if_pos]
  rw [buffer.slotAt_eq]
  exact Nat.mod_lt _ buffer.cap_pos

/-- **A steal that nobody interrupts** is the whole operation. -/
theorem steal_uninterrupted {s : DequeState T} (hs : s.Settled) (t : ℕ) :
    ∃ s' : DequeState T, Repeats size (.stealer t) (s.step size (.steal t .steal)) s' ∧
      (s.worker.steal = (.empty, s.worker) ∧ s' = s.finish t .empty ∨
        ∃ value, s.worker.steal = (.success value, s'.worker) ∧
          s' = { s.finish t (.success (s.consumed, [value])) with
            consumed := s.consumed + 1 }) := by
  have hmem : s.mem s.buffer = s.own := by rw [DequeMemory.own, hs.ownBuffer_eq]
  by_cases hzero : stealLen (word s.produced) (word s.consumed) = 0
  · have hcount : StealCall.steal.count (stealLen (word s.produced) (word s.consumed)) = 0 := by
      rw [hzero]
      rfl
    exact ⟨_, repeats_steal (hs.stealers t) .steal hcount, .inl ⟨if_pos hzero, rfl⟩⟩
  · have hcount : StealCall.steal.count (stealLen (word s.produced) (word s.consumed)) = 1 := by
      rw [StealCall.count]
      omega
    -- the single slot that is read
    have hvalues : (StealCall.steal.slots (s.mem s.buffer) s.consumed 1).map (s.mem s.buffer).load =
        [s.own.slots (s.own.slotAt (word s.consumed))] := by
      rw [hmem, StealCall.slots, List.map_singleton, load_slotAt]
    have hruns : Repeats size _ _ _ := repeats_steal (hs.stealers t) .steal hcount
    rw [if_neg Nat.one_ne_zero, hvalues] at hruns
    refine ⟨_, hruns, .inr ⟨_, (if_neg hzero).trans ?_, rfl⟩⟩
    unfold DequeMemory.worker
    dsimp only [finish, setStealer]
    rw [word_add]
    rfl

/-- The slots that a batch reads hold the first items. -/
theorem slots_load {m : DequeMemory T} {capacity n : ℕ} (hn : n ≤ m.worker.len)
    (hlen : m.worker.len ≤ m.own.cap) :
    ((StealCall.stealBatch capacity).slots m.own m.consumed n).map m.own.load =
      m.worker.items.take n := by
  obtain ⟨rest, hrest⟩ := Nat.exists_eq_add_of_le hn
  have hload (i : ℕ) (hi : i ∈ Ring.slots m.own.cap m.consumed n) :
      m.own.load i = m.own.slots i :=
    if_pos (Ring.lt_of_mem_slots m.own.cap_pos hi)
  have hitems : m.worker.items = (Ring.slots m.own.cap (word m.consumed).toNat m.worker.len).map
      m.own.slots := m.worker.items_eq
  rw [StealCall.slots_eq _ m.own m.consumed (hn.trans hlen) (by rintro ⟨⟩),
    List.map_congr_left hload, hitems, hrest, Ring.slots_append, List.map_append,
    List.take_left' (by simp), Ring.slots_congr n (toNat_word_mod m.own m.consumed)]

/-- **A batch that nobody interrupts** is the whole operation. -/
theorem stealBatch_uninterrupted {s : DequeState T} (hs : s.Settled) (t capacity : ℕ)
    (hlen : s.worker.len ≤ s.own.cap) :
    ∃ s' : DequeState T,
      Repeats size (.stealer t) (s.step size (.steal t (.stealBatch capacity))) s' ∧
        (s.worker.stealBatch capacity = .ok (.empty, s.worker) ∧ s' = s.finish t .empty ∨
          ∃ n values, s.worker.stealBatch capacity = .ok (.success values, s'.worker) ∧
            s' = { s.finish t (.success (s.consumed, values)) with
              consumed := s.consumed + n }) := by
  have hmem : s.mem s.buffer = s.own := by rw [DequeMemory.own, hs.ownBuffer_eq]
  -- the signed length is the length of the whole deque, as long as that fits into the buffer
  have hstealLen : stealLen (word s.produced) (word s.consumed) = s.worker.len :=
    s.worker.stealLen_eq hlen
  obtain ⟨n, hn⟩ : ∃ n, min ((s.worker.len + 1) / 2) capacity = n := ⟨_, rfl⟩
  have hnlen : n ≤ s.worker.len := by omega
  have hcount : (StealCall.stealBatch capacity).count
      (stealLen (word s.produced) (word s.consumed)) = n := by
    rw [hstealLen, StealCall.count, stealBatchSize, hn]
    exact s.own.toNat_ofNat_of_le (hnlen.trans hlen)
  have hruns : Repeats size _ _ _ := repeats_steal (hs.stealers t) (.stealBatch capacity) hcount
  have hwhole := s.worker.stealBatch_eq capacity hlen hn
  by_cases hzero : n = 0
  · rw [if_pos hzero] at hruns hwhole
    exact ⟨_, hruns, .inl ⟨hwhole, rfl⟩⟩
  · rw [if_neg hzero, hmem, slots_load hnlen hlen] at hruns
    rw [if_neg hzero] at hwhole
    refine ⟨_, hruns, .inr ⟨n, _, hwhole.trans ?_, rfl⟩⟩
    unfold DequeMemory.worker
    dsimp only [finish, setStealer]
    rw [word_add]
    rfl

end Steal

/-! ### Runs of whole operations -/

section Sequential

variable {size : ℕ+}

/-- The steps have come to where the whole operations have. -/
structure Sequential (s : DequeState T) (r : DequeRun T) : Prop where
  settled : s.Settled
  worker : s.worker = r.worker
  pushed : s.pushed = r.pushed
  stolen : s.deliveries.flatMap Prod.snd = r.stolen

theorem stolen_finish_empty (s : DequeState T) (t : ℕ) :
    (s.finish t .empty).deliveries = s.deliveries :=
  deliveries_finish s t (by rintro _ ⟨⟩)

theorem stolen_finish_success (s : DequeState T) (t f : ℕ) (values : List (Option T)) :
    (s.finish t (.success (f, values))).deliveries.flatMap Prod.snd =
      s.deliveries.flatMap Prod.snd ++ values := by
  rw [deliveries_finish_success, List.flatMap_append, List.flatMap_singleton]

/-- The call of an operation and the steps of its party. -/
theorem Repeats.exists_acts {act call : DequeAct T} {s s' : DequeState T}
    (h : Repeats size act (s.step size call) s') :
    ∃ acts : List (DequeAct T), acts.foldl (step size) s = s' := by
  obtain ⟨k, hk⟩ := h
  exact ⟨call :: List.replicate k act, hk⟩

/-- A steal that ends empty leaves both where they were. -/
theorem Settled.sequential_empty {s : DequeState T} (hs : s.Settled) (t : ℕ) :
    Sequential (s.finish t .empty) ⟨s.worker, s.pushed, s.deliveries.flatMap Prod.snd⟩ where
  settled := settled_finish hs .empty s.consumed
  worker := rfl
  pushed := rfl
  stolen := congrArg (List.flatMap Prod.snd) (stolen_finish_empty s t)

/-- One that takes `n` items, in both. -/
theorem Settled.sequential_success {s : DequeState T} (hs : s.Settled) (t n : ℕ)
    (values : List (Option T)) :
    let s' := { s.finish t (.success (s.consumed, values)) with consumed := s.consumed + n }
    Sequential s' ⟨s'.worker, s.pushed, s.deliveries.flatMap Prod.snd ++ values⟩ where
  settled := settled_finish hs _ _
  worker := rfl
  pushed := rfl
  stolen := stolen_finish_success s t s.consumed values

/-- A whole operation is a run of steps of the machine, with nobody else in between. -/
theorem Sequential.step {s : DequeState T} {r r' : DequeRun T} (h : Sequential s r)
    (hlen : r.worker.len ≤ r.worker.buffer.cap) {op : DequeOp T}
    (hstep : r.step size op = .ok r') :
    ∃ acts : List (DequeAct T), Sequential (acts.foldl (DequeState.step size) s) r' := by
  obtain ⟨hs, hworker, hpushed, hstolen⟩ := h
  obtain ⟨worker, pushed, stolen⟩ := r
  dsimp only at hworker hpushed hstolen hlen
  subst hworker hpushed hstolen
  cases op with
  | push task =>
    obtain ⟨w, hpush, hr⟩ := exists_of_bind_eq_ok hstep
    obtain rfl := Except.ok.inj hr
    obtain ⟨s', hruns, hs', rfl, hpushed, hreturns⟩ := push_uninterrupted hs hpush
    obtain ⟨acts, rfl⟩ := hruns.exists_acts
    refine ⟨acts, hs', rfl, hpushed, ?_⟩
    rw [deliveries, hreturns]
    rfl
  | steal =>
    -- any stealer will do, since all are idle
    obtain ⟨s', hruns, hcases⟩ := steal_uninterrupted hs 0
    obtain ⟨acts, rfl⟩ := hruns.exists_acts
    refine ⟨acts, ?_⟩
    unfold DequeRun.step at hstep
    dsimp only at hstep
    rcases hcases with ⟨hsteal, hend⟩ | ⟨value, hsteal, hend⟩
    · rw [hsteal] at hstep
      obtain rfl := Except.ok.inj hstep
      rw [hend]
      exact hs.sequential_empty 0
    · rw [hsteal] at hstep
      obtain rfl := Except.ok.inj hstep
      rw [hend]
      exact hs.sequential_success 0 1 [value]
  | stealBatch capacity =>
    obtain ⟨s', hruns, hcases⟩ := stealBatch_uninterrupted hs 0 capacity hlen
    obtain ⟨acts, rfl⟩ := hruns.exists_acts
    refine ⟨acts, ?_⟩
    unfold DequeRun.step at hstep
    dsimp only at hstep
    rcases hcases with ⟨hsteal, hend⟩ | ⟨n, values, hsteal, hend⟩
    · rw [hsteal] at hstep
      obtain rfl := Except.ok.inj hstep
      rw [hend]
      exact hs.sequential_empty 0
    · rw [hsteal] at hstep
      obtain rfl := Except.ok.inj hstep
      rw [hend]
      exact hs.sequential_success 0 n values

/-- **A run of whole operations is a run of steps.** Carry out the operations one after another,
none of them interrupted: the steps come to the same deque, with the same items pushed and the same
items stolen in the same order. -/
theorem sequential_run {ops : List (DequeOp T)} (hfit : DequeRun.AllFit size ops) {r : DequeRun T}
    (hrun : DequeRun.run size ops = .ok r) :
    ∃ acts : List (DequeAct T), Sequential (run size acts) r := by
  -- from the last operation back, so that the invariant of the whole operations is at hand
  induction ops using List.reverseRecOn generalizing r with
  | nil =>
    obtain ⟨worker, hnew, hr⟩ := exists_of_bind_eq_ok hrun
    obtain rfl := Except.ok.inj hr
    obtain ⟨buffer, halloc, hworker⟩ := exists_of_bind_eq_ok hnew
    obtain rfl := Except.ok.inj hworker
    unfold Buffer.alloc at halloc
    split at halloc
    · obtain rfl := Except.ok.inj halloc
      exact ⟨[], ⟨rfl, fun _ => rfl, rfl, Nat.one_pos⟩, rfl, rfl, rfl⟩
    · cases halloc
  | append_singleton ops op ih =>
    rw [DequeRun.run_concat] at hrun
    obtain ⟨r', hrun', hstep⟩ := exists_of_bind_eq_ok hrun
    obtain ⟨acts, hacts⟩ := ih hfit.init hrun'
    have hlen : r'.worker.len ≤ r'.worker.buffer.cap := by
      rcases DequeRun.run_inv size hfit.init with ⟨r'', hr'', hI⟩ | hpanic
      · obtain rfl := Except.ok.inj (hrun'.symm.trans hr'')
        exact hI.len_le
      · rw [hrun'] at hpanic
        cases hpanic
    obtain ⟨acts', hacts'⟩ := hacts.step hlen hstep
    refine ⟨acts ++ acts', ?_⟩
    rw [run, List.foldl_append]
    exact hacts'

end Sequential

end DequeState

end Farsight
