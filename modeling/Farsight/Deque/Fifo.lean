import Farsight.Deque.Worker

/-!
# The deque as a queue

Runs of whole operations: `push` with slices of any lengths, `steal`, and `steal_batch` with
destinations of any capacity, from a new deque. `DequeRun.Lossless` says that the deque behaves as a
queue in every state of a run.

`push` doubles the buffer at most once, and only when the buffer is full already, whatever the
length of the slice. So a run is lossless exactly when every slice fits (`DequeRun.lossless_iff`):
one that does not is written over items that were not taken yet, or past the end of the buffer.

* `DequeRun.Inv` — the invariant: at most `cap` items, the cached counter less than `2 * cap` behind
  (so that its comparison is exact), and the queue equation;
* `DequeRun.step_inv`, `DequeRun.run_inv` — a step keeps it, hence a run.
-/

namespace Farsight

open Machine

/-- An operation on the deque. -/
inductive DequeOp (T : Type) where
  | push (task : List T)
  | steal
  | stealBatch (capacity : ℕ)
  deriving DecidableEq, Repr

/-- A deque with the record of what was pushed and what was stolen. -/
structure DequeRun (T : Type) where
  worker : Worker T
  pushed : List T
  stolen : List (Option T)

namespace DequeRun

variable {T : Type}

def step (size : ℕ+) (r : DequeRun T) : DequeOp T → Except Fault (DequeRun T)
  | .push task => do
    let worker ← r.worker.push size task
    return { r with worker, pushed := r.pushed ++ task }
  | .steal =>
    match r.worker.steal with
    | (.success value, worker) => return { r with worker, stolen := r.stolen ++ [value] }
    | (_, worker) => return { r with worker }
  | .stealBatch capacity => do
    match ← r.worker.stealBatch capacity with
    | (.success dest, worker) => return { r with worker, stolen := r.stolen ++ dest }
    | (_, worker) => return { r with worker }

/-- Carry out the operations on a new deque of items of `size` bytes. -/
def run (size : ℕ+) (ops : List (DequeOp T)) : Except Fault (DequeRun T) := do
  let worker ← Worker.new size
  ops.foldlM (step size) { worker, pushed := [], stolen := [] }

/-- In every state of the run the items fit the buffer, and what was stolen followed by what is left
is what was pushed. No copy leaves its buffer. -/
def Lossless (size : ℕ+) (ops : List (DequeOp T)) : Prop :=
  ∀ done, done <+: ops →
    match run size done with
    | .ok r => r.worker.len ≤ r.worker.buffer.cap ∧
        r.stolen ++ r.worker.items = r.pushed.map some
    | .error e => e ≠ .outOfBounds

/-- Every slice pushed in the run fits the buffer it is copied into. -/
def AllFit (size : ℕ+) (ops : List (DequeOp T)) : Prop :=
  ∀ done task rest, ops = done ++ .push task :: rest →
    ∀ r, run size done = .ok r → r.worker.Fits size task.length

/-! ### The invariant -/

structure Inv (r : DequeRun T) : Prop where
  len_le : r.worker.len ≤ r.worker.buffer.cap
  cached_lt : (r.worker.produced - r.worker.cachedCons).toNat < 2 * r.worker.buffer.cap
  fifo : r.stolen ++ r.worker.items = r.pushed.map some

theorem Inv.initial {size : ℕ+} {worker : Worker T} (h : Worker.new size = .ok worker) :
    Inv { worker, pushed := [], stolen := [] } := by
  obtain ⟨buffer, -, heq⟩ := exists_of_bind_eq_ok h
  obtain rfl := Except.ok.inj heq
  have hpos := buffer.cap_pos
  exact ⟨by simp [Worker.len], by simpa using hpos, by simp [Worker.items, Worker.len]⟩

/-- Taking `n` items from the front. -/
theorem Inv.take {r : DequeRun T} (hI : r.Inv) {n : ℕ} (hn : n ≤ r.worker.len) :
    Inv { r with
      worker := { r.worker with consumed := r.worker.consumed + BitVec.ofNat 64 n }
      stolen := r.stolen ++ r.worker.items.take n } where
  len_le := by
    rw [← Worker.length_items, r.worker.items_drop hn, List.length_drop, Worker.length_items]
    exact Nat.le_trans (Nat.sub_le _ _) hI.len_le
  cached_lt := hI.cached_lt
  fifo := by
    rw [r.worker.items_drop hn, List.append_assoc, List.take_append_drop]
    exact hI.fifo

/-- **A step keeps the invariant** if its slice fits. The allocation of a `push` may panic. -/
theorem step_inv (size : ℕ+) {r : DequeRun T} (hI : r.Inv) (op : DequeOp T)
    (hfit : ∀ task, op = .push task → r.worker.Fits size task.length) :
    (∃ r', r.step size op = .ok r' ∧ r'.Inv) ∨ r.step size op = .error .panic := by
  cases op with
  | push task =>
    rcases r.worker.push_spec size task hI.len_le hI.cached_lt (hfit task rfl) with
      ⟨w, heq, hitems, hlen, hcached⟩ | heq
    · left
      simp only [step, heq, bind, Except.bind]
      refine ⟨_, rfl, hlen, hcached, ?_⟩
      rw [hitems, ← List.append_assoc, hI.fifo, List.map_append]
    · right
      simp only [step, heq, bind, Except.bind]
  | steal =>
    left
    rcases r.worker.steal_spec hI.len_le with ⟨-, heq⟩ | ⟨x, heq, hhead, hpos⟩
    · -- nothing to steal
      simp only [step, heq]
      exact ⟨_, rfl, hI⟩
    · have htake : r.worker.items.take 1 = [x] := by
        rw [List.take_one, hhead]
        rfl
      have hI' := hI.take hpos
      rw [htake] at hI'
      simp only [step, heq]
      exact ⟨_, rfl, hI'⟩
  | stealBatch capacity =>
    left
    rcases r.worker.stealBatch_spec capacity hI.len_le with heq | ⟨n, hn, heq⟩
    · simp only [step, heq, bind, Except.bind]
      exact ⟨_, rfl, hI⟩
    · simp only [step, heq, bind, Except.bind]
      exact ⟨_, rfl, hI.take hn⟩

theorem run_concat (size : ℕ+) (ops : List (DequeOp T)) (op : DequeOp T) :
    run size (ops ++ [op]) = run size ops >>= fun r => r.step size op := by
  unfold run
  cases Worker.new (T := T) size with
  | error e => rfl
  | ok worker =>
    change List.foldlM _ _ _ = List.foldlM _ _ _ >>= _
    rw [List.foldlM_append]
    simp

theorem AllFit.init {size : ℕ+} {ops : List (DequeOp T)} {op : DequeOp T}
    (h : AllFit size (ops ++ [op])) : AllFit size ops := by
  intro done task rest hsplit
  exact h done task (rest ++ [op]) (by rw [hsplit]; simp)

/-- **A run whose slices all fit keeps the invariant.** -/
theorem run_inv (size : ℕ+) {ops : List (DequeOp T)} (hfit : AllFit size ops) :
    (∃ r, run size ops = .ok r ∧ r.Inv) ∨ run size ops = .error .panic := by
  induction ops using List.reverseRecOn with
  | nil =>
    have hpow : minCap.isPowerOfTwo := ⟨6, rfl⟩
    rcases Worker.alloc_eq (T := T) size hpow with ⟨buffer, halloc, -, -⟩ | ⟨halloc, -⟩
    · have hnew : Worker.new size
          = .ok { consumed := 0, produced := 0, cachedCons := 0, buffer } := by
        simp only [Worker.new, halloc, bind, Except.bind]
        rfl
      refine .inl ⟨_, ?_, Inv.initial hnew⟩
      simp only [run, hnew, bind, Except.bind]
      rfl
    · right
      simp only [run, Worker.new, halloc, bind, Except.bind]
  | append_singleton ops op ih =>
    rw [run_concat]
    -- a panic ends the run
    rcases ih hfit.init with ⟨r, heq, hI⟩ | heq
    · rw [heq]
      refine step_inv size hI op fun task htask => ?_
      exact hfit ops task [] (by rw [htask]) r heq
    · exact .inr (by rw [heq]; rfl)

/-! ### Lossless runs -/

/-- A slice that does not fit breaks the queue. -/
theorem not_fifo_of_not_fits (size : ℕ+) {r : DequeRun T} (hI : r.Inv) {task : List T}
    (hfit : ¬ r.worker.Fits size task.length) :
    match r.step size (.push task) with
    | .ok r' => ¬ (r'.worker.len ≤ r'.worker.buffer.cap ∧
        r'.stolen ++ r'.worker.items = r'.pushed.map some)
    | .error e => e = .outOfBounds := by
  rcases r.worker.push_of_not_fits size task hI.len_le hI.cached_lt hfit with
    ⟨w, heq, hlt⟩ | heq
  · simp only [step, heq, bind, Except.bind, pure, Except.pure]
    rintro ⟨hlen, hfifo⟩
    -- the queue equation would make room for more items than there are slots
    have hlength := congrArg List.length hfifo
    have hbefore := congrArg List.length hI.fifo
    simp only [List.length_append, List.length_map, Worker.length_items] at hlength hbefore
    omega
  · simp only [step, heq, bind, Except.bind]

theorem Lossless.init {size : ℕ+} {ops : List (DequeOp T)} {op : DequeOp T}
    (h : Lossless size (ops ++ [op])) : Lossless size ops :=
  fun done hdone => h done (hdone.trans (List.prefix_append _ _))

theorem allFit_of_lossless (size : ℕ+) {ops : List (DequeOp T)} (h : Lossless size ops) :
    AllFit size ops := by
  -- the slices before the last operation fit, so the invariant holds up to there
  induction ops using List.reverseRecOn with
  | nil =>
    intro done task rest hsplit
    simp at hsplit
  | append_singleton ops op ih =>
    have hinit := ih h.init
    intro done task rest hsplit r hr
    rcases List.eq_nil_or_concat rest with rfl | ⟨rest, last, rfl⟩
    · -- the last operation
      obtain ⟨rfl, hop⟩ := List.append_inj' hsplit rfl
      obtain rfl : op = .push task := by simpa using hop
      rcases run_inv size hinit with ⟨r', heq, hI⟩ | heq
      · obtain rfl : r' = r := Except.ok.inj (heq.symm.trans hr)
        by_contra hfit
        have hlast := h _ (List.prefix_refl _)
        have hbroken := not_fifo_of_not_fits size hI hfit
        rw [run_concat, heq] at hlast
        simp only [bind, Except.bind] at hlast
        cases hstep : r'.step size (.push task) with
        | ok r'' =>
          rw [hstep] at hlast hbroken
          exact hbroken hlast
        | error e =>
          rw [hstep] at hlast hbroken
          exact hlast hbroken
      · rw [heq] at hr
        cases hr
    · -- a slice pushed before the last operation
      refine hinit done task rest ?_ r hr
      have hsplit' : ops ++ [op] = (done ++ .push task :: rest) ++ [last] := by
        rw [hsplit]
        simp
      exact (List.append_inj' hsplit' rfl).1

/-- **When the deque is a queue.** In every state of a run the deque loses, duplicates and
overwrites nothing, if and only if every slice pushed in the run fits the buffer it is copied
into. -/
theorem lossless_iff (size : ℕ+) (ops : List (DequeOp T)) :
    Lossless size ops ↔ AllFit size ops := by
  refine ⟨allFit_of_lossless size, fun hfit done hdone => ?_⟩
  obtain ⟨rest, rfl⟩ := hdone
  have hfit' : AllFit size done := fun done' task rest' hsplit =>
    hfit done' task (rest' ++ rest) (by rw [hsplit]; simp)
  rcases run_inv size hfit' with ⟨r, heq, hI⟩ | heq
  · rw [heq]
    exact ⟨hI.len_le, hI.fifo⟩
  · rw [heq]
    exact fun h => by cases h

/-- Four batches of 16, one item stolen, and a fifth batch. -/
def fiveBatches : List (DequeOp ℕ) :=
  List.replicate 4 (.push (List.range 16)) ++ [.steal, .push (List.range 16)]

/-- **A batch is written over items that were not taken**: 79 items in 64 slots. -/
theorem fiveBatches_not_lossless : ¬ Lossless 16 fiveBatches := by
  intro h
  have hlast := h _ (List.prefix_refl _)
  have hrun : (run 16 fiveBatches).map (fun r => (r.worker.len, r.worker.buffer.cap))
      = .ok (79, 64) := by
    decide +kernel
  cases heq : run 16 fiveBatches with
  | error e =>
    rw [heq] at hrun
    cases hrun
  | ok r =>
    rw [heq] at hlast hrun
    have hpair := Prod.mk.inj (Except.ok.inj hrun)
    have hle := hlast.1
    rw [hpair.1, hpair.2] at hle
    exact absurd hle (by decide)

end DequeRun

end Farsight
