import Farsight.Lib.RacyCounter
import Farsight.Strategy.IpScope

/-!
# The score of a prefix

`on_result` reads the score of the prefix with `query` and writes it back, plus one, with `update`.
No lock is held over both, so the score of a prefix is a racy counter (`RacyCounter`): the threads
that report a hit in the prefix raise it, and the feeder sets it when it inserts the prefix.

* `PmapIpAdapter.scoreView` — the machine seen as such a counter, which it simulates as long as the
  prefix has free addresses and is not removed from the heap;
* `PmapIpAdapter.score_eq_add_reports` — when no hit is lost;
* `PmapIpAdapter.racingReports_lost` — two reports of which one is lost.
-/

namespace Farsight

variable {scope : Scope}

/-! ### Reports and inserts -/

namespace PmapIpAdapter

/-- The score of a prefix: its value in the heap, or its historical score. -/
def score (self : PmapIpAdapter scope) (p : BitVec 32) (s : IpState) : ℚ :=
  (s.heap.query p).getD (self.graph.historicalScore p).toNat

/-- The calls of `on_result` for an address of `p` that start in a step. -/
def reports (p : BitVec 32) (s : IpState) : IpAct → ℕ
  | .onResult t addr =>
    match s.threads t with
    | .idle => if prefixId addr = p then 1 else 0
    | _ => 0
  | _ => 0

/-- The prefix has free addresses, and the step does not remove it from the heap. -/
def Keeps (p : BitVec 32) (s : IpState) (act : IpAct) : Prop :=
  (s.entry p).remaining ≠ 0 ∧
    ∀ draw last result, act = .feeder draw → s.feeder ≠ .tryPickPop last result (.popRemove p)

/-- If the step inserts a score of `p`, that is the score plus one if a responder thread inserts it,
and the score itself if the feeder does. -/
def FreshInsert (self : PmapIpAdapter scope) (p : BitVec 32) (s : IpState) : IpAct → Prop
  | .thread t => ∀ v, s.threads t = .update (.updateInsert p v) → v = self.score p s + 1
  | .feeder _ => ∀ addr v, s.feeder = .nextUpdate addr (.updateInsert p v) → v = self.score p s
  | _ => True

/-- The step is not an insert of `p` by the feeder. -/
def NoFeederInsert (p : BitVec 32) (s : IpState) (act : IpAct) : Prop :=
  ∀ draw addr v, act = .feeder draw → s.feeder ≠ .nextUpdate addr (.updateInsert p v)

end PmapIpAdapter

/-! ### Operations in progress -/

/-- An `update` in progress. -/
def HeapOp.IsUpdate {K V : Type} : HeapOp K V → Prop
  | .popTake => False
  | .popRemove _ => False
  | _ => True

/-- A `pop` in progress. -/
def HeapOp.IsPop {K V : Type} : HeapOp K V → Prop
  | .popTake => True
  | .popRemove _ => True
  | .done => True
  | _ => False

section Ops

variable {op : HeapOp (BitVec 32) ℚ} {heap : ConcurrentLazyHeap (BitVec 32) ℚ}

/-- An `update` in progress goes on as an `update` until it is done. -/
theorem HeapOp.IsUpdate.exec (h : op.IsUpdate) (heap : ConcurrentLazyHeap (BitVec 32) ℚ) :
    (op.exec heap).1.IsUpdate := by
  cases op with
  | updateGet key value =>
    rw [HeapOp.exec]
    cases heap.values key <;> trivial
  | popTake => exact h.elim
  | popRemove key => exact h.elim
  | _ => trivial

/-- A `pop` in progress goes on as a `pop`, also where it starts again after a stale entry. -/
theorem HeapOp.IsPop.exec (h : op.IsPop) (heap : ConcurrentLazyHeap (BitVec 32) ℚ) :
    (op.exec heap).1.IsPop := by
  cases op with
  | popTake =>
    rw [HeapOp.exec]
    cases MaxHeap.peek heap.cleaned.current <;> trivial
  | popRemove key => trivial
  | done => trivial
  | _ => exact h.elim

/-- Only an insert and a removal change a value. -/
theorem HeapOp.values_exec {p : BitVec 32} (hremove : op ≠ .popRemove p)
    (hinsert : ∀ v, op ≠ .updateInsert p v) : (op.exec heap).2.values p = heap.values p := by
  cases op with
  | updateGet key value =>
    rw [HeapOp.exec]
    cases heap.values key <;> rfl
  | updateInsert key value =>
    have hne : p ≠ key := by
      rintro rfl
      exact hinsert value rfl
    exact Function.update_of_ne hne ..
  -- takes an entry off the heap; the map of values is written by the next access
  | popTake =>
    rw [HeapOp.exec]
    cases MaxHeap.peek heap.cleaned.current <;> rfl
  | popRemove key =>
    have hne : p ≠ key := by
      rintro rfl
      exact hremove rfl
    exact Function.update_of_ne hne ..
  | _ => rfl

end Ops

/-- If a responder thread is inside a call into the heap, that is an `update`. -/
def ReportPc.InCall : ReportPc → Prop
  | .update op => op.IsUpdate
  | _ => True

/-- The feeder is inside the call into the heap that its place says. -/
def FeederPc.InCall : FeederPc → Prop
  | .tryPickPop _ _ op => op.IsPop
  | .nextUpdate _ op => op.IsUpdate
  | _ => True

/-- Every thread is inside the call into the heap that its place says. -/
structure IpState.Calls (s : IpState) : Prop where
  threads : ∀ t, (s.threads t).InCall
  feeder : s.feeder.InCall

namespace IpState.Calls

variable {s : IpState}

/-- A responder thread inside the heap is inside `update`: it has no other call. -/
theorem thread_update (h : s.Calls) {t : ℕ} {op : HeapOp (BitVec 32) ℚ}
    (hpc : s.threads t = .update op) : op.IsUpdate := by
  have hcall := h.threads t
  rw [hpc] at hcall
  exact hcall

theorem feeder_pop (h : s.Calls) {last : Bool} {result : Option Ipv4Addr}
    {op : HeapOp (BitVec 32) ℚ} (hpc : s.feeder = .tryPickPop last result op) : op.IsPop := by
  have hcall := h.feeder
  rw [hpc] at hcall
  exact hcall

theorem feeder_update (h : s.Calls) {addr : Ipv4Addr} {op : HeapOp (BitVec 32) ℚ}
    (hpc : s.feeder = .nextUpdate addr op) : op.IsUpdate := by
  have hcall := h.feeder
  rw [hpc] at hcall
  exact hcall

end IpState.Calls

theorem IpState.calls_initial : IpState.initial.Calls :=
  ⟨fun _ => trivial, trivial⟩

namespace PmapIpAdapter

theorem calls_update {s : IpState} (h : s.Calls) {heap : ConcurrentLazyHeap (BitVec 32) ℚ} {t : ℕ}
    {pc : ReportPc} (hpc : pc.InCall) :
    IpState.Calls { s with heap := heap, threads := Function.update s.threads t pc } where
  threads :=
    (Function.forall_update_iff s.threads fun _ pc => pc.InCall).mpr
      ⟨hpc, fun j _ => h.threads j⟩
  feeder := h.feeder

/-- A step of a responder thread stays inside its `update`, or leaves it. -/
theorem calls_threadStep (self : PmapIpAdapter scope) {s : IpState} (h : s.Calls) (t : ℕ) :
    (self.threadStep t s).Calls := by
  unfold threadStep
  cases hpc : s.threads t with
  | idle => exact h
  | room q =>
    apply calls_update h
    -- the prefix has room or has not: both ways lead out of the first access
    split <;> trivial
  | query q => exact calls_update h trivial
  | update op =>
    have hexec := (h.thread_update hpc).exec s.heap
    dsimp only
    split
    · exact calls_update h trivial
    · next op' heap _ heq =>
      rw [heq] at hexec
      exact calls_update h hexec

/-- A step of the feeder stays inside the call that its place says. -/
theorem calls_feederStep {self : PmapIpAdapter scope} {draw : ℕ → BitVec 8} {s t : IpState}
    (h : s.Calls) (hstep : self.FeederStep draw s t) : t.Calls := by
  have hthreads : ∀ i, (t.threads i).InCall := by
    rw [hstep.threads]
    exact h.threads
  refine ⟨hthreads, ?_⟩
  -- only the accesses of a heap operation go on within a call
  cases hstep with
  | stay hpc => exact h.feeder
  | pop hpc hexec => exact (h.feeder_pop hpc).exec s.heap
  | update hpc hexec => exact (h.feeder_update hpc).exec s.heap
  | sweepSkip hpc => exact h.feeder
  | _ => trivial

/-- Every step keeps every thread inside the call that its place says. -/
theorem calls_step (self : PmapIpAdapter scope) {s : IpState} (h : s.Calls) (act : IpAct) :
    (self.step s act).Calls := by
  cases act with
  | feeder draw => exact calls_feederStep h (self.feederStep_cases draw s)
  | thread t => exact self.calls_threadStep h t
  | onResult t addr =>
    unfold step
    dsimp only
    split
    · exact calls_update h trivial
    · exact h
  | nextAddress coin =>
    unfold step
    dsimp only
    split
    · split <;> exact ⟨h.threads, trivial⟩
    · exact h

end PmapIpAdapter

/-! ### The score as a racy counter -/

/-- What a responder thread will still do to the score of `p`. -/
def ReportPc.debt (p : BitVec 32) : ReportPc → RacyCounter.Debt ℚ
  | .room q => if q = p then .unread else .clear
  | .query q => if q = p then .unread else .clear
  | .update (.updateGet q v) => if q = p then .holds v else .clear
  | .update (.updateStale q v _) => if q = p then .holds v else .clear
  | .update (.updateInsert q v) => if q = p then .holds v else .clear
  -- after the insert only the push on `current` is left
  | _ => .clear

namespace PmapIpAdapter

/-- What an action does to the score of `p`. -/
def scoreAct (p : BitVec 32) (s : IpState) : IpAct → RacyCounter.Act ℕ ℚ
  | .onResult t addr =>
    match s.threads t with
    | .idle => if prefixId addr = p then .call t else .skip
    | _ => .skip
  | .thread t =>
    -- the score is read by `query` and written by the insert of `update`
    match s.threads t with
    | .query q => if q = p then .read t else .skip
    | .update (.updateInsert q _) => if q = p then .write t else .skip
    | _ => .skip
  | .feeder _ =>
    -- the feeder does not add to the score: it inserts the historical one
    match s.feeder with
    | .nextUpdate _ (.updateInsert q v) => if q = p then .set v else .skip
    | _ => .skip
  | .nextAddress _ => .skip

/-- The score of `p` and what is owed to it. -/
def scoreView (self : PmapIpAdapter scope) (p : BitVec 32) (s : IpState) :
    RacyCounter.State ℕ ℚ :=
  ⟨self.score p s, fun t => (s.threads t).debt p⟩

/-- A thread moves and the heap keeps the value of `p`. -/
theorem scoreView_update (self : PmapIpAdapter scope) {p : BitVec 32} {s : IpState}
    {heap : ConcurrentLazyHeap (BitVec 32) ℚ} (hheap : heap.values p = s.heap.values p) (t : ℕ)
    (pc : ReportPc) :
    self.scoreView p { s with heap := heap, threads := Function.update s.threads t pc } =
      ⟨self.score p s, Function.update (fun j => (s.threads j).debt p) t (pc.debt p)⟩ := by
  have hdebts : (fun j => (Function.update s.threads t pc j).debt p) =
      Function.update (fun j => (s.threads j).debt p) t (pc.debt p) :=
    Function.comp_update (ReportPc.debt p) s.threads t pc
  have hscore : self.score p { s with heap := heap, threads := Function.update s.threads t pc } =
      self.score p s := by
    rw [score, score, ConcurrentLazyHeap.query, ConcurrentLazyHeap.query, hheap]
  rw [scoreView, hscore, hdebts]

/-- A thread moves that owes the same before and after. -/
theorem scoreView_stay (self : PmapIpAdapter scope) {p : BitVec 32} {s : IpState}
    {heap : ConcurrentLazyHeap (BitVec 32) ℚ} (hheap : heap.values p = s.heap.values p) {t : ℕ}
    {pc : ReportPc} (hpc : pc.debt p = (s.threads t).debt p) :
    self.scoreView p { s with heap := heap, threads := Function.update s.threads t pc } =
      self.scoreView p s := by
  rw [self.scoreView_update hheap, hpc, Function.update_eq_self]
  rfl

/-- An `update` in progress, by its next access: only the insert changes a score. -/
theorem scoreView_exec (self : PmapIpAdapter scope) {p : BitVec 32} {s : IpState} {t : ℕ}
    {op : HeapOp (BitVec 32) ℚ} (hpc : s.threads t = .update op) (hop : op.IsUpdate)
    (hinsert : ∀ v, op ≠ .updateInsert p v) :
    self.scoreView p (self.threadStep t s) = self.scoreView p s := by
  unfold threadStep
  rw [hpc]
  cases op with
  | updateGet q v =>
    simp only [HeapOp.exec]
    cases s.heap.values q with
    | none => exact self.scoreView_stay rfl (by rw [hpc]; rfl)
    | some old => exact self.scoreView_stay rfl (by rw [hpc]; rfl)
  | updateStale q v old => exact self.scoreView_stay rfl (by rw [hpc]; rfl)
  | updateInsert q v =>
    -- an insert for another prefix
    have hqp : q ≠ p := fun h => hinsert v (by rw [h])
    refine self.scoreView_stay (Function.update_of_ne hqp.symm ..) ?_
    simp only [hpc, ReportPc.debt, if_neg hqp]
  | updatePush q v => exact self.scoreView_stay rfl (by rw [hpc]; rfl)
  | done => exact self.scoreView_stay rfl (by rw [hpc]; rfl)
  -- a responder thread never pops
  | popTake => exact hop.elim
  | popRemove q => exact hop.elim

/-- All accesses of an `update` but its insert for `p` are silent for the counter. -/
theorem scoreAct_exec {p : BitVec 32} {s : IpState} {t : ℕ} {op : HeapOp (BitVec 32) ℚ}
    (hpc : s.threads t = .update op) (hinsert : ∀ v, op ≠ .updateInsert p v) :
    scoreAct p s (.thread t) = .skip := by
  cases op with
  | updateInsert q v =>
    have hqp : q ≠ p := fun h => hinsert v (by rw [h])
    simp only [scoreAct, hpc, if_neg hqp]
  | _ => simp only [scoreAct, hpc]

/-- The insert of a responder thread is the write. -/
theorem scoreAct_insert {p : BitVec 32} {s : IpState} {t : ℕ} {v : ℚ}
    (hpc : s.threads t = .update (.updateInsert p v)) : scoreAct p s (.thread t) = .write t := by
  simp only [scoreAct, hpc, if_true]

/-- A thread that is about to insert holds the value that it computed from the score it read. -/
theorem debts_insert (self : PmapIpAdapter scope) {p : BitVec 32} {s : IpState} {t : ℕ} {v : ℚ}
    (hpc : s.threads t = .update (.updateInsert p v)) :
    (self.scoreView p s).debts t = .holds v := by
  simp only [scoreView, hpc, ReportPc.debt, if_true]

/-- The insert is the write of the counter: the score becomes the value held, and the thread owes
nothing any more. -/
theorem scoreView_insert (self : PmapIpAdapter scope) {p : BitVec 32} {s : IpState} {t : ℕ} {v : ℚ}
    (hpc : s.threads t = .update (.updateInsert p v)) :
    self.scoreView p (self.threadStep t s) =
      ⟨v, Function.update (self.scoreView p s).debts t .clear⟩ := by
  let heap := { s.heap with values := Function.update s.heap.values p (some v) }
  -- the write of the map and the move of the thread, in one step
  have hs : self.threadStep t s =
      { { s with heap := heap } with
        threads := Function.update s.threads t (.update (.updatePush p v)) } := by
    simp only [threadStep, hpc, HeapOp.exec]
    rfl
  have hscore : self.score p { s with heap := heap } = v := by
    simp [score, ConcurrentLazyHeap.query, heap]
  rw [hs]
  refine (self.scoreView_update (s := { s with heap := heap }) rfl t _).trans ?_
  rw [hscore]
  rfl

/-- A step of a responder thread is a step of the counter. The query is the read of an increment and
the insert its write; between them others may write, which is what makes the counter racy. -/
theorem scoreView_threadStep (self : PmapIpAdapter scope) {p : BitVec 32} {s : IpState}
    (h : s.Calls) (hroom : (s.entry p).remaining ≠ 0) (t : ℕ) :
    self.scoreView p (self.threadStep t s) =
      RacyCounter.step (self.scoreView p s) (scoreAct p s (.thread t)) := by
  cases hpc : s.threads t with
  | idle =>
    simp only [threadStep, scoreAct, hpc]
    rfl
  | room q =>
    simp only [threadStep, scoreAct, hpc]
    refine self.scoreView_stay rfl ?_
    by_cases hqp : q = p
    · -- there is room, so the call goes on
      have hhas :
          ((s.actives q).map fun state => decide (state.remaining > 0)).getD true = true := by
        rw [hqp]
        cases hactive : s.actives p with
        | none => rfl
        | some state =>
          rw [IpState.entry, hactive, Option.getD_some] at hroom
          exact decide_eq_true (show state.remaining > 0 by bv_omega)
      rw [hhas, hpc]
      rfl
    · rw [hpc]
      split <;> simp only [ReportPc.debt, if_neg hqp]
  | query q =>
    simp only [threadStep, scoreAct, hpc]
    by_cases hqp : q = p
    · subst hqp
      -- the query reads the score
      have hdebt : (self.scoreView q s).debts t = .unread := by
        simp only [scoreView, hpc, ReportPc.debt, if_true]
      rw [if_pos rfl, RacyCounter.step, hdebt]
      refine (self.scoreView_update rfl t _).trans ?_
      simp only [ReportPc.debt, ConcurrentLazyHeap.update, if_true]
      rfl
    · rw [if_neg hqp]
      refine self.scoreView_stay rfl ?_
      rw [hpc]
      simp only [ReportPc.debt, ConcurrentLazyHeap.update, if_neg hqp]
  | update op =>
    by_cases hinsert : ∃ v, op = .updateInsert p v
    · -- the insert writes what was computed, whatever the score has become
      obtain ⟨v, rfl⟩ := hinsert
      rw [scoreAct_insert hpc, RacyCounter.step, self.debts_insert hpc]
      exact self.scoreView_insert hpc
    · have hother : ∀ v, op ≠ .updateInsert p v := fun v hv => hinsert ⟨v, hv⟩
      rw [self.scoreView_exec hpc (h.thread_update hpc) hother, scoreAct_exec hpc hother]
      rfl

/-- All steps of the feeder but its insert for `p` are silent for the counter. -/
theorem scoreAct_feeder_skip {p : BitVec 32} {s : IpState} {draw : ℕ → BitVec 8}
    (hinsert : ∀ addr v, s.feeder ≠ .nextUpdate addr (.updateInsert p v)) :
    scoreAct p s (.feeder draw) = .skip := by
  unfold scoreAct
  dsimp only
  split
  · next addr q v hpc =>
    have hqp : q ≠ p := fun h => hinsert addr v (by rw [hpc, h])
    rw [if_neg hqp]
  · rfl

/-- The feeder leaves the value of a prefix unless it inserts or removes that. -/
theorem values_feederStep {self : PmapIpAdapter scope} {p : BitVec 32} {draw : ℕ → BitVec 8}
    {s t : IpState} (h : s.Calls) (hstep : self.FeederStep draw s t)
    (hremove : ∀ last result, s.feeder ≠ .tryPickPop last result (.popRemove p))
    (hinsert : ∀ addr v, s.feeder ≠ .nextUpdate addr (.updateInsert p v)) :
    t.heap.values p = s.heap.values p := by
  -- a `pop` inserts nothing, and an `update` removes nothing
  have hpop {last : Bool} {result : Option Ipv4Addr} {op : HeapOp (BitVec 32) ℚ}
      (hpc : s.feeder = .tryPickPop last result op) :
      (op.exec s.heap).2.values p = s.heap.values p := by
    apply HeapOp.values_exec
    · rintro rfl
      exact hremove last result hpc
    · rintro v rfl
      exact h.feeder_pop hpc
  have hupdate {addr : Ipv4Addr} {op : HeapOp (BitVec 32) ℚ}
      (hpc : s.feeder = .nextUpdate addr op) :
      (op.exec s.heap).2.values p = s.heap.values p := by
    apply HeapOp.values_exec
    · rintro rfl
      exact h.feeder_update hpc
    · rintro v rfl
      exact hinsert addr v hpc
  -- all other accesses leave the map
  cases hstep with
  | pop hpc => exact hpop hpc
  | popReturn hpc => exact hpop hpc
  | popLoop hpc => exact hpop hpc
  | update hpc => exact hupdate hpc
  | updateReturn hpc => exact hupdate hpc
  | _ => rfl

/-- The feeder leaves the threads, and the score unless it inserts or removes the prefix. -/
theorem scoreView_feederStep (self : PmapIpAdapter scope) {p : BitVec 32} {s : IpState}
    (h : s.Calls) {draw : ℕ → BitVec 8} (hkeeps : Keeps p s (.feeder draw)) :
    self.scoreView p (self.feederStep draw s) =
      RacyCounter.step (self.scoreView p s) (scoreAct p s (.feeder draw)) := by
  by_cases hinsert : ∃ addr v, s.feeder = .nextUpdate addr (.updateInsert p v)
  · -- the insert sets the counter
    obtain ⟨addr, v, hpc⟩ := hinsert
    simp only [feederStep, scoreAct, hpc, HeapOp.exec, if_true, RacyCounter.step, scoreView, score,
      ConcurrentLazyHeap.query, Function.update_self, Option.getD_some]
  · have hinsert' : ∀ addr v, s.feeder ≠ .nextUpdate addr (.updateInsert p v) := by
      intro addr v hpc
      exact hinsert ⟨addr, v, hpc⟩
    have hstep := self.feederStep_cases draw s
    have hvalue := values_feederStep h hstep (fun last result => hkeeps.2 draw last result rfl)
      hinsert'
    rw [scoreAct_feeder_skip hinsert', scoreView, hstep.threads, score, ConcurrentLazyHeap.query,
      hvalue]
    rfl

/-- Every step of the strategy that keeps the prefix is a step of the counter. -/
theorem scoreView_step (self : PmapIpAdapter scope) {p : BitVec 32} {s : IpState} (h : s.Calls)
    {act : IpAct} (hkeeps : Keeps p s act) :
    self.scoreView p (self.step s act) =
      RacyCounter.step (self.scoreView p s) (scoreAct p s act) := by
  cases act with
  | feeder draw => exact self.scoreView_feederStep h hkeeps
  | thread t => exact self.scoreView_threadStep h hkeeps.1 t
  | onResult t addr =>
    cases hpc : s.threads t with
    | idle =>
      simp only [step, scoreAct, hpc]
      by_cases hp : prefixId addr = p
      · -- a report of a hit in the prefix starts an increment
        have hdebt : (self.scoreView p s).debts t = .clear := by
          simp only [scoreView, hpc, ReportPc.debt]
        rw [if_pos hp, RacyCounter.step, hdebt]
        refine (self.scoreView_update rfl t _).trans ?_
        simp only [ReportPc.debt, if_pos hp]
        rfl
      · rw [if_neg hp]
        refine self.scoreView_stay rfl ?_
        simp only [hpc, ReportPc.debt, if_neg hp]
    | _ =>
      simp only [step, scoreAct, hpc]
      rfl
  | nextAddress coin =>
    simp only [step, scoreAct]
    split
    · split <;> rfl
    · rfl

/-- The score of a prefix is a racy counter. -/
def scoreSimulation (self : PmapIpAdapter scope) (p : BitVec 32) :
    Run.Simulation self.step (RacyCounter.step : RacyCounter.State ℕ ℚ → _ → _) (Keeps p) where
  view := self.scoreView p
  label := scoreAct p
  Inv := IpState.Calls
  inv_step := fun _ act h _ => self.calls_step h act
  view_step := fun _ _ h hkeeps => self.scoreView_step h hkeeps

/-! The conditions and the number of calls are those of the counter. -/

/-- The condition on the inserts, in terms of the strategy, is the one of the counter: a write is
fresh if it adds to the value that it replaces. -/
theorem freshInsert_iff (self : PmapIpAdapter scope) (p : BitVec 32) (s : IpState) (act : IpAct) :
    RacyCounter.Fresh (self.scoreView p s) (scoreAct p s act) ↔ self.FreshInsert p s act := by
  cases act with
  | thread t =>
    by_cases hinsert : ∃ v, s.threads t = .update (.updateInsert p v)
    · obtain ⟨v, hpc⟩ := hinsert
      -- the insert of a responder thread is a write of the counter
      rw [scoreAct_insert hpc, RacyCounter.Fresh, self.debts_insert hpc, FreshInsert, hpc]
      constructor
      · rintro h w ⟨⟩
        exact h v rfl
      · rintro h w ⟨⟩
        exact h v rfl
    · refine ⟨fun _ v hv => absurd ⟨v, hv⟩ hinsert, fun _ => ?_⟩
      unfold scoreAct
      dsimp only
      split
      · split <;> trivial
      · next q v hpc =>
        have hqp : q ≠ p := fun h => hinsert ⟨v, by rw [hpc, h]⟩
        rw [if_neg hqp]
        trivial
      · trivial
  | feeder draw =>
    by_cases hinsert : ∃ addr v, s.feeder = .nextUpdate addr (.updateInsert p v)
    · obtain ⟨addr, v, hpc⟩ := hinsert
      -- the insert of the feeder sets the counter, and is fresh if it changes nothing
      have hact : scoreAct p s (.feeder draw) = .set v := by
        simp only [scoreAct, hpc, if_true]
      rw [hact, RacyCounter.Fresh, FreshInsert, hpc]
      constructor
      · rintro h _ _ ⟨⟩
        exact h
      · intro h
        exact h addr v rfl
    · refine ⟨fun _ addr v hv => absurd ⟨addr, v, hv⟩ hinsert, fun _ => ?_⟩
      rw [scoreAct_feeder_skip fun addr v hv => hinsert ⟨addr, v, hv⟩]
      trivial
  | onResult t addr =>
    refine ⟨fun _ => trivial, fun _ => ?_⟩
    unfold scoreAct
    dsimp only
    split
    · split <;> trivial
    · trivial
  | nextAddress coin => exact Iff.rfl

/-- The reports that start in a step are the calls of the counter. -/
theorem reports_eq (self : PmapIpAdapter scope) (p : BitVec 32) (s : IpState) (act : IpAct) :
    RacyCounter.calls (self.scoreView p s) (scoreAct p s act) = reports p s act := by
  cases act with
  | onResult t addr =>
    -- a report counts when an idle thread begins it, and for its own prefix only
    cases hpc : s.threads t with
    | idle =>
      have hdebt : (self.scoreView p s).debts t = .clear := by
        simp only [scoreView, hpc, ReportPc.debt]
      simp only [scoreAct, reports, hpc]
      split
      · rw [RacyCounter.calls, hdebt]
      · rfl
    | _ =>
      simp only [scoreAct, reports, hpc]
      rfl
  | thread t =>
    simp only [scoreAct, reports]
    split
    · split <;> rfl
    · split <;> rfl
    · rfl
  | feeder draw =>
    simp only [scoreAct, reports]
    split
    · split <;> rfl
    · rfl
  | nextAddress coin => rfl

/-- The counter is set from outside exactly when the feeder puts the prefix back. -/
theorem noFeederInsert_iff (p : BitVec 32) (s : IpState) (act : IpAct) :
    ¬ RacyCounter.IsSet (scoreAct p s act) ↔ NoFeederInsert p s act := by
  cases act with
  | feeder draw =>
    constructor
    · rintro hset _ addr v ⟨⟩ hpc
      apply hset
      -- the score is set by the feeder at one place, its insertion into the map
      simp only [scoreAct, hpc, if_true]
      trivial
    · intro hno
      rw [scoreAct_feeder_skip fun addr v => hno draw addr v rfl]
      exact id
  | thread t =>
    refine ⟨fun _ => by rintro _ _ _ ⟨⟩, fun _ => ?_⟩
    simp only [scoreAct]
    split
    · split <;> exact id
    · split <;> exact id
    · exact id
  | onResult t addr =>
    refine ⟨fun _ => by rintro _ _ _ ⟨⟩, fun _ => ?_⟩
    simp only [scoreAct]
    split
    · split <;> exact id
    · exact id
  | nextAddress coin => exact ⟨fun _ => by rintro _ _ _ ⟨⟩, fun _ => id⟩

/-! ### Lost hits -/

/-- **When no hit is lost.** Start in any state of a run in which no responder thread is inside
`on_result`, and take any further steps, as long as the prefix has free addresses and is not removed
from the heap. When all threads have returned, the score of the prefix has been raised by the number
of calls of `on_result` for its addresses, if every score was inserted fresh. If the feeder has not
inserted the prefix meanwhile, that is also necessary. -/
theorem score_eq_add_reports (self : PmapIpAdapter scope) (p : BitVec 32) (past acts : List IpAct)
    (hstart : ∀ t, (self.run past).threads t = .idle)
    (hend : ∀ t, (self.run (past ++ acts)).threads t = .idle)
    (hkeeps : Run.Along self.step (Keeps p) (self.run past) acts) :
    (Run.Along self.step (self.FreshInsert p) (self.run past) acts →
      self.score p (self.run (past ++ acts)) = self.score p (self.run past) +
        Run.total self.step (reports p) (self.run past) acts) ∧
    (Run.Along self.step (NoFeederInsert p) (self.run past) acts →
      (self.score p (self.run (past ++ acts)) = self.score p (self.run past) +
          Run.total self.step (reports p) (self.run past) acts ↔
        Run.Along self.step (self.FreshInsert p) (self.run past) acts)) := by
  have hcalls : (self.run past).Calls :=
    List.foldlRecOn past self.step IpState.calls_initial fun _ h act _ => self.calls_step h act
  have hrun : self.run (past ++ acts) = acts.foldl self.step (self.run past) := List.foldl_append
  rw [hrun] at hend ⊢
  -- the run of the counter, with its conditions and its calls
  let view := self.scoreView p (self.run past)
  let labels := (self.scoreSimulation p).labels (self.run past) acts
  have hfold : labels.foldl RacyCounter.step view =
      self.scoreView p (acts.foldl self.step (self.run past)) :=
    (self.scoreSimulation p).foldl_labels hcalls hkeeps
  have hfresh : Run.Along RacyCounter.step RacyCounter.Fresh view labels ↔
      Run.Along self.step (self.FreshInsert p) (self.run past) acts :=
    ((self.scoreSimulation p).along_labels hcalls hkeeps).trans
      (Run.along_congr (self.freshInsert_iff p))
  have hset : Run.Along RacyCounter.step (fun _ act => ¬ RacyCounter.IsSet act) view labels ↔
      Run.Along self.step (NoFeederInsert p) (self.run past) acts :=
    ((self.scoreSimulation p).along_labels hcalls hkeeps).trans
      (Run.along_congr (noFeederInsert_iff p))
  have hreports : Run.total RacyCounter.step RacyCounter.calls view labels =
      Run.total self.step (reports p) (self.run past) acts := by
    have hweight : (fun s act => RacyCounter.calls (self.scoreView p s) (scoreAct p s act)) =
        reports p := by
      funext s act
      exact self.reports_eq p s act
    rw [← hweight]
    exact (self.scoreSimulation p).total_labels hcalls hkeeps
  -- nobody is in a call at either end, so every call has made its write
  have hclear : ∀ t, view.debts t = .clear := fun t => congrArg (ReportPc.debt p) (hstart t)
  have hpaid : ∀ t, (labels.foldl RacyCounter.step view).debts t = .clear := by
    intro t
    rw [hfold]
    exact congrArg (ReportPc.debt p) (hend t)
  have hwrites := RacyCounter.total_writes hclear hpaid
  have hscore : (labels.foldl RacyCounter.step view).value =
      self.score p (acts.foldl self.step (self.run past)) := congrArg RacyCounter.State.value hfold
  rw [← hscore, ← hreports, ← hwrites]
  refine ⟨fun h => RacyCounter.value_eq_of_fresh (hfresh.mpr h), fun h => ?_⟩
  exact (RacyCounter.value_eq_iff_fresh (hset.mpr h) hclear).trans hfresh

/-- The step is one of a responder thread. -/
def ByThread (act : IpAct) : Prop :=
  (∃ t, act = .thread t) ∨ ∃ t addr, act = .onResult t addr

theorem ByThread.ne_feeder {act : IpAct} (h : ByThread act) (draw : ℕ → BitVec 8) :
    act ≠ .feeder draw := by
  rintro rfl
  rcases h with ⟨t, ht⟩ | ⟨t, addr, ht⟩ <;> cases ht

/-- A responder thread leaves the states of the prefixes. -/
theorem ByThread.actives_step (self : PmapIpAdapter scope) {act : IpAct} (h : ByThread act)
    (s : IpState) : (self.step s act).actives = s.actives := by
  rcases h with ⟨t, rfl⟩ | ⟨t, addr, rfl⟩
  · exact (self.threadStep_frame t s).1
  · unfold step
    dsimp only
    split <;> rfl

/-- Without steps of the feeder a prefix keeps its free addresses. -/
theorem keeps_of_no_feeder (self : PmapIpAdapter scope) {p : BitVec 32} {acts : List IpAct}
    (hacts : ∀ act ∈ acts, ByThread act) {s : IpState} (hroom : (s.entry p).remaining ≠ 0) :
    Run.Along self.step (Keeps p) s acts := by
  refine Run.along_of_preserving (I := fun s => (s.entry p).remaining ≠ 0) ?_ hroom
  intro act hact s hroom
  refine ⟨⟨hroom, ?_⟩, ?_⟩
  · intro draw last result hfeeder
    exact absurd hfeeder ((hacts act hact).ne_feeder draw)
  · rw [IpState.entry, (hacts act hact).actives_step self]
    exact hroom

/-- Without steps of the feeder there is no insert by it. -/
theorem noFeederInsert_of_no_feeder (self : PmapIpAdapter scope) {p : BitVec 32}
    {acts : List IpAct} (hacts : ∀ act ∈ acts, ByThread act) (s : IpState) :
    Run.Along self.step (NoFeederInsert p) s acts := by
  refine Run.along_of_preserving (I := fun _ => True) ?_ trivial
  intro act hact s _
  refine ⟨?_, trivial⟩
  intro draw addr v hfeeder
  exact absurd hfeeder ((hacts act hact).ne_feeder draw)

/-- Two responder threads report a hit at `10.0.0.0` and one at `10.0.0.5`, and their accesses
alternate, but the second queries the score after the first has inserted its own. -/
def orderedReports : List IpAct :=
  [.onResult 0 0x0A000000#32, .onResult 1 0x0A000005#32, .thread 0, .thread 1, .thread 0, .thread 0,
    .thread 0, .thread 0, .thread 1, .thread 1, .thread 0, .thread 1, .thread 1, .thread 1]

/-- After a first report both hits of the two threads count: the score goes from 1 to 3. -/
theorem score_eq_add_reports_ordered :
    singleHostAdapter.score 0x0A0000#32 (singleHostAdapter.run (reportActs 0x0A000000#32)) = 1 ∧
      Run.total singleHostAdapter.step (reports 0x0A0000#32)
        (singleHostAdapter.run (reportActs 0x0A000000#32)) orderedReports = 2 ∧
      singleHostAdapter.score 0x0A0000#32
        (singleHostAdapter.run (reportActs 0x0A000000#32 ++ orderedReports)) = 3 ∧
      Run.Along singleHostAdapter.step (singleHostAdapter.FreshInsert 0x0A0000#32)
        (singleHostAdapter.run (reportActs 0x0A000000#32)) orderedReports := by
  have hidle : ∀ t, (singleHostAdapter.run (reportActs 0x0A000000#32)).threads t = .idle := by
    intro t
    match t with
    | 0 => rfl
    | _ + 1 => rfl
  have hend : ∀ t, (singleHostAdapter.run
      (reportActs 0x0A000000#32 ++ orderedReports)).threads t = .idle := by
    intro t
    match t with
    | 0 => rfl
    | 1 => rfl
    | _ + 2 => rfl
  -- one report before the two
  have hone : singleHostAdapter.score 0x0A0000#32
      (singleHostAdapter.run (reportActs 0x0A000000#32)) = 1 := by
    change (0 : ℚ) + 1 = 1
    exact zero_add 1
  have htotal : Run.total singleHostAdapter.step (reports 0x0A0000#32)
      (singleHostAdapter.run (reportActs 0x0A000000#32)) orderedReports = 2 := rfl
  have hthree : singleHostAdapter.score 0x0A0000#32
      (singleHostAdapter.run (reportActs 0x0A000000#32 ++ orderedReports)) = 3 := by
    change (0 : ℚ) + 1 + 1 + 1 = 3
    norm_num
  have hthread : ∀ act ∈ orderedReports, ByThread act := by
    simp [orderedReports, ByThread]
  have hkeeps := singleHostAdapter.keeps_of_no_feeder (p := 0x0A0000#32) hthread
    (s := singleHostAdapter.run (reportActs 0x0A000000#32)) (by decide)
  have hno := singleHostAdapter.noFeederInsert_of_no_feeder (p := 0x0A0000#32) hthread
    (singleHostAdapter.run (reportActs 0x0A000000#32))
  have hiff := (singleHostAdapter.score_eq_add_reports 0x0A0000#32 (reportActs 0x0A000000#32)
    orderedReports hidle hend hkeeps).2 hno
  refine ⟨hone, htotal, hthree, hiff.mp ?_⟩
  rw [hone, htotal, hthree]
  norm_num

/-- Two responder threads report a hit at `10.0.0.0` and both query the score before either of them
inserts. -/
def racingReports : List IpAct :=
  [.onResult 0 0x0A000000#32, .onResult 1 0x0A000000#32, .thread 0, .thread 0, .thread 1, .thread 1,
    .thread 0, .thread 0, .thread 0, .thread 1, .thread 1, .thread 1, .thread 1]

/-- **A hit is lost.** Both threads have returned, and the score has been raised by one. -/
theorem racingReports_lost :
    singleHostAdapter.score 0x0A0000#32 .initial = 0 ∧
      Run.total singleHostAdapter.step (reports 0x0A0000#32) .initial racingReports = 2 ∧
      (∀ t, (singleHostAdapter.run racingReports).threads t = .idle) ∧
      Run.Along singleHostAdapter.step (Keeps 0x0A0000#32) .initial racingReports ∧
      singleHostAdapter.score 0x0A0000#32 (singleHostAdapter.run racingReports) = 1 := by
  refine ⟨rfl, rfl, ?_, ?_, ?_⟩
  · intro t
    match t with
    | 0 => rfl
    | 1 => rfl
    | _ + 2 => rfl
  · exact singleHostAdapter.keeps_of_no_feeder (by simp [racingReports, ByThread]) (by decide)
  · -- both have read zero, so that the second write repeats the first
    change (0 : ℚ) + 1 = 1
    exact zero_add 1

end PmapIpAdapter

end Farsight
