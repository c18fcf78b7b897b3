import Farsight.Strategy.TryPick

/-!
# The calls return

`on_result` has no loop: it returns after six accesses of its thread, whatever the feeder and the
other threads do in between. `next_address` has one in `try_pick` and one in the sweep. When nobody
else is inside a call it returns too, with one result: `try_pick` has fewer and fewer prefixes to
look at, the sweep comes closer and closer to its end, and `try_pick` after it is the last one. Here
an access is one step; whether it ever gets its lock is the subject of `Strategy.IpLocks`.

* `HeapOp.accesses`, `ReportPc.accesses` — how many accesses are left, at most;
* `PmapIpAdapter.onResult_returns` — `on_result`, in any interleaving;
* `PmapIpAdapter.Quiet` — a run in which only the feeder may be inside a call;
* `PmapIpAdapter.Returns` — the call in progress returns;
* `PmapIpAdapter.nextAddress_returns` — `next_address`, after any calls one after another.
-/

namespace Farsight

/-! ### `on_result` -/

section Heap

variable {K V : Type}

/-- How many accesses of an operation are left, at most. -/
def HeapOp.accesses : HeapOp K V → ℕ
  | .updateGet _ _ => 4
  | .updateStale _ _ _ => 3
  | .updateInsert _ _ => 2
  | .updatePush _ _ => 1
  | .popTake => 2
  | .popRemove _ => 1
  | .done => 0

/-- No call into the heap takes more than four accesses. -/
theorem HeapOp.accesses_le (op : HeapOp K V) : op.accesses ≤ 4 := by
  cases op <;> simp [accesses]

theorem HeapOp.accesses_pos {op : HeapOp K V} (h : op ≠ .done) : 0 < op.accesses := by
  cases op with
  | done => exact absurd rfl h
  | updateGet | updateStale | updateInsert | updatePush | popTake | popRemove => simp [accesses]

/-- Every access brings a call into the heap closer to its end, whatever others have done to the
heap. -/
theorem HeapOp.accesses_exec [LinearOrder K] [LinearOrder V] (op : HeapOp K V)
    (heap : ConcurrentLazyHeap K V) : (op.exec heap).1.accesses ≤ op.accesses - 1 := by
  cases op with
  | updateGet key value =>
    rw [exec]
    cases heap.values key <;> simp [accesses]
  | popTake =>
    rw [exec]
    cases MaxHeap.peek heap.cleaned.current <;> simp [accesses]
  | updateStale | updateInsert | updatePush | popRemove | done => simp [exec, accesses]

end Heap

/-- How many accesses of a responder thread are left, at most. -/
def ReportPc.accesses : ReportPc → ℕ
  | .idle => 0
  | .room _ => 6
  | .query _ => 5
  | .update op => max op.accesses 1

/-- A report takes six accesses at most: the room, the query and the `update`. -/
theorem ReportPc.accesses_le (pc : ReportPc) : pc.accesses ≤ 6 := by
  cases pc with
  | update op =>
    have hop := op.accesses_le
    simp only [accesses]
    omega
  | idle | room | query => simp [accesses]

theorem ReportPc.eq_idle_of_accesses {pc : ReportPc} (h : pc.accesses = 0) : pc = .idle := by
  cases pc with
  | idle => rfl
  | update op =>
    simp only [accesses] at h
    omega
  | room | query => cases h

/-- An access of the thread. -/
def IpAct.isAccessOf (t : ℕ) : IpAct → Bool
  | .thread u => u = t
  | _ => false

/-- A call by the thread. -/
def IpAct.isCallOf (t : ℕ) : IpAct → Bool
  | .onResult u _ => u = t
  | _ => false

namespace PmapIpAdapter

variable {scope : Scope}

/-- An access of a thread brings its own call closer to the end. There is no loop and no retry in
`on_result`, so this does not depend on the other threads. -/
theorem accesses_threadStep (self : PmapIpAdapter scope) (t : ℕ) (s : IpState) :
    ((self.threadStep t s).threads t).accesses ≤ (s.threads t).accesses - 1 := by
  unfold threadStep
  split
  · next hpc =>
    rw [hpc]
    exact Nat.le_refl 0
  · next hpc =>
    dsimp only
    rw [Function.update_self, hpc]
    split <;> simp [ReportPc.accesses]
  · next hpc =>
    dsimp only
    rw [Function.update_self, hpc]
    simp [ReportPc.accesses, ConcurrentLazyHeap.update, HeapOp.accesses]
  · next op hpc =>
    -- inside the heap: the call is over, or one access less remains
    rw [hpc]
    split
    · dsimp only
      rw [Function.update_self]
      exact Nat.zero_le _
    · next op' heap hnot hexec =>
      obtain rfl : (op.exec s.heap).1 = op' := congrArg Prod.fst hexec
      have hless := op.accesses_exec s.heap
      have hpos := HeapOp.accesses_pos hnot
      dsimp only
      rw [Function.update_self]
      simp only [ReportPc.accesses]
      omega

/-- Nobody else has a say in where a thread stands. -/
theorem threads_step_of_not (self : PmapIpAdapter scope) {t : ℕ} {act : IpAct}
    (haccess : act.isAccessOf t = false) (hcall : act.isCallOf t = false) (s : IpState) :
    (self.step s act).threads t = s.threads t := by
  cases act with
  | nextAddress coin =>
    rw [step]
    split
    · split <;> rfl
    · rfl
  | feeder draw => rw [step, (self.feederStep_cases draw s).threads]
  -- others may call and move; their places are their own
  | onResult u addr =>
    have hu : t ≠ u := fun heq => of_decide_eq_false hcall heq.symm
    rw [step]
    split
    · exact Function.update_of_ne hu _ _
    · rfl
  | thread u =>
    have hu : t ≠ u := fun heq => of_decide_eq_false haccess heq.symm
    rw [step, self.threadStep_threads_of_ne hu]

/-- What the thread has left, after a run in which it does not call. -/
theorem accesses_run (self : PmapIpAdapter scope) {t : ℕ} {acts : List IpAct}
    (hcalls : ∀ act ∈ acts, act.isCallOf t = false) (s : IpState) :
    ((acts.foldl self.step s).threads t).accesses ≤
      (s.threads t).accesses - acts.countP (IpAct.isAccessOf t) := by
  induction acts generalizing s with
  | nil => exact Nat.le_refl _
  | cons act acts ih =>
    rw [List.forall_mem_cons] at hcalls
    have hrest := ih hcalls.2 (self.step s act)
    rw [List.foldl_cons]
    -- an access of this thread counts, and no other step sets it back
    cases haccess : act.isAccessOf t with
    | true =>
      have hstep : ((self.step s act).threads t).accesses ≤ (s.threads t).accesses - 1 := by
        cases act with
        | thread u =>
          obtain rfl : u = t := of_decide_eq_true haccess
          exact self.accesses_threadStep u s
        | nextAddress | feeder | onResult => cases haccess
      rw [List.countP_cons_of_pos haccess]
      omega
    | false =>
      rw [self.threads_step_of_not haccess hcalls.1] at hrest
      rw [List.countP_cons_of_neg (by rw [haccess]; decide)]
      exact hrest

/-- **`on_result` returns.** Whatever state it is in, and whatever the feeder and the other threads
do in between, after six accesses of its own the thread is outside `on_result`. -/
theorem onResult_returns (self : PmapIpAdapter scope) {t : ℕ} {acts : List IpAct}
    (hcalls : ∀ act ∈ acts, act.isCallOf t = false)
    (haccesses : 6 ≤ acts.countP (IpAct.isAccessOf t)) (s : IpState) :
    (acts.foldl self.step s).threads t = .idle := by
  have hrun := self.accesses_run hcalls s
  have hstart := (s.threads t).accesses_le
  exact ReportPc.eq_idle_of_accesses (by omega)

/-! ### Runs in which only the feeder may be inside a call -/

/-- Calls one after another, and no responder thread is inside one at the end. -/
structure Quiet (adapter : PmapIpAdapter scope) (acts : List IpAct) : Prop where
  alone : Run.Along adapter.step Alone .initial acts
  threads : ∀ t, (adapter.run acts).threads t = .idle

variable {self : PmapIpAdapter scope} {acts : List IpAct} {draws : ℕ → ℕ → BitVec 8} {s : IpState}
  {results : List (Option Ipv4Addr)}

/-- The feeder may go on while the responders are quiet. -/
theorem Quiet.concat (h : self.Quiet acts) {act : IpAct}
    (hact : (∃ coin, act = .nextAddress coin) ∨ ∃ draw, act = .feeder draw) :
    self.Quiet (acts ++ [act]) := by
  obtain ⟨halone, hthreads⟩ := self.idle_of_feeder hact h.threads
  refine ⟨Run.along_append.mpr ⟨h.alone, halone, trivial⟩, ?_⟩
  rw [run_concat]
  exact hthreads

/-- The accesses of the feeder, as actions of a run. -/
def feeds (draws : ℕ → ℕ → BitVec 8) (n : ℕ) : List IpAct :=
  (List.range n).map fun i => .feeder (draws i)

theorem feeds_succ (draws : ℕ → ℕ → BitVec 8) (n : ℕ) :
    feeds draws (n + 1) = .feeder (draws 0) :: feeds (fun i => draws (i + 1)) n := by
  rw [feeds, List.range_succ_eq_map, List.map_cons, List.map_map]
  rfl

/-- Letting the feeder alone run is iterating its step. -/
theorem run_feeds (self : PmapIpAdapter scope) (acts : List IpAct) (draws : ℕ → ℕ → BitVec 8)
    (n : ℕ) : self.run (acts ++ feeds draws n) = self.feed draws (self.run acts) n := by
  induction n generalizing acts draws with
  | zero => rw [feeds, List.range_zero, List.map_nil, List.append_nil, feed]
  | succ n ih => rw [feeds_succ, List.append_cons, ih, run_concat, step, feed]

/-- The responders stay quiet while the feeder runs. -/
theorem Quiet.feeds (h : self.Quiet acts) (draws : ℕ → ℕ → BitVec 8) (n : ℕ) :
    self.Quiet (acts ++ feeds draws n) := by
  induction n generalizing acts draws with
  | zero =>
    rw [PmapIpAdapter.feeds, List.range_zero, List.map_nil, List.append_nil]
    exact h
  | succ n ih =>
    rw [feeds_succ, List.append_cons]
    exact ih (h.concat (.inr ⟨_, rfl⟩)) _

/-! ### `next_address` -/

/-- The call in progress returns, with one result after those that are there. -/
def Returns (self : PmapIpAdapter scope) (results : List (Option Ipv4Addr))
    (draws : ℕ → ℕ → BitVec 8) (s : IpState) : Prop :=
  ∃ n result, (self.feed draws s n).feeder = .idle ∧
    (self.feed draws s n).results = results ++ [result]

theorem Returns.step
    (h : self.Returns results (fun i => draws (i + 1)) (self.feederStep (draws 0) s)) :
    self.Returns results draws s := by
  obtain ⟨n, result, hreturned⟩ := h
  exact ⟨n + 1, result, hreturned⟩

theorem Returns.of_feed {n : ℕ}
    (h : self.Returns results (fun i => draws (i + n)) (self.feed draws s n)) :
    self.Returns results draws s := by
  induction n generalizing draws s with
  | zero => exact h
  | succ n ih => exact .step (ih h)

/-- The `update` after the sweep has taken an address. -/
theorem returns_update {addr : Ipv4Addr} {op : HeapOp (BitVec 32) ℚ}
    (hpc : s.feeder = .nextUpdate addr op) : self.Returns s.results draws s := by
  induction haccesses : op.accesses using Nat.strongRecOn generalizing op s draws with
  | ind accesses ih =>
    subst haccesses
    refine .step ?_
    simp only [feederStep, hpc]
    split
    · exact ⟨0, some addr, rfl, rfl⟩
    · next op' heap hnot hexec =>
      obtain rfl : (op.exec s.heap).1 = op' := congrArg Prod.fst hexec
      have hless := op.accesses_exec s.heap
      have hpos := HeapOp.accesses_pos hnot
      exact ih _ (by omega) (s := { s with heap := heap, feeder := .nextUpdate addr _ }) rfl rfl

/-- Once an address is chosen, all that remains are the query and the `update`, which cannot
fail. -/
theorem returns_query {addr : Ipv4Addr} (hpc : s.feeder = .nextQuery addr) :
    self.Returns s.results draws s := by
  refine .step ?_
  simp only [feederStep, hpc]
  split
  · exact ⟨0, some addr, rfl, rfl⟩
  · exact returns_update (s := { s with feeder := .nextUpdate addr _ }) rfl

/-- A turn of the sweep returns an address, or is about to, or goes on, or is the last one. -/
theorem feederStep_next (self : PmapIpAdapter scope) (draw : ℕ → BitVec 8)
    (hpc : s.feeder = .next) :
    ((self.feederStep draw s).feeder = .idle ∧
      ∃ addr, (self.feederStep draw s).results = s.results ++ [some addr]) ∨
    (self.feederStep draw s).results = s.results ∧
      ((∃ addr, (self.feederStep draw s).feeder = .nextQuery addr) ∨
        (s.index < scope.ranges.count ∧ (self.feederStep draw s).feeder = .next ∧
          (self.feederStep draw s).index = s.index + 1) ∨
        (self.feederStep draw s).feeder = .tryPickTop true) := by
  by_cases hlt : s.index < scope.ranges.count
  · -- `index` does not panic inside the ranges
    obtain ⟨addr, haddr⟩ := scope.exists_index (self.rng ⟨s.index, hlt⟩).isLt
    simp only [feederStep, hpc, dif_pos hlt, haddr]
    -- scanned before: the next index
    split
    · exact .inr ⟨rfl, .inr (.inl ⟨hlt, hpc, rfl⟩)⟩
    · split
      · exact .inr ⟨rfl, .inl ⟨addr, rfl⟩⟩
      · exact .inl ⟨rfl, addr, rfl⟩
  · have hend : self.feederStep draw s = { s with feeder := .tryPickTop true } := by
      simp only [feederStep, hpc, dif_neg hlt]
    rw [hend]
    exact .inr ⟨rfl, .inr (.inr rfl)⟩

namespace Quiet

/-- While nobody else is inside a call, the heap is in order, as `try_pick` needs it. -/
theorem pickable (h : self.Quiet acts) {last : Bool}
    (hpc : (self.run acts).feeder = .tryPickTop last) : (self.run acts).Pickable :=
  self.pickable_run h.alone h.threads (.inr ⟨last, hpc⟩)

/-- The second `try_pick` is the last thing that `next_address` does. -/
theorem returns_tryPick_last (h : self.Quiet acts)
    (hpc : (self.run acts).feeder = .tryPickTop true) :
    self.Returns (self.run acts).results draws (self.run acts) := by
  obtain ⟨n, result, hpicks, -⟩ := self.exists_tryPicks (h.pickable hpc) hpc draws
  refine ⟨n, result, ?_⟩
  cases result with
  | none => exact hpicks.returned
  | some addr => exact hpicks.returned

/-- The sweep, by induction on what is left of it. -/
theorem returns_next (h : self.Quiet acts) (hpc : (self.run acts).feeder = .next) :
    self.Returns (self.run acts).results draws (self.run acts) := by
  -- on the addresses that the sweep has not come to yet
  induction hleft : scope.ranges.count - (self.run acts).index using Nat.strongRecOn
    generalizing acts draws with
  | ind left ih =>
    subst hleft
    have hquiet := h.concat (.inr ⟨draws 0, rfl⟩)
    have hrun : self.run (acts ++ [.feeder (draws 0)]) =
        self.feederStep (draws 0) (self.run acts) := self.run_concat acts _
    refine .step ?_
    rw [← hrun]
    obtain ⟨hidle, addr, hresults⟩ | ⟨hresults, hnext⟩ := self.feederStep_next (draws 0) hpc
    · rw [← hrun] at hidle hresults
      exact ⟨0, some addr, hidle, hresults⟩
    · -- nothing is returned yet: the `update`, another turn, or the last `try_pick`
      rw [← hrun] at hresults hnext
      rw [← hresults]
      obtain ⟨addr, hquery⟩ | ⟨hlt, hagain, hindex⟩ | hend := hnext
      · exact returns_query hquery
      · exact ih _ (by omega) hquiet hagain rfl
      · exact hquiet.returns_tryPick_last hend

/-- The first `try_pick`, with the sweep after it if it finds nothing. -/
theorem returns_tryPick (h : self.Quiet acts) (hpc : (self.run acts).feeder = .tryPickTop false) :
    self.Returns (self.run acts).results draws (self.run acts) := by
  obtain ⟨n, result, hpicks, -⟩ := self.exists_tryPicks (h.pickable hpc) hpc draws
  have hreturned := hpicks.returned
  cases result with
  | some addr => exact ⟨n, some addr, hreturned⟩
  | none =>
    -- nothing was found, and `next` goes on from there
    obtain ⟨hnext, hresults⟩ : _ ∧ _ := hreturned
    rw [← self.run_feeds] at hnext hresults
    refine .of_feed (n := n) ?_
    rw [← hresults, ← self.run_feeds]
    exact (h.feeds draws n).returns_next hnext

end Quiet

/-- **`next_address` returns.** After any calls one after another, whatever the coin shows and the
random generator returns: it comes to an end after finitely many accesses, with one result. -/
theorem nextAddress_returns (h : self.Quiet acts) (hidle : (self.run acts).feeder = .idle)
    (coin : {r : ℚ // 0 ≤ r ∧ r ≤ 1}) (draws : ℕ → ℕ → BitVec 8) :
    ∃ n result,
      (self.run (acts ++ .nextAddress coin :: feeds draws n)).feeder = .idle ∧
      (self.run (acts ++ .nextAddress coin :: feeds draws n)).results =
        (self.run acts).results ++ [result] := by
  have hquiet := h.concat (.inl ⟨coin, rfl⟩)
  have hrun : (self.run (acts ++ [.nextAddress coin])).results = (self.run acts).results ∧
      ((self.run (acts ++ [.nextAddress coin])).feeder = .tryPickTop false ∨
        (self.run (acts ++ [.nextAddress coin])).feeder = .next) := by
    rw [run_concat]
    simp only [step, hidle]
    -- the coin decides between the heap and the sweep
    split
    · exact ⟨rfl, .inl rfl⟩
    · exact ⟨rfl, .inr rfl⟩
  have hreturns : self.Returns (self.run (acts ++ [.nextAddress coin])).results draws
      (self.run (acts ++ [.nextAddress coin])) := by
    obtain hpick | hnext := hrun.2
    · exact hquiet.returns_tryPick hpick
    · exact hquiet.returns_next hnext
  obtain ⟨n, result, hreturned⟩ := hreturns
  refine ⟨n, result, ?_⟩
  rw [List.append_cons, run_feeds, ← hrun.1]
  exact hreturned

end PmapIpAdapter

end Farsight
