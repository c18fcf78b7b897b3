import Farsight.Strategy.IpScope
import Farsight.Strategy.Serial

/-!
# Picking from the heap

`try_pick` looks at the prefix on top of the heap. If it has a free address it takes one, otherwise
it pops the prefix and looks again. When no other call is in progress it does what it should: it
comes to an end, it finds an address if there is one under the bound prefixes, and the address
belongs to the best of them.

* `PmapIpAdapter.feed` — the feeder, access after access;
* `PmapIpAdapter.TryPicks` — a `try_pick` that returns after some number of accesses;
* `IpState.Candidate`, `IpState.Picks` — a bound prefix with a free address, and the right answer;
* `IpState.Pickable` — what `try_pick` needs of a state, with `IpState.Pickable.pop` for a turn of
  its loop;
* `PmapIpAdapter.exists_tryPicks` — the loop, by induction on the number of entries in the heap;
* `PmapIpAdapter.tryPick_finds` — the states that calls one after another lead to.
-/

namespace Farsight

variable {scope : Scope}

/-- Inside `try_pick`. -/
def FeederPc.InTryPick : FeederPc → Prop
  | .tryPickTop _ => True
  | .tryPickEntry _ _ => True
  | .tryPickPop _ _ _ => True
  | _ => False

/-- `try_pick` has returned. A first call that finds nothing is followed by the sweep. -/
def IpState.Returned (last : Bool) (results : List (Option Ipv4Addr)) (s : IpState) :
    Option Ipv4Addr → Prop
  | some addr => s.feeder = .idle ∧ s.results = results ++ [some addr]
  | none =>
    if last then s.feeder = .idle ∧ s.results = results ++ [none]
    else s.feeder = .next ∧ s.results = results

namespace PmapIpAdapter

/-- As many accesses of the feeder, with nobody else in between. `draws i` is what the random
generator returns from access `i` on. -/
def feed (self : PmapIpAdapter scope) (draws : ℕ → ℕ → BitVec 8) (s : IpState) : ℕ → IpState
  | 0 => s
  | n + 1 => feed self (fun i => draws (i + 1)) (self.feederStep (draws 0) s) n

/-- A `try_pick` in progress returns with access `n`, and not before. -/
structure TryPicks (adapter : PmapIpAdapter scope) (last : Bool)
    (results : List (Option Ipv4Addr)) (draws : ℕ → ℕ → BitVec 8) (s : IpState) (n : ℕ)
    (result : Option Ipv4Addr) : Prop where
  inside : ∀ k < n, (adapter.feed draws s k).feeder.InTryPick
  returned : (adapter.feed draws s n).Returned last results result

variable {self : PmapIpAdapter scope} {last : Bool} {results : List (Option Ipv4Addr)}
  {draws : ℕ → ℕ → BitVec 8} {s t : IpState} {n : ℕ} {result : Option Ipv4Addr} {p : BitVec 32}

theorem TryPicks.zero (h : s.Returned last results result) :
    self.TryPicks last results draws s 0 result where
  inside k hk := absurd hk (Nat.not_lt_zero k)
  returned := h

/-- One more access in front. -/
theorem TryPicks.cons (hinside : s.feeder.InTryPick) (hstep : self.feederStep (draws 0) s = t)
    (h : self.TryPicks last results (fun i => draws (i + 1)) t n result) :
    self.TryPicks last results draws s (n + 1) result := by
  subst hstep
  refine ⟨fun k hk => ?_, h.returned⟩
  cases k with
  | zero => exact hinside
  | succ k => exact h.inside k (Nat.lt_of_succ_lt_succ hk)

/-! ### The accesses of a turn -/

section Accesses

variable (self : PmapIpAdapter scope) (draw : ℕ → BitVec 8)

theorem feederStep_top (hpc : s.feeder = .tryPickTop last) (htop : s.heap.top.1 = some p) :
    self.feederStep draw s =
      { s with heap := s.heap.cleaned, feeder := .tryPickEntry last p } := by
  have hpair : s.heap.top = (some p, s.heap.cleaned) := Prod.ext htop rfl
  simp only [feederStep, hpc, hpair]

theorem feederStep_top_none (hpc : s.feeder = .tryPickTop last) (htop : s.heap.top.1 = none) :
    self.feederStep draw s =
      if last then { s with heap := s.heap.cleaned }.finish none
      else { s with heap := s.heap.cleaned, feeder := .next } := by
  have hpair : s.heap.top = (none, s.heap.cleaned) := Prod.ext htop rfl
  simp only [feederStep, hpc, hpair]

theorem feederStep_used (hpc : s.feeder = .tryPickEntry last p)
    (hused : (s.entry p).remaining = 0) :
    self.feederStep draw s =
      { s.setEntry p (s.entry p) with feeder := .tryPickPop last none .popTake } := by
  simp only [feederStep, hpc]
  rw [if_pos hused]
  rfl

theorem feederStep_pick (hpc : s.feeder = .tryPickEntry last p)
    (hroom : (s.entry p).remaining ≠ 0) {o : BitVec 8}
    (hfetch : (s.entry p).fetchUnscanned draw = some o) :
    self.feederStep draw s =
      if ((s.entry p).markScanned o).2.remaining = 0 then
        { s.setEntry p ((s.entry p).markScanned o).2 with
          feeder := .tryPickPop last (some (joinAddr p o)) .popTake }
      else (s.setEntry p ((s.entry p).markScanned o).2).finish (some (joinAddr p o)) := by
  simp only [feederStep, hpc]
  rw [if_neg hroom, hfetch]
  rfl

/-- The state after the `pop` of `try_pick`: it returns what it has picked, or looks again. -/
def afterPop (last : Bool) (s : IpState) : Option Ipv4Addr → IpState
  | some addr => s.finish (some addr)
  | none => { s with feeder := .tryPickTop last }

/-- `pop` takes two accesses, and then the heap is that of `LazyHeap::pop`. -/
theorem feederStep_pop (hpc : s.feeder = .tryPickPop last result .popTake)
    (htop : s.heap.top.1 = some p) :
    ∃ middle heap, self.feederStep draw s = middle ∧ middle.feeder.InTryPick ∧
      (∀ draw', self.feederStep draw' middle = afterPop last { s with heap := heap } result) ∧
      heap.alone = s.heap.alone.pop := by
  obtain ⟨x, hx, rfl⟩ := Option.map_eq_some_iff.mp htop
  have hpeek : MaxHeap.peek s.heap.alone.cleaned.current = some x := hx
  -- two accesses of the heap, with nobody between them: together they are `pop` of the heap alone
  have htake : self.feederStep draw s = { s with
      heap := { s.heap.cleaned with current := MaxHeap.pop s.heap.cleaned.current }
      feeder := .tryPickPop last result (.popRemove (ofLex x).2) } := by
    simp only [feederStep, hpc, HeapOp.exec, hx]
  let heap : ConcurrentLazyHeap (BitVec 32) ℚ := { s.heap.cleaned with
    current := MaxHeap.pop s.heap.cleaned.current
    values := Function.update s.heap.values (ofLex x).2 none }
  refine ⟨_, heap, htake, trivial, fun draw' => ?_, ?_⟩
  · simp only [feederStep, HeapOp.exec]
    cases result <;> rfl
  · exact (LazyHeap.pop_eq hpeek).symm

end Accesses

end PmapIpAdapter

/-! ### The right answer -/

namespace IpState

variable {s t : IpState} {p : BitVec 32} {result : Option Ipv4Addr}

/-- The prefix has a free address. -/
def HasUnscanned (s : IpState) (p : BitVec 32) : Prop :=
  ∃ o, (s.entry p).isUnscanned o = true

/-- The prefix is bound in the heap, with this score, and has a free address. -/
def Candidate (s : IpState) (p : BitVec 32) (score : ℚ) : Prop :=
  s.heap.values p = some score ∧ s.HasUnscanned p

/-- A free address of a candidate whose score no candidate exceeds, or nothing if there is no
candidate. -/
def Picks (s : IpState) : Option Ipv4Addr → Prop
  | some addr =>
    (s.entry (prefixId addr)).isUnscanned (offset addr) = true ∧
      ∃ score, s.Candidate (prefixId addr) score ∧
        ∀ q score', s.Candidate q score' → score' ≤ score
  | none => ∀ p score, ¬ s.Candidate p score

/-- What `try_pick` needs of a state. -/
structure Pickable (s : IpState) : Prop where
  represented : s.heap.alone.Represented
  keys : s.heap.AllKeys IsPrefix
  counted : ∀ p, (s.entry p).Counted

/-- The answer is the same if the candidates are. -/
theorem Picks.of_candidate_iff (hentry : ∀ q, t.entry q = s.entry q)
    (hcandidate : ∀ q score, t.Candidate q score ↔ s.Candidate q score) (h : t.Picks result) :
    s.Picks result := by
  cases result with
  | none => exact fun q score hq => h q score ((hcandidate q score).mpr hq)
  | some addr =>
    obtain ⟨hfree, score, haddr, hbest⟩ := h
    refine ⟨hentry _ ▸ hfree, score, (hcandidate _ _).mp haddr, fun q score' hq => ?_⟩
    exact hbest q score' ((hcandidate q score').mpr hq)

/-- Popping a prefix without free addresses changes no answer. -/
theorem Picks.of_pop (hentry : ∀ q, t.entry q = s.entry q) (hused : ¬ s.HasUnscanned p)
    (htop : s.heap.alone.top.1 = some p) (hheap : t.heap.alone = s.heap.alone.pop)
    (h : t.Picks result) : s.Picks result := by
  refine h.of_candidate_iff hentry fun q score => ?_
  have hunscanned : t.HasUnscanned q ↔ s.HasUnscanned q := by
    unfold HasUnscanned
    rw [hentry]
  unfold Candidate
  rw [hunscanned]
  by_cases hq : q = p
  · subst hq
    exact iff_of_false (fun hcand => hused hcand.2) fun hcand => hused hcand.2
  · have hvalues : t.heap.values q = s.heap.values q := by
      have hpop := LazyHeap.values_pop_of_ne htop hq
      rwa [← hheap] at hpop
    rw [hvalues]

/-- A turn of the loop leads to such a state again, with fewer entries in the heap. -/
theorem Pickable.pop (h : s.Pickable) (htop : s.heap.alone.top.1 = some p)
    (hentry : ∀ q, t.entry q = s.entry q) (hheap : t.heap.alone = s.heap.alone.pop) :
    t.Pickable ∧ t.heap.current.length < s.heap.current.length := by
  have hcurrent : t.heap.current = s.heap.alone.pop.current := by
    rw [← hheap]
    rfl
  refine ⟨⟨?_, ?_, ?_⟩, ?_⟩
  · rw [hheap]
    exact h.represented.pop
  · -- what `pop` leaves was there before
    obtain ⟨x, hx, -⟩ := Option.map_eq_some_iff.mp htop
    intro y hy
    rw [hcurrent, LazyHeap.pop_eq hx] at hy
    exact h.keys.cleaned y (MaxHeap.mem_of_mem_pop hy)
  · intro q
    rw [hentry]
    exact h.counted q
  · rw [hcurrent]
    exact LazyHeap.length_pop_lt htop

/-- A free address of the prefix on top is the right answer. -/
theorem Pickable.picks (h : s.Pickable) (htop : s.heap.top.1 = some p) {draw : ℕ → BitVec 8}
    {o : BitVec 8} (hfetch : (s.entry p).fetchUnscanned draw = some o) :
    s.Picks (some (joinAddr p o)) := by
  have hfree : (s.entry p).isUnscanned o = true := by
    rw [PrefixState.isUnscanned_eq, PrefixState.scanned_of_fetchUnscanned hfetch]
    rfl
  obtain ⟨score, hbound, hgreatest⟩ := h.represented.top_some htop
  dsimp only [Picks]
  rw [prefixId_joinAddr (h.keys.top htop), offset_joinAddr]
  exact ⟨hfree, score, ⟨hbound, o, hfree⟩, fun q score' hq => hgreatest q score' hq.1⟩

/-- The prefix on top has a free address, or nothing remains of it. -/
theorem Pickable.fetch (h : s.Pickable) (hroom : (s.entry p).remaining ≠ 0)
    (draw : ℕ → BitVec 8) : ∃ o, (s.entry p).fetchUnscanned draw = some o := by
  cases hfetch : (s.entry p).fetchUnscanned draw with
  | none => exact absurd ((h.counted p).remaining_eq_zero hfetch) hroom
  | some o => exact ⟨o, rfl⟩

end IpState

namespace PmapIpAdapter

/-! ### The loop -/

variable {last : Bool} {s : IpState} {p : BitVec 32}

theorem inTryPick_of_top (hpc : s.feeder = .tryPickTop last) : s.feeder.InTryPick := by
  rw [hpc]
  trivial

theorem top_cleaned (htop : s.heap.top.1 = some p) : s.heap.cleaned.top.1 = some p := by
  rw [ConcurrentLazyHeap.top, s.heap.cleaned_cleaned]
  exact htop

/-- A turn on a prefix without free addresses pops it. -/
theorem turn_used (self : PmapIpAdapter scope) (hpc : s.feeder = .tryPickTop last)
    (htop : s.heap.top.1 = some p) (hused : (s.entry p).remaining = 0) (draws : ℕ → ℕ → BitVec 8) :
    ∃ t : IpState, t.feeder = .tryPickTop last ∧ t.results = s.results ∧
      (∀ q, t.entry q = s.entry q) ∧ t.heap.alone = s.heap.alone.pop ∧
      ∀ {results n result}, self.TryPicks last results (fun i => draws (i + 4)) t n result →
        self.TryPicks last results draws s (n + 4) result := by
  -- the turn of the loop, state by state: the entry is made, the prefix popped, and the loop goes
  -- on
  let entered : IpState := { s with heap := s.heap.cleaned }.setEntry p (s.entry p)
  let popping : IpState := { entered with feeder := .tryPickPop last none .popTake }
  obtain ⟨middle, heap, htake, hmiddle, hremove, hheap⟩ := self.feederStep_pop
    (draws 2) (s := popping) rfl (top_cleaned htop)
  refine ⟨afterPop last { popping with heap := heap } none, rfl, rfl, fun q => ?_,
    hheap.trans (LazyHeap.pop_cleaned s.heap.alone), fun hrest => ?_⟩
  · change (s.setEntry p (s.entry p)).entry q = s.entry q
    rw [IpState.entry_setEntry]
    split
    · next hq => rw [hq]
    · rfl
  · exact .cons (inTryPick_of_top hpc) (self.feederStep_top _ hpc htop)
      (.cons trivial (self.feederStep_used _ rfl hused)
        (.cons trivial htake (.cons hmiddle (hremove _) hrest)))

/-- A turn on a prefix with a free address returns it, after popping the prefix if that was the last
one. -/
theorem turn_picks (self : PmapIpAdapter scope) (hpc : s.feeder = .tryPickTop last)
    (htop : s.heap.top.1 = some p) (hroom : (s.entry p).remaining ≠ 0)
    (draws : ℕ → ℕ → BitVec 8) {o : BitVec 8}
    (hfetch : (s.entry p).fetchUnscanned (draws 1) = some o) :
    ∃ n, self.TryPicks last s.results draws s n (some (joinAddr p o)) := by
  have hpick := self.feederStep_pick (draws 1)
    (s := { s with heap := s.heap.cleaned, feeder := .tryPickEntry last p }) rfl hroom hfetch
  -- the last free address of the prefix: it is popped before the call returns
  by_cases hlast : ((s.entry p).markScanned o).2.remaining = 0
  · let marked : IpState :=
      { s with heap := s.heap.cleaned }.setEntry p ((s.entry p).markScanned o).2
    let popping : IpState :=
      { marked with feeder := .tryPickPop last (some (joinAddr p o)) .popTake }
    obtain ⟨middle, heap, htake, hmiddle, hremove, -⟩ := self.feederStep_pop
      (draws 2) (s := popping) rfl (top_cleaned htop)
    exact ⟨4, .cons (inTryPick_of_top hpc) (self.feederStep_top _ hpc htop)
      (.cons trivial (hpick.trans (if_pos hlast))
        (.cons trivial htake (.cons hmiddle (hremove _) (.zero ⟨rfl, rfl⟩))))⟩
  · exact ⟨2, .cons (inTryPick_of_top hpc) (self.feederStep_top _ hpc htop)
      (.cons trivial (hpick.trans (if_neg hlast)) (.zero ⟨rfl, rfl⟩))⟩

/-- **`try_pick` returns the right answer.** The heap has fewer entries after each turn that does
not return. -/
theorem exists_tryPicks (self : PmapIpAdapter scope) (h : s.Pickable)
    (hpc : s.feeder = .tryPickTop last) (draws : ℕ → ℕ → BitVec 8) :
    ∃ n result, self.TryPicks last s.results draws s n result ∧ s.Picks result := by
  -- on the length of `current`, which every turn that finds no address makes shorter
  induction hlength : s.heap.current.length using Nat.strongRecOn generalizing s draws with
  | ind length ih =>
    subst hlength
    cases htop : s.heap.top.1 with
    | none =>
      refine ⟨1, none, .cons (inTryPick_of_top hpc) (self.feederStep_top_none _ hpc htop)
        (.zero ?_), ?_⟩
      · cases last <;> exact ⟨rfl, rfl⟩
      · intro p score hp
        cases (h.represented.top_none htop p).symm.trans hp.1
    | some p =>
      by_cases hused : (s.entry p).remaining = 0
      · -- `p` is no candidate, so the answer after it is popped is the answer before
        obtain ⟨t, hpc', hresults, hentry, hheap, hturn⟩ := self.turn_used hpc htop hused draws
        have hunscanned : ¬ s.HasUnscanned p := by
          rintro ⟨o, ho⟩
          rw [(h.counted p).remaining_eq_zero_iff.mp hused o] at ho
          cases ho
        obtain ⟨hpickable, hless⟩ := h.pop htop hentry hheap
        obtain ⟨n, result, hpicks, hresult⟩ :=
          ih _ hless hpickable hpc' (fun i => draws (i + 4)) rfl
        rw [hresults] at hpicks
        exact ⟨n + 4, result, hturn hpicks, hresult.of_pop hentry hunscanned htop hheap⟩
      · obtain ⟨o, hfetch⟩ := h.fetch hused (draws 1)
        obtain ⟨n, hpicks⟩ := self.turn_picks hpc htop hused draws hfetch
        exact ⟨n, some (joinAddr p o), hpicks, h.picks htop hfetch⟩

/-! ### The states of calls one after another -/

/-- A state of such a run in which `try_pick` is called. -/
theorem pickable_run (self : PmapIpAdapter scope) {acts : List IpAct}
    (halone : Run.Along self.step Alone .initial acts)
    (hthreads : ∀ t, (self.run acts).threads t = .idle)
    (hpc : (self.run acts).feeder = .idle ∨ ∃ last, (self.run acts).feeder = .tryPickTop last) :
    (self.run acts).Pickable where
  represented := by
    have hserial := (self.serial_run halone).feeder hthreads
    rcases hpc with hpc | ⟨last, hpc⟩
    · rw [hpc] at hserial
      exact hserial
    · rw [hpc] at hserial
      exact hserial
  keys := by
    refine (self.run_refines (P := IsPrefix) (fun p hp => hp) (fun addr _ => ?_) acts
      fun t addr _ => ?_).1.heap
    · exact isPrefix_prefixId addr
    · exact isPrefix_prefixId addr
  counted := self.counted_run acts

/-- **`try_pick` terminates and finds work.** In every run whose calls come one after another: each
prefix state has as many addresses left as its bitmap has clear bits. So there is one left whenever
one is marked, and `fetch_unscanned` finds it. And in a state between two calls, or in one in which
`next_address` is about to call `try_pick`, whatever the random generator returns, the call returns
after finitely many accesses. It returns an address if and only if a prefix that is bound in the
heap has a free one. The address was free, and no prefix that is bound with free addresses has a
greater score than the one it belongs to. -/
theorem tryPick_finds (self : PmapIpAdapter scope) (acts : List IpAct)
    (halone : Run.Along self.step Alone .initial acts) :
    (∀ p, ((self.run acts).entry p).remaining.toNat + ((self.run acts).entry p).setBits = 256 ∧
      (∀ o, ((self.run acts).entry p).isUnscanned o = true →
        ((self.run acts).entry p).remaining ≠ 0) ∧
      ∀ draw, ((self.run acts).entry p).remaining ≠ 0 →
        ((self.run acts).entry p).fetchUnscanned draw ≠ none) ∧
    ((∀ t, (self.run acts).threads t = .idle) →
      ∀ last, (self.run acts).feeder = .idle ∨ (self.run acts).feeder = .tryPickTop last →
      ∀ draws : ℕ → ℕ → BitVec 8,
        let s : IpState := { self.run acts with feeder := .tryPickTop last }
        ∃ n result, self.TryPicks last s.results draws s n result ∧
          (result.isSome ↔ ∃ p score, s.Candidate p score) ∧
          ∀ addr, result = some addr →
            (s.entry (prefixId addr)).isUnscanned (offset addr) = true ∧
              ∃ score, s.Candidate (prefixId addr) score ∧
                ∀ q score', s.Candidate q score' → score' ≤ score) := by
  have hcounted := self.counted_run acts
  refine ⟨fun p => ⟨(hcounted p).remaining_add_setBits, fun o ho hzero => ?_,
    fun draw hroom hnone => hroom ((hcounted p).remaining_eq_zero hnone)⟩, ?_⟩
  · rw [(hcounted p).remaining_eq_zero_iff.mp hzero o] at ho
    cases ho
  · intro hthreads last hpc draws s
    have hrun := self.pickable_run halone hthreads (hpc.imp_right fun hpc => ⟨last, hpc⟩)
    have hpickable : s.Pickable := ⟨hrun.represented, hrun.keys, hrun.counted⟩
    obtain ⟨n, result, hpicks, hresult⟩ := self.exists_tryPicks hpickable rfl draws
    refine ⟨n, result, hpicks, ?_, ?_⟩
    · cases result with
      | none =>
        refine iff_of_false Bool.false_ne_true ?_
        rintro ⟨p, score, hp⟩
        exact hresult p score hp
      | some addr =>
        obtain ⟨-, score, hcandidate, -⟩ := hresult
        exact iff_of_true rfl ⟨_, score, hcandidate⟩
    · rintro addr rfl
      exact hresult

/-- The feeder takes its steps while every responder thread is idle. -/
theorem idle_of_feeder (self : PmapIpAdapter scope) {act : IpAct}
    (hact : (∃ coin, act = .nextAddress coin) ∨ ∃ draw, act = .feeder draw) {s : IpState}
    (hs : ∀ t, s.threads t = .idle) : Alone s act ∧ ∀ t, (self.step s act).threads t = .idle := by
  rcases hact with ⟨coin, rfl⟩ | ⟨draw, rfl⟩
  · refine ⟨hs, fun t => ?_⟩
    rw [step]
    split
    · split <;> exact hs t
    · exact hs t
  · refine ⟨hs, fun t => ?_⟩
    rw [step, (self.feederStep_cases draw s).threads]
    exact hs t

/-- After the first turn of the sweep over a single host, `try_pick` finds an address. -/
theorem tryPick_finds_singleHost :
    ∃ n addr, singleHostAdapter.TryPicks false (singleHostAdapter.run sweepActs).results
      (fun _ _ => 0#8) { singleHostAdapter.run sweepActs with feeder := .tryPickTop false } n
      (some addr) := by
  have hindex : singleHost.ranges.index 0 = .ok 0x0A000000#32 := by
    rw [CompiledRanges.index_eq singleHost.compile_eq]
    rfl
  have horder : singleHostAdapter.order 0 = some 0x0A000000#32 :=
    singleHostAdapter.order_eq_some (by decide) hindex
  obtain ⟨hidle, -, -, hentry⟩ := singleHostAdapter.sweepActs_spec rfl horder
  have hrun := singleHostAdapter.sweepActs_run rfl (s := .initial) rfl horder
    (PrefixState.scanned_new _) (show PrefixState.new.remaining - 1 > 0 by decide) rfl
  have halone : Run.Along singleHostAdapter.step Alone .initial sweepActs := by
    refine Run.along_of_preserving (I := fun s => ∀ t, s.threads t = .idle) ?_ fun _ => rfl
    intro act hact s hs
    refine singleHostAdapter.idle_of_feeder ?_ hs
    simp only [sweepActs, List.mem_cons, List.mem_replicate] at hact
    exact hact.imp (fun h => ⟨_, h⟩) fun h => ⟨_, h.2⟩
  have hthreads (t : ℕ) : (singleHostAdapter.run sweepActs).threads t = .idle := by
    rw [run, hrun]
    rfl
  -- the sweep has bound the prefix of the host, and marked one of its addresses
  obtain ⟨score, hscore⟩ : ∃ score, (singleHostAdapter.run sweepActs).heap.values
      (prefixId 0x0A000000#32) = some score := by
    rw [run, hrun]
    simp only [IpState.finish, ConcurrentLazyHeap.withNew, Function.update_self, Option.some.injEq,
      exists_eq']
  have hfree : ((singleHostAdapter.run sweepActs).entry (prefixId 0x0A000000#32)).isUnscanned 1#8 =
      true := by
    rw [hentry]
    decide
  obtain ⟨n, result, hpicks, hsome, -⟩ :=
    (singleHostAdapter.tryPick_finds sweepActs halone).2 hthreads false (.inl hidle) fun _ _ => 0#8
  obtain ⟨addr, rfl⟩ := Option.isSome_iff_exists.mp (hsome.mpr ⟨_, score, hscore, 1#8, hfree⟩)
  exact ⟨n, addr, hpicks⟩

end PmapIpAdapter

end Farsight
