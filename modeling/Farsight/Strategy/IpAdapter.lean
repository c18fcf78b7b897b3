import Farsight.Net.RangeExact
import Farsight.Strategy.Heap
import Farsight.Strategy.Prefix
import Mathlib.Algebra.Order.Ring.Rat
import Mathlib.Logic.Equiv.Basic

/-!
# The target selection machine

`PmapIpAdapter` hands out the addresses of the scan scope. One thread, the feeder, calls
`next_address`; any number of responder threads call `on_result` when a host has answered. The two
sides share the heap of prefix scores and the bitmaps of the active prefixes.

The machine has one transition for each atomic access to shared data. `FeederPc` is where the feeder
stands inside `next_address`, with the local variables that are live there, `ReportPc` where a
responder thread stands inside `on_result`. A run is any sequence of actions (`IpAct`): calls, and
single accesses of either side in any order, with any random draws.

Locks of the source only remove interleavings: the guard of an `actives` entry is held while
`try_pick` pops the heap, and here other threads may run then. Scores are exact rationals, and
`results` records what `next_address` returned.
-/

namespace Farsight

open Machine

/-- A compiled scan scope, with the ranges it was compiled from. -/
structure Scope where
  source : Ipv4Ranges
  ranges : CompiledRanges
  compile_eq : source.compile = .ok ranges

/-- `addr` is one of the addresses the compiled scope enumerates. -/
def Scope.Enumerates (scope : Scope) (addr : Ipv4Addr) : Prop :=
  ∃ i, scope.ranges.index i = .ok addr

/-- The fields of the adapter that never change. `rng` is the permutation of the positions of the
scope that `PerfectRng::shuffle` computes. -/
structure PmapIpAdapter (scope : Scope) where
  rng : Equiv.Perm (Fin scope.ranges.count)
  graph : PrefixGraph
  epsilon : ℚ

/-- Where the feeder stands in `next_address`. The flag `last` of the `try_pick` points tells the
second call (after the sweep returned `None`) from the first. -/
inductive FeederPc where
  /-- Outside `next_address`. -/
  | idle
  /-- `try_pick`: about to read the top of the heap. -/
  | tryPickTop (last : Bool)
  /-- `try_pick`: about to enter the state of the top prefix. -/
  | tryPickEntry (last : Bool) (prefixId : BitVec 32)
  /-- `try_pick`: inside `heap.pop()`, then to return `result` or loop. -/
  | tryPickPop (last : Bool) (result : Option Ipv4Addr) (op : HeapOp (BitVec 32) ℚ)
  /-- `next`: at the head of the loop. -/
  | next
  /-- `next`: about to query the heap, then to return `addr`. -/
  | nextQuery (addr : Ipv4Addr)
  /-- `next`: inside `heap.update(..)`, then to return `addr`. -/
  | nextUpdate (addr : Ipv4Addr) (op : HeapOp (BitVec 32) ℚ)
  /-- `index` panicked. -/
  | panicked

/-- Where a responder thread stands in `on_result`. -/
inductive ReportPc where
  /-- Outside `on_result`. -/
  | idle
  /-- About to read whether the prefix has room. -/
  | room (prefixId : BitVec 32)
  /-- About to query the current score. -/
  | query (prefixId : BitVec 32)
  /-- Inside `heap.update(..)`. -/
  | update (op : HeapOp (BitVec 32) ℚ)

/-- The state of the adapter and of its callers. -/
structure IpState where
  heap : ConcurrentLazyHeap (BitVec 32) ℚ
  actives : BitVec 32 → Option PrefixState
  index : ℕ
  feeder : FeederPc
  threads : ℕ → ReportPc
  results : List (Option Ipv4Addr)

namespace IpState

/-- The state after `PmapIpAdapter::new`. -/
def initial : IpState where
  heap := .empty
  actives := fun _ => none
  index := 0
  feeder := .idle
  threads := fun _ => .idle
  results := []

/-- `next_address` returns. -/
def finish (s : IpState) (result : Option Ipv4Addr) : IpState :=
  { s with feeder := .idle, results := s.results ++ [result] }

/-- `actives.entry(prefix_id).or_insert_with(PrefixState::new)`. -/
def entry (s : IpState) (prefixId : BitVec 32) : PrefixState :=
  (s.actives prefixId).getD PrefixState.new

/-- Store the state of a prefix. -/
def setEntry (s : IpState) (prefixId : BitVec 32) (state : PrefixState) : IpState :=
  { s with actives := Function.update s.actives prefixId (some state) }

end IpState

namespace PmapIpAdapter

variable {scope : Scope}

/-- The next access of `next_address`; `draw` is what the random generator returns from here on. -/
def feederStep (self : PmapIpAdapter scope) (draw : ℕ → BitVec 8) (s : IpState) : IpState :=
  match s.feeder with
  | .idle => s
  | .tryPickTop last =>
    match s.heap.top with
    | (some prefixId, heap) => { s with heap := heap, feeder := .tryPickEntry last prefixId }
    | (none, heap) =>
      if last then { s with heap := heap }.finish none
      else { s with heap := heap, feeder := .next }
  | .tryPickEntry last prefixId =>
    let state := s.entry prefixId
    -- all scanned: pop the prefix and look at the next one
    if state.remaining = 0 then
      { s.setEntry prefixId state with feeder := .tryPickPop last none ConcurrentLazyHeap.pop }
    else
      match state.fetchUnscanned draw with
      | some offset =>
        let state := (state.markScanned offset).2
        let addr := joinAddr prefixId offset
        -- that was the last free address of the prefix
        if state.remaining = 0 then
          { s.setEntry prefixId state with
            feeder := .tryPickPop last (some addr) ConcurrentLazyHeap.pop }
        else
          (s.setEntry prefixId state).finish (some addr)
      | none =>
        { s.setEntry prefixId state with feeder := .tryPickPop last none ConcurrentLazyHeap.pop }
  | .tryPickPop last result op =>
    match op.exec s.heap with
    | (.done, heap) =>
      match result with
      | some addr => { s with heap := heap }.finish (some addr)
      | none => { s with heap := heap, feeder := .tryPickTop last }
    | (op, heap) => { s with heap := heap, feeder := .tryPickPop last result op }
  | .next =>
    if h : s.index < scope.ranges.count then
      let shuffled := self.rng ⟨s.index, h⟩
      match scope.ranges.index shuffled with
      | .error _ => { s with feeder := .panicked }
      | .ok addr =>
        let (before, state) := (s.entry (prefixId addr)).markScanned (offset addr)
        let s := { s.setEntry (prefixId addr) state with index := s.index + 1 }
        -- `continue`: `try_pick` has returned the address before
        if before then s
        else if state.remaining > 0 then { s with feeder := .nextQuery addr }
        else s.finish (some addr)
    else
      -- `.or_else(|| self.try_pick(rng))`
      { s with feeder := .tryPickTop true }
  | .nextQuery addr =>
    match s.heap.query (prefixId addr) with
    | some _ => s.finish (some addr)
    | none =>
      let score := (self.graph.historicalScore (prefixId addr)).toNat
      { s with feeder := .nextUpdate addr (ConcurrentLazyHeap.update (prefixId addr) (score : ℚ)) }
  | .nextUpdate addr op =>
    match op.exec s.heap with
    | (.done, heap) => { s with heap := heap }.finish (some addr)
    | (op, heap) => { s with heap := heap, feeder := .nextUpdate addr op }
  | .panicked => s

/-- What an access of the feeder can do, one case for each way through it. -/
inductive FeederStep (self : PmapIpAdapter scope) (draw : ℕ → BitVec 8) (s : IpState) :
    IpState → Prop
  /-- There is no access outside of `next_address`, nor after a panic. -/
  | stay (hpc : s.feeder = .idle ∨ s.feeder = .panicked) : FeederStep self draw s s
  /-- `heap.top()` returns a prefix. -/
  | top {last : Bool} {p : BitVec 32} (hpc : s.feeder = .tryPickTop last)
      (htop : s.heap.top.1 = some p) :
      FeederStep self draw s { s with heap := s.heap.cleaned, feeder := .tryPickEntry last p }
  /-- The heap is empty, after the sweep. -/
  | topEnd (hpc : s.feeder = .tryPickTop true) (htop : s.heap.top.1 = none) :
      FeederStep self draw s ({ s with heap := s.heap.cleaned }.finish none)
  /-- The heap is empty, before the sweep. -/
  | topEmpty (hpc : s.feeder = .tryPickTop false) (htop : s.heap.top.1 = none) :
      FeederStep self draw s { s with heap := s.heap.cleaned, feeder := .next }
  /-- No address of the prefix is left. -/
  | used {last : Bool} {p : BitVec 32} (hpc : s.feeder = .tryPickEntry last p)
      (hused : (s.entry p).remaining = 0 ∨ (s.entry p).fetchUnscanned draw = none) :
      FeederStep self draw s
        { s.setEntry p (s.entry p) with feeder := .tryPickPop last none ConcurrentLazyHeap.pop }
  /-- The last free address of the prefix is picked. -/
  | pickLast {last : Bool} {p : BitVec 32} {o : BitVec 8} (hpc : s.feeder = .tryPickEntry last p)
      (hfetch : (s.entry p).fetchUnscanned draw = some o)
      (hlast : ((s.entry p).markScanned o).2.remaining = 0) :
      FeederStep self draw s
        { s.setEntry p ((s.entry p).markScanned o).2 with
          feeder := .tryPickPop last (some (joinAddr p o)) ConcurrentLazyHeap.pop }
  /-- A free address of the prefix is picked, and others are left. -/
  | pick {last : Bool} {p : BitVec 32} {o : BitVec 8} (hpc : s.feeder = .tryPickEntry last p)
      (hfetch : (s.entry p).fetchUnscanned draw = some o)
      (hlast : ((s.entry p).markScanned o).2.remaining ≠ 0) :
      FeederStep self draw s
        ((s.setEntry p ((s.entry p).markScanned o).2).finish (some (joinAddr p o)))
  /-- An access inside `heap.pop()`, not the last. -/
  | pop {last : Bool} {result : Option Ipv4Addr} {op : HeapOp (BitVec 32) ℚ}
      (hpc : s.feeder = .tryPickPop last result op) (hexec : (op.exec s.heap).1 ≠ .done) :
      FeederStep self draw s
        { s with
          heap := (op.exec s.heap).2, feeder := .tryPickPop last result (op.exec s.heap).1 }
  /-- `heap.pop()` is done, and the picked address is returned. -/
  | popReturn {last : Bool} {addr : Ipv4Addr} {op : HeapOp (BitVec 32) ℚ}
      (hpc : s.feeder = .tryPickPop last (some addr) op) (hexec : (op.exec s.heap).1 = .done) :
      FeederStep self draw s ({ s with heap := (op.exec s.heap).2 }.finish (some addr))
  /-- `heap.pop()` is done, and the loop goes on. -/
  | popLoop {last : Bool} {op : HeapOp (BitVec 32) ℚ}
      (hpc : s.feeder = .tryPickPop last none op) (hexec : (op.exec s.heap).1 = .done) :
      FeederStep self draw s { s with heap := (op.exec s.heap).2, feeder := .tryPickTop last }
  /-- `index` panics. -/
  | indexPanic {e : Fault} (hpc : s.feeder = .next) (hlt : s.index < scope.ranges.count)
      (hindex : scope.ranges.index (self.rng ⟨s.index, hlt⟩) = .error e) :
      FeederStep self draw s { s with feeder := .panicked }
  /-- The sweep comes to an address that was picked before. -/
  | sweepSkip {addr : Ipv4Addr} (hpc : s.feeder = .next) (hlt : s.index < scope.ranges.count)
      (hindex : scope.ranges.index (self.rng ⟨s.index, hlt⟩) = .ok addr)
      (hbefore : ((s.entry (prefixId addr)).markScanned (offset addr)).1 = true) :
      FeederStep self draw s
        { s.setEntry (prefixId addr) ((s.entry (prefixId addr)).markScanned (offset addr)).2 with
          index := s.index + 1 }
  /-- The sweep takes an address, and others of its prefix are left. -/
  | sweepTake {addr : Ipv4Addr} (hpc : s.feeder = .next) (hlt : s.index < scope.ranges.count)
      (hindex : scope.ranges.index (self.rng ⟨s.index, hlt⟩) = .ok addr)
      (hbefore : ((s.entry (prefixId addr)).markScanned (offset addr)).1 = false)
      (hroom : ((s.entry (prefixId addr)).markScanned (offset addr)).2.remaining > 0) :
      FeederStep self draw s
        { s.setEntry (prefixId addr) ((s.entry (prefixId addr)).markScanned (offset addr)).2 with
          index := s.index + 1, feeder := .nextQuery addr }
  /-- The sweep takes the last address of a prefix. -/
  | sweepLast {addr : Ipv4Addr} (hpc : s.feeder = .next) (hlt : s.index < scope.ranges.count)
      (hindex : scope.ranges.index (self.rng ⟨s.index, hlt⟩) = .ok addr)
      (hbefore : ((s.entry (prefixId addr)).markScanned (offset addr)).1 = false)
      (hroom : ¬ ((s.entry (prefixId addr)).markScanned (offset addr)).2.remaining > 0) :
      FeederStep self draw s
        ({ s.setEntry (prefixId addr) ((s.entry (prefixId addr)).markScanned (offset addr)).2 with
          index := s.index + 1 }.finish (some addr))
  /-- The sweep is over. -/
  | sweepEnd (hpc : s.feeder = .next) (hend : ¬ s.index < scope.ranges.count) :
      FeederStep self draw s { s with feeder := .tryPickTop true }
  /-- The prefix is in the heap already. -/
  | queryKnown {addr : Ipv4Addr} (hpc : s.feeder = .nextQuery addr) :
      FeederStep self draw s (s.finish (some addr))
  /-- The prefix is not in the heap. -/
  | queryNew {addr : Ipv4Addr} (hpc : s.feeder = .nextQuery addr)
      (hnew : s.heap.query (prefixId addr) = none) :
      FeederStep self draw s
        { s with
          feeder := .nextUpdate addr (ConcurrentLazyHeap.update (prefixId addr)
            ((self.graph.historicalScore (prefixId addr)).toNat : ℚ)) }
  /-- An access inside `heap.update(..)`, not the last. -/
  | update {addr : Ipv4Addr} {op : HeapOp (BitVec 32) ℚ} (hpc : s.feeder = .nextUpdate addr op)
      (hexec : (op.exec s.heap).1 ≠ .done) :
      FeederStep self draw s
        { s with heap := (op.exec s.heap).2, feeder := .nextUpdate addr (op.exec s.heap).1 }
  /-- `heap.update(..)` is done, and the address is returned. -/
  | updateReturn {addr : Ipv4Addr} {op : HeapOp (BitVec 32) ℚ}
      (hpc : s.feeder = .nextUpdate addr op) (hexec : (op.exec s.heap).1 = .done) :
      FeederStep self draw s ({ s with heap := (op.exec s.heap).2 }.finish (some addr))

/-- The cases of the relation are all that a step of the feeder can do. The invariants split on
them, and not on the code again. -/
theorem feederStep_cases (self : PmapIpAdapter scope) (draw : ℕ → BitVec 8) (s : IpState) :
    self.FeederStep draw s (self.feederStep draw s) := by
  unfold feederStep
  split
  · next hpc => exact .stay (.inl hpc)
  · next last hpc =>
    -- the heap is cleaned by `top` whether or not it finds a prefix
    split
    · next p heap htop =>
      obtain rfl : s.heap.cleaned = heap := congrArg Prod.snd htop
      exact .top hpc (congrArg Prod.fst htop)
    · next heap htop =>
      obtain rfl : s.heap.cleaned = heap := congrArg Prod.snd htop
      split
      · next hlast =>
        subst hlast
        exact .topEnd hpc (congrArg Prod.fst htop)
      · next hlast =>
        rw [Bool.not_eq_true] at hlast
        subst hlast
        exact .topEmpty hpc (congrArg Prod.fst htop)
  · next last p hpc =>
    dsimp only
    split
    · next hzero => exact .used hpc (.inl hzero)
    · split
      · next o hfetch =>
        split
        · next hlast => exact .pickLast hpc hfetch hlast
        · next hlast => exact .pick hpc hfetch hlast
      · next hfetch => exact .used hpc (.inr hfetch)
  · next last result op hpc =>
    split
    · next heap hexec =>
      -- the last access of `pop`: the call returns if an address was taken, or the loop goes on
      obtain rfl : (op.exec s.heap).2 = heap := congrArg Prod.snd hexec
      have hdone : (op.exec s.heap).1 = .done := congrArg Prod.fst hexec
      split
      · exact .popReturn hpc hdone
      · exact .popLoop hpc hdone
    · next op' heap hnot hexec =>
      obtain rfl : (op.exec s.heap).2 = heap := congrArg Prod.snd hexec
      obtain rfl : (op.exec s.heap).1 = op' := congrArg Prod.fst hexec
      exact .pop hpc hnot
  · next hpc =>
    split
    · next hlt =>
      dsimp only
      split
      · next e hindex => exact .indexPanic hpc hlt hindex
      · next addr hindex =>
        split
        · next hbefore => exact .sweepSkip hpc hlt hindex hbefore
        · next hbefore =>
          rw [Bool.not_eq_true] at hbefore
          split
          · next hroom => exact .sweepTake hpc hlt hindex hbefore hroom
          · next hroom => exact .sweepLast hpc hlt hindex hbefore hroom
    · next hend => exact .sweepEnd hpc hend
  · next addr hpc =>
    split
    · exact .queryKnown hpc
    · next hnew => exact .queryNew hpc hnew
  · next addr op hpc =>
    split
    · next heap hexec =>
      obtain rfl : (op.exec s.heap).2 = heap := congrArg Prod.snd hexec
      exact .updateReturn hpc (congrArg Prod.fst hexec)
    · next op' heap hnot hexec =>
      obtain rfl : (op.exec s.heap).2 = heap := congrArg Prod.snd hexec
      obtain rfl : (op.exec s.heap).1 = op' := congrArg Prod.fst hexec
      exact .update hpc hnot
  · next hpc => exact .stay (.inr hpc)

/-- The feeder leaves the responder threads. -/
theorem FeederStep.threads {self : PmapIpAdapter scope} {draw : ℕ → BitVec 8} {s t : IpState}
    (h : self.FeederStep draw s t) : t.threads = s.threads := by
  cases h <;> rfl

/-- The next access of thread `t` in `on_result`. -/
def threadStep (self : PmapIpAdapter scope) (t : ℕ) (s : IpState) : IpState :=
  match s.threads t with
  | .idle => s
  | .room prefixId =>
    -- a prefix that is not active yet has room
    let hasRoom := ((s.actives prefixId).map fun state => decide (state.remaining > 0)).getD true
    { s with threads := Function.update s.threads t (if hasRoom then .query prefixId else .idle) }
  | .query prefixId =>
    let current : ℚ := (s.heap.query prefixId).getD (self.graph.historicalScore prefixId).toNat
    { s with
      threads := Function.update s.threads t
        (.update (ConcurrentLazyHeap.update prefixId (current + 1))) }
  | .update op =>
    match op.exec s.heap with
    | (.done, heap) => { s with heap := heap, threads := Function.update s.threads t .idle }
    | (op, heap) => { s with heap := heap, threads := Function.update s.threads t (.update op) }

end PmapIpAdapter

/-- One action of a run. -/
inductive IpAct where
  /-- The feeder calls `next_address`, and the generator draws `coin`. -/
  | nextAddress (coin : {r : ℚ // 0 ≤ r ∧ r ≤ 1})
  /-- The feeder makes its next access. -/
  | feeder (draw : ℕ → BitVec 8)
  /-- Thread `t` calls `on_result(addr)`. -/
  | onResult (t : ℕ) (addr : Ipv4Addr)
  /-- Thread `t` makes its next access. -/
  | thread (t : ℕ)

namespace PmapIpAdapter

variable {scope : Scope}

/-- One action. A call by a thread that is inside a call does nothing. -/
def step (self : PmapIpAdapter scope) (s : IpState) : IpAct → IpState
  | .nextAddress coin =>
    match s.feeder with
    | .idle =>
      -- exploit the heap, or explore by the sweep
      if coin.1 ≥ self.epsilon then { s with feeder := .tryPickTop false }
      else { s with feeder := .next }
    | _ => s
  | .feeder draw => self.feederStep draw s
  | .onResult t addr =>
    match s.threads t with
    | .idle => { s with threads := Function.update s.threads t (.room (prefixId addr)) }
    | _ => s
  | .thread t => self.threadStep t s

/-- A responder thread touches neither the entries nor the feeder. -/
theorem threadStep_frame (self : PmapIpAdapter scope) (t : ℕ) (s : IpState) :
    (self.threadStep t s).actives = s.actives ∧ (self.threadStep t s).feeder = s.feeder := by
  unfold threadStep
  split
  · exact ⟨rfl, rfl⟩
  · exact ⟨rfl, rfl⟩
  · exact ⟨rfl, rfl⟩
  · split <;> exact ⟨rfl, rfl⟩

/-- The state after a run from the fresh adapter. -/
def run (self : PmapIpAdapter scope) (acts : List IpAct) : IpState :=
  acts.foldl self.step .initial

theorem run_concat (self : PmapIpAdapter scope) (acts : List IpAct) (act : IpAct) :
    self.run (acts ++ [act]) = self.step (self.run acts) act :=
  List.foldl_concat self.step .initial act acts

end PmapIpAdapter

end Farsight
