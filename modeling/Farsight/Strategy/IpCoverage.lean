import Farsight.Lib.Sweep
import Farsight.Strategy.IpAdapter
import Mathlib.Tactic.NormNum

/-!
# Coverage of the scan scope

The adapter refines the enumerator of `Lib/Sweep.lean`: the marked addresses are the set bits of the
prefix bitmaps (`IpState.marked`), the sequence is the shuffled scope (`PmapIpAdapter.order`), and
picks out of turn are the addresses `try_pick` takes from the prefix on top of the heap. `on_result`
does not touch the bitmaps, so whatever the responder threads do in between is no step of the
enumerator at all.

* `PmapIpAdapter.run_refines` — every run is a run of the enumerator whose picks lie in prefixes
  that satisfy `P`, for any property `P` of prefixes that the scope and the reported addresses have;
* `PmapIpAdapter.exactly_once` — no address is returned twice, and when `next_address` returns
  `None` the whole scope has been returned.
-/

namespace Farsight

open Machine

/-! ### The scope and its shuffled order -/

namespace Scope

/-- Positions below `count` have an address. -/
theorem exists_index (scope : Scope) {i : ℕ} (hi : i < scope.ranges.count) :
    ∃ a, scope.ranges.index i = .ok a := by
  obtain ⟨-, -, hranges⟩ := Ipv4Ranges.compile_eq_ok scope.compile_eq
  have hlen : i < (addresses scope.source.inner).length := by
    rw [length_addresses]
    rwa [hranges] at hi
  exact ⟨_, by rw [CompiledRanges.index_eq scope.compile_eq, List.getElem?_eq_getElem hlen]⟩

/-- Only positions below `count` have an address. -/
theorem lt_count_of_index (scope : Scope) {i : ℕ} {a : Ipv4Addr}
    (h : scope.ranges.index i = .ok a) : i < scope.ranges.count := by
  obtain ⟨-, -, hranges⟩ := Ipv4Ranges.compile_eq_ok scope.compile_eq
  rw [CompiledRanges.index_eq scope.compile_eq] at h
  by_contra hge
  rw [List.getElem?_eq_none (by rw [length_addresses]; rw [hranges] at hge; simpa using hge)] at h
  cases h

end Scope

namespace PmapIpAdapter

variable {scope : Scope}

/-- The address at a position of the shuffled sweep. -/
def order (self : PmapIpAdapter scope) (i : ℕ) : Option Ipv4Addr :=
  if h : i < scope.ranges.count then (scope.ranges.index (self.rng ⟨i, h⟩)).toOption else none

theorem order_eq_some (self : PmapIpAdapter scope) {i : ℕ} (hi : i < scope.ranges.count)
    {a : Ipv4Addr} (ha : scope.ranges.index (self.rng ⟨i, hi⟩) = .ok a) :
    self.order i = some a := by
  rw [order, dif_pos hi, ha]
  rfl

theorem order_eq_none (self : PmapIpAdapter scope) {i : ℕ} (hi : scope.ranges.count ≤ i) :
    self.order i = none :=
  dif_neg (Nat.not_lt.mpr hi)

theorem index_of_order (self : PmapIpAdapter scope) {i : ℕ} {a : Ipv4Addr}
    (ha : self.order i = some a) :
    ∃ hi : i < scope.ranges.count, scope.ranges.index (self.rng ⟨i, hi⟩) = .ok a := by
  have hi : i < scope.ranges.count := by
    by_contra hge
    rw [self.order_eq_none (Nat.le_of_not_lt hge)] at ha
    contradiction
  obtain ⟨b, hb⟩ := scope.exists_index (self.rng ⟨i, hi⟩).isLt
  rw [self.order_eq_some hi hb] at ha
  exact ⟨hi, Option.some.inj ha ▸ hb⟩

/-- Once the sweep has ended, it has ended for good. -/
theorem ends_order (self : PmapIpAdapter scope) : Sweep.Ends self.order := by
  intro i j hij hi
  refine self.order_eq_none (Nat.le_trans ?_ hij)
  -- below `count` every position has an address
  by_contra hlt
  obtain ⟨a, ha⟩ := scope.exists_index (self.rng ⟨i, Nat.lt_of_not_le hlt⟩).isLt
  rw [self.order_eq_some (Nat.lt_of_not_le hlt) ha] at hi
  cases hi

/-- The sweep visits exactly the addresses of the scope. -/
theorem exists_order_iff (self : PmapIpAdapter scope) (a : Ipv4Addr) :
    (∃ i, self.order i = some a) ↔ scope.Enumerates a := by
  constructor
  · rintro ⟨i, hi⟩
    unfold order at hi
    split at hi
    · next h =>
      obtain ⟨b, hb⟩ := scope.exists_index (self.rng ⟨i, h⟩).isLt
      rw [hb] at hi
      obtain rfl := Option.some.inj hi
      exact ⟨_, hb⟩
    · cases hi
  · rintro ⟨i, hi⟩
    -- the permutation reaches position `i` of the scope from somewhere
    refine ⟨(self.rng.symm ⟨i, scope.lt_count_of_index hi⟩).val, ?_⟩
    refine self.order_eq_some (Fin.isLt _) ?_
    rw [Fin.eta, Equiv.apply_symm_apply]
    exact hi

end PmapIpAdapter

/-! ### The abstraction -/

/-- The address a call has marked and is about to return. -/
def FeederPc.pending : FeederPc → Option Ipv4Addr
  | .tryPickPop _ result _ => result
  | .nextQuery addr => some addr
  | .nextUpdate addr _ => some addr
  | _ => none

/-- The call has exhausted the sweep. -/
def FeederPc.last : FeederPc → Bool
  | .tryPickTop last => last
  | .tryPickEntry last _ => last
  | .tryPickPop last _ _ => last
  | _ => false

namespace IpState

/-- The addresses whose bit is set. -/
def marked (s : IpState) : Set Ipv4Addr :=
  {a | (s.entry (prefixId a)).scanned (offset a) = true}

/-- The enumerator's view of the adapter. -/
def abstract (s : IpState) : Sweep.State Ipv4Addr where
  marked := s.marked
  index := s.index
  pending := s.feeder.pending
  results := s.results

theorem entry_setEntry (s : IpState) (p q : BitVec 32) (state : PrefixState) :
    (s.setEntry p state).entry q = if q = p then state else s.entry q := by
  unfold entry setEntry
  by_cases hq : q = p
  · subst hq
    simp
  · simp [hq]

/-- Entering a prefix creates its state, but marks nothing. -/
theorem marked_setEntry_entry (s : IpState) (p : BitVec 32) :
    (s.setEntry p (s.entry p)).marked = s.marked := by
  ext a
  simp only [marked, Set.mem_ofPred_eq, entry_setEntry]
  split
  · next h => rw [h]
  · rfl

/-- Marking a free offset of a prefix adds the address at that offset. -/
theorem marked_setEntry_mark (s : IpState) {p : BitVec 32} (hp : IsPrefix p) {o : BitVec 8}
    (ho : (s.entry p).scanned o = false) :
    (s.setEntry p ((s.entry p).markScanned o).2).marked = insert (joinAddr p o) s.marked := by
  have hmark := (PrefixState.markScanned_of_unscanned ho).2
  ext a
  rw [Set.mem_insert_iff]
  simp only [marked, Set.mem_ofPred_eq, entry_setEntry]
  by_cases ha : prefixId a = p
  · rw [if_pos ha, hmark, ha]
    simp only [Bool.or_eq_true, decide_eq_true_eq]
    -- in prefix `p`, an address is its offset
    have hjoin : a = joinAddr p o ↔ offset a = o := by
      constructor
      · intro h
        rw [h, offset_joinAddr]
      · intro h
        rw [← ha, ← h, joinAddr_prefixId_offset]
    rw [hjoin]
  · -- other prefixes keep their entries
    rw [if_neg ha]
    have hne : a ≠ joinAddr p o := fun h => ha (by rw [h, prefixId_joinAddr hp])
    simp [hne]

theorem mem_marked_joinAddr (s : IpState) {p : BitVec 32} (hp : IsPrefix p) (o : BitVec 8) :
    joinAddr p o ∈ s.marked ↔ (s.entry p).scanned o = true := by
  rw [marked, Set.mem_ofPred_eq, prefixId_joinAddr hp, offset_joinAddr]

end IpState

/-! ### The refinement -/

section Refinement

variable {scope : Scope} {P : BitVec 32 → Prop}

/-- The prefixes the feeder has in hand satisfy `P`. -/
def FeederPc.Keys (P : BitVec 32 → Prop) : FeederPc → Prop
  | .tryPickEntry _ prefixId => P prefixId
  | .tryPickPop _ _ op => op.Pushes P
  | .nextQuery addr => P (prefixId addr)
  | .nextUpdate _ op => op.Pushes P
  | _ => True

/-- The prefix a responder thread has in hand satisfies `P`. -/
def ReportPc.Keys (P : BitVec 32 → Prop) : ReportPc → Prop
  | .idle => True
  | .room prefixId => P prefixId
  | .query prefixId => P prefixId
  | .update op => op.Pushes P

/-- What the refinement needs to know of a state: every prefix in the heap or on its way there
satisfies `P`, and the last `try_pick` of a call comes after the sweep. -/
structure IpInv (scope : Scope) (P : BitVec 32 → Prop) (s : IpState) : Prop where
  heap : s.heap.AllKeys P
  feeder : s.feeder.Keys P
  threads : ∀ t, (s.threads t).Keys P
  last : s.feeder.last = true → scope.ranges.count ≤ s.index

theorem IpInv.initial : IpInv scope P .initial where
  heap := ConcurrentLazyHeap.AllKeys.empty
  feeder := trivial
  threads := fun _ => trivial
  last := fun h => absurd h (by simp [IpState.initial, FeederPc.last])

section Transfer

variable {order : ℕ → Option Ipv4Addr} {allowed : Ipv4Addr → Prop} {s t : IpState}

/-- A step the enumerator does not see. -/
private theorem steps_stay (hactives : t.actives = s.actives) (hindex : t.index = s.index)
    (hpending : t.feeder.pending = s.feeder.pending) (hresults : t.results = s.results) :
    Sweep.Steps order allowed s.abstract t.abstract := by
  have heq : t.abstract = s.abstract := by
    unfold IpState.abstract IpState.marked IpState.entry
    rw [hactives, hindex, hpending, hresults]
  rw [heq]

/-- Returning the pending address hands it out. -/
private theorem step_deliver {a : Ipv4Addr} (hs : s.feeder.pending = some a)
    (hactives : t.actives = s.actives) (hindex : t.index = s.index)
    (hpending : t.feeder.pending = none) (hresults : t.results = s.results ++ [some a]) :
    Sweep.Step order allowed s.abstract t.abstract := by
  have heq : t.abstract
      = { s.abstract with pending := none, results := s.abstract.results ++ [some a] } := by
    unfold IpState.abstract IpState.marked IpState.entry
    rw [hactives, hindex, hpending, hresults]
  rw [heq]
  exact .deliver _ a hs

/-- Returning `None` reports the end. -/
private theorem step_exhaust (hs : s.feeder.pending = none) (hend : order s.index = none)
    (hactives : t.actives = s.actives) (hindex : t.index = s.index)
    (hpending : t.feeder.pending = none) (hresults : t.results = s.results ++ [none]) :
    Sweep.Step order allowed s.abstract t.abstract := by
  have heq : t.abstract = { s.abstract with results := s.abstract.results ++ [none] } := by
    unfold IpState.abstract IpState.marked IpState.entry
    rw [hactives, hindex, hpending, hresults, hs]
  rw [heq]
  exact .exhaust _ hs hend

end Transfer

/-- Entering a prefix without a free offset marks nothing. -/
private theorem steps_used {order : ℕ → Option Ipv4Addr} {allowed : Ipv4Addr → Prop} {s : IpState}
    {last : Bool} {p : BitVec 32} (hpc : s.feeder = .tryPickEntry last p) :
    Sweep.Steps order allowed s.abstract
      ({ s.setEntry p (s.entry p) with
        feeder := .tryPickPop last none ConcurrentLazyHeap.pop } : IpState).abstract := by
  have heq : ({ s.setEntry p (s.entry p) with
      feeder := .tryPickPop last none ConcurrentLazyHeap.pop } : IpState).abstract
        = s.abstract := by
    rw [IpState.abstract, IpState.abstract, hpc, ← s.marked_setEntry_entry p]
    rfl
  rw [heq]

/-- `try_pick` marks a free offset of the prefix that it has entered. -/
private theorem step_pick {order : ℕ → Option Ipv4Addr} (hP : ∀ p, P p → IsPrefix p)
    {draw : ℕ → BitVec 8} {s : IpState} (hI : IpInv scope P s) {last : Bool} {p : BitVec 32}
    (hpc : s.feeder = .tryPickEntry last p) {o : BitVec 8}
    (hfetch : (s.entry p).fetchUnscanned draw = some o) :
    Sweep.Step order (fun a => P (prefixId a)) s.abstract
      ⟨(s.setEntry p ((s.entry p).markScanned o).2).marked, s.index, some (joinAddr p o),
        s.results⟩ := by
  have hkey := hI.feeder
  rw [hpc] at hkey
  -- the address that is fetched was free
  have hfree := PrefixState.scanned_of_fetchUnscanned hfetch
  rw [s.marked_setEntry_mark (hP p hkey) hfree]
  refine .pick s.abstract (joinAddr p o) ?_ ?_ ?_
  · rw [IpState.abstract, hpc]
    rfl
  · rwa [prefixId_joinAddr (hP p hkey)]
  · change ¬ joinAddr p o ∈ s.marked
    rw [s.mem_marked_joinAddr (hP p hkey), hfree]
    exact Bool.false_ne_true

/-- The sweep skips an address that was marked. -/
private theorem step_skip (self : PmapIpAdapter scope) {allowed : Ipv4Addr → Prop} {s : IpState}
    (hlt : s.index < scope.ranges.count) {addr : Ipv4Addr}
    (hindex : scope.ranges.index (self.rng ⟨s.index, hlt⟩) = .ok addr)
    (hscanned : (s.entry (prefixId addr)).scanned (offset addr) = true) :
    Sweep.Step self.order allowed s.abstract
      ({ s.setEntry (prefixId addr) (s.entry (prefixId addr)) with
        index := s.index + 1 } : IpState).abstract := by
  have hskip : Sweep.Step self.order allowed s.abstract _ :=
    .skip s.abstract addr (self.order_eq_some hlt hindex) (show addr ∈ s.marked from hscanned)
  rw [show s.abstract.marked = s.marked from rfl, ← s.marked_setEntry_entry (prefixId addr)]
    at hskip
  exact hskip

/-- The sweep takes an address that is free. -/
private theorem step_take (self : PmapIpAdapter scope) {allowed : Ipv4Addr → Prop} {s : IpState}
    (hpc : s.feeder = .next) (hlt : s.index < scope.ranges.count) {addr : Ipv4Addr}
    (hindex : scope.ranges.index (self.rng ⟨s.index, hlt⟩) = .ok addr)
    (hbefore : ((s.entry (prefixId addr)).markScanned (offset addr)).1 = false) :
    Sweep.Step self.order allowed s.abstract
      ⟨(s.setEntry (prefixId addr)
        ((s.entry (prefixId addr)).markScanned (offset addr)).2).marked, s.index + 1, some addr,
        s.results⟩ := by
  have hscanned : (s.entry (prefixId addr)).scanned (offset addr) = false := by
    rw [← hbefore, PrefixState.fst_markScanned]
  rw [s.marked_setEntry_mark (isPrefix_prefixId addr) hscanned, joinAddr_prefixId_offset]
  refine .take s.abstract addr ?_ (self.order_eq_some hlt hindex) ?_
  · rw [IpState.abstract, hpc]
    rfl
  · change ¬ (s.entry (prefixId addr)).scanned (offset addr) = true
    rw [hscanned]
    exact Bool.false_ne_true

/-- A step of the feeder is at most two steps of the enumerator. -/
theorem PmapIpAdapter.feederStep_refines {self : PmapIpAdapter scope}
    (hP : ∀ p, P p → IsPrefix p) (hscope : ∀ a, scope.Enumerates a → P (prefixId a))
    {draw : ℕ → BitVec 8} {s t : IpState} (hI : IpInv scope P s)
    (hstep : self.FeederStep draw s t) :
    IpInv scope P t ∧
      Sweep.Steps self.order (fun a => P (prefixId a)) s.abstract t.abstract := by
  have hkey := hI.feeder
  have hlast := hI.last
  cases hstep with
  | stay hpc => exact ⟨hI, .refl⟩
  | top hpc htop =>
    rw [hpc] at hlast
    exact ⟨⟨hI.heap.cleaned, hI.heap.top htop, hI.threads, hlast⟩,
      steps_stay rfl rfl (by rw [hpc]; rfl) rfl⟩
  | topEnd hpc htop =>
    -- the sweep is over and the heap is empty: the call returns `None`
    rw [hpc] at hlast
    refine ⟨⟨hI.heap.cleaned, trivial, hI.threads, fun h => by cases h⟩, .single ?_⟩
    exact step_exhaust (by rw [hpc]; rfl) (self.order_eq_none (hlast rfl)) rfl rfl rfl rfl
  | topEmpty hpc htop =>
    exact ⟨⟨hI.heap.cleaned, trivial, hI.threads, fun h => by cases h⟩,
      steps_stay rfl rfl (by rw [hpc]; rfl) rfl⟩
  | used hpc hused =>
    rw [hpc] at hlast
    exact ⟨⟨hI.heap, trivial, hI.threads, hlast⟩, steps_used hpc⟩
  | pickLast hpc hfetch =>
    -- the address is pending while the prefix is popped
    rw [hpc] at hlast
    exact ⟨⟨hI.heap, trivial, hI.threads, hlast⟩, .single (step_pick hP hI hpc hfetch)⟩
  -- marked and returned in one step, as the prefix has more to give
  | @pick last p o hpc hfetch =>
    refine ⟨⟨hI.heap, trivial, hI.threads, fun h => by cases h⟩, ?_⟩
    exact .tail (.single (step_pick hP hI hpc hfetch)) (.deliver _ (joinAddr p o) rfl)
  -- the accesses of `pop` and `update` are not seen by the sweep. What they keep is that all keys
  -- are prefixes
  | pop hpc hexec =>
    rw [hpc] at hkey hlast
    obtain ⟨hheap, hpush⟩ := HeapOp.exec_allKeys hI.heap hkey
    exact ⟨⟨hheap, hpush, hI.threads, hlast⟩, steps_stay rfl rfl (by rw [hpc]; rfl) rfl⟩
  | popReturn hpc hexec =>
    rw [hpc] at hkey
    refine ⟨⟨(HeapOp.exec_allKeys hI.heap hkey).1, trivial, hI.threads, fun h => by cases h⟩,
      .single ?_⟩
    exact step_deliver (by rw [hpc]; rfl) rfl rfl rfl rfl
  | popLoop hpc hexec =>
    rw [hpc] at hkey hlast
    exact ⟨⟨(HeapOp.exec_allKeys hI.heap hkey).1, trivial, hI.threads, hlast⟩,
      steps_stay rfl rfl (by rw [hpc]; rfl) rfl⟩
  | indexPanic hpc hlt hindex =>
    exact ⟨⟨hI.heap, trivial, hI.threads, fun h => by cases h⟩,
      steps_stay rfl rfl (by rw [hpc]; rfl) rfl⟩
  | @sweepSkip addr hpc hlt hindex hbefore =>
    -- the mark was there, so marking once more changes nothing
    have hscanned : (s.entry (prefixId addr)).scanned (offset addr) = true := by
      rw [← hbefore, PrefixState.fst_markScanned]
    rw [PrefixState.markScanned_of_scanned hscanned]
    refine ⟨⟨hI.heap, hkey, hI.threads, fun h => ?_⟩, .single ?_⟩
    · change s.feeder.last = true at h
      rw [hpc] at h
      cases h
    · exact step_skip self hlt hindex hscanned
  | sweepTake hpc hlt hindex hbefore hroom =>
    exact ⟨⟨hI.heap, hscope _ ⟨_, hindex⟩, hI.threads, fun h => by cases h⟩,
      .single (step_take self hpc hlt hindex hbefore)⟩
  | @sweepLast addr hpc hlt hindex hbefore hroom =>
    refine ⟨⟨hI.heap, trivial, hI.threads, fun h => by cases h⟩, ?_⟩
    exact .tail (.single (step_take self hpc hlt hindex hbefore)) (.deliver _ addr rfl)
  -- the sweep is through: from here on, an empty heap ends the call
  | sweepEnd hpc hend =>
    exact ⟨⟨hI.heap, trivial, hI.threads, fun _ => Nat.le_of_not_lt hend⟩,
      steps_stay rfl rfl (by rw [hpc]; rfl) rfl⟩
  | queryKnown hpc =>
    exact ⟨⟨hI.heap, trivial, hI.threads, fun h => by cases h⟩,
      .single (step_deliver (by rw [hpc]; rfl) rfl rfl rfl rfl)⟩
  | queryNew hpc hnew =>
    rw [hpc] at hkey
    exact ⟨⟨hI.heap, hkey, hI.threads, fun h => by cases h⟩,
      steps_stay rfl rfl (by rw [hpc]; rfl) rfl⟩
  | update hpc hexec =>
    rw [hpc] at hkey
    obtain ⟨hheap, hpush⟩ := HeapOp.exec_allKeys hI.heap hkey
    exact ⟨⟨hheap, hpush, hI.threads, fun h => by cases h⟩,
      steps_stay rfl rfl (by rw [hpc]; rfl) rfl⟩
  | updateReturn hpc hexec =>
    rw [hpc] at hkey
    refine ⟨⟨(HeapOp.exec_allKeys hI.heap hkey).1, trivial, hI.threads, fun h => by cases h⟩,
      .single ?_⟩
    exact step_deliver (by rw [hpc]; rfl) rfl rfl rfl rfl

/-- Updating one responder thread keeps the property of all threads. -/
private theorem threads_update {threads : ℕ → ReportPc} (h : ∀ t, (threads t).Keys P) {t : ℕ}
    {pc : ReportPc} (hpc : pc.Keys P) : ∀ t', (Function.update threads t pc t').Keys P :=
  (Function.forall_update_iff threads fun _ pc => pc.Keys P).mpr ⟨hpc, fun t' _ => h t'⟩

/-- A step of a responder thread is no step of the enumerator. -/
theorem PmapIpAdapter.threadStep_refines (self : PmapIpAdapter scope) (t : ℕ) {s : IpState}
    (hI : IpInv scope P s) :
    IpInv scope P (self.threadStep t s) ∧
      Sweep.Steps self.order (fun a => P (prefixId a)) s.abstract
        (self.threadStep t s).abstract := by
  -- `on_result` marks no address and returns none: the sweep stays, and only the heap changes
  have hkey := hI.threads t
  cases ht : s.threads t with
  | idle =>
    simp only [threadStep, ht]
    exact ⟨hI, .refl⟩
  | room p =>
    rw [ht] at hkey
    simp only [threadStep, ht]
    refine ⟨⟨hI.heap, hI.feeder, threads_update hI.threads ?_, hI.last⟩,
      steps_stay rfl rfl rfl rfl⟩
    split
    · exact hkey
    · trivial
  | query p =>
    rw [ht] at hkey
    simp only [threadStep, ht]
    exact ⟨⟨hI.heap, hI.feeder, threads_update hI.threads hkey, hI.last⟩,
      steps_stay rfl rfl rfl rfl⟩
  | update op =>
    rw [ht] at hkey
    obtain ⟨hheap, hpush⟩ := HeapOp.exec_allKeys hI.heap hkey
    simp only [threadStep, ht]
    rcases hexec : op.exec s.heap with ⟨op', heap⟩
    rw [hexec] at hheap hpush
    cases op' with
    | done =>
      exact ⟨⟨hheap, hI.feeder, threads_update hI.threads trivial, hI.last⟩,
        steps_stay rfl rfl rfl rfl⟩
    | _ =>
      exact ⟨⟨hheap, hI.feeder, threads_update hI.threads hpush, hI.last⟩,
        steps_stay rfl rfl rfl rfl⟩

/-- **One action refines the enumerator.** -/
theorem PmapIpAdapter.step_refines (self : PmapIpAdapter scope)
    (hP : ∀ p, P p → IsPrefix p) (hscope : ∀ a, scope.Enumerates a → P (prefixId a))
    (act : IpAct) (hact : ∀ t a, act = .onResult t a → P (prefixId a)) {s : IpState}
    (hI : IpInv scope P s) :
    IpInv scope P (self.step s act) ∧
      Sweep.Steps self.order (fun a => P (prefixId a)) s.abstract (self.step s act).abstract := by
  cases act with
  | nextAddress coin =>
    simp only [step]
    -- a call begins where the last has ended, with a coin for its first phase
    cases hf : s.feeder with
    | idle =>
      simp only
      split
      · exact ⟨⟨hI.heap, trivial, hI.threads, fun h => by cases h⟩,
          steps_stay rfl rfl (by rw [hf]; rfl) rfl⟩
      · exact ⟨⟨hI.heap, trivial, hI.threads, fun h => by cases h⟩,
          steps_stay rfl rfl (by rw [hf]; rfl) rfl⟩
    | _ => exact ⟨hI, .refl⟩
  | feeder draw => exact feederStep_refines hP hscope hI (self.feederStep_cases draw s)
  | onResult t a =>
    simp only [step]
    cases ht : s.threads t with
    | idle =>
      exact ⟨⟨hI.heap, hI.feeder, threads_update hI.threads (hact t a rfl), hI.last⟩,
        steps_stay rfl rfl rfl rfl⟩
    | _ => exact ⟨hI, .refl⟩
  | thread t => exact self.threadStep_refines t hI

/-- **Every run refines the enumerator**, with picks only in prefixes that satisfy `P`, where `P`
holds of the prefix of every address that is in scope or reported. -/
theorem PmapIpAdapter.run_refines (self : PmapIpAdapter scope)
    (hP : ∀ p, P p → IsPrefix p) (hscope : ∀ a, scope.Enumerates a → P (prefixId a))
    (acts : List IpAct) (hacts : ∀ t a, IpAct.onResult t a ∈ acts → P (prefixId a)) :
    IpInv scope P (self.run acts) ∧
      Sweep.Steps self.order (fun a => P (prefixId a)) .initial (self.run acts).abstract := by
  -- the state after a run is one step after a shorter run
  induction acts using List.reverseRecOn with
  | nil =>
    -- no bitmap exists yet, so nothing is marked
    have habs : IpState.initial.abstract = .initial := by
      unfold IpState.abstract Sweep.State.initial
      congr
      ext a
      simp [IpState.marked, IpState.entry, IpState.initial]
    refine ⟨IpInv.initial, ?_⟩
    rw [run, List.foldl_nil, habs]
  | append_singleton acts act ih =>
    obtain ⟨hI, hsteps⟩ := ih fun t a h => hacts t a (List.mem_append_left _ h)
    rw [run_concat]
    obtain ⟨hI', hstep⟩ := self.step_refines hP hscope act
      (fun t a h => hacts t a (by simp [h])) hI
    exact ⟨hI', hsteps.trans hstep⟩

/-- The enumerator's invariant, read on the adapter. -/
theorem PmapIpAdapter.run_inv (self : PmapIpAdapter scope)
    (hP : ∀ p, P p → IsPrefix p) (hscope : ∀ a, scope.Enumerates a → P (prefixId a))
    (acts : List IpAct) (hacts : ∀ t a, IpAct.onResult t a ∈ acts → P (prefixId a)) :
    Sweep.Inv self.order (fun a => P (prefixId a)) (self.run acts).abstract :=
  Sweep.Inv.initial.steps self.ends_order (self.run_refines hP hscope acts hacts).2

end Refinement

/-! ### Exactly-once coverage -/

/-- **Exactly-once coverage.** In every run no address is returned twice, and whenever
`next_address` returns `None`, every address of the scope has been returned exactly once before. -/
theorem PmapIpAdapter.exactly_once {scope : Scope} (self : PmapIpAdapter scope)
    (acts : List IpAct) :
    (∀ a, (self.run acts).results.count (some a) ≤ 1) ∧
      ∀ before after, (self.run acts).results = before ++ none :: after →
        ∀ a, scope.Enumerates a → before.count (some a) = 1 := by
  have hI := self.run_inv (P := IsPrefix) (fun _ h => h) (fun a _ => isPrefix_prefixId a)
    acts (fun _ a _ => isPrefix_prefixId a)
  have honce : ∀ a, (self.run acts).results.count (some a) ≤ 1 := by
    intro a
    -- the count of an answer is that of its address among the addresses returned
    have hcount : (self.run acts).results.count (some a)
        = ((self.run acts).results.filterMap id).count a := by
      rw [List.count_filterMap, List.count_eq_countP]
      rfl
    rw [hcount]
    exact List.nodup_iff_count_le_one.mp hI.nodup a
  -- returned before the `None` at least once, and in the whole run at most once
  refine ⟨honce, fun before after hsplit a ha => ?_⟩
  obtain ⟨i, hi⟩ := (self.exists_order_iff a).mpr ha
  have hmem := hI.complete before after hsplit i a hi
  have hle := honce a
  rw [hsplit, List.count_append] at hle
  have hpos := List.count_pos_iff.mpr hmem
  omega

end Farsight
