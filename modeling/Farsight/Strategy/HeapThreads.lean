import Farsight.Lib.Custody
import Farsight.Lib.Run
import Farsight.Strategy.Heap
import Mathlib.Data.Multiset.UnionInter

/-!
# The heap of many threads

Any number of threads use a `ConcurrentLazyHeap` at the same time, each one access after the other.
An `update` reads the old value, pushes it on `stale`, stores the new value and pushes it on
`current`; a `pop` takes a pair from `current` and then removes a value. In between others may do
the same with the same key.

* `HeapThread` — an operation in progress, with the value that it has found;
* `HeapThreads.step`, `HeapThreads.run` — the machine;
* `HeapThreads.Balanced` — what is in `current` and what the operations in progress still owe to it,
  against what is in `stale` and in the map, up to a `missing` and an `extra` part;
* `HeapThreads.Undisturbed` — a step that overwrites or removes a value finds in the map the one
  that its operation has found;
* `HeapThreads.represented_of_undisturbed` — then the heap is what it should be whenever nobody is
  in between, and a single disturbed step is enough to break it for good.
-/

namespace Farsight

open MaxHeap

variable {K V : Type} [LinearOrder K] [LinearOrder V]

/-! ### What the heap should be -/

/-- Two values of a key that differ have different pairs. -/
theorem onePair_injective {value value' : Option V} {key : K}
    (h : ∀ x, onePair value key x = onePair value' key x) : value = value' := by
  have hself (v : V) : onePair (some v) key (toLex (v, key)) = 1 := if_pos ⟨rfl, rfl⟩
  -- the pair of a value tells the value
  have hmem {value : Option V} {v : V} (hone : onePair value key (toLex (v, key)) = 1) :
      value = some v := by
    by_contra hne
    have hzero : onePair value key (toLex (v, key)) = 0 := if_neg fun hv => hne hv.1
    rw [hzero] at hone
    cases hone
  cases value with
  | some v => exact (hmem ((h (toLex (v, key))).symm.trans (hself v))).symm
  | none =>
    cases value' with
    | none => rfl
    | some v => exact hmem ((h (toLex (v, key))).trans (hself v))

namespace ConcurrentLazyHeap

/-- `stale` is contained in `current`, and the rest of `current` is exactly the pairs of the map. -/
structure Represented (heap : ConcurrentLazyHeap K V) : Prop where
  stale_le : (heap.stale : Multiset (V ×ₗ K)) ≤ heap.current
  pairs : ∀ value key,
    ((heap.current : Multiset (V ×ₗ K)) - heap.stale).count (toLex (value, key)) =
      if heap.values key = some value then 1 else 0

/-- `top` returns the key of the greatest pair of the map, and nothing only if the map is empty. -/
structure TopGreatest (heap : ConcurrentLazyHeap K V) : Prop where
  some : ∀ key, heap.top.1 = some key → ∃ value, heap.values key = some value ∧
    ∀ key' value', heap.values key' = .some value' → toLex (value', key') ≤ toLex (value, key)
  none : heap.top.1 = .none ↔ ∀ key, heap.values key = .none

/-- The two ways to say that the heap stores the map: by the multiset difference of `current` and
`stale`, and by counting the copies of each pair, which is what the balance below speaks about. -/
theorem represented_iff {heap : ConcurrentLazyHeap K V} :
    heap.Represented ↔ Represents (livePairs heap.values) heap.current heap.stale := by
  have hlive (value : V) (key : K) : livePairs heap.values (toLex (value, key)) =
      if heap.values key = some value then 1 else 0 := by
    simp [livePairs, onePair]
  have hcopies (h : List (V ×ₗ K)) (x : V ×ₗ K) :
      Multiset.count x (h : Multiset (V ×ₗ K)) = copies h x := Multiset.coe_count x h
  constructor
  · intro h x
    -- the difference is truncated, so the count needs that `stale` is contained in `current`
    have hle := Multiset.le_iff_count.mp h.stale_le x
    have hpairs := h.pairs (ofLex x).1 (ofLex x).2
    rw [← hlive, Multiset.count_sub] at hpairs
    change Multiset.count x heap.current - Multiset.count x heap.stale = livePairs heap.values x
      at hpairs
    rw [hcopies, hcopies] at hpairs hle
    omega
  · intro h
    refine ⟨Multiset.le_iff_count.mpr fun x => ?_, fun value key => ?_⟩
    · have hx := h x
      rw [hcopies, hcopies]
      omega
    · have hx := h (toLex (value, key))
      rw [← hlive, Multiset.count_sub, hcopies, hcopies]
      omega

/-- In a heap that stores its map, `top` answers with the key of the greatest pair, and with nothing
just when the map is empty. -/
theorem Represented.topGreatest {heap : ConcurrentLazyHeap K V} (h : heap.Represented) :
    heap.TopGreatest := by
  have hrepr := represented_iff.mp h
  constructor
  · intro key hkey
    obtain ⟨x, hx, rfl⟩ := Option.map_eq_some_iff.mp hkey
    obtain ⟨hpos, hgreatest⟩ := hrepr.peek_clean hx
    refine ⟨(ofLex x).1, livePairs_pos.mp hpos, fun key' value' hvalue' => ?_⟩
    exact hgreatest (toLex (value', key')) (livePairs_pos.mpr hvalue')
  · constructor
    · intro hnone key
      exact eq_none_of_peek_clean hrepr (Option.map_eq_none_iff.mp hnone) key
    · intro hempty
      cases hpeek : peek (clean heap.current heap.stale).1 with
      | none => exact Option.map_eq_none_iff.mpr hpeek
      | some x =>
        -- the top of a cleaned heap is live, so the map is not empty
        have hvalue := livePairs_pos.mp (hrepr.peek_clean hpeek).1
        rw [hempty] at hvalue
        cases hvalue

end ConcurrentLazyHeap

/-! ### The machine -/

/-- A thread with its operation. -/
structure HeapThread (K V : Type) where
  op : HeapOp K V
  /-- The old value that the `update` has found, or the one that the `pop` has popped. -/
  found : Option V

/-- The operations, as they are called. -/
inductive HeapCall (K V : Type) where
  | update (key : K) (value : V)
  | pop
  | top
  | query (key : K)

/-- The heap and its threads. -/
structure HeapThreads (K V : Type) (n : ℕ) where
  heap : ConcurrentLazyHeap K V
  threads : Fin n → HeapThread K V

/-- One step of a run. -/
inductive HeapAct (K V : Type) (n : ℕ) where
  /-- Thread `i` calls an operation. -/
  | call (i : Fin n) (call : HeapCall K V)
  /-- The next access of thread `i`. -/
  | access (i : Fin n)

/-- The next access of a thread. -/
def HeapThread.exec (t : HeapThread K V) (heap : ConcurrentLazyHeap K V) :
    HeapThread K V × ConcurrentLazyHeap K V :=
  let found :=
    match t.op with
    | .updateGet key _ => heap.values key
    | .popTake => (peek heap.cleaned.current).map fun x => (ofLex x).1
    | _ => t.found
  (⟨(t.op.exec heap).1, found⟩, (t.op.exec heap).2)

/-- If the next access stores or removes the value of a key, the map has the value that the
operation has found. -/
def HeapThread.Undisturbed (t : HeapThread K V) (heap : ConcurrentLazyHeap K V) : Prop :=
  match t.op with
  | .updateInsert key _ => heap.values key = t.found
  | .popRemove key => heap.values key = t.found
  | _ => True

namespace HeapThreads

variable {n : ℕ}

/-- An empty heap that nobody uses. -/
def initial : HeapThreads K V n where
  heap := .empty
  threads := fun _ => ⟨.done, none⟩

/-- A call. `top` and `query` are one access each. A thread that is inside a call does nothing. -/
def callStep (s : HeapThreads K V n) (i : Fin n) (call : HeapCall K V) : HeapThreads K V n :=
  match (s.threads i).op with
  | .done =>
    match call with
    | .update key value =>
      { s with threads := Function.update s.threads i ⟨ConcurrentLazyHeap.update key value, none⟩ }
    | .pop => { s with threads := Function.update s.threads i ⟨ConcurrentLazyHeap.pop, none⟩ }
    | .top => { s with heap := s.heap.top.2 }
    | .query _ => s
  | _ => s

def step (s : HeapThreads K V n) : HeapAct K V n → HeapThreads K V n
  | .call i call => s.callStep i call
  | .access i =>
    let (t, heap) := (s.threads i).exec s.heap
    ⟨heap, Function.update s.threads i t⟩

/-- The state after a run. -/
def run (acts : List (HeapAct K V n)) : HeapThreads K V n :=
  acts.foldl step initial

/-- No operation is in progress. -/
def Quiescent (s : HeapThreads K V n) : Prop :=
  ∀ i, (s.threads i).op = .done

/-- Whoever stores or removes the value of a key finds in the map what it has found before. -/
def Undisturbed (s : HeapThreads K V n) : HeapAct K V n → Prop
  | .call _ _ => True
  | .access i => (s.threads i).Undisturbed s.heap

end HeapThreads

/-! ### The balance -/

/-- What an operation in progress owes to `current`: a pair that is in `stale` or in the map but not
in `current`. -/
def HeapThread.owed (x : V ×ₗ K) (t : HeapThread K V) : ℕ :=
  match t.op with
  | .updateInsert key _ => onePair t.found key x
  | .updatePush key value => onePair (some value) key x
  | .popRemove key => onePair t.found key x
  | _ => 0

/-- The pair that the next access takes out of the map, by what the operation has found. -/
def HeapThread.expected (x : V ×ₗ K) (t : HeapThread K V) : ℕ :=
  match t.op with
  | .updateInsert key _ => onePair t.found key x
  | .popRemove key => onePair t.found key x
  | _ => 0

/-- The pair that it takes out of the map. -/
def HeapThread.taken (heap : ConcurrentLazyHeap K V) (x : V ×ₗ K) (t : HeapThread K V) : ℕ :=
  match t.op with
  | .updateInsert key _ => onePair (heap.values key) key x
  | .popRemove key => onePair (heap.values key) key x
  | _ => 0

/-- Undisturbed is a statement about pairs: what the access takes out of the map is what the
operation has accounted for. -/
theorem HeapThread.undisturbed_iff {t : HeapThread K V} {heap : ConcurrentLazyHeap K V} :
    t.Undisturbed heap ↔ ∀ x, t.expected x = t.taken heap x := by
  have hpair (key : K) : heap.values key = t.found ↔
      ∀ x, onePair t.found key x = onePair (heap.values key) key x := by
    constructor
    · intro hfound x
      rw [hfound]
    · intro h
      exact (onePair_injective h).symm
  unfold HeapThread.Undisturbed HeapThread.expected HeapThread.taken
  cases t.op with
  | updateInsert key value => exact hpair key
  | popRemove key => exact hpair key
  | _ => exact iff_of_true trivial fun _ => rfl

/-- The thread knows the value that it is about to push on `stale`. -/
def HeapThread.Knows (t : HeapThread K V) : Prop :=
  ∀ key value old, t.op = .updateStale key value old → t.found = some old

section Accesses

variable {heap : ConcurrentLazyHeap K V} {key : K} {found : Option V}

theorem HeapThread.exec_updateGet_none (value : V) (h : heap.values key = none) :
    HeapThread.exec ⟨.updateGet key value, found⟩ heap =
      (⟨.updateInsert key value, none⟩, heap) := by
  simp only [HeapThread.exec, HeapOp.exec, h]

theorem HeapThread.exec_updateGet_some (value : V) {old : V} (h : heap.values key = some old) :
    HeapThread.exec ⟨.updateGet key value, found⟩ heap =
      (⟨.updateStale key value old, some old⟩, heap) := by
  simp only [HeapThread.exec, HeapOp.exec, h]

theorem HeapThread.exec_popTake_none (h : peek heap.cleaned.current = none) :
    HeapThread.exec ⟨.popTake, found⟩ heap = (⟨.done, none⟩, heap.cleaned) := by
  simp only [HeapThread.exec, HeapOp.exec, h, Option.map_none]

theorem HeapThread.exec_popTake_some {x : V ×ₗ K} (h : peek heap.cleaned.current = some x) :
    HeapThread.exec ⟨.popTake, found⟩ heap = (⟨.popRemove (ofLex x).2, some (ofLex x).1⟩,
      { heap.cleaned with current := MaxHeap.pop heap.cleaned.current }) := by
  simp only [HeapThread.exec, HeapOp.exec, h, Option.map_some]

end Accesses

/-- After each access: the value that goes to `stale` next is the one that was read just now. -/
theorem HeapThread.knows_exec (t : HeapThread K V) (heap : ConcurrentLazyHeap K V) :
    (t.exec heap).1.Knows := by
  intro key value old hop
  obtain ⟨op, found⟩ := t
  cases op with
  | updateGet key' value' =>
    -- the only access that leads there
    cases hvalue : heap.values key' with
    | none =>
      rw [HeapThread.exec_updateGet_none value' hvalue] at hop
      cases hop
    | some old' =>
      rw [HeapThread.exec_updateGet_some value' hvalue] at hop ⊢
      cases hop
      rfl
  | popTake =>
    cases hpeek : peek heap.cleaned.current with
    | none =>
      rw [HeapThread.exec_popTake_none hpeek] at hop
      cases hop
    | some x =>
      rw [HeapThread.exec_popTake_some hpeek] at hop
      cases hop
  | _ => cases hop

/-- What an access changes in the heaps and in the map is what its operation owes less or more than
before, but for the difference between the pair that it expects in the map and the one that it takes
out. -/
theorem HeapThread.balance_exec {t : HeapThread K V} (hknows : t.Knows)
    (heap : ConcurrentLazyHeap K V) (x : V ×ₗ K) :
    copies (t.exec heap).2.current x + (t.exec heap).1.owed x + t.expected x +
        (copies heap.stale x + livePairs heap.values x) =
      copies (t.exec heap).2.stale x + livePairs (t.exec heap).2.values x + t.taken heap x +
        (copies heap.current x + t.owed x) := by
  obtain ⟨op, found⟩ := t
  have hclean := copies_clean heap.current heap.stale x
  cases op with
  | updateGet key value =>
    -- the access only reads: nothing changes but what the operation knows
    cases hvalue : heap.values key with
    | none =>
      rw [HeapThread.exec_updateGet_none value hvalue]
      change copies heap.current x + onePair none key x + 0 + _ = _
      rw [onePair_none]
      exact Nat.add_comm _ _
    | some old =>
      rw [HeapThread.exec_updateGet_some value hvalue]
      exact Nat.add_comm _ _
  | updateStale key value old =>
    -- the old pair is now in `stale` and still in `current`: one is owed until the map forgets it
    have hpush := copies_push heap.stale (toLex (old, key)) x
    obtain rfl : found = some old := hknows key value old rfl
    change copies heap.current x + onePair (some old) key x + 0 + _ =
      copies (push heap.stale (toLex (old, key))) x + livePairs heap.values x + 0 + (_ + 0)
    rw [onePair_some, hpush]
    omega
  | updateInsert key value =>
    -- the new pair is in the map and owed to `current`
    have hlive := livePairs_update heap.values key (some value) x
    change copies heap.current x + onePair (some value) key x + onePair found key x + _ =
      copies heap.stale x + livePairs (Function.update heap.values key (some value)) x +
        onePair (heap.values key) key x + (_ + onePair found key x)
    omega
  | updatePush key value =>
    -- what was owed is pushed
    have hpush := copies_push heap.current (toLex (value, key)) x
    change copies (push heap.current (toLex (value, key))) x + 0 + 0 + _ =
      copies heap.stale x + livePairs heap.values x + 0 + (_ + onePair (some value) key x)
    rw [onePair_some, hpush]
    omega
  | popTake =>
    cases hpeek : peek heap.cleaned.current with
    | none =>
      rw [HeapThread.exec_popTake_none hpeek]
      change copies (clean heap.current heap.stale).1 x + 0 + 0 + _ =
        copies (clean heap.current heap.stale).2 x + livePairs heap.values x + 0 + (_ + 0)
      omega
    | some top =>
      -- the pair has left `current`, and is owed until it leaves the map
      have hpop := copies_pop hpeek x
      have hone := onePair_some (ofLex top).1 (ofLex top).2 x
      rw [HeapThread.exec_popTake_some hpeek]
      change copies (MaxHeap.pop (clean heap.current heap.stale).1) x + _ =
        copies (clean heap.current heap.stale).1 x at hpop
      change _ = if x = top then 1 else 0 at hone
      change copies (MaxHeap.pop (clean heap.current heap.stale).1) x +
          onePair (some (ofLex top).1) (ofLex top).2 x + 0 + _ =
        copies (clean heap.current heap.stale).2 x + livePairs heap.values x + 0 + (_ + 0)
      omega
  | popRemove key =>
    have hlive := livePairs_update heap.values key none x
    have hnone : onePair (none : Option V) key x = 0 := onePair_none key x
    change copies heap.current x + 0 + onePair found key x + _ =
      copies heap.stale x + livePairs (Function.update heap.values key none) x +
        onePair (heap.values key) key x + (_ + onePair found key x)
    omega
  | done => exact Nat.add_comm _ _

namespace HeapThreads

open ConcurrentLazyHeap

variable {n : ℕ} {s : HeapThreads K V n} {missing extra : V ×ₗ K → ℕ} {i : Fin n}

/-- The pairs of `current` and those owed to it are those of `stale` and of the map, but for the
`missing` and the `extra` ones. -/
structure Balanced (missing extra : V ×ₗ K → ℕ) (s : HeapThreads K V n) : Prop where
  balance : ∀ x,
    copies s.heap.current x + Custody.held (HeapThread.owed x) s.threads + missing x =
      copies s.heap.stale x + livePairs s.heap.values x + extra x
  knows : ∀ i, (s.threads i).Knows

theorem Balanced.initial : Balanced 0 0 (initial : HeapThreads K V n) where
  balance := by
    intro x
    have hheld : Custody.held (HeapThread.owed x) (HeapThreads.initial : HeapThreads K V n).threads
        = 0 := Custody.held_eq_zero fun _ => rfl
    rw [hheld]
    rfl
  knows := by
    intro i key value old hop
    cases hop

/-- A step of thread `i`. -/
theorem Balanced.move (h : Balanced missing extra s) {heap : ConcurrentLazyHeap K V}
    {t : HeapThread K V} {missing' extra' : V ×ₗ K → ℕ}
    (hbalance : ∀ x, copies heap.current x + t.owed x + missing' x +
        (copies s.heap.stale x + livePairs s.heap.values x) =
      copies heap.stale x + livePairs heap.values x + extra' x +
        (copies s.heap.current x + (s.threads i).owed x))
    (hknows : t.Knows) :
    Balanced (missing + missing') (extra + extra') ⟨heap, Function.update s.threads i t⟩ where
  balance := by
    intro x
    -- what the thread owes is exchanged, and the others owe what they did
    have hheld := Custody.held_update (HeapThread.owed x) s.threads i t
    have hold := h.balance x
    have hnew := hbalance x
    change copies heap.current x + Custody.held _ (Function.update s.threads i t) +
      (missing x + missing' x) = copies heap.stale x + livePairs heap.values x +
        (extra x + extra' x)
    omega
  knows :=
    (Function.forall_update_iff s.threads fun _ thread => thread.Knows).mpr
      ⟨hknows, fun j _ => h.knows j⟩

/-- An access. -/
theorem Balanced.access (h : Balanced missing extra s) (i : Fin n) :
    Balanced (missing + fun x => (s.threads i).expected x)
      (extra + fun x => (s.threads i).taken s.heap x) (s.step (.access i)) :=
  h.move (fun x => HeapThread.balance_exec (h.knows i) s.heap x) (HeapThread.knows_exec _ _)

/-- A call changes nothing but what a `top` cleans. -/
theorem Balanced.call (h : Balanced missing extra s) (i : Fin n) (call : HeapCall K V) :
    Balanced missing extra (s.step (.call i call)) := by
  change Balanced missing extra (s.callStep i call)
  unfold callStep
  cases hop : (s.threads i).op with
  | done =>
    -- an idle thread owes nothing, and neither does one that has only begun a call
    have howed (x : V ×ₗ K) : (s.threads i).owed x = 0 := by rw [HeapThread.owed, hop]
    have hbegin {t : HeapThread K V} (ht : ∀ x, t.owed x = 0) (hknows : t.Knows) :
        Balanced missing extra { s with threads := Function.update s.threads i t } := by
      change Balanced (missing + 0) (extra + 0) ⟨s.heap, Function.update s.threads i t⟩
      refine h.move (fun x => ?_) hknows
      rw [howed, ht]
      exact Nat.add_comm _ _
    cases call with
    | update key value => exact hbegin (fun _ => rfl) fun _ _ _ hop' => by cases hop'
    | pop => exact hbegin (fun _ => rfl) fun _ _ _ hop' => by cases hop'
    | top =>
      -- `top` is one access: it removes the same pairs from both heaps
      refine ⟨fun x => ?_, h.knows⟩
      have hclean := copies_clean s.heap.current s.heap.stale x
      have hold := h.balance x
      change copies (clean _ _).1 x + Custody.held (HeapThread.owed x) s.threads + missing x =
        copies (clean _ _).2 x + livePairs s.heap.values x + extra x
      omega
    | query key => exact h
  | _ => exact h

/-- An undisturbed step keeps the balance as it is. -/
theorem Balanced.step (h : Balanced missing extra s) {act : HeapAct K V n}
    (hact : Undisturbed s act) : Balanced missing extra (s.step act) := by
  cases act with
  | call i call => exact h.call i call
  | access i =>
    have haccess := h.access i
    have hsame := HeapThread.undisturbed_iff.mp hact
    refine ⟨fun x => ?_, haccess.knows⟩
    have hbalance := haccess.balance x
    have hx := hsame x
    simp only [Pi.add_apply] at hbalance
    omega

/-- A disturbed one does not. -/
theorem Balanced.step_disturbed (h : Balanced 0 0 s) {act : HeapAct K V n}
    (hact : ¬ Undisturbed s act) :
    ∃ missing extra, missing ≠ extra ∧ Balanced missing extra (s.step act) := by
  cases act with
  | call i call => exact absurd trivial hact
  | access i =>
    have haccess := h.access i
    rw [zero_add, zero_add] at haccess
    refine ⟨_, _, fun heq => hact ?_, haccess⟩
    exact HeapThread.undisturbed_iff.mpr fun x => congrFun heq x

theorem Balanced.along (h : Balanced missing extra s) {acts : List (HeapAct K V n)}
    (hacts : Run.Along HeapThreads.step Undisturbed s acts) :
    Balanced missing extra (acts.foldl HeapThreads.step s) :=
  hacts.invariant (fun _ _ hact hs => Balanced.step hs hact) h

/-- When nobody is in between, the heap is what it should be if and only if the balance is even. -/
theorem Balanced.represented_iff (h : Balanced missing extra s) (hquiet : Quiescent s) :
    s.heap.Represented ↔ missing = extra := by
  -- nobody owes anything at rest, so that the two sides differ by what was lost or doubled
  have hheld (x : V ×ₗ K) : Custody.held (HeapThread.owed x) s.threads = 0 := by
    apply Custody.held_eq_zero
    intro i
    rw [HeapThread.owed, hquiet i]
  rw [ConcurrentLazyHeap.represented_iff]
  constructor
  · intro hrepr
    funext x
    have hbalance := h.balance x
    have hx := hrepr x
    rw [hheld] at hbalance
    omega
  · rintro rfl x
    have hbalance := h.balance x
    rw [hheld] at hbalance
    omega

/-- **The heap is what it should be as long as nobody is disturbed.** With any number of threads and
in every run whose steps are undisturbed, whenever no operation is in progress `current` without
`stale` is exactly the pairs of the map, and `top` returns the key of the greatest. A run with one
disturbed step never comes to such a state again. -/
theorem represented_of_undisturbed (n : ℕ) :
    (∀ acts : List (HeapAct K V n), Run.Along step Undisturbed initial acts →
      Quiescent (run acts) → (run acts).heap.Represented ∧ (run acts).heap.TopGreatest) ∧
    ∀ (past rest : List (HeapAct K V n)) (act : HeapAct K V n),
      Run.Along step Undisturbed initial past → ¬ Undisturbed (run past) act →
      Run.Along step Undisturbed ((run past).step act) rest →
      Quiescent (run (past ++ act :: rest)) →
      ¬ (run (past ++ act :: rest)).heap.Represented := by
  constructor
  · -- nothing is ever missing or extra
    intro acts hacts hquiet
    have hbalanced := Balanced.initial.along hacts
    have hrepr := (hbalanced.represented_iff hquiet).mpr rfl
    exact ⟨hrepr, hrepr.topGreatest⟩
  · -- the difference that the disturbed step has made stays, since no other step makes one
    intro past rest act hpast hact hrest hquiet hrepr
    obtain ⟨missing, extra, hne, hstep⟩ := (Balanced.initial.along hpast).step_disturbed hact
    have hbalanced := hstep.along hrest
    have hrun : run (past ++ act :: rest) = rest.foldl step ((run past).step act) := by
      rw [run, List.foldl_append, List.foldl_cons]
      rfl
    rw [hrun] at hquiet hrepr
    exact hne ((hbalanced.represented_iff hquiet).mp hrepr)

/-- Two threads in turn: the first gives key 7 the value 1 and then the value 9, while the second
gives key 8 the value 5 and takes the pair of 8 out again. -/
def inTurn : List (HeapAct ℕ ℕ 2) :=
  [.call 0 (.update 7 1), .call 1 (.update 8 5), .access 0, .access 1, .access 1, .access 0,
    .access 0, .access 1,
    .call 0 (.update 7 9), .call 1 .pop, .access 0, .access 1, .access 0, .access 1, .access 0,
    .access 0]

/-- Nobody is disturbed, since the two threads store under different keys, and at the end 7 has the
value 9: `current` still has its old pair, and `stale` has it too. -/
theorem represented_of_undisturbed_inTurn :
    Run.Along step Undisturbed initial inTurn ∧ Quiescent (run inTurn) ∧
      (run inTurn).heap.values 7 = some 9 ∧ (run inTurn).heap.values 8 = none ∧
      (run inTurn).heap.Represented ∧ (run inTurn).heap.TopGreatest := by
  have halong : Run.Along step Undisturbed initial inTurn :=
    -- a step that stores or removes compares the value of its key, and the others do not
    ⟨trivial, trivial, trivial, trivial, rfl, rfl, trivial, trivial,
      trivial, trivial, trivial, trivial, trivial, rfl, rfl, trivial, trivial⟩
  have hquiet : Quiescent (run inTurn) := by
    intro i
    match i with
    | 0 => rfl
    | 1 => rfl
  exact ⟨halong, hquiet, rfl, rfl, (represented_of_undisturbed 2).1 inTurn halong hquiet⟩

/-- Two updates of key 7, with the values 9 and 1, that both find no value before either of them
stores one; key 8 has the value 5. -/
def racingUpdates : List (HeapAct ℕ ℕ 2) :=
  [.call 0 (.update 8 5), .access 0, .access 0, .access 0,
    .call 0 (.update 7 9), .call 1 (.update 7 1), .access 0, .access 1,
    .access 0, .access 1, .access 0, .access 1]

/-- Afterwards 7 has the value 1 and 8 the value 5, but both pairs of 7 are in `current`, none in
`stale`, and `top` returns 7. -/
theorem racingUpdates_broken :
    Quiescent (run racingUpdates) ∧ ¬ (run racingUpdates).heap.Represented ∧
      (run racingUpdates).heap.values 7 = some 1 ∧ (run racingUpdates).heap.values 8 = some 5 ∧
      (run racingUpdates).heap.top.1 = some 7 := by
  have hquiet : Quiescent (run racingUpdates) := by
    intro i
    match i with
    | 0 => rfl
    | 1 => rfl
  refine ⟨hquiet, fun hrepr => ?_, rfl, rfl, rfl⟩
  have hpair := hrepr.pairs 9 7
  exact absurd hpair (by decide)

end HeapThreads

end Farsight
