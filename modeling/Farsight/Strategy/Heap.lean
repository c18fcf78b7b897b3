import Farsight.Lib.MaxHeap
import Farsight.Lib.Machine
import Mathlib.Logic.Function.Basic

/-!
# Lazy heaps

`ConcurrentLazyHeap` keeps the current value of every key in a concurrent map, all values ever given
in the heap `current` and the outdated ones in the heap `stale`. Its fields are shared by all
threads, so an operation is a sequence of atomic accesses: one for each locked heap access and one
for each map access.

`top` and `query` are one access each (`top`, `query`). `update` and `pop` take several; `HeapOp` is
such an operation in progress, by the access it makes next, and `HeapOp.exec` makes that access.

`LazyHeap` is the same heap for one owner, whose operations are not interrupted.
-/

namespace Farsight

open MaxHeap

variable {K V : Type} [LinearOrder K] [LinearOrder V]

/-! ### The pairs of a map -/

/-- One for the pair of the key and the value, if there is a value. -/
def onePair (value : Option V) (key : K) (x : V ×ₗ K) : ℕ :=
  if value = some (ofLex x).1 ∧ key = (ofLex x).2 then 1 else 0

/-- One for every pair of the map. -/
def livePairs (values : K → Option V) (x : V ×ₗ K) : ℕ :=
  onePair (values (ofLex x).2) (ofLex x).2 x

theorem onePair_none (key : K) (x : V ×ₗ K) : onePair (none : Option V) key x = 0 :=
  if_neg fun h => Option.some_ne_none _ h.1.symm

theorem onePair_some (value : V) (key : K) (x : V ×ₗ K) :
    onePair (some value) key x = if x = toLex (value, key) then 1 else 0 := by
  by_cases hx : x = toLex (value, key)
  · subst hx
    rw [if_pos rfl]
    exact if_pos ⟨rfl, rfl⟩
  · rw [if_neg hx]
    refine if_neg ?_
    rintro ⟨hvalue, hkey⟩
    apply hx
    rw [Option.some.inj hvalue, hkey]
    rfl

/-- Storing a value, or none, exchanges the pair of the key. -/
theorem livePairs_update (values : K → Option V) (key : K) (value : Option V) (x : V ×ₗ K) :
    livePairs (Function.update values key value) x + onePair (values key) key x =
      livePairs values x + onePair value key x := by
  unfold livePairs
  by_cases hkey : (ofLex x).2 = key
  · rw [hkey, Function.update_self]
    exact Nat.add_comm _ _
  · have hother (value : Option V) : onePair value key x = 0 :=
      if_neg fun h => hkey h.2.symm
    rw [Function.update_of_ne hkey, hother, hother]

/-- A pair is live exactly if the map has its value for its key. -/
theorem livePairs_pos {values : K → Option V} {x : V ×ₗ K} :
    0 < livePairs values x ↔ values (ofLex x).2 = some (ofLex x).1 := by
  rw [livePairs, onePair]
  split
  · next h => exact iff_of_true Nat.one_pos h.1
  · next h => exact iff_of_false (Nat.lt_irrefl 0) fun hvalue => h ⟨hvalue, rfl⟩

/-- A heap that is empty after cleaning stands for the empty map. -/
theorem eq_none_of_peek_clean {values : K → Option V} {current stale : List (V ×ₗ K)}
    (h : Represents (livePairs values) current stale)
    (hnone : peek (clean current stale).1 = none) (key : K) : values key = none := by
  cases hvalue : values key with
  | none => rfl
  | some value =>
    have hpos : 0 < livePairs values (toLex (value, key)) := livePairs_pos.mpr hvalue
    rw [h.live_eq_zero hnone] at hpos
    contradiction

/-! ### The heap of many threads -/

/-- The shared fields of the heap. -/
structure ConcurrentLazyHeap (K V : Type) where
  values : K → Option V
  current : List (V ×ₗ K)
  stale : List (V ×ₗ K)

/-- An `update` or a `pop` in progress, named by its next access. -/
inductive HeapOp (K V : Type) where
  /-- `update`: read the old value of the key. -/
  | updateGet (key : K) (value : V)
  /-- `update`: push the old value on `stale`. -/
  | updateStale (key : K) (value old : V)
  /-- `update`: insert the new value. -/
  | updateInsert (key : K) (value : V)
  /-- `update`: push the new value on `current`. -/
  | updatePush (key : K) (value : V)
  /-- `pop`: clean both heaps and pop `current`. -/
  | popTake
  /-- `pop`: remove the value of the popped key. -/
  | popRemove (key : K)
  /-- The operation has returned. -/
  | done

namespace ConcurrentLazyHeap

/-- An empty heap. -/
def empty : ConcurrentLazyHeap K V where
  values := fun _ => none
  current := []
  stale := []

/-- `ConcurrentLazyHeap::_top`: clean both heaps under their locks. -/
def cleaned (self : ConcurrentLazyHeap K V) : ConcurrentLazyHeap K V :=
  { self with
    current := (clean self.current self.stale).1
    stale := (clean self.current self.stale).2 }

/-- `ConcurrentLazyHeap::top`. -/
def top (self : ConcurrentLazyHeap K V) : Option K × ConcurrentLazyHeap K V :=
  ((peek self.cleaned.current).map fun x => (ofLex x).2, self.cleaned)

/-- `ConcurrentLazyHeap::query`. -/
def query (self : ConcurrentLazyHeap K V) (key : K) : Option V :=
  self.values key

/-- `ConcurrentLazyHeap::update`, before its first access. -/
def update (key : K) (value : V) : HeapOp K V :=
  .updateGet key value

/-- `ConcurrentLazyHeap::pop`, before its first access. -/
def pop : HeapOp K V :=
  .popTake

end ConcurrentLazyHeap

open ConcurrentLazyHeap in
/-- The next access of an operation in progress. -/
def HeapOp.exec : HeapOp K V → ConcurrentLazyHeap K V → HeapOp K V × ConcurrentLazyHeap K V
  | .updateGet key value, heap =>
    match heap.values key with
    | some old => (.updateStale key value old, heap)
    | none => (.updateInsert key value, heap)
  -- the old value stays in `current` and is cancelled by its copy in `stale`
  | .updateStale key value old, heap =>
    (.updateInsert key value, { heap with stale := push heap.stale (toLex (old, key)) })
  | .updateInsert key value, heap =>
    (.updatePush key value, { heap with values := Function.update heap.values key (some value) })
  | .updatePush key value, heap =>
    (.done, { heap with current := push heap.current (toLex (value, key)) })
  | .popTake, heap =>
    match peek heap.cleaned.current with
    | some x =>
      (.popRemove (ofLex x).2,
        { heap.cleaned with current := MaxHeap.pop heap.cleaned.current })
    | none => (.done, heap.cleaned)
  | .popRemove key, heap =>
    (.done, { heap with values := Function.update heap.values key none })
  | .done, heap => (.done, heap)

theorem ConcurrentLazyHeap.cleaned_cleaned (heap : ConcurrentLazyHeap K V) :
    heap.cleaned.cleaned = heap.cleaned := by
  unfold cleaned
  rw [clean_clean]

/-- Without stale entries the greatest of `current` is on top. -/
theorem ConcurrentLazyHeap.top_of_stale_nil {heap : ConcurrentLazyHeap K V} {x : V ×ₗ K}
    (hcurrent : peek heap.current = some x) (hstale : heap.stale = []) :
    heap.top = (some (ofLex x).2, heap) := by
  have hclean : heap.cleaned = heap := by
    unfold ConcurrentLazyHeap.cleaned
    rw [clean_of_peek_ne fun a _ => by rw [hstale]; exact nofun]
  rw [ConcurrentLazyHeap.top, hclean, hcurrent]
  rfl

/-- A heap with one entry has its key on top. -/
theorem ConcurrentLazyHeap.top_singleton {heap : ConcurrentLazyHeap K V} {v : V} {p : K}
    (hcurrent : heap.current = [toLex (v, p)]) (hstale : heap.stale = []) :
    heap.top = (some p, heap) := by
  have hpeek : peek heap.current = some (toLex (v, p)) := by
    rw [hcurrent]
    rfl
  exact top_of_stale_nil hpeek hstale

/-! ### The keys of a heap

A key reaches `current` only through an `update` of that key, so a property of all updated keys
holds of everything `top` and `pop` find. -/

section Keys

variable {P : K → Prop}

/-- Every key of `current` satisfies `P`. -/
def ConcurrentLazyHeap.AllKeys (P : K → Prop) (heap : ConcurrentLazyHeap K V) : Prop :=
  ∀ x ∈ heap.current, P (ofLex x).2

/-- The key an operation will still push, if any, satisfies `P`. -/
def HeapOp.Pushes (P : K → Prop) : HeapOp K V → Prop
  | .updateGet key _ => P key
  | .updateStale key _ _ => P key
  | .updateInsert key _ => P key
  | .updatePush key _ => P key
  | _ => True

namespace ConcurrentLazyHeap

omit [LinearOrder K] [LinearOrder V] in
theorem AllKeys.empty : (empty : ConcurrentLazyHeap K V).AllKeys P :=
  fun _ h => absurd h List.not_mem_nil

theorem AllKeys.cleaned {heap : ConcurrentLazyHeap K V} (h : heap.AllKeys P) :
    heap.cleaned.AllKeys P :=
  fun x hx => h x (mem_of_mem_clean hx)

/-- `top` returns a key of the heap. -/
theorem AllKeys.top {heap : ConcurrentLazyHeap K V} (h : heap.AllKeys P) {key : K}
    (hk : heap.top.1 = some key) : P key := by
  obtain ⟨x, hx, rfl⟩ := Option.map_eq_some_iff.mp hk
  exact h.cleaned x (peek_mem hx)

end ConcurrentLazyHeap

/-- One access keeps the property of the keys. -/
theorem HeapOp.exec_allKeys {op : HeapOp K V} {heap : ConcurrentLazyHeap K V}
    (h : heap.AllKeys P) (hop : op.Pushes P) :
    (op.exec heap).2.AllKeys P ∧ (op.exec heap).1.Pushes P := by
  -- only `updatePush` adds to `current`, and `popTake` only removes
  cases op with
  | updateGet key value =>
    rw [HeapOp.exec]
    cases heap.values key <;> exact ⟨h, hop⟩
  | updateStale key value old => exact ⟨h, hop⟩
  | updateInsert key value => exact ⟨h, hop⟩
  | updatePush key value => exact ⟨List.forall_mem_cons.mpr ⟨hop, h⟩, trivial⟩
  | popTake =>
    rw [HeapOp.exec]
    cases peek heap.cleaned.current with
    | none => exact ⟨h.cleaned, trivial⟩
    | some x => exact ⟨fun y hy => h.cleaned y (mem_of_mem_pop hy), trivial⟩
  | popRemove key => exact ⟨h, trivial⟩
  | done => exact ⟨h, trivial⟩

end Keys

/-! ### The heap of one owner -/

/-- `LazyHeap`. -/
structure LazyHeap (K V : Type) where
  values : K → Option V
  current : List (V ×ₗ K)
  stale : List (V ×ₗ K)

namespace LazyHeap

/-- An empty heap, as `clear` leaves it. -/
def empty : LazyHeap K V where
  values := fun _ => none
  current := []
  stale := []

/-- `LazyHeap::_top`. -/
def cleaned (self : LazyHeap K V) : LazyHeap K V :=
  { self with
    current := (clean self.current self.stale).1
    stale := (clean self.current self.stale).2 }

/-- `LazyHeap::top`. -/
def top (self : LazyHeap K V) : Option K × LazyHeap K V :=
  ((peek self.cleaned.current).map fun x => (ofLex x).2, self.cleaned)

/-- `LazyHeap::pop`. -/
def pop (self : LazyHeap K V) : LazyHeap K V :=
  match peek self.cleaned.current with
  | some x =>
    { self.cleaned with
      current := MaxHeap.pop self.cleaned.current
      values := Function.update self.values (ofLex x).2 none }
  | none => self.cleaned

/-- `LazyHeap::query`. -/
def query (self : LazyHeap K V) (key : K) : Option V :=
  self.values key

/-- `LazyHeap::update`. -/
def update (self : LazyHeap K V) (key : K) (value : V) : LazyHeap K V where
  values := Function.update self.values key (some value)
  current := push self.current (toLex (value, key))
  stale :=
    match self.values key with
    | some old => push self.stale (toLex (old, key))
    | none => self.stale

/-- Cleaning is done at once: what is on top afterwards is not stale. So a call that cleans again,
as every call does, finds nothing. -/
theorem cleaned_cleaned (heap : LazyHeap K V) : heap.cleaned.cleaned = heap.cleaned := by
  unfold cleaned
  rw [clean_clean]

theorem top_cleaned (heap : LazyHeap K V) : heap.cleaned.top = heap.top := by
  unfold top
  rw [cleaned_cleaned]

theorem pop_cleaned (heap : LazyHeap K V) : heap.cleaned.pop = heap.pop := by
  unfold pop
  rw [cleaned_cleaned]
  rfl

theorem top_of_current_nil {heap : LazyHeap K V} (h : heap.current = []) : heap.top.1 = none := by
  rw [top, cleaned, h]
  rfl

/-- Popping something makes the heap smaller, which bounds the loops that pop. -/
theorem length_pop_lt {heap : LazyHeap K V} {key : K} (h : heap.top.1 = some key) :
    heap.pop.current.length < heap.current.length := by
  obtain ⟨x, hx, -⟩ := Option.map_eq_some_iff.mp h
  rw [pop, hx]
  exact (MaxHeap.length_pop_lt hx).trans_le (length_clean_le _ _)

/-! The heap has the pairs of the map, up to what is cancelled. -/

/-- `current` without `stale` is the pairs of the map. -/
def Represented (heap : LazyHeap K V) : Prop :=
  Represents (livePairs heap.values) heap.current heap.stale

variable {heap : LazyHeap K V}

theorem Represented.empty : (empty : LazyHeap K V).Represented := by
  intro x
  change 0 = 0 + onePair none (ofLex x).2 x
  rw [onePair_none]

theorem Represented.cleaned (h : heap.Represented) : heap.cleaned.Represented :=
  Represents.clean h

/-- An update adds the new pair to `current`. The old pair of the key stays there and is written to
`stale`, so the balance holds for every pair, also when the value is the same as before. -/
theorem Represented.update (h : heap.Represented) (key : K) (value : V) :
    (heap.update key value).Represented := by
  intro x
  have hx := h x
  have hlive := livePairs_update heap.values key (some value) x
  rw [onePair_some] at hlive
  change copies (push heap.current (toLex (value, key))) x =
    copies (heap.update key value).stale x +
      livePairs (Function.update heap.values key (some value)) x
  rw [copies_push, LazyHeap.update]
  cases hold : heap.values key with
  | none =>
    -- a new key: one pair more in `current`, and one more live
    rw [hold, onePair_none] at hlive
    dsimp only
    omega
  | some old =>
    -- one pair more in `current` and in `stale`; the live one has been exchanged
    rw [hold, onePair_some] at hlive
    dsimp only
    rw [copies_push]
    omega

/-- `top` returns a key with the greatest value. -/
theorem Represented.top_some (h : heap.Represented) {key : K} (hkey : heap.top.1 = some key) :
    ∃ value, heap.values key = some value ∧
      ∀ key' value', heap.values key' = some value' → value' ≤ value := by
  obtain ⟨x, hx, rfl⟩ := Option.map_eq_some_iff.mp hkey
  obtain ⟨hpos, hgreatest⟩ := Represents.peek_clean h hx
  refine ⟨(ofLex x).1, livePairs_pos.mp hpos, fun key' value' hvalue' => ?_⟩
  have hle := hgreatest (toLex (value', key')) (livePairs_pos.mpr hvalue')
  exact (Prod.Lex.le_iff'.mp hle).1

theorem Represented.top_none (h : heap.Represented) (hnone : heap.top.1 = none) (key : K) :
    heap.values key = none :=
  eq_none_of_peek_clean h (Option.map_eq_none_iff.mp hnone) key

/-- `pop` after the cleaning: the top leaves `current`, and its key the map. -/
theorem pop_eq {x : V ×ₗ K} (hx : peek heap.cleaned.current = some x) :
    heap.pop =
      { heap.cleaned with
        current := MaxHeap.pop heap.cleaned.current
        values := Function.update heap.values (ofLex x).2 none } := by
  rw [pop, hx]

/-- A pop removes the top, which is live after the cleaning, from the heap and from the map. -/
theorem Represented.pop (h : heap.Represented) : heap.pop.Represented := by
  cases hpeek : peek heap.cleaned.current with
  | none =>
    rw [LazyHeap.pop, hpeek]
    exact h.cleaned
  | some x =>
    rw [pop_eq hpeek]
    intro y
    -- the top is live, so the map had this value and loses it
    have hvalue := livePairs_pos.mp (Represents.peek_clean h hpeek).1
    have hlive := livePairs_update heap.values (ofLex x).2 none y
    rw [hvalue, onePair_some, onePair_none] at hlive
    have hy := h.cleaned y
    have hcopies := copies_pop hpeek y
    change copies (MaxHeap.pop heap.cleaned.current) y = copies heap.cleaned.stale y +
      livePairs (Function.update heap.values (ofLex x).2 none) y
    change copies heap.cleaned.current y = copies heap.cleaned.stale y +
      livePairs heap.values y at hy
    change _ + (if y = x then 1 else 0) = _ at hlive
    omega

/-- `pop` removes the value of the top. -/
theorem values_pop_of_ne {key key' : K} (hkey : heap.top.1 = some key) (hne : key' ≠ key) :
    heap.pop.values key' = heap.values key' := by
  obtain ⟨x, hx, rfl⟩ := Option.map_eq_some_iff.mp hkey
  rw [pop_eq hx]
  exact Function.update_of_ne hne _ _

end LazyHeap

end Farsight
