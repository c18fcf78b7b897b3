import Farsight.Lib.PriorityMap
import Farsight.Strategy.Heap

/-!
# The lazy heap is a priority map

A `LazyHeap` keeps outdated entries and cancels them when they come to the top. To its owner it is a
priority map: `Represented` ties both heaps to the map `values`, which has the binding of each key.

* `LazyHeap.call`, `LazyHeap.run` — the operations, and sequences of them;
* `LazyHeap.call_refines` — one call;
* `LazyHeap.run_refines_priorityMap` — a sequence of calls answers what a priority map answers.
-/

namespace Farsight

open PriorityMap

variable {K V : Type} [LinearOrder K] [LinearOrder V]

namespace LazyHeap

/-- `LazyHeap::clear`. -/
def clear (_self : LazyHeap K V) : LazyHeap K V :=
  empty

/-- A call of one of the operations. -/
def call (self : LazyHeap K V) : Call K V → Answer K V × LazyHeap K V
  | .update key value => (.unit, self.update key value)
  | .pop => (.unit, self.pop)
  | .top => (.key self.top.1, self.top.2)
  | .query key => (.value (self.query key), self)
  | .clear => (.unit, self.clear)

/-- Calls one after the other, with what they answer. -/
def run (self : LazyHeap K V) : List (Call K V) → List (Answer K V) × LazyHeap K V
  | [] => ([], self)
  | call :: calls =>
    let (answer, heap) := self.call call
    let (answers, heap) := heap.run calls
    (answer :: answers, heap)

variable {heap : LazyHeap K V} {changes : List (Change K V)}

/-! ### One call -/

/-- What is on top after cleaning is bound, and the greatest binding. -/
theorem Represented.isTop (h : heap.Represented) {x : V ×ₗ K}
    (hx : MaxHeap.peek heap.cleaned.current = some x) : IsTop heap.values (ofLex x).2 := by
  obtain ⟨hpos, hgreatest⟩ := MaxHeap.Represents.peek_clean h hx
  refine ⟨(ofLex x).1, livePairs_pos.mp hpos, fun key' value' hvalue' => ?_⟩
  exact hgreatest (toLex (value', key')) (livePairs_pos.mpr hvalue')

/-- If nothing is left after cleaning, no key is bound. -/
theorem Represented.unbound (h : heap.Represented)
    (hx : MaxHeap.peek heap.cleaned.current = none) (key : K) : heap.values key = none :=
  h.top_none (by rw [top, hx]; rfl) key

/-- A call answers as a priority map with the same bindings, and makes the same change to them. -/
theorem call_refines (h : heap.Represented) (hbound : heap.values = bound changes)
    (call : Call K V) :
    ∃ changes', Step changes call (heap.call call).1 changes' ∧
      (heap.call call).2.Represented ∧ (heap.call call).2.values = bound changes' := by
  cases call with
  | update key value =>
    refine ⟨_, .update key value, h.update key value, ?_⟩
    rw [bound_given, ← hbound]
    rfl
  | pop =>
    cases hx : MaxHeap.peek heap.cleaned.current with
    | none =>
      refine ⟨_, .popEmpty fun key => ?_, h.pop, ?_⟩
      · rw [← hbound]
        exact h.unbound hx key
      · change heap.pop.values = _
        rw [pop, hx, ← hbound]
        rfl
    | some x =>
      -- the entry that is popped is the one of the greatest binding
      have htop := h.isTop hx
      rw [hbound] at htop
      refine ⟨_, .pop htop, h.pop, ?_⟩
      change heap.pop.values = _
      rw [pop_eq hx, bound_removed, ← hbound]
  | top =>
    refine ⟨changes, ?_, h.cleaned, hbound⟩
    change Step changes .top (.key ((MaxHeap.peek heap.cleaned.current).map _)) changes
    cases hx : MaxHeap.peek heap.cleaned.current with
    | none =>
      refine .topEmpty fun key => ?_
      rw [← hbound]
      exact h.unbound hx key
    | some x =>
      have htop := h.isTop hx
      rw [hbound] at htop
      exact .top htop
  | query key =>
    refine ⟨changes, ?_, h, hbound⟩
    change Step changes (.query key) (.value (heap.values key)) changes
    rw [hbound]
    exact .query key
  | clear => exact ⟨_, .clear, .empty, rfl⟩

/-! ### Sequences of calls -/

theorem run_refines (h : heap.Represented) (hbound : heap.values = bound changes)
    (calls : List (Call K V)) :
    ∃ changes', Run changes calls (heap.run calls).1 changes' ∧
      (heap.run calls).2.values = bound changes' := by
  -- each call leaves the heap and the history related as before it
  induction calls generalizing heap changes with
  | nil => exact ⟨changes, .nil changes, hbound⟩
  | cons call calls ih =>
    obtain ⟨changes', hstep, hrepresented, hbound'⟩ := call_refines h hbound call
    obtain ⟨changes'', hrun, hbound''⟩ := ih hrepresented hbound'
    exact ⟨changes'', .cons hstep hrun, hbound''⟩

/-- **The lazy heap refines a priority map.** The calls of any sequence answer what a priority map
answers, and it answers nothing else: a key has the last value that it was given since its last
removal, `top` is the key of the greatest binding, and `pop` removes that binding. The loop that
cancels outdated entries ends in every heap that is reached. -/
theorem run_refines_priorityMap (calls : List (Call K V)) :
    ∃ changes, Run [] calls ((empty : LazyHeap K V).run calls).1 changes ∧
      (∀ answers changes', Run [] calls answers changes' →
        answers = ((empty : LazyHeap K V).run calls).1) ∧
      (∀ key, ((empty : LazyHeap K V).run calls).2.query key = bound changes key) ∧
      let heap := ((empty : LazyHeap K V).run calls).2
      Relation.ReflTransGen MaxHeap.CleanTurn (heap.current, heap.stale)
          (heap.cleaned.current, heap.cleaned.stale) ∧
        ∀ after, ¬ MaxHeap.CleanTurn (heap.cleaned.current, heap.cleaned.stale) after := by
  have hempty : (empty : LazyHeap K V).values = bound [] := rfl
  obtain ⟨changes, hrun, hbound⟩ := run_refines Represented.empty hempty calls
  refine ⟨changes, hrun, fun answers changes' hrun' => hrun'.answers_unique hrun,
    fun key => congrFun hbound key, ?_⟩
  exact MaxHeap.clean_terminates _ _

end LazyHeap

end Farsight
