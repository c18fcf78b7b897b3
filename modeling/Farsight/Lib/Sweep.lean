import Mathlib.Data.List.Nodup
import Mathlib.Data.Set.Insert
import Mathlib.Logic.Relation

/-!
# Sweeps with early picks

An enumerator hands out the elements of a finite sequence `order` one by one, but may at any moment
pick an element out of turn. A set of marks keeps it from handing out anything twice: whoever hands
out an element marks it first, and the sweep skips marked elements.

`Step order allowed` is this enumerator as a transition system; picks are restricted to the elements
that satisfy `allowed`. `pending` is an element that was marked and is about to be handed out. What
it guarantees is `Inv`:

* the marked elements are those handed out or pending, and none is handed out twice;
* whenever the enumerator reports the end (`none`), every element of `order` has been handed out
  before;
* everything handed out is in `order` or is an allowed pick.

A program refines the enumerator when each of its steps is a sequence of `Step`s (`Steps`), and then
inherits `Inv`.
-/

namespace Sweep

variable {α : Type}

/-- The state of the enumerator. `results` is what it has handed out so far, `none` each time it
reported the end. -/
structure State (α : Type) where
  marked : Set α
  index : ℕ
  pending : Option α
  results : List (Option α)

/-- The enumerator before its first step. -/
def State.initial : State α where
  marked := ∅
  index := 0
  pending := none
  results := []

/-- One step of the enumerator. -/
inductive Step (order : ℕ → Option α) (allowed : α → Prop) : State α → State α → Prop
  /-- Pick `a` out of turn. -/
  | pick (s : State α) (a : α) (hpending : s.pending = none) (hallowed : allowed a)
      (hfree : a ∉ s.marked) :
      Step order allowed s { s with marked := insert a s.marked, pending := some a }
  /-- Take the next element of the sweep. -/
  | take (s : State α) (a : α) (hpending : s.pending = none) (hnext : order s.index = some a)
      (hfree : a ∉ s.marked) :
      Step order allowed s
        { s with marked := insert a s.marked, index := s.index + 1, pending := some a }
  /-- Skip the next element of the sweep, which was picked before. -/
  | skip (s : State α) (a : α) (hnext : order s.index = some a) (hmarked : a ∈ s.marked) :
      Step order allowed s { s with index := s.index + 1 }
  /-- Hand out the pending element. -/
  | deliver (s : State α) (a : α) (hpending : s.pending = some a) :
      Step order allowed s { s with pending := none, results := s.results ++ [some a] }
  /-- Report the end. -/
  | exhaust (s : State α) (hpending : s.pending = none) (hend : order s.index = none) :
      Step order allowed s { s with results := s.results ++ [none] }

/-- Any number of steps. -/
abbrev Steps (order : ℕ → Option α) (allowed : α → Prop) : State α → State α → Prop :=
  Relation.ReflTransGen (Step order allowed)

/-- The sequence ends once and for all. -/
def Ends (order : ℕ → Option α) : Prop :=
  ∀ i j, i ≤ j → order i = none → order j = none

/-- What holds of every reachable state. -/
structure Inv (order : ℕ → Option α) (allowed : α → Prop) (s : State α) : Prop where
  marked_iff : ∀ a, a ∈ s.marked ↔ some a ∈ s.results ∨ s.pending = some a
  nodup : (s.results.filterMap id).Nodup
  fresh : ∀ a, s.pending = some a → some a ∉ s.results
  swept : ∀ i < s.index, ∀ a, order i = some a → a ∈ s.marked
  complete : ∀ before after, s.results = before ++ none :: after →
    ∀ i a, order i = some a → some a ∈ before
  sound : ∀ a ∈ s.marked, allowed a ∨ ∃ i, order i = some a

variable {order : ℕ → Option α} {allowed : α → Prop}

theorem Inv.initial : Inv order allowed (State.initial : State α) where
  marked_iff a := by simp [State.initial]
  nodup := List.nodup_nil
  fresh := fun _ h => absurd h (by simp [State.initial])
  swept := fun _ h => absurd h (Nat.not_lt_zero _)
  complete := fun before _ h => absurd h (by cases before <;> simp [State.initial])
  sound := fun _ h => absurd h (Set.notMem_empty _)

/-- A list that ends in `x` and is split at a `none`: the split is at the end, or it already splits
the shorter list. -/
private theorem split_concat {l before after : List (Option α)} {x : Option α}
    (h : l ++ [x] = before ++ none :: after) :
    (after = [] ∧ before = l ∧ x = none) ∨ ∃ after', l = before ++ none :: after' := by
  -- whether anything follows the `none`
  rcases List.eq_nil_or_concat after with rfl | ⟨after', y, rfl⟩
  · obtain ⟨hl, hx⟩ := List.append_inj' h rfl
    exact .inl ⟨rfl, hl.symm, List.head_eq_of_cons_eq hx⟩
  · rw [List.concat_eq_append, ← List.cons_append, ← List.append_assoc] at h
    obtain ⟨hl, -⟩ := List.append_inj' h rfl
    exact .inr ⟨after', hl⟩

/-- An element that was just marked was not handed out. -/
private theorem Inv.not_mem_results {s : State α} (hI : Inv order allowed s) {a : α}
    (hfree : a ∉ s.marked) : some a ∉ s.results :=
  fun h => hfree ((hI.marked_iff a).mpr (.inl h))

/-- A free element may be marked and made pending, if it may be handed out at all. -/
private theorem Inv.mark {s : State α} (hI : Inv order allowed s) {a : α}
    (hpending : s.pending = none) (hfree : a ∉ s.marked)
    (hsource : allowed a ∨ ∃ i, order i = some a) :
    Inv order allowed { s with marked := insert a s.marked, pending := some a } where
  marked_iff b := by
    have hb := hI.marked_iff b
    rw [hpending] at hb
    simp only [Set.mem_insert_iff, hb, Option.some.injEq, reduceCtorEq, or_false]
    rw [or_comm, eq_comm]
  nodup := hI.nodup
  fresh b h := by
    -- it was not marked, so it was not returned either
    obtain rfl := Option.some.inj h
    exact hI.not_mem_results hfree
  swept i hi b hb := Set.mem_insert_of_mem a (hI.swept i hi b hb)
  complete := hI.complete
  sound := by
    rintro b (rfl | hb)
    · exact hsource
    · exact hI.sound b hb

/-- The sweep may pass an element that is marked. -/
private theorem Inv.pass {s : State α} (hI : Inv order allowed s) {a : α}
    (hnext : order s.index = some a) (hmarked : a ∈ s.marked) :
    Inv order allowed { s with index := s.index + 1 } where
  marked_iff := hI.marked_iff
  nodup := hI.nodup
  fresh := hI.fresh
  swept i hi b hb := by
    -- the new position is that of a marked element
    rcases Nat.lt_succ_iff_lt_or_eq.mp hi with hi | rfl
    · exact hI.swept i hi b hb
    · rw [hnext] at hb
      obtain rfl := Option.some.inj hb
      exact hmarked
  complete := hI.complete
  sound := hI.sound

/-- **Invariant preservation.** -/
theorem Inv.step (hends : Ends order) {s t : State α} (hI : Inv order allowed s)
    (hstep : Step order allowed s t) : Inv order allowed t := by
  cases hstep with
  | pick a hpending hallowed hfree => exact hI.mark hpending hfree (.inl hallowed)
  | take a hpending hnext hfree =>
    -- taking an element is marking it and then passing it
    exact (hI.mark hpending hfree (.inr ⟨_, hnext⟩)).pass hnext (Set.mem_insert a _)
  | skip a hnext hmarked => exact hI.pass hnext hmarked
  | deliver a hpending =>
    refine ⟨fun b => ?_, ?_, fun _ h => absurd h (by simp), hI.swept, ?_, hI.sound⟩
    · rw [hI.marked_iff, hpending]
      simp only [List.mem_append, List.mem_singleton, Option.some.injEq, reduceCtorEq, or_false]
      rw [eq_comm]
    · rw [List.filterMap_append, List.nodup_append]
      refine ⟨hI.nodup, by simp, fun b hb c hc => ?_⟩
      -- the pending element was not handed out before
      rintro rfl
      rw [List.mem_filterMap] at hb
      obtain ⟨o, ho, hob⟩ := hb
      obtain rfl : b = a := by simpa using hc
      rw [show o = some b from hob] at ho
      exact hI.fresh b hpending ho
    · -- the new result is not `none`, so a split at a `none` is an old one
      intro before after h
      rcases split_concat h with ⟨-, -, hx⟩ | ⟨after', hl⟩
      · cases hx
      · exact hI.complete before after' hl
  | exhaust hpending hend =>
    refine ⟨fun b => ?_, ?_, fun b h => absurd (hpending.symm.trans h) (by simp), hI.swept, ?_,
      hI.sound⟩
    · rw [hI.marked_iff]
      simp
    · rw [List.filterMap_append]
      simpa using hI.nodup
    · intro before after h i a hi
      rcases split_concat h with ⟨-, rfl, -⟩ | ⟨after', hl⟩
      · -- the sweep is over, so `a` was passed, and whatever is marked was handed out
        have hlt : i < s.index := by
          by_contra hge
          rw [hends s.index i (Nat.le_of_not_lt hge) hend] at hi
          cases hi
        have := (hI.marked_iff a).mp (hI.swept i hlt a hi)
        rw [hpending] at this
        exact this.resolve_right (by simp)
      · exact hI.complete before after' hl i a hi

/-- The invariant holds after any number of steps. -/
theorem Inv.steps (hends : Ends order) {s t : State α} (hI : Inv order allowed s)
    (hsteps : Steps order allowed s t) : Inv order allowed t := by
  induction hsteps with
  | refl => exact hI
  | tail _ hstep ih => exact ih.step hends hstep

end Sweep
