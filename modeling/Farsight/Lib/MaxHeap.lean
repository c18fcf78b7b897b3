import Mathlib.Data.List.Basic
import Mathlib.Data.Prod.Lex
import Mathlib.Logic.Relation
import Mathlib.Order.MinMax

/-!
# Max-heaps

A binary max-heap is used through three operations only: `push`, `peek` (the greatest element) and
`pop` (its removal). Nothing observes how it is laid out, so it is a list of its elements, read as a
multiset.

Two heaps can be cleaned against each other (`clean`): while both have the same greatest element, it
is dropped from both. That is how a heap with lazy deletion skips the entries it has marked as
stale. Every turn drops an element, so as many turns as the first heap has elements are enough.
-/

namespace MaxHeap

variable {α : Type} [LinearOrder α]

/-- Add an element. -/
def push (h : List α) (x : α) : List α :=
  x :: h

/-- The greatest element. -/
def peek (h : List α) : Option α :=
  h.max?

/-- Remove the greatest element. -/
def pop (h : List α) : List α :=
  match peek h with
  | none => h
  | some x => h.erase x

theorem peek_mem {h : List α} {x : α} (hx : peek h = some x) : x ∈ h :=
  List.max?_mem hx

theorem mem_of_mem_pop {h : List α} {x : α} (hx : x ∈ pop h) : x ∈ h := by
  unfold pop at hx
  split at hx
  · exact hx
  · exact List.mem_of_mem_erase hx

/-- At most `fuel` turns of cleaning `current` against `stale`. -/
def cleanLoop : ℕ → List α → List α → List α × List α
  | 0, current, stale => (current, stale)
  | fuel + 1, current, stale =>
    match peek current, peek stale with
    | some a, some b =>
      if a = b then cleanLoop fuel (pop current) (pop stale) else (current, stale)
    | _, _ => (current, stale)

/-- Drop common greatest elements. -/
def clean (current stale : List α) : List α × List α :=
  cleanLoop current.length current stale

/-- One turn of the loop: both heaps have the same greatest element, and lose it. -/
def CleanTurn (before after : List α × List α) : Prop :=
  ∃ a, peek before.1 = some a ∧ peek before.2 = some a ∧ after = (pop before.1, pop before.2)

/-- The loop makes turns, one after the other, and stops. Invariants of a turn are so invariants of
the loop, whatever its fuel. -/
theorem cleanLoop_turns (fuel : ℕ) (current stale : List α) :
    Relation.ReflTransGen CleanTurn (current, stale) (cleanLoop fuel current stale) := by
  induction fuel generalizing current stale with
  | zero => exact .refl
  | succ fuel ih =>
    rw [cleanLoop]
    -- a turn goes on only if both tops are there and agree
    split
    · next a b ha hb =>
      split
      · next hab =>
        subst hab
        exact .head ⟨a, ha, hb, rfl⟩ (ih _ _)
      · exact .refl
    · exact .refl

/-- What every turn keeps, cleaning keeps. -/
theorem clean_rule {P : List α × List α → Prop}
    (hturn : ∀ before after, CleanTurn before after → P before → P after)
    {current stale : List α} (h : P (current, stale)) : P (clean current stale) := by
  have hturns : Relation.ReflTransGen CleanTurn (current, stale) (clean current stale) :=
    cleanLoop_turns current.length current stale
  generalize clean current stale = cleaned at hturns ⊢
  induction hturns with
  | refl => exact h
  | tail _ hlast ih => exact hturn _ _ hlast ih

theorem mem_of_mem_clean {current stale : List α} {x : α} (hx : x ∈ (clean current stale).1) :
    x ∈ current := by
  refine clean_rule (P := fun heaps => x ∈ heaps.1 → x ∈ current) ?_ id hx
  rintro before _ ⟨a, -, -, rfl⟩ hbefore hx
  exact hbefore (mem_of_mem_pop hx)

/-! ### What cleaning leaves -/

theorem le_of_peek {h : List α} {x y : α} (hx : peek h = some x) (hy : y ∈ h) : y ≤ x :=
  (List.max?_le_iff hx).mp le_rfl y hy

theorem peek_eq_none {h : List α} (hnone : peek h = none) : h = [] :=
  List.max?_eq_none_iff.mp hnone

/-- How often a heap has an element. -/
def copies (h : List α) (x : α) : ℕ :=
  h.count x

theorem copies_pos {h : List α} {x : α} : 0 < copies h x ↔ x ∈ h :=
  List.count_pos_iff

theorem copies_push (h : List α) (x y : α) :
    copies (push h x) y = copies h y + if y = x then 1 else 0 := by
  rw [copies, push]
  by_cases hyx : y = x
  · rw [hyx, List.count_cons_self, if_pos rfl, copies]
  · rw [List.count_cons_of_ne (Ne.symm hyx), if_neg hyx, copies, Nat.add_zero]

/-- Popping takes one copy of the greatest element. -/
theorem copies_pop {h : List α} {x : α} (hx : peek h = some x) (y : α) :
    copies (pop h) y + (if y = x then 1 else 0) = copies h y := by
  have hmem := peek_mem hx
  rw [pop, hx, copies, copies]
  dsimp only
  by_cases hyx : y = x
  · subst hyx
    have hpos := List.count_pos_iff.mpr hmem
    rw [List.count_erase_self, if_pos rfl]
    omega
  · rw [List.count_erase_of_ne hyx, if_neg hyx]
    rfl

/-- A pop of a heap that is not empty makes it smaller, which bounds the loop. -/
theorem length_pop_lt {h : List α} {x : α} (hx : peek h = some x) : (pop h).length < h.length := by
  have hmem := peek_mem hx
  have hpos := List.length_pos_of_mem hmem
  rw [pop, hx]
  dsimp only
  rw [List.length_erase_of_mem hmem]
  omega

theorem length_clean_le (current stale : List α) :
    (clean current stale).1.length ≤ current.length := by
  refine clean_rule (P := fun heaps => heaps.1.length ≤ current.length) ?_ le_rfl
  rintro before _ ⟨a, ha, -, rfl⟩ hbefore
  exact (length_pop_lt ha).le.trans hbefore

/-- Cleaning drops the same elements from both heaps. -/
theorem copies_clean (current stale : List α) (y : α) :
    copies current y + copies (clean current stale).2 y =
      copies (clean current stale).1 y + copies stale y := by
  refine clean_rule
    (P := fun heaps => copies current y + copies heaps.2 y = copies heaps.1 y + copies stale y)
    ?_ rfl
  rintro before _ ⟨a, hcurrent, hstale, rfl⟩ hbefore
  have hcurrent' := copies_pop hcurrent y
  have hstale' := copies_pop hstale y
  dsimp only at hbefore ⊢
  omega

/-- Cleaning goes on as long as the greatest elements agree. -/
theorem peek_cleanLoop_ne {fuel : ℕ} {current stale : List α} (hfuel : current.length ≤ fuel)
    {a : α} (ha : peek (cleanLoop fuel current stale).1 = some a) :
    peek (cleanLoop fuel current stale).2 ≠ some a := by
  induction fuel generalizing current stale with
  | zero =>
    -- nothing is left to look at
    have hempty : current = [] := List.length_eq_zero_iff.mp (Nat.le_zero.mp hfuel)
    rw [cleanLoop, hempty] at ha
    cases ha
  | succ fuel ih =>
    rw [cleanLoop] at ha ⊢
    split at ha
    · next b c hb hc =>
      split at ha
      · next hbc =>
        rw [if_pos hbc]
        have hlt := length_pop_lt hb
        exact ih (by omega) ha
      · next hbc =>
        -- the tops differ, so the loop stops here
        rw [if_neg hbc, hc]
        change peek current = some a at ha
        rw [hb] at ha
        intro hca
        exact hbc ((Option.some.inj ha).trans (Option.some.inj hca).symm)
    · next hnot => exact fun hstale => hnot a a ha hstale

theorem peek_clean_ne {current stale : List α} {a : α}
    (ha : peek (clean current stale).1 = some a) : peek (clean current stale).2 ≠ some a :=
  peek_cleanLoop_ne (Nat.le_refl _) ha

/-- The loop ends: turn by turn it comes to heaps that allow no further turn. -/
theorem clean_terminates (current stale : List α) :
    Relation.ReflTransGen CleanTurn (current, stale) (clean current stale) ∧
      ∀ after, ¬ CleanTurn (clean current stale) after := by
  refine ⟨cleanLoop_turns _ current stale, ?_⟩
  rintro after ⟨a, hcurrent, hstale, -⟩
  exact peek_clean_ne hcurrent hstale

/-- Heaps with different greatest elements are clean. -/
theorem clean_of_peek_ne {current stale : List α}
    (hne : ∀ a, peek current = some a → peek stale ≠ some a) :
    clean current stale = (current, stale) := by
  unfold clean
  cases current.length with
  | zero => rfl
  | succ fuel =>
    rw [cleanLoop]
    split
    · next a b ha hb =>
      have hab : a ≠ b := by
        rintro rfl
        exact hne a ha hb
      rw [if_neg hab]
    · rfl

/-- Cleaning twice is cleaning once, since the first has removed all that was to be removed at the
top. -/
theorem clean_clean (current stale : List α) :
    clean (clean current stale).1 (clean current stale).2 = clean current stale :=
  clean_of_peek_ne fun _ ha => peek_clean_ne ha

/-! ### Lazy deletion

An element is deleted from `current` by a copy of it in `stale`. -/

/-- `current` without `stale` has the elements that `live` counts. -/
def Represents (live : α → ℕ) (current stale : List α) : Prop :=
  ∀ x, copies current x = copies stale x + live x

variable {live : α → ℕ} {current stale : List α}

/-- Cleaning removes a copy from both sides at a time, so what the two lists stand for is the
same. -/
theorem Represents.clean (h : Represents live current stale) :
    Represents live (clean current stale).1 (clean current stale).2 := by
  intro x
  have hclean := copies_clean current stale x
  have hx := h x
  omega

/-- After cleaning, the greatest element is a live one, and the greatest of these. -/
theorem Represents.peek_clean (h : Represents live current stale) {x : α}
    (hx : peek (MaxHeap.clean current stale).1 = some x) :
    0 < live x ∧ ∀ y, 0 < live y → y ≤ x := by
  have hclean := h.clean
  constructor
  · -- a deleted one would be the greatest of `stale` as well
    by_contra hdead
    have hlive : live x = 0 := Nat.eq_zero_of_not_pos hdead
    have hcount := hclean x
    rw [hlive, Nat.add_zero] at hcount
    have hmem : x ∈ (MaxHeap.clean current stale).2 := by
      rw [← copies_pos, ← hcount, copies_pos]
      exact peek_mem hx
    cases hstale : peek (MaxHeap.clean current stale).2 with
    | none =>
      rw [peek_eq_none hstale] at hmem
      exact absurd hmem List.not_mem_nil
    | some y =>
      have hy : y ∈ (MaxHeap.clean current stale).1 := by
        have hpos := copies_pos.mpr (peek_mem hstale)
        have hcount' := hclean y
        exact copies_pos.mp (by omega)
      have hxy : x = y := le_antisymm (le_of_peek hstale hmem) (le_of_peek hx hy)
      exact peek_clean_ne hx (hxy ▸ hstale)
  · intro y hy
    have hcount := hclean y
    exact le_of_peek hx (copies_pos.mp (by omega))

/-- If nothing is left, nothing is live. -/
theorem Represents.live_eq_zero (h : Represents live current stale)
    (hnone : peek (MaxHeap.clean current stale).1 = none) (y : α) : live y = 0 := by
  have hcount := h.clean y
  rw [peek_eq_none hnone, copies, List.count_nil] at hcount
  omega

end MaxHeap
