import Mathlib.Tactic.Common

/-!
# Queues of deadlines

Entries of a queue say until when a key is to live. A pass over the queue drops the entries of keys
that are dead already, lets the key of a due entry die, and stops at an entry that is not due while
its key is alive. A key may have several entries, in any order.

* `Deadlines.Expires` — the queue holds a due entry of a key that the pass gets to;
* `Deadlines.Shielded` — the pass stops before any due entry of a key;
* `Deadlines.expires_cons` — one step of a pass;
* `Deadlines.expires_iff_not_shielded` — of a key with a due entry, one or the other is true.
-/

namespace Deadlines

variable {κ : Type*} {now deadline : ℕ} {alive : κ → Prop} {key other : κ}
variable {queue before rest : List (ℕ × κ)}

/-- The pass gets past the entries: the key of an entry that is not due is dead, or dies of an
earlier one. -/
def Passes (now : ℕ) (alive : κ → Prop) (before : List (ℕ × κ)) : Prop :=
  ∀ first deadline key last, before = first ++ (deadline, key) :: last → now < deadline →
    alive key → ∃ earlier ≤ now, (earlier, key) ∈ first

/-- There is a due entry of the key, and the pass gets to it. -/
def Expires (now : ℕ) (alive : κ → Prop) (queue : List (ℕ × κ)) (key : κ) : Prop :=
  ∃ before deadline after, queue = before ++ (deadline, key) :: after ∧ deadline ≤ now ∧
    Passes now alive before

/-- The pass stops at an entry with a later deadline, and no due entry of the key stands before
that. -/
def Shielded (now : ℕ) (alive : κ → Prop) (queue : List (ℕ × κ)) (key : κ) : Prop :=
  ∃ before deadline other after, queue = before ++ (deadline, other) :: after ∧ now < deadline ∧
    alive other ∧ ∀ earlier ≤ now, (earlier, other) ∉ before ∧ (earlier, key) ∉ before

/-- The keys that are left alive by an entry. -/
def after (now : ℕ) (alive : κ → Prop) (deadline : ℕ) (key : κ) : κ → Prop :=
  fun other => alive other ∧ ¬ (deadline ≤ now ∧ other = key)

theorem passes_cons :
    Passes now alive ((deadline, key) :: before) ↔
      ¬ (now < deadline ∧ alive key) ∧ Passes now (after now alive deadline key) before := by
  constructor
  · intro h
    refine ⟨fun ⟨hlt, halive⟩ => ?_, fun first deadline' other last hbefore hlt halive => ?_⟩
    · obtain ⟨_, -, hmem⟩ := h [] deadline key before rfl hlt halive
      exact List.not_mem_nil hmem
    · obtain ⟨earlier, hearlier, hmem⟩ := h ((deadline, key) :: first) deadline' other last
        (by rw [hbefore, List.cons_append]) hlt halive.1
      -- what lets `other` die stands in the rest: the head leaves it alive
      rcases List.mem_cons.mp hmem with heq | hmem
      · cases heq
        exact absurd ⟨hearlier, rfl⟩ halive.2
      · exact ⟨earlier, hearlier, hmem⟩
  · rintro ⟨hhead, htail⟩ first deadline' other last hbefore hlt halive
    cases first with
    | nil =>
      cases hbefore
      exact absurd ⟨hlt, halive⟩ hhead
    | cons entry first =>
      cases hbefore
      -- either the head lets `other` die, or the rest has to
      by_cases hother : deadline ≤ now ∧ other = key
      · exact ⟨deadline, hother.1, hother.2 ▸ List.mem_cons_self⟩
      · obtain ⟨earlier, hearlier, hmem⟩ := htail first deadline' other last rfl hlt
          ⟨halive, hother⟩
        exact ⟨earlier, hearlier, List.mem_cons_of_mem _ hmem⟩

theorem not_expires_nil : ¬ Expires now alive [] key := by
  rintro ⟨before, deadline, last, hqueue, -⟩
  exact List.append_ne_nil_of_right_ne_nil before (List.cons_ne_nil _ _) hqueue.symm

/-- One step of a pass. -/
theorem expires_cons :
    Expires now alive ((deadline, other) :: rest) key ↔
      (deadline ≤ now ∧ other = key) ∨
      (¬ (now < deadline ∧ alive other) ∧
        Expires now (after now alive deadline other) rest key) := by
  constructor
  · rintro ⟨before, deadline', last, hqueue, hdue, hpasses⟩
    cases before with
    | nil =>
      cases hqueue
      exact .inl ⟨hdue, rfl⟩
    | cons entry before =>
      cases hqueue
      obtain ⟨hhead, hpasses⟩ := passes_cons.mp hpasses
      exact .inr ⟨hhead, before, deadline', last, rfl, hdue, hpasses⟩
  · rintro (⟨hdue, rfl⟩ | ⟨hhead, before, deadline', last, rfl, hdue, hpasses⟩)
    · exact ⟨[], deadline, rest, rfl, hdue, fun first _ _ _ hnil => by cases first <;> cases hnil⟩
    · exact ⟨(deadline, other) :: before, deadline', last, rfl, hdue,
        passes_cons.mpr ⟨hhead, hpasses⟩⟩

/-- One step of a pass, for a key whose due entries are still to come. -/
theorem shielded_cons (hnot : ¬ (deadline ≤ now ∧ other = key)) :
    Shielded now alive ((deadline, other) :: rest) key ↔
      (now < deadline ∧ alive other) ∨
      Shielded now (after now alive deadline other) rest key := by
  constructor
  · rintro ⟨before, deadline', other', last, hqueue, hlt, halive, hbefore⟩
    cases before with
    | nil =>
      cases hqueue
      exact .inl ⟨hlt, halive⟩
    | cons entry before =>
      cases hqueue
      -- no due entry of `other'` stands before it, so the head leaves it alive
      refine .inr ⟨before, deadline', other', last, rfl, hlt, ⟨halive, ?_⟩, ?_⟩
      · rintro ⟨hdue, rfl⟩
        exact (hbefore deadline hdue).1 List.mem_cons_self
      · intro earlier hearlier
        obtain ⟨hother, hkey⟩ := hbefore earlier hearlier
        exact ⟨fun h => hother (List.mem_cons_of_mem _ h), fun h => hkey (List.mem_cons_of_mem _ h)⟩
  · rintro (⟨hlt, halive⟩ | ⟨before, deadline', other', last, rfl, hlt, halive, hbefore⟩)
    · exact ⟨[], deadline, other, rest, rfl, hlt, halive, fun _ _ =>
        ⟨List.not_mem_nil, List.not_mem_nil⟩⟩
    · refine ⟨(deadline, other) :: before, deadline', other', last, rfl, hlt, halive.1, ?_⟩
      -- a due entry at the head is neither of `other'` nor of `key`
      intro earlier hearlier
      obtain ⟨hother, hkey⟩ := hbefore earlier hearlier
      constructor
      · intro hmem
        rcases List.mem_cons.mp hmem with heq | hmem
        · cases heq
          exact halive.2 ⟨hearlier, rfl⟩
        · exact hother hmem
      · intro hmem
        rcases List.mem_cons.mp hmem with heq | hmem
        · cases heq
          exact hnot ⟨hearlier, rfl⟩
        · exact hkey hmem

/-- A key whose own due entry comes first is not shielded. -/
theorem not_shielded_cons (hdue : deadline ≤ now) :
    ¬ Shielded now alive ((deadline, key) :: rest) key := by
  rintro ⟨before, deadline', other, last, hqueue, hlt, -, hbefore⟩
  cases before with
  | nil =>
    cases hqueue
    omega
  | cons entry before =>
    cases hqueue
    exact (hbefore deadline hdue).2 List.mem_cons_self

/-- A key with a due entry expires in a pass, or it is shielded. -/
theorem expires_iff_not_shielded (hdue : ∃ deadline ≤ now, (deadline, key) ∈ queue) :
    Expires now alive queue key ↔ ¬ Shielded now alive queue key := by
  induction queue generalizing alive with
  | nil =>
    obtain ⟨_, -, hmem⟩ := hdue
    exact absurd hmem List.not_mem_nil
  | cons entry rest ih =>
    obtain ⟨deadline, other⟩ := entry
    by_cases hown : deadline ≤ now ∧ other = key
    · obtain ⟨hle, rfl⟩ := hown
      exact iff_of_true (expires_cons.mpr (.inl ⟨hle, rfl⟩)) (not_shielded_cons hle)
    · -- the due entry is still to come
      have hrest : ∃ deadline ≤ now, (deadline, key) ∈ rest := by
        obtain ⟨deadline', hle, hmem⟩ := hdue
        rcases List.mem_cons.mp hmem with heq | hmem
        · cases heq
          exact absurd ⟨hle, rfl⟩ hown
        · exact ⟨deadline', hle, hmem⟩
      -- neither side ends here: past the head both are about the rest
      rw [expires_cons, shielded_cons hown, ih hrest, not_or]
      exact ⟨fun h => h.resolve_left hown, .inr⟩

end Deadlines
