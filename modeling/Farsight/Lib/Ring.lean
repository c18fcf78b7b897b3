import Farsight.Lib.Machine
import Mathlib.Data.List.Range
import Mathlib.Logic.Function.Basic

/-!
# Ring buffers

A ring of `cap` slots keeps the value of index `i` in slot `i % cap`. The lemmas here are about `n ≤
cap` consecutive indices, whose slots (`Ring.slots`) are distinct and form one segment or two, and
about copying such runs of slots segment by segment.

* `slots_of_le`, `slots_of_lt` — one segment, or two when the run wraps around;
* `nodup_slots` — at most `cap` consecutive indices do not collide;
* `zip_segments_of_le`, `zip_segments_of_lt` — a copy between two runs that wrap at different
  places, as three segment copies;
* `copyAll_zip_eq_ok`, `copy_zip`, `copy_of_not_mem` — when a copy stays inside its buffers, and
  what it leaves in memory;
* `window`, `Holds` — a queue whose entries are counted from its start and kept in a ring:
  `Holds.write`, `Holds.append`, `Holds.window` say how it is filled and read.
-/

namespace Ring

open Machine

/-! ### Slots of consecutive indices -/

/-- The slots of the `n` indices from `a` on. -/
def slots (cap a n : ℕ) : List ℕ :=
  (List.range n).map fun j => (a + j) % cap

@[simp] theorem length_slots (cap a n : ℕ) : (slots cap a n).length = n := by
  simp [slots]

theorem getElem_slots {cap a n j : ℕ} (hj : j < (slots cap a n).length) :
    (slots cap a n)[j] = (a + j) % cap := by
  simp [slots]

theorem slots_append (cap a m n : ℕ) :
    slots cap a (m + n) = slots cap a m ++ slots cap (a + m) n := by
  unfold slots
  rw [List.range_add, List.map_append, List.map_map]
  simp [Function.comp_def, Nat.add_assoc]

/-- Slots depend on the first index modulo `cap` only. -/
theorem slots_congr {cap a b : ℕ} (n : ℕ) (h : a % cap = b % cap) :
    slots cap a n = slots cap b n := by
  refine List.map_congr_left fun j _ => ?_
  rw [← Nat.mod_add_mod, h, Nat.mod_add_mod]

theorem lt_of_mem_slots {cap a n i : ℕ} (hcap : 0 < cap) (hi : i ∈ slots cap a n) : i < cap := by
  obtain ⟨j, -, rfl⟩ := List.mem_map.mp hi
  exact Nat.mod_lt _ hcap

/-- Two indices less than `cap` apart do not share a slot. -/
theorem mod_ne {cap i j : ℕ} (hij : i < j) (hj : j < i + cap) : i % cap ≠ j % cap := by
  intro heq
  -- a common slot makes `cap` divide the distance
  have hdvd : cap ∣ j - i := (Nat.modEq_iff_dvd' (Nat.le_of_lt hij)).mp heq
  have := Nat.le_of_dvd (by omega) hdvd
  omega

/-- At most `cap` consecutive indices have distinct slots. -/
theorem nodup_slots {cap a n : ℕ} (hn : n ≤ cap) : (slots cap a n).Nodup := by
  refine List.Nodup.map_on ?_ List.nodup_range
  intro i hi j hj heq
  rw [List.mem_range] at hi hj
  rcases Nat.lt_trichotomy i j with h | h | h
  · exact absurd heq (mod_ne (by omega) (by omega))
  · exact h
  · exact absurd heq.symm (mod_ne (by omega) (by omega))

private theorem mod_add_lt {cap a j : ℕ} (h : a % cap + j < cap) :
    (a + j) % cap = a % cap + j := by
  rw [Nat.add_mod, Nat.mod_eq_of_lt (show j < cap by omega), Nat.mod_eq_of_lt h]

/-- A run that does not reach the end of the ring is one segment. -/
theorem slots_of_le {cap a n : ℕ} (h : a % cap + n ≤ cap) :
    slots cap a n = List.range' (a % cap) n := by
  rw [List.range'_eq_map_range]
  refine List.map_congr_left fun j hj => ?_
  rw [List.mem_range] at hj
  exact mod_add_lt (by omega)

/-- A run that passes the end of the ring continues at slot `0`. -/
theorem slots_of_lt {cap a n : ℕ} (hcap : 0 < cap) (hn : n ≤ cap) (h : cap < a % cap + n) :
    slots cap a n
      = List.range' (a % cap) (cap - a % cap) ++ List.range' 0 (n - (cap - a % cap)) := by
  have hlt : a % cap < cap := Nat.mod_lt _ hcap
  have hsplit : n = (cap - a % cap) + (n - (cap - a % cap)) := by omega
  -- where the first segment ends, the ring starts again
  have hzero : (a + (cap - a % cap)) % cap = 0 := by
    rw [← Nat.mod_add_mod, Nat.add_sub_cancel' (Nat.le_of_lt hlt), Nat.mod_self]
  have hfirst : slots cap a (cap - a % cap) = List.range' (a % cap) (cap - a % cap) :=
    slots_of_le (by omega)
  have hrest : slots cap (a + (cap - a % cap)) (n - (cap - a % cap))
      = List.range' 0 (n - (cap - a % cap)) := by
    rw [slots_of_le (by rw [hzero]; omega), hzero]
  rw [← hfirst, ← hrest, ← slots_append, ← hsplit]

/-! ### Segment copies -/

/-- The slot moves `(from, to)` of a copy of `count` slots. -/
def segment (src dst count : ℕ) : List (ℕ × ℕ) :=
  (List.range' src count).zip (List.range' dst count)

/-- A source of two segments and a target of one. -/
theorem zip_segments_left {l₁ l₂ l₃ : ℕ} (s₁ s₂ s₃ : ℕ) (hsum : l₁ + l₂ = l₃) :
    (List.range' s₁ l₁ ++ List.range' s₂ l₂).zip (List.range' s₃ l₃)
      = segment s₁ s₃ l₁ ++ segment s₂ (s₃ + l₁) l₂ := by
  rw [← hsum, ← List.range'_append_1, List.zip_append (by simp)]
  rfl

/-- A source of one segment and a target of two. -/
theorem zip_segments_right {l₁ l₃ l₄ : ℕ} (s₁ s₃ s₄ : ℕ) (hsum : l₁ = l₃ + l₄) :
    (List.range' s₁ l₁).zip (List.range' s₃ l₃ ++ List.range' s₄ l₄)
      = segment s₁ s₃ l₃ ++ segment (s₁ + l₃) s₄ l₄ := by
  rw [hsum, ← List.range'_append_1, List.zip_append (by simp)]
  rfl

/-- The source wraps before the target. -/
theorem zip_segments_of_le {l₁ l₂ l₃ l₄ : ℕ} (s₁ s₂ s₃ s₄ : ℕ) (hsum : l₁ + l₂ = l₃ + l₄)
    (hle : l₁ ≤ l₃) :
    (List.range' s₁ l₁ ++ List.range' s₂ l₂).zip (List.range' s₃ l₃ ++ List.range' s₄ l₄)
      = segment s₁ s₃ l₁ ++ segment s₂ (s₃ + l₁) (l₃ - l₁)
        ++ segment (s₂ + (l₃ - l₁)) s₄ (l₂ - (l₃ - l₁)) := by
  -- `rem` slots of the second source segment fit before the target wraps
  obtain ⟨rem, rfl⟩ := Nat.exists_eq_add_of_le hle
  obtain rfl : l₂ = rem + l₄ := by omega
  rw [Nat.add_sub_cancel_left, Nat.add_sub_cancel_left, ← List.range'_append_1 (s := s₃),
    List.append_assoc, List.zip_append (by simp), zip_segments_right _ _ _ rfl, List.append_assoc]
  rfl

/-- The target wraps before the source. -/
theorem zip_segments_of_lt {l₁ l₂ l₃ l₄ : ℕ} (s₁ s₂ s₃ s₄ : ℕ) (hsum : l₁ + l₂ = l₃ + l₄)
    (hlt : l₃ < l₁) :
    (List.range' s₁ l₁ ++ List.range' s₂ l₂).zip (List.range' s₃ l₃ ++ List.range' s₄ l₄)
      = segment s₁ s₃ l₃ ++ segment (s₁ + l₃) s₄ (l₁ - l₃)
        ++ segment s₂ (s₄ + (l₁ - l₃)) l₂ := by
  -- `rem` slots of the first source segment are left when the target wraps
  obtain ⟨rem, rfl⟩ := Nat.exists_eq_add_of_le (Nat.le_of_lt hlt)
  obtain rfl : l₄ = rem + l₂ := by omega
  rw [Nat.add_sub_cancel_left, ← List.range'_append_1 (s := s₁), List.append_assoc,
    List.zip_append (by simp), zip_segments_left _ _ _ rfl, List.append_assoc]
  rfl

/-! ### Memory after a copy -/

variable {α : Type*}

/-- Carry out the slot moves one after the other. -/
def copy (src : ℕ → α) (dst : ℕ → α) (moves : List (ℕ × ℕ)) : ℕ → α :=
  moves.foldl (fun dst move => Function.update dst move.2 (src move.1)) dst

/-- Carry out the slot moves between two allocations, checking each access. -/
def copyAll (srcLen : ℕ) (src : ℕ → α) (dstLen : ℕ) (dst : ℕ → α) (moves : List (ℕ × ℕ)) :
    Except Fault (ℕ → α) :=
  moves.foldlM (fun dst move =>
    if move.1 < srcLen ∧ move.2 < dstLen then
      .ok (Function.update dst move.2 (src move.1))
    else
      .error .outOfBounds) dst

/-- Moves inside both allocations do not fail. -/
theorem copyAll_eq_ok {srcLen dstLen : ℕ} {src : ℕ → α} (dst : ℕ → α) {moves : List (ℕ × ℕ)}
    (h : ∀ move ∈ moves, move.1 < srcLen ∧ move.2 < dstLen) :
    copyAll srcLen src dstLen dst moves = .ok (copy src dst moves) := by
  induction moves generalizing dst with
  | nil => rfl
  | cons move moves ih =>
    have hrest := ih (Function.update dst move.2 (src move.1))
      fun m hm => h m (List.mem_cons_of_mem move hm)
    unfold copyAll at hrest ⊢
    rw [List.foldlM_cons, if_pos (h move List.mem_cons_self)]
    exact hrest

/-- A copy between lists of slots inside both allocations does not fail. -/
theorem copyAll_zip_eq_ok {srcLen dstLen : ℕ} {src : ℕ → α} (dst : ℕ → α) {xs ys : List ℕ}
    (hxs : ∀ i ∈ xs, i < srcLen) (hys : ∀ j ∈ ys, j < dstLen) :
    copyAll srcLen src dstLen dst (xs.zip ys) = .ok (copy src dst (xs.zip ys)) := by
  refine copyAll_eq_ok dst fun move hmove => ?_
  have hmem := List.of_mem_zip hmove
  exact ⟨hxs _ hmem.1, hys _ hmem.2⟩

/-- A copy that succeeds has made its first move inside both allocations. -/
theorem copyAll_cons_eq_ok {srcLen dstLen : ℕ} {src dst slots : ℕ → α} {move : ℕ × ℕ}
    {moves : List (ℕ × ℕ)} (h : copyAll srcLen src dstLen dst (move :: moves) = .ok slots) :
    (move.1 < srcLen ∧ move.2 < dstLen) ∧
      copyAll srcLen src dstLen (Function.update dst move.2 (src move.1)) moves = .ok slots := by
  unfold copyAll at h ⊢
  rw [List.foldlM_cons] at h
  split at h
  · next hinside => exact ⟨hinside, h⟩
  · cases h

/-- A copy that fails has left an allocation. -/
theorem copyAll_error {srcLen dstLen : ℕ} {src dst : ℕ → α} {moves : List (ℕ × ℕ)} {e : Fault}
    (h : copyAll srcLen src dstLen dst moves = .error e) : e = .outOfBounds := by
  induction moves generalizing dst with
  | nil => cases h
  | cons move moves ih =>
    unfold copyAll at h ih
    rw [List.foldlM_cons] at h
    split at h
    · exact ih h
    · cases h
      rfl

theorem copy_of_not_mem (src dst : ℕ → α) {moves : List (ℕ × ℕ)} {i : ℕ}
    (hi : i ∉ moves.map Prod.snd) : copy src dst moves i = dst i := by
  induction moves generalizing dst with
  | nil => rfl
  | cons move moves ih =>
    rw [List.map_cons, List.mem_cons, not_or] at hi
    -- this move writes another slot, and so do the later ones
    have hrest := ih (Function.update dst move.2 (src move.1)) hi.2
    rw [Function.update_of_ne hi.1] at hrest
    exact hrest

/-- A destination gets its source. They have to be distinct, for a later move would overwrite it. -/
theorem copy_of_mem (src dst : ℕ → α) {moves : List (ℕ × ℕ)} (hnodup : (moves.map Prod.snd).Nodup)
    {i j : ℕ} (hij : (i, j) ∈ moves) : copy src dst moves j = src i := by
  induction moves generalizing dst with
  | nil => cases hij
  | cons move moves ih =>
    rw [List.map_cons, List.nodup_cons] at hnodup
    rcases List.mem_cons.mp hij with rfl | hmem
    · -- written now, and by no later move
      have hlast := copy_of_not_mem src (Function.update dst j (src i)) hnodup.1
      rw [Function.update_self] at hlast
      exact hlast
    · exact ih _ hnodup.2 hmem

/-- A copy of `n` slots to distinct slots: the `j`-th target has the value of the `j`-th source. -/
theorem copy_zip (src dst : ℕ → α) {xs ys : List ℕ} (hlen : xs.length = ys.length)
    (hnodup : ys.Nodup) {j : ℕ} (hj : j < ys.length) :
    copy src dst (xs.zip ys) ys[j] = src xs[j] := by
  refine copy_of_mem src dst ?_ ?_
  · rwa [List.map_snd_zip (by omega)]
  · rw [← List.getElem_zip (h := by rw [List.length_zip]; omega)]
    exact List.getElem_mem _

/-! ### Queues in a ring

The entries of a queue are numbered from its start. Entry `j` is in the slot of index `base + j`,
from the time it is entered until it is given up. -/

/-- The contents of the slots of `n` indices from `a` on. -/
def window (mem : ℕ → α) (cap a n : ℕ) : List α :=
  (slots cap a n).map mem

@[simp] theorem length_window (mem : ℕ → α) (cap a n : ℕ) : (window mem cap a n).length = n := by
  rw [window, List.length_map, length_slots]

theorem getElem_window (mem : ℕ → α) (cap a n : ℕ) {j : ℕ} (hj : j < (window mem cap a n).length) :
    (window mem cap a n)[j] = mem ((a + j) % cap) := by
  simp only [window, List.getElem_map, getElem_slots]

/-- The entries from `first` on are in their slots. -/
def Holds (mem : ℕ → α) (cap base first : ℕ) (entries : List α) : Prop :=
  ∀ j, first ≤ j → ∀ hj : j < entries.length, mem ((base + j) % cap) = entries[j]

variable {mem : ℕ → α} {cap base first : ℕ} {entries : List α}

/-- The slots as they are hold what is read from them. -/
theorem holds_window (mem : ℕ → α) (cap base n : ℕ) :
    Holds mem cap base 0 (window mem cap base n) := by
  intro j _ hj
  rw [getElem_window]

/-- Entries are given up. -/
theorem Holds.mono (h : Holds mem cap base first entries) {first' : ℕ} (hle : first ≤ first') :
    Holds mem cap base first' entries :=
  fun j hj => h j (hle.trans hj)

/-- A slot beyond the entries and less than a ring ahead of the first is written. -/
theorem Holds.write (h : Holds mem cap base first entries) {pos : ℕ} (hpos : entries.length ≤ pos)
    (hlt : pos < first + cap) (x : α) :
    Holds (Function.update mem ((base + pos) % cap) x) cap base first entries := by
  intro j hj hlen
  have hne : (base + j) % cap ≠ (base + pos) % cap := mod_ne (by omega) (by omega)
  rw [Function.update_of_ne hne]
  exact h j hj hlen

/-- The slots after the last entry become entries. -/
theorem Holds.append (h : Holds mem cap base first entries) (n : ℕ) :
    Holds mem cap base first (entries ++ window mem cap (base + entries.length) n) := by
  intro j hj hlen
  by_cases hold : j < entries.length
  · rw [List.getElem_append_left hold]
    exact h j hj hold
  · rw [List.getElem_append_right (Nat.le_of_not_lt hold), getElem_window, Nat.add_assoc,
      Nat.add_sub_cancel' (Nat.le_of_not_lt hold)]

/-- An entry is put into the slot after the last. -/
theorem Holds.push (h : Holds mem cap base first entries) (hlt : entries.length < first + cap)
    (x : α) :
    Holds (Function.update mem ((base + entries.length) % cap) x) cap base first
      (entries ++ [x]) := by
  have happend := (h.write (Nat.le_refl _) hlt x).append 1
  have hwindow : window (Function.update mem ((base + entries.length) % cap) x) cap
      (base + entries.length) 1 = [x] := by
    simp [window, slots]
  rwa [hwindow] at happend

/-- Reading the slots gives the entries. -/
theorem Holds.window (h : Holds mem cap base first entries) {a n : ℕ} (ha : first ≤ a)
    (hn : a + n ≤ entries.length) : window mem cap (base + a) n = (entries.drop a).take n := by
  apply List.ext_getElem
  · rw [length_window, List.length_take, List.length_drop]
    omega
  · intro j hj hj'
    rw [length_window] at hj
    rw [getElem_window, List.getElem_take, List.getElem_drop, Nat.add_assoc]
    exact h (a + j) (by omega) (by omega)

end Ring
