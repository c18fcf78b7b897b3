import Mathlib.Algebra.Order.BigOperators.Group.List
import Mathlib.Algebra.Order.Ring.Nat
import Mathlib.Data.List.Perm.Subperm
import Mathlib.Tactic.Common

/-!
# Streams, segments and sequence numbers

A stream is cut into segments, and a segment is numbered by the position of its first element,
counted from a start in a word of fixed width.

* `Segments.upTo` — the first segments of a cut, joined; `Segments.upTo_length_lt` says that the
  positions of non-empty segments increase;
* `seqAt` — the number of a position. Positions below the range of the word have different numbers
  (`seqAt_inj`), and the difference of two numbers tells which position is ahead
  (`toNat_seqAt_sub_of_le`, `toNat_seqAt_sub_of_lt`).
-/

/-! ### Segments -/

namespace Segments

variable {α : Type*} {segments : List (List α)} {segment : List α} {i k : ℕ}

/-- The first `k` segments, joined. -/
def upTo (segments : List (List α)) (k : ℕ) : List α :=
  (segments.take k).flatten

@[simp] theorem upTo_zero : upTo segments 0 = [] := rfl

theorem upTo_of_length_le (h : segments.length ≤ k) : upTo segments k = segments.flatten := by
  rw [upTo, List.take_of_length_le h]

theorem upTo_succ (h : segments[k]? = some segment) :
    upTo segments (k + 1) = upTo segments k ++ segment := by
  rw [upTo, List.take_add_one, h, Option.toList_some, List.flatten_append, List.flatten_singleton,
    upTo]

theorem upTo_append_drop (segments : List (List α)) (k : ℕ) :
    upTo segments k ++ (segments.drop k).flatten = segments.flatten := by
  rw [upTo, ← List.flatten_append, List.take_append_drop]

theorem upTo_length_le (segments : List (List α)) (k : ℕ) :
    (upTo segments k).length ≤ segments.flatten.length := by
  rw [← upTo_append_drop segments k, List.length_append]
  exact Nat.le_add_right _ _

/-- The positions of non-empty segments increase. -/
theorem upTo_length_lt (hsegments : ∀ segment ∈ segments, segment ≠ []) (hki : k < i)
    (hi : i ≤ segments.length) : (upTo segments k).length < (upTo segments i).length := by
  -- induction from `k + 1` up: every further segment adds at least one element
  have hstep (j : ℕ) (hj : j < segments.length) :
      (upTo segments j).length < (upTo segments (j + 1)).length := by
    have hpos := List.length_pos_of_ne_nil (hsegments _ (List.getElem_mem hj))
    rw [upTo_succ (List.getElem?_eq_getElem hj), List.length_append]
    omega
  induction i, hki using Nat.le_induction with
  | base => exact hstep k hi
  | succ j _ ih => exact (ih (Nat.le_of_succ_le hi)).trans (hstep j hi)

end Segments

/-! ### Sequence numbers -/

section SeqAt

variable {w : ℕ} {start : BitVec w} {a b : ℕ}

/-- The number of position `n`. -/
def seqAt (start : BitVec w) (n : ℕ) : BitVec w :=
  start + BitVec.ofNat w n

@[simp] theorem seqAt_zero (start : BitVec w) : seqAt start 0 = start := by
  rw [seqAt, BitVec.add_zero]

theorem seqAt_add (start : BitVec w) (a b : ℕ) :
    seqAt start a + BitVec.ofNat w b = seqAt start (a + b) := by
  rw [seqAt, seqAt, BitVec.ofNat_add, BitVec.add_assoc]

theorem zero_seqAt (n : ℕ) : seqAt (0 : BitVec w) n = BitVec.ofNat w n := by
  rw [seqAt]
  exact BitVec.zero_add _

theorem seqAt_add_toNat (start : BitVec w) (a : ℕ) (x : BitVec w) :
    seqAt start (a + x.toNat) = seqAt start a + x := by
  rw [← seqAt_add, BitVec.ofNat_toNat, BitVec.setWidth_eq]

/-- A number that is ahead, or the same. -/
theorem toNat_seqAt_sub_of_le (h : b ≤ a) (hlt : a - b < 2 ^ w) :
    (seqAt start a - seqAt start b).toNat = a - b := by
  obtain ⟨d, rfl⟩ := Nat.exists_eq_add_of_le h
  rw [← seqAt_add, BitVec.add_comm, BitVec.add_sub_cancel, BitVec.toNat_ofNat,
    Nat.add_sub_cancel_left]
  exact Nat.mod_eq_of_lt (by omega)

/-- A number that is behind looks far ahead. -/
theorem toNat_seqAt_sub_of_lt (h : a < b) (hlt : b - a < 2 ^ w) :
    (seqAt start a - seqAt start b).toNat = 2 ^ w - (b - a) := by
  -- the difference is the negation of the one that counts forward
  have hneg : seqAt start a - seqAt start b = -(seqAt start b - seqAt start a) :=
    by rw [BitVec.neg_sub, BitVec.sub_eq_add_neg, BitVec.add_comm]
  have hsub : (seqAt start b - seqAt start a).toNat = b - a := toNat_seqAt_sub_of_le h.le hlt
  rw [hneg, BitVec.toNat_neg, hsub]
  exact Nat.mod_eq_of_lt (by omega)

/-- Within one turn of the counter, a sequence number has one position. -/
theorem seqAt_inj (ha : a < 2 ^ w) (hb : b < 2 ^ w) (h : seqAt start a = seqAt start b) :
    a = b := by
  have hnat := congrArg BitVec.toNat (BitVec.add_right_inj start |>.mp h)
  rwa [BitVec.toNat_ofNat, BitVec.toNat_ofNat, Nat.mod_eq_of_lt ha, Nat.mod_eq_of_lt hb] at hnat

end SeqAt

/-! ### Counting -/

/-- Distinct elements taken from a list weigh no more than the list. -/
theorem List.Nodup.sum_map_le_of_subset {α : Type*} {l l' : List α} (hl : l.Nodup)
    (h : l ⊆ l') (f : α → ℕ) : (l.map f).sum ≤ (l'.map f).sum := by
  obtain ⟨l₁, hperm, hsub⟩ := hl.subperm h
  rw [← (hperm.map f).sum_eq]
  exact (hsub.map f).sum_le_sum fun _ _ => Nat.zero_le _
