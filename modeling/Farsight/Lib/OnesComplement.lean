import Mathlib.Data.Nat.ModEq
import Mathlib.Algebra.BigOperators.Group.List.Basic
import Mathlib.Tactic.Common

/-!
# One's complement sums

The checksum of the internet protocols adds 16-bit words with end-around carry. Such a sum is a
residue modulo `65535` with two representations of zero, and it is `0` only if all words are.

* `OnesComplement.add`, `OnesComplement.sum` — addition with end-around carry;
* `OnesComplement.words` — the big-endian words of a string of bytes, the last one padded;
* `OnesComplement.sum_eq_max_iff` — the sum is `0xFFFF` if and only if the exact sum is a positive
  multiple of `65535`;
* `OnesComplement.Same` — equal up to the two representations of zero.
-/

namespace OnesComplement

/-- Addition with end-around carry. -/
def add (a b : ℕ) : ℕ :=
  if a + b < 65536 then a + b else a + b - 65535

/-- The sum of a list of words. -/
def sum (words : List ℕ) : ℕ :=
  words.foldr add 0

/-- The words of a string of bytes. -/
def words : List UInt8 → List ℕ
  | a :: b :: rest => (a.toNat * 256 + b.toNat) :: words rest
  | [a] => [a.toNat * 256]
  | [] => []

theorem add_modEq (a b : ℕ) : add a b ≡ a + b [MOD 65535] := by
  unfold add
  split
  · rfl
  · next h => exact (Nat.modEq_iff_dvd' (Nat.sub_le _ _)).mpr ⟨1, by omega⟩

theorem add_eq_zero_iff {a b : ℕ} : add a b = 0 ↔ a + b = 0 := by
  unfold add
  split
  · rfl
  · omega

theorem sum_modEq (ws : List ℕ) : sum ws ≡ ws.sum [MOD 65535] := by
  induction ws with
  | nil => rfl
  | cons w ws ih => exact (add_modEq w (sum ws)).trans (ih.add_left w)

theorem sum_eq_zero_iff (ws : List ℕ) : sum ws = 0 ↔ ws.sum = 0 := by
  induction ws with
  | nil => rfl
  | cons w ws ih =>
    change add w (sum ws) = 0 ↔ _
    rw [add_eq_zero_iff, List.sum_cons, Nat.add_eq_zero_iff, Nat.add_eq_zero_iff, ih]

theorem sum_le {ws : List ℕ} (h : ∀ w ∈ ws, w ≤ 65535) : sum ws ≤ 65535 := by
  induction ws with
  | nil => exact Nat.zero_le _
  | cons w ws ih =>
    have hw := h w List.mem_cons_self
    have hws := ih fun w' hw' => h w' (List.mem_cons_of_mem _ hw')
    change add w (sum ws) ≤ 65535
    unfold add
    split <;> omega

/-- A sum of words is all ones exactly if it is one of the two zeros, and not the one of nothing but
zeros. -/
theorem sum_eq_max_iff {ws : List ℕ} (h : ∀ w ∈ ws, w ≤ 65535) :
    sum ws = 65535 ↔ 65535 ∣ ws.sum ∧ ws.sum ≠ 0 := by
  have hle := sum_le h
  have hmod : sum ws % 65535 = ws.sum % 65535 := sum_modEq ws
  have hzero := sum_eq_zero_iff ws
  rw [Nat.dvd_iff_mod_eq_zero]
  omega

theorem words_le (bytes : List UInt8) : ∀ w ∈ words bytes, w ≤ 65535 := by
  fun_induction words bytes with
  | case1 a b rest ih =>
    have ha := a.toNat_lt
    have hb := b.toNat_lt
    intro w hw
    rcases List.mem_cons.mp hw with rfl | hw
    · omega
    · exact ih w hw
  | case2 a =>
    have ha := a.toNat_lt
    intro w hw
    rw [List.mem_singleton.mp hw]
    omega
  | case3 => exact fun w hw => absurd hw List.not_mem_nil

/-- Strings of even length are added word by word. -/
theorem words_append {bytes bytes' : List UInt8} (h : 2 ∣ bytes.length) :
    words (bytes ++ bytes') = words bytes ++ words bytes' := by
  fun_induction words bytes with
  | case1 a b rest ih =>
    have heven : 2 ∣ rest.length := by
      rw [List.length_cons, List.length_cons] at h
      omega
    rw [List.cons_append, List.cons_append, words, ih heven]
    rfl
  | case2 a => exact absurd h (by rw [List.length_singleton]; decide)
  | case3 => rfl

/-- Equal, or both a representation of zero. -/
def Same (a b : ℕ) : Prop :=
  a = b ∨ (a % 65535 = 0 ∧ b % 65535 = 0)

instance (a b : ℕ) : Decidable (Same a b) :=
  inferInstanceAs (Decidable (_ ∨ _))

/-- Words are the same exactly if they have the same residue. -/
theorem same_iff {a b : ℕ} (ha : a ≤ 65535) (hb : b ≤ 65535) :
    Same a b ↔ a ≡ b [MOD 65535] := by
  change _ ∨ _ ↔ a % 65535 = b % 65535
  omega

end OnesComplement
