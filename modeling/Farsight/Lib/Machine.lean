import Mathlib.Data.BitVec
import Mathlib.Order.Basic
import Mathlib.Tactic.Common

/-!
# Checked machine arithmetic

A computation over machine integers can stop for three reasons: an operation leaves the range of its
type, a copy leaves its buffer, or the program gives up on purpose. `Fault` names the three, and the
checked operations below return `Fault.overflow` instead of wrapping, so that "no operation
overflows" is the statement that a computation returns `.ok`.

* `addNat w`, `subNat` — the operations of an unsigned type of `w` bits, on the natural numbers it
  represents;
* `addBits`, `subBits`, `mulBits` — the same on `BitVec w`;
* `saturatingMul` — a product that stops at the largest word.

Each has one lemma that says when it returns and what. Words are linearly ordered by the numbers
they represent.
-/

namespace Machine

/-- Why a computation stops without a value. -/
inductive Fault where
  /-- An addition, subtraction or conversion left the range of its type. -/
  | overflow
  /-- A memory access left the buffer it was meant for, or read an uninitialised slot. -/
  | outOfBounds
  /-- The program panicked on purpose. -/
  | panic
  deriving DecidableEq, Repr

variable {w : ℕ}

/-- The unsigned order of words. -/
instance linearOrderBitVec : LinearOrder (BitVec w) where
  le := (· ≤ ·)
  lt := (· < ·)
  le_refl := BitVec.le_refl
  le_trans _ _ _ := BitVec.le_trans
  le_antisymm _ _ := BitVec.le_antisymm
  le_total := BitVec.le_total
  lt_iff_le_not_ge a b := by
    simp only [BitVec.lt_def, BitVec.le_def]
    omega
  toDecidableLE := inferInstance
  toDecidableLT := inferInstance
  toDecidableEq := inferInstance

/-- Addition of an unsigned type of `w` bits. -/
def addNat (w a b : ℕ) : Except Fault ℕ :=
  if a + b < 2 ^ w then .ok (a + b) else .error .overflow

/-- Subtraction of an unsigned type. -/
def subNat (a b : ℕ) : Except Fault ℕ :=
  if b ≤ a then .ok (a - b) else .error .overflow

/-- Addition on `w`-bit words. -/
def addBits (a b : BitVec w) : Except Fault (BitVec w) :=
  if a.toNat + b.toNat < 2 ^ w then .ok (a + b) else .error .overflow

/-- Subtraction on `w`-bit words. -/
def subBits (a b : BitVec w) : Except Fault (BitVec w) :=
  if b.toNat ≤ a.toNat then .ok (a - b) else .error .overflow

/-- Multiplication on `w`-bit words. -/
def mulBits (a b : BitVec w) : Except Fault (BitVec w) :=
  if a.toNat * b.toNat < 2 ^ w then .ok (a * b) else .error .overflow

/-- `saturating_mul` on `w`-bit words. -/
def saturatingMul (a b : BitVec w) : BitVec w :=
  if a.toNat * b.toNat < 2 ^ w then a * b else .allOnes w

theorem addNat_of_lt {a b : ℕ} (h : a + b < 2 ^ w) : addNat w a b = .ok (a + b) :=
  if_pos h

theorem subNat_of_le {a b : ℕ} (h : b ≤ a) : subNat a b = .ok (a - b) :=
  if_pos h

theorem addNat_eq_ok {a b c : ℕ} (h : addNat w a b = .ok c) : c = a + b ∧ a + b < 2 ^ w := by
  unfold addNat at h
  split at h
  · next hlt => exact ⟨(Except.ok.inj h).symm, hlt⟩
  · cases h

theorem subNat_eq_ok {a b c : ℕ} (h : subNat a b = .ok c) : c = a - b ∧ b ≤ a := by
  unfold subNat at h
  split at h
  · next hle => exact ⟨(Except.ok.inj h).symm, hle⟩
  · cases h

/-- A sequence of two computations returns only if both return. -/
theorem exists_of_bind_eq_ok {α β : Type} {x : Except Fault α} {f : α → Except Fault β} {b : β}
    (h : x >>= f = .ok b) : ∃ a, x = .ok a ∧ f a = .ok b := by
  cases x with
  | error e => cases h
  | ok a => exact ⟨a, rfl, h⟩

/-- A checked addition that returns, returns the exact sum. -/
theorem addBits_eq_ok {a b c : BitVec w} (h : addBits a b = .ok c) :
    c.toNat = a.toNat + b.toNat := by
  unfold addBits at h
  split at h
  · next hlt =>
    obtain rfl := Except.ok.inj h
    rw [BitVec.toNat_add, Nat.mod_eq_of_lt hlt]
  · cases h

/-- A checked addition that stays in range does not fail. -/
theorem addBits_ne_error {a b : BitVec w} {e : Fault} (h : a.toNat + b.toNat < 2 ^ w) :
    addBits a b ≠ .error e := by
  rw [addBits, if_pos h]
  exact fun h => by cases h

/-- A checked subtraction that returns, returns the exact difference. -/
theorem subBits_eq_ok {a b c : BitVec w} (h : subBits a b = .ok c) :
    c.toNat + b.toNat = a.toNat := by
  unfold subBits at h
  split at h
  · next hle =>
    obtain rfl := Except.ok.inj h
    rw [BitVec.toNat_sub_of_le hle]
    exact Nat.sub_add_cancel hle
  · cases h

/-- A checked subtraction that stays in range does not fail. -/
theorem subBits_ne_error {a b : BitVec w} {e : Fault} (h : b.toNat ≤ a.toNat) :
    subBits a b ≠ .error e := by
  rw [subBits, if_pos h]
  exact fun h => by cases h

/-- A checked sum returns exactly if it stays in range. -/
theorem exists_addBits_eq_ok {a b : BitVec w} :
    (∃ c, addBits a b = .ok c) ↔ a.toNat + b.toNat < 2 ^ w := by
  unfold addBits
  split
  · next hlt => exact iff_of_true ⟨_, rfl⟩ hlt
  · next hle => exact iff_of_false (by rintro ⟨c, ⟨⟩⟩) hle

/-- A checked product returns exactly if it stays in range. -/
theorem exists_mulBits_eq_ok {a b : BitVec w} :
    (∃ c, mulBits a b = .ok c) ↔ a.toNat * b.toNat < 2 ^ w := by
  unfold mulBits
  split
  · next hlt => exact iff_of_true ⟨_, rfl⟩ hlt
  · next hle => exact iff_of_false (by rintro ⟨c, ⟨⟩⟩) hle

/-- A checked product that returns, returns the exact product. -/
theorem mulBits_eq_ok {a b c : BitVec w} (h : mulBits a b = .ok c) :
    c.toNat = a.toNat * b.toNat := by
  unfold mulBits at h
  split at h
  · next hlt =>
    obtain rfl := Except.ok.inj h
    rw [BitVec.toNat_mul, Nat.mod_eq_of_lt hlt]
  · cases h

theorem toNat_saturatingMul (a b : BitVec w) :
    (saturatingMul a b).toNat = min (a.toNat * b.toNat) (2 ^ w - 1) := by
  unfold saturatingMul
  have hpos := Nat.two_pow_pos w
  split
  · next hlt =>
    rw [BitVec.toNat_mul, Nat.mod_eq_of_lt hlt]
    omega
  · next hle =>
    rw [BitVec.toNat_allOnes]
    omega

/-- Clearing the low bits with a mask rounds down. -/
theorem toNat_and_not_mask (x : BitVec w) {m : BitVec w} {k : ℕ} (hm : m.toNat = 2 ^ k - 1) :
    (x &&& ~~~m).toNat = x.toNat - x.toNat % 2 ^ k := by
  have hlow : (x &&& m).toNat = x.toNat % 2 ^ k := by
    rw [BitVec.toNat_and, hm, Nat.and_two_pow_sub_one_eq_mod]
  -- the low bits and the others make up the word
  have hapart : (x &&& m) &&& (x &&& ~~~m) = 0#w := by
    ext i hi
    simp only [BitVec.getElem_and, BitVec.getElem_not, BitVec.getElem_zero]
    cases m[i] <;> simp
  have hsplit : (x &&& m) + (x &&& ~~~m) = x := by
    rw [BitVec.add_eq_or_of_and_eq_zero _ _ hapart]
    ext i hi
    simp only [BitVec.getElem_or, BitVec.getElem_and, BitVec.getElem_not]
    cases m[i] <;> simp
  have hsum := BitVec.toNat_add_of_and_eq_zero hapart
  rw [hsplit, hlow] at hsum
  omega

/-- Setting the low bits with a mask goes to the end of what rounding down starts. -/
theorem toNat_or_mask (x : BitVec w) {m : BitVec w} {k : ℕ} (hm : m.toNat = 2 ^ k - 1) :
    (x ||| m).toNat = x.toNat - x.toNat % 2 ^ k + (2 ^ k - 1) := by
  have hapart : (x &&& ~~~m) &&& m = 0#w := by
    ext i hi
    simp only [BitVec.getElem_and, BitVec.getElem_not, BitVec.getElem_zero]
    cases m[i] <;> simp
  have hsum : (x &&& ~~~m) + m = x ||| m := by
    rw [BitVec.add_eq_or_of_and_eq_zero _ _ hapart]
    ext i hi
    simp only [BitVec.getElem_or, BitVec.getElem_and, BitVec.getElem_not]
    cases m[i] <;> simp
  calc
    (x ||| m).toNat = ((x &&& ~~~m) + m).toNat := by rw [hsum]
    _ = (x &&& ~~~m).toNat + m.toNat := BitVec.toNat_add_of_and_eq_zero hapart
    _ = x.toNat - x.toNat % 2 ^ k + (2 ^ k - 1) := by rw [toNat_and_not_mask x hm, hm]

/-- The words from the one to the other are those with the same high bits. -/
theorem between_masks_iff (x y : BitVec w) {m : BitVec w} {k : ℕ} (hm : m.toNat = 2 ^ k - 1) :
    (x &&& ~~~m ≤ y ∧ y ≤ x ||| m) ↔ y >>> k = x >>> k := by
  have hpos := Nat.two_pow_pos k
  have hdiv := Nat.div_add_mod' x.toNat (2 ^ k)
  rw [BitVec.le_def, BitVec.le_def, toNat_and_not_mask x hm, toNat_or_mask x hm,
    ← BitVec.toNat_inj, BitVec.toNat_ushiftRight, BitVec.toNat_ushiftRight,
    Nat.shiftRight_eq_div_pow, Nat.shiftRight_eq_div_pow, Nat.div_eq_iff hpos]
  omega

/-! ### Signed comparison

Words that represent numbers below `2 ^ w` are compared alike as signed words of `w + 1` bits and as
numbers. -/

theorem toInt_of_lt {a : BitVec (w + 1)} (h : a.toNat < 2 ^ w) : a.toInt = a.toNat :=
  BitVec.toInt_eq_toNat_of_lt (by rw [Nat.pow_succ]; omega)

/-- Two words without the sign bit compare as numbers. -/
theorem sle_iff_of_lt {a b : BitVec (w + 1)} (ha : a.toNat < 2 ^ w) (hb : b.toNat < 2 ^ w) :
    a.sle b ↔ a.toNat ≤ b.toNat := by
  rw [BitVec.sle_iff_toInt_le, toInt_of_lt ha, toInt_of_lt hb, Int.ofNat_le]

end Machine
