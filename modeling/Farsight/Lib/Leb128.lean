import Mathlib.Algebra.Group.Nat.Defs
import Mathlib.Tactic.Common

/-!
# Numbers in base 128

A number as bytes of seven bits each, the low ones first. Every byte but the last has its high bit
set. A reader takes a limited number of bytes: the last one it may take ends the number whatever its
high bit is.

* `Leb128.encode`, `Leb128.decode` — the two directions;
* `Leb128.decode_encode` — the round trip, before any other bytes;
* `Leb128.decode_beginning` — a beginning of an encoded number is too short;
* `Leb128.decode_local` — a reader does not look at what comes after the number;
* `Leb128.length_encode_le` — how many bytes a number takes.
-/

namespace Leb128

def encode (n : ℕ) : List UInt8 :=
  if n < 128 then [.ofNat n] else .ofNat (n % 128 + 128) :: encode (n / 128)
termination_by n
decreasing_by omega

/-- The number at the start of the bytes, in at most as many bytes, and the bytes after it. -/
def decode : ℕ → List UInt8 → Option (ℕ × List UInt8)
  | 0, bytes => some (0, bytes)
  | _ + 1, [] => none
  | turns + 1, byte :: bytes =>
    if byte.toNat < 128 then some (byte.toNat, bytes)
    else (decode turns bytes).map fun (n, rest) => (byte.toNat % 128 + 128 * n, rest)

variable {n turns : ℕ}

theorem encode_of_lt (h : n < 128) : encode n = [.ofNat n] := by
  rw [encode, if_pos h]

theorem encode_of_le (h : 128 ≤ n) : encode n = .ofNat (n % 128 + 128) :: encode (n / 128) := by
  rw [encode, if_neg (Nat.not_lt.mpr h)]

/-- What is left of the number has one byte less. -/
theorem div_lt_pow (h : n < 128 ^ (turns + 2)) : n / 128 < 128 ^ (turns + 1) := by
  rw [Nat.pow_succ] at h
  exact Nat.div_lt_of_lt_mul (by omega)

theorem toNat_byte (h : n < 256) : (UInt8.ofNat n).toNat = n :=
  UInt8.toNat_ofNat_of_lt h

theorem decode_of_lt (rest : List UInt8) (h : n < 128) :
    decode (turns + 1) (encode n ++ rest) = some (n, rest) := by
  rw [encode_of_lt h, List.singleton_append, decode, toNat_byte (by omega), if_pos h]

/-- **Round trip**, if the reader takes enough bytes. -/
theorem decode_encode (rest : List UInt8) (h : n < 128 ^ (turns + 1)) :
    decode (turns + 1) (encode n ++ rest) = some (n, rest) := by
  induction turns generalizing n with
  | zero => exact decode_of_lt rest h
  | succ turns ih =>
    by_cases hsmall : n < 128
    · exact decode_of_lt rest hsmall
    · rw [encode_of_le (Nat.not_lt.mp hsmall), List.cons_append, decode, toNat_byte (by omega),
        if_neg (by omega), ih (div_lt_pow h), Option.map_some, Option.some.injEq, Prod.mk.injEq]
      exact ⟨by omega, rfl⟩

/-- Every byte but the last says that more follow. -/
theorem decode_beginning {bytes : List UInt8} (h : n < 128 ^ (turns + 1))
    (hbytes : bytes <+: encode n) (hne : bytes ≠ encode n) : decode (turns + 1) bytes = none := by
  -- on the turns: all bytes but the last have the high bit, and the last is missing
  induction turns generalizing n bytes with
  | zero =>
    rw [encode_of_lt h] at hbytes hne
    have hnil : bytes = [] := by
      rcases List.prefix_cons_iff.mp hbytes with hnil | ⟨rest, rfl, hrest⟩
      · exact hnil
      · exact absurd (by rw [List.prefix_nil.mp hrest]) hne
    rw [hnil]
    rfl
  | succ turns ih =>
    by_cases hsmall : n < 128
    · rw [encode_of_lt hsmall] at hbytes hne
      rcases List.prefix_cons_iff.mp hbytes with rfl | ⟨rest, rfl, hrest⟩
      · rfl
      · exact absurd (by rw [List.prefix_nil.mp hrest]) hne
    · rw [encode_of_le (Nat.not_lt.mp hsmall)] at hbytes hne
      rcases List.prefix_cons_iff.mp hbytes with rfl | ⟨rest, rfl, hrest⟩
      · rfl
      · have hrest' : rest ≠ encode (n / 128) := fun heq => hne (by rw [heq])
        rw [decode, toNat_byte (by omega), if_neg (by omega), ih (div_lt_pow h) hrest hrest',
          Option.map_none]

/-- What was read is enough, and what follows it does not matter. -/
theorem decode_local {bytes rest : List UInt8} (h : decode turns bytes = some (n, rest)) :
    ∃ number, bytes = number ++ rest ∧ decode turns number = some (n, []) := by
  induction turns generalizing n bytes with
  | zero =>
    cases h
    exact ⟨[], rfl, rfl⟩
  | succ turns ih =>
    cases bytes with
    | nil => cases h
    | cons byte bytes =>
      rw [decode] at h
      split at h
      · next hlast =>
        cases h
        exact ⟨[byte], rfl, by rw [decode, if_pos hlast]⟩
      · next hmore =>
        -- the group is the first of the number, and the others are read as before
        obtain ⟨⟨m, rest'⟩, hdecode, heq⟩ := Option.map_eq_some_iff.mp h
        cases heq
        obtain ⟨number, rfl, hnumber⟩ := ih hdecode
        exact ⟨byte :: number, rfl, by rw [decode, if_neg hmore, hnumber, Option.map_some]⟩

theorem length_encode_le (h : n < 128 ^ (turns + 1)) : (encode n).length ≤ turns + 1 := by
  induction turns generalizing n with
  | zero => exact Nat.le_of_eq (congrArg List.length (encode_of_lt h))
  | succ turns ih =>
    by_cases hsmall : n < 128
    · rw [encode_of_lt hsmall, List.length_singleton]
      omega
    · rw [encode_of_le (Nat.not_lt.mp hsmall), List.length_cons]
      exact Nat.succ_le_succ (ih (div_lt_pow h))

end Leb128
