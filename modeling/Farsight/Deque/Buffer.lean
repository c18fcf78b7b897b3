import Farsight.Lib.Ring
import Mathlib.Data.PNat.Basic

/-!
# The buffer of the deque

`Buffer` is one allocation of `cap` slots, `cap` a power of two. Indices are `isize` counters that
are never reduced: index `i` lives in slot `i & (cap - 1)`, and the counters themselves may wrap
around.

The copies of `push`, `resize` and `steal_batch` are given as lists of slot moves (`pushPlan`,
`resizePlan`, `stealPlan`), computed from the segments that `split_range` returns exactly as the
source computes its `copy_seg` calls (`copySegs`). Run as a whole they are the copies of the
sequential deque, run move by move those of the concurrent one.

* `splitRange_eq` — the segments of at most `cap` indices, in natural numbers;
* `resizePlan_eq`, `pushPlan_eq`, `stealPlan_eq` — the plans move slot to slot, wherever the old and
  the new buffer wrap.
-/

namespace Farsight

open Machine

/-- The counters of the deque are `isize` words, as a release build computes them: every operation
wraps around. -/
abbrev Isize := BitVec 64

variable {T : Type*}

/-- An allocation of `cap` slots. A slot that was never written has no value. -/
structure Buffer (T : Type*) where
  cap : ℕ
  slots : ℕ → Option T
  pow2 : cap.isPowerOfTwo
  /-- No layout exceeds `isize::MAX` bytes. -/
  cap_lt : cap < 2 ^ 63

/-- The arguments of `copy_seg`. -/
structure CopySeg where
  srcStart : ℕ
  destStart : ℕ
  count : ℕ

namespace CopySeg

/-- The slot moves of the call. -/
def moves (seg : CopySeg) : List (ℕ × ℕ) :=
  Ring.segment seg.srcStart seg.destStart seg.count

/-- The call reads and writes slots of the buffers only. -/
def Inside (seg : CopySeg) (srcCap destCap : ℕ) : Prop :=
  seg.srcStart + seg.count ≤ srcCap ∧ seg.destStart + seg.count ≤ destCap

end CopySeg

namespace Buffer

/-- Allocate `cap` slots of `size` bytes each; `Layout::array` refuses more than `isize::MAX`
bytes. -/
def alloc (size : ℕ+) (cap : ℕ) : Except Fault (Buffer T) :=
  if h : cap.isPowerOfTwo ∧ cap * size < 2 ^ 63 then
    .ok {
      cap
      slots := fun _ => none
      pow2 := h.1
      cap_lt := Nat.lt_of_le_of_lt (Nat.le_mul_of_pos_right cap size.pos) h.2 }
  else
    .error .panic

/-- The buffer after a copy into it. -/
def withSlots (self : Buffer T) (slots : ℕ → Option T) : Buffer T :=
  { self with slots }

/-- The one or two segments `(start, length)` of the indices `start .. stop`. -/
def splitRange (self : Buffer T) (start stop : Isize) : Option (ℕ × ℕ) × Option (ℕ × ℕ) :=
  let len := stop - start
  if len.sle 0 then
    (none, none)
  else
    let cap := BitVec.ofNat 64 self.cap
    let i := start &&& (cap - 1)
    -- one segment unless the run passes the last slot
    if (i + len).sle cap then
      (some (i.toNat, len.toNat), none)
    else
      let l₁ := cap - i
      let l₂ := len - l₁
      (some (i.toNat, l₁.toNat), some (0, l₂.toNat))

/-- The slot of an index. -/
def slotAt (self : Buffer T) (index : Isize) : ℕ :=
  (index &&& BitVec.ofNat 64 (self.cap - 1)).toNat

/-! ### Copy plans -/

/-- The calls of `copy_seg` in `Worker::resize`. -/
def copySegs (old new : Buffer T) (cons prod : Isize) : List CopySeg :=
  match old.splitRange cons prod, new.splitRange cons prod with
  | (some (s₁, l₁), some (s₂, l₂)), (some (s₃, l₃), some (s₄, _)) =>
    -- the old buffer wraps first, so its second segment is cut in two
    if l₁ ≤ l₃ then
      let rem := l₃ - l₁
      [⟨s₁, s₃, l₁⟩, ⟨s₂, s₃ + l₁, rem⟩, ⟨s₂ + rem, s₄, l₂ - rem⟩]
    else
      -- the new buffer wraps first
      let rem := l₁ - l₃
      [⟨s₁, s₃, l₃⟩, ⟨s₁ + l₃, s₄, rem⟩, ⟨s₂, s₄ + rem, l₂⟩]
  | (some (s₁, l₁), some (s₂, l₂)), (some (s₃, _), none) =>
    [⟨s₁, s₃, l₁⟩, ⟨s₂, s₃ + l₁, l₂⟩]
  | (some (s₁, _), none), (some (s₃, l₃), some (s₄, l₄)) =>
    [⟨s₁, s₃, l₃⟩, ⟨s₁ + l₃, s₄, l₄⟩]
  | (some (s₁, l₁), none), (some (s₃, _), none) =>
    [⟨s₁, s₃, l₁⟩]
  | _, _ => []

/-- The slot moves of `Worker::resize`, from the old buffer to the new one: what the calls copy, one
after another. -/
def resizePlan (old new : Buffer T) (cons prod : Isize) : List (ℕ × ℕ) :=
  (old.copySegs new cons prod).flatMap CopySeg.moves

/-- The moves of `Worker::push`, from the slice to the buffer. -/
def pushPlan (self : Buffer T) (prod stop : Isize) : List (ℕ × ℕ) :=
  match self.splitRange prod stop with
  | (some (s₁, l₁), some (s₂, l₂)) => Ring.segment 0 s₁ l₁ ++ Ring.segment l₁ s₂ l₂
  | (some (s₁, l₁), none) => Ring.segment 0 s₁ l₁
  | _ => []

/-- The moves of `Stealer::steal_batch`, from the buffer to the destination. -/
def stealPlan (self : Buffer T) (f batchSize : Isize) : List (ℕ × ℕ) :=
  let cap := BitVec.ofNat 64 self.cap
  let i := f &&& (cap - 1)
  if cap.slt (i + batchSize) then
    let l₁ := cap - i
    let l₂ := batchSize - l₁
    Ring.segment i.toNat 0 l₁.toNat ++ Ring.segment 0 l₁.toNat l₂.toNat
  else
    Ring.segment i.toNat 0 batchSize.toNat

/-! ### Slots and segments -/

theorem cap_pos (self : Buffer T) : 0 < self.cap :=
  Nat.pos_of_isPowerOfTwo self.pow2

theorem exists_cap_eq (self : Buffer T) : ∃ k < 63, self.cap = 2 ^ k := by
  obtain ⟨k, hk⟩ := self.pow2
  have hlt := self.cap_lt
  rw [hk] at hlt
  exact ⟨k, (Nat.pow_lt_pow_iff_right (by decide)).mp hlt, hk⟩

/-- A power of two below `2 ^ 63` is at most `2 ^ 62`. -/
theorem two_mul_cap_le (self : Buffer T) : 2 * self.cap ≤ 2 ^ 63 := by
  obtain ⟨k, hk63, hk⟩ := self.exists_cap_eq
  rw [hk, ← Nat.pow_succ']
  exact Nat.pow_le_pow_right (by decide) hk63

theorem cap_dvd (self : Buffer T) : self.cap ∣ 2 ^ 64 := by
  obtain ⟨k, hk63, hk⟩ := self.exists_cap_eq
  rw [hk]
  exact Nat.pow_dvd_pow 2 (by omega)

theorem toNat_cap (self : Buffer T) : (BitVec.ofNat 64 self.cap).toNat = self.cap := by
  have := self.cap_lt
  rw [BitVec.toNat_ofNat]
  exact Nat.mod_eq_of_lt (by omega)

/-- The mask is a remainder, for the capacity is a power of two. -/
theorem slotAt_eq (self : Buffer T) (index : Isize) :
    self.slotAt index = index.toNat % self.cap := by
  obtain ⟨k, hk⟩ := self.pow2
  have := self.cap_lt
  unfold slotAt
  rw [BitVec.toNat_and, BitVec.toNat_ofNat, Nat.mod_eq_of_lt (by omega), hk,
    Nat.and_two_pow_sub_one_eq_mod]

/-- The mask of the source, in words. -/
theorem toNat_and_mask (self : Buffer T) (index : Isize) :
    (index &&& (BitVec.ofNat 64 self.cap - 1)).toNat = index.toNat % self.cap := by
  rw [← self.slotAt_eq index, slotAt]
  -- `(cap - 1) as isize` and `cap as isize - 1` are the same word
  congr 2
  have hpos := self.cap_pos
  have hlt := self.cap_lt
  apply BitVec.eq_of_toNat_eq
  rw [BitVec.toNat_sub_of_le, self.toNat_cap, BitVec.toNat_ofNat]
  · exact (Nat.mod_eq_of_lt (by omega)).symm
  · rw [BitVec.le_def, self.toNat_cap]
    exact hpos

/-- Counters that wrap around still count slots: `2 ^ 64` is a multiple of `cap`. -/
theorem toNat_add_mod_cap (self : Buffer T) (a : Isize) (n : ℕ) :
    (a + BitVec.ofNat 64 n).toNat % self.cap = (a.toNat + n) % self.cap := by
  rw [BitVec.toNat_add, BitVec.toNat_ofNat, Nat.add_mod_mod, Nat.mod_mod_of_dvd _ self.cap_dvd]

section

variable (self : Buffer T) (start : Isize) {n : ℕ} (hn : n ≤ self.cap)
include hn

theorem toNat_ofNat_of_le : (BitVec.ofNat 64 n).toNat = n := by
  have := self.cap_lt
  rw [BitVec.toNat_ofNat]
  exact Nat.mod_eq_of_lt (by omega)

/-- The sum does not wrap: both parts are at most a capacity. -/
theorem toNat_mask_add :
    ((start &&& (BitVec.ofNat 64 self.cap - 1)) + BitVec.ofNat 64 n).toNat
      = start.toNat % self.cap + n := by
  have hcap := self.two_mul_cap_le
  have hmod := Nat.mod_lt start.toNat self.cap_pos
  rw [BitVec.toNat_add, self.toNat_and_mask start, self.toNat_ofNat_of_le hn]
  exact Nat.mod_eq_of_lt (by omega)

omit hn in
theorem toNat_cap_sub_mask :
    (BitVec.ofNat 64 self.cap - (start &&& (BitVec.ofNat 64 self.cap - 1))).toNat
      = self.cap - start.toNat % self.cap := by
  have hi := self.toNat_and_mask start
  rw [BitVec.toNat_sub_of_le, self.toNat_cap, hi]
  rw [BitVec.le_def, hi, self.toNat_cap]
  exact Nat.le_of_lt (Nat.mod_lt _ self.cap_pos)

/-- The part of a run behind the end of the ring. -/
theorem toNat_sub_cap_sub_mask (h : self.cap ≤ start.toNat % self.cap + n) :
    (BitVec.ofNat 64 n
        - (BitVec.ofNat 64 self.cap - (start &&& (BitVec.ofNat 64 self.cap - 1)))).toNat
      = n - (self.cap - start.toNat % self.cap) := by
  rw [BitVec.toNat_sub_of_le, self.toNat_ofNat_of_le hn, self.toNat_cap_sub_mask start]
  rw [BitVec.le_def, self.toNat_ofNat_of_le hn, self.toNat_cap_sub_mask start]
  omega

/-- `split_range` of at most `cap` indices, in natural numbers. -/
theorem splitRange_eq :
    self.splitRange start (start + BitVec.ofNat 64 n) =
      if n = 0 then (none, none)
      else if start.toNat % self.cap + n ≤ self.cap then
        (some (start.toNat % self.cap, n), none)
      else
        (some (start.toNat % self.cap, self.cap - start.toNat % self.cap),
          some (0, n - (self.cap - start.toNat % self.cap))) := by
  have hcap := self.two_mul_cap_le
  have hmod : start.toNat % self.cap < self.cap := Nat.mod_lt _ self.cap_pos
  have hlen := self.toNat_ofNat_of_le hn
  have hsum := self.toNat_mask_add start hn
  -- both comparisons of the source are between numbers below `2 ^ 63`
  have hzero : (BitVec.ofNat 64 n).sle 0 ↔ n = 0 := by
    rw [sle_iff_of_lt (by rw [hlen]; omega) (by decide), hlen]
    exact Nat.le_zero
  have hfit : ((start &&& (BitVec.ofNat 64 self.cap - 1)) + BitVec.ofNat 64 n).sle
      (BitVec.ofNat 64 self.cap) ↔ start.toNat % self.cap + n ≤ self.cap := by
    rw [sle_iff_of_lt (by rw [hsum]; omega) (by rw [toNat_cap]; omega), hsum, toNat_cap]
  unfold splitRange
  rw [show start + BitVec.ofNat 64 n - start = BitVec.ofNat 64 n by
    rw [BitVec.add_comm, BitVec.add_sub_cancel]]
  simp only [hzero, hfit, self.toNat_and_mask, hlen, self.toNat_cap_sub_mask]
  split
  · rfl
  · split
    · rfl
    · next hlt => rw [self.toNat_sub_cap_sub_mask start hn (by omega)]

/-- **The plan of `push`** moves the `j`-th item to the slot of index `start + j`. -/
theorem pushPlan_eq :
    self.pushPlan start (start + BitVec.ofNat 64 n)
      = (List.range n).zip (Ring.slots self.cap start.toNat n) := by
  have hmod := Nat.mod_lt start.toNat self.cap_pos
  unfold pushPlan
  rw [self.splitRange_eq start hn, List.range_eq_range']
  by_cases hzero : n = 0
  · subst hzero
    rfl
  rw [if_neg hzero]
  by_cases h : start.toNat % self.cap + n ≤ self.cap
  · rw [if_pos h, Ring.slots_of_le h]
    rfl
  · rw [if_neg h, Ring.slots_of_lt self.cap_pos hn (by omega),
      Ring.zip_segments_right _ _ _ (by omega), Nat.zero_add]

/-- **The plan of `steal_batch`** moves the slot of index `start + j` to place `j` of the
destination. -/
theorem stealPlan_eq :
    self.stealPlan start (BitVec.ofNat 64 n)
      = (Ring.slots self.cap start.toNat n).zip (List.range n) := by
  have hcap := self.two_mul_cap_le
  have hmod := Nat.mod_lt start.toNat self.cap_pos
  have hsum := self.toNat_mask_add start hn
  -- `i + batch_size > cap`, between numbers below `2 ^ 63`
  have hwrap : (BitVec.ofNat 64 self.cap).slt
      ((start &&& (BitVec.ofNat 64 self.cap - 1)) + BitVec.ofNat 64 n)
        ↔ self.cap < start.toNat % self.cap + n := by
    rw [BitVec.slt_iff_toInt_lt, toInt_of_lt (by rw [toNat_cap]; omega),
      toInt_of_lt (by rw [hsum]; omega), toNat_cap, hsum, Int.ofNat_lt]
  unfold stealPlan
  simp only [hwrap, self.toNat_and_mask, self.toNat_cap_sub_mask, self.toNat_ofNat_of_le hn]
  rw [List.range_eq_range']
  split
  · next h =>
    -- two copies, one up to the end of the buffer and one from its start
    rw [self.toNat_sub_cap_sub_mask start hn (by omega), Ring.slots_of_lt self.cap_pos hn h,
      Ring.zip_segments_left _ _ _ (by omega), Nat.zero_add]
  · next h =>
    rw [Ring.slots_of_le (by omega)]
    rfl

end

/-- **The plan of `resize`** moves the slot of each index to its slot in the larger buffer, wherever
the two wrap around. -/
theorem resizePlan_eq {old : Buffer T} (new : Buffer T) (cons : Isize) {n : ℕ} (hn : n ≤ old.cap)
    (hcap : old.cap ≤ new.cap) :
    resizePlan old new cons (cons + BitVec.ofNat 64 n)
      = (Ring.slots old.cap cons.toNat n).zip (Ring.slots new.cap cons.toNat n) := by
  have hn' := Nat.le_trans hn hcap
  have hold := Nat.mod_lt cons.toNat old.cap_pos
  have hnew := Nat.mod_lt cons.toNat new.cap_pos
  unfold resizePlan copySegs
  rw [splitRange_eq _ _ hn, splitRange_eq _ _ hn']
  by_cases hzero : n = 0
  · subst hzero
    rfl
  rw [if_neg hzero, if_neg hzero]
  by_cases h₁ : cons.toNat % old.cap + n ≤ old.cap <;>
    by_cases h₂ : cons.toNat % new.cap + n ≤ new.cap
  · -- neither buffer wraps
    rw [if_pos h₁, if_pos h₂, Ring.slots_of_le h₁, Ring.slots_of_le h₂]
    exact List.append_nil _
  · -- only the new buffer wraps
    rw [if_pos h₁, if_neg h₂, Ring.slots_of_le h₁, Ring.slots_of_lt new.cap_pos hn' (by omega),
      Ring.zip_segments_right _ _ _ (by omega)]
    simp only [List.flatMap_cons, List.flatMap_nil, List.append_nil, CopySeg.moves]
  · -- only the old buffer wraps
    rw [if_neg h₁, if_pos h₂, Ring.slots_of_lt old.cap_pos hn (by omega), Ring.slots_of_le h₂,
      Ring.zip_segments_left _ _ _ (by omega)]
    simp only [List.flatMap_cons, List.flatMap_nil, List.append_nil, CopySeg.moves]
  · -- both wrap, at different places
    rw [if_neg h₁, if_neg h₂, Ring.slots_of_lt old.cap_pos hn (by omega),
      Ring.slots_of_lt new.cap_pos hn' (by omega)]
    dsimp only
    split
    · next hle =>
      rw [Ring.zip_segments_of_le _ _ _ _ (by omega) hle]
      simp only [List.flatMap_cons, List.flatMap_nil, List.append_nil, CopySeg.moves,
        List.append_assoc]
    · next hlt =>
      rw [Ring.zip_segments_of_lt _ _ _ _ (by omega) (by omega)]
      simp only [List.flatMap_cons, List.flatMap_nil, List.append_nil, CopySeg.moves,
        List.append_assoc]

end Buffer

end Farsight
