import Farsight.Deque.Worker

/-!
# Growing the buffer

`Worker::resize` copies the items to a larger buffer in at most three pieces, cut where the old or
the new buffer wraps around. The indices are not reduced, and may be negative.

* `Buffer.copySegs_inside` — every piece lies inside both buffers;
* `Worker.exists_index` — an index between two counters, counted from the first;
* `Worker.resize_preserves` — the new slot of every index holds what the old one held.
-/

namespace Farsight

open Machine

namespace Buffer

variable {T : Type*}

/-- **Every piece lies inside both buffers**, wherever they wrap around. -/
theorem copySegs_inside {old : Buffer T} (new : Buffer T) (cons : Isize) {n : ℕ}
    (hn : n ≤ old.cap) (hcap : old.cap ≤ new.cap) :
    ∀ seg ∈ old.copySegs new cons (cons + BitVec.ofNat 64 n), seg.Inside old.cap new.cap := by
  have hold := Nat.mod_lt cons.toNat old.cap_pos
  have hnew := Nat.mod_lt cons.toNat new.cap_pos
  unfold copySegs
  rw [splitRange_eq _ _ hn, splitRange_eq _ _ (Nat.le_trans hn hcap)]
  by_cases hzero : n = 0
  · subst hzero
    exact fun seg hseg => absurd hseg List.not_mem_nil
  rw [if_neg hzero, if_neg hzero]
  by_cases h₁ : cons.toNat % old.cap + n ≤ old.cap <;>
    by_cases h₂ : cons.toNat % new.cap + n ≤ new.cap
  · -- neither buffer wraps
    rw [if_pos h₁, if_pos h₂]
    simp only [List.mem_cons, List.not_mem_nil, or_false, forall_eq]
    exact ⟨h₁, h₂⟩
  · -- only the new buffer wraps
    rw [if_pos h₁, if_neg h₂]
    simp only [List.mem_cons, List.not_mem_nil, or_false, forall_eq_or_imp, forall_eq,
      CopySeg.Inside]
    omega
  · -- only the old buffer wraps
    rw [if_neg h₁, if_pos h₂]
    simp only [List.mem_cons, List.not_mem_nil, or_false, forall_eq_or_imp, forall_eq,
      CopySeg.Inside]
    omega
  · -- both wrap, at different places
    rw [if_neg h₁, if_neg h₂]
    dsimp only
    split
    · simp only [List.mem_cons, List.not_mem_nil, or_false, forall_eq_or_imp, forall_eq,
        CopySeg.Inside]
      omega
    · simp only [List.mem_cons, List.not_mem_nil, or_false, forall_eq_or_imp, forall_eq,
        CopySeg.Inside]
      omega

end Buffer

namespace Worker

variable {T : Type}

/-- Signed counters that are not in the wrong order differ by what their words differ by. -/
theorem toNat_sub_of_toInt_le {a b : Isize} (hle : a.toInt ≤ b.toInt)
    (hlt : b.toInt - a.toInt < 2 ^ 63) : ((b - a).toNat : ℤ) = b.toInt - a.toInt := by
  have ha := a.isLt
  have hb := b.isLt
  rw [BitVec.toInt_eq_toNat_cond, BitVec.toInt_eq_toNat_cond] at *
  rw [BitVec.toNat_sub]
  split_ifs at * <;> omega

/-- An index between the counters is that of an item. -/
theorem exists_index {self : Worker T} {i : Isize} (hlo : self.consumed.toInt ≤ i.toInt)
    (hhi : i.toInt < self.produced.toInt)
    (hlen : self.produced.toInt - self.consumed.toInt < 2 ^ 63) :
    ∃ j < self.len, i = self.consumed + BitVec.ofNat 64 j := by
  refine ⟨(i - self.consumed).toNat, ?_, (add_toNat_sub self.consumed i).symm⟩
  have hi := toNat_sub_of_toInt_le hlo (by omega)
  have hprod := toNat_sub_of_toInt_le (hlo.trans hhi.le) hlen
  unfold len
  omega

/-- **`resize` preserves the contents.** The deque has at most as many items as its buffer has
slots, at whatever indices, and the new capacity is a larger power of two. Then `resize` can only
fail to allocate. Otherwise the counters are left as they are, the slot of the new buffer for every
index from `consumed` to `produced` holds what the old slot for that index held, and every call of
`copy_seg` stays inside both buffers. -/
theorem resize_preserves (size : ℕ+) (self : Worker T) (newCap : ℕ) (hpow : newCap.isPowerOfTwo)
    (hcap : self.buffer.cap < newCap) (hle : self.consumed.toInt ≤ self.produced.toInt)
    (hlen : self.produced.toInt - self.consumed.toInt ≤ self.buffer.cap) :
    match self.resize size newCap with
    | .error e => e = .panic ∧ ¬ newCap * size < 2 ^ 63
    | .ok after =>
      after = { self with buffer := after.buffer } ∧ after.buffer.cap = newCap ∧
      (∀ i : Isize, self.consumed.toInt ≤ i.toInt → i.toInt < self.produced.toInt →
        after.buffer.slots (after.buffer.slotAt i) = self.buffer.slots (self.buffer.slotAt i)) ∧
      ∀ seg ∈ self.buffer.copySegs after.buffer self.consumed self.produced,
        seg.Inside self.buffer.cap newCap := by
  have hbound := self.buffer.cap_lt
  have hlt : self.produced.toInt - self.consumed.toInt < 2 ^ 63 := by omega
  -- as signed numbers the counters are in order, so their distance is the length
  have hcount : self.len ≤ self.buffer.cap := by
    have hsub := toNat_sub_of_toInt_le hle hlt
    unfold len
    omega
  rcases self.resize_spec size hpow hcap.le hcount with
    ⟨buffer, hresize, rfl, hitems, -⟩ | ⟨hresize, hsize⟩
  · rw [hresize]
    refine ⟨rfl, rfl, fun i hlo hhi => ?_, ?_⟩
    · -- the index is the `j`-th of the queue, and the items are the same
      obtain ⟨j, hj, rfl⟩ := exists_index hlo hhi hlt
      exact List.map_inj_left.mp hitems j (List.mem_range.mpr hj)
    · have hinside := Buffer.copySegs_inside buffer self.consumed hcount hcap.le
      rwa [← self.produced_eq] at hinside
  · rw [hresize]
    exact ⟨rfl, hsize⟩

/-- A full deque whose indices run from -3 to 0. -/
def belowZero : Worker ℕ where
  consumed := -3
  produced := 1
  cachedCons := -3
  buffer := {
    cap := 4
    slots := some
    pow2 := ⟨2, rfl⟩
    cap_lt := by decide }

theorem resize_preserves_belowZero :
    ∃ after, belowZero.resize 8 8 = .ok after ∧
      ∀ i : Isize, -3 ≤ i.toInt → i.toInt < 1 →
        after.buffer.slots (after.buffer.slotAt i) = some (belowZero.buffer.slotAt i) := by
  have h := resize_preserves 8 belowZero 8 ⟨3, rfl⟩ (by decide) (by decide) (by decide)
  cases hresize : belowZero.resize 8 8 with
  | error e =>
    rw [hresize] at h
    exact absurd (by decide) h.2
  | ok after =>
    rw [hresize] at h
    exact ⟨after, rfl, h.2.2.1⟩

end Worker

end Farsight
