import Farsight.Net.Range
import Mathlib.Logic.Function.Basic

/-!
# Prefix states

A /24 prefix is identified by the upper 24 bits of its addresses (`prefixId`), an address inside it
by the lower 8 (`offset`). `PrefixState` records which of its 256 addresses were scanned, one bit
each, and how many are left; `PrefixGraph` holds the historical number of hits of every prefix.

The bitmap is read through `PrefixState.scanned`; `isUnscanned_eq` and `scanned_markScanned` say
what the bit operations of the source do to it, and nothing above this module looks at a bit again.
-/

namespace Farsight

/-- The /24 prefix of an address: `addr >> 8`. -/
def prefixId (addr : Ipv4Addr) : BitVec 32 :=
  addr >>> 8

/-- The position of an address in its prefix: `(addr & 0xFF) as u8`. -/
def offset (addr : Ipv4Addr) : BitVec 8 :=
  (addr &&& 0xFF#32).setWidth 8

/-- The address at an offset of a prefix: `(prefix_id << 8) | offset as u32`. -/
def joinAddr (prefixId : BitVec 32) (offset : BitVec 8) : Ipv4Addr :=
  (prefixId <<< 8) ||| offset.setWidth 32

/-- The prefixes of addresses: words whose upper 8 bits are clear. -/
def IsPrefix (prefixId : BitVec 32) : Prop :=
  prefixId.toNat < 2 ^ 24

theorem isPrefix_prefixId (addr : Ipv4Addr) : IsPrefix (prefixId addr) := by
  have := addr.isLt
  simp only [IsPrefix, prefixId, BitVec.toNat_ushiftRight, Nat.shiftRight_eq_div_pow]
  omega

/-- The bits of the mask `0xFF`. -/
private theorem getLsbD_mask : ∀ i < 8, (0xFF#32).getLsbD i = true := by
  decide

theorem joinAddr_prefixId_offset (addr : Ipv4Addr) :
    joinAddr (prefixId addr) (offset addr) = addr := by
  apply BitVec.eq_of_getLsbD_eq
  intro i hi
  simp only [joinAddr, prefixId, offset, BitVec.getLsbD_or, BitVec.getLsbD_shiftLeft,
    BitVec.getLsbD_ushiftRight, BitVec.getLsbD_setWidth, BitVec.getLsbD_and]
  -- the lower eight bits come from the offset, the others from the prefix
  by_cases h8 : i < 8
  · simp [h8, hi, getLsbD_mask i h8]
  · simp [h8, hi, show 8 + (i - 8) = i by omega]

/-- The prefix of a joined address is the one it was joined from, if that has 24 bits. -/
theorem prefixId_joinAddr {p : BitVec 32} (h : IsPrefix p) (o : BitVec 8) :
    prefixId (joinAddr p o) = p := by
  apply BitVec.eq_of_getLsbD_eq
  intro i hi
  simp only [joinAddr, prefixId, BitVec.getLsbD_or, BitVec.getLsbD_shiftLeft,
    BitVec.getLsbD_ushiftRight, BitVec.getLsbD_setWidth]
  -- the shift to the left loses the upper eight bits, which are clear in `p`
  by_cases h24 : i < 24
  · simp [show 8 + i < 32 by omega]
  · have hp : p.getLsbD i = false := by
      rw [BitVec.getLsbD, Nat.testBit_lt_two_pow]
      exact Nat.lt_of_lt_of_le h (Nat.pow_le_pow_right (by decide) (by omega))
    simp [hp, show ¬ 8 + i < 32 by omega]

theorem offset_joinAddr (p : BitVec 32) (o : BitVec 8) : offset (joinAddr p o) = o := by
  apply BitVec.eq_of_getLsbD_eq
  intro i hi
  simp only [joinAddr, offset, BitVec.getLsbD_setWidth, BitVec.getLsbD_and, BitVec.getLsbD_or,
    BitVec.getLsbD_shiftLeft, getLsbD_mask i hi]
  simp [hi, show i < 32 by omega]

/-! ### The historical scores -/

/-- The historical number of hits of the prefixes that had any. -/
structure PrefixGraph where
  historicalHits : BitVec 32 → Option (BitVec 64)

/-- `PrefixGraph::historical_score`. -/
def PrefixGraph.historicalScore (self : PrefixGraph) (prefixId : BitVec 32) : BitVec 64 :=
  (self.historicalHits prefixId).getD 0

/-! ### The bitmap of a prefix -/

/-- Which addresses of a prefix were scanned, and how many were not. -/
structure PrefixState where
  bitmap : Fin 32 → BitVec 8
  remaining : BitVec 16

namespace PrefixState

/-- `PrefixState::new`: nothing scanned. -/
def new : PrefixState where
  bitmap := fun _ => 0#8
  remaining := 256#16

/-- The bitmap byte of an offset, `(offset / 8) as usize`. -/
def byteIndex (offset : BitVec 8) : Fin 32 :=
  ⟨offset.toNat / 8, by have := offset.isLt; omega⟩

/-- `PrefixState::is_unscanned`. -/
def isUnscanned (self : PrefixState) (offset : BitVec 8) : Bool :=
  (self.bitmap (byteIndex offset) >>> (offset.toNat % 8)) &&& 1#8 != 1#8

/-- `PrefixState::mark_scanned`: whether the address was scanned before, and the state after. -/
def markScanned (self : PrefixState) (offset : BitVec 8) : Bool × PrefixState :=
  let byte := self.bitmap (byteIndex offset)
  let bit := 1#8 <<< (offset.toNat % 8)
  -- set before: nothing is counted
  if byte &&& bit != 0#8 then
    (true, self)
  else
    (false,
      { bitmap := Function.update self.bitmap (byteIndex offset) (byte ||| bit)
        remaining := self.remaining - 1 })

/-- `PrefixState::fetch_unscanned`. `draw i` is the `i`-th value the random generator returns; after
50 misses the source takes the first free offset. -/
def fetchUnscanned (self : PrefixState) (draw : ℕ → BitVec 8) : Option (BitVec 8) :=
  if self.remaining = 0 then
    none
  else
    match ((List.range 50).map draw).find? self.isUnscanned with
    | some candidate => some candidate
    | none => ((List.range 256).map (BitVec.ofNat 8)).find? self.isUnscanned

/-- The bit of an offset. -/
def scanned (self : PrefixState) (offset : BitVec 8) : Bool :=
  (self.bitmap (byteIndex offset)).getLsbD (offset.toNat % 8)

@[simp] theorem scanned_new (o : BitVec 8) : new.scanned o = false := by
  simp [scanned, new]

/-- Reading bit `k` of a byte by shifting it down. -/
private theorem shift_and_one (b : BitVec 8) (k : ℕ) :
    ((b >>> k) &&& 1#8 != 1#8) = !b.getLsbD k := by
  have hb : (b >>> k) &&& 1#8 = if b.getLsbD k then 1#8 else 0#8 := by
    apply BitVec.eq_of_getLsbD_eq
    intro i hi
    rw [BitVec.getLsbD_and, BitVec.getLsbD_ushiftRight, BitVec.getLsbD_one]
    -- the mask `1` leaves bit 0 alone, which is bit `k` of the byte
    rcases Nat.eq_zero_or_pos i with rfl | hpos
    · cases h : b.getLsbD k <;> simp
    · cases b.getLsbD k <;> simp [Nat.ne_of_gt hpos]
  rw [hb]
  cases b.getLsbD k <;> rfl

/-- Testing bit `k` of a byte with a mask. -/
private theorem and_shift_one (b : BitVec 8) {k : ℕ} (hk : k < 8) :
    (b &&& 1#8 <<< k != 0#8) = b.getLsbD k := by
  -- bit by bit: the mask leaves bit `k` and nothing else
  have hbit : ∀ i < 8, (b &&& 1#8 <<< k).getLsbD i = (decide (i = k) && b.getLsbD k) := by
    intro i hi
    rw [BitVec.getLsbD_and, BitVec.getLsbD_shiftLeft, BitVec.getLsbD_one]
    by_cases hik : i = k
    · subst hik
      simp [hi]
    · simp only [hik, decide_false, Bool.false_and]
      simp
      intro _ _ h0
      omega
  cases h : b.getLsbD k with
  | true =>
    rw [bne_iff_ne]
    intro h0
    have := hbit k hk
    rw [h0, h] at this
    simp at this
  | false =>
    have h0 : b &&& 1#8 <<< k = 0#8 := by
      apply BitVec.eq_of_getLsbD_eq
      intro i hi
      rw [hbit i hi, h]
      simp
    rw [h0]
    rfl

theorem isUnscanned_eq (s : PrefixState) (o : BitVec 8) : s.isUnscanned o = !s.scanned o :=
  shift_and_one _ _

/-- Marking a scanned address changes nothing and says so. -/
theorem markScanned_of_scanned {s : PrefixState} {o : BitVec 8} (h : s.scanned o = true) :
    s.markScanned o = (true, s) := by
  have hbit := and_shift_one (s.bitmap (byteIndex o)) (Nat.mod_lt o.toNat (by decide : 8 > 0))
  rw [markScanned]
  simp only [hbit]
  rw [show (s.bitmap (byteIndex o)).getLsbD (o.toNat % 8) = true from h, if_pos rfl]

/-- Marking an unscanned address reports it as new. -/
theorem markScanned_of_unscanned {s : PrefixState} {o : BitVec 8} (h : s.scanned o = false) :
    (s.markScanned o).1 = false ∧
      ∀ o', (s.markScanned o).2.scanned o' = (decide (o' = o) || s.scanned o') := by
  have hk : o.toNat % 8 < 8 := Nat.mod_lt o.toNat (by decide)
  have hbit := and_shift_one (s.bitmap (byteIndex o)) hk
  rw [show (s.bitmap (byteIndex o)).getLsbD (o.toNat % 8) = false from h] at hbit
  rw [markScanned]
  simp only [hbit, Bool.false_eq_true, if_false, true_and]
  intro o'
  unfold scanned
  simp only
  -- other bytes are untouched; in the same byte only the bit of `o` changes
  by_cases hbyte : byteIndex o' = byteIndex o
  · rw [hbyte, Function.update_self, BitVec.getLsbD_or, BitVec.getLsbD_shiftLeft,
      BitVec.getLsbD_one]
    have hdiv : o'.toNat / 8 = o.toNat / 8 := congrArg Fin.val hbyte
    by_cases hoo : o' = o
    · subst hoo
      simp [hk]
    · -- two offsets in one byte that differ have different bits
      have hne : o'.toNat % 8 ≠ o.toNat % 8 := by
        intro hmod
        apply hoo
        apply BitVec.eq_of_toNat_eq
        omega
      rcases Nat.lt_or_gt_of_ne hne with hlt | hgt
      · simp [hoo, hlt]
      · simp [hoo, show o'.toNat % 8 - o.toNat % 8 ≠ 0 by omega]
  · have hoo : o' ≠ o := fun h => hbyte (by rw [h])
    rw [Function.update_of_ne hbyte]
    simp [hoo]

/-- `mark_scanned` returns whether the offset was scanned before. -/
theorem fst_markScanned (s : PrefixState) (o : BitVec 8) : (s.markScanned o).1 = s.scanned o := by
  cases hscanned : s.scanned o with
  | true => rw [markScanned_of_scanned hscanned]
  | false => exact (markScanned_of_unscanned hscanned).1

/-- A fetched address was not scanned. -/
theorem scanned_of_fetchUnscanned {s : PrefixState} {draw : ℕ → BitVec 8} {o : BitVec 8}
    (h : s.fetchUnscanned draw = some o) : s.scanned o = false := by
  unfold fetchUnscanned at h
  split at h
  · cases h
  · have hun : s.isUnscanned o = true := by
      -- drawn or found by the search, the offset passed `is_unscanned`
      split at h
      · next candidate hfind =>
        obtain rfl := Option.some.inj h
        exact List.find?_some hfind
      · exact List.find?_some h
    rw [isUnscanned_eq] at hun
    simpa using hun

/-- If every draw is a free offset, that offset is fetched. -/
theorem fetchUnscanned_const {s : PrefixState} {o : BitVec 8}
    (hfree : s.scanned o = false) (hroom : s.remaining ≠ 0) :
    s.fetchUnscanned (fun _ => o) = some o := by
  have hun : s.isUnscanned o = true := by rw [isUnscanned_eq, hfree]; rfl
  have hfind : ((List.range 50).map fun _ => o).find? s.isUnscanned = some o := by
    rw [List.map_const', List.length_range, List.replicate_succ, List.find?_cons_of_pos hun]
  rw [fetchUnscanned, if_neg hroom, hfind]

theorem remaining_markScanned {s : PrefixState} {o : BitVec 8}
    (hfree : s.scanned o = false) : (s.markScanned o).2.remaining = s.remaining - 1 := by
  have hnew := (markScanned_of_unscanned hfree).1
  unfold markScanned at hnew ⊢
  simp only at hnew ⊢
  split at hnew
  · cases hnew
  · next h => rw [if_neg h]

/-- Mark several addresses. -/
def markAll (self : PrefixState) (os : List (BitVec 8)) : PrefixState :=
  os.foldl (fun state o => (state.markScanned o).2) self

/-- Marking several free addresses. -/
theorem markAll_spec {os : List (BitVec 8)} (hnodup : os.Nodup) {s : PrefixState}
    (hfree : ∀ o ∈ os, s.scanned o = false) (hroom : os.length ≤ s.remaining.toNat) :
    (s.markAll os).remaining.toNat + os.length = s.remaining.toNat ∧
      ∀ o, (s.markAll os).scanned o = (decide (o ∈ os) || s.scanned o) := by
  induction os generalizing s with
  | nil => simp [markAll]
  | cons o os ih =>
    have ho : s.scanned o = false := hfree o List.mem_cons_self
    have hmark := (markScanned_of_unscanned ho).2
    rw [List.length_cons] at hroom
    -- the count does not go below zero, since there are as many free offsets as are marked
    have hrem : (s.markScanned o).2.remaining.toNat + 1 = s.remaining.toNat := by
      rw [remaining_markScanned ho, BitVec.toNat_sub_of_le]
      · change s.remaining.toNat - 1 + 1 = s.remaining.toNat
        omega
      · change 1 ≤ s.remaining.toNat
        omega
    obtain ⟨hrest, hscanned⟩ := ih (List.nodup_cons.mp hnodup).2 (s := (s.markScanned o).2)
      (fun o' ho' => by
        have hne : o' ≠ o := fun h => (List.nodup_cons.mp hnodup).1 (h ▸ ho')
        rw [hmark, hfree o' (List.mem_cons_of_mem _ ho')]
        simp [hne])
      (by omega)
    constructor
    · rw [List.length_cons]
      change ((s.markScanned o).2.markAll os).remaining.toNat + (os.length + 1) = _
      omega
    · intro o'
      change ((s.markScanned o).2.markAll os).scanned o' = _
      rw [hscanned, hmark]
      by_cases hoo : o' = o <;> simp [hoo]

/-! ### The number of free addresses -/

/-- The offsets of a prefix, in the order of the search of `fetch_unscanned`. -/
def offsets : List (BitVec 8) :=
  (List.range 256).map (BitVec.ofNat 8)

theorem mem_offsets (o : BitVec 8) : o ∈ offsets :=
  List.mem_map.mpr ⟨o.toNat, List.mem_range.mpr o.isLt, BitVec.ofNat_toNat 8 o⟩

theorem nodup_offsets : offsets.Nodup := by
  refine List.Nodup.map_on ?_ List.nodup_range
  intro i hi j hj heq
  rw [List.mem_range] at hi hj
  have htoNat := congrArg BitVec.toNat heq
  rwa [BitVec.toNat_ofNat, BitVec.toNat_ofNat, Nat.mod_eq_of_lt hi, Nat.mod_eq_of_lt hj] at htoNat

/-- `remaining` is the number of addresses that were not scanned. -/
def Counted (self : PrefixState) : Prop :=
  self.remaining.toNat = offsets.countP self.isUnscanned

/-- A new prefix has 256 free offsets, and its count says so. -/
theorem counted_new : new.Counted := by
  have hall : offsets.countP new.isUnscanned = offsets.length := by
    rw [List.countP_eq_length]
    intro o _
    rw [isUnscanned_eq, scanned_new]
    rfl
  rw [Counted, hall, offsets, List.length_map, List.length_range]
  rfl

/-- Marking an address that is free takes one from the count, and from `remaining`. -/
theorem Counted.markScanned {s : PrefixState} (h : s.Counted) (o : BitVec 8) :
    (s.markScanned o).2.Counted := by
  cases hscanned : s.scanned o with
  | true =>
    rw [markScanned_of_scanned hscanned]
    exact h
  | false =>
    have hmark := (markScanned_of_unscanned hscanned).2
    -- the free offsets are those of before without `o`
    have hfree : offsets.filter (s.markScanned o).2.isUnscanned =
        (offsets.filter s.isUnscanned).erase o := by
      rw [(nodup_offsets.filter _).erase_eq_filter, List.filter_filter]
      refine List.filter_congr fun o' _ => ?_
      rw [isUnscanned_eq, hmark, isUnscanned_eq]
      by_cases hoo : o' = o
      · simp [hoo]
      · simp [hoo]
    have hmem : o ∈ offsets.filter s.isUnscanned := by
      rw [List.mem_filter, isUnscanned_eq, hscanned]
      exact ⟨mem_offsets o, rfl⟩
    have hpos := List.length_pos_of_mem hmem
    rw [Counted, List.countP_eq_length_filter] at h ⊢
    rw [remaining_markScanned hscanned, hfree, List.length_erase_of_mem hmem, ← h,
      BitVec.toNat_sub_of_le]
    · rfl
    · rw [← h] at hpos
      exact hpos

/-- As long as addresses remain, `fetch_unscanned` finds one. -/
theorem Counted.remaining_eq_zero {s : PrefixState} (h : s.Counted) {draw : ℕ → BitVec 8}
    (hnone : s.fetchUnscanned draw = none) : s.remaining = 0 := by
  unfold fetchUnscanned at hnone
  split at hnone
  · assumption
  · split at hnone
    · cases hnone
    · -- the search over all offsets was in vain
      have hzero : offsets.countP s.isUnscanned = 0 := by
        rw [List.countP_eq_zero]
        intro o ho
        exact List.find?_eq_none.mp hnone o ho
      rw [Counted, hzero] at h
      exact BitVec.eq_of_toNat_eq h

/-- Nothing remains if and only if every address was scanned. -/
theorem Counted.remaining_eq_zero_iff {s : PrefixState} (h : s.Counted) :
    s.remaining = 0 ↔ ∀ o, s.isUnscanned o = false := by
  rw [← BitVec.toNat_inj, h]
  change offsets.countP s.isUnscanned = 0 ↔ _
  rw [List.countP_eq_zero]
  simp only [Bool.not_eq_true]
  exact ⟨fun hall o => hall o (mem_offsets o), fun hall o _ => hall o⟩

/-- The number of set bits of the bitmap. -/
def setBits (self : PrefixState) : ℕ :=
  ((List.finRange 32).map fun i => (List.range 8).countP (self.bitmap i).getLsbD).sum

/-- The offsets, byte by byte. -/
theorem offsets_eq_flatMap :
    offsets = (List.finRange 32).flatMap fun i =>
      (List.range 8).map fun j => BitVec.ofNat 8 (8 * i.val + j) := by
  decide +kernel

/-- Bit `j` of byte `i` belongs to offset `8 * i + j`. -/
theorem scanned_ofNat (s : PrefixState) (i : Fin 32) {j : ℕ} (hj : j < 8) :
    s.scanned (BitVec.ofNat 8 (8 * i.val + j)) = (s.bitmap i).getLsbD j := by
  have hi := i.isLt
  have hoffset : (BitVec.ofNat 8 (8 * i.val + j)).toNat = 8 * i.val + j := by
    rw [BitVec.toNat_ofNat]
    omega
  have hbyte : byteIndex (BitVec.ofNat 8 (8 * i.val + j)) = i := by
    apply Fin.ext
    change (BitVec.ofNat 8 (8 * i.val + j)).toNat / 8 = i.val
    omega
  rw [scanned, hbyte, hoffset]
  congr 1
  omega

theorem countP_scanned (s : PrefixState) : offsets.countP s.scanned = s.setBits := by
  rw [offsets_eq_flatMap, List.countP_flatMap, setBits]
  refine congrArg List.sum (List.map_congr_left fun i _ => ?_)
  rw [Function.comp_apply, List.countP_map]
  refine List.countP_congr fun j hj => ?_
  rw [Function.comp_apply, s.scanned_ofNat i (List.mem_range.mp hj)]

/-- `remaining` and the set bits make 256. -/
theorem Counted.remaining_add_setBits {s : PrefixState} (h : s.Counted) :
    s.remaining.toNat + s.setBits = 256 := by
  have hsplit := List.length_eq_countP_add_countP s.isUnscanned (l := offsets)
  have hscanned : offsets.countP (fun o => !s.isUnscanned o) = offsets.countP s.scanned := by
    refine List.countP_congr fun o _ => ?_
    rw [isUnscanned_eq, Bool.not_not]
  have hlength : offsets.length = 256 := by
    rw [offsets, List.length_map, List.length_range]
  simp only [Bool.not_eq_true, Bool.decide_eq_false] at hsplit
  rw [hscanned, countP_scanned, hlength, ← h] at hsplit
  exact hsplit.symm

end PrefixState

end Farsight
