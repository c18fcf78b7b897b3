import Farsight.Net.Range
import Mathlib.Data.Set.Card

/-!
# Exclusion and compilation are exact

The abstract reading of a list of ranges is the set of addresses it covers (`Covers`). Over it:

* `excludeLoop_spec` — the sweep keeps exactly the scan addresses outside the exclude ranges, in
  ascending disjoint ranges, and no address computation leaves 32 bits;
* `compileLoop_spec` — compilation of `rs` describes the list `addresses rs` of all covered
  addresses in order, each range at its own offset (`Compiled`);
* `indexLoop_spec` — the binary search reads that list.

The sweep keeps one invariant: exclude ranges already passed end before the current scan range, and
since both lists ascend by start they can never matter again. Overlapping and nested exclude ranges
need no more than this.
-/

namespace Farsight

open Machine

/-! ### The addresses of a list of ranges -/

/-- `a` is an address of the range `r`. -/
def RangeInclusive.Mem (r : RangeInclusive Ipv4Addr) (a : Ipv4Addr) : Prop :=
  r.start ≤ a ∧ a ≤ r.last

/-- `a` is an address of one of the ranges `rs`. -/
def Covers (rs : List (RangeInclusive Ipv4Addr)) (a : Ipv4Addr) : Prop :=
  ∃ r ∈ rs, r.Mem a

/-- The ranges are non-empty, ascending and pairwise disjoint. -/
structure Ascending (rs : List (RangeInclusive Ipv4Addr)) : Prop where
  start_le : ∀ r ∈ rs, r.start ≤ r.last
  disjoint : rs.Pairwise (fun r r' => r.last < r'.start)

/-- The ranges are non-empty and ascend by start; they may overlap, nest and repeat. This is what
`exclude::parse` returns. -/
structure StartSorted (rs : List (RangeInclusive Ipv4Addr)) : Prop where
  start_le : ∀ r ∈ rs, r.start ≤ r.last
  sorted : rs.Pairwise (fun r r' => r.start ≤ r'.start)

@[simp] theorem not_covers_nil (a : Ipv4Addr) : ¬ Covers [] a := by
  simp [Covers]

@[simp] theorem covers_cons (r : RangeInclusive Ipv4Addr) (rs : List (RangeInclusive Ipv4Addr))
    (a : Ipv4Addr) : Covers (r :: rs) a ↔ r.Mem a ∨ Covers rs a := by
  simp [Covers]

theorem ascending_nil : Ascending [] :=
  ⟨fun _ h => absurd h List.not_mem_nil, List.Pairwise.nil⟩

/-- A list ascends if its head is not empty and ends before the rest begins. -/
theorem ascending_cons {r : RangeInclusive Ipv4Addr} {rs : List (RangeInclusive Ipv4Addr)} :
    Ascending (r :: rs) ↔ r.start ≤ r.last ∧ (∀ r' ∈ rs, r.last < r'.start) ∧ Ascending rs := by
  constructor
  · rintro ⟨hle, hpw⟩
    rw [List.pairwise_cons] at hpw
    exact ⟨hle r List.mem_cons_self, hpw.1, fun r' h => hle r' (List.mem_cons_of_mem r h), hpw.2⟩
  · rintro ⟨hr, hlt, hle, hpw⟩
    exact ⟨List.forall_mem_cons.mpr ⟨hr, hle⟩, List.pairwise_cons.mpr ⟨hlt, hpw⟩⟩

theorem StartSorted.tail {r : RangeInclusive Ipv4Addr} {rs : List (RangeInclusive Ipv4Addr)}
    (h : StartSorted (r :: rs)) : StartSorted rs :=
  ⟨fun r' hr' => h.start_le r' (List.mem_cons_of_mem r hr'), (List.pairwise_cons.mp h.sorted).2⟩

/-- Ranges that all start at or after `b` cover nothing before `b`. -/
theorem Covers.le {rs : List (RangeInclusive Ipv4Addr)} {a b : Ipv4Addr}
    (h : Covers rs a) (hb : ∀ r ∈ rs, b ≤ r.start) : b ≤ a := by
  obtain ⟨r, hr, hmem⟩ := h
  exact BitVec.le_trans (hb r hr) hmem.1

/-- Ranges sorted by start cover nothing before the first start. -/
theorem StartSorted.le_of_covers {r : RangeInclusive Ipv4Addr}
    {rs : List (RangeInclusive Ipv4Addr)} (h : StartSorted (r :: rs)) {a : Ipv4Addr}
    (ha : Covers (r :: rs) a) : r.start ≤ a :=
  ha.le (List.forall_mem_cons.mpr ⟨BitVec.le_refl _, (List.pairwise_cons.mp h.sorted).1⟩)

/-- The scan ranges after the current one lie past its last address. -/
theorem Ascending.lt_of_covers {r : RangeInclusive Ipv4Addr}
    {rs : List (RangeInclusive Ipv4Addr)} (h : Ascending (r :: rs)) {a : Ipv4Addr}
    (ha : Covers rs a) : r.last < a := by
  obtain ⟨r', hr', hmem⟩ := ha
  have hlt := (ascending_cons.mp h).2.1 r' hr'
  have hle := hmem.1
  rw [BitVec.lt_def] at *
  rw [BitVec.le_def] at hle
  omega

/-! ### The sweep of `exclude` -/

/-- `kept` is what is left of the ranges `scans` without the addresses of the ranges `excludes`, in
ascending ranges from `lo` on. -/
structure Kept (scans excludes kept : List (RangeInclusive Ipv4Addr)) (lo : Ipv4Addr) : Prop where
  ascending : Ascending kept
  le_start : ∀ r ∈ kept, lo ≤ r.start
  covers : ∀ a, Covers kept a ↔ Covers scans a ∧ ¬ Covers excludes a

section Kept

variable {lo lo' : Ipv4Addr} {scan exclude : RangeInclusive Ipv4Addr}
  {scans scans' excludes excludes' kept : List (RangeInclusive Ipv4Addr)}

/-- With no scan range left, nothing is kept. -/
theorem Kept.nil (excludes : List (RangeInclusive Ipv4Addr)) (lo : Ipv4Addr) :
    Kept [] excludes [] lo where
  ascending := ascending_nil
  le_start := fun _ h => absurd h List.not_mem_nil
  covers a := by simp

/-- The sweep pushes `piece` and goes on with `scans'`. -/
theorem Kept.push (h : Kept scans' excludes kept lo') (piece : RangeInclusive Ipv4Addr)
    (hpiece : piece.start ≤ piece.last)
    (hlo : ∀ r ∈ kept, piece.last < r.start)
    (hcov : ∀ a, Covers scans a ∧ ¬ Covers excludes a ↔
      piece.Mem a ∨ Covers scans' a ∧ ¬ Covers excludes a) :
    Kept scans excludes (piece :: kept) piece.start where
  ascending := ascending_cons.mpr ⟨hpiece, hlo, h.ascending⟩
  le_start := by
    refine List.forall_mem_cons.mpr ⟨BitVec.le_refl _, fun r hr => ?_⟩
    have hr' := hlo r hr
    simp only [BitVec.le_def, BitVec.lt_def] at *
    omega
  covers a := by rw [covers_cons, h.covers, hcov]

/-- The sweep moves a cursor and pushes nothing. -/
theorem Kept.move (h : Kept scans' excludes' kept lo') (hlo : lo ≤ lo')
    (hcov : ∀ a, Covers scans a ∧ ¬ Covers excludes a ↔
      Covers scans' a ∧ ¬ Covers excludes' a) :
    Kept scans excludes kept lo where
  ascending := h.ascending
  le_start := fun r hr => BitVec.le_trans hlo (h.le_start r hr)
  covers a := by rw [h.covers, hcov]

/-- Cutting the front off the first scan range keeps the list ascending. -/
theorem Ascending.cut {start : Ipv4Addr} (h : Ascending (scan :: scans))
    (hle : start ≤ scan.last) : Ascending (⟨start, scan.last⟩ :: scans) := by
  obtain ⟨-, hnext, hs⟩ := ascending_cons.mp h
  exact ascending_cons.mpr ⟨hle, hnext, hs⟩

/-- What is kept of the later scan ranges lies past the current one. -/
theorem Kept.lt_start (h : Kept scans excludes kept lo) (hs : Ascending (scan :: scans))
    {r : RangeInclusive Ipv4Addr} (hr : r ∈ kept) : scan.last < r.start := by
  have hcov : Covers kept r.start := ⟨r, hr, BitVec.le_refl _, h.ascending.start_le r hr⟩
  exact hs.lt_of_covers ((h.covers r.start).mp hcov).1

/-! One lemma for each way the two ranges under the cursors can lie. In each, an
address of the scan range is before the exclude range (kept: every exclude range
still to come starts later), inside it (dropped) or after it (left to the rest of
the sweep). -/

/-- The scan range ends before the exclude range: it stays. -/
theorem Kept.before (h : Kept scans (exclude :: excludes) kept lo)
    (hs : Ascending (scan :: scans)) (he : StartSorted (exclude :: excludes))
    (hlt : scan.last < exclude.start) :
    Kept (scan :: scans) (exclude :: excludes) (scan :: kept) scan.start := by
  refine h.push scan (hs.start_le _ List.mem_cons_self) (fun r hr => h.lt_start hs hr) fun a => ?_
  -- no exclude range starts before `exclude` does
  have hstart := he.le_of_covers (a := a)
  rw [covers_cons scan]
  simp only [BitVec.le_def, BitVec.lt_def, RangeInclusive.Mem] at *
  grind

/-- The exclude range ends before the scan range: it never matters again. -/
theorem Kept.after (h : Kept (scan :: scans) excludes kept lo)
    (hs : Ascending (scan :: scans)) (hlt : exclude.last < scan.start) :
    Kept (scan :: scans) (exclude :: excludes) kept lo := by
  refine h.move (BitVec.le_refl _) fun a => ?_
  have hnext := hs.lt_of_covers (a := a)
  have hle := hs.start_le scan List.mem_cons_self
  rw [covers_cons exclude, covers_cons scan]
  simp only [BitVec.le_def, BitVec.lt_def, RangeInclusive.Mem] at *
  grind

/-- The exclude range lies strictly inside the scan range: both ends stay, and the second one is the
scan range of the rest of the sweep. -/
theorem Kept.inside {start last : Ipv4Addr}
    (h : Kept (⟨start, scan.last⟩ :: scans) (exclude :: excludes) kept start)
    (hs : Ascending (scan :: scans)) (he : StartSorted (exclude :: excludes))
    (hin : scan.start < exclude.start ∧ exclude.last < scan.last)
    (hlast : last.toNat + 1 = exclude.start.toNat)
    (hstart : start.toNat = exclude.last.toNat + 1) :
    Kept (scan :: scans) (exclude :: excludes) (⟨scan.start, last⟩ :: kept) scan.start := by
  have hvalid := he.start_le exclude List.mem_cons_self
  refine h.push ⟨scan.start, last⟩ ?_ (fun r hr => ?_) fun a => ?_
  · simp only [BitVec.le_def, BitVec.lt_def] at *
    omega
  · have := h.le_start r hr
    simp only [BitVec.le_def, BitVec.lt_def] at *
    omega
  · -- an address of the head is before the exclude range, inside of it or after it
    have hfrom := he.le_of_covers (a := a)
    have hnext := hs.lt_of_covers (a := a)
    rw [covers_cons exclude] at *
    rw [covers_cons scan, covers_cons ⟨start, scan.last⟩]
    simp only [BitVec.le_def, BitVec.lt_def, RangeInclusive.Mem] at *
    grind

/-- The exclude range covers the end of the scan range: the front stays. -/
theorem Kept.front {last : Ipv4Addr} (h : Kept scans (exclude :: excludes) kept lo)
    (hs : Ascending (scan :: scans)) (he : StartSorted (exclude :: excludes))
    (hlt : scan.start < exclude.start) (hcovered : scan.last ≤ exclude.last)
    (hoverlap : exclude.start ≤ scan.last) (hlast : last.toNat + 1 = exclude.start.toNat) :
    Kept (scan :: scans) (exclude :: excludes) (⟨scan.start, last⟩ :: kept) scan.start := by
  refine h.push ⟨scan.start, last⟩ ?_ (fun r hr => ?_) fun a => ?_
  · simp only [BitVec.le_def, BitVec.lt_def] at *
    omega
  · have := h.lt_start hs hr
    simp only [BitVec.le_def, BitVec.lt_def] at *
    omega
  · -- the later excludes start no earlier, so they leave the front alone as well
    have hfrom := he.le_of_covers (a := a)
    rw [covers_cons exclude] at *
    rw [covers_cons scan]
    simp only [BitVec.le_def, BitVec.lt_def, RangeInclusive.Mem] at *
    grind

/-- The exclude range covers the front of the scan range: the rest of the sweep goes on with the
end. -/
theorem Kept.back {start : Ipv4Addr}
    (h : Kept (⟨start, scan.last⟩ :: scans) (exclude :: excludes) kept start)
    (hs : Ascending (scan :: scans)) (hge : exclude.start ≤ scan.start)
    (hoverlap : scan.start ≤ exclude.last) (hstart : start.toNat = exclude.last.toNat + 1) :
    Kept (scan :: scans) (exclude :: excludes) kept scan.start := by
  refine h.move ?_ fun a => ?_
  · simp only [BitVec.le_def] at *
    omega
  · -- the later scans lie behind this one
    have hnext := hs.lt_of_covers (a := a)
    rw [covers_cons exclude, covers_cons scan, covers_cons ⟨start, scan.last⟩]
    simp only [BitVec.le_def, BitVec.lt_def, RangeInclusive.Mem] at *
    grind

/-- The exclude range covers the whole scan range: nothing of it stays. -/
theorem Kept.covered (h : Kept scans (exclude :: excludes) kept lo)
    (hs : Ascending (scan :: scans)) (hge : exclude.start ≤ scan.start)
    (hcovered : scan.last ≤ exclude.last) :
    Kept (scan :: scans) (exclude :: excludes) kept scan.start where
  ascending := h.ascending
  le_start r hr := by
    have hle := hs.start_le scan List.mem_cons_self
    have hlt := h.lt_start hs hr
    simp only [BitVec.le_def, BitVec.lt_def] at *
    omega
  covers a := by
    rw [h.covers, covers_cons exclude, covers_cons scan]
    simp only [BitVec.le_def, RangeInclusive.Mem] at *
    grind

/-- With no exclude range left, every scan range stays. -/
theorem Kept.all (hs : Ascending (scan :: scans)) :
    Kept (scan :: scans) [] (scan :: scans) scan.start where
  ascending := hs
  le_start := by
    obtain ⟨hle, hnext, -⟩ := ascending_cons.mp hs
    refine List.forall_mem_cons.mpr ⟨BitVec.le_refl _, fun r hr => ?_⟩
    have hlt := hnext r hr
    simp only [BitVec.le_def, BitVec.lt_def] at *
    omega
  covers a := by simp

/-- The address before an exclude range that starts after a scan range exists. -/
theorem subBits_one_ne_error {e : Fault} (hlt : scan.start < exclude.start) :
    subBits exclude.start 1#32 ≠ .error e := by
  refine subBits_ne_error ?_
  rw [BitVec.lt_def] at hlt
  rw [BitVec.toNat_ofNat]
  omega

/-- So does the address after one that ends before a scan range does. -/
theorem addBits_one_ne_error {e : Fault} (hlt : exclude.last < scan.last) :
    addBits exclude.last 1#32 ≠ .error e := by
  refine addBits_ne_error ?_
  have := scan.last.isLt
  rw [BitVec.lt_def] at hlt
  rw [BitVec.toNat_ofNat]
  omega

end Kept

/-- **The sweep is exact.** One case per branch of the loop. -/
theorem Ipv4Ranges.excludeLoop_spec (inner : List (RangeInclusive Ipv4Addr))
    (scanRange : RangeInclusive Ipv4Addr) (scanRanges : List (RangeInclusive Ipv4Addr))
    (excludeRange : RangeInclusive Ipv4Addr) (excludeRanges : List (RangeInclusive Ipv4Addr))
    (hs : Ascending (scanRange :: scanRanges)) (he : StartSorted (excludeRange :: excludeRanges)) :
    ∃ kept, excludeLoop inner scanRange scanRanges excludeRange excludeRanges
        = .ok (inner ++ kept) ∧
      Kept (scanRange :: scanRanges) (excludeRange :: excludeRanges) kept scanRange.start := by
  fun_induction excludeLoop inner scanRange scanRanges excludeRange excludeRanges with
  -- the scan range ends before the exclude range begins: kept whole
  | case1 inner scan exclude excludes hlt scan' scans ih =>
    obtain ⟨kept, heq, hk⟩ := ih (ascending_cons.mp hs).2.2 he
    exact ⟨scan :: kept, by rw [heq]; simp, hk.before hs he hlt⟩
  | case2 inner scan exclude excludes hlt =>
    exact ⟨[scan], rfl, (Kept.nil _ scan.start).before hs he hlt⟩
  -- it begins after the exclude range, which is then done with
  | case3 inner scan scans exclude hov hgt exclude' excludes ih =>
    obtain ⟨kept, heq, hk⟩ := ih hs he.tail
    exact ⟨kept, heq, hk.after hs hgt⟩
  | case4 inner scan scans exclude hov hgt =>
    exact ⟨scan :: scans, by simp, (Kept.all hs).after hs hgt⟩
  -- the checked additions do not fail, since the bounds are strict
  | case5 inner scan scans exclude excludes hov hgt hin e hsub =>
    exact absurd hsub (subBits_one_ne_error hin.1)
  | case6 inner scan scans exclude excludes hov hgt hin last hsub e hadd =>
    exact absurd hadd (addBits_one_ne_error hin.2)
  | case7 inner scan scans exclude excludes hov hgt hin last hsub start hadd ih =>
    -- the cut-off end is not empty, so the list still ascends
    have hlast := subBits_eq_ok hsub
    have hstart := addBits_eq_ok hadd
    have hcut : start ≤ scan.last := by
      rw [BitVec.le_def, hstart]
      exact hin.2
    obtain ⟨kept, heq, hk⟩ := ih (hs.cut hcut) he
    exact ⟨⟨scan.start, last⟩ :: kept, by rw [heq]; simp,
      hk.inside hs he hin hlast hstart⟩
  | case8 inner scan scans exclude excludes hov hgt hin hlt e hsub =>
    exact absurd hsub (subBits_one_ne_error hlt)
  | case9 inner scan exclude excludes hov hgt hin hlt last hsub scan' scans ih =>
    -- the scan range starts before the exclude range, so it does not end after it
    have hcovered : scan.last ≤ exclude.last := BitVec.not_lt.mp fun h => hin ⟨hlt, h⟩
    obtain ⟨kept, heq, hk⟩ := ih (ascending_cons.mp hs).2.2 he
    exact ⟨⟨scan.start, last⟩ :: kept, by rw [heq]; simp,
      hk.front hs he hlt hcovered (BitVec.not_lt.mp hov) (subBits_eq_ok hsub)⟩
  | case10 inner scan exclude excludes hov hgt hin hlt last hsub =>
    have hcovered : scan.last ≤ exclude.last := BitVec.not_lt.mp fun h => hin ⟨hlt, h⟩
    exact ⟨[⟨scan.start, last⟩], rfl, (Kept.nil _ scan.start).front hs he hlt hcovered
      (BitVec.not_lt.mp hov) (subBits_eq_ok hsub)⟩
  -- the scan range ends after the exclude range, and its end is kept for the next turn
  | case11 inner scan scans exclude excludes hov hgt hin hlt hlast e hadd =>
    exact absurd hadd (addBits_one_ne_error hlast)
  | case12 inner scan scans exclude excludes hov hgt hin hlt hlast start hadd ih =>
    have hstart := addBits_eq_ok hadd
    have hcut : start ≤ scan.last := by
      rw [BitVec.le_def, hstart]
      exact hlast
    obtain ⟨kept, heq, hk⟩ := ih (hs.cut hcut) he
    exact ⟨kept, heq, hk.back hs (BitVec.not_lt.mp hlt) (BitVec.not_lt.mp hgt) hstart⟩
  -- nothing is left of the scan range
  | case13 inner scan exclude excludes hov hgt hin hlt hlast scan' scans ih =>
    obtain ⟨kept, heq, hk⟩ := ih (ascending_cons.mp hs).2.2 he
    exact ⟨kept, heq, hk.covered hs (BitVec.not_lt.mp hlt) (BitVec.not_lt.mp hlast)⟩
  | case14 inner scan exclude excludes hov hgt hin hlt hlast =>
    exact ⟨[], by simp, (Kept.nil _ scan.start).covered hs (BitVec.not_lt.mp hlt)
      (BitVec.not_lt.mp hlast)⟩

/-! ### The address list of a compiled scope -/

/-- The number of addresses of a range. -/
def RangeInclusive.size (r : RangeInclusive Ipv4Addr) : ℕ :=
  r.last.toNat - r.start.toNat + 1

/-- The addresses of a range, in order. -/
def RangeInclusive.addresses (r : RangeInclusive Ipv4Addr) : List Ipv4Addr :=
  (List.range r.size).map fun k => r.start + BitVec.ofNat 32 k

/-- The addresses of all ranges, in order. -/
def addresses (rs : List (RangeInclusive Ipv4Addr)) : List Ipv4Addr :=
  rs.flatMap RangeInclusive.addresses

/-- The number of addresses of all ranges. -/
def total (rs : List (RangeInclusive Ipv4Addr)) : ℕ :=
  (rs.map RangeInclusive.size).sum

/-- The annotated ranges: every range with the number of addresses before it, `n` for the first. -/
def layout (n : ℕ) : List (RangeInclusive Ipv4Addr) →
    List (RangeInclusive (BitVec 32) × CompilationInfo)
  | [] => []
  | r :: rs => (r, ⟨n, r.size⟩) :: layout (n + r.size) rs

@[simp] theorem total_cons (r : RangeInclusive Ipv4Addr) (rs : List (RangeInclusive Ipv4Addr)) :
    total (r :: rs) = r.size + total rs := by
  simp [total]

@[simp] theorem addresses_cons (r : RangeInclusive Ipv4Addr)
    (rs : List (RangeInclusive Ipv4Addr)) :
    addresses (r :: rs) = r.addresses ++ addresses rs := by
  simp [addresses]

@[simp] theorem length_addresses (rs : List (RangeInclusive Ipv4Addr)) :
    (addresses rs).length = total rs := by
  simp [addresses, total, List.length_flatMap, RangeInclusive.addresses]

/-- Offsets inside a range do not wrap. -/
theorem RangeInclusive.toNat_start_add {r : RangeInclusive Ipv4Addr} (h : r.start ≤ r.last)
    {k : ℕ} (hk : k < r.size) : (r.start + BitVec.ofNat 32 k).toNat = r.start.toNat + k := by
  have hlast := r.last.isLt
  rw [BitVec.le_def] at h
  unfold RangeInclusive.size at hk
  rw [BitVec.toNat_add, BitVec.toNat_ofNat, Nat.mod_eq_of_lt (a := k) (by omega)]
  exact Nat.mod_eq_of_lt (by omega)

/-- The addresses of a range that is not empty are those between its ends. -/
theorem RangeInclusive.mem_addresses {r : RangeInclusive Ipv4Addr} (h : r.start ≤ r.last)
    (a : Ipv4Addr) : a ∈ r.addresses ↔ r.Mem a := by
  unfold RangeInclusive.addresses RangeInclusive.Mem
  rw [List.mem_map]
  constructor
  · rintro ⟨k, hk, rfl⟩
    rw [List.mem_range] at hk
    -- no address of the range wraps around
    have hval := toNat_start_add h hk
    unfold RangeInclusive.size at hk
    rw [BitVec.le_def] at h
    rw [BitVec.le_def, BitVec.le_def, hval]
    omega
  · rintro ⟨hlo, hhi⟩
    rw [BitVec.le_def] at hlo hhi
    have hk : a.toNat - r.start.toNat < r.size := by
      unfold RangeInclusive.size
      omega
    refine ⟨a.toNat - r.start.toNat, List.mem_range.mpr hk, ?_⟩
    apply BitVec.eq_of_toNat_eq
    rw [toNat_start_add h hk]
    omega

/-- The address list of valid ranges has exactly the covered addresses. -/
theorem mem_addresses {rs : List (RangeInclusive Ipv4Addr)} (h : ∀ r ∈ rs, r.start ≤ r.last)
    (a : Ipv4Addr) : a ∈ addresses rs ↔ Covers rs a := by
  unfold addresses Covers
  rw [List.mem_flatMap]
  constructor
  · rintro ⟨r, hr, ha⟩
    exact ⟨r, hr, (RangeInclusive.mem_addresses (h r hr) a).mp ha⟩
  · rintro ⟨r, hr, ha⟩
    exact ⟨r, hr, (RangeInclusive.mem_addresses (h r hr) a).mpr ha⟩

theorem RangeInclusive.pairwise_addresses {r : RangeInclusive Ipv4Addr} (h : r.start ≤ r.last) :
    r.addresses.Pairwise (· < ·) := by
  unfold RangeInclusive.addresses
  rw [List.pairwise_map]
  refine List.pairwise_lt_range.imp_of_mem fun {i j} hi hj hij => ?_
  rw [List.mem_range] at hi hj
  rw [BitVec.lt_def, toNat_start_add h hi, toNat_start_add h hj]
  omega

/-- The address list of ascending ranges ascends strictly. -/
theorem Ascending.pairwise_addresses {rs : List (RangeInclusive Ipv4Addr)} (h : Ascending rs) :
    (addresses rs).Pairwise (· < ·) := by
  induction rs with
  | nil => exact List.Pairwise.nil
  | cons r rs ih =>
    obtain ⟨hle, -, hrs⟩ := ascending_cons.mp h
    rw [addresses_cons, List.pairwise_append]
    refine ⟨RangeInclusive.pairwise_addresses hle, ih hrs, fun a ha b hb => ?_⟩
    -- `a` is in `r`, and `b` lies past its last address
    have ha' := (RangeInclusive.mem_addresses hle a).mp ha
    have hb' := h.lt_of_covers ((mem_addresses hrs.start_le b).mp hb)
    have := ha'.2
    simp only [BitVec.le_def, BitVec.lt_def] at *
    omega

/-- Ascending ranges that start at or after `lo` have at most `2 ^ 32 - lo` addresses. -/
theorem Ascending.total_le {rs : List (RangeInclusive Ipv4Addr)} (h : Ascending rs) (lo : ℕ)
    (hlo : ∀ r ∈ rs, lo ≤ r.start.toNat) : total rs ≤ 2 ^ 32 - lo := by
  induction rs generalizing lo with
  | nil => simp [total]
  | cons r rs ih =>
    obtain ⟨hle, hnext, hrs⟩ := ascending_cons.mp h
    -- the later ranges start past `r.last`, and `r` fits between `lo` and there
    have hrest := ih hrs (r.last.toNat + 1) fun r' hr' => hnext r' hr'
    have hr := hlo r List.mem_cons_self
    have hlast := r.last.isLt
    rw [BitVec.le_def] at hle
    rw [total_cons, RangeInclusive.size]
    omega

/-! ### Compilation -/

/-- **Compilation is the layout.** It fails on no valid list whose addresses a `usize` can count. -/
theorem Ipv4Ranges.compileLoop_spec {rs : List (RangeInclusive Ipv4Addr)}
    (h : ∀ r ∈ rs, r.start ≤ r.last)
    (ranges : List (RangeInclusive (BitVec 32) × CompilationInfo)) (index : ℕ)
    (hn : index + total rs < 2 ^ usizeBits) :
    compileLoop ranges index rs = .ok ⟨ranges ++ layout index rs, index + total rs⟩ := by
  induction rs generalizing ranges index with
  | nil => simp [compileLoop, layout, total]
  | cons r rs ih =>
    have hle := h r List.mem_cons_self
    rw [BitVec.le_def] at hle
    rw [total_cons] at hn
    -- no addition overflows, since the sum over all ranges fits
    have hcount : addNat usizeBits (r.last.toNat - r.start.toNat) 1 = .ok r.size :=
      addNat_of_lt (by unfold RangeInclusive.size at hn; omega)
    rw [compileLoop, subNat_of_le hle]
    simp only [bind, Except.bind, hcount]
    rw [addNat_of_lt (by omega)]
    simp only
    rw [ih (fun r' hr' => h r' (List.mem_cons_of_mem r hr')) _ _ (by omega), layout, total_cons,
      List.append_assoc, Nat.add_assoc]
    rfl

/-- Conversely, what compiles is valid and is its layout. -/
theorem Ipv4Ranges.compileLoop_eq_ok {rs : List (RangeInclusive Ipv4Addr)}
    {ranges : List (RangeInclusive (BitVec 32) × CompilationInfo)} {index : ℕ}
    {c : CompiledRanges} (h : compileLoop ranges index rs = .ok c) (hi : index < 2 ^ usizeBits) :
    (∀ r ∈ rs, r.start ≤ r.last) ∧ index + total rs < 2 ^ usizeBits ∧
      c = ⟨ranges ++ layout index rs, index + total rs⟩ := by
  induction rs generalizing ranges index with
  | nil =>
    obtain rfl := Except.ok.inj h
    simpa [layout, total] using hi
  | cons r rs ih =>
    rw [compileLoop] at h
    -- peel off the three checked operations of a turn
    obtain ⟨n, hn, h⟩ := exists_of_bind_eq_ok h
    obtain ⟨count, hcount, h⟩ := exists_of_bind_eq_ok h
    obtain ⟨index', hindex, h⟩ := exists_of_bind_eq_ok h
    obtain ⟨rfl, hle⟩ := subNat_eq_ok hn
    obtain ⟨rfl, -⟩ := addNat_eq_ok hcount
    obtain ⟨rfl, hlt⟩ := addNat_eq_ok hindex
    obtain ⟨hrs, hlt', hc⟩ := ih h hlt
    rw [total_cons, ← Nat.add_assoc]
    exact ⟨List.forall_mem_cons.mpr ⟨hle, hrs⟩, hlt', by rw [hc, List.append_assoc]; rfl⟩

/-! ### The binary search -/

/-- In a layout, every range begins where the ranges before it end. -/
theorem pairwise_layout (n : ℕ) (rs : List (RangeInclusive Ipv4Addr)) :
    (layout n rs).Pairwise fun e e' => e.2.index + e.2.count ≤ e'.2.index := by
  -- nothing of a layout from `n` on begins before `n`
  have hlo : ∀ (rs : List (RangeInclusive Ipv4Addr)) n, ∀ e ∈ layout n rs, n ≤ e.2.index := by
    intro rs
    induction rs with
    | nil => simp [layout]
    | cons r rs ih =>
      intro n e he
      rcases List.mem_cons.mp he with rfl | he
      · exact Nat.le_refl _
      · have := ih (n + r.size) e he
        omega
  induction rs generalizing n with
  | nil => exact List.Pairwise.nil
  | cons r rs ih => exact List.pairwise_cons.mpr ⟨fun e he => hlo rs _ e he, ih _⟩

/-- Every range of a layout ends at or before the total. -/
theorem layout_le_total {n : ℕ} {rs : List (RangeInclusive Ipv4Addr)}
    {e : RangeInclusive (BitVec 32) × CompilationInfo} (he : e ∈ layout n rs) :
    e.2.index + e.2.count ≤ n + total rs := by
  induction rs generalizing n with
  | nil => simp [layout] at he
  | cons r rs ih =>
    rw [total_cons]
    rcases List.mem_cons.mp he with rfl | he
    · dsimp only
      omega
    · have := ih he
      omega

/-- The range of a layout that holds position `i` holds the `i`-th address. -/
theorem exists_layout_mem {n i : ℕ} {rs : List (RangeInclusive Ipv4Addr)} (hi : i < total rs) :
    ∃ e ∈ layout n rs, e.2.index ≤ n + i ∧ n + i < e.2.index + e.2.count ∧
      e.2.count = e.1.size ∧ e.1 ∈ rs ∧
      (addresses rs)[i]? = some (e.1.start + BitVec.ofNat 32 (n + i - e.2.index)) := by
  induction rs generalizing n i with
  | nil => simp [total] at hi
  | cons r rs ih =>
    -- the position is in the first range, or counts on from its end
    by_cases hr : i < r.size
    · refine ⟨_, List.mem_cons_self, ?_⟩
      have hlen : i < r.addresses.length := by simpa [RangeInclusive.addresses] using hr
      refine ⟨by dsimp only; omega, by dsimp only; omega, rfl, List.mem_cons_self, ?_⟩
      rw [addresses_cons, List.getElem?_append_left hlen]
      simp [RangeInclusive.addresses, hr]
    · rw [total_cons] at hi
      obtain ⟨e, he, h₁, h₂, h₃, h₄, h₅⟩ := ih (n := n + r.size) (i := i - r.size) (by omega)
      have hi' : n + r.size + (i - r.size) = n + i := by omega
      rw [hi'] at h₁ h₂ h₅
      refine ⟨e, List.mem_cons_of_mem _ he, h₁, h₂, h₃, List.mem_cons_of_mem _ h₄, ?_⟩
      have hlen : r.addresses.length = r.size := by simp [RangeInclusive.addresses]
      rw [addresses_cons, List.getElem?_append_right (by omega), hlen]
      exact h₅

section Search

variable {self : CompiledRanges}

/-- An entry that begins before another one ends does not stand after it. -/
theorem CompiledRanges.le_of_index_lt
    (hpw : self.inner.Pairwise fun e e' => e.2.index + e.2.count ≤ e'.2.index) {i j : ℕ}
    {x y : RangeInclusive (BitVec 32) × CompilationInfo} (hx : self.inner[i]? = some x)
    (hy : self.inner[j]? = some y) (h : x.2.index < y.2.index + y.2.count) : i ≤ j := by
  obtain ⟨hi, rfl⟩ := List.getElem?_eq_some_iff.mp hx
  obtain ⟨hj, rfl⟩ := List.getElem?_eq_some_iff.mp hy
  apply Nat.le_of_not_lt
  intro hji
  exact Nat.not_lt_of_le (List.pairwise_iff_getElem.mp hpw j i hj hi hji) h

/-- An entry that begins before a different one ends stands before it. -/
theorem CompiledRanges.lt_of_index_lt
    (hpw : self.inner.Pairwise fun e e' => e.2.index + e.2.count ≤ e'.2.index) {i j : ℕ}
    {x y : RangeInclusive (BitVec 32) × CompilationInfo} (hx : self.inner[i]? = some x)
    (hy : self.inner[j]? = some y) (h : x.2.index < y.2.index + y.2.count) (hne : x ≠ y) :
    i < j := by
  apply Nat.lt_of_le_of_ne (le_of_index_lt hpw hx hy h)
  rintro rfl
  exact hne (Option.some.inj (hx.symm.trans hy))

/-- **The search finds the range that holds the position.** The window always contains it: ranges
before it end at or before `index`, ranges after it begin past `index`. -/
theorem CompiledRanges.indexLoop_of_mem
    (hpw : self.inner.Pairwise fun e e' => e.2.index + e.2.count ≤ e'.2.index)
    (hfit : ∀ e ∈ self.inner, e.2.index + e.2.count < 2 ^ usizeBits)
    {index start stop k : ℕ} {e : RangeInclusive (BitVec 32) × CompilationInfo}
    (hk : self.inner[k]? = some e) (hlo : e.2.index ≤ index)
    (hhi : index < e.2.index + e.2.count) (hstart : start ≤ k) (hstop : k < stop)
    (hlen : stop ≤ self.inner.length) :
    self.indexLoop index start stop
      = addBits e.1.start (BitVec.ofNat 32 (index - e.2.index)) := by
  fun_induction CompiledRanges.indexLoop self index start stop with
  | case1 start stop hlt mid hnone =>
    -- the window lies inside the list, so the unchecked read is one of an entry
    rw [List.getElem?_eq_none_iff] at hnone
    omega
  | case2 start stop hlt mid range hmid e' hadd =>
    rw [addNat_of_lt (hfit range (List.mem_of_getElem? hmid))] at hadd
    cases hadd
  | case3 start stop hlt mid range hmid upper hadd hle ih =>
    rw [addNat_of_lt (hfit range (List.mem_of_getElem? hmid))] at hadd
    obtain rfl := Except.ok.inj hadd
    refine ih ?_ hstop hlen
    -- `range` ends before the position, so it stands before `e`
    apply lt_of_index_lt hpw hmid hk (by omega)
    rintro rfl
    omega
  | case4 start stop hlt mid range hmid upper hadd hle hgt ih =>
    refine ih hstart ?_ (by omega)
    -- `range` begins past the position, so it stands after `e`
    apply lt_of_index_lt hpw hk hmid (by omega)
    rintro rfl
    omega
  | case5 start stop hlt mid range hmid upper hadd hle hgt =>
    rw [addNat_of_lt (hfit range (List.mem_of_getElem? hmid))] at hadd
    obtain rfl := Except.ok.inj hadd
    -- `range` holds the position, and so does `e`
    have hmk : mid = k := by
      apply Nat.le_antisymm
      · exact le_of_index_lt hpw hmid hk (by omega)
      · exact le_of_index_lt hpw hk hmid (by omega)
    rw [hmk, hk] at hmid
    obtain rfl := Option.some.inj hmid
    rw [subNat_of_le hlo]
    rfl
  | case6 start stop hge => omega

/-- **The search panics past the end.** Every range ends at or before the position, so the window
only ever shrinks from the left. -/
theorem CompiledRanges.indexLoop_of_le {index start stop : ℕ}
    (hfit : ∀ e ∈ self.inner, e.2.index + e.2.count < 2 ^ usizeBits)
    (hend : ∀ e ∈ self.inner, e.2.index + e.2.count ≤ index)
    (hlen : stop ≤ self.inner.length) :
    self.indexLoop index start stop = .error .panic := by
  fun_induction CompiledRanges.indexLoop self index start stop with
  | case1 start stop hlt mid hnone =>
    rw [List.getElem?_eq_none_iff] at hnone
    omega
  -- the end of a range fits, so its addition does not fail
  | case2 start stop hlt mid range hmid e' hadd =>
    rw [addNat_of_lt (hfit range (List.mem_of_getElem? hmid))] at hadd
    cases hadd
  | case3 start stop hlt mid range hmid upper hadd hle ih => exact ih hlen
  | case4 start stop hlt mid range hmid upper hadd hle hgt ih =>
    -- no range begins past the position
    have := hend range (List.mem_of_getElem? hmid)
    omega
  | case5 start stop hlt mid range hmid upper hadd hle hgt =>
    rw [addNat_of_lt (hfit range (List.mem_of_getElem? hmid))] at hadd
    obtain rfl := Except.ok.inj hadd
    exact absurd (hend range (List.mem_of_getElem? hmid)) hle
  -- the search has come to an empty interval: `panic`
  | case6 start stop hge => rfl

end Search

/-- What `Ipv4Ranges::compile` returns, with no assumption on the order of the ranges. -/
theorem Ipv4Ranges.compile_eq_ok {ranges : Ipv4Ranges} {c : CompiledRanges}
    (h : ranges.compile = .ok c) :
    (∀ r ∈ ranges.inner, r.start ≤ r.last) ∧ total ranges.inner < 2 ^ usizeBits ∧
      c = ⟨layout 0 ranges.inner, total ranges.inner⟩ := by
  have h' := compileLoop_eq_ok h (by decide)
  simpa using h'

/-- **`index` reads the address list.** Position `i` of a compiled scope is the `i`-th address, and
past the end `index` panics; no arithmetic fails. -/
theorem CompiledRanges.index_eq {ranges : Ipv4Ranges} {c : CompiledRanges}
    (h : ranges.compile = .ok c) (i : ℕ) :
    c.index i = match (addresses ranges.inner)[i]? with
      | some a => .ok a
      | none => .error .panic := by
  obtain ⟨hvalid, hfit, rfl⟩ := Ipv4Ranges.compile_eq_ok h
  have hfit' : ∀ e ∈ layout 0 ranges.inner, e.2.index + e.2.count < 2 ^ usizeBits := by
    intro e he
    have := layout_le_total he
    omega
  unfold CompiledRanges.index
  by_cases hi : i < total ranges.inner
  · obtain ⟨e, he, hlo, hhi, hsize, hmem, hget⟩ := exists_layout_mem (n := 0) hi
    rw [Nat.zero_add] at hlo hhi hget
    obtain ⟨k, hk, rfl⟩ := List.mem_iff_getElem.mp he
    rw [hget, CompiledRanges.indexLoop_of_mem (pairwise_layout 0 ranges.inner) hfit'
      (List.getElem?_eq_getElem hk) hlo hhi (Nat.zero_le k) hk (Nat.le_refl _)]
    -- the offset stays inside the range, so the last addition is exact
    have hoff : i - (layout 0 ranges.inner)[k].2.index < (layout 0 ranges.inner)[k].1.size := by
      omega
    have hle := hvalid _ hmem
    have hlast := (layout 0 ranges.inner)[k].1.last.isLt
    rw [BitVec.le_def] at hle
    unfold RangeInclusive.size at hoff
    rw [addBits, if_pos]
    rw [BitVec.toNat_ofNat, Nat.mod_eq_of_lt (by omega)]
    omega
  · rw [List.getElem?_eq_none (by rw [length_addresses]; omega)]
    refine CompiledRanges.indexLoop_of_le hfit' (fun e he => ?_) (Nat.le_refl _)
    have := layout_le_total he
    omega

theorem CompiledRanges.index_singleton {r : RangeInclusive Ipv4Addr} {c : CompiledRanges}
    (h : Ipv4Ranges.compile ⟨[r]⟩ = .ok c) {i : ℕ} (hi : i < r.size) :
    c.index i = .ok (r.start + BitVec.ofNat 32 i) := by
  have hget : (addresses [r])[i]? = some (r.start + BitVec.ofNat 32 i) := by
    rw [addresses, List.flatMap_singleton, RangeInclusive.addresses, List.getElem?_map,
      List.getElem?_range hi]
    rfl
  rw [CompiledRanges.index_eq h, hget]

/-! ### The whole pipeline -/

/-- What `Ipv4Ranges::exclude` returns. -/
theorem Ipv4Ranges.exclude_spec {scans excludes : Ipv4Ranges} (hs : Ascending scans.inner)
    (he : StartSorted excludes.inner) :
    ∃ kept : Ipv4Ranges, scans.exclude excludes = .ok kept ∧ Ascending kept.inner ∧
      ∀ a, Covers kept.inner a ↔ Covers scans.inner a ∧ ¬ Covers excludes.inner a := by
  obtain ⟨scans⟩ := scans
  obtain ⟨excludes⟩ := excludes
  cases excludes with
  -- nothing excluded, and nothing to exclude from: both are returned at once
  | nil => exact ⟨⟨scans⟩, rfl, hs, by simp⟩
  | cons exclude excludes =>
    cases scans with
    | nil => exact ⟨⟨[]⟩, rfl, hs, by simp⟩
    | cons scan scans =>
      obtain ⟨kept, heq, hk⟩ := excludeLoop_spec [] scan scans exclude excludes hs he
      refine ⟨⟨kept⟩, ?_, hk.ascending, hk.covers⟩
      simp only [Ipv4Ranges.exclude, heq]
      rfl

/-- **Exclusion followed by compilation is exact.** On ascending disjoint scan ranges and exclude
ranges sorted by start, no step fails, `count` is the number of addresses in scope, `index`
enumerates exactly these addresses in strictly ascending order, and it panics exactly past the
end. -/
theorem Ipv4Ranges.exclude_compile_exact (scans excludes : Ipv4Ranges)
    (hs : Ascending scans.inner) (he : StartSorted excludes.inner) :
    ∃ (kept : Ipv4Ranges) (compiled : CompiledRanges) (addrs : List Ipv4Addr),
      scans.exclude excludes = .ok kept ∧ kept.compile = .ok compiled ∧
      compiled.count
        = Set.ncard {a | Covers scans.inner a ∧ ¬ Covers excludes.inner a} ∧
      (List.range compiled.count).map compiled.index = addrs.map Except.ok ∧
      addrs.Pairwise (· < ·) ∧
      (∀ a, a ∈ addrs ↔ Covers scans.inner a ∧ ¬ Covers excludes.inner a) ∧
      ∀ i, compiled.index i = .error .panic ↔ compiled.count ≤ i := by
  obtain ⟨kept, hexclude, hasc, hcov⟩ := exclude_spec hs he
  -- there are 2³² addresses, so the count fits into 64 bits
  have hlt : total kept.inner < 2 ^ usizeBits := by
    have := hasc.total_le 0 fun _ _ => Nat.zero_le _
    exact Nat.lt_of_le_of_lt this (by decide)
  have hcompile := compileLoop_spec hasc.start_le [] 0 (by omega)
  rw [List.nil_append, Nat.zero_add] at hcompile
  have hindex := CompiledRanges.index_eq (show kept.compile = .ok _ from hcompile)
  have hmem : ∀ a, a ∈ addresses kept.inner ↔
      Covers scans.inner a ∧ ¬ Covers excludes.inner a := fun a => by
    rw [mem_addresses hasc.start_le, hcov]
  have hpw := hasc.pairwise_addresses
  refine ⟨kept, _, addresses kept.inner, hexclude, hcompile, ?_, ?_, hpw, hmem, fun i => ?_⟩
  · -- the address list has no repetition, so its length is the cardinality
    have hnodup : (addresses kept.inner).Nodup := hpw.imp fun h heq => by
      rw [heq] at h
      exact BitVec.lt_irrefl _ h
    have hset : {a | Covers scans.inner a ∧ ¬ Covers excludes.inner a}
        = ((addresses kept.inner).toFinset : Set Ipv4Addr) := by
      ext a
      simp [hmem]
    rw [hset, Set.ncard_coe_finset, List.toFinset_card_of_nodup hnodup, length_addresses]
  · -- the indices below the count give the addresses in order
    refine List.ext_getElem? fun i => ?_
    rw [List.getElem?_map, List.getElem?_map, ← length_addresses]
    by_cases hi : i < (addresses kept.inner).length
    · rw [List.getElem?_range hi, List.getElem?_eq_getElem hi, Option.map_some, Option.map_some,
        length_addresses, hindex, List.getElem?_eq_getElem hi]
    · rw [List.getElem?_eq_none (by simpa using hi), List.getElem?_eq_none (by omega)]
      rfl
  · rw [hindex]
    by_cases hi : i < (addresses kept.inner).length
    · rw [List.getElem?_eq_getElem hi]
      rw [length_addresses] at hi
      simpa using hi
    · rw [List.getElem?_eq_none (by omega)]
      rw [length_addresses] at hi
      simpa using hi

/-- The whole address space, with exclude ranges that touch both of its ends, nest and overlap. -/
theorem Ipv4Ranges.exclude_compile_exact_full :
    ∃ kept compiled,
      Ipv4Ranges.exclude ⟨[⟨0x00000000#32, 0xFFFFFFFF#32⟩]⟩
        ⟨[⟨0x00000000#32, 0x00FFFFFF#32⟩, ⟨0x00000005#32, 0x00000007#32⟩,
          ⟨0x00000006#32, 0x0A0000FF#32⟩, ⟨0xE0000000#32, 0xFFFFFFFF#32⟩]⟩ = .ok kept ∧
      kept.compile = .ok compiled ∧
      ∀ i, compiled.index i = .error .panic ↔ compiled.count ≤ i := by
  obtain ⟨kept, compiled, addrs, hexclude, hcompile, -, -, -, -, hpanic⟩ :=
    exclude_compile_exact ⟨[⟨0x00000000#32, 0xFFFFFFFF#32⟩]⟩
      ⟨[⟨0x00000000#32, 0x00FFFFFF#32⟩, ⟨0x00000005#32, 0x00000007#32⟩,
        ⟨0x00000006#32, 0x0A0000FF#32⟩, ⟨0xE0000000#32, 0xFFFFFFFF#32⟩]⟩
      ⟨by decide, by decide⟩ ⟨by decide, by decide⟩
  exact ⟨kept, compiled, hexclude, hcompile, hpanic⟩

end Farsight
