import Farsight.Lib.Machine

/-!
# Address ranges: exclusion and compilation

The scan scope is a list of inclusive IPv4 ranges. `Ipv4Ranges.exclude` takes the exclude list out
of it in one sweep over both lists, `Ipv4Ranges.compile` annotates every remaining range with the
number of addresses before it, and `CompiledRanges.index` reads the `i`-th address of the scope by a
binary search over these cumulative counts.

All arithmetic is checked (`Machine.Fault.overflow`): addresses are 32-bit words, counts and
positions are `usize` values of 64 bits.
-/

namespace Farsight

open Machine

/-- An IPv4 address, as the 32-bit word `Ipv4Addr::to_bits` returns. -/
abbrev Ipv4Addr := BitVec 32

/-- The width of `usize`. -/
abbrev usizeBits : ℕ := 64

/-- A range with both ends included. -/
structure RangeInclusive (T : Type) where
  start : T
  last : T
  deriving DecidableEq, Repr

/-- The ranges of a scan scope, before compilation. -/
structure Ipv4Ranges where
  inner : List (RangeInclusive Ipv4Addr)
  deriving DecidableEq, Repr

/-- What compilation adds to a range: the number of addresses before it and the number of its own
addresses. -/
structure CompilationInfo where
  index : ℕ
  count : ℕ
  deriving DecidableEq, Repr

/-- The compiled scope. -/
structure CompiledRanges where
  inner : List (RangeInclusive (BitVec 32) × CompilationInfo)
  count : ℕ
  deriving DecidableEq, Repr

namespace Ipv4Ranges

/-- The loop of `exclude`. `inner` is the output pushed so far, `scanRange` and `excludeRange` are
the two cursors, `scanRanges` and `excludeRanges` what the two iterators still hold. The `break`s of
the source fall through to `self.inner.extend(scan_ranges)`. -/
def excludeLoop (inner : List (RangeInclusive Ipv4Addr))
    (scanRange : RangeInclusive Ipv4Addr) (scanRanges : List (RangeInclusive Ipv4Addr))
    (excludeRange : RangeInclusive Ipv4Addr) (excludeRanges : List (RangeInclusive Ipv4Addr)) :
    Except Fault (List (RangeInclusive Ipv4Addr)) :=
  if scanRange.last < excludeRange.start then
    -- the scan range ends before the exclude range: keep it
    match scanRanges with
    | newRange :: scanRanges =>
      excludeLoop (inner ++ [scanRange]) newRange scanRanges excludeRange excludeRanges
    | [] => .ok (inner ++ [scanRange])
  else if scanRange.start > excludeRange.last then
    -- the exclude range is passed, and after the last one all the rest stays
    match excludeRanges with
    | newRange :: excludeRanges => excludeLoop inner scanRange scanRanges newRange excludeRanges
    | [] => .ok (inner ++ [scanRange] ++ scanRanges)
  else if scanRange.start < excludeRange.start ∧ scanRange.last > excludeRange.last then
    -- the exclude range splits the scan range, which goes on behind it
    match subBits excludeRange.start 1#32 with
    | .error e => .error e
    | .ok last =>
      match _h : addBits excludeRange.last 1#32 with
      | .error e => .error e
      | .ok start =>
        excludeLoop (inner ++ [⟨scanRange.start, last⟩]) { scanRange with start := start }
          scanRanges excludeRange excludeRanges
  else if scanRange.start < excludeRange.start then
    -- only the front of the scan range is left
    match subBits excludeRange.start 1#32 with
    | .error e => .error e
    | .ok last =>
      match scanRanges with
      | newRange :: scanRanges =>
        excludeLoop (inner ++ [⟨scanRange.start, last⟩]) newRange scanRanges
          excludeRange excludeRanges
      | [] => .ok (inner ++ [⟨scanRange.start, last⟩])
  else if scanRange.last > excludeRange.last then
    -- only the end of the scan range is left, and stays under the cursor
    match _h : addBits excludeRange.last 1#32 with
    | .error e => .error e
    | .ok start =>
      excludeLoop inner { scanRange with start := start } scanRanges excludeRange excludeRanges
  else
    -- nothing of the scan range is left
    match scanRanges with
    | newRange :: scanRanges => excludeLoop inner newRange scanRanges excludeRange excludeRanges
    | [] => .ok inner
-- Each turn drops a range of one of the lists, or moves `scanRange` past `excludeRange`, after
-- which the next turn drops `excludeRange`.
termination_by
  2 * (scanRanges.length + excludeRanges.length) +
    if scanRange.start ≤ excludeRange.last then 1 else 0
decreasing_by
  all_goals simp only [List.length_cons, BitVec.le_def, gt_iff_lt, BitVec.lt_def] at *
  all_goals try have hs := addBits_eq_ok _h
  all_goals try simp only [BitVec.toNat_ofNat] at hs
  all_goals split_ifs <;> omega

/-- `Ipv4Ranges::exclude`. -/
def exclude (self excludeRanges : Ipv4Ranges) : Except Fault Ipv4Ranges :=
  match excludeRanges.inner with
  | [] => .ok self
  | excludeRange :: excludeRanges =>
    match self.inner with
    | [] => .ok ⟨[]⟩
    | scanRange :: scanRanges =>
      (excludeLoop [] scanRange scanRanges excludeRange excludeRanges).map Ipv4Ranges.mk

/-- The loop of `compile`: `ranges` is the output so far, `index` the number of addresses in it. -/
def compileLoop (ranges : List (RangeInclusive (BitVec 32) × CompilationInfo)) (index : ℕ) :
    List (RangeInclusive Ipv4Addr) → Except Fault CompiledRanges
  | [] => .ok ⟨ranges, index⟩
  | range :: rest => do
    -- `(end - start) as usize + 1`
    let count ← subNat range.last.toNat range.start.toNat
    let count ← addNat usizeBits count 1
    let index' ← addNat usizeBits index count
    compileLoop (ranges ++ [(range, ⟨index, count⟩)]) index' rest

/-- `Ipv4Ranges::compile`. -/
def compile (self : Ipv4Ranges) : Except Fault CompiledRanges :=
  compileLoop [] 0 self.inner

end Ipv4Ranges

namespace CompiledRanges

/-- The loop of `index`, on the window `[start, stop)` of `inner`. -/
def indexLoop (self : CompiledRanges) (index start stop : ℕ) : Except Fault (BitVec 32) :=
  if start < stop then
    let mid := (start + stop) / 2
    -- the source reads this entry unchecked
    match self.inner[mid]? with
    | none => .error .outOfBounds
    | some range =>
      match addNat usizeBits range.2.index range.2.count with
      | .error e => .error e
      | .ok upper =>
        if upper ≤ index then
          indexLoop self index (mid + 1) stop
        else if range.2.index > index then
          indexLoop self index start mid
        else do
          let addr ← subNat index range.2.index
          addBits range.1.start (BitVec.ofNat 32 addr)
  else
    .error .panic
termination_by stop - start

/-- `CompiledRanges::index`; the final `panic!` is `Fault.panic`. -/
def index (self : CompiledRanges) (index : ℕ) : Except Fault (BitVec 32) :=
  self.indexLoop index 0 self.inner.length

end CompiledRanges

end Farsight
