import Farsight.Lib.Text
import Farsight.Net.Range
import Mathlib.Data.List.Sort

/-!
# The exclude file

`exclude::parse` reads the addresses that are never scanned: one entry a line, an address, a CIDR
block or a range, and comments.

The arithmetic for the mask of a block is that of `u8` and `u32`. A build with overflow checks stops
where the result does not fit, and one without them goes on with what is left of it: `Build` is the
choice.

* `parseU8`, `ipv4FromStr` — what the standard library reads. An address is a dotted quad;
* `maskBits` — the mask of a prefix length, in three operations;
* `parseEntry`, `parseLines`, `parse` — the functions of the source, line by line.
-/

namespace Farsight

namespace Exclude

open Machine

/-- How the program was built. -/
inductive Build where
  /-- With overflow checks. -/
  | checked
  /-- Without them. -/
  | wrapping
  deriving DecidableEq, Repr

/-- `IntErrorKind`. -/
inductive IntErrorKind where
  | empty
  | invalidDigit
  | posOverflow
  deriving DecidableEq, Repr

/-- The errors of `parse`. -/
inductive Error where
  /-- A line with `/` and `-`. -/
  | mixed (line : List Char)
  /-- A range that ends before it starts. -/
  | reversed (line : List Char)
  | parseInt (kind : IntErrorKind)
  | addrParse
  deriving DecidableEq, Repr

/-- The texts of the errors that the source makes itself. -/
def Error.message : Error → Option String
  | .mixed line =>
    some ("Invalid exclude range: " ++ String.ofList line ++ " (cannot contain both - and /)")
  | .reversed line =>
    some ("Invalid exclude range: " ++ String.ofList line ++ " (start cannot be greater than end)")
  | _ => none

/-- Why `parse` returns no ranges. -/
inductive Stop where
  | error (error : Error)
  | panic
  deriving DecidableEq, Repr

/-! ### Numbers and addresses -/

/-- The loop of `u8::from_str`. -/
def parseU8Loop : ℕ → List Char → Except IntErrorKind ℕ
  | value, [] => .ok value
  | value, c :: text =>
    match Text.digit c with
    | none => .error .invalidDigit
    | some d =>
      if 255 < 10 * value + d then .error .posOverflow else parseU8Loop (10 * value + d) text

/-- `u8::from_str`. -/
def parseU8 : List Char → Except IntErrorKind ℕ
  | [] => .error .empty
  | ['+'] => .error .invalidDigit
  | '+' :: text => parseU8Loop 0 text
  | text => parseU8Loop 0 text

/-- An octet of a dotted quad: up to three digits, no leading zero, at most 255. -/
def octet (text : List Char) : Option (BitVec 8) :=
  match Text.decimal text with
  | none => none
  | some n =>
    if text.length ≤ 3 ∧ (text.head? = some '0' → text.length = 1) ∧ n ≤ 255 then some (.ofNat 8 n)
    else none

/-- `Ipv4Addr::from_str`. -/
def ipv4FromStr (text : List Char) : Option Ipv4Addr :=
  match text.splitOn '.' with
  | [a, b, c, d] =>
    match octet a, octet b, octet c, octet d with
    | some a, some b, some c, some d => some (a ++ b ++ c ++ d)
    | _, _, _, _ => none
  | _ => none

/-! ### Masks -/

/-- An operation whose checked result is known and whose wrapped result is given. -/
def Build.eval {α : Type} (self : Build) (checked : Except Fault α) (wrapped : α) :
    Except Stop α :=
  match self with
  | .checked =>
    match checked with
    | .ok value => .ok value
    | .error _ => .error .panic
  | .wrapping => .ok wrapped

/-- `u32::pow`, by the low bits of the power. -/
def wrappingPow (base : BitVec 32) (exponent : ℕ) : BitVec 32 :=
  .ofNat 32 (base.toNat ^ exponent)

/-- `u32::pow`, checked. -/
def powBits (base : BitVec 32) (exponent : ℕ) : Except Fault (BitVec 32) :=
  if base.toNat ^ exponent < 2 ^ 32 then .ok (wrappingPow base exponent) else .error .overflow

/-- `2u32.pow((32 - mask) as u32) - 1`. -/
def maskBits (build : Build) (mask : BitVec 8) : Except Stop (BitVec 32) := do
  let mask ← build.eval (subBits 32 mask) (32 - mask)
  let power ← build.eval (powBits 2 mask.toNat) (wrappingPow 2 mask.toNat)
  build.eval (subBits power 1) (power - 1)

/-! ### Lines -/

/-- The error of a fallible call, as `?` returns it. -/
def orError {α : Type} (error : Error) : Option α → Except Stop α
  | some value => .ok value
  | none => .error (.error error)

/-- The part of a line that is looked at, unless there is none. -/
def strip (line : List Char) : Option (List Char) :=
  let line := Text.trim line
  if line = [] ∨ line.head? = some '#' then none
  -- remove everything after the first #
  else some (Text.trim (line.takeWhile (· ≠ '#')))

/-- The range of a line. -/
def parseEntry (build : Build) (line : List Char) : Except Stop (RangeInclusive Ipv4Addr) :=
  let isSlash := '/' ∈ line
  let isHypen := '-' ∈ line
  if isSlash ∧ isHypen then
    .error (.error (.mixed line))
  else if isSlash then
    match line.splitOn '/' with
    | ip :: mask :: _ => do
      let mask ← (parseU8 mask).mapError fun kind => .error (.parseInt kind)
      let bits ← maskBits build (.ofNat 8 mask)
      let ip ← orError .addrParse (ipv4FromStr ip)
      return { start := ip &&& ~~~bits, last := ip ||| bits }
    | _ => .error .panic
  else if isHypen then
    match line.splitOn '-' with
    | ipStart :: ipEnd :: _ => do
      let ipStart ← orError .addrParse (ipv4FromStr ipStart)
      let ipEnd ← orError .addrParse (ipv4FromStr ipEnd)
      if ipStart > ipEnd then
        .error (.error (.reversed line))
      else
        return { start := ipStart, last := ipEnd }
    | _ => .error .panic
  else do
    let ip ← orError .addrParse (ipv4FromStr line)
    return { start := ip, last := ip }

/-- The loop of `parse`, by the ranges that it pushes. -/
def parseLines (build : Build) : List (List Char) → Except Stop (List (RangeInclusive Ipv4Addr))
  | [] => .ok []
  | line :: lines =>
    match strip line with
    | none => parseLines build lines
    | some line => do
      let range ← parseEntry build line
      let ranges ← parseLines build lines
      return range :: ranges

/-- `sort_by_key`, which keeps the order of ranges with the same start. -/
def sortByStart (ranges : List (RangeInclusive Ipv4Addr)) : List (RangeInclusive Ipv4Addr) :=
  ranges.insertionSort fun r r' => r.start ≤ r'.start

def parse (build : Build) (input : List Char) : Except Stop Ipv4Ranges := do
  let ranges ← parseLines build (Text.lines input)
  return ⟨sortByStart ranges⟩

end Exclude

end Farsight
