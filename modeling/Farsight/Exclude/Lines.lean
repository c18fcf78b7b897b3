import Farsight.Exclude.Parse

/-!
# What the lines of the exclude file are read as

`parse` looks at the first two pieces of a line that is split at `/` or `-`, and not whether there
are others. The prefix length is what `u8::from_str` reads, and nothing asks whether it is at most
32: its mask is computed at once, and a build with overflow checks stops at a length of 0 or above
32. The first line that is not taken decides what `parse` returns.

* `maskBits_eq` — the mask, or the overflow;
* `Reads` — what `parseEntry` takes, and the range it makes of it; `reads_or_stops` has the rest;
* `taken_or_stops` — the loop over the lines;
* `mask_safe_iff` — on which texts the arithmetic for the masks stays in range.
-/

namespace Farsight

namespace Exclude

open Machine

/-! ### Characters -/

variable {text : List Char}

theorem isSome_digit_of_decimal {n : ℕ} (h : Text.decimal text = some n) {c : Char}
    (hc : c ∈ text) : (Text.digit c).isSome := by
  rw [Text.decimal] at h
  split at h
  · cases h
  · exact Text.isSome_digit_of_mem h hc

theorem isSome_digit_of_octet {o : BitVec 8} (h : octet text = some o) {c : Char} (hc : c ∈ text) :
    (Text.digit c).isSome := by
  rw [octet] at h
  split at h
  · cases h
  · next n hn => exact isSome_digit_of_decimal hn hc

/-- An address has only digits and points. -/
theorem char_of_ipv4FromStr {ip : Ipv4Addr} (h : ipv4FromStr text = some ip) {c : Char}
    (hc : c ∈ text) : c = '.' ∨ (Text.digit c).isSome := by
  rcases Text.mem_of_splitOn '.' hc with heq | ⟨piece, hpiece, hc⟩
  · exact .inl heq
  · refine .inr ?_
    rw [ipv4FromStr] at h
    split at h
    · next a b c' d hpieces =>
      split at h
      · next ha hb hc' hd =>
        rw [hpieces] at hpiece
        simp only [List.mem_cons, List.not_mem_nil, or_false] at hpiece
        -- each of the four pieces is an octet
        rcases hpiece with rfl | rfl | rfl | rfl
        · exact isSome_digit_of_octet ha hc
        · exact isSome_digit_of_octet hb hc
        · exact isSome_digit_of_octet hc' hc
        · exact isSome_digit_of_octet hd hc
      · cases h
    · cases h

/-- So it has no separator. -/
theorem notMem_of_ipv4FromStr {ip : Ipv4Addr} (h : ipv4FromStr text = some ip) {sep : Char}
    (hpoint : sep ≠ '.') (hdigit : Text.digit sep = none) : sep ∉ text := by
  intro hsep
  rcases char_of_ipv4FromStr h hsep with heq | hsome
  · exact hpoint heq
  · rw [hdigit] at hsome
    cases hsome

/-- An address has no separator of a line in it, so the three kinds of line exclude each other. -/
theorem slash_notMem {ip : Ipv4Addr} (h : ipv4FromStr text = some ip) : '/' ∉ text :=
  notMem_of_ipv4FromStr h (by decide) (by decide)

theorem hyphen_notMem {ip : Ipv4Addr} (h : ipv4FromStr text = some ip) : '-' ∉ text :=
  notMem_of_ipv4FromStr h (by decide) (by decide)

theorem notMem_of_decimal {n : ℕ} (h : Text.decimal text = some n) {sep : Char}
    (hdigit : Text.digit sep = none) : sep ∉ text := by
  intro hsep
  have hsome := isSome_digit_of_decimal h hsep
  rw [hdigit] at hsome
  cases hsome

/-! ### Prefix lengths -/

/-- `u8::from_str` returns the value of the digits if that fits. The intermediate values are no
greater than the last one, so no step overflows before. -/
theorem parseU8Loop_ok {value n : ℕ} (h : Text.digitsFrom value text = some n) (hle : n ≤ 255) :
    parseU8Loop value text = .ok n := by
  induction text generalizing value with
  | nil => rw [parseU8Loop, Option.some.inj h]
  | cons c text ih =>
    rw [Text.digitsFrom] at h
    rw [parseU8Loop]
    cases hd : Text.digit c with
    | none =>
      rw [hd] at h
      cases h
    | some d =>
      rw [hd] at h
      -- the value so far is at most the final one
      have hvalue := Text.le_of_digitsFrom h
      dsimp only
      rw [if_neg (by omega), ih h]

theorem parseU8Loop_le {value n : ℕ} (hvalue : value ≤ 255) (h : parseU8Loop value text = .ok n) :
    n ≤ 255 := by
  induction text generalizing value with
  | nil => exact (Except.ok.inj h) ▸ hvalue
  | cons c text ih =>
    rw [parseU8Loop] at h
    split at h
    · cases h
    · split at h
      · cases h
      · next hle => exact ih (Nat.not_lt.mp hle) h

/-- `u8::from_str` reads a string of digits by its value. -/
theorem parseU8_ok {n : ℕ} (h : Text.decimal text = some n) (hle : n ≤ 255) :
    parseU8 text = .ok n := by
  -- a sign would be accepted by the source, but is no decimal number
  have hplus : '+' ∉ text := notMem_of_decimal h (by decide)
  rw [Text.decimal] at h
  split at h
  · cases h
  · next hne =>
    unfold parseU8
    split
    · exact absurd rfl hne
    · exact absurd List.mem_cons_self hplus
    · exact absurd List.mem_cons_self hplus
    · exact parseU8Loop_ok h hle

/-- What `u8::from_str` returns fits, with or without a sign. -/
theorem parseU8_le {n : ℕ} (h : parseU8 text = .ok n) : n ≤ 255 := by
  unfold parseU8 at h
  split at h
  · cases h
  · cases h
  · exact parseU8Loop_le (by decide) h
  · exact parseU8Loop_le (by decide) h

/-- The mask of a prefix length. With a length above 32 it has all bits. -/
def maskOf (length : ℕ) : BitVec 32 :=
  if length ≤ 32 then .ofNat 32 (2 ^ (32 - length) - 1) else .allOnes 32

/-- The mask, computed with wrapping arithmetic. At length 0 the power is 0, and the subtraction
gives all ones. -/
theorem wrappingPow_sub_one (exponent : ℕ) :
    wrappingPow 2 exponent - 1 = BitVec.ofNat 32 (2 ^ exponent - 1) := by
  have hpos := Nat.two_pow_pos exponent
  apply BitVec.eq_of_toNat_eq
  change (wrappingPow 2 exponent - 1#32).toNat = _
  rw [BitVec.toNat_sub, wrappingPow, BitVec.toNat_ofNat, BitVec.toNat_ofNat, BitVec.toNat_ofNat]
  change (2 ^ 32 - 1 % 2 ^ 32 + 2 ^ exponent % 2 ^ 32) % 2 ^ 32 = _
  omega

/-- A power that does not fit leaves a mask with all bits. -/
theorem ofNat_two_pow_sub_one {exponent : ℕ} (h : 32 ≤ exponent) :
    BitVec.ofNat 32 (2 ^ exponent - 1) = .allOnes 32 := by
  have hpos := Nat.two_pow_pos exponent
  have hmod : 2 ^ exponent % 2 ^ 32 = 0 := Nat.mod_eq_zero_of_dvd (Nat.pow_dvd_pow 2 h)
  apply BitVec.eq_of_toNat_eq
  rw [BitVec.toNat_ofNat, BitVec.toNat_allOnes]
  omega

/-- Without checks, a length above 32 gives all bits. -/
theorem maskBits_wrapping {length : ℕ} (h : length ≤ 255) :
    maskBits .wrapping (.ofNat 8 length) = .ok (maskOf length) := by
  have hlength : (BitVec.ofNat 8 length).toNat = length := by
    rw [BitVec.toNat_ofNat]
    exact Nat.mod_eq_of_lt (by omega)
  change Except.ok (wrappingPow 2 (32#8 - BitVec.ofNat 8 length).toNat - 1) = _
  rw [wrappingPow_sub_one, maskOf, BitVec.toNat_sub, hlength]
  change Except.ok (BitVec.ofNat 32 (2 ^ ((2 ^ 8 - length + 32) % 2 ^ 8) - 1)) = _
  split
  · next hle =>
    -- no wrap here. A longer prefix wraps to an exponent above 32, where all bits are set
    have hexponent : (2 ^ 8 - length + 32) % 2 ^ 8 = 32 - length := by omega
    rw [hexponent]
  · next hgt => rw [ofNat_two_pow_sub_one (by omega)]

/-- With checks, the length 0 stops where the power does not fit, and a length above 32 where the
difference is negative. -/
theorem maskBits_checked {length : ℕ} (h : length ≤ 255) :
    maskBits .checked (.ofNat 8 length) =
      if 1 ≤ length ∧ length ≤ 32 then .ok (maskOf length) else .error .panic := by
  have hlength : (BitVec.ofNat 8 length).toNat = length := by
    rw [BitVec.toNat_ofNat]
    exact Nat.mod_eq_of_lt (by omega)
  by_cases hle : length ≤ 32
  · have hle' : (BitVec.ofNat 8 length).toNat ≤ (32 : BitVec 8).toNat := by rwa [hlength]
    -- `32 - length`
    have hsub : subBits (32 : BitVec 8) (.ofNat 8 length) = .ok (32 - .ofNat 8 length) :=
      if_pos hle'
    have hexponent : ((32 : BitVec 8) - BitVec.ofNat 8 length).toNat = 32 - length := by
      rw [BitVec.toNat_sub_of_le hle', hlength]
      rfl
    by_cases hpos : 1 ≤ length
    · -- `2u32.pow(..)` and the subtraction of one
      have hlt : 2 ^ (32 - length) < 2 ^ 32 := Nat.pow_lt_pow_right (by decide) (by omega)
      have hpow : powBits 2 (32 - length) = .ok (wrappingPow 2 (32 - length)) := if_pos hlt
      have hone : subBits (wrappingPow 2 (32 - length)) 1 =
          .ok (wrappingPow 2 (32 - length) - 1) := by
        refine if_pos ?_
        rw [wrappingPow, BitVec.toNat_ofNat]
        exact (Nat.two_pow_pos _).trans_eq (Nat.mod_eq_of_lt hlt).symm
      rw [if_pos ⟨hpos, hle⟩, maskOf, if_pos hle, ← wrappingPow_sub_one]
      simp only [maskBits, Build.eval, bind, Except.bind, hsub, hexponent, hpow, hone]
    · -- `2u32.pow(32)` overflows
      obtain rfl : length = 0 := by omega
      rfl
  · have hsub : subBits (32 : BitVec 8) (.ofNat 8 length) = .error .overflow := by
      -- more than 32: the subtraction overflows
      refine if_neg ?_
      rwa [hlength]
    rw [if_neg fun h => hle h.2]
    simp only [maskBits, Build.eval, bind, Except.bind, hsub]

/-- The arithmetic of the mask stays in range, or is not checked. -/
def Fits (build : Build) (length : ℕ) : Prop :=
  build = .checked → 1 ≤ length ∧ length ≤ 32

instance (build : Build) (length : ℕ) : Decidable (Fits build length) :=
  inferInstanceAs (Decidable (_ → _))

/-- Both builds in one statement: only a checked build has a length at which it stops. -/
theorem maskBits_eq (build : Build) {length : ℕ} (h : length ≤ 255) :
    maskBits build (.ofNat 8 length) =
      if Fits build length then .ok (maskOf length) else .error .panic := by
  cases build with
  | checked =>
    rw [maskBits_checked h]
    simp only [Fits, true_imp_iff]
  | wrapping =>
    rw [maskBits_wrapping h, if_pos]
    rintro ⟨⟩

/-! ### What a line is read as -/

variable {build : Build} {line addr mask addr' : List Char} {ignored : List (List Char)}

/-- A line with `/`: the length is read and its mask computed before the address is read, and what
comes after a second `/` plays no part. -/
theorem parseEntry_slash (hhyphen : '-' ∉ line)
    (hpieces : line.splitOn '/' = addr :: mask :: ignored) :
    parseEntry build line =
      match parseU8 mask with
      | .error kind => .error (.error (.parseInt kind))
      | .ok length =>
        if Fits build length then
          match ipv4FromStr addr with
          | none => .error (.error .addrParse)
          | some ip => .ok { start := ip &&& ~~~maskOf length, last := ip ||| maskOf length }
        else .error .panic := by
  have hslash := Text.mem_of_splitOn_eq_cons_cons hpieces
  rw [parseEntry, if_neg fun h => hhyphen h.2, if_pos hslash, hpieces]
  dsimp only
  -- the length is parsed first, then the mask is computed, and the address comes last
  cases hlength : parseU8 mask with
  | error kind => rfl
  | ok length =>
    simp only [bind, Except.bind, Except.mapError, maskBits_eq build (parseU8_le hlength)]
    by_cases hfits : Fits build length
    · rw [if_pos hfits, if_pos hfits]
      cases ipv4FromStr addr with
      | none => rfl
      | some ip => rfl
    · rw [if_neg hfits, if_neg hfits]

/-- A line with `-`: what comes after a second `-` plays no part. -/
theorem parseEntry_hyphen (hslash : '/' ∉ line)
    (hpieces : line.splitOn '-' = addr :: addr' :: ignored) :
    parseEntry build line =
      match ipv4FromStr addr, ipv4FromStr addr' with
      | some start, some last =>
        if start ≤ last then .ok { start, last } else .error (.error (.reversed line))
      | _, _ => .error (.error .addrParse) := by
  have hhyphen := Text.mem_of_splitOn_eq_cons_cons hpieces
  rw [parseEntry, if_neg fun h => hslash h.1, if_neg hslash, if_pos hhyphen, hpieces]
  dsimp only
  -- both addresses are parsed before they are compared
  cases ipv4FromStr addr with
  | none => rfl
  | some start =>
    cases ipv4FromStr addr' with
    | none => rfl
    | some last =>
      simp only [bind, Except.bind, orError]
      by_cases hle : start ≤ last
      · rw [if_pos hle, if_neg (not_lt.mpr hle)]
        rfl
      · rw [if_neg hle, if_pos (not_le.mp hle)]

theorem parseEntry_single (hslash : '/' ∉ line) (hhyphen : '-' ∉ line) :
    parseEntry build line =
      match ipv4FromStr line with
      | none => .error (.error .addrParse)
      | some ip => .ok { start := ip, last := ip } := by
  rw [parseEntry, if_neg fun h => hslash h.1, if_neg hslash, if_neg hhyphen]
  cases ipv4FromStr line with
  | none => rfl
  | some ip => rfl

/-- What `parseEntry` takes: an address; pieces between `/`, the first two of which are an address
and a length; or pieces between `-`, the first two of which are addresses. -/
inductive Reads (build : Build) (line : List Char) : RangeInclusive Ipv4Addr → Prop
  | single {ip : Ipv4Addr} (hip : ipv4FromStr line = some ip) : Reads build line ⟨ip, ip⟩
  | block {addr mask : List Char} {ignored : List (List Char)} {ip : Ipv4Addr} {length : ℕ}
      (hpieces : line.splitOn '/' = addr :: mask :: ignored) (hhyphen : '-' ∉ line)
      (hip : ipv4FromStr addr = some ip) (hlength : parseU8 mask = .ok length)
      (hfits : Fits build length) :
      Reads build line ⟨ip &&& ~~~maskOf length, ip ||| maskOf length⟩
  | range {addr addr' : List Char} {ignored : List (List Char)} {start last : Ipv4Addr}
      (hpieces : line.splitOn '-' = addr :: addr' :: ignored) (hslash : '/' ∉ line)
      (hstart : ipv4FromStr addr = some start) (hlast : ipv4FromStr addr' = some last)
      (hle : start ≤ last) : Reads build line ⟨start, last⟩

/-- The grammar is accepted, with the range that it stands for. -/
theorem parseEntry_of_reads {range : RangeInclusive Ipv4Addr} (h : Reads build line range) :
    parseEntry build line = .ok range := by
  cases h with
  | single hip =>
    rw [parseEntry_single (slash_notMem hip) (hyphen_notMem hip), hip]
  | block hpieces hhyphen hip hlength hfits =>
    rw [parseEntry_slash hhyphen hpieces, hlength]
    dsimp only
    rw [if_pos hfits, hip]
  | range hpieces hslash hstart hlast hle =>
    rw [parseEntry_hyphen hslash hpieces, hstart, hlast]
    dsimp only
    rw [if_pos hle]

/-- The length that `u8::from_str` lets through. -/
def prefixLength (line : List Char) : Option ℕ :=
  if '/' ∈ line ∧ '-' ∉ line then
    match line.splitOn '/' with
    | _ :: mask :: _ => (parseU8 mask).toOption
    | _ => none
  else none

/-- The length is read from the second piece, and what comes after a second slash is ignored. -/
theorem prefixLength_slash (hhyphen : '-' ∉ line)
    (hpieces : line.splitOn '/' = addr :: mask :: ignored) :
    prefixLength line = (parseU8 mask).toOption := by
  rw [prefixLength, if_pos ⟨Text.mem_of_splitOn_eq_cons_cons hpieces, hhyphen⟩, hpieces]

theorem prefixLength_of_notMem (hslash : '/' ∉ line) : prefixLength line = none :=
  if_neg fun h => hslash h.1

/-- The other lines: the arithmetic overflows, or there is an error. -/
theorem reads_or_stops (build : Build) (line : List Char) :
    (∃ range, Reads build line range) ∨
    (parseEntry build line = .error .panic ∧
      ∃ length, prefixLength line = some length ∧ ¬ Fits build length) ∨
    ((∃ error, parseEntry build line = .error (.error error)) ∧
      ∀ length, prefixLength line = some length → Fits build length) := by
  by_cases hslash : '/' ∈ line
  · by_cases hhyphen : '-' ∈ line
    · -- both separators: no length is read
      refine .inr (.inr ⟨⟨.mixed line, if_pos ⟨hslash, hhyphen⟩⟩, fun length h => ?_⟩)
      rw [prefixLength, if_neg fun h => h.2 hhyphen] at h
      cases h
    · -- a block
      obtain ⟨addr, mask, ignored, hpieces⟩ := Text.exists_splitOn_eq_cons_cons hslash
      rw [parseEntry_slash hhyphen hpieces, prefixLength_slash hhyphen hpieces]
      cases hlength : parseU8 mask with
      | error kind => exact .inr (.inr ⟨⟨_, rfl⟩, by rintro length ⟨⟩⟩)
      | ok length =>
        by_cases hfits : Fits build length
        · have hall : ∀ length', some length = some length' → Fits build length' := by
            rintro length' ⟨⟩
            exact hfits
          dsimp only
          rw [if_pos hfits]
          cases hip : ipv4FromStr addr with
          | none => exact .inr (.inr ⟨⟨_, rfl⟩, hall⟩)
          | some ip => exact .inl ⟨_, .block hpieces hhyphen hip hlength hfits⟩
        · exact .inr (.inl ⟨if_neg hfits, length, rfl, hfits⟩)
  · have hlengths (length : ℕ) (h : prefixLength line = some length) : Fits build length := by
      rw [prefixLength_of_notMem hslash] at h
      cases h
    by_cases hhyphen : '-' ∈ line
    · -- a range
      obtain ⟨addr, addr', ignored, hpieces⟩ := Text.exists_splitOn_eq_cons_cons hhyphen
      rw [parseEntry_hyphen hslash hpieces]
      cases hstart : ipv4FromStr addr with
      | none => exact .inr (.inr ⟨⟨_, rfl⟩, hlengths⟩)
      | some start =>
        cases hlast : ipv4FromStr addr' with
        | none => exact .inr (.inr ⟨⟨_, rfl⟩, hlengths⟩)
        | some last =>
          by_cases hle : start ≤ last
          · exact .inl ⟨_, .range hpieces hslash hstart hlast hle⟩
          · exact .inr (.inr ⟨⟨_, if_neg hle⟩, hlengths⟩)
    · -- a single address
      rw [parseEntry_single hslash hhyphen]
      cases hip : ipv4FromStr line with
      | none => exact .inr (.inr ⟨⟨_, rfl⟩, hlengths⟩)
      | some ip => exact .inl ⟨_, .single hip⟩

/-- A line stands for one range: the parser is a function. -/
theorem Reads.unique {range range' : RangeInclusive Ipv4Addr} (h : Reads build line range)
    (h' : Reads build line range') : range = range' :=
  Except.ok.inj ((parseEntry_of_reads h).symm.trans (parseEntry_of_reads h'))

theorem not_reads_nil {range : RangeInclusive Ipv4Addr} : ¬ Reads build [] range := by
  intro h
  cases parseEntry_of_reads h

/-- No range of a line is reversed; of a hyphenated line that is checked, of a block it is how masks
work. -/
theorem Reads.start_le_last {range : RangeInclusive Ipv4Addr} (h : Reads build line range) :
    range.start ≤ range.last := by
  cases h with
  | single hip => exact le_refl _
  | @block _ _ _ ip length =>
    rw [BitVec.le_def, BitVec.toNat_and, BitVec.toNat_or]
    exact Nat.and_le_left.trans Nat.left_le_or
  | range _ _ _ _ hle => exact hle

/-- The lengths of the lines that are read fit. -/
theorem Reads.fits {range : RangeInclusive Ipv4Addr} (h : Reads build line range) {length : ℕ}
    (hlength : prefixLength line = some length) : Fits build length := by
  cases h with
  | single hip =>
    rw [prefixLength_of_notMem (slash_notMem hip)] at hlength
    cases hlength
  | block hpieces hhyphen hip hmask hfits =>
    rw [prefixLength_slash hhyphen hpieces, hmask] at hlength
    cases hlength
    exact hfits
  | range _ hslash =>
    rw [prefixLength_of_notMem hslash] at hlength
    cases hlength

/-- The two builds differ in the lengths that do not fit. -/
theorem Reads.of_fits {build' : Build} {range : RangeInclusive Ipv4Addr}
    (h : Reads build line range)
    (hfits : ∀ length, prefixLength line = some length → Fits build' length) :
    Reads build' line range := by
  cases h with
  | single hip => exact .single hip
  | block hpieces hhyphen hip hlength =>
    refine .block hpieces hhyphen hip hlength (hfits _ ?_)
    rw [prefixLength_slash hhyphen hpieces, hlength]
    rfl
  | range hpieces hslash hstart hlast hle => exact .range hpieces hslash hstart hlast hle

/-- The results of `parseEntry`, by what it reads. -/
theorem parseEntry_ok_iff {range : RangeInclusive Ipv4Addr} :
    parseEntry build line = .ok range ↔ Reads build line range := by
  refine ⟨fun h => ?_, parseEntry_of_reads⟩
  rcases reads_or_stops build line with ⟨range', hreads⟩ | ⟨hstop, -⟩ | ⟨⟨error, hstop⟩, -⟩
  · obtain rfl := Except.ok.inj (h.symm.trans (parseEntry_of_reads hreads))
    exact hreads
  · cases h.symm.trans hstop
  · cases h.symm.trans hstop

/-- A line panics if and only if its length does not fit the arithmetic of the build. -/
theorem parseEntry_eq_panic_iff :
    parseEntry build line = .error .panic ↔
      ∃ length, prefixLength line = some length ∧ ¬ Fits build length := by
  rcases reads_or_stops build line with ⟨range, hreads⟩ | ⟨hstop, hlength⟩ | ⟨⟨error, hstop⟩, hall⟩
  · rw [parseEntry_of_reads hreads]
    exact iff_of_false (by rintro ⟨⟩) fun ⟨length, hlength, hfits⟩ => hfits (hreads.fits hlength)
  · exact iff_of_true hstop hlength
  · rw [hstop]
    exact iff_of_false (by rintro ⟨⟩) fun ⟨length, hlength, hfits⟩ => hfits (hall length hlength)

/-! ### Lines -/

/-- A line without its comment and the white space at its ends. -/
def content (line : List Char) : List Char :=
  Text.trim (line.takeWhile (· ≠ '#'))

/-- The two ways to look at a line are the same. -/
theorem strip_eq (line : List Char) :
    strip line = if content line = [] then none else some (content line) := by
  -- white space starts no comment, so that trimming and cutting the comment off commute
  have hwhite (c : Char) (hc : Text.isWhitespace c) : decide (c ≠ '#') = true := by
    rw [decide_eq_true_eq]
    rintro rfl
    exact absurd hc (by decide)
  have hcontent : Text.trim ((Text.trim line).takeWhile (· ≠ '#')) = content line :=
    Text.trim_takeWhile_trim hwhite line
  rw [strip, hcontent]
  cases htrim : Text.trim line with
  | nil =>
    rw [htrim] at hcontent
    have hnil : content line = [] := hcontent.symm
    rw [if_pos (.inl rfl), if_pos hnil]
  | cons c rest =>
    rw [htrim] at hcontent
    by_cases hc : c = '#'
    · -- a comment line
      subst hc
      have hnil : content line = [] := hcontent.symm
      rw [if_pos (.inr rfl), if_pos hnil]
    · -- the line starts with a character that is kept
      have hne : content line ≠ [] := by
        rw [← hcontent, ne_eq, Text.trim_eq_nil_iff]
        intro hall
        have hfirst := hall c (by simp [hc])
        rw [Text.isWhitespace_of_trim_eq_cons htrim] at hfirst
        cases hfirst
      rw [if_neg (by simp [hc]), if_neg hne]

/-- The line is empty or is read. -/
def Taken (build : Build) (line : List Char) : Prop :=
  content line = [] ∨ ∃ range, Reads build (content line) range

theorem parseLines_cons_of_nil (h : content line = []) (lines : List (List Char)) :
    parseLines build (line :: lines) = parseLines build lines := by
  rw [parseLines, strip_eq, if_pos h]

theorem parseLines_cons_of_ne (h : content line ≠ []) (lines : List (List Char)) :
    parseLines build (line :: lines) = do
      let range ← parseEntry build (content line)
      let ranges ← parseLines build lines
      return range :: ranges := by
  rw [parseLines, strip_eq, if_neg h]

/-- The lines before one that stops the loop give their ranges. -/
theorem parseLines_append {earlier : List (List Char)} (h : ∀ line ∈ earlier, Taken build line)
    (lines : List (List Char)) :
    ∃ ranges, (∀ range, range ∈ ranges ↔ ∃ line ∈ earlier, Reads build (content line) range) ∧
      parseLines build (earlier ++ lines) = (ranges ++ ·) <$> parseLines build lines := by
  induction earlier with
  | nil =>
    refine ⟨[], fun range => by simp, ?_⟩
    cases hlines : parseLines build lines with
    | error stop => rw [List.nil_append, hlines]; rfl
    | ok ranges => rw [List.nil_append, hlines]; rfl
  | cons line earlier ih =>
    obtain ⟨ranges, hranges, hrest⟩ := ih fun line hline => h line (List.mem_cons_of_mem _ hline)
    by_cases hnil : content line = []
    · -- an empty line adds no range
      refine ⟨ranges, fun range => ?_, ?_⟩
      · rw [hranges, List.exists_mem_cons_iff, hnil]
        exact (or_iff_right not_reads_nil).symm
      · rw [List.cons_append, parseLines_cons_of_nil hnil, hrest]
    · -- a line of the grammar adds its range in front
      obtain ⟨range, hreads⟩ := (h line List.mem_cons_self).resolve_left hnil
      refine ⟨range :: ranges, fun range' => ?_, ?_⟩
      · rw [List.mem_cons, hranges, List.exists_mem_cons_iff]
        refine or_congr_left ⟨fun heq => heq ▸ hreads, fun h => h.unique hreads⟩
      · rw [List.cons_append, parseLines_cons_of_ne hnil, parseEntry_of_reads hreads, hrest]
        cases parseLines build lines with
        | error stop => rfl
        | ok ranges => rfl

/-- All lines are taken, or there is a first one that is not. -/
theorem taken_or_first (build : Build) (lines : List (List Char)) :
    (∀ line ∈ lines, Taken build line) ∨
      ∃ earlier line later, lines = earlier ++ line :: later ∧
        (∀ line ∈ earlier, Taken build line) ∧ ¬ Taken build line := by
  classical
  cases hfind : lines.find? (fun line => ¬ Taken build line) with
  | none =>
    refine .inl fun line hline => ?_
    have hnone := List.find?_eq_none.mp hfind line hline
    simpa using hnone
  | some line =>
    obtain ⟨hline, earlier, later, hlines, hearlier⟩ := List.find?_eq_some_iff_append.mp hfind
    refine .inr ⟨earlier, line, later, hlines, fun line hline => ?_, by simpa using hline⟩
    simpa using hearlier line hline

/-- The line is looked at: those before it are taken. -/
def Reached (build : Build) (text line : List Char) : Prop :=
  ∃ earlier later, Text.lines text = earlier ++ line :: later ∧
    ∀ line ∈ earlier, Taken build line

/-- `parse` on a text whose lines are all taken. -/
theorem parse_of_taken {text : List Char} (h : ∀ line ∈ Text.lines text, Taken build line) :
    ∃ ranges, parse build text = .ok ⟨sortByStart ranges⟩ ∧
      ∀ range, range ∈ ranges ↔ ∃ line ∈ Text.lines text, Reads build (content line) range := by
  obtain ⟨ranges, hranges, hlines⟩ := parseLines_append h []
  refine ⟨ranges, ?_, hranges⟩
  have hnil : (ranges ++ ·) <$> parseLines build [] = .ok ranges :=
    congrArg Except.ok ranges.append_nil
  rw [List.append_nil, hnil] at hlines
  rw [parse, hlines]
  rfl

/-- `parse` on any other text: the first line that is not taken decides. -/
theorem Reached.parse {text : List Char} (h : Reached build text line) (hne : content line ≠ [])
    {stop : Stop} (hstop : parseEntry build (content line) = .error stop) :
    parse build text = .error stop := by
  obtain ⟨earlier, later, hlines, hearlier⟩ := h
  obtain ⟨ranges, -, hparse⟩ := parseLines_append hearlier (line :: later)
  rw [Exclude.parse, hlines, hparse, parseLines_cons_of_ne hne, hstop]
  rfl

/-- All lines are taken, or the first that is not decides what is returned. -/
theorem taken_or_stops (build : Build) (text : List Char) :
    (∀ line ∈ Text.lines text, Taken build line) ∨
      ∃ line stop, Reached build text line ∧ content line ≠ [] ∧
        parseEntry build (content line) = .error stop ∧ parse build text = .error stop := by
  rcases taken_or_first build (Text.lines text) with
    htaken | ⟨earlier, line, later, hlines, hearlier, hline⟩
  · exact .inl htaken
  · have hne : content line ≠ [] := fun hnil => hline (.inl hnil)
    have hreached : Reached build text line := ⟨earlier, later, hlines, hearlier⟩
    cases hstop : parseEntry build (content line) with
    | ok range => exact absurd (.inr ⟨range, parseEntry_ok_iff.mp hstop⟩) hline
    | error stop => exact .inr ⟨line, stop, hreached, hne, hstop, hreached.parse hne hstop⟩

/-- Parsing succeeds if and only if every line is empty or in the grammar. -/
theorem parse_ok_iff {text : List Char} :
    (∃ ranges, parse build text = .ok ranges) ↔ ∀ line ∈ Text.lines text, Taken build line := by
  constructor
  · rintro ⟨ranges, hparse⟩
    rcases taken_or_stops build text with htaken | ⟨line, stop, -, -, -, hstop⟩
    · exact htaken
    · cases hparse.symm.trans hstop
  · intro h
    obtain ⟨ranges, hparse, -⟩ := parse_of_taken h
    exact ⟨_, hparse⟩

theorem ne_nil_of_prefixLength {length : ℕ} (h : prefixLength line = some length) : line ≠ [] := by
  rintro rfl
  cases h

/-- The source panics at the masks only. -/
theorem parse_eq_panic_iff {text : List Char} :
    parse build text = .error .panic ↔ ∃ line, Reached build text line ∧
      ∃ length, prefixLength (content line) = some length ∧ ¬ Fits build length := by
  constructor
  · intro hparse
    rcases taken_or_stops build text with htaken | ⟨line, stop, hreached, -, hentry, hstop⟩
    · obtain ⟨ranges, hok⟩ := parse_ok_iff.mpr htaken
      cases hparse.symm.trans hok
    · -- the parser stops at the first line that is not taken, with what that line gives
      cases hparse.symm.trans hstop
      exact ⟨line, hreached, parseEntry_eq_panic_iff.mp hentry⟩
  · rintro ⟨line, hreached, length, hlength, hfits⟩
    exact hreached.parse (ne_nil_of_prefixLength hlength)
      (parseEntry_eq_panic_iff.mpr ⟨length, hlength, hfits⟩)

/-! ### The arithmetic of the masks -/

/-- No operation leaves its range, which a build with checks shows by a panic, and a length above 32
is an error in either build. -/
structure MaskSafe (text : List Char) : Prop where
  inRange : ∀ build, parse build text ≠ .error .panic
  above : ∀ build, ∀ line ∈ Text.lines text, ∀ length,
    prefixLength (content line) = some length → 32 < length →
      ∃ error, parse build text = .error (.error error)

/-- What a build with checks gets through, the other one does too. -/
theorem Fits.of_checked {length : ℕ} (h : Fits .checked length) : Fits build length :=
  fun _ => h rfl

/-- What a checked build takes, a release build takes. -/
theorem Taken.of_checked (h : Taken .checked line) : Taken build line := by
  rcases h with hnil | ⟨range, hreads⟩
  · exact .inl hnil
  · exact .inr ⟨range, hreads.of_fits fun n hn => (hreads.fits hn).of_checked⟩

theorem Reached.of_checked {text : List Char} (h : Reached .checked text line) :
    Reached build text line := by
  obtain ⟨earlier, later, hlines, hearlier⟩ := h
  exact ⟨earlier, later, hlines, fun line hline => (hearlier line hline).of_checked⟩

/-- An error that is not about a mask is the same in both builds. -/
theorem exists_error_of_checked {error : Error}
    (h : parseEntry .checked line = .error (.error error))
    (hfits : ∀ length, prefixLength line = some length → Fits .checked length) :
    ∃ error', parseEntry build line = .error (.error error') := by
  rcases reads_or_stops build line with ⟨range, hreads⟩ | ⟨-, n, hn, hover⟩ | ⟨hstop, -⟩
  · cases h.symm.trans (parseEntry_of_reads (hreads.of_fits hfits))
  · exact absurd (hfits n hn).of_checked hover
  · exact hstop

/-- The masks are safe if and only if every length that is reached is from 1 to 32. -/
theorem mask_safe_iff (text : List Char) :
    MaskSafe text ↔ ∀ line, Reached .checked text line →
      ∀ length, prefixLength (content line) = some length → 1 ≤ length ∧ length ≤ 32 := by
  constructor
  · -- a length outside of the bounds would be a panic of the checked build
    intro h line hreached length hlength
    by_contra hrange
    exact h.inRange .checked
      (parse_eq_panic_iff.mpr ⟨line, hreached, length, hlength, fun hfits => hrange (hfits rfl)⟩)
  · intro h
    have hfits (line : List Char) (hreached : Reached .checked text line) (length : ℕ)
        (hlength : prefixLength (content line) = some length) : Fits .checked length :=
      fun _ => h line hreached length hlength
    refine ⟨fun build hparse => ?_, fun build line hline length hlength habove => ?_⟩
    · obtain ⟨line, hreached, length, hlength, hover⟩ := parse_eq_panic_iff.mp hparse
      -- a release build never panics
      cases build with
      | checked => exact hover (hfits line hreached length hlength)
      | wrapping => exact hover (by rintro ⟨⟩)
    · -- a line before this one is not taken, and it is an error in both builds
      rcases taken_or_stops .checked text with htaken | ⟨first, stop, hreached, hne, hentry, -⟩
      · rcases htaken line hline with hnil | ⟨range, hreads⟩
        · exact absurd hnil (ne_nil_of_prefixLength hlength)
        · have hle := (hreads.fits hlength rfl).2
          omega
      · cases stop with
        | panic =>
          obtain ⟨n, hn, hover⟩ := parseEntry_eq_panic_iff.mp hentry
          exact absurd (hfits first hreached n hn) hover
        | error error =>
          obtain ⟨error', hstop⟩ := exists_error_of_checked hentry (hfits first hreached)
          exact ⟨error', hreached.of_checked.parse hne hstop⟩

/-- The whole address space as a block, and a block of an address. -/
theorem masks_overflow :
    parse .checked "0.0.0.0/0".toList = .error .panic ∧
      parse .checked "1.2.3.4/33".toList = .error .panic ∧
      parse .wrapping "1.2.3.4/33".toList = .ok ⟨[⟨0, 0xFFFFFFFF⟩]⟩ ∧
      ¬ MaskSafe "0.0.0.0/0".toList ∧ ¬ MaskSafe "1.2.3.4/33".toList := by
  have hzero : parse .checked "0.0.0.0/0".toList = .error .panic := by decide
  have habove : parse .checked "1.2.3.4/33".toList = .error .panic := by decide
  exact ⟨hzero, habove, by decide, fun h => h.inRange _ hzero, fun h => h.inRange _ habove⟩

end Exclude

end Farsight
