import Farsight.Exclude.Lines
import Farsight.Net.RangeExact

/-!
# What the exclude file means

A line of the exclude file is empty or has one entry, before a comment and between white space: an
address, an address with a prefix length, or two addresses. `parse` reads every entry as what it
means, but it takes more than the entries: lines with further pieces, lengths with a sign, and in a
build without overflow checks lengths above 32.

* `Denotes` — the entries, and what they mean: `Entry.addresses`;
* `Denotes.reads` — an entry is read as the range of its addresses;
* `parse_correct_iff` — on which texts `parse` accepts exactly the grammar and then excludes the
  addresses that are written.
-/

namespace Farsight

namespace Exclude

open Machine

/-! ### The grammar -/

/-- An entry. -/
inductive Entry where
  | single (ip : Ipv4Addr)
  | cidr (ip : Ipv4Addr) (length : ℕ)
  | range (start last : Ipv4Addr)
  deriving DecidableEq, Repr

/-- The addresses of an entry; those of a block have the first bits in common. -/
def Entry.addresses : Entry → Set Ipv4Addr
  | .single ip => {ip}
  | .cidr ip length => {x | x >>> (32 - length) = ip >>> (32 - length)}
  | .range start last => Set.Icc start last

/-- A text as an entry. -/
inductive Denotes : List Char → Entry → Prop
  | single {text : List Char} {ip : Ipv4Addr} (hip : ipv4FromStr text = some ip) :
      Denotes text (.single ip)
  | cidr {addr digits : List Char} {ip : Ipv4Addr} {length : ℕ} (hip : ipv4FromStr addr = some ip)
      (hlength : Text.decimal digits = some length) (hle : length ≤ 32) :
      Denotes (addr ++ '/' :: digits) (.cidr ip length)
  | range {addr addr' : List Char} {start last : Ipv4Addr} (hstart : ipv4FromStr addr = some start)
      (hlast : ipv4FromStr addr' = some last) (hle : start ≤ last) :
      Denotes (addr ++ '-' :: addr') (.range start last)

/-- The line is empty or has an entry. -/
def InGrammar (line : List Char) : Prop :=
  content line = [] ∨ ∃ entry, Denotes (content line) entry

/-- The addresses that are written in a text. -/
def written (text : List Char) : Set Ipv4Addr :=
  {x | ∃ line ∈ Text.lines text, ∃ entry, Denotes (content line) entry ∧ x ∈ entry.addresses}

/-! ### Entries are read as what they mean -/

variable {build : Build} {line addr mask addr' : List Char}

/-- The mask of a prefix length has as many ones at its end as the length leaves bits. -/
theorem toNat_maskOf {length : ℕ} (h : length ≤ 32) :
    (maskOf length).toNat = 2 ^ (32 - length) - 1 := by
  have hle : 2 ^ (32 - length) ≤ 2 ^ 32 := Nat.pow_le_pow_right (by decide) (Nat.sub_le _ _)
  rw [maskOf, if_pos h, BitVec.toNat_ofNat, Nat.mod_eq_of_lt (by omega)]

section Pair

variable {sep other : Char}

/-- A separator that is in neither part cuts the text in two. -/
theorem splitOn_pair (h : sep ∉ addr) (h' : sep ∉ mask) :
    (addr ++ sep :: mask).splitOn sep = [addr, mask] := by
  rw [Text.splitOn_append_cons h, List.splitOn_eq_singleton h']

theorem notMem_pair (h : other ∉ addr) (hne : other ≠ sep) (h' : other ∉ mask) :
    other ∉ addr ++ sep :: mask := by
  intro hother
  rcases List.mem_append.mp hother with haddr | hrest
  · exact h haddr
  · rcases List.mem_cons.mp hrest with heq | hmask
    · exact hne heq
    · exact h' hmask

end Pair

section Cidr

variable {ip : Ipv4Addr} {length : ℕ} (hip : ipv4FromStr addr = some ip)
  (hlength : Text.decimal mask = some length)

include hip hlength

theorem splitOn_cidr : (addr ++ '/' :: mask).splitOn '/' = [addr, mask] :=
  splitOn_pair (slash_notMem hip) (notMem_of_decimal hlength (by decide))

theorem hyphen_notMem_cidr : '-' ∉ addr ++ '/' :: mask :=
  notMem_pair (hyphen_notMem hip) (by decide) (notMem_of_decimal hlength (by decide))

theorem prefixLength_cidr (hle : length ≤ 32) :
    prefixLength (addr ++ '/' :: mask) = some length := by
  rw [prefixLength_slash (hyphen_notMem_cidr hip hlength) (splitOn_cidr hip hlength),
    parseU8_ok hlength (by omega)]
  rfl

end Cidr

section Range

variable {start last : Ipv4Addr} (hstart : ipv4FromStr addr = some start)
  (hlast : ipv4FromStr addr' = some last)

include hstart hlast

theorem splitOn_range : (addr ++ '-' :: addr').splitOn '-' = [addr, addr'] :=
  splitOn_pair (hyphen_notMem hstart) (hyphen_notMem hlast)

theorem slash_notMem_range : '/' ∉ addr ++ '-' :: addr' :=
  notMem_pair (slash_notMem hstart) (by decide) (slash_notMem hlast)

end Range

/-- The entry has no mask that does not fit. -/
def Entry.Fits (build : Build) : Entry → Prop
  | .cidr _ length => Exclude.Fits build length
  | _ => True

/-- What the grammar says of a line is what the parser reads from it, as long as the length of a
block fits the build. -/
theorem Denotes.reads {entry : Entry} (h : Denotes line entry) (hfits : entry.Fits build) :
    ∃ range, Reads build line range ∧ ∀ x, range.Mem x ↔ x ∈ entry.addresses := by
  cases h with
  | single hip => exact ⟨_, .single hip, fun x => and_comm.trans le_antisymm_iff.symm⟩
  | cidr hip hlength hle =>
    refine ⟨_, .block (splitOn_cidr hip hlength) (hyphen_notMem_cidr hip hlength) hip
      (parseU8_ok hlength (by omega)) hfits, fun x => ?_⟩
    -- the first and the last address of a block are those with the mask cleared and set
    exact between_masks_iff _ x (toNat_maskOf hle)
  | range hstart hlast hle =>
    have hpieces := splitOn_range hstart hlast
    have hslash := slash_notMem_range hstart hlast
    exact ⟨_, .range hpieces hslash hstart hlast hle, fun x => Iff.rfl⟩

theorem Denotes.ne_nil {entry : Entry} (h : Denotes line entry) : line ≠ [] := by
  cases h with
  | single hip =>
    rintro rfl
    cases hip
  | cidr => exact List.append_ne_nil_of_right_ne_nil _ (List.cons_ne_nil _ _)
  | range => exact List.append_ne_nil_of_right_ne_nil _ (List.cons_ne_nil _ _)

/-- An entry has one `/` at most. -/
theorem Denotes.length_splitOn_le {entry : Entry} (h : Denotes line entry) :
    (line.splitOn '/').length ≤ 2 := by
  cases h with
  | single hip =>
    rw [List.splitOn_eq_singleton (slash_notMem hip)]
    exact one_le_two
  | cidr hip hlength =>
    rw [splitOn_cidr hip hlength]
    exact le_refl 2
  | range hstart hlast =>
    rw [List.splitOn_eq_singleton (slash_notMem_range hstart hlast)]
    exact one_le_two

/-- An entry that is read fits. -/
theorem Denotes.fits {entry : Entry} (h : Denotes line entry) {range : RangeInclusive Ipv4Addr}
    (hreads : Reads build line range) : entry.Fits build := by
  cases h with
  | single => trivial
  | cidr hip hlength hle => exact hreads.fits (prefixLength_cidr hip hlength hle)
  | range => trivial

/-- Of the lines in the grammar, those are taken whose entry fits. -/
theorem InGrammar.taken_iff (h : InGrammar line) :
    Taken build line ↔ ∀ entry, Denotes (content line) entry → entry.Fits build := by
  constructor
  · rintro (hnil | ⟨range, hreads⟩) entry hentry
    · exact absurd hnil hentry.ne_nil
    · exact hentry.fits hreads
  · intro hfits
    rcases h with hnil | ⟨entry, hentry⟩
    · exact .inl hnil
    · obtain ⟨range, hreads, -⟩ := hentry.reads (hfits entry hentry)
      exact .inr ⟨range, hreads⟩

/-- Every text in the grammar is accepted, except that a build with checks stops at a `/0`. -/
theorem taken_of_inGrammar {text : List Char} (hgrammar : ∀ line ∈ Text.lines text, InGrammar line)
    (hmasks : build = .checked → ∀ line ∈ Text.lines text, prefixLength (content line) ≠ some 0) :
    ∀ line ∈ Text.lines text, Taken build line := by
  intro line hline
  refine (hgrammar line hline).taken_iff.mpr fun entry hentry => ?_
  generalize hcontent : content line = text' at hentry
  cases hentry with
  | single => trivial
  | range => trivial
  -- only a block can panic, and only with length zero in a checked build
  | cidr hip hlength hle =>
    intro hbuild
    have hzero := hmasks hbuild line hline
    rw [hcontent, prefixLength_cidr hip hlength hle] at hzero
    exact ⟨Nat.one_le_iff_ne_zero.mpr fun h => hzero (congrArg some h), hle⟩

/-- The parser sorts the ranges at the end, so their order in the file does not matter. -/
theorem startSorted_sortByStart {ranges : List (RangeInclusive Ipv4Addr)}
    (h : ∀ range ∈ ranges, range.start ≤ range.last) : StartSorted (sortByStart ranges) where
  start_le range hrange := h range ((List.mem_insertionSort _).mp hrange)
  sorted := by
    let byStart (r r' : RangeInclusive Ipv4Addr) : Prop := r.start ≤ r'.start
    have htotal : Std.Total byStart := ⟨fun r r' => le_total r.start r'.start⟩
    have htrans : IsTrans _ byStart := ⟨fun _ _ _ h h' => h.trans h'⟩
    exact List.pairwise_insertionSort byStart ranges

/-! ### The grammar and what is accepted -/

/-- What `parse` is for: it accepts the texts in the grammar, and returns the addresses that are
written, in ranges that ascend. -/
structure Correct (build : Build) (text : List Char) : Prop where
  accepts : (∃ ranges, parse build text = .ok ranges) ↔ ∀ line ∈ Text.lines text, InGrammar line
  means : ∀ ranges, parse build text = .ok ranges →
    StartSorted ranges.inner ∧ ∀ x, Covers ranges.inner x ↔ x ∈ written text

/-- In a text that is in the grammar and whose lines are taken, each range is that of its entry. -/
theorem parse_means {text : List Char} (hgrammar : ∀ line ∈ Text.lines text, InGrammar line)
    (htaken : ∀ line ∈ Text.lines text, Taken build line) {ranges : Ipv4Ranges}
    (h : parse build text = .ok ranges) :
    StartSorted ranges.inner ∧ ∀ x, Covers ranges.inner x ↔ x ∈ written text := by
  obtain ⟨ranges', hparse, hranges⟩ := parse_of_taken htaken
  obtain rfl : ranges = ⟨sortByStart ranges'⟩ := Except.ok.inj (h.symm.trans hparse)
  refine ⟨startSorted_sortByStart fun range hrange => ?_, fun x => ⟨?_, ?_⟩⟩
  · obtain ⟨line, -, hreads⟩ := (hranges range).mp hrange
    exact hreads.start_le_last
  · -- a range of the result was read from some line, which says the same in the grammar
    rintro ⟨range, hrange, hx⟩
    obtain ⟨line, hline, hreads⟩ := (hranges range).mp ((List.mem_insertionSort _).mp hrange)
    rcases hgrammar line hline with hnil | ⟨entry, hentry⟩
    · rw [hnil] at hreads
      exact absurd hreads not_reads_nil
    · obtain ⟨range', hreads', hmem⟩ := hentry.reads (hentry.fits hreads)
      obtain rfl := hreads.unique hreads'
      exact ⟨line, hline, entry, hentry, (hmem x).mp hx⟩
  · -- and every line of the grammar was read
    rintro ⟨line, hline, entry, hentry, hx⟩
    have hfits := (hgrammar line hline).taken_iff.mp (htaken line hline) entry hentry
    obtain ⟨range, hreads, hmem⟩ := hentry.reads hfits
    exact ⟨range, (List.mem_insertionSort _).mpr ((hranges range).mpr ⟨line, hline, hreads⟩),
      (hmem x).mpr hx⟩

example : parse .checked "# private\n10.1.2.3/8 # ten\r\n\n9.0.0.1-9.0.0.2".toList =
    .ok ⟨[⟨0x09000001, 0x09000002⟩, ⟨0x0A000000, 0x0AFFFFFF⟩]⟩ := by
  decide

/-- `parse` is right on a text in the grammar if there is no `/0` whose arithmetic is checked, and
on another text if it has a line that is not taken. -/
theorem parse_correct_iff (build : Build) (text : List Char) :
    Correct build text ↔
      (∀ line ∈ Text.lines text,
        InGrammar line ∧ ∀ entry, Denotes (content line) entry → entry.Fits build) ∨
      ((∃ line ∈ Text.lines text, ¬ InGrammar line) ∧
        ∃ line ∈ Text.lines text, ¬ Taken build line) := by
  constructor
  · rintro ⟨haccepts, -⟩
    -- correct on a text of the grammar means that no line is refused, and on another that some line
    -- is
    by_cases hgrammar : ∀ line ∈ Text.lines text, InGrammar line
    · have htaken := parse_ok_iff.mp (haccepts.mpr hgrammar)
      refine .inl fun line hline => ⟨hgrammar line hline, ?_⟩
      exact (hgrammar line hline).taken_iff.mp (htaken line hline)
    · have htaken : ¬ ∀ line ∈ Text.lines text, Taken build line := fun h =>
        hgrammar (haccepts.mp (parse_ok_iff.mpr h))
      push Not at hgrammar htaken
      exact .inr ⟨hgrammar, htaken⟩
  · rintro (h | ⟨⟨line, hline, hgrammar⟩, ⟨line', hline', htaken⟩⟩)
    · have hgrammar : ∀ line ∈ Text.lines text, InGrammar line := fun line hline =>
        (h line hline).1
      have htaken : ∀ line ∈ Text.lines text, Taken build line := fun line hline =>
        (hgrammar line hline).taken_iff.mpr (h line hline).2
      exact ⟨iff_of_true (parse_ok_iff.mpr htaken) hgrammar,
        fun ranges hparse => parse_means hgrammar htaken hparse⟩
    · -- both sides of the equivalence fail
      have hstops : ¬ ∃ ranges, parse build text = .ok ranges := fun hparse =>
        htaken (parse_ok_iff.mp hparse line' hline')
      exact ⟨iff_of_false hstops fun h => hgrammar (h line hline),
        fun ranges hparse => absurd ⟨ranges, hparse⟩ hstops⟩

/-- A block with two lengths. -/
def twoLengths : List Char := "10.0.0.0/8/24".toList

/-- The second length is dropped: the line is taken as the larger block. -/
theorem twoLengths_taken :
    parse .wrapping twoLengths = .ok ⟨[⟨0x0A000000, 0x0AFFFFFF⟩]⟩ ∧ ¬ InGrammar twoLengths ∧
      ¬ Correct .wrapping twoLengths := by
  have hparse : parse .wrapping twoLengths = .ok ⟨[⟨0x0A000000, 0x0AFFFFFF⟩]⟩ := by decide
  have hgrammar : ¬ InGrammar twoLengths := by
    rintro (hnil | ⟨entry, hentry⟩)
    · exact absurd hnil (by decide)
    · exact absurd hentry.length_splitOn_le (by decide)
  refine ⟨hparse, hgrammar, fun h => hgrammar (h.accepts.mp ⟨_, hparse⟩ _ ?_)⟩
  decide

end Exclude

end Farsight
