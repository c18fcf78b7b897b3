import Mathlib.Data.List.DropRight
import Mathlib.Tactic.Common

/-!
# Texts

Texts are lists of characters. The functions are those of a string library, with the names that they
have there.

* `Text.trim`, `Text.lines` — white space at both ends, and the lines of a text;
* `Text.splitOn_append_cons` — the first piece of a text that is split at a character;
* `Text.decimal` — the value of a string of digits.
-/

namespace Text

/-! ### White space -/

/-- The property `White_Space`. -/
def isWhitespace (c : Char) : Bool :=
  (0x09 ≤ c.toNat && c.toNat ≤ 0x0D) || c.toNat = 0x20 || c.toNat = 0x85 || c.toNat = 0xA0 ||
    c.toNat = 0x1680 || (0x2000 ≤ c.toNat && c.toNat ≤ 0x200A) || c.toNat = 0x2028 ||
    c.toNat = 0x2029 || c.toNat = 0x202F || c.toNat = 0x205F || c.toNat = 0x3000

/-- The text without white space at its ends. -/
def trim (text : List Char) : List Char :=
  (text.rdropWhile isWhitespace).dropWhile isWhitespace

variable {text spaces : List Char}

theorem rdropWhile_append_of_forall (h : ∀ c ∈ spaces, isWhitespace c) :
    (text ++ spaces).rdropWhile isWhitespace = text.rdropWhile isWhitespace := by
  have hreverse : ∀ c ∈ spaces.reverse, isWhitespace c := fun c hc => h c (List.mem_reverse.mp hc)
  rw [List.rdropWhile, List.reverse_append, List.dropWhile_append_of_pos hreverse, List.rdropWhile]

theorem trim_append_right (h : ∀ c ∈ spaces, isWhitespace c) :
    trim (text ++ spaces) = trim text := by
  rw [trim, rdropWhile_append_of_forall h, trim]

theorem trim_eq_nil_iff : trim text = [] ↔ ∀ c ∈ text, isWhitespace c := by
  rw [trim, List.dropWhile_eq_nil_iff]
  refine ⟨fun h => ?_, fun h c hc => h c ((List.rdropWhile_prefix _ _).subset hc)⟩
  -- the last character that is left is not white space
  by_contra hsome
  have hne : text.rdropWhile isWhitespace ≠ [] := fun hnil =>
    hsome (List.rdropWhile_eq_nil_iff.mp hnil)
  exact List.rdropWhile_last_not isWhitespace text hne (h _ (List.getLast_mem hne))

theorem trim_append_left (h : ∀ c ∈ spaces, isWhitespace c) :
    trim (spaces ++ text) = trim text := by
  by_cases htext : ∀ c ∈ text, isWhitespace c
  · rw [trim_append_right htext, trim_eq_nil_iff.mpr htext, trim_eq_nil_iff]
    exact h
  · have hne : text.reverse.dropWhile isWhitespace ≠ [] := by
      rw [ne_eq, List.dropWhile_eq_nil_iff]
      exact fun hall => htext fun c hc => hall c (List.mem_reverse.mpr hc)
    have hrdrop : (spaces ++ text).rdropWhile isWhitespace =
        spaces ++ text.rdropWhile isWhitespace := by
      rw [List.rdropWhile, List.reverse_append, List.dropWhile_append,
        if_neg (by rwa [List.isEmpty_iff]), List.reverse_append, List.reverse_reverse,
        List.rdropWhile]
    rw [trim, hrdrop, List.dropWhile_append_of_pos h, trim]

/-- The ends that `trim` removes. -/
theorem exists_eq_trim (text : List Char) :
    ∃ before after, text = before ++ (trim text ++ after) ∧
      (∀ c ∈ before, isWhitespace c) ∧ ∀ c ∈ after, isWhitespace c := by
  -- `trim` works from the right end first, and so does the decomposition
  refine ⟨(text.rdropWhile isWhitespace).takeWhile isWhitespace,
    (text.reverse.takeWhile isWhitespace).reverse, ?_, ?_, ?_⟩
  · calc
      text =
          (text.reverse.takeWhile isWhitespace ++ text.reverse.dropWhile isWhitespace).reverse := by
        rw [List.takeWhile_append_dropWhile, List.reverse_reverse]
      _ = text.rdropWhile isWhitespace ++ (text.reverse.takeWhile isWhitespace).reverse :=
        List.reverse_append
      _ = (text.rdropWhile isWhitespace).takeWhile isWhitespace ++ trim text ++
          (text.reverse.takeWhile isWhitespace).reverse := by
        rw [trim, List.takeWhile_append_dropWhile]
      _ = _ := List.append_assoc _ _ _
  · exact fun c hc => List.mem_takeWhile_imp hc
  · exact fun c hc => List.mem_takeWhile_imp (List.mem_reverse.mp hc)

/-- A text that was trimmed does not start with white space. -/
theorem isWhitespace_of_trim_eq_cons {c : Char} {rest : List Char} (h : trim text = c :: rest) :
    isWhitespace c = false := by
  have hhead := List.head?_dropWhile_not isWhitespace (text.rdropWhile isWhitespace)
  rw [trim] at h
  rw [h] at hhead
  exact hhead

/-- Trimming may be done before what follows a character is cut off, too, if that character is not
white space. -/
theorem trim_takeWhile_trim {p : Char → Bool} (hp : ∀ c, isWhitespace c → p c) (text : List Char) :
    trim ((trim text).takeWhile p) = trim (text.takeWhile p) := by
  obtain ⟨before, after, htext, hbefore, hafter⟩ := exists_eq_trim text
  conv_rhs => rw [htext]
  rw [List.takeWhile_append_of_pos fun c hc => hp c (hbefore c hc), trim_append_left hbefore,
    List.takeWhile_append]
  split
  · next hall =>
    -- nothing is cut off
    have hself : (trim text).takeWhile p = trim text :=
      (List.takeWhile_prefix p).eq_of_length hall
    rw [hself]
    refine (trim_append_right fun c hc => ?_).symm
    exact hafter c ((List.takeWhile_prefix p).subset hc)
  · rfl

/-! ### Lines -/

/-- A line without the `\r` that belongs to its end. -/
def dropCr (line : List Char) : List Char :=
  if line.getLast? = some '\r' then line.dropLast else line

/-- The lines: each ends with `\n` or `\r\n`, and what is left at the end is a line if it is not
empty. -/
def lines (text : List Char) : List (List Char) :=
  (text.splitOn '\n').dropLast.map dropCr ++
    (text.splitOn '\n').getLast?.toList.filter (· ≠ [])

/-! ### Pieces -/

/-- The first piece ends where the separator is for the first time. -/
theorem splitOn_append_cons {sep : Char} {first rest : List Char} (h : sep ∉ first) :
    (first ++ sep :: rest).splitOn sep = first :: rest.splitOn sep := by
  rw [List.splitOn_eq_splitOnP, List.splitOn_eq_splitOnP]
  refine List.splitOnP_append_cons_of_forall_mem (p := (· == sep)) (fun c hc => ?_) sep
    (beq_self_eq_true sep) rest
  exact beq_false_of_ne fun heq => h (heq ▸ hc)

/-- A text with the separator has two pieces at least. -/
theorem exists_splitOn_eq_cons_cons {sep : Char} (h : sep ∈ text) :
    ∃ first second more, text.splitOn sep = first :: second :: more := by
  obtain ⟨first, rest, rfl, hfirst⟩ := List.eq_append_cons_of_mem h
  rw [splitOn_append_cons hfirst]
  obtain ⟨second, more, hrest⟩ := List.exists_cons_of_ne_nil (List.splitOn_ne_nil sep rest)
  exact ⟨first, second, more, by rw [hrest]⟩

/-- And only such a text has. -/
theorem mem_of_splitOn_eq_cons_cons {sep : Char} {first second : List Char}
    {more : List (List Char)} (h : text.splitOn sep = first :: second :: more) : sep ∈ text := by
  by_contra hsep
  rw [List.splitOn_eq_singleton hsep] at h
  cases h

/-- A character of joined pieces is the separator or from one of the pieces. -/
theorem mem_of_intercalate {sep c : Char} {pieces : List (List Char)}
    (h : c ∈ [sep].intercalate pieces) : c = sep ∨ ∃ piece ∈ pieces, c ∈ piece := by
  obtain ⟨part, hpart, hc⟩ := List.mem_flatten.mp h
  induction pieces with
  | nil => exact absurd hpart List.not_mem_nil
  | cons first pieces ih =>
    cases pieces with
    | nil =>
      obtain rfl := List.mem_singleton.mp hpart
      exact .inr ⟨part, List.mem_cons_self, hc⟩
    | cons second pieces =>
      -- the first piece, the separator after it, or something later
      rw [List.intersperse_cons_cons] at hpart
      rcases List.mem_cons.mp hpart with rfl | hpart
      · exact .inr ⟨part, List.mem_cons_self, hc⟩
      · rcases List.mem_cons.mp hpart with rfl | hpart
        · exact .inl (List.mem_singleton.mp hc)
        · rcases ih (List.mem_flatten.mpr ⟨part, hpart, hc⟩) hpart with heq | ⟨piece, hpiece, hc⟩
          · exact .inl heq
          · exact .inr ⟨piece, List.mem_cons_of_mem _ hpiece, hc⟩

/-- Every character of a text is in a piece, or is the separator. -/
theorem mem_of_splitOn (sep : Char) {c : Char} (h : c ∈ text) :
    c = sep ∨ ∃ piece ∈ text.splitOn sep, c ∈ piece := by
  have htext : [sep].intercalate (text.splitOn sep) = text := List.intercalate_splitOn sep
  rw [← htext] at h
  exact mem_of_intercalate h

/-! ### Numbers -/

/-- The value of a digit. -/
def digit (c : Char) : Option ℕ :=
  if 0x30 ≤ c.toNat ∧ c.toNat ≤ 0x39 then some (c.toNat - 0x30) else none

/-- The value of a string of digits after a number. -/
def digitsFrom : ℕ → List Char → Option ℕ
  | value, [] => some value
  | value, c :: text =>
    match digit c with
    | none => none
    | some d => digitsFrom (10 * value + d) text

/-- The value of a string of digits that is not empty. -/
def decimal (text : List Char) : Option ℕ :=
  if text = [] then none else digitsFrom 0 text

theorem isSome_digit_of_mem {c : Char} {value n : ℕ} (h : digitsFrom value text = some n)
    (hc : c ∈ text) : (digit c).isSome := by
  induction text generalizing value with
  | nil => exact absurd hc List.not_mem_nil
  | cons first text ih =>
    rw [digitsFrom] at h
    split at h
    · cases h
    · next d hd =>
      rcases List.mem_cons.mp hc with rfl | hc
      · rw [hd]
        rfl
      · exact ih h hc

theorem le_of_digitsFrom {value n : ℕ} (h : digitsFrom value text = some n) : value ≤ n := by
  induction text generalizing value with
  | nil => exact (Option.some.inj h).le
  | cons first text ih =>
    rw [digitsFrom] at h
    split at h
    · cases h
    · next d _ =>
      have hle := ih h
      omega

end Text
