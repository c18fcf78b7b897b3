import Farsight.Protocol.Status

/-!
# The answers that the parser accepts

`SLPParser::parse` runs on what has arrived so far, so it matters when it has a verdict and what it
has a verdict on.

* `answer` — a status as a server sends it;
* `slpParse_answer` — the parser waits for the whole of it, and has its verdict with the last byte,
  whatever follows;
* `slpParse_accepts_iff` — what it accepts: three numbers, of which the second is 0 and the third is
  the length of a status, and the status. The first number is not looked at.
-/

namespace Farsight

open Reader

variable {V E : Type}

/-- A status in the packet with the id 0, after the length of the packet. -/
def answer (status : List UInt8) : List UInt8 :=
  let packet := writeVarint 0 ++ (writeVarint (.ofNat 32 status.length) ++ status)
  writeVarint (.ofNat 32 packet.length) ++ packet

/-! ### Numbers -/

/-- A number that was written is read with its last byte. -/
theorem readVarint_passes (value : BitVec 32) :
    Passes .incomplete readVarint (writeVarint value) fun rest => .ok (value, rest) where
  ok := readVarint_writeVarint value
  short {bytes} h hne := by
    have hlt : value.toNat < 128 ^ (4 + 1) := value.isLt.trans (by decide)
    rw [writeVarint_eq] at h hne
    rw [readVarint_eq, Leb128.decode_beginning hlt h hne]

/-- What comes after a number does not matter. -/
theorem readVarint_local {bytes rest : List UInt8} {value : BitVec 32}
    (h : readVarint bytes = .ok (value, rest)) :
    ∃ number, bytes = number ++ rest ∧ readVarint number = .ok (value, []) := by
  rw [readVarint_eq] at h
  split at h
  · cases h
  · next n rest' hdecode =>
    cases h
    obtain ⟨number, hbytes, hnumber⟩ := Leb128.decode_local hdecode
    refine ⟨number, hbytes, ?_⟩
    rw [readVarint_eq, hnumber]

/-- A signed number that is not negative, as a `usize`. -/
theorem toNat_signExtend (size : BitVec 32) (h : 0 ≤ size.toInt) :
    ((size.signExtend 64).toNat : ℤ) = size.toInt := by
  have hmsb : size.msb = false := by
    rw [BitVec.msb_eq_toInt]
    exact decide_eq_false (Int.not_lt.mpr h)
  have hlt := size.isLt
  rw [BitVec.signExtend_eq_setWidth_of_msb_false hmsb, BitVec.toNat_setWidth,
    BitVec.toInt_eq_toNat_of_msb hmsb, Nat.mod_eq_of_lt (by omega)]

/-! ### The whole answer -/

section

variable (fromSlice : List UInt8 → Except E V) (fromUtf8Lossy : List UInt8 → String)

/-- The verdict on a status. -/
def statusVerdict (status : List UInt8) : Except ParseError String :=
  match fromSlice status with
  | .ok _ => .ok (fromUtf8Lossy status)
  | .error _ => .error .invalid

theorem statusReader_passes {status : List UInt8} (hpos : status ≠ [])
    (hlength : status.length < 2 ^ 31) :
    Passes .incomplete (statusReader fromSlice fromUtf8Lossy) (answer status)
      (match fromSlice status with
      | .ok _ => fun rest => .ok (fromUtf8Lossy status, rest)
      | .error _ => fun _ => .error .invalid) := by
  have hpos' := List.length_pos_of_ne_nil hpos
  have hint := toInt_ofNat_length hlength
  -- the packet id is zero and the length is positive
  have hgood : ¬ ((0 : BitVec 32) ≠ 0 ∨ (BitVec.ofNat 32 status.length).toInt ≤ 0) := by
    rintro (h | h)
    · exact h rfl
    · omega
  have hsize : ((BitVec.ofNat 32 status.length).signExtend 64).toNat = status.length := by
    have h := toNat_signExtend (.ofNat 32 status.length) (by omega)
    omega
  -- length of the packet, its id, length of the status, and the status
  refine (readVarint_passes _).andThen ((readVarint_passes 0).andThen
    ((readVarint_passes _).andThen ?_))
  rw [if_neg hgood, hsize]
  exact (Passes.takeExactly status).last

/-- The verdict does not depend on what follows. -/
theorem slpParse_answer_append {status : List UInt8} (hpos : status ≠ [])
    (hlength : status.length < 2 ^ 31) (rest : List UInt8) :
    slpParse fromSlice fromUtf8Lossy (answer status ++ rest) =
      statusVerdict fromSlice fromUtf8Lossy status := by
  have hpasses := statusReader_passes fromSlice fromUtf8Lossy hpos hlength
  rw [slpParse_eq, verdict, hpasses.ok, statusVerdict]
  cases fromSlice status with
  | ok _ => rfl
  | error _ => rfl

/-- **An answer is recognised when it is complete.** Every strict beginning of an answer is
incomplete; and with its last byte, whatever follows, the answer is accepted if the status is JSON
and rejected if it is not. -/
theorem slpParse_answer (status : List UInt8) (hpos : status ≠ [])
    (hlength : status.length < 2 ^ 31) :
    (∀ data, data <+: answer status → data ≠ answer status →
      slpParse fromSlice fromUtf8Lossy data = .error .incomplete) ∧
    ∀ rest, slpParse fromSlice fromUtf8Lossy (answer status ++ rest) =
      statusVerdict fromSlice fromUtf8Lossy status := by
  have hpasses := statusReader_passes fromSlice fromUtf8Lossy hpos hlength
  constructor
  · intro data hdata hne
    rw [slpParse_eq, verdict_eq_short_iff]
    exact hpasses.short hdata hne
  · exact slpParse_answer_append fromSlice fromUtf8Lossy hpos hlength

/-- A status of two bytes, and what follows it. -/
theorem slpParse_answer_braces :
    slpParse (V := Unit) (E := Unit) (fun _ => .ok ()) (fun _ => "status")
      (answer [123, 125] ++ [1, 2, 3]) = .ok "status" :=
  (slpParse_answer (V := Unit) (E := Unit) (fun _ => .ok ()) (fun _ => "status") [123, 125]
    (by decide) (by decide)).2 [1, 2, 3]

/-! ### What is accepted -/

/-- The bytes are a number of at most five groups. Its encoding need not be the shortest. -/
def IsVarint (bytes : List UInt8) (value : BitVec 32) : Prop :=
  readVarint bytes = .ok (value, [])

/-- **What the parser accepts.** It accepts an input with a text if and only if the input starts
with three numbers, of which the second is 0 and the third is positive, and a status of as many
bytes as the third number says, which is JSON and whose text it is. -/
theorem slpParse_accepts_iff (data : List UInt8) (text : String) :
    slpParse fromSlice fromUtf8Lossy data = .ok text ↔
      ∃ packetLength packetId responseLength status rest : List UInt8, ∃ n size : BitVec 32,
        data = packetLength ++ (packetId ++ (responseLength ++ (status ++ rest))) ∧
        IsVarint packetLength n ∧ IsVarint packetId 0 ∧ IsVarint responseLength size ∧
        status ≠ [] ∧ size.toInt = status.length ∧
        (∃ value, fromSlice status = .ok value) ∧ text = fromUtf8Lossy status := by
  rw [slpParse_eq, verdict_eq_ok_iff]
  constructor
  · rintro ⟨rest, h⟩
    -- each reader in turn, and what it has left
    obtain ⟨n, afterLength, hread₁, h₁⟩ := andThen_eq_ok.mp h
    obtain ⟨packetLength, hlength, hn⟩ := readVarint_local hread₁
    obtain ⟨id, afterId, hread₂, h₂⟩ := andThen_eq_ok.mp h₁
    obtain ⟨packetId, rfl, hid⟩ := readVarint_local hread₂
    obtain ⟨size, afterSize, hread₃, h₃⟩ := andThen_eq_ok.mp h₂
    obtain ⟨responseLength, rfl, hsize⟩ := readVarint_local hread₃
    split at h₃
    · cases h₃
    · next hgood =>
      rw [not_or, not_not, Int.not_le] at hgood
      obtain ⟨rfl, hpos⟩ := hgood
      obtain ⟨status, afterStatus, hstatus, h₄⟩ := andThen_eq_ok.mp h₃
      unfold takeExactly at hstatus
      split at hstatus
      · cases hstatus
      · next henough =>
        cases hstatus
        have hnat := toNat_signExtend size hpos.le
        have htake : (afterSize.take (size.signExtend 64).toNat).length =
            (size.signExtend 64).toNat := List.length_take_of_le (Nat.not_lt.mp henough)
        cases hvalue : fromSlice (afterSize.take (size.signExtend 64).toNat) with
        | error e =>
          rw [hvalue] at h₄
          cases h₄
        | ok value =>
          rw [hvalue] at h₄
          cases h₄
          refine ⟨packetLength, packetId, responseLength, _,
            afterSize.drop (size.signExtend 64).toNat, n, size, ?_, hn, hid, hsize, ?_, ?_,
            ⟨value, hvalue⟩, rfl⟩
          · rw [List.take_append_drop, ← hlength]
          · exact List.ne_nil_of_length_pos (by omega)
          · rw [htake, hnat]
  · rintro ⟨packetLength, packetId, responseLength, status, rest, n, size, rfl, hn, hid, hsize,
      hne, hlength, ⟨value, hvalue⟩, rfl⟩
    have hpos := List.length_pos_of_ne_nil hne
    have hnat := toNat_signExtend size (by omega)
    have hgood : ¬ ((0 : BitVec 32) ≠ 0 ∨ size.toInt ≤ 0) := by
      rintro (h | h)
      · exact h rfl
      · omega
    refine ⟨rest, andThen_eq_ok.mpr ⟨n, _, readVarint_incremental.ok hn _, andThen_eq_ok.mpr
      ⟨0, _, readVarint_incremental.ok hid _, andThen_eq_ok.mpr
        ⟨size, _, readVarint_incremental.ok hsize _, ?_⟩⟩⟩⟩
    rw [if_neg hgood, show (size.signExtend 64).toNat = status.length by omega]
    refine andThen_eq_ok.mpr ⟨status, rest, (Passes.takeExactly status).ok rest, ?_⟩
    rw [hvalue]

end

end Farsight
