import Farsight.Lib.Leb128
import Farsight.Responder.State
import Mathlib.Data.Nat.Bitwise

/-!
# The handshake

The payload that is sent to a server is built once, from the configuration: two packets, each with
its length in front. Numbers in it are written as VarInts, signed words of 32 bits by their unsigned
value in base 128. The parser of the answers reads them back.

* `writeVarint`, `readVarint`, `buildLatestRequest` — the functions of the source;
* `writeVarint_eq`, `readVarint_eq` — the loops of the source are the format of `Leb128`, in at most
  five bytes, on the words that the numbers represent;
* `handshake_roundtrip` — what was written is read back, and a reader of the payload finds the two
  packets and their fields.
-/

namespace Farsight

/-- The masked shift of `write_varint` is that of the unsigned value: the shift is that of signed
numbers, and the mask `i32::MAX >> 6` clears what it brings in. -/
theorem toNat_sshiftRight_and (value : BitVec 32) :
    (value.sshiftRight 7 &&& (BitVec.intMax 32).sshiftRight 6).toNat = value.toNat / 128 := by
  have hmask : ((BitVec.intMax 32).sshiftRight 6).toNat = 2 ^ 25 - 1 := by decide
  have hlt := value.isLt
  rw [BitVec.toNat_and, hmask, Nat.and_two_pow_sub_one_eq_mod, BitVec.toNat_sshiftRight]
  split
  · next hmsb =>
    rw [Nat.shiftRight_eq_div_pow]
    rw [BitVec.msb_eq_decide, decide_eq_true_eq] at hmsb
    omega
  · rw [Nat.shiftRight_eq_div_pow]
    omega

/-- The loop of `write_varint`. -/
def writeVarintLoop (value : BitVec 32) : List UInt8 :=
  if value = 0 then []
  else
    let byte : UInt8 := .ofNat (value &&& 0b01111111#32).toNat
    let next := value.sshiftRight 7 &&& (BitVec.intMax 32).sshiftRight 6
    (if next ≠ 0 then byte ||| 0b10000000 else byte) :: writeVarintLoop next
termination_by value.toNat
decreasing_by
  rw [toNat_sshiftRight_and]
  have hpos : value.toNat ≠ 0 := fun hzero => absurd (BitVec.eq_of_toNat_eq hzero) ‹_›
  omega

/-- `write_varint`, by what it writes. -/
def writeVarint (value : BitVec 32) : List UInt8 :=
  (if value = 0 then [0] else []) ++ writeVarintLoop value

/-- The loop of `read_varint` from turn `i` on, with as many turns to come. -/
def readVarintLoop (i : ℕ) (ans : BitVec 32) :
    ℕ → List UInt8 → Except ParseError (BitVec 32 × List UInt8)
  | 0, bytes => .ok (ans, bytes)
  | _ + 1, [] => .error .incomplete
  | turns + 1, byte :: bytes =>
    let ans := ans ||| (byte &&& 0b01111111).toBitVec.setWidth 32 <<< (7 * i)
    if byte &&& 0b10000000 = 0 then .ok (ans, bytes)
    else readVarintLoop (i + 1) ans turns bytes

/-- `read_varint`, with what is left to read. -/
def readVarint (bytes : List UInt8) : Except ParseError (BitVec 32 × List UInt8) :=
  readVarintLoop 0 0 5 bytes

/-- The buffer for the data of the first packet in `build_latest_request`. -/
def handshakePacket (hostname : List UInt8) (port : BitVec 16) (protocolVersion : BitVec 32) :
    List UInt8 :=
  -- 0 for handshake packet
  [0x00] ++ (writeVarint protocolVersion ++ (writeVarint (.ofNat 32 hostname.length) ++ (hostname ++
    -- the port, and 1 for the state to go on with
    [.ofNat (port >>> 8).toNat, .ofNat (port &&& 0b11111111#16).toNat, 0x01])))

def buildLatestRequest (hostname : List UInt8) (port : BitVec 16) (protocolVersion : BitVec 32) :
    List UInt8 :=
  let buffer := handshakePacket hostname port protocolVersion
  -- the second packet is the request
  writeVarint (.ofNat 32 buffer.length) ++ (buffer ++ [1, 0x00])

/-! ### The loops and the format -/

/-- A group of seven bits with the high bit of the byte set. -/
theorem ofNat_or_high {n : ℕ} (h : n < 128) :
    UInt8.ofNat n ||| 0b10000000 = UInt8.ofNat (n + 128) := by
  have hsum := Nat.two_pow_add_eq_or_of_lt (i := 7) h 1
  rw [← UInt8.toNat_inj, UInt8.toNat_or, Leb128.toNat_byte (by omega),
    Leb128.toNat_byte (by omega), Nat.or_comm, Nat.add_comm]
  exact hsum.symm

theorem writeVarintLoop_zero : writeVarintLoop 0 = [] := by
  rw [writeVarintLoop, if_pos rfl]

/-- The loop of `write_varint` is the LEB128 encoding of the word as an unsigned number: the
arithmetic shift is masked. -/
theorem writeVarintLoop_eq (value : BitVec 32) (h : value ≠ 0) :
    writeVarintLoop value = Leb128.encode value.toNat := by
  induction hn : value.toNat using Nat.strongRecOn generalizing value with
  | ind n ih =>
    subst hn
    have hpos : value.toNat ≠ 0 := fun hzero => h (BitVec.eq_of_toNat_eq hzero)
    have hlow : (value &&& 0b01111111#32).toNat = value.toNat % 128 :=
      Nat.and_two_pow_sub_one_eq_mod value.toNat 7
    have hnext := toNat_sshiftRight_and value
    rw [writeVarintLoop, if_neg h]
    dsimp only
    rw [hlow]
    generalize value.sshiftRight 7 &&& (BitVec.intMax 32).sshiftRight 6 = next at hnext ⊢
    by_cases hzero : next = 0
    · -- the last group
      subst hzero
      have hsmall : value.toNat < 128 := by
        change 0 = value.toNat / 128 at hnext
        omega
      rw [if_neg (not_not.mpr rfl), writeVarintLoop_zero, Leb128.encode_of_lt hsmall,
        Nat.mod_eq_of_lt hsmall]
    · have hne : next.toNat ≠ 0 := fun hzero' => hzero (BitVec.eq_of_toNat_eq hzero')
      rw [if_pos hzero, ih next.toNat (by omega) next hzero rfl, hnext,
        Leb128.encode_of_le (n := value.toNat) (by omega), ofNat_or_high (Nat.mod_lt _ (by decide))]

/-- `write_varint` writes the unsigned value in base 128. -/
theorem writeVarint_eq (value : BitVec 32) : writeVarint value = Leb128.encode value.toNat := by
  rw [writeVarint]
  by_cases h : value = 0
  · subst h
    rw [if_pos rfl, writeVarintLoop_zero, List.append_nil]
    exact (Leb128.encode_of_lt (by decide)).symm
  · rw [if_neg h, List.nil_append, writeVarintLoop_eq value h]

/-- A group below others. -/
theorem ofNat_add_mul {group : ℕ} (h : group < 128) (n : ℕ) :
    BitVec.ofNat 32 (group + 128 * n) = BitVec.ofNat 32 group ||| BitVec.ofNat 32 n <<< 7 := by
  have hor := Nat.two_pow_add_eq_or_of_lt (i := 7) h n
  have hshift : BitVec.ofNat 32 (2 ^ 7 * n) = BitVec.ofNat 32 n <<< 7 := by
    apply BitVec.eq_of_toNat_eq
    rw [BitVec.toNat_shiftLeft, BitVec.toNat_ofNat, BitVec.toNat_ofNat, Nat.shiftLeft_eq]
    omega
  rw [Nat.add_comm group]
  change BitVec.ofNat 32 (2 ^ 7 * n + group) = _
  rw [hor, BitVec.ofNat_or, hshift, BitVec.or_comm]

/-- The group of a byte, as a word. -/
theorem setWidth_and_low (byte : UInt8) :
    (byte &&& 0b01111111).toBitVec.setWidth 32 = BitVec.ofNat 32 (byte.toNat % 128) := by
  have hlow : (byte &&& 0b01111111).toNat = byte.toNat % 128 :=
    Nat.and_two_pow_sub_one_eq_mod byte.toNat 7
  apply BitVec.eq_of_toNat_eq
  rw [BitVec.toNat_setWidth, BitVec.toNat_ofNat, UInt8.toNat_toBitVec, hlow]

/-- The high bit of a byte. -/
theorem and_high_eq_zero_iff (byte : UInt8) : byte &&& 0b10000000 = 0 ↔ byte.toNat < 128 := by
  have hlt := byte.toNat_lt
  have hhigh : (byte &&& 0b10000000).toNat = (byte.toNat.testBit 7).toNat * 2 ^ 7 :=
    Nat.and_two_pow byte.toNat 7
  rw [← UInt8.toNat_inj, hhigh, Nat.testBit_eq_decide_div_mod_eq]
  by_cases hbit : byte.toNat / 2 ^ 7 % 2 = 1
  · rw [decide_eq_true hbit]
    exact iff_of_false (by decide) (by omega)
  · rw [decide_eq_false hbit]
    exact iff_of_true (by decide) (by omega)

/-- The loop of `read_varint` is the LEB128 decoding, with the groups collected so far in the
accumulator. -/
theorem readVarintLoop_eq (i : ℕ) (ans : BitVec 32) (turns : ℕ) (bytes : List UInt8) :
    readVarintLoop i ans turns bytes =
      match Leb128.decode turns bytes with
      | none => .error .incomplete
      | some (n, rest) => .ok (ans ||| BitVec.ofNat 32 n <<< (7 * i), rest) := by
  induction turns generalizing i ans bytes with
  | zero => simp [readVarintLoop, Leb128.decode]
  | succ turns ih =>
    cases bytes with
    | nil => rfl
    | cons byte bytes =>
      rw [readVarintLoop, Leb128.decode]
      dsimp only
      rw [setWidth_and_low]
      by_cases hlast : byte.toNat < 128
      · rw [if_pos hlast, if_pos ((and_high_eq_zero_iff byte).mpr hlast), Nat.mod_eq_of_lt hlast]
      · rw [if_neg hlast, if_neg (mt (and_high_eq_zero_iff byte).mp hlast), ih]
        cases Leb128.decode turns bytes with
        | none => rfl
        | some result =>
          obtain ⟨n, rest⟩ := result
          -- the groups do not overlap, so that `|` adds them
          have hsplit := ofNat_add_mul (Nat.mod_lt byte.toNat (by decide : 0 < 128)) n
          simp only [Option.map_some]
          rw [hsplit, BitVec.shiftLeft_or_distrib, ← BitVec.shiftLeft_add, BitVec.or_assoc,
            Nat.mul_succ, Nat.add_comm 7]

/-- `read_varint` reads a number in base 128 of at most five bytes, as a word. -/
theorem readVarint_eq (bytes : List UInt8) :
    readVarint bytes =
      match Leb128.decode 5 bytes with
      | none => .error .incomplete
      | some (n, rest) => .ok (BitVec.ofNat 32 n, rest) := by
  rw [readVarint, readVarintLoop_eq]
  simp

/-- What is written is read back, and nothing behind it. -/
theorem readVarint_writeVarint (value : BitVec 32) (rest : List UInt8) :
    readVarint (writeVarint value ++ rest) = .ok (value, rest) := by
  have hlt : value.toNat < 128 ^ (4 + 1) := value.isLt.trans (by decide)
  rw [readVarint_eq, writeVarint_eq, Leb128.decode_encode rest hlt]
  simp

/-! ### The payload -/

theorem length_writeVarint_le (value : BitVec 32) : (writeVarint value).length ≤ 5 := by
  rw [writeVarint_eq]
  exact Leb128.length_encode_le (value.isLt.trans (by decide))

/-- A length that fits a signed word is read as it was written. -/
theorem toInt_ofNat_length {n : ℕ} (h : n < 2 ^ 31) : (BitVec.ofNat 32 n).toInt = n := by
  have hnat : (BitVec.ofNat 32 n).toNat = n := by
    rw [BitVec.toNat_ofNat]
    exact Nat.mod_eq_of_lt (by omega)
  rw [BitVec.toInt_eq_toNat_of_lt (by omega), hnat]

theorem length_handshakePacket_lt {hostname : List UInt8} (h : hostname.length < 2 ^ 31 - 16)
    (port : BitVec 16) (protocolVersion : BitVec 32) :
    (handshakePacket hostname port protocolVersion).length < 2 ^ 31 := by
  have hversion := length_writeVarint_le protocolVersion
  have hlength := length_writeVarint_le (.ofNat 32 hostname.length)
  simp only [handshakePacket, List.length_append, List.length_cons, List.length_nil]
  omega

/-- The two bytes of the port. -/
theorem toNat_port (port : BitVec 16) :
    port.toNat = (UInt8.ofNat (port >>> 8).toNat).toNat * 256 +
      (UInt8.ofNat (port &&& 0b11111111#16).toNat).toNat := by
  have hlt := port.isLt
  have hhigh : (port >>> 8).toNat = port.toNat / 256 := by
    rw [BitVec.toNat_ushiftRight, Nat.shiftRight_eq_div_pow]
  have hlow : (port &&& 0b11111111#16).toNat = port.toNat % 256 :=
    Nat.and_two_pow_sub_one_eq_mod port.toNat 8
  rw [hhigh, hlow, Leb128.toNat_byte (by omega), Leb128.toNat_byte (by omega)]
  omega

/-- **Round trips.** A VarInt is read back, with whatever comes after it left to read. The payload
for a hostname of less than 2³¹ - 16 bytes reads as a packet whose length is that of the bytes up to
the next packet: the number 0, the version, the hostname after its length, the two bytes of the port
and the number 1; and then as a packet of one byte, the number 0. -/
theorem handshake_roundtrip :
    (∀ (value : BitVec 32) (rest : List UInt8),
      readVarint (writeVarint value ++ rest) = .ok (value, rest)) ∧
    ∀ (hostname : List UInt8) (port : BitVec 16) (protocolVersion : BitVec 32),
      hostname.length < 2 ^ 31 - 16 →
      ∃ (length hostnameLength : BitVec 32) (packet afterId afterVersion : List UInt8)
        (high low : UInt8),
        readVarint (buildLatestRequest hostname port protocolVersion) =
          .ok (length, packet ++ [1, 0]) ∧
        length.toInt = packet.length ∧
        readVarint packet = .ok (0, afterId) ∧
        readVarint afterId = .ok (protocolVersion, afterVersion) ∧
        readVarint afterVersion = .ok (hostnameLength, hostname ++ [high, low, 1]) ∧
        hostnameLength.toInt = hostname.length ∧
        port.toNat = high.toNat * 256 + low.toNat ∧
        readVarint [1] = .ok (1, []) ∧
        readVarint [1, 0] = .ok (1, [0]) ∧
        readVarint [0] = .ok (0, []) := by
  refine ⟨readVarint_writeVarint, fun hostname port protocolVersion hlength => ?_⟩
  refine ⟨_, _, handshakePacket hostname port protocolVersion, _, _, _, _,
    readVarint_writeVarint _ _, ?_, rfl, readVarint_writeVarint _ _, readVarint_writeVarint _ _, ?_,
    toNat_port port, rfl, rfl, rfl⟩
  · exact toInt_ofNat_length (length_handshakePacket_lt hlength port protocolVersion)
  · exact toInt_ofNat_length (by omega)

/-- The payload for `localhost` and a negative version. -/
theorem handshake_roundtrip_localhost :
    [108, 111, 99, 97, 108, 104, 111, 115, 116].length < 2 ^ 31 - 16 ∧
    ∃ (length : BitVec 32) (packet afterId afterVersion : List UInt8),
      readVarint (buildLatestRequest [108, 111, 99, 97, 108, 104, 111, 115, 116] 25565 (-1)) =
        .ok (length, packet ++ [1, 0]) ∧
      length.toInt = packet.length ∧
      readVarint packet = .ok (0, afterId) ∧
      readVarint afterId = .ok (-1, afterVersion) := by
  obtain ⟨length, _, packet, afterId, afterVersion, _, _, hrequest, hlength, hid, hversion, -⟩ :=
    handshake_roundtrip.2 [108, 111, 99, 97, 108, 104, 111, 115, 116] 25565 (-1) (by decide)
  exact ⟨by decide, length, packet, afterId, afterVersion, hrequest, hlength, hid, hversion⟩

end Farsight
