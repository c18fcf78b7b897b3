import Farsight.Lib.ByteMemory
import Farsight.Lib.OnesComplement
import Farsight.Net.Tcp

/-!
# Ethernet frames

The packets that are sent all come from one template, `TCP_PACKET`, of which only some fields are
written: `EthTcpIpHdr` has these fields, `EthTcpIpHdr.bytes` is the whole header, and
`EthTcpIpHdr.writes` the bytes that writing the fields puts into it.

* `sumBody`, `ipv4Sum`, `fold` — the checksum arithmetic of the source, with one lemma each that
  says what it computes;
* `splice_*` — writing a field of a header gives the header with that field.
-/

namespace Farsight

open ByteMemory

/-! ### Big-endian numbers -/

/-- `u16::from_be_bytes`. -/
def fromBeBytes (a b : UInt8) : BitVec 16 :=
  a.toBitVec ++ b.toBitVec

/-- A byte of a word, counted from its lower end. -/
def byteOf {w : ℕ} (x : BitVec w) (i : ℕ) : UInt8 :=
  .ofBitVec (x.extractLsb' (8 * i) 8)

/-- `network_endian::U16`. -/
def be16 (x : BitVec 16) : List UInt8 :=
  [byteOf x 1, byteOf x 0]

/-- `network_endian::U32`, and the octets of an address. -/
def be32 (x : BitVec 32) : List UInt8 :=
  [byteOf x 3, byteOf x 2, byteOf x 1, byteOf x 0]

/-- The octets of a MAC address. -/
def macOctets (x : BitVec 48) : List UInt8 :=
  [byteOf x 5, byteOf x 4, byteOf x 3, byteOf x 2, byteOf x 1, byteOf x 0]

theorem toNat_byteOf {w : ℕ} (x : BitVec w) (i : ℕ) :
    (byteOf x i).toNat = x.toNat / 2 ^ (8 * i) % 256 := by
  change (x.extractLsb' (8 * i) 8).toNat = _
  rw [BitVec.extractLsb'_toNat, Nat.shiftRight_eq_div_pow]

theorem toNat_fromBeBytes (a b : UInt8) :
    (fromBeBytes a b).toNat = a.toNat * 256 + b.toNat := by
  rw [fromBeBytes, BitVec.toNat_append, ← Nat.shiftLeft_add_eq_or_of_lt b.toBitVec.isLt,
    Nat.shiftLeft_eq]
  rfl

/-! ### Sums -/

/-- `ipv4_sum`. -/
def ipv4Sum (ip : Ipv4Addr) : BitVec 32 :=
  (fromBeBytes (byteOf ip 3) (byteOf ip 2)).setWidth 32 +
    (fromBeBytes (byteOf ip 1) (byteOf ip 0)).setWidth 32

/-- `fold`. -/
def fold (sum : BitVec 32) : BitVec 16 :=
  let sum := (sum >>> 16) + (sum &&& 0xffff#32)
  (sum + (sum >>> 16)).setWidth 16

/-- The loop of `sum_body`, over the bytes that are left. -/
def sumBodyLoop (sum : BitVec 32) : List UInt8 → BitVec 32
  | a :: b :: rest => sumBodyLoop (sum + (fromBeBytes a b).setWidth 32) rest
  | [last] => sum + (last.toBitVec.setWidth 32 <<< 8)
  | [] => sum

/-- `sum_body`. -/
def sumBody (data : List UInt8) : BitVec 32 :=
  sumBodyLoop 0 data

/-- The two halves of an address. -/
theorem toNat_ipv4Sum (ip : Ipv4Addr) :
    (ipv4Sum ip).toNat = ip.toNat / 65536 + ip.toNat % 65536 := by
  have hip := ip.isLt
  have hhigh : (fromBeBytes (byteOf ip 3) (byteOf ip 2)).toNat = ip.toNat / 65536 := by
    rw [toNat_fromBeBytes, toNat_byteOf, toNat_byteOf]
    omega
  have hlow : (fromBeBytes (byteOf ip 1) (byteOf ip 0)).toNat = ip.toNat % 65536 := by
    rw [toNat_fromBeBytes, toNat_byteOf, toNat_byteOf]
    omega
  rw [ipv4Sum, BitVec.toNat_add, BitVec.toNat_setWidth, BitVec.toNat_setWidth, hhigh, hlow]
  omega

/-- Folding loses no carry: the result is congruent to the sum, and `0` only for `0`. -/
theorem fold_spec (sum : BitVec 32) :
    (fold sum).toNat ≡ sum.toNat [MOD 65535] ∧ ((fold sum).toNat = 0 ↔ sum.toNat = 0) := by
  have hsum := sum.isLt
  have hlow : (sum &&& 0xffff#32).toNat = sum.toNat % 65536 := by
    rw [BitVec.toNat_and]
    exact Nat.and_two_pow_sub_one_eq_mod sum.toNat 16
  have hhalves : ((sum >>> 16) + (sum &&& 0xffff#32)).toNat =
      sum.toNat / 65536 + sum.toNat % 65536 := by
    rw [BitVec.toNat_add, BitVec.toNat_ushiftRight, hlow, Nat.shiftRight_eq_div_pow]
    omega
  have hfold : (fold sum).toNat = (sum.toNat / 65536 + sum.toNat % 65536 +
      (sum.toNat / 65536 + sum.toNat % 65536) / 65536) % 65536 := by
    rw [fold, BitVec.toNat_setWidth, BitVec.toNat_add, BitVec.toNat_ushiftRight, hhalves,
      Nat.shiftRight_eq_div_pow]
    omega
  rw [hfold]
  -- the two halves have a carry, or not
  obtain ⟨q, hq⟩ : ∃ q, q = sum.toNat / 65536 := ⟨_, rfl⟩
  obtain ⟨r, hr⟩ : ∃ r, r = sum.toNat % 65536 := ⟨_, rfl⟩
  have hsplit : sum.toNat = 65536 * q + r := by omega
  rw [← hq, ← hr, hsplit]
  change (q + r + (q + r) / 65536) % 65536 % 65535 = (65536 * q + r) % 65535 ∧ _
  by_cases hcarry : q + r < 65536
  · rw [Nat.div_eq_of_lt hcarry]
    omega
  · rw [show (q + r) / 65536 = 1 by omega, show (q + r + 1) % 65536 = q + r - 65535 by omega]
    clear hhalves hfold hlow
    omega

open OnesComplement in
/-- As long as it stays in range, `sum_body` is the sum of the words. -/
theorem toNat_sumBodyLoop (sum : BitVec 32) (data : List UInt8)
    (h : sum.toNat + 65535 * ((data.length + 1) / 2) < 2 ^ 32) :
    (sumBodyLoop sum data).toNat = sum.toNat + (words data).sum := by
  fun_induction sumBodyLoop sum data with
  | case1 sum a b rest ih =>
    have hword := (fromBeBytes a b).isLt
    -- the bound on the length keeps the sum below 2³², so the addition is exact
    have hadd : (sum + (fromBeBytes a b).setWidth 32).toNat =
        sum.toNat + (fromBeBytes a b).toNat := by
      rw [BitVec.toNat_add, BitVec.toNat_setWidth]
      rw [List.length_cons, List.length_cons] at h
      omega
    rw [ih (by rw [hadd]; rw [List.length_cons, List.length_cons] at h; omega), hadd,
      toNat_fromBeBytes, words, List.sum_cons, Nat.add_assoc]
  | case2 sum last =>
    -- the odd byte at the end is shifted to the high half
    have hlast := last.toNat_lt
    rw [BitVec.toNat_add, BitVec.toNat_shiftLeft, BitVec.toNat_setWidth, Nat.shiftLeft_eq, words,
      List.sum_singleton]
    change (_ + last.toNat % 2 ^ 32 * 2 ^ 8 % 2 ^ 32) % 2 ^ 32 = _
    rw [List.length_singleton] at h
    omega
  | case3 sum => rfl

open OnesComplement in
/-- The sum over a body of up to 2¹⁶ bytes does not overflow. -/
theorem toNat_sumBody (data : List UInt8) (h : data.length ≤ 65536) :
    (sumBody data).toNat = (words data).sum := by
  have hloop := toNat_sumBodyLoop 0 data (by change 0 + _ < _; omega)
  rw [sumBody, hloop]
  exact Nat.zero_add _

/-! ### Headers -/

/-- `TCP_PACKET`. -/
def tcpPacket : List UInt8 := [
  -- Ethernet
  0x00, 0x00, 0x00, 0x00, 0x00, 0x00, 0x00, 0x00, 0x00, 0x00, 0x00, 0x00, 0x08, 0x00,
  -- IP: 48 bytes, do not fragment, TTL 64, TCP
  0x45, 0x00, 0x00, 0x30, 0x00, 0x01, 0x40, 0x00, 0x40, 0x06, 0x00, 0x00,
  0x00, 0x00, 0x00, 0x00, 0x00, 0x00, 0x00, 0x00,
  -- TCP: seven words of header, window 32768
  0x00, 0x00, 0x00, 0x00, 0x00, 0x00, 0x00, 0x00, 0x00, 0x00, 0x00, 0x00, 0x70, 0x00,
  0x80, 0x00, 0x00, 0x00, 0x00, 0x00,
  -- options: MSS 1340, two no-ops, SACK permitted
  0x02, 0x04, 0x05, 0x3C, 0x01, 0x01, 0x04, 0x02]

/-- The fields of `SharedData` that are the same in all packets. -/
structure SharedData where
  sourceIp : Ipv4Addr
  gateway : BitVec 48
  interface : BitVec 48
  deriving DecidableEq, Repr

/-- `EthTcpIpHdr`: the fields that are written for each packet. -/
structure EthTcpIpHdr where
  len : BitVec 16
  ipChecksum : BitVec 16
  destAddr : Ipv4Addr
  sourcePort : BitVec 16
  destPort : BitVec 16
  seq : BitVec 32
  ack : BitVec 32
  flags : TcpFlags
  tcpChecksum : BitVec 16
  deriving DecidableEq, Repr

namespace EthTcpIpHdr

/-- The whole header. -/
def bytes (shared : SharedData) (hdr : EthTcpIpHdr) : List UInt8 :=
  macOctets shared.gateway ++ macOctets shared.interface ++ [0x08, 0x00] ++
  ([0x45, 0x00] ++ be16 hdr.len ++ [0x00, 0x01, 0x40, 0x00, 0x40, 0x06] ++ be16 hdr.ipChecksum ++
    be32 shared.sourceIp ++ be32 hdr.destAddr) ++
  (be16 hdr.sourcePort ++ be16 hdr.destPort ++ be32 hdr.seq ++ be32 hdr.ack ++
    [0x70, .ofBitVec hdr.flags, 0x80, 0x00] ++ be16 hdr.tcpChecksum ++
    [0x00, 0x00, 0x02, 0x04, 0x05, 0x3C, 0x01, 0x01, 0x04, 0x02])

/-- The fields by their offsets. No two of them overlap, so their order does not matter. -/
def writes (hdr : EthTcpIpHdr) : List (ℕ × List UInt8) :=
  [(30, be32 hdr.destAddr), (42, be32 hdr.ack), (38, be32 hdr.seq), (16, be16 hdr.len),
    (36, be16 hdr.destPort), (34, be16 hdr.sourcePort), (24, be16 hdr.ipChecksum),
    (50, be16 hdr.tcpChecksum), (47, [.ofBitVec hdr.flags])]

/-- The header of a frame that was never sent. -/
def initial : EthTcpIpHdr where
  len := 48
  ipChecksum := 0
  destAddr := 0
  sourcePort := 0
  destPort := 0
  seq := 0
  ack := 0
  flags := 0
  tcpChecksum := 0

@[simp] theorem length_bytes (shared : SharedData) (hdr : EthTcpIpHdr) :
    (hdr.bytes shared).length = 62 := rfl

/-- The fields lie in the first 52 bytes. -/
theorem le_of_mem_writes {hdr : EthTcpIpHdr} :
    ∀ w ∈ hdr.writes, w.1 + w.2.length ≤ 52 := by
  intro w hw
  have hends : ∀ n ∈ [34, 46, 42, 18, 38, 36, 26, 52, 48], n ≤ 52 := by decide
  exact hends _ (List.mem_map_of_mem (f := fun w => w.1 + w.2.length) hw)

section Splice

variable (shared : SharedData) (hdr : EthTcpIpHdr)

theorem splice_destAddr (x : Ipv4Addr) :
    splice 30 (be32 x) (hdr.bytes shared) = { hdr with destAddr := x }.bytes shared := rfl

theorem splice_ack (x : BitVec 32) :
    splice 42 (be32 x) (hdr.bytes shared) = { hdr with ack := x }.bytes shared := rfl

theorem splice_seq (x : BitVec 32) :
    splice 38 (be32 x) (hdr.bytes shared) = { hdr with seq := x }.bytes shared := rfl

theorem splice_len (x : BitVec 16) :
    splice 16 (be16 x) (hdr.bytes shared) = { hdr with len := x }.bytes shared := rfl

theorem splice_destPort (x : BitVec 16) :
    splice 36 (be16 x) (hdr.bytes shared) = { hdr with destPort := x }.bytes shared := rfl

theorem splice_sourcePort (x : BitVec 16) :
    splice 34 (be16 x) (hdr.bytes shared) = { hdr with sourcePort := x }.bytes shared := rfl

theorem splice_ipChecksum (x : BitVec 16) :
    splice 24 (be16 x) (hdr.bytes shared) = { hdr with ipChecksum := x }.bytes shared := rfl

theorem splice_tcpChecksum (x : BitVec 16) :
    splice 50 (be16 x) (hdr.bytes shared) = { hdr with tcpChecksum := x }.bytes shared := rfl

theorem splice_flags (x : TcpFlags) :
    splice 47 [.ofBitVec x] (hdr.bytes shared) = { hdr with flags := x }.bytes shared := rfl

/-- Writing all fields gives the whole header, whatever the fields were before. -/
theorem splice_writes (old : EthTcpIpHdr) :
    hdr.writes.foldl (fun bytes w => splice w.1 w.2 bytes) (old.bytes shared) =
      hdr.bytes shared := by
  simp only [writes, List.foldl_cons, List.foldl_nil, splice_destAddr, splice_ack, splice_seq,
    splice_len, splice_destPort, splice_sourcePort, splice_ipChecksum, splice_tcpChecksum,
    splice_flags]

/-- The template with the addresses of the sender is the header of a frame that was never sent. -/
theorem splice_tcpPacket :
    splice 26 (be32 shared.sourceIp) (splice 6 (macOctets shared.interface)
      (splice 0 (macOctets shared.gateway) tcpPacket)) = initial.bytes shared := by
  rfl

end Splice

end EthTcpIpHdr

end Farsight
