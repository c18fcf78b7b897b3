import Farsight.Net.Frame

/-!
# TCP segments on the wire

The format of what a host on the other side sends: a TCP segment in an IPv4 packet in an Ethernet
frame, with any options in both headers, and with padding behind the packet.

* `TcpFrame` — the fields of such a frame. The options are words, so that both headers have a length
  that their four bits can say;
* `TcpFrame.bytes` — the frame;
* `TcpFrame.drop_tcpStart`, `TcpFrame.drop_dataStart` — where the segment and its payload are in it.
-/

namespace Farsight

/-! ### Reading big-endian numbers -/

@[simp] theorem fromBeBytes_byteOf (x : BitVec 16) : fromBeBytes (byteOf x 1) (byteOf x 0) = x := by
  apply BitVec.eq_of_toNat_eq
  have hx := x.isLt
  rw [toNat_fromBeBytes, toNat_byteOf, toNat_byteOf]
  omega

/-- The words of options, as bytes. -/
def optionBytes (words : List (BitVec 32)) : List UInt8 :=
  words.flatMap be32

@[simp] theorem length_optionBytes (words : List (BitVec 32)) :
    (optionBytes words).length = 4 * words.length := by
  induction words with
  | nil => rfl
  | cons word words ih =>
    rw [optionBytes, List.flatMap_cons, List.length_append, List.length_cons, Nat.mul_succ,
      Nat.add_comm]
    exact congrArg (· + 4) ih

/-! ### Frames -/

/-- A TCP segment in an IPv4 packet in an Ethernet frame. -/
structure TcpFrame where
  destMac : BitVec 48
  sourceMac : BitVec 48
  tos : UInt8
  ident : BitVec 16
  fragment : BitVec 16
  ttl : UInt8
  ipChecksum : BitVec 16
  sourceIp : Ipv4Addr
  destIp : Ipv4Addr
  ipOptions : List (BitVec 32)
  hdr : TcpHdr
  reserved : BitVec 4
  window : BitVec 16
  tcpChecksum : BitVec 16
  urgent : BitVec 16
  tcpOptions : List (BitVec 32)
  payload : List UInt8
  padding : List UInt8
  ipOptions_le : ipOptions.length ≤ 10
  tcpOptions_le : tcpOptions.length ≤ 10
  total_lt : 40 + 4 * ipOptions.length + 4 * tcpOptions.length + payload.length < 2 ^ 16

namespace TcpFrame

variable (frame : TcpFrame)

/-- The total length of the IP packet. -/
def totalLen : ℕ :=
  40 + 4 * frame.ipOptions.length + 4 * frame.tcpOptions.length + frame.payload.length

/-- The version and the length of the IP header, in words. -/
def versionIhl : UInt8 :=
  .ofBitVec (4#4 ++ BitVec.ofNat 4 (5 + frame.ipOptions.length))

/-- The length of the TCP header, in words, and the reserved bits. -/
def dataOffset : UInt8 :=
  .ofBitVec (BitVec.ofNat 4 (5 + frame.tcpOptions.length) ++ frame.reserved)

/-- The headers without the IP options. -/
def ipBytes : List UInt8 :=
  macOctets frame.destMac ++ macOctets frame.sourceMac ++ [0x08, 0x00] ++
  ([frame.versionIhl, frame.tos] ++ be16 (.ofNat 16 frame.totalLen) ++ be16 frame.ident ++
    be16 frame.fragment ++ [frame.ttl, 0x06] ++ be16 frame.ipChecksum ++ be32 frame.sourceIp ++
    be32 frame.destIp)

/-- The TCP header without its options. -/
def tcpBytes : List UInt8 :=
  be16 frame.hdr.sourcePort ++ be16 frame.hdr.destPort ++ be32 frame.hdr.seq ++
    be32 frame.hdr.ack ++ [frame.dataOffset, .ofBitVec frame.hdr.flags] ++ be16 frame.window ++
    be16 frame.tcpChecksum ++ be16 frame.urgent

/-- The frame. -/
def bytes : List UInt8 :=
  frame.ipBytes ++ (optionBytes frame.ipOptions ++ (frame.tcpBytes ++
    (optionBytes frame.tcpOptions ++ (frame.payload ++ frame.padding))))

/-- Where the TCP header starts. -/
def tcpStart : ℕ :=
  34 + 4 * frame.ipOptions.length

/-- Where the payload starts. -/
def dataStart : ℕ :=
  frame.tcpStart + 20 + 4 * frame.tcpOptions.length

theorem length_bytes :
    frame.bytes.length = 14 + frame.totalLen + frame.padding.length := by
  have hip : frame.ipBytes.length = 34 := rfl
  have htcp : frame.tcpBytes.length = 20 := rfl
  simp only [bytes, List.length_append, length_optionBytes, hip, htcp, totalLen]
  omega

theorem drop_tcpStart : frame.bytes.drop frame.tcpStart =
    frame.tcpBytes ++ (optionBytes frame.tcpOptions ++ (frame.payload ++ frame.padding)) := by
  have hlength : frame.tcpStart = (frame.ipBytes ++ optionBytes frame.ipOptions).length := by
    rw [List.length_append, length_optionBytes]
    rfl
  rw [bytes, ← List.append_assoc, hlength]
  exact List.drop_left

theorem drop_dataStart : frame.bytes.drop frame.dataStart = frame.payload ++ frame.padding := by
  have hlength : 20 + 4 * frame.tcpOptions.length =
      (frame.tcpBytes ++ optionBytes frame.tcpOptions).length := by
    rw [List.length_append, length_optionBytes]
    rfl
  rw [dataStart, Nat.add_assoc, ← List.drop_drop, drop_tcpStart, ← List.append_assoc, hlength]
  exact List.drop_left

/-- A byte of the headers without the options. -/
theorem getElem_bytes {i : ℕ} (hi : i < 34) (h : i < frame.bytes.length) :
    frame.bytes[i] = frame.ipBytes.get ⟨i, hi⟩ :=
  List.getElem_append_left hi

/-- A byte of the TCP header. -/
theorem getElem_bytes_tcp {i : ℕ} (hi : i < 20) (h : frame.tcpStart + i < frame.bytes.length) :
    frame.bytes[frame.tcpStart + i] = frame.tcpBytes.get ⟨i, hi⟩ := by
  have hdrop : i < (frame.bytes.drop frame.tcpStart).length := by
    rw [List.length_drop]
    omega
  calc frame.bytes[frame.tcpStart + i]
      = (frame.bytes.drop frame.tcpStart)[i] := List.getElem_drop.symm
    _ = frame.tcpBytes.get ⟨i, hi⟩ := by
        simp only [drop_tcpStart]
        exact List.getElem_append_left hi

end TcpFrame

end Farsight
