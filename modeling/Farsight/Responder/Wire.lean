import Farsight.Controller.Sender
import Farsight.Net.TcpFrame
import Farsight.Responder.Decode

/-!
# Frames in both directions

What comes in: the filter and the decoder find the fields of every frame in the format of
`TcpFrame`, whatever options the headers have and whatever follows the packet. What goes out: the
bytes that the slots of a sender describe are frames in that format, and reading them back gives the
arguments of the call.

* `Responder.decode_bytes`, `XdpProgram.tryFarsightXdp_bytes` — the two readers on a frame;
* `EthPacket.frame` — the packets of the senders as frames;
* `Sender.decode_described` — the round trip, after any calls.
-/

namespace Farsight

/-! ### What comes in -/

theorem fromOctets_byteOf (x : BitVec 32) :
    fromOctets (byteOf x 3) (byteOf x 2) (byteOf x 1) (byteOf x 0) = x := by
  apply BitVec.eq_of_toNat_eq
  have hx := x.isLt
  rw [fromOctets, BitVec.toNat_append, ← Nat.shiftLeft_add_eq_or_of_lt (BitVec.isLt _),
    Nat.shiftLeft_eq, toNat_fromBeBytes, toNat_fromBeBytes, toNat_byteOf, toNat_byteOf,
    toNat_byteOf, toNat_byteOf]
  omega

namespace TcpFrame

variable (frame : TcpFrame)

/-- The packet in the frame. -/
def packet : Packet where
  ip := frame.sourceIp
  hdr := frame.hdr
  payload := frame.payload

/-- The header length in words is found, for all lengths that there are. -/
theorem tcpStart_versionIhl : Responder.tcpStart frame.versionIhl = frame.tcpStart := by
  have hwords : ∀ k ≤ 10,
      Responder.tcpStart (.ofBitVec (4#4 ++ BitVec.ofNat 4 (5 + k))) = 34 + 4 * k := by
    decide
  exact hwords _ frame.ipOptions_le

/-- The upper half of the data offset counts the words of the header, which the source turns into
bytes by a shift. -/
theorem dataStart_dataOffset :
    Responder.dataStart frame.tcpStart frame.dataOffset = frame.dataStart := by
  have hwords : ∀ k ≤ 10, ∀ reserved : BitVec 4,
      ((UInt8.ofBitVec (BitVec.ofNat 4 (5 + k) ++ reserved) &&& 0xF0) >>> 2).toNat =
        20 + 4 * k := by
    decide
  rw [Responder.dataStart, dataOffset, hwords _ frame.tcpOptions_le]
  exact (Nat.add_assoc _ _ _).symm

theorem refFromBytes_tcpBytes (rest : List UInt8) :
    TcpHdr.refFromBytes ((frame.tcpBytes ++ rest).take 14) = some frame.hdr := by
  cases hhdr : frame.hdr with
  | mk sourcePort destPort seq ack flags =>
    rw [tcpBytes, hhdr]
    change some (TcpHdr.mk (fromBeBytes (byteOf sourcePort 1) (byteOf sourcePort 0))
      (fromBeBytes (byteOf destPort 1) (byteOf destPort 0))
      (fromOctets (byteOf seq 3) (byteOf seq 2) (byteOf seq 1) (byteOf seq 0))
      (fromOctets (byteOf ack 3) (byteOf ack 2) (byteOf ack 1) (byteOf ack 0)) flags) = _
    rw [fromBeBytes_byteOf, fromBeBytes_byteOf, fromOctets_byteOf, fromOctets_byteOf]

end TcpFrame

open TcpFrame

/-- **The decoder.** Every access is in bounds, and the fields and the payload are found between the
options of both headers and the padding. -/
theorem Responder.decode_bytes (frame : TcpFrame) :
    decode frame.bytes = .ok (some frame.packet) := by
  have hlength := frame.length_bytes
  have htotal : frame.totalLen = 40 + 4 * frame.ipOptions.length +
      4 * frame.tcpOptions.length + frame.payload.length := rfl
  have htcp : frame.tcpStart = 34 + 4 * frame.ipOptions.length := rfl
  have hdata : frame.dataStart = frame.tcpStart + 20 + 4 * frame.tcpOptions.length := rfl
  -- the position of each header is in the one before it
  have hfirst : Responder.tcpStart frame.bytes[14] = frame.tcpStart := by
    rw [frame.getElem_bytes (by decide)]
    exact frame.tcpStart_versionIhl
  have hoffset : Responder.dataStart frame.tcpStart frame.bytes[frame.tcpStart + 12] =
      frame.dataStart := by
    rw [frame.getElem_bytes_tcp (by decide)]
    exact frame.dataStart_dataOffset
  -- the length in the IP header ends the packet, so the padding behind it is cut off
  have hend : packetEnd (fromBeBytes frame.bytes[16] frame.bytes[17]) frame.bytes.length =
      frame.dataStart + frame.payload.length := by
    have hlt : frame.totalLen < 2 ^ 16 := frame.total_lt
    rw [frame.getElem_bytes (by decide), frame.getElem_bytes (by decide)]
    change packetEnd (fromBeBytes (byteOf _ 1) (byteOf _ 0)) _ = _
    rw [fromBeBytes_byteOf, packetEnd, BitVec.toNat_ofNat, Nat.mod_eq_of_lt hlt]
    omega
  have hip : fromOctets frame.bytes[26] frame.bytes[27] frame.bytes[28] frame.bytes[29] =
      frame.sourceIp := by
    rw [frame.getElem_bytes (by decide), frame.getElem_bytes (by decide),
      frame.getElem_bytes (by decide), frame.getElem_bytes (by decide)]
    exact fromOctets_byteOf frame.sourceIp
  have hpayload : (frame.bytes.take (frame.dataStart + frame.payload.length)).drop
      frame.dataStart = frame.payload := by
    rw [List.drop_take, frame.drop_dataStart, Nat.add_sub_cancel_left]
    exact List.take_left
  -- no bound fails: the slices are taken in the order of the source
  rw [decode, Slice.array_bind (by omega), Slice.index_bind (by omega), hfirst,
    Slice.array_bind (by omega), Slice.index_bind (by omega)]
  dsimp only
  simp only [getElem_bytesAt, Nat.add_zero, Nat.reduceAdd]
  rw [hoffset, hend, hip, if_neg (by omega), Slice.range_bind (by omega) (by omega),
    Slice.range_bind (by omega) (by omega), hpayload, List.drop_take, Nat.add_sub_cancel_left,
    frame.drop_tcpStart, frame.refFromBytes_tcpBytes]
  rfl

/-- `ptr_at` within the bounds. -/
theorem XdpProgram.ptrAt_bind {β : Type} {n offset : ℕ} {data : List UInt8}
    (h : offset + n ≤ data.length) (f : Vector UInt8 n → Except Unit β) :
    ptrAt n data offset >>= f = f (bytesAt n data offset h) := by
  rw [ptrAt, dif_pos h]
  rfl

/-- **The filter.** Only the port and the queue decide. -/
theorem XdpProgram.tryFarsightXdp_bytes (program : XdpProgram) (frame : TcpFrame)
    (hstart : program.sourcePortStart ≠ 0) (hend : program.sourcePortEnd ≠ 0)
    (rxQueueIndex : BitVec 32) :
    program.tryFarsightXdp rxQueueIndex frame.bytes =
      .ok (if frame.hdr.destPort < program.sourcePortStart ∨
          frame.hdr.destPort > program.sourcePortEnd then .pass
        else if program.socks (rxQueueIndex % program.usableQueues) then
          .redirect (rxQueueIndex % program.usableQueues)
        else .pass) := by
  have hlength := frame.length_bytes
  have htotal : frame.totalLen = 40 + 4 * frame.ipOptions.length +
      4 * frame.tcpOptions.length + frame.payload.length := rfl
  have htcp : frame.tcpStart = 34 + 4 * frame.ipOptions.length := rfl
  have hfour : 0 + 14 ≤ frame.bytes.length := by omega
  have heth : EthHdr.len = 14 := rfl
  have htwenty : EthHdr.len + 20 ≤ frame.bytes.length := by omega
  -- the checks of the program, one by one, on a frame that passes them
  have htype : EthHdr.etherType (bytesAt 14 frame.bytes 0 hfour) = EthHdr.ipv4 := by
    rw [EthHdr.etherType, getElem_bytesAt, getElem_bytesAt, frame.getElem_bytes (by decide),
      frame.getElem_bytes (by decide)]
    change fromBeBytes 0x08 0x00 = _
    decide
  have hproto : Ipv4Hdr.proto (bytesAt 20 frame.bytes EthHdr.len htwenty) = Ipv4Hdr.tcp := by
    rw [Ipv4Hdr.proto, getElem_bytesAt, frame.getElem_bytes (by decide)]
    rfl
  have hihl : EthHdr.len + 4 * Ipv4Hdr.ihl (bytesAt 20 frame.bytes EthHdr.len htwenty) =
      frame.tcpStart := by
    rw [Ipv4Hdr.ihl, getElem_bytesAt, frame.getElem_bytes (by decide)]
    exact (Responder.tcpStart_eq _).symm.trans frame.tcpStart_versionIhl
  have hdest (h : frame.tcpStart + 20 ≤ frame.bytes.length) :
      tcpDest (bytesAt 20 frame.bytes frame.tcpStart h) = frame.hdr.destPort := by
    rw [tcpDest, getElem_bytesAt, getElem_bytesAt, frame.getElem_bytes_tcp (by decide),
      frame.getElem_bytes_tcp (by decide)]
    exact fromBeBytes_byteOf _
  -- what is left is the decision by port and queue
  rw [tryFarsightXdp, if_neg hstart, if_neg hend, ptrAt_bind hfour, if_neg (not_not_intro htype),
    ptrAt_bind htwenty, if_neg (not_not_intro hproto)]
  dsimp only
  rw [hihl, if_neg (by omega), ptrAt_bind (by omega), hdest]
  split_ifs <;> rfl

/-! ### What goes out -/

/-- A packet whose length field is right, as a frame. -/
def EthPacket.frame (shared : SharedData) (packet : EthPacket)
    (h : 48 + packet.body.length < 2 ^ 16) : TcpFrame where
  destMac := shared.gateway
  sourceMac := shared.interface
  tos := 0
  ident := 1
  fragment := 0x4000
  ttl := 64
  ipChecksum := packet.hdr.ipChecksum
  sourceIp := shared.sourceIp
  destIp := packet.hdr.destAddr
  ipOptions := []
  hdr :=
    { sourcePort := packet.hdr.sourcePort
      destPort := packet.hdr.destPort
      seq := packet.hdr.seq
      ack := packet.hdr.ack
      flags := packet.hdr.flags }
  reserved := 0
  window := 32768
  tcpChecksum := packet.hdr.tcpChecksum
  urgent := 0
  -- MSS 1340, two no-ops, SACK permitted
  tcpOptions := [0x0204053C, 0x01010402]
  payload := packet.body
  padding := []
  ipOptions_le := Nat.zero_le _
  tcpOptions_le := by decide
  total_lt := h

/-- A packet of the sender is a frame, byte for byte: its header has no IP options, and the two
words of TCP options that every packet carries. -/
theorem EthPacket.bytes_frame {shared : SharedData} {packet : EthPacket}
    {h : 48 + packet.body.length < 2 ^ 16}
    (hlen : packet.hdr.len = .ofNat 16 (48 + packet.body.length)) :
    (packet.frame shared h).bytes = packet.bytes shared := by
  -- the fields that no packet changes
  have hversion : (packet.frame shared h).versionIhl = 0x45 := by
    change UInt8.ofBitVec (4#4 ++ 5#4) = 0x45
    decide
  have hoffset : (packet.frame shared h).dataOffset = 0x70 := by
    change UInt8.ofBitVec (7#4 ++ 0#4) = 0x70
    decide
  have hident : be16 1 = [0x00, 0x01] := by decide
  have hfragment : be16 0x4000 = [0x40, 0x00] := by decide
  have hwindow : be16 32768 = [0x80, 0x00] := by decide
  have hurgent : be16 0 = [0x00, 0x00] := by decide
  have hoptions : optionBytes [0x0204053C, 0x01010402] =
      [0x02, 0x04, 0x05, 0x3C, 0x01, 0x01, 0x04, 0x02] := by decide
  rw [EthPacket.bytes, EthTcpIpHdr.bytes, hlen, TcpFrame.bytes, TcpFrame.ipBytes,
    TcpFrame.tcpBytes, hversion, hoffset]
  dsimp only [frame]
  rw [hident, hfragment, hwindow, hurgent, hoptions, List.append_nil]
  rfl

/-- What a call says: the receivers and the segments. -/
def SendCall.segments (sourceIp : Ipv4Addr) : SendCall → List (Ipv4Addr × Packet)
  | .sendSyn template seed => [probe template seed]
  | .sendSynBatch templates seed => templates.map fun template => probe template seed
  | .send flags ip sourcePort port seq ack =>
      [(ip, ⟨sourceIp, ⟨sourcePort, port, seq, ack, flags⟩, []⟩)]
  | .sendWithData ip sourcePort port seq ack body =>
      [(ip, ⟨sourceIp, ⟨sourcePort, port, seq, ack, TcpFlags.psh ||| TcpFlags.ack⟩, body⟩)]
where
  /-- The SYN to the target of a template. -/
  probe (template : PacketTemplate) (seed : BitVec 64) : Ipv4Addr × Packet :=
    (template.ip, ⟨sourceIp, ⟨template.sourcePort, template.destinationPort,
      cookie template.ip template.destinationPort seed, 0, TcpFlags.syn⟩, []⟩)

namespace Sender

/-- A packet that is in the format and carries this segment. -/
structure Carries (shared : SharedData) (packet : EthPacket) (segment : Ipv4Addr × Packet) :
    Prop where
  len : packet.hdr.len = .ofNat 16 (48 + packet.body.length)
  dest : packet.hdr.destAddr = segment.1
  packet : segment.2 = ⟨shared.sourceIp, ⟨packet.hdr.sourcePort, packet.hdr.destPort,
    packet.hdr.seq, packet.hdr.ack, packet.hdr.flags⟩, packet.body⟩

/-- The packets of a call carry what it says. -/
theorem packets_carry (self : Sender) (call : SendCall) :
    List.Forall₂ (Carries self.shared) (self.packets call)
      (call.segments self.shared.sourceIp) := by
  cases call with
  | sendSyn template seed => exact .cons ⟨rfl, rfl, rfl⟩ .nil
  | sendSynBatch templates seed =>
    refine List.forall₂_map_left_iff.mpr (List.forall₂_map_right_iff.mpr ?_)
    exact List.forall₂_same.mpr fun template _ => ⟨rfl, rfl, rfl⟩
  | send flags ip sourcePort port seq ack => exact .cons ⟨rfl, rfl, rfl⟩ .nil
  | sendWithData ip sourcePort port seq ack body =>
    refine .cons ⟨?_, rfl, rfl⟩ .nil
    exact (BitVec.ofNat_add 48 body.length).symm

/-- What is found in the frame of a packet that carries a segment. -/
theorem Carries.exists_frame {shared : SharedData} {packet : EthPacket}
    {segment : Ipv4Addr × Packet} (h : Carries shared packet segment)
    (hlen : packet.len ≤ frameSize) :
    ∃ frame : TcpFrame, frame.bytes = packet.bytes shared ∧ frame.destMac = shared.gateway ∧
      frame.sourceMac = shared.interface ∧ frame.destIp = segment.1 ∧ frame.packet = segment.2 := by
  have hlt : 48 + packet.body.length < 2 ^ 16 := by
    rw [EthPacket.len, frameSize] at hlen
    omega
  exact ⟨packet.frame shared hlt, EthPacket.bytes_frame h.len, rfl, rfl, h.dest, h.packet.symm⟩

/-- **The round trip.** After any calls, and whatever others write into the rest of the UMEM, the
slots of one more call describe frames to the gateway. Each of them goes to the receiver that the
call says, and decoding it gives the segment that the call says, with nothing of what was in the
slot before. -/
theorem described_segments (self : Sender) (umem : ℕ → UInt8) (acts : List SenderAct)
    (hallows : ∀ act ∈ acts, self.Allows frameSize act) (index : BitVec 32) (call : SendCall)
    (hfits : call.FitsIn frameSize) (hcount : call.count ≤ self.size) {i : ℕ}
    {segment : Ipv4Addr × Packet}
    (hi : (call.segments self.shared.sourceIp)[i]? = some segment) :
    let data := self.described (self.exec (self.run umem acts) index call) (index + .ofNat 32 i)
    Responder.decode data = .ok (some segment.2) ∧
      ∃ frame : TcpFrame, frame.bytes = data ∧ frame.destMac = self.shared.gateway ∧
        frame.sourceMac = self.shared.interface ∧ frame.destIp = segment.1 ∧
        frame.packet = segment.2 := by
  obtain ⟨hlength, hcarries⟩ := List.forall₂_iff_zip.mp (self.packets_carry call)
  obtain ⟨packet, hpacket⟩ : ∃ packet, (self.packets call)[i]? = some packet := by
    have hlt := (List.getElem?_eq_some_iff.mp hi).1
    exact ⟨_, List.getElem?_eq_getElem (hlength ▸ hlt)⟩
  -- packet by packet: the `i`-th one carries the `i`-th segment
  have hcarry : Carries self.shared packet segment :=
    hcarries (List.mem_of_getElem? (List.getElem?_zip_eq_some.mpr ⟨hpacket, hi⟩))
  obtain ⟨frame, hbytes, hgateway, hinterface, hdest, hsegment⟩ :=
    hcarry.exists_frame (len_le_of_fitsIn hfits (List.mem_of_getElem? hpacket))
  -- the bytes in the descriptor are those of the packet
  rw [← described_exec (bound_run umem hallows) hfits hcount hpacket] at hbytes
  refine ⟨?_, frame, hbytes, hgateway, hinterface, hdest, hsegment⟩
  rw [← hbytes, ← hsegment]
  exact Responder.decode_bytes frame

/-- A packet with a body, and then an ACK in the same slot. -/
theorem described_segments_ack :
    let call := SendCall.send TcpFlags.ack 7 61000 80 5 6
    let state := (sample false).run (fun _ => 0) [.call 0 (.sendWithData 9 61000 80 1 2 [1, 2, 3])]
    Responder.decode ((sample false).described ((sample false).exec state 4 call) 4) =
      .ok (some ⟨0x0A000002, ⟨61000, 80, 5, 6, TcpFlags.ack⟩, []⟩) :=
  (described_segments (sample false) (fun _ => 0)
    [.call 0 (.sendWithData 9 61000 80 1 2 [1, 2, 3])] (by decide) 4
    (.send TcpFlags.ack 7 61000 80 5 6) (by decide) (by decide) (i := 0) rfl).1

end Sender

end Farsight
