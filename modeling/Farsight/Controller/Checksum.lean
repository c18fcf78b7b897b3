import Farsight.Controller.Sender

/-!
# Checksums in software

Each function of the sender assembles the sums of a packet from those of the template and of the
fields it writes. `EthPacket.ipv4Rest` and `EthPacket.tcpRest` are the exact sums of all words but
the checksum; a sender is right if it folds these (`Sender.Summed`).

* `ValidPacket` — what a receiver checks: the sum of the IPv4 header, the total length, and the sum
  of the segment with its pseudo header;
* `Sender.summed_packets` — every packet of every call has the exact sums;
* `Sender.checksums_valid` — without offload, whatever was sent before, the bytes that the
  descriptors of a call describe are valid.
-/

namespace Farsight

open ByteMemory OnesComplement

/-! ### What a receiver checks -/

/-- The word at an offset. -/
def wordAt (packet : List UInt8) (offset : ℕ) : ℕ :=
  (packet.getD offset 0).toNat * 256 + (packet.getD (offset + 1) 0).toNat

/-- The IPv4 header of a packet. -/
def ipv4Header (packet : List UInt8) : List UInt8 :=
  (packet.drop 14).take 20

/-- The TCP segment of a packet. -/
def segment (packet : List UInt8) : List UInt8 :=
  packet.drop 34

/-- The pseudo header: the addresses, the protocol and the length of the segment. -/
def pseudoHeader (packet : List UInt8) : List UInt8 :=
  (packet.drop 26).take 8 ++ [0, 6] ++ be16 (.ofNat 16 (segment packet).length)

/-- The packet is accepted. -/
structure ValidPacket (packet : List UInt8) : Prop where
  ipv4 : sum (words (ipv4Header packet)) = 0xFFFF
  totalLength : wordAt packet 16 = packet.length - 14
  tcp : sum (words (pseudoHeader packet ++ segment packet)) = 0xFFFF

/-! ### The words of a packet -/

/-- The two halves of a word. -/
def halves (x : BitVec 32) : ℕ :=
  x.toNat / 65536 + x.toNat % 65536

/-- The bounds on the parts keep the 32-bit sums of the source from overflowing: an address adds
less than 2¹⁷. -/
theorem halves_le (x : BitVec 32) : halves x ≤ 131070 := by
  have hx := x.isLt
  unfold halves
  omega

/-- The body may be summed in 32 bits, since a frame holds a few thousand bytes. A byte alone is the
high half of a last word, so the bound is by bytes and not by words. -/
theorem sum_words_le (body : List UInt8) : (words body).sum ≤ 65535 * body.length := by
  fun_induction words body with
  | case1 a b rest ih =>
    have ha := a.toNat_lt
    have hb := b.toNat_lt
    rw [List.sum_cons, List.length_cons, List.length_cons]
    omega
  | case2 a =>
    -- the odd byte at the end counts as the high half of a word
    have ha := a.toNat_lt
    rw [List.sum_singleton, List.length_singleton]
    omega
  | case3 => exact Nat.le_refl _

theorem toNat_bytes (x : BitVec 16) :
    (byteOf x 1).toNat * 256 + (byteOf x 0).toNat = x.toNat := by
  have hx := x.isLt
  rw [toNat_byteOf, toNat_byteOf]
  omega

theorem sum_words_be16 (x : BitVec 16) (rest : List UInt8) :
    (words (be16 x ++ rest)).sum = x.toNat + (words rest).sum := by
  change (((byteOf x 1).toNat * 256 + (byteOf x 0).toNat) :: words rest).sum = _
  rw [List.sum_cons, toNat_bytes]

theorem sum_words_be32 (x : BitVec 32) (rest : List UInt8) :
    (words (be32 x ++ rest)).sum = halves x + (words rest).sum := by
  have hx := x.isLt
  change (((byteOf x 3).toNat * 256 + (byteOf x 2).toNat) ::
    ((byteOf x 1).toNat * 256 + (byteOf x 0).toNat) :: words rest).sum = _
  rw [List.sum_cons, List.sum_cons, toNat_byteOf, toNat_byteOf, toNat_byteOf, toNat_byteOf, halves]
  omega

namespace EthPacket

variable {shared : SharedData} {packet : EthPacket}

/-- The sum of the IPv4 header without its checksum. -/
def ipv4Rest (shared : SharedData) (packet : EthPacket) : ℕ :=
  0x4500 + packet.hdr.len.toNat + 0x0001 + 0x4000 + 0x4006 + halves shared.sourceIp +
    halves packet.hdr.destAddr

/-- The sum of the segment without its checksum. -/
def segmentRest (packet : EthPacket) : ℕ :=
  packet.hdr.sourcePort.toNat + packet.hdr.destPort.toNat + halves packet.hdr.seq +
    halves packet.hdr.ack + (0x7000 + packet.hdr.flags.toNat) + 0x8000 +
    (0x0204 + 0x053C + 0x0101 + 0x0402) + (words packet.body).sum

/-- The sum of the pseudo header. -/
def pseudoSum (shared : SharedData) (packet : EthPacket) : ℕ :=
  halves shared.sourceIp + halves packet.hdr.destAddr + 6 + (28 + packet.body.length)

/-- What all packets have in common first, then what only some have. -/
theorem pseudoSum_add_segmentRest (shared : SharedData) (packet : EthPacket) :
    packet.pseudoSum shared + packet.segmentRest =
      6 + 28 + (0x7000 + 0x8000 + (0x0204 + 0x053C + 0x0101 + 0x0402)) +
        halves shared.sourceIp + halves packet.hdr.destAddr + packet.hdr.sourcePort.toNat +
        packet.hdr.destPort.toNat + halves packet.hdr.seq +
        (halves packet.hdr.ack + packet.hdr.flags.toNat + packet.body.length +
          (words packet.body).sum) := by
  rw [pseudoSum, segmentRest]
  omega

theorem length_bytes (shared : SharedData) (packet : EthPacket) :
    (packet.bytes shared).length = packet.len := by
  rw [bytes, List.length_append, EthTcpIpHdr.length_bytes, len]

/-- The words of the IPv4 header, summed off the bytes that are on the wire. -/
theorem sum_ipv4Header (shared : SharedData) (packet : EthPacket) :
    (words (ipv4Header (packet.bytes shared))).sum =
      packet.ipv4Rest shared + packet.hdr.ipChecksum.toNat := by
  have hbytes : ipv4Header (packet.bytes shared) =
      0x45 :: 0x00 :: (be16 packet.hdr.len ++
        (0x00 :: 0x01 :: 0x40 :: 0x00 :: 0x40 :: 0x06 :: (be16 packet.hdr.ipChecksum ++
          (be32 shared.sourceIp ++ (be32 packet.hdr.destAddr ++ []))))) := rfl
  rw [hbytes]
  simp only [words, List.sum_cons, sum_words_be16, sum_words_be32, List.sum_nil]
  change 0x4500 + (_ + (0x0001 + (0x4000 + (0x4006 + _)))) = _
  rw [ipv4Rest]
  omega

/-- The same for the segment, with the constant words of the TCP options. -/
theorem sum_segment (shared : SharedData) (packet : EthPacket) :
    (words (segment (packet.bytes shared))).sum =
      packet.segmentRest + packet.hdr.tcpChecksum.toNat := by
  have hbytes : segment (packet.bytes shared) =
      be16 packet.hdr.sourcePort ++ (be16 packet.hdr.destPort ++ (be32 packet.hdr.seq ++
        (be32 packet.hdr.ack ++ (0x70 :: .ofBitVec packet.hdr.flags :: 0x80 :: 0x00 ::
          (be16 packet.hdr.tcpChecksum ++ (0x00 :: 0x00 :: 0x02 :: 0x04 :: 0x05 :: 0x3C ::
            0x01 :: 0x01 :: 0x04 :: 0x02 :: packet.body)))))) := rfl
  rw [hbytes]
  simp only [words, List.sum_cons, sum_words_be16, sum_words_be32]
  -- the constant bytes in pairs: the data offset with the flags, the window, the urgent pointer and
  -- four words of options
  change _ + (_ + (_ + (_ + (0x7000 + packet.hdr.flags.toNat + (0x8000 + (_ +
    (0x0000 + (0x0204 + (0x053C + (0x0101 + (0x0402 + _))))))))))) = _
  rw [segmentRest]
  omega

/-- The pseudo header is not on the wire: a receiver takes the addresses from the IPv4 header and
the length of the segment from the packet. That the length fits into 16 bits is where the frame size
is needed. -/
theorem sum_pseudoHeader (shared : SharedData) (packet : EthPacket) (hlen : packet.len ≤ 65535) :
    (words (pseudoHeader (packet.bytes shared))).sum = packet.pseudoSum shared := by
  have hsegment : (segment (packet.bytes shared)).length = 28 + packet.body.length := by
    rw [segment, List.length_drop, length_bytes, len]
    omega
  have hbytes : pseudoHeader (packet.bytes shared) =
      be32 shared.sourceIp ++ (be32 packet.hdr.destAddr ++
        (0x00 :: 0x06 :: (be16 (.ofNat 16 (segment (packet.bytes shared)).length) ++ []))) := rfl
  rw [hbytes, hsegment]
  simp only [words, List.sum_cons, sum_words_be16, sum_words_be32, List.sum_nil,
    BitVec.toNat_ofNat]
  change _ + (_ + (6 + _)) = _
  rw [len] at hlen
  rw [pseudoSum, Nat.mod_eq_of_lt (by omega)]
  omega

end EthPacket

/-! ### The sums of the sender -/

theorem toNat_ipv4Sum_eq (ip : Ipv4Addr) : (ipv4Sum ip).toNat = halves ip :=
  toNat_ipv4Sum ip

/-- The source adds the halves of a sequence number by a shift and a mask. -/
theorem toNat_halves (x : BitVec 32) : (x >>> 16).toNat + (x &&& 0xffff#32).toNat = halves x := by
  have hlow : (x &&& 0xffff#32).toNat = x.toNat % 65536 := by
    rw [BitVec.toNat_and]
    exact Nat.and_two_pow_sub_one_eq_mod x.toNat 16
  rw [hlow, BitVec.toNat_ushiftRight, Nat.shiftRight_eq_div_pow]
  rfl

namespace Sender

variable {self : Sender} {packet : EthPacket}

/-- The packet folds the exact sums. With offload, the NIC is left to add the segment to what is
preloaded. -/
structure Summed (sender : Sender) (packet : EthPacket) : Prop where
  len : packet.hdr.len.toNat = 48 + packet.body.length
  ipv4 : ∃ sum : BitVec 32, packet.hdr.ipChecksum = ~~~fold sum ∧
    sum.toNat = packet.ipv4Rest sender.shared
  software : sender.checksumOffload = false → ∃ sum : BitVec 32,
    packet.hdr.tcpChecksum = ~~~fold sum ∧
      sum.toNat = packet.pseudoSum sender.shared + packet.segmentRest
  preload : sender.checksumOffload = true → ∃ sum : BitVec 32,
    packet.hdr.tcpChecksum = fold sum ∧
      sum.toNat = 6 + 28 + halves sender.shared.sourceIp + halves packet.hdr.destAddr

/-- The IPv4 sum of the template, of the source and of what is added. -/
theorem toNat_ipv4Checksum (self : Sender) (ip : Ipv4Addr) :
    (self.ipv4Checksum + ipv4Sum ip).toNat =
      0x4500 + 48 + 0x0001 + 0x4000 + 0x4006 + halves self.shared.sourceIp + halves ip := by
  have htemplate : (sumBody ((tcpPacket.drop 14).take 20)).toNat =
      0x4500 + 48 + 0x0001 + 0x4000 + 0x4006 := by decide
  have hsource := halves_le self.shared.sourceIp
  have hdest := halves_le ip
  rw [ipv4Checksum, BitVec.toNat_add, BitVec.toNat_add, Nat.mod_add_mod, htemplate,
    toNat_ipv4Sum_eq, toNat_ipv4Sum_eq]
  exact Nat.mod_eq_of_lt (by omega)

/-- What `Sender::new` sums up in advance without offload: the pseudo header of an empty segment,
the constant words of the TCP header, and the source address. -/
theorem toNat_tcpChecksum_software (h : self.checksumOffload = false) :
    self.tcpChecksum.toNat = 6 + 28 + (0x7000 + 0x8000 + (0x0204 + 0x053C + 0x0101 + 0x0402)) +
      halves self.shared.sourceIp := by
  have htemplate : (6 + 28 + sumBody ((tcpPacket.drop 34).take 28)).toNat =
      6 + 28 + (0x7000 + 0x8000 + (0x0204 + 0x053C + 0x0101 + 0x0402)) := by decide
  have hsource := halves_le self.shared.sourceIp
  rw [tcpChecksum, h]
  change (6 + 28 + sumBody _ + ipv4Sum _).toNat = _
  rw [BitVec.toNat_add, htemplate, toNat_ipv4Sum_eq]
  exact Nat.mod_eq_of_lt (by omega)

/-- With offload only the pseudo header is summed, for the NIC to add the segment to. -/
theorem toNat_tcpChecksum_offload (h : self.checksumOffload = true) (ip : Ipv4Addr) :
    (self.tcpChecksum + ipv4Sum ip).toNat =
      6 + 28 + halves self.shared.sourceIp + halves ip := by
  have hsource := halves_le self.shared.sourceIp
  have hdest := halves_le ip
  rw [tcpChecksum, h]
  change (6 + 28 + ipv4Sum _ + ipv4Sum _).toNat = _
  rw [BitVec.toNat_add, BitVec.toNat_add, Nat.mod_add_mod, toNat_ipv4Sum_eq, toNat_ipv4Sum_eq]
  exact Nat.mod_eq_of_lt (by change 34 + _ + _ < _; omega)

/-- What all functions add to the template: the addresses, the ports and the sequence number. -/
def fieldSum (self : Sender) (hdr : EthTcpIpHdr) : BitVec 32 :=
  self.tcpChecksum + ipv4Sum hdr.destAddr + hdr.sourcePort.setWidth 32 +
    hdr.destPort.setWidth 32 + (hdr.seq >>> 16) + (hdr.seq &&& 0xffff#32)

/-- The sum of what all functions add is exact. It stays below 2²⁰, which leaves room for what each
of them adds after it. -/
theorem toNat_fieldSum (h : self.checksumOffload = false) (hdr : EthTcpIpHdr) :
    (self.fieldSum hdr).toNat =
      6 + 28 + (0x7000 + 0x8000 + (0x0204 + 0x053C + 0x0101 + 0x0402)) +
        halves self.shared.sourceIp + halves hdr.destAddr + hdr.sourcePort.toNat +
        hdr.destPort.toNat + halves hdr.seq ∧ (self.fieldSum hdr).toNat < 2 ^ 20 := by
  have hsource := halves_le self.shared.sourceIp
  have hdest := halves_le hdr.destAddr
  have hseq := halves_le hdr.seq
  have hseq' := toNat_halves hdr.seq
  have hsourcePort := hdr.sourcePort.isLt
  have hport := hdr.destPort.isLt
  simp only [fieldSum, BitVec.toNat_add, Nat.mod_add_mod, toNat_tcpChecksum_software h,
    toNat_ipv4Sum_eq, BitVec.toNat_setWidth_of_le (show 16 ≤ 32 by decide)]
  -- all terms are small, so no addition has wrapped
  rw [Nat.mod_eq_of_lt (by omega)]
  omega

/-- What else a function has to add. -/
theorem toNat_eq_of_fieldSum (h : self.checksumOffload = false) {sum : BitVec 32}
    (hsum : sum.toNat = (self.fieldSum packet.hdr).toNat +
      (halves packet.hdr.ack + packet.hdr.flags.toNat + packet.body.length +
        (words packet.body).sum)) :
    sum.toNat = packet.pseudoSum self.shared + packet.segmentRest := by
  rw [hsum, (toNat_fieldSum h packet.hdr).1, EthPacket.pseudoSum_add_segmentRest]

/-- `send_syn` adds the flag and nothing else: its packets carry no acknowledgement and no body. -/
theorem summed_synPacket (template : PacketTemplate) (seed : BitVec 64) :
    self.Summed (self.synPacket template seed) where
  len := rfl
  ipv4 := ⟨_, rfl, toNat_ipv4Checksum self template.ip⟩
  software := by
    intro h
    have hlt := (toNat_fieldSum h (self.synPacket template seed).hdr).2
    refine ⟨self.fieldSum (self.synPacket template seed).hdr + 2#32,
      if_neg (by rw [h]; decide), toNat_eq_of_fieldSum h ?_⟩
    -- the source adds the constant 2 for the flags
    have htail : halves 0 + TcpFlags.syn.toNat + 0 + (words []).sum = 2 := by decide
    change _ = _ + (halves 0 + TcpFlags.syn.toNat + 0 + (words []).sum)
    rw [htail, BitVec.toNat_add, BitVec.toNat_ofNat]
    omega
  preload := by
    intro h
    exact ⟨_, if_pos h, toNat_tcpChecksum_offload h template.ip⟩

/-- `send` adds the acknowledgement and the flags it is given. -/
theorem summed_sendPacket (flags : TcpFlags) (ip : Ipv4Addr) (sourcePort port : BitVec 16)
    (seq ack : BitVec 32) : self.Summed (self.sendPacket flags ip sourcePort port seq ack) where
  len := rfl
  ipv4 := ⟨_, rfl, toNat_ipv4Checksum self ip⟩
  software := by
    intro h
    -- the fields that all packets have, and then what this kind adds. No sum comes near `2 ^ 32`
    have hlt := (toNat_fieldSum h (self.sendPacket flags ip sourcePort port seq ack).hdr).2
    have hack := halves_le ack
    have hack' := toNat_halves ack
    have hflags := flags.isLt
    refine ⟨self.fieldSum (self.sendPacket flags ip sourcePort port seq ack).hdr + (ack >>> 16) +
      (ack &&& 0xffff#32) + flags.setWidth 32, if_neg (by rw [h]; decide),
      toNat_eq_of_fieldSum h ?_⟩
    change _ = _ + (halves ack + flags.toNat + 0 + 0)
    simp only [BitVec.toNat_add, Nat.mod_add_mod,
      BitVec.toNat_setWidth_of_le (show 8 ≤ 32 by decide)]
    omega
  preload := by
    intro h
    exact ⟨_, if_pos h, toNat_tcpChecksum_offload h ip⟩

/-- A body that fits into a frame does not overflow the total length. -/
theorem toNat_len_data {body : List UInt8} (hbody : body.length ≤ frameSize) :
    (48 + BitVec.ofNat 16 body.length).toNat = 48 + body.length := by
  rw [frameSize] at hbody
  rw [BitVec.toNat_add, BitVec.toNat_ofNat]
  change (48 + _) % _ = _
  omega

/-- What `send_with_data` adds besides. -/
theorem toNat_add_data {sum : BitVec 32} (hlt : sum.toNat < 2 ^ 20) (ack : BitVec 32)
    {body : List UInt8} (hbody : body.length ≤ frameSize) :
    (sum + (ack >>> 16) + (ack &&& 0xffff#32) + 0b00011000#32 + .ofNat 32 body.length +
      sumBody body).toNat =
      sum.toNat + (halves ack + 24 + body.length + (words body).sum) := by
  have hack := halves_le ack
  have hack' := toNat_halves ack
  have hsum := sum_words_le body
  have hsum' := toNat_sumBody body (hbody.trans (by decide))
  rw [frameSize] at hbody
  simp only [BitVec.toNat_add, Nat.mod_add_mod, Nat.add_mod_mod, BitVec.toNat_ofNat, hsum']
  rw [Nat.mod_eq_of_lt (by omega)]
  omega

/-- `send_with_data` adds the body, and its length both to the pseudo header and to the IPv4
header. -/
theorem summed_dataPacket (ip : Ipv4Addr) (sourcePort port : BitVec 16) (seq ack : BitVec 32)
    {body : List UInt8} (hbody : body.length ≤ frameSize) :
    self.Summed (self.dataPacket ip sourcePort port seq ack body) where
  len := toNat_len_data hbody
  ipv4 := by
    refine ⟨_, rfl, ?_⟩
    have hsource := halves_le self.shared.sourceIp
    have hdest := halves_le ip
    have hsum := toNat_ipv4Checksum self ip
    change _ = 0x4500 + (48 + BitVec.ofNat 16 body.length).toNat + 0x0001 + 0x4000 + 0x4006 +
      halves self.shared.sourceIp + halves ip
    -- the sum of the template has the length of an empty segment, and the length of the body comes
    -- on top
    rw [toNat_len_data hbody, BitVec.toNat_add, hsum, BitVec.toNat_ofNat]
    rw [frameSize] at hbody
    omega
  software := by
    intro h
    have hlt := (toNat_fieldSum h (self.dataPacket ip sourcePort port seq ack body).hdr).2
    refine ⟨_, if_neg (by rw [h]; decide), toNat_eq_of_fieldSum h ?_⟩
    exact toNat_add_data hlt ack hbody
  preload := by
    intro h
    exact ⟨_, if_pos h, toNat_tcpChecksum_offload h ip⟩

/-- **Every packet of every call has the exact sums.** -/
theorem summed_packets {call : SendCall} (hfits : call.FitsIn frameSize)
    (h : packet ∈ self.packets call) : self.Summed packet := by
  rcases packets_cases h with ⟨template, seed, rfl⟩ |
    ⟨flags, ip, sourcePort, port, seq, ack, rfl⟩ |
    ⟨ip, sourcePort, port, seq, ack, body, rfl, rfl⟩
  · exact summed_synPacket template seed
  · exact summed_sendPacket flags ip sourcePort port seq ack
  · exact summed_dataPacket ip sourcePort port seq ack (Nat.le_of_add_left_le hfits)

/-! ### Valid packets -/

/-- The complement of a folded sum makes it all ones. -/
theorem sum_eq_max_of_fold {ws : List ℕ} (hws : ∀ w ∈ ws, w ≤ 65535) (sum : BitVec 32)
    (hpos : 0 < sum.toNat) (hsum : ws.sum = sum.toNat + (~~~fold sum).toNat) :
    OnesComplement.sum ws = 0xFFFF := by
  obtain ⟨hmod, -⟩ := fold_spec sum
  have hle := (fold sum).isLt
  refine (sum_eq_max_iff hws).mpr ⟨?_, by omega⟩
  rw [hsum, BitVec.toNat_not]
  have hmod' : (fold sum).toNat % 65535 = sum.toNat % 65535 := hmod
  omega

theorem wordAt_len (shared : SharedData) (packet : EthPacket) :
    wordAt (packet.bytes shared) 16 = packet.hdr.len.toNat :=
  toNat_bytes packet.hdr.len

/-- A packet with the exact sums is valid. -/
theorem Summed.valid (h : self.Summed packet) (hoffload : self.checksumOffload = false)
    (hlen : packet.len ≤ frameSize) : ValidPacket (packet.bytes self.shared) where
  ipv4 := by
    -- the complement of a folded sum, added to the sum itself, gives all ones
    obtain ⟨sum, hchecksum, hsum⟩ := h.ipv4
    refine sum_eq_max_of_fold (words_le _) sum ?_
      (by rw [EthPacket.sum_ipv4Header, hchecksum, hsum])
    rw [hsum, EthPacket.ipv4Rest]
    omega
  totalLength := by
    rw [wordAt_len, h.len, EthPacket.length_bytes, EthPacket.len]
    omega
  tcp := by
    obtain ⟨sum, hchecksum, hsum⟩ := h.software hoffload
    refine sum_eq_max_of_fold (words_le _) sum ?_ ?_
    · rw [hsum, EthPacket.pseudoSum]
      omega
    · -- the pseudo header has an even length
      rw [words_append ⟨6, rfl⟩, List.sum_append, EthPacket.sum_segment,
        EthPacket.sum_pseudoHeader _ _ (hlen.trans (by decide)), hchecksum, hsum]
      omega

/-- **Checksums are valid.** Without offload, after any calls with packets that fit what `of_desc`
gives, and whatever others have written elsewhere, the bytes described by the slots of one more call
are accepted: both sums are all ones, and the total length is that of the packet. -/
theorem checksums_valid (self : Sender) (hoffload : self.checksumOffload = false)
    (umem : ℕ → UInt8) (acts : List SenderAct) (hacts : ∀ act ∈ acts, self.Allows frameSize act)
    (index : BitVec 32) (call : SendCall) (hfits : call.FitsIn frameSize)
    (hcount : call.count ≤ self.size) :
    ∀ i < call.count, ValidPacket
      (self.described (self.exec (self.run umem acts) index call) (index + .ofNat 32 i)) := by
  intro i hi
  rw [← length_packets self] at hi
  have hget : (self.packets call)[i]? = some (self.packets call)[i] := List.getElem?_eq_getElem hi
  have hmem : (self.packets call)[i] ∈ self.packets call := List.getElem_mem hi
  rw [described_exec (bound_run umem hacts) hfits hcount hget]
  exact (summed_packets hfits hmem).valid hoffload (len_le_of_fitsIn hfits hmem)

/-- A slot that held a packet with an odd body before. -/
theorem checksums_valid_reused :
    ValidPacket ((sample false).described
      ((sample false).exec
        ((sample false).run (fun _ => 0)
          [.call 0 (.sendWithData 0x01020304 40000 25565 7 8 [1, 2, 3]), .elsewhere 8192 [1]])
        4 (.sendSynBatch [⟨61000, 0x05060708, 25565⟩, ⟨61001, 0x05060709, 80⟩] 42)) (4 + 0)) :=
  checksums_valid (sample false) rfl (fun _ => 0)
    [.call 0 (.sendWithData 0x01020304 40000 25565 7 8 [1, 2, 3]), .elsewhere 8192 [1]]
    (by decide) 4 (.sendSynBatch [⟨61000, 0x05060708, 25565⟩, ⟨61001, 0x05060709, 80⟩] 42)
    (by decide) (by decide) 0 (by decide)

end Sender

end Farsight
