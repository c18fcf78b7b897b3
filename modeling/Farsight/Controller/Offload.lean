import Farsight.Controller.Checksum

/-!
# Checksum offload

With offload the sender asks the NIC to complete the TCP checksum: the NIC adds up the segment, with
what is preloaded in the checksum field, and puts the complement there. So the field has to hold the
sum of the pseudo header. What the sender preloads has the length of a segment without a body.

* `Nic.transmit` — the packet on the wire, from the descriptor and the request in the UMEM;
* `SameWire` — the same packets, up to the two zeros in the checksum;
* `Sender.wire_same_iff` — after any calls, the packets of a call are the same with and without
  offload if and only if the call has no body.
-/

namespace Farsight

open ByteMemory OnesComplement

/-- A number in the order of the machine. -/
def fromLeBytes (bytes : List UInt8) : ℕ :=
  bytes.foldr (fun b n => b.toNat + 256 * n) 0

/-- The request in front of a packet. -/
def Nic.request (umem : ℕ → UInt8) (addr : ℕ) : TxMetadata where
  flags := .ofNat 64 (fromLeBytes (read umem (addr + 0) 8))
  csumStart := .ofNat 16 (fromLeBytes (read umem (addr + 8) 2))
  csumOffset := .ofNat 16 (fromLeBytes (read umem (addr + 10) 2))
  launchTime := .ofNat 64 (fromLeBytes (read umem (addr + 16) 8))

/-- Replace the checksum field by the complement of the sum from the start of the segment on. -/
def Nic.complete (request : TxMetadata) (packet : List UInt8) : List UInt8 :=
  if request.flags &&& xdpTxmdFlagsChecksum ≠ 0 then
    splice (request.csumStart.toNat + request.csumOffset.toNat)
      (be16 (.ofNat 16 (65535 - sum (words (packet.drop request.csumStart.toNat))))) packet
  else packet

/-- The NIC puts the packet that a descriptor describes on the wire. -/
def Nic.transmit (umem : ℕ → UInt8) (desc : Descriptor) : List UInt8 :=
  let packet := read umem desc.addr desc.len
  if desc.options &&& xdpTxMetadata ≠ 0 then
    Nic.complete (Nic.request umem (desc.addr - TxMetadata.len)) packet
  else packet

/-- The same bytes but for the TCP checksum, and the same checksum up to the two zeros. -/
structure SameWire (packet packet' : List UInt8) : Prop where
  before : packet.take 50 = packet'.take 50
  checksum : Same (wordAt packet 50) (wordAt packet' 50)
  after : packet.drop 52 = packet'.drop 52

/-- The call sends no data. -/
def SendCall.NoBody : SendCall → Prop
  | .sendWithData _ _ _ _ _ body => body = []
  | _ => True

namespace Sender

variable {self : Sender} {state : SenderState} {packet : EthPacket}

/-- The packet on the wire for a slot. -/
def wire (self : Sender) (state : SenderState) (index : BitVec 32) : List UInt8 :=
  Nic.transmit state.umem (state.tx (index.toNat % self.size))

/-- The same sender with offload on or off. -/
def withOffload (self : Sender) (checksumOffload : Bool) : Sender :=
  { self with checksumOffload }

/-! ### What the NIC does -/

/-- Without offload the packet is sent as it is. -/
theorem wire_of_software (h : self.Bound state) (hoffload : self.checksumOffload = false)
    (index : BitVec 32) : self.wire state index = self.described state index := by
  obtain ⟨frame, -, hready, hslot⟩ := h.exists_frame index
  have hoptions := hready.options
  rw [hoffload, hslot] at hoptions
  rw [wire, Nic.transmit, hoptions]
  exact if_neg fun hmeta => hmeta rfl

/-- The NIC reads what `Sender::new` has requested. -/
theorem Requests.request_eq {frame : ℕ} (h : self.Requests state frame)
    (hoffload : self.checksumOffload = true) :
    Nic.request state.umem (frame * frameSize) = .checksum := by
  have hflags := h hoffload (0, [2, 0, 0, 0, 0, 0, 0, 0]) (by decide)
  have hstart := h hoffload (8, [34, 0]) (by decide)
  have hoffset := h hoffload (10, [16, 0]) (by decide)
  have hlaunch := h hoffload (16, [0, 0, 0, 0, 0, 0, 0, 0]) (by decide)
  change read _ _ 8 = _ at hflags hlaunch
  change read _ _ 2 = _ at hstart hoffset
  rw [Nic.request, hflags, hstart, hoffset, hlaunch]
  decide

/-- With offload the checksum is completed. -/
theorem wire_of_offload (h : self.Bound state) (hrequest : self.AllRequest state)
    (hoffload : self.checksumOffload = true) (index : BitVec 32) :
    self.wire state index =
      splice 50 (be16 (.ofNat 16 (65535 - sum (words (segment (self.described state index))))))
        (self.described state index) := by
  obtain ⟨frame, howns, hready, hslot⟩ := h.exists_frame index
  have hoptions := hready.options
  have haddr := hready.addr
  rw [hoffload, hslot] at hoptions
  rw [hslot] at haddr
  -- the NIC finds the request in front of the frame, where `new` has written it
  have hmeta : (state.tx (index.toNat % self.size)).addr - TxMetadata.len = frame * frameSize := by
    rw [haddr, addr, Nat.add_sub_cancel]
  rw [wire, Nic.transmit, hoptions, hmeta, (hrequest frame howns).request_eq hoffload]
  rfl

end Sender

/-! ### Packets that differ in the checksum -/

namespace EthPacket

/-- The packet with another TCP checksum. -/
def withChecksum (packet : EthPacket) (tcpChecksum : BitVec 16) : EthPacket :=
  { packet with hdr := { packet.hdr with tcpChecksum } }

variable (shared : SharedData) (packet : EthPacket)

theorem wordAt_tcpChecksum : wordAt (packet.bytes shared) 50 = packet.hdr.tcpChecksum.toNat :=
  toNat_bytes packet.hdr.tcpChecksum

theorem splice_checksum (tcpChecksum : BitVec 16) :
    splice 50 (be16 tcpChecksum) (packet.bytes shared) =
      (packet.withChecksum tcpChecksum).bytes shared := rfl

theorem sameWire_withChecksum (tcpChecksum tcpChecksum' : BitVec 16) :
    SameWire ((packet.withChecksum tcpChecksum).bytes shared)
      ((packet.withChecksum tcpChecksum').bytes shared) ↔
        Same tcpChecksum.toNat tcpChecksum'.toNat := by
  constructor
  · intro h
    have hchecksum := h.checksum
    rwa [wordAt_tcpChecksum, wordAt_tcpChecksum] at hchecksum
  · intro h
    refine ⟨rfl, ?_, rfl⟩
    rw [wordAt_tcpChecksum, wordAt_tcpChecksum]
    exact h

end EthPacket

namespace Sender

variable {self : Sender} {packet packet' : EthPacket}

theorem eq_of_getElem?_singleton {i : ℕ} (h : [packet][i]? = some packet') :
    i = 0 ∧ packet = packet' := by
  rw [List.getElem?_singleton] at h
  split at h
  · next hi => exact ⟨hi, Option.some.inj h⟩
  · cases h

/-- Offload only makes a difference in the checksum. -/
theorem packets_withOffload (self : Sender) (offload offload' : Bool) {call : SendCall} {i : ℕ}
    (h : ((self.withOffload offload).packets call)[i]? = some packet) :
    ∃ tcpChecksum, ((self.withOffload offload').packets call)[i]? =
      some (packet.withChecksum tcpChecksum) := by
  cases call with
  | sendSynBatch packets seed =>
    -- the flag is read for the checksum only, so the packets of a batch correspond one to one
    change (packets.map _)[i]? = _ at h
    rw [List.getElem?_map] at h
    obtain ⟨template, htemplate, rfl⟩ := Option.map_eq_some_iff.mp h
    change ∃ _, (packets.map _)[i]? = _
    rw [List.getElem?_map, htemplate]
    exact ⟨_, rfl⟩
  | sendSyn template seed =>
    obtain ⟨rfl, rfl⟩ := eq_of_getElem?_singleton h
    exact ⟨_, rfl⟩
  | send flags ip sourcePort port seq ack =>
    obtain ⟨rfl, rfl⟩ := eq_of_getElem?_singleton h
    exact ⟨_, rfl⟩
  | sendWithData ip sourcePort port seq ack body =>
    obtain ⟨rfl, rfl⟩ := eq_of_getElem?_singleton h
    exact ⟨_, rfl⟩

/-- What the NIC computes from the preloaded packet, and what is computed in software. The one lacks
the length of the body. -/
theorem same_completed_iff {shared : SharedData} {preload sum : BitVec 32} {checksum : BitVec 16}
    (hlen : packet.len ≤ frameSize) (hpreload : packet.hdr.tcpChecksum = fold preload)
    (hpreload' : preload.toNat = 6 + 28 + halves shared.sourceIp + halves packet.hdr.destAddr)
    (hchecksum : checksum = ~~~fold sum)
    (hsum : sum.toNat = packet.pseudoSum shared + packet.segmentRest) :
    Same (BitVec.ofNat 16
        (65535 - OnesComplement.sum (words (segment (packet.bytes shared))))).toNat
      checksum.toNat ↔ packet.body = [] := by
  have hle := sum_le (words_le (segment (packet.bytes shared)))
  have hmod := sum_modEq (words (segment (packet.bytes shared)))
  obtain ⟨hfold, -⟩ := fold_spec preload
  obtain ⟨hfold', -⟩ := fold_spec sum
  have hlt := (fold sum).isLt
  rw [EthPacket.sum_segment, hpreload] at hmod
  -- the NIC has everything but the length of the body
  have hnic : OnesComplement.sum (words (segment (packet.bytes shared))) + packet.body.length ≡
      sum.toNat [MOD 65535] := by
    calc OnesComplement.sum (words (segment (packet.bytes shared))) + packet.body.length
      _ ≡ packet.segmentRest + (fold preload).toNat + packet.body.length [MOD 65535] :=
          hmod.add_right _
      _ ≡ packet.segmentRest + preload.toNat + packet.body.length [MOD 65535] :=
          (hfold.add_left _).add_right _
      _ = sum.toNat := by
          rw [hsum, hpreload', EthPacket.pseudoSum]
          omega
  have hnic' : (OnesComplement.sum (words (segment (packet.bytes shared))) +
      packet.body.length) % 65535 = (fold sum).toNat % 65535 := hnic.trans hfold'.symm
  rw [EthPacket.len, frameSize] at hlen
  rw [BitVec.toNat_ofNat, hchecksum, BitVec.toNat_not, Nat.mod_eq_of_lt (by omega),
    same_iff (by omega) (by omega), ← List.length_eq_zero_iff]
  change _ % 65535 = _ % 65535 ↔ _
  omega

/-- The packets of a call on the wire, after other calls. -/
def wireAfter (self : Sender) (umem : ℕ → UInt8) (acts : List SenderAct) (index : BitVec 32)
    (call : SendCall) (i : ℕ) : List UInt8 :=
  self.wire (self.exec (self.run umem acts) index call) (index + .ofNat 32 i)

section Wire

variable {umem : ℕ → UInt8} {acts : List SenderAct} {index : BitVec 32} {call : SendCall} {i : ℕ}

theorem wireAfter_software (hoffload : self.checksumOffload = false)
    (hacts : ∀ act ∈ acts, self.Allows (frameSize - TxMetadata.len) act)
    (hfits : call.FitsIn (frameSize - TxMetadata.len)) (hcount : call.count ≤ self.size)
    (hi : (self.packets call)[i]? = some packet) :
    self.wireAfter umem acts index call i = packet.bytes self.shared := by
  have hbound : self.Bound (self.run umem acts) :=
    bound_run umem fun act hact => (hacts act hact).mono (Nat.sub_le _ _)
  have hfits' : call.FitsIn frameSize := hfits.mono (Nat.sub_le _ _)
  rw [wireAfter, wire_of_software (hbound.exec hfits') hoffload,
    described_exec hbound hfits' hcount hi]

theorem wireAfter_offload (hoffload : self.checksumOffload = true)
    (hacts : ∀ act ∈ acts, self.Allows (frameSize - TxMetadata.len) act)
    (hfits : call.FitsIn (frameSize - TxMetadata.len)) (hcount : call.count ≤ self.size)
    (hi : (self.packets call)[i]? = some packet) :
    self.wireAfter umem acts index call i =
      (packet.withChecksum (.ofNat 16
        (65535 - OnesComplement.sum (words (segment (packet.bytes self.shared)))))).bytes
          self.shared := by
  have hbound : self.Bound (self.run umem acts) :=
    bound_run umem fun act hact => (hacts act hact).mono (Nat.sub_le _ _)
  have hrequest : self.AllRequest (self.run umem acts) := allRequest_run umem hacts
  have hfits' : call.FitsIn frameSize := hfits.mono (Nat.sub_le _ _)
  rw [wireAfter, wire_of_offload (hbound.exec hfits') (hrequest.exec hbound hfits) hoffload,
    described_exec hbound hfits' hcount hi, EthPacket.splice_checksum]

/-- One packet of a call. -/
theorem wireAfter_same_iff (hacts : ∀ act ∈ acts, self.Allows (frameSize - TxMetadata.len) act)
    (hfits : call.FitsIn (frameSize - TxMetadata.len)) (hcount : call.count ≤ self.size)
    (hi : ((self.withOffload true).packets call)[i]? = some packet) :
    SameWire ((self.withOffload true).wireAfter umem acts index call i)
      ((self.withOffload false).wireAfter umem acts index call i) ↔ packet.body = [] := by
  obtain ⟨checksum, hi'⟩ := packets_withOffload self true false hi
  have hfits' : call.FitsIn frameSize := hfits.mono (Nat.sub_le _ _)
  have hmem := List.mem_of_getElem? hi
  -- one sum is completed by the NIC and the other by the sender
  obtain ⟨preload, hpreload, hpreload'⟩ := (summed_packets hfits' hmem).preload rfl
  obtain ⟨sum, hchecksum, hsum⟩ :=
    (summed_packets hfits' (List.mem_of_getElem? hi')).software rfl
  have hon : (self.withOffload true).wireAfter umem acts index call i = _ :=
    wireAfter_offload rfl hacts hfits hcount hi
  have hoff : (self.withOffload false).wireAfter umem acts index call i = _ :=
    wireAfter_software rfl hacts hfits hcount hi'
  rw [hon, hoff]
  refine (EthPacket.sameWire_withChecksum self.shared packet _ checksum).trans ?_
  exact same_completed_iff (len_le_of_fitsIn hfits' hmem) hpreload hpreload' hchecksum hsum

end Wire

/-- The calls without a body are those all of whose packets have none. -/
theorem noBody_iff (self : Sender) (call : SendCall) :
    call.NoBody ↔ ∀ packet ∈ self.packets call, packet.body = [] := by
  constructor
  · intro h packet hmem
    -- only `send_with_data` has a body
    rcases packets_cases hmem with ⟨template, seed, rfl⟩ |
      ⟨flags, ip, sourcePort, port, seq, ack, rfl⟩ |
      ⟨ip, sourcePort, port, seq, ack, body, rfl, rfl⟩
    · rfl
    · rfl
    · exact h
  · intro h
    cases call with
    | sendWithData ip sourcePort port seq ack body =>
      exact h (self.dataPacket ip sourcePort port seq ack body) List.mem_cons_self
    | sendSyn template seed => trivial
    | sendSynBatch packets seed => trivial
    | send flags ip sourcePort port seq ack => trivial

/-- **Offload agrees with software exactly for calls without a body.** For the same parameters,
after the same calls with packets that fit their frames, the packets of one more call are the same
on the wire with and without offload if and only if it is not `send_with_data` with a non-empty
body. -/
theorem wire_same_iff (self : Sender) (umem : ℕ → UInt8) (acts : List SenderAct)
    (hacts : ∀ act ∈ acts, self.Allows (frameSize - TxMetadata.len) act) (index : BitVec 32)
    (call : SendCall) (hfits : call.FitsIn (frameSize - TxMetadata.len))
    (hcount : call.count ≤ self.size) :
    (∀ i < call.count, SameWire ((self.withOffload true).wireAfter umem acts index call i)
      ((self.withOffload false).wireAfter umem acts index call i)) ↔ call.NoBody := by
  rw [noBody_iff (self.withOffload true), ← length_packets (self.withOffload true) call]
  constructor
  · intro h packet hmem
    obtain ⟨i, hi⟩ := List.mem_iff_getElem?.mp hmem
    obtain ⟨hlt, -⟩ := List.getElem?_eq_some_iff.mp hi
    exact (wireAfter_same_iff hacts hfits hcount hi).mp (h i hlt)
  · intro h i hlt
    refine (wireAfter_same_iff hacts hfits hcount (List.getElem?_eq_getElem hlt)).mpr ?_
    exact h _ (List.getElem_mem hlt)

/-- A call with a body of one byte. -/
def oneByte : SendCall :=
  .sendWithData 0x01020304 40000 25565 7 8 [1]

theorem wire_same_iff_oneByte :
    (∀ i < 1, SameWire (((sample true).withOffload true).wireAfter (fun _ => 0) [] 0 oneByte i)
      (((sample true).withOffload false).wireAfter (fun _ => 0) [] 0 oneByte i)) ↔
        [(1 : UInt8)] = [] :=
  wire_same_iff (sample true) (fun _ => 0) [] (by decide) 0 oneByte (by decide) (by decide)

/-- A body of one byte: the checksum of the NIC is one more than the one in software, and the packet
is not valid. -/
theorem oneByte_wrong :
    wordAt (((sample true).withOffload true).wireAfter (fun _ => 0) [] 0 oneByte 0) 50 =
      wordAt (((sample true).withOffload false).wireAfter (fun _ => 0) [] 0 oneByte 0) 50 + 1 ∧
    ¬ SameWire (((sample true).withOffload true).wireAfter (fun _ => 0) [] 0 oneByte 0)
      (((sample true).withOffload false).wireAfter (fun _ => 0) [] 0 oneByte 0) ∧
    ¬ ValidPacket (((sample true).withOffload true).wireAfter (fun _ => 0) [] 0 oneByte 0) := by
  refine ⟨by decide +kernel, fun h => ?_, fun h => ?_⟩
  · exact absurd h.checksum (by decide +kernel)
  · exact absurd h.tcp (by decide +kernel)

end Sender

end Farsight
