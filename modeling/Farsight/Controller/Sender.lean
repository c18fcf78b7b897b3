import Farsight.Net.Frame
import Mathlib.Logic.Function.Basic

/-!
# The sender

`Sender::new` binds each slot of the TX ring to one frame of the UMEM and writes the template into
it. After that a call only writes the fields of the header and the body: the rest of the packet is
what earlier packets of the slot have left there.

* `Sender.new`, `Sender.sendSyn`, `Sender.sendSynBatch`, `Sender.send`, `Sender.sendWithData` — the
  functions of the source, on the memory; the index is the one that `reserve` returned;
* `Sender.Ready` — the slot of a frame describes it, and the frame starts with some header;
* `Sender.bound_run` — all frames are ready after any calls, whatever others write elsewhere;
* `Sender.described_exec` — after a call the slots it was given describe its packets;
* `Sender.allRequest_run` — requests for offload stay as long as packets stay in their frames.
-/

namespace Farsight

open ByteMemory

/-- `Descriptor`. -/
structure Descriptor where
  addr : ℕ
  len : ℕ
  options : ℕ
  deriving DecidableEq, Repr

/-- The frame size that `main` gives to `Umem::new`. -/
def frameSize : ℕ := 2048

/-- `XDP_TX_METADATA`. -/
def xdpTxMetadata : ℕ := 2

/-- `XDP_TXMD_FLAGS_CHECKSUM`. -/
def xdpTxmdFlagsChecksum : BitVec 64 := 2

/-- `TxMetadata` as a request. -/
structure TxMetadata where
  flags : BitVec 64
  csumStart : BitVec 16
  csumOffset : BitVec 16
  launchTime : BitVec 64
  deriving DecidableEq, Repr

namespace TxMetadata

/-- `TxMetadata::LEN`. -/
def len : ℕ := 24

/-- The fields by their offsets, in the order of the machine. The padding is not written. -/
def writes (request : TxMetadata) : List (ℕ × List UInt8) :=
  [(0, (List.range 8).map (byteOf request.flags)),
    (8, (List.range 2).map (byteOf request.csumStart)),
    (10, (List.range 2).map (byteOf request.csumOffset)),
    (16, (List.range 8).map (byteOf request.launchTime))]

/-- The request that `Sender::new` makes: start of the TCP header, offset of the checksum field. -/
def checksum : TxMetadata where
  flags := xdpTxmdFlagsChecksum
  csumStart := 34
  csumOffset := 16
  launchTime := 0

end TxMetadata

/-- `Sender`, as far as it stays the same. The kernel only makes rings whose size is a power of
two. -/
structure Sender where
  shared : SharedData
  checksumOffload : Bool
  startingFrame : ℕ
  size : ℕ
  size_dvd : size ∣ 2 ^ 32
  deriving DecidableEq, Repr

/-- The memory of a sender: the UMEM and the descriptors of its ring. -/
structure SenderState where
  umem : ℕ → UInt8
  tx : ℕ → Descriptor

/-- What a call puts into one slot. -/
structure EthPacket where
  hdr : EthTcpIpHdr
  body : List UInt8
  deriving DecidableEq, Repr

namespace EthPacket

/-- The bytes of the packet. -/
def bytes (shared : SharedData) (packet : EthPacket) : List UInt8 :=
  packet.hdr.bytes shared ++ packet.body

/-- `desc.len`. -/
def len (packet : EthPacket) : ℕ :=
  62 + packet.body.length

/-- What is written of it, relative to `desc.addr`: the body, then the fields of the header. -/
def writes (packet : EthPacket) : List (ℕ × List UInt8) :=
  (62, packet.body) :: packet.hdr.writes

end EthPacket

/-- The calls of a sender. -/
inductive SendCall where
  | sendSyn (packet : PacketTemplate) (seed : BitVec 64)
  | sendSynBatch (packets : List PacketTemplate) (seed : BitVec 64)
  | send (flags : TcpFlags) (ip : Ipv4Addr) (sourcePort port : BitVec 16) (seq ack : BitVec 32)
  | sendWithData (ip : Ipv4Addr) (sourcePort port : BitVec 16) (seq ack : BitVec 32)
      (body : List UInt8)
  deriving DecidableEq, Repr

namespace Sender

variable (self : Sender)

/-- A sender with four slots. -/
def sample (checksumOffload : Bool) : Sender where
  shared :=
    { sourceIp := 0x0A000002, gateway := 0x020000000001, interface := 0x020000000002 }
  checksumOffload
  startingFrame := 0
  size := 4
  size_dvd := by decide

/-! ### `Sender::new` -/

/-- The template of a frame, by its offsets. -/
def templateWrites (shared : SharedData) : List (ℕ × List UInt8) :=
  [(0, tcpPacket), (0, macOctets shared.gateway), (6, macOctets shared.interface),
    (26, be32 shared.sourceIp)]

/-- The loop body of `Sender::new`. -/
def newFrame (state : SenderState) (index : ℕ) : SenderState :=
  let metaAddr := index * frameSize
  let addr := metaAddr + TxMetadata.len
  let desc := state.tx (index % self.size)
  let umem :=
    if self.checksumOffload then writeAll state.umem metaAddr TxMetadata.checksum.writes
    else state.umem
  let options := if self.checksumOffload then xdpTxMetadata else desc.options
  { umem := writeAll umem addr (templateWrites self.shared)
    tx := Function.update state.tx (index % self.size) { desc with addr, options } }

/-- `Sender::new`. The kernel hands out the ring with zeros. -/
def new (umem : ℕ → UInt8) : SenderState :=
  (List.range' self.startingFrame self.size).foldl self.newFrame
    { umem, tx := fun _ => { addr := 0, len := 0, options := 0 } }

/-- The field `tcp_checksum`. -/
def tcpChecksum : BitVec 32 :=
  let sourceIpSum := ipv4Sum self.shared.sourceIp
  if self.checksumOffload then 6 + 28 + sourceIpSum
  else 6 + 28 + sumBody ((tcpPacket.drop 34).take 28) + sourceIpSum

/-- The field `ipv4_checksum`. -/
def ipv4Checksum : BitVec 32 :=
  sumBody ((tcpPacket.drop 14).take 20) + ipv4Sum self.shared.sourceIp

/-! ### The calls -/

/-- The packet of `send_syn`, and of each turn of the loop of `send_syn_batch`. -/
def synPacket (packet : PacketTemplate) (seed : BitVec 64) : EthPacket :=
  let seq := cookie packet.ip packet.destinationPort seed
  let destSum := ipv4Sum packet.ip
  { hdr :=
      { len := 48
        ipChecksum := ~~~fold (self.ipv4Checksum + destSum)
        destAddr := packet.ip
        sourcePort := packet.sourcePort
        destPort := packet.destinationPort
        seq
        ack := 0
        flags := TcpFlags.syn
        tcpChecksum :=
          -- the NIC completes the sum of the pseudo-header. Otherwise all words that vary are added
          -- here
          if self.checksumOffload then fold (self.tcpChecksum + destSum)
          else ~~~fold (self.tcpChecksum + destSum + packet.sourcePort.setWidth 32 +
            packet.destinationPort.setWidth 32 + (seq >>> 16) + (seq &&& 0xffff#32) +
            0b00000010#32) }
    body := [] }

/-- The packet of `send`. -/
def sendPacket (flags : TcpFlags) (ip : Ipv4Addr) (sourcePort port : BitVec 16)
    (seq ack : BitVec 32) : EthPacket :=
  let destSum := ipv4Sum ip
  { hdr :=
      { len := 48
        ipChecksum := ~~~fold (self.ipv4Checksum + destSum)
        destAddr := ip
        sourcePort
        destPort := port
        seq
        ack
        flags
        tcpChecksum :=
          if self.checksumOffload then fold (self.tcpChecksum + destSum)
          else ~~~fold (self.tcpChecksum + destSum + sourcePort.setWidth 32 + port.setWidth 32 +
            (seq >>> 16) + (seq &&& 0xffff#32) + (ack >>> 16) + (ack &&& 0xffff#32) +
            flags.setWidth 32) }
    body := [] }

/-- The packet of `send_with_data`. -/
def dataPacket (ip : Ipv4Addr) (sourcePort port : BitVec 16) (seq ack : BitVec 32)
    (body : List UInt8) : EthPacket :=
  let destSum := ipv4Sum ip
  { hdr :=
      { len := 48 + .ofNat 16 body.length
        ipChecksum := ~~~fold (self.ipv4Checksum + destSum + .ofNat 32 body.length)
        destAddr := ip
        sourcePort
        destPort := port
        seq
        ack
        flags := TcpFlags.psh ||| TcpFlags.ack
        tcpChecksum :=
          -- what is preloaded has the length of a segment without a body
          if self.checksumOffload then fold (self.tcpChecksum + destSum)
          else ~~~fold (self.tcpChecksum + destSum + sourcePort.setWidth 32 + port.setWidth 32 +
            (seq >>> 16) + (seq &&& 0xffff#32) + (ack >>> 16) + (ack &&& 0xffff#32) +
            0b00011000#32 + .ofNat 32 body.length + sumBody body) }
    body }

/-- Write a packet into the frame that the slot describes, and its length into the slot. -/
def put (state : SenderState) (index : BitVec 32) (packet : EthPacket) : SenderState :=
  let desc := state.tx (index.toNat % self.size)
  { umem := writeAll state.umem desc.addr packet.writes
    tx := Function.update state.tx (index.toNat % self.size) { desc with len := packet.len } }

/-- Write packets into the slots from `index` on. -/
def putAll (state : SenderState) (index : BitVec 32) : List EthPacket → SenderState
  | [] => state
  | packet :: packets => putAll (self.put state index packet) (index + 1) packets

/-- `send_syn`. -/
def sendSyn (state : SenderState) (index : BitVec 32) (packet : PacketTemplate)
    (seed : BitVec 64) : SenderState :=
  self.put state index (self.synPacket packet seed)

/-- `send_syn_batch`. -/
def sendSynBatch (state : SenderState) (index : BitVec 32) (packets : List PacketTemplate)
    (seed : BitVec 64) : SenderState :=
  self.putAll state index (packets.map fun packet => self.synPacket packet seed)

/-- `send`. -/
def send (state : SenderState) (index : BitVec 32) (flags : TcpFlags) (ip : Ipv4Addr)
    (sourcePort port : BitVec 16) (seq ack : BitVec 32) : SenderState :=
  self.put state index (self.sendPacket flags ip sourcePort port seq ack)

/-- `send_with_data`. -/
def sendWithData (state : SenderState) (index : BitVec 32) (ip : Ipv4Addr)
    (sourcePort port : BitVec 16) (seq ack : BitVec 32) (body : List UInt8) : SenderState :=
  self.put state index (self.dataPacket ip sourcePort port seq ack body)

/-- A call that was given the slots from `index` on. -/
def exec (state : SenderState) (index : BitVec 32) : SendCall → SenderState
  | .sendSyn packet seed => self.sendSyn state index packet seed
  | .sendSynBatch packets seed => self.sendSynBatch state index packets seed
  | .send flags ip sourcePort port seq ack =>
      self.send state index flags ip sourcePort port seq ack
  | .sendWithData ip sourcePort port seq ack body =>
      self.sendWithData state index ip sourcePort port seq ack body

/-- The packets of a call. -/
def packets : SendCall → List EthPacket
  | .sendSyn packet seed => [self.synPacket packet seed]
  | .sendSynBatch packets seed => packets.map fun packet => self.synPacket packet seed
  | .send flags ip sourcePort port seq ack => [self.sendPacket flags ip sourcePort port seq ack]
  | .sendWithData ip sourcePort port seq ack body =>
      [self.dataPacket ip sourcePort port seq ack body]

/-- All four calls of the source write their packets to slots in a row. -/
theorem exec_eq (state : SenderState) (index : BitVec 32) (call : SendCall) :
    self.exec state index call = self.putAll state index (self.packets call) := by
  cases call <;> rfl

end Sender

/-! ### Bodies that fit -/

/-- How many slots a call is given. -/
def SendCall.count : SendCall → ℕ
  | .sendSynBatch packets _ => packets.length
  | _ => 1

/-- The packets of the call have at most this length. -/
def SendCall.FitsIn (room : ℕ) : SendCall → Prop
  | .sendWithData _ _ _ _ _ body => 62 + body.length ≤ room
  | _ => 62 ≤ room

instance (room : ℕ) (call : SendCall) : Decidable (call.FitsIn room) :=
  match call with
  | .sendSyn _ _ => inferInstanceAs (Decidable (_ ≤ _))
  | .sendSynBatch _ _ => inferInstanceAs (Decidable (_ ≤ _))
  | .send _ _ _ _ _ _ => inferInstanceAs (Decidable (_ ≤ _))
  | .sendWithData _ _ _ _ _ _ => inferInstanceAs (Decidable (_ ≤ _))

theorem SendCall.FitsIn.mono {room room' : ℕ} (hle : room ≤ room') {call : SendCall}
    (h : call.FitsIn room) : call.FitsIn room' := by
  cases call <;> exact Nat.le_trans h hle

namespace Sender

variable {self : Sender} {state : SenderState}

@[simp] theorem length_packets (self : Sender) (call : SendCall) :
    (self.packets call).length = call.count := by
  cases call with
  | sendSynBatch packets seed => exact List.length_map _
  | _ => rfl

/-- The packets of a call, by the function that makes them. -/
theorem packets_cases {call : SendCall} {packet : EthPacket} (h : packet ∈ self.packets call) :
    (∃ template seed, packet = self.synPacket template seed) ∨
    (∃ flags ip sourcePort port seq ack,
      packet = self.sendPacket flags ip sourcePort port seq ack) ∨
    (∃ ip sourcePort port seq ack body,
      call = .sendWithData ip sourcePort port seq ack body ∧
        packet = self.dataPacket ip sourcePort port seq ack body) := by
  cases call with
  | sendSyn template seed => exact .inl ⟨template, seed, List.mem_singleton.mp h⟩
  | sendSynBatch packets seed =>
    obtain ⟨template, -, rfl⟩ := List.mem_map.mp h
    exact .inl ⟨template, seed, rfl⟩
  | send flags ip sourcePort port seq ack =>
    exact .inr (.inl ⟨flags, ip, sourcePort, port, seq, ack, List.mem_singleton.mp h⟩)
  | sendWithData ip sourcePort port seq ack body =>
    exact .inr (.inr ⟨ip, sourcePort, port, seq, ack, body, rfl, List.mem_singleton.mp h⟩)

/-- The longest packet of a call decides whether it fits; only `send_with_data` has a body. -/
theorem len_le_of_fitsIn {room : ℕ} {call : SendCall} (hfits : call.FitsIn room)
    {packet : EthPacket} (h : packet ∈ self.packets call) : packet.len ≤ room := by
  cases call with
  | sendSynBatch packets seed =>
    obtain ⟨template, -, rfl⟩ := List.mem_map.mp h
    exact hfits
  | sendSyn template seed =>
    rw [List.mem_singleton.mp h]
    exact hfits
  | send flags ip sourcePort port seq ack =>
    rw [List.mem_singleton.mp h]
    exact hfits
  | sendWithData ip sourcePort port seq ack body =>
    rw [List.mem_singleton.mp h]
    exact hfits

/-! ### Slots and frames -/

/-- The frames of the sender. -/
def Owns (self : Sender) (frame : ℕ) : Prop :=
  self.startingFrame ≤ frame ∧ frame < self.startingFrame + self.size

/-- `desc.addr` of a frame. -/
def addr (frame : ℕ) : ℕ :=
  frame * frameSize + TxMetadata.len

theorem size_pos (self : Sender) : 0 < self.size :=
  Nat.pos_of_dvd_of_pos self.size_dvd (by decide)

/-- A sender owns as many frames in a row as its ring has slots, so a slot belongs to one frame. -/
theorem Owns.eq_of_mod_eq {frame frame' : ℕ} (h : self.Owns frame) (h' : self.Owns frame')
    (hmod : frame % self.size = frame' % self.size) : frame = frame' := by
  -- the frames of a sender are one ring long, so that no two of them share a descriptor
  have hclose : ((frame : ℤ) - frame').natAbs < self.size := by
    have h₁ := h.1
    have h₂ := h.2
    have h₃ := h'.1
    have h₄ := h'.2
    omega
  have hdvd : (self.size : ℤ) ∣ frame - frame' :=
    (Nat.modEq_iff_dvd.mp (show frame' ≡ frame [MOD self.size] from hmod.symm))
  have hzero := Int.eq_zero_of_dvd_of_natAbs_lt_natAbs hdvd hclose
  omega

/-- Every slot has its frame. -/
theorem exists_owns (self : Sender) (slot : ℕ) :
    ∃ frame, self.Owns frame ∧ frame % self.size = slot % self.size := by
  have hpos := self.size_pos
  obtain ⟨r, hr⟩ : ∃ r, r = self.startingFrame % self.size := ⟨_, rfl⟩
  have hlt : r < self.size := hr ▸ Nat.mod_lt _ hpos
  refine ⟨self.startingFrame + (slot + (self.size - r)) % self.size,
    ⟨Nat.le_add_right _ _, Nat.add_lt_add_left (Nat.mod_lt _ hpos) _⟩, ?_⟩
  have hsum : r + (slot + (self.size - r)) = slot + self.size := by omega
  rw [Nat.add_mod_mod, ← Nat.mod_add_mod, ← hr, hsum, Nat.add_mod_right]

/-- Consecutive indices, across the overflow too, take consecutive slots. -/
theorem slot_add (index : BitVec 32) (i : ℕ) :
    (index + .ofNat 32 i).toNat % self.size = (index.toNat + i) % self.size := by
  rw [BitVec.toNat_add, BitVec.toNat_ofNat, Nat.add_mod_mod, Nat.mod_mod_of_dvd _ self.size_dvd]

/-- The index of the ring is a word, and the number of slots divides `2 ^ 32`. -/
theorem slot_succ (index : BitVec 32) (i : ℕ) :
    ((index + 1).toNat + i) % self.size = (index.toNat + (i + 1)) % self.size := by
  have hslot : (index + 1).toNat % self.size = (index.toNat + 1) % self.size := slot_add index 1
  rw [← Nat.mod_add_mod, hslot, Nat.mod_add_mod, Nat.add_assoc, Nat.add_comm 1 i]

/-! ### Frames that are ready -/

/-- The slot of the frame describes it, and the frame starts with a header. -/
structure Ready (sender : Sender) (state : SenderState) (frame : ℕ) : Prop where
  addr : (state.tx (frame % sender.size)).addr = addr frame
  options : (state.tx (frame % sender.size)).options =
    if sender.checksumOffload then xdpTxMetadata else 0
  hdr : ∃ hdr : EthTcpIpHdr, read state.umem (Sender.addr frame) 62 = hdr.bytes sender.shared

/-- With offload, the frame has the request of `Sender::new` in front of the packet. -/
def Requests (self : Sender) (state : SenderState) (frame : ℕ) : Prop :=
  self.checksumOffload = true → ∀ w ∈ TxMetadata.checksum.writes,
    read state.umem (frame * frameSize + w.1) w.2.length = w.2

variable {frame frame' : ℕ} {index index' : BitVec 32} {packet : EthPacket} {room : ℕ}

theorem le_of_mem_writes : ∀ w ∈ packet.writes, w.1 + w.2.length ≤ packet.len := by
  intro w hw
  rcases List.mem_cons.mp hw with rfl | hw
  · exact Nat.le_refl _
  · have := EthTcpIpHdr.le_of_mem_writes w hw
    exact this.trans (by rw [EthPacket.len]; omega)

/-- A region of another frame is not touched by a packet of at most a frame's length. -/
theorem read_put_disjoint {addr len : ℕ} {m : ℕ → UInt8}
    (h : addr + len ≤ Sender.addr frame ∨ Sender.addr frame + packet.len ≤ addr) :
    read (writeAll m (Sender.addr frame) packet.writes) addr len = read m addr len := by
  refine read_writeAll_disjoint fun w hw => ?_
  have hle := le_of_mem_writes w hw
  omega

/-- The header part of a packet, whatever header was there before. -/
theorem read_hdr_put {m : ℕ → UInt8} {addr : ℕ} {shared : SharedData} {old : EthTcpIpHdr}
    (h : read m addr 62 = old.bytes shared) :
    read (writeAll m addr packet.writes) addr 62 = packet.hdr.bytes shared := by
  have hbody : read (write m (addr + 62) packet.body) addr 62 = old.bytes shared := by
    rw [read_write_disjoint (.inl (Nat.le_refl _)), h]
  change read (writeAll (write m (addr + 62) packet.body) addr packet.hdr.writes) addr 62 = _
  rw [read_writeAll, hbody, EthTcpIpHdr.splice_writes]
  intro w hw
  exact (EthTcpIpHdr.le_of_mem_writes w hw).trans (by decide)

/-- The whole packet. -/
theorem read_put {m : ℕ → UInt8} {addr : ℕ} {shared : SharedData} {old : EthTcpIpHdr}
    (h : read m addr 62 = old.bytes shared) :
    read (writeAll m addr packet.writes) addr packet.len = packet.bytes shared := by
  have hbody : read (writeAll m addr packet.writes) (addr + 62) packet.body.length =
      packet.body := by
    -- the fields come after the body, and lie before it
    change read (writeAll (write m (addr + 62) packet.body) addr packet.hdr.writes) _ _ = _
    rw [read_writeAll_disjoint, read_write_self]
    intro w hw
    have := EthTcpIpHdr.le_of_mem_writes w hw
    omega
  rw [EthPacket.len, read_add, read_hdr_put h, hbody, EthPacket.bytes]

/-! ### One packet -/

/-- The bytes that the slot describes. -/
def described (self : Sender) (state : SenderState) (index : BitVec 32) : List UInt8 :=
  let desc := state.tx (index.toNat % self.size)
  read state.umem desc.addr desc.len

/-- A slot that is ready has the address of its frame, so the packet goes to that frame. -/
theorem umem_put (hready : self.Ready state frame)
    (hslot : frame % self.size = index.toNat % self.size) :
    (self.put state index packet).umem = writeAll state.umem (addr frame) packet.writes := by
  rw [← hready.addr, hslot]
  rfl

theorem tx_put_self (hslot : frame % self.size = index.toNat % self.size) :
    (self.put state index packet).tx (frame % self.size) =
      { state.tx (frame % self.size) with len := packet.len } := by
  rw [hslot]
  exact Function.update_self _ _ _

theorem tx_put_of_ne (hne : frame % self.size ≠ index.toNat % self.size) :
    (self.put state index packet).tx (frame % self.size) = state.tx (frame % self.size) :=
  Function.update_of_ne hne _ _

/-- The slot a packet was put into describes it. -/
theorem described_put (hready : self.Ready state frame)
    (hslot : frame % self.size = index.toNat % self.size) :
    self.described (self.put state index packet) index = packet.bytes self.shared := by
  obtain ⟨old, hold⟩ := hready.hdr
  rw [described, ← hslot, tx_put_self hslot, umem_put hready hslot]
  change read _ (state.tx _).addr packet.len = _
  rw [hready.addr, read_put hold]

/-- A packet in its own frame leaves a frame ready. -/
theorem Ready.put_self (hready : self.Ready state frame)
    (hslot : frame % self.size = index.toNat % self.size) :
    self.Ready (self.put state index packet) frame := by
  obtain ⟨old, hold⟩ := hready.hdr
  constructor
  · rw [tx_put_self hslot]
    exact hready.addr
  · rw [tx_put_self hslot]
    exact hready.options
  · rw [umem_put hready hslot]
    exact ⟨packet.hdr, read_hdr_put hold⟩

/-- So does one in another frame. -/
theorem Ready.put_of_ne (hready : self.Ready state frame) (hready' : self.Ready state frame')
    (hslot : frame' % self.size = index.toNat % self.size)
    (hne : frame % self.size ≠ frame' % self.size) (hlen : packet.len ≤ frameSize) :
    self.Ready (self.put state index packet) frame := by
  have hframes : frame ≠ frame' := fun h => hne (congrArg (· % self.size) h)
  rw [hslot] at hne
  constructor
  · rw [tx_put_of_ne hne]
    exact hready.addr
  · rw [tx_put_of_ne hne]
    exact hready.options
  · -- a packet is no longer than a frame, and does not reach into the next
    rw [umem_put hready' hslot, read_put_disjoint]
    · exact hready.hdr
    · unfold Sender.addr frameSize TxMetadata.len at *
      omega

/-- Requests are kept by packets that stay in their frame. -/
theorem Requests.put (h : self.Requests state frame) (hready : self.Ready state frame')
    (hslot : frame' % self.size = index.toNat % self.size)
    (hlen : TxMetadata.len + packet.len ≤ frameSize) :
    self.Requests (self.put state index packet) frame := by
  intro hoffload w hw
  have hle : ∀ w ∈ TxMetadata.checksum.writes, w.1 + w.2.length ≤ TxMetadata.len := by decide
  have hw' := hle w hw
  rw [umem_put hready hslot, read_put_disjoint, h hoffload w hw]
  unfold Sender.addr frameSize TxMetadata.len at *
  omega

/-- What another slot describes is not touched. -/
theorem described_put_of_ne (hready : self.Ready state frame) (hready' : self.Ready state frame')
    (hslot : frame % self.size = index.toNat % self.size)
    (hslot' : frame' % self.size = index'.toNat % self.size)
    (hne : frame % self.size ≠ frame' % self.size) (hlen : packet.len ≤ frameSize)
    (hlen' : (self.described state index).length ≤ frameSize) :
    self.described (self.put state index' packet) index = self.described state index := by
  have hframes : frame ≠ frame' := fun h => hne (congrArg (· % self.size) h)
  rw [hslot'] at hne
  unfold described at hlen' ⊢
  rw [← hslot] at hlen' ⊢
  dsimp only at hlen' ⊢
  rw [length_read] at hlen'
  rw [tx_put_of_ne hne, umem_put hready' hslot', hready.addr]
  apply read_put_disjoint
  unfold Sender.addr frameSize TxMetadata.len at *
  omega

/-! ### All frames of a sender -/

/-- All frames of the sender are ready. -/
def Bound (self : Sender) (state : SenderState) : Prop :=
  ∀ frame, self.Owns frame → self.Ready state frame

/-- All frames of the sender have their request. -/
def AllRequest (self : Sender) (state : SenderState) : Prop :=
  ∀ frame, self.Owns frame → self.Requests state frame

/-- The frame of an index. -/
theorem Bound.exists_frame (h : self.Bound state) (index : BitVec 32) :
    ∃ frame, self.Owns frame ∧ self.Ready state frame ∧
      frame % self.size = index.toNat % self.size := by
  obtain ⟨frame, howns, hslot⟩ := self.exists_owns index.toNat
  exact ⟨frame, howns, h frame howns, hslot⟩

/-- A packet that is not longer than a frame ends before the headers of the next one. What it may
overwrite is the metadata in front of them, which `Bound` does not speak about. -/
theorem Bound.put (h : self.Bound state) (hlen : packet.len ≤ frameSize) :
    self.Bound (self.put state index packet) := by
  intro frame howns
  obtain ⟨frame', -, hready', hslot⟩ := h.exists_frame index
  by_cases heq : frame % self.size = frame' % self.size
  · exact (h frame howns).put_self (heq.trans hslot)
  · exact (h frame howns).put_of_ne hready' hslot heq hlen

/-- With room for the metadata of the next frame it does not overwrite that either. -/
theorem AllRequest.put (hrequest : self.AllRequest state) (h : self.Bound state)
    (hlen : TxMetadata.len + packet.len ≤ frameSize) :
    self.AllRequest (self.put state index packet) := by
  intro frame howns
  obtain ⟨frame', -, hready', hslot⟩ := h.exists_frame index
  exact (hrequest frame howns).put hready' hslot hlen

variable {packets : List EthPacket}

theorem Bound.putAll (h : self.Bound state) (hlen : ∀ p ∈ packets, p.len ≤ frameSize) :
    self.Bound (self.putAll state index packets) := by
  induction packets generalizing state index with
  | nil => exact h
  | cons packet packets ih =>
    exact ih (h.put (hlen packet List.mem_cons_self)) fun p hp => hlen p (List.mem_cons_of_mem _ hp)

theorem AllRequest.putAll (hrequest : self.AllRequest state) (h : self.Bound state)
    (hlen : ∀ p ∈ packets, TxMetadata.len + p.len ≤ frameSize) :
    self.AllRequest (self.putAll state index packets) := by
  induction packets generalizing state index with
  | nil => exact hrequest
  | cons packet packets ih =>
    have hfirst := hlen packet List.mem_cons_self
    exact ih (hrequest.put h hfirst) (h.put ((Nat.le_add_left _ _).trans hfirst))
      fun p hp => hlen p (List.mem_cons_of_mem _ hp)

/-- Packets in other slots do not touch what a slot describes. -/
theorem described_putAll_of_ne (h : self.Bound state) (hlen : ∀ p ∈ packets, p.len ≤ frameSize)
    (hlen' : (self.described state index).length ≤ frameSize)
    (hne : ∀ i < packets.length, index.toNat % self.size ≠ (index'.toNat + i) % self.size) :
    self.described (self.putAll state index' packets) index = self.described state index := by
  -- the slots before this packet are as they were
  induction packets generalizing state index' with
  | nil => rfl
  | cons packet packets ih =>
    have hfirst := hlen packet List.mem_cons_self
    obtain ⟨frame, -, hready, hslot⟩ := h.exists_frame index
    obtain ⟨frame', -, hready', hslot'⟩ := h.exists_frame index'
    have hput := described_put_of_ne hready hready' hslot hslot'
      (by rw [hslot, hslot']; exact hne 0 (Nat.zero_lt_succ _)) hfirst hlen'
    rw [putAll, ih (h.put hfirst) (fun p hp => hlen p (List.mem_cons_of_mem _ hp))
      (by rw [hput]; exact hlen'), hput]
    intro i hi
    -- the rest of the packets go to the slots from the next index on
    rw [slot_succ]
    exact hne (i + 1) (Nat.succ_lt_succ hi)

/-- **After a call the slots describe its packets.** -/
theorem described_putAll (h : self.Bound state) (hlen : ∀ p ∈ packets, p.len ≤ frameSize)
    (hcount : packets.length ≤ self.size) {i : ℕ} (hi : packets[i]? = some packet) :
    self.described (self.putAll state index packets) (index + .ofNat 32 i) =
      packet.bytes self.shared := by
  induction packets generalizing state index i with
  | nil => exact absurd hi (by simp)
  | cons first packets ih =>
    have hfirst := hlen first List.mem_cons_self
    have hrest : ∀ p ∈ packets, p.len ≤ frameSize := fun p hp =>
      hlen p (List.mem_cons_of_mem _ hp)
    rw [List.length_cons] at hcount
    cases i with
    | zero =>
      obtain rfl : first = packet := Option.some.inj hi
      -- the packet of the first slot, which the later ones leave
      obtain ⟨frame, -, hready, hslot⟩ := h.exists_frame index
      have hput : self.described (self.put state index first) index = first.bytes self.shared :=
        described_put hready hslot
      change self.described (self.putAll _ _ packets) (index + 0#32) = _
      rw [BitVec.add_zero, described_putAll_of_ne (h.put hfirst) hrest, hput]
      · rw [hput, EthPacket.bytes, List.length_append, EthTcpIpHdr.length_bytes]
        exact hfirst
      · -- fewer than a ring of slots
        intro i hi heq
        rw [slot_succ] at heq
        have hmod : index.toNat + 0 ≡ index.toNat + (i + 1) [MOD self.size] := heq
        have hdvd : self.size ∣ i + 1 :=
          Nat.modEq_zero_iff_dvd.mp (Nat.ModEq.add_left_cancel' _ hmod).symm
        have := Nat.le_of_dvd (Nat.succ_pos i) hdvd
        omega
    | succ i =>
      -- the words of the indices add up, also when they wrap
      have hindex : index + .ofNat 32 (i + 1) = index + 1 + .ofNat 32 i := by
        rw [BitVec.add_assoc, Nat.add_comm i 1, BitVec.ofNat_add]
        rfl
      rw [hindex]
      exact ih (h.put hfirst) hrest (Nat.le_of_succ_le hcount) hi

/-! ### `Sender::new` -/

theorem le_of_mem_templateWrites {shared : SharedData} :
    ∀ w ∈ templateWrites shared, w.1 + w.2.length ≤ 62 := by
  intro w hw
  have hends : ∀ n ∈ [62, 6, 12, 30], n ≤ 62 := by decide
  exact hends _ (List.mem_map_of_mem (f := fun w => w.1 + w.2.length) hw)

/-- What `Sender::new` writes for a frame: with offload the request first, and then the template
behind it. -/
theorem umem_newFrame (self : Sender) (state : SenderState) (index : ℕ) :
    (self.newFrame state index).umem =
      writeAll
        (if self.checksumOffload then
          writeAll state.umem (index * frameSize) TxMetadata.checksum.writes
        else state.umem)
        (addr index) (templateWrites self.shared) := rfl

theorem le_of_mem_checksum_writes :
    ∀ w ∈ TxMetadata.checksum.writes, w.1 + w.2.length ≤ TxMetadata.len := by
  decide

/-- The descriptor of the frame, which is bound to its slot for good. -/
theorem tx_newFrame_self (self : Sender) (state : SenderState) (index : ℕ) :
    (self.newFrame state index).tx (index % self.size) =
      { addr := addr index
        len := (state.tx (index % self.size)).len
        options :=
          if self.checksumOffload then xdpTxMetadata
          else (state.tx (index % self.size)).options } :=
  Function.update_self _ _ _

theorem tx_newFrame_of_ne {index slot : ℕ} (hne : slot ≠ index % self.size) :
    (self.newFrame state index).tx slot = state.tx slot :=
  Function.update_of_ne hne _ _

/-- A frame is ready after its turn of the loop. -/
theorem ready_newFrame (hoptions : self.checksumOffload = false →
      (state.tx (frame % self.size)).options = 0) :
    self.Ready (self.newFrame state frame) frame where
  addr := by rw [tx_newFrame_self]
  options := by
    rw [tx_newFrame_self]
    dsimp only
    -- without offload the options are those that the ring had
    split
    · rfl
    · next h => exact hoptions (eq_false_of_ne_true h)
  hdr := by
    refine ⟨.initial, ?_⟩
    rw [umem_newFrame, read_writeAll le_of_mem_templateWrites,
      ← EthTcpIpHdr.splice_tcpPacket]
    -- the template covers what was there
    change splice 26 _ (splice 6 _ (splice 0 _ (splice 0 tcpPacket (read _ _ 62)))) = _
    have hcover : splice 0 tcpPacket (read (if self.checksumOffload then
        writeAll state.umem (frame * frameSize) TxMetadata.checksum.writes
        else state.umem) (Sender.addr frame) 62) = tcpPacket := by
      rw [splice, List.take_zero, List.nil_append, List.drop_eq_nil_of_le, List.append_nil]
      rw [length_read]
      decide
    rw [hcover]

/-- And it has its request. -/
theorem requests_newFrame : self.Requests (self.newFrame state frame) frame := by
  intro hoffload w hw
  have hw' := le_of_mem_checksum_writes w hw
  rw [umem_newFrame, if_pos hoffload, read_writeAll_disjoint, read_writeAll_mem (by decide) hw]
  intro w' hw''
  rw [addr]
  omega

/-- The turns of other frames do not touch it. -/
theorem read_newFrame_disjoint {index addr len : ℕ}
    (h : addr + len ≤ index * frameSize ∨ index * frameSize + frameSize ≤ addr) :
    read (self.newFrame state index).umem addr len = read state.umem addr len := by
  have hlen : TxMetadata.len + 62 ≤ frameSize := by decide
  rw [umem_newFrame, read_writeAll_disjoint]
  · -- with offload there are two writes, both inside of the frame
    split
    · rw [read_writeAll_disjoint]
      intro w hw
      have hw' := le_of_mem_checksum_writes w hw
      omega
    · rfl
  · intro w hw
    have hw' := le_of_mem_templateWrites w hw
    rw [Sender.addr]
    omega

/-- What the loop of `Sender::new` has done after some turns. -/
structure NewInv (sender : Sender) (turns : ℕ) (state : SenderState) : Prop where
  ready : ∀ frame, sender.startingFrame ≤ frame → frame < sender.startingFrame + turns →
    sender.Ready state frame ∧ sender.Requests state frame
  options : sender.checksumOffload = false → ∀ slot, (state.tx slot).options = 0

/-- One turn of the loop of `Sender::new`. The frames of earlier turns are in front of this one and
have other slots. -/
theorem NewInv.step {turns : ℕ} (h : NewInv self turns state) (hturns : turns < self.size) :
    NewInv self (turns + 1) (self.newFrame state (self.startingFrame + turns)) where
  ready := by
    intro frame hle hlt
    rcases Nat.lt_or_ge frame (self.startingFrame + turns) with hbefore | hnow
    · -- a frame of an earlier turn has another slot
      obtain ⟨hready, hrequests⟩ := h.ready frame hle hbefore
      have hne : frame % self.size ≠ (self.startingFrame + turns) % self.size := by
        intro hmod
        have howns : self.Owns frame := ⟨hle, by omega⟩
        have heq := howns.eq_of_mod_eq
          ⟨Nat.le_add_right _ _, Nat.add_lt_add_left hturns _⟩ hmod
        omega
      refine ⟨⟨?_, ?_, ?_⟩, fun hoffload w hw => ?_⟩
      · rw [tx_newFrame_of_ne hne]
        exact hready.addr
      · rw [tx_newFrame_of_ne hne]
        exact hready.options
      · rw [read_newFrame_disjoint]
        · exact hready.hdr
        · unfold Sender.addr frameSize TxMetadata.len
          omega
      · -- its request is in front of the frame of this turn
        have hw' := le_of_mem_checksum_writes w hw
        rw [read_newFrame_disjoint]
        · exact hrequests hoffload w hw
        · unfold frameSize TxMetadata.len at *
          omega
    · -- the frame of this turn
      obtain rfl : frame = self.startingFrame + turns := by omega
      exact ⟨ready_newFrame fun hoffload => h.options hoffload _, requests_newFrame⟩
  options := by
    intro hoffload slot
    by_cases hslot : slot = (self.startingFrame + turns) % self.size
    · rw [hslot, tx_newFrame_self, hoffload]
      exact h.options hoffload _
    · rw [tx_newFrame_of_ne hslot]
      exact h.options hoffload slot

/-- After `Sender::new` all frames are ready and have their requests. -/
theorem newInv_new (self : Sender) (umem : ℕ → UInt8) :
    NewInv self self.size (self.new umem) := by
  -- by the turns of the loop of `new`, one for each frame
  have hloop : ∀ turns ≤ self.size, NewInv self turns
      ((List.range' self.startingFrame turns).foldl self.newFrame
        { umem, tx := fun _ => { addr := 0, len := 0, options := 0 } }) := by
    intro turns
    induction turns with
    | zero => exact fun _ => ⟨fun frame _ _ => by omega, fun _ _ => rfl⟩
    | succ turns ih =>
      intro hle
      rw [List.range'_1_concat, List.foldl_concat]
      exact (ih (Nat.le_of_succ_le hle)).step hle
  exact hloop self.size (Nat.le_refl _)

theorem bound_new (self : Sender) (umem : ℕ → UInt8) : self.Bound (self.new umem) :=
  fun frame howns => ((newInv_new self umem).ready frame howns.1 howns.2).1

theorem allRequest_new (self : Sender) (umem : ℕ → UInt8) : self.AllRequest (self.new umem) :=
  fun frame howns => ((newInv_new self umem).ready frame howns.1 howns.2).2

end Sender

/-! ### Runs -/

/-- What happens to the memory of a sender: its own calls, and what others write into the UMEM. -/
inductive SenderAct where
  | call (index : BitVec 32) (call : SendCall)
  | elsewhere (addr : ℕ) (bytes : List UInt8)
  deriving DecidableEq, Repr

namespace Sender

variable {self : Sender} {state : SenderState}

def step (self : Sender) (state : SenderState) : SenderAct → SenderState
  | .call index call => self.exec state index call
  | .elsewhere addr bytes => { state with umem := write state.umem addr bytes }

/-- The state after `Sender::new` and the acts. -/
def run (self : Sender) (umem : ℕ → UInt8) (acts : List SenderAct) : SenderState :=
  acts.foldl self.step (self.new umem)

/-- The packets have at most the length `room`, and others keep out of the frames of the sender. -/
def Allows (self : Sender) (room : ℕ) : SenderAct → Prop
  | .call _ call => call.FitsIn room
  | .elsewhere addr bytes =>
      addr + bytes.length ≤ self.startingFrame * frameSize ∨
        (self.startingFrame + self.size) * frameSize ≤ addr

instance (self : Sender) (room : ℕ) (act : SenderAct) : Decidable (self.Allows room act) :=
  match act with
  | .call _ call => inferInstanceAs (Decidable (call.FitsIn room))
  | .elsewhere _ _ => inferInstanceAs (Decidable (_ ∨ _))

/-- Where the frames of a sender lie. -/
theorem Owns.region {frame : ℕ} (h : self.Owns frame) :
    self.startingFrame * frameSize ≤ frame * frameSize ∧
      frame * frameSize + frameSize ≤ (self.startingFrame + self.size) * frameSize := by
  constructor
  · exact Nat.mul_le_mul_right _ h.1
  · rw [← Nat.succ_mul]
    exact Nat.mul_le_mul_right _ h.2

/-- What others write is not in the frames of the sender. -/
theorem read_elsewhere {room frame addr offset len : ℕ} {bytes : List UInt8}
    (hallows : self.Allows room (.elsewhere addr bytes)) (howns : self.Owns frame)
    (hlen : offset + len ≤ frameSize) (m : ℕ → UInt8) :
    read (write m addr bytes) (frame * frameSize + offset) len =
      read m (frame * frameSize + offset) len := by
  obtain ⟨hlow, hhigh⟩ := howns.region
  apply read_write_disjoint
  rcases hallows with h | h
  · exact .inr (by omega)
  · exact .inl (by omega)

theorem Bound.exec (h : self.Bound state) {index : BitVec 32} {call : SendCall}
    (hfits : call.FitsIn frameSize) : self.Bound (self.exec state index call) := by
  rw [exec_eq]
  exact h.putAll fun p hp => len_le_of_fitsIn hfits hp

/-- The request of the next frame survives only if the packets leave its metadata alone, hence the
smaller room. -/
theorem AllRequest.exec (hrequest : self.AllRequest state) (h : self.Bound state)
    {index : BitVec 32} {call : SendCall} (hfits : call.FitsIn (frameSize - TxMetadata.len)) :
    self.AllRequest (self.exec state index call) := by
  rw [exec_eq]
  refine hrequest.putAll h fun p hp => ?_
  have hlen : p.len ≤ frameSize - TxMetadata.len := len_le_of_fitsIn hfits hp
  unfold frameSize TxMetadata.len at *
  omega

theorem Bound.step (h : self.Bound state) {act : SenderAct} (hallows : self.Allows frameSize act) :
    self.Bound (self.step state act) := by
  cases act with
  | call index call => exact h.exec hallows
  | elsewhere addr bytes =>
    intro frame howns
    obtain ⟨haddr, hoptions, hdr, hhdr⟩ := h frame howns
    refine ⟨haddr, hoptions, hdr, ?_⟩
    exact (read_elsewhere hallows howns (by decide) state.umem).trans hhdr

theorem AllRequest.step (hrequest : self.AllRequest state) (h : self.Bound state)
    {act : SenderAct} (hallows : self.Allows (frameSize - TxMetadata.len) act) :
    self.AllRequest (self.step state act) := by
  cases act with
  | call index call => exact hrequest.exec h hallows
  | elsewhere addr bytes =>
    intro frame howns hoffload w hw
    have hw' := le_of_mem_checksum_writes w hw
    have hlen : TxMetadata.len ≤ frameSize := by decide
    exact (read_elsewhere hallows howns (by omega) state.umem).trans
      (hrequest frame howns hoffload w hw)

/-- **Every slot stays bound to its frame**, after any calls, whatever others write elsewhere. -/
theorem bound_run (umem : ℕ → UInt8) {acts : List SenderAct}
    (hallows : ∀ act ∈ acts, self.Allows frameSize act) : self.Bound (self.run umem acts) := by
  refine List.foldlRecOn acts self.step (bound_new self umem) fun state h act hact => ?_
  exact h.step (hallows act hact)

theorem Allows.mono {room room' : ℕ} (hle : room ≤ room') {act : SenderAct}
    (h : self.Allows room act) : self.Allows room' act := by
  cases act with
  | elsewhere addr bytes => exact h
  | call index call => exact SendCall.FitsIn.mono hle h

/-- Requests stay, as long as packets stay in their frames. -/
theorem allRequest_run (umem : ℕ → UInt8) {acts : List SenderAct}
    (hallows : ∀ act ∈ acts, self.Allows (frameSize - TxMetadata.len) act) :
    self.AllRequest (self.run umem acts) := by
  refine (List.foldlRecOn (motive := fun state => self.Bound state ∧ self.AllRequest state) acts
    self.step ⟨bound_new self umem, allRequest_new self umem⟩ fun state h act hact => ?_).2
  exact ⟨h.1.step ((hallows act hact).mono (Nat.sub_le _ _)), h.2.step h.1 (hallows act hact)⟩

/-- After any calls, the slots of one more call describe its packets. -/
theorem described_exec (h : self.Bound state) {index : BitVec 32} {call : SendCall}
    (hfits : call.FitsIn frameSize) (hcount : call.count ≤ self.size) {i : ℕ} {packet : EthPacket}
    (hi : (self.packets call)[i]? = some packet) :
    self.described (self.exec state index call) (index + .ofNat 32 i) =
      packet.bytes self.shared := by
  rw [exec_eq]
  refine described_putAll h (fun p hp => len_le_of_fitsIn hfits hp) ?_ hi
  rw [length_packets]
  exact hcount

end Sender

end Farsight
