import Farsight.Net.Frame

/-!
# The kernel filter

The XDP program that runs on every received frame. It redirects the answers to probes, which are the
TCP packets to a source port of the scanner, to the sockets of the scanner, and passes all others
on.

* `ptrAt`, `tryFarsightXdp` — the functions of the source. Headers are as in `network-types`:
  `EthHdr`, `Ipv4Hdr` and `TcpHdr` have 14, 20 and 20 bytes;
* `XdpProgram.Checked` — what the program has checked about a frame that it redirects.
-/

namespace Farsight

namespace EthHdr

/-- `EthHdr::LEN`. -/
def len : ℕ := 14

/-- `ether_type`. -/
def etherType (hdr : Vector UInt8 14) : BitVec 16 :=
  fromBeBytes hdr[12] hdr[13]

/-- `EtherType::Ipv4`. -/
def ipv4 : BitVec 16 := 0x0800

end EthHdr

namespace Ipv4Hdr

/-- `proto`. -/
def proto (hdr : Vector UInt8 20) : UInt8 :=
  hdr[9]

/-- `IpProto::Tcp`. -/
def tcp : UInt8 := 6

/-- The lower half of the first byte. -/
def ihlOf (first : UInt8) : ℕ :=
  (first &&& 0x0F).toNat

/-- `ihl`. -/
def ihl (hdr : Vector UInt8 20) : ℕ :=
  ihlOf hdr[0]

end Ipv4Hdr

/-- `dest` of the header of `network-types`. -/
def tcpDest (hdr : Vector UInt8 20) : BitVec 16 :=
  fromBeBytes hdr[2] hdr[3]

/-- The statics of the program, and the keys of `SOCKS` at which there is a socket. -/
structure XdpProgram where
  sourcePortStart : BitVec 16
  sourcePortEnd : BitVec 16
  usableQueues : BitVec 32
  socks : BitVec 32 → Bool

/-- What becomes of a frame. -/
inductive XdpAction where
  | pass
  /-- The frame goes to the socket with this key. -/
  | redirect (key : BitVec 32)
  deriving DecidableEq, Repr

/-- The `n` bytes from `offset` on. -/
def bytesAt (n : ℕ) (data : List UInt8) (offset : ℕ) (h : offset + n ≤ data.length) :
    Vector UInt8 n :=
  .ofFn fun i => data[offset + i]

theorem getElem_bytesAt {n offset i : ℕ} {data : List UInt8} (h : offset + n ≤ data.length)
    (hi : i < n) : (bytesAt n data offset h)[i] = data[offset + i] :=
  Vector.getElem_ofFn ..

/-- `ptr_at`, with the bytes that it points to. -/
def ptrAt (n : ℕ) (data : List UInt8) (offset : ℕ) : Except Unit (Vector UInt8 n) :=
  if h : offset + n ≤ data.length then .ok (bytesAt n data offset h) else .error ()

namespace XdpProgram

/-- Where the TCP header is, by the first byte of the IP header. -/
def tcpOffset (first : UInt8) : ℕ :=
  EthHdr.len + 4 * Ipv4Hdr.ihlOf first

/-- `try_farsight_xdp`, on a frame that has arrived on a queue. -/
def tryFarsightXdp (self : XdpProgram) (rxQueueIndex : BitVec 32) (data : List UInt8) :
    Except Unit XdpAction :=
  if self.sourcePortStart = 0 then .error ()
  else if self.sourcePortEnd = 0 then .error ()
  else do
    let ethhdr ← ptrAt 14 data 0
    if EthHdr.etherType ethhdr ≠ EthHdr.ipv4 then
      -- only interested in ipv4
      return .pass
    else do
    let ipv4hdr ← ptrAt 20 data EthHdr.len
    if Ipv4Hdr.proto ipv4hdr ≠ Ipv4Hdr.tcp then
      -- only interested in tcp
      return .pass
    else
    let ihl := Ipv4Hdr.ihl ipv4hdr
    if ihl < 5 then
      -- invalid IHL
      return .pass
    else do
    let tcphdr ← ptrAt 20 data (EthHdr.len + 4 * ihl)
    let dest := tcpDest tcphdr
    if dest < self.sourcePortStart ∨ dest > self.sourcePortEnd then
      -- not sent by us
      return .pass
    else
    -- in BPF, as here, `x % 0` is `x`
    let key := rxQueueIndex % self.usableQueues
    if self.socks key then return .redirect key else return .pass

/-- Where the TCP header of a frame is that has room for an IP header. -/
def tcpOffsetIn (data : List UInt8) (h : 34 ≤ data.length) : ℕ :=
  tcpOffset data[14]

/-- What the program has checked about a frame. -/
structure Checked (program : XdpProgram) (data : List UInt8) : Prop where
  ipv4 : 34 ≤ data.length
  tcp : tcpOffsetIn data ipv4 + 20 ≤ data.length
  dest : fromBeBytes data[tcpOffsetIn data ipv4 + 2] data[tcpOffsetIn data ipv4 + 3] ∈
    Set.Icc program.sourcePortStart program.sourcePortEnd

theorem ptrAt_ok {n offset : ℕ} {data : List UInt8} {bytes : Vector UInt8 n}
    (h : ptrAt n data offset = .ok bytes) :
    ∃ hle : offset + n ≤ data.length, bytes = bytesAt n data offset hle := by
  unfold ptrAt at h
  split at h
  · next hle => exact ⟨hle, (Except.ok.inj h).symm⟩
  · contradiction

theorem bind_eq_ok {ε α β : Type} {x : Except ε α} {f : α → Except ε β} {b : β} :
    (x >>= f) = .ok b ↔ ∃ a, x = .ok a ∧ f a = .ok b := by
  cases x with
  | error e => exact ⟨nofun, nofun⟩
  | ok a => exact ⟨fun h => ⟨a, rfl, h⟩, fun ⟨_, ha, h⟩ => Except.ok.inj ha ▸ h⟩

/-- A check that a redirected frame has passed. -/
theorem of_ite_pass {c : Prop} [Decidable c] {x : Except Unit XdpAction} {key : BitVec 32}
    (h : (if c then pure .pass else x) = .ok (.redirect key)) : ¬ c ∧ x = .ok (.redirect key) := by
  split at h
  · exact absurd (Except.ok.inj h) nofun
  · next hc => exact ⟨hc, h⟩

/-- A frame is redirected only after all checks. -/
theorem checked_of_redirect {self : XdpProgram} {rxQueueIndex key : BitVec 32} {data : List UInt8}
    (h : self.tryFarsightXdp rxQueueIndex data = .ok (.redirect key)) : self.Checked data := by
  rw [tryFarsightXdp] at h
  split_ifs at h
  obtain ⟨ethhdr, -, h⟩ := bind_eq_ok.mp h
  obtain ⟨-, h⟩ := of_ite_pass h
  obtain ⟨ipv4hdr, hipv4, h⟩ := bind_eq_ok.mp h
  obtain ⟨-, h⟩ := of_ite_pass h
  obtain ⟨-, h⟩ := of_ite_pass h
  obtain ⟨tcphdr, htcp, h⟩ := bind_eq_ok.mp h
  obtain ⟨hdest, -⟩ := of_ite_pass h
  obtain ⟨hlen, rfl⟩ := ptrAt_ok hipv4
  -- the header length is in the fifteenth byte of the frame
  have hihl : EthHdr.len + 4 * Ipv4Hdr.ihl (bytesAt 20 data EthHdr.len hlen) =
      tcpOffsetIn data hlen := by
    rw [Ipv4Hdr.ihl, getElem_bytesAt]
    rfl
  have htcp' : ptrAt 20 data (tcpOffsetIn data hlen) = .ok tcphdr := by
    rw [← hihl]
    exact htcp
  obtain ⟨hlen', rfl⟩ := ptrAt_ok htcp'
  rw [not_or, BitVec.not_lt, gt_iff_lt, BitVec.not_lt, tcpDest, getElem_bytesAt,
    getElem_bytesAt] at hdest
  exact ⟨hlen, hlen', hdest⟩

end XdpProgram

end Farsight
