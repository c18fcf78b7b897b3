import Farsight.Responder.Handlers
import Farsight.Xdp.Filter

/-!
# Decoding

How `process_packet` finds the headers and the payload in the bytes of a frame. The accesses of the
source stop the thread if they are out of bounds, and nothing there checks the length of the frame.

* `Slice.index`, `Slice.range`, `Slice.array` — the accesses;
* `Responder.decode`, `Responder.processFrame` — `process_packet` on the bytes;
* `Responder.decode_spec` — frames that the kernel filter has checked are decoded;
* `Responder.processFrame_of_redirect` — in particular those that it redirects.
-/

namespace Farsight

/-- An access outside of a slice of this length. -/
structure OutOfBounds where
  stop : ℕ
  len : ℕ
  deriving DecidableEq, Repr

namespace Slice

/-- `data[i]`. -/
def index (data : List UInt8) (i : ℕ) : Except OutOfBounds UInt8 :=
  if h : i < data.length then .ok data[i] else .error ⟨i + 1, data.length⟩

/-- `&data[start..stop]`. -/
def range (data : List UInt8) (start stop : ℕ) : Except OutOfBounds (List UInt8) :=
  if start ≤ stop ∧ stop ≤ data.length then .ok ((data.take stop).drop start)
  else .error ⟨stop, data.length⟩

/-- `as_array_unchecked(&data[start..start + n])`. -/
def array (n : ℕ) (data : List UInt8) (start : ℕ) : Except OutOfBounds (Vector UInt8 n) :=
  if h : start + n ≤ data.length then .ok (bytesAt n data start h)
  else .error ⟨start + n, data.length⟩

variable {data : List UInt8}

/-! Accesses within the bounds succeed. -/

theorem index_bind {β : Type} {i : ℕ} (h : i < data.length) (f : UInt8 → Except OutOfBounds β) :
    index data i >>= f = f data[i] := by
  rw [index, dif_pos h]
  rfl

theorem range_bind {β : Type} {start stop : ℕ} (hstart : start ≤ stop) (hstop : stop ≤ data.length)
    (f : List UInt8 → Except OutOfBounds β) :
    range data start stop >>= f = f ((data.take stop).drop start) := by
  rw [range, if_pos ⟨hstart, hstop⟩]
  rfl

theorem array_bind {β : Type} {n start : ℕ} (h : start + n ≤ data.length)
    (f : Vector UInt8 n → Except OutOfBounds β) :
    array n data start >>= f = f (bytesAt n data start h) := by
  rw [array, dif_pos h]
  rfl

end Slice

/-- `Ipv4Addr::from_octets`, and the bytes of a `network_endian::U32`. -/
def fromOctets (a b c d : UInt8) : BitVec 32 :=
  fromBeBytes a b ++ fromBeBytes c d

/-- `TcpHdr::ref_from_bytes`. The header of the source has the first 14 bytes. -/
def TcpHdr.refFromBytes (bytes : List UInt8) : Option TcpHdr :=
  if h : bytes.length = 14 then
    some {
      sourcePort := fromBeBytes bytes[0] bytes[1]
      destPort := fromBeBytes bytes[2] bytes[3]
      seq := fromOctets bytes[4] bytes[5] bytes[6] bytes[7]
      ack := fromOctets bytes[8] bytes[9] bytes[10] bytes[11]
      flags := bytes[13].toBitVec }
  else none

namespace Responder

/-- Where the TCP header starts, by the first byte of the IP header. -/
def tcpStart (first : UInt8) : ℕ :=
  14 + ((first &&& 0x0F) <<< 2).toNat

/-- Where the payload starts, by the byte of the data offset. -/
def dataStart (tcpStart : ℕ) (offset : UInt8) : ℕ :=
  tcpStart + ((offset &&& 0xF0) >>> 2).toNat

/-- Where the packet ends, without the padding of the frame. -/
def packetEnd (ipTotalLen : BitVec 16) (len : ℕ) : ℕ :=
  min (14 + ipTotalLen.toNat) len

/-- `process_packet`, up to the flags. A packet that is ignored is `none`. -/
def decode (data : List UInt8) : Except OutOfBounds (Option Packet) := do
  let octets ← Slice.array 4 data 26
  let ip := fromOctets octets[0] octets[1] octets[2] octets[3]
  let tcpStart := tcpStart (← Slice.index data 14)
  let total ← Slice.array 2 data 16
  let packetEnd := packetEnd (fromBeBytes total[0] total[1]) data.length
  let dataStart := dataStart tcpStart (← Slice.index data (tcpStart + 12))
  if dataStart > packetEnd then
    -- invalid packet data offset
    return none
  else do
    let tcpPayload ← Slice.range data dataStart packetEnd
    match TcpHdr.refFromBytes (← Slice.range data tcpStart (tcpStart + 14)) with
    | some hdr => return some ⟨ip, hdr, tcpPayload⟩
    | none => return none

/-- `process_packet`. -/
def processFrame {A B : Type} (env : ResponderEnv A B) (now : ℕ) (data : List UInt8) :
    Except OutOfBounds (Handler (Responder A B) Unit) := do
  match ← decode data with
  | none => return return ()
  | some p => return processPacket env now p

/-! ### The decoder and the filter -/

/-- Both sides find the header at the same place, since the shift does not overflow. -/
theorem tcpStart_eq (first : UInt8) : tcpStart first = XdpProgram.tcpOffset first := by
  have hlow : (first &&& 0x0F).toNat < 16 := by
    rw [UInt8.toNat_and]
    exact Nat.and_lt_two_pow _ (n := 4) (by decide)
  rw [tcpStart, XdpProgram.tcpOffset, EthHdr.len, Ipv4Hdr.ihlOf, UInt8.toNat_shiftLeft,
    Nat.shiftLeft_eq]
  change 14 + (first &&& 0x0F).toNat * 4 % 256 = _
  omega

/-- A packet as the filter has seen it. -/
structure Agrees (program : XdpProgram) (data : List UInt8) (p : Packet) : Prop where
  ipv4 : 34 ≤ data.length
  hdr : TcpHdr.refFromBytes ((data.drop (XdpProgram.tcpOffsetIn data ipv4)).take 14) = some p.hdr
  dest : p.hdr.destPort ∈ Set.Icc program.sourcePortStart program.sourcePortEnd
  payload : ∃ start ≤ min (14 + (fromBeBytes data[16] data[17]).toNat) data.length,
    p.payload =
      (data.take (min (14 + (fromBeBytes data[16] data[17]).toNat) data.length)).drop start

/-- The header of the source is the start of that of the filter. -/
theorem refFromBytes_take {data : List UInt8} {offset : ℕ} (h : offset + 20 ≤ data.length) :
    ∃ hdr, TcpHdr.refFromBytes ((data.drop offset).take 14) = some hdr ∧
      hdr.destPort = fromBeBytes data[offset + 2] data[offset + 3] := by
  have hlength : ((data.drop offset).take 14).length = 14 := by
    rw [List.length_take, List.length_drop]
    omega
  rw [TcpHdr.refFromBytes, dif_pos hlength]
  refine ⟨_, rfl, ?_⟩
  dsimp only
  rw [List.getElem_take, List.getElem_take, List.getElem_drop, List.getElem_drop]

/-- All accesses to a frame that the filter has checked are in bounds. -/
theorem decode_spec {program : XdpProgram} {data : List UInt8} (h : program.Checked data) :
    decode data = .ok none ∨ ∃ p, decode data = .ok (some p) ∧ Agrees program data p := by
  have hlen := h.ipv4
  have htcp := h.tcp
  have hdest := h.dest
  obtain ⟨offset, hoffset⟩ : ∃ offset, offset = XdpProgram.tcpOffsetIn data hlen := ⟨_, rfl⟩
  simp only [← hoffset] at htcp hdest
  have hstart : tcpStart data[14] = offset := (tcpStart_eq _).trans hoffset.symm
  -- three accesses to the IP header, then the data offset in the TCP header
  rw [decode, Slice.array_bind (by omega)]
  rw [Slice.index_bind (by omega), hstart, Slice.array_bind (by omega),
    Slice.index_bind (by omega)]
  dsimp only
  rw [getElem_bytesAt, getElem_bytesAt]
  split
  · exact .inl rfl
  · -- the payload starts before the end of the frame, whatever the total length says
    next hle =>
    rw [Nat.not_lt] at hle
    right
    obtain ⟨hdr, hhdr, hport⟩ := refFromBytes_take htcp
    rw [Slice.range_bind hle (Nat.min_le_right _ _), Slice.range_bind (by omega) (by omega),
      List.drop_take, Nat.add_sub_cancel_left, hhdr]
    refine ⟨_, rfl, hlen, ?_, ?_, _, hle, rfl⟩
    · rw [← hoffset]
      exact hhdr
    · rw [← hport] at hdest
      exact hdest

/-- **The filter and the decoder agree.** Every access to a frame that the filter redirects is in
bounds. The packet is ignored, or its header is read where the filter has read it and its
destination port is a source port of the scanner, and the payload ends with the packet or with the
frame. -/
theorem processFrame_of_redirect (program : XdpProgram) (rxQueueIndex key : BitVec 32)
    (data : List UInt8) (h : program.tryFarsightXdp rxQueueIndex data = .ok (.redirect key))
    {A B : Type} (env : ResponderEnv A B) (now : ℕ) :
    processFrame env now data = .ok (return ()) ∨
      ∃ p, processFrame env now data = .ok (processPacket env now p) ∧ Agrees program data p := by
  rcases decode_spec (XdpProgram.checked_of_redirect h) with hnone | ⟨p, hsome, hagrees⟩
  · left
    rw [processFrame, hnone]
    rfl
  · right
    refine ⟨p, ?_, hagrees⟩
    rw [processFrame, hsome]
    rfl

/-- A SYN+ACK to port 61000. -/
def synAckFrame : List UInt8 :=
  [0, 0, 0, 0, 0, 1, 0, 0, 0, 0, 0, 2, 0x08, 0x00,
    0x45, 0, 0, 40, 0, 0, 0, 0, 64, 6, 0, 0, 10, 0, 0, 7, 10, 0, 0, 1,
    0, 80, 0xEE, 0x48, 0, 0, 0, 1, 0, 0, 0, 2, 0x50, 0x12, 0, 0, 0, 0, 0, 0,
    -- padding
    0, 0, 0, 0, 0, 0]

/-- The source ports are 61000 to 61999. -/
def usualProgram : XdpProgram where
  sourcePortStart := 61000
  sourcePortEnd := 61999
  usableQueues := 4
  socks := fun _ => true

theorem processFrame_of_redirect_synAck :
    usualProgram.tryFarsightXdp 5 synAckFrame = .ok (.redirect 1) ∧
      decode synAckFrame = .ok (some ⟨0x0A000007, ⟨80, 61000, 1, 2, 0x12⟩, []⟩) ∧
      (processFrame .sample 0 synAckFrame = .ok (return ()) ∨
        ∃ p, processFrame .sample 0 synAckFrame = .ok (processPacket .sample 0 p) ∧
          Agrees usualProgram synAckFrame p) := by
  have hredirect : usualProgram.tryFarsightXdp 5 synAckFrame = .ok (.redirect 1) := by rfl
  exact ⟨hredirect, by rfl,
    processFrame_of_redirect usualProgram 5 1 synAckFrame hredirect .sample 0⟩

end Responder

end Farsight
