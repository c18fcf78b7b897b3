import Farsight.Lib.Sequence
import Farsight.Responder.Effect

/-!
# What reaches the parser

The bytes handed to the parser should be the beginning of what the server sent, and come from
packets that acknowledge our payload. `process_ack` checks both numbers of a segment. `process_fin`
checks neither, and appends the payload of a `FIN` as it is.

* `Server` — what a host sends: its initial sequence number and its stream. The network may lose,
  repeat and reorder its packets;
* `InOrder` — the invariant of a connection: its data is the beginning of the stream, and the buffer
  holds pieces of it under their own numbers;
* `OrderInv` — the invariant of the tracker, with `OrderInv.packet` and `OrderInv.expiry` for the
  steps;
* `Responder.parsed_inSequence` — in a run in which every `FIN` with data is in sequence, so is
  everything the parser gets;
* `Responder.overtakingFin_parsed` — a `FIN` that overtakes a segment.
-/

namespace Farsight

open Responder (State Event Arrival)

variable {A B : Type}

/-- What a host sends: `isn` is the sequence number of its `SYN+ACK`, and the stream starts right
after it. -/
structure Server where
  isn : BitVec 32
  stream : List UInt8

namespace Server

/-- The payload is a piece of the stream, and `seq` is the number of its first byte. -/
def Places (server : Server) (seq : BitVec 32) (payload : List UInt8) : Prop :=
  ∃ offset, seq = seqAt (server.isn + 1) offset ∧ payload <+: server.stream.drop offset

/-- A packet of the server. Its acknowledgement number is arbitrary. -/
structure Sends (server : Server) (p : Packet) : Prop where
  synAck : p.kind = .synAck → p.hdr.seq = server.isn
  data : p.kind = .ack ∨ p.kind = .fin → server.Places p.hdr.seq p.payload

end Server

/-- The data is made of payloads of packets of the connection that acknowledge `ack`. -/
def MadeOf (history : List Packet) (key : Endpoint) (ack : BitVec 32) (data : List UInt8) : Prop :=
  ∃ packets : List Packet, data = (packets.map Packet.payload).flatten ∧
    ∀ p ∈ packets, p ∈ history ∧ p.key = key ∧ p.hdr.ack = ack

variable {server : Server} {history history' : List Packet} {key : Endpoint} {state : State}
variable {p : Packet} {payload data : List UInt8} {ack : BitVec 32}

theorem MadeOf.mono (h : MadeOf history key ack data) (hsub : history ⊆ history') :
    MadeOf history' key ack data := by
  obtain ⟨packets, hdata, hpackets⟩ := h
  exact ⟨packets, hdata, fun p hp => ⟨hsub (hpackets p hp).1, (hpackets p hp).2⟩⟩

/-- The payload of one more packet of the connection. -/
theorem MadeOf.append (h : MadeOf history key ack data) (hp : p ∈ history) (hkey : p.key = key)
    (hack : p.hdr.ack = ack) : MadeOf history key ack (data ++ p.payload) := by
  obtain ⟨packets, rfl, hpackets⟩ := h
  refine ⟨packets ++ [p], ?_, fun q hq => ?_⟩
  · rw [List.map_append, List.flatten_append, List.map_singleton, List.flatten_singleton]
  · rcases List.mem_append.mp hq with hq | hq
    · exact hpackets q hq
    · obtain rfl := List.mem_singleton.mp hq
      exact ⟨hp, hkey, hack⟩

/-! ### A connection -/

/-- The invariant of a connection. -/
structure InOrder (server : Server) (history : List Packet) (key : Endpoint) (state : State) :
    Prop where
  data : state.data <+: server.stream
  nextExpectedSeq : state.nextExpectedSeq = seqAt (server.isn + 1) state.data.length
  made : MadeOf history key state.nextExpectedAck state.data
  buffer : ∀ seq segment, state.reorderBuffer.lookup seq = some segment →
    segment ≠ [] ∧ server.Places seq segment ∧
    ∃ p ∈ history, p.key = key ∧ p.hdr.ack = state.nextExpectedAck ∧ p.payload = segment

/-- What is known of a connection stays true as the history grows. -/
theorem InOrder.mono (h : InOrder server history key state) (hsub : history ⊆ history') :
    InOrder server history' key state := by
  refine ⟨h.data, h.nextExpectedSeq, h.made.mono hsub, fun seq segment hlookup => ?_⟩
  obtain ⟨hne, hplaces, p, hp, hrest⟩ := h.buffer seq segment hlookup
  exact ⟨hne, hplaces, p, hsub hp, hrest⟩

/-- A piece of the stream whose number is next extends the data. -/
theorem InOrder.data_append (h : InOrder server history key state)
    (hshort : server.stream.length < 2 ^ 32) (hplaces : server.Places state.nextExpectedSeq payload)
    (hpayload : payload ≠ []) : state.data ++ payload <+: server.stream := by
  obtain ⟨offset, hseq, hpiece⟩ := hplaces
  -- both positions are below the range of the sequence numbers, so they agree
  have hoffset : offset < server.stream.length := by
    by_contra hle
    rw [List.drop_of_length_le (by omega)] at hpiece
    exact hpayload (List.prefix_nil.mp hpiece)
  have hlength := h.data.length_le
  obtain rfl : offset = state.data.length :=
    seqAt_inj (hoffset.trans hshort) (by omega) (hseq.symm.trans h.nextExpectedSeq)
  -- the stream is the data and what follows it
  rw [← List.take_append_drop state.data.length server.stream,
    ← List.prefix_iff_eq_take.mp h.data]
  exact (List.prefix_append_right_inj _).mpr hpiece

/-- The segment of a packet is appended in its turn. -/
theorem InOrder.append (h : InOrder server history key state)
    (hshort : server.stream.length < 2 ^ 32)
    (hplaces : server.Places state.nextExpectedSeq p.payload) (hpayload : p.payload ≠ [])
    (hp : p ∈ history) (hkey : p.key = key) (hack : p.hdr.ack = state.nextExpectedAck) :
    InOrder server history key (state.append p.payload) where
  data := h.data_append hshort hplaces hpayload
  nextExpectedSeq := by
    change state.nextExpectedSeq + _ = seqAt _ (state.data ++ p.payload).length
    rw [h.nextExpectedSeq, seqAt_add, List.length_append]
  made := h.made.append hp hkey hack
  buffer := h.buffer

/-- One turn of the stitching loop. -/
theorem InOrder.takeBuffered (h : InOrder server history key state)
    (hshort : server.stream.length < 2 ^ 32)
    (hlookup : state.reorderBuffer.lookup state.nextExpectedSeq = some payload) :
    InOrder server history key (state.takeBuffered payload) := by
  obtain ⟨hne, hplaces, p, hp, hkey, hack, rfl⟩ := h.buffer _ _ hlookup
  -- what is left in the buffer is as it was
  have herase : InOrder server history key { state with
      reorderBuffer := state.reorderBuffer.erase state.nextExpectedSeq } := by
    refine ⟨h.data, h.nextExpectedSeq, h.made, fun seq segment hlookup => h.buffer seq segment ?_⟩
    by_cases hseq : seq = state.nextExpectedSeq
    · subst hseq
      rw [AList.lookup_erase] at hlookup
      cases hlookup
    · rwa [AList.lookup_erase_ne hseq] at hlookup
  exact herase.append hshort hplaces hne hp hkey hack

/-- A segment that is next in sequence, with all that it frees from the buffer, extends the data in
order. -/
theorem InOrder.accept (h : InOrder server history key state)
    (hshort : server.stream.length < 2 ^ 32)
    (hplaces : server.Places state.nextExpectedSeq p.payload) (hpayload : p.payload ≠ [])
    (hp : p ∈ history) (hkey : p.key = key) (hack : p.hdr.ack = state.nextExpectedAck) :
    InOrder server history key (state.accept p.payload) :=
  (State.stitch_rule (fun _ _ hlookup h => h.takeBuffered hshort hlookup) _
    (h.append hshort hplaces hpayload hp hkey hack)).1

/-- A segment out of turn goes into the buffer, or is dropped. -/
theorem InOrder.bufferSegment {env : ResponderEnv A B} (h : InOrder server history key state)
    (hplaces : server.Places p.hdr.seq p.payload) (hp : p ∈ history) (hkey : p.key = key)
    (hack : p.hdr.ack = state.nextExpectedAck) :
    InOrder server history key (state.bufferSegment env p.hdr.seq p.payload) := by
  unfold State.bufferSegment
  dsimp only
  split
  · next hstored =>
    refine ⟨h.data, h.nextExpectedSeq, h.made, fun seq segment hlookup => ?_⟩
    change (state.reorderBuffer.insert p.hdr.seq p.payload).lookup seq = _ at hlookup
    -- the new segment is at the place that its number says; the others are as before
    by_cases hseq : seq = p.hdr.seq
    · subst hseq
      rw [AList.lookup_insert] at hlookup
      cases hlookup
      exact ⟨hstored.2.1, hplaces, p, hp, hkey, hack, rfl⟩
    · rw [AList.lookup_insert_ne hseq] at hlookup
      exact h.buffer seq segment hlookup
  · -- refused: nothing changes
    exact h

/-! ### The tracker -/

/-- Everything the parser got is the beginning of what the server sent, and made of payloads of
acknowledging packets. -/
def ParsedInSequence (servers : Endpoint → Server) (history : List Packet) (m : Tracker B) : Prop :=
  ∀ call ∈ m.parsed, call.data <+: (servers call.key).stream ∧
    MadeOf history call.key call.nextExpectedAck call.data

structure OrderInv (servers : Endpoint → Server) (history : List Packet) (m : Tracker B) :
    Prop where
  connections : ∀ key state, m.connections key = some state →
    InOrder (servers key) history key state
  parsed : ParsedInSequence servers history m

namespace OrderInv

variable {servers : Endpoint → Server} {m m' : Tracker B}

theorem mono (h : OrderInv servers history m) (hsub : history ⊆ history') :
    OrderInv servers history' m where
  connections key state hstate := (h.connections key state hstate).mono hsub
  parsed call hcall := ⟨(h.parsed call hcall).1, (h.parsed call hcall).2.mono hsub⟩

theorem insert (h : OrderInv servers history m) (hstate : InOrder (servers key) history key state) :
    OrderInv servers history (m.insert key state) where
  connections := Tracker.forall_insert h.connections hstate
  parsed := h.parsed

theorem remove (h : OrderInv servers history m) : OrderInv servers history (m.remove key) where
  connections key' state' hstate' :=
    h.connections key' state' (Tracker.connections_of_remove hstate')
  parsed := h.parsed

/-- A call of the parser is recorded. It was given the start of the stream of its host, and packets
of the connection account for it. -/
theorem pushParsed {call : Parsed} (h : OrderInv servers history m)
    (hdata : call.data <+: (servers call.key).stream)
    (hmade : MadeOf history call.key call.nextExpectedAck call.data) :
    OrderInv servers history (m.pushParsed call) where
  connections := h.connections
  parsed call' hcall' := by
    rcases List.mem_append.mp hcall' with hcall' | hcall'
    · exact h.parsed call' hcall'
    · rw [List.mem_singleton.mp hcall']
      exact ⟨hdata, hmade⟩

theorem pushScanling {scanling : Scanling B} (h : OrderInv servers history m) :
    OrderInv servers history (m.pushScanling scanling) :=
  ⟨h.connections, h.parsed⟩

theorem pushExpiry {entry : Expiry} (h : OrderInv servers history m) :
    OrderInv servers history (m.pushExpiry entry) :=
  ⟨h.connections, h.parsed⟩

/-- An expiry pass only removes connections. -/
theorem expiry {now : ℕ} {queue : List Expiry} {result : Option Unit}
    (h : OrderInv servers history m) (hloop : Tracker.ExpiryLoop now queue m result m') :
    OrderInv servers history m' where
  connections key state hstate := h.connections key state (hloop.connections_of_some hstate)
  parsed := by
    intro call hcall
    rw [hloop.frame.2] at hcall
    exact h.parsed call hcall

end OrderInv

/-- The check that `process_ack` makes and `process_fin` does not: a `FIN` with data for a
connection is next in sequence and acknowledges our payload. -/
def FinInTurn (m : Tracker B) (p : Packet) : Prop :=
  p.kind = .fin → p.payload ≠ [] → ∀ state ∈ m.connections p.key,
    p.hdr.seq = state.nextExpectedSeq ∧ p.hdr.ack = state.nextExpectedAck

instance (m : Tracker B) (p : Packet) : Decidable (FinInTurn m p) :=
  inferInstanceAs (Decidable (_ → _ → ∀ state ∈ m.connections p.key, _))

/-- A packet of the server, and its `FIN` in turn. -/
theorem OrderInv.packet {servers : Endpoint → Server} {m m' : Tracker B}
    {env : ResponderEnv A B} {now : ℕ} (h : OrderInv servers history m)
    (hstep : m.PacketStep env now p m') (hp : p ∈ history)
    (hshort : (servers p.key).stream.length < 2 ^ 32) (hsends : (servers p.key).Sends p)
    (hfin : FinInTurn m p) : OrderInv servers history m' := by
  -- the connection after a segment that is next in sequence
  have haccept (state : State) (hin : m.InSequence p state) :
      InOrder (servers p.key) history p.key (state.accept p.payload) := by
    have horder := h.connections p.key state hin.connection
    exact horder.accept hshort (hin.seq ▸ hsends.data (.inl hin.kind)) hin.payload hp rfl hin.ack
  -- the data after a `FIN`
  have hfinData (state : State) (hkind : p.kind = .fin)
      (hstate : m.connections p.key = some state) (hpayload : p.payload ≠ []) :
      InOrder (servers p.key) history p.key (state.append p.payload) := by
    have horder := h.connections p.key state hstate
    obtain ⟨hseq, hack⟩ := hfin hkind hpayload state hstate
    exact horder.append hshort (hseq ▸ hsends.data (.inr hkind)) hpayload hp rfl hack
  -- the other steps start a connection, keep a segment for later or remove
  cases hstep with
  | idle => exact h
  | close hkind => exact h.remove
  | create payload hkind hack hbuild =>
    have hfresh : InOrder (servers p.key) history p.key (.fresh env now p payload) := by
      refine ⟨List.nil_prefix, ?_, ⟨[], rfl, fun q hq => absurd hq List.not_mem_nil⟩, ?_⟩
      · -- the stream starts after the number of the `SYN-ACK`
        change p.hdr.seq + 1 = seqAt _ 0
        rw [hsends.synAck hkind, seqAt_zero]
      · intro seq segment hlookup
        cases (AList.lookup_empty (β := fun _ => List UInt8) seq).symm.trans hlookup
    exact h.pushExpiry.insert hfresh
  | reorder state hkind hstate hack hseq =>
    have horder := h.connections _ state hstate
    exact h.insert (horder.bufferSegment (hsends.data (.inl hkind)) hp rfl hack)
  | hit state banner hin hparse =>
    have hdata := haccept state hin
    exact (h.remove.pushParsed hdata.data hdata.made).pushScanling
  | drop state hin hparse =>
    have hdata := haccept state hin
    exact h.remove.pushParsed hdata.data hdata.made
  | keep state hin hparse =>
    have hdata := haccept state hin
    exact (h.insert hdata).pushParsed hdata.data hdata.made
  | extend state hin hparse =>
    have hdata := haccept state hin
    -- the later deadline has nothing to do with the data
    have hlater : InOrder (servers p.key) history p.key { state.accept p.payload with
        expiresAt := (state.accept p.payload).expiresAt + env.timeout } :=
      ⟨hdata.data, hdata.nextExpectedSeq, hdata.made, hdata.buffer⟩
    exact ((h.insert hlater).pushParsed hdata.data hdata.made).pushExpiry
  | finHit state banner hkind hstate hpayload hparse =>
    have hdata := hfinData state hkind hstate hpayload
    exact (h.remove.pushParsed hdata.data hdata.made).pushScanling
  | finDrop state hkind hstate hpayload =>
    have hdata := hfinData state hkind hstate hpayload
    exact h.remove.pushParsed hdata.data hdata.made

/-! ### Runs -/

namespace Responder

/-- The packets of a run. -/
def packets (events : List Event) : List Packet :=
  events.filterMap fun
    | .packet arrival => some arrival.packet
    | .expiry _ _ => none

theorem mem_packets {events : List Event} {p : Packet} :
    p ∈ packets events ↔ ∃ arrival, Event.packet arrival ∈ events ∧ arrival.packet = p := by
  refine List.mem_filterMap.trans ⟨?_, ?_⟩
  · rintro ⟨_ | _, hmem, hp⟩
    · exact ⟨_, hmem, Option.some_inj.mp hp⟩
    · cases hp
  · rintro ⟨arrival, hmem, rfl⟩
    exact ⟨.packet arrival, hmem, rfl⟩

theorem packets_append_left (past : List Event) (event : Event) :
    packets past ⊆ packets (past ++ [event]) := by
  simp only [packets, List.filterMap_append]
  exact List.subset_append_left _ _

/-- The condition on a step: a `FIN` with data is in turn. -/
def FinStep (w : Responder A B) : Event → Prop
  | .packet arrival => FinInTurn w.toTracker arrival.packet
  | .expiry _ _ => True

instance (w : Responder A B) : (event : Event) → Decidable (FinStep w event)
  | .packet arrival => inferInstanceAs (Decidable (FinInTurn w.toTracker arrival.packet))
  | .expiry _ _ => inferInstanceAs (Decidable True)

/-- The packets of the event are those of servers whose streams are shorter than the range of the
sequence numbers. -/
def FromServers (servers : Endpoint → Server) : Event → Prop
  | .packet arrival => (servers arrival.packet.key).Sends arrival.packet ∧
      (servers arrival.packet.key).stream.length < 2 ^ 32
  | .expiry _ _ => True

/-- One event. A packet was sent by the host that it comes from, so its data is where its number
says; an expiry only removes. -/
theorem orderInv_step {env : ResponderEnv A B} {servers : Endpoint → Server} {past : List Event}
    {w : Responder A B} {event : Event} (hfin : FinStep w event) (hfrom : FromServers servers event)
    (h : OrderInv servers (packets past) w.toTracker) :
    OrderInv servers (packets (past ++ [event])) (step env w event).toTracker := by
  cases event with
  | packet arrival =>
    have hmem : arrival.packet ∈ packets (past ++ [.packet arrival]) :=
      mem_packets.mpr ⟨arrival, List.mem_append_right _ (List.mem_singleton_self _), rfl⟩
    exact (h.mono (packets_append_left past _)).packet (receive_spec env arrival w).1 hmem hfrom.2
      hfrom.1 hfin
  | expiry now wakes =>
    exact (h.mono (packets_append_left past _)).expiry (expire_spec env now wakes w).1

theorem orderInv_new (servers : Endpoint → Server) (adapter : A) :
    OrderInv servers (packets []) (new adapter : Responder A B).toTracker where
  connections _ _ hstate := by cases hstate
  parsed _ hcall := by cases hcall

/-- **Only in-sequence, acknowledged bytes reach the parser**, in a run in which every `FIN` with
data that meets a connection is in turn, with servers that send fewer than `2 ^ 32` bytes. -/
theorem parsed_inSequence (env : ResponderEnv A B) (adapter : A) (servers : Endpoint → Server)
    (events : List Event) (hfrom : ∀ event ∈ events, FromServers servers event)
    (hfin : Run.Along (step env) FinStep (new adapter) events) :
    ParsedInSequence servers (packets events) (run env (new adapter) events).toTracker := by
  -- the history of the invariant is the packets of the past
  have hinv := (hfin.and_forall hfrom).rule
    (I := fun past w => OrderInv servers (packets past) w.toTracker)
    (fun _ _ _ hmeets h => orderInv_step hmeets.1 hmeets.2 h) (orderInv_new servers adapter)
  exact hinv.parsed

/-- Two bytes, after a `SYN+ACK` with the sequence number `0xfffffffe`. -/
def twoBytes (_ : Endpoint) : Server :=
  ⟨0xfffffffe, [1, 2]⟩

/-- A run in which the `FIN` carries the second byte and comes last. -/
def finLast : List Event :=
  [.sample 1 0 (.syn ||| .ack) (-1) 1 [], .sample 1 1 .ack 0 2 [1],
    .sample 1 2 (.fin ||| .ack) 1 2 [2]]

/-- The host sends two bytes, the second one with its `FIN`. -/
theorem finLast_fromServers : ∀ event ∈ finLast, FromServers twoBytes event := by
  intro event hevent
  simp only [finLast, List.mem_cons, List.not_mem_nil, or_false] at hevent
  rcases hevent with rfl | rfl | rfl
  · exact ⟨⟨by decide, fun h => absurd h (by decide)⟩, by decide⟩
  · exact ⟨⟨by decide, fun _ => ⟨0, by decide, by decide⟩⟩, by decide⟩
  · exact ⟨⟨by decide, fun _ => ⟨1, by decide, by decide⟩⟩, by decide⟩

/-- The parser sees the first byte, and then both. -/
theorem parsed_inSequence_finLast :
    (run .sample (new ()) finLast).parsed.map Parsed.data = [[1], [1, 2]] ∧
    ParsedInSequence twoBytes (packets finLast) (run .sample (new ()) finLast).toTracker :=
  ⟨by decide, parsed_inSequence .sample () twoBytes finLast finLast_fromServers
    ⟨by decide, by decide, by decide, trivial⟩⟩

/-- The `FIN` overtakes the segment before it. -/
def overtakingFin : List Event :=
  [.sample 1 0 (.syn ||| .ack) (-1) 1 [], .sample 1 1 (.fin ||| .ack) 1 2 [2]]

/-- A `FIN` that overtakes a segment: the parser gets the second byte alone. -/
theorem overtakingFin_parsed :
    (∀ event ∈ overtakingFin, FromServers twoBytes event) ∧
    ¬ ParsedInSequence twoBytes (packets overtakingFin)
      (run .sample (new ()) overtakingFin).toTracker := by
  constructor
  · intro event hevent
    simp only [overtakingFin, List.mem_cons, List.not_mem_nil, or_false] at hevent
    rcases hevent with rfl | rfl
    · exact ⟨⟨by decide, fun h => absurd h (by decide)⟩, by decide⟩
    · exact ⟨⟨by decide, fun _ => ⟨1, by decide, by decide⟩⟩, by decide⟩
  · intro h
    have hparsed : (run .sample (new ()) overtakingFin).parsed =
        [⟨(1, 25565), cookie 1 25565 0 + 2, [2]⟩] := by decide
    have hdata := (h _ (hparsed ▸ List.mem_singleton_self _)).1
    exact absurd hdata (by decide)

end Responder

end Farsight
