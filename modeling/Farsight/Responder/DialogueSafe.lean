import Farsight.Responder.Dialogue
import Farsight.Responder.Reassembly

/-!
# The scanner and a host agree

The responder finds its connections by the address and the port of the host. When all probes that a
host was sent come from one port of ours, this is one connection of the host, and the two ends agree
about it, whatever the network does. Which ports the strategy would have chosen in other runs does
not matter: the condition is about the probes of the run at hand (`OnePort`), so that it holds for
every host that was probed once.

* `Host.End.Grows` — an end only ever reads more, writes more, and closes;
* `FromHost` — what every packet of the host is like, by what its end has read and written;
* `Conforms` — a packet of the scanner that is in order for the end: its number lies in our payload,
  and it acknowledges nothing that the host has not sent;
* `Dialogue.SafeInv` — the invariant, with `Dialogue.safeInv_step` for the moves;
* `Dialogue.sent_conforms` — every packet that the scanner sends to the host conforms;
* `Dialogue.scanlings_sound` — a result is the verdict of the parser on what the host answers to the
  whole payload, and the host has read all of it.
-/

namespace Farsight

open Responder (State Event Arrival)

variable {A B : Type}

/-! ### The ends of the host -/

/-- What the end sends, as the data of a connection sees it. -/
def Host.server (host : Host) (port : BitVec 16) (e : Host.End) : Server :=
  ⟨host.isn port, host.stream e⟩

/-- The end has gone on. -/
structure Host.End.Grows (host : Host) (e e' : Host.End) : Prop where
  received : e.received <+: e'.received
  stream : host.stream e <+: host.stream e'
  closed : e.closed → e'.closed

namespace Host.End.Grows

variable {host : Host} {e e' : Host.End}

theorem refl (host : Host) (e : Host.End) : e.Grows host e :=
  ⟨List.prefix_rfl, List.prefix_rfl, fun h => h⟩

/-- A closed end stays closed, so the number of the `FIN` stays used. -/
theorem toNat_closed_le (h : e.Grows host e') : e.closed.toNat ≤ e'.closed.toNat :=
  Bool.toNat_le_toNat (fun hclosed => h.closed hclosed)

/-- Receiving adds to what was received, or starts the connection, and never takes back. -/
theorem receive (host : Host) (e : Host.End) (tx : TxPacket) (window : ℕ) :
    e.Grows host (e.receive tx window) := by
  unfold End.receive
  split
  · split
    · exact ⟨List.prefix_rfl, List.prefix_rfl, fun h => h⟩
    · exact .refl host e
  · dsimp only
    split
    · exact ⟨List.prefix_append _ _, (host.app_mono (List.prefix_append _ _)).take _, fun h => h⟩
    · exact .refl host e

theorem write (host : Host) (e : Host.End) (n : ℕ) : e.Grows host (host.write e n) := by
  unfold Host.write
  split
  · exact .refl host e
  · exact ⟨List.prefix_rfl, List.take_prefix_take_left (le_max_left _ _), fun h => h⟩

theorem close (host : Host) (e : Host.End) : e.Grows host { e with closed := true } :=
  ⟨List.prefix_rfl, List.prefix_rfl, fun _ => rfl⟩

end Host.End.Grows

/-! ### The packets of the host -/

theorem Packet.kind_congr {p q : Packet} (h : p.hdr.flags = q.hdr.flags) : p.kind = q.kind := by
  unfold Packet.kind
  rw [h]

/-- Which handler a packet of the host goes to. -/
theorem Host.kind_packet (host : Host) (port : BitVec 16) (seq ack : BitVec 32)
    (payload : List UInt8) :
    (host.packet port (.syn ||| .ack) seq ack payload).kind = .synAck ∧
    (∀ push : Bool, (host.packet port (if push then .psh ||| .ack else .ack) seq ack payload).kind =
      .ack) ∧
    (host.packet port (.fin ||| .ack) seq ack payload).kind = .fin ∧
    (host.packet port .rst seq ack payload).kind = .rst := by
  -- only the flags matter
  have hsample (flags : TcpFlags) : (host.packet port flags seq ack payload).kind =
      (Packet.sample 0 flags 0 0 []).kind := Packet.kind_congr rfl
  simp only [hsample]
  decide

section FromHost

variable (env : ResponderEnv A B) (host : Host) (port : BitVec 16)

/-- A packet of the end: its numbers lie in what the end has read and written. The `FIN` takes the
number after the stream. -/
structure FromHost (e : Host.End) (p : Packet) : Prop where
  key : p.key = host.key
  destPort : p.kind ≠ .rst → p.hdr.destPort = port
  synAck : p.kind = .synAck →
    p.hdr.seq = host.isn port ∧ p.hdr.ack = cookie host.key.1 host.key.2 env.seed + 1
  ack : p.kind = .ack ∨ p.kind = .fin → ∃ n ≤ e.received.length,
    p.hdr.ack = seqAt (cookie host.key.1 host.key.2 env.seed + 1) n
  data : p.kind = .ack ∨ p.kind = .fin → ∃ offset, p.hdr.seq = seqAt (host.isn port + 1) offset ∧
    p.payload <+: (host.stream e).drop offset ∧
    offset + p.payload.length + (if p.kind = .fin then 1 else 0) ≤
      (host.stream e).length + e.closed.toNat

variable {env host port} {e e' : Host.End} {p : Packet}

/-- A packet on the wire stays one of the host: what it says about the stream and about what was
received was true when it was sent, and both only grow. -/
theorem FromHost.grows (h : FromHost env host port e p) (hgrows : e.Grows host e') :
    FromHost env host port e' p where
  key := h.key
  destPort := h.destPort
  synAck := h.synAck
  ack hkind := by
    obtain ⟨n, hn, hack⟩ := h.ack hkind
    exact ⟨n, hn.trans hgrows.received.length_le, hack⟩
  data hkind := by
    -- a segment of the stream is one of any longer stream
    obtain ⟨offset, hseq, hpayload, hle⟩ := h.data hkind
    have hstream := hgrows.stream.length_le
    have hclosed := hgrows.toNat_closed_le
    exact ⟨offset, hseq, hpayload.trans (hgrows.stream.drop offset), by omega⟩

/-- In the terms of the one-sided model of a server, which the results about reassembly are stated
in. -/
theorem FromHost.sends (h : FromHost env host port e p) : (host.server port e).Sends p where
  synAck hkind := (h.synAck hkind).1
  data hkind := by
    obtain ⟨offset, hseq, hpayload, _⟩ := h.data hkind
    exact ⟨offset, hseq, hpayload⟩

theorem fromHost_rst (hkey : p.key = host.key) (hkind : p.kind = .rst) :
    FromHost env host port e p := by
  have hother : ¬ (p.kind = .ack ∨ p.kind = .fin) := by
    rw [hkind]
    decide
  refine ⟨hkey, fun h => absurd hkind h, fun h => ?_, fun h => absurd h hother,
    fun h => absurd h hother⟩
  cases hkind.symm.trans h

/-- An end that has heard nothing sends a `RST` at most. -/
theorem Host.emit_of_none (hirs : e.irs = none) {emission : Host.Emission}
    (h : host.emit port e emission = some p) : p.key = host.key ∧ p.kind = .rst := by
  cases emission with
  | rst seq ack =>
    rw [← Option.some_inj.mp h]
    exact ⟨rfl, (host.kind_packet port seq ack []).2.2.2⟩
  | synAck | segment | fin =>
    simp only [Host.emit, hirs, Option.map_none] at h
    cases h

/-- What an end that reads our payload sends. -/
theorem fromHost_of_emit (hreads : e.Reads env host.key) {emission : Host.Emission}
    (h : host.emit port e emission = some p) : FromHost env host port e p := by
  cases emission with
  | synAck =>
    -- the host answers the number of the `SYN` it has received, which is the cookie
    obtain ⟨irs, hirs, rfl⟩ := Option.map_eq_some_iff.mp h
    have hkind := (host.kind_packet port (host.isn port) (irs + 1) []).1
    refine ⟨rfl, fun _ => rfl, fun _ => ⟨rfl, ?_⟩, ?_, ?_⟩
    · rw [← hreads.irs irs hirs]
      rfl
    · rw [hkind]
      exact fun h => absurd h (by decide)
    · rw [hkind]
      exact fun h => absurd h (by decide)
  | segment offset length push =>
    simp only [Host.emit] at h
    split at h
    · cases h
    · next irs hirs =>
      split at h
      · next hoffset =>
        have hkind := (host.kind_packet port (seqAt (host.isn port + 1) offset)
          (seqAt (irs + 1) e.received.length)
          (((host.stream e).drop offset).take length)).2.1 push
        rw [← Option.some_inj.mp h]
        refine ⟨rfl, fun _ => rfl, fun h => ?_, fun _ => ⟨e.received.length, le_rfl, ?_⟩,
          fun _ => ⟨offset, rfl, List.take_prefix _ _, ?_⟩⟩
        · cases hkind.symm.trans h
        · rw [← hreads.irs irs hirs]
          rfl
        · -- at most what is left of the stream from the offset on
          have hlength : (((host.stream e).drop offset).take length).length ≤
              (host.stream e).length - offset := by
            rw [← List.length_drop]
            exact (List.take_prefix _ _).length_le
          rw [hkind, if_neg (show ¬ PacketKind.ack = .fin by decide)]
          change offset + (((host.stream e).drop offset).take length).length + 0 ≤ _
          omega
      · cases h
  | fin offset =>
    simp only [Host.emit] at h
    split at h
    · cases h
    · next irs hirs =>
      split at h
      · next hoffset =>
        have hkind := (host.kind_packet port (seqAt (host.isn port + 1) offset)
          (seqAt (irs + 1) e.received.length) ((host.stream e).drop offset)).2.2.1
        rw [← Option.some_inj.mp h]
        refine ⟨rfl, fun _ => rfl, fun h => ?_, fun _ => ⟨e.received.length, le_rfl, ?_⟩,
          fun _ => ⟨offset, rfl, List.prefix_rfl, ?_⟩⟩
        · cases hkind.symm.trans h
        · rw [← hreads.irs irs hirs]
          rfl
        · -- the `FIN` has a number of its own, one past the stream
          have hclosed : e.closed.toNat = 1 := by rw [hoffset.1, Bool.toNat_true]
          rw [hkind, if_pos rfl, hclosed]
          change offset + ((host.stream e).drop offset).length + 1 ≤ _
          rw [List.length_drop]
          omega
      · cases h
  | rst seq ack =>
    -- a reset may have any numbers
    rw [← Option.some_inj.mp h]
    exact fromHost_rst rfl (host.kind_packet port seq ack []).2.2.2

end FromHost

/-! ### Connections -/

section Connection

variable {server server' : Server} {history : List Packet} {key : Endpoint} {state : State}

/-- The stream may grow. -/
theorem InOrder.grow (h : InOrder server history key state) (hisn : server'.isn = server.isn)
    (hstream : server.stream <+: server'.stream) : InOrder server' history key state where
  data := h.data.trans hstream
  nextExpectedSeq := hisn ▸ h.nextExpectedSeq
  made := h.made
  buffer seq segment hlookup := by
    obtain ⟨hne, ⟨offset, hseq, hpiece⟩, hrest⟩ := h.buffer seq segment hlookup
    exact ⟨hne, ⟨offset, hisn ▸ hseq, hpiece.trans (hstream.drop offset)⟩, hrest⟩

/-- A packet of the server keeps its connection in order. A `FIN` out of turn does not matter here,
as the connection is gone after it. -/
theorem Tracker.PacketStep.inOrder {env : ResponderEnv A B} {now : ℕ} {p : Packet}
    {m m' : Tracker B} (hstep : m.PacketStep env now p m') (hp : p ∈ history)
    (hshort : server.stream.length < 2 ^ 32) (hsends : server.Sends p)
    (h : ∀ state, m.connections p.key = some state → InOrder server history p.key state)
    {state' : State} (hstate' : m'.connections p.key = some state') :
    InOrder server history p.key state' := by
  -- a segment in sequence is taken in, whatever the parser says about it
  have haccept (state : State) (hin : m.InSequence p state) :
      InOrder server history p.key (state.accept p.payload) :=
    (h state hin.connection).accept hshort (hin.seq ▸ hsends.data (.inl hin.kind)) hin.payload hp
      rfl hin.ack
  cases hstep with
  | idle => exact h state' hstate'
  | create payload hkind hack hbuild =>
    rw [connections_insert, Function.update_self] at hstate'
    cases hstate'
    -- a fresh connection expects the first byte of the stream
    refine ⟨List.nil_prefix, ?_, ⟨[], rfl, fun q hq => absurd hq List.not_mem_nil⟩, ?_⟩
    · change p.hdr.seq + 1 = seqAt _ 0
      rw [hsends.synAck hkind, seqAt_zero]
    · intro seq segment hlookup
      cases (AList.lookup_empty (β := fun _ => List UInt8) seq).symm.trans hlookup
  | reorder state hkind hstate hack hseq =>
    rw [connections_insert, Function.update_self] at hstate'
    cases hstate'
    exact (h state hstate).bufferSegment (hsends.data (.inl hkind)) hp rfl hack
  | keep state hin hparse =>
    rw [connections_pushParsed, connections_insert, Function.update_self] at hstate'
    cases hstate'
    exact haccept state hin
  | extend state hin hparse =>
    rw [connections_pushExpiry, connections_pushParsed, connections_insert,
      Function.update_self] at hstate'
    cases hstate'
    have hdata := haccept state hin
    exact ⟨hdata.data, hdata.nextExpectedSeq, hdata.made, hdata.buffer⟩
  | close | hit | drop | finHit | finDrop =>
    -- the connection is removed
    exact absurd rfl (ne_of_remove (m := m) hstate')

end Connection

/-! ### The invariant -/

/-- A packet of the scanner that is in order for the end of the host: it comes from our port, its
number lies in our payload, its data is the payload, and it acknowledges at most what the host has
sent, the `SYN` and the `FIN` included. -/
structure Conforms (env : ResponderEnv A B) (host : Host) (port : BitVec 16) (e : Host.End)
    (tx : TxPacket) : Prop where
  sourcePort : tx.sourcePort = port
  seq : ∃ n ≤ 1 + (env.request host.key).length,
    tx.seq = seqAt (cookie host.key.1 host.key.2 env.seed) n
  body : tx.body ≠ [] → tx.body = env.request host.key ∧
    tx.seq = cookie host.key.1 host.key.2 env.seed + 1
  ack : tx.flags.contains .syn ∨
    ∃ n ≤ 1 + (host.stream e).length + e.closed.toNat, tx.ack = seqAt (host.isn port) n

namespace Dialogue

/-- The setting of a dialogue that has come to `d`: every probe that was sent to the host, by a
saturator or by the responder, comes from one port of ours, and neither side says more than there
are sequence numbers. -/
structure OnePort (env : ResponderEnv A B) (host : Host) (port : BitVec 16) (d : Dialogue A B) :
    Prop where
  syns : ∀ tx ∈ d.sent, (tx.ip, tx.port) = host.key → tx.flags.contains .syn →
    tx.sourcePort = port
  request : (env.request host.key).length < 2 ^ 32
  answer : (host.app (env.request host.key)).length < 2 ^ 32

/-- What was sent stays sent. So the condition that all `SYN`s have one source port, which is about
the end of a run, holds of every state before. -/
theorem sent_subset_step (env : ResponderEnv A B) (host : Host) (d : Dialogue A B) (move : Move) :
    d.sent ⊆ (step env host d move).sent := by
  -- the responder appends to what it has sent
  have hresponder (event : Event) :
      d.sent ⊆ (d.withResponder (Responder.step env d.responder event)).sent := by
    intro tx htx
    rcases List.mem_append.mp htx with htx | htx
    · exact List.mem_append_left _ htx
    · exact List.mem_append_right _ (Responder.sent_subset_step env d.responder event htx)
  cases move with
  | probe port =>
    intro tx htx
    rcases List.mem_append.mp htx with htx | htx
    · exact List.mem_append_left _ (List.mem_append_left _ htx)
    · exact List.mem_append_right _ htx
  | toHost i window =>
    simp only [step]
    split
    · exact List.Subset.refl _
    · split <;> exact List.Subset.refl _
  | write | close => exact List.Subset.refl _
  | emit port emission =>
    simp only [step]
    split <;> exact List.Subset.refl _
  | toScanner i now wakes =>
    simp only [step]
    split
    · exact List.Subset.refl _
    · exact hresponder _
  | stray arrival =>
    simp only [step]
    split
    · exact List.Subset.refl _
    · exact hresponder _
  | expiry now wakes => exact hresponder _

/-- With one port after a step there was one port before it. -/
theorem OnePort.of_step {env : ResponderEnv A B} {host : Host} {port : BitVec 16}
    {d : Dialogue A B} {move : Move} (h : OnePort env host port (step env host d move)) :
    OnePort env host port d :=
  ⟨fun tx htx => h.syns tx (sent_subset_step env host d move htx), h.request, h.answer⟩

/-- The invariant of a dialogue through one port. -/
structure SafeInv (env : ResponderEnv A B) (host : Host) (port : BitVec 16) (d : Dialogue A B) :
    Prop where
  read : ReadInv env host d
  /-- The other ends of the host have heard nothing. -/
  others : ∀ port', port' ≠ port → (d.ends port').irs = none
  wire : ∀ p ∈ d.wire, FromHost env host port (d.ends port) p
  connection : ∀ state, d.responder.connections host.key = some state →
    InOrder (host.server port (d.ends port)) d.wire host.key state ∧
    state.nextExpectedAck = seqAt (cookie host.key.1 host.key.2 env.seed + 1)
      (env.request host.key).length
  sent : ∀ tx ∈ d.sent, (tx.ip, tx.port) = host.key → Conforms env host port (d.ends port) tx

end Dialogue

theorem seqAt_start_succ (start : BitVec 32) (n : ℕ) :
    seqAt (start + 1) n = seqAt start (1 + n) := by
  rw [← seqAt_add]
  rfl

section Conforms

variable {env : ResponderEnv A B} {host : Host} {port : BitVec 16} {e e' : Host.End} {tx : TxPacket}

/-- A packet of ours stays within what the host has sent and asked for, since both grow. -/
theorem Conforms.grows (h : Conforms env host port e tx) (hgrows : e.Grows host e') :
    Conforms env host port e' tx where
  sourcePort := h.sourcePort
  seq := h.seq
  body := h.body
  ack := by
    refine h.ack.imp_right fun ⟨n, hn, hack⟩ => ⟨n, ?_, hack⟩
    have hstream := hgrows.stream.length_le
    have hclosed := hgrows.toNat_closed_le
    omega

/-- A probe acknowledges nothing, and its number is the cookie. -/
theorem conforms_probe (template : PacketTemplate)
    (hkey : (template.ip, template.destinationPort) = host.key)
    (hport : template.sourcePort = port) :
    Conforms env host port e (.probe template env.seed) where
  sourcePort := hport
  seq := by
    refine ⟨0, Nat.zero_le _, ?_⟩
    rw [seqAt_zero, ← hkey]
    rfl
  body h := absurd rfl h
  ack := .inl (by decide : TcpFlags.contains .syn .syn)

/-- The same of the probes that the strategy asks for; their source port is known from the run. -/
theorem conforms_of_isProbe (hsyn : tx.flags.contains .syn → tx.sourcePort = port)
    (h : Responder.IsProbe env tx) (hkey : (tx.ip, tx.port) = host.key) :
    Conforms env host port e tx := by
  obtain ⟨_, _, _, _, template, _, rfl⟩ := h
  exact conforms_probe template hkey (hsyn (by decide : TcpFlags.contains .syn .syn))

/-- An answer without data to a packet of the host. -/
theorem conforms_answer {p : Packet} {flags : TcpFlags} {seq ack : BitVec 32}
    (hp : FromHost env host port e p) (hkind : p.kind ≠ .rst)
    (hseq : ∃ n ≤ (env.request host.key).length,
      seq = seqAt (cookie host.key.1 host.key.2 env.seed + 1) n)
    (hack : ∃ n ≤ 1 + (host.stream e).length + e.closed.toNat, ack = seqAt (host.isn port) n) :
    Conforms env host port e (p.answer flags seq ack) where
  sourcePort := hp.destPort hkind
  seq := by
    obtain ⟨n, hn, rfl⟩ := hseq
    exact ⟨1 + n, Nat.add_le_add_left hn 1, seqAt_start_succ _ n⟩
  body h := absurd rfl h
  ack := .inr hack

/-- The numbers of a connection that is in order. -/
theorem exists_ack_of_inOrder {history : List Packet} {state : State}
    (h : InOrder (host.server port e) history host.key state) :
    ∃ n ≤ 1 + (host.stream e).length + e.closed.toNat,
      state.nextExpectedSeq = seqAt (host.isn port) n := by
  have hlength := h.data.length_le
  refine ⟨1 + state.data.length, ?_, ?_⟩
  · change state.data.length ≤ (host.stream e).length at hlength
    omega
  · rw [h.nextExpectedSeq]
    exact seqAt_start_succ _ _

end Conforms

namespace Dialogue

variable {env : ResponderEnv A B} {host : Host} {port : BitVec 16} {d : Dialogue A B}

/-- The host writes the beginning of its answer to our payload. -/
theorem SafeInv.stream_begins (h : SafeInv env host port d) :
    host.stream (d.ends port) <+: host.app (env.request host.key) :=
  (List.take_prefix _ _).trans (host.app_mono (h.read.ends port).received)

/-- Less than `2 ^ 32` bytes: no two positions of the stream have the same number. -/
theorem SafeInv.stream_short (h : SafeInv env host port d)
    (hanswer : (host.app (env.request host.key)).length < 2 ^ 32) :
    (host.stream (d.ends port)).length < 2 ^ 32 :=
  h.stream_begins.length_le.trans_lt hanswer

/-- The answers to a packet of the host conform, if the probes come from our port. -/
theorem SafeInv.conforms_of_reply (h : SafeInv env host port d)
    (hshort : (host.app (env.request host.key)).length < 2 ^ 32)
    {p : Packet} (hp : p ∈ d.wire) {tx : TxPacket}
    (hreply : Responder.Reply env d.responder.toTracker p tx)
    (hsyn : tx.flags.contains .syn → tx.sourcePort = port)
    (hkey : (tx.ip, tx.port) = host.key) : Conforms env host port (d.ends port) tx := by
  have hfrom := h.wire p hp
  have hreceived := (h.read.ends port).received.length_le
  -- the acknowledgement number of a segment of the host
  have hseq (hkind : p.kind = .ack ∨ p.kind = .fin) : ∃ n ≤ (env.request host.key).length,
      p.hdr.ack = seqAt (cookie host.key.1 host.key.2 env.seed + 1) n := by
    obtain ⟨n, hn, hack⟩ := hfrom.ack hkind
    exact ⟨n, hn.trans hreceived, hack⟩
  -- the connection, and what it expects
  have hconnection (state : State) (hstate : d.responder.connections p.key = some state) :=
    h.connection state (hfrom.key ▸ hstate)
  cases hreply with
  | probe hprobe => exact conforms_of_isProbe hsyn hprobe hkey
  -- the payload acknowledges the `SYN` of the host
  | request payload hkind hack hbuild =>
    obtain ⟨hseqIsn, hackCookie⟩ := hfrom.synAck hkind
    have hrequest : env.request host.key = payload := by
      rw [ResponderEnv.request, ← hfrom.key]
      exact congrArg (·.getD []) hbuild
    refine ⟨hfrom.destPort (by rw [hkind]; decide), ⟨1, Nat.le_add_right _ _, hackCookie⟩,
      fun _ => ⟨hrequest.symm, hackCookie⟩, .inr ⟨1, by omega, ?_⟩⟩
    change p.hdr.seq + 1 = _
    rw [hseqIsn]
    rfl
  -- no payload: the reset repeats the numbers of the packet
  | refuse hkind hack =>
    obtain ⟨hseqIsn, hackCookie⟩ := hfrom.synAck hkind
    refine conforms_answer hfrom (by rw [hkind]; decide) ⟨0, Nat.zero_le _, ?_⟩
      ⟨0, Nat.zero_le _, ?_⟩
    · rw [seqAt_zero, hackCookie]
    · rw [seqAt_zero, hseqIsn]
  -- without a connection the segment itself is acknowledged
  | stray hkind hnone =>
    obtain ⟨offset, hoffset, _, hle⟩ := hfrom.data (.inl hkind)
    refine conforms_answer hfrom (by rw [hkind]; decide) (hseq (.inl hkind))
      ⟨1 + (offset + p.payload.length), by omega, ?_⟩
    rw [hoffset, seqAt_add, seqAt_start_succ]
  -- out of sequence: what is expected is acknowledged again
  | duplicate state hkind hstate =>
    obtain ⟨hinOrder, hack⟩ := hconnection state hstate
    exact conforms_answer hfrom (by rw [hkind]; decide) ⟨_, le_rfl, hack⟩
      (exists_ack_of_inOrder hinOrder)
  -- in sequence: all that is now contiguous is acknowledged
  | data state flags hin hflags =>
    obtain ⟨hinOrder, hack⟩ := hconnection state hin.connection
    have haccept := hinOrder.accept (h.stream_short hshort)
      (hin.seq ▸ hfrom.sends.data (.inl hin.kind)) hin.payload hp hfrom.key hin.ack
    refine conforms_answer hfrom (by rw [hin.kind]; decide) ⟨_, le_rfl, ?_⟩
      (exists_ack_of_inOrder haccept)
    rw [State.accept_nextExpectedAck, hack]
  -- the `FIN` counts as one byte, which the host has used since it is closed
  | fin hkind =>
    obtain ⟨offset, hoffset, _, hle⟩ := hfrom.data (.inr hkind)
    rw [if_pos hkind] at hle
    refine conforms_answer hfrom (by rw [hkind]; decide) (hseq (.inr hkind))
      ⟨1 + (offset + 1 + p.payload.length), by omega, ?_⟩
    rw [hoffset, ← seqAt_start_succ, ← seqAt_add, ← seqAt_add]
    rfl

/-! ### The moves -/

/-- A move of the host. -/
theorem SafeInv.withEnd (h : SafeInv env host port d) {port' : BitVec 16} {e : Host.End}
    (hread : ReadInv env host (d.withEnd port' e)) (hgrows : (d.ends port').Grows host e)
    (hirs : port' ≠ port → e.irs = none) : SafeInv env host port (d.withEnd port' e) := by
  -- the end at the port in question is this one, or has not changed
  have hgrows' : (d.ends port).Grows host ((d.withEnd port' e).ends port) := by
    change (d.ends port).Grows host (Function.update d.ends port' e port)
    by_cases hport : port = port'
    · subst hport
      rwa [Function.update_self]
    · rw [Function.update_of_ne hport]
      exact .refl host _
  refine ⟨hread, fun other hother => ?_, fun p hp => (h.wire p hp).grows hgrows',
    fun state hstate => ?_, fun tx htx hkey => (h.sent tx htx hkey).grows hgrows'⟩
  · change (Function.update d.ends port' e other).irs = none
    by_cases hport : other = port'
    · subst hport
      rw [Function.update_self]
      exact hirs hother
    · rw [Function.update_of_ne hport]
      exact h.others other hother
  · obtain ⟨hinOrder, hack⟩ := h.connection state hstate
    exact ⟨hinOrder.grow rfl hgrows'.stream, hack⟩

/-- A move of the responder: its packets conform, and its connection with the host is in order. -/
theorem SafeInv.withResponder (h : SafeInv env host port d) {event : Event}
    (hone : OnePort env host port (d.withResponder (Responder.step env d.responder event)))
    (hreply : ∀ arrival, event = .packet arrival →
      ∀ tx, Responder.Reply env d.responder.toTracker arrival.packet tx →
        (tx.flags.contains .syn → tx.sourcePort = port) →
        (tx.ip, tx.port) = host.key → Conforms env host port (d.ends port) tx)
    (hconnection : ∀ state,
      (Responder.step env d.responder event).connections host.key = some state →
        InOrder (host.server port (d.ends port)) d.wire host.key state ∧
        state.nextExpectedAck = seqAt (cookie host.key.1 host.key.2 env.seed + 1)
          (env.request host.key).length) :
    SafeInv env host port (d.withResponder (Responder.step env d.responder event)) := by
  refine ⟨h.read.withResponder event, h.others, h.wire, hconnection, fun tx htx hkey => ?_⟩
  have hsyn := hone.syns tx htx hkey
  rcases List.mem_append.mp htx with htx | htx
  · exact h.sent tx (List.mem_append_left _ htx) hkey
  · -- a packet of before, a probe, or an answer
    exact Responder.forall_sent_step
      (P := fun tx => (tx.flags.contains .syn → tx.sourcePort = port) →
        (tx.ip, tx.port) = host.key → Conforms env host port (d.ends port) tx)
      (fun tx htx _ => h.sent tx (List.mem_append_right _ htx))
      (fun _ hprobe hsyn hkey => conforms_of_isProbe hsyn hprobe hkey) hreply tx htx hsyn hkey

/-- A packet of the host comes to the responder. Its reply conforms, and the connection that it
leaves is in order with the history that has the packet. -/
theorem SafeInv.toScanner (h : SafeInv env host port d) {p : Packet} (hp : p ∈ d.wire) {now : ℕ}
    {wakes : List Wake} (hone : OnePort env host port
      (d.withResponder (Responder.step env d.responder (.packet ⟨p, now, wakes⟩)))) :
    SafeInv env host port
      (d.withResponder (Responder.step env d.responder (.packet ⟨p, now, wakes⟩))) := by
  have hfrom := h.wire p hp
  have hstep := (Responder.receive_spec env ⟨p, now, wakes⟩ d.responder).1
  refine h.withResponder hone (fun arrival harrival tx hreply => ?_) fun state hstate => ?_
  · -- what is sent
    cases harrival
    exact h.conforms_of_reply hone.answer hp hreply
  · rw [← hfrom.key] at hstate
    refine ⟨?_, ?_⟩
    · have hinOrder := hstep.inOrder hp (h.stream_short hone.answer) hfrom.sends
        (fun state hstate => hfrom.key.symm ▸ (h.connection state (hfrom.key ▸ hstate)).1) hstate
      exact hfrom.key ▸ hinOrder
    · -- the expected acknowledgement: of a fresh connection, or of the one before
      rcases hstep.origin hstate with ⟨hauth, payload, hbuild, rfl⟩ | ⟨state', hstate', hack⟩
      · rw [hfrom.key] at hbuild
        change p.hdr.ack + BitVec.ofNat 32 payload.length = _
        rw [(hfrom.synAck hauth.1).2, ResponderEnv.request, hbuild, Option.getD_some]
        rfl
      · rw [hack]
        exact (h.connection state' (hfrom.key ▸ hstate')).2

/-- A packet of another endpoint leaves the connection of the host. -/
theorem SafeInv.stray (h : SafeInv env host port d) {arrival : Arrival}
    (hother : arrival.packet.key ≠ host.key) (hone : OnePort env host port
      (d.withResponder (Responder.step env d.responder (.packet arrival)))) :
    SafeInv env host port (d.withResponder (Responder.step env d.responder (.packet arrival))) := by
  have hstep := (Responder.receive_spec env arrival d.responder).1
  refine h.withResponder hone (fun arrival' harrival tx hreply hsyn hkey => ?_)
    fun state hstate => ?_
  · cases harrival
    -- an answer goes back to the other host
    rcases hreply.sendsBack with hprobe | hback
    · exact conforms_of_isProbe hsyn hprobe hkey
    · exact absurd (hback.key.symm.trans hkey) hother
  · rw [Responder.step, (hstep.frame hother.symm).1] at hstate
    exact h.connection state hstate

/-- An expiry pass may remove the connection. What it sends are probes. -/
theorem SafeInv.expiry (h : SafeInv env host port d) {now : ℕ} {wakes : List Wake}
    (hone : OnePort env host port
      (d.withResponder (Responder.step env d.responder (.expiry now wakes)))) :
    SafeInv env host port
      (d.withResponder (Responder.step env d.responder (.expiry now wakes))) := by
  have hloop := (Responder.expire_spec env now wakes d.responder).1
  refine h.withResponder hone (fun arrival harrival => ?_) fun state hstate => ?_
  · cases harrival
  · exact h.connection state (hloop.connections_of_some hstate)

/-- One move of the dialogue, of the scanner, of the host or of the network. The moves of the host
change its end only, and the ones of the scanner leave the wire. -/
theorem safeInv_step {move : Move} (hone : OnePort env host port (step env host d move))
    (h : SafeInv env host port d) : SafeInv env host port (step env host d move) := by
  have hread := readInv_step hone.request move h.read
  cases move with
  | probe port' =>
    refine ⟨hread, h.others, h.wire, h.connection, fun tx htx hkey => ?_⟩
    -- a probe to the host has the one source port
    have hsyn := hone.syns tx htx hkey
    rcases List.mem_append.mp htx with htx | htx
    · rcases List.mem_append.mp htx with htx | htx
      · exact h.sent tx (List.mem_append_left _ htx) hkey
      · rw [List.mem_singleton.mp htx] at hsyn ⊢
        exact conforms_probe _ rfl (hsyn (by decide : TcpFlags.contains .syn .syn))
    · exact h.sent tx (List.mem_append_right _ htx) hkey
  | toHost i window =>
    simp only [step] at hread ⊢
    split at hread
    · exact h
    · next tx htx =>
      split at hread
      · next hkey =>
        -- what reaches the host was sent from that port, so no other end opens
        have hport := (h.sent tx (List.mem_of_getElem? htx) hkey).sourcePort
        rw [if_pos hkey]
        exact h.withEnd hread (.receive host _ tx window) fun hother => absurd hport hother
      · next hkey =>
        rw [if_neg hkey]
        exact h
  | write port' n =>
    refine h.withEnd hread (.write host _ n) fun hother => ?_
    have hirs := h.others port' hother
    unfold Host.write
    split
    · exact hirs
    · exact hirs
  | close port' => exact h.withEnd hread (.close host _) (h.others port')
  | emit port' emission =>
    simp only [step] at hread ⊢
    split at hread
    · exact h
    · next p hp =>
      -- an end that is not open sends resets only
      have hnew : FromHost env host port (d.ends port) p := by
        by_cases hport : port' = port
        · subst hport
          exact fromHost_of_emit (h.read.ends port') hp
        · obtain ⟨hkey, hkind⟩ := Host.emit_of_none (h.others port' hport) hp
          exact fromHost_rst hkey hkind
      -- the connection of the responder has seen less than is on the wire
      refine ⟨hread, h.others, fun q hq => ?_, fun state hstate => ?_, h.sent⟩
      · rcases List.mem_append.mp hq with hq | hq
        · exact h.wire q hq
        · rw [List.mem_singleton.mp hq]
          exact hnew
      · obtain ⟨hinOrder, hack⟩ := h.connection state hstate
        exact ⟨hinOrder.mono (List.subset_append_left _ _), hack⟩
  | toScanner i now wakes =>
    simp only [step] at hone ⊢
    split at hone
    · exact h
    · next p hp => exact h.toScanner (List.mem_of_getElem? hp) hone
  | stray arrival =>
    simp only [step] at hone ⊢
    split at hone
    · next hkey =>
      rw [if_pos hkey]
      exact h
    · next hother =>
      rw [if_neg hother]
      exact h.stray hother hone
  | expiry now wakes => exact h.expiry hone

theorem safeInv_new {adapter : A} (env : ResponderEnv A B) (host : Host) (port : BitVec 16)
    (hread : ReadInv env host (new adapter)) : SafeInv env host port (new adapter) where
  read := hread
  others _ _ := rfl
  wire _ hp := absurd hp List.not_mem_nil
  connection _ hstate := by cases hstate
  sent _ htx := absurd htx List.not_mem_nil

/-- A run whose probes come from one port. The probes of its beginnings do too, so the condition on
the end of the run carries the induction. -/
theorem safeInv_run {adapter : A} {moves : List Move}
    (hone : OnePort env host port (run env host (new adapter) moves)) :
    SafeInv env host port (run env host (new adapter) moves) := by
  induction moves using List.reverseRecOn with
  | nil => exact safeInv_new env host port (readInv_run hone.request adapter [])
  | append_singleton moves move ih =>
    rw [run_concat] at hone ⊢
    exact safeInv_step hone (ih hone.of_step)

/-- **The scanner conforms.** When all probes that a host was sent in a run come from one port of
ours: whatever the network does, and whatever other hosts send, every packet that the scanner sends
to the host is numbered within the payload for it and acknowledges at most what the host has sent so
far; and its data, if it has any, is the payload, from its first byte. -/
theorem sent_conforms (env : ResponderEnv A B) (host : Host) (port : BitVec 16) (adapter : A)
    (moves : List Move) (hone : OnePort env host port (run env host (new adapter) moves)) :
    ∀ tx ∈ (run env host (new adapter) moves).sent, (tx.ip, tx.port) = host.key →
      Conforms env host port ((run env host (new adapter) moves).ends port) tx :=
  (safeInv_run hone).sent

/-- A strategy that asks for the next port of a host, from another port of ours. -/
def nextPortEnv : ResponderEnv Unit (List UInt8) :=
  { ResponderEnv.sample with
    onResult := fun adapter ip port _ => (some ⟨61001, ip, port + 1⟩, adapter) }

/-- The host is probed once, from port 61000. The result of it leads to a probe of its next port,
from port 61001, which does not matter to the dialogue with the first one. -/
theorem sent_conforms_sample :
    (run nextPortEnv sampleHost (new ()) sampleMoves).sent.map
        (fun tx => (tx.port, tx.sourcePort)) =
      [(25565, 61000), (25565, 61000), (25565, 61000), (25565, 61000), (25565, 61000),
        (25566, 61001)] ∧
    ∀ tx ∈ (run nextPortEnv sampleHost (new ()) sampleMoves).sent,
      (tx.ip, tx.port) = ((1 : Ipv4Addr), (25565 : BitVec 16)) →
        Conforms nextPortEnv sampleHost 61000
          ((run nextPortEnv sampleHost (new ()) sampleMoves).ends 61000) tx :=
  ⟨by decide, sent_conforms nextPortEnv sampleHost 61000 () sampleMoves
    ⟨by decide, by decide, by decide⟩⟩

/-- The condition holds of the sample run, in which the responder is probed once. -/
theorem onePort_sample :
    OnePort .sample sampleHost 61000 (run .sample sampleHost (new ()) sampleMoves) where
  syns := by decide
  request := by decide
  answer := by decide

/-- A host that is probed from two ports of ours answers both. The responder takes the second
`SYN+ACK` for the connection of both. -/
def twoPorts : List Move :=
  [.probe 61000, .probe 61001, .toHost 0 1, .toHost 1 1, .emit 61000 .synAck, .emit 61001 .synAck,
    .toScanner 0 0 [], .toScanner 1 1 [], .toHost 2 1, .write 61000 3,
    .emit 61000 (.segment 0 3 true), .toScanner 2 2 []]

/-- With two ports, the scanner acknowledges to the first end what only the second one has sent, and
the answer is not recorded. -/
theorem twoPorts_not_conforms :
    (∃ tx ∈ (run .sample sampleHost (new ()) twoPorts).sent, (tx.ip, tx.port) = sampleHost.key ∧
      tx.sourcePort = 61000 ∧ ¬ Conforms .sample sampleHost 61000
        ((run .sample sampleHost (new ()) twoPorts).ends 61000) tx) ∧
    (run .sample sampleHost (new ()) twoPorts).responder.scanlings = [] := by
  refine ⟨⟨⟨1, 61000, 25565, cookie 1 25565 0 + 2, 0xee4a0000, .ack, []⟩, by decide, rfl, rfl,
    fun h => ?_⟩, by decide⟩
  have hends : (run .sample sampleHost (new ()) twoPorts).ends 61000 =
      ⟨some (cookie 1 25565 0), [0], 3, false⟩ := by decide
  rw [hends] at h
  rcases h.ack with hsyn | ⟨n, hn, hack⟩
  · exact absurd hsyn (by decide)
  · -- four numbers with that of the `SYN`
    have hnumbers : ∀ n ≤ 4, (0xee4a0000 : BitVec 32) ≠ seqAt (sampleHost.isn 61000) n := by decide
    exact hnumbers n hn hack

/-! ### Results -/

/-- A `FIN` with data that is delivered is in turn. -/
def FinMove (d : Dialogue A B) : Move → Prop
  | .toScanner i _ _ => ∀ p ∈ d.wire[i]?, FinInTurn d.responder.toTracker p
  | _ => True

instance (d : Dialogue A B) : (move : Move) → Decidable (FinMove d move)
  | .toScanner i _ _ =>
    inferInstanceAs (Decidable (∀ p ∈ d.wire[i]?, FinInTurn d.responder.toTracker p))
  | .probe _ | .toHost _ _ | .write _ _ | .close _ | .emit _ _ | .stray _ | .expiry _ _ =>
    inferInstanceAs (Decidable True)

/-- A result is the verdict of the parser on something that the host has written, when it had read
all of our payload. -/
def Sound (env : ResponderEnv A B) (host : Host) (port : BitVec 16) (d : Dialogue A B) : Prop :=
  ∀ scanling ∈ d.responder.scanlingsOf host.key,
    (d.ends port).received = env.request host.key ∧
    ∃ data, data <+: host.stream (d.ends port) ∧ env.parse data = .ok scanling.response

/-- A packet that acknowledges all of our payload comes from an end that has read it. -/
theorem SafeInv.received_eq (h : SafeInv env host port d) (hone : OnePort env host port d)
    {p : Packet} (hp : p ∈ d.wire) (hkind : p.kind = .ack ∨ p.kind = .fin)
    (hack : p.hdr.ack = seqAt (cookie host.key.1 host.key.2 env.seed + 1)
      (env.request host.key).length) :
    (d.ends port).received = env.request host.key := by
  have hreceived := (h.read.ends port).received
  obtain ⟨n, hn, hn'⟩ := (h.wire p hp).ack hkind
  have hlength := hn.trans hreceived.length_le
  have heq : (env.request host.key).length = n :=
    seqAt_inj hone.request (hlength.trans_lt hone.request) (hack.symm.trans hn')
  exact hreceived.eq_of_length_le (heq.le.trans hn)

/-- A result comes from the data of the connection, which is a beginning of the stream of the host.
A `FIN` with data has to be in turn, since `process_fin` does not compare its numbers. -/
theorem Sound.toScanner (h : Sound env host port d) (hsafe : SafeInv env host port d)
    (hone : OnePort env host port d) {p : Packet} (hp : p ∈ d.wire)
    (hfin : FinInTurn d.responder.toTracker p) (now : ℕ) (wakes : List Wake) :
    Sound env host port
      (d.withResponder (Responder.step env d.responder (.packet ⟨p, now, wakes⟩))) := by
  have hfrom := hsafe.wire p hp
  have hstep := (Responder.receive_spec env ⟨p, now, wakes⟩ d.responder).1
  change Tracker.PacketStep env _ _ _
    (Responder.step env d.responder (.packet ⟨p, now, wakes⟩)).toTracker at hstep
  -- a new result, from data that is in order
  have hnew {call : Parsed} {banner : B} {state : State}
      (hinOrder : InOrder (host.server port (d.ends port)) d.wire host.key state)
      (hparse : env.parse state.data = .ok banner)
      (hreceived : (d.ends port).received = env.request host.key) :
      ∀ scanling ∈ (((d.responder.toTracker.remove p.key).pushParsed call).pushScanling
          ⟨p.ip, p.hdr.sourcePort, banner⟩).scanlingsOf host.key,
        (d.ends port).received = env.request host.key ∧
        ∃ data, data <+: host.stream (d.ends port) ∧ env.parse data = .ok scanling.response := by
    intro scanling hscanling
    rw [Tracker.scanlingsOf_pushScanling _ _ _ hfrom.key] at hscanling
    rcases List.mem_append.mp hscanling with hscanling | hscanling
    · exact h scanling hscanling
    · rw [List.mem_singleton.mp hscanling]
      exact ⟨hreceived, state.data, hinOrder.data, hparse⟩
  intro scanling hscanling
  change scanling ∈ Tracker.scanlingsOf (Responder.step env d.responder _).toTracker host.key
    at hscanling
  revert hscanling
  generalize (Responder.step env d.responder (.packet ⟨p, now, wakes⟩)).toTracker = m' at hstep
  intro hscanling
  cases hstep with
  | idle | close | create | reorder | drop | keep | extend | finDrop => exact h scanling hscanling
  | hit state banner hin hparse =>
    obtain ⟨hinOrder, hack⟩ := hsafe.connection state (hfrom.key ▸ hin.connection)
    have haccept := hinOrder.accept (hsafe.stream_short hone.answer)
      (hin.seq ▸ hfrom.sends.data (.inl hin.kind)) hin.payload hp hfrom.key hin.ack
    exact hnew haccept hparse
      (hsafe.received_eq hone hp (.inl hin.kind) (hin.ack.trans hack)) scanling hscanling
  -- the data of the `FIN` is appended as it is
  | finHit state banner hkind hstate hpayload hparse =>
    obtain ⟨hinOrder, hack⟩ := hsafe.connection state (hfrom.key ▸ hstate)
    obtain ⟨hseq, hack'⟩ := hfin hkind hpayload state hstate
    have happend := hinOrder.append (hsafe.stream_short hone.answer)
      (hseq ▸ hfrom.sends.data (.inr hkind)) hpayload hp hfrom.key hack'
    exact hnew happend hparse
      (hsafe.received_eq hone hp (.inr hkind) (hack'.trans hack)) scanling hscanling

/-- A move of the host. -/
theorem Sound.withEnd (h : Sound env host port d) {port' : BitVec 16} {e : Host.End}
    (hread : ReadInv env host (d.withEnd port' e)) (hgrows : (d.ends port').Grows host e) :
    Sound env host port (d.withEnd port' e) := by
  intro scanling hscanling
  obtain ⟨hreceived, data, hdata, hparse⟩ := h scanling hscanling
  change (Function.update d.ends port' e port).received = _ ∧
    ∃ data, data <+: host.stream (Function.update d.ends port' e port) ∧ _
  by_cases hport : port = port'
  · subst hport
    rw [Function.update_self]
    have hreads := hread.ends port
    change (Function.update d.ends port e port).Reads env host.key at hreads
    rw [Function.update_self] at hreads
    -- the payload was received as a whole, and no end receives more than it
    have hall : env.request host.key <+: e.received := hreceived ▸ hgrows.received
    exact ⟨hreads.received.eq_of_length_le hall.length_le, data, hdata.trans hgrows.stream, hparse⟩
  · rw [Function.update_of_ne hport]
    exact ⟨hreceived, data, hdata, hparse⟩

/-- Only a packet that comes to the scanner makes a result; the other moves keep what was found. -/
theorem sound_step (hone : OnePort env host port d) (hsafe : SafeInv env host port d) {move : Move}
    (hfin : FinMove d move) (h : Sound env host port d) :
    Sound env host port (step env host d move) := by
  have hread := readInv_step hone.request move hsafe.read
  cases move with
  | probe port' => exact h
  | toHost i window =>
    simp only [step] at hread ⊢
    split at hread
    · exact h
    · next tx htx =>
      split at hread
      · next hkey =>
        rw [if_pos hkey]
        exact h.withEnd hread (.receive host _ tx window)
      · next hkey =>
        rw [if_neg hkey]
        exact h
  | write port' n => exact h.withEnd hread (.write host _ n)
  | close port' => exact h.withEnd hread (.close host _)
  | emit port' emission =>
    simp only [step]
    split
    · exact h
    · exact h
  | toScanner i now wakes =>
    simp only [step]
    split
    · exact h
    · next p hp =>
      exact h.toScanner hsafe hone (List.mem_of_getElem? hp) (hfin p hp) now wakes
  | stray arrival =>
    simp only [step]
    split
    · exact h
    · next hother =>
      intro scanling hscanling
      -- the results of the host are not those of another endpoint
      have hstep := (Responder.receive_spec env arrival d.responder).1
      change scanling ∈ (Responder.receive env arrival d.responder).2.scanlingsOf host.key
        at hscanling
      rw [(hstep.frame (Ne.symm hother)).2] at hscanling
      exact h scanling hscanling
  | expiry now wakes =>
    intro scanling hscanling
    -- an expiry pass finds nothing
    have hloop := (Responder.expire_spec env now wakes d.responder).1
    change scanling ∈ (Responder.expire env now wakes d.responder).2.scanlingsOf host.key
      at hscanling
    rw [Tracker.scanlingsOf, hloop.frame.1] at hscanling
    exact h scanling hscanling

/-- Both invariants in one induction: the second needs the first in the state before the step. -/
theorem sound_run {adapter : A} {moves : List Move}
    (hone : OnePort env host port (run env host (new adapter) moves))
    (hfin : Run.Along (step env host) FinMove (new adapter) moves) :
    SafeInv env host port (run env host (new adapter) moves) ∧
    Sound env host port (run env host (new adapter) moves) := by
  refine ⟨safeInv_run hone, ?_⟩
  induction moves using List.reverseRecOn with
  | nil => exact fun scanling hscanling => absurd hscanling List.not_mem_nil
  | append_singleton moves move ih =>
    rw [run_concat] at hone ⊢
    obtain ⟨hpast, hmove, -⟩ := Run.along_append.mp hfin
    exact sound_step hone.of_step (safeInv_run hone.of_step) hmove (ih hone.of_step hpast)

/-- The verdict on what was read of the answer is the verdict on the answer. -/
theorem Sound.parse_answer (h : Sound env host port d) (hsafe : SafeInv env host port d)
    (hstable : env.Stable) {scanling : Scanling B}
    (hscanling : scanling ∈ d.responder.scanlingsOf host.key) :
    env.parse (host.app (env.request host.key)) = .ok scanling.response := by
  obtain ⟨hreceived, data, hdata, hparse⟩ := h scanling hscanling
  obtain ⟨more, hmore⟩ := hdata.trans hsafe.stream_begins
  rw [← hmore, hstable data more (by rw [hparse]; exact fun h => by cases h), hparse]

/-- **Results are the answers to our payload.** When all probes that a host was sent in a run come
from one port of ours, and a verdict of the parser stays when more data comes, a result recorded for
the host is the verdict of the parser on the answer of the host to the whole payload, and the host
has read the whole payload: whatever the network does, and whatever other hosts send, as long as
every `FIN` with data that meets a connection is in turn. -/
theorem scanlings_sound (env : ResponderEnv A B) (hstable : env.Stable) (host : Host)
    (port : BitVec 16) (adapter : A) (moves : List Move)
    (hone : OnePort env host port (run env host (new adapter) moves))
    (hfin : Run.Along (step env host) FinMove (new adapter) moves) :
    ∀ scanling ∈ (run env host (new adapter) moves).responder.scanlingsOf host.key,
      ((run env host (new adapter) moves).ends port).received = env.request host.key ∧
      env.parse (host.app (env.request host.key)) = .ok scanling.response := by
  obtain ⟨hsafe, hsound⟩ := sound_run hone hfin
  intro scanling hscanling
  exact ⟨(hsound scanling hscanling).1, hsound.parse_answer hsafe hstable hscanling⟩

/-- In the sample run there is one result, and its bytes are the answer to the whole payload. -/
theorem scanlings_sound_sample :
    (run .sample sampleHost (new ()) sampleMoves).responder.scanlingsOf (1, 25565) =
      [⟨1, 25565, [1, 2, 3]⟩] ∧
    ∀ scanling ∈ (run .sample sampleHost (new ()) sampleMoves).responder.scanlingsOf (1, 25565),
      ((run .sample sampleHost (new ()) sampleMoves).ends 61000).received = [0] ∧
      ResponderEnv.sample.parse [1, 2, 3] = .ok scanling.response :=
  ⟨by decide, scanlings_sound .sample Flow.sample_stable sampleHost 61000 () sampleMoves
    onePort_sample
    ⟨trivial, trivial, trivial, trivial, by decide, by decide, trivial, trivial, trivial, trivial,
      trivial, by decide, by decide, trivial⟩⟩

end Dialogue

end Farsight
