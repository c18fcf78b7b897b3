import Farsight.Responder.Authentic
import Farsight.Responder.InSequence

/-!
# What the responder sends

Every packet may be answered, and a report of a result or of an expired connection may lead to
another probe. The responder is open to the whole network, so what it can be made to send matters:
it is no amplifier, and it sends its payload to nobody who has not returned a cookie.

* `Responder.replies` — the packets sent in answer to a packet when every send succeeds, in order;
* `Responder.receive_sent` — a handler sends a prefix of them, and all of them if no send fails;
* `Responder.Reply` — the same as a list of cases, by what the packet and its connection are;
* `Responder.expiryLoop_rule` — the invariant rule of the expiry loop. An expiry pass sends probes
  only (`Responder.expire_onlyProbes`);
* `Responder.Balanced` — the packets sent are paid for by the packets received. A connection has one
  packet left to pay for the probe that is sent when it expires.
-/

namespace Farsight

open Handler
open Responder (State Event Arrival)

/-- The probe of a template. -/
def TxPacket.probe (template : PacketTemplate) (seed : BitVec 64) : TxPacket where
  ip := template.ip
  sourcePort := template.sourcePort
  port := template.destinationPort
  seq := cookie template.ip template.destinationPort seed
  ack := 0
  flags := .syn
  body := []

/-- A packet without data, sent back to where `p` came from. -/
def Packet.answer (p : Packet) (flags : TcpFlags) (seq ack : BitVec 32) : TxPacket where
  ip := p.ip
  sourcePort := p.hdr.destPort
  port := p.hdr.sourcePort
  seq
  ack
  flags
  body := []

/-- The packet that carries our payload. -/
def Packet.request (p : Packet) (payload : List UInt8) : TxPacket :=
  { p.answer (.psh ||| .ack) p.hdr.ack (p.hdr.seq + 1) with body := payload }

/-- Every connection is one of these. -/
def Tracker.LiveIn {B : Type} (m : Tracker B) (live : Finset Endpoint) : Prop :=
  ∀ key, (m.connections key).isSome → key ∈ live

theorem Tracker.LiveIn.remove {B : Type} {m : Tracker B} {live : Finset Endpoint} {key : Endpoint}
    (h : m.LiveIn live) : (m.remove key).LiveIn (live.erase key) := by
  intro key' hkey'
  obtain ⟨state, hstate⟩ := Option.isSome_iff_exists.mp hkey'
  have hold := Tracker.connections_of_remove hstate
  exact Finset.mem_erase.mpr
    ⟨Tracker.ne_of_remove hstate, h key' (Option.isSome_iff_exists.mpr ⟨state, hold⟩)⟩

namespace Responder

variable {A B : Type}

/-! ### The answer to a packet -/

section Replies

variable (env : ResponderEnv A B) (adapter : A)

/-- The probe that the port strategy asks for when it hears of a result. -/
def probes (key : Endpoint) (hash : Option (BitVec 64)) : List TxPacket :=
  ((env.onResult adapter key.1 key.2 hash).1.map (TxPacket.probe · env.seed)).toList

variable (m : Tracker B) (p : Packet)

def synAckReplies : List TxPacket :=
  if p.hdr.ack ≠ cookie p.ip p.hdr.sourcePort env.seed + 1 then probes env adapter p.key none
  else
    match env.build p.ip p.hdr.sourcePort with
    | none => p.answer .rst p.hdr.ack p.hdr.seq :: probes env adapter p.key none
    | some payload => [p.request payload]

/-- The answer to data that was next in sequence. -/
def dataReplies (state : State) : List TxPacket :=
  let rst := p.answer .rst state.nextExpectedAck state.nextExpectedSeq
  match env.parse state.data with
  | .ok banner =>
    rst :: probes env (env.ipOnResult adapter p.ip) p.key (some (env.hash64 banner))
  | .error .invalid => probes env adapter p.key none ++ [rst]
  | .error .incomplete => [p.answer .ack state.nextExpectedAck state.nextExpectedSeq]

def ackReplies : List TxPacket :=
  match m.connections p.key with
  | none => probes env adapter p.key none ++
      [p.answer .rst p.hdr.ack (p.hdr.seq + BitVec.ofNat 32 p.payload.length)]
  | some state =>
    if p.hdr.ack ≠ state.nextExpectedAck then []
    else if p.hdr.seq ≠ state.nextExpectedSeq then
      [p.answer .ack state.nextExpectedAck state.nextExpectedSeq]
    else if p.payload = [] then []
    else dataReplies env adapter p (state.accept p.payload)

/-- The report about a connection that a `FIN` has closed. -/
def finProbes : List TxPacket :=
  match m.connections p.key with
  | none => probes env adapter p.key none
  | some state =>
    if p.payload = [] then probes env adapter p.key none
    else
      match env.parse (state.data ++ p.payload) with
      | .ok banner => probes env (env.ipOnResult adapter p.ip) p.key (some (env.hash64 banner))
      | .error _ => probes env adapter p.key none

def finReplies : List TxPacket :=
  p.answer .rst p.hdr.ack (p.hdr.seq + 1 + BitVec.ofNat 32 p.payload.length) ::
    finProbes env adapter m p

/-- What is sent in answer to a packet when every send succeeds. -/
def replies : List TxPacket :=
  match p.kind with
  | .rst => probes env adapter p.key none
  | .fin => finReplies env adapter m p
  | .synAck => synAckReplies env adapter p
  | .ack => ackReplies env adapter m p
  | .other => []

end Replies

/-! ### The handlers send a prefix of it

A send that fails stops the handler, after its packet was submitted or before. `ok` stands for the
assumption that no send fails. -/

/-- The responder remembers `m` and has sent `pre` after `base`, and no send will fail if `ok`. -/
def Says (ok : Prop) (m : Tracker B) (adapter : A) (base pre : List TxPacket) (w : Responder A B) :
    Prop :=
  w.toTracker = m ∧ w.adapter = adapter ∧ w.sent = base ++ pre ∧ (ok → w.wakes = [])

/-- After `base`, a prefix of `total` was sent, and all of it if `ok`. -/
def Answered (ok : Prop) (base total : List TxPacket) (w : Responder A B) : Prop :=
  ∃ said, said <+: total ∧ w.sent = base ++ said ∧ (ok → said = total)

section Specs

variable {ok : Prop} {m : Tracker B} {adapter : A} {base pre total : List TxPacket}

/-- Everything was sent. -/
theorem Says.answered {w : Responder A B} (h : Says ok m adapter base total w) :
    Answered ok base total w :=
  ⟨total, List.prefix_rfl, h.2.2.1, fun _ => rfl⟩

/-- Sending a packet. If the wake-up fails, the packet may have been submitted or not, and what was
sent is still a prefix of the whole answer. -/
theorem transmit_spoken (packet : TxPacket) (htotal : pre ++ [packet] <+: total) :
    Triple (Says ok m adapter base pre) (transmit packet)
      (fun _ => Says ok m adapter base (pre ++ [packet])) (Answered ok base total) := by
  rintro w ⟨rfl, rfl, hsent, hok⟩
  have hsubmitted : w.sent ++ [packet] = base ++ (pre ++ [packet]) := by
    rw [hsent, List.append_assoc]
  cases hwakes : w.wakes with
  | nil =>
    simp only [transmit, hwakes]
    exact ⟨rfl, rfl, hsubmitted, fun _ => rfl⟩
  | cons wake wakes =>
    -- with `ok` there would be no wake-up to come
    have hfail : ¬ ok := fun h => by
      rw [hok h] at hwakes
      cases hwakes
    cases wake with
    | ok =>
      simp only [transmit, hwakes]
      exact ⟨rfl, rfl, hsubmitted, fun h => absurd h hfail⟩
    | failBefore =>
      simp only [transmit, hwakes]
      exact ⟨pre, (List.prefix_append _ _).trans htotal, hsent, fun h => absurd h hfail⟩
    | failAfter =>
      simp only [transmit, hwakes]
      exact ⟨pre ++ [packet], htotal, hsubmitted, fun h => absurd h hfail⟩

theorem track_spoken {E : Responder A B → Prop} (f : Tracker B → Tracker B) :
    Triple (Says ok m adapter base pre) (track f) (fun _ => Says ok (f m) adapter base pre) E :=
  Triple.modify fun _ hw => ⟨congrArg f hw.1, hw.2⟩

/-- Reading the responder's state: all that is known of it, and all that is used, are its
connections. -/
theorem get_spoken {α : Type} {g : Responder A B → Handler (Responder A B) α}
    {Q : α → Responder A B → Prop} {E : Responder A B → Prop}
    (h : ∀ w, w.connections = m.connections → Triple (Says ok m adapter base pre) (g w) Q E) :
    Triple (Says ok m adapter base pre) (Handler.get >>= g) Q E := by
  refine Triple.get_bind fun w hw => ?_
  exact (h w (congrArg Tracker.connections hw.1)).mono (fun _ h => h ▸ hw) (fun _ _ h => h)
    fun _ h => h

variable (env : ResponderEnv A B) (key : Endpoint)

/-- A report ends with the probe that the strategy asks for. -/
theorem record_spoken (hash : Option (BitVec 64))
    (htotal : pre ++ probes env adapter key hash <+: total) :
    Triple (Says ok m adapter base pre) (record env key.1 key.2 hash)
      (fun _ => Says ok m (env.onResult adapter key.1 key.2 hash).2 base
        (pre ++ probes env adapter key hash))
      (Answered ok base total) := by
  refine Triple.get_bind fun w hw => ?_
  obtain ⟨rfl, rfl, hsent, hok⟩ := hw
  unfold probes at htotal ⊢
  -- the strategy answers once, with a template or without, and goes to another state
  generalize env.onResult w.adapter key.1 key.2 hash = result at htotal ⊢
  obtain ⟨template, adapter'⟩ := result
  refine Triple.bind
    (Q := fun _ => Says ok w.toTracker adapter' base pre) (Triple.modify ?_) fun _ => ?_
  · rintro _ rfl
    exact ⟨rfl, rfl, hsent, hok⟩
  · cases template with
    | none =>
      rw [Option.map_none, Option.toList_none, List.append_nil]
      exact Triple.pure fun _ h => h
    | some template => exact transmit_spoken _ htotal

/-- A report may be the last thing that is sent. -/
theorem record_answered (hash : Option (BitVec 64))
    (hpre : pre ++ probes env adapter key hash = total) :
    Triple (Says ok m adapter base pre) (record env key.1 key.2 hash)
      (fun _ => Answered ok base total) (Answered ok base total) :=
  (record_spoken env key hash (hpre ▸ List.prefix_rfl)).mono (fun _ h => h)
    (fun _ _ h => (hpre ▸ h).answered) fun _ h => h

/-- So may a packet. -/
theorem transmit_answered (packet : TxPacket) (hpre : pre ++ [packet] = total) :
    Triple (Says ok m adapter base pre) (transmit packet)
      (fun _ => Answered ok base total) (Answered ok base total) :=
  (transmit_spoken packet (hpre ▸ List.prefix_rfl)).mono (fun _ h => h)
    (fun _ _ h => (hpre ▸ h).answered) fun _ h => h

/-- After the last send the tracker may be written freely. -/
theorem track_answered {E : Responder A B → Prop} (f : Tracker B → Tracker B) :
    Triple (Answered ok base total) (track f)
      (fun _ => (Answered ok base total : Responder A B → Prop)) E :=
  Triple.modify fun _ h => h

variable (p : Packet)

/-- A banner is reported to the IP strategy first. -/
theorem ipOnResult_spoken {E : Responder A B → Prop} :
    Triple (Says ok m adapter base pre)
      (Handler.modify fun w => { w with adapter := env.ipOnResult w.adapter p.ip })
      (fun _ => Says ok m (env.ipOnResult adapter p.ip) base pre) E := by
  refine Triple.modify ?_
  rintro _ ⟨rfl, rfl, hsent, hok⟩
  exact ⟨rfl, rfl, hsent, hok⟩

variable (now : ℕ)

/-- `process_syn_ack` sends what `synAckReplies` says: nothing twice, and nothing out of order. -/
theorem processSynAck_sent :
    Triple (Says ok m adapter base []) (processSynAck env now p.ip p.hdr)
      (fun _ => Answered ok base (synAckReplies env adapter p))
      (Answered ok base (synAckReplies env adapter p)) := by
  unfold processSynAck synAckReplies
  dsimp only
  split
  · exact record_answered env p.key none (List.nil_append _)
  · cases env.build p.ip p.hdr.sourcePort with
    | none =>
      -- a send may fail and end the handler, so what was sent is a beginning of the replies
      refine Triple.bind (transmit_spoken _ (List.prefix_append [_] _)) fun _ => ?_
      refine Triple.bind (record_answered env p.key none rfl) fun _ => ?_
      exact Triple.fail fun _ h => h
    | some payload =>
      refine Triple.bind (transmit_spoken _ List.prefix_rfl) fun _ => ?_
      exact (track_spoken _).mono (fun _ h => h) (fun _ _ h => h.answered) fun _ h => h

/-- `process_fin` sends the reset first, and then at most the probe that the strategy asks for. -/
theorem processFin_sent :
    Triple (Says ok m adapter base []) (processFin env p.ip p.hdr p.payload)
      (fun _ => Answered ok base (finReplies env adapter m p))
      (Answered ok base (finReplies env adapter m p)) := by
  unfold processFin finReplies
  dsimp only
  refine Triple.bind (transmit_spoken _ (List.prefix_append [_] _)) fun _ => ?_
  -- the answer to a `FIN` does not depend on the connection; what is reported does
  refine get_spoken fun w hw => ?_
  rw [hw]
  refine Triple.bind (track_spoken _) fun _ => ?_
  unfold finProbes
  change Triple _ (match m.connections p.key with | none => _ | some state => _) _ _
  split
  · -- no connection: reported without a banner
    exact record_answered env p.key none rfl
  · split
    · exact record_answered env p.key none rfl
    · refine Triple.bind (track_spoken _) fun _ => ?_
      cases env.parse _ with
      | ok banner =>
        -- a banner: the address strategy hears of it first, which the port strategy may see
        refine Triple.bind (ipOnResult_spoken env p) fun _ => ?_
        refine Triple.bind (record_answered env p.key _ rfl) fun _ => ?_
        exact track_answered _
      | error e => exact record_answered env p.key none rfl

/-- `process_ack` sends what `ackReplies` says, in each of its branches. -/
theorem processAck_sent :
    Triple (Says ok m adapter base []) (processAck env p.ip p.hdr p.payload)
      (fun _ => Answered ok base (ackReplies env adapter m p))
      (Answered ok base (ackReplies env adapter m p)) := by
  unfold processAck
  dsimp only
  refine get_spoken fun w hw => ?_
  rw [hw]
  unfold ackReplies
  change Triple _ (match m.connections p.key with | none => _ | some state => _) _ _
  split
  · -- no connection: reported, and reset
    refine Triple.bind (record_spoken env p.key none (List.prefix_append _ _)) fun _ => ?_
    exact transmit_answered _ rfl
  · split
    · -- an acknowledgement of something else is ignored
      exact Triple.pure fun _ h => h.answered
    · split
      · -- out of sequence: the connection is asked for what is expected
        refine Triple.bind (track_spoken _) fun _ => ?_
        exact transmit_answered _ rfl
      · split
        · exact Triple.pure fun _ h => h.answered
        · next state _ _ _ _ =>
          refine Triple.bind (track_spoken _) fun _ => ?_
          change Triple _ (match env.parse (state.accept p.payload).data with
            | .ok banner => _ | .error .invalid => _ | .error .incomplete => _) _ _
          unfold dataReplies
          dsimp only
          cases env.parse (state.accept p.payload).data with
          -- the banner is complete, so the connection is closed
          | ok banner =>
            refine Triple.bind (track_spoken _) fun _ => ?_
            refine Triple.bind (transmit_spoken _ (List.prefix_append [_] _)) fun _ => ?_
            refine Triple.bind (ipOnResult_spoken env p) fun _ => ?_
            refine Triple.bind (record_answered env p.key _ rfl) fun _ => ?_
            exact track_answered _
          | error e =>
            cases e with
            | invalid =>
              refine Triple.bind (record_spoken env p.key none (List.prefix_append _ _)) fun _ => ?_
              refine Triple.bind (track_spoken _) fun _ => ?_
              exact transmit_answered _ rfl
            -- more is to come: acknowledged, and the connection goes on
            | incomplete =>
              refine Triple.bind (track_spoken _) fun _ => ?_
              exact transmit_answered _ rfl

/-- Whatever kind a packet is of, what is sent in answer to it is a prefix of `replies`, and all of
it if no send fails. -/
theorem processPacket_sent :
    Triple (Says ok m adapter base []) (processPacket env now p)
      (fun _ => Answered ok base (replies env adapter m p))
      (Answered ok base (replies env adapter m p)) := by
  unfold processPacket replies Packet.kind
  split
  · refine Triple.bind (record_answered env p.key none (List.nil_append _)) fun _ => ?_
    exact track_answered _
  · split
    · exact processFin_sent env p
    · split
      · exact processSynAck_sent env p now
      · split
        · exact processAck_sent env p
        · exact Triple.pure fun _ h => h.answered

end Specs

/-- The handler of a packet sends a prefix of the answer, and all of it if no send fails. -/
theorem receive_sent (env : ResponderEnv A B) (arrival : Arrival) (w : Responder A B) :
    Answered (arrival.wakes = []) w.sent (replies env w.adapter w.toTracker arrival.packet)
      (receive env arrival w).2 := by
  have hspec := @processPacket_sent A B (arrival.wakes = []) w.toTracker w.adapter w.sent env
    arrival.packet arrival.now
  have hstart : Says (arrival.wakes = []) w.toTracker w.adapter w.sent []
      { w with wakes := arrival.wakes } :=
    ⟨rfl, rfl, (List.append_nil _).symm, fun h => h⟩
  rcases hspec.cases hstart with ⟨_, _, h⟩ | ⟨_, h⟩
  · exact h
  · exact h

/-! ### The cases of an answer -/

/-- A probe that the port strategy asked for. -/
def IsProbe (env : ResponderEnv A B) (tx : TxPacket) : Prop :=
  ∃ adapter ip port hash template, (env.onResult adapter ip port hash).1 = some template ∧
    tx = .probe template env.seed

theorem isProbe_of_mem {env : ResponderEnv A B} {adapter : A} {key : Endpoint}
    {hash : Option (BitVec 64)} {tx : TxPacket} (h : tx ∈ probes env adapter key hash) :
    IsProbe env tx := by
  rw [probes, Option.mem_toList, Option.map_eq_some_iff] at h
  obtain ⟨template, htemplate, rfl⟩ := h
  exact ⟨adapter, key.1, key.2, hash, template, htemplate, rfl⟩

/-- Everything that is sent in answer to a packet. -/
inductive Reply (env : ResponderEnv A B) (m : Tracker B) (p : Packet) : TxPacket → Prop
  | probe {tx : TxPacket} (h : IsProbe env tx) : Reply env m p tx
  | request (payload : List UInt8) (hkind : p.kind = .synAck)
      (hack : p.hdr.ack = cookie p.ip p.hdr.sourcePort env.seed + 1)
      (hbuild : env.build p.ip p.hdr.sourcePort = some payload) :
      Reply env m p (p.request payload)
  /-- The payload cannot be built. -/
  | refuse (hkind : p.kind = .synAck)
      (hack : p.hdr.ack = cookie p.ip p.hdr.sourcePort env.seed + 1) :
      Reply env m p (p.answer .rst p.hdr.ack p.hdr.seq)
  /-- There is no connection. -/
  | stray (hkind : p.kind = .ack) (hnone : m.connections p.key = none) :
      Reply env m p (p.answer .rst p.hdr.ack (p.hdr.seq + BitVec.ofNat 32 p.payload.length))
  /-- A segment out of turn: the acknowledgement is sent again. -/
  | duplicate (state : State) (hkind : p.kind = .ack) (hstate : m.connections p.key = some state) :
      Reply env m p (p.answer .ack state.nextExpectedAck state.nextExpectedSeq)
  /-- Data that is next in sequence is acknowledged, by an `ACK` or, after the verdict of the
  parser, by a `RST`. -/
  | data (state : State) (flags : TcpFlags) (hin : m.InSequence p state)
      (hflags : flags = .ack ∨ flags = .rst) :
      Reply env m p (p.answer flags (state.accept p.payload).nextExpectedAck
        (state.accept p.payload).nextExpectedSeq)
  | fin (hkind : p.kind = .fin) :
      Reply env m p (p.answer .rst p.hdr.ack
        (p.hdr.seq + 1 + BitVec.ofNat 32 p.payload.length))

section Cases

variable {env : ResponderEnv A B} {adapter : A} {m : Tracker B} {p : Packet} {tx : TxPacket}

/-- The answers to a `SYN-ACK` are a probe, a reset if there is no request to make, and the request
to a host that returned the cookie. -/
theorem reply_of_mem_synAckReplies (hkind : p.kind = .synAck)
    (h : tx ∈ synAckReplies env adapter p) : Reply env m p tx := by
  unfold synAckReplies at h
  split at h
  · exact .probe (isProbe_of_mem h)
  · next hack =>
    have hack' := not_not.mp hack
    split at h
    · rcases List.mem_cons.mp h with rfl | h
      · exact .refuse hkind hack'
      · exact .probe (isProbe_of_mem h)
    · next payload hbuild =>
      rw [List.mem_singleton.mp h]
      exact .request payload hkind hack' hbuild

/-- The answers to data that was next in sequence are an acknowledgement, a reset and a probe. -/
theorem reply_of_mem_dataReplies {state : State} (hin : m.InSequence p state)
    (h : tx ∈ dataReplies env adapter p (state.accept p.payload)) : Reply env m p tx := by
  unfold dataReplies at h
  dsimp only at h
  split at h
  · rcases List.mem_cons.mp h with rfl | h
    · exact .data state .rst hin (.inr rfl)
    · exact .probe (isProbe_of_mem h)
  · rcases List.mem_append.mp h with h | h
    · exact .probe (isProbe_of_mem h)
    · rw [List.mem_singleton.mp h]
      exact .data state .rst hin (.inr rfl)
  · rw [List.mem_singleton.mp h]
    exact .data state .ack hin (.inl rfl)

/-- The branches of `process_ack`, with what each has tested before it answers. -/
theorem reply_of_mem_ackReplies (hkind : p.kind = .ack) (h : tx ∈ ackReplies env adapter m p) :
    Reply env m p tx := by
  unfold ackReplies at h
  split at h
  · next hnone =>
    rcases List.mem_append.mp h with h | h
    · exact .probe (isProbe_of_mem h)
    · rw [List.mem_singleton.mp h]
      exact .stray hkind hnone
  · next state hstate =>
    split at h
    · exact absurd h List.not_mem_nil
    · next hack =>
      split at h
      · rw [List.mem_singleton.mp h]
        exact .duplicate state hkind hstate
      · next hseq =>
        split at h
        · exact absurd h List.not_mem_nil
        · next hpayload =>
          -- all four tests passed, which is what being next in sequence means
          exact reply_of_mem_dataReplies
            ⟨hkind, hstate, not_not.mp hack, not_not.mp hseq, hpayload⟩ h

/-- The answers to a `FIN` are a reset and a probe. -/
theorem reply_of_mem_finReplies (hkind : p.kind = .fin) (h : tx ∈ finReplies env adapter m p) :
    Reply env m p tx := by
  rcases List.mem_cons.mp h with rfl | h
  · exact .fin hkind
  · unfold finProbes at h
    -- every branch is the probe of one report
    refine .probe ?_
    split at h
    · exact isProbe_of_mem h
    · split at h
      · exact isProbe_of_mem h
      · split at h <;> exact isProbe_of_mem h

/-- Every packet that is sent in answer to another is one of the cases of `Reply`. -/
theorem reply_of_mem_replies (h : tx ∈ replies env adapter m p) : Reply env m p tx := by
  unfold replies at h
  split at h
  · exact .probe (isProbe_of_mem h)
  · next hkind => exact reply_of_mem_finReplies hkind h
  · next hkind => exact reply_of_mem_synAckReplies hkind h
  · next hkind => exact reply_of_mem_ackReplies hkind h
  · exact absurd h List.not_mem_nil

/-! ### How many -/

theorem length_probes_le (env : ResponderEnv A B) (adapter : A) (key : Endpoint)
    (hash : Option (BitVec 64)) : (probes env adapter key hash).length ≤ 1 :=
  Option.length_toList_le

/-- Data leads to one answer to the host and one probe at most. -/
theorem length_dataReplies_le (env : ResponderEnv A B) (adapter : A) (p : Packet) (state : State) :
    (dataReplies env adapter p state).length ≤ 2 := by
  unfold dataReplies
  dsimp only
  split
  · exact Nat.succ_le_succ (length_probes_le ..)
  · rw [List.length_append]
    exact Nat.succ_le_succ (length_probes_le ..)
  · exact Nat.le_succ 1

theorem length_finProbes_le (env : ResponderEnv A B) (adapter : A) (m : Tracker B) (p : Packet) :
    (finProbes env adapter m p).length ≤ 1 := by
  unfold finProbes
  split
  · exact length_probes_le ..
  · split
    · exact length_probes_le ..
    · split <;> exact length_probes_le ..

/-- A packet is answered with two packets at most. -/
theorem length_replies_le (env : ResponderEnv A B) (adapter : A) (m : Tracker B) (p : Packet) :
    (replies env adapter m p).length ≤ 2 := by
  unfold replies
  split
  · -- a reset is only reported, and never answered
    exact (length_probes_le ..).trans (Nat.le_succ 1)
  · exact Nat.succ_le_succ (length_finProbes_le ..)
  · unfold synAckReplies
    split
    · exact (length_probes_le ..).trans (Nat.le_succ 1)
    · split
      · exact Nat.succ_le_succ (length_probes_le ..)
      · exact Nat.le_succ 1
  · unfold ackReplies
    split
    · -- a probe and a reset
      rw [List.length_append]
      exact Nat.succ_le_succ (length_probes_le ..)
    · split
      · exact Nat.zero_le _
      · split
        · exact Nat.le_succ 1
        · split
          · exact Nat.zero_le _
          · exact length_dataReplies_le ..
  · exact Nat.zero_le _

end Cases

/-! ### Expiry passes -/

/-- The invariant rule of the expiry loop. `J` holds between the removal of a connection and the
report of it. -/
theorem expiryLoop_rule {env : ResponderEnv A B} {I : Responder A B → Prop}
    {J : State → Responder A B → Prop} (now : ℕ)
    (hqueue : ∀ w pendingExpiry expiries, I w →
      I { w with toTracker := w.toTracker.withQueue pendingExpiry expiries })
    (hremove : ∀ w key state, I w → w.connections key = some state →
      J state { w with toTracker := w.toTracker.remove key })
    (hrecord : ∀ state : State,
      Triple (J state) (recordEmpty env state.ip state.port) (fun _ => I) I) (queue : List Expiry) :
    Triple I (expiryLoop env now queue) (fun _ => I) I := by
  -- on the queue: `I` holds between two entries, and `J` between the removal and the report
  induction queue with
  | nil => exact Triple.modify fun w h => hqueue w none [] h
  | cons entry rest ih =>
    obtain ⟨expiry, key⟩ := entry
    refine Triple.bind (Q := fun _ => I) (Triple.modify fun w h => hqueue w none rest h) fun _ => ?_
    refine Triple.get_bind fun w hw => ?_
    split
    · -- the connection has gone before: nothing to do for this entry
      exact ih.mono (fun _ h => h ▸ hw) (fun _ _ h => h) fun _ h => h
    · next state hstate =>
      split
      · -- not due yet: kept for the next tick
        exact Triple.modify fun _ h => hqueue _ (some (expiry, key)) _ (h ▸ hw)
      · refine Triple.bind (Q := fun _ => J state) (Triple.modify ?_) fun _ => ?_
        · rintro _ rfl
          exact hremove _ key state hw hstate
        · exact Triple.bind (hrecord state) fun _ => ih

/-- What a report does: the tracker stays, and one probe at most is sent. -/
theorem record_effect (env : ResponderEnv A B) (key : Endpoint) (hash : Option (BitVec 64))
    {I J : Responder A B → Prop}
    (h : ∀ w t adapter, J w → t.toTracker = w.toTracker →
      Answered False w.sent (probes env adapter key hash) t → I t) :
    Triple J (record env key.1 key.2 hash) (fun _ => I) I := by
  refine Triple.of_forall fun w hw => ?_
  -- what is sent and what is remembered are known from two triples, and both hold at once
  have hspoken : Triple (· = w) (record env key.1 key.2 hash)
      (fun _ => Answered False w.sent (probes env w.adapter key hash))
      (Answered False w.sent (probes env w.adapter key hash)) := by
    have hspec := @record_answered A B False w.toTracker w.adapter w.sent [] _ env key hash
      (List.nil_append _)
    refine hspec.mono ?_ (fun _ _ h => h) fun _ h => h
    rintro _ rfl
    exact ⟨rfl, rfl, (List.append_nil _).symm, False.elim⟩
  have htracker : Triple (· = w) (record env key.1 key.2 hash)
      (fun _ t => t.toTracker = w.toTracker) fun t => t.toTracker = w.toTracker := by
    have hspec := @record_spec A B False w.toTracker env key.1 key.2 hash
      (fun t => t.toTracker = w.toTracker) fun _ _ h => h
    refine hspec.mono ?_ (fun _ _ h => h.1) fun _ h => h
    rintro _ rfl
    exact ⟨rfl, False.elim⟩
  exact (hspoken.and htracker).mono (fun _ h => h) (fun _ t ht => h w t _ hw ht.2 ht.1)
    fun t ht => h w t _ hw ht.2 ht.1

section Expiry

variable {env : ResponderEnv A B}

/-- An invariant of the expiry loop holds after a pass. -/
theorem expire_of_loop {I : Responder A B → Prop} {w : Responder A B} {now : ℕ} {wakes : List Wake}
    (h : Triple I (expiryLoop env now w.queue) (fun _ => I) I) (hw : I { w with wakes }) :
    I (expire env now wakes w).2 := by
  rcases h.cases hw with ⟨_, _, h⟩ | ⟨_, h⟩
  · exact h
  · exact h

/-- Since `base`, only probes were sent. -/
def OnlyProbes (env : ResponderEnv A B) (base : List TxPacket) (w : Responder A B) : Prop :=
  ∃ added, w.sent = base ++ added ∧ ∀ tx ∈ added, IsProbe env tx

/-- An expiry pass sends probes only. -/
theorem expire_onlyProbes (env : ResponderEnv A B) (now : ℕ) (wakes : List Wake)
    (w : Responder A B) : OnlyProbes env w.sent (expire env now wakes w).2 := by
  refine expire_of_loop (expiryLoop_rule (J := fun _ => OnlyProbes env w.sent) now
    (fun _ _ _ h => h) (fun _ _ _ h _ => h)
    (fun state => record_effect env (state.ip, state.port) none ?_) _)
    ⟨[], (List.append_nil _).symm, fun _ h => absurd h List.not_mem_nil⟩
  rintro s t adapter ⟨added, hsent, hprobes⟩ _ ⟨said, hpre, hsaid, _⟩
  refine ⟨added ++ said, ?_, fun tx htx => ?_⟩
  · rw [hsaid, hsent, List.append_assoc]
  · rcases List.mem_append.mp htx with htx | htx
    · exact hprobes tx htx
    · exact isProbe_of_mem (hpre.subset htx)

/-- The packets sent and the live connections, with some credit, are at most twice `n`. A connection
sends one more probe at most without a packet of its own, when it expires. -/
def Balanced (n credit : ℕ) (w : Responder A B) : Prop :=
  ∃ live, w.LiveIn live ∧ w.sent.length + live.card + credit ≤ 2 * n

/-- The removal of a connection pays for the probe. -/
theorem Balanced.remove {n : ℕ} {w : Responder A B} {key : Endpoint} (h : Balanced n 0 w)
    (hkey : (w.connections key).isSome) :
    Balanced n 1 { w with toTracker := w.toTracker.remove key } := by
  obtain ⟨live, hlive, hle⟩ := h
  have hmem := hlive key hkey
  have hpos := Finset.card_pos.mpr ⟨key, hmem⟩
  refine ⟨live.erase key, hlive.remove, ?_⟩
  rw [Finset.card_erase_of_mem hmem]
  dsimp only
  omega

/-- An expiry pays for its probe with the connection that it removes. -/
theorem Balanced.expire {n : ℕ} {w : Responder A B} (h : Balanced n 0 w) (now : ℕ)
    (wakes : List Wake) : Balanced n 0 (Responder.expire env now wakes w).2 := by
  refine expire_of_loop (expiryLoop_rule (J := fun _ => Balanced n 1) now (fun _ _ _ h => h)
    (fun _ _ state h hstate => h.remove (Option.isSome_iff_exists.mpr ⟨state, hstate⟩))
    (fun state => record_effect env (state.ip, state.port) none ?_) _) h
  rintro s t adapter ⟨live, hlive, hle⟩ htracker ⟨said, hpre, hsaid, _⟩
  have hlength := hpre.length_le.trans (length_probes_le env adapter (state.ip, state.port) none)
  refine ⟨live, htracker ▸ hlive, ?_⟩
  rw [hsaid, List.length_append]
  omega

end Expiry

/-! ### Runs -/

/-- A property of all packets sent, after a step: probes have it, and so do the answers to the
packet. -/
theorem forall_sent_step {env : ResponderEnv A B} {w : Responder A B} {P : TxPacket → Prop}
    {event : Event} (h : ∀ tx ∈ w.sent, P tx) (hprobe : ∀ tx, IsProbe env tx → P tx)
    (hreply : ∀ arrival, event = .packet arrival →
      ∀ tx, Reply env w.toTracker arrival.packet tx → P tx) :
    ∀ tx ∈ (step env w event).sent, P tx := by
  intro tx htx
  cases event with
  | packet arrival =>
    -- only a prefix is sent if a wake-up fails, but each packet of it is a reply
    obtain ⟨said, hpre, hsent, _⟩ := receive_sent env arrival w
    rw [step, hsent] at htx
    rcases List.mem_append.mp htx with htx | htx
    · exact h tx htx
    · exact hreply arrival rfl tx (reply_of_mem_replies (hpre.subset htx))
  | expiry now wakes =>
    -- the expiry of connections sends probes and nothing else
    obtain ⟨added, hsent, hprobes⟩ := expire_onlyProbes env now wakes w
    rw [step, hsent] at htx
    rcases List.mem_append.mp htx with htx | htx
    · exact h tx htx
    · exact hprobe tx (hprobes tx htx)

/-- What was sent stays sent. -/
theorem sent_subset_step (env : ResponderEnv A B) (w : Responder A B) (event : Event) :
    w.sent ⊆ (step env w event).sent := by
  cases event with
  | packet arrival =>
    obtain ⟨said, _, hsent, _⟩ := receive_sent env arrival w
    rw [step, hsent]
    exact List.subset_append_left _ _
  | expiry now wakes =>
    obtain ⟨added, hsent, _⟩ := expire_onlyProbes env now wakes w
    rw [step, hsent]
    exact List.subset_append_left _ _

/-- The packet goes back to where `p` came from, and our payload only to a host that has returned
the cookie. -/
structure SendsBack (env : ResponderEnv A B) (p : Packet) (tx : TxPacket) : Prop where
  key : (tx.ip, tx.port) = p.key
  sourcePort : tx.sourcePort = p.hdr.destPort
  body : tx.body ≠ [] → p.Authentic env p.key ∧ env.build p.ip p.hdr.sourcePort = some tx.body ∧
    tx.seq = cookie p.ip p.hdr.sourcePort env.seed + 1 ∧ tx.ack = p.hdr.seq + 1

/-- Every reply is a probe or goes back to where the packet came from. -/
theorem Reply.sendsBack {env : ResponderEnv A B} {m : Tracker B} {p : Packet} {tx : TxPacket}
    (h : Reply env m p tx) : IsProbe env tx ∨ SendsBack env p tx := by
  cases h with
  | probe h => exact .inl h
  | request payload hkind hack hbuild =>
    exact .inr ⟨rfl, rfl, fun _ => ⟨⟨hkind, rfl, hack⟩, hbuild, hack, rfl⟩⟩
  | refuse | stray | duplicate | data | fin => exact .inr ⟨rfl, rfl, fun h => absurd rfl h⟩

variable {env : ResponderEnv A B}

/-- A packet that may create a connection is answered with our payload alone. -/
theorem replies_of_authentic {adapter : A} {m : Tracker B} {p : Packet} {payload : List UInt8}
    (hauth : p.Authentic env p.key) (hbuild : env.build p.ip p.hdr.sourcePort = some payload) :
    replies env adapter m p = [p.request payload] := by
  have hack : ¬ p.hdr.ack ≠ cookie p.ip p.hdr.sourcePort env.seed + 1 := not_not.mpr hauth.2.2
  rw [replies, hauth.1]
  dsimp only
  rw [synAckReplies, if_neg hack, hbuild]

/-- A packet leads to two packets at most, or to one and a connection, so it adds two to the
balance. -/
theorem Balanced.receive {n : ℕ} {w : Responder A B} (h : Balanced n 0 w) (arrival : Arrival) :
    Balanced (n + 1) 0 (Responder.receive env arrival w).2 := by
  obtain ⟨live, hlive, hle⟩ := h
  obtain ⟨said, hpre, hsent, _⟩ := receive_sent env arrival w
  have hlength : (Responder.receive env arrival w).2.sent.length ≤
      w.sent.length + (replies env w.adapter w.toTracker arrival.packet).length := by
    rw [hsent, List.length_append]
    exact Nat.add_le_add_left hpre.length_le _
  have hstep := (receive_spec env arrival w).1
  by_cases hcreates : arrival.packet.Authentic env arrival.packet.key ∧
      ∃ payload, env.build arrival.packet.ip arrival.packet.hdr.sourcePort = some payload
  · -- one packet and one connection
    obtain ⟨hauth, payload, hbuild⟩ := hcreates
    rw [replies_of_authentic hauth hbuild, List.length_singleton] at hlength
    refine ⟨insert arrival.packet.key live, fun key hkey => ?_, ?_⟩
    · by_cases hpacket : key = arrival.packet.key
      · exact Finset.mem_insert.mpr (.inl hpacket)
      · rw [(hstep.frame hpacket).1] at hkey
        exact Finset.mem_insert_of_mem (hlive key hkey)
    · have hcard := Finset.card_insert_le arrival.packet.key live
      omega
  · -- two packets and no connection
    have htwo := length_replies_le env w.adapter w.toTracker arrival.packet
    refine ⟨live, fun key hkey => ?_, by omega⟩
    obtain ⟨state', hstate'⟩ := Option.isSome_iff_exists.mp hkey
    rcases hstep.origin hstate' with ⟨hauth, payload, hbuild, _⟩ | ⟨state, hstate, _⟩
    · obtain ⟨hkind, rfl, hack⟩ := hauth
      exact absurd ⟨⟨hkind, rfl, hack⟩, payload, hbuild⟩ hcreates
    · exact hlive key (Option.isSome_iff_exists.mpr ⟨state, hstate⟩)

end Responder

end Farsight
