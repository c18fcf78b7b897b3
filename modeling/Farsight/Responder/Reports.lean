import Farsight.Responder.Replies

/-!
# Why the responder sends what it sends

A probe of the responder is a template that `PortAdapter::on_result` has returned. To say which call
a probe comes from, the calls are logged: a strategy with a log answers as the strategy does, and
nothing reads the log (`Responder.run_logged`). So every statement about the log of a run is one
about the calls of the run without it.

* `Responder.processPacket_keeps` — the invariant rule of the packet handlers: they send packets
  that are no probes, report the endpoint of the packet, and change what is remembered;
* `ResponderEnv.logged`, `Responder.reports` — the log of a run;
* `Responder.Attributed` — the endpoint that an event may report: that of the packet, or that of a
  connection that expires;
* `Responder.sent_justified` — over a whole run, at most two packets for each packet received. The
  probes are templates of the log, each sent once at most, and everything else goes back to where a
  received packet came from.
-/

namespace Farsight

open Handler
open Responder (State Event Arrival)

variable {A B : Type}

/-! ### An invariant rule for the packet handlers -/

/-- The flags that the handlers answer with have no `SYN`, so that a `SYN` among the sent packets is
a probe. -/
theorem TcpFlags.contains_syn_rst : TcpFlags.contains .rst .syn = false := by decide

theorem TcpFlags.contains_syn_ack : TcpFlags.contains .ack .syn = false := by decide

theorem TcpFlags.contains_syn_pshAck : TcpFlags.contains (.psh ||| .ack) .syn = false := by decide

namespace Responder

section Keeps

open TcpFlags (contains_syn_rst contains_syn_ack contains_syn_pshAck)

variable {env : ResponderEnv A B} {I : Responder A B → Prop} {p : Packet}
  (htrack : ∀ f, Keeps I (track f))
  (hanswer : ∀ tx : TxPacket, tx.flags.contains .syn = false → Keeps I (transmit tx))
  (hrecord : ∀ hash, Keeps I (record env p.ip p.hdr.sourcePort hash))

include htrack hanswer hrecord

/-- A `SYN+ACK` is answered by the payload, or by a reset if none can be built; one with a wrong
cookie is only reported. -/
theorem processSynAck_keeps (now : ℕ) : Keeps I (processSynAck env now p.ip p.hdr) := by
  unfold processSynAck
  dsimp only
  split
  · exact hrecord none
  · split
    · exact Triple.bind (hanswer _ contains_syn_rst) fun _ =>
        Triple.bind (hrecord none) fun _ => Triple.fail fun _ h => h
    · exact Triple.bind (hanswer _ contains_syn_pshAck) fun _ => htrack _

variable (hip : Keeps I (Handler.modify fun w =>
  { w with adapter := env.ipOnResult w.adapter p.ip }))

include hip

omit hanswer in
/-- What follows a result, in both handlers that find one. -/
theorem found_keeps (banner : B) (hash : BitVec 64) :
    Keeps I (do
      Handler.modify fun w => { w with adapter := env.ipOnResult w.adapter p.ip }
      recordHit env p.ip p.hdr.sourcePort hash
      track fun m => m.pushScanling ⟨p.ip, p.hdr.sourcePort, banner⟩) :=
  Triple.bind hip fun _ => Triple.bind (hrecord _) fun _ => htrack _

/-- `process_ack`, branch by branch: each is a sequence of the four things that a handler does. -/
theorem processAck_keeps : Keeps I (processAck env p.ip p.hdr p.payload) := by
  unfold processAck
  dsimp only
  refine Keeps.get_bind fun w => ?_
  -- without a connection the packet is reset, and the failure is reported
  split
  · exact Triple.bind (hrecord none) fun _ => hanswer _ contains_syn_rst
  · split
    · exact Triple.pure fun _ h => h
    · split
      · -- out of sequence: put aside and acknowledged
        exact Triple.bind (htrack _) fun _ => hanswer _ contains_syn_ack
      · split
        · exact Triple.pure fun _ h => h
        · refine Triple.bind (htrack _) fun _ => ?_
          -- the verdict of the parser
          split
          · exact Triple.bind (htrack _) fun _ =>
              Triple.bind (hanswer _ contains_syn_rst) fun _ => found_keeps htrack hrecord hip _ _
          · exact Triple.bind (hrecord none) fun _ =>
              Triple.bind (htrack _) fun _ => hanswer _ contains_syn_rst
          · exact Triple.bind (htrack _) fun _ => hanswer _ contains_syn_ack

/-- `process_fin`: the reset is sent before the connection is looked up. -/
theorem processFin_keeps : Keeps I (processFin env p.ip p.hdr p.payload) := by
  unfold processFin
  dsimp only
  refine Triple.bind (hanswer _ contains_syn_rst) fun _ => ?_
  refine Keeps.get_bind fun w => ?_
  refine Triple.bind (htrack _) fun _ => ?_
  -- no connection; nothing new; or the data for the parser
  split
  · exact hrecord none
  · split
    · exact hrecord none
    · refine Triple.bind (htrack _) fun _ => ?_
      split
      · exact found_keeps htrack hrecord hip _ _
      · exact hrecord none

/-- The invariant rule of the packet handlers. Whatever a packet is, its handler only changes what
is remembered, answers without a `SYN`, tells the IP strategy of the host, and reports the endpoint
of the packet. -/
theorem processPacket_keeps (now : ℕ) : Keeps I (processPacket env now p) := by
  unfold processPacket
  split
  · exact Triple.bind (hrecord none) fun _ => htrack _
  · split
    · exact processFin_keeps htrack hanswer hrecord hip
    · split
      · exact processSynAck_keeps htrack hanswer hrecord now
      · split
        · exact processAck_keeps htrack hanswer hrecord hip
        · exact Triple.pure fun _ h => h

end Keeps

section Rules

variable {env : ResponderEnv A B} {I : Responder A B → Prop}

/-- A send adds its packet, or fails before it is submitted. -/
theorem transmit_rule {J : Responder A B → Prop} {tx : TxPacket}
    (hwakes : ∀ w wakes, J w → I { w with wakes })
    (hsent : ∀ w wakes, J w → I { w with sent := w.sent ++ [tx], wakes }) :
    Triple J (transmit tx) (fun _ => I) I := by
  intro w hw
  cases hnext : w.wakes with
  | nil =>
    simp only [transmit, hnext]
    exact hnext ▸ hsent w w.wakes hw
  | cons wake wakes =>
    -- the send fails before the submission, or the wake-up fails after it
    cases wake with
    | ok =>
      simp only [transmit, hnext]
      exact hsent w wakes hw
    | failBefore =>
      simp only [transmit, hnext]
      exact hwakes w wakes hw
    | failAfter =>
      simp only [transmit, hnext]
      exact hsent w wakes hw

/-- A report is one call of the strategy, and then a send of what it has returned. `J` holds between
the two. -/
theorem record_keeps {ip : Ipv4Addr} {port : BitVec 16} {hash : Option (BitVec 64)}
    {J : Option PacketTemplate → Responder A B → Prop}
    (hcall : ∀ w, I w → J (env.onResult w.adapter ip port hash).1
      { w with adapter := (env.onResult w.adapter ip port hash).2 })
    (hnone : ∀ w, J none w → I w)
    (hsome : ∀ template, Triple (J (some template)) (transmit (.probe template env.seed))
      (fun _ => I) I) :
    Keeps I (record env ip port hash) := by
  refine Triple.get_bind fun w hw => ?_
  have hcall' := hcall w hw
  -- what the strategy returns decides whether a probe follows
  generalize env.onResult w.adapter ip port hash = result at hcall' ⊢
  obtain ⟨template, adapter⟩ := result
  refine Triple.bind (Q := fun _ => J template) (Triple.modify ?_) fun _ => ?_
  · rintro _ rfl
    exact hcall'
  · cases template with
    | none => exact Triple.pure hnone
    | some template => exact hsome template

end Rules

end Responder

/-! ### The log -/

/-- A call of `PortAdapter::on_result`: what it was told, and the template that it returned. -/
structure ResultReport where
  key : Endpoint
  hash : Option (BitVec 64)
  template : Option PacketTemplate
  deriving DecidableEq, Repr

/-- A strategy with a log of these calls. -/
structure Logged (A : Type) where
  adapter : A
  reports : List ResultReport

def Logged.onResult (env : ResponderEnv A B) (logged : Logged A) (ip : Ipv4Addr)
    (port : BitVec 16) (hash : Option (BitVec 64)) : Option PacketTemplate × Logged A :=
  let (template, adapter) := env.onResult logged.adapter ip port hash
  (template, ⟨adapter, logged.reports ++ [⟨(ip, port), hash, template⟩]⟩)

/-- The environment with a log. -/
def ResponderEnv.logged (env : ResponderEnv A B) : ResponderEnv (Logged A) B where
  onResult := Logged.onResult env
  ipOnResult := fun logged ip => { logged with adapter := env.ipOnResult logged.adapter ip }
  build := env.build
  parse := env.parse
  hash64 := env.hash64
  seed := env.seed
  maxReorderSegments := env.maxReorderSegments
  maxReorderBytes := env.maxReorderBytes
  timeout := env.timeout

section Simp

variable (env : ResponderEnv A B)

/-- The log is kept beside the adapter, so all that does not go through the adapter is as before. -/
@[simp] theorem ResponderEnv.logged_build : env.logged.build = env.build := rfl

@[simp] theorem ResponderEnv.logged_parse : env.logged.parse = env.parse := rfl

@[simp] theorem ResponderEnv.logged_seed : env.logged.seed = env.seed := rfl

end Simp

namespace Responder

/-- The responder without the log. -/
def forget (w : Responder (Logged A) B) : Responder A B where
  toTracker := w.toTracker
  adapter := w.adapter.adapter
  sent := w.sent
  wakes := w.wakes

@[simp] theorem connections_forget (w : Responder (Logged A) B) :
    w.forget.connections = w.connections := rfl

/-- The calls of `PortAdapter::on_result` in a run, with what they have returned. -/
def reports (env : ResponderEnv A B) (adapter : A) (events : List Event) : List ResultReport :=
  (run env.logged (new ⟨adapter, []⟩) events).adapter.reports

/-! ### The log changes nothing -/

/-- The responders differ in the log only. -/
def Logs (w : Responder (Logged A) B) (w' : Responder A B) : Prop :=
  w' = w.forget

theorem transmit_logs (packet : TxPacket) :
    Sim (Logs (A := A) (B := B)) (transmit packet) (transmit packet) := by
  rintro w _ rfl
  have hforget : w.forget.wakes = w.wakes := rfl
  unfold transmit
  rw [hforget]
  cases w.wakes with
  | nil => exact ⟨rfl, rfl⟩
  | cons wake wakes => cases wake <;> exact ⟨rfl, rfl⟩

theorem track_logs (f : Tracker B → Tracker B) :
    Sim (Logs (A := A)) (track f) (track f) := by
  refine Sim.modify ?_
  rintro w _ rfl
  rfl

theorem ipOnResult_logs (env : ResponderEnv A B) (ip : Ipv4Addr) :
    Sim (Logs (A := A) (B := B))
      (Handler.modify fun w => { w with adapter := env.logged.ipOnResult w.adapter ip })
      (Handler.modify fun w => { w with adapter := env.ipOnResult w.adapter ip }) := by
  refine Sim.modify ?_
  rintro w _ rfl
  rfl

/-- `record` is the one place where the log grows, by what `on_result` was called with and has
returned. -/
theorem record_logs (env : ResponderEnv A B) (ip : Ipv4Addr) (port : BitVec 16)
    (hash : Option (BitVec 64)) :
    Sim Logs (record env.logged ip port hash) (record env ip port hash) := by
  refine Sim.get_bind ?_
  rintro w _ rfl
  -- both calls return the same template
  rcases hresult : env.onResult w.adapter.adapter ip port hash with ⟨template, adapter⟩
  have hlogged : env.logged.onResult w.adapter ip port hash =
      (template, ⟨adapter, w.adapter.reports ++ [⟨(ip, port), hash, template⟩]⟩) := by
    simp only [ResponderEnv.logged, Logged.onResult, hresult]
  have hforget : env.onResult w.forget.adapter ip port hash = (template, adapter) := hresult
  rw [hlogged, hforget]
  refine Sim.bind (Sim.modify ?_) fun _ => ?_
  · rintro v _ rfl
    rfl
  · cases template with
    | none => exact Sim.pure
    | some template => exact transmit_logs _

section Logs

variable (env : ResponderEnv A B) (now : ℕ) (ip : Ipv4Addr) (hdr : TcpHdr) (payload : List UInt8)

/-- The handlers take the same branches with and without the log: `build`, `parse` and the seed are
those of the environment. -/
theorem processSynAck_logs :
    Sim Logs (processSynAck env.logged now ip hdr) (processSynAck env now ip hdr) := by
  unfold processSynAck
  dsimp only
  rw [ResponderEnv.logged_build, ResponderEnv.logged_seed]
  split
  · exact record_logs env _ _ _
  · cases env.build ip hdr.sourcePort with
    | none =>
      exact Sim.bind (transmit_logs _) fun _ => Sim.bind (record_logs env _ _ _) fun _ => Sim.fail
    | some payload => exact Sim.bind (transmit_logs _) fun _ => track_logs _

/-- What follows a result. -/
theorem found_logs (port : BitVec 16) (banner : B) :
    Sim Logs
      (do
        Handler.modify fun w => { w with adapter := env.logged.ipOnResult w.adapter ip }
        recordHit env.logged ip port (env.logged.hash64 banner)
        track fun m => m.pushScanling ⟨ip, port, banner⟩)
      (do
        Handler.modify fun w => { w with adapter := env.ipOnResult w.adapter ip }
        recordHit env ip port (env.hash64 banner)
        track fun m => m.pushScanling ⟨ip, port, banner⟩) :=
  Sim.bind (ipOnResult_logs env ip) fun _ =>
    Sim.bind (record_logs env _ _ _) fun _ => track_logs _

/-- The same of a `FIN`, -/
theorem processFin_logs :
    Sim Logs (processFin env.logged ip hdr payload) (processFin env ip hdr payload) := by
  unfold processFin
  dsimp only
  refine Sim.bind (transmit_logs _) fun _ => Sim.get_bind ?_
  rintro w _ rfl
  refine Sim.bind (track_logs _) fun _ => ?_
  rw [connections_forget]
  cases w.connections (ip, hdr.sourcePort) with
  | none => exact record_logs env _ _ _
  | some state =>
    dsimp only
    split
    · exact record_logs env _ _ _
    · refine Sim.bind (track_logs _) fun _ => ?_
      -- both hand the same data to the same parser
      rw [ResponderEnv.logged_parse]
      cases env.parse (state.data ++ payload) with
      | ok banner => exact found_logs env ip _ _
      | error e => exact record_logs env _ _ _

/-- and of any other segment. -/
theorem processAck_logs :
    Sim Logs (processAck env.logged ip hdr payload) (processAck env ip hdr payload) := by
  unfold processAck
  dsimp only
  refine Sim.get_bind ?_
  rintro w _ rfl
  rw [connections_forget]
  cases w.connections (ip, hdr.sourcePort) with
  | none => exact Sim.bind (record_logs env _ _ _) fun _ => transmit_logs _
  | some state =>
    dsimp only
    -- the tests compare with the connection, which is the same on both sides
    split
    · exact Sim.pure
    · split
      · exact Sim.bind (track_logs _) fun _ => transmit_logs _
      · split
        · exact Sim.pure
        · refine Sim.bind (track_logs _) fun _ => ?_
          rw [ResponderEnv.logged_parse]
          cases env.parse (state.append payload).stitch.data with
          | ok banner =>
            exact Sim.bind (track_logs _) fun _ =>
              Sim.bind (transmit_logs _) fun _ => found_logs env ip _ _
          | error e =>
            cases e with
            | invalid =>
              exact Sim.bind (record_logs env _ _ _) fun _ =>
                Sim.bind (track_logs _) fun _ => transmit_logs _
            | incomplete => exact Sim.bind (track_logs _) fun _ => transmit_logs _

/-- The dispatch looks at the packet only. -/
theorem processPacket_logs (p : Packet) :
    Sim Logs (processPacket env.logged now p) (processPacket env now p) := by
  unfold processPacket
  split
  · exact Sim.bind (record_logs env _ _ _) fun _ => track_logs _
  · split
    · exact processFin_logs env _ _ _
    · split
      · exact processSynAck_logs env _ _ _
      · split
        · exact processAck_logs env _ _ _
        · exact Sim.pure

/-- An expiry pass logs a report for each connection that it gives up. -/
theorem expiryLoop_logs (queue : List Expiry) :
    Sim Logs (expiryLoop env.logged now queue) (expiryLoop env now queue) := by
  induction queue with
  | nil => exact track_logs _
  | cons entry rest ih =>
    refine Sim.bind (track_logs _) fun _ => Sim.get_bind ?_
    rintro w _ rfl
    rw [connections_forget]
    cases w.connections entry.2 with
    -- the connection is gone: the entry is skipped
    | none => exact ih
    | some connection =>
      dsimp only
      -- extended meanwhile, or due
      split
      · exact track_logs _
      · exact Sim.bind (track_logs _) fun _ => Sim.bind (record_logs env _ _ _) fun _ => ih

end Logs

/-- A step with a log is the step without it. -/
theorem step_logged (env : ResponderEnv A B) (w : Responder (Logged A) B) (event : Event) :
    (step env.logged w event).forget = step env w.forget event := by
  cases event with
  | packet arrival =>
    exact (processPacket_logs env arrival.now arrival.packet
      { w with wakes := arrival.wakes } _ rfl).2.symm
  | expiry now wakes => exact (expiryLoop_logs env now w.queue { w with wakes } _ rfl).2.symm

/-- **The log changes nothing**, over a whole run. -/
theorem run_logged (env : ResponderEnv A B) (w : Responder (Logged A) B) (events : List Event) :
    (run env.logged w events).forget = run env w.forget events := by
  induction events generalizing w with
  | nil => rfl
  | cons event events ih =>
    change (run env.logged (step env.logged w event) events).forget = _
    rw [ih, step_logged]
    rfl

end Responder

/-! ### Where the probes come from -/

/-- The probes that the templates of a log ask for. -/
def ResultReport.asked (seed : BitVec 64) (reports : List ResultReport) : List TxPacket :=
  (reports.filterMap (·.template)).map (TxPacket.probe · seed)

/-- The packets with a `SYN`. Only probes have one. -/
def TxPacket.syns (sent : List TxPacket) : List TxPacket :=
  sent.filter (·.flags.contains .syn)

theorem ResultReport.asked_concat (seed : BitVec 64) (reports : List ResultReport)
    (report : ResultReport) :
    asked seed (reports ++ [report]) =
      asked seed reports ++ (report.template.map (TxPacket.probe · seed)).toList := by
  rw [asked, asked, List.filterMap_append, List.map_append]
  cases htemplate : report.template with
  | none => rw [List.filterMap_cons_none htemplate, List.filterMap_nil]; rfl
  | some template => rw [List.filterMap_cons_some htemplate, List.filterMap_nil]; rfl

theorem TxPacket.syns_concat_probe (sent : List TxPacket) (template : PacketTemplate)
    (seed : BitVec 64) :
    syns (sent ++ [.probe template seed]) = syns sent ++ [.probe template seed] := by
  have hsyn : (TxPacket.probe template seed).flags.contains .syn :=
    (by decide : TcpFlags.contains .syn .syn)
  rw [syns, List.filter_append]
  exact congrArg (syns sent ++ ·) (List.filter_eq_self.mpr (List.forall_mem_singleton.mpr hsyn))

theorem TxPacket.syns_concat_answer (sent : List TxPacket) {tx : TxPacket}
    (h : tx.flags.contains .syn = false) : syns (sent ++ [tx]) = syns sent := by
  rw [syns, List.filter_append, List.filter_cons_of_neg (by rw [h]; exact Bool.false_ne_true),
    List.filter_nil, List.append_nil, syns]

namespace Responder

/-- Since the log was `base`, only these endpoints were reported; and the probes sent so far are
templates of the log, each once at most and in order. -/
structure LogInv (seed : BitVec 64) (about : Endpoint → Prop) (base : List ResultReport)
    (w : Responder (Logged A) B) : Prop where
  probes : (TxPacket.syns w.sent).Sublist (ResultReport.asked seed w.adapter.reports)
  added : ∃ added, w.adapter.reports = base ++ added ∧ ∀ report ∈ added, about report.key

section LogInv

variable {env : ResponderEnv A B} {about : Endpoint → Prop} {base : List ResultReport}
  {I : Responder (Logged A) B → Prop}

theorem track_logInv (f : Tracker B → Tracker B) :
    Keeps (LogInv (A := A) env.seed about base) (track f) :=
  Triple.modify fun _ h => ⟨h.probes, h.added⟩

theorem transmit_logInv {tx : TxPacket} (htx : tx.flags.contains .syn = false) :
    Keeps (LogInv (A := A) (B := B) env.seed about base) (transmit tx) := by
  refine transmit_rule (fun _ _ h => ⟨h.probes, h.added⟩) fun w _ h => ⟨?_, h.added⟩
  rw [TxPacket.syns_concat_answer w.sent htx]
  exact h.probes

/-- A report adds its template to the log, and then at most the probe of the template to what was
sent. -/
theorem record_logInv (about : Endpoint → Prop) {key : Endpoint} (hkey : about key)
    (hash : Option (BitVec 64)) :
    Keeps (LogInv env.seed about base) (record env.logged key.1 key.2 hash) := by
  refine record_keeps (J := fun template w =>
    (TxPacket.syns w.sent ++ (template.map (TxPacket.probe · env.seed)).toList).Sublist
      (ResultReport.asked env.seed w.adapter.reports) ∧
    ∃ added, w.adapter.reports = base ++ added ∧ ∀ report ∈ added, about report.key)
    (fun w h => ⟨?_, ?_⟩) (fun w h => ⟨?_, h.2⟩) fun template => ?_
  · -- the call is logged, with the probe that it asks for still to be sent
    change List.Sublist _ (ResultReport.asked env.seed (w.adapter.reports ++ [_]))
    rw [ResultReport.asked_concat]
    exact h.probes.append (List.Sublist.refl _)
  · -- the new entry is about `key`
    obtain ⟨added, hadded, hall⟩ := h.added
    refine ⟨added ++ [⟨key, hash, (env.onResult w.adapter.adapter key.1 key.2 hash).1⟩], ?_,
      fun report hreport => ?_⟩
    · rw [← List.append_assoc, ← hadded]
      rfl
    · rcases List.mem_append.mp hreport with hold | hnew
      · exact hall report hold
      · rw [List.mem_singleton.mp hnew]
        exact hkey
  · -- no probe was asked for
    have hprobes := h.1
    rw [Option.map_none, Option.toList_none, List.append_nil] at hprobes
    exact hprobes
  · -- the probe is submitted, or the send fails before
    refine transmit_rule (fun w _ h => ⟨?_, h.2⟩) fun w _ h => ⟨?_, h.2⟩
    · exact (List.sublist_append_left _ _).trans h.1
    · rw [TxPacket.syns_concat_probe]
      exact h.1

/-- What a packet reports is its own endpoint. -/
theorem receive_logInv {arrival : Arrival} {w : Responder (Logged A) B}
    (hprobes : (TxPacket.syns w.sent).Sublist (ResultReport.asked env.seed w.adapter.reports)) :
    LogInv env.seed (· = arrival.packet.key) w.adapter.reports
      (receive env.logged arrival w).2 := by
  -- every report of a packet is about the address and port that it came from
  have hrecord (hash : Option (BitVec 64)) :
      Keeps (LogInv env.seed (· = arrival.packet.key) w.adapter.reports)
        (record env.logged arrival.packet.ip arrival.packet.hdr.sourcePort hash) :=
    record_logInv (· = arrival.packet.key) (rfl : arrival.packet.key = _) hash
  have hkeeps : Keeps (LogInv env.seed (· = arrival.packet.key) w.adapter.reports)
      (processPacket env.logged arrival.now arrival.packet) :=
    processPacket_keeps track_logInv (fun _ => transmit_logInv) hrecord
      (Triple.modify fun _ h => ⟨h.probes, h.added⟩) arrival.now
  exact hkeeps.state (s := { w with wakes := arrival.wakes })
    ⟨hprobes, [], (List.append_nil _).symm, fun _ h => absurd h List.not_mem_nil⟩

/-- What an expiry pass reports is the endpoint of a connection that was there when it began. The
loop removes connections as it goes, so the invariant says that the ones left are among those. -/
theorem expire_logInv {now : ℕ} {wakes : List Wake} {w : Responder (Logged A) B}
    (hprobes : (TxPacket.syns w.sent).Sublist (ResultReport.asked env.seed w.adapter.reports))
    (hkeyed : ∀ key state, w.connections key = some state → (state.ip, state.port) = key) :
    LogInv env.seed (fun key => (w.connections key).isSome) w.adapter.reports
      (expire env.logged now wakes w).2 := by
  let about (key : Endpoint) : Prop := (w.connections key).isSome
  -- the connections that are left are among those at the start of the pass
  let Left (v : Responder (Logged A) B) : Prop :=
    ∀ key state, v.connections key = some state → w.connections key = some state
  -- the loop knows the endpoint of the connection from its removal to its report
  have hloop : Keeps (fun v => LogInv env.seed about w.adapter.reports v ∧ Left v)
      (expiryLoop env.logged now w.queue) := by
    refine expiryLoop_rule (J := fun state v =>
      (LogInv env.seed about w.adapter.reports v ∧ Left v) ∧ about (state.ip, state.port)) now
      (fun v _ _ h => ⟨⟨h.1.probes, h.1.added⟩, h.2⟩) (fun v key state h hstate => ?_)
      (fun state => Triple.of_forall fun v hv => ?_) w.queue
    · refine ⟨⟨⟨h.1.probes, h.1.added⟩, fun key' state' hstate' => ?_⟩, ?_⟩
      · exact h.2 key' state' (Tracker.connections_of_remove hstate')
      · have hstart := h.2 key state hstate
        change (w.connections (state.ip, state.port)).isSome
        rw [hkeyed key state hstart, hstart]
        rfl
    · -- the report is logged, and no connection comes back
      have hlog : Keeps (LogInv env.seed about w.adapter.reports)
          (record env.logged state.ip state.port none) :=
        record_logInv about hv.2 none
      have hleft : Keeps Left (record env.logged state.ip state.port none) :=
        record_keeps (J := fun _ => Left) (fun _ h => h) (fun _ h => h) fun _ =>
          transmit_rule (fun _ _ h => h) fun _ _ h => h
      refine (hlog.and hleft).mono ?_ (fun _ _ h => h) fun _ h => h
      rintro _ rfl
      exact hv.1
  have hend : LogInv env.seed about w.adapter.reports (expire env.logged now wakes w).2 ∧
      Left (expire env.logged now wakes w).2 := by
    refine expire_of_loop hloop ⟨⟨hprobes, [], (List.append_nil _).symm, ?_⟩, fun _ _ h => h⟩
    exact fun _ h => absurd h List.not_mem_nil
  exact hend.1

end LogInv

/-! ### Runs -/

/-- A connection keeps its endpoint when a segment is put aside, -/
theorem bufferSegment_endpoint (env : ResponderEnv A B) (state : State) (seq : BitVec 32)
    (payload : List UInt8) :
    (state.bufferSegment env seq payload).ip = state.ip ∧
      (state.bufferSegment env seq payload).port = state.port := by
  unfold State.bufferSegment
  dsimp only
  split <;> exact ⟨rfl, rfl⟩

theorem accept_endpoint (state : State) (payload : List UInt8) :
    (state.accept payload).ip = state.ip ∧ (state.accept payload).port = state.port :=
  (State.stitch_rule (P := fun s => s.ip = state.ip ∧ s.port = state.port)
    (fun _ _ _ h => h) (state.append payload) ⟨rfl, rfl⟩).1

/-- A connection is stored under its endpoint, which has sent a packet, and so has every endpoint
that was reported. The probes are as in `LogInv`. -/
structure ReportInv (env : ResponderEnv A B) (history : List Packet)
    (w : Responder (Logged A) B) : Prop where
  connections : ∀ key state, w.connections key = some state →
    (state.ip, state.port) = key ∧ ∃ p ∈ history, p.key = key
  probes : (TxPacket.syns w.sent).Sublist (ResultReport.asked env.seed w.adapter.reports)
  reports : ∀ report ∈ w.adapter.reports, ∃ p ∈ history, p.key = report.key

/-- The endpoint that an event may report: the handler of a packet reports the endpoint of the
packet, and an expiry pass that of a connection that was there before the pass. -/
def Attributed (w : Responder A B) (report : ResultReport) : Event → Prop
  | .packet arrival => report.key = arrival.packet.key
  | .expiry _ _ => (w.connections report.key).isSome

variable {env : ResponderEnv A B}

/-- What the next event adds to the log. -/
theorem ReportInv.added {history : List Packet} {w : Responder (Logged A) B}
    (h : ReportInv env history w) (event : Event) :
    (TxPacket.syns (step env.logged w event).sent).Sublist
      (ResultReport.asked env.seed (step env.logged w event).adapter.reports) ∧
    ∃ added, (step env.logged w event).adapter.reports = w.adapter.reports ++ added ∧
      ∀ report ∈ added, Attributed w.forget report event := by
  cases event with
  | packet arrival =>
    have hlog := @receive_logInv A B env arrival w h.probes
    exact ⟨hlog.probes, hlog.added⟩
  | expiry now wakes =>
    -- an expiry reports on the endpoint of its connection
    have hlog := @expire_logInv A B env now wakes w h.probes fun key state hstate =>
      (h.connections key state hstate).1
    exact ⟨hlog.probes, hlog.added⟩

/-- One event: the connections are followed by the cases of the tracker, and the new reports by
`ReportInv.added`. -/
theorem ReportInv.step {past : List Event} {w : Responder (Logged A) B}
    (h : ReportInv env (packets past) w) (event : Event) :
    ReportInv env (packets (past ++ [event])) (step env.logged w event) := by
  -- what came before is still among the packets
  have hpast {key : Endpoint} (hkey : ∃ p ∈ packets past, p.key = key) :
      ∃ p ∈ packets (past ++ [event]), p.key = key := by
    obtain ⟨p, hp, rfl⟩ := hkey
    exact ⟨p, packets_append_left past event hp, rfl⟩
  have hnew (arrival : Arrival) (hevent : event = .packet arrival) :
      arrival.packet ∈ packets (past ++ [event]) :=
    mem_packets.mpr ⟨arrival, List.mem_append_right _ (hevent ▸ List.mem_singleton_self _), rfl⟩
  have hconnections : ∀ key state, w.connections key = some state →
      (state.ip, state.port) = key ∧ ∃ p ∈ packets (past ++ [event]), p.key = key :=
    fun key state hstate => (h.connections key state hstate).imp_right hpast
  obtain ⟨hprobes, added, hadded, hall⟩ := h.added event
  refine ⟨?_, hprobes, fun report hreport => ?_⟩
  · cases event with
    | packet arrival =>
      have hpacket := (receive_spec env.logged arrival w).1
      refine hpacket.forall_connections hconnections
        (fun _ => ⟨rfl, _, hnew arrival rfl, rfl⟩) (fun state _ hstate => ?_)
        (fun state _ hstate => ?_) fun _ _ hstate => hstate
      · obtain ⟨hip, hport⟩ := bufferSegment_endpoint env.logged state arrival.packet.hdr.seq
          arrival.packet.payload
        rwa [hip, hport]
      · obtain ⟨hip, hport⟩ := accept_endpoint state arrival.packet.payload
        rwa [hip, hport]
    -- an expiry pass creates no connection
    | expiry now wakes =>
      intro key state hstate
      have hloop := (expire_spec env.logged now wakes w).1
      exact hconnections key state (hloop.connections_of_some hstate)
  · rw [hadded] at hreport
    rcases List.mem_append.mp hreport with hold | hadded
    · exact hpast (h.reports report hold)
    · -- a new report: the endpoint of the packet, or of a connection, which is that of an earlier
      -- packet
      have hattributed := hall report hadded
      cases event with
      | packet arrival => exact ⟨_, hnew arrival rfl, hattributed.symm⟩
      | expiry now wakes =>
        obtain ⟨state, hstate⟩ := Option.isSome_iff_exists.mp hattributed
        exact (hconnections report.key state hstate).2

/-- By induction over the events, from a responder that has no connection and no report. -/
theorem reportInv_run (env : ResponderEnv A B) (adapter : A) (events : List Event) :
    ReportInv env (packets events) (run env.logged (new ⟨adapter, []⟩) events) := by
  induction events using List.reverseRecOn with
  | nil =>
    refine ⟨fun key state hstate => ?_, List.nil_sublist _, fun report hreport => ?_⟩
    · cases hstate
    · exact absurd hreport List.not_mem_nil
  | append_singleton events event ih =>
    rw [run_concat]
    exact ih.step event

/-- What was sent has a reason. -/
structure Justified (env : ResponderEnv A B) (reports : List ResultReport) (history : List Packet)
    (sent : List TxPacket) : Prop where
  /-- The probes are templates that the strategy has returned, each sent once at most, in order. -/
  probes : (TxPacket.syns sent).Sublist (ResultReport.asked env.seed reports)
  /-- The strategy was asked about endpoints that have sent a packet. -/
  reports : ∀ report ∈ reports, ∃ p ∈ history, p.key = report.key
  answers : ∀ tx ∈ sent, tx.flags.contains .syn = false → ∃ p ∈ history, SendsBack env p tx

theorem IsProbe.syn {tx : TxPacket} (h : IsProbe env tx) : tx.flags.contains .syn := by
  obtain ⟨_, _, _, _, template, _, rfl⟩ := h
  exact (by decide : TcpFlags.contains .syn .syn)

/-- A packet that is no probe goes back to where a received packet came from. -/
theorem answers_run (env : ResponderEnv A B) (adapter : A) (events : List Event) :
    ∀ tx ∈ (run env (new adapter) events).sent, tx.flags.contains .syn = false →
      ∃ p ∈ packets events, SendsBack env p tx := by
  induction events using List.reverseRecOn with
  | nil => exact fun tx htx => absurd htx List.not_mem_nil
  | append_singleton events event ih =>
    -- the packets that came before
    have hpast : ∀ tx ∈ (run env (new adapter) events).sent, tx.flags.contains .syn = false →
        ∃ p ∈ packets (events ++ [event]), SendsBack env p tx := by
      intro tx htx hsyn
      obtain ⟨p, hp, hback⟩ := ih tx htx hsyn
      exact ⟨p, packets_append_left events event hp, hback⟩
    rw [run_concat]
    refine forall_sent_step hpast (fun tx hprobe hsyn => ?_) fun arrival hevent tx hreply hsyn => ?_
    · rw [hprobe.syn] at hsyn
      cases hsyn
    · have hmem : arrival.packet ∈ packets (events ++ [event]) :=
        mem_packets.mpr
          ⟨arrival, List.mem_append_right _ (hevent ▸ List.mem_singleton_self _), rfl⟩
      -- a reply is a probe or goes back to the packet
      rcases hreply.sendsBack with hprobe | hback
      · rw [hprobe.syn] at hsyn
        cases hsyn
      · exact ⟨_, hmem, hback⟩

/-- The count of `Balanced` over the whole run: two sends for each packet pay for its answer and for
the probe of the report that it leads to, now or when its connection expires. -/
theorem balanced_run (env : ResponderEnv A B) (adapter : A) (events : List Event) :
    Balanced (packets events).length 0 (run env (new adapter) events) := by
  induction events using List.reverseRecOn with
  | nil => exact ⟨∅, fun key hkey => absurd hkey Bool.false_ne_true, le_rfl⟩
  | append_singleton events event ih =>
    rw [run_concat, packets, List.filterMap_append, List.length_append]
    cases event with
    | packet arrival => exact ih.receive arrival
    | expiry now wakes => exact ih.expire now wakes

/-- **The responder is no amplifier.** After every run of packets and expiry passes, with any clock
and any send errors, it has sent at most two packets for each packet it received. The probes among
them are templates that `PortAdapter::on_result` has returned in the run, each sent once at most and
in order; and it was called only about endpoints that had sent a packet: by the handler of a packet
about the endpoint of that packet, and in an expiry pass about a connection of before the pass.
Every other packet goes back to where a received packet came from; and it carries data only if that
packet was a `SYN+ACK` with the cookie of its host, and then the payload of the host, numbered from
the cookie. -/
theorem sent_justified (env : ResponderEnv A B) (adapter : A) (events : List Event) :
    (run env (new adapter) events).sent.length ≤ 2 * (packets events).length ∧
    Justified env (reports env adapter events) (packets events)
      (run env (new adapter) events).sent ∧
    ∀ event, ∃ added,
      reports env adapter (events ++ [event]) = reports env adapter events ++ added ∧
      ∀ report ∈ added, Attributed (run env (new adapter) events) report event := by
  have hinv := reportInv_run env adapter events
  have hforget := run_logged env (new ⟨adapter, []⟩) events
  obtain ⟨live, _, hle⟩ := balanced_run env adapter events
  refine ⟨le_of_add_le_left hle, ⟨?_, hinv.reports, answers_run env adapter events⟩,
    fun event => ?_⟩
  · -- without the log the same packets are sent
    have hprobes := hinv.probes
    change (TxPacket.syns (run env (forget (new ⟨adapter, []⟩)) events).sent).Sublist _
    rw [← hforget]
    exact hprobes
  · obtain ⟨-, added, hadded, hall⟩ := hinv.added event
    rw [hforget] at hall
    rw [reports, reports, run_concat]
    exact ⟨added, hadded, hall⟩

end Responder

end Farsight
