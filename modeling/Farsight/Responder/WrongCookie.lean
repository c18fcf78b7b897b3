import Farsight.Responder.Duplicates
import Farsight.Strategy.PortAdapter

/-!
# SYN+ACKs with a wrong cookie

A `SYN+ACK` that does not acknowledge the cookie of its sender answers no probe of the session and
should be dropped without a trace. `process_syn_ack` reports it to the port strategy as an empty
port all the same, and if the host is being scanned that costs the host a port and a probe of its
budget, and draws the next probe.

* `ResponderEnv.pmap` — a responder that reports to `PmapPortAdapter`;
* `Responder.receive_wrongCookie` — such a packet does what the report does, nothing else;
* `Responder.SharedAct`, `Responder.sharedRun` — runs in which other threads change what the
  responder shares with them at any time;
* `Responder.wrongCookie_harmless_iff` — the packet changes nothing if and only if its result is no
  news to the strategy, and packets that come at such moments can be left out of a run;
* `Responder.scannedHost_interferes` — a packet of a host that is being scanned.
-/

namespace Farsight

open Handler PmapPortAdapter

variable {I B : Type}

/-- A responder that reports to the port strategy. `I` is the state of the IP strategy. -/
def ResponderEnv.pmap (env : ResponderEnv I B) (ports : PmapPortAdapter) :
    ResponderEnv (PortSide × I) B where
  onResult := fun adapter ip port hash =>
    let (template, side) := ports.onResult adapter.1 ip port hash
    (template, (side, adapter.2))
  ipOnResult := fun adapter ip => (adapter.1, env.ipOnResult adapter.2 ip)
  build := env.build
  parse := env.parse
  hash64 := env.hash64
  seed := env.seed
  maxReorderSegments := env.maxReorderSegments
  maxReorderBytes := env.maxReorderBytes
  timeout := env.timeout

/-- A `SYN+ACK` that does not acknowledge the cookie of its sender. -/
def Packet.WrongCookie (seed : BitVec 64) (p : Packet) : Prop :=
  p.kind = .synAck ∧ p.hdr.ack ≠ cookie p.ip p.hdr.sourcePort seed + 1

instance (seed : BitVec 64) (p : Packet) : Decidable (p.WrongCookie seed) :=
  inferInstanceAs (Decidable (_ ∧ _))

namespace Responder

section Run

variable {A : Type}

/-- What a responder does, or another thread to the strategies they share. -/
inductive SharedAct (A : Type) where
  | event (event : Event)
  | others (f : A → A)

def sharedStep (env : ResponderEnv A B) (w : Responder A B) : SharedAct A → Responder A B
  | .event event => step env w event
  | .others f => { w with adapter := f w.adapter }

/-- Carry out the acts. -/
def sharedRun (env : ResponderEnv A B) (w : Responder A B) (acts : List (SharedAct A)) :
    Responder A B :=
  acts.foldl (sharedStep env) w

/-- A packet with a wrong cookie arrives. -/
def SharedAct.WrongCookie (seed : BitVec 64) : SharedAct A → Prop
  | .event (.packet arrival) => arrival.packet.WrongCookie seed
  | _ => False

instance (seed : BitVec 64) : (act : SharedAct A) → Decidable (act.WrongCookie seed)
  | .event (.packet arrival) => inferInstanceAs (Decidable (arrival.packet.WrongCookie seed))
  | .event (.expiry _ _) => inferInstanceAs (Decidable False)
  | .others _ => inferInstanceAs (Decidable False)

/-- The run without the packets that have a wrong cookie. -/
def withoutWrongCookies (seed : BitVec 64) (acts : List (SharedAct A)) : List (SharedAct A) :=
  acts.filter fun act => ¬ act.WrongCookie seed

/-- Nobody can tell the responders apart: they remember the same, have sent the same and share the
same strategies. -/
structure SameOutcome (w w' : Responder A B) : Prop where
  tracker : w'.toTracker = w.toTracker
  adapter : w'.adapter = w.adapter
  sent : w'.sent = w.sent

theorem SameOutcome.refl (w : Responder A B) : SameOutcome w w :=
  ⟨rfl, rfl, rfl⟩

theorem SameOutcome.trans {w w' w'' : Responder A B} (h : SameOutcome w w')
    (h' : SameOutcome w' w'') : SameOutcome w w'' :=
  ⟨h'.tracker.trans h.tracker, h'.adapter.trans h.adapter, h'.sent.trans h.sent⟩

/-- Every event sets the wake-ups anew. -/
theorem SameOutcome.sharedStep {env : ResponderEnv A B} {w w' : Responder A B}
    (h : SameOutcome w w') (act : SharedAct A) :
    SameOutcome (sharedStep env w act) (sharedStep env w' act) := by
  -- the two differ in the wakeups that are left, and an event brings its own
  have hwakes (wakes : List Wake) : ({ w' with wakes } : Responder A B) = { w with wakes } := by
    obtain ⟨htracker, hadapter, hsent⟩ := h
    cases w
    cases w'
    cases htracker
    cases hadapter
    cases hsent
    rfl
  cases act with
  | event event =>
    have hstep : step env w' event = step env w event := by
      cases event with
      | packet arrival =>
        change (processPacket env arrival.now arrival.packet
          { w' with wakes := arrival.wakes }).2 = _
        rw [hwakes]
        rfl
      | expiry now wakes =>
        change (expiryLoop env now w'.queue { w' with wakes }).2 = _
        rw [hwakes, show w'.queue = w.queue from congrArg Tracker.queue h.tracker]
        rfl
    change SameOutcome (step env w event) (step env w' event)
    rw [hstep]
    exact .refl _
  | others f => exact ⟨h.tracker, congrArg f h.adapter, h.sent⟩

theorem adapter_transmit (packet : TxPacket) (w : Responder A B) :
    (transmit packet w).2.adapter = w.adapter := by
  rcases (transmit_result packet w).cases rfl with ⟨_, -, -, -, hadapter, -⟩ | ⟨-, -, -, hadapter⟩
  · exact hadapter
  · exact hadapter

/-- A packet with a wrong cookie does what the report does. -/
theorem receive_wrongCookie (env : ResponderEnv A B) {arrival : Arrival} (w : Responder A B)
    (h : arrival.packet.WrongCookie env.seed) :
    receive env arrival w = recordEmpty env arrival.packet.ip arrival.packet.hdr.sourcePort
      { w with wakes := arrival.wakes } := by
  change processPacket env arrival.now arrival.packet _ = _
  rw [processPacket_of_synAck env _ h.1]
  unfold processSynAck
  dsimp only
  rw [if_pos h.2]

end Run

variable {env : ResponderEnv I B} {ports : PmapPortAdapter}

/-- The packet brings no news to the port strategy: its host is not being scanned, or the port was
tried. -/
def NoNews (w : Responder (PortSide × I) B) (p : Packet) : Prop :=
  ¬ News w.adapter.1.pool p.ip p.hdr.sourcePort

/-- Connections, expiry queue, results and the states of the hosts are as they were, and nothing was
sent. -/
structure Unchanged (w w' : Responder (PortSide × I) B) : Prop where
  connections : w'.connections = w.connections
  expiries : w'.expiries = w.expiries
  pendingExpiry : w'.pendingExpiry = w.pendingExpiry
  scanlings : w'.scanlings = w.scanlings
  states : ∀ addr, w'.adapter.1.pool.states.lookup addr = w.adapter.1.pool.states.lookup addr
  sent : w'.sent = w.sent

/-- Without news, nothing happens at all. -/
theorem sameOutcome_of_noNews (ports : PmapPortAdapter) {arrival : Arrival}
    {w : Responder (PortSide × I) B}
    (hwrong : arrival.packet.WrongCookie env.seed) (h : NoNews w arrival.packet) :
    SameOutcome w (receive (env.pmap ports) arrival w).2 := by
  have hreport : (env.pmap ports).onResult w.adapter arrival.packet.ip
      arrival.packet.hdr.sourcePort none = (none, w.adapter) := by
    change ((ports.onResult w.adapter.1 _ _ none).1, ((ports.onResult w.adapter.1 _ _ none).2, _)) =
      _
    rw [ports.onResult_of_not_news none h]
  rw [receive_wrongCookie (env.pmap ports) w hwrong]
  change SameOutcome w (record (env.pmap ports) _ _ none _).2
  simp only [record, bind, Handler.get, Handler.modify, hreport]
  exact ⟨rfl, rfl, rfl⟩

/-- Whether or not a probe is sent, the strategy is as the report leaves it. -/
theorem adapter_record {A : Type} {env : ResponderEnv A B} (ip : Ipv4Addr) (port : BitVec 16)
    (hash : Option (BitVec 64)) (w : Responder A B) :
    (record env ip port hash w).2.adapter = (env.onResult w.adapter ip port hash).2 := by
  rcases hreport : env.onResult w.adapter ip port hash with ⟨_ | template, adapter⟩
  · simp only [record, bind, Handler.get, Handler.modify, hreport]
    rfl
  · simp only [record, bind, Handler.get, Handler.modify, hreport]
    exact adapter_transmit _ _

/-- News change the state of the host. -/
theorem states_ne_of_news (ports : PmapPortAdapter) {arrival : Arrival}
    {w : Responder (PortSide × I) B}
    (hwrong : arrival.packet.WrongCookie env.seed) (h : ¬ NoNews w arrival.packet) :
    (receive (env.pmap ports) arrival w).2.adapter.1.pool.states.lookup arrival.packet.ip ≠
      w.adapter.1.pool.states.lookup arrival.packet.ip := by
  have hnews := not_not.mp h
  rw [receive_wrongCookie (env.pmap ports) w hwrong, recordEmpty, adapter_record]
  obtain ⟨state, hstate, hnot⟩ := hnews
  rw [hstate]
  intro heq
  exact hnot (ports.onResult_of_news none (not_not.mp h) state heq)

/-- **Wrong cookies interfere only through news.** In every state a packet with a wrong cookie
leaves the responder and the states of the hosts unchanged and sends nothing if and only if its
result is no news to the port strategy. And in every run, with other threads at work between the
events, such packets can be left out if none of them is news where it arrives. -/
theorem wrongCookie_harmless_iff (env : ResponderEnv I B) (ports : PmapPortAdapter) :
    (∀ (w : Responder (PortSide × I) B) (arrival : Arrival),
      arrival.packet.WrongCookie env.seed →
      (Unchanged w (receive (env.pmap ports) arrival w).2 ↔ NoNews w arrival.packet)) ∧
    ∀ (w : Responder (PortSide × I) B) (acts : List (SharedAct (PortSide × I))),
      Run.Along (sharedStep (env.pmap ports)) (fun w act => ∀ arrival,
        act = .event (.packet arrival) → arrival.packet.WrongCookie env.seed →
          NoNews w arrival.packet) w acts →
      SameOutcome (sharedRun (env.pmap ports) w (withoutWrongCookies env.seed acts))
        (sharedRun (env.pmap ports) w acts) := by
  constructor
  · intro w arrival hwrong
    constructor
    · intro h
      -- a report that is news to the strategy is stored there
      by_contra hnews
      exact states_ne_of_news ports hwrong hnews (h.states arrival.packet.ip)
    · intro h
      obtain ⟨htracker, hadapter, hsent⟩ := sameOutcome_of_noNews ports hwrong h
      exact {
        connections := congrArg Tracker.connections htracker
        expiries := congrArg Tracker.expiries htracker
        pendingExpiry := congrArg Tracker.pendingExpiry htracker
        scanlings := congrArg Tracker.scanlings htracker
        states := fun addr => by rw [hadapter]
        sent := hsent }
  · intro w acts h
    -- the run without them follows, and waits where one arrives
    refine @Run.Along.rule _ _ _ _ (fun past s => SameOutcome
      (sharedRun (env.pmap ports) w (withoutWrongCookies env.seed past)) s) ?_ [] acts w h (.refl w)
    intro past s act hact hsame
    rw [withoutWrongCookies, List.filter_append]
    by_cases hwrong : act.WrongCookie env.seed
    · rw [List.filter_cons_of_neg (by simpa using hwrong), List.filter_nil, List.append_nil]
      cases act with
      | others f => exact hwrong.elim
      | event event =>
        cases event with
        | expiry now wakes => exact hwrong.elim
        | packet arrival =>
          -- left out of one run, and without effect in the other
          exact hsame.trans (sameOutcome_of_noNews ports hwrong (hact arrival rfl hwrong))
    · rw [List.filter_cons_of_pos (by simpa using hwrong), List.filter_nil, sharedRun,
        List.foldl_append]
      exact hsame.sharedStep act

/-! ### A host that is being scanned -/

/-- The feeder has drawn host 1 and its first probe goes to port 80. -/
def scannedHost : Responder (PortSide × Unit) (List UInt8) :=
  sharedRun (ResponderEnv.sample.pmap .sample)
    (new (⟨.new 1, fun _ => .sample⟩, ()))
    [.others fun adapter =>
      let draws := adapter.1.rng 0
      ({ adapter.1 with
          pool := (PmapPortAdapter.sample.generate adapter.1.pool.pop.2 1 draws).2 }, adapter.2)]

/-- A `SYN+ACK` of host 1 that acknowledges the cookie itself. -/
def strayPacket : Arrival :=
  ⟨.sample 1 (.syn ||| .ack) 0 0 [], 0, []⟩

/-- The stray packet of a port that was never probed uses up the port and half of the budget, and
the responder sends the second probe. -/
theorem scannedHost_interferes :
    let budget (w : Responder (PortSide × Unit) (List UInt8)) :=
      (w.adapter.1.pool.states.lookup 1).map fun state =>
        (state.triedPorts, state.budgetRemaining)
    let after := (receive (ResponderEnv.sample.pmap .sample) strayPacket scannedHost).2
    strayPacket.packet.WrongCookie ResponderEnv.sample.seed ∧
    budget scannedHost = some (∅, 2) ∧ scannedHost.sent = [] ∧
    budget after = some ({25565}, 1) ∧ after.sent.map (fun packet => packet.port) = [443] := by
  refine ⟨by decide, by decide, by decide, by decide, by decide⟩

end Responder

end Farsight
