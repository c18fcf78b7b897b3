import Farsight.Controller.Wakeup
import Farsight.Responder.Duplicates

/-!
# Errors of sends

A handler stops at the first send that fails. What it was going to do after the send is not done,
and what it did before is not undone.

* A banner is put into `scanlings` after all sends of the handler. If one of these fails, the banner
  is lost, although the parser has accepted it and the connection is gone
  (`Responder.banner_kept_iff`).
* A connection is put into the table after its payload was sent. If the wake-up after `submit`
  fails, the payload goes out and there is no connection for the answer
  (`Responder.payload_tracked_iff`).
-/

namespace Farsight

open Handler

/-- The data that the parser is given for a packet, if the handler gets there. -/
inductive Tracker.Completes {B : Type} (m : Tracker B) (p : Packet) : List UInt8 → Prop
  | ack (state : Responder.State) (hin : m.InSequence p state) :
      Completes m p (state.accept p.payload).data
  | fin (state : Responder.State) (hkind : p.kind = .fin)
      (hstate : m.connections p.key = some state) (hpayload : p.payload ≠ []) :
      Completes m p (state.data ++ p.payload)

/-- The parser is only given data that the packet completes. -/
theorem Tracker.PacketStep.completes {A B : Type} {env : ResponderEnv A B} {now : ℕ} {p : Packet}
    {m m' : Tracker B} {call : Parsed} (h : m.PacketStep env now p m')
    (hcall : m'.parsed = m.parsed ++ [call]) : m.Completes p call.data := by
  have hsame (hsame : m.parsed = m.parsed ++ [call]) : m.Completes p call.data :=
    absurd hsame.symm (by simp)
  have hdata {call' : Parsed} (hcall : m.parsed ++ [call'] = m.parsed ++ [call])
      (hcompletes : m.Completes p call'.data) : m.Completes p call.data := by
    obtain rfl := List.singleton_inj.mp (List.append_cancel_left hcall)
    exact hcompletes
  cases h with
  | idle | close | create | reorder => exact hsame hcall
  | hit state _ hin | drop state hin | keep state hin | extend state hin =>
    exact hdata hcall (.ack state hin)
  | finHit state _ hkind hstate hpayload | finDrop state hkind hstate hpayload =>
    exact hdata hcall (.fin state hkind hstate hpayload)

namespace Responder

variable {A B : Type} {env : ResponderEnv A B}

/-- The port strategy asks for another probe when it hears of the banner. -/
def AsksProbe (env : ResponderEnv A B) (w : Responder A B) (p : Packet) (banner : B) : Prop :=
  (env.onResult (env.ipOnResult w.adapter p.ip) p.ip p.hdr.sourcePort
    (some (env.hash64 banner))).1.isSome

/-- A banner that the parser finds in the packet becomes a result. -/
def KeepsBanner (env : ResponderEnv A B) (arrival : Arrival) (w : Responder A B) : Prop :=
  ∀ call banner, (receive env arrival w).2.parsed = w.parsed ++ [call] →
    env.parse call.data = .ok banner →
      (receive env arrival w).2.scanlings =
        w.scanlings ++ [⟨arrival.packet.ip, arrival.packet.hdr.sourcePort, banner⟩]

/-- No send fails between the verdict of the parser and the result: the `RST` for an `ACK`, and the
probe that the strategy asks for. -/
def SendsReturn (env : ResponderEnv A B) (arrival : Arrival) (w : Responder A B) (banner : B) :
    Prop :=
  (arrival.packet.kind = .ack → ¬ SendFails arrival.wakes) ∧
  (¬ SendFails arrival.wakes → AsksProbe env w arrival.packet banner →
    ¬ SendFails arrival.wakes.tail)

/-! ### The end of the two handlers -/

/-- The report of a banner sends at most one packet. -/
theorem recordHit_spec (w : Responder A B) (ip : Ipv4Addr) (port : BitVec 16) (hash : BitVec 64) :
    Triple (· = w) (recordHit env ip port hash)
      (fun _ t => ((env.onResult w.adapter ip port (some hash)).1.isSome → ¬ SendFails w.wakes) ∧
        t.toTracker = w.toTracker)
      fun t => ((env.onResult w.adapter ip port (some hash)).1.isSome ∧ SendFails w.wakes) ∧
        t.toTracker = w.toTracker := by
  refine Triple.get_bind fun _ hw => ?_
  subst hw
  rename_i w
  -- a probe is sent only if the strategy has a port for it
  rcases hresult : env.onResult w.adapter ip port (some hash) with ⟨_ | template, adapter⟩
  · refine Triple.bind (Q := fun _ t => t.toTracker = w.toTracker) (Triple.modify ?_) fun _ => ?_
    · rintro _ rfl
      rfl
    · exact Triple.pure fun t ht => ⟨fun h => absurd h Bool.false_ne_true, ht⟩
  · refine Triple.bind (Q := fun _ => (· = { w with adapter })) (Triple.modify ?_) fun _ => ?_
    · rintro _ rfl
      rfl
    · refine (transmit_result _ _).mono (fun _ h => h) (fun _ t ht => ?_) fun t ht => ?_
      · exact ⟨fun _ => ht.1, ht.2.1⟩
      · exact ⟨⟨rfl, ht.1⟩, ht.2.1⟩

/-- The responder remembers `m`, its strategies are those of `w`, and `wakes` are to come. -/
def Resumes (m : Tracker B) (w : Responder A B) (wakes : List Wake) (t : Responder A B) : Prop :=
  t.toTracker = m ∧ t.adapter = w.adapter ∧ t.wakes = wakes

theorem Resumes.self (w : Responder A B) : Resumes w.toTracker w w.wakes w :=
  ⟨rfl, rfl, rfl⟩

/-- From a state that is known, the handler goes on by what it has left. -/
theorem Resumes.triple {α : Type} {m : Tracker B} {w t : Responder A B} {wakes : List Wake}
    {x : Handler (Responder A B) α} {Q : α → Responder A B → Prop} {E : Responder A B → Prop}
    (ht : Resumes m w wakes t) (h : Triple (Resumes m w wakes) x Q E) : Triple (· = t) x Q E := by
  refine h.mono ?_ (fun _ _ h => h) fun _ h => h
  rintro _ rfl
  exact ht

theorem track_resumes {m : Tracker B} {w : Responder A B} {wakes : List Wake}
    {E : Responder A B → Prop} (f : Tracker B → Tracker B) :
    Triple (Resumes m w wakes) (track f) (fun _ => Resumes (f m) w wakes) E :=
  Triple.modify fun _ ht => ⟨congrArg f ht.1, ht.2⟩

/-- A send takes the next wakeup, and fails by it. The tracker does not change. -/
theorem transmit_resumes {m : Tracker B} {w : Responder A B} {wakes : List Wake}
    (packet : TxPacket) :
    Triple (Resumes m w wakes) (transmit packet)
      (fun _ t => ¬ SendFails wakes ∧ Resumes m w wakes.tail t)
      fun t => SendFails wakes ∧ t.toTracker = m := by
  refine Triple.of_forall ?_
  rintro t ⟨rfl, hadapter, rfl⟩
  refine (transmit_result packet t).mono (fun _ h => h) (fun _ t' ht' => ?_) fun t' ht' => ?_
  · obtain ⟨hsent, htracker, hadapter', hwakes⟩ := ht'
    exact ⟨hsent, htracker, hadapter'.trans hadapter, hwakes⟩
  · exact ⟨ht'.1, ht'.2.1⟩

/-- The bump of the address, the report and the result, as both handlers end. -/
theorem hit_spec (m : Tracker B) (w : Responder A B) (wakes : List Wake) (p : Packet)
    (banner : B) :
    Triple (Resumes m w wakes)
      (do
        Handler.modify fun w => { w with adapter := env.ipOnResult w.adapter p.ip }
        recordHit env p.ip p.hdr.sourcePort (env.hash64 banner)
        track fun m => m.pushScanling ⟨p.ip, p.hdr.sourcePort, banner⟩)
      (fun _ t => (AsksProbe env w p banner → ¬ SendFails wakes) ∧
        t.toTracker = m.pushScanling ⟨p.ip, p.hdr.sourcePort, banner⟩)
      fun t => (AsksProbe env w p banner ∧ SendFails wakes) ∧ t.toTracker = m := by
  refine Triple.of_forall ?_
  rintro t ⟨rfl, hadapter, rfl⟩
  rw [AsksProbe, ← hadapter]
  refine Triple.bind (Q := fun _ => (· = { t with adapter := env.ipOnResult t.adapter p.ip }))
    (Triple.modify ?_) fun _ => ?_
  · rintro _ rfl
    rfl
  · -- the result is stored last, after the send that can fail
    refine Triple.bind (recordHit_spec _ _ _ _) fun _ => Triple.modify fun t' ht' => ?_
    exact ⟨ht'.1, congrArg (Tracker.pushScanling · _) ht'.2⟩

/-- What becomes of a banner that an `ACK` completes. -/
theorem processAck_hit {p : Packet} {w : Responder A B} {state : State} {banner : B}
    (hin : w.InSequence p state) (hparse : env.parse (state.accept p.payload).data = .ok banner) :
    Triple (· = w) (processAck env p.ip p.hdr p.payload)
      (fun _ t => (¬ SendFails w.wakes ∧ (AsksProbe env w p banner → ¬ SendFails w.wakes.tail)) ∧
        t.scanlings = w.scanlings ++ [⟨p.ip, p.hdr.sourcePort, banner⟩])
      fun t => (SendFails w.wakes ∨ AsksProbe env w p banner ∧ SendFails w.wakes.tail) ∧
        t.scanlings = w.scanlings ∧
        t.parsed = w.parsed ++ [(state.accept p.payload).parsed p.key] := by
  unfold processAck
  refine Triple.get_bind fun _ hw => ?_
  subst hw
  rename_i w
  have hconnection : w.connections (p.ip, p.hdr.sourcePort) = some state := hin.connection
  have hparse' : env.parse (state.append p.payload).stitch.data = .ok banner := hparse
  simp only [hconnection, hin.ack, hin.seq, hin.payload, hparse', ne_eq, not_true_eq_false,
    if_false]
  refine (Resumes.self w).triple ?_
  -- the data goes to the parser and the connection is removed before anything is sent
  refine Triple.bind (track_resumes _) fun _ => ?_
  refine Triple.bind (track_resumes _) fun _ => ?_
  refine Triple.bind ((transmit_resumes _).mono (fun _ h => h) (fun _ _ h => h) ?_) fun _ => ?_
  · -- the `RST` fails: the call ends with the parser's answer lost
    rintro t ⟨hfails, htracker⟩
    rw [htracker]
    exact ⟨.inl hfails, rfl, rfl⟩
  · refine Triple.of_forall ?_
    rintro t ⟨hsent, ht⟩
    refine ht.triple ((hit_spec _ _ _ p banner).mono (fun _ h => h) (fun _ t' ht' => ?_)
      fun t' ht' => ?_)
    · exact ⟨⟨hsent, ht'.1⟩, congrArg Tracker.scanlings ht'.2⟩
    · rw [ht'.2]
      exact ⟨.inr ht'.1, rfl, rfl⟩

/-- What becomes of a banner that a `FIN` completes. -/
theorem processFin_hit {p : Packet} {w : Responder A B} {state : State} {banner : B}
    (hstate : w.connections p.key = some state) (hpayload : p.payload ≠ [])
    (hparse : env.parse (state.data ++ p.payload) = .ok banner) :
    Triple (· = w) (processFin env p.ip p.hdr p.payload)
      (fun _ t => (AsksProbe env w p banner → ¬ SendFails w.wakes.tail) ∧
        t.scanlings = w.scanlings ++ [⟨p.ip, p.hdr.sourcePort, banner⟩])
      fun t => (SendFails w.wakes ∧ t.parsed = w.parsed) ∨
        (¬ SendFails w.wakes ∧ AsksProbe env w p banner ∧ SendFails w.wakes.tail) ∧
        t.scanlings = w.scanlings ∧
        t.parsed = w.parsed ++ [⟨p.key, state.nextExpectedAck, state.data ++ p.payload⟩] := by
  unfold processFin
  refine (Resumes.self w).triple ?_
  refine Triple.bind ((transmit_resumes _).mono (fun _ h => h) (fun _ _ h => h) ?_) fun _ => ?_
  · -- the `RST` goes out before the connection is looked at, so nothing was parsed
    rintro t ⟨hfails, htracker⟩
    rw [htracker]
    exact .inl ⟨hfails, rfl⟩
  · refine Triple.get_bind ?_
    rintro t ⟨hsent, ht⟩
    have hconnection : t.connections (p.ip, p.hdr.sourcePort) = some state := by
      rw [ht.1]
      exact hstate
    simp only [hconnection, hpayload, hparse, if_false]
    refine ht.triple ?_
    refine Triple.bind (track_resumes _) fun _ => ?_
    refine Triple.bind (track_resumes _) fun _ => ?_
    refine (hit_spec _ _ _ p banner).mono (fun _ h => h) (fun _ t' ht' => ?_) fun t' ht' => ?_
    · exact ⟨ht'.1, congrArg Tracker.scanlings ht'.2⟩
    · rw [ht'.2]
      exact .inr ⟨⟨hsent, ht'.1⟩, rfl, rfl⟩

/-! ### Banners -/

/-- What becomes of a banner that a packet completes. -/
theorem receive_completes (arrival : Arrival) (w : Responder A B) {data : List UInt8} {banner : B}
    (hcompletes : w.Completes arrival.packet data) (hparse : env.parse data = .ok banner) :
    (SendsReturn env arrival w banner ∧ (receive env arrival w).2.scanlings =
      w.scanlings ++ [⟨arrival.packet.ip, arrival.packet.hdr.sourcePort, banner⟩]) ∨
    (SendsReturn env arrival w banner ∧ (receive env arrival w).2.parsed = w.parsed) ∨
    (¬ SendsReturn env arrival w banner ∧ (receive env arrival w).2.scanlings = w.scanlings ∧
      ∃ call, (receive env arrival w).2.parsed = w.parsed ++ [call] ∧ call.data = data) := by
  have hreceive : receive env arrival w =
      processPacket env arrival.now arrival.packet { w with wakes := arrival.wakes } := rfl
  rw [hreceive, processPacket_eq]
  cases hcompletes with
  | ack state hin =>
    -- here the `RST` comes after the parser, so both sends can lose the result
    rw [hin.kind]
    rcases (processAck_hit (w := { w with wakes := arrival.wakes }) hin hparse).cases rfl with
      ⟨_, -, ⟨hrst, hprobe⟩, hscanlings⟩ | ⟨-, hfails, hscanlings, hparsed⟩
    · exact .inl ⟨⟨fun _ => hrst, fun _ => hprobe⟩, hscanlings⟩
    · refine .inr (.inr ⟨fun h => ?_, hscanlings, _, hparsed, rfl⟩)
      rcases hfails with hrst | ⟨hasks, hprobe⟩
      · exact h.1 hin.kind hrst
      · exact h.2 (h.1 hin.kind) hasks hprobe
  | fin state hkind hstate hpayload =>
    rw [hkind]
    have hack : arrival.packet.kind ≠ .ack := by
      rw [hkind]
      rintro ⟨⟩
    rcases (processFin_hit (w := { w with wakes := arrival.wakes }) hstate hpayload
      hparse).cases rfl with
      ⟨_, -, hprobe, hscanlings⟩ |
      ⟨-, ⟨hrst, hparsed⟩ | ⟨⟨hsent, hasks, hprobe⟩, hscanlings, hparsed⟩⟩
    · exact .inl ⟨⟨fun h => absurd h hack, fun _ => hprobe⟩, hscanlings⟩
    · -- the `RST` comes before the parser here
      exact .inr (.inl ⟨⟨fun h => absurd h hack, fun h => absurd hrst h⟩, hparsed⟩)
    · exact .inr (.inr ⟨fun h => h.2 hsent hasks hprobe, hscanlings, _, hparsed, rfl⟩)

/-- **Banners and send errors.** A banner that the parser finds in a packet becomes a result, if and
only if no send fails between the two. -/
theorem banner_kept_iff (env : ResponderEnv A B) (arrival : Arrival) (w : Responder A B) :
    KeepsBanner env arrival w ↔
      ∀ data banner, w.Completes arrival.packet data → env.parse data = .ok banner →
        SendsReturn env arrival w banner := by
  constructor
  · intro h data banner hcompletes hparse
    rcases receive_completes arrival w hcompletes hparse with
      ⟨hreturn, -⟩ | ⟨hreturn, -⟩ | ⟨-, hscanlings, call, hparsed, rfl⟩
    · exact hreturn
    · exact hreturn
    · have hkept := h call banner hparsed hparse
      rw [hscanlings] at hkept
      exact absurd hkept.symm (by simp)
  · intro h call banner hparsed hparse
    -- a call of the parser is made on a packet that completes its data
    have hcompletes := (receive_spec env arrival w).1.completes hparsed
    rcases receive_completes arrival w hcompletes hparse with
      ⟨-, hscanlings⟩ | ⟨-, hsame⟩ | ⟨hfails, -⟩
    · exact hscanlings
    · rw [hsame] at hparsed
      exact absurd hparsed.symm (by simp)
    · exact absurd (h call.data banner hcompletes hparse) hfails

/-- The whole banner comes in one segment, and the wake-up of the `RST` fails. -/
def lostBanner : Arrival :=
  ⟨.sample 1 .ack 0 2 [1, 2, 3], 1, [.failBefore]⟩

/-- The parser accepts the banner, and there is no result. -/
theorem lostBanner_lost :
    ¬ KeepsBanner .sample lostBanner
      (run .sample (new ()) [.sample 1 0 (.syn ||| .ack) (-1) 1 []]) := by
  intro h
  have hkept := h ⟨(1, 25565), cookie 1 25565 0 + 2, [1, 2, 3]⟩ [1, 2, 3] (by decide) rfl
  exact absurd hkept (by decide)

/-! ### Payloads -/

/-- The connection and its deadline were stored. -/
def Tracks (env : ResponderEnv A B) (now : ℕ) (p : Packet) (payload : List UInt8)
    (w w' : Responder A B) : Prop :=
  w'.connections p.key = some (.fresh env now p payload) ∧
    w'.expiries = w.expiries ++ [(now + env.timeout, p.key)]

/-- The payload was submitted. -/
def Submits (p : Packet) (payload : List UInt8) (w w' : Responder A B) : Prop :=
  w'.sent = w.sent ++ [{
    ip := p.ip
    sourcePort := p.hdr.destPort
    port := p.hdr.sourcePort
    seq := p.hdr.ack
    ack := p.hdr.seq + 1
    flags := .psh ||| .ack
    body := payload }]

instance (p : Packet) (payload : List UInt8) (w w' : Responder A B) :
    Decidable (Submits p payload w w') :=
  inferInstanceAs (Decidable (_ = _))

/-- `process_syn_ack` is the send, and then the connection if the send returns. -/
theorem processSynAck_of_wake {env : ResponderEnv A B} (now : ℕ) {p : Packet} {w : Responder A B}
    {payload : List UInt8} {wake : Wake} {wakes : List Wake}
    (hack : p.hdr.ack = cookie p.ip p.hdr.sourcePort env.seed + 1)
    (hbuild : env.build p.ip p.hdr.sourcePort = some payload) (hwakes : w.wakes = wake :: wakes) :
    let after := (processSynAck env now p.ip p.hdr w).2
    match wake with
    | .ok => Tracks env now p payload w after ∧ Submits p payload w after
    | .failBefore => after.expiries = w.expiries ∧ after.sent = w.sent
    | .failAfter => after.expiries = w.expiries ∧ Submits p payload w after := by
  rw [processSynAck_eq hack hbuild]
  simp only [bind, sendWithData]
  -- the connection and its expiry are stored after the send has returned
  cases wake with
  | ok =>
    simp only [transmit, hwakes]
    exact ⟨⟨Function.update_self .., rfl⟩, rfl⟩
  | failBefore =>
    simp only [transmit, hwakes]
    exact ⟨trivial, trivial⟩
  | failAfter =>
    simp only [transmit, hwakes]
    exact ⟨trivial, rfl⟩

/-- **Payloads and connections.** For a `SYN+ACK` with the right cookie, the connection is stored if
and only if the payload is submitted, unless the wake-up after `submit` fails: then there is a
payload without a connection. -/
theorem payload_tracked_iff (env : ResponderEnv A B) (now : ℕ) (p : Packet) (w : Responder A B)
    (script : SendScript) {payload : List UInt8} {wake : Wake} {wakes : List Wake}
    (hack : p.hdr.ack = cookie p.ip p.hdr.sourcePort env.seed + 1)
    (hbuild : env.build p.ip p.hdr.sourcePort = some payload) (hwake : script.wake = some wake)
    (hwakes : w.wakes = wake :: wakes) :
    (Tracks env now p payload w (processSynAck env now p.ip p.hdr w).2 ↔
      Submits p payload w (processSynAck env now p.ip p.hdr w).2) ↔
    ¬ (Reserves script.turns ∧ script.last.Fails) := by
  rw [← script.wake_eq_failAfter_iff, hwake, Option.some.injEq]
  have hafter := processSynAck_of_wake now hack hbuild hwakes
  -- without the entry in the queue nothing was stored
  have hsame {w' : Responder A B} (h : w'.expiries = w.expiries) :
      ¬ Tracks env now p payload w w' := by
    rintro ⟨-, hexpiries⟩
    rw [h] at hexpiries
    exact absurd hexpiries.symm (by simp)
  cases wake with
  | ok => exact iff_of_true (iff_of_true hafter.1 hafter.2) (by rintro ⟨⟩)
  | failBefore =>
    refine iff_of_true (iff_of_false (hsame hafter.1) fun h => ?_) (by rintro ⟨⟩)
    rw [Submits, hafter.2] at h
    exact absurd h.symm (by simp)
  | failAfter =>
    exact iff_of_false (fun h => hsame hafter.1 (h.mpr hafter.2)) fun h => h rfl

/-- A send that waits one turn for room; its first wake-up meets `EAGAIN`, and its last one
`errno`. -/
def waitOnce (errno : ℕ) : SendScript where
  turns := [⟨⟨true, some 11⟩, false⟩, ⟨⟨false, none⟩, true⟩]
  last := ⟨true, some errno⟩

/-- A responder whose next send goes like this. -/
def facing (wake : Wake) : Responder Unit (List UInt8) :=
  { new () with wakes := [wake] }

/-- The last wake-up meets `EBUSY`, which counts as success. -/
theorem payload_tracked_ebusy :
    (waitOnce 16).wake = some .ok ∧
    ((Tracks .sample 0 (.sample 1 (.syn ||| .ack) (-1) 1 []) [0] (facing .ok)
        (processSynAck .sample 0 1 (Packet.sample 1 (.syn ||| .ack) (-1) 1 []).hdr
          (facing .ok)).2 ↔
      Submits (.sample 1 (.syn ||| .ack) (-1) 1 []) [0] (facing .ok)
        (processSynAck .sample 0 1 (Packet.sample 1 (.syn ||| .ack) (-1) 1 []).hdr
          (facing .ok)).2) ↔
    ¬ (Reserves (waitOnce 16).turns ∧ (waitOnce 16).last.Fails)) :=
  ⟨by decide, payload_tracked_iff .sample 0 (.sample 1 (.syn ||| .ack) (-1) 1 []) (facing .ok)
    (waitOnce 16) rfl rfl (by decide) rfl⟩

/-- The last wake-up meets `EPERM`: the payload goes out, and there is no connection. -/
theorem payload_untracked_eperm :
    (waitOnce 1).wake = some .failAfter ∧
    ¬ (Tracks .sample 0 (.sample 1 (.syn ||| .ack) (-1) 1 []) [0] (facing .failAfter)
        (processSynAck .sample 0 1 (Packet.sample 1 (.syn ||| .ack) (-1) 1 []).hdr
          (facing .failAfter)).2 ↔
      Submits (.sample 1 (.syn ||| .ack) (-1) 1 []) [0] (facing .failAfter)
        (processSynAck .sample 0 1 (Packet.sample 1 (.syn ||| .ack) (-1) 1 []).hdr
          (facing .failAfter)).2) := by
  refine ⟨by decide, fun h => ?_⟩
  have htracks := h.mpr (by decide)
  exact absurd htracks.2 (by decide)

end Responder

end Farsight
