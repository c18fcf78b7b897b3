import Farsight.Responder.Handlers

/-!
# What a packet does to the tracker

The handlers interleave what they remember with sends that may fail. `onPacket` is what a packet
does to the tracker when every send succeeds, as a pure function, and `PacketStep` lists everything
it can do, whichever sends fail. Every proof about runs is by cases on `PacketStep`.

* `receive_spec` — a packet whose handler returns does `onPacket`; one whose handler stops makes
  some `PacketStep`. With sends that succeed, a handler only stops when the payload cannot be built;
* `onPacket_step` — `onPacket` is a `PacketStep`;
* `ExpiryLoop`, `expire_spec` — the same for the expiry loop.
-/

namespace Farsight

open Handler

/-- The handler that `process_packet` calls. -/
inductive PacketKind where
  | rst
  | fin
  | synAck
  | ack
  | other
  deriving DecidableEq, Repr

/-- The tests of `process_packet`, in order. -/
def Packet.kind (p : Packet) : PacketKind :=
  if p.hdr.flags.contains .rst then .rst
  else if p.hdr.flags.contains .fin then .fin
  else if p.hdr.flags.contains (.syn ||| .ack) then .synAck
  else if p.hdr.flags.contains .ack then .ack
  else .other

namespace Responder.State

/-- The connection that `process_syn_ack` creates. -/
def fresh {A B : Type} (env : ResponderEnv A B) (now : ℕ) (p : Packet) (payload : List UInt8) :
    State where
  ip := p.ip
  port := p.hdr.sourcePort
  data := []
  nextExpectedSeq := p.hdr.seq + 1
  nextExpectedAck := p.hdr.ack + BitVec.ofNat 32 payload.length
  reorderBuffer := ∅
  expiresAt := now + env.timeout

/-- The connection after a segment that is next in sequence. -/
def accept (state : State) (payload : List UInt8) : State :=
  (state.append payload).stitch

/-- The call of the parser for a connection. -/
def parsed (state : State) (key : Endpoint) : Parsed :=
  ⟨key, state.nextExpectedAck, state.data⟩

end Responder.State

open Responder (State)

variable {A B : Type}

namespace Tracker

/-! ### The effect of a packet -/

def onSynAck (env : ResponderEnv A B) (now : ℕ) (p : Packet) (m : Tracker B) : Tracker B :=
  if p.hdr.ack ≠ cookie p.ip p.hdr.sourcePort env.seed + 1 then m
  else
    match env.build p.ip p.hdr.sourcePort with
    | none => m
    | some payload =>
      (m.pushExpiry (now + env.timeout, p.key)).insert p.key (.fresh env now p payload)

/-- The verdict of the parser on a connection whose data has grown. -/
def onData (env : ResponderEnv A B) (p : Packet) (state : State) (m : Tracker B) : Tracker B :=
  match env.parse state.data with
  | .ok banner =>
    ((m.remove p.key).pushParsed (state.parsed p.key)).pushScanling
      ⟨p.ip, p.hdr.sourcePort, banner⟩
  | .error .invalid => (m.remove p.key).pushParsed (state.parsed p.key)
  | .error .incomplete =>
    ((m.insert p.key { state with expiresAt := state.expiresAt + env.timeout }).pushParsed
      (state.parsed p.key)).pushExpiry (state.expiresAt + env.timeout, p.key)

def onAck (env : ResponderEnv A B) (p : Packet) (m : Tracker B) : Tracker B :=
  match m.connections p.key with
  | none => m
  | some state =>
    if p.hdr.ack ≠ state.nextExpectedAck then m
    else if p.hdr.seq ≠ state.nextExpectedSeq then
      m.insert p.key (state.bufferSegment env p.hdr.seq p.payload)
    else if p.payload = [] then m
    else m.onData env p (state.accept p.payload)

def onFin (env : ResponderEnv A B) (p : Packet) (m : Tracker B) : Tracker B :=
  match m.connections p.key with
  | none => m.remove p.key
  | some state =>
    if p.payload = [] then m.remove p.key
    else
      match env.parse (state.data ++ p.payload) with
      | .ok banner =>
        ((m.remove p.key).pushParsed
          ⟨p.key, state.nextExpectedAck, state.data ++ p.payload⟩).pushScanling
            ⟨p.ip, p.hdr.sourcePort, banner⟩
      | .error _ =>
        (m.remove p.key).pushParsed ⟨p.key, state.nextExpectedAck, state.data ++ p.payload⟩

/-- What a packet does when every send succeeds. -/
def onPacket (env : ResponderEnv A B) (now : ℕ) (p : Packet) (m : Tracker B) : Tracker B :=
  match p.kind with
  | .rst => m.remove p.key
  | .fin => m.onFin env p
  | .synAck => m.onSynAck env now p
  | .ack => m.onAck env p
  | .other => m

/-- A segment that is next in sequence for the connection. -/
structure InSequence (m : Tracker B) (p : Packet) (state : State) : Prop where
  kind : p.kind = .ack
  connection : m.connections p.key = some state
  ack : p.hdr.ack = state.nextExpectedAck
  seq : p.hdr.seq = state.nextExpectedSeq
  payload : p.payload ≠ []

/-- Everything a packet can do, whichever of its sends fail. -/
inductive PacketStep (env : ResponderEnv A B) (now : ℕ) (p : Packet) (m : Tracker B) :
    Tracker B → Prop
  | idle : PacketStep env now p m m
  /-- The connection is closed without a look at its data. -/
  | close (hkind : p.kind = .rst ∨ p.kind = .fin) : PacketStep env now p m (m.remove p.key)
  | create (payload : List UInt8) (hkind : p.kind = .synAck)
      (hack : p.hdr.ack = cookie p.ip p.hdr.sourcePort env.seed + 1)
      (hbuild : env.build p.ip p.hdr.sourcePort = some payload) :
      PacketStep env now p m
        ((m.pushExpiry (now + env.timeout, p.key)).insert p.key (.fresh env now p payload))
  | reorder (state : State) (hkind : p.kind = .ack) (hstate : m.connections p.key = some state)
      (hack : p.hdr.ack = state.nextExpectedAck) (hseq : p.hdr.seq ≠ state.nextExpectedSeq) :
      PacketStep env now p m (m.insert p.key (state.bufferSegment env p.hdr.seq p.payload))
  | hit (state : State) (banner : B) (hin : m.InSequence p state)
      (hparse : env.parse (state.accept p.payload).data = .ok banner) :
      PacketStep env now p m
        (((m.remove p.key).pushParsed ((state.accept p.payload).parsed p.key)).pushScanling
          ⟨p.ip, p.hdr.sourcePort, banner⟩)
  /-- The parser returned, and a send failed before the banner was kept; or the data is invalid. -/
  | drop (state : State) (hin : m.InSequence p state)
      (hparse : env.parse (state.accept p.payload).data ≠ .error .incomplete) :
      PacketStep env now p m
        ((m.remove p.key).pushParsed ((state.accept p.payload).parsed p.key))
  /-- The data is invalid, and the report of it failed before the connection was closed. -/
  | keep (state : State) (hin : m.InSequence p state)
      (hparse : env.parse (state.accept p.payload).data = .error .invalid) :
      PacketStep env now p m
        ((m.insert p.key (state.accept p.payload)).pushParsed
          ((state.accept p.payload).parsed p.key))
  | extend (state : State) (hin : m.InSequence p state)
      (hparse : env.parse (state.accept p.payload).data = .error .incomplete) :
      PacketStep env now p m
        (((m.insert p.key { state.accept p.payload with
            expiresAt := (state.accept p.payload).expiresAt + env.timeout }).pushParsed
          ((state.accept p.payload).parsed p.key)).pushExpiry
            ((state.accept p.payload).expiresAt + env.timeout, p.key))
  | finHit (state : State) (banner : B) (hkind : p.kind = .fin)
      (hstate : m.connections p.key = some state) (hpayload : p.payload ≠ [])
      (hparse : env.parse (state.data ++ p.payload) = .ok banner) :
      PacketStep env now p m
        (((m.remove p.key).pushParsed
          ⟨p.key, state.nextExpectedAck, state.data ++ p.payload⟩).pushScanling
            ⟨p.ip, p.hdr.sourcePort, banner⟩)
  | finDrop (state : State) (hkind : p.kind = .fin) (hstate : m.connections p.key = some state)
      (hpayload : p.payload ≠ []) :
      PacketStep env now p m
        ((m.remove p.key).pushParsed ⟨p.key, state.nextExpectedAck, state.data ++ p.payload⟩)

/-- The effect of a packet, when no send fails, is one of the steps. -/
theorem onPacket_step (env : ResponderEnv A B) (now : ℕ) (p : Packet) (m : Tracker B) :
    PacketStep env now p m (m.onPacket env now p) := by
  unfold onPacket
  cases hkind : p.kind with
  -- on the kind of the packet, and then on the tests of its handler
  | rst => exact .close (.inl hkind)
  | other => exact .idle
  | synAck =>
    simp only [onSynAck]
    split
    · exact .idle
    · next hack =>
      split
      · exact .idle
      · next payload hbuild => exact .create payload hkind (by simpa using hack) hbuild
  | fin =>
    simp only [onFin]
    split
    · exact .close (.inr hkind)
    · next state hstate =>
      split
      · exact .close (.inr hkind)
      · next hpayload =>
        split
        · next banner hparse => exact .finHit state banner hkind hstate hpayload hparse
        · exact .finDrop state hkind hstate hpayload
  | ack =>
    simp only [onAck]
    split
    · exact .idle
    · next state hstate =>
      split
      · exact .idle
      · next hack =>
        have hack' : p.hdr.ack = state.nextExpectedAck := by simpa using hack
        split
        · next hseq => exact .reorder state hkind hstate hack' hseq
        · next hseq =>
          split
          · exact .idle
          · next hpayload =>
            have hin : m.InSequence p state := ⟨hkind, hstate, hack', by simpa using hseq, hpayload⟩
            unfold onData
            split
            · next banner hparse => exact .hit state banner hin hparse
            · next hparse => exact .drop state hin (by rw [hparse]; exact fun h => by cases h)
            · next hparse => exact .extend state hin hparse

/-- A packet does nothing to the connections and the results of other hosts. -/
theorem PacketStep.frame {env : ResponderEnv A B} {now : ℕ} {p : Packet} {m m' : Tracker B}
    (h : PacketStep env now p m m') {key : Endpoint} (hkey : key ≠ p.key) :
    m'.connections key = m.connections key ∧ m'.scanlingsOf key = m.scanlingsOf key := by
  have hscanling (banner : B) :
      ((⟨p.ip, p.hdr.sourcePort, banner⟩ : Scanling B).ip,
        (⟨p.ip, p.hdr.sourcePort, banner⟩ : Scanling B).port) ≠ key := fun h => hkey h.symm
  -- every case updates the connection of the packet only
  cases h with
  | idle => exact ⟨rfl, rfl⟩
  | close | create | reorder | drop | keep | extend | finDrop =>
    exact ⟨Function.update_of_ne hkey _ _, rfl⟩
  | hit state banner | finHit state banner =>
    exact ⟨Function.update_of_ne hkey _ _, scanlingsOf_pushScanling_of_ne _ _ _ (hscanling banner)⟩

/-- A property of all connections that a packet keeps: a new connection has it, and buffering a
segment, accepting one and waiting longer preserve it. -/
theorem PacketStep.forall_connections {env : ResponderEnv A B} {now : ℕ} {p : Packet}
    {m m' : Tracker B} {P : Endpoint → State → Prop} (h : PacketStep env now p m m')
    (hm : ∀ key state, m.connections key = some state → P key state)
    (hfresh : ∀ payload, P p.key (.fresh env now p payload))
    (hbuffer : ∀ state, p.hdr.seq ≠ state.nextExpectedSeq → P p.key state →
      P p.key (state.bufferSegment env p.hdr.seq p.payload))
    (haccept : ∀ state, m.InSequence p state → P p.key state → P p.key (state.accept p.payload))
    (hexpiry : ∀ (state : State) expiresAt, P p.key state → P p.key { state with expiresAt }) :
    ∀ key state, m'.connections key = some state → P key state := by
  have hremove (key : Endpoint) (state : State)
      (hstate : (m.remove p.key).connections key = some state) : P key state :=
    hm key state (connections_of_remove hstate)
  have hdata (state : State) (hin : m.InSequence p state) : P p.key (state.accept p.payload) :=
    haccept state hin (hm p.key state hin.connection)
  -- a step removes the connection of the packet, or writes one to which the hypotheses apply
  cases h with
  | idle => exact hm
  | close | hit | drop | finHit | finDrop => exact hremove
  | create payload => exact forall_insert hm (hfresh payload)
  | reorder state hkind hstate hack hseq =>
    exact forall_insert hm (hbuffer state hseq (hm p.key state hstate))
  | keep state hin => exact forall_insert hm (hdata state hin)
  | extend state hin => exact forall_insert hm (hexpiry _ _ (hdata state hin))

/-! ### Updates of one connection -/

/-- `process_ack` writes the connection before it asks the parser, and removes it after a verdict:
what was written does not show. -/
theorem insert_pushParsed_remove (m : Tracker B) (key : Endpoint) (state : State)
    (parsed : Parsed) :
    ((m.insert key state).pushParsed parsed).remove key = (m.remove key).pushParsed parsed := by
  simp only [insert, remove, pushParsed, Function.update_idem]

theorem insert_pushParsed_insert (m : Tracker B) (key : Endpoint) (state state' : State)
    (parsed : Parsed) :
    ((m.insert key state).pushParsed parsed).insert key state' =
      (m.insert key state').pushParsed parsed := by
  simp only [insert, pushParsed, Function.update_idem]

/-! ### The effect of an expiry pass -/

/-- The tracker with the expiry queue replaced. -/
def withQueue (m : Tracker B) (pendingExpiry : Option Expiry) (expiries : List Expiry) :
    Tracker B :=
  { m with pendingExpiry, expiries }

/-- Everything the expiry loop can do with the entries it has not taken yet. It returns `none` when
a send fails. -/
inductive ExpiryLoop (now : ℕ) : List Expiry → Tracker B → Option Unit → Tracker B → Prop
  | done (m : Tracker B) : ExpiryLoop now [] m (some ()) (m.withQueue none [])
  /-- The connection of the entry is gone already. -/
  | dead {expiry : ℕ} {key : Endpoint} {rest : List Expiry} {m m' : Tracker B}
      {result : Option Unit} (hkey : m.connections key = none)
      (hrest : ExpiryLoop now rest (m.withQueue none rest) result m') :
      ExpiryLoop now ((expiry, key) :: rest) m result m'
  | wait {expiry : ℕ} {key : Endpoint} {rest : List Expiry} {m : Tracker B} (state : State)
      (hkey : m.connections key = some state) (hexpiry : now < expiry) :
      ExpiryLoop now ((expiry, key) :: rest) m (some ()) (m.withQueue (some (expiry, key)) rest)
  | expired {expiry : ℕ} {key : Endpoint} {rest : List Expiry} {m m' : Tracker B}
      {result : Option Unit} (state : State) (hkey : m.connections key = some state)
      (hexpiry : expiry ≤ now)
      (hrest : ExpiryLoop now rest ((m.withQueue none rest).remove key) result m') :
      ExpiryLoop now ((expiry, key) :: rest) m result m'
  /-- The report of the removal failed. -/
  | failed {expiry : ℕ} {key : Endpoint} {rest : List Expiry} {m : Tracker B} (state : State)
      (hkey : m.connections key = some state) (hexpiry : expiry ≤ now) :
      ExpiryLoop now ((expiry, key) :: rest) m none ((m.withQueue none rest).remove key)

/-- The expiry loop only touches the connections and the queue. -/
theorem ExpiryLoop.frame {now : ℕ} {queue : List Expiry} {m m' : Tracker B} {result : Option Unit}
    (h : ExpiryLoop now queue m result m') : m'.scanlings = m.scanlings ∧ m'.parsed = m.parsed := by
  induction h with
  | done m => exact ⟨rfl, rfl⟩
  | dead hkey hrest ih => exact ih
  | wait state hkey hexpiry => exact ⟨rfl, rfl⟩
  | expired state hkey hexpiry hrest ih => exact ih
  | failed state hkey hexpiry => exact ⟨rfl, rfl⟩

/-- A connection that the expiry loop leaves was there before, unchanged. -/
theorem ExpiryLoop.connections_of_some {now : ℕ} {queue : List Expiry} {m m' : Tracker B}
    {result : Option Unit} (h : ExpiryLoop now queue m result m') {key : Endpoint} {state : State}
    (hstate : m'.connections key = some state) : m.connections key = some state := by
  induction h with
  | done m => exact hstate
  | dead hkey hrest ih => exact ih hstate
  | wait _ hkey hexpiry => exact hstate
  | expired _ hkey hexpiry hrest ih => exact connections_of_remove (ih hstate)
  | failed _ hkey hexpiry => exact connections_of_remove hstate

end Tracker

namespace Responder

/-! ### The handlers refine the effect

`ok` stands for the assumption that no send fails. -/

/-- The responder remembers `m`, and no send will fail if `ok`. -/
def At (ok : Prop) (m : Tracker B) (w : Responder A B) : Prop :=
  w.toTracker = m ∧ (ok → w.wakes = [])

variable {ok : Prop} {m : Tracker B}

/-- A send leaves the tracker as it is. -/
theorem transmit_spec (packet : TxPacket) {E : Responder A B → Prop}
    (hE : ∀ w, ¬ ok → w.toTracker = m → E w) :
    Triple (At ok m) (transmit packet) (fun _ => At ok m) E := by
  rintro w ⟨rfl, hok⟩
  cases hwakes : w.wakes with
  | nil =>
    simp only [transmit, hwakes]
    exact ⟨rfl, fun _ => rfl⟩
  | cons wake wakes =>
    -- with `ok` there would be no wake-up to come
    have hfail : ¬ ok := fun h => by
      rw [hok h] at hwakes
      cases hwakes
    cases wake with
    | ok =>
      simp only [transmit, hwakes]
      exact ⟨rfl, fun h => absurd h hfail⟩
    | failBefore =>
      simp only [transmit, hwakes]
      exact hE _ hfail rfl
    | failAfter =>
      simp only [transmit, hwakes]
      exact hE _ hfail rfl

theorem track_spec {E : Responder A B → Prop} (f : Tracker B → Tracker B) :
    Triple (At ok m) (track f) (fun _ => At ok (f m)) E :=
  Triple.modify fun _ hw => ⟨congrArg f hw.1, hw.2⟩

/-- What is read from the state is what is remembered. -/
theorem get_spec {α : Type} {g : Responder A B → Handler (Responder A B) α}
    {Q : α → Responder A B → Prop} {E : Responder A B → Prop}
    (h : ∀ w, w.connections = m.connections → Triple (At ok m) (g w) Q E) :
    Triple (At ok m) (Handler.get >>= g) Q E := by
  refine Triple.get_bind fun w hw => ?_
  exact (h w (congrArg Tracker.connections hw.1)).mono (fun _ h => h ▸ hw) (fun _ _ h => h)
    fun _ h => h

/-- A report to the strategies leaves the tracker as it is, like the send it ends in. -/
theorem record_spec (env : ResponderEnv A B) (ip : Ipv4Addr) (port : BitVec 16)
    (hash : Option (BitVec 64)) {E : Responder A B → Prop}
    (hE : ∀ w, ¬ ok → w.toTracker = m → E w) :
    Triple (At ok m) (record env ip port hash) (fun _ => At ok m) E := by
  refine Triple.get_bind fun w hw => ?_
  refine Triple.bind (Q := fun _ => At ok m) (Triple.modify ?_) fun _ => ?_
  · rintro _ rfl
    exact hw
  · split
    · exact Triple.pure fun _ h => h
    · exact transmit_spec _ hE

theorem ipOnResult_spec (env : ResponderEnv A B) (ip : Ipv4Addr) {E : Responder A B → Prop} :
    Triple (At ok m)
      (Handler.modify fun w => { w with adapter := env.ipOnResult w.adapter ip })
      (fun _ => At ok m) E :=
  Triple.modify fun _ hw => hw

section

variable (env : ResponderEnv A B) (now : ℕ) (p : Packet)

/-- `process_syn_ack` sends before it creates the connection, so a failed send leaves no connection
behind. -/
theorem processSynAck_spec :
    Triple (At ok m) (processSynAck env now p.ip p.hdr) (fun _ => At ok (m.onSynAck env now p))
      fun w => (ok → env.build p.ip p.hdr.sourcePort = none) ∧ w.toTracker = m := by
  have hE (w : Responder A B) (hok : ¬ ok) (hw : w.toTracker = m) :
      (ok → env.build p.ip p.hdr.sourcePort = none) ∧ w.toTracker = m :=
    ⟨fun h => absurd h hok, hw⟩
  unfold processSynAck Tracker.onSynAck
  dsimp only
  split
  · exact record_spec env _ _ _ hE
  · -- without a payload the handler stops although no send fails
    cases hbuild : env.build p.ip p.hdr.sourcePort with
    | none =>
      rw [hbuild] at hE
      refine Triple.bind (transmit_spec _ hE) fun _ => ?_
      refine Triple.bind (record_spec env _ _ _ hE) fun _ => ?_
      exact Triple.fail fun w hw => ⟨fun _ => rfl, hw.1⟩
    | some payload =>
      rw [hbuild] at hE
      refine Triple.bind (transmit_spec _ hE) fun _ => ?_
      exact track_spec _

variable {env now p} in
/-- A handler that a failed send stops has made a step. -/
theorem stopped {m' : Tracker B} (hstep : m.PacketStep env now p m') (w : Responder A B)
    (hok : ¬ ok) (hw : w.toTracker = m') : ¬ ok ∧ m.PacketStep env now p w.toTracker :=
  ⟨hok, hw ▸ hstep⟩

/-- `process_fin` removes the connection before it reports, so a failed report loses the result and
not the removal. -/
theorem processFin_spec (hkind : p.kind = .fin) :
    Triple (At ok m) (processFin env p.ip p.hdr p.payload) (fun _ => At ok (m.onFin env p))
      fun w => ¬ ok ∧ m.PacketStep env now p w.toTracker := by
  unfold processFin
  dsimp only
  refine Triple.bind (transmit_spec _ (stopped .idle)) fun _ => ?_
  refine get_spec fun w hw => ?_
  rw [hw]
  -- the connection is gone before its data is looked at
  have hclose : m.PacketStep env now p (m.remove p.key) := .close (.inr hkind)
  refine Triple.bind (Q := fun _ => At ok (m.remove p.key)) (track_spec _) fun _ => ?_
  unfold Tracker.onFin
  change Triple _ (match m.connections p.key with | none => _ | some state => _) _ _
  split
  · exact record_spec env _ _ _ (stopped hclose)
  · next state hstate =>
    split
    · exact record_spec env _ _ _ (stopped hclose)
    · next hpayload =>
      have hdrop : m.PacketStep env now p ((m.remove p.key).pushParsed
          ⟨p.key, state.nextExpectedAck, state.data ++ p.payload⟩) :=
        .finDrop state hkind hstate hpayload
      refine Triple.bind (track_spec _) fun _ => ?_
      cases hparse : env.parse (state.data ++ p.payload) with
      | ok banner =>
        refine Triple.bind (ipOnResult_spec env _) fun _ => ?_
        refine Triple.bind (record_spec env _ _ _ (stopped hdrop)) fun _ => ?_
        exact track_spec _
      | error e => exact record_spec env _ _ _ (stopped hdrop)

/-- `process_ack` in all its branches. Where it stops in the middle, what it has done so far is
still one of the steps. -/
theorem processAck_spec (hkind : p.kind = .ack) :
    Triple (At ok m) (processAck env p.ip p.hdr p.payload) (fun _ => At ok (m.onAck env p))
      fun w => ¬ ok ∧ m.PacketStep env now p w.toTracker := by
  unfold processAck
  dsimp only
  refine get_spec fun w hw => ?_
  rw [hw]
  unfold Tracker.onAck
  change Triple _ (match m.connections p.key with | none => _ | some state => _) _ _
  split
  · -- no connection: reported and reset, and nothing to change
    refine Triple.bind (record_spec env _ _ _ (stopped .idle)) fun _ => ?_
    exact transmit_spec _ (stopped .idle)
  · next state hstate =>
    split
    · exact Triple.pure fun _ h => h
    · next hack =>
      have hack' : p.hdr.ack = state.nextExpectedAck := by simpa using hack
      split
      · next hseq =>
        refine Triple.bind (track_spec _) fun _ => ?_
        -- the segment was kept before the send
        exact transmit_spec _ (stopped (.reorder state hkind hstate hack' hseq))
      · next hseq =>
        split
        · exact Triple.pure fun _ h => h
        · next hpayload =>
          have hin : m.InSequence p state := ⟨hkind, hstate, hack', by simpa using hseq, hpayload⟩
          change Triple _ (track (fun m => (m.insert p.key (state.accept p.payload)).pushParsed
            ((state.accept p.payload).parsed p.key)) >>= _) _ _
          refine Triple.bind (track_spec _) fun _ => ?_
          change Triple _ (match env.parse (state.accept p.payload).data with
            | .ok banner => _ | .error .invalid => _ | .error .incomplete => _) _ _
          unfold Tracker.onData
          -- what was inserted before the verdict is overwritten or removed after it
          cases hparse : env.parse (state.accept p.payload).data with
          | ok banner =>
            have hdrop : m.PacketStep env now p
                ((m.remove p.key).pushParsed ((state.accept p.payload).parsed p.key)) :=
              .drop state hin (by rw [hparse]; exact fun h => by cases h)
            refine Triple.bind (track_spec _) fun _ => ?_
            rw [show (p.ip, p.hdr.sourcePort) = p.key from rfl, Tracker.insert_pushParsed_remove]
            refine Triple.bind (transmit_spec _ (stopped hdrop)) fun _ => ?_
            refine Triple.bind (ipOnResult_spec env _) fun _ => ?_
            refine Triple.bind (record_spec env _ _ _ (stopped hdrop)) fun _ => ?_
            exact track_spec _
          | error e =>
            cases e with
            | invalid =>
              -- the report comes before the removal here
              refine Triple.bind (record_spec env _ _ _ (stopped (.keep state hin hparse)))
                fun _ => ?_
              refine Triple.bind (track_spec _) fun _ => ?_
              rw [show (p.ip, p.hdr.sourcePort) = p.key from rfl, Tracker.insert_pushParsed_remove]
              exact transmit_spec _ (stopped (.drop state hin
                (by rw [hparse]; exact fun h => by cases h)))
            | incomplete =>
              refine Triple.bind (track_spec _) fun _ => ?_
              rw [show (p.ip, p.hdr.sourcePort) = p.key from rfl, Tracker.insert_pushParsed_insert]
              exact transmit_spec _ (stopped (.extend state hin hparse))

/-- The handler of every kind of packet does what `onPacket` says, or has stopped at a failed send
with one of the steps done. -/
theorem processPacket_spec :
    Triple (At ok m) (processPacket env now p) (fun _ => At ok (m.onPacket env now p))
      fun w => m.PacketStep env now p w.toTracker ∧ (ok → w.toTracker = m.onPacket env now p) := by
  -- a handler that stops although no send fails could not build the payload
  have hstop (w : Responder A B) (h : ¬ ok ∧ m.PacketStep env now p w.toTracker) :
      m.PacketStep env now p w.toTracker ∧ (ok → w.toTracker = m.onPacket env now p) :=
    ⟨h.2, fun hok => absurd hok h.1⟩
  unfold processPacket
  split
  · next hrst =>
    have hkind : p.kind = .rst := if_pos hrst
    have hclose : m.onPacket env now p = m.remove p.key := by rw [Tracker.onPacket, hkind]
    refine Triple.bind (record_spec env _ _ _ fun w hok hw => hstop w (stopped .idle w hok hw))
      fun _ => ?_
    exact (track_spec _).mono (fun _ h => h) (fun _ w h => hclose ▸ h) hstop
  · next hrst =>
    split
    · next hfin =>
      have hkind : p.kind = .fin := (if_neg hrst).trans (if_pos hfin)
      refine (processFin_spec env now p hkind).mono (fun _ h => h) (fun _ w h => ?_) hstop
      rwa [Tracker.onPacket, hkind]
    · next hfin =>
      split
      · next hsynAck =>
        have hkind : p.kind = .synAck :=
          (if_neg hrst).trans ((if_neg hfin).trans (if_pos hsynAck))
        refine (processSynAck_spec env now p).mono (fun _ h => h) (fun _ w h => ?_) fun w h => ?_
        · rwa [Tracker.onPacket, hkind]
        · refine ⟨h.2 ▸ .idle, fun hok => ?_⟩
          rw [h.2, Tracker.onPacket, hkind]
          simp only [Tracker.onSynAck, h.1 hok, ite_self]
      · next hsynAck =>
        have hkind : p.kind = if p.hdr.flags.contains .ack then .ack else .other :=
          (if_neg hrst).trans ((if_neg hfin).trans (if_neg hsynAck))
        split
        · next hack =>
          rw [if_pos hack] at hkind
          refine (processAck_spec env now p hkind).mono (fun _ h => h) (fun _ w h => ?_) hstop
          rwa [Tracker.onPacket, hkind]
        · next hack =>
          rw [if_neg hack] at hkind
          rw [Tracker.onPacket, hkind]
          exact Triple.pure fun _ h => h

end

/-- The same for a packet as it arrives, with the wake-ups that come with it. -/
theorem receive_spec (env : ResponderEnv A B) (arrival : Arrival) (w : Responder A B) :
    w.toTracker.PacketStep env arrival.now arrival.packet (receive env arrival w).2.toTracker ∧
    (arrival.wakes = [] → (receive env arrival w).2.toTracker =
      w.toTracker.onPacket env arrival.now arrival.packet) := by
  have hspec := @processPacket_spec A B (arrival.wakes = []) w.toTracker env arrival.now
    arrival.packet { w with wakes := arrival.wakes } ⟨rfl, fun h => h⟩
  have hrun : receive env arrival w = processPacket env arrival.now arrival.packet
    { w with wakes := arrival.wakes } := rfl
  rw [hrun]
  -- it returned, or it stopped
  split at hspec
  · next w' hw' =>
    rw [hw', hspec.1]
    exact ⟨Tracker.onPacket_step env arrival.now arrival.packet w.toTracker, fun _ => rfl⟩
  · next w' hw' =>
    rw [hw']
    exact hspec

/-- The loop of `expire` is an `ExpiryLoop`, also when it stops at a failed report. -/
theorem expiryLoop_spec (env : ResponderEnv A B) (now : ℕ) (queue : List Expiry) (m : Tracker B) :
    Triple (At ok m) (expiryLoop env now queue)
      (fun result w => Tracker.ExpiryLoop now queue m (some result) w.toTracker)
      fun w => ¬ ok ∧ Tracker.ExpiryLoop now queue m none w.toTracker := by
  -- the tracker changes with every entry that is taken
  induction queue generalizing m with
  | nil =>
    exact (track_spec _).mono (fun _ h => h) (fun _ w h => h.1 ▸ .done m) fun _ h => h
  | cons entry rest ih =>
    obtain ⟨expiry, key⟩ := entry
    refine Triple.bind (Q := fun _ => At ok (m.withQueue none rest)) (track_spec _) fun _ => ?_
    refine get_spec fun w hw => ?_
    rw [hw]
    split
    · next hkey =>
      refine (ih _).mono (fun _ h => h) (fun _ w h => .dead hkey h) fun w h => ⟨h.1, .dead hkey h.2⟩
    · next state hkey =>
      split
      · next hexpiry =>
        exact (track_spec _).mono (fun _ h => h) (fun _ w h => h.1 ▸ .wait state hkey hexpiry)
          fun _ h => h
      · next hexpiry =>
        -- due: removed first, and then reported
        have hexpiry := Nat.le_of_not_lt hexpiry
        refine Triple.bind (track_spec _) fun _ => ?_
        refine Triple.bind (record_spec env _ _ _ fun w hok hw =>
          ⟨hok, hw ▸ .failed state hkey hexpiry⟩) fun _ => ?_
        exact (ih _).mono (fun _ h => h) (fun _ w h => .expired state hkey hexpiry h)
          fun w h => ⟨h.1, .expired state hkey hexpiry h.2⟩

/-- The pass of one tick, with the entry that was kept back in front. -/
theorem expire_spec (env : ResponderEnv A B) (now : ℕ) (wakes : List Wake) (w : Responder A B) :
    Tracker.ExpiryLoop now w.queue w.toTracker (expire env now wakes w).1
      (expire env now wakes w).2.toTracker ∧
    (wakes = [] → (expire env now wakes w).1 = some ()) := by
  have hspec := @expiryLoop_spec A B (wakes = []) env now w.queue w.toTracker
    { w with wakes } ⟨rfl, fun h => h⟩
  have hrun : expire env now wakes w = expiryLoop env now w.queue { w with wakes } := rfl
  rw [hrun]
  split at hspec
  · next w' hw' =>
    rw [hw']
    exact ⟨hspec, fun _ => rfl⟩
  · next w' hw' =>
    rw [hw']
    exact ⟨hspec.2, fun hwakes => absurd hwakes hspec.1⟩

end Responder

end Farsight
