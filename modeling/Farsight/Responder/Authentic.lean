import Farsight.Responder.Effect
import Mathlib.Order.Monotone.Defs

/-!
# Authentication by cookies

The responder has no record of the probes that were sent. A `SYN+ACK` whose acknowledgement number
is the cookie of its sender plus one is all that a connection rests on, and whatever else arrives,
in whatever order, creates none.

* `Packet.Authentic` — a `SYN+ACK` that carries the cookie of the host;
* `Tracker.PacketStep.origin` — where a connection comes from: such a packet created it, or it was
  there before and expects the same acknowledgement number;
* `Tracker.PacketStep.spent_le` — the results of a host and its connection, counted together, grow
  only by such a packet;
* `AuthInv` — the invariant of a run, with `authInv_step` for its steps;
* `Responder.authenticated` — connections and results are authenticated.
-/

namespace Farsight

open Responder (State Event Arrival)

variable {A B : Type}

/-- A `SYN+ACK` of the host that acknowledges the cookie of its probe. -/
def Packet.Authentic (env : ResponderEnv A B) (key : Endpoint) (p : Packet) : Prop :=
  p.kind = .synAck ∧ p.key = key ∧ p.hdr.ack = cookie key.1 key.2 env.seed + 1

instance (env : ResponderEnv A B) (key : Endpoint) (p : Packet) :
    Decidable (p.Authentic env key) :=
  inferInstanceAs (Decidable (_ ∧ _ ∧ _))

/-- The acknowledgement number that a connection of the host expects: the cookie, plus one for the
`SYN`, plus the length of the payload. -/
def ExpectsAck (env : ResponderEnv A B) (key : Endpoint) (ack : BitVec 32) : Prop :=
  ∃ payload, env.build key.1 key.2 = some payload ∧
    ack = cookie key.1 key.2 env.seed + 1 + BitVec.ofNat 32 payload.length

namespace Responder.State

/-- A segment out of order leaves the acknowledgement that is expected. -/
theorem bufferSegment_nextExpectedAck (env : ResponderEnv A B) (state : State) (seq : BitVec 32)
    (payload : List UInt8) :
    (state.bufferSegment env seq payload).nextExpectedAck = state.nextExpectedAck := by
  unfold bufferSegment
  dsimp only
  split
  · rfl
  · rfl

theorem accept_nextExpectedAck (state : State) (payload : List UInt8) :
    (state.accept payload).nextExpectedAck = state.nextExpectedAck :=
  (stitch_rule (P := fun state' => state'.nextExpectedAck = state.nextExpectedAck)
    (fun _ _ _ h => h) (state.append payload) rfl).1

end Responder.State

namespace Tracker

variable {env : ResponderEnv A B} {now : ℕ} {p : Packet} {m m' : Tracker B} {key : Endpoint}

/-! ### Where connections come from -/

/-- A connection after a packet was created by it, or was there before and expects the same
acknowledgement number. -/
theorem PacketStep.origin (h : PacketStep env now p m m') {state' : State}
    (hstate' : m'.connections key = some state') :
    (p.Authentic env key ∧ ∃ payload, env.build key.1 key.2 = some payload ∧
      state' = .fresh env now p payload) ∨
    ∃ state, m.connections key = some state ∧
      state'.nextExpectedAck = state.nextExpectedAck := by
  by_cases hkey : key = p.key
  · subst hkey
    cases h with
    | idle => exact .inr ⟨state', hstate', rfl⟩
    -- the one case that makes a connection, and that has checked the cookie
    | create payload hkind hack hbuild =>
      rw [connections_insert, Function.update_self] at hstate'
      cases hstate'
      exact .inl ⟨⟨hkind, rfl, hack⟩, payload, hbuild, rfl⟩
    | reorder state hkind hstate hack hseq =>
      rw [connections_insert, Function.update_self] at hstate'
      cases hstate'
      exact .inr ⟨state, hstate, State.bufferSegment_nextExpectedAck ..⟩
    | keep state hin hparse =>
      rw [connections_pushParsed, connections_insert, Function.update_self] at hstate'
      cases hstate'
      exact .inr ⟨state, hin.connection, State.accept_nextExpectedAck ..⟩
    | extend state hin hparse =>
      rw [connections_pushExpiry, connections_pushParsed, connections_insert,
        Function.update_self] at hstate'
      cases hstate'
      exact .inr ⟨state, hin.connection, State.accept_nextExpectedAck state p.payload⟩
    | close | hit | drop | finHit | finDrop =>
      -- the connection is removed
      exact absurd rfl (ne_of_remove (m := m) hstate')
  · rw [(h.frame hkey).1] at hstate'
    exact .inr ⟨state', hstate', rfl⟩

/-! ### Counting results -/

/-- The results of a host, and one more if it has a connection. -/
def spent (m : Tracker B) (key : Endpoint) : ℕ :=
  (m.scanlingsOf key).length + if (m.connections key).isSome then 1 else 0

theorem spent_of_some {state : State} (h : m.connections key = some state) :
    m.spent key = (m.scanlingsOf key).length + 1 := by
  rw [spent, h, Option.isSome_some, if_pos rfl]

theorem spent_of_none (h : m.connections key = none) :
    m.spent key = (m.scanlingsOf key).length := by
  rw [spent, h, Option.isSome_none, if_neg Bool.false_ne_true, Nat.add_zero]

theorem length_scanlingsOf_le_spent (m : Tracker B) (key : Endpoint) :
    (m.scanlingsOf key).length ≤ m.spent key :=
  Nat.le_add_right _ _

theorem spent_le_succ (m : Tracker B) (key : Endpoint) :
    m.spent key ≤ (m.scanlingsOf key).length + 1 := by
  cases h : m.connections key with
  | none => exact (spent_of_none h).trans_le (Nat.le_succ _)
  | some state => exact (spent_of_some h).le

/-- A result that takes the place of its connection. -/
theorem spent_replace (m : Tracker B) (p : Packet) (call : Parsed) (banner : B) :
    (((m.remove p.key).pushParsed call).pushScanling ⟨p.ip, p.hdr.sourcePort, banner⟩).spent p.key =
      (m.scanlingsOf p.key).length + 1 := by
  have hnone : (((m.remove p.key).pushParsed call).pushScanling
      ⟨p.ip, p.hdr.sourcePort, banner⟩).connections p.key = none := Function.update_self ..
  have hkey : ((⟨p.ip, p.hdr.sourcePort, banner⟩ : Scanling B).ip,
      (⟨p.ip, p.hdr.sourcePort, banner⟩ : Scanling B).port) = p.key := rfl
  rw [spent_of_none hnone, scanlingsOf_pushScanling _ _ _ hkey, List.length_append]
  rfl

/-- Only an authentic packet adds to what is spent, and it adds one. A result takes the place of its
connection. -/
theorem PacketStep.spent_le (h : PacketStep env now p m m') (key : Endpoint) :
    m'.spent key ≤ m.spent key + if p.Authentic env key then 1 else 0 := by
  by_cases hkey : key = p.key
  · subst hkey
    -- a step without a new result, on a connection that was there
    have hsame {m' : Tracker B} {state : State} (hold : m.connections p.key = some state)
        (hscanlings : m'.scanlingsOf p.key = m.scanlingsOf p.key) :
        m'.spent p.key ≤ m.spent p.key := by
      rw [spent_of_some hold, ← hscanlings]
      exact spent_le_succ m' p.key
    -- a step that removes the connection
    have hgone {m' : Tracker B} (hnone : m'.connections p.key = none)
        (hscanlings : m'.scanlingsOf p.key = m.scanlingsOf p.key) :
        m'.spent p.key ≤ m.spent p.key := by
      rw [spent_of_none hnone, hscanlings]
      exact length_scanlingsOf_le_spent m p.key
    cases h with
    | idle => exact Nat.le_add_right _ _
    | close => exact Nat.le_add_right_of_le (hgone (Function.update_self ..) rfl)
    | create payload hkind hack hbuild =>
      have hauth : p.Authentic env p.key := ⟨hkind, rfl, hack⟩
      rw [if_pos hauth]
      exact (spent_le_succ _ _).trans
        (Nat.add_le_add_right (length_scanlingsOf_le_spent m p.key) 1)
    | reorder state hkind hstate hack hseq => exact Nat.le_add_right_of_le (hsame hstate rfl)
    | keep state hin hparse => exact Nat.le_add_right_of_le (hsame hin.connection rfl)
    | extend state hin hparse => exact Nat.le_add_right_of_le (hsame hin.connection rfl)
    | drop state hin hparse => exact Nat.le_add_right_of_le (hgone (Function.update_self ..) rfl)
    | finDrop state hkind hstate hpayload =>
      exact Nat.le_add_right_of_le (hgone (Function.update_self ..) rfl)
    -- the connection is replaced by its result: the sum stays
    | hit state banner hin hparse =>
      rw [spent_replace, spent_of_some hin.connection]
      exact Nat.le_add_right _ _
    | finHit state banner hkind hstate hpayload hparse =>
      rw [spent_replace, spent_of_some hstate]
      exact Nat.le_add_right _ _
  · rw [spent, spent, (h.frame hkey).1, (h.frame hkey).2]
    exact Nat.le_add_right _ _

/-- An expiry pass adds nothing. -/
theorem ExpiryLoop.spent_le {queue : List Expiry} {result : Option Unit}
    (h : ExpiryLoop now queue m result m') (key : Endpoint) : m'.spent key ≤ m.spent key := by
  have hscanlings : m'.scanlingsOf key = m.scanlingsOf key := by
    rw [scanlingsOf, scanlingsOf, h.frame.1]
  cases hstate : m'.connections key with
  | none =>
    rw [spent_of_none hstate, hscanlings]
    exact length_scanlingsOf_le_spent m key
  | some state =>
    rw [spent_of_some hstate, spent_of_some (h.connections_of_some hstate), hscanlings]

end Tracker

/-! ### Runs -/

namespace Responder

/-- An authentic packet arrives. -/
def Event.Authentic (env : ResponderEnv A B) (key : Endpoint) : Event → Prop
  | .packet arrival => arrival.packet.Authentic env key
  | .expiry _ _ => False

instance (env : ResponderEnv A B) (key : Endpoint) :
    (event : Event) → Decidable (event.Authentic env key)
  | .packet arrival => inferInstanceAs (Decidable (arrival.packet.Authentic env key))
  | .expiry _ _ => inferInstanceAs (Decidable False)

/-- The connection was created by an authentic packet of the run, and has been there since. -/
def CreatedIn (env : ResponderEnv A B) (adapter : A) (events : List Event) (key : Endpoint) :
    Prop :=
  ∃ before arrival after, events = before ++ .packet arrival :: after ∧
    arrival.packet.Authentic env key ∧
    (∃ payload, env.build key.1 key.2 = some payload ∧
      (run env (new adapter) (before ++ [.packet arrival])).connections key =
        some (.fresh env arrival.now arrival.packet payload)) ∧
    ∀ since, since <+: after →
      ((run env (new adapter) (before ++ .packet arrival :: since)).connections key).isSome

/-- The number of authentic packets. -/
def handshakes (env : ResponderEnv A B) (key : Endpoint) (events : List Event) : ℕ :=
  events.countP fun event => event.Authentic env key

/-- The invariant of a run: connections are authentic, and the results of a host are paid for by its
handshakes. -/
structure AuthInv (env : ResponderEnv A B) (adapter : A) (key : Endpoint) (events : List Event) :
    Prop where
  created : ∀ state, (run env (new adapter) events).connections key = some state →
    CreatedIn env adapter events key ∧ ExpectsAck env key state.nextExpectedAck
  spent : (run env (new adapter) events).spent key ≤ handshakes env key events

variable {env : ResponderEnv A B} {adapter : A} {key : Endpoint} {events : List Event}

theorem handshakes_concat (event : Event) :
    handshakes env key (events ++ [event]) =
      handshakes env key events + if event.Authentic env key then 1 else 0 := by
  rw [handshakes, List.countP_append, List.countP_singleton]
  simp only [handshakes, decide_eq_true_eq]

/-- A connection that is still there. -/
theorem CreatedIn.concat (h : CreatedIn env adapter events key) {event : Event}
    (halive : ((run env (new adapter) (events ++ [event])).connections key).isSome) :
    CreatedIn env adapter (events ++ [event]) key := by
  obtain ⟨before, arrival, after, rfl, hauth, hfresh, hsince⟩ := h
  refine ⟨before, arrival, after ++ [event], ?_, hauth, hfresh, fun since hpre => ?_⟩
  · rw [List.append_assoc, List.cons_append]
  · -- a shorter past, or the whole of it
    rcases List.prefix_concat_iff.mp hpre with rfl | hpre
    · rwa [List.append_assoc, List.cons_append] at halive
    · exact hsince since hpre

/-- One event keeps the invariant. Only a packet can create a connection or a result. The expiry
loop removes connections, which needs no handshake. -/
theorem authInv_step (event : Event) (h : AuthInv env adapter key events) :
    AuthInv env adapter key (events ++ [event]) := by
  have hrun := run_concat env (new adapter) events event
  cases event with
  | packet arrival =>
    have hstep := (receive_spec env arrival (run env (new adapter) events)).1
    change Tracker.PacketStep env _ _ _ (step env _ (.packet arrival)).toTracker at hstep
    rw [← hrun] at hstep
    constructor
    · intro state' hstate'
      rcases hstep.origin hstate' with ⟨hauth, payload, hbuild, rfl⟩ | ⟨state, hstate, hack⟩
      · -- created now
        refine ⟨⟨events, arrival, [], rfl, hauth, ⟨payload, hbuild, hstate'⟩, ?_⟩,
          payload, hbuild, ?_⟩
        · intro since hpre
          rw [List.prefix_nil.mp hpre, hstate']
          rfl
        · change arrival.packet.hdr.ack + _ = _
          rw [hauth.2.2]
      · -- it was there before, and is the same connection as long as it stays
        obtain ⟨hcreated, hexpects⟩ := h.created state hstate
        refine ⟨hcreated.concat (Option.isSome_iff_exists.mpr ⟨state', hstate'⟩), ?_⟩
        rwa [hack]
    · rw [handshakes_concat]
      exact (hstep.spent_le key).trans (Nat.add_le_add_right h.spent _)
  | expiry now wakes =>
    have hloop := (expire_spec env now wakes (run env (new adapter) events)).1
    change Tracker.ExpiryLoop _ _ _ _ (step env _ (.expiry now wakes)).toTracker at hloop
    rw [← hrun] at hloop
    constructor
    · intro state hstate
      obtain ⟨hcreated, hexpects⟩ := h.created state (hloop.connections_of_some hstate)
      exact ⟨hcreated.concat (Option.isSome_iff_exists.mpr ⟨state, hstate⟩), hexpects⟩
    · rw [handshakes_concat]
      exact ((hloop.spent_le key).trans h.spent).trans (Nat.le_add_right _ _)

/-- The invariant holds after every run, by induction on its last event. -/
theorem authInv_run (env : ResponderEnv A B) (adapter : A) (key : Endpoint)
    (events : List Event) : AuthInv env adapter key events := by
  induction events using List.reverseRecOn with
  | nil =>
    refine ⟨fun state hstate => ?_, le_rfl⟩
    cases hstate
  | append_singleton events event ih => exact authInv_step event ih

/-- A handshake is no result: when it has been processed, the results are still those of the
handshakes before it. -/
theorem scanlings_le_of_authentic (adapter : A) (events : List Event) {event : Event}
    (hauth : event.Authentic env key) :
    ((run env (new adapter) (events ++ [event])).scanlingsOf key).length ≤
      handshakes env key events := by
  cases event with
  | expiry now wakes => exact absurd hauth not_false
  | packet arrival =>
    have hstep := (receive_spec env arrival (run env (new adapter) events)).1
    change Tracker.PacketStep env _ _ _ (step env _ (.packet arrival)).toTracker at hstep
    rw [← run_concat] at hstep
    -- a SYN/ACK adds no result: those come with data or with a FIN
    have hscanlings : (run env (new adapter) (events ++ [.packet arrival])).scanlingsOf key =
        (run env (new adapter) events).scanlingsOf key := by
      revert hstep
      generalize (run env (new adapter) (events ++ [.packet arrival])).toTracker = m'
      intro hstep
      have hkind : arrival.packet.kind = .synAck := hauth.1
      cases hstep with
      | hit state banner hin => cases hkind.symm.trans hin.kind
      | finHit state banner hfin => cases hkind.symm.trans hfin
      | _ => rfl
    rw [hscanlings]
    exact (Tracker.length_scanlingsOf_le_spent _ _).trans (authInv_run env adapter key events).spent

/-- **Connections and results are authenticated.** In every run, every connection was created by an
earlier authentic packet of its host and expects the cookie, plus one, plus the length of the
payload, as long as it lives; the results of a host are at most as many as its authentic packets;
and the `k`-th result comes after an authentic packet of its own, the `k`-th of the host. -/
theorem authenticated (env : ResponderEnv A B) (adapter : A) (events : List Event)
    (key : Endpoint) :
    (∀ state, (run env (new adapter) events).connections key = some state →
      CreatedIn env adapter events key ∧ ExpectsAck env key state.nextExpectedAck) ∧
    ((run env (new adapter) events).scanlingsOf key).length ≤ handshakes env key events ∧
    ∃ own : ℕ → ℕ,
      StrictMonoOn own
        (Set.Iio ((run env (new adapter) events).scanlingsOf key).length) ∧
      ∀ k < ((run env (new adapter) events).scanlingsOf key).length,
        (∃ event, events[own k]? = some event ∧ event.Authentic env key) ∧
        ((run env (new adapter) (events.take (own k + 1))).scanlingsOf key).length ≤ k := by
  have hinv := authInv_run env adapter key events
  have hcount := (Tracker.length_scanlingsOf_le_spent _ _).trans hinv.spent
  -- the position of the `k`-th handshake
  let own := events.findIdxNth fun event => decide (Event.Authentic env key event)
  refine ⟨hinv.created, hcount, own, ?_, ?_⟩
  · -- later results belong to later handshakes, as positions of a search are increasing
    intro j hj k hk hlt
    exact (List.findIdxNth_lt_findIdxNth_iff_of_lt_countP (lt_of_lt_of_le hj hcount)).mpr hlt
  · intro k hk
    have hk' : k < handshakes env key events := lt_of_lt_of_le hk hcount
    have hlt : own k < events.length := List.findIdxNth_lt_length_of_lt_countP hk'
    have hauth : events[own k].Authentic env key :=
      of_decide_eq_true (List.pos_findIdxNth_getElem (h := hlt))
    refine ⟨⟨_, List.getElem?_eq_getElem hlt, hauth⟩, ?_⟩
    -- the handshakes before it are `k`
    have hbefore : handshakes env key (events.take (own k)) = k := by
      rw [handshakes, ← List.countPBefore_eq_countP_take]
      exact List.countPBefore_findIdxNth_of_lt_countP hk'
    have hresults := scanlings_le_of_authentic adapter (events.take (own k)) hauth
    rwa [hbefore, ← List.take_succ_eq_append_getElem hlt] at hresults

end Responder

end Farsight
