import Farsight.Lib.Deadlines
import Farsight.Responder.Effect

/-!
# Expiry

A connection has a deadline, and every time the deadline is set an entry goes into the expiry queue.
The loop of `tick` acts on entries: it never looks at the deadline of the connection that it
removes, and it stops at the first entry that is not due.

* `Tracker.ExpiryLoop.expires`, `Tracker.ExpiryLoop.connections_eq_none` — a pass removes exactly
  the connections that have a due entry it gets to;
* `Tracker.QueueInv` — every connection has an entry with its own deadline in the queue;
* `Responder.no_leaked_connection` — so it is in every reachable state, and the expiry loop can
  reach every connection;
* `Responder.notEarly_iff` — a pass removes no connection too early if and only if none of the
  entries it acts on is older than the deadline of its connection;
* `Responder.notLate_iff` — a pass leaves no connection behind if and only if none that is due is
  shielded by a later entry;
* `Responder.extendedDeadline_early`, `Responder.shieldedDeadline_late` — runs in which the two go
  wrong.
-/

namespace Farsight

open Deadlines
open Responder (State Event)

variable {A B : Type}

namespace Tracker

/-! ### What a pass removes -/

/-- There is a connection. -/
def Alive (m : Tracker B) (key : Endpoint) : Prop :=
  (m.connections key).isSome

variable {now deadline : ℕ} {key : Endpoint} {m m' : Tracker B} {rest queue : List Expiry}
variable {result : Option Unit} {state : State}

theorem alive_of_some (h : m.connections key = some state) : m.Alive key :=
  Option.isSome_iff_exists.mpr ⟨state, h⟩

theorem not_alive_of_none (h : m.connections key = none) : ¬ m.Alive key := by
  rw [Alive, h]
  exact Bool.false_ne_true

/-- An entry of a connection that is gone changes nothing. -/
theorem after_alive_of_none (h : m.connections key = none) :
    after now m.Alive deadline key = (m.withQueue none rest).Alive := by
  ext other
  refine ⟨fun hafter => hafter.1, fun halive => ⟨halive, ?_⟩⟩
  rintro ⟨-, rfl⟩
  exact not_alive_of_none h halive

/-- A due entry removes its connection. -/
theorem after_alive_of_due (h : deadline ≤ now) :
    after now m.Alive deadline key = ((m.withQueue none rest).remove key).Alive := by
  ext other
  by_cases hother : other = key
  · subst hother
    refine iff_of_false (fun hafter => hafter.2 ⟨h, rfl⟩) (not_alive_of_none ?_)
    exact Function.update_self ..
  · have hsame : ((m.withQueue none rest).remove key).connections other = m.connections other :=
      Function.update_of_ne hother ..
    rw [Alive, hsame]
    exact ⟨fun hafter => hafter.1, fun halive => ⟨halive, fun hdue => hother hdue.2⟩⟩

/-- A connection that a pass removes has a due entry that the pass gets to. -/
theorem ExpiryLoop.expires (h : ExpiryLoop now queue m result m')
    (hstate : m.connections key = some state) (hgone : m'.connections key = none) :
    Expires now m.Alive queue key := by
  induction h with
  -- on the pass: an entry of a connection that has gone is passed over and blocks nothing
  | done m => cases hgone.symm.trans hstate
  | dead hkey hrest ih =>
    rw [expires_cons, after_alive_of_none hkey]
    exact .inr ⟨fun hblocks => not_alive_of_none hkey hblocks.2, ih hstate hgone⟩
  -- the pass stops at this entry, and removes nothing from here on
  | wait _ hkey hexpiry => cases hgone.symm.trans hstate
  | @expired expiry key' rest m _ _ _ hkey hexpiry hrest ih =>
    rw [expires_cons, after_alive_of_due hexpiry]
    -- this entry removes it, or a later one does
    by_cases hown : key' = key
    · exact .inl ⟨hexpiry, hown⟩
    · refine .inr ⟨fun hblocks => absurd hblocks.1 (not_lt.mpr hexpiry), ih ?_ hgone⟩
      exact (Function.update_of_ne (Ne.symm hown) ..).trans hstate
  | @failed expiry key' rest m _ hkey hexpiry =>
    -- the report of this removal failed, so the pass ends with it
    rw [expires_cons]
    by_cases hown : key' = key
    · exact .inl ⟨hexpiry, hown⟩
    · have hsame : ((m.withQueue none rest).remove key').connections key = m.connections key :=
        Function.update_of_ne (Ne.symm hown) ..
      cases hgone.symm.trans (hsame.trans hstate)

/-- A pass that finishes removes every connection with a due entry that it gets to. -/
theorem ExpiryLoop.connections_eq_none (h : ExpiryLoop now queue m result m')
    (hresult : result = some ()) (hexpires : Expires now m.Alive queue key) :
    m'.connections key = none := by
  induction h with
  | done m => exact absurd hexpires not_expires_nil
  | dead hkey hrest ih =>
    rw [expires_cons, after_alive_of_none hkey] at hexpires
    rcases hexpires with ⟨-, rfl⟩ | ⟨-, hexpires⟩
    · rw [Option.eq_none_iff_forall_ne_some]
      -- gone before the rest of the pass, and the pass creates nothing
      intro state hstate
      cases hkey.symm.trans (hrest.connections_of_some hstate)
    · exact ih hresult hexpires
  | wait _ hkey hexpiry =>
    rw [expires_cons] at hexpires
    -- the pass stops here, but a due entry is behind no such entry
    rcases hexpires with ⟨hdue, -⟩ | ⟨hblocks, -⟩
    · omega
    · exact absurd ⟨hexpiry, alive_of_some hkey⟩ hblocks
  | expired _ hkey hexpiry hrest ih =>
    rw [expires_cons, after_alive_of_due hexpiry] at hexpires
    rcases hexpires with ⟨-, rfl⟩ | ⟨-, hexpires⟩
    · rw [Option.eq_none_iff_forall_ne_some]
      intro state hstate
      exact absurd rfl (ne_of_remove (hrest.connections_of_some hstate))
    · exact ih hresult hexpires
  -- a pass that fails returns no result
  | failed _ hkey hexpiry => cases hresult

/-! ### Every connection is in the queue -/

/-- Every connection has an entry with its own deadline in the queue. -/
def QueueInv (m : Tracker B) : Prop :=
  ∀ key state, m.connections key = some state → (state.expiresAt, key) ∈ m.queue

theorem queue_pushExpiry (m : Tracker B) (entry : Expiry) :
    (m.pushExpiry entry).queue = m.queue ++ [entry] :=
  (List.append_assoc ..).symm

/-- Buffering a segment out of turn does not extend the deadline. -/
theorem bufferSegment_expiresAt (env : ResponderEnv A B) (state : State) (seq : BitVec 32)
    (payload : List UInt8) : (state.bufferSegment env seq payload).expiresAt = state.expiresAt := by
  unfold State.bufferSegment
  dsimp only
  split
  · rfl
  · rfl

/-- Nor does accepting one; it is extended after the parser has asked for more. -/
theorem accept_expiresAt (state : State) (payload : List UInt8) :
    (state.accept payload).expiresAt = state.expiresAt :=
  (State.stitch_rule (P := fun state' => state'.expiresAt = state.expiresAt)
    (fun _ _ _ h => h) (state.append payload) rfl).1

theorem QueueInv.pushExpiry (h : m.QueueInv) (entry : Expiry) : (m.pushExpiry entry).QueueInv := by
  intro key state hstate
  rw [queue_pushExpiry]
  exact List.mem_append_left _ (h key state hstate)

/-- A connection may be written if the queue has an entry for its deadline. -/
theorem QueueInv.insert (h : m.QueueInv) (hentry : (state.expiresAt, key) ∈ m.queue) :
    (m.insert key state).QueueInv :=
  forall_insert (P := fun key state => (state.expiresAt, key) ∈ m.queue) h hentry

/-- A removed connection leaves its entry behind, to be passed over later. -/
theorem QueueInv.remove (h : m.QueueInv) (key : Endpoint) : (m.remove key).QueueInv :=
  fun key' state' hstate' => h key' state' (connections_of_remove hstate')

/-- A packet keeps an entry for the deadline of every connection. Entries of deadlines that were
extended, or of connections that have gone, stay in the queue: the invariant does not forbid them,
and they are what the expiry pass has to be right about. -/
theorem QueueInv.packet {env : ResponderEnv A B} {p : Packet} (h : m.QueueInv)
    (hstep : m.PacketStep env now p m') : m'.QueueInv := by
  cases hstep with
  | idle => exact h
  | close => exact h.remove p.key
  | create payload =>
    -- the entry goes into the queue first, and then the connection into the map
    refine (h.pushExpiry _).insert ?_
    rw [queue_pushExpiry]
    exact List.mem_append_right _ (List.mem_singleton_self _)
  | reorder state _ hstate =>
    refine h.insert ?_
    -- the deadline is the old one, and so is its entry
    rw [bufferSegment_expiresAt]
    exact h _ _ hstate
  | hit state banner hin => exact h.remove p.key
  | drop state hin => exact h.remove p.key
  | keep state hin =>
    refine QueueInv.insert (m := m) h ?_
    rw [accept_expiresAt]
    exact h _ _ hin.connection
  | extend state hin =>
    -- the entry of the new deadline goes in with it
    intro key' state' hstate'
    rw [queue_pushExpiry]
    refine forall_insert (P := fun key state => (state.expiresAt, key) ∈ m.queue ++ [_])
      (fun key state hstate => List.mem_append_left _ (h key state hstate)) ?_ key' state' hstate'
    exact List.mem_append_right _ (List.mem_singleton_self _)
  | finHit state banner => exact h.remove p.key
  | finDrop state => exact h.remove p.key

/-- An entry that a pass takes out is of a connection that is gone after it. -/
theorem ExpiryLoop.queueInv (h : ExpiryLoop now queue m result m')
    (hqueue : ∀ key state, m.connections key = some state → (state.expiresAt, key) ∈ queue) :
    m'.QueueInv := by
  -- the entry of a connection other than that of the first entry is further back
  have hlater {m : Tracker B} {expiry : ℕ} {key' : Endpoint} {rest : List Expiry}
      (hqueue : ∀ key state, m.connections key = some state →
        (state.expiresAt, key) ∈ (expiry, key') :: rest)
      {key : Endpoint} {state : State} (hstate : m.connections key = some state)
      (hne : key ≠ key') : (state.expiresAt, key) ∈ rest := by
    rcases List.mem_cons.mp (hqueue key state hstate) with heq | hmem
    · exact absurd (congrArg Prod.snd heq) hne
    · exact hmem
  induction h with
  | done m => exact fun key state hstate => absurd (hqueue key state hstate) List.not_mem_nil
  | dead hkey hrest ih =>
    refine ih fun key state hstate => hlater hqueue hstate ?_
    rintro rfl
    cases hkey.symm.trans hstate
  -- the entry that is kept back counts as the front of the queue
  | wait _ hkey hexpiry => exact hqueue
  | expired _ hkey hexpiry hrest ih =>
    refine ih fun key state hstate => ?_
    exact hlater hqueue (connections_of_remove hstate) (ne_of_remove hstate)
  | failed _ hkey hexpiry =>
    intro key state hstate
    exact hlater hqueue (connections_of_remove hstate) (ne_of_remove hstate)

end Tracker

namespace Responder

/-! ### Runs -/

variable {env : ResponderEnv A B} {w : Responder A B} {event : Event}

/-- Every packet and every expiry pass keeps an entry for every deadline. -/
theorem queueInv_step (env : ResponderEnv A B) (w : Responder A B) (event : Event)
    (h : w.QueueInv) : (step env w event).QueueInv := by
  cases event with
  | packet arrival => exact h.packet (receive_spec env arrival w).1
  | expiry now wakes => exact (expire_spec env now wakes w).1.queueInv h

theorem queueInv_new (adapter : A) : (new adapter : Responder A B).QueueInv :=
  fun _ _ hstate => by cases hstate

/-- No live connection is ever without its entry, so none can be forgotten. -/
theorem queueInv_run (env : ResponderEnv A B) (adapter : A) (events : List Event) :
    (run env (new adapter) events).QueueInv :=
  List.foldlRecOn events (step env) (queueInv_new adapter)
    fun w h event _ => queueInv_step env w event h

/-- If every entry of the queue is due, a pass gets to the entry of every connection. -/
theorem expires_of_all_due {w : Responder A B} {now : ℕ} {key : Endpoint} {state : State}
    (hqueue : w.QueueInv) (hstate : w.connections key = some state)
    (hdue : ∀ entry ∈ w.queue, entry.1 ≤ now) : Expires now w.Alive w.queue key := by
  have hentry := hqueue key state hstate
  rw [expires_iff_not_shielded ⟨state.expiresAt, hdue _ hentry, hentry⟩]
  -- what shields is not due
  rintro ⟨before, deadline, other, after, hsplit, hlt, -⟩
  have hmem : (deadline, other) ∈ w.queue := by
    rw [hsplit]
    exact List.mem_append_right _ List.mem_cons_self
  exact absurd hlt (not_lt.mpr (hdue _ hmem))

/-- **No connection is leaked.** In every reachable state the deadline of each connection stands in
the expiry queue under its key, or is pending. So no connection is out of reach of the expiry loop:
a pass that finishes when every entry is due removes it. -/
theorem no_leaked_connection (env : ResponderEnv A B) (adapter : A) (events : List Event)
    (key : Endpoint) (state : State)
    (hstate : (run env (new adapter) events).connections key = some state) :
    ((state.expiresAt, key) ∈ (run env (new adapter) events).expiries ∨
      (run env (new adapter) events).pendingExpiry = some (state.expiresAt, key)) ∧
    ∀ now wakes, (∀ entry ∈ (run env (new adapter) events).queue, entry.1 ≤ now) →
      (expire env now wakes (run env (new adapter) events)).1 = some () →
      (expire env now wakes (run env (new adapter) events)).2.connections key = none := by
  have hqueue := queueInv_run env adapter events
  constructor
  · rcases List.mem_append.mp (hqueue key state hstate) with hpending | hexpiries
    · exact .inr (Option.mem_toList.mp hpending)
    · exact .inl hexpiries
  · intro now wakes hdue hfinishes
    -- when all entries are due, the one of the connection is reached
    have hexpires := expires_of_all_due hqueue hstate hdue
    exact (expire_spec env now wakes _).1.connections_eq_none hfinishes hexpires

/-- A connection that was created at 0, with the timeout 10. -/
theorem no_leaked_connection_created :
    (10, ((1, 25565) : Endpoint)) ∈
      (run .sample (new ()) [.sample 1 0 (.syn ||| .ack) (-1) 1 []]).expiries ∨
    (run .sample (new ()) [.sample 1 0 (.syn ||| .ack) (-1) 1 []]).pendingExpiry =
      some (10, (1, 25565)) :=
  (no_leaked_connection .sample () [.sample 1 0 (.syn ||| .ack) (-1) 1 []] (1, 25565)
    ⟨1, 25565, [], 0xffffffff, cookie 1 25565 0 + 2, ∅, 10⟩ rfl).1

/-- No send fails in an expiry pass. -/
def Finishes (env : ResponderEnv A B) (w : Responder A B) : Event → Prop
  | .packet _ => True
  | .expiry now wakes => (expire env now wakes w).1 = some ()

/-- A pass removes no connection before its deadline. -/
def NotEarly (env : ResponderEnv A B) (w : Responder A B) : Event → Prop
  | .packet _ => True
  | .expiry now wakes => ∀ key state, w.connections key = some state →
      (expire env now wakes w).2.connections key = none → state.expiresAt ≤ now

/-- The deadlines of the connections whose due entries the pass gets to have passed. -/
def NoStaleEntry (w : Responder A B) : Event → Prop
  | .packet _ => True
  | .expiry now _ => ∀ key state, w.connections key = some state →
      Expires now w.Alive w.queue key → state.expiresAt ≤ now

/-- A pass that gets to no due entry of a connection with a later deadline removes no connection
early. -/
theorem notEarly_of_noStaleEntry (h : NoStaleEntry w event) : NotEarly env w event := by
  cases event with
  | packet arrival => trivial
  | expiry now wakes =>
    intro key state hstate hgone
    exact h key state hstate ((expire_spec env now wakes w).1.expires hstate hgone)

/-- A pass that removes nothing early has met no stale entry of a live connection, provided that it
finishes: one that fails may not have come to it. -/
theorem noStaleEntry_of_notEarly (hfinishes : Finishes env w event) (h : NotEarly env w event) :
    NoStaleEntry w event := by
  cases event with
  | packet arrival => trivial
  | expiry now wakes =>
    intro key state hstate hexpires
    exact h key state hstate
      ((expire_spec env now wakes w).1.connections_eq_none hfinishes hexpires)

/-- **No early expiry.** In a run, a pass removes a connection only when its deadline has passed, if
at the start of every pass the deadline of a connection with a due entry that the pass gets to has
passed. If no send fails, this is exactly when. -/
theorem notEarly_iff (env : ResponderEnv A B) (adapter : A) (events : List Event) :
    (Run.Along (step env) NoStaleEntry (new adapter) events →
      Run.Along (step env) (NotEarly env) (new adapter) events) ∧
    (Run.Along (step env) (Finishes env) (new adapter) events →
      (Run.Along (step env) (NotEarly env) (new adapter) events ↔
        Run.Along (step env) NoStaleEntry (new adapter) events)) := by
  have henough (h : Run.Along (step env) NoStaleEntry (new adapter) events) :
      Run.Along (step env) (NotEarly env) (new adapter) events :=
    h.imp (I := fun _ => True) (fun _ _ _ => trivial)
      (fun _ _ _ hstale => notEarly_of_noStaleEntry hstale) trivial
  -- conversely, a pass that is not cut short removes what a stale entry names
  refine ⟨henough, fun hfinishes => ⟨fun h => ?_, henough⟩⟩
  exact (hfinishes.and h).imp (I := fun _ => True) (fun _ _ _ => trivial)
    (fun _ _ _ hboth => noStaleEntry_of_notEarly hboth.1 hboth.2) trivial

/-- The clock does not go back. -/
def Clocked (events : List Event) : Prop :=
  events.Pairwise fun earlier later => earlier.now ≤ later.now

instance (events : List Event) : Decidable (Clocked events) :=
  inferInstanceAs (Decidable (List.Pairwise _ _))

/-- A server whose first byte comes at 5, and a pass at 12. The timeout is 10. -/
def extendedDeadline : List Event :=
  [.sample 1 0 (.syn ||| .ack) (-1) 1 [], .sample 1 5 .ack 0 2 [1], .expiry 12 []]

/-- The deadline was extended to 20, and the entry of the first deadline removes the connection. -/
theorem extendedDeadline_early :
    Clocked extendedDeadline ∧
    ¬ Run.Along (step .sample) (NotEarly .sample) (new ()) extendedDeadline := by
  refine ⟨by decide, fun h => ?_⟩
  have hpass := h.2.2.1 (1, 25565) ⟨1, 25565, [1], 0, cookie 1 25565 0 + 2, ∅, 20⟩ rfl rfl
  exact absurd hpass (by decide)

/-- A pass that finishes leaves no connection whose deadline has passed. -/
def NotLate (env : ResponderEnv A B) (w : Responder A B) : Event → Prop
  | .packet _ => True
  | .expiry now wakes => (expire env now wakes w).1 = some () → ∀ key state,
      (expire env now wakes w).2.connections key = some state → now < state.expiresAt

/-- No connection whose deadline has passed is shielded by a later entry. -/
def NoneShielded (w : Responder A B) : Event → Prop
  | .packet _ => True
  | .expiry now _ => ∀ key state, w.connections key = some state → state.expiresAt ≤ now →
      ¬ Shielded now w.Alive w.queue key

/-- A connection that is due is removed, unless its entries are behind a live one that is not
due. -/
theorem notLate_of_noneShielded (hqueue : w.QueueInv) (h : NoneShielded w event) :
    NotLate env w event := by
  cases event with
  | packet arrival => trivial
  | expiry now wakes =>
    intro hfinishes key state hleft
    have hloop := (expire_spec env now wakes w).1
    have hstate := hloop.connections_of_some hleft
    by_contra hdue
    have hdue : state.expiresAt ≤ now := not_lt.mp hdue
    -- its own entry is due, so the pass gets to one of its entries
    have hexpires := (expires_iff_not_shielded ⟨_, hdue, hqueue key state hstate⟩).mpr
      (h key state hstate hdue)
    cases (hloop.connections_eq_none hfinishes hexpires).symm.trans hleft

/-- If every connection that is due is removed, none of them was shielded. The entry of each is in
the queue, so only the order of the entries can have kept it. -/
theorem noneShielded_of_notLate (hqueue : w.QueueInv) (hfinishes : Finishes env w event)
    (h : NotLate env w event) : NoneShielded w event := by
  cases event with
  | packet arrival => trivial
  | expiry now wakes =>
    intro key state hstate hdue
    have hloop := (expire_spec env now wakes w).1
    -- it is due, so the pass did not leave it
    have hgone : (expire env now wakes w).2.connections key = none := by
      rw [Option.eq_none_iff_forall_ne_some]
      intro state' hleft
      cases hstate.symm.trans (hloop.connections_of_some hleft)
      exact absurd (h hfinishes key state hleft) (not_lt.mpr hdue)
    exact (expires_iff_not_shielded ⟨_, hdue, hqueue key state hstate⟩).mp
      (hloop.expires hstate hgone)

/-- **No late expiry.** In a run, a pass that finishes leaves no connection whose deadline has
passed, if at the start of every pass none of these is shielded: no entry that is not due, of a
connection that no earlier entry removes, stands before all its due entries. If no send fails, this
is exactly when. -/
theorem notLate_iff (env : ResponderEnv A B) (adapter : A) (events : List Event) :
    (Run.Along (step env) NoneShielded (new adapter) events →
      Run.Along (step env) (NotLate env) (new adapter) events) ∧
    (Run.Along (step env) (Finishes env) (new adapter) events →
      (Run.Along (step env) (NotLate env) (new adapter) events ↔
        Run.Along (step env) NoneShielded (new adapter) events)) := by
  have henough (h : Run.Along (step env) NoneShielded (new adapter) events) :
      Run.Along (step env) (NotLate env) (new adapter) events :=
    h.imp (queueInv_step env) (fun _ _ hqueue hshielded =>
      notLate_of_noneShielded hqueue hshielded) (queueInv_new adapter)
  -- conversely, a pass stops at the entry that shields the others
  refine ⟨henough, fun hfinishes => ⟨fun h => ?_, henough⟩⟩
  exact (hfinishes.and h).imp (queueInv_step env) (fun _ _ hqueue hboth =>
    noneShielded_of_notLate hqueue hboth.1 hboth.2) (queueInv_new adapter)

/-- Host 1 is extended to 20 at 2, resets at 4 and comes back at 6; its entry for 20 stays in the
queue, before that of host 3. -/
def shieldedDeadline : List Event :=
  [.sample 1 0 (.syn ||| .ack) (-1) 1 [], .sample 2 1 (.syn ||| .ack) (-1) 1 [],
    .sample 1 2 .ack 0 2 [1], .sample 3 3 (.syn ||| .ack) (-1) 1 [], .sample 1 4 .rst 1 2 [],
    .expiry 5 [], .sample 1 6 (.syn ||| .ack) (-1) 1 [], .expiry 13 []]

/-- The deadline of host 3 is 13, and the pass at 13 finishes and leaves it. -/
theorem shieldedDeadline_late :
    Clocked shieldedDeadline ∧
    ¬ Run.Along (step .sample) (NotLate .sample) (new ()) shieldedDeadline := by
  refine ⟨by decide, fun h => ?_⟩
  have hpass := h.2.2.2.2.2.2.2.1 rfl (3, 25565)
    ⟨3, 25565, [], 0xffffffff, cookie 3 25565 0 + 2, ∅, 13⟩ rfl
  exact absurd hpass (by decide)

end Responder

end Farsight
