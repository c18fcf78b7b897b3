import Farsight.Strategy.HostProbes
import Mathlib.Data.List.Pairwise

/-!
# The deadlines of the hosts

A host that is drawn has until a deadline, the same for all hosts of one tick of the feeder. The
expiries go through the batch of the feeder and the deque to the expirer, which takes them in order
and stops at the first one that is not due.

* `HostStates.queue` — the expiries on their way, from the expirer back to the feeder;
* `HostStates.QueueStep`, `HostStates.queueStep_step` — a step adds an expiry at the end, takes one
  that is due from the front, or leaves the queue as it is;
* `Probed.Scheduled` — the invariant: the queue is what is left of the granted expiries, in order;
* `Probed.deadlines_kept` — no host is removed before its deadline, and none is forgotten after it.

For this it matters that no address is drawn twice. The expiry of an earlier draw would remove the
state of the next one.
-/

namespace Farsight

/-- The expiry that the feeder has granted and not put into its batch yet. -/
def FeedPc.granting : FeedPc → List PortExpiry
  | .replacing _ deadline _ addr => [(deadline, addr)]
  | _ => []

/-- The deadline of the current tick. -/
def FeedPc.deadline : FeedPc → Option ℕ
  | .turn _ deadline => some deadline
  | .guarded _ deadline _ => some deadline
  | .replacing _ deadline _ _ => some deadline
  | _ => none

namespace HostStates

variable {n : ℕ} {self : HostStates} {s s' : HostStatesState n}

/-! ### The queue -/

/-- The expiries that were granted and not dealt with. -/
def queue (s : HostStatesState n) : List PortExpiry :=
  s.pending.toList ++ (s.expiries ++ (s.expiriesBatch ++ s.feeder.granting))

theorem mem_queue {expiry : PortExpiry}
    (h : expiry ∈ s.expiriesBatch ∨ expiry ∈ s.expiries ∨ s.pending = some expiry) :
    expiry ∈ queue s := by
  simp only [queue, List.mem_append, Option.mem_toList]
  tauto

/-- Between two passes nothing is being dealt with. -/
theorem mem_outstanding_of_idle {expiry : PortExpiry} (hidle : s.expirer = .idle)
    (h : expiry ∈ outstanding s) :
    expiry ∈ s.expiriesBatch ∨ expiry ∈ s.expiries ∨ s.pending = some expiry := by
  rw [mem_outstanding, hidle] at h
  simpa [ExpirePc.processing] using h

/-- What a step can do to the queue, by the expiry that it grants. -/
inductive QueueStep (s s' : HostStatesState n) : Option PortExpiry → Prop
  | keep (hqueue : queue s' = queue s)
      (hexpirer : ∀ left now expiry, s'.expirer = .removing left now expiry →
        s.expirer = .removing left now expiry) : QueueStep s s' none
  | grant (expiry : PortExpiry) (hqueue : queue s' = queue s ++ [expiry])
      (hexpirer : s'.expirer = s.expirer) : QueueStep s s' (some expiry)
  | take (expiry : PortExpiry) (left now : ℕ) (hqueue : queue s = expiry :: queue s')
      (hexpirer : s'.expirer = .removing left now expiry) (hdue : expiry.1 ≤ now) :
      QueueStep s s' none

/-- The feeder grants an expiry when it stores the state of the new address. Its other steps move
expiries between the parts of the queue and leave their order as it is. -/
theorem queueStep_feederStep (now : ℕ) (answer : Option Ipv4Addr) (draws : HostDraws) :
    QueueStep s (self.feederStep now answer draws s) (granted s (.feeder now answer draws)) := by
  unfold granted feederStep
  dsimp only
  cases hpc : s.feeder with
  | start =>
    dsimp only
    split
    · exact .keep (by rw [queue, queue, hpc]; rfl) fun _ _ _ h => h
    · exact .keep (by rw [queue, queue, hpc]; rfl) fun _ _ _ h => h
  | turn left deadline =>
    cases left with
    | zero =>
      -- the batch goes from one part of the queue to the next
      refine .keep ?_ fun _ _ _ h => h
      simp only [queue, hpc, FeedPc.granting, List.append_nil]
    | succ left =>
      dsimp only
      split
      · exact .keep (by rw [queue, queue, hpc]; rfl) fun _ _ _ h => h
      · exact .keep (by rw [queue, queue, hpc]; rfl) fun _ _ _ h => h
  | guarded left deadline state =>
    cases answer with
    | none => exact .keep (by rw [queue, queue, hpc]; rfl) fun _ _ _ h => h
    | some addr =>
      dsimp only [Option.map_some]
      split
      · -- the address has an old state: the expiry is granted, and is written to the batch when
        -- the old state goes back to the pool
        refine .grant (deadline, addr) ?_ rfl
        simp only [queue, hpc, FeedPc.granting, List.append_nil, List.append_assoc]
      · refine .grant (deadline, addr) ?_ rfl
        simp only [queue, hpc, FeedPc.granting, List.append_nil, List.append_assoc]
  | replacing left deadline old addr =>
    refine .keep ?_ fun _ _ _ h => h
    simp only [queue, hpc, FeedPc.granting, List.append_nil]
  | elapsed => exact .keep rfl fun _ _ _ h => h
  | exhausted => exact .keep rfl fun _ _ _ h => h

/-- The expirer has taken the first expiry. -/
theorem queueStep_takeExpiry {left now : ℕ} {expiry : PortExpiry}
    (hqueue : queue s = expiry :: queue s') (hpending : s'.pending = none) :
    QueueStep s (takeExpiry left now expiry s') none := by
  unfold takeExpiry
  split
  · -- and puts it back
    refine .keep ?_ fun _ _ _ h => nomatch h
    rw [hqueue]
    simp only [queue, hpending, Option.toList_none, Option.toList_some, List.nil_append,
      List.cons_append]
  · next hdue =>
    refine .take expiry left now ?_ rfl (Nat.not_lt.mp hdue)
    exact hqueue

/-- The loop of `expire` takes from the front only: first the expiry that it has put back, then the
head of the shared queue. -/
theorem queueStep_expirerStep : QueueStep s (expirerStep s) none := by
  unfold expirerStep
  cases hpc : s.expirer with
  | idle =>
    refine .keep rfl fun _ _ _ h => ?_
    cases hpc.symm.trans h
  | turn left now =>
    cases left with
    | zero => exact .keep rfl fun _ _ _ h => nomatch h
    | succ left =>
      dsimp only
      cases hpending : s.pending with
      | some expiry =>
        refine queueStep_takeExpiry ?_ rfl
        rw [queue, hpending]
        rfl
      | none =>
        cases hexpiries : s.expiries with
        | nil =>
          refine .keep ?_ fun _ _ _ h => nomatch h
          simp only [queue, hpending, hexpiries]
        | cons expiry rest =>
          refine queueStep_takeExpiry ?_ rfl
          simp only [queue, hpending, hexpiries, Option.toList_none, List.nil_append,
            List.cons_append]
  | removing left now expiry =>
    dsimp only
    -- with or without a state to give back, the expiry has left the queue already
    split
    · exact .keep rfl fun _ _ _ h => nomatch h
    · exact .keep rfl fun _ _ _ h => nomatch h
  | pushing left now state => exact .keep rfl fun _ _ _ h => nomatch h

/-- Every step of a run, by what it does to the queue. The responder threads touch neither the queue
nor the `expire` loop. -/
theorem queueStep_step (self : HostStates) (s : HostStatesState n) (act : HostAct n) :
    QueueStep s (self.step s act) (granted s act) := by
  cases act with
  | feeder now answer draws => exact queueStep_feederStep now answer draws
  | onResult i addr port hash draws =>
    change QueueStep s (self.onResultStep i addr port hash draws s) none
    unfold onResultStep
    split
    · split
      · exact .keep rfl fun _ _ _ h => h
      · exact .keep rfl fun _ _ _ h => h
      · exact .keep rfl fun _ _ _ h => h
    · exact .keep rfl fun _ _ _ h => h
  | thread i =>
    change QueueStep s (threadStep i s) none
    unfold threadStep
    split
    · exact .keep rfl fun _ _ _ h => h
    · split
      · exact .keep rfl fun _ _ _ h => h
      · exact .keep rfl fun _ _ _ h => h
    · exact .keep rfl fun _ _ _ h => h
  | expire now =>
    -- a call of `expire` begins only when the one before has ended
    unfold step
    cases hpc : s.expirer with
    | idle => exact .keep rfl fun _ _ _ h => nomatch h
    | turn _ _ => exact .keep rfl fun _ _ _ h => h
    | removing _ _ _ => exact .keep rfl fun _ _ _ h => h
    | pushing _ _ _ => exact .keep rfl fun _ _ _ h => h
  | expirer => exact queueStep_expirerStep

/-! ### The deadline of a tick -/

/-- An expiry has the deadline of the tick. -/
theorem deadline_of_granted {act : HostAct n} {expiry : PortExpiry}
    (h : granted s act = some expiry) : s.feeder.deadline = some expiry.1 := by
  cases act with
  | feeder now answer draws =>
    unfold granted at h
    dsimp only at h
    cases hpc : s.feeder with
    | guarded left deadline state =>
      rw [hpc] at h
      obtain ⟨addr, -, rfl⟩ := Option.map_eq_some_iff.mp h
      rfl
    | start | turn | replacing | elapsed | exhausted =>
      rw [hpc] at h
      cases h
  | onResult | thread | expire | expirer => cases h

theorem feeder_takeExpiry (left now : ℕ) (expiry : PortExpiry) (s : HostStatesState n) :
    (takeExpiry left now expiry s).feeder = s.feeder := by
  unfold takeExpiry
  split <;> rfl

/-- Nobody else moves the feeder. -/
theorem feeder_step {act : HostAct n} (h : act.clock = none) :
    (self.step s act).feeder = s.feeder := by
  -- the steps that read no clock are not those of the feeder
  cases act with
  | feeder now answer draws => cases h
  | onResult i addr port hash draws =>
    change (self.onResultStep i addr port hash draws s).feeder = s.feeder
    unfold onResultStep
    split
    · split <;> rfl
    · rfl
  | thread i =>
    change (threadStep i s).feeder = s.feeder
    unfold threadStep
    split
    · rfl
    · split <;> rfl
    · rfl
  | expire now =>
    unfold step
    dsimp only
    split <;> rfl
  | expirer =>
    change (expirerStep s).feeder = s.feeder
    unfold expirerStep
    split
    · rfl
    · rfl
    · split
      · exact feeder_takeExpiry _ _ _ _
      · split
        · rfl
        · exact feeder_takeExpiry _ _ _ _
    · split <;> rfl
    · rfl

/-- The deadline is that of the tick before the step, or the tick begins. -/
theorem deadline_step {act : HostAct n} {deadline : ℕ}
    (h : (self.step s act).feeder.deadline = some deadline) :
    s.feeder.deadline = some deadline ∨
      ∃ now, act.clock = some now ∧ deadline = now + self.timeout ∧ granted s act = none := by
  cases act with
  | feeder now answer draws =>
    change (self.feederStep now answer draws s).feeder.deadline = some deadline at h
    unfold feederStep at h
    cases hpc : s.feeder with
    | start =>
      rw [hpc] at h
      dsimp only at h
      split at h
      · cases h
      · -- the only place where a deadline is computed
        refine .inr ⟨now, rfl, (Option.some.inj h).symm, ?_⟩
        rw [granted, hpc]
    | turn left deadline' =>
      rw [hpc] at h
      cases left with
      | zero => cases h
      | succ left =>
        dsimp only at h
        split at h
        · exact .inl h
        · exact .inl h
    | guarded left deadline' state =>
      rw [hpc] at h
      cases answer with
      | none => cases h
      | some addr =>
        dsimp only at h
        split at h
        · exact .inl h
        · exact .inl h
    | replacing left deadline' old addr =>
      rw [hpc] at h
      exact .inl h
    | elapsed | exhausted =>
      simp only [hpc] at h
      cases h
  | onResult | thread | expire | expirer =>
    rw [feeder_step rfl] at h
    exact .inl h

end HostStates

namespace Probed

variable {n : ℕ} {self : HostStates} {p : Probed n}

/-! ### The schedule -/

/-- An address that is drawn is new, and the clock does not go back. -/
def Timely (p : Probed n) (act : HostAct n) : Prop :=
  Fresh p act ∧ ∀ now ∈ act.clock, p.clock ≤ now

instance (p : Probed n) (act : HostAct n) : Decidable (Timely p act) :=
  @instDecidableAnd _ _ inferInstance (Option.decidableForallMem act.clock)

/-- The invariant of a run in which the clock does not go back. -/
structure Scheduled (timeout : ℕ) (p : Probed n) : Prop where
  nodup : p.drawn.Nodup
  queue : HostStates.queue p.state <:+ p.granted
  sorted : p.granted.Pairwise fun earlier later => earlier.1 ≤ later.1
  granted_le : ∀ expiry ∈ p.granted, expiry.1 ≤ p.clock + timeout
  deadline_le : ∀ deadline, p.state.feeder.deadline = some deadline →
    deadline ≤ p.clock + timeout ∧ ∀ expiry ∈ p.granted, expiry.1 ≤ deadline
  removing : ∀ left now expiry, p.state.expirer = .removing left now expiry →
    expiry ∈ p.granted ∧ expiry.1 ≤ now

theorem scheduled_initial (self : HostStates) (n : ℕ) :
    Scheduled self.timeout (initial self n) where
  nodup := List.nodup_nil
  queue := List.suffix_rfl
  sorted := .nil
  granted_le := nofun
  deadline_le := nofun
  removing := nofun

/-- An expiry that is granted is the last one. -/
theorem Scheduled.le_granted (h : Scheduled self.timeout p) {act : HostAct n} {expiry : PortExpiry}
    (hgranted : HostStates.granted p.state act = some expiry) :
    expiry.1 ≤ p.clock + self.timeout ∧ ∀ earlier ∈ p.granted, earlier.1 ≤ expiry.1 :=
  h.deadline_le expiry.1 (HostStates.deadline_of_granted hgranted)

theorem Timely.clock_le {act : HostAct n} (h : Timely p act) :
    p.clock ≤ (step self p act).clock := by
  change p.clock ≤ act.clock.getD p.clock
  cases hclock : act.clock with
  | none => exact le_rfl
  | some now => exact h.2 now hclock

theorem mem_granted_step {act : HostAct n} {expiry : PortExpiry}
    (h : expiry ∈ (step self p act).granted) :
    expiry ∈ p.granted ∨ HostStates.granted p.state act = some expiry :=
  (List.mem_append.mp h).imp_right Option.mem_toList.mp

/-- A step keeps the schedule. The order of the deadlines rests on the clock: the deadline of a tick
is the time at its start and the timeout, so that a later tick grants later ones. -/
theorem Scheduled.step (h : Scheduled self.timeout p) {act : HostAct n} (hact : Timely p act) :
    Scheduled self.timeout (step self p act) where
  nodup := by
    rw [drawn_step]
    refine h.nodup.append ?_ ?_
    · cases HostStates.drawn p.state act with
      | none => exact List.nodup_nil
      | some addr => exact List.nodup_singleton addr
    · intro addr hold hnew
      exact hact.1 addr (Option.mem_toList.mp hnew) hold
  queue := by
    change HostStates.queue (self.step p.state act) <:+
      p.granted ++ (HostStates.granted p.state act).toList
    -- the queue stays a suffix of the grants: it grows at the end with them, and shrinks at the
    -- front
    have hqueue := self.queueStep_step p.state act
    generalize self.step p.state act = s' at hqueue ⊢
    generalize HostStates.granted p.state act = granted at hqueue ⊢
    cases hqueue with
    | keep hqueue _ =>
      rw [hqueue, Option.toList_none, List.append_nil]
      exact h.queue
    | grant expiry hqueue _ =>
      rw [hqueue, Option.toList_some]
      obtain ⟨taken, htaken⟩ := h.queue
      exact ⟨taken, by rw [← htaken, List.append_assoc]⟩
    | take expiry left now hqueue _ _ =>
      rw [Option.toList_none, List.append_nil]
      exact (hqueue ▸ List.suffix_cons expiry _ : HostStates.queue s' <:+ _).trans h.queue
  sorted := by
    -- the new grant has the deadline of the tick, which bounds those before
    refine List.pairwise_append.mpr ⟨h.sorted, ?_, ?_⟩
    · cases HostStates.granted p.state act with
      | none => exact .nil
      | some expiry => exact List.pairwise_singleton _ _
    · intro earlier hearlier later hlater
      exact (h.le_granted (Option.mem_toList.mp hlater)).2 earlier hearlier
  granted_le := by
    intro expiry hexpiry
    have hclock : p.clock ≤ (Probed.step self p act).clock := hact.clock_le
    rcases mem_granted_step hexpiry with hold | hnew
    · have hle := h.granted_le expiry hold
      omega
    · have hle := (h.le_granted hnew).1
      omega
  deadline_le := by
    intro deadline hdeadline
    have hclock : p.clock ≤ (Probed.step self p act).clock := hact.clock_le
    rcases HostStates.deadline_step hdeadline with hsame | ⟨now, hnow, rfl, hnone⟩
    · -- the same tick as before: it grants its own deadline again
      obtain ⟨hle, hall⟩ := h.deadline_le deadline hsame
      refine ⟨by omega, fun expiry hexpiry => ?_⟩
      rcases mem_granted_step hexpiry with hold | hnew
      · exact hall expiry hold
      · have heq := HostStates.deadline_of_granted hnew
        rw [hsame] at heq
        exact (Option.some.inj heq).ge
    · -- a new tick, later than all before
      have hnow' : (Probed.step self p act).clock = now := by
        change act.clock.getD p.clock = now
        rw [hnow, Option.getD_some]
      refine ⟨by omega, fun expiry hexpiry => ?_⟩
      rcases mem_granted_step hexpiry with hold | hnew
      · have hle := h.granted_le expiry hold
        omega
      · cases hnone.symm.trans hnew
  removing := by
    intro left now expiry hexpirer
    have hqueue := self.queueStep_step p.state act
    have hmem (hold : expiry ∈ p.granted) : expiry ∈ (Probed.step self p act).granted :=
      List.mem_append_left _ hold
    change (self.step p.state act).expirer = _ at hexpirer
    generalize self.step p.state act = s' at hqueue hexpirer
    generalize HostStates.granted p.state act = granted at hqueue
    cases hqueue with
    | keep _ hsame =>
      obtain ⟨hold, hdue⟩ := h.removing left now expiry (hsame left now expiry hexpirer)
      exact ⟨hmem hold, hdue⟩
    | grant _ _ hsame =>
      obtain ⟨hold, hdue⟩ := h.removing left now expiry (hsame.symm.trans hexpirer)
      exact ⟨hmem hold, hdue⟩
    | take expiry' left' now' hqueue hremoving hdue =>
      -- the expiry is the one that this step takes, and it was at the front of the queue
      cases hremoving.symm.trans hexpirer
      refine ⟨hmem (h.queue.subset ?_), hdue⟩
      rw [hqueue]
      exact List.mem_cons_self

theorem scheduled_run {acts : List (HostAct n)}
    (h : Run.Along (step self) Timely (initial self n) acts) :
    Scheduled self.timeout (run self acts) :=
  h.invariant (fun _ _ hact hp => hp.step hact) (scheduled_initial self n)

/-- A host has one deadline. -/
theorem Scheduled.deadline_unique (h : Scheduled self.timeout p) {expiry : PortExpiry}
    {deadline : ℕ} (hexpiry : expiry ∈ p.granted) (hdeadline : (deadline, expiry.2) ∈ p.granted) :
    deadline = expiry.1 :=
  congrArg Prod.fst (List.inj_on_of_nodup_map h.nodup hdeadline hexpiry rfl)

/-- Why a pass ends before its limit: the next expiry is not due, or there is none. -/
theorem next_of_idle {s : HostStatesState n} {left now : ℕ}
    (hturn : s.expirer = .turn (left + 1) now)
    (hidle : (HostStates.expirerStep s).expirer = .idle) :
    (HostStates.expirerStep s).expiriesBatch = s.expiriesBatch ∧
    ((∃ expiry, (HostStates.expirerStep s).pending = some expiry ∧ now < expiry.1) ∨
      (HostStates.expirerStep s).pending = none ∧ (HostStates.expirerStep s).expiries = []) := by
  -- an expiry that is taken and not due
  have htake (expiry : PortExpiry) (s' : HostStatesState n)
      (hidle' : (HostStates.takeExpiry left now expiry s').expirer = .idle) :
      (HostStates.takeExpiry left now expiry s').expiriesBatch = s'.expiriesBatch ∧
      (HostStates.takeExpiry left now expiry s').pending = some expiry ∧ now < expiry.1 := by
    unfold HostStates.takeExpiry at hidle' ⊢
    split at hidle'
    · next hlater =>
      rw [if_pos hlater]
      exact ⟨rfl, rfl, hlater⟩
    · cases hidle'
  unfold HostStates.expirerStep at hidle ⊢
  rw [hturn] at hidle ⊢
  dsimp only at hidle ⊢
  -- the loop looks at the expiry that it put back before it asks the queue
  cases hpending : s.pending with
  | some expiry =>
    rw [hpending] at hidle
    obtain ⟨hbatch, hnext⟩ := htake expiry _ hidle
    exact ⟨hbatch, .inl ⟨expiry, hnext⟩⟩
  | none =>
    cases hexpiries : s.expiries with
    | nil => exact ⟨rfl, .inr ⟨rfl, rfl⟩⟩
    | cons expiry rest =>
      rw [hpending, hexpiries] at hidle
      obtain ⟨hbatch, hnext⟩ := htake expiry _ hidle
      exact ⟨hbatch, .inl ⟨expiry, hnext⟩⟩

/-- What waits behind an expiry that is not due is not due. -/
theorem Scheduled.lt_of_pending (h : Scheduled self.timeout p) {now : ℕ}
    {expiry expiry' : PortExpiry} (hpending : p.state.pending = some expiry)
    (hlater : now < expiry.1) (hexpiry' : expiry' ∈ p.state.expiries) : now < expiry'.1 := by
  have hqueue : HostStates.queue p.state = expiry :: (p.state.expiries ++
      (p.state.expiriesBatch ++ p.state.feeder.granting)) := by
    rw [HostStates.queue, hpending]
    rfl
  have hsorted := h.sorted.sublist h.queue.sublist
  rw [hqueue, List.pairwise_cons] at hsorted
  exact hlater.trans_le (hsorted.1 expiry' (List.mem_append_left _ hexpiry'))

/-- **Deadlines are kept.** If no address is drawn twice and the clock does not go back, then in
every interleaving: when the expirer removes the state of a host, its deadline has come; and when a
call of `expire` ends before its limit, every host that is left has a later deadline, or its expiry
was not handed over by the feeder yet. -/
theorem deadlines_kept (self : HostStates) (acts : List (HostAct n))
    (h : Run.Along (step self) Timely (initial self n) acts) :
    (∀ left now expiry, (run self acts).state.expirer = .removing left now expiry →
      ∀ deadline, (deadline, expiry.2) ∈ (run self acts).granted → deadline ≤ now) ∧
    ∀ left now, (run self acts).state.expirer = .turn (left + 1) now →
      (step self (run self acts) .expirer).state.expirer = .idle →
      ∀ addr ∈ (step self (run self acts) .expirer).state.pool.states,
        ∀ deadline, (deadline, addr) ∈ (run self acts).granted →
          now < deadline ∨ (deadline, addr) ∈ (run self acts).state.expiriesBatch := by
  have hrun := scheduled_run h
  constructor
  · intro left now expiry hremoving deadline hdeadline
    obtain ⟨hgranted, hdue⟩ := hrun.removing left now expiry hremoving
    rw [hrun.deadline_unique hgranted hdeadline]
    exact hdue
  · intro left now hturn hidle addr haddr deadline hdeadline
    have htimely : Timely (run self acts) .expirer := ⟨nofun, nofun⟩
    have hnext : Scheduled self.timeout (step self (run self acts) .expirer) := hrun.step htimely
    have hsame : (step self (run self acts) .expirer).granted = (run self acts).granted :=
      List.append_nil _
    rw [← hsame] at hdeadline
    obtain ⟨hbatch, hpending⟩ := next_of_idle hturn hidle
    -- the host has an expiry on its way, which is the one that was granted
    have hstate : HostStates.ExpiryInv (step self (run self acts) .expirer).state := by
      have hinv := HostStates.expiryInv_run self acts
      rw [← state_run] at hinv
      exact HostStates.expiryInv_expirerStep hinv
    obtain ⟨expiry, hexpiry, rfl⟩ := List.mem_map.mp (hstate addr haddr)
    have hwhere := HostStates.mem_outstanding_of_idle hidle hexpiry
    have hgranted : expiry ∈ (step self (run self acts) .expirer).granted :=
      hnext.queue.subset (HostStates.mem_queue hwhere)
    have hunique := hnext.deadline_unique hgranted hdeadline
    subst hunique
    rcases hwhere with hmem | hmem | hmem
    · -- with the feeder
      exact .inr (hbatch ▸ hmem)
    · -- in the deque
      rcases hpending with ⟨first, hfirst, hlater⟩ | ⟨-, hnil⟩
      · exact .inl (hnext.lt_of_pending hfirst hlater hmem)
      · exact absurd (hnil ▸ hmem) List.not_mem_nil
    · -- the one at which the pass has stopped
      rcases hpending with ⟨first, hfirst, hlater⟩ | ⟨hnone, -⟩
      · cases hfirst.symm.trans hmem
        exact .inl hlater
      · cases hnone.symm.trans hmem

/-- A host is drawn and its expiry handed over, and `expire` is called. -/
def handedOver (now : ℕ) : List (HostAct 1) :=
  [.feeder 0 none .sample, .feeder 0 none .sample, .feeder 0 (some 1) .sample,
    .feeder 0 none .sample, .expire now]

/-- And its first step. -/
def expiring : List (HostAct 1) :=
  [.feeder 0 none .sample, .feeder 0 none .sample, .feeder 0 (some 1) .sample,
    .feeder 0 none .sample, .expire 6, .expirer]

/-- The host has until 5: a pass at 3 leaves it alone, and one at 6 removes it. -/
theorem deadlines_kept_onePass :
    (3 < 5 ∨ (5, 1) ∈ (run sampleHosts (handedOver 3)).state.expiriesBatch) ∧
    (run sampleHosts expiring).state.expirer = .removing 0 6 (5, 1) ∧ 5 ≤ 6 := by
  refine ⟨?_, rfl, ?_⟩
  · exact (deadlines_kept sampleHosts (handedOver 3)
      ⟨by decide, by decide, by decide, by decide, by decide, trivial⟩).2 0 3 rfl rfl 1
        (by decide) 5 (by decide)
  · exact (deadlines_kept sampleHosts expiring
      ⟨by decide, by decide, by decide, by decide, by decide, by decide, trivial⟩).1 0 6 (5, 1)
        rfl 5 (by decide)

end Probed

end Farsight
