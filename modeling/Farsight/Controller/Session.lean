import Farsight.Controller.Feeder
import Farsight.Lib.Custody
import Mathlib.Algebra.Order.Ring.Nat

/-!
# The end of a session

The main thread of a session ticks the feeder until it returns `true`, sets `done`, and waits for
the saturators. A saturator looks at `done` after each turn of its loop. A turn has one
`scanner.tick`, which takes half of the queued templates at most, so a saturator may return while
templates are left.

The results deque is an exact FIFO, and every send succeeds. The steps of a turn (the steal, the
send, `responder.tick`, `completer.tick`, the look at `done`) interleave with those of the other
saturators and of the main thread in any way.

* `Session.step`, `Session.run` — the machine, for any number of saturators;
* `SessionState.Accounted` — a template that was handed over is in the queue, in the hands of a
  saturator or submitted;
* `Session.drain` — how many templates a `scanner.tick` leaves in the queue;
* `Session.submitted_iff` — when the scope is exhausted and all saturators have returned, all
  templates are submitted if and only if there were enough `scanner.tick`s after the last tick of
  the feeder to drain the queue;
* `Session.iterate_drain_eq_zero_iff` — `k` of them drain a queue of `q` templates if and only if `q
  < 2 ^ k`, as long as the rings are not the limit;
* `Session.oneBlock_abandoned` — a saturator that leaves 128 targets behind.
-/

namespace Farsight

/-- Where a saturator stands in its loop. -/
inductive SaturatorPc where
  /-- `scanner.tick`: about to steal a batch. -/
  | scanner
  /-- `scanner.tick`: about to send the batch. -/
  | sending (targets : List PacketTemplate)
  /-- About to call `responder.tick`. -/
  | responder
  /-- About to call `completer.tick`. -/
  | completer
  /-- About to read `done`. -/
  | check
  /-- The loop has ended. -/
  | returned
  deriving DecidableEq, Repr

/-- Where the main thread stands. -/
inductive MainPc where
  /-- In the feeder loop. -/
  | feeding
  /-- The feeder has returned `true`; about to set `done`. -/
  | finished (result : TickEnd)
  /-- Waiting for the saturators. -/
  | joining
  deriving DecidableEq, Repr

/-- The fields of the session that never change, with what the calls of `next_address` return. -/
structure Session where
  feeder : Feeder
  answers : ℕ → Option Ipv4Addr
  ringSize : ℕ

/-- The state of a session with `n` saturators. `submitted` has what the scanners have sent. -/
structure SessionState (n : ℕ) where
  feeder : FeederState
  main : MainPc
  queue : List PacketTemplate
  done : Bool
  saturators : Fin n → SaturatorPc
  submitted : List PacketTemplate

/-- One step of a run. -/
inductive SessionAct (self : Session) (n : ℕ) where
  /-- The main thread calls `feeder.tick`. -/
  | feeder (input : TickInput self.feeder.batchSize)
  /-- The main thread sets `done`. -/
  | store
  /-- The next step of a saturator. -/
  | saturator (i : Fin n)

namespace SessionState

variable {n : ℕ}

/-- The state when the saturators are spawned. -/
def initial : SessionState n where
  feeder := .new
  main := .feeding
  queue := []
  done := false
  saturators := fun _ => .scanner
  submitted := []

/-- Every template that was pushed on the results deque. -/
def pushed (s : SessionState n) : List PacketTemplate :=
  s.feeder.handedOver.flatMap fun batch => batch.1

/-- Move a saturator. -/
def moveTo (s : SessionState n) (i : Fin n) (pc : SaturatorPc) : SessionState n :=
  { s with saturators := Function.update s.saturators i pc }

end SessionState

namespace Session

variable {n : ℕ}

/-- How many templates `steal_batch` takes from a queue of `len`. -/
def batchSize (self : Session) (len : ℕ) : ℕ :=
  min ((len + 1) / 2) self.ringSize

/-- A call of `feeder.tick`. -/
def feederStep (self : Session) (input : TickInput self.feeder.batchSize) (s : SessionState n) :
    SessionState n :=
  match s.main with
  | .feeding =>
    match self.feeder.tick self.answers input s.feeder with
    | (.batched, f) => { s with feeder := f, queue := s.queue ++ f.resultBatch }
    | (result, f) => { s with feeder := f, main := .finished result }
  | _ => s

/-- `done.store(true)`. -/
def storeStep (s : SessionState n) : SessionState n :=
  match s.main with
  | .finished _ => { s with main := .joining, done := true }
  | _ => s

/-- The next step of a saturator. -/
def saturatorStep (self : Session) (i : Fin n) (s : SessionState n) : SessionState n :=
  match s.saturators i with
  | .scanner =>
    let taken := self.batchSize s.queue.length
    -- `Steal::Empty`: there is nothing to send
    if taken = 0 then s.moveTo i .responder
    else { s with queue := s.queue.drop taken }.moveTo i (.sending (s.queue.take taken))
  | .sending targets => { s with submitted := s.submitted ++ targets }.moveTo i .responder
  | .responder => s.moveTo i .completer
  | .completer => s.moveTo i .check
  | .check => s.moveTo i (if s.done then .returned else .scanner)
  | .returned => s

def step (self : Session) (s : SessionState n) : SessionAct self n → SessionState n
  | .feeder input => self.feederStep input s
  | .store => storeStep s
  | .saturator i => self.saturatorStep i s

/-- Carry out the acts. -/
def run (self : Session) (s : SessionState n) (acts : List (SessionAct self n)) : SessionState n :=
  acts.foldl self.step s

end Session

/-! ### Custody of the templates -/

/-- The templates a saturator has taken and not sent. -/
def SaturatorPc.inHand : SaturatorPc → Multiset PacketTemplate
  | .sending targets => targets
  | _ => 0

namespace SessionState

variable {n : ℕ} {s : SessionState n}

/-- The templates in the hands of the saturators. -/
def inHands (s : SessionState n) : Multiset PacketTemplate :=
  Custody.held SaturatorPc.inHand s.saturators

theorem inHands_moveTo (s : SessionState n) (i : Fin n) (pc : SaturatorPc) :
    (s.moveTo i pc).inHands + (s.saturators i).inHand = s.inHands + pc.inHand :=
  Custody.held_update SaturatorPc.inHand s.saturators i pc

/-- A template that was handed over is submitted, in the hands of a saturator, or in the queue. -/
def Accounted (s : SessionState n) : Prop :=
  (s.pushed : Multiset PacketTemplate) = s.submitted + s.inHands + s.queue

theorem accounted_initial : (initial : SessionState n).Accounted := by
  have hempty : (initial : SessionState n).inHands = 0 := Custody.held_eq_zero fun _ => rfl
  rw [Accounted, hempty]
  rfl

/-- A saturator moves between two places where it holds nothing. -/
theorem Accounted.moveTo (h : s.Accounted) {i : Fin n} {pc : SaturatorPc}
    (hold : (s.saturators i).inHand = 0) (hnew : pc.inHand = 0) : (s.moveTo i pc).Accounted := by
  have hheld := s.inHands_moveTo i pc
  rw [hold, hnew, add_zero, add_zero] at hheld
  rw [Accounted, hheld]
  exact h

/-- A saturator takes templates from the queue. -/
theorem Accounted.steal (h : s.Accounted) {i : Fin n} (hold : (s.saturators i).inHand = 0)
    (taken : ℕ) :
    ({ s with queue := s.queue.drop taken }.moveTo i
      (.sending (s.queue.take taken))).Accounted := by
  have hheld := { s with queue := s.queue.drop taken }.inHands_moveTo i
    (.sending (s.queue.take taken))
  rw [hold, add_zero] at hheld
  have hqueue : (s.queue : Multiset PacketTemplate) =
      (s.queue.take taken : Multiset PacketTemplate) + s.queue.drop taken := by
    rw [Multiset.coe_add, List.take_append_drop]
  rw [Accounted, hheld]
  change (s.pushed : Multiset PacketTemplate) =
    s.submitted + (s.inHands + s.queue.take taken) + s.queue.drop taken
  rw [h, hqueue, ← add_assoc, ← add_assoc]

/-- It submits them. -/
theorem Accounted.submit (h : s.Accounted) {i : Fin n} {targets : List PacketTemplate}
    (hold : s.saturators i = .sending targets) :
    ({ s with submitted := s.submitted ++ targets }.moveTo i .responder).Accounted := by
  have hheld := { s with submitted := s.submitted ++ targets }.inHands_moveTo i .responder
  rw [hold] at hheld
  change _ + (targets : Multiset PacketTemplate) = s.inHands + 0 at hheld
  rw [Accounted]
  change (s.pushed : Multiset PacketTemplate) = (s.submitted ++ targets : List PacketTemplate) +
    SessionState.inHands _ + s.queue
  rw [h, ← Multiset.coe_add, add_assoc _ (targets : Multiset PacketTemplate),
    add_comm (targets : Multiset PacketTemplate), hheld, add_zero]

end SessionState

namespace Session

open SessionState

variable {n : ℕ} {self : Session} {s : SessionState n}

/-- A tick of the feeder adds its batch to what was pushed and to the queue alike. A tick that ends
the scan adds nothing: its batch is not handed over. -/
theorem accounted_feederStep (h : s.Accounted) (input : TickInput self.feeder.batchSize) :
    (self.feederStep input s).Accounted := by
  unfold feederStep
  split
  · rcases htick : self.feeder.tick self.answers input s.feeder with ⟨result, f⟩
    have hhanded := Feeder.handedOver_tick htick
    cases result with
    | batched =>
      -- the batch that was handed over is what is queued
      have hpushed : (f.handedOver.flatMap fun batch => batch.1) = s.pushed ++ f.resultBatch := by
        rw [hhanded, if_pos rfl, List.flatMap_append, List.flatMap_singleton]
        rfl
      change ((f.handedOver.flatMap fun batch => batch.1 : List _) : Multiset PacketTemplate) =
        s.submitted + s.inHands + (s.queue ++ f.resultBatch : List _)
      rw [hpushed, ← Multiset.coe_add, ← Multiset.coe_add, ← add_assoc]
      exact congrArg (· + _) h
    | elapsed =>
      -- the targets of the last, unfinished tick are in no account
      change ((f.handedOver.flatMap fun batch => batch.1 : List _) : Multiset PacketTemplate) = _
      rw [hhanded, if_neg (by decide), List.append_nil]
      exact h
    | exhausted =>
      change ((f.handedOver.flatMap fun batch => batch.1 : List _) : Multiset PacketTemplate) = _
      rw [hhanded, if_neg (by decide), List.append_nil]
      exact h
  · exact h

/-- A saturator moves targets from the queue to its hands, and from there to the sender. Its other
parts hold none. -/
theorem accounted_saturatorStep (h : s.Accounted) (i : Fin n) :
    (self.saturatorStep i s).Accounted := by
  unfold saturatorStep
  cases hpc : s.saturators i with
  | scanner =>
    have hempty : (s.saturators i).inHand = 0 := by rw [hpc]; rfl
    dsimp only
    split
    · exact h.moveTo hempty rfl
    · exact h.steal hempty _
  | sending targets => exact h.submit hpc
  | responder => exact h.moveTo (by rw [hpc]; rfl) rfl
  | completer => exact h.moveTo (by rw [hpc]; rfl) rfl
  | check =>
    refine h.moveTo (by rw [hpc]; rfl) ?_
    -- the flag is only read: it goes back to the top of the loop or returns
    cases s.done <;> rfl
  | returned => exact h

theorem accounted_step (h : s.Accounted) (act : SessionAct self n) :
    (self.step s act).Accounted := by
  cases act with
  | feeder input => exact accounted_feederStep h input
  | store =>
    change (storeStep s).Accounted
    unfold storeStep
    split
    · exact h
    · exact h
  | saturator i => exact accounted_saturatorStep h i

theorem accounted_run (h : s.Accounted) (acts : List (SessionAct self n)) :
    (self.run s acts).Accounted :=
  List.foldlRecOn acts self.step h fun _ hs act _ => accounted_step hs act

/-! ### Draining the queue -/

/-- How many templates a `scanner.tick` leaves in the queue. -/
def drain (self : Session) (len : ℕ) : ℕ :=
  len - self.batchSize len

/-- A saturator is about to steal in this act. -/
def Scans (s : SessionState n) : SessionAct self n → Prop
  | .saturator i => s.saturators i = .scanner
  | _ => False

instance (s : SessionState n) : (act : SessionAct self n) → Decidable (Scans s act)
  | .saturator i => inferInstanceAs (Decidable (s.saturators i = .scanner))
  | .feeder _ => inferInstanceAs (Decidable False)
  | .store => inferInstanceAs (Decidable False)

/-- How many `scanner.tick`s there are in a run. -/
def scans (self : Session) : SessionState n → List (SessionAct self n) → ℕ
  | _, [] => 0
  | s, act :: acts => scans self (self.step s act) acts + if Scans s act then 1 else 0

/-- The feeder has returned `true`. -/
def Fed (s : SessionState n) : Prop :=
  s.main ≠ .feeding

/-- A step after the last tick of the feeder only takes from the queue. -/
theorem step_of_fed (h : Fed s) (act : SessionAct self n) :
    Fed (self.step s act) ∧ (self.step s act).queue.length =
      if Scans s act then self.drain s.queue.length else s.queue.length := by
  cases act with
  | feeder input =>
    -- the feeder has returned, so nothing is added to the queue any more
    have hstay : self.feederStep input s = s := by
      unfold feederStep
      split
      · next hmain => exact absurd hmain h
      · rfl
    change Fed (self.feederStep input s) ∧ (self.feederStep input s).queue.length = _
    rw [hstay]
    exact ⟨h, rfl⟩
  | store =>
    change Fed (storeStep s) ∧ (storeStep s).queue.length = _
    unfold storeStep
    split
    · exact ⟨MainPc.noConfusion, rfl⟩
    · exact ⟨h, rfl⟩
  | saturator i =>
    change Fed (self.saturatorStep i s) ∧ (self.saturatorStep i s).queue.length =
      if s.saturators i = .scanner then self.drain s.queue.length else s.queue.length
    unfold saturatorStep
    cases s.saturators i with
    | scanner =>
      -- the only step that takes from the queue, and the length tells how much
      rw [if_pos rfl]
      dsimp only
      split
      · next hempty =>
        refine ⟨h, ?_⟩
        rw [drain, hempty]
        rfl
      · exact ⟨h, List.length_drop⟩
    | sending targets => exact ⟨h, rfl⟩
    | responder => exact ⟨h, rfl⟩
    | completer => exact ⟨h, rfl⟩
    | check => exact ⟨h, rfl⟩
    | returned => exact ⟨h, rfl⟩

/-- So the queue is drained once for every `scanner.tick`. -/
theorem length_queue_run (h : Fed s) (acts : List (SessionAct self n)) :
    (self.run s acts).queue.length = self.drain^[self.scans s acts] s.queue.length := by
  induction acts generalizing s with
  | nil => rfl
  | cons act acts ih =>
    obtain ⟨hfed, hlength⟩ := step_of_fed h act
    change (self.run (self.step s act) acts).queue.length = _
    rw [ih hfed, hlength, scans]
    split
    · rw [Function.iterate_add_apply]
      rfl
    · rfl

/-- **Draining by halves.** As long as the rings are not the limit, `k` calls of `scanner.tick`
drain a queue of fewer than `2 ^ k` templates. -/
theorem iterate_drain_eq_zero_iff {q : ℕ} (hq : q ≤ 2 * self.ringSize) (k : ℕ) :
    self.drain^[k] q = 0 ↔ q < 2 ^ k := by
  induction k generalizing q with
  | zero =>
    rw [pow_zero, Nat.lt_one_iff]
    rfl
  | succ k ih =>
    have hhalf : self.drain q = q / 2 := by
      rw [drain, batchSize, Nat.min_eq_left (by omega)]
      omega
    rw [Function.iterate_succ_apply, hhalf, ih (by omega), pow_succ]
    omega

/-- **Targets at the end of a session.** Let the feeder have returned because the scope is
exhausted, and let all saturators have returned after that. Then the templates that were submitted
are those that were handed over if and only if the `scanner.tick`s in between, by whichever
saturators, are enough to drain the queue. -/
theorem submitted_iff (self : Session) (n : ℕ) (before after : List (SessionAct self n))
    (hfed : (self.run initial before).main = .finished .exhausted)
    (hreturned : ∀ i, (self.run (self.run initial before) after).saturators i = .returned) :
    (self.run (self.run initial before) after).submitted.Perm
        (self.run (self.run initial before) after).pushed ↔
      self.drain^[self.scans (self.run initial before) after]
        (self.run initial before).queue.length = 0 := by
  have haccount := accounted_run (accounted_run accounted_initial before) after
  -- whoever has returned holds nothing
  have hempty : (self.run (self.run initial before) after).inHands = 0 := by
    refine Custody.held_eq_zero fun i => ?_
    rw [hreturned i]
    rfl
  rw [Accounted, hempty, add_zero] at haccount
  have hrun : Fed (self.run initial before) := by
    rw [Fed, hfed]
    exact MainPc.noConfusion
  -- what was pushed and not submitted is what is left in the queue
  rw [← length_queue_run hrun after, List.length_eq_zero_iff, ← Multiset.coe_eq_coe, haccount]
  constructor
  · intro h
    exact (Multiset.coe_eq_zero _).mp (left_eq_add.mp h)
  · intro h
    rw [h]
    exact (add_zero _).symm

/-! ### A block of 256 addresses -/

/-- One batch for the whole block. -/
def oneBatch : Session where
  feeder := ⟨0, 1000, 10, 256, .sample⟩
  answers := Feeder.oneBlockAnswers
  ringSize := 2048

/-- A tick with a guard for every turn. -/
def fullTick (now : ℕ) : TickInput oneBatch.feeder.batchSize :=
  ⟨now, List.replicate 256 (some .sample), List.length_replicate⟩

/-- The feeder hands over the block, and finds that nothing is left. -/
def oneBlockFed : SessionState 1 :=
  oneBatch.run initial [.feeder (fullTick 0), .feeder (fullTick 1)]

/-- `done` is set, and the saturator makes one turn. -/
def oneBlockEnd : SessionState 1 :=
  oneBatch.run oneBlockFed (.store :: List.replicate 5 (.saturator 0))

set_option maxRecDepth 10000 in
theorem oneBlockEnd_eq :
    oneBlockFed.main = .finished .exhausted ∧ (∀ i, oneBlockEnd.saturators i = .returned) ∧
    oneBlockEnd.feeder.calls = 257 ∧ oneBlockEnd.pushed.length = 256 ∧
    oneBlockEnd.submitted.length = 128 := by
  decide +kernel

/-- **Half of a scope is abandoned.** All 256 targets of the block were handed over, and the only
saturator returns after it has sent 128 of them. -/
theorem oneBlock_abandoned :
    oneBlockFed.main = .finished .exhausted ∧ (∀ i, oneBlockEnd.saturators i = .returned) ∧
    (Feeder.oneBlockAdapter.run Feeder.oneBlockActs).results =
      (List.range oneBlockEnd.feeder.calls).map Feeder.oneBlockAnswers ∧
    oneBlockEnd.pushed.length = 256 ∧ oneBlockEnd.submitted.length = 128 := by
  obtain ⟨hfed, hreturned, hcalls, hpushed, hsubmitted⟩ := oneBlockEnd_eq
  refine ⟨hfed, hreturned, ?_, hpushed, hsubmitted⟩
  rw [hcalls]
  exact Feeder.results_oneBlock

/-- The session meets the conditions of the theorem. -/
theorem submitted_iff_oneBlock :
    oneBlockEnd.submitted.Perm oneBlockEnd.pushed ↔
      oneBatch.drain^[oneBatch.scans oneBlockFed (.store :: List.replicate 5 (.saturator 0))]
        oneBlockFed.queue.length = 0 := by
  have h := oneBlockEnd_eq
  unfold oneBlockEnd oneBlockFed at h ⊢
  exact submitted_iff oneBatch 1 _ _ h.1 h.2.1

end Session

end Farsight
