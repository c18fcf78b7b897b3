import Farsight.Lib.Custody
import Farsight.Responder.Effect
import Mathlib.Algebra.Order.BigOperators.Group.Finset
import Mathlib.Data.List.Nodup

/-!
# Writing the hits

A saturator drains the scanlings of its responder into a channel after every tick, and one task
collects what comes out of the channel in a batch and hands batches to the database. When the feeder
is done the saturators return, the channel closes and the task writes what is left.

The saturators and the task run at the same time, in steps that interleave in any way. What
`responder.tick` appends is arbitrary, also when it fails. Nothing is assumed of the channel but
that the messages of one sender come out in order, and that it is closed when all senders are gone
and it is empty. `try_recv` may find nothing at any time. `scanner.tick`, `completer.tick`,
`printer.tick` and `expirer.expire` touch none of this.

* `WriterState`, `Writer.step`, `Writer.run` — the machine, for any number of saturators;
* `WriterState.stages` — where the hits of a saturator are, from the database back to the responder;
* `WriterState.Inv` — every hit that was appended is in exactly one of these places, in order, and
  what has to be empty when the task moves on is empty;
* `WriterState.work` — what is left to do when the session is over;
* `Writer.hits_written_once` — when the task returns every hit was written once, in order, and from
  every state it can still come to that.
-/

namespace Farsight

/-- A scanling with the saturator that found it, and its number among the scanlings of that
saturator. The numbers only serve to tell equal scanlings apart. -/
structure Hit (n : ℕ) (α : Type) where
  saturator : Fin n
  serial : ℕ
  scanling : α
  deriving DecidableEq, Repr

/-- Where a saturator stands in its loop. -/
inductive DrainPc where
  /-- About to call `responder.tick`. -/
  | tick
  /-- In the loop over `responder.scanlings.drain(..)`. -/
  | drain
  /-- About to read `done`. -/
  | check
  /-- The loop has ended, and the sender is dropped. -/
  | exited
  deriving DecidableEq, Repr

/-- A saturator, with `responder.scanlings`. -/
structure Drainer (n : ℕ) (α : Type) where
  pc : DrainPc
  scanlings : List (Hit n α)

/-- Where the task stands in `spawn_printer_and_database`. -/
inductive WriterPc where
  /-- In `select!`. -/
  | selecting
  /-- In the loop over `queue.try_recv()`. -/
  | receiving
  /-- About to decide whether to flush. -/
  | checking
  /-- Waiting for the last write, then to flush. -/
  | flushing
  /-- The channel is closed; waiting for the last write. -/
  | closing
  /-- About to write what is left. -/
  | final
  | returned
  deriving DecidableEq, Repr

/-- The task has left its loop. -/
def WriterPc.leftLoop : WriterPc → Bool
  | .closing | .final | .returned => true
  | _ => false

/-- `write_task`: there is none, or its task has still to call `write_many`, or it has. -/
inductive WriteTask (β : Type) where
  | none
  | running (toWrite : List β)
  | finished

/-- What the task still has to write. -/
def WriteTask.toWrite {β : Type} : WriteTask β → List β
  | .running toWrite => toWrite
  | _ => []

section

variable {β : Type}

@[simp] theorem WriteTask.toWrite_none : (none : WriteTask β).toWrite = [] := rfl

@[simp] theorem WriteTask.toWrite_running (toWrite : List β) :
    (running toWrite).toWrite = toWrite := rfl

@[simp] theorem WriteTask.toWrite_finished : (finished : WriteTask β).toWrite = [] := rfl

end

/-- The configuration of the database. -/
structure Writer where
  flushInterval : ℕ
  flushCapacity : ℕ

/-- The state of a session with `n` saturators, as far as hits are concerned. `written` has the
slices that were passed to `write_many`, and `appended` what the responders have appended. -/
structure WriterState (n : ℕ) (α : Type) where
  saturators : Fin n → Drainer n α
  /-- The main thread has dropped its sender. -/
  dropped : Bool
  done : Bool
  channel : Fin n → List (Hit n α)
  writer : WriterPc
  batch : List (Hit n α)
  lastFlush : ℕ
  task : WriteTask (Hit n α)
  written : List (List (Hit n α))
  appended : Fin n → List (Hit n α)

/-- One step of a run. -/
inductive WriterAct (n : ℕ) (α : Type) where
  /-- A saturator calls `responder.tick`, which appends some scanlings. -/
  | tick (i : Fin n) (scanlings : List α)
  /-- A saturator sends the next scanling, or ends the loop that does. -/
  | drain (i : Fin n)
  /-- A saturator reads `done`. -/
  | check (i : Fin n)
  /-- The main thread drops its sender. -/
  | dropQueue
  /-- The main thread sets `done`. -/
  | store
  /-- `queue.recv()` returns a message of a sender. -/
  | recv (i : Fin n)
  /-- `housekeeping.tick()` returns. -/
  | housekeeping
  /-- `queue.recv()` returns `None`. -/
  | closed
  /-- `queue.try_recv()` returns a message of a sender. -/
  | tryRecv (i : Fin n)
  /-- `queue.try_recv()` returns no message. -/
  | tryRecvFails
  /-- Decide whether to flush. -/
  | decide (now : ℕ)
  /-- Spawn a write of the batch. -/
  | flush (now : ℕ)
  /-- The spawned task calls `write_many`. -/
  | write
  /-- The channel is closed, and the last write is over. -/
  | awaitLast
  /-- Write what is left, and return. -/
  | finish

namespace WriterState

variable {n : ℕ} {α : Type}

/-- The state when the threads are spawned. -/
def initial : WriterState n α where
  saturators := fun _ => ⟨.tick, []⟩
  dropped := false
  done := false
  channel := fun _ => []
  writer := .selecting
  batch := []
  lastFlush := 0
  task := .none
  written := []
  appended := fun _ => []

/-- The scanlings of a tick, as hits. -/
def hits (s : WriterState n α) (i : Fin n) (scanlings : List α) : List (Hit n α) :=
  scanlings.mapIdx fun k scanling => ⟨i, (s.appended i).length + k, scanling⟩

/-- Change a saturator. -/
def setSaturator (s : WriterState n α) (i : Fin n) (saturator : Drainer n α) : WriterState n α :=
  { s with saturators := Function.update s.saturators i saturator }

/-- `queue.send(..)`. The error that the receiver is gone is ignored. -/
def send (s : WriterState n α) (i : Fin n) (hit : Hit n α) : WriterState n α :=
  if s.writer = .returned then s
  else { s with channel := Function.update s.channel i (s.channel i ++ [hit]) }

/-- All senders are gone, and no message is left. -/
def Closed (s : WriterState n α) : Prop :=
  s.dropped = true ∧ ∀ i, (s.saturators i).pc = .exited ∧ s.channel i = []

instance (s : WriterState n α) : Decidable s.Closed :=
  inferInstanceAs (Decidable (_ ∧ _))

/-- A message of sender `i`, if there is one, goes to the batch. -/
def receive (s : WriterState n α) (i : Fin n) : WriterState n α :=
  match s.channel i with
  | [] => s
  | hit :: rest =>
    { s with
      channel := Function.update s.channel i rest
      batch := s.batch ++ [hit]
      writer := .receiving }

/-- `handle.await`, if there is a handle: nothing happens until `write_many` was called. -/
def awaitWrite (s : WriterState n α) (next : WriterState n α) : WriterState n α :=
  match s.task with
  | .running _ => s
  | _ => next

end WriterState

namespace Writer

variable {n : ℕ} {α : Type}

/-- The condition of the flush. -/
def Flushes (self : Writer) (s : WriterState n α) (now : ℕ) : Prop :=
  s.batch.length ≥ self.flushCapacity ∨ (s.batch ≠ [] ∧ now - s.lastFlush ≥ self.flushInterval)

instance (self : Writer) (s : WriterState n α) (now : ℕ) : Decidable (self.Flushes s now) :=
  inferInstanceAs (Decidable (_ ∨ _))

/-- One step. A step that is not the next one of its thread does nothing. -/
def step (self : Writer) (s : WriterState n α) : WriterAct n α → WriterState n α
  | .tick i scanlings =>
    if (s.saturators i).pc = .tick then
      let hits := s.hits i scanlings
      { s with appended := Function.update s.appended i (s.appended i ++ hits) }.setSaturator i
        ⟨.drain, (s.saturators i).scanlings ++ hits⟩
    else s
  | .drain i =>
    if (s.saturators i).pc = .drain then
      match (s.saturators i).scanlings with
      | [] => s.setSaturator i ⟨.check, []⟩
      | hit :: rest => (s.send i hit).setSaturator i ⟨.drain, rest⟩
    else s
  | .check i =>
    if (s.saturators i).pc = .check then
      s.setSaturator i ⟨if s.done then .exited else .tick, (s.saturators i).scanlings⟩
    else s
  | .dropQueue => { s with dropped := true }
  | .store => { s with done := true }
  | .recv i => if s.writer = .selecting then s.receive i else s
  | .housekeeping => if s.writer = .selecting then { s with writer := .checking } else s
  | .closed => if s.writer = .selecting ∧ s.Closed then { s with writer := .closing } else s
  | .tryRecv i => if s.writer = .receiving then s.receive i else s
  | .tryRecvFails => if s.writer = .receiving then { s with writer := .checking } else s
  | .decide now =>
    if s.writer = .checking then
      { s with writer := if self.Flushes s now then .flushing else .selecting }
    else s
  | .flush now =>
    if s.writer = .flushing then
      s.awaitWrite { s with
        task := .running s.batch
        batch := []
        lastFlush := now
        writer := .selecting }
    else s
  | .write =>
    match s.task with
    | .running toWrite => { s with task := .finished, written := s.written ++ [toWrite] }
    | _ => s
  | .awaitLast =>
    if s.writer = .closing then s.awaitWrite { s with task := .none, writer := .final } else s
  | .finish =>
    if s.writer = .final then
      -- `if batch.is_empty() { return; }`
      if s.batch = [] then { s with writer := .returned }
      else { s with written := s.written ++ [s.batch], batch := [], writer := .returned }
    else s

/-- The state after a run from the start of the session. -/
def run (self : Writer) (acts : List (WriterAct n α)) : WriterState n α :=
  acts.foldl self.step .initial

end Writer

namespace WriterState

variable {n : ℕ} {α : Type} {s : WriterState n α}

/-! ### Where the hits are -/

/-- The hits that have left the channel, in the order in which they did. -/
def received (s : WriterState n α) : List (Hit n α) :=
  s.written.flatten ++ s.task.toWrite ++ s.batch

/-- The hits of a saturator, from the database back to the responder. -/
def stages (s : WriterState n α) (i : Fin n) : List (Hit n α) :=
  s.received.filter (fun hit => hit.saturator = i) ++ s.channel i ++ (s.saturators i).scanlings

/-- The invariant. -/
structure Inv (s : WriterState n α) : Prop where
  /-- Every hit is somewhere, once and in order. -/
  stages : ∀ i, s.stages i = s.appended i
  /-- The hits of a saturator are its own, and numbered. -/
  saturator : ∀ i, ∀ hit ∈ s.appended i, hit.saturator = i
  serial : ∀ i, (s.appended i).map Hit.serial = List.range (s.appended i).length
  /-- Outside of the loop that drains them, there are no scanlings. -/
  drained : ∀ i, (s.saturators i).pc ≠ .drain → (s.saturators i).scanlings = []
  /-- The task leaves its loop when the channel is closed. -/
  closed : s.writer.leftLoop = true → s.Closed
  /-- It has waited for the last write, -/
  awaited : s.writer = .final ∨ s.writer = .returned → s.task.toWrite = []
  /-- and has written what was left. -/
  flushed : s.writer = .returned → s.batch = []

theorem Inv.initial : (initial : WriterState n α).Inv where
  stages _ := rfl
  saturator _ _ h := absurd h List.not_mem_nil
  serial _ := rfl
  drained _ _ := rfl
  closed h := by cases h
  awaited h := by rcases h with h | h <;> cases h
  flushed h := by cases h

/-- As long as a saturator is in its loop, so is the task. -/
theorem Inv.leftLoop_eq_false (h : s.Inv) {i : Fin n} (hpc : (s.saturators i).pc ≠ .exited) :
    s.writer.leftLoop = false := by
  cases hleft : s.writer.leftLoop with
  | true => exact absurd ((h.closed hleft).2 i).1 hpc
  | false => rfl

/-- A task that is in its loop has not come to its last write. -/
theorem ne_returned_of_leftLoop {pc : WriterPc} (h : pc.leftLoop = false) :
    ¬ (pc = .final ∨ pc = .returned) := by
  rintro (rfl | rfl) <;> cases h

theorem Inv.mem_channel (h : s.Inv) {i : Fin n} {hit : Hit n α} (hhit : hit ∈ s.channel i) :
    hit.saturator = i := by
  apply h.saturator i
  rw [← h.stages i]
  exact List.mem_append_left _ (List.mem_append_right _ hhit)

/-! ### The saturators -/

/-- A saturator that is in its loop takes a step: its stages have to keep up with what was
appended. -/
theorem Inv.saturatorStep {t : WriterState n α} (h : s.Inv) {i : Fin n}
    (hpc : (s.saturators i).pc ≠ .exited) (hwriter : t.writer = s.writer)
    (hreceived : t.received = s.received)
    (hothers : ∀ j, j ≠ i → t.saturators j = s.saturators j ∧ t.channel j = s.channel j ∧
      t.appended j = s.appended j)
    (hstages : t.stages i = t.appended i)
    (happended : (∀ hit ∈ t.appended i, hit.saturator = i) ∧
      (t.appended i).map Hit.serial = List.range (t.appended i).length)
    (hdrained : (t.saturators i).pc ≠ .drain → (t.saturators i).scanlings = []) : t.Inv where
  stages j := by
    -- the other saturators have not moved, and for `i` it is a hypothesis; the same in the next
    -- fields
    by_cases hj : j = i
    · subst hj
      exact hstages
    · obtain ⟨hsaturator, hchannel, hsame⟩ := hothers j hj
      rw [hsame, ← h.stages j, WriterState.stages, WriterState.stages, hreceived, hsaturator,
        hchannel]
  saturator j := by
    by_cases hj : j = i
    · subst hj
      exact happended.1
    · rw [(hothers j hj).2.2]
      exact h.saturator j
  serial j := by
    by_cases hj : j = i
    · subst hj
      exact happended.2
    · rw [(hothers j hj).2.2]
      exact h.serial j
  drained j := by
    by_cases hj : j = i
    · subst hj
      exact hdrained
    · rw [(hothers j hj).1]
      exact h.drained j
  -- the task is in its loop as long as `i` is
  closed hleft := by
    rw [hwriter, h.leftLoop_eq_false hpc] at hleft
    cases hleft
  awaited hpc' := absurd (hwriter ▸ hpc') (ne_returned_of_leftLoop (h.leftLoop_eq_false hpc))
  flushed hpc' :=
    absurd (.inr (hwriter ▸ hpc')) (ne_returned_of_leftLoop (h.leftLoop_eq_false hpc))

theorem map_serial_hits (s : WriterState n α) (i : Fin n) (scanlings : List α) :
    (s.hits i scanlings).map Hit.serial =
      (List.range scanlings.length).map ((s.appended i).length + ·) := by
  unfold hits
  refine List.ext_getElem (by simp) fun k hk hk' => ?_
  simp

theorem length_hits (s : WriterState n α) (i : Fin n) (scanlings : List α) :
    (s.hits i scanlings).length = scanlings.length := by
  simp [hits]

theorem saturator_hits {i : Fin n} {scanlings : List α} {hit : Hit n α}
    (h : hit ∈ s.hits i scanlings) : hit.saturator = i := by
  obtain ⟨k, hk, rfl⟩ := List.mem_mapIdx.mp h
  rfl

/-- A tick appends scanlings to the responder, and so at the far end of the stages. -/
theorem Inv.tick (h : s.Inv) {i : Fin n} (hpc : (s.saturators i).pc = .tick) (scanlings : List α) :
    ({ s with appended := Function.update s.appended i (s.appended i ++ s.hits i scanlings)
      }.setSaturator i ⟨.drain, (s.saturators i).scanlings ++ s.hits i scanlings⟩).Inv := by
  refine h.saturatorStep (i := i) (by rw [hpc]; decide) rfl rfl (fun j hj => ?_) ?_ ?_ ?_
  · exact ⟨Function.update_of_ne hj _ _, rfl, Function.update_of_ne hj _ _⟩
  · have hstages := h.stages i
    dsimp only [WriterState.stages, setSaturator] at hstages ⊢
    -- both sides grow at the end by the hits of the tick
    rw [Function.update_self, Function.update_self, ← List.append_assoc]
    exact congrArg (· ++ s.hits i scanlings) hstages
  · dsimp only [setSaturator]
    rw [Function.update_self]
    constructor
    · intro hit hhit
      rcases List.mem_append.mp hhit with hhit | hhit
      · exact h.saturator i hit hhit
      · exact saturator_hits hhit
    · -- numbers below the length before, and the next ones
      rw [List.map_append, h.serial i, map_serial_hits, List.length_append, length_hits,
        List.range_add]
  · dsimp only [setSaturator]
    rw [Function.update_self]
    exact fun hne => absurd rfl hne

/-- The next scanling goes to the channel. The receiver is there as long as a sender is. -/
theorem Inv.send (h : s.Inv) {i : Fin n} (hpc : (s.saturators i).pc = .drain) {hit : Hit n α}
    {rest : List (Hit n α)} (hscanlings : (s.saturators i).scanlings = hit :: rest) :
    ((s.send i hit).setSaturator i ⟨.drain, rest⟩).Inv := by
  have hloop : (s.saturators i).pc ≠ .exited := by
    rw [hpc]
    decide
  -- the receiver is there, since a task that returned has waited for this saturator to exit
  have hsend : s.send i hit =
      { s with channel := Function.update s.channel i (s.channel i ++ [hit]) } :=
    if_neg fun hreturned => ne_returned_of_leftLoop (h.leftLoop_eq_false hloop) (.inr hreturned)
  rw [hsend]
  refine h.saturatorStep hloop rfl rfl (fun j hj => ?_) ?_ ⟨h.saturator i, h.serial i⟩ ?_
  · exact ⟨Function.update_of_ne hj _ _, Function.update_of_ne hj _ _, rfl⟩
  · have hstages := h.stages i
    dsimp only [WriterState.stages, setSaturator] at hstages ⊢
    rw [hscanlings] at hstages
    rw [Function.update_self, Function.update_self, ← hstages]
    simp only [List.append_assoc, List.singleton_append]
    rfl
  · dsimp only [setSaturator]
    rw [Function.update_self]
    exact fun hne => absurd rfl hne

/-- A saturator without scanlings goes on in its loop, or leaves it. -/
theorem Inv.goOn (h : s.Inv) {i : Fin n} (hpc : (s.saturators i).pc ≠ .exited) (pc : DrainPc)
    (hscanlings : (s.saturators i).scanlings = []) : (s.setSaturator i ⟨pc, []⟩).Inv := by
  refine h.saturatorStep hpc rfl rfl (fun j hj => ?_) ?_ ⟨h.saturator i, h.serial i⟩ ?_
  · exact ⟨Function.update_of_ne hj _ _, rfl, rfl⟩
  · have hstages := h.stages i
    dsimp only [WriterState.stages, setSaturator] at hstages ⊢
    rw [hscanlings] at hstages
    rw [Function.update_self]
    exact hstages
  · dsimp only [setSaturator]
    rw [Function.update_self]
    exact fun _ => rfl

/-! ### The task -/

/-- The task moves on, and what it has received is still there. -/
theorem Inv.writerStep {t : WriterState n α} (h : s.Inv) (hsaturators : t.saturators = s.saturators)
    (happended : t.appended = s.appended)
    (hstages : ∀ i, t.received.filter (fun hit => hit.saturator = i) ++ t.channel i =
      s.received.filter (fun hit => hit.saturator = i) ++ s.channel i)
    (hclosed : t.writer.leftLoop = true → t.Closed)
    (hawaited : t.writer = .final ∨ t.writer = .returned → t.task.toWrite = [])
    (hflushed : t.writer = .returned → t.batch = []) : t.Inv where
  stages i := by
    rw [WriterState.stages, hstages, hsaturators, happended]
    exact h.stages i
  saturator := happended ▸ h.saturator
  serial := happended ▸ h.serial
  drained := hsaturators ▸ h.drained
  closed := hclosed
  awaited := hawaited
  flushed := hflushed

/-- The same inside the loop of the task. -/
theorem Inv.loopStep {t : WriterState n α} (h : s.Inv) (hsaturators : t.saturators = s.saturators)
    (happended : t.appended = s.appended)
    (hstages : ∀ i, t.received.filter (fun hit => hit.saturator = i) ++ t.channel i =
      s.received.filter (fun hit => hit.saturator = i) ++ s.channel i)
    (hwriter : t.writer.leftLoop = false) : t.Inv :=
  h.writerStep hsaturators happended hstages (fun hleft => by rw [hwriter] at hleft; cases hleft)
    (fun hpc => absurd hpc (ne_returned_of_leftLoop hwriter))
    fun hpc => absurd (.inr hpc) (ne_returned_of_leftLoop hwriter)

/-- A message goes from the channel to the batch. It is one of its sender, and the others do not see
it. -/
theorem Inv.receive (h : s.Inv) (i : Fin n) : (s.receive i).Inv := by
  unfold WriterState.receive
  split
  · exact h
  · next hit rest hchannel =>
    have hsaturator : hit.saturator = i := h.mem_channel (by rw [hchannel]; exact .head rest)
    refine h.loopStep rfl rfl (fun j => ?_) rfl
    dsimp only [received]
    rw [← List.append_assoc, List.filter_append (_ ++ _ ++ _)]
    -- the hit goes from the channel to the end of the batch; for another saturator the filter drops
    -- it
    by_cases hj : j = i
    · subst hj
      rw [Function.update_self, hchannel]
      simp [hsaturator]
    · rw [Function.update_of_ne hj]
      have hother : ¬ hit.saturator = j := fun heq => hj (heq.symm.trans hsaturator)
      simp [hother]

/-- `handle.await` returns when nothing is left to write. -/
theorem Inv.awaitWrite {t : WriterState n α} (h : s.Inv) (ht : s.task.toWrite = [] → t.Inv) :
    (s.awaitWrite t).Inv := by
  unfold WriterState.awaitWrite
  split
  · exact h
  · next hrunning =>
    apply ht
    cases htask : s.task with
    | running toWrite => exact absurd htask (hrunning toWrite)
    | none => rfl
    | finished => rfl

/-- The channel is closed, and the task leaves its loop. -/
theorem Inv.close (h : s.Inv) (hclosed : s.Closed) : { s with writer := .closing }.Inv := by
  refine h.writerStep rfl rfl (fun _ => rfl) (fun _ => hclosed) ?_ ?_
  · rintro (hpc | hpc) <;> cases hpc
  · rintro ⟨⟩

/-- The batch moves to a new task, with nothing of the last one before it. -/
theorem Inv.flush (h : s.Inv) (htask : s.task.toWrite = []) (now : ℕ) :
    { s with
      task := .running s.batch, batch := [], lastFlush := now, writer := .selecting }.Inv := by
  refine h.loopStep rfl rfl (fun i => ?_) rfl
  simp [received, htask]

/-- The slice of the task moves to the database. -/
theorem Inv.write (h : s.Inv) {toWrite : List (Hit n α)} (htask : s.task = .running toWrite) :
    { s with task := .finished, written := s.written ++ [toWrite] }.Inv := by
  refine h.writerStep rfl rfl (fun i => ?_) h.closed (fun _ => rfl) h.flushed
  simp [received, htask]

/-- The last spawned write is over before the rest is written, which keeps the order. -/
theorem Inv.awaitLast (h : s.Inv) (hpc : s.writer = .closing) (htask : s.task.toWrite = []) :
    { s with task := .none, writer := .final }.Inv := by
  refine h.writerStep rfl rfl (fun i => ?_) (fun _ => ?_) (fun _ => rfl) ?_
  · simp [received, htask]
  · exact h.closed (by rw [hpc]; rfl)
  · rintro ⟨⟩

/-- What is left of the batch, if anything, moves to the database. -/
theorem Inv.finish (h : s.Inv) (hpc : s.writer = .final) :
    (if s.batch = [] then { s with writer := .returned }
      else { s with written := s.written ++ [s.batch], batch := [], writer := .returned }).Inv := by
  have hclosed := h.closed (by rw [hpc]; rfl)
  have hawaited := h.awaited (.inl hpc)
  split
  · next hbatch =>
    exact h.writerStep rfl rfl (fun _ => rfl) (fun _ => hclosed) (fun _ => hawaited)
      fun _ => hbatch
  · refine h.writerStep rfl rfl (fun i => ?_) (fun _ => hclosed) (fun _ => hawaited)
      fun _ => rfl
    simp [received, hawaited]

end WriterState

namespace Writer

variable {n : ℕ} {α : Type} {s : WriterState n α}

/-- Every step of every thread keeps the invariant, so it does not matter how they interleave. -/
theorem inv_step (self : Writer) (h : s.Inv) (act : WriterAct n α) : (self.step s act).Inv := by
  cases act with
  | tick i scanlings =>
    rw [step]
    split
    · next hpc => exact h.tick hpc scanlings
    · exact h
  | drain i =>
    rw [step]
    split
    · next hpc =>
      split
      · next hscanlings => exact h.goOn (by rw [hpc]; decide) .check hscanlings
      · next hit rest hscanlings => exact h.send hpc hscanlings
    · exact h
  | check i =>
    rw [step]
    split
    · next hpc =>
      -- a saturator goes on to the next tick, or exits, only with nothing left to send
      have hscanlings := h.drained i (by rw [hpc]; decide)
      rw [hscanlings]
      exact h.goOn (by rw [hpc]; decide) _ hscanlings
    · exact h
  | dropQueue =>
    refine h.writerStep rfl rfl (fun _ => rfl) (fun hpc => ?_) h.awaited h.flushed
    -- the sender of the main thread may be dropped at any time
    exact ⟨rfl, (h.closed hpc).2⟩
  | store => exact h.writerStep rfl rfl (fun _ => rfl) h.closed h.awaited h.flushed
  | recv i | tryRecv i =>
    rw [step]
    split
    · exact h.receive i
    · exact h
  | housekeeping | tryRecvFails =>
    rw [step]
    split
    · exact h.loopStep rfl rfl (fun _ => rfl) rfl
    · exact h
  | closed =>
    rw [step]
    split
    · next hclosed => exact h.close hclosed.2
    · exact h
  | decide now =>
    rw [step]
    split
    · refine h.loopStep rfl rfl (fun _ => rfl) ?_
      dsimp only
      split <;> rfl
    · exact h
  | flush now =>
    rw [step]
    split
    · -- a flush waits for the write before it, so there is one task at a time
      exact h.awaitWrite fun htask => h.flush htask now
    · exact h
  | write =>
    rw [step]
    split
    · next htask => exact h.write htask
    · exact h
  | awaitLast =>
    rw [step]
    split
    · next hpc => exact h.awaitWrite fun htask => h.awaitLast hpc htask
    · exact h
  | finish =>
    rw [step]
    split
    · next hpc => exact h.finish hpc
    · exact h

theorem inv_run (self : Writer) (acts : List (WriterAct n α)) : (self.run acts).Inv :=
  List.foldlRecOn acts self.step .initial fun _ h act _ => self.inv_step h act

end Writer

/-! ### The end of the session -/

/-- How far a saturator is from the end of its loop. -/
def DrainPc.work : DrainPc → ℕ
  | .tick => 3
  | .drain => 2
  | .check => 1
  | .exited => 0

/-- How far the task is from its end, if nothing comes in any more. -/
def WriterPc.work : WriterPc → ℕ
  | .receiving => 7
  | .checking => 6
  | .flushing => 5
  | .selecting => 3
  | .closing => 2
  | .final => 1
  | .returned => 0

namespace WriterState

variable {n : ℕ} {α : Type} {s : WriterState n α}

/-- A saturator has to send its scanlings, -/
def drainWork (saturator : Drainer n α) : ℕ :=
  saturator.pc.work + 6 * saturator.scanlings.length

/-- the task to receive what is in the channel, -/
def queueWork (queue : List (Hit n α)) : ℕ :=
  5 * queue.length

/-- and the spawned write to be made. -/
def writeWork : WriteTask (Hit n α) → ℕ
  | .running _ => 1
  | _ => 0

/-- What is left to do when the session is over. -/
def work (s : WriterState n α) : ℕ :=
  Custody.held drainWork s.saturators + Custody.held queueWork s.channel + s.writer.work +
    writeWork s.task

/-- The main thread has dropped its sender and set `done`. -/
def Over (s : WriterState n α) : Prop :=
  s.done = true ∧ s.dropped = true

/-- Moving one saturator changes the work by its own part. The sum avoids subtraction. -/
theorem work_setSaturator (s : WriterState n α) (i : Fin n) (saturator : Drainer n α) :
    (s.setSaturator i saturator).work + drainWork (s.saturators i) =
      s.work + drainWork saturator := by
  have hheld := Custody.held_update drainWork s.saturators i saturator
  dsimp only [work, setSaturator]
  omega

theorem work_setChannel (s : WriterState n α) (i : Fin n) (queue : List (Hit n α)) :
    { s with channel := Function.update s.channel i queue }.work + queueWork (s.channel i) =
      s.work + queueWork queue := by
  have hheld := Custody.held_update queueWork s.channel i queue
  dsimp only [work]
  omega

/-- Sending is less work than having to send. -/
theorem work_send_le (s : WriterState n α) (i : Fin n) (hit : Hit n α) :
    (s.send i hit).work ≤ s.work + 5 := by
  unfold send
  split
  · omega
  · have hchannel := s.work_setChannel i (s.channel i ++ [hit])
    simp only [queueWork, List.length_append, List.length_singleton] at hchannel
    omega

theorem saturators_send (s : WriterState n α) (i : Fin n) (hit : Hit n α) :
    (s.send i hit).saturators = s.saturators := by
  unfold send
  split <;> rfl

/-- A step of the task that leaves the saturators and the channel alone. -/
theorem work_lt_of_writer {t : WriterState n α} (hsaturators : t.saturators = s.saturators)
    (hchannel : t.channel = s.channel)
    (hless : t.writer.work + writeWork t.task < s.writer.work + writeWork s.task) :
    t.work < s.work := by
  unfold work
  rw [hsaturators, hchannel]
  omega

/-- A saturator that is in its loop can take a step. -/
theorem exists_saturator_step (self : Writer) (hdone : s.done = true) {i : Fin n}
    (hpc : (s.saturators i).pc ≠ .exited) : ∃ act, (self.step s act).work < s.work := by
  cases hpc' : (s.saturators i).pc with
  | tick =>
    -- a tick that finds nothing
    refine ⟨.tick i [], ?_⟩
    let ticked : WriterState n α :=
      { s with appended := Function.update s.appended i (s.appended i ++ s.hits i []) }
    have hmove := ticked.work_setSaturator i ⟨.drain, (s.saturators i).scanlings ++ s.hits i []⟩
    rw [Writer.step, if_pos hpc']
    change _ + drainWork (s.saturators i) = s.work + _ at hmove
    simp only [drainWork, hpc', DrainPc.work, List.length_append, length_hits,
      List.length_nil] at hmove
    change (ticked.setSaturator i _).work < _
    omega
  | drain =>
    refine ⟨.drain i, ?_⟩
    rw [Writer.step, if_pos hpc']
    cases hscanlings : (s.saturators i).scanlings with
    | nil =>
      have hmove := s.work_setSaturator i ⟨.check, []⟩
      simp only [drainWork, hpc', hscanlings, DrainPc.work] at hmove
      dsimp only
      omega
    | cons hit rest =>
      -- a hit in the channel is less work than one that is not sent yet
      have hsend := s.work_send_le i hit
      have hmove := (s.send i hit).work_setSaturator i ⟨.drain, rest⟩
      rw [saturators_send] at hmove
      simp only [drainWork, hpc', hscanlings, DrainPc.work, List.length_cons] at hmove
      dsimp only
      omega
  | check =>
    refine ⟨.check i, ?_⟩
    have hmove := s.work_setSaturator i ⟨.exited, (s.saturators i).scanlings⟩
    simp only [drainWork, hpc', DrainPc.work] at hmove
    -- `done` is set, so the saturator exits
    rw [Writer.step, if_pos hpc', hdone, if_pos rfl]
    omega
  | exited => exact absurd hpc' hpc

/-- Without saturators the task can take a step, or the write that it waits for can. -/
theorem exists_writer_step (self : Writer) (hdropped : s.dropped = true)
    (hexited : ∀ i, (s.saturators i).pc = .exited) (hwriter : s.writer ≠ .returned) :
    ∃ act, (self.step s act).work < s.work := by
  by_cases hrunning : ∃ toWrite, s.task = .running toWrite
  · obtain ⟨toWrite, htask⟩ := hrunning
    -- a spawned write goes first, since everything that follows may have to wait for it
    refine ⟨.write, ?_⟩
    simp only [Writer.step, htask]
    refine work_lt_of_writer rfl rfl ?_
    rw [htask]
    exact Nat.lt_succ_self _
  · -- without one, `handle.await` returns at once
    have hawait (t : WriterState n α) : s.awaitWrite t = t := by
      unfold awaitWrite
      split
      · next toWrite htask => exact absurd ⟨toWrite, htask⟩ hrunning
      · rfl
    cases hpc : s.writer with
    | selecting =>
      by_cases hempty : ∀ i, s.channel i = []
      · -- nobody can send any more, so `recv` returns `None`
        refine ⟨.closed, ?_⟩
        rw [Writer.step, if_pos ⟨hpc, hdropped, fun i => ⟨hexited i, hempty i⟩⟩]
        refine work_lt_of_writer rfl rfl ?_
        simp only [hpc, WriterPc.work]
        omega
      · obtain ⟨i, hi⟩ := not_forall.mp hempty
        refine ⟨.recv i, ?_⟩
        rw [Writer.step, if_pos hpc, receive]
        cases hchannel : s.channel i with
        | nil => exact absurd hchannel hi
        | cons hit rest =>
          have hmove := s.work_setChannel i rest
          rw [hchannel] at hmove
          dsimp only [work] at hmove ⊢
          simp only [queueWork, List.length_cons, hpc, WriterPc.work] at hmove ⊢
          omega
    | receiving =>
      -- `try_recv` may find nothing at any time, so the loop over it can end
      refine ⟨.tryRecvFails, ?_⟩
      rw [Writer.step, if_pos hpc]
      refine work_lt_of_writer rfl rfl ?_
      simp only [hpc, WriterPc.work]
      omega
    | checking =>
      refine ⟨.decide 0, ?_⟩
      rw [Writer.step, if_pos hpc]
      refine work_lt_of_writer rfl rfl ?_
      -- whether it flushes or not, the task is closer to `select!` than before
      dsimp only
      split <;> simp only [hpc, WriterPc.work] <;> omega
    | flushing =>
      refine ⟨.flush 0, ?_⟩
      rw [Writer.step, if_pos hpc, hawait]
      refine work_lt_of_writer rfl rfl ?_
      simp only [hpc, WriterPc.work, writeWork]
      omega
    | closing =>
      refine ⟨.awaitLast, ?_⟩
      rw [Writer.step, if_pos hpc, hawait]
      refine work_lt_of_writer rfl rfl ?_
      simp only [hpc, WriterPc.work, writeWork]
      omega
    | final =>
      refine ⟨.finish, ?_⟩
      rw [Writer.step, if_pos hpc]
      split
      all_goals
        refine work_lt_of_writer rfl rfl ?_
        simp only [hpc, WriterPc.work]
        omega
    | returned => exact absurd hpc hwriter

/-- The session stays over. -/
theorem Over.step (self : Writer) (h : s.Over) (act : WriterAct n α) : (self.step s act).Over := by
  cases act with
  -- no step takes back that the sender is dropped or that `done` is set
  | tick i scanlings =>
    rw [Writer.step]
    split <;> exact h
  | drain i =>
    rw [Writer.step]
    split
    · split
      · exact h
      · unfold send
        split <;> exact h
    · exact h
  | dropQueue => exact ⟨h.1, rfl⟩
  | store => exact ⟨rfl, h.2⟩
  | recv i | tryRecv i =>
    rw [Writer.step]
    split
    · unfold receive
      split <;> exact h
    · exact h
  | flush | awaitLast =>
    rw [Writer.step]
    split
    · unfold awaitWrite
      split <;> exact h
    · exact h
  | finish =>
    rw [Writer.step]
    split
    · split <;> exact h
    · exact h
  | check | housekeeping | closed | tryRecvFails | decide | write =>
    rw [Writer.step]
    split <;> exact h

/-- When the session is over, the task can return. -/
theorem Over.exists_returned (self : Writer) (h : s.Over) :
    ∃ rest : List (WriterAct n α), (rest.foldl self.step s).writer = .returned := by
  -- on the work that is left, which some step always makes less
  induction hwork : s.work using Nat.strongRecOn generalizing s with
  | ind work ih =>
    subst hwork
    by_cases hwriter : s.writer = .returned
    · exact ⟨[], hwriter⟩
    · -- a saturator that is left makes a step, or the task does
      obtain ⟨act, hless⟩ : ∃ act, (self.step s act).work < s.work := by
        by_cases hexited : ∀ i, (s.saturators i).pc = .exited
        · exact exists_writer_step self h.2 hexited hwriter
        · obtain ⟨i, hi⟩ := not_forall.mp hexited
          exact exists_saturator_step self h.1 hi
      obtain ⟨rest, hrest⟩ := ih _ hless (h.step self act) rfl
      exact ⟨act :: rest, hrest⟩

/-! ### Every hit is written once -/

/-- The hits of a saturator are all different. -/
theorem Inv.nodup_appended (h : s.Inv) (i : Fin n) : (s.appended i).Nodup := by
  apply List.Nodup.of_map Hit.serial
  rw [h.serial i]
  exact List.nodup_range

/-- When the task has returned nothing is on its way any more. -/
theorem Inv.written_eq (h : s.Inv) (hreturned : s.writer = .returned) (i : Fin n) :
    s.written.flatten.filter (fun hit => hit.saturator = i) = s.appended i := by
  obtain ⟨-, hclosed⟩ := h.closed (by rw [hreturned]; rfl)
  have hscanlings : (s.saturators i).scanlings = [] := by
    apply h.drained i
    rw [(hclosed i).1]
    decide
  -- of the five places where a hit can be, the other four are empty
  rw [← h.stages i, WriterState.stages, received, h.awaited (.inr hreturned), h.flushed hreturned,
    (hclosed i).2, hscanlings]
  simp only [List.append_nil]

end WriterState

/-- An element that occurs once in some lists, one after another, is in one of them only. -/
theorem existsUnique_slice {β : Type} {p : β → Bool} {slices : List (List β)} {x : β}
    (hnodup : (slices.flatten.filter p).Nodup) (hx : x ∈ slices.flatten.filter p) :
    ∃! j : ℕ, ∃ slice, slices[j]? = some slice ∧ x ∈ slice := by
  rw [List.filter_flatten, List.nodup_flatten] at hnodup
  obtain ⟨hx, hp⟩ := List.mem_filter.mp hx
  obtain ⟨slice, hslice, hx⟩ := List.mem_flatten.mp hx
  obtain ⟨j, hj⟩ := List.mem_iff_getElem?.mp hslice
  -- the slices have no common elements that satisfy `p`
  have hunique {j k : ℕ} {slice slice' : List β} (hj : slices[j]? = some slice)
      (hk : slices[k]? = some slice') (hx : x ∈ slice) (hx' : x ∈ slice') : ¬ j < k := by
    intro hlt
    obtain ⟨hj', rfl⟩ := List.getElem?_eq_some_iff.mp hj
    obtain ⟨hk', rfl⟩ := List.getElem?_eq_some_iff.mp hk
    have hdisjoint := List.pairwise_iff_getElem.mp hnodup.2 j k (by simpa using hj')
      (by simpa using hk') hlt
    rw [List.getElem_map, List.getElem_map] at hdisjoint
    exact hdisjoint (List.mem_filter.mpr ⟨hx, hp⟩) (List.mem_filter.mpr ⟨hx', hp⟩)
  -- two indices with the element are not in either order
  refine ⟨j, ⟨slice, hj, hx⟩, ?_⟩
  rintro k ⟨slice', hk, hx'⟩
  exact Nat.le_antisymm (Nat.not_lt.mp (hunique hj hk hx hx'))
    (Nat.not_lt.mp (hunique hk hj hx' hx))

namespace Writer

variable {n : ℕ} {α : Type}

/-- **Every hit is written once.** For any number of saturators and any interleaving: when the task
has returned, the hits of each saturator in the slices that were passed to `write_many` are those
that its responder has appended, in that order, and each of them is in exactly one slice. And
however far a run has come, it can go on until the task returns. -/
theorem hits_written_once (self : Writer) (acts : List (WriterAct n α)) :
    ((self.run acts).writer = .returned → ∀ i,
      (self.run acts).written.flatten.filter (fun hit => hit.saturator = i) =
        (self.run acts).appended i ∧
      ∀ hit ∈ (self.run acts).appended i,
        ∃! j : ℕ, ∃ slice, (self.run acts).written[j]? = some slice ∧ hit ∈ slice) ∧
    ∃ rest, (self.run (acts ++ rest)).writer = .returned := by
  have hinv := self.inv_run acts
  constructor
  · intro hreturned i
    have hwritten := hinv.written_eq hreturned i
    refine ⟨hwritten, fun hit hhit => ?_⟩
    rw [← hwritten] at hhit
    exact existsUnique_slice (hwritten ▸ hinv.nodup_appended i) hhit
  · -- the feeder ends, and then everything else does
    have hover : WriterState.Over (self.step (self.step (self.run acts) .store) .dropQueue) :=
      ⟨rfl, rfl⟩
    obtain ⟨rest, hrest⟩ := hover.exists_returned self
    refine ⟨.store :: .dropQueue :: rest, ?_⟩
    rw [run, List.foldl_append]
    exact hrest

/-- Two saturators and two batches. The first saturator finds the same scanling twice, and the
second one is sent while the first one is being written. -/
def twoBatches (i j : Fin n) : List (WriterAct n ℕ) :=
  [.tick i [7, 7], .drain i, .recv i, .tryRecvFails, .decide 0, .flush 0, .drain i, .drain i,
    .store, .dropQueue, .check i, .tick j [9], .drain j, .drain j, .check j, .recv j, .tryRecv i,
    .tryRecvFails, .decide 1, .write, .flush 1, .closed, .write, .awaitLast, .finish]

/-- The second of the two equal scanlings is in one batch, and in no other. -/
theorem hits_written_once_twoBatches :
    let s := (⟨5, 1⟩ : Writer).run (twoBatches (0 : Fin 2) 1)
    s.writer = .returned ∧
      ∃! k : ℕ, ∃ slice, s.written[k]? = some slice ∧ (⟨0, 1, 7⟩ : Hit 2 ℕ) ∈ slice := by
  have hreturned : ((⟨5, 1⟩ : Writer).run (twoBatches (0 : Fin 2) 1)).writer = .returned := by
    decide
  have hwritten := (hits_written_once ⟨5, 1⟩ (twoBatches (0 : Fin 2) 1)).1 hreturned 0
  exact ⟨hreturned, hwritten.2 ⟨0, 1, 7⟩ (by decide)⟩

end Writer

/-! ### The ticks of a responder -/

/-- A packet only appends to the scanlings, which is all that the machine assumes of a tick. -/
theorem Tracker.PacketStep.exists_scanlings {A B : Type} {env : ResponderEnv A B} {now : ℕ}
    {p : Packet} {m m' : Tracker B} (h : m.PacketStep env now p m') :
    ∃ new, m'.scanlings = m.scanlings ++ new := by
  cases h with
  | hit | finHit => exact ⟨[_], rfl⟩
  | idle | close | create | reorder | drop | keep | extend | finDrop =>
    exact ⟨[], (List.append_nil _).symm⟩

/-- Whatever a responder receives, a tick of it is one of those above: it appends scanlings, and
leaves those that are there. -/
theorem Responder.exists_scanlings_tick {A B : Type} (env : ResponderEnv A B) (input : TickInput)
    (w : Responder A B) : ∃ new, (tick env input w).2.scanlings = w.scanlings ++ new := by
  rw [tick_eq_run]
  -- on the events of the tick, taken off at the end
  induction input.events using List.reverseRecOn with
  | nil => exact ⟨[], (List.append_nil _).symm⟩
  | append_singleton events event ih =>
    obtain ⟨new, hnew⟩ := ih
    rw [run_concat]
    cases event with
    | packet arrival =>
      obtain ⟨more, hmore⟩ := (receive_spec env arrival (run env w events)).1.exists_scanlings
      refine ⟨new ++ more, ?_⟩
      rw [← List.append_assoc, ← hnew]
      exact hmore
    | expiry now wakes =>
      -- an expiry finds nothing new
      have hloop := (expire_spec env now wakes (run env w events)).1
      exact ⟨new, hloop.frame.1.trans hnew⟩

end Farsight
