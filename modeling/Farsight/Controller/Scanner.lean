import Farsight.Controller.Wakeup
import Farsight.Deque.Worker
import Farsight.Lib.Run

/-!
# The scanner

`Scanner::tick` takes a batch of templates from the results deque into `targets` and sends their
`SYN`s. `steal_batch` wants an empty destination: it neither looks at what is there nor keeps it.
`send_syn_batch` empties `targets` when it has got room in the ring. If a wake-up fails before that,
the tick returns an error, and the next tick calls `steal_batch` with the targets of the last one.

* `Scanner.step` — one call of `steal_batch`, one turn of the loop for room, or the wake-up after
  `submit`. The state also records what was delivered and submitted, and the destinations that
  `steal_batch` was given;
* `Scanner.Safe` — every template that was delivered is submitted or held, and no destination was in
  use;
* `Scanner.targets_survive_iff` — the scanner is safe exactly as long as no wake-up fails in the
  loop for room.
-/

namespace Farsight

/-- Where a tick is. A tick that returns is followed by the next one. -/
inductive ScannerPc where
  /-- At the head of the loop of `tick`. -/
  | stealing
  /-- In the loop of `send_syn_batch`. -/
  | reserving
  /-- After `submit`. -/
  | waking
  deriving DecidableEq, Repr

/-- `Scanner`, with what happened so far. -/
structure Scanner where
  targets : List PacketTemplate
  pc : ScannerPc
  /-- What successful calls of `steal_batch` put into `targets`. -/
  delivered : List PacketTemplate
  /-- The templates whose `SYN`s were submitted. -/
  submitted : List PacketTemplate
  /-- The content of `targets` at every call of `steal_batch`. -/
  destinations : List (List PacketTemplate)
  deriving DecidableEq, Repr

/-- What the calls of the next step return: `steal_batch`, or a turn of the loop for room, whose
wake-up is also that after `submit`. -/
structure ScannerInput where
  steal : Steal (List PacketTemplate)
  turn : ReserveTurn
  deriving DecidableEq, Repr

namespace Scanner

/-- `Scanner::new`. -/
def new : Scanner where
  targets := []
  pc := .stealing
  delivered := []
  submitted := []
  destinations := []

/-- `steal_batch`, on the destination. -/
def stealBatch (self : Scanner) : Steal (List PacketTemplate) → Scanner
  | .empty => self
  | .retry => { self with targets := [] }
  -- written over what is there
  | .success batch => { self with targets := batch, delivered := self.delivered ++ batch }

/-- Fill the slots, `drain` the targets and `submit`. -/
def submit (self : Scanner) : Scanner :=
  { self with targets := [], submitted := self.submitted ++ self.targets }

def step (self : Scanner) (input : ScannerInput) : Scanner :=
  match self.pc with
  | .stealing =>
    let next := stealBatch { self with destinations := self.destinations ++ [self.targets] }
      input.steal
    match input.steal with
    | .success _ => { next with pc := .reserving }
    -- `Empty` ends the tick, `Retry` goes round
    | _ => next
  | .reserving =>
    match reserveLoop [input.turn] with
    | none => self
    -- the tick returns the error, with the targets as they are
    | some (.error _) => { self with pc := .stealing }
    | some (.ok ()) => { self.submit with pc := .waking }
  -- an error is returned here too, but everything is submitted
  | .waking => { self with pc := .stealing }

def run (self : Scanner) (inputs : List ScannerInput) : Scanner :=
  inputs.foldl step self

/-- No template is lost or sent twice, and no destination was in use. -/
structure Safe (s : Scanner) : Prop where
  accounted : s.submitted ++ s.targets = s.delivered
  destinations : ∀ dest ∈ s.destinations, dest = []

/-- The wake-up of a turn for room does not fail while there is something to send. -/
def WakesUp (s : Scanner) (input : ScannerInput) : Prop :=
  s.pc = .reserving → s.targets ≠ [] → ¬ input.turn.wakeUp.Fails

variable {s : Scanner} {input : ScannerInput} {inputs : List ScannerInput}

/-! ### Steps -/

/-- Everything a step can do. -/
inductive Moves (s : Scanner) (input : ScannerInput) : Scanner → Prop
  | empty (hpc : s.pc = .stealing) :
      Moves s input { s with destinations := s.destinations ++ [s.targets], pc := .stealing }
  | retry (hpc : s.pc = .stealing) :
      Moves s input { s with
        destinations := s.destinations ++ [s.targets]
        targets := []
        pc := .stealing }
  | success (batch : List PacketTemplate) (hpc : s.pc = .stealing) :
      Moves s input { s with
        destinations := s.destinations ++ [s.targets]
        targets := batch
        delivered := s.delivered ++ batch
        pc := .reserving }
  | wait (hpc : s.pc = .reserving) : Moves s input s
  | fail (hpc : s.pc = .reserving) (hfails : input.turn.wakeUp.Fails) :
      Moves s input { s with pc := .stealing }
  | submit (hpc : s.pc = .reserving) : Moves s input { s.submit with pc := .waking }
  | wake (hpc : s.pc = .waking) : Moves s input { s with pc := .stealing }

/-- Every step, by where the scanner is and what it is given. -/
theorem moves_step (s : Scanner) (input : ScannerInput) : Moves s input (s.step input) := by
  unfold step
  cases hpc : s.pc with
  | stealing =>
    cases input.steal with
    | empty => exact .empty hpc
    | retry => exact .retry hpc
    | success batch => exact .success batch hpc
  | reserving =>
    rw [reserveLoop]
    rcases input.turn.wakeUp.run_spec with ⟨-, hrun⟩ | ⟨hfails, errno, hrun⟩
    · rw [hrun]
      cases input.turn.room with
      | true => exact .submit hpc
      | false => exact .wait hpc
    · rw [hrun]
      exact .fail hpc hfails
  | waking => exact .wake hpc

/-- A failed wake-up leaves the targets to the next tick. -/
theorem step_of_fails (hpc : s.pc = .reserving) (hfails : input.turn.wakeUp.Fails) :
    s.step input = { s with pc := .stealing } := by
  rcases input.turn.wakeUp.run_spec with ⟨hwakeUp, -⟩ | ⟨-, errno, hrun⟩
  · exact absurd hfails hwakeUp
  · simp only [step, hpc, reserveLoop, hrun]

/-! ### Runs without errors -/

/-- The scanner is safe, and holds targets only in the loop for room. -/
structure Inv (s : Scanner) : Prop extends Safe s where
  targets : s.pc ≠ .reserving → s.targets = []

theorem Inv.targets_of_stealing (h : Inv s) (hpc : s.pc = .stealing) : s.targets = [] :=
  h.targets (by rw [hpc]; rintro ⟨⟩)

/-- A call of `steal_batch` with nothing in the destination. -/
theorem Inv.destinations_append (h : Inv s) (hpc : s.pc = .stealing) :
    ∀ dest ∈ s.destinations ++ [s.targets], dest = [] := by
  intro dest hdest
  rcases List.mem_append.mp hdest with hdest | hdest
  · exact h.destinations dest hdest
  · rw [List.mem_singleton.mp hdest]
    exact h.targets_of_stealing hpc

/-- A step from such a state is safe, even if its wake-up fails. -/
theorem Inv.safe_step (h : Inv s) (input : ScannerInput) : Safe (s.step input) := by
  have haccounted := h.accounted
  have hmoves := moves_step s input
  generalize s.step input = s' at hmoves
  cases hmoves with
  | empty hpc => exact ⟨haccounted, h.destinations_append hpc⟩
  | retry hpc =>
    rw [h.targets_of_stealing hpc] at haccounted
    exact ⟨haccounted, h.destinations_append hpc⟩
  -- the batch is new, and nothing was left of the one before
  | success batch hpc =>
    rw [h.targets_of_stealing hpc, List.append_nil] at haccounted
    exact ⟨congrArg (· ++ batch) haccounted, h.destinations_append hpc⟩
  | submit hpc => exact ⟨(List.append_nil _).trans haccounted, h.destinations⟩
  | wait | fail | wake => exact ⟨haccounted, h.destinations⟩

/-- A step keeps the account. A wakeup that fails while targets are waiting would leave them to the
next steal as its destination, which is excluded. -/
theorem Inv.step (h : Inv s) (hwakesUp : s.WakesUp input) : Inv (s.step input) := by
  refine ⟨h.safe_step input, ?_⟩
  have hmoves := moves_step s input
  generalize s.step input = s' at hmoves
  cases hmoves with
  | empty hpc => exact fun _ => h.targets_of_stealing hpc
  | retry | submit => exact fun _ => rfl
  | success batch => exact fun hpc => absurd rfl hpc
  | wait hpc => exact fun hpc' => absurd hpc hpc'
  | fail hpc hfails =>
    intro _
    by_contra htargets
    exact hwakesUp hpc htargets hfails
  | wake hpc => exact fun _ => h.targets (by rw [hpc]; rintro ⟨⟩)

/-! ### Runs with an error -/

/-- Once a destination was in use, it was. -/
theorem mem_destinations_run {dest : List PacketTemplate} (h : dest ∈ s.destinations) :
    dest ∈ (s.run inputs).destinations := by
  induction inputs generalizing s with
  | nil => exact h
  | cons input inputs ih =>
    refine ih ?_
    have hmoves := moves_step s input
    generalize s.step input = s' at hmoves
    cases hmoves with
    | empty | retry | success => exact List.mem_append_left _ h
    | wait | fail | submit | wake => exact h

/-- The next call after a failed wake-up gets the targets that were not sent. -/
theorem mem_destinations_of_fails (hpc : s.pc = .reserving) (hfails : input.turn.wakeUp.Fails)
    (hinputs : inputs ≠ []) : s.targets ∈ (s.run (input :: inputs)).destinations := by
  obtain ⟨next, rest, rfl⟩ := List.exists_cons_of_ne_nil hinputs
  change s.targets ∈ (run ((s.step input).step next) rest).destinations
  refine mem_destinations_run ?_
  rw [step_of_fails hpc hfails]
  have hmoves := moves_step { s with pc := .stealing } next
  generalize step _ next = s' at hmoves
  cases hmoves with
  | empty | retry | success => exact List.mem_append_right _ List.mem_cons_self
  | wait hpc | fail hpc | submit hpc | wake hpc => cases hpc

/-- Conversely, a run whose steals all had an empty destination had no such wakeup. The step after
it is the steal that would show it. -/
theorem wakesUp_of_safe (inputs : List ScannerInput) (next : ScannerInput) (s : Scanner)
    (h : (s.run (inputs ++ [next])).Safe) : Run.Along step WakesUp s inputs := by
  induction inputs generalizing s with
  | nil => trivial
  | cons input inputs ih =>
    refine ⟨fun hpc htargets hfails => htargets ?_, ih _ h⟩
    exact h.destinations _ (mem_destinations_of_fails hpc hfails (List.concat_ne_nil _ _))

/-- **Targets survive.** In a run in which no wake-up fails in the loop for room, while there is
something to send, every template that was delivered is submitted once or held, and `steal_batch`
always gets an empty destination. After any other run the next step breaks this, if it was not
broken before. -/
theorem targets_survive_iff (inputs : List ScannerInput) :
    (Run.Along step WakesUp new inputs → (new.run inputs).Safe) ∧
    ((∀ next, (new.run (inputs ++ [next])).Safe) ↔ Run.Along step WakesUp new inputs) := by
  have hnew : Inv new := ⟨⟨rfl, fun _ h => absurd h List.not_mem_nil⟩, fun _ => rfl⟩
  have hrun (h : Run.Along step WakesUp new inputs) : Inv (new.run inputs) :=
    h.invariant (fun s input hwakesUp hs => hs.step hwakesUp) hnew
  refine ⟨fun h => (hrun h).toSafe, fun h => ?_, fun h next => ?_⟩
  · exact wakesUp_of_safe inputs ⟨.empty, ⟨⟨false, none⟩, false⟩⟩ new (h _)
  · rw [run, List.foldl_append]
    exact (hrun h).safe_step next

/-- Two batches; the wake-up of the first one meets `EPERM`. -/
def lostTargets : List ScannerInput :=
  [⟨.success [⟨61000, 1, 25565⟩], ⟨⟨false, none⟩, false⟩⟩, ⟨.empty, ⟨⟨true, some 1⟩, false⟩⟩,
    ⟨.success [⟨61000, 2, 25565⟩], ⟨⟨false, none⟩, false⟩⟩, ⟨.empty, ⟨⟨false, none⟩, true⟩⟩]

/-- The first template was given to `steal_batch` as a destination, and it is neither submitted nor
held. -/
theorem lostTargets_lost :
    [⟨61000, 1, 25565⟩] ∈ (new.run lostTargets).destinations ∧
    ¬ (new.run lostTargets).Safe ∧
    (⟨61000, 1, 25565⟩ : PacketTemplate) ∈ (new.run lostTargets).delivered ∧
    ⟨61000, 1, 25565⟩ ∉ (new.run lostTargets).submitted ∧
    ⟨61000, 1, 25565⟩ ∉ (new.run lostTargets).targets := by
  refine ⟨by decide, fun h => ?_, by decide, by decide, by decide⟩
  exact absurd h.accounted (by decide)

end Scanner

end Farsight
