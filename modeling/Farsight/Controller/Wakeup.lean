import Farsight.Responder.State

/-!
# The wake-ups of a send

The four functions of the sender submit their packets the same way. A loop waits until the ring has
room, and after `submit` the kernel is told once more. Before each `reserve` and after `submit` the
sender looks at a flag of the ring and calls `sendto` if the kernel asks for it; an error of the
call ends the send at that point.

* `Socket.sendto` — which errors of the system call count;
* `reserveLoop` — the loop, on what its turns meet;
* `SendScript.exec` — a whole send. An error before the loop ends means that nothing was submitted,
  and one after it that everything was (`SendScript.wake`);
* `transmit_eq_exec` — a send of the responder is one of these.
-/

namespace Farsight

/-- The errors that `Socket::sendto` takes for success: `EAGAIN`, `EBUSY`, `ENOBUFS` and
`ENETDOWN`. -/
def Socket.tolerated : List ℕ := [11, 16, 105, 100]

/-- `Socket::sendto`, with the error of the system call. -/
def Socket.sendto : Option ℕ → Except ℕ Unit
  | none => .ok ()
  | some errno => if errno ∈ tolerated then .ok () else .error errno

/-- A look at the flag of the ring, and the error that a call of `sendto` would meet. -/
structure WakeUp where
  needsWakeup : Bool
  errno : Option ℕ
  deriving DecidableEq, Repr

namespace WakeUp

/-- Wake the kernel, if it asks for it. -/
def run (self : WakeUp) : Except ℕ Unit :=
  if self.needsWakeup then Socket.sendto self.errno else .ok ()

/-- The kernel asks for a call, and the call meets an error that counts. -/
def Fails (self : WakeUp) : Prop :=
  self.needsWakeup = true ∧ ∃ errno, self.errno = some errno ∧ errno ∉ Socket.tolerated

/-- A wakeup fails with an error of the kernel that is not one of those to ignore. -/
theorem run_spec (wakeUp : WakeUp) :
    (¬ wakeUp.Fails ∧ wakeUp.run = .ok ()) ∨
      (wakeUp.Fails ∧ ∃ errno, wakeUp.run = .error errno) := by
  rcases wakeUp with ⟨needsWakeup, errno⟩
  cases needsWakeup with
  | false => exact .inl ⟨fun h => Bool.false_ne_true h.1, rfl⟩
  | true =>
    cases errno with
    | none => exact .inl ⟨by rintro ⟨-, _, ⟨⟩, -⟩, rfl⟩
    | some errno =>
      by_cases htolerated : errno ∈ Socket.tolerated
      · refine .inl ⟨?_, if_pos htolerated⟩
        rintro ⟨-, _, ⟨⟩, hcounts⟩
        exact hcounts htolerated
      · exact .inr ⟨⟨rfl, errno, rfl, htolerated⟩, errno, if_neg htolerated⟩

end WakeUp

/-- What a turn of the loop meets. -/
structure ReserveTurn where
  wakeUp : WakeUp
  /-- `reserve` finds room. -/
  room : Bool
  deriving DecidableEq, Repr

/-- The loop that waits for room. It has not ended yet if the turns do not end it. -/
def reserveLoop : List ReserveTurn → Option (Except ℕ Unit)
  | [] => none
  | turn :: turns =>
    match turn.wakeUp.run with
    | .error errno => some (.error errno)
    | .ok () => if turn.room then some (.ok ()) else reserveLoop turns

/-- The loop gets room: some turn finds it, and no wake-up fails until then. -/
def Reserves (turns : List ReserveTurn) : Prop :=
  ∃ waiting turn rest, turns = waiting ++ turn :: rest ∧
    (∀ earlier ∈ waiting, ¬ earlier.wakeUp.Fails ∧ earlier.room = false) ∧
    ¬ turn.wakeUp.Fails ∧ turn.room = true

theorem not_reserves_nil : ¬ Reserves [] := by
  rintro ⟨waiting, turn, rest, heq, -⟩
  exact absurd heq.symm (List.append_ne_nil_of_right_ne_nil _ (List.cons_ne_nil _ _))

/-- Turn by turn: the wakeup of a turn must not fail, and if it finds no room, a later turn has
to. -/
theorem reserves_cons {turn : ReserveTurn} {turns : List ReserveTurn} :
    Reserves (turn :: turns) ↔
      ¬ turn.wakeUp.Fails ∧ (turn.room = true ∨ Reserves turns) := by
  constructor
  · rintro ⟨waiting, found, rest, heq, hwaiting, hfound⟩
    -- the turn that finds room is this one or a later one
    cases waiting with
    | nil =>
      obtain ⟨rfl, -⟩ := List.cons.inj heq
      exact ⟨hfound.1, .inl hfound.2⟩
    | cons first waiting =>
      obtain ⟨rfl, rfl⟩ := List.cons.inj heq
      have hrest := fun earlier h => hwaiting earlier (List.mem_cons_of_mem _ h)
      exact ⟨(hwaiting turn List.mem_cons_self).1, .inr ⟨waiting, found, rest, rfl, hrest, hfound⟩⟩
  · rintro ⟨hwakeUp, hturn⟩
    cases hroom : turn.room with
    | true => exact ⟨[], turn, turns, rfl, fun _ h => absurd h List.not_mem_nil, hwakeUp, hroom⟩
    | false =>
      rw [hroom] at hturn
      obtain ⟨waiting, found, rest, rfl, hwaiting, hfound⟩ := hturn.resolve_left Bool.false_ne_true
      refine ⟨turn :: waiting, found, rest, rfl, fun earlier h => ?_, hfound⟩
      rcases List.mem_cons.mp h with rfl | h
      · exact ⟨hwakeUp, hroom⟩
      · exact hwaiting earlier h

/-- The loop returns once a turn finds room. It goes on without room, for ever if need be, and stops
at the first wakeup that fails. -/
theorem reserveLoop_ok_iff (turns : List ReserveTurn) :
    reserveLoop turns = some (.ok ()) ↔ Reserves turns := by
  induction turns with
  | nil => exact iff_of_false (by rintro ⟨⟩) not_reserves_nil
  | cons turn turns ih =>
    rw [reserveLoop, reserves_cons]
    rcases turn.wakeUp.run_spec with ⟨hwakeUp, hrun⟩ | ⟨hfails, errno, hrun⟩
    · rw [hrun]
      cases hroom : turn.room with
      | true => exact iff_of_true rfl ⟨hwakeUp, .inl rfl⟩
      | false =>
        refine ih.trans ⟨fun h => ⟨hwakeUp, .inr h⟩, fun h => ?_⟩
        exact h.2.resolve_left Bool.false_ne_true
    · rw [hrun]
      exact iff_of_false (by rintro ⟨⟩) fun h => h.1 hfails

/-- What a send meets: the turns of its loop, and the wake-up after `submit`. -/
structure SendScript where
  turns : List ReserveTurn
  last : WakeUp
  deriving DecidableEq, Repr

namespace SendScript

/-- A send whose `submit` does `submit`. There is no result while the loop waits. -/
def exec {σ : Type} (self : SendScript) (submit : σ → σ) (s : σ) : Option (Except ℕ Unit × σ) :=
  match reserveLoop self.turns with
  | none => none
  | some (.error errno) => some (.error errno, s)
  | some (.ok ()) => some (self.last.run, submit s)

/-- How the wake-ups go, if the loop ends. -/
def wake (self : SendScript) : Option Wake :=
  match reserveLoop self.turns with
  | none => none
  | some (.error _) => some .failBefore
  | some (.ok ()) =>
    match self.last.run with
    | .ok () => some .ok
    | .error _ => some .failAfter

/-- The wake-up after `submit` is the one that fails. -/
theorem wake_eq_failAfter_iff (script : SendScript) :
    script.wake = some .failAfter ↔ Reserves script.turns ∧ script.last.Fails := by
  rw [← reserveLoop_ok_iff, wake]
  rcases reserveLoop script.turns with _ | _ | _
  · exact iff_of_false (by rintro ⟨⟩) (by rintro ⟨⟨⟩, -⟩)
  · exact iff_of_false (by rintro ⟨⟩) (by rintro ⟨⟨⟩, -⟩)
  · rcases script.last.run_spec with ⟨hlast, hrun⟩ | ⟨hfails, errno, hrun⟩
    · rw [hrun]
      exact iff_of_false (by rintro ⟨⟩) fun h => hlast h.2
    · rw [hrun]
      exact iff_of_true rfl ⟨rfl, hfails⟩

end SendScript

/-- A send of the responder does what the script of its wake-ups says. -/
theorem Responder.transmit_eq_exec {A B : Type} (packet : TxPacket) (w : Responder A B)
    {script : SendScript} {wake : Wake} {wakes : List Wake} (hwakes : w.wakes = wake :: wakes)
    (hwake : script.wake = some wake) :
    ∃ result, script.exec (fun w => { w with sent := w.sent ++ [packet] }) { w with wakes } =
      some (result, (transmit packet w).2) ∧
      ((transmit packet w).1 = some () ↔ result = .ok ()) := by
  rw [SendScript.wake] at hwake
  rw [SendScript.exec]
  -- the loop does not return, it fails, or it has found room. Then the packet is submitted, and
  -- woken up for once more
  rcases hloop : reserveLoop script.turns with _ | _ | _
  · rw [hloop] at hwake
    cases hwake
  · rw [hloop] at hwake
    cases hwake
    simp only [transmit, hwakes]
    exact ⟨_, rfl, by simp⟩
  · rw [hloop] at hwake
    rcases script.last.run_spec with ⟨-, hrun⟩ | ⟨-, errno, hrun⟩
    · simp only [hrun, Option.some.injEq] at hwake
      subst hwake
      simp only [transmit, hwakes, hrun]
      exact ⟨_, rfl, by simp⟩
    · simp only [hrun, Option.some.injEq] at hwake
      subst hwake
      simp only [transmit, hwakes, hrun]
      exact ⟨_, rfl, by simp⟩

end Farsight
