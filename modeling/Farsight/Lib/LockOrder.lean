import Mathlib.Data.Fintype.Pi
import Mathlib.Data.Fintype.Lattice
import Mathlib.Tactic.Common

/-!
# Lock orders

Threads run a program whose steps take and give back read-write locks. A thread that wants a lock
which somebody else holds in its way does not move.

* `LockOrder.Program` — what the next step does with the locks (`next`), and with the data and the
  program counter (`exec`);
* `LockOrder.step`, `LockOrder.run` — any interleaving of any number of threads;
* `LockOrder.Scopes` — the guards that live at each point of the program: a thread takes a lock only
  if it ranks above all locks it holds;
* `LockOrder.Scopes.guards_run` — then the guards of a thread are those of its point;
* `LockOrder.Scopes.exists_unblocked` — and some unfinished thread can always move;
* `LockOrder.compatible_step` — no two threads hold a lock in ways that exclude each other, which
  needs no order of the locks.
-/

namespace LockOrder

/-- How a lock is taken. -/
inductive Mode where
  | shared
  | exclusive
  deriving DecidableEq, Repr

/-- A lock that is held. -/
structure Guard (L : Type) where
  lock : L
  mode : Mode
  deriving DecidableEq, Repr

/-- What a step does with the locks. -/
inductive Action (L : Type) where
  | acquire (guard : Guard L)
  | release (lock : L)
  | other

/-- A program over points `P`, data `D` and inputs `I` that uses the locks `L`. -/
structure Program (P D I L : Type) where
  next : P → Action L
  exec : I → P → D → P × D

structure Thread (P L : Type) where
  point : P
  guards : List (Guard L)

/-- The shared data and the threads. -/
structure State (ι P D L : Type) where
  data : D
  threads : ι → Thread P L

variable {ι P D I L : Type}

section Run

variable [DecidableEq ι] [Fintype ι] [DecidableEq L]

/-- Nobody holds the lock in a way that excludes this one. -/
def Free (s : State ι P D L) (guard : Guard L) : Prop :=
  ∀ i, ∀ held ∈ (s.threads i).guards, held.lock = guard.lock →
    held.mode = .shared ∧ guard.mode = .shared

instance (s : State ι P D L) (guard : Guard L) : Decidable (Free s guard) :=
  inferInstanceAs (Decidable (∀ _, _))

/-- The next step of thread `i`. -/
def step (program : Program P D I L) (s : State ι P D L) (act : ι × I) : State ι P D L :=
  let thread := s.threads act.1
  let (point, data) := program.exec act.2 thread.point s.data
  let move (guards : List (Guard L)) : State ι P D L :=
    { data, threads := Function.update s.threads act.1 ⟨point, guards⟩ }
  match program.next thread.point with
  | .acquire guard => if Free s guard then move (guard :: thread.guards) else s
  | .release lock => move (thread.guards.eraseP fun held => held.lock = lock)
  | .other => move thread.guards

/-- Carry out the steps. -/
def run (program : Program P D I L) (s : State ι P D L) (acts : List (ι × I)) : State ι P D L :=
  acts.foldl (step program) s

/-- A thread that does not wait goes to its next point, with some guards: either it had them, or it
has just taken a lock that was free. -/
theorem Program.step_cases (program : Program P D I L) (s : State ι P D L) (act : ι × I) :
    step program s act = s ∨
      ∃ guards : List (Guard L),
        (∀ held ∈ guards, held ∈ (s.threads act.1).guards ∨ Free s held) ∧
        step program s act =
          { data := (program.exec act.2 (s.threads act.1).point s.data).2
            threads := Function.update s.threads act.1
              ⟨(program.exec act.2 (s.threads act.1).point s.data).1, guards⟩ } := by
  unfold step
  dsimp only
  cases hnext : program.next (s.threads act.1).point with
  | acquire guard =>
    dsimp only
    split
    · next hfree =>
      refine .inr ⟨_, ?_, rfl⟩
      intro held hheld
      rcases List.mem_cons.mp hheld with rfl | hold
      · exact .inr hfree
      · exact .inl hold
    · exact .inl rfl
  | release lock => exact .inr ⟨_, fun held hheld => .inl (List.mem_of_mem_eraseP hheld), rfl⟩
  | other => exact .inr ⟨_, fun held hheld => .inl hheld, rfl⟩

/-- No two threads hold a lock in ways that exclude each other. -/
def Compatible (s : State ι P D L) : Prop :=
  ∀ i j, i ≠ j → ∀ held ∈ (s.threads i).guards, ∀ other ∈ (s.threads j).guards,
    held.lock = other.lock → held.mode = .shared ∧ other.mode = .shared

theorem compatible_step {program : Program P D I L} {s : State ι P D L} (h : Compatible s)
    (act : ι × I) : Compatible (step program s act) := by
  rcases program.step_cases s act with heq | ⟨guards, hguards, heq⟩
  · rw [heq]
    exact h
  · rw [heq]
    -- the guards of the thread that has moved, against those of another
    have hmoved {j : ι} (hj : j ≠ act.1) {held other : Guard L} (hheld : held ∈ guards)
        (hother : other ∈ (s.threads j).guards) (hlock : held.lock = other.lock) :
        held.mode = .shared ∧ other.mode = .shared := by
      rcases hguards held hheld with hold | hfree
      · exact h act.1 j hj.symm held hold other hother hlock
      · exact (hfree j other hother hlock.symm).symm
    intro i j hij held hheld other hother hlock
    dsimp only at hheld hother
    by_cases hi : i = act.1
    · subst hi
      rw [Function.update_self] at hheld
      rw [Function.update_of_ne hij.symm] at hother
      exact hmoved hij.symm hheld hother hlock
    · rw [Function.update_of_ne hi] at hheld
      by_cases hj : j = act.1
      · subst hj
        rw [Function.update_self] at hother
        exact (hmoved hi hother hheld hlock.symm).symm
      · rw [Function.update_of_ne hj] at hother
        exact h i j hij held hheld other hother hlock

end Run

/-- The guards that live at the points of a program, and a rank that orders the locks. -/
structure Scopes (program : Program P D I L) where
  scope : P → List (Guard L)
  rank : L → ℕ
  acquire : ∀ {input point data guard}, program.next point = .acquire guard →
    scope (program.exec input point data).1 = guard :: scope point
  release : ∀ {input point data lock}, program.next point = .release lock →
    ∃ mode, scope point = ⟨lock, mode⟩ :: scope (program.exec input point data).1
  other : ∀ {input point data}, program.next point = .other →
    scope (program.exec input point data).1 = scope point
  ordered : ∀ {point guard}, program.next point = .acquire guard →
    ∀ held ∈ scope point, rank held.lock < rank guard.lock

namespace Scopes

variable {program : Program P D I L} (scopes : Scopes program) {s : State ι P D L}

/-- No thread wants a lock that it holds. -/
theorem not_mem_of_acquire (h : ∀ i, (s.threads i).guards = scopes.scope (s.threads i).point)
    {i : ι} {guard : Guard L} (hnext : program.next (s.threads i).point = .acquire guard) :
    ∀ held ∈ (s.threads i).guards, held.lock ≠ guard.lock := by
  intro held hheld heq
  have hlt := scopes.ordered hnext held (h i ▸ hheld)
  rw [heq] at hlt
  exact Nat.lt_irrefl _ hlt

/-- **No deadlock.** If the threads that hold or want a lock are unfinished, some unfinished thread
does not wait: its next step takes no lock, or one that nobody holds. -/
theorem exists_unblocked [Finite ι]
    (h : ∀ i, (s.threads i).guards = scopes.scope (s.threads i).point)
    (unfinished : P → Prop) (hscope : ∀ point, scopes.scope point ≠ [] → unfinished point)
    (hsome : ∃ i, unfinished (s.threads i).point) :
    ∃ i, unfinished (s.threads i).point ∧
      ∀ guard, program.next (s.threads i).point = .acquire guard →
        ∀ j, ∀ held ∈ (s.threads j).guards, held.lock ≠ guard.lock := by
  -- the unfinished thread that wants the lock of the highest rank
  let wanted (i : {i // unfinished (s.threads i).point}) : ℕ :=
    match program.next (s.threads i).point with
    | .acquire guard => scopes.rank guard.lock + 1
    | _ => 0
  have : Nonempty {i // unfinished (s.threads i).point} := nonempty_subtype.mpr hsome
  obtain ⟨⟨i, hi⟩, hmax⟩ := Finite.exists_max wanted
  by_contra hall
  push Not at hall
  obtain ⟨guard, hguard, j, held, hheld, hlock⟩ := hall i hi
  -- whoever holds that lock is unfinished and wants one of a higher rank
  have hj : unfinished (s.threads j).point := by
    apply hscope
    rw [← h j]
    exact List.ne_nil_of_mem hheld
  obtain ⟨guard', hguard', -⟩ := hall j hj
  have hlt := scopes.ordered hguard' held (h j ▸ hheld)
  have hle := hmax ⟨j, hj⟩
  simp only [wanted, hguard, hguard'] at hle
  rw [hlock] at hlt
  omega

variable [DecidableEq ι] [Fintype ι] [DecidableEq L]

/-- A step keeps the guards in line with the points. -/
theorem guards_step (h : ∀ i, (s.threads i).guards = scopes.scope (s.threads i).point)
    (act : ι × I) (i : ι) :
    ((step program s act).threads i).guards =
      scopes.scope ((step program s act).threads i).point := by
  -- the thread that moves, or another one
  have hmove {guards : List (Guard L)}
      (hguards : guards =
        scopes.scope (program.exec act.2 (s.threads act.1).point s.data).1) :
      (Function.update s.threads act.1
        ⟨(program.exec act.2 (s.threads act.1).point s.data).1, guards⟩ i).guards =
      scopes.scope (Function.update s.threads act.1
        ⟨(program.exec act.2 (s.threads act.1).point s.data).1, guards⟩ i).point := by
    by_cases hi : i = act.1
    · subst hi
      rw [Function.update_self]
      exact hguards
    · rw [Function.update_of_ne hi]
      exact h i
  unfold step
  dsimp only
  cases hnext : program.next (s.threads act.1).point with
  | acquire guard =>
    dsimp only
    split
    · apply hmove
      rw [scopes.acquire hnext, h]
    · exact h i
  | release lock =>
    apply hmove
    obtain ⟨mode, hscope⟩ := @Scopes.release _ _ _ _ _ scopes act.2 _ s.data _ hnext
    rw [h, hscope, List.eraseP_cons_of_pos (by simp)]
  | other =>
    apply hmove
    rw [scopes.other hnext, h]

/-- In every run the guards of a thread are those of its point. -/
theorem guards_run (h : ∀ i, (s.threads i).guards = scopes.scope (s.threads i).point)
    (acts : List (ι × I)) (i : ι) :
    ((run program s acts).threads i).guards =
      scopes.scope ((run program s acts).threads i).point := by
  refine List.foldlRecOn (motive := fun s : State ι P D L => ∀ i, (s.threads i).guards =
    scopes.scope (s.threads i).point) acts (step program) h (fun s hs act _ => ?_) i
  exact scopes.guards_step hs act

end Scopes

end LockOrder
