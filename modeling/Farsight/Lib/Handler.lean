import Mathlib.Tactic.Common

/-!
# Handlers

A handler is a stateful computation that may stop with an error. Unlike a transaction it keeps what
it did before the error, so a specification has two postconditions: one for the value it returns and
one for the state it leaves behind when it stops.

* `Handler.Triple P x Q E` — from every state in `P`, `x` returns into `Q` or stops in `E`;
* the rules `Triple.pure`, `Triple.bind`, `Triple.get_bind`, `Triple.modify`, `Triple.fail`, with
  `Triple.mono`, `Triple.and` and `Triple.of_forall` for the conditions, and `Triple.cases` to use a
  triple;
* `Handler.Keeps I x` — `x` keeps `I`, whether or not it stops;
* `Handler.Sim R x y` — from states related by `R`, `x` and `y` return the same value, or both stop,
  in states related by `R`; with the same rules. The two need not have states of the same type.
-/

/-- A computation on a state `σ` that returns an `α` or stops. -/
def Handler (σ α : Type) : Type :=
  σ → Option α × σ

namespace Handler

variable {σ τ α β : Type}

instance : Monad (Handler σ) where
  pure a := fun s => (some a, s)
  bind x f := fun s =>
    match x s with
    | (some a, s') => f a s'
    | (none, s') => (none, s')

/-- Stop. -/
def fail : Handler σ α :=
  fun s => (none, s)

def get : Handler σ σ :=
  fun s => (some s, s)

def modify (f : σ → σ) : Handler σ Unit :=
  fun s => (some (), f s)

/-- From every state in `P`, `x` returns a value into `Q` or stops in `E`. -/
def Triple (P : σ → Prop) (x : Handler σ α) (Q : α → σ → Prop) (E : σ → Prop) : Prop :=
  ∀ s, P s →
    match x s with
    | (some a, s') => Q a s'
    | (none, s') => E s'

namespace Triple

variable {P P' : σ → Prop} {Q Q' : α → σ → Prop} {R : β → σ → Prop} {E E' : σ → Prop}
variable {x : Handler σ α} {f : α → Handler σ β}

theorem pure {a : α} (h : ∀ s, P s → Q a s) : Triple P (pure a) Q E :=
  h

/-- Sequencing: what the first handler establishes is what the second assumes. A first handler that
fails ends the whole. -/
theorem bind (hx : Triple P x Q E) (hf : ∀ a, Triple (Q a) (f a) R E) :
    Triple P (x >>= f) R E := by
  intro s hs
  have hx' := hx s hs
  change match (match x s with | (some a, s') => f a s' | (none, s') => (none, s')) with
    | (some b, s') => R b s'
    | (none, s') => E s'
  -- if `x` stops, `f` does not run and the state is the one `x` left
  rcases hxs : x s with ⟨_ | a, s'⟩
  · rw [hxs] at hx'
    exact hx'
  · rw [hxs] at hx'
    exact hf a s' hx'

/-- What a triple says of one run. -/
theorem cases (h : Triple P x Q E) {s : σ} (hs : P s) :
    (∃ a, (x s).1 = some a ∧ Q a (x s).2) ∨ ((x s).1 = none ∧ E (x s).2) := by
  have hrun := h s hs
  rcases hx : x s with ⟨_ | a, s'⟩
  · rw [hx] at hrun
    exact .inr ⟨rfl, hrun⟩
  · rw [hx] at hrun
    exact .inl ⟨a, rfl, hrun⟩

/-- The state to start from may be fixed. -/
theorem of_forall (h : ∀ s, P s → Triple (· = s) x Q E) : Triple P x Q E :=
  fun s hs => h s hs s rfl

/-- Reading the state fixes it. -/
theorem get_bind {g : σ → Handler σ β} (h : ∀ s, P s → Triple (· = s) (g s) R E) :
    Triple P (Handler.get >>= g) R E :=
  fun s hs => h s hs s rfl

theorem modify {g : σ → σ} {S : Unit → σ → Prop} (h : ∀ s, P s → S () (g s)) :
    Triple P (Handler.modify g) S E :=
  h

theorem fail (h : ∀ s, P s → E s) : Triple P Handler.fail Q E :=
  h

theorem mono (hx : Triple P x Q E) (hP : ∀ s, P' s → P s) (hQ : ∀ a s, Q a s → Q' a s)
    (hE : ∀ s, E s → E' s) : Triple P' x Q' E' := by
  intro s hs
  have hx' := hx s (hP s hs)
  rcases hxs : x s with ⟨_ | a, s'⟩
  · rw [hxs] at hx'
    exact hE s' hx'
  · rw [hxs] at hx'
    exact hQ a s' hx'

/-- Two triples of one computation. -/
theorem and (hx : Triple P x Q E) (hx' : Triple P x Q' E') :
    Triple P x (fun a s => Q a s ∧ Q' a s) fun s => E s ∧ E' s := by
  intro s hs
  have h := hx s hs
  have h' := hx' s hs
  rcases hxs : x s with ⟨_ | a, s'⟩
  · rw [hxs] at h h'
    exact ⟨h, h'⟩
  · rw [hxs] at h h'
    exact ⟨h, h'⟩

end Triple

/-- What a handler keeps, whether or not it stops. -/
abbrev Keeps (I : σ → Prop) (x : Handler σ Unit) : Prop :=
  Triple I x (fun _ => I) I

namespace Keeps

variable {I : σ → Prop}

/-- Reading the state changes nothing. -/
theorem get_bind {x : σ → Handler σ Unit} (h : ∀ s, Keeps I (x s)) :
    Keeps I (Handler.get >>= x) := by
  refine Triple.get_bind fun s hs => (h s).mono ?_ (fun _ _ h => h) fun _ h => h
  rintro _ rfl
  exact hs

theorem and {J : σ → Prop} {x : Handler σ Unit} (h : Keeps I x) (h' : Keeps J x) :
    Keeps (fun s => I s ∧ J s) x :=
  Triple.and (h.mono (fun _ hs => hs.1) (fun _ _ hs => hs) fun _ hs => hs)
    (h'.mono (fun _ hs => hs.2) (fun _ _ hs => hs) fun _ hs => hs)

/-- The state after a handler that keeps `I`. -/
theorem state {x : Handler σ Unit} (h : Keeps I x) {s : σ} (hs : I s) : I (x s).2 := by
  rcases h.cases hs with ⟨_, _, h⟩ | ⟨_, h⟩
  · exact h
  · exact h

end Keeps

/-- From related states, `x` and `y` end alike in related states. -/
def Sim (R : σ → τ → Prop) (x : Handler σ α) (y : Handler τ α) : Prop :=
  ∀ s s', R s s' → (x s).1 = (y s').1 ∧ R (x s).2 (y s').2

namespace Sim

variable {R : σ → τ → Prop} {x : Handler σ α} {y : Handler τ α}

theorem pure {a : α} : Sim R (pure a) (pure a) :=
  fun _ _ h => ⟨rfl, h⟩

theorem fail : Sim R (Handler.fail : Handler σ α) Handler.fail :=
  fun _ _ h => ⟨rfl, h⟩

theorem modify {f : σ → σ} {g : τ → τ} (h : ∀ s s', R s s' → R (f s) (g s')) :
    Sim R (Handler.modify f) (Handler.modify g) :=
  fun s s' hR => ⟨rfl, h s s' hR⟩

theorem bind {f : α → Handler σ β} {g : α → Handler τ β} (hx : Sim R x y)
    (hf : ∀ a, Sim R (f a) (g a)) :
    Sim R (x >>= f) (y >>= g) := by
  intro s s' hR
  obtain ⟨hvalue, hstate⟩ := hx s s' hR
  change (match x s with | (some a, t) => f a t | (none, t) => (none, t)).1 =
      (match y s' with | (some a, t) => g a t | (none, t) => (none, t)).1 ∧
    R (match x s with | (some a, t) => f a t | (none, t) => (none, t)).2
      (match y s' with | (some a, t) => g a t | (none, t) => (none, t)).2
  -- both return or both stop: the mixed cases contradict `hvalue`
  rcases hxs : x s with ⟨_ | a, t⟩
  · rcases hys : y s' with ⟨_ | b, t'⟩
    · rw [hxs, hys] at hstate
      exact ⟨rfl, hstate⟩
    · rw [hxs, hys] at hvalue
      cases hvalue
  · rcases hys : y s' with ⟨_ | b, t'⟩
    · rw [hxs, hys] at hvalue
      cases hvalue
    · rw [hxs, hys] at hvalue hstate
      cases hvalue
      exact hf a t t' hstate

/-- Two handlers that read the state go on with related states. -/
theorem get_bind {f : σ → Handler σ β} {g : τ → Handler τ β}
    (h : ∀ s s', R s s' → Sim R (f s) (g s')) :
    Sim R (Handler.get >>= f) (Handler.get >>= g) :=
  fun s s' hR => h s s' hR s s' hR

end Sim

end Handler
