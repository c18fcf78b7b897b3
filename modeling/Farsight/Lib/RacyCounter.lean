import Farsight.Lib.Run
import Mathlib.Data.Finset.Card
import Mathlib.Data.Nat.Cast.Basic
import Mathlib.Logic.Function.Basic

/-!
# Racy counters

Threads raise a shared counter by reading it and writing back what they read plus one, with no lock
over both. If another thread writes in between, one of the two increments is lost.

* `Fresh` — a write finds the counter as its thread has read it;
* `value_eq_of_fresh` — if all writes are fresh, the counter is raised once for each call;
* `value_eq_iff_fresh` — and only then, if nobody sets the counter to something else.

The second half is not obvious, as a late write can also move the counter up again. What it cannot
do is catch up: after `n` writes of which one was not fresh the counter has been raised by less than
`n`, and so has everything that threads hold (`Behind`).
-/

namespace RacyCounter

variable {ι V : Type*}

/-- What a thread still has to do. -/
inductive Debt (V : Type*) where
  /-- Nothing. -/
  | clear
  /-- Read the counter and write. -/
  | unread
  /-- Write `value`. -/
  | holds (value : V)

structure State (ι V : Type*) where
  value : V
  debts : ι → Debt V

inductive Act (ι V : Type*) where
  /-- Thread `t` starts an increment. -/
  | call (t : ι)
  /-- Thread `t` reads the counter. -/
  | read (t : ι)
  /-- Thread `t` writes. -/
  | write (t : ι)
  /-- Somebody else sets the counter. -/
  | set (value : V)
  /-- Nothing happens to the counter. -/
  | skip

variable [DecidableEq ι] [AddGroupWithOne V]

def step (s : State ι V) : Act ι V → State ι V
  | .call t =>
    match s.debts t with
    | .clear => { s with debts := Function.update s.debts t .unread }
    | _ => s
  | .read t =>
    match s.debts t with
    | .unread => { s with debts := Function.update s.debts t (.holds (s.value + 1)) }
    | _ => s
  | .write t =>
    match s.debts t with
    | .holds v => ⟨v, Function.update s.debts t .clear⟩
    | _ => s
  | .set v => { s with value := v }
  | .skip => s

/-- A write that adds one, or a value set to what it is. -/
def Fresh (s : State ι V) : Act ι V → Prop
  | .write t => ∀ v, s.debts t = .holds v → v = s.value + 1
  | .set v => v = s.value
  | _ => True

/-- The calls that start in a step. -/
def calls (s : State ι V) : Act ι V → ℕ
  | .call t =>
    match s.debts t with
    | .clear => 1
    | _ => 0
  | _ => 0

/-- The writes made in a step. -/
def writes (s : State ι V) : Act ι V → ℕ
  | .write t =>
    match s.debts t with
    | .holds _ => 1
    | _ => 0
  | _ => 0

def IsSet : Act ι V → Prop
  | .set _ => True
  | _ => False

/-- What a step can do. -/
inductive Effect (s : State ι V) (act : Act ι V) : Prop where
  | stay (hstep : step s act = s) (hwrites : writes s act = 0) (hcalls : calls s act = 0)
      (hfresh : Fresh s act)
  | call (t : ι) (ht : s.debts t = .clear)
      (hstep : step s act = ⟨s.value, Function.update s.debts t .unread⟩)
      (hwrites : writes s act = 0) (hcalls : calls s act = 1) (hfresh : Fresh s act)
  | read (t : ι) (ht : s.debts t = .unread)
      (hstep : step s act = ⟨s.value, Function.update s.debts t (.holds (s.value + 1))⟩)
      (hwrites : writes s act = 0) (hcalls : calls s act = 0) (hfresh : Fresh s act)
  | write (t : ι) (v : V) (ht : s.debts t = .holds v)
      (hstep : step s act = ⟨v, Function.update s.debts t .clear⟩)
      (hwrites : writes s act = 1) (hcalls : calls s act = 0)
      (hfresh : Fresh s act ↔ v = s.value + 1)
  | set (v : V) (hset : IsSet act) (hstep : step s act = ⟨v, s.debts⟩)
      (hwrites : writes s act = 0) (hcalls : calls s act = 0) (hfresh : Fresh s act ↔ v = s.value)

/-- Every act, by what it does to the counter and to the debts. An act that does not fit the debt of
its thread does nothing. -/
theorem effect (s : State ι V) (act : Act ι V) : Effect s act := by
  cases act with
  | call t =>
    cases ht : s.debts t with
    | clear =>
      refine .call t ht ?_ rfl ?_ trivial
      · simp only [step, ht]
      · simp only [calls, ht]
    | _ =>
      refine .stay ?_ rfl ?_ trivial
      · simp only [step, ht]
      · simp only [calls, ht]
  | read t =>
    cases ht : s.debts t with
    | unread =>
      refine .read t ht ?_ rfl rfl trivial
      simp only [step, ht]
    | _ =>
      refine .stay ?_ rfl rfl trivial
      simp only [step, ht]
  | write t =>
    cases ht : s.debts t with
    | holds v =>
      refine .write t v ht ?_ ?_ rfl ?_
      · simp only [step, ht]
      · simp only [writes, ht]
      · constructor
        · intro hfresh
          exact hfresh v ht
        · rintro rfl w hw
          rw [ht] at hw
          exact (Debt.holds.inj hw).symm
    | _ =>
      refine .stay ?_ ?_ rfl ?_
      · simp only [step, ht]
      · simp only [writes, ht]
      · intro v hv
        rw [ht] at hv
        cases hv
  | set v => exact .set v trivial rfl rfl rfl Iff.rfl
  | skip => exact .stay rfl rfl rfl trivial

/-! ### Calls and writes -/

/-- The threads that have something to do. -/
def Owing (s : State ι V) (owing : Finset ι) : Prop :=
  ∀ t, t ∈ owing ↔ s.debts t ≠ .clear

variable {s : State ι V} {owing : Finset ι}

/-- A call adds a debt, a write pays one. -/
theorem Owing.step (h : Owing s owing) (act : Act ι V) :
    ∃ owing', Owing (step s act) owing' ∧
      owing'.card + writes s act = owing.card + calls s act := by
  cases effect s act with
  | stay hstep hwrites hcalls =>
    refine ⟨owing, ?_, by rw [hwrites, hcalls]⟩
    rw [hstep]
    exact h
  | call t ht hstep hwrites hcalls =>
    -- a call makes a debt, and its write pays it
    refine ⟨Insert.insert t owing, fun j => ?_, ?_⟩
    · rw [hstep, Finset.mem_insert]
      by_cases hj : j = t
      · simp [hj]
      · simp [hj, h j]
    · rw [Finset.card_insert_of_notMem (fun hmem => (h t).mp hmem ht), hwrites, hcalls]
  | read t ht hstep hwrites hcalls =>
    refine ⟨owing, fun j => ?_, by rw [hwrites, hcalls]⟩
    rw [hstep, h j]
    by_cases hj : j = t
    · simp [hj, ht]
    · simp [hj]
  | write t v ht hstep hwrites hcalls =>
    have hmem : t ∈ owing := (h t).mpr (by rw [ht]; exact nofun)
    refine ⟨owing.erase t, fun j => ?_, ?_⟩
    · rw [hstep, Finset.mem_erase]
      by_cases hj : j = t
      · simp [hj]
      · simp [hj, h j]
    · rw [hwrites, hcalls, Finset.card_erase_add_one hmem, Nat.add_zero]
  | set v hset hstep hwrites hcalls =>
    refine ⟨owing, ?_, by rw [hwrites, hcalls]⟩
    rw [hstep]
    exact h

/-- Between states without debts, every call is paid by a write. -/
theorem total_writes {acts : List (Act ι V)} (hstart : ∀ t, s.debts t = .clear)
    (hend : ∀ t, (acts.foldl step s).debts t = .clear) :
    Run.total step writes s acts = Run.total step calls s acts := by
  suffices hrun : ∀ owing : Finset ι, Owing s owing →
      Run.total step writes s acts = owing.card + Run.total step calls s acts by
    have hempty : Owing s ∅ := fun t => by simp [hstart t]
    rw [hrun ∅ hempty, Finset.card_empty, Nat.zero_add]
  clear hstart
  -- along the run the number of threads that owe a write is what is missing
  induction acts generalizing s with
  | nil =>
    intro owing howing
    have hempty : owing = ∅ := by
      rw [Finset.eq_empty_iff_forall_notMem]
      intro t ht
      exact (howing t).mp ht (hend t)
    rw [hempty]
    rfl
  | cons act acts ih =>
    intro owing howing
    obtain ⟨owing', howing', hcard⟩ := howing.step act
    have hrest := ih hend owing' howing'
    rw [Run.total, Run.total]
    omega

/-! ### Fresh writes -/

/-- A fresh step raises the counter by its writes. -/
theorem value_step {act : Act ι V} (hfresh : Fresh s act) :
    (step s act).value = s.value + writes s act := by
  cases effect s act with
  | stay hstep hwrites => rw [hstep, hwrites, Nat.cast_zero, add_zero]
  | call t ht hstep hwrites => rw [hstep, hwrites, Nat.cast_zero, add_zero]
  | read t ht hstep hwrites => rw [hstep, hwrites, Nat.cast_zero, add_zero]
  | write t v ht hstep hwrites _ hiff => rw [hstep, hwrites, Nat.cast_one, hiff.mp hfresh]
  | set v hset hstep hwrites _ hiff =>
    rw [hstep, hwrites, Nat.cast_zero, add_zero, hiff.mp hfresh]

/-- If all writes are fresh, they all count. -/
theorem value_eq_of_fresh {acts : List (Act ι V)} (hfresh : Run.Along step Fresh s acts) :
    (acts.foldl step s).value = s.value + Run.total step writes s acts := by
  induction acts generalizing s with
  | nil => rw [Run.total, Nat.cast_zero, add_zero, List.foldl_nil]
  | cons act acts ih =>
    rw [Run.total, List.foldl_cons, ih hfresh.2, value_step hfresh.1, Nat.cast_add, add_assoc]

/-! ### Writes that are not fresh -/

/-- The values that threads hold are at most `n` above `base`. -/
def Bounded (base : V) (n : ℕ) (s : State ι V) : Prop :=
  ∀ t v, s.debts t = .holds v → ∃ k ≤ n, v = base + (k : ℕ)

/-- The counter has been raised by all of `n` writes. -/
structure OnTime (base : V) (n : ℕ) (s : State ι V) : Prop where
  value : s.value = base + n
  bounded : Bounded base (n + 1) s

/-- The counter has been raised by less, and no thread can make up for it. -/
structure Behind (base : V) (n : ℕ) (s : State ι V) : Prop where
  value : ∃ k < n, s.value = base + (k : ℕ)
  bounded : Bounded base n s

variable {base : V} {n : ℕ}

omit [DecidableEq ι] in
theorem Bounded.mono {m : ℕ} (h : Bounded base n s) (hnm : n ≤ m) : Bounded base m s := by
  intro t v hv
  obtain ⟨k, hk, rfl⟩ := h t v hv
  exact ⟨k, hk.trans hnm, rfl⟩

/-- A thread gets a new debt. -/
theorem Bounded.update (h : Bounded base n s) (t : ι) {d : Debt V}
    (hd : ∀ v, d = .holds v → ∃ k ≤ n, v = base + (k : ℕ)) (value : V) :
    Bounded base n ⟨value, Function.update s.debts t d⟩ :=
  (Function.forall_update_iff s.debts fun _ d => ∀ v, d = .holds v →
    ∃ k ≤ n, v = base + (k : ℕ)).mpr ⟨hd, fun j _ => h j⟩

/-- As long as the counter is less than `n` above `base`, what is read from it is at most `n`
above. -/
theorem Bounded.step (h : Bounded base n s) {k : ℕ} (hvalue : s.value = base + (k : ℕ))
    (hk : k < n) (act : Act ι V) : Bounded base n (step s act) := by
  cases effect s act with
  | stay hstep =>
    rw [hstep]
    exact h
  | call t ht hstep =>
    rw [hstep]
    exact h.update t (d := .unread) nofun _
  | read t ht hstep =>
    rw [hstep]
    -- the thread has read the value, and will write the next
    refine h.update t ?_ _
    rintro v ⟨⟩
    exact ⟨k + 1, hk, by rw [hvalue, Nat.cast_add, Nat.cast_one, add_assoc]⟩
  | write t v ht hstep =>
    rw [hstep]
    exact h.update t (d := .clear) nofun _
  | set v hset hstep =>
    rw [hstep]
    exact h

/-- The first write that is not fresh. -/
theorem OnTime.behind (h : OnTime base n s) {act : Act ι V} (hset : ¬ IsSet act)
    (hstale : ¬ Fresh s act) : Behind base (n + writes s act) (step s act) := by
  have hbounded := h.bounded.step h.value (Nat.lt_succ_self n) act
  cases effect s act with
  | stay hstep hwrites hcalls hfresh => exact absurd hfresh hstale
  | call t ht hstep hwrites hcalls hfresh => exact absurd hfresh hstale
  | read t ht hstep hwrites hcalls hfresh => exact absurd hfresh hstale
  | write t v ht hstep hwrites hcalls hiff =>
    obtain ⟨k, hk, rfl⟩ := h.bounded t v ht
    -- what is written was read before the last write
    have hlt : k ≠ n + 1 := by
      rintro rfl
      apply hstale
      rw [hiff, h.value, Nat.cast_add, Nat.cast_one, add_assoc]
    rw [hwrites]
    refine ⟨⟨k, by omega, ?_⟩, hbounded⟩
    rw [hstep]
  | set v hisSet => exact absurd hisSet hset

/-- A write of a fresh value counts its call. -/
theorem OnTime.next (h : OnTime base n s) {act : Act ι V} (hfresh : Fresh s act) :
    OnTime base (n + writes s act) (step s act) where
  value := by rw [value_step hfresh, h.value, Nat.cast_add, add_assoc]
  bounded := (h.bounded.step h.value (Nat.lt_succ_self n) act).mono (by omega)

/-- A counter that is behind does not catch up: no thread holds more than what the writes so far
allow. -/
theorem Behind.next (h : Behind base n s) {act : Act ι V} (hset : ¬ IsSet act) :
    Behind base (n + writes s act) (step s act) := by
  obtain ⟨k, hk, hvalue⟩ := h.value
  have hbounded := (h.bounded.step hvalue hk act).mono (Nat.le_add_right n (writes s act))
  cases effect s act with
  | stay hstep hwrites => exact ⟨⟨k, by omega, by rw [hstep, hvalue]⟩, hbounded⟩
  | call t ht hstep hwrites => exact ⟨⟨k, by omega, by rw [hstep, hvalue]⟩, hbounded⟩
  | read t ht hstep hwrites => exact ⟨⟨k, by omega, by rw [hstep, hvalue]⟩, hbounded⟩
  | write t v ht hstep hwrites =>
    -- one write more, and no thread holds more than the writes before
    obtain ⟨j, hj, rfl⟩ := h.bounded t v ht
    exact ⟨⟨j, by omega, by rw [hstep]⟩, hbounded⟩
  | set v hisSet => exact absurd hisSet hset

theorem Behind.run (h : Behind base n s) {acts : List (Act ι V)}
    (hset : Run.Along step (fun _ act => ¬ IsSet act) s acts) :
    Behind base (n + Run.total step writes s acts) (acts.foldl step s) := by
  induction acts generalizing s n with
  | nil => exact h
  | cons act acts ih =>
    rw [Run.total, ← Nat.add_assoc]
    exact ih (h.next hset.1) hset.2

/-- A run in which not all writes are fresh ends behind. -/
theorem OnTime.run_behind (h : OnTime base n s) {acts : List (Act ι V)}
    (hset : Run.Along step (fun _ act => ¬ IsSet act) s acts)
    (hstale : ¬ Run.Along step Fresh s acts) :
    Behind base (n + Run.total step writes s acts) (acts.foldl step s) := by
  induction acts generalizing s n with
  | nil => exact absurd trivial hstale
  | cons act acts ih =>
    rw [Run.total, ← Nat.add_assoc]
    -- the run is on time up to the first write that is not fresh, and behind from there on
    by_cases hfresh : Fresh s act
    · exact ih (h.next hfresh) hset.2 fun hrest => hstale ⟨hfresh, hrest⟩
    · exact (h.behind hset.1 hfresh).run hset.2

/-- If nobody sets the counter, all writes count if and only if all are fresh. -/
theorem value_eq_iff_fresh [CharZero V] {acts : List (Act ι V)}
    (hset : Run.Along step (fun _ act => ¬ IsSet act) s acts)
    (hstart : ∀ t, s.debts t = .clear) :
    (acts.foldl step s).value = s.value + Run.total step writes s acts ↔
      Run.Along step Fresh s acts := by
  refine ⟨fun hvalue => ?_, value_eq_of_fresh⟩
  by_contra hstale
  have hontime : OnTime s.value 0 s := by
    refine ⟨by rw [Nat.cast_zero, add_zero], fun t v hv => ?_⟩
    rw [hstart t] at hv
    cases hv
  obtain ⟨k, hk, hbehind⟩ := (hontime.run_behind hset hstale).value
  rw [hbehind] at hvalue
  have hcast := Nat.cast_injective (R := V) (add_left_cancel hvalue)
  omega

end RacyCounter
