import Mathlib.Tactic.Common

/-!
# Runs

A deterministic system takes a list of inputs, one step for each.

* `Run.Along` — every step of a run meets a condition on the state before it and the input;
* `Run.Along.rule` — the induction rule: a property of the past and the state that every such step
  preserves holds after the run;
* `Run.Along.invariant` — the same for a property of the state alone;
* `Run.Along.imp`, `Run.Along.imp_preserving` — conditions that follow from each other under an
  invariant;
* `Run.along_of_preserving` — conditions that an invariant of the inputs at hand implies;
* `Run.total` — what the steps of a run add up to;
* `Run.simulates` — a relation with the states of another system, which follows each step by some
  steps of its own, or by none;
* `Run.Simulation` — a view of the states under which each step is a step of another system.
-/

namespace Run

variable {σ ι : Type*} {step : σ → ι → σ} {P : σ → ι → Prop}

/-- Every step of the run meets `P`. -/
def Along (step : σ → ι → σ) (P : σ → ι → Prop) : σ → List ι → Prop
  | _, [] => True
  | s, i :: is => P s i ∧ Along step P (step s i) is

theorem along_append {is js : List ι} {s : σ} :
    Along step P s (is ++ js) ↔ Along step P s is ∧ Along step P (is.foldl step s) js := by
  induction is generalizing s with
  | nil => exact ⟨fun h => ⟨trivial, h⟩, fun h => h.2⟩
  | cons i is ih =>
    rw [List.cons_append, Along, Along, ih, List.foldl_cons, and_assoc]

theorem along_congr {Q : σ → ι → Prop} (h : ∀ s i, P s i ↔ Q s i) {s : σ} {is : List ι} :
    Along step P s is ↔ Along step Q s is := by
  have hPQ : P = Q := by
    funext s i
    exact propext (h s i)
  rw [hPQ]

/-- What holds of the past and the state, and is preserved by every step that meets `P`, holds after
a run of such steps. -/
theorem Along.rule {I : List ι → σ → Prop}
    (hstep : ∀ past s i, P s i → I past s → I (past ++ [i]) (step s i)) {past is : List ι} {s : σ}
    (h : Along step P s is) (hI : I past s) : I (past ++ is) (is.foldl step s) := by
  -- the past grows by the input that is taken
  induction is generalizing past s with
  | nil =>
    rw [List.append_nil]
    exact hI
  | cons i is ih =>
    have hrest := ih h.2 (hstep past s i h.1 hI)
    rwa [List.append_assoc, List.singleton_append] at hrest

/-- The same of the state alone. -/
theorem Along.invariant {I : σ → Prop} (hstep : ∀ s i, P s i → I s → I (step s i)) {is : List ι}
    {s : σ} (h : Along step P s is) (hI : I s) : I (is.foldl step s) := by
  induction is generalizing s with
  | nil => exact hI
  | cons i is ih => exact ih h.2 (hstep s i h.1 hI)

/-- A condition that follows from another in the states of an invariant, which the steps that meet
it preserve. -/
theorem Along.imp_preserving {I : σ → Prop} {Q : σ → ι → Prop}
    (hstep : ∀ s i, I s → P s i → Q s i ∧ I (step s i)) {is : List ι} {s : σ} (hI : I s)
    (h : Along step P s is) : Along step Q s is := by
  induction is generalizing s with
  | nil => trivial
  | cons i is ih =>
    obtain ⟨hQ, hI'⟩ := hstep s i hI h.1
    exact ⟨hQ, ih hI' h.2⟩

/-- In particular if all steps preserve the invariant. -/
theorem Along.imp {I : σ → Prop} {Q : σ → ι → Prop} (hstep : ∀ s i, I s → I (step s i))
    (hPQ : ∀ s i, I s → P s i → Q s i) {is : List ι} {s : σ} (hI : I s)
    (h : Along step P s is) : Along step Q s is :=
  h.imp_preserving (fun s i hI hP => ⟨hPQ s i hI hP, hstep s i hI⟩) hI

/-- A condition that holds in the states of an invariant, for inputs that preserve it. -/
theorem along_of_preserving {I : σ → Prop} {is : List ι}
    (hstep : ∀ i ∈ is, ∀ s, I s → P s i ∧ I (step s i)) {s : σ} (hI : I s) : Along step P s is := by
  induction is generalizing s with
  | nil => trivial
  | cons i is ih =>
    obtain ⟨hP, hI'⟩ := hstep i List.mem_cons_self s hI
    exact ⟨hP, ih (fun j hj => hstep j (List.mem_cons_of_mem _ hj)) hI'⟩

theorem Along.and {Q : σ → ι → Prop} {is : List ι} {s : σ} (hP : Along step P s is)
    (hQ : Along step Q s is) : Along step (fun s i => P s i ∧ Q s i) s is := by
  induction is generalizing s with
  | nil => trivial
  | cons i is ih => exact ⟨⟨hP.1, hQ.1⟩, ih hP.2 hQ.2⟩

/-- A condition on the inputs alone joins any other. -/
theorem Along.and_forall {Q : ι → Prop} {is : List ι} {s : σ} (h : Along step P s is)
    (hQ : ∀ i ∈ is, Q i) : Along step (fun s i => P s i ∧ Q i) s is := by
  induction is generalizing s with
  | nil => trivial
  | cons i is ih =>
    exact ⟨⟨h.1, hQ i List.mem_cons_self⟩, ih h.2 fun j hj => hQ j (List.mem_cons_of_mem _ hj)⟩

/-- The sum of the weights of the steps. -/
def total (step : σ → ι → σ) (weight : σ → ι → ℕ) : σ → List ι → ℕ
  | _, [] => 0
  | s, i :: is => weight s i + total step weight (step s i) is

theorem total_concat {weight : σ → ι → ℕ} (s : σ) (is : List ι) (i : ι) :
    total step weight s (is ++ [i]) = total step weight s is + weight (is.foldl step s) i := by
  induction is generalizing s with
  | nil => exact Nat.add_comm _ _
  | cons j is ih => rw [List.cons_append, total, total, ih, List.foldl_cons, Nat.add_assoc]

/-! ### Simulation -/

variable {τ κ : Type*} {step' : τ → κ → τ} {C : σ → ι → Prop}

/-- If the other system can follow each step, it can follow each run. -/
theorem simulates {R : σ → τ → Prop}
    (hstep : ∀ s t i, R s t → ∃ ks : List κ, R (step s i) (ks.foldl step' t)) (is : List ι) {s : σ}
    {t : τ} (h : R s t) : ∃ ks : List κ, R (is.foldl step s) (ks.foldl step' t) := by
  induction is generalizing s t with
  | nil => exact ⟨[], h⟩
  | cons i is ih =>
    obtain ⟨ks, hks⟩ := hstep s t i h
    obtain ⟨ls, hls⟩ := ih hks
    refine ⟨ks ++ ls, ?_⟩
    rw [List.foldl_append]
    exact hls

/-- In the states of an invariant, each step that meets `C` is a step of the other system on the
views. -/
structure Simulation (step : σ → ι → σ) (step' : τ → κ → τ) (C : σ → ι → Prop) where
  view : σ → τ
  label : σ → ι → κ
  Inv : σ → Prop
  inv_step : ∀ s i, Inv s → C s i → Inv (step s i)
  view_step : ∀ s i, Inv s → C s i → view (step s i) = step' (view s) (label s i)

namespace Simulation

variable (sim : Simulation step step' C)

/-- The inputs of the other system. -/
def labels : σ → List ι → List κ
  | _, [] => []
  | s, i :: is => sim.label s i :: labels (step s i) is

variable {is : List ι} {s : σ}

/-- The image of a run is a run of the abstract system, to the image of its end. -/
theorem foldl_labels (hI : sim.Inv s) (hC : Along step C s is) :
    (sim.labels s is).foldl step' (sim.view s) = sim.view (is.foldl step s) := by
  induction is generalizing s with
  | nil => rfl
  | cons i is ih =>
    rw [labels, List.foldl_cons, ← sim.view_step s i hI hC.1]
    exact ih (sim.inv_step s i hI hC.1) hC.2

/-- A condition on the abstract run is the same condition on the images of the states of the
concrete one. -/
theorem along_labels {Q : τ → κ → Prop} (hI : sim.Inv s) (hC : Along step C s is) :
    Along step' Q (sim.view s) (sim.labels s is) ↔
      Along step (fun s i => Q (sim.view s) (sim.label s i)) s is := by
  induction is generalizing s with
  | nil => exact Iff.rfl
  | cons i is ih =>
    rw [labels, Along, Along, ← sim.view_step s i hI hC.1, ih (sim.inv_step s i hI hC.1) hC.2]

theorem total_labels {weight : τ → κ → ℕ} (hI : sim.Inv s) (hC : Along step C s is) :
    total step' weight (sim.view s) (sim.labels s is) =
      total step (fun s i => weight (sim.view s) (sim.label s i)) s is := by
  induction is generalizing s with
  | nil => rfl
  | cons i is ih =>
    rw [labels, total, total, ← sim.view_step s i hI hC.1, ih (sim.inv_step s i hI hC.1) hC.2]

end Simulation

end Run
