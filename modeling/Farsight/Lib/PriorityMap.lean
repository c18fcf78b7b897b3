import Mathlib.Data.Prod.Lex
import Mathlib.Logic.Function.Basic
import Mathlib.Tactic.Common

/-!
# Priority maps

A priority map binds keys to values and can be asked for the key that is bound to the greatest
value; among equal values the greater key counts. Its state is the history of its changes, newest
first. What a key is bound to is the last value it was given, unless it was removed since.

* `PriorityMap.bound` — the binding of a key;
* `PriorityMap.IsTop` — the key with the greatest value;
* `PriorityMap.Step`, `PriorityMap.Run` — what calls may answer, and the changes they make;
* `PriorityMap.Run.answers_unique` — the answers of a run are determined by its calls.
-/

namespace PriorityMap

variable {K V : Type}

/-- A change of the bindings. -/
inductive Change (K V : Type) where
  | given (key : K) (value : V)
  | removed (key : K)
  | cleared
  deriving DecidableEq, Repr

/-- What can be called. -/
inductive Call (K V : Type) where
  | update (key : K) (value : V)
  | pop
  | top
  | query (key : K)
  | clear
  deriving DecidableEq, Repr

/-- What a call returns. -/
inductive Answer (K V : Type) where
  | unit
  | key (key : Option K)
  | value (value : Option V)
  deriving DecidableEq, Repr

section Bound

variable [DecidableEq K]

/-- The last value that the key was given since it was last removed. -/
def bound : List (Change K V) → K → Option V
  | [], _ => none
  | .given other value :: changes, key => if key = other then some value else bound changes key
  | .removed other :: changes, key => if key = other then none else bound changes key
  | .cleared :: _, _ => none

theorem bound_given (changes : List (Change K V)) (key : K) (value : V) :
    bound (.given key value :: changes) = Function.update (bound changes) key (some value) := by
  funext other
  rw [bound, Function.update_apply]

theorem bound_removed (changes : List (Change K V)) (key : K) :
    bound (.removed key :: changes) = Function.update (bound changes) key none := by
  funext other
  rw [bound, Function.update_apply]

end Bound

variable [LinearOrder K] [LinearOrder V]

/-- The key is bound, and no binding is greater. -/
def IsTop (bindings : K → Option V) (key : K) : Prop :=
  ∃ value, bindings key = some value ∧
    ∀ key' value', bindings key' = some value' → toLex (value', key') ≤ toLex (value, key)

theorem IsTop.unique {bindings : K → Option V} {key key' : K} (h : IsTop bindings key)
    (h' : IsTop bindings key') : key = key' := by
  obtain ⟨value, hvalue, hle⟩ := h
  obtain ⟨value', hvalue', hle'⟩ := h'
  have heq : toLex (value, key) = toLex (value', key') :=
    le_antisymm (hle' key value hvalue) (hle key' value' hvalue')
  exact congrArg (fun x => (ofLex x).2) heq

/-- A call with its answer, and the changes before and after. -/
inductive Step (changes : List (Change K V)) :
    Call K V → Answer K V → List (Change K V) → Prop
  | update (key : K) (value : V) :
      Step changes (.update key value) .unit (.given key value :: changes)
  | pop {key : K} (htop : IsTop (bound changes) key) :
      Step changes .pop .unit (.removed key :: changes)
  | popEmpty (hempty : ∀ key, bound changes key = none) : Step changes .pop .unit changes
  | top {key : K} (htop : IsTop (bound changes) key) :
      Step changes .top (.key (some key)) changes
  | topEmpty (hempty : ∀ key, bound changes key = none) : Step changes .top (.key none) changes
  | query (key : K) : Step changes (.query key) (.value (bound changes key)) changes
  | clear : Step changes .clear .unit (.cleared :: changes)

/-- A run of calls with their answers. -/
inductive Run : List (Change K V) → List (Call K V) → List (Answer K V) → List (Change K V) → Prop
  | nil (changes : List (Change K V)) : Run changes [] [] changes
  | cons {changes changes' changes'' : List (Change K V)} {call : Call K V} {answer : Answer K V}
      {calls : List (Call K V)} {answers : List (Answer K V)}
      (hstep : Step changes call answer changes') (hrun : Run changes' calls answers changes'') :
      Run changes (call :: calls) (answer :: answers) changes''

theorem IsTop.ne_none {bindings : K → Option V} {key : K} (h : IsTop bindings key)
    (hempty : ∀ key, bindings key = none) : False := by
  obtain ⟨value, hvalue, -⟩ := h
  rw [hempty] at hvalue
  contradiction

/-- A call determines its answer and its changes. -/
theorem Step.unique {changes changes' changes'' : List (Change K V)} {call : Call K V}
    {answer answer' : Answer K V} (h : Step changes call answer changes')
    (h' : Step changes call answer' changes'') : answer = answer' ∧ changes' = changes'' := by
  cases h with
  | update | query | clear =>
    cases h'
    exact ⟨rfl, rfl⟩
  -- the greatest pair is unique, and there is one unless the map is empty
  | pop htop =>
    cases h' with
    | pop htop' =>
      rw [htop.unique htop']
      exact ⟨rfl, rfl⟩
    | popEmpty hempty => exact (htop.ne_none hempty).elim
  | popEmpty hempty =>
    cases h' with
    | pop htop => exact (htop.ne_none hempty).elim
    | popEmpty => exact ⟨rfl, rfl⟩
  | top htop =>
    cases h' with
    | top htop' =>
      rw [htop.unique htop']
      exact ⟨rfl, rfl⟩
    | topEmpty hempty => exact (htop.ne_none hempty).elim
  | topEmpty hempty =>
    cases h' with
    | top htop => exact (htop.ne_none hempty).elim
    | topEmpty => exact ⟨rfl, rfl⟩

/-- So do the calls of a run. -/
theorem Run.answers_unique {changes changes' changes'' : List (Change K V)}
    {calls : List (Call K V)} {answers answers' : List (Answer K V)}
    (h : Run changes calls answers changes') (h' : Run changes calls answers' changes'') :
    answers = answers' := by
  induction h generalizing answers' changes'' with
  | nil =>
    cases h'
    rfl
  | cons hstep hrun ih =>
    cases h' with
    | cons hstep' hrun' =>
      obtain ⟨rfl, rfl⟩ := hstep.unique hstep'
      rw [ih hrun']

end PriorityMap
