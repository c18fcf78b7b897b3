import Farsight.Lib.LockOrder
import Farsight.Strategy.IpAdapter

/-!
# The locks of the target selection

The methods of `PmapIpAdapter` share two sharded maps, `actives` and the `values` of the heap, and
the mutexes `current` and `stale` of the heap. They hold some of these locks across calls: an entry
of `actives` while the heap is popped, `current` while the value of the popped key is removed, a
value while its old score is pushed on `stale`.

`IpPoint` is where a thread stands in one of the methods, with one point before each step that takes
or gives back a lock. Any number of threads call any of the methods at any time.

* `IpPoint.next`, `PmapIpAdapter.execPoint` — what a step does with the locks, and with the data;
* `IpPoint.scope` — the guards that live at a point, innermost first;
* `IpLock.rank` — the order in which the locks are taken: `actives`, `current`, `values`, `stale`;
* `PmapIpAdapter.no_deadlock` — no thread waits for itself, and never do all unfinished threads wait
  for each other.

The machine of `Farsight.Strategy.IpAdapter` has the same methods without the locks;
`Farsight.Strategy.IpRefinement` leads from the one to the other.
-/

namespace Farsight

open LockOrder MaxHeap

/-- A lock of the adapter: a shard of a map, or a mutex of the heap. -/
inductive IpLock where
  | actives (shard : ℕ)
  | current
  | values (shard : ℕ)
  | stale
  deriving DecidableEq, Repr

/-- The order in which locks are taken. -/
def IpLock.rank : IpLock → ℕ
  | .actives _ => 0
  | .current => 1
  | .values _ => 2
  | .stale => 3

/-- The shards of the two maps that prefixes hash to. -/
structure IpShards where
  actives : BitVec 32 → ℕ
  values : BitVec 32 → ℕ

/-- Who asks for a score: `next`, to add a prefix that has none, or `on_result`, to raise it. -/
inductive ScoreUse where
  | add
  | raise
  deriving DecidableEq, Repr

/-- Where a thread stands. The points are named by their next step. -/
inductive IpPoint where
  /-- Outside the methods. -/
  | idle
  /-- `index` panicked. -/
  | panicked
  -- `try_pick`: `heap.top()`
  | topLockCurrent
  | topLockStale
  | topClean
  | topPeek
  -- `try_pick`: the entry of the prefix
  | entryLock (prefixId : BitVec 32)
  | entryPick (prefixId : BitVec 32)
  -- `try_pick`: `heap.pop()`, then to return `result` or loop
  | popLockCurrent (prefixId : BitVec 32) (result : Option Ipv4Addr)
  | popLockStale (prefixId : BitVec 32) (result : Option Ipv4Addr)
  | popClean (prefixId : BitVec 32) (result : Option Ipv4Addr)
  | popTake (prefixId : BitVec 32) (result : Option Ipv4Addr)
  | popLockValues (prefixId : BitVec 32) (result : Option Ipv4Addr) (key : BitVec 32)
  | popRemove (prefixId : BitVec 32) (result : Option Ipv4Addr) (key : BitVec 32)
  | popUnlockCurrent (prefixId : BitVec 32) (result : Option Ipv4Addr)
  | entryUnlock (prefixId : BitVec 32) (result : Option Ipv4Addr)
  -- `next`
  | nextIndex
  | nextLock (addr : Ipv4Addr)
  | nextMark (addr : Ipv4Addr)
  -- `on_result`: whether the prefix has room
  | roomLock (prefixId : BitVec 32)
  | roomRead (prefixId : BitVec 32)
  -- `heap.query(prefix_id)`
  | queryLock (prefixId : BitVec 32) (use : ScoreUse)
  | queryRead (prefixId : BitVec 32) (use : ScoreUse)
  -- `heap.update(prefix_id, value)`
  | updateLockGet (prefixId : BitVec 32) (value : ℚ)
  | updateGet (prefixId : BitVec 32) (value : ℚ)
  | updateLockStale (prefixId : BitVec 32) (value old : ℚ)
  | updateStale (prefixId : BitVec 32) (value old : ℚ)
  | updateUnlockGet (prefixId : BitVec 32) (value : ℚ)
  | updateLockInsert (prefixId : BitVec 32) (value : ℚ)
  | updateInsert (prefixId : BitVec 32) (value : ℚ)
  | updateLockPush (prefixId : BitVec 32) (value : ℚ)
  | updatePush (prefixId : BitVec 32) (value : ℚ)

/-- A thread, with the `index` that it passes to `next`. -/
structure IpThread where
  point : IpPoint
  index : ℕ

/-- The methods, as they are called. -/
inductive IpCall where
  | tryPick
  | next
  | onResult (addr : Ipv4Addr)

/-- What a step is given: the method that an idle thread calls, and the draws of the generator. -/
structure IpInput where
  call : IpCall
  draw : ℕ → BitVec 8

/-- The data behind the locks. -/
structure IpData where
  heap : ConcurrentLazyHeap (BitVec 32) ℚ
  actives : BitVec 32 → Option PrefixState

namespace IpPoint

/-- What the next step does with the locks. -/
def next (shards : IpShards) : IpPoint → Action IpLock
  | .idle => .other
  | .panicked => .other
  -- `top` of the heap
  | .topLockCurrent => .acquire ⟨.current, .exclusive⟩
  | .topLockStale => .acquire ⟨.stale, .exclusive⟩
  | .topClean => .release .stale
  | .topPeek => .release .current
  -- the entry of the chosen prefix, held over the `pop` below
  | .entryLock prefixId => .acquire ⟨.actives (shards.actives prefixId), .exclusive⟩
  | .entryPick _ => .other
  | .popLockCurrent _ _ => .acquire ⟨.current, .exclusive⟩
  | .popLockStale _ _ => .acquire ⟨.stale, .exclusive⟩
  | .popClean _ _ => .release .stale
  | .popTake _ _ => .other
  | .popLockValues _ _ key => .acquire ⟨.values (shards.values key), .exclusive⟩
  | .popRemove _ _ key => .release (.values (shards.values key))
  | .popUnlockCurrent _ _ => .release .current
  | .entryUnlock prefixId _ => .release (.actives (shards.actives prefixId))
  -- the sweep
  | .nextIndex => .other
  | .nextLock addr => .acquire ⟨.actives (shards.actives (prefixId addr)), .exclusive⟩
  | .nextMark addr => .release (.actives (shards.actives (prefixId addr)))
  -- `on_result`
  | .roomLock prefixId => .acquire ⟨.actives (shards.actives prefixId), .shared⟩
  | .roomRead prefixId => .release (.actives (shards.actives prefixId))
  | .queryLock prefixId _ => .acquire ⟨.values (shards.values prefixId), .shared⟩
  | .queryRead prefixId _ => .release (.values (shards.values prefixId))
  -- `update` of the heap: the guard of the read lives until `stale` is written
  | .updateLockGet prefixId _ => .acquire ⟨.values (shards.values prefixId), .shared⟩
  | .updateGet _ _ => .other
  | .updateLockStale _ _ _ => .acquire ⟨.stale, .exclusive⟩
  | .updateStale _ _ _ => .release .stale
  | .updateUnlockGet prefixId _ => .release (.values (shards.values prefixId))
  | .updateLockInsert prefixId _ => .acquire ⟨.values (shards.values prefixId), .exclusive⟩
  | .updateInsert prefixId _ => .release (.values (shards.values prefixId))
  | .updateLockPush _ _ => .acquire ⟨.current, .exclusive⟩
  | .updatePush _ _ => .release .current

/-- The guards that live at a point, innermost first. -/
def scope (shards : IpShards) : IpPoint → List (Guard IpLock)
  | .topLockStale => [⟨.current, .exclusive⟩]
  | .topClean => [⟨.stale, .exclusive⟩, ⟨.current, .exclusive⟩]
  | .topPeek => [⟨.current, .exclusive⟩]
  | .entryPick prefixId => [⟨.actives (shards.actives prefixId), .exclusive⟩]
  | .popLockCurrent prefixId _ => [⟨.actives (shards.actives prefixId), .exclusive⟩]
  | .popLockStale prefixId _ =>
    [⟨.current, .exclusive⟩, ⟨.actives (shards.actives prefixId), .exclusive⟩]
  | .popClean prefixId _ =>
    [⟨.stale, .exclusive⟩, ⟨.current, .exclusive⟩,
      ⟨.actives (shards.actives prefixId), .exclusive⟩]
  | .popTake prefixId _ =>
    [⟨.current, .exclusive⟩, ⟨.actives (shards.actives prefixId), .exclusive⟩]
  | .popLockValues prefixId _ _ =>
    [⟨.current, .exclusive⟩, ⟨.actives (shards.actives prefixId), .exclusive⟩]
  -- three guards at once: a value, the heap and the entry
  | .popRemove prefixId _ key =>
    [⟨.values (shards.values key), .exclusive⟩, ⟨.current, .exclusive⟩,
      ⟨.actives (shards.actives prefixId), .exclusive⟩]
  | .popUnlockCurrent prefixId _ =>
    [⟨.current, .exclusive⟩, ⟨.actives (shards.actives prefixId), .exclusive⟩]
  | .entryUnlock prefixId _ => [⟨.actives (shards.actives prefixId), .exclusive⟩]
  | .nextMark addr => [⟨.actives (shards.actives (prefixId addr)), .exclusive⟩]
  | .roomRead prefixId => [⟨.actives (shards.actives prefixId), .shared⟩]
  | .queryRead prefixId _ => [⟨.values (shards.values prefixId), .shared⟩]
  | .updateGet prefixId _ => [⟨.values (shards.values prefixId), .shared⟩]
  | .updateLockStale prefixId _ _ => [⟨.values (shards.values prefixId), .shared⟩]
  | .updateStale prefixId _ _ =>
    [⟨.stale, .exclusive⟩, ⟨.values (shards.values prefixId), .shared⟩]
  | .updateUnlockGet prefixId _ => [⟨.values (shards.values prefixId), .shared⟩]
  | .updateInsert prefixId _ => [⟨.values (shards.values prefixId), .exclusive⟩]
  | .updatePush _ _ => [⟨.current, .exclusive⟩]
  | _ => []

end IpPoint

namespace PmapIpAdapter

variable {scope : Scope}

/-- What `try_pick` does with the entry of the prefix, and where it goes on. -/
def pickLocked (draw : ℕ → BitVec 8) (prefixId : BitVec 32) (state : PrefixState) :
    IpPoint × PrefixState :=
  if state.remaining = 0 then (.popLockCurrent prefixId none, state)
  else
    match state.fetchUnscanned draw with
    | some offset =>
      let state := (state.markScanned offset).2
      let addr := joinAddr prefixId offset
      if state.remaining = 0 then (.popLockCurrent prefixId (some addr), state)
      else (.entryUnlock prefixId (some addr), state)
    | none => (.popLockCurrent prefixId none, state)

/-- Where `next` and `on_result` go on when they know the current score. -/
def scoreLocked (self : PmapIpAdapter scope) (prefixId : BitVec 32) (use : ScoreUse)
    (current : Option ℚ) : IpPoint :=
  let score : ℚ := (self.graph.historicalScore prefixId).toNat
  match use with
  | .add => if current.isNone then .updateLockGet prefixId score else .idle
  | .raise => .updateLockGet prefixId (current.getD score + 1)

/-- What a step does with the data, and the point after it. -/
def execPoint (self : PmapIpAdapter scope) (input : IpInput) (index : ℕ) (d : IpData) :
    IpPoint → IpThread × IpData
  | .idle =>
    match input.call with
    | .tryPick => (⟨.topLockCurrent, index⟩, d)
    | .next => (⟨.nextIndex, index⟩, d)
    | .onResult addr => (⟨.roomLock (prefixId addr), index⟩, d)
  | .panicked => (⟨.panicked, index⟩, d)
  | .topLockCurrent => (⟨.topLockStale, index⟩, d)
  | .topLockStale => (⟨.topClean, index⟩, d)
  | .topClean => (⟨.topPeek, index⟩, { d with heap := d.heap.cleaned })
  | .topPeek =>
    match peek d.heap.current with
    | some x => (⟨.entryLock (ofLex x).2, index⟩, d)
    | none => (⟨.idle, index⟩, d)
  | .entryLock prefixId => (⟨.entryPick prefixId, index⟩, d)
  | .entryPick prefixId =>
    let (point, state) :=
      pickLocked input.draw prefixId ((d.actives prefixId).getD PrefixState.new)
    (⟨point, index⟩, { d with actives := Function.update d.actives prefixId (some state) })
  | .popLockCurrent prefixId result => (⟨.popLockStale prefixId result, index⟩, d)
  | .popLockStale prefixId result => (⟨.popClean prefixId result, index⟩, d)
  | .popClean prefixId result =>
    (⟨.popTake prefixId result, index⟩, { d with heap := d.heap.cleaned })
  | .popTake prefixId result =>
    match peek d.heap.current with
    | some x =>
      (⟨.popLockValues prefixId result (ofLex x).2, index⟩,
        { d with heap := { d.heap with current := MaxHeap.pop d.heap.current } })
    | none => (⟨.popUnlockCurrent prefixId result, index⟩, d)
  | .popLockValues prefixId result key => (⟨.popRemove prefixId result key, index⟩, d)
  | .popRemove prefixId result key =>
    (⟨.popUnlockCurrent prefixId result, index⟩,
      { d with heap := { d.heap with values := Function.update d.heap.values key none } })
  | .popUnlockCurrent prefixId result => (⟨.entryUnlock prefixId result, index⟩, d)
  | .entryUnlock _ result =>
    -- `continue`, unless there is an address to return
    (⟨if result.isSome then .idle else .topLockCurrent, index⟩, d)
  | .nextIndex =>
    if h : index < scope.ranges.count then
      match scope.ranges.index (self.rng ⟨index, h⟩) with
      | .error _ => (⟨.panicked, index + 1⟩, d)
      | .ok addr => (⟨.nextLock addr, index + 1⟩, d)
    else (⟨.idle, index⟩, d)
  | .nextLock addr => (⟨.nextMark addr, index⟩, d)
  | .nextMark addr =>
    let (before, state) :=
      ((d.actives (prefixId addr)).getD PrefixState.new).markScanned (offset addr)
    let d := { d with actives := Function.update d.actives (prefixId addr) (some state) }
    -- `continue`: the address was returned before
    if before then (⟨.nextIndex, index⟩, d)
    else if state.remaining > 0 then (⟨.queryLock (prefixId addr) .add, index⟩, d)
    else (⟨.idle, index⟩, d)
  | .roomLock prefixId => (⟨.roomRead prefixId, index⟩, d)
  | .roomRead prefixId =>
    let hasRoom := ((d.actives prefixId).map fun state => decide (state.remaining > 0)).getD true
    (⟨if hasRoom then .queryLock prefixId .raise else .idle, index⟩, d)
  | .queryLock prefixId use => (⟨.queryRead prefixId use, index⟩, d)
  | .queryRead prefixId use =>
    (⟨self.scoreLocked prefixId use (d.heap.query prefixId), index⟩, d)
  | .updateLockGet prefixId value => (⟨.updateGet prefixId value, index⟩, d)
  | .updateGet prefixId value =>
    match d.heap.values prefixId with
    | some old => (⟨.updateLockStale prefixId value old, index⟩, d)
    | none => (⟨.updateUnlockGet prefixId value, index⟩, d)
  | .updateLockStale prefixId value old => (⟨.updateStale prefixId value old, index⟩, d)
  | .updateStale prefixId value old =>
    (⟨.updateUnlockGet prefixId value, index⟩,
      { d with heap := { d.heap with stale := push d.heap.stale (toLex (old, prefixId)) } })
  | .updateUnlockGet prefixId value => (⟨.updateLockInsert prefixId value, index⟩, d)
  | .updateLockInsert prefixId value => (⟨.updateInsert prefixId value, index⟩, d)
  | .updateInsert prefixId value =>
    (⟨.updateLockPush prefixId value, index⟩,
      { d with
        heap := { d.heap with values := Function.update d.heap.values prefixId (some value) } })
  | .updateLockPush prefixId value => (⟨.updatePush prefixId value, index⟩, d)
  | .updatePush prefixId value =>
    (⟨.idle, index⟩,
      { d with heap := { d.heap with current := push d.heap.current (toLex (value, prefixId)) } })

/-- The methods of the adapter, lock by lock. -/
def locked (self : PmapIpAdapter scope) (shards : IpShards) :
    Program IpThread IpData IpInput IpLock where
  next := fun thread => thread.point.next shards
  exec := fun input thread d => self.execPoint input thread.index d thread.point

/-- No thread has called anything yet. -/
def initialLocked (n : ℕ) : LockOrder.State (Fin n) IpThread IpData IpLock where
  data := ⟨.empty, fun _ => none⟩
  threads := fun _ => ⟨⟨.idle, 0⟩, []⟩

/-- A thread is inside a method. -/
def Unfinished (thread : IpThread) : Prop :=
  thread.point ≠ .idle ∧ thread.point ≠ .panicked

/-! ### Guards follow the scopes -/

section Scopes

variable (self : PmapIpAdapter scope) (shards : IpShards) {input : IpInput} {index : ℕ}
  {d : IpData} {point : IpPoint}

/-- A step that takes a lock only takes the lock. -/
theorem scope_of_acquire {guard : Guard IpLock} (h : point.next shards = .acquire guard) :
    (self.execPoint input index d point).1.point.scope shards = guard :: point.scope shards := by
  cases point
  case topLockCurrent => cases h; rfl
  case topLockStale => cases h; rfl
  case entryLock prefixId => cases h; rfl
  case popLockCurrent prefixId result => cases h; rfl
  case popLockStale prefixId result => cases h; rfl
  case popLockValues prefixId result key => cases h; rfl
  case nextLock addr => cases h; rfl
  case roomLock prefixId => cases h; rfl
  case queryLock prefixId use => cases h; rfl
  case updateLockGet prefixId value => cases h; rfl
  case updateLockStale prefixId value old => cases h; rfl
  case updateLockInsert prefixId value => cases h; rfl
  case updateLockPush prefixId value => cases h; rfl
  -- no other point is before an acquisition
  all_goals cases h

/-- A step that gives back a lock gives back the innermost one, wherever it goes on. -/
theorem scope_of_release {lock : IpLock} (h : point.next shards = .release lock) :
    ∃ mode, point.scope shards =
      ⟨lock, mode⟩ :: (self.execPoint input index d point).1.point.scope shards := by
  cases point
  case topClean => cases h; exact ⟨_, rfl⟩
  case topPeek =>
    cases h
    refine ⟨.exclusive, ?_⟩
    rw [execPoint]
    split <;> rfl
  case popClean prefixId result => cases h; exact ⟨_, rfl⟩
  case popRemove prefixId result key => cases h; exact ⟨_, rfl⟩
  case popUnlockCurrent prefixId result => cases h; exact ⟨_, rfl⟩
  -- the guard of the entry lives to the end of the turn, over the `pop` within it
  case entryUnlock prefixId result => cases h; cases result <;> exact ⟨_, rfl⟩
  case nextMark addr =>
    cases h
    refine ⟨.exclusive, ?_⟩
    rw [execPoint]
    dsimp only
    split
    · rfl
    · split <;> rfl
  case roomRead prefixId =>
    cases h
    refine ⟨.shared, ?_⟩
    rw [execPoint]
    dsimp only
    split <;> rfl
  case queryRead prefixId use =>
    cases h
    refine ⟨.shared, ?_⟩
    rw [execPoint]
    cases use with
    | add => cases d.heap.query prefixId <;> rfl
    | raise => rfl
  case updateStale prefixId value old => cases h; exact ⟨_, rfl⟩
  case updateUnlockGet prefixId value => cases h; exact ⟨_, rfl⟩
  case updateInsert prefixId value => cases h; exact ⟨_, rfl⟩
  case updatePush prefixId value => cases h; exact ⟨_, rfl⟩
  all_goals cases h

/-- The entry is held until the address is returned and while the heap is popped. -/
theorem scope_pickLocked (draw : ℕ → BitVec 8) (prefixId : BitVec 32) (state : PrefixState) :
    (pickLocked draw prefixId state).1.scope shards =
      [⟨.actives (shards.actives prefixId), .exclusive⟩] := by
  unfold pickLocked
  split
  · rfl
  · cases state.fetchUnscanned draw with
    | none => rfl
    | some offset =>
      dsimp only
      split <;> rfl

/-- Every other step keeps its guards. -/
theorem scope_of_other (h : point.next shards = .other) :
    (self.execPoint input index d point).1.point.scope shards = point.scope shards := by
  cases point
  case idle =>
    rw [execPoint]
    split <;> rfl
  case panicked => rfl
  case entryPick prefixId =>
    exact scope_pickLocked shards input.draw prefixId _
  case popTake prefixId result =>
    rw [execPoint]
    split <;> rfl
  case nextIndex =>
    rw [execPoint]
    split
    · split <;> rfl
    · rfl
  case updateGet prefixId value =>
    rw [execPoint]
    split <;> rfl
  all_goals cases h

/-- A lock that is taken ranks above all that are held. -/
theorem rank_lt_of_acquire {guard : Guard IpLock} (h : point.next shards = .acquire guard) :
    ∀ held ∈ point.scope shards, held.lock.rank < guard.lock.rank := by
  cases point
  case topLockStale => cases h; simp [IpPoint.scope, IpLock.rank]
  case popLockCurrent prefixId result => cases h; simp [IpPoint.scope, IpLock.rank]
  case popLockStale prefixId result => cases h; simp [IpPoint.scope, IpLock.rank]
  case popLockValues prefixId result key => cases h; simp [IpPoint.scope, IpLock.rank]
  case updateLockStale prefixId value old => cases h; simp [IpPoint.scope, IpLock.rank]
  -- the others hold nothing, or take nothing
  all_goals first
    | cases h; done
    | exact fun held hheld => absurd hheld List.not_mem_nil

/-- The scopes of the methods. -/
def lockScopes : Scopes (self.locked shards) where
  scope := fun thread => thread.point.scope shards
  rank := IpLock.rank
  acquire := fun h => scope_of_acquire self shards h
  release := fun h => scope_of_release self shards h
  other := fun h => scope_of_other self shards h
  ordered := fun h => rank_lt_of_acquire shards h

end Scopes

/-- **The locks of the strategy never deadlock.** In every run of any number of threads, each
calling any of the methods in any order, no thread wants a lock that it holds. And if a thread is
inside a method, some thread inside a method does not wait: its next step takes no lock, or one that
nobody holds. -/
theorem no_deadlock {scope : Scope} (self : PmapIpAdapter scope) (shards : IpShards) (n : ℕ)
    (acts : List (Fin n × IpInput)) :
    let s := LockOrder.run (self.locked shards) (initialLocked n) acts
    (∀ i guard, (s.threads i).point.point.next shards = .acquire guard →
      ∀ held ∈ (s.threads i).guards, held.lock ≠ guard.lock) ∧
    ((∃ i, Unfinished (s.threads i).point) →
      ∃ i, Unfinished (s.threads i).point ∧
        ∀ guard, (s.threads i).point.point.next shards = .acquire guard →
          ∀ j, ∀ held ∈ (s.threads j).guards, held.lock ≠ guard.lock) := by
  intro s
  -- in every state, a thread holds the guards of the scope that it is in
  have hguards := (self.lockScopes shards).guards_run (s := initialLocked n) (fun _ => rfl) acts
  refine ⟨fun i guard h => (self.lockScopes shards).not_mem_of_acquire hguards h, fun hsome => ?_⟩
  refine (self.lockScopes shards).exists_unblocked hguards Unfinished ?_ hsome
  -- an idle thread holds nothing
  intro thread hscope
  constructor
  · intro hidle
    exact hscope (by simp [lockScopes, hidle, IpPoint.scope])
  · intro hpanicked
    exact hscope (by simp [lockScopes, hpanicked, IpPoint.scope])

end PmapIpAdapter

end Farsight
