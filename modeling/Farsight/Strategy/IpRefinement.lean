import Farsight.Lib.Run
import Farsight.Strategy.IpLocks

/-!
# From the locks to the machine

The methods of `PmapIpAdapter` are embedded twice: lock by lock, where a step may take or give back
one lock (`PmapIpAdapter.locked`), and as the machine, where a step is one access to the shared data
(`PmapIpAdapter.step`). Here the first leads to the second.

The feeder calls `next_address`, which is made of `try_pick` and `next`, and the other threads call
`on_result`; that is `PmapIpAdapter.clients`. The machine follows each of its steps by one action or
by none. Most steps that take or give back a lock are not seen by the machine. The two places where
it is ahead of the locks are in the heap: `top` and `pop` clean both heaps and then read `current`,
which are two steps with `stale` unlocked in between and one action of the machine. Nobody sees the
difference, since the feeder holds `current` until it has read it.

* `IpCaller`, `PmapIpAdapter.clients` — `next_address` and `on_result`, lock by lock;
* `IpPoint.updateOp`, `IpPoint.pickPc`, `IpPoint.reportPc` — where the machine stands at a point;
* `IpPoint.seen` — the heap as the machine has it;
* `PmapIpAdapter.FeederView.step`, `PmapIpAdapter.reports_step` — the machine follows the feeder,
  and a responder thread;
* `PmapIpAdapter.clients_refine` — and so every run.
-/

namespace Farsight

open LockOrder MaxHeap

/-! ### The calls -/

/-- Who calls the methods: a responder thread, or the feeder outside of `next_address`, in one of
its two calls of `try_pick` or in its call of `next`. Between two calls the feeder already counts as
in the next one. -/
inductive IpCaller where
  | responder
  | outside
  | pick (last : Bool)
  | sweep

/-- A thread that runs `next_address` or `on_result`. -/
structure IpClient where
  caller : IpCaller
  thread : IpThread

/-- What a step is given: the draws of the generator, and the address that a responder thread
reports. -/
structure ClientInput where
  coin : {r : ℚ // 0 ≤ r ∧ r ≤ 1}
  draw : ℕ → BitVec 8
  addr : Ipv4Addr

/-- The caller after a step from `point` to `point'`. A method has returned at `idle`; it has
returned `None` if it comes from the empty heap or from the end of the sweep. -/
def IpCaller.after (caller : IpCaller) (point point' : IpPoint) : IpCaller :=
  match caller with
  | .responder => .responder
  -- the coin has decided between the heap and the sweep
  | .outside =>
    match point' with
    | .topLockCurrent => .pick false
    | _ => .sweep
  | .pick last =>
    match point', point with
    -- `try_pick` has found nothing: `next_address` goes on with the sweep, or ends if that is over
    | .idle, .topPeek => if last then .outside else .sweep
    | .idle, _ => .outside
    | _, _ => .pick last
  | .sweep =>
    match point', point with
    -- the sweep is over, so the heap is asked once more
    | .idle, .nextIndex => .pick true
    | .idle, _ => .outside
    | _, _ => .sweep

/-- Where the machine stands between two calls. -/
def IpCaller.pc : IpCaller → FeederPc
  | .responder => .idle
  | .outside => .idle
  | .pick last => .tryPickTop last
  | .sweep => .next

/-- Where a responder thread stands that has this access of an `update` to make. -/
def ReportPc.inside : HeapOp (BitVec 32) ℚ → ReportPc
  | .done => .idle
  | op => .update op

theorem ReportPc.inside_of_ne_done {op : HeapOp (BitVec 32) ℚ} (h : op ≠ .done) :
    ReportPc.inside op = .update op := by
  cases op with
  | done => exact absurd rfl h
  | _ => rfl

namespace PmapIpAdapter

variable {scope : Scope}

/-- The method that a caller calls next. -/
def call (self : PmapIpAdapter scope) (input : ClientInput) : IpCaller → IpCall
  | .responder => .onResult input.addr
  | .outside => if input.coin.1 ≥ self.epsilon then .tryPick else .next
  | .pick _ => .tryPick
  | .sweep => .next

/-- A step of `next_address` or `on_result` is a step of the method that it has called. -/
def clientStep (self : PmapIpAdapter scope) (input : ClientInput) (client : IpClient) (d : IpData) :
    IpClient × IpData :=
  let (thread, d) := self.execPoint ⟨self.call input client.caller, input.draw⟩ client.thread.index
    d client.thread.point
  (⟨client.caller.after client.thread.point thread.point, thread⟩, d)

/-- `next_address` and `on_result`, lock by lock. -/
def clients (self : PmapIpAdapter scope) (shards : IpShards) :
    Program IpClient IpData ClientInput IpLock where
  next := fun client => client.thread.point.next shards
  exec := self.clientStep

/-- The feeder is thread 0, and the others are responder threads. -/
def initialClients (n : ℕ) : LockOrder.State (Fin (n + 1)) IpClient IpData IpLock where
  data := ⟨.empty, fun _ => none⟩
  threads := fun i => ⟨⟨if i = 0 then .outside else .responder, ⟨.idle, 0⟩⟩, []⟩

/-- The guards of a client are those of the method that it is in. -/
def clientScopes (self : PmapIpAdapter scope) (shards : IpShards) :
    Scopes (self.clients shards) where
  scope := fun client => client.thread.point.scope shards
  rank := IpLock.rank
  acquire := fun h => scope_of_acquire self shards h
  release := fun h => scope_of_release self shards h
  other := fun h => scope_of_other self shards h
  ordered := fun h => rank_lt_of_acquire shards h

/-! ### The calls are runs of the methods -/

section Forget

variable {n : ℕ} (self : PmapIpAdapter scope) (shards : IpShards)

/-- The threads without what they are called for. -/
def forgetCallers (s : LockOrder.State (Fin n) IpClient IpData IpLock) :
    LockOrder.State (Fin n) IpThread IpData IpLock where
  data := s.data
  threads := fun i => ⟨(s.threads i).point.thread, (s.threads i).guards⟩

/-- Moving a client moves its thread. -/
theorem forgetCallers_move (s : LockOrder.State (Fin n) IpClient IpData IpLock) (i : Fin n)
    (client : IpClient) (guards : List (Guard IpLock)) (d : IpData) :
    forgetCallers ⟨d, Function.update s.threads i ⟨client, guards⟩⟩ =
      ⟨d, Function.update (forgetCallers s).threads i ⟨client.thread, guards⟩⟩ := by
  refine congrArg (LockOrder.State.mk d) (funext fun j => ?_)
  dsimp only
  by_cases hj : j = i
  · subst hj
    rw [Function.update_self, Function.update_self]
  · rw [Function.update_of_ne hj, Function.update_of_ne hj]
    rfl

/-- A step of a client is a step of its thread with the method that the client calls. -/
theorem forgetCallers_step (s : LockOrder.State (Fin n) IpClient IpData IpLock)
    (act : Fin n × ClientInput) :
    forgetCallers (LockOrder.step (self.clients shards) s act) =
      LockOrder.step (self.locked shards) (forgetCallers s)
        (act.1, ⟨self.call act.2 (s.threads act.1).point.caller, act.2.draw⟩) := by
  unfold LockOrder.step
  dsimp only
  have hnext : (self.clients shards).next (s.threads act.1).point =
      (self.locked shards).next ((forgetCallers s).threads act.1).point := rfl
  rw [hnext]
  cases (self.locked shards).next ((forgetCallers s).threads act.1).point with
  | acquire guard =>
    dsimp only
    -- who may have a lock depends on the guards only, which are the same on both sides
    by_cases hfree : Free s guard
    · rw [if_pos hfree, if_pos (show Free (forgetCallers s) guard from hfree), forgetCallers_move]
      rfl
    · rw [if_neg hfree, if_neg (show ¬ Free (forgetCallers s) guard from hfree)]
  | release lock =>
    rw [forgetCallers_move]
    rfl
  | other =>
    rw [forgetCallers_move]
    rfl

/-- **`next_address` and `on_result` only run the methods.** Their runs are among those of `locked`,
in which any thread calls any method. -/
theorem clients_locked (acts : List (Fin (n + 1) × ClientInput)) :
    ∃ lockedActs : List (Fin (n + 1) × IpInput),
      forgetCallers (LockOrder.run (self.clients shards) (initialClients n) acts) =
        LockOrder.run (self.locked shards) (initialLocked (n + 1)) lockedActs :=
  Run.simulates (R := fun s t => forgetCallers s = t)
    (fun s _ act h => ⟨[_], h ▸ self.forgetCallers_step shards s act⟩) acts rfl

end Forget

end PmapIpAdapter

/-! ### Where the machine stands -/

namespace IpPoint

/-- The access that an `update` of the heap makes next. -/
def updateOp : IpPoint → Option (HeapOp (BitVec 32) ℚ)
  | .updateLockGet p value => some (.updateGet p value)
  | .updateGet p value => some (.updateGet p value)
  | .updateLockStale p value old => some (.updateStale p value old)
  | .updateStale p value old => some (.updateStale p value old)
  | .updateUnlockGet p value => some (.updateInsert p value)
  | .updateLockInsert p value => some (.updateInsert p value)
  | .updateInsert p value => some (.updateInsert p value)
  | .updateLockPush p value => some (.updatePush p value)
  | .updatePush p value => some (.updatePush p value)
  | _ => none

/-- No step of an `update` takes the top off. -/
theorem updateOp_ne_popTake (point : IpPoint) : point.updateOp ≠ some .popTake := by
  cases point
  all_goals rintro ⟨⟩

/-- Where the machine stands in `on_result`. -/
def reportPc : IpPoint → Option ReportPc
  | .idle => some .idle
  | .roomLock p => some (.room p)
  | .roomRead p => some (.room p)
  | .queryLock p .raise => some (.query p)
  | .queryRead p .raise => some (.query p)
  | point => point.updateOp.map .update

theorem reportPc_of_updateOp {point : IpPoint} {op : HeapOp (BitVec 32) ℚ}
    (hop : point.updateOp = some op) : point.reportPc = some (.update op) := by
  cases point
  all_goals first
    | cases hop; done
    | exact congrArg (Option.map ReportPc.update) hop

/-- Where the machine stands after `heap.pop()`: it returns the address, or looks at the next
prefix. -/
def poppedPc (last : Bool) (result : Option Ipv4Addr) : FeederPc :=
  if result.isSome then .idle else .tryPickTop last

/-- Where the machine stands when it has seen the top of the heap. -/
def toppedPc (last : Bool) : Option (ℚ ×ₗ BitVec 32) → FeederPc
  | some x => .tryPickEntry last (ofLex x).2
  | none => if last then .idle else .next

/-- Where the machine stands when it has taken the top off the heap. -/
def takenPc (last : Bool) (result : Option Ipv4Addr) : Option (ℚ ×ₗ BitVec 32) → FeederPc
  | some x => .tryPickPop last result (.popRemove (ofLex x).2)
  | none => poppedPc last result

/-- Where the machine stands in `try_pick`. At `topPeek` and `popTake` it has read `current`
already. -/
def pickPc (current : List (ℚ ×ₗ BitVec 32)) (last : Bool) : IpPoint → Option FeederPc
  | .topLockCurrent => some (.tryPickTop last)
  | .topLockStale => some (.tryPickTop last)
  | .topClean => some (.tryPickTop last)
  -- the abstract step is taken where `current` was cleaned: what `peek` will find is known
  | .topPeek => some (toppedPc last (peek current))
  | .entryLock p => some (.tryPickEntry last p)
  | .entryPick p => some (.tryPickEntry last p)
  | .popLockCurrent _ result => some (.tryPickPop last result .popTake)
  | .popLockStale _ result => some (.tryPickPop last result .popTake)
  | .popClean _ result => some (.tryPickPop last result .popTake)
  | .popTake _ result => some (takenPc last result (peek current))
  | .popLockValues _ result key => some (.tryPickPop last result (.popRemove key))
  | .popRemove _ result key => some (.tryPickPop last result (.popRemove key))
  | .popUnlockCurrent _ result => some (poppedPc last result)
  | .entryUnlock _ result => some (poppedPc last result)
  | _ => none

/-- The heap as the machine has it while the feeder is at this point: at `popTake` the machine has
taken the top off already. -/
def seen (heap : ConcurrentLazyHeap (BitVec 32) ℚ) : IpPoint → ConcurrentLazyHeap (BitVec 32) ℚ
  | .popTake _ _ => { heap with current := MaxHeap.pop heap.current }
  | _ => heap

/-- The feeder is between cleaning the heaps and reading `current`. -/
def Ahead (point : IpPoint) : Prop :=
  point = .topPeek ∨ ∃ p result, point = .popTake p result

/-- At those points it holds `current`. -/
theorem Ahead.mem_scope {shards : IpShards} {point : IpPoint} (h : point.Ahead) :
    ⟨.current, .exclusive⟩ ∈ point.scope shards := by
  rcases h with rfl | ⟨p, result, rfl⟩
  · exact List.mem_cons_self
  · exact List.mem_cons_self

/-- Elsewhere the machine does not depend on `current`. -/
theorem pickPc_congr {current current' : List (ℚ ×ₗ BitVec 32)} {point : IpPoint} (last : Bool)
    (h : point.Ahead → current' = current) :
    point.pickPc current' last = point.pickPc current last := by
  cases point
  case topPeek => rw [h (.inl rfl)]
  case popTake p result => rw [h (.inr ⟨p, result, rfl⟩)]
  all_goals rfl

/-- Away from the two places where the machine has gone ahead, both have the same heap. -/
theorem seen_of_not_ahead {heap : ConcurrentLazyHeap (BitVec 32) ℚ} {point : IpPoint}
    (h : ¬ point.Ahead) : point.seen heap = heap := by
  cases point
  case popTake p result => exact absurd (.inr ⟨p, result, rfl⟩) h
  all_goals rfl

/-- The machine has the same values and the same `stale`, at every point. -/
theorem seen_frame (heap : ConcurrentLazyHeap (BitVec 32) ℚ) (point : IpPoint) :
    (point.seen heap).values = heap.values ∧ (point.seen heap).stale = heap.stale := by
  cases point
  all_goals exact ⟨rfl, rfl⟩

end IpPoint

namespace PmapIpAdapter

variable {scope : Scope} {self : PmapIpAdapter scope}

/-! ### Updates of the heap -/

/-- A step of an `update` takes or gives back a lock, or it makes the next access. The last access
is the push on `current`. -/
theorem execPoint_update (self : PmapIpAdapter scope) {point : IpPoint} {op : HeapOp (BitVec 32) ℚ}
    (hop : point.updateOp = some op) (input : IpInput) (index : ℕ) (d : IpData) :
    ∃ point' d', self.execPoint input index d point = (⟨point', index⟩, d') ∧
      (d' = d ∧ point'.updateOp = some op ∨
        d' = { d with heap := (op.exec d.heap).2 } ∧
          ((∃ p value, point = .updatePush p value) ∧ (op.exec d.heap).1 = .done ∧
              point' = .idle ∨
            (∀ p value, op ≠ .updatePush p value) ∧ (op.exec d.heap).1 ≠ .done ∧
              point'.updateOp = some (op.exec d.heap).1)) := by
  cases point
  -- taking a lock and giving it up are steps of their own here, and none of the machine
  case updateLockGet p value => exact ⟨_, _, rfl, .inl ⟨rfl, hop⟩⟩
  case updateGet p value =>
    obtain rfl := Option.some.inj hop
    cases hvalue : d.heap.values p with
    | some old =>
      refine ⟨.updateLockStale p value old, d, by rw [execPoint, hvalue], .inr ⟨?_, .inr ?_⟩⟩
      · rw [HeapOp.exec, hvalue]
      · rw [HeapOp.exec, hvalue]
        exact ⟨by rintro _ _ ⟨⟩, by rintro ⟨⟩, rfl⟩
    | none =>
      refine ⟨.updateUnlockGet p value, d, by rw [execPoint, hvalue], .inr ⟨?_, .inr ?_⟩⟩
      · rw [HeapOp.exec, hvalue]
      · rw [HeapOp.exec, hvalue]
        exact ⟨by rintro _ _ ⟨⟩, by rintro ⟨⟩, rfl⟩
  case updateLockStale p value old => exact ⟨_, _, rfl, .inl ⟨rfl, hop⟩⟩
  case updateStale p value old =>
    obtain rfl := Option.some.inj hop
    exact ⟨_, _, rfl, .inr ⟨rfl, .inr ⟨by rintro _ _ ⟨⟩, by rintro ⟨⟩, rfl⟩⟩⟩
  case updateUnlockGet p value => exact ⟨_, _, rfl, .inl ⟨rfl, hop⟩⟩
  case updateLockInsert p value => exact ⟨_, _, rfl, .inl ⟨rfl, hop⟩⟩
  case updateInsert p value =>
    obtain rfl := Option.some.inj hop
    exact ⟨_, _, rfl, .inr ⟨rfl, .inr ⟨by rintro _ _ ⟨⟩, by rintro ⟨⟩, rfl⟩⟩⟩
  case updateLockPush p value => exact ⟨_, _, rfl, .inl ⟨rfl, hop⟩⟩
  -- the last access: the call is over
  case updatePush p value =>
    obtain rfl := Option.some.inj hop
    exact ⟨_, _, rfl, .inr ⟨rfl, .inl ⟨⟨p, value, rfl⟩, rfl, rfl⟩⟩⟩
  all_goals cases hop

theorem not_ahead_of_updateOp {point : IpPoint} {op : HeapOp (BitVec 32) ℚ}
    (hop : point.updateOp = some op) : ¬ point.Ahead := by
  rintro (rfl | ⟨p, result, rfl⟩)
  · cases hop
  · cases hop

/-! ### The feeder -/

/-- The machine stands at `pc`, with this index of the sweep, when the feeder is at its point. -/
inductive FeederAt (self : PmapIpAdapter scope) (current : List (ℚ ×ₗ BitVec 32)) :
    IpClient → FeederPc → ℕ → Prop
  /-- Between two calls. -/
  | idle {caller : IpCaller} {index : ℕ} (hcaller : caller ≠ .responder) :
      FeederAt self current ⟨caller, ⟨.idle, index⟩⟩ caller.pc index
  /-- `index` has panicked. -/
  | panicked {index index' : ℕ} :
      FeederAt self current ⟨.sweep, ⟨.panicked, index⟩⟩ .panicked index'
  /-- Inside `try_pick`. -/
  | pick {last : Bool} {point : IpPoint} {index : ℕ} {pc : FeederPc}
      (hpc : point.pickPc current last = some pc) :
      FeederAt self current ⟨.pick last, ⟨point, index⟩⟩ pc index
  /-- At the head of the loop of `next`. -/
  | next {index : ℕ} : FeederAt self current ⟨.sweep, ⟨.nextIndex, index⟩⟩ .next index
  /-- `next` has its address and increased `index`; the machine will do both with the entry. -/
  | mark {point : IpPoint} {addr : Ipv4Addr} {index : ℕ}
      (hpoint : point = .nextLock addr ∨ point = .nextMark addr)
      (hlt : index < scope.ranges.count)
      (hindex : scope.ranges.index (self.rng ⟨index, hlt⟩) = .ok addr) :
      FeederAt self current ⟨.sweep, ⟨point, index + 1⟩⟩ .next index
  /-- `next` asks for the score. -/
  | query {point : IpPoint} {addr : Ipv4Addr} {index : ℕ}
      (hpoint : point = .queryLock (prefixId addr) .add ∨ point = .queryRead (prefixId addr) .add) :
      FeederAt self current ⟨.sweep, ⟨point, index⟩⟩ (.nextQuery addr) index
  /-- `next` gives the prefix its score. -/
  | update {point : IpPoint} {op : HeapOp (BitVec 32) ℚ} {addr : Ipv4Addr} {index : ℕ}
      (hop : point.updateOp = some op) :
      FeederAt self current ⟨.sweep, ⟨point, index⟩⟩ (.nextUpdate addr op) index

/-- Where the feeder stands depends on the heap only while the machine is ahead of it. -/
theorem FeederAt.congr {current current' : List (ℚ ×ₗ BitVec 32)} {client : IpClient}
    {pc : FeederPc} {index : ℕ} (h : self.FeederAt current client pc index)
    (hcurrent : client.thread.point.Ahead → current' = current) :
    self.FeederAt current' client pc index := by
  -- `current` matters only where the answer of `peek` was foreseen
  cases h with
  | idle hcaller => exact .idle hcaller
  | panicked => exact .panicked
  | pick hpc => exact .pick ((IpPoint.pickPc_congr _ hcurrent).trans hpc)
  | next => exact .next
  | mark hpoint hlt hindex => exact .mark hpoint hlt hindex
  | query hpoint => exact .query hpoint
  | update hop => exact .update hop

theorem FeederAt.of_outside {current : List (ℚ ×ₗ BitVec 32)} {pc : FeederPc} {index index' : ℕ}
    (h : self.FeederAt current ⟨.outside, ⟨.idle, index⟩⟩ pc index') :
    index' = index ∧ pc = .idle := by
  cases h
  exact ⟨rfl, rfl⟩

/-- The machine is where the feeder is, with the data behind the locks. -/
structure FeederView (ip : PmapIpAdapter scope) (client : IpClient) (d : IpData) (m : IpState) :
    Prop where
  actives : m.actives = d.actives
  heap : m.heap = client.thread.point.seen d.heap
  feeder : ip.FeederAt d.heap.current client m.feeder m.index

/-- The machine follows a step of the feeder. -/
def FeederFollows (self : PmapIpAdapter scope) (client : IpClient) (d : IpData) (m : IpState) :
    Prop :=
  ∃ acts : List IpAct, self.FeederView client d (acts.foldl self.step m) ∧
    (acts.foldl self.step m).threads = m.threads

/-- It does nothing if its place and its data are the same after the step. -/
theorem FeederView.follows {client : IpClient} {d : IpData} {m : IpState}
    (h : self.FeederView client d m) : self.FeederFollows client d m :=
  ⟨[], h, rfl⟩

/-- Otherwise it makes its next access. -/
theorem FeederView.follows_feederStep {client : IpClient} {d : IpData} {m : IpState}
    (draw : ℕ → BitVec 8) (h : self.FeederView client d (self.feederStep draw m)) :
    self.FeederFollows client d m :=
  ⟨[.feeder draw], h, (self.feederStep_cases draw m).threads⟩

theorem pop_of_peek_eq_none {current : List (ℚ ×ₗ BitVec 32)} (h : peek current = none) :
    MaxHeap.pop current = current := by
  rw [MaxHeap.pop, h]

/-- It follows the end of the cleaning in `top`: the machine reads the top at once. -/
theorem follows_topClean {input : ClientInput} {last : Bool} {index : ℕ} {d : IpData} {m : IpState}
    (hactives : m.actives = d.actives) (hheap : m.heap = d.heap) (hindex : m.index = index)
    (hpc : m.feeder = .tryPickTop last) :
    self.FeederFollows (self.clientStep input ⟨.pick last, ⟨.topClean, index⟩⟩ d).1
      (self.clientStep input ⟨.pick last, ⟨.topClean, index⟩⟩ d).2 m := by
  obtain ⟨heap, actives, i, feeder, threads, results⟩ := m
  dsimp only at hactives hheap hindex hpc
  subst hactives hheap hindex hpc
  change self.FeederFollows ⟨.pick last, ⟨.topPeek, i⟩⟩ { d with heap := d.heap.cleaned } _
  have htopped : IpPoint.topPeek.pickPc d.heap.cleaned.current last =
      some (IpPoint.toppedPc last (peek d.heap.cleaned.current)) := rfl
  refine FeederView.follows_feederStep input.draw ?_
  unfold feederStep
  dsimp only [ConcurrentLazyHeap.top]
  cases hpeek : peek d.heap.cleaned.current with
  | some x =>
    rw [hpeek] at htopped
    exact ⟨rfl, rfl, .pick htopped⟩
  | none =>
    rw [hpeek] at htopped
    cases last with
    | false => exact ⟨rfl, rfl, .pick htopped⟩
    | true => exact ⟨rfl, rfl, .pick htopped⟩

/-- It follows the draw of an address under the lock of the entry. -/
theorem follows_entryPick {input : ClientInput} {last : Bool} {p : BitVec 32} {index : ℕ}
    {d : IpData} {m : IpState} (hactives : m.actives = d.actives) (hheap : m.heap = d.heap)
    (hindex : m.index = index) (hpc : m.feeder = .tryPickEntry last p) :
    self.FeederFollows (self.clientStep input ⟨.pick last, ⟨.entryPick p, index⟩⟩ d).1
      (self.clientStep input ⟨.pick last, ⟨.entryPick p, index⟩⟩ d).2 m := by
  obtain ⟨heap, actives, i, feeder, threads, results⟩ := m
  dsimp only at hactives hheap hindex hpc
  subst hactives hheap hindex hpc
  refine FeederView.follows_feederStep input.draw ?_
  rw [clientStep, execPoint]
  unfold feederStep pickLocked
  dsimp only [IpState.entry]
  by_cases hzero : ((d.actives p).getD PrefixState.new).remaining = 0
  · rw [if_pos hzero, if_pos hzero]
    exact ⟨rfl, rfl, .pick rfl⟩
  · rw [if_neg hzero, if_neg hzero]
    cases ((d.actives p).getD PrefixState.new).fetchUnscanned input.draw with
    | none => exact ⟨rfl, rfl, .pick rfl⟩
    | some offset =>
      dsimp only
      split
      · exact ⟨rfl, rfl, .pick rfl⟩
      · exact ⟨rfl, rfl, .pick rfl⟩

/-- It follows the end of the cleaning in `pop`: the machine takes the top off at once. -/
theorem follows_popClean {input : ClientInput} {last : Bool} {p : BitVec 32}
    {result : Option Ipv4Addr} {index : ℕ} {d : IpData} {m : IpState}
    (hactives : m.actives = d.actives) (hheap : m.heap = d.heap) (hindex : m.index = index)
    (hpc : m.feeder = .tryPickPop last result .popTake) :
    self.FeederFollows (self.clientStep input ⟨.pick last, ⟨.popClean p result, index⟩⟩ d).1
      (self.clientStep input ⟨.pick last, ⟨.popClean p result, index⟩⟩ d).2 m := by
  obtain ⟨heap, actives, i, feeder, threads, results⟩ := m
  dsimp only at hactives hheap hindex hpc
  subst hactives hheap hindex hpc
  change self.FeederFollows ⟨.pick last, ⟨.popTake p result, i⟩⟩ { d with heap := d.heap.cleaned } _
  have htaken : (IpPoint.popTake p result).pickPc d.heap.cleaned.current last =
      some (IpPoint.takenPc last result (peek d.heap.cleaned.current)) := rfl
  refine FeederView.follows_feederStep input.draw ?_
  unfold feederStep
  dsimp only [HeapOp.exec]
  cases hpeek : peek d.heap.cleaned.current with
  | some x =>
    rw [hpeek] at htaken
    exact ⟨rfl, rfl, .pick htaken⟩
  | none =>
    rw [hpeek] at htaken
    have hseen : (IpPoint.popTake p result).seen d.heap.cleaned = d.heap.cleaned := by
      rw [IpPoint.seen, pop_of_peek_eq_none hpeek]
    cases result with
    | some addr => exact ⟨rfl, hseen.symm, .pick htaken⟩
    | none => exact ⟨rfl, hseen.symm, .pick htaken⟩

/-- The machine follows the steps of `try_pick`. -/
theorem follows_pick {input : ClientInput} {last : Bool} {point : IpPoint} {index : ℕ}
    {d : IpData} {m : IpState} (hactives : m.actives = d.actives)
    (hheap : m.heap = point.seen d.heap) (hindex : m.index = index)
    (hpc : point.pickPc d.heap.current last = some m.feeder) :
    self.FeederFollows (self.clientStep input ⟨.pick last, ⟨point, index⟩⟩ d).1
      (self.clientStep input ⟨.pick last, ⟨point, index⟩⟩ d).2 m := by
  obtain ⟨heap, actives, i, feeder, threads, results⟩ := m
  dsimp only at hactives hheap hindex hpc
  subst hactives hheap hindex
  cases point
  -- the locks of `current` and `stale` are taken for the whole of `top`; nobody else sees the heap
  -- in between
  case topLockCurrent =>
    change self.FeederFollows ⟨.pick last, ⟨.topLockStale, i⟩⟩ d _
    exact FeederView.follows ⟨rfl, rfl, .pick hpc⟩
  case topLockStale =>
    change self.FeederFollows ⟨.pick last, ⟨.topClean, i⟩⟩ d _
    exact FeederView.follows ⟨rfl, rfl, .pick hpc⟩
  case topClean => exact follows_topClean rfl rfl rfl (Option.some.inj hpc).symm
  case topPeek =>
    obtain rfl := Option.some.inj hpc
    rw [clientStep, execPoint]
    cases peek d.heap.current with
    | some x => exact FeederView.follows ⟨rfl, rfl, .pick rfl⟩
    | none =>
      -- `None`: the sweep follows, or the end
      cases last with
      | false => exact FeederView.follows ⟨rfl, rfl, .idle (by rintro ⟨⟩)⟩
      | true => exact FeederView.follows ⟨rfl, rfl, .idle (by rintro ⟨⟩)⟩
  case entryLock p =>
    change self.FeederFollows ⟨.pick last, ⟨.entryPick p, i⟩⟩ d _
    exact FeederView.follows ⟨rfl, rfl, .pick hpc⟩
  case entryPick p => exact follows_entryPick rfl rfl rfl (Option.some.inj hpc).symm
  case popLockCurrent p result =>
    change self.FeederFollows ⟨.pick last, ⟨.popLockStale p result, i⟩⟩ d _
    exact FeederView.follows ⟨rfl, rfl, .pick hpc⟩
  case popLockStale p result =>
    change self.FeederFollows ⟨.pick last, ⟨.popClean p result, i⟩⟩ d _
    exact FeederView.follows ⟨rfl, rfl, .pick hpc⟩
  case popClean p result => exact follows_popClean rfl rfl rfl (Option.some.inj hpc).symm
  case popTake p result =>
    obtain rfl := Option.some.inj hpc
    rw [clientStep, execPoint]
    cases hpeek : peek d.heap.current with
    | some x => exact FeederView.follows ⟨rfl, rfl, .pick rfl⟩
    | none =>
      have hseen : (IpPoint.popTake p result).seen d.heap = d.heap := by
        rw [IpPoint.seen, pop_of_peek_eq_none hpeek]
      exact FeederView.follows ⟨rfl, hseen, .pick rfl⟩
  case popLockValues p result key =>
    change self.FeederFollows ⟨.pick last, ⟨.popRemove p result key, i⟩⟩ d _
    exact FeederView.follows ⟨rfl, rfl, .pick hpc⟩
  -- the one access of `pop` after the heaps: the value is removed under its own lock
  case popRemove p result key =>
    obtain rfl := Option.some.inj hpc
    refine FeederView.follows_feederStep input.draw ?_
    cases result with
    | some addr => exact ⟨rfl, rfl, .pick rfl⟩
    | none => exact ⟨rfl, rfl, .pick rfl⟩
  case popUnlockCurrent p result =>
    change self.FeederFollows ⟨.pick last, ⟨.entryUnlock p result, i⟩⟩ d _
    exact FeederView.follows ⟨rfl, rfl, .pick hpc⟩
  -- the entry was locked over the whole turn, and now the call returns or goes round
  case entryUnlock p result =>
    obtain rfl := Option.some.inj hpc
    cases result with
    | some addr => exact FeederView.follows ⟨rfl, rfl, .idle (by rintro ⟨⟩)⟩
    | none => exact FeederView.follows ⟨rfl, rfl, .pick rfl⟩
  all_goals cases hpc

/-- The machine follows the steps of `next`, up to the query. -/
theorem follows_next {input : ClientInput} {index : ℕ} {d : IpData} {m : IpState}
    (hactives : m.actives = d.actives) (hheap : m.heap = d.heap) (hindex : m.index = index)
    (hpc : m.feeder = .next) :
    self.FeederFollows (self.clientStep input ⟨.sweep, ⟨.nextIndex, index⟩⟩ d).1
      (self.clientStep input ⟨.sweep, ⟨.nextIndex, index⟩⟩ d).2 m := by
  obtain ⟨heap, actives, i, feeder, threads, results⟩ := m
  dsimp only at hactives hheap hindex hpc
  subst hactives hheap hindex hpc
  rw [clientStep, execPoint]
  by_cases hlt : i < scope.ranges.count
  · rw [dif_pos hlt]
    cases haddr : scope.ranges.index (self.rng ⟨i, hlt⟩) with
    | error e =>
      refine FeederView.follows_feederStep input.draw ?_
      unfold feederStep
      dsimp only
      rw [dif_pos hlt, haddr]
      exact ⟨rfl, rfl, .panicked⟩
    | ok addr =>
      -- the machine waits with the address until the entry is locked
      exact FeederView.follows ⟨rfl, rfl, .mark (.inl rfl) hlt haddr⟩
  · rw [dif_neg hlt]
    refine FeederView.follows_feederStep input.draw ?_
    unfold feederStep
    dsimp only
    rw [dif_neg hlt]
    exact ⟨rfl, rfl, .idle (by rintro ⟨⟩)⟩

/-- It follows `mark_scanned`, where it makes up for the increment of `index`. -/
theorem follows_mark {input : ClientInput} {addr : Ipv4Addr} {d : IpData} {m : IpState}
    (hactives : m.actives = d.actives) (hheap : m.heap = d.heap) (hpc : m.feeder = .next)
    (hlt : m.index < scope.ranges.count)
    (haddr : scope.ranges.index (self.rng ⟨m.index, hlt⟩) = .ok addr) :
    self.FeederFollows (self.clientStep input ⟨.sweep, ⟨.nextMark addr, m.index + 1⟩⟩ d).1
      (self.clientStep input ⟨.sweep, ⟨.nextMark addr, m.index + 1⟩⟩ d).2 m := by
  obtain ⟨heap, actives, i, feeder, threads, results⟩ := m
  dsimp only at hactives hheap hpc hlt haddr
  subst hactives hheap hpc
  refine FeederView.follows_feederStep input.draw ?_
  rw [clientStep, execPoint]
  unfold feederStep
  dsimp only [IpState.entry]
  rw [dif_pos hlt, haddr]
  dsimp only
  -- scanned before, so the sweep goes on
  split
  · exact ⟨rfl, rfl, .next⟩
  · -- the score is looked up if the prefix has room left
    split
    · exact ⟨rfl, rfl, .query (.inl rfl)⟩
    · exact ⟨rfl, rfl, .idle (by rintro ⟨⟩)⟩

/-- It follows the query. -/
theorem follows_query {input : ClientInput} {addr : Ipv4Addr} {index : ℕ} {d : IpData} {m : IpState}
    (hactives : m.actives = d.actives) (hheap : m.heap = d.heap) (hindex : m.index = index)
    (hpc : m.feeder = .nextQuery addr) :
    self.FeederFollows
      (self.clientStep input ⟨.sweep, ⟨.queryRead (prefixId addr) .add, index⟩⟩ d).1
      (self.clientStep input ⟨.sweep, ⟨.queryRead (prefixId addr) .add, index⟩⟩ d).2 m := by
  obtain ⟨heap, actives, i, feeder, threads, results⟩ := m
  dsimp only at hactives hheap hindex hpc
  subst hactives hheap hindex hpc
  refine FeederView.follows_feederStep input.draw ?_
  rw [clientStep, execPoint]
  unfold feederStep scoreLocked
  dsimp only
  -- a prefix that has a score is not stored again
  cases d.heap.query (prefixId addr) with
  | some score => exact ⟨rfl, rfl, .idle (by rintro ⟨⟩)⟩
  | none => exact ⟨rfl, rfl, .update rfl⟩

/-- It follows the update. -/
theorem follows_update {input : ClientInput} {point : IpPoint} {op : HeapOp (BitVec 32) ℚ}
    {addr : Ipv4Addr} {index : ℕ} {d : IpData} {m : IpState} (hop : point.updateOp = some op)
    (hactives : m.actives = d.actives) (hheap : m.heap = point.seen d.heap)
    (hindex : m.index = index) (hpc : m.feeder = .nextUpdate addr op) :
    self.FeederFollows (self.clientStep input ⟨.sweep, ⟨point, index⟩⟩ d).1
      (self.clientStep input ⟨.sweep, ⟨point, index⟩⟩ d).2 m := by
  rw [IpPoint.seen_of_not_ahead (not_ahead_of_updateOp hop)] at hheap
  obtain ⟨heap, actives, i, feeder, threads, results⟩ := m
  dsimp only at hactives hheap hindex hpc
  subst hactives hheap hindex hpc
  obtain ⟨point', d', hexec, hcases⟩ :=
    self.execPoint_update hop ⟨self.call input .sweep, input.draw⟩ i d
  rw [clientStep, hexec]
  dsimp only
  -- the call goes on in the same place as long as the `update` does
  have hsweep {op' : HeapOp (BitVec 32) ℚ} (hop' : point'.updateOp = some op') :
      IpCaller.sweep.after point point' = .sweep ∧ point'.seen d'.heap = d'.heap := by
    refine ⟨?_, IpPoint.seen_of_not_ahead (not_ahead_of_updateOp hop')⟩
    cases point'
    case idle => cases hop'
    all_goals rfl
  rcases hcases with ⟨rfl, hop'⟩ | ⟨rfl, ⟨⟨p, value, rfl⟩, hdone, rfl⟩ | ⟨-, hnot, hop'⟩⟩
  · obtain ⟨hcaller, hseen⟩ := hsweep hop'
    rw [hcaller]
    exact FeederView.follows ⟨rfl, hseen.symm, .update hop'⟩
  · -- the push: `next_address` returns
    refine FeederView.follows_feederStep input.draw ?_
    obtain rfl := Option.some.inj hop
    exact ⟨rfl, rfl, .idle (by rintro ⟨⟩)⟩
  · obtain ⟨hcaller, hseen⟩ := hsweep hop'
    rw [hcaller]
    refine FeederView.follows_feederStep input.draw ?_
    unfold feederStep
    dsimp only
    split
    · next heap hexec' => exact absurd (congrArg Prod.fst hexec') hnot
    · next op' heap hnot' hexec' =>
      rw [hexec'] at hop' hseen ⊢
      exact ⟨rfl, hseen.symm, .update hop'⟩

/-- It follows the calls. Only the one that starts `next_address` is an action of the machine, since
`next_address` goes from one method to the next without an access. -/
theorem follows_call {input : ClientInput} {caller : IpCaller} {d : IpData} {m : IpState}
    (hcaller : caller ≠ .responder) (hactives : m.actives = d.actives) (hheap : m.heap = d.heap)
    (hpc : m.feeder = caller.pc) :
    self.FeederFollows (self.clientStep input ⟨caller, ⟨.idle, m.index⟩⟩ d).1
      (self.clientStep input ⟨caller, ⟨.idle, m.index⟩⟩ d).2 m := by
  obtain ⟨heap, actives, i, feeder, threads, results⟩ := m
  dsimp only at hactives hheap hpc
  subst hactives hheap hpc
  cases caller with
  | responder => exact absurd rfl hcaller
  | outside =>
    refine ⟨[.nextAddress input.coin], ?_⟩
    rw [clientStep, execPoint, call, List.foldl_cons, List.foldl_nil, PmapIpAdapter.step]
    dsimp only [IpCaller.pc]
    -- the coin decides between `try_pick` and the sweep, in both machines alike
    by_cases hcoin : input.coin.1 ≥ self.epsilon
    · rw [if_pos hcoin, if_pos hcoin]
      exact ⟨⟨rfl, rfl, .pick rfl⟩, rfl⟩
    · rw [if_neg hcoin, if_neg hcoin]
      exact ⟨⟨rfl, rfl, .next⟩, rfl⟩
  | pick last => exact FeederView.follows ⟨rfl, rfl, .pick rfl⟩
  | sweep => exact FeederView.follows ⟨rfl, rfl, .next⟩

/-- **The machine follows the feeder.** -/
theorem FeederView.step {client : IpClient} {d : IpData} {m : IpState}
    (h : self.FeederView client d m) (input : ClientInput) :
    self.FeederFollows (self.clientStep input client d).1 (self.clientStep input client d).2 m := by
  obtain ⟨hactives, hheap, hfeeder⟩ := h
  generalize hpc : m.feeder = pc at hfeeder
  generalize hindex : m.index = index at hfeeder
  -- by the place of the feeder; each of the lemmas above has one stretch of the call
  cases hfeeder with
  | @idle caller _ hcaller =>
    subst hindex
    exact follows_call hcaller hactives hheap hpc
  | panicked => exact FeederView.follows ⟨hactives, hheap, hpc ▸ .panicked⟩
  | pick hpick => exact follows_pick hactives hheap hindex (hpc ▸ hpick)
  | next => exact follows_next hactives hheap hindex hpc
  | mark hpoint hlt haddr =>
    subst hindex
    rcases hpoint with rfl | rfl
    · exact FeederView.follows ⟨hactives, hheap, hpc ▸ .mark (.inr rfl) hlt haddr⟩
    · exact follows_mark hactives hheap hpc hlt haddr
  | query hpoint =>
    subst hindex
    rcases hpoint with rfl | rfl
    · exact FeederView.follows ⟨hactives, hheap, hpc ▸ .query (.inr rfl)⟩
    · exact follows_query hactives hheap rfl hpc
  | update hop => exact follows_update hop hactives hheap hindex hpc

/-! ### The responder threads -/

/-- An access of thread `t` inside an `update`. -/
theorem threadStep_update (self : PmapIpAdapter scope) {t : ℕ} {m : IpState}
    {op : HeapOp (BitVec 32) ℚ} (hpc : m.threads t = .update op) :
    self.threadStep t m =
      { m with
        heap := (op.exec m.heap).2
        threads := Function.update m.threads t (ReportPc.inside (op.exec m.heap).1) } := by
  unfold threadStep
  rw [hpc]
  dsimp only
  split
  · next heap hexec => rw [hexec, ReportPc.inside]
  · next op' heap hnot hexec => rw [hexec, ReportPc.inside_of_ne_done hnot]

/-- An access of an `update` is the same on the heap as the machine has it, unless it pushes on
`current` while the feeder is about to read that. -/
theorem exec_seen {fp point : IpPoint} {op : HeapOp (BitVec 32) ℚ}
    (hop : point.updateOp = some op) (hpush : fp.Ahead → ∀ p value, op ≠ .updatePush p value)
    (heap : ConcurrentLazyHeap (BitVec 32) ℚ) :
    op.exec (fp.seen heap) = ((op.exec heap).1, fp.seen (op.exec heap).2) ∧
      (fp.Ahead → (op.exec heap).2.current = heap.current) := by
  by_cases hahead : fp.Ahead
  · -- the other accesses leave `current`
    have hcurrent : (op.exec heap).2.current = heap.current := by
      cases op with
      | updateGet p value =>
        rw [HeapOp.exec]
        cases heap.values p <;> rfl
      | updateStale p value old => rfl
      | updateInsert p value => rfl
      | updatePush p value => exact absurd rfl (hpush hahead p value)
      | popTake => exact absurd hop point.updateOp_ne_popTake
      | popRemove key => rfl
      | done => rfl
    refine ⟨?_, fun _ => hcurrent⟩
    -- the top may be taken off before or after, since nothing else looks at `current`
    rcases hahead with rfl | ⟨p, result, rfl⟩
    · rfl
    · cases op with
      | updateGet p value =>
        rw [HeapOp.exec, HeapOp.exec]
        dsimp only [IpPoint.seen]
        cases heap.values p <;> rfl
      | updateStale p value old => rfl
      | updateInsert p value => rfl
      | updatePush p value => exact absurd rfl (hpush (.inr ⟨_, _, rfl⟩) p value)
      | popTake => exact absurd hop point.updateOp_ne_popTake
      | popRemove key => rfl
      | done => rfl
  · rw [IpPoint.seen_of_not_ahead hahead, IpPoint.seen_of_not_ahead hahead]
    exact ⟨rfl, fun h => absurd h hahead⟩

/-- The machine follows a step of responder thread `t` while the feeder is at `fp`: it comes to
where the thread is, and the feeder and its index stay. -/
def ReportFollows (self : PmapIpAdapter scope) (t : ℕ) (fp point : IpPoint) (d d' : IpData)
    (m : IpState) : Prop :=
  d'.actives = d.actives ∧ (fp.Ahead → d'.heap.current = d.heap.current) ∧
    ∃ (acts : List IpAct) (pc : ReportPc), point.reportPc = some pc ∧
      acts.foldl self.step m =
        { m with heap := fp.seen d'.heap, threads := Function.update m.threads t pc }

/-- It does nothing if the thread has taken or given back a lock. -/
theorem ReportFollows.stay {t : ℕ} {fp point : IpPoint} {d : IpData} {m : IpState}
    (hheap : m.heap = fp.seen d.heap) (hpc : point.reportPc = some (m.threads t)) :
    self.ReportFollows t fp point d d m := by
  refine ⟨rfl, fun _ => rfl, [], m.threads t, hpc, ?_⟩
  rw [Function.update_eq_self, ← hheap]
  rfl

/-- It follows the steps of an `update`. -/
theorem reports_step_update {t : ℕ} {fp point : IpPoint} {op : HeapOp (BitVec 32) ℚ} {index : ℕ}
    {d : IpData} {m : IpState} (hop : point.updateOp = some op) (hheap : m.heap = fp.seen d.heap)
    (hpc : point.reportPc = some (m.threads t))
    (hpush : fp.Ahead → ∀ p value, point ≠ .updatePush p value) (draw : ℕ → BitVec 8)
    (addr : Ipv4Addr) :
    self.ReportFollows t fp (self.execPoint ⟨.onResult addr, draw⟩ index d point).1.point d
      (self.execPoint ⟨.onResult addr, draw⟩ index d point).2 m := by
  have hthread : m.threads t = .update op :=
    Option.some.inj (hpc.symm.trans (IpPoint.reportPc_of_updateOp hop))
  obtain ⟨point', d', hexec, hcases⟩ := self.execPoint_update hop ⟨.onResult addr, draw⟩ index d
  rw [hexec]
  -- an access of the `update` is the same access of the machine
  have haccess (hother : fp.Ahead → ∀ p value, op ≠ .updatePush p value)
      (hpoint : point'.reportPc = some (ReportPc.inside (op.exec d.heap).1)) :
      self.ReportFollows t fp point' d { d with heap := (op.exec d.heap).2 } m := by
    obtain ⟨hseen, hcurrent⟩ := exec_seen hop hother d.heap
    refine ⟨rfl, hcurrent, [.thread t], _, hpoint, ?_⟩
    rw [List.foldl_cons, List.foldl_nil, PmapIpAdapter.step, self.threadStep_update hthread, hheap,
      hseen]
  rcases hcases with ⟨rfl, hop'⟩ | ⟨rfl, ⟨⟨p, value, rfl⟩, hdone, rfl⟩ | ⟨hother, hnot, hop'⟩⟩
  · -- only a lock was taken or given up
    refine ReportFollows.stay hheap ?_
    rw [hthread]
    exact IpPoint.reportPc_of_updateOp hop'
  · refine haccess (fun hahead => absurd rfl (hpush hahead p value)) ?_
    rw [hdone]
    rfl
  · refine haccess (fun _ => hother) ?_
    rw [ReportPc.inside_of_ne_done hnot]
    exact IpPoint.reportPc_of_updateOp hop'

/-- **The machine follows the responder threads.** -/
theorem reports_step {t : ℕ} {fp point : IpPoint} {index : ℕ} {d : IpData} {m : IpState}
    (hactives : m.actives = d.actives) (hheap : m.heap = fp.seen d.heap)
    (hpc : point.reportPc = some (m.threads t))
    (hpush : fp.Ahead → ∀ p value, point ≠ .updatePush p value) (draw : ℕ → BitVec 8)
    (addr : Ipv4Addr) :
    self.ReportFollows t fp (self.execPoint ⟨.onResult addr, draw⟩ index d point).1.point d
      (self.execPoint ⟨.onResult addr, draw⟩ index d point).2 m := by
  cases hop : point.updateOp with
  | some op => exact reports_step_update hop hheap hpc hpush draw addr
  | none =>
    obtain ⟨heap, actives, i, feeder, threads, results⟩ := m
    dsimp only at hactives hheap hpc
    subst hactives hheap
    cases point
    -- `on_result` is called
    case idle =>
      have hthread : threads t = .idle := (Option.some.inj hpc).symm
      refine ⟨rfl, fun _ => rfl, [.onResult t addr], .room (prefixId addr), rfl, ?_⟩
      rw [List.foldl_cons, List.foldl_nil, PmapIpAdapter.step]
      dsimp only
      rw [hthread]
      rfl
    case roomLock p => exact ReportFollows.stay rfl hpc
    -- the entry is read under its lock, and the call ends here if the prefix is full
    case roomRead p =>
      have hthread : threads t = .room p := (Option.some.inj hpc).symm
      refine ⟨rfl, fun _ => rfl, [.thread t],
        if ((d.actives p).map fun state => decide (state.remaining > 0)).getD true then .query p
        else .idle, ?_, ?_⟩
      · rw [execPoint]
        dsimp only
        split <;> rfl
      · rw [List.foldl_cons, List.foldl_nil, PmapIpAdapter.step, threadStep]
        dsimp only
        rw [hthread]
        rfl
    case queryLock p use =>
      cases use with
      | add => cases hpc
      | raise => exact ReportFollows.stay rfl hpc
    -- the score is queried, to be raised by one
    case queryRead p use =>
      cases use with
      | add => cases hpc
      | raise =>
        have hthread : threads t = .query p := (Option.some.inj hpc).symm
        refine ⟨rfl, fun _ => rfl, [.thread t], _, rfl, ?_⟩
        rw [List.foldl_cons, List.foldl_nil, PmapIpAdapter.step, threadStep]
        dsimp only
        rw [hthread]
        dsimp only
        rw [ConcurrentLazyHeap.query, (fp.seen_frame d.heap).1]
        rfl
    all_goals first
      | cases hpc
      | cases hop

/-! ### Runs -/

section Runs

variable {n : ℕ} {shards : IpShards}

/-- The machine is where the clients are. Their guards are those of their points, so that nobody
pushes on `current` while the feeder is about to read it. -/
structure Refines (ip : PmapIpAdapter scope) (shards : IpShards)
    (s : LockOrder.State (Fin (n + 1)) IpClient IpData IpLock) (m : IpState) : Prop where
  guards : ∀ i, (s.threads i).guards = (ip.clientScopes shards).scope (s.threads i).point
  compatible : Compatible s
  feeder : ip.FeederView (s.threads 0).point s.data m
  responder : ∀ t : Fin n, (s.threads t.succ).point.caller = .responder
  reports : ∀ t : Fin n, (s.threads t.succ).point.thread.point.reportPc = some (m.threads t)

theorem refines_initial (self : PmapIpAdapter scope) (shards : IpShards) :
    self.Refines shards (initialClients n) .initial where
  guards := fun _ => rfl
  compatible := fun _ _ _ _ h => absurd h List.not_mem_nil
  feeder := ⟨rfl, rfl, .idle (by rintro ⟨⟩)⟩
  responder := fun _ => rfl
  reports := fun _ => rfl

variable {s : LockOrder.State (Fin (n + 1)) IpClient IpData IpLock} {m : IpState}

/-- While the feeder is about to read `current`, no responder thread is about to push on it: both
would hold the lock. -/
theorem Refines.not_push (h : self.Refines shards s m) (t : Fin n)
    (hahead : (s.threads 0).point.thread.point.Ahead) (p : BitVec 32) (value : ℚ) :
    (s.threads t.succ).point.thread.point ≠ .updatePush p value := by
  intro hpush
  have hfeeder : ⟨.current, .exclusive⟩ ∈ (s.threads 0).guards := by
    rw [h.guards]
    exact hahead.mem_scope
  have hthread : ⟨.current, .exclusive⟩ ∈ (s.threads t.succ).guards := by
    rw [h.guards]
    change _ ∈ (s.threads t.succ).point.thread.point.scope shards
    rw [hpush]
    exact List.mem_cons_self
  -- both would hold `current` exclusively
  have hshared := h.compatible 0 t.succ (Fin.succ_ne_zero t).symm _ hfeeder _ hthread rfl
  cases hshared.1

/-- A step of a responder. It cannot push while the machine is ahead, since the feeder has the lock
of `current` then. -/
theorem Refines.report_step (h : self.Refines shards s m) (t : Fin n) (input : ClientInput) :
    self.ReportFollows t (s.threads 0).point.thread.point
      (self.clientStep input (s.threads t.succ).point s.data).1.thread.point s.data
      (self.clientStep input (s.threads t.succ).point s.data).2 m := by
  rw [clientStep, h.responder t]
  exact reports_step h.feeder.actives h.feeder.heap (h.reports t) (h.not_push t) input.draw
    input.addr

/-- The machine follows each step of the clients. -/
theorem Refines.step (h : self.Refines shards s m) (act : Fin (n + 1) × ClientInput) :
    ∃ acts : List IpAct,
      self.Refines shards (LockOrder.step (self.clients shards) s act)
        (acts.foldl self.step m) := by
  have hguards := (self.clientScopes shards).guards_step h.guards act
  have hcompatible : Compatible (LockOrder.step (self.clients shards) s act) :=
    compatible_step h.compatible act
  rcases (self.clients shards).step_cases s act with heq | ⟨guards, -, heq⟩
  · -- the thread waits for a lock
    rw [heq]
    exact ⟨[], h⟩
  · rw [heq] at hguards hcompatible ⊢
    obtain ⟨i, input⟩ := act
    induction i using Fin.cases with
    | zero =>
      -- a step of the feeder leaves the responders
      obtain ⟨acts, hview, hthreads⟩ := h.feeder.step input
      refine ⟨acts, hguards, hcompatible, ?_, fun t => ?_, fun t => ?_⟩
      · dsimp only
        rw [Function.update_self]
        exact hview
      · dsimp only
        rw [Function.update_of_ne (Fin.succ_ne_zero t)]
        exact h.responder t
      · dsimp only
        rw [Function.update_of_ne (Fin.succ_ne_zero t), hthreads]
        exact h.reports t
    | succ t =>
      -- a step of a responder leaves the feeder and the other responders
      obtain ⟨hactives, hcurrent, acts, pc, hpc, hrun⟩ := h.report_step t input
      refine ⟨acts, hguards, hcompatible, ?_, fun u => ?_, fun u => ?_⟩
      · dsimp only
        rw [Function.update_of_ne (Fin.succ_ne_zero t).symm, hrun]
        exact ⟨h.feeder.actives.trans hactives.symm, rfl, h.feeder.feeder.congr hcurrent⟩
      · dsimp only
        by_cases hu : u = t
        · subst hu
          rw [Function.update_self]
          change ((s.threads u.succ).point.caller.after _ _) = .responder
          rw [h.responder u]
          rfl
        · rw [Function.update_of_ne (fun heq => hu (Fin.succ_injective n heq))]
          exact h.responder u
      · dsimp only
        rw [hrun]
        dsimp only
        by_cases hu : u = t
        · subst hu
          rw [Function.update_self, Function.update_self]
          exact hpc
        · rw [Function.update_of_ne (fun heq => hu (Fin.succ_injective n heq)),
            Function.update_of_ne (fun heq => hu (Fin.val_injective heq))]
          exact h.reports u

/-- When nobody is inside a method, the machine is not either, and is ahead of nobody. -/
theorem Refines.quiet (h : self.Refines shards s m) {index : ℕ}
    (hfeeder : (s.threads 0).point = ⟨.outside, ⟨.idle, index⟩⟩)
    (hidle : ∀ t : Fin n, (s.threads t.succ).point.thread.point = .idle) :
    m.heap = s.data.heap ∧ m.actives = s.data.actives ∧ m.index = index ∧ m.feeder = .idle ∧
      ∀ t : Fin n, m.threads t = .idle := by
  obtain ⟨hactives, hheap, hat⟩ := h.feeder
  rw [hfeeder] at hheap hat
  obtain ⟨hindex, hpc⟩ := hat.of_outside
  refine ⟨hheap, hactives, hindex, hpc, fun t => ?_⟩
  have hreport := h.reports t
  rw [hidle t] at hreport
  exact (Option.some.inj hreport).symm

/-- **The locked methods run as the machine.** Whatever the feeder and any number of responder
threads do lock by lock, the machine can do: after every run there is a run of the machine after
which each of them stands where its thread stands. When nobody is inside a method, the machine has
just the data behind the locks, so that what holds after every run of the machine holds of them. -/
theorem clients_refine (self : PmapIpAdapter scope) (shards : IpShards) (n : ℕ)
    (acts : List (Fin (n + 1) × ClientInput)) :
    let s := LockOrder.run (self.clients shards) (initialClients n) acts
    ∃ ipActs : List IpAct, self.Refines shards s (self.run ipActs) ∧
      ∀ index, (s.threads 0).point = ⟨.outside, ⟨.idle, index⟩⟩ →
        (∀ t : Fin n, (s.threads t.succ).point.thread.point = .idle) →
        (self.run ipActs).heap = s.data.heap ∧ (self.run ipActs).actives = s.data.actives ∧
          (self.run ipActs).index = index := by
  intro s
  obtain ⟨ipActs, h⟩ := Run.simulates (fun _ _ act h => h.step act) acts
    (self.refines_initial shards (n := n))
  refine ⟨ipActs, h, fun index hfeeder hidle => ?_⟩
  obtain ⟨hheap, hactives, hindex, -⟩ := h.quiet hfeeder hidle
  exact ⟨hheap, hactives, hindex⟩

end Runs

end PmapIpAdapter

end Farsight
