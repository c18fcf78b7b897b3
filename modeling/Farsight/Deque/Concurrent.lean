import Farsight.Deque.Worker

/-!
# The deque under concurrency

One owner runs `push` (with `resize`), any number of stealers run `steal` and `steal_batch`. Every
atomic load, store, swap and compare-exchange and every read or write of a single slot is one step,
in one total order. Computations on locals, the owner's `buffer` and `cached_cons` cells and the
destination of a stealer are no steps of their own.

* Buffers are addressed by allocation (`mem`). The epoch guard keeps a replaced buffer alive while a
  stealer may hold it, so allocations are never reused.
* The counters are unbounded, and every computation of the code is made on their 64-bit words
  (`word`). Only the compare-exchange is idealised by this: it tells apart two values of `consumed`
  that are `2 ^ 64` items apart.
* A stealer that reads past a buffer, or a slot that was never written, reads no value
  (`Buffer.load`). The owner has no such excuse: a write that leaves its buffer stops it
  (`OwnerPc.undefined`).
-/

namespace Farsight

open Machine

/-- The word of a counter. -/
def word (counter : ℕ) : Isize :=
  BitVec.ofNat 64 counter

variable {T : Type}

/-- What a stealer reads from a slot. -/
def Buffer.load (self : Buffer T) (slot : ℕ) : Option T :=
  if slot < self.cap then self.slots slot else none

def Buffer.store (self : Buffer T) (slot : ℕ) (value : Option T) : Buffer T :=
  self.withSlots (Function.update self.slots slot value)

/-- What the owner does next. `prod` is the value of `produced` that `push` read. -/
inductive OwnerPc (T : Type) where
  | idle
  /-- `push`: read `produced` and compare it with the cached counter. -/
  | readProd (task : List T)
  /-- `push`: reload `consumed` and compare again. -/
  | loadCons (task : List T) (prod : ℕ)
  /-- `resize`: load `produced`. -/
  | resizeProd (task : List T) (prod : ℕ)
  /-- `resize`: load `consumed` and allocate. -/
  | resizeCons (task : List T) (prod : ℕ) (stop : ℕ)
  /-- `resize`: read the next slot to move; without one, swap the buffers. -/
  | resizeRead (task : List T) (prod : ℕ) (new : ℕ) (moves : List (ℕ × ℕ))
  /-- `resize`: write the slot that was read. -/
  | resizeWrite (task : List T) (prod : ℕ) (new : ℕ) (value : Option T) (slot : ℕ)
      (moves : List (ℕ × ℕ))
  /-- `push`: the buffer is chosen, the copy starts. -/
  | copy (task : List T) (prod : ℕ)
  /-- `push`: write the next item; without one, store `produced`. -/
  | write (task : List T) (prod : ℕ) (moves : List (ℕ × ℕ))
  /-- The allocation panicked. -/
  | panicked
  /-- A copy left its buffer. -/
  | undefined

/-- The two operations of a stealer. -/
inductive StealCall where
  | steal
  | stealBatch (capacity : ℕ)
  deriving DecidableEq, Repr

/-- How many items the operation asks for when it sees `len` of them. -/
def StealCall.count (len : ℕ) : StealCall → ℕ
  | .steal => min len 1
  | .stealBatch capacity => (stealBatchSize len capacity).toNat

/-- The slots the operation reads, in order. -/
def StealCall.slots (buffer : Buffer T) (f n : ℕ) : StealCall → List ℕ
  | .steal => [buffer.slotAt (word f)]
  | .stealBatch _ => (buffer.stealPlan (word f) (BitVec.ofNat 64 n)).map Prod.fst

/-- What a stealer does next. `f` is the value of `consumed` it loaded, `n` the number of items it
wants. -/
inductive StealerPc (T : Type) where
  | idle
  | loadCons (call : StealCall)
  | loadProd (call : StealCall) (f : ℕ)
  | loadBuffer (call : StealCall) (f n : ℕ)
  /-- Read the next slot; without one, load the buffer pointer again. -/
  | read (f n : ℕ) (buffer : ℕ) (slots : List ℕ) (values : List (Option T))
  | compareExchange (f n : ℕ) (values : List (Option T))

/-- What a steal returned. A success comes with the value of `consumed` it advanced. -/
structure StealReturn (T : Type) where
  stealer : ℕ
  result : Steal (ℕ × List (Option T))

/-- What is in memory: the three atomics of `Inner`, the buffers by allocation, and the two cells of
the owner. `pushed` records the published items. -/
structure DequeMemory (T : Type) where
  consumed : ℕ
  produced : ℕ
  buffer : ℕ
  mem : ℕ → Buffer T
  fresh : ℕ
  cachedCons : ℕ
  ownBuffer : ℕ
  pushed : List T

/-- The memory with the owner, the stealers and the record of what they returned. -/
structure DequeState (T : Type) extends DequeMemory T where
  owner : OwnerPc T
  stealers : ℕ → StealerPc T
  returns : List (StealReturn T)

namespace DequeMemory

/-- The owner's buffer. -/
def own (m : DequeMemory T) : Buffer T :=
  m.mem m.ownBuffer

/-- `prod.wrapping_sub(cons) >= buffer.cap as isize`. -/
def fullFor (m : DequeMemory T) (prod cons : ℕ) : Bool :=
  (BitVec.ofNat 64 m.own.cap).sle (word prod - word cons)

end DequeMemory

namespace DequeState

/-- `Worker::new`. -/
def initial : DequeState T where
  consumed := 0
  produced := 0
  buffer := 0
  mem := fun _ => ⟨minCap, fun _ => none, ⟨6, rfl⟩, by decide⟩
  fresh := 1
  cachedCons := 0
  ownBuffer := 0
  owner := .idle
  stealers := fun _ => .idle
  pushed := []
  returns := []

def setStealer (s : DequeState T) (t : ℕ) (pc : StealerPc T) : DequeState T :=
  { s with stealers := Function.update s.stealers t pc }

/-- Stealer `t` returns. -/
def finish (s : DequeState T) (t : ℕ) (result : Steal (ℕ × List (Option T))) : DequeState T :=
  { s.setStealer t .idle with returns := s.returns ++ [⟨t, result⟩] }

/-- The next step of `push` and `resize`. -/
def ownerStep (size : ℕ+) (s : DequeState T) : DequeState T :=
  match s.owner with
  | .readProd task =>
    let prod := s.produced
    if s.fullFor prod s.cachedCons then
      { s with owner := .loadCons task prod }
    else
      { s with owner := .copy task prod }
  | .loadCons task prod =>
    let cons := s.consumed
    if s.fullFor prod cons then
      { s with cachedCons := cons, owner := .resizeProd task prod }
    else
      { s with cachedCons := cons, owner := .copy task prod }
  | .resizeProd task prod =>
    { s with owner := .resizeCons task prod s.produced }
  | .resizeCons task prod stop =>
    let cons := s.consumed
    let old := s.own
    match Buffer.alloc size (2 * old.cap) with
    | .error _ => { s with owner := .panicked }
    | .ok new =>
      { s with
        mem := Function.update s.mem s.fresh new
        fresh := s.fresh + 1
        owner := .resizeRead task prod s.fresh (old.resizePlan new (word cons) (word stop)) }
  | .resizeRead task prod new ((i, j) :: moves) =>
    { s with owner := .resizeWrite task prod new (s.own.slots i) j moves }
  | .resizeRead task prod new [] =>
    -- `self.buffer.replace` and `inner.buffer.swap`; the old buffer stays readable
    { s with buffer := new, ownBuffer := new, owner := .copy task prod }
  | .resizeWrite task prod new value j moves =>
    if j < (s.mem new).cap then
      { s with
        mem := Function.update s.mem new ((s.mem new).store j value)
        owner := .resizeRead task prod new moves }
    else
      { s with owner := .undefined }
  | .copy task prod =>
    -- planned whether the slice fits the buffer or not
    { s with owner := .write task prod (s.own.pushPlan (word prod) (word (prod + task.length))) }
  | .write task prod ((i, j) :: moves) =>
    if j < s.own.cap then
      { s with
        mem := Function.update s.mem s.ownBuffer (s.own.store j task[i]?)
        owner := .write task prod moves }
    else
      { s with owner := .undefined }
  | .write task prod [] =>
    { s with
      produced := prod + task.length
      pushed := s.pushed ++ task
      owner := .idle }
  | .idle | .panicked | .undefined => s

/-- The next step of stealer `t`. -/
def stealerStep (t : ℕ) (s : DequeState T) : DequeState T :=
  match s.stealers t with
  | .idle => s
  | .loadCons call => s.setStealer t (.loadProd call s.consumed)
  | .loadProd call f =>
    let n := call.count (stealLen (word s.produced) (word f))
    if n = 0 then s.finish t .empty else s.setStealer t (.loadBuffer call f n)
  | .loadBuffer call f n =>
    s.setStealer t (.read f n s.buffer (call.slots (s.mem s.buffer) f n) [])
  | .read f n buffer (i :: slots) values =>
    s.setStealer t (.read f n buffer slots (values ++ [(s.mem buffer).load i]))
  | .read f n buffer [] values =>
    -- a buffer that was replaced meanwhile may have been read too late
    if s.buffer = buffer then s.setStealer t (.compareExchange f n values)
    else s.finish t .retry
  | .compareExchange f n values =>
    if s.consumed = f then
      { s.finish t (.success (f, values)) with consumed := f + n }
    else
      s.finish t .retry

end DequeState

/-- The schedule: calls, and who makes the next step. -/
inductive DequeAct (T : Type) where
  | push (task : List T)
  | owner
  | steal (t : ℕ) (call : StealCall)
  | stealer (t : ℕ)

namespace DequeState

/-- One action. A call is taken by a party that has none in progress. -/
def step (size : ℕ+) (s : DequeState T) : DequeAct T → DequeState T
  | .push task =>
    match s.owner with
    | .idle => { s with owner := .readProd task }
    | _ => s
  | .owner => s.ownerStep size
  | .steal t call =>
    match s.stealers t with
    | .idle => s.setStealer t (.loadCons call)
    | _ => s
  | .stealer t => s.stealerStep t

def run (size : ℕ+) (acts : List (DequeAct T)) : DequeState T :=
  acts.foldl (step size) initial

/-- The deliveries: the value of `consumed` that was advanced, and the values. -/
def deliveries (s : DequeState T) : List (ℕ × List (Option T)) :=
  s.returns.filterMap fun r =>
    match r.result with
    | .success delivery => some delivery
    | _ => none

/-- A push that is about to copy fits the buffer it copies into. -/
def PushFits (s : DequeState T) : Prop :=
  ∀ task prod, s.owner = .copy task prod → prod + task.length ≤ s.consumed + s.own.cap

/-- Every push of the run fits the buffer it is copied into. -/
def AllFit (size : ℕ+) (acts : List (DequeAct T)) : Prop :=
  ∀ done, done <+: acts → (run size done).PushFits

end DequeState

end Farsight
