import Farsight.Net.Tcp
import Farsight.Strategy.PortGraph
import Mathlib.Data.List.AList

/-!
# The port strategy

`PmapPortAdapter` decides which port of a host to try next. Every host that is being scanned has a
state: the ports tried so far, a heap of promising ones, and what is left of its budget. The states
are boxes that are allocated once. A box is either in the queue `allocated_states`, or it holds the
state of a host in the map `states`.

* `PmapPortAdapter.State` — the state of a host, and what it does with a result;
* `PmapPortAdapter.visit` — what `on_result` does while it has the entry of the host;
* `PortPool` — the map and the queue, and the single calls to them;
* `PmapPortAdapter.onResult` — `on_result` without interruption.

What the generator returns is given (`HostDraws`); a call that does not get as far as the first draw
leaves the generator as it is.
-/

namespace Farsight

open Machine

/-- `PortRange`, of the configuration. -/
inductive PortRange where
  | range (start last : Port)
  | single (port : Port)
  deriving DecidableEq, Repr

/-- `PortRange::sample`, when the generator returns `r`. -/
def PortRange.sample : PortRange → ℕ → Port
  | .range start last, r => start + BitVec.ofNat 16 (r % (last.toNat - start.toNat + 1))
  | .single port, _ => port

/-- `Expiry`: when the scan of a host ends at the latest. -/
abbrev PortExpiry := ℕ × Ipv4Addr

/-- What the generator returns to one call. -/
structure HostDraws where
  coin : {r : ℚ // 0 ≤ r ∧ r ≤ 1}
  ports : PortDraws
  source : ℕ

/-- The fields of the adapter that never change. -/
structure PmapPortAdapter where
  graph : PortGraph
  epsilon : ℚ
  budgetPerAddress : ℕ
  sourcePort : PortRange

namespace PmapPortAdapter

/-! ### The state of a host -/

/-- The `State` of a host. -/
structure State where
  triedPorts : Finset Port
  heap : LazyHeap Port ℚ
  recommendationIndex : ℕ
  budgetRemaining : ℕ
  seenResponses : BitVec 64 → Option (BitVec 8)

namespace State

/-- `State::default`. -/
def default : State where
  triedPorts := ∅
  heap := .empty
  recommendationIndex := 0
  budgetRemaining := 0
  seenResponses := fun _ => none

/-- `State::clear`. -/
def clear (recommendationIndex budget : ℕ) : State where
  triedPorts := ∅
  heap := .empty
  recommendationIndex
  budgetRemaining := budget
  seenResponses := fun _ => none

/-- `State::prob`. -/
def prob (self : State) (graph : PortGraph) (port : Port) : ℚ :=
  (self.heap.query port).getD (graph.baseProb port)

/-- The first loop of `next_port`: skip recommendations that were tried. There are no more of them
than `fuel`, the length of the list. -/
def skipTried (graph : PortGraph) (tried : Finset Port) : ℕ → ℕ → ℕ
  | 0, index => index
  | fuel + 1, index =>
    match graph.recommendAt index with
    | some port => if port ∈ tried then skipTried graph tried fuel (index + 1) else index
    | none => index

/-- The second loop of `next_port`: pop ports that were tried. Every turn takes an entry from the
heap, which has no more than `fuel`. -/
def popTried (tried : Finset Port) : ℕ → LazyHeap Port ℚ → LazyHeap Port ℚ
  | 0, heap => heap
  | fuel + 1, heap =>
    match heap.top with
    | (some port, heap) => if port ∈ tried then popTried tried fuel heap.pop else heap
    | (none, heap) => heap

/-- `State::next_port`. -/
def nextPort (self : State) (graph : PortGraph) : Option Port × State :=
  let index := skipTried graph self.triedPorts graph.recommendations.length
    self.recommendationIndex
  let (fromHeap, heap) := (popTried self.triedPorts self.heap.current.length self.heap).top
  let self := { self with recommendationIndex := index, heap }
  match fromHeap, graph.recommendAt index with
  | some a, some b => (some (if self.prob graph a > self.prob graph b then a else b), self)
  | some a, none => (some a, self)
  | none, some b => (some b, self)
  | none, none => (none, self)

/-- Raise the score of a port that was open together with `port`. -/
def raise (self : State) (graph : PortGraph) (baseCount : BitVec 64)
    (other : Port × BitVec 64) : State :=
  let conditionalProb : ℚ := (other.2.toNat : ℚ) / (baseCount.toNat : ℚ)
  if conditionalProb > self.prob graph other.1 then
    { self with heap := self.heap.update other.1 conditionalProb }
  else
    self

/-- `State::record_hit`: whether the host answers alike on too many ports. -/
def recordHit (self : State) (graph : PortGraph) (port : Port) (hash : BitVec 64) :
    Bool × State :=
  let count := (self.seenResponses hash).getD 0 + 1
  let self := { self with
    triedPorts := insert port self.triedPorts
    seenResponses := Function.update self.seenResponses hash (some count) }
  if count ≥ graph.threshold then (true, self)
  else
    match graph.coOccurring port with
    | none => (false, self)
    | some coOccurring =>
      let baseCount := graph.openCount port
      if baseCount = 0 then (false, self)
      else (false, coOccurring.foldl (fun self other => self.raise graph baseCount other) self)

/-- `State::record_empty`. -/
def recordEmpty (self : State) (port : Port) : State :=
  { self with triedPorts := insert port self.triedPorts }

/-! Which fields change. -/

theorem nextPort_frame (self : State) (graph : PortGraph) :
    ∃ heap index, (self.nextPort graph).2 =
      { self with heap := heap, recommendationIndex := index } := by
  unfold nextPort
  dsimp only
  split
  all_goals exact ⟨_, _, rfl⟩

theorem raise_frame (self : State) (graph : PortGraph) (baseCount : BitVec 64)
    (other : Port × BitVec 64) :
    ∃ heap, self.raise graph baseCount other = { self with heap := heap } := by
  unfold raise
  dsimp only
  split
  · exact ⟨_, rfl⟩
  · exact ⟨_, rfl⟩

theorem foldl_raise_frame (self : State) (graph : PortGraph) (baseCount : BitVec 64)
    (others : List (Port × BitVec 64)) :
    ∃ heap, others.foldl (fun self other => self.raise graph baseCount other) self =
      { self with heap := heap } := by
  refine List.foldlRecOn (motive := fun state : State => ∃ heap, state = { self with heap := heap })
    others _ ⟨_, rfl⟩ ?_
  rintro _ ⟨heap, rfl⟩ other -
  exact raise_frame { self with heap := heap } graph baseCount other

/-- Besides the heap, `record_hit` changes the tried ports and the count of the response. -/
theorem recordHit_frame (self : State) (graph : PortGraph) (port : Port) (hash : BitVec 64) :
    ∃ heap, self.recordHit graph port hash =
      (decide ((self.seenResponses hash).getD 0 + 1 ≥ graph.threshold),
        { self with
          triedPorts := insert port self.triedPorts
          heap := heap
          seenResponses := Function.update self.seenResponses hash
            (some ((self.seenResponses hash).getD 0 + 1)) }) := by
  unfold recordHit
  dsimp only
  split
  · -- a honeypot: the scores are left alone
    next hle => exact ⟨_, by rw [decide_eq_true hle]⟩
  · next hlt =>
    rw [decide_eq_false hlt]
    cases graph.coOccurring port with
    | none => exact ⟨_, rfl⟩
    | some coOccurring =>
      dsimp only
      split
      · exact ⟨_, rfl⟩
      · -- all other fields are set before the loop
        obtain ⟨heap, hheap⟩ := foldl_raise_frame
          { self with
            triedPorts := insert port self.triedPorts
            seenResponses := Function.update self.seenResponses hash
              (some ((self.seenResponses hash).getD 0 + 1)) }
          graph (graph.openCount port) coOccurring
        exact ⟨heap, by rw [hheap]⟩

end State

/-- How `on_result` ends. -/
inductive Visit where
  /-- The host has no state, or the port was tried before. -/
  | ignored
  /-- The host is taken for a honeypot: its state is removed. -/
  | honeypot
  /-- The budget is spent: the state is removed. -/
  | spent
  /-- There is no port left: the state is removed. -/
  | noPort
  /-- The next probe. -/
  | probe (template : PacketTemplate)
  deriving DecidableEq, Repr

/-- The `match hash` of `on_result`. -/
def recordResult (self : PmapPortAdapter) (port : Port) (hash : Option (BitVec 64))
    (state : State) : Bool × State :=
  match hash with
  | some hash => state.recordHit self.graph port hash
  | none => (false, state.recordEmpty port)

/-- The next port, from the generator or from what is known of the host. -/
def choosePort (self : PmapPortAdapter) (draws : HostDraws) (state : State) :
    Option Port × State :=
  if draws.coin.1 < self.epsilon then
    (PortGraph.explore state.triedPorts draws.ports, state)
  else
    match state.nextPort self.graph with
    | (some port, state) => (some port, state)
    | (none, state) => (PortGraph.explore state.triedPorts draws.ports, state)

/-- What `on_result` does to the state of the host while it has the entry. -/
def visit (self : PmapPortAdapter) (addr : Ipv4Addr) (port : Port) (hash : Option (BitVec 64))
    (draws : HostDraws) (state : State) : Visit × State :=
  if port ∈ state.triedPorts then (.ignored, state)
  else
    let (honeypot, state) := self.recordResult port hash state
    if honeypot then (.honeypot, state)
    else
      -- `saturating_sub`
      let state := { state with budgetRemaining := state.budgetRemaining - 1 }
      if state.budgetRemaining = 0 then (.spent, state)
      else
        let (next, state) := self.choosePort draws state
        match next with
        | none => (.noPort, state)
        | some nextPort =>
          (.probe ⟨self.sourcePort.sample draws.source, addr, nextPort⟩, state)

theorem triedPorts_recordResult (self : PmapPortAdapter) (port : Port)
    (hash : Option (BitVec 64)) (state : State) :
    (self.recordResult port hash state).2.triedPorts = insert port state.triedPorts := by
  cases hash with
  | none => rfl
  | some hash =>
    obtain ⟨heap, hrecord⟩ := state.recordHit_frame self.graph port hash
    rw [recordResult, hrecord]

/-- Choosing a port changes the heap and the place in the list, and nothing that the reports
count. -/
theorem choosePort_frame (self : PmapPortAdapter) (draws : HostDraws) (state : State) :
    ∃ heap index, (self.choosePort draws state).2 =
      { state with heap := heap, recommendationIndex := index } := by
  have hnext := state.nextPort_frame self.graph
  unfold choosePort
  split
  · exact ⟨_, _, rfl⟩
  · -- whether or not `next_port` knows a port
    rcases hport : state.nextPort self.graph with ⟨_ | port, state'⟩
    · rwa [hport] at hnext
    · rwa [hport] at hnext

/-- A port that is chosen is not tried yet: it becomes so with its result. -/
theorem triedPorts_choosePort (self : PmapPortAdapter) (draws : HostDraws) (state : State) :
    (self.choosePort draws state).2.triedPorts = state.triedPorts := by
  obtain ⟨heap, index, hchoose⟩ := self.choosePort_frame draws state
  rw [hchoose]

theorem visit_of_mem (self : PmapPortAdapter) (addr : Ipv4Addr) {port : Port}
    (hash : Option (BitVec 64)) (draws : HostDraws) {state : State}
    (h : port ∈ state.triedPorts) : self.visit addr port hash draws state = (.ignored, state) :=
  if_pos h

/-- A port that was not tried is tried afterwards. -/
theorem visit_of_not_mem (self : PmapPortAdapter) (addr : Ipv4Addr) {port : Port}
    (hash : Option (BitVec 64)) (draws : HostDraws) {state : State}
    (h : port ∉ state.triedPorts) :
    (self.visit addr port hash draws state).1 ≠ .ignored ∧
      port ∈ (self.visit addr port hash draws state).2.triedPorts := by
  unfold visit
  rw [if_neg h]
  have hrecord := self.triedPorts_recordResult port hash state
  rcases hresult : self.recordResult port hash state with ⟨honeypot, state'⟩
  rw [hresult] at hrecord
  have hmem : port ∈ state'.triedPorts := by
    rw [hrecord]
    exact Finset.mem_insert_self _ _
  dsimp only
  split
  · exact ⟨Visit.noConfusion, hmem⟩
  · split
    · exact ⟨Visit.noConfusion, hmem⟩
    · -- the choice of the next port leaves the tried ones as they are
      have hchoose := self.triedPorts_choosePort draws
        { state' with budgetRemaining := state'.budgetRemaining - 1 }
      rcases hnext : self.choosePort draws
        { state' with budgetRemaining := state'.budgetRemaining - 1 } with ⟨_ | nextPort, state''⟩
      all_goals
        rw [hnext] at hchoose
        refine ⟨Visit.noConfusion, ?_⟩
        change port ∈ state''.triedPorts
        rwa [hchoose]

/-! ### A new host -/

/-- The state that `generate` gives to a host: with exploitation the first recommendation is tried
at once. -/
def firstState (self : PmapPortAdapter) (draws : HostDraws) : State :=
  .clear (if draws.coin.1 ≥ self.epsilon then 1 else 0) self.budgetPerAddress

/-- The first port to try. -/
def firstPort (self : PmapPortAdapter) (draws : HostDraws) : Port :=
  if draws.coin.1 ≥ self.epsilon then
    (self.graph.recommendAt 0).getD (PortGraph.exploreEmpty draws.ports)
  else
    PortGraph.exploreEmpty draws.ports

/-- The first probe of a host. -/
def firstProbe (self : PmapPortAdapter) (addr : Ipv4Addr) (draws : HostDraws) : PacketTemplate :=
  ⟨self.sourcePort.sample draws.source, addr, self.firstPort draws⟩

end PmapPortAdapter

/-! ### The pool of states -/

open PmapPortAdapter (State Visit)

/-- The map `states` and the queue `allocated_states`, which holds at most `maxInFlight` boxes.
`panicked` says that a `push(..).unwrap()` has failed. -/
structure PortPool where
  states : AList fun _ : Ipv4Addr => State
  allocatedStates : List State
  maxInFlight : ℕ
  panicked : Bool

namespace PortPool

/-- The pool of a new adapter: all boxes are in the queue. -/
def new (maxInFlight : ℕ) : PortPool where
  states := ∅
  allocatedStates := List.replicate maxInFlight .default
  maxInFlight
  panicked := false

/-- `allocated_states.pop()`. -/
def pop (self : PortPool) : Option State × PortPool :=
  match self.allocatedStates with
  | [] => (none, self)
  | state :: rest => (some state, { self with allocatedStates := rest })

/-- `allocated_states.push(state).unwrap()`. -/
def push (self : PortPool) (state : State) : PortPool :=
  if self.allocatedStates.length < self.maxInFlight then
    { self with allocatedStates := self.allocatedStates ++ [state] }
  else
    { self with panicked := true }

/-- `states.insert(addr, state)`, with the state it replaces. -/
def insert (self : PortPool) (addr : Ipv4Addr) (state : State) : Option State × PortPool :=
  (self.states.lookup addr, { self with states := self.states.insert addr state })

/-- `states.remove(&addr)`. -/
def remove (self : PortPool) (addr : Ipv4Addr) : Option State × PortPool :=
  (self.states.lookup addr, { self with states := self.states.erase addr })

/-- `states.get_mut(&addr)`, and what `on_result` does with the entry until it drops it. -/
def visit (self : PortPool) (adapter : PmapPortAdapter) (addr : Ipv4Addr) (port : Port)
    (hash : Option (BitVec 64)) (draws : HostDraws) : Visit × PortPool :=
  match self.states.lookup addr with
  | none => (.ignored, self)
  | some state =>
    match adapter.visit addr port hash draws state with
    | (.ignored, _) => (.ignored, self)
    | (visit, state) => (visit, { self with states := self.states.insert addr state })

/-- `PmapPortAdapter::remove_state`. -/
def removeState (self : PortPool) (addr : Ipv4Addr) : PortPool :=
  match self.remove addr with
  | (some state, pool) => pool.push state
  | (none, pool) => pool

@[simp] theorem states_push (self : PortPool) (state : State) :
    (self.push state).states = self.states := by
  unfold push
  split <;> rfl

/-- Removing a state gives its box back, and the map only loses the host. -/
theorem states_removeState (self : PortPool) (addr : Ipv4Addr) :
    (self.removeState addr).states = self.states.erase addr := by
  unfold removeState remove
  cases self.states.lookup addr with
  | none => rfl
  | some state => exact states_push _ state

end PortPool

/-- The pool with the generator of a responder thread. -/
structure PortSide where
  pool : PortPool
  rng : ℕ → HostDraws

namespace PmapPortAdapter

/-- `PmapPortGenerationGuard::generate`, without interruption. -/
def generate (self : PmapPortAdapter) (pool : PortPool) (addr : Ipv4Addr) (draws : HostDraws) :
    PacketTemplate × PortPool :=
  match pool.insert addr (self.firstState draws) with
  | (some state, pool) => (self.firstProbe addr draws, pool.push state)
  | (none, pool) => (self.firstProbe addr draws, pool)

/-- `PmapPortAdapter::on_result`, without interruption. -/
def onResult (self : PmapPortAdapter) (side : PortSide) (addr : Ipv4Addr) (port : Port)
    (hash : Option (BitVec 64)) : Option PacketTemplate × PortSide :=
  match side.pool.visit self addr port hash (side.rng 0) with
  | (.ignored, pool) => (none, { side with pool })
  -- the generator was not asked yet
  | (.honeypot, pool) => (none, { side with pool := pool.removeState addr })
  | (.spent, pool) => (none, { side with pool := pool.removeState addr })
  | (.noPort, pool) => (none, ⟨pool.removeState addr, fun n => side.rng (n + 1)⟩)
  | (.probe template, pool) => (some template, ⟨pool, fun n => side.rng (n + 1)⟩)

/-- The result of a port is news to the strategy: the host is being scanned, and the port was not
tried yet. -/
def News (pool : PortPool) (addr : Ipv4Addr) (port : Port) : Prop :=
  ∃ state, pool.states.lookup addr = some state ∧ port ∉ state.triedPorts

/-- What is no news leaves everything as it is, the generator included. -/
theorem onResult_of_not_news (self : PmapPortAdapter) {side : PortSide} {addr : Ipv4Addr}
    {port : Port} (hash : Option (BitVec 64)) (h : ¬ News side.pool addr port) :
    self.onResult side addr port hash = (none, side) := by
  have hvisit : side.pool.visit self addr port hash (side.rng 0) = (.ignored, side.pool) := by
    unfold PortPool.visit
    cases hstate : side.pool.states.lookup addr with
    | none => rfl
    | some state =>
      have htried : port ∈ state.triedPorts := by
        by_contra hnot
        exact h ⟨state, hstate, hnot⟩
      dsimp only
      rw [self.visit_of_mem addr hash (side.rng 0) htried]
  rw [onResult, hvisit]

/-- A result that is news changes the state of its host: the port is tried, or the state is gone. -/
theorem onResult_of_news (self : PmapPortAdapter) {side : PortSide} {addr : Ipv4Addr}
    {port : Port} (hash : Option (BitVec 64)) (h : News side.pool addr port) :
    ∀ state ∈ (self.onResult side addr port hash).2.pool.states.lookup addr,
      port ∈ state.triedPorts := by
  obtain ⟨state, hstate, hnot⟩ := h
  obtain ⟨hvisit, htried⟩ := self.visit_of_not_mem addr hash (side.rng 0) hnot
  -- whatever ends the call, the entry was written, and removed if anything
  have hremoved (pool : PortPool) : ∀ state ∈ (pool.removeState addr).states.lookup addr,
      port ∈ state.triedPorts := by
    intro state' hstate'
    rw [PortPool.states_removeState, AList.lookup_erase] at hstate'
    cases hstate'
  unfold onResult PortPool.visit
  rw [hstate]
  dsimp only
  rcases hresult : self.visit addr port hash (side.rng 0) state with ⟨visit, state'⟩
  rw [hresult] at hvisit htried
  cases visit with
  | ignored => exact absurd rfl hvisit
  | honeypot => exact hremoved _
  | spent => exact hremoved _
  | noPort => exact hremoved _
  | probe template =>
    intro state'' hstate''
    change (side.pool.states.insert addr state').lookup addr = some state'' at hstate''
    rw [AList.lookup_insert] at hstate''
    cases hstate''
    exact htried

end PmapPortAdapter

/-! ### A sample strategy

For the concrete runs about the theorems. -/

theorem zero_mem_coin : (0 : ℚ) ≤ 0 ∧ (0 : ℚ) ≤ 1 := by
  decide

def HostDraws.sample : HostDraws where
  coin := ⟨0, zero_mem_coin⟩
  ports := .counting
  source := 0

/-- Two probes for each host, the first of them to port 80. -/
def PmapPortAdapter.sample : PmapPortAdapter where
  graph := {
    singles := fun _ => none
    doubles := fun _ => none
    total := 0
    recommendations := [80, 443]
    threshold := 3 }
  epsilon := 0
  budgetPerAddress := 2
  sourcePort := .single 61000

end Farsight
