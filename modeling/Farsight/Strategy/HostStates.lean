import Farsight.Lib.Custody
import Farsight.Strategy.PortAdapter

/-!
# The states of the hosts

The boxed states of the port strategy go round between the feeder, which gives one to every new
host, any number of responder threads, which take it away when a host is done, and the expirer,
which takes it away when a host has had its time. The machine has one step for each call to the map
`states` and to the queue `allocated_states`; what a thread does between two calls belongs to the
step before.

* `FeedPc`, `PoolPc`, `ExpirePc` — where the feeder, a responder thread and the expirer stand;
* `HostStates.step`, `HostStates.run` — the machine;
* `HostStates.BoxInv` — every box is in the queue, in the map or in somebody's hands, until the
  feeder drops one at the end;
* `HostStates.ExpiryInv` — every host in the map has an expiry that was not dealt with yet;
* `HostStates.no_leak` — both hold in every run, and no `push` panics.

Handing over the templates touches neither, so `batch` is one step. The expiries deque is an exact
FIFO.
-/

namespace Farsight

open PmapPortAdapter (State Visit)

/-! ### The machine -/

/-- Where the feeder stands. `left` is the number of turns that are left in this tick, and
`deadline` when its hosts expire. -/
inductive FeedPc where
  /-- Between two ticks. -/
  | start
  /-- About to ask for a guard, or to hand over the batch after the last turn. -/
  | turn (left deadline : ℕ)
  /-- Has a guard: about to draw an address and to insert its state. -/
  | guarded (left deadline : ℕ) (state : State)
  /-- The host had a state before: about to give its box back. -/
  | replacing (left deadline : ℕ) (old : State) (addr : Ipv4Addr)
  /-- The session is over. -/
  | elapsed
  /-- There was no address left, and the guard was dropped. -/
  | exhausted

/-- Where a responder thread stands in `on_result`. -/
inductive PoolPc where
  | idle
  /-- `remove_state`: about to remove the state. -/
  | removing (addr : Ipv4Addr)
  /-- `remove_state`: about to give its box back. -/
  | pushing (state : State)

/-- Where the expirer stands in `expire`. -/
inductive ExpirePc where
  | idle
  /-- About to take the next expiry. -/
  | turn (left now : ℕ)
  /-- The expiry is due: about to remove the state. -/
  | removing (left now : ℕ) (expiry : PortExpiry)
  /-- About to give its box back. -/
  | pushing (left now : ℕ) (state : State)

/-- The parameters of the machine. -/
structure HostStates where
  ports : PmapPortAdapter
  start : ℕ
  duration : ℕ
  timeout : ℕ
  batchSize : ℕ
  timeoutBatch : ℕ
  maxInFlight : ℕ

/-- The shared data and where everyone stands, with `n` responder threads. -/
structure HostStatesState (n : ℕ) where
  pool : PortPool
  expiriesBatch : List PortExpiry
  expiries : List PortExpiry
  pending : Option PortExpiry
  feeder : FeedPc
  threads : Fin n → PoolPc
  expirer : ExpirePc

/-- One step of a run, with what the clock, the generator and `next_address` return. -/
inductive HostAct (n : ℕ) where
  /-- The next step of the feeder. -/
  | feeder (now : ℕ) (answer : Option Ipv4Addr) (draws : HostDraws)
  /-- Thread `i` calls `on_result`, and does what it does while it has the entry. -/
  | onResult (i : Fin n) (addr : Ipv4Addr) (port : Port) (hash : Option (BitVec 64))
      (draws : HostDraws)
  /-- The next step of thread `i`. -/
  | thread (i : Fin n)
  /-- `expire(now)` is called. -/
  | expire (now : ℕ)
  /-- The next step of the expirer. -/
  | expirer

namespace HostStates

variable {n : ℕ}

def initial (self : HostStates) (n : ℕ) : HostStatesState n where
  pool := .new self.maxInFlight
  expiriesBatch := []
  expiries := []
  pending := none
  feeder := .start
  threads := fun _ => .idle
  expirer := .idle

/-- The next step of the feeder. -/
def feederStep (self : HostStates) (now : ℕ) (answer : Option Ipv4Addr) (draws : HostDraws)
    (s : HostStatesState n) : HostStatesState n :=
  match s.feeder with
  | .start =>
    if now - self.start ≥ self.duration then { s with feeder := .elapsed }
    else { s with feeder := .turn self.batchSize (now + self.timeout) }
  | .turn 0 _ =>
    -- the batch is cleared when the next tick begins, before it is used again
    { s with expiries := s.expiries ++ s.expiriesBatch, expiriesBatch := [], feeder := .start }
  | .turn (left + 1) deadline =>
    match s.pool.pop with
    | (some state, pool) => { s with pool, feeder := .guarded left deadline state }
    | (none, pool) => { s with pool, feeder := .turn left deadline }
  | .guarded left deadline _ =>
    match answer with
    | none => { s with feeder := .exhausted }
    | some addr =>
      match s.pool.insert addr (self.ports.firstState draws) with
      | (some old, pool) => { s with pool, feeder := .replacing left deadline old addr }
      | (none, pool) =>
        { s with
          pool
          expiriesBatch := s.expiriesBatch ++ [(deadline, addr)]
          feeder := .turn left deadline }
  | .replacing left deadline old addr =>
    { s with
      pool := s.pool.push old
      expiriesBatch := s.expiriesBatch ++ [(deadline, addr)]
      feeder := .turn left deadline }
  | .elapsed => s
  | .exhausted => s

/-- Move a thread. -/
def moveTo (s : HostStatesState n) (i : Fin n) (pc : PoolPc) : HostStatesState n :=
  { s with threads := Function.update s.threads i pc }

/-- A call of `on_result`, up to the end of its entry. -/
def onResultStep (self : HostStates) (i : Fin n) (addr : Ipv4Addr) (port : Port)
    (hash : Option (BitVec 64)) (draws : HostDraws) (s : HostStatesState n) : HostStatesState n :=
  match s.threads i with
  | .idle =>
    match s.pool.visit self.ports addr port hash draws with
    | (.ignored, pool) => { s with pool }
    | (.probe _, pool) => { s with pool }
    | (_, pool) => moveTo { s with pool } i (.removing addr)
  | _ => s

/-- The next step of a thread that removes a state. -/
def threadStep (i : Fin n) (s : HostStatesState n) : HostStatesState n :=
  match s.threads i with
  | .idle => s
  | .removing addr =>
    match s.pool.remove addr with
    | (some state, pool) => moveTo { s with pool } i (.pushing state)
    | (none, pool) => moveTo { s with pool } i .idle
  | .pushing state => moveTo { s with pool := s.pool.push state } i .idle

/-- The expirer looks at an expiry it has taken. -/
def takeExpiry (left now : ℕ) (expiry : PortExpiry) (s : HostStatesState n) :
    HostStatesState n :=
  if expiry.1 > now then { s with pending := some expiry, expirer := .idle }
  else { s with expirer := .removing left now expiry }

/-- The next step of the expirer. -/
def expirerStep (s : HostStatesState n) : HostStatesState n :=
  match s.expirer with
  | .idle => s
  | .turn 0 _ => { s with expirer := .idle }
  | .turn (left + 1) now =>
    match s.pending with
    -- an expiry that was not due in the last call comes first
    | some expiry => takeExpiry left now expiry { s with pending := none }
    | none =>
      match s.expiries with
      | [] => { s with expirer := .idle }
      | expiry :: rest => takeExpiry left now expiry { s with expiries := rest }
  | .removing left now expiry =>
    match s.pool.remove expiry.2 with
    | (some state, pool) => { s with pool, expirer := .pushing left now state }
    -- the scan of the address has ended before
    | (none, pool) => { s with pool, expirer := .turn left now }
  | .pushing left now state => { s with pool := s.pool.push state, expirer := .turn left now }

def step (self : HostStates) (s : HostStatesState n) : HostAct n → HostStatesState n
  | .feeder now answer draws => self.feederStep now answer draws s
  | .onResult i addr port hash draws => self.onResultStep i addr port hash draws s
  | .thread i => threadStep i s
  | .expire now =>
    match s.expirer with
    | .idle => { s with expirer := .turn self.timeoutBatch now }
    | _ => s
  | .expirer => expirerStep s

/-- The state after a run of a new session. -/
def run (self : HostStates) (acts : List (HostAct n)) : HostStatesState n :=
  acts.foldl self.step (self.initial n)

end HostStates

/-! ### Boxes -/

namespace PortPool

variable {pool pool' : PortPool}

/-- The boxes in the queue and in the map. -/
def boxes (pool : PortPool) : ℕ :=
  pool.allocatedStates.length + pool.states.keys.length

theorem boxes_new (maxInFlight : ℕ) : (new maxInFlight).boxes = maxInFlight := by
  change (List.replicate maxInFlight _).length + 0 = maxInFlight
  rw [List.length_replicate, Nat.add_zero]

/-- A call puts `given` boxes into the pool and takes `taken` out of it. It does not panic. -/
structure Moves (given taken : ℕ) (pool pool' : PortPool) : Prop where
  boxes : pool'.boxes + taken = pool.boxes + given
  maxInFlight : pool'.maxInFlight = pool.maxInFlight
  panicked : pool'.panicked = pool.panicked

theorem Moves.refl (pool : PortPool) : Moves 0 0 pool pool :=
  ⟨rfl, rfl, rfl⟩

theorem moves_pop {state : State} (h : pool.pop = (some state, pool')) : Moves 0 1 pool pool' := by
  unfold pop at h
  split at h
  · cases h
  · next rest hallocated =>
    cases h
    refine ⟨?_, rfl, rfl⟩
    change rest.length + pool.states.keys.length + 1 = pool.allocatedStates.length + _
    rw [hallocated, List.length_cons]
    exact Nat.add_right_comm _ _ _

theorem states_pop {state : Option State} (h : pool.pop = (state, pool')) :
    pool'.states = pool.states := by
  unfold pop at h
  split at h
  · cases h
    rfl
  · cases h
    rfl

/-- An empty queue stays as it is. -/
theorem eq_of_pop_none (h : pool.pop = (none, pool')) : pool' = pool := by
  unfold pop at h
  split at h
  · cases h
    rfl
  · cases h

/-- There is room for a box if one is missing. -/
theorem moves_push (state : State) (h : pool.boxes < pool.maxInFlight) :
    Moves 1 0 pool (pool.push state) := by
  have hroom : pool.allocatedStates.length < pool.maxInFlight :=
    Nat.lt_of_le_of_lt (Nat.le_add_right _ _) h
  rw [push, if_pos hroom]
  refine ⟨?_, rfl, rfl⟩
  change (pool.allocatedStates ++ [state]).length + pool.states.keys.length + 0 = _
  rw [List.length_append, List.length_singleton, boxes]
  omega

/-- An erasure removes what the lookup finds. -/
theorem length_keys_erase (states : AList fun _ : Ipv4Addr => State) (addr : Ipv4Addr) :
    (states.erase addr).keys.length + (states.lookup addr).toList.length = states.keys.length := by
  rw [AList.keys_erase]
  cases hlookup : states.lookup addr with
  | none =>
    rw [List.erase_of_not_mem (AList.lookup_eq_none.mp hlookup)]
    rfl
  | some state =>
    have hmem : addr ∈ states.keys := AList.lookup_isSome.mp (by rw [hlookup]; rfl)
    have hpos := List.length_pos_of_mem hmem
    rw [List.length_erase_of_mem hmem]
    change states.keys.length - 1 + 1 = _
    omega

/-- A state that is removed from the map goes with its box into the hands of the caller. Nothing
moves if the host had none. -/
theorem moves_remove {addr : Ipv4Addr} {state : Option State}
    (h : pool.remove addr = (state, pool')) : Moves 0 state.toList.length pool pool' := by
  obtain ⟨rfl, rfl⟩ := Prod.mk.inj h
  refine ⟨?_, rfl, rfl⟩
  have hlength := length_keys_erase pool.states addr
  change pool.allocatedStates.length + (pool.states.erase addr).keys.length + _ = _
  rw [Nat.add_assoc, hlength]
  rfl

/-- An insertion erases first. -/
theorem moves_insert {addr : Ipv4Addr} {state : State} {old : Option State}
    (h : pool.insert addr state = (old, pool')) : Moves 1 old.toList.length pool pool' := by
  obtain ⟨rfl, rfl⟩ := Prod.mk.inj h
  refine ⟨?_, rfl, rfl⟩
  have hlength := length_keys_erase pool.states addr
  rw [AList.keys_erase] at hlength
  change pool.allocatedStates.length + (pool.states.insert addr state).keys.length + _ = _
  rw [AList.keys_insert, List.length_cons, boxes, ← hlength]
  omega

/-- A visit writes the state of a host that has one. -/
theorem moves_visit {adapter : PmapPortAdapter} {addr : Ipv4Addr} {port : Port}
    {hash : Option (BitVec 64)} {draws : HostDraws} {result : Visit}
    (h : pool.visit adapter addr port hash draws = (result, pool')) :
    Moves 0 0 pool pool' ∧ ∀ addr', addr' ∈ pool'.states → addr' ∈ pool.states := by
  unfold visit at h
  cases hlookup : pool.states.lookup addr with
  -- not a host of this strategy, or one that was removed by another thread: nothing is touched
  | none =>
    rw [hlookup] at h
    cases h
    exact ⟨.refl pool, fun _ => id⟩
  | some state =>
    rw [hlookup] at h
    have hmem : addr ∈ pool.states := AList.lookup_isSome.mp (by rw [hlookup]; rfl)
    -- the entry is written, or left as it is
    have hinsert (state' : State) :
        Moves 0 0 pool { pool with states := pool.states.insert addr state' } ∧
          ∀ addr', addr' ∈ pool.states.insert addr state' → addr' ∈ pool.states := by
      have hinsert : pool.insert addr state' =
          (some state, { pool with states := pool.states.insert addr state' }) :=
        congrArg (Prod.mk · _) hlookup
      have hmoves := moves_insert hinsert
      refine ⟨⟨Nat.add_right_cancel hmoves.boxes, rfl, rfl⟩, fun addr' haddr' => ?_⟩
      rcases (AList.mem_insert _).mp haddr' with rfl | hmem'
      · exact hmem
      · exact hmem'
    dsimp only at h
    split at h
    · cases h
      exact ⟨.refl pool, fun _ => id⟩
    · cases h
      exact hinsert _

end PortPool

/-- The boxes that the feeder has. -/
def FeedPc.inHand : FeedPc → ℕ
  | .guarded _ _ _ => 1
  | .replacing _ _ _ _ => 1
  | _ => 0

/-- The boxes that the feeder has dropped. -/
def FeedPc.dropped : FeedPc → ℕ
  | .exhausted => 1
  | _ => 0

/-- The boxes that a responder thread has. -/
def PoolPc.inHand : PoolPc → ℕ
  | .pushing _ => 1
  | _ => 0

/-- The boxes that the expirer has. -/
def ExpirePc.inHand : ExpirePc → ℕ
  | .pushing _ _ _ => 1
  | _ => 0

namespace HostStates

open PortPool

variable {n : ℕ} {self : HostStates} {s s' : HostStatesState n} {size given taken : ℕ}

/-- The boxes in the hands of the feeder, of the responder threads and of the expirer. -/
def inHands (s : HostStatesState n) : ℕ :=
  s.feeder.inHand + Custody.held PoolPc.inHand s.threads + s.expirer.inHand

/-- All boxes: in the queue, in the map, and in somebody's hands. -/
def boxes (s : HostStatesState n) : ℕ :=
  s.pool.boxes + inHands s

/-- No box is lost but the one the feeder drops, and no `push` has failed. -/
structure BoxInv (size : ℕ) (s : HostStatesState n) : Prop where
  boxes : boxes s + s.feeder.dropped = size
  maxInFlight : s.pool.maxInFlight = size
  panicked : s.pool.panicked = false

/-- At the start all boxes are in the queue and nobody has one. -/
theorem BoxInv.initial (self : HostStates) : BoxInv self.maxInFlight (self.initial n) where
  boxes := by
    have hheld : Custody.held PoolPc.inHand (self.initial n).threads = 0 :=
      Custody.held_eq_zero fun _ => rfl
    change (PortPool.new self.maxInFlight).boxes + (0 + Custody.held _ _ + 0) + 0 = _
    rw [boxes_new, hheld]
    rfl
  maxInFlight := rfl
  panicked := rfl

/-- What a call takes from the pool goes into a hand, and what it puts there comes from one. -/
theorem BoxInv.moves (h : BoxInv size s) (hpool : Moves given taken s.pool s'.pool)
    (hhands : inHands s' + s'.feeder.dropped + given = inHands s + s.feeder.dropped + taken) :
    BoxInv size s' where
  boxes := by
    have hboxes := h.boxes
    have hpool' := hpool.boxes
    rw [HostStates.boxes] at hboxes ⊢
    omega
  maxInFlight := hpool.maxInFlight.trans h.maxInFlight
  panicked := hpool.panicked.trans h.panicked

/-- As long as a box is in somebody's hands, the queue has room for it. -/
theorem BoxInv.room (h : BoxInv size s) (hhands : 0 < inHands s) :
    s.pool.boxes < s.pool.maxInFlight := by
  have hboxes := h.boxes
  rw [h.maxInFlight, ← hboxes, HostStates.boxes]
  omega

/-- A step of the feeder. -/
theorem BoxInv.feeder (h : BoxInv size s) (hpool : Moves given taken s.pool s'.pool)
    (hthreads : s'.threads = s.threads) (hexpirer : s'.expirer = s.expirer)
    (hhand : s'.feeder.inHand + s'.feeder.dropped + given =
      s.feeder.inHand + s.feeder.dropped + taken) : BoxInv size s' := by
  refine h.moves hpool ?_
  rw [inHands, inHands, hthreads, hexpirer]
  omega

/-- A step of the expirer. -/
theorem BoxInv.expirer (h : BoxInv size s) (hpool : Moves given taken s.pool s'.pool)
    (hfeeder : s'.feeder = s.feeder) (hthreads : s'.threads = s.threads)
    (hhand : s'.expirer.inHand + given = s.expirer.inHand + taken) : BoxInv size s' := by
  refine h.moves hpool ?_
  rw [inHands, inHands, hfeeder, hthreads]
  omega

/-- Moving one thread changes the boxes in hands by what this thread has before and after. It is
stated as a sum, so that no subtraction is needed. -/
theorem inHands_moveTo (s : HostStatesState n) (i : Fin n) (pc : PoolPc) :
    inHands (moveTo s i pc) + (s.threads i).inHand = inHands s + pc.inHand := by
  have hheld := Custody.held_update PoolPc.inHand s.threads i pc
  change s.feeder.inHand + Custody.held _ (Function.update s.threads i pc) + s.expirer.inHand + _ =
    s.feeder.inHand + Custody.held _ s.threads + s.expirer.inHand + _
  omega

/-- A step of a responder thread. -/
theorem BoxInv.thread (h : BoxInv size s) {pool' : PortPool} {i : Fin n} {pc : PoolPc}
    (hpool : Moves given taken s.pool pool')
    (hhand : pc.inHand + given = (s.threads i).inHand + taken) :
    BoxInv size (moveTo { s with pool := pool' } i pc) := by
  have hmove := inHands_moveTo { s with pool := pool' } i pc
  apply h.moves hpool
  change inHands _ + (s.threads i).inHand = inHands s + pc.inHand at hmove
  change inHands _ + s.feeder.dropped + given = _
  omega

/-- A step of the feeder keeps count of the boxes. Its guard goes into the map with the new host, a
state that this replaces goes back to the queue, and only a guard that finds no address is
dropped. -/
theorem boxInv_feederStep (h : BoxInv size s) (now : ℕ) (answer : Option Ipv4Addr)
    (draws : HostDraws) : BoxInv size (self.feederStep now answer draws s) := by
  unfold feederStep
  cases hpc : s.feeder with
  | start =>
    dsimp only
    split
    · exact h.feeder (.refl _) rfl rfl (by rw [hpc]; rfl)
    · exact h.feeder (.refl _) rfl rfl (by rw [hpc]; rfl)
  | turn left deadline =>
    cases left with
    | zero => exact h.feeder (.refl _) rfl rfl (by rw [hpc]; rfl)
    | succ left =>
      dsimp only
      split
      · next state pool hpop => exact h.feeder (moves_pop hpop) rfl rfl (by rw [hpc]; rfl)
      · next pool hpop =>
        obtain rfl := eq_of_pop_none hpop
        exact h.feeder (.refl _) rfl rfl (by rw [hpc]; rfl)
  | guarded left deadline state =>
    cases answer with
    -- out of addresses: the guard is dropped, which is the one box that may be missing
    | none => exact h.feeder (.refl _) rfl rfl (by rw [hpc]; rfl)
    | some addr =>
      dsimp only
      split
      · next old pool hinsert => exact h.feeder (moves_insert hinsert) rfl rfl (by rw [hpc]; rfl)
      · next pool hinsert => exact h.feeder (moves_insert hinsert) rfl rfl (by rw [hpc]; rfl)
  | replacing left deadline old addr =>
    -- the box in hand is one that the queue and the map do not have, so there is room for it
    have hroom : s.pool.boxes < s.pool.maxInFlight := by
      apply h.room
      rw [inHands, hpc]
      simp only [FeedPc.inHand]
      omega
    exact h.feeder (moves_push old hroom) rfl rfl (by rw [hpc]; rfl)
  | elapsed => exact h
  | exhausted => exact h

/-- The responder does not touch the boxes while it visits a state in the map. It takes one away in
later steps only. -/
theorem boxInv_onResultStep (h : BoxInv size s) (i : Fin n) (addr : Ipv4Addr) (port : Port)
    (hash : Option (BitVec 64)) (draws : HostDraws) :
    BoxInv size (self.onResultStep i addr port hash draws s) := by
  unfold onResultStep
  cases hpc : s.threads i with
  | idle =>
    dsimp only
    rcases hvisit : s.pool.visit self.ports addr port hash draws with ⟨result, pool⟩
    have hmoves := (moves_visit hvisit).1
    cases result with
    | ignored =>
      change BoxInv size { s with pool }
      exact h.moves hmoves rfl
    | probe template =>
      change BoxInv size { s with pool }
      exact h.moves hmoves rfl
    -- the scan of the address ends, and its state is still in the pool
    | honeypot => exact h.thread hmoves (by rw [hpc]; rfl)
    | spent => exact h.thread hmoves (by rw [hpc]; rfl)
    | noPort => exact h.thread hmoves (by rw [hpc]; rfl)
  | removing addr => exact h
  | pushing state => exact h

/-- Removing the state of a host that is done, and giving its box back, are two calls. Another
thread may come in between, and the box is then in the hands of this one. -/
theorem boxInv_threadStep (h : BoxInv size s) (i : Fin n) : BoxInv size (threadStep i s) := by
  unfold threadStep
  cases hpc : s.threads i with
  | idle => exact h
  | removing addr =>
    dsimp only
    split
    · next state pool hremove => exact h.thread (moves_remove hremove) (by rw [hpc]; rfl)
    · next pool hremove => exact h.thread (moves_remove hremove) (by rw [hpc]; rfl)
  | pushing state =>
    -- the thread holds the state that it pushes, so there is a free place for it
    have hhand := inHands_moveTo s i .idle
    rw [hpc] at hhand
    simp only [PoolPc.inHand] at hhand
    exact h.thread (moves_push state (h.room (by omega))) (by rw [hpc]; rfl)

/-- Taking an expiry moves no box. -/
theorem boxInv_takeExpiry (h : BoxInv size s) (hhand : s.expirer.inHand = 0) (left now : ℕ)
    (expiry : PortExpiry) : BoxInv size (takeExpiry left now expiry s) := by
  unfold takeExpiry
  split
  · exact h.expirer (.refl _) rfl rfl (by rw [hhand]; rfl)
  · exact h.expirer (.refl _) rfl rfl (by rw [hhand]; rfl)

/-- The same for a host whose time is up. A host that is done already has no state, and the expirer
gets nothing. -/
theorem boxInv_expirerStep (h : BoxInv size s) : BoxInv size (expirerStep s) := by
  unfold expirerStep
  cases hpc : s.expirer with
  | idle => exact h
  | turn left now =>
    cases left with
    | zero => exact h.expirer (.refl _) rfl rfl (by rw [hpc]; rfl)
    | succ left =>
      dsimp only
      split
      · -- the expiry that was kept back from the tick before comes first
        refine boxInv_takeExpiry ?_ rfl _ _ _
        exact h.expirer (.refl _) rfl rfl (by rw [hpc])
      · split
        · exact h.expirer (.refl _) rfl rfl (by rw [hpc]; rfl)
        · refine boxInv_takeExpiry ?_ rfl _ _ _
          exact h.expirer (.refl _) rfl rfl (by rw [hpc])
  | removing left now expiry =>
    dsimp only
    split
    · next state pool hremove =>
      exact h.expirer (moves_remove hremove) rfl rfl (by rw [hpc]; rfl)
    · next pool hremove => exact h.expirer (moves_remove hremove) rfl rfl (by rw [hpc]; rfl)
  | pushing left now state =>
    -- as for the feeder: the box in hand is not in the queue
    have hroom : s.pool.boxes < s.pool.maxInFlight := by
      apply h.room
      rw [inHands, hpc]
      simp only [ExpirePc.inHand]
      omega
    exact h.expirer (moves_push state hroom) rfl rfl (by rw [hpc]; rfl)

/-- Every step of every party keeps count of the boxes. -/
theorem boxInv_step (h : BoxInv size s) (act : HostAct n) : BoxInv size (self.step s act) := by
  cases act with
  | feeder now answer draws => exact boxInv_feederStep h now answer draws
  | onResult i addr port hash draws => exact boxInv_onResultStep h i addr port hash draws
  | thread i => exact boxInv_threadStep h i
  | expire now =>
    unfold step
    cases hpc : s.expirer with
    | idle => exact h.expirer (.refl _) rfl rfl (by rw [hpc]; rfl)
    | turn _ _ => exact h
    | removing _ _ _ => exact h
    | pushing _ _ _ => exact h
  | expirer => exact boxInv_expirerStep h

/-- The boxes are all accounted for in every run, whatever the order of the steps. -/
theorem boxInv_run (self : HostStates) (acts : List (HostAct n)) :
    BoxInv self.maxInFlight (self.run acts) :=
  List.foldlRecOn acts self.step (BoxInv.initial self) fun _ hs act _ => boxInv_step hs act

/-! ### Expiries -/

end HostStates

/-- The expiry that the expirer deals with. -/
def ExpirePc.processing : ExpirePc → List PortExpiry
  | .removing _ _ expiry => [expiry]
  | _ => []

namespace HostStates

open PortPool

variable {n : ℕ} {self : HostStates} {s s' : HostStatesState n}

/-- The expiries in the current batch of the feeder, in the deque, and with the expirer. -/
def outstanding (s : HostStatesState n) : List PortExpiry :=
  s.expiriesBatch ++ s.expiries ++ s.pending.toList ++ s.expirer.processing

/-- Every host with a state has an expiry. -/
def ExpiryInv (s : HostStatesState n) : Prop :=
  ∀ addr ∈ s.pool.states, addr ∈ (outstanding s).map Prod.snd

theorem ExpiryInv.initial (self : HostStates) : ExpiryInv (self.initial n) := by
  intro addr haddr
  exact absurd haddr (AList.notMem_empty addr)

/-- No host gets a state, and no expiry is lost. -/
theorem ExpiryInv.mono (h : ExpiryInv s)
    (hstates : ∀ addr ∈ s'.pool.states, addr ∈ s.pool.states)
    (houtstanding : ∀ expiry ∈ outstanding s, expiry ∈ outstanding s') : ExpiryInv s' := by
  intro addr haddr
  obtain ⟨expiry, hexpiry, rfl⟩ := List.mem_map.mp (h addr (hstates addr haddr))
  exact List.mem_map_of_mem (houtstanding expiry hexpiry)

theorem mem_outstanding {expiry : PortExpiry} :
    expiry ∈ outstanding s ↔ expiry ∈ s.expiriesBatch ∨ expiry ∈ s.expiries ∨
      s.pending = some expiry ∨ expiry ∈ s.expirer.processing := by
  rw [outstanding, List.mem_append, List.mem_append, List.mem_append, Option.mem_toList, or_assoc,
    or_assoc]

/-- The expirer moves and deals with the same expiry as before. -/
theorem ExpiryInv.expirer (h : ExpiryInv s)
    (hstates : ∀ addr ∈ s'.pool.states, addr ∈ s.pool.states)
    (hbatch : s'.expiriesBatch = s.expiriesBatch) (hdeque : s'.expiries = s.expiries)
    (hpending : s'.pending = s.pending)
    (hprocessing : s'.expirer.processing = s.expirer.processing) : ExpiryInv s' := by
  refine h.mono hstates fun expiry hexpiry => ?_
  rwa [outstanding, hbatch, hdeque, hpending, hprocessing]

/-- A step of the feeder keeps an expiry for every host: a new host comes into the map in the same
step as its expiry into the batch. -/
theorem expiryInv_feederStep (h : ExpiryInv s) (now : ℕ) (answer : Option Ipv4Addr)
    (draws : HostDraws) : ExpiryInv (self.feederStep now answer draws s) := by
  unfold feederStep
  cases s.feeder with
  | start =>
    dsimp only
    split
    · exact h
    · exact h
  | turn left deadline =>
    cases left with
    | zero =>
      -- the batch goes to the end of the deque
      refine h.mono (fun _ => id) fun expiry hexpiry => ?_
      rw [mem_outstanding] at hexpiry ⊢
      simp only [List.mem_append, List.not_mem_nil, false_or]
      tauto
    | succ left =>
      dsimp only
      split
      · next state pool hpop => exact h.mono (states_pop hpop ▸ fun _ => id) fun _ => id
      · next pool hpop => exact h.mono (states_pop hpop ▸ fun _ => id) fun _ => id
  | guarded left deadline state =>
    cases answer with
    | none => exact h
    | some addr =>
      dsimp only
      split
      · next old pool hinsert =>
        -- the host has an expiry from before
        obtain ⟨hold, rfl⟩ := Prod.mk.inj hinsert
        refine h.mono (fun addr' haddr' => ?_) fun _ => id
        rcases (AList.mem_insert _).mp haddr' with rfl | hmem
        · exact AList.lookup_isSome.mp (by rw [hold]; rfl)
        · exact hmem
      · next pool hinsert =>
        -- a new host, whose expiry goes into the batch at once
        obtain ⟨hold, rfl⟩ := Prod.mk.inj hinsert
        intro addr' haddr'
        rcases (AList.mem_insert _).mp haddr' with rfl | hmem
        · refine List.mem_map.mpr ⟨(deadline, addr'), mem_outstanding.mpr (.inl ?_), rfl⟩
          exact List.mem_append_right _ List.mem_cons_self
        · obtain ⟨expiry, hexpiry, rfl⟩ := List.mem_map.mp (h addr' hmem)
          refine List.mem_map_of_mem (mem_outstanding.mpr ?_)
          exact (mem_outstanding.mp hexpiry).imp_left (List.mem_append_left _)
  | replacing left deadline old addr =>
    -- the expiry of the new occupancy is added to that of the old one
    refine h.mono (fun addr' haddr' => ?_) fun expiry hexpiry => ?_
    · rwa [show (s.pool.push old).states = s.pool.states from states_push _ _] at haddr'
    · rw [mem_outstanding] at hexpiry ⊢
      exact hexpiry.imp_left (List.mem_append_left _)
  | elapsed => exact h
  | exhausted => exact h

theorem states_of_remove {pool pool' : PortPool} {addr : Ipv4Addr} {state : Option State}
    (h : pool.remove addr = (state, pool')) {addr' : Ipv4Addr} (hmem : addr' ∈ pool'.states) :
    addr' ≠ addr ∧ addr' ∈ pool.states := by
  obtain ⟨-, rfl⟩ := Prod.mk.inj h
  exact AList.mem_erase.mp hmem

/-- A report adds no host to the map, and leaves the expiries alone. -/
theorem expiryInv_onResultStep (h : ExpiryInv s) (i : Fin n) (addr : Ipv4Addr) (port : Port)
    (hash : Option (BitVec 64)) (draws : HostDraws) :
    ExpiryInv (self.onResultStep i addr port hash draws s) := by
  unfold onResultStep
  cases s.threads i with
  | idle =>
    dsimp only
    rcases hvisit : s.pool.visit self.ports addr port hash draws with ⟨result, pool⟩
    have hstates := (moves_visit hvisit).2
    cases result with
    | ignored => exact h.mono hstates fun _ => id
    | probe template => exact h.mono hstates fun _ => id
    | honeypot => exact h.mono hstates fun _ => id
    | spent => exact h.mono hstates fun _ => id
    | noPort => exact h.mono hstates fun _ => id
  | removing addr => exact h
  | pushing state => exact h

/-- A host that is removed leaves its expiry behind. The expirer will find nothing there, which is
why the invariant goes from hosts to expiries and not back. -/
theorem expiryInv_threadStep (h : ExpiryInv s) (i : Fin n) : ExpiryInv (threadStep i s) := by
  unfold threadStep
  cases s.threads i with
  | idle => exact h
  | removing addr =>
    dsimp only
    split
    · next state pool hremove =>
      exact h.mono (fun _ hmem => (states_of_remove hremove hmem).2) fun _ => id
    · next pool hremove =>
      exact h.mono (fun _ hmem => (states_of_remove hremove hmem).2) fun _ => id
  | pushing state => exact h.mono (states_push s.pool state ▸ fun _ => id) fun _ => id

@[simp] theorem pool_takeExpiry (left now : ℕ) (expiry : PortExpiry) (s : HostStatesState n) :
    (takeExpiry left now expiry s).pool = s.pool := by
  unfold takeExpiry
  split <;> rfl

/-- An expiry that is taken waits in `pending`, or is dealt with. -/
theorem mem_outstanding_takeExpiry {left now : ℕ} {expiry expiry' : PortExpiry}
    (h : expiry' = expiry ∨ expiry' ∈ s.expiriesBatch ∨ expiry' ∈ s.expiries) :
    expiry' ∈ outstanding (takeExpiry left now expiry s) := by
  rw [mem_outstanding]
  unfold takeExpiry
  -- not due: it becomes the pending one. Due: the loop holds it
  split
  · rcases h with rfl | hbatch | hdeque
    · exact .inr (.inr (.inl rfl))
    · exact .inl hbatch
    · exact .inr (.inl hdeque)
  · rcases h with rfl | hbatch | hdeque
    · exact .inr (.inr (.inr List.mem_cons_self))
    · exact .inl hbatch
    · exact .inr (.inl hdeque)

/-- The expirer gives up an expiry only when it removes the host, or when the expiry is due and the
host was removed by others. -/
theorem expiryInv_expirerStep (h : ExpiryInv s) : ExpiryInv (expirerStep s) := by
  unfold expirerStep
  cases hpc : s.expirer with
  | idle => exact h
  | turn left now =>
    -- nothing is being dealt with
    have hempty (expiry : PortExpiry) (hexpiry : expiry ∈ outstanding s) :
        expiry ∈ s.expiriesBatch ∨ expiry ∈ s.expiries ∨ s.pending = some expiry := by
      rw [mem_outstanding, hpc] at hexpiry
      simpa [ExpirePc.processing] using hexpiry
    cases left with
    | zero => exact h.expirer (fun _ => id) rfl rfl rfl (by rw [hpc]; rfl)
    | succ left =>
      dsimp only
      split
      · next expiry hpending =>
        refine h.mono (by simp) fun expiry' hexpiry' => ?_
        apply mem_outstanding_takeExpiry
        rcases hempty expiry' hexpiry' with hbatch | hdeque | htaken
        · exact .inr (.inl hbatch)
        · exact .inr (.inr hdeque)
        · rw [hpending] at htaken
          exact .inl (Option.some.inj htaken).symm
      · next hpending =>
        split
        · exact h.expirer (fun _ => id) rfl rfl rfl (by rw [hpc]; rfl)
        · next expiry rest hexpiries =>
          refine h.mono (by simp) fun expiry' hexpiry' => ?_
          apply mem_outstanding_takeExpiry
          rcases hempty expiry' hexpiry' with hbatch | hdeque | htaken
          · exact .inr (.inl hbatch)
          · rw [hexpiries] at hdeque
            exact (List.mem_cons.mp hdeque).imp_right .inr
          · rw [hpending] at htaken
            cases htaken
  | removing left now expiry =>
    -- the host of the expiry has no state afterwards, and the others have other expiries
    have hremoved {pool : PortPool} {state : Option State} {pc : ExpirePc}
        (hremove : s.pool.remove expiry.2 = (state, pool)) :
        ExpiryInv { s with pool, expirer := pc } := by
      intro addr haddr
      obtain ⟨hne, hmem⟩ := states_of_remove hremove haddr
      obtain ⟨expiry', hexpiry', rfl⟩ := List.mem_map.mp (h addr hmem)
      refine List.mem_map_of_mem (mem_outstanding.mpr ?_)
      rw [mem_outstanding, hpc] at hexpiry'
      rcases hexpiry' with hbatch | hdeque | hpending | hprocessing
      · exact .inl hbatch
      · exact .inr (.inl hdeque)
      · exact .inr (.inr (.inl hpending))
      · exact absurd (congrArg Prod.snd (List.mem_singleton.mp hprocessing)) hne
    dsimp only
    split
    · next state pool hremove => exact hremoved hremove
    · next pool hremove => exact hremoved hremove
  | pushing left now state =>
    exact h.expirer (states_push s.pool state ▸ fun _ => id) rfl rfl rfl (by rw [hpc]; rfl)

/-- Every step keeps an expiry for every host in the map. -/
theorem expiryInv_step (h : ExpiryInv s) (act : HostAct n) : ExpiryInv (self.step s act) := by
  cases act with
  | feeder now answer draws => exact expiryInv_feederStep h now answer draws
  | onResult i addr port hash draws => exact expiryInv_onResultStep h i addr port hash draws
  | thread i => exact expiryInv_threadStep h i
  | expire now =>
    unfold step
    cases hpc : s.expirer with
    | idle => exact h.expirer (fun _ => id) rfl rfl rfl (by rw [hpc]; rfl)
    | turn _ _ => exact h
    | removing _ _ _ => exact h
    | pushing _ _ _ => exact h
  | expirer => exact expiryInv_expirerStep h

/-- No host stays in the map without an expiry that will remove it. -/
theorem expiryInv_run (self : HostStates) (acts : List (HostAct n)) : ExpiryInv (self.run acts) :=
  List.foldlRecOn acts self.step (ExpiryInv.initial self) fun _ hs act _ => expiryInv_step hs act

/-- **No box is lost, and no host is forgotten.** In every run, with any number of responder
threads, there are as many boxes in the queue, in the map and in somebody's hands as were allocated,
less the one that the feeder drops when the addresses run out. So no `push` ever panics. And every
host with a state has an expiry in the current batch of the feeder, in the deque or with the
expirer. -/
theorem no_leak (self : HostStates) (n : ℕ) (acts : List (HostAct n)) :
    boxes (self.run acts) ≤ self.maxInFlight ∧
    ((self.run acts).feeder ≠ .exhausted → boxes (self.run acts) = self.maxInFlight) ∧
    (self.run acts).pool.panicked = false ∧
    ∀ addr ∈ (self.run acts).pool.states, ∃ expiry ∈ outstanding (self.run acts),
      expiry.2 = addr := by
  have hboxes := (boxInv_run self acts).boxes
  refine ⟨by omega, ?_, (boxInv_run self acts).panicked, ?_⟩
  · intro hfeeder
    -- a state is dropped only by the feeder, when the addresses are exhausted while it holds one
    have hnone : (self.run acts).feeder.dropped = 0 := by
      unfold FeedPc.dropped
      split
      · next hexhausted => exact absurd hexhausted hfeeder
      · rfl
    rwa [hnone] at hboxes
  · intro addr haddr
    exact List.mem_map.mp (expiryInv_run self acts addr haddr)

end HostStates

end Farsight
