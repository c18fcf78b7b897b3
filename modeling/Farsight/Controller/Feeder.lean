import Farsight.Strategy.IpScope
import Farsight.Strategy.PortAdapter

/-!
# The feeder

`Feeder::tick` draws up to `batch_size` targets, one for each port guard it gets, and hands their
first probes and their expiries over as one batch. A tick in which `next_address` has nothing left
returns at once, so what it has drawn until then is never handed over.

`answers k` is what the `k`-th call of `next_address` returns. A tick is given the clock and, for
each turn of its loop, the guard it gets, if any (`TickInput`).

* `Feeder.tick`, `Feeder.run` — the loop of the session, to the first tick that returns `true`;
* `FeederState.Feeding` — what was drawn is what was handed over and then the current batch;
* `Feeder.handedOver_iff` — in a run that exhausts the scope every target is handed over exactly
  once if and only if the last tick gets nothing from `next_address` at all;
* `Feeder.dvd_iff` — if there always is a guard, that is the case if and only if the number of
  targets is a multiple of `batch_size`;
* `Feeder.oneBlock_lost` — a scope of 256 addresses of which none is handed over.

The machine of the host states takes the guards of a tick from the pool, one call at a time;
`Farsight.Controller.FeederStates` shows that it makes these ticks.
-/

namespace Farsight

/-- The fields of the feeder that never change. -/
structure Feeder where
  start : ℕ
  duration : ℕ
  timeout : ℕ
  batchSize : ℕ
  ports : PmapPortAdapter

/-- The fields of the feeder that change. `calls` counts the calls of `next_address`, `handedOver`
has the two slices of every `batch` call, and `drawn` every target that was drawn, with its
deadline. -/
structure FeederState where
  calls : ℕ
  resultBatch : List PacketTemplate
  expiriesBatch : List PortExpiry
  handedOver : List (List PacketTemplate × List PortExpiry)
  drawn : List PortExpiry

/-- The clock, and the guard that each turn of the loop gets. -/
structure TickInput (batchSize : ℕ) where
  now : ℕ
  guards : List (Option HostDraws)
  length_guards : guards.length = batchSize

/-- How a tick ends. -/
inductive TickEnd where
  /-- `false`: the batch was handed over. -/
  | batched
  /-- `true`: the session is over. -/
  | elapsed
  /-- `true`: there is no address left. -/
  | exhausted
  deriving DecidableEq, Repr

namespace FeederState

/-- A new feeder. -/
def new : FeederState where
  calls := 0
  resultBatch := []
  expiriesBatch := []
  handedOver := []
  drawn := []

def clear (self : FeederState) : FeederState :=
  { self with resultBatch := [], expiriesBatch := [] }

/-- `next_address` was called. -/
def called (self : FeederState) : FeederState :=
  { self with calls := self.calls + 1 }

/-- Push a target on the two batches. -/
def push (self : FeederState) (result : PacketTemplate) (expiry : PortExpiry) : FeederState :=
  { self with
    resultBatch := self.resultBatch ++ [result]
    expiriesBatch := self.expiriesBatch ++ [expiry]
    drawn := self.drawn ++ [expiry] }

/-- `PortBatcher::batch`. -/
def batch (self : FeederState) : FeederState :=
  { self with handedOver := self.handedOver ++ [(self.resultBatch, self.expiriesBatch)] }

/-- The hosts of all templates that were handed over. -/
def handedHosts (self : FeederState) : List Ipv4Addr :=
  self.handedOver.flatMap fun batch => batch.1.map fun template => template.ip

/-- All expiries that were handed over. -/
def handedExpiries (self : FeederState) : List PortExpiry :=
  self.handedOver.flatMap fun batch => batch.2

end FeederState

namespace Feeder

/-- The loop of `tick`, on the guards of the turns that are left. -/
def tickLoop (self : Feeder) (answers : ℕ → Option Ipv4Addr) (timeout : ℕ) :
    List (Option HostDraws) → FeederState → TickEnd × FeederState
  | [], f => (.batched, f.batch)
  -- no state is free: the turn is lost
  | none :: guards, f => self.tickLoop answers timeout guards f
  | some draws :: guards, f =>
    match answers f.calls with
    | some addr =>
      self.tickLoop answers timeout guards
        (f.called.push (self.ports.firstProbe addr draws) (timeout, addr))
    -- returns without `batch`
    | none => (.exhausted, f.called)

/-- `Feeder::tick`. -/
def tick (self : Feeder) (answers : ℕ → Option Ipv4Addr) (input : TickInput self.batchSize)
    (f : FeederState) : TickEnd × FeederState :=
  if input.now - self.start ≥ self.duration then (.elapsed, f)
  else self.tickLoop answers (input.now + self.timeout) input.guards f.clear

/-- The loop of the session: tick until a tick returns `true`, or the inputs end. -/
def run (self : Feeder) (answers : ℕ → Option Ipv4Addr) :
    List (TickInput self.batchSize) → FeederState → TickEnd × FeederState
  | [], f => (.batched, f)
  | input :: inputs, f =>
    match self.tick answers input f with
    | (.batched, f) => self.run answers inputs f
    | result => result

end Feeder

/-! ### Whole ticks -/

variable {answers : ℕ → Option Ipv4Addr}

/-- What was drawn is what was handed over and then the current batch, with a template for each
expiry, and it is what `next_address` has returned. -/
structure FeederState.Feeding (answers : ℕ → Option Ipv4Addr) (f : FeederState) : Prop where
  drawn : f.drawn = f.handedExpiries ++ f.expiriesBatch
  hosts : f.handedHosts = f.handedExpiries.map Prod.snd
  batch : f.resultBatch.map (fun template => template.ip) = f.expiriesBatch.map Prod.snd
  asked : f.drawn.map Prod.snd = (List.range f.calls).filterMap answers

/-- Between two ticks everything was handed over. -/
structure FeederState.Delivered (answers : ℕ → Option Ipv4Addr) (f : FeederState) : Prop where
  drawn : f.drawn = f.handedExpiries
  hosts : f.handedHosts = f.handedExpiries.map Prod.snd
  asked : f.drawn.map Prod.snd = (List.range f.calls).filterMap answers

namespace FeederState

variable {f : FeederState}

theorem Delivered.new : Delivered answers .new :=
  ⟨rfl, rfl, rfl⟩

/-- The batches are cleared at the start of a tick; what was in them has been handed over. -/
theorem Delivered.clear (h : f.Delivered answers) : f.clear.Feeding answers where
  drawn := h.drawn.trans (List.append_nil _).symm
  hosts := h.hosts
  batch := rfl
  asked := h.asked

/-- A target is added to both batches and to what was drawn. -/
theorem Feeding.push (h : f.Feeding answers) {addr : Ipv4Addr} (haddr : answers f.calls = some addr)
    {result : PacketTemplate} (hresult : result.ip = addr) (timeout : ℕ) :
    (f.called.push result (timeout, addr)).Feeding answers where
  drawn := by
    change f.drawn ++ [(timeout, addr)] = f.handedExpiries ++ (f.expiriesBatch ++ [(timeout, addr)])
    rw [h.drawn, List.append_assoc]
  hosts := h.hosts
  batch := by
    change (f.resultBatch ++ [result]).map _ = (f.expiriesBatch ++ [(timeout, addr)]).map _
    rw [List.map_append, List.map_append, h.batch, List.map_singleton, List.map_singleton, hresult]
  asked := by
    change (f.drawn ++ [(timeout, addr)]).map Prod.snd =
      (List.range (f.calls + 1)).filterMap answers
    -- one call more, and its answer
    rw [List.map_append, h.asked, List.range_succ, List.filterMap_append,
      List.filterMap_cons_some haddr]
    rfl

/-- A call that returns `None` draws nothing. -/
theorem Feeding.called (h : f.Feeding answers) (hnone : answers f.calls = none) :
    f.called.Feeding answers where
  drawn := h.drawn
  hosts := h.hosts
  batch := h.batch
  asked := by
    change f.drawn.map Prod.snd = (List.range (f.calls + 1)).filterMap answers
    rw [h.asked, List.range_succ, List.filterMap_append, List.filterMap_cons_none hnone,
      List.filterMap_nil, List.append_nil]

/-- When the batches are handed over, all that was drawn has been. -/
theorem Feeding.deliver (h : f.Feeding answers) : f.batch.Delivered answers where
  drawn := by
    change f.drawn = (f.handedOver ++ [(f.resultBatch, f.expiriesBatch)]).flatMap _
    rw [h.drawn, List.flatMap_append, List.flatMap_singleton]
    rfl
  hosts := by
    change (f.handedOver ++ [(f.resultBatch, f.expiriesBatch)]).flatMap _ =
      ((f.handedOver ++ [(f.resultBatch, f.expiriesBatch)]).flatMap _).map _
    rw [List.flatMap_append, List.flatMap_singleton, List.flatMap_append, List.flatMap_singleton,
      List.map_append, h.batch]
    exact congrArg (· ++ _) h.hosts
  asked := h.asked

end FeederState

namespace Feeder

open FeederState

variable {self : Feeder} {timeout : ℕ} {guards : List (Option HostDraws)} {f f' : FeederState}

/-- A loop that gets to its end hands over what it has drawn. -/
theorem tickLoop_batched (hf : f.Feeding answers)
    (h : self.tickLoop answers timeout guards f = (.batched, f')) : f'.Delivered answers := by
  fun_induction tickLoop self answers timeout guards f with
  | case1 f =>
    obtain rfl := (Prod.mk.inj h).2
    exact hf.deliver
  | case2 guards f ih => exact ih hf h
  | case3 draws guards f addr haddr ih => exact ih (hf.push haddr rfl timeout) h
  | case4 draws guards f haddr => cases h

/-- A loop that is told that nothing is left keeps what it has drawn, less than a batch. It has
drawn nothing if it was told so at once. -/
theorem tickLoop_exhausted (hf : f.Feeding answers)
    (h : self.tickLoop answers timeout guards f = (.exhausted, f')) :
    f'.Feeding answers ∧ ∃ new, f'.expiriesBatch = f.expiriesBatch ++ new ∧
      f'.drawn = f.drawn ++ new ∧ new.length < guards.length ∧
      (new = [] ↔ answers f.calls = none) := by
  fun_induction tickLoop self answers timeout guards f with
  | case1 f => cases h
  -- no guard: the turn is skipped
  | case2 guards f ih =>
    obtain ⟨hf', new, hbatch, hdrawn, hlength, hnil⟩ := ih hf h
    exact ⟨hf', new, hbatch, hdrawn, Nat.lt_succ_of_lt hlength, hnil⟩
  -- an address was drawn, so this tick loses at least one target
  | case3 draws guards f addr haddr ih =>
    obtain ⟨hf', new, hbatch, hdrawn, hlength, -⟩ := ih (hf.push haddr rfl timeout) h
    refine ⟨hf', (timeout, addr) :: new, ?_, ?_, Nat.succ_lt_succ hlength, ?_⟩
    · rw [hbatch]
      exact List.append_assoc _ [_] new
    · rw [hdrawn]
      exact List.append_assoc _ [_] new
    · rw [haddr]
      exact iff_of_false (List.cons_ne_nil _ _) (Option.some_ne_none addr)
  -- no address is left: the loop returns with the batches as they are
  | case4 draws guards f haddr =>
    obtain rfl := (Prod.mk.inj h).2
    exact ⟨hf.called haddr, [], (List.append_nil _).symm, (List.append_nil _).symm,
      Nat.succ_pos _, iff_of_true rfl haddr⟩

theorem tick_batched {input : TickInput self.batchSize} (hf : f.Delivered answers)
    (h : self.tick answers input f = (.batched, f')) : f'.Delivered answers := by
  unfold tick at h
  split at h
  · cases h
  · exact tickLoop_batched hf.clear h

/-- A tick that runs out of addresses keeps what it has drawn in its batches, and nobody will hand
them over. There is something in them unless the very first call of the tick found nothing. -/
theorem tick_exhausted {input : TickInput self.batchSize} (hf : f.Delivered answers)
    (h : self.tick answers input f = (.exhausted, f')) :
    f'.Feeding answers ∧ f'.drawn = f.drawn ++ f'.expiriesBatch ∧
      f'.expiriesBatch.length < self.batchSize ∧
      (f'.expiriesBatch = [] ↔ answers f.calls = none) := by
  unfold tick at h
  split at h
  · cases h
  · obtain ⟨hf', new, hbatch, hdrawn, hlength, hnil⟩ := tickLoop_exhausted hf.clear h
    have hnew : f'.expiriesBatch = new := hbatch
    rw [hnew]
    exact ⟨hf', hdrawn, input.length_guards ▸ hlength, hnil⟩

/-- As long as every tick hands its batch over, nothing is missing between the ticks. -/
theorem run_batched {inputs : List (TickInput self.batchSize)} (hf : f.Delivered answers)
    (h : self.run answers inputs f = (.batched, f')) : f'.Delivered answers := by
  fun_induction run self answers inputs f with
  | case1 f =>
    obtain rfl := (Prod.mk.inj h).2
    exact hf
  | case2 input inputs f f₁ htick ih => exact ih (tick_batched hf htick) h
  | case3 input inputs f htick => exact absurd h (htick f')

/-- A tick hands over once, at its end, or not at all. -/
theorem handedOver_tickLoop {result : TickEnd}
    (h : self.tickLoop answers timeout guards f = (result, f')) :
    f'.handedOver = f.handedOver ++
      if result = .batched then [(f'.resultBatch, f'.expiriesBatch)] else [] := by
  fun_induction tickLoop self answers timeout guards f with
  | case1 f =>
    obtain ⟨rfl, rfl⟩ := Prod.mk.inj h
    rfl
  | case2 guards f ih => exact ih h
  | case3 draws guards f addr haddr ih => exact ih h
  | case4 draws guards f haddr =>
    obtain ⟨rfl, rfl⟩ := Prod.mk.inj h
    exact (List.append_nil _).symm

/-- A tick calls `batch` once, or not at all. -/
theorem handedOver_tick {input : TickInput self.batchSize} {result : TickEnd}
    (h : self.tick answers input f = (result, f')) :
    f'.handedOver = f.handedOver ++
      if result = .batched then [(f'.resultBatch, f'.expiriesBatch)] else [] := by
  unfold tick at h
  split at h
  · obtain ⟨rfl, rfl⟩ := Prod.mk.inj h
    exact (List.append_nil _).symm
  · exact handedOver_tickLoop (f := f.clear) h

/-! ### Guards for everyone -/

/-- With a guard for every turn, a loop that gets to its end draws a target in every turn. -/
theorem length_drawn_tickLoop (hguards : none ∉ guards)
    (h : self.tickLoop answers timeout guards f = (.batched, f')) :
    f'.drawn.length = f.drawn.length + guards.length := by
  fun_induction tickLoop self answers timeout guards f with
  | case1 f =>
    obtain rfl := (Prod.mk.inj h).2
    rfl
  -- every turn has a guard
  | case2 guards f ih => exact absurd List.mem_cons_self hguards
  | case3 draws guards f addr haddr ih =>
    rw [ih (List.not_mem_of_not_mem_cons hguards) h, List.length_cons]
    change (f.drawn ++ [(timeout, addr)]).length + _ = _
    rw [List.length_append, List.length_singleton]
    omega
  | case4 draws guards f haddr => cases h

/-- With a guard for every turn, each tick draws as many targets as the batch has. -/
theorem length_drawn_run {inputs : List (TickInput self.batchSize)}
    (hguards : ∀ input ∈ inputs, none ∉ input.guards)
    (h : self.run answers inputs f = (.batched, f')) :
    f'.drawn.length = f.drawn.length + self.batchSize * inputs.length := by
  fun_induction run self answers inputs f with
  | case1 f =>
    obtain rfl := (Prod.mk.inj h).2
    rfl
  | case2 input inputs f f₁ htick ih =>
    -- a tick that goes through has drawn an address for every guard
    have htick' : f₁.drawn.length = f.drawn.length + self.batchSize := by
      unfold tick at htick
      split at htick
      · cases htick
      · rw [length_drawn_tickLoop (hguards input List.mem_cons_self) htick, input.length_guards]
        rfl
    rw [ih (fun input' hinput' => hguards input' (List.mem_cons_of_mem _ hinput')) h, htick',
      List.length_cons, Nat.mul_succ]
    omega
  | case3 input inputs f htick => exact absurd h (htick f')

/-- If there always is a guard, nothing is lost exactly if the number of targets is a multiple of
the batch size. -/
theorem dvd_iff {inputs : List (TickInput self.batchSize)} {last : TickInput self.batchSize}
    (hguards : ∀ input ∈ inputs, none ∉ input.guards)
    (hrun : self.run answers inputs .new = (.batched, f))
    (hlast : self.tick answers last f = (.exhausted, f')) :
    answers f.calls = none ↔ self.batchSize ∣ f'.drawn.length := by
  obtain ⟨-, hdrawn, hlength, hempty⟩ := tick_exhausted (run_batched .new hrun) hlast
  -- the full ticks draw a whole batch each, so the last tick is told by the remainder
  have hbatches : f.drawn.length = self.batchSize * inputs.length :=
    (length_drawn_run hguards hrun).trans (Nat.zero_add _)
  rw [← hempty, hdrawn, List.length_append, hbatches, Nat.dvd_add_right (Nat.dvd_mul_right _ _)]
  constructor
  · intro h
    rw [h]
    exact Nat.dvd_zero _
  · intro h
    exact List.eq_nil_of_length_eq_zero (Nat.eq_zero_of_dvd_of_lt h hlength)

/-! ### Exhausted scopes -/

/-- Every target that was drawn was handed over once: as the host of one template, and with its
deadline as one expiry. -/
def HandedOverOnce (f : FeederState) : Prop :=
  ∀ expiry ∈ f.drawn, f.handedHosts.count expiry.2 = 1 ∧ f.handedExpiries.count expiry = 1

/-- If no host is drawn twice, that means that the last batch is empty. -/
theorem handedOverOnce_iff (hf : f.Feeding answers) (hnodup : (f.drawn.map Prod.snd).Nodup) :
    HandedOverOnce f ↔ f.expiriesBatch = [] := by
  have hdrawn : (f.handedExpiries ++ f.expiriesBatch).Nodup := hf.drawn ▸ hnodup.of_map
  constructor
  · intro h
    -- a target of the batch would have been handed over before
    rw [List.eq_nil_iff_forall_not_mem]
    intro expiry hmem
    have hcount := (h expiry (hf.drawn ▸ List.mem_append_right _ hmem)).2
    have hhanded : expiry ∈ f.handedExpiries := List.count_pos_iff.mp (by omega)
    exact List.disjoint_of_nodup_append hdrawn hhanded hmem
  · -- with nothing left in the batch, what was drawn is what was handed over
    intro hempty expiry hmem
    have heq : f.drawn = f.handedExpiries := by rw [hf.drawn, hempty, List.append_nil]
    constructor
    · rw [hf.hosts, ← heq]
      exact List.count_eq_one_of_mem hnodup (List.mem_map_of_mem hmem)
    · rw [← heq]
      exact List.count_eq_one_of_mem hnodup.of_map hmem

/-- **Hand-over of an exhausted scope.** Let a run of ticks hand over its batches, and let
`next_address` run out in the tick after it. Then what was drawn is what `next_address` has
returned, and every target was handed over exactly once if and only if that last tick was told so by
its first call. -/
theorem handedOver_iff {scope : Scope} (self : Feeder) (adapter : PmapIpAdapter scope)
    (acts : List IpAct) (answers : ℕ → Option Ipv4Addr)
    (inputs : List (TickInput self.batchSize)) (last : TickInput self.batchSize)
    (f f' : FeederState) (hrun : self.run answers inputs .new = (.batched, f))
    (hlast : self.tick answers last f = (.exhausted, f'))
    (hanswers : (adapter.run acts).results = (List.range f'.calls).map answers) :
    f'.drawn.map Prod.snd = (adapter.run acts).results.filterMap id ∧
      (HandedOverOnce f' ↔ answers f.calls = none) := by
  obtain ⟨hf', -, -, hempty⟩ := tick_exhausted (run_batched .new hrun) hlast
  have hdrawn : f'.drawn.map Prod.snd = (adapter.run acts).results.filterMap id := by
    rw [hf'.asked, hanswers, List.filterMap_map]
    rfl
  refine ⟨hdrawn, ?_⟩
  -- `next_address` never returns an address twice
  have hinv := adapter.run_inv (P := IsPrefix) (fun _ h => h) (fun a _ => isPrefix_prefixId a)
    acts (fun _ a _ => isPrefix_prefixId a)
  rw [handedOverOnce_iff hf' (hdrawn ▸ hinv.nodup), hempty]

/-! ### A block of 256 addresses -/

/-- The scope `10.0.0.0/24`. -/
def oneBlock : Scope where
  source := ⟨[⟨0x0A000000#32, 0x0A0000FF#32⟩]⟩
  ranges := ⟨[(⟨0x0A000000#32, 0x0A0000FF#32⟩, ⟨0, 256⟩)], 256⟩
  compile_eq := rfl

/-- A call of `next_address` by sweep, with its accesses. -/
def callActs (accesses : ℕ) : List IpAct :=
  .nextAddress ⟨0, zero_mem_coin⟩ :: List.replicate accesses (.feeder fun _ => 0)

/-- 257 calls. The first one puts the prefix into the heap, the last one takes it out. -/
def oneBlockActs : List IpAct :=
  callActs 5 ++ (List.replicate 255 (callActs 2)).flatten ++ callActs 6

/-- The addresses in order, and then `None`. -/
def oneBlockAnswers (k : ℕ) : Option Ipv4Addr :=
  if k < 256 then some (BitVec.ofNat 32 (0x0A000000 + k)) else none

/-- An adapter for that scope without history. -/
def oneBlockAdapter : PmapIpAdapter oneBlock :=
  ⟨Equiv.refl _, ⟨fun _ => none⟩, 1 / 2⟩

/-- A turn of the sweep that finds an unmarked address of a prefix in the heap. -/
theorem callActs_known {scope : Scope} (adapter : PmapIpAdapter scope)
    (heps : adapter.epsilon = 1 / 2) {s : IpState} (hidle : s.feeder = .idle) {a : Ipv4Addr}
    (ha : adapter.order s.index = some a)
    (hfree : (s.entry (prefixId a)).scanned (offset a) = false) {v : ℚ}
    (hknown : s.heap.query (prefixId a) = some v) :
    (callActs 2).foldl adapter.step s =
      { s.setEntry (prefixId a) ((s.entry (prefixId a)).markScanned (offset a)).2 with
        index := s.index + 1 }.finish (some a) := by
  have hnext := adapter.sweep_feederStep (fun _ => 0) ha hfree
  change adapter.feederStep _ (adapter.feederStep _ (adapter.step s (.nextAddress _))) = _
  rw [adapter.sweep_call hidle (by rw [heps]; norm_num), hnext]
  split
  · -- the prefix has other free addresses, and is found in the heap
    simp only [PmapIpAdapter.feederStep, IpState.setEntry, hknown]
    rfl
  · rfl

/-- The adapter after `k` calls. -/
def oneBlockAfter (k : ℕ) (state : PrefixState) : IpState where
  heap := ConcurrentLazyHeap.empty.withNew 0x0A0000#32 0
  actives := Function.update (fun _ => none) 0x0A0000#32 (some state)
  index := k
  feeder := .idle
  threads := fun _ => .idle
  results := (List.range k).map oneBlockAnswers

theorem oneBlock_address (k : Fin 256) :
    0x0A000000#32 + BitVec.ofNat 32 k = BitVec.ofNat 32 (0x0A000000 + k) ∧
      prefixId (BitVec.ofNat 32 (0x0A000000 + k)) = 0x0A0000#32 ∧
      offset (BitVec.ofNat 32 (0x0A000000 + k)) = BitVec.ofNat 8 k := by
  revert k
  decide +kernel

/-- The sweep of the one block goes through its addresses in order. -/
theorem oneBlock_order (k : Fin 256) :
    oneBlockAdapter.order k = some (BitVec.ofNat 32 (0x0A000000 + k)) := by
  refine oneBlockAdapter.order_eq_some k.isLt ?_
  rw [← (oneBlock_address k).1]
  exact CompiledRanges.index_singleton oneBlock.compile_eq k.isLt

theorem oneBlockAnswers_of_lt {k : ℕ} (hk : k < 256) :
    oneBlockAnswers k = some (BitVec.ofNat 32 (0x0A000000 + k)) :=
  if_pos hk

/-- The calls that return an address. -/
theorem oneBlock_run {k : ℕ} (hk : k < 256) :
    ∃ state, (callActs 5 ++ (List.replicate k (callActs 2)).flatten).foldl oneBlockAdapter.step
        .initial = oneBlockAfter (k + 1) state ∧
      ∀ o, state.scanned o = decide (o.toNat ≤ k) := by
  induction k with
  -- the first call makes the entry of the prefix, and takes five steps
  | zero =>
    have hfirst := oneBlockAdapter.sweepActs_run rfl (s := .initial) rfl (oneBlock_order 0)
      (PrefixState.scanned_new _) (by decide) rfl
    refine ⟨(PrefixState.new.markScanned 0#8).2, ?_, fun o => ?_⟩
    · rw [List.replicate_zero, List.flatten_nil, List.append_nil]
      exact hfirst
    · rw [(PrefixState.markScanned_of_unscanned (PrefixState.scanned_new 0#8)).2,
        PrefixState.scanned_new, Bool.or_false]
      exact decide_eq_decide.mpr (by bv_omega)
  | succ k ih =>
    obtain ⟨state, hrun, hscanned⟩ := ih (Nat.lt_of_succ_lt hk)
    obtain ⟨-, hpre, hoffset⟩ := oneBlock_address ⟨k + 1, hk⟩
    dsimp only at hpre hoffset
    have hentry : (oneBlockAfter (k + 1) state).entry 0x0A0000#32 = state := by
      simp [IpState.entry, oneBlockAfter]
    -- the next offset is free, since only those up to `k` are scanned
    have hfree : state.scanned (BitVec.ofNat 8 (k + 1)) = false := by
      rw [hscanned, BitVec.toNat_ofNat, Nat.mod_eq_of_lt hk]
      exact decide_eq_false (Nat.not_succ_le_self k)
    have hcall := callActs_known oneBlockAdapter rfl (s := oneBlockAfter (k + 1) state) rfl
      (oneBlock_order ⟨k + 1, hk⟩) (by rw [hpre, hoffset, hentry]; exact hfree) (v := 0)
      (by rw [hpre]; rfl)
    rw [hpre, hoffset, hentry] at hcall
    refine ⟨(state.markScanned (BitVec.ofNat 8 (k + 1))).2, ?_, fun o => ?_⟩
    · rw [List.replicate_succ', List.flatten_concat, ← List.append_assoc, List.foldl_append, hrun,
        hcall]
      simp only [oneBlockAfter, IpState.finish, IpState.setEntry, Function.update_idem,
        List.range_succ (n := k + 1), List.map_append, List.map_singleton,
        oneBlockAnswers_of_lt hk]
    · have hnew : o = BitVec.ofNat 8 (k + 1) ↔ o.toNat = k + 1 := by
        rw [← BitVec.toNat_inj, BitVec.toNat_ofNat, Nat.mod_eq_of_lt hk]
      rw [(PrefixState.markScanned_of_unscanned hfree).2, hscanned, ← Bool.decide_or]
      exact decide_eq_decide.mpr (by rw [hnew]; omega)

/-- The answers of the address strategy to 257 calls: the 256 addresses of the block, and then
none. -/
theorem results_oneBlock :
    (oneBlockAdapter.run oneBlockActs).results = (List.range 257).map oneBlockAnswers := by
  obtain ⟨state, hrun, hscanned⟩ := oneBlock_run (k := 255) (by decide)
  -- no offset is free
  have hused : state.fetchUnscanned (fun _ => 0#8) = none := by
    rw [Option.eq_none_iff_forall_ne_some]
    intro o hfetch
    have hfree := PrefixState.scanned_of_fetchUnscanned hfetch
    rw [hscanned, decide_eq_false_iff_not] at hfree
    bv_omega
  let s := oneBlockAfter 256 state
  have hentry : s.entry 0x0A0000#32 = state := by simp [s, IpState.entry, oneBlockAfter]
  -- the sweep is over, and the prefix on top of the heap has no free address
  have hend : oneBlockAdapter.feederStep (fun _ => 0#8) { s with feeder := .next } =
      { s with feeder := .tryPickTop true } := rfl
  have htop : oneBlockAdapter.feederStep (fun _ => 0#8) { s with feeder := .tryPickTop true } =
      { s with feeder := .tryPickEntry true 0x0A0000#32 } := rfl
  have hpop : oneBlockAdapter.feederStep (fun _ => 0#8)
      { s with feeder := .tryPickEntry true 0x0A0000#32 } =
        { s.setEntry 0x0A0000#32 state with
          feeder := .tryPickPop true none ConcurrentLazyHeap.pop } := by
    simp only [PmapIpAdapter.feederStep]
    rw [show ({ s with feeder := .tryPickEntry true 0x0A0000#32 } : IpState).entry 0x0A0000#32 =
      state from hentry, hused]
    split <;> rfl
  rw [PmapIpAdapter.run, oneBlockActs, List.foldl_append, hrun]
  change (oneBlockAdapter.feederStep _ (oneBlockAdapter.feederStep _ (oneBlockAdapter.feederStep _
    (oneBlockAdapter.feederStep (fun _ => 0#8) (oneBlockAdapter.feederStep (fun _ => 0#8)
      (oneBlockAdapter.feederStep (fun _ => 0#8) (oneBlockAdapter.step s
        (.nextAddress _)))))))).results = _
  rw [oneBlockAdapter.sweep_call rfl (by norm_num [oneBlockAdapter]), hend, htop, hpop,
    List.range_succ, List.map_append]
  rfl

/-- A feeder with batches of 16. -/
def batchesOf16 : Feeder where
  start := 0
  duration := 1000
  timeout := 10
  batchSize := 16
  ports := .sample

/-- A tick in which the first `missing` guards are not available. -/
def tickMissing (missing : Fin 16) (now : ℕ) : TickInput batchesOf16.batchSize where
  now
  guards := List.replicate missing none ++ List.replicate (16 - missing) (some .sample)
  length_guards := by
    have := missing.isLt
    rw [List.length_append, List.length_replicate, List.length_replicate]
    change _ = 16
    omega

/-- Sixteen ticks. In the first of them one guard is not available. -/
def sixteenTicks : FeederState :=
  (batchesOf16.run oneBlockAnswers
    (tickMissing 1 0 :: (List.range 15).map fun k => tickMissing 0 (k + 1)) .new).2

/-- The tick after them. -/
def lastTick : FeederState :=
  (batchesOf16.tick oneBlockAnswers (tickMissing 0 16) sixteenTicks).2

set_option maxRecDepth 10000 in
/-- Sixteen ticks go through, one turn of the first without a guard, so that 255 targets are handed
over. The last tick draws the last address and then finds none. -/
theorem lastTick_eq :
    (batchesOf16.run oneBlockAnswers
      (tickMissing 1 0 :: (List.range 15).map fun k => tickMissing 0 (k + 1)) .new).1 = .batched ∧
    (batchesOf16.tick oneBlockAnswers (tickMissing 0 16) sixteenTicks).1 = .exhausted ∧
    lastTick.calls = 257 ∧ (26, 0x0A0000FF#32) ∈ lastTick.drawn ∧
    0x0A0000FF#32 ∉ lastTick.handedHosts ∧ (26, 0x0A0000FF#32) ∉ lastTick.handedExpiries := by
  decide +kernel

theorem lastTick_exhausted :
    batchesOf16.tick oneBlockAnswers (tickMissing 0 16) sixteenTicks = (.exhausted, lastTick) := by
  rw [lastTick, ← lastTick_eq.2.1]

theorem sixteenTicks_batched :
    batchesOf16.run oneBlockAnswers
      (tickMissing 1 0 :: (List.range 15).map fun k => tickMissing 0 (k + 1)) .new =
        (.batched, sixteenTicks) := by
  rw [sixteenTicks, ← lastTick_eq.1]

/-- The answers that the feeder gets in these ticks are those of a run of the address strategy. -/
theorem results_lastTick :
    (oneBlockAdapter.run oneBlockActs).results =
      (List.range lastTick.calls).map oneBlockAnswers := by
  rw [lastTick_eq.2.2.1]
  exact results_oneBlock

/-- **The last address of a scope is lost.** One guard is missing once, so the 17th tick draws the
last address of the block, and drops it when its second call returns `None`. -/
theorem oneBlock_lost :
    batchesOf16.run oneBlockAnswers
      (tickMissing 1 0 :: (List.range 15).map fun k => tickMissing 0 (k + 1)) .new =
        (.batched, sixteenTicks) ∧
    batchesOf16.tick oneBlockAnswers (tickMissing 0 16) sixteenTicks = (.exhausted, lastTick) ∧
    (oneBlockAdapter.run oneBlockActs).results = (List.range lastTick.calls).map oneBlockAnswers ∧
    (26, 0x0A0000FF#32) ∈ lastTick.drawn ∧ 0x0A0000FF#32 ∉ lastTick.handedHosts ∧
    (26, 0x0A0000FF#32) ∉ lastTick.handedExpiries := by
  obtain ⟨-, -, -, hdrawn, hhosts, hexpiries⟩ := lastTick_eq
  exact ⟨sixteenTicks_batched, lastTick_exhausted, results_lastTick, hdrawn, hhosts, hexpiries⟩

/-- The run meets the conditions of the theorem. -/
theorem handedOver_iff_oneBlock :
    HandedOverOnce lastTick ↔ oneBlockAnswers sixteenTicks.calls = none :=
  (handedOver_iff batchesOf16 oneBlockAdapter oneBlockActs oneBlockAnswers _ (tickMissing 0 16)
    sixteenTicks lastTick sixteenTicks_batched lastTick_exhausted results_lastTick).2

end Feeder

end Farsight
