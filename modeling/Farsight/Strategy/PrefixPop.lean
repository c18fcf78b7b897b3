import Farsight.Lib.Run
import Farsight.Strategy.IpScope

/-!
# Prefixes that leave the heap

`try_pick` reads the top of the heap, takes an address of that prefix, and calls `pop` if none is
left. The prefix that `pop` removes is the one on top when it runs. In the meantime responder
threads may have reported hits, and another prefix may stand there.

* `PickState` — the machine, with the prefix that `heap.top()` has returned to `try_pick`;
* `PmapIpAdapter.TopChosen` — a `pop` finds that prefix on top, if it finds any;
* `PmapIpAdapter.RemovesExhausted` — a `pop` removes only prefixes without free addresses;
* `PmapIpAdapter.removesExhausted_of_topChosen` — the second follows from the first along every run;
* `PmapIpAdapter.topChosen_of_no_report` — without reports the condition holds by itself;
* `PmapIpAdapter.hotterPrefix_removed` — a run in which a report comes in between.
-/

namespace Farsight

open MaxHeap

variable {scope : Scope}

/-- The machine, with the prefix that `try_pick` has chosen last. -/
structure PickState where
  state : IpState
  chosen : BitVec 32

/-- The prefix has no free address. -/
def IpState.Exhausted (s : IpState) (prefixId : BitVec 32) : Prop :=
  (s.entry prefixId).remaining = 0

namespace PmapIpAdapter

/-- The prefix chosen after a step. -/
def choose (s : PickState) : IpAct → BitVec 32
  | .feeder _ =>
    match s.state.feeder with
    | .tryPickEntry _ prefixId => prefixId
    | _ => s.chosen
  | _ => s.chosen

def pickStep (self : PmapIpAdapter scope) (s : PickState) (act : IpAct) : PickState :=
  ⟨self.step s.state act, choose s act⟩

/-- If the step is the `pop` of `try_pick`, the prefix on top of the heap, if there is one, is the
chosen one. -/
def TopChosen (s : PickState) : IpAct → Prop
  | .feeder _ => ∀ last result key, s.state.feeder = .tryPickPop last result .popTake →
      s.state.heap.top.1 = some key → key = s.chosen
  | _ => True

/-- If the step removes a prefix from the heap, that prefix has no free address. It goes in two
accesses, first from `current` and then from the map. -/
def RemovesExhausted (s : IpState) : IpAct → Prop
  | .feeder _ => ∀ last result key,
      (s.feeder = .tryPickPop last result .popTake → s.heap.top.1 = some key → s.Exhausted key) ∧
      (s.feeder = .tryPickPop last result (.popRemove key) → s.Exhausted key)
  | _ => True

/-! ### The invariant -/

/-- The prefixes that a `pop` in progress removes: the chosen one, as long as it is on top. -/
def Popping (s : PickState) : Prop :=
  match s.state.feeder with
  | .tryPickPop _ _ op =>
    match op with
    | .popTake => s.state.Exhausted s.chosen
    | .popRemove key => s.state.Exhausted key
    | _ => False
  | _ => True

structure PopInv (s : PickState) : Prop where
  counted : ∀ p, (s.state.entry p).Counted
  popping : Popping s

theorem PopInv.initial (chosen : BitVec 32) : PopInv ⟨.initial, chosen⟩ where
  counted := fun _ => PrefixState.counted_new
  popping := trivial

/-- A step that leaves the entries and does not lead into a `pop`. -/
theorem PopInv.stay {s t : PickState} (h : PopInv s) (hactives : t.state.actives = s.state.actives)
    (hpopping : Popping t) : PopInv t where
  counted := by
    intro p
    rw [IpState.entry, hactives]
    exact h.counted p
  popping := hpopping

/-- A step that stores the state of a prefix. -/
theorem PopInv.setEntry {s t : PickState} (h : PopInv s) {p : BitVec 32} {state : PrefixState}
    (hactives : t.state.actives = (s.state.setEntry p state).actives) (hstate : state.Counted)
    (hpopping : Popping t) : PopInv t where
  counted := by
    intro q
    have hentry : t.state.entry q = (s.state.setEntry p state).entry q := by
      rw [IpState.entry, hactives]
      rfl
    rw [hentry, IpState.entry_setEntry]
    split
    · exact hstate
    · exact h.counted q
  popping := hpopping

/-- `try_pick` calls `pop` with no address of the chosen prefix left. -/
theorem PopInv.pop {s : PickState} (h : PopInv s) {p : BitVec 32} {state : PrefixState}
    (hstate : state.Counted) (hused : state.remaining = 0) (last : Bool)
    (result : Option Ipv4Addr) :
    PopInv ⟨{ s.state.setEntry p state with
      feeder := .tryPickPop last result ConcurrentLazyHeap.pop }, p⟩ := by
  refine h.setEntry rfl hstate ?_
  change ((s.state.setEntry p state).entry p).remaining = 0
  rw [IpState.entry_setEntry, if_pos rfl]
  exact hused

/-- Inside `pop`: the prefix that is removed is the chosen one, if that is on top. -/
theorem PopInv.popping_exec {s : PickState} (h : PopInv s) {last : Bool}
    {result : Option Ipv4Addr} {op : HeapOp (BitVec 32) ℚ}
    (hpc : s.state.feeder = .tryPickPop last result op) {draw : ℕ → BitVec 8}
    (htop : TopChosen s (.feeder draw)) (hexec : (op.exec s.state.heap).1 ≠ .done) :
    Popping ⟨{ s.state with
      heap := (op.exec s.state.heap).2
      feeder := .tryPickPop last result (op.exec s.state.heap).1 }, s.chosen⟩ := by
  have hpopping := h.popping
  simp only [Popping, hpc] at hpopping
  cases op with
  | popTake =>
    cases hpeek : peek s.state.heap.cleaned.current with
    | none =>
      simp only [HeapOp.exec, hpeek] at hexec
      exact absurd rfl hexec
    | some x =>
      -- what `pop` takes off is the top, and that is the prefix that `try_pick` has looked at
      have hkey : (ofLex x).2 = s.chosen := by
        apply htop last result _ hpc
        rw [ConcurrentLazyHeap.top, hpeek]
        rfl
      simp only [HeapOp.exec, hpeek]
      change s.state.Exhausted (ofLex x).2
      rw [hkey]
      exact hpopping
  | popRemove key => exact absurd rfl hexec
  | _ => exact hpopping.elim

/-- A step of the feeder. It comes to `pop` with a prefix that it has just found or left exhausted,
under the lock of its entry. -/
theorem PopInv.feederStep (self : PmapIpAdapter scope) {s : PickState} (h : PopInv s)
    {draw : ℕ → BitVec 8} (htop : TopChosen s (.feeder draw)) :
    PopInv (self.pickStep s (.feeder draw)) := by
  change PopInv ⟨self.feederStep draw s.state, choose s (.feeder draw)⟩
  have hstep := self.feederStep_cases draw s.state
  generalize self.feederStep draw s.state = t at hstep
  cases hstep with
  | stay hpc =>
    refine h.stay rfl ?_
    rcases hpc with hpc | hpc <;> simp only [Popping, hpc]
  -- the accesses that enter the state of a prefix
  | @used last p hpc hused =>
    have hzero : (s.state.entry p).remaining = 0 :=
      hused.elim id (h.counted p).remaining_eq_zero
    simp only [choose, hpc]
    exact h.pop (h.counted p) hzero last none
  | @pickLast last p o hpc hfetch hlast =>
    simp only [choose, hpc]
    exact h.pop ((h.counted p).markScanned o) hlast last _
  | @pick last p o hpc hfetch hlast => exact h.setEntry rfl ((h.counted p).markScanned o) trivial
  | @sweepSkip addr hpc =>
    refine h.setEntry rfl ((h.counted (prefixId addr)).markScanned (offset addr)) ?_
    simp only [Popping, IpState.setEntry, hpc]
  | @sweepTake addr hpc =>
    exact h.setEntry rfl ((h.counted (prefixId addr)).markScanned (offset addr)) trivial
  | @sweepLast addr hpc =>
    exact h.setEntry rfl ((h.counted (prefixId addr)).markScanned (offset addr)) trivial
  | pop hpc hexec =>
    simp only [choose, hpc]
    exact h.stay rfl (h.popping_exec hpc htop hexec)
  -- the others leave the entries and do not lead into `try_pick`'s `pop`
  | _ => exact h.stay rfl trivial

/-- A step that leaves the entries, the feeder and its choice. -/
theorem PopInv.frame {s t : PickState} (h : PopInv s)
    (hactives : t.state.actives = s.state.actives) (hfeeder : t.state.feeder = s.state.feeder)
    (hchosen : t.chosen = s.chosen) : PopInv t := by
  refine h.stay hactives ?_
  have hpopping := h.popping
  unfold Popping IpState.Exhausted IpState.entry at hpopping ⊢
  rw [hactives, hfeeder, hchosen]
  exact hpopping

/-- Every step under the condition keeps the invariant. -/
theorem PopInv.step (self : PmapIpAdapter scope) {s : PickState} (h : PopInv s) {act : IpAct}
    (htop : TopChosen s act) : PopInv (self.pickStep s act) := by
  cases act with
  | feeder draw => exact h.feederStep self htop
  | thread t =>
    -- a responder touches neither the entries nor the feeder
    obtain ⟨hactives, hfeeder⟩ := self.threadStep_frame t s.state
    exact h.frame hactives hfeeder rfl
  | onResult t addr =>
    unfold pickStep PmapIpAdapter.step
    dsimp only
    split <;> exact h.frame rfl rfl rfl
  | nextAddress coin =>
    unfold pickStep PmapIpAdapter.step
    dsimp only
    split
    · split <;> exact h.stay rfl trivial
    · exact h.frame rfl rfl rfl

/-- In a state of the invariant, `pop` removes no prefix that has free addresses. -/
theorem PopInv.removesExhausted {s : PickState} (h : PopInv s) {act : IpAct}
    (htop : TopChosen s act) : RemovesExhausted s.state act := by
  cases act with
  | feeder draw =>
    intro last result key
    have hpopping := h.popping
    constructor
    · intro hpc hkey
      simp only [Popping, hpc] at hpopping
      -- the key that `pop` takes is the chosen prefix, which has no free address left
      rw [htop last result key hpc hkey]
      exact hpopping
    · intro hpc
      simpa only [Popping, hpc] using hpopping
  | _ => trivial

/-- The choice is a record: it does not influence the machine. -/
theorem along_pickStep {Q : IpState → IpAct → Prop} (self : PmapIpAdapter scope)
    {acts : List IpAct} {s : PickState}
    (h : Run.Along self.pickStep (fun s => Q s.state) s acts) :
    Run.Along self.step Q s.state acts := by
  induction acts generalizing s with
  | nil => trivial
  | cons act acts ih => exact ⟨h.1, ih h.2⟩

/-! ### The feeder alone -/

/-- Where the feeder stands on its way to a `pop`, the prefix that it has chosen is on top. -/
def OnTop (top : Option (BitVec 32)) (chosen : BitVec 32) : FeederPc → Prop
  | .tryPickEntry _ p => top = some p
  | .tryPickPop _ _ op => op = .popTake → top = some chosen
  | _ => True

/-- Nobody reports, so that the top of the heap stays where `try_pick` has seen it. -/
structure Solo (s : PickState) : Prop where
  quiet : ∀ t, s.state.threads t = .idle
  onTop : OnTop s.state.heap.top.1 s.chosen s.state.feeder

/-- Nothing leads to the first access of `pop` but the call itself. -/
theorem exec_ne_popTake (op : HeapOp (BitVec 32) ℚ) (heap : ConcurrentLazyHeap (BitVec 32) ℚ) :
    (op.exec heap).1 ≠ .popTake := by
  unfold HeapOp.exec
  split
  · split <;> exact nofun
  · exact nofun
  · exact nofun
  · exact nofun
  · split <;> exact nofun
  · exact nofun
  · exact nofun

/-- Alone, the feeder finds the prefix still on top when it pops: nobody has changed the heap in
between. -/
theorem Solo.feederStep (self : PmapIpAdapter scope) {s : PickState} (h : Solo s)
    (draw : ℕ → BitVec 8) : Solo (self.pickStep s (.feeder draw)) := by
  change Solo ⟨self.feederStep draw s.state, choose s (.feeder draw)⟩
  have hstep := self.feederStep_cases draw s.state
  generalize self.feederStep draw s.state = t at hstep
  have hquiet : ∀ i, t.threads i = .idle := by
    rw [hstep.threads]
    exact h.quiet
  have honTop := h.onTop
  refine ⟨hquiet, ?_⟩
  cases hstep with
  | stay hpc =>
    rcases hpc with hpc | hpc <;> simp only [choose, hpc] <;> trivial
  | @top last p hpc htop =>
    -- `top` has cleaned the heaps, and finds the same entry again
    change s.state.heap.cleaned.top.1 = some p
    rw [ConcurrentLazyHeap.top, ConcurrentLazyHeap.cleaned_cleaned]
    exact htop
  | used hpc =>
    rw [hpc] at honTop
    simp only [choose, hpc]
    exact fun _ => honTop
  | pickLast hpc =>
    rw [hpc] at honTop
    simp only [choose, hpc]
    exact fun _ => honTop
  -- past the first access there is nothing more to show
  | @pop last result op hpc hexec => exact fun htake => absurd htake (exec_ne_popTake op _)
  | sweepSkip hpc =>
    simp only [IpState.setEntry, hpc]
    trivial
  | _ => trivial

/-- The same for the other steps, in which no report starts. -/
theorem Solo.step (self : PmapIpAdapter scope) {s : PickState} (h : Solo s) {act : IpAct}
    (hact : ∀ t addr, act ≠ .onResult t addr) : Solo (self.pickStep s act) := by
  cases act with
  | feeder draw => exact h.feederStep self draw
  | onResult t addr => exact absurd rfl (hact t addr)
  | thread t =>
    -- no report was ever made, so a thread has nothing to do
    have hstay : self.threadStep t s.state = s.state := by rw [threadStep, h.quiet t]
    rw [pickStep, PmapIpAdapter.step, hstay]
    exact h
  | nextAddress coin =>
    unfold pickStep PmapIpAdapter.step
    dsimp only
    split
    · split <;> exact ⟨h.quiet, trivial⟩
    · exact h

/-- Alone, the top is the chosen prefix whenever `pop` takes it off. -/
theorem Solo.topChosen {s : PickState} (h : Solo s) (act : IpAct) : TopChosen s act := by
  cases act with
  | feeder draw =>
    intro last result key hpc hkey
    have honTop := h.onTop
    rw [hpc] at honTop
    rw [honTop rfl] at hkey
    exact (Option.some.inj hkey).symm
  | _ => trivial

/-- As long as no hit is reported, every `pop` finds the chosen prefix on top. -/
theorem topChosen_of_no_report (self : PmapIpAdapter scope) (chosen : BitVec 32) (acts : List IpAct)
    (hacts : ∀ act ∈ acts, ∀ t addr, act ≠ .onResult t addr) :
    Run.Along self.pickStep TopChosen ⟨.initial, chosen⟩ acts := by
  refine Run.along_of_preserving (I := Solo) ?_ ⟨fun _ => rfl, trivial⟩
  intro act hact s hs
  exact ⟨hs.topChosen act, hs.step self (hacts act hact)⟩

/-! ### A run that exhausts a prefix -/

/-- With `p` on top of the heap and room for one more, any free offsets of it can be picked. -/
theorem picks_run (self : PmapIpAdapter scope) (heps : self.epsilon = 1 / 2) {p : BitVec 32}
    (os : List (BitVec 8)) (hnodup : os.Nodup) {s : IpState} (hidle : s.feeder = .idle)
    (htop : s.heap.top = (some p, s.heap)) {state : PrefixState}
    (hactive : s.actives p = some state) (hfree : ∀ o ∈ os, state.scanned o = false)
    (hroom : os.length < state.remaining.toNat) :
    ∃ results, (os.flatMap pickActs).foldl self.step s =
      { s.setEntry p (state.markAll os) with results := results } := by
  induction os generalizing s state with
  | nil =>
    refine ⟨s.results, ?_⟩
    change s = { s with actives := Function.update s.actives p (some state) }
    rw [← hactive, Function.update_eq_self]
  | cons o os ih =>
    have hentry : s.entry p = state := by rw [IpState.entry, hactive, Option.getD_some]
    have ho : state.scanned o = false := hfree o List.mem_cons_self
    have hspec := PrefixState.markAll_spec (List.nodup_singleton o) (s := state)
      (by simpa using ho) (by rw [List.length_singleton]; omega)
    rw [List.length_cons] at hroom
    -- two addresses are left at least, this one and another
    have hone : state.remaining ≠ 0 := by
      intro h
      rw [h] at hroom
      exact absurd hroom (Nat.not_lt_zero _)
    have htwo : state.remaining - 1 ≠ 0 := by
      intro h
      have hrem := hspec.1
      change (state.markScanned o).2.remaining.toNat + 1 = _ at hrem
      rw [PrefixState.remaining_markScanned ho, h] at hrem
      simp at hrem
      omega
    have hpick := self.pickActs_run heps hidle htop (o := o) (by rw [hentry]; exact ho)
      (by rw [hentry]; exact hone) (by rw [hentry]; exact htwo)
    rw [hentry] at hpick
    -- the state after this pick, from which the others go on
    let next := (s.setEntry p (state.markScanned o).2).finish (some (joinAddr p o))
    have hnext : next.actives p = some (state.markScanned o).2 := Function.update_self ..
    obtain ⟨results, hrest⟩ := ih (List.nodup_cons.mp hnodup).2 (s := next) rfl htop hnext
      (fun o' ho' => by
        have hne : o' ≠ o := fun h => (List.nodup_cons.mp hnodup).1 (h ▸ ho')
        rw [(PrefixState.markScanned_of_unscanned ho).2, hfree o' (List.mem_cons_of_mem _ ho')]
        simp [hne])
      (by
        have hrem := hspec.1
        change (state.markScanned o).2.remaining.toNat + 1 = _ at hrem
        omega)
    refine ⟨results, ?_⟩
    rw [List.flatMap_cons, List.foldl_append, hpick, hrest]
    simp only [next, IpState.setEntry, IpState.finish, Function.update_idem, PrefixState.markAll,
      List.foldl_cons, hidle]

/-- A report of a hit in an active prefix with room that is in the heap. -/
def bumpActs (addr : Ipv4Addr) : List IpAct :=
  .onResult 0 addr :: List.replicate 6 (.thread 0)

/-- The heap with the score `v` of a prefix raised by one; the old entry becomes stale. -/
def withBump (heap : ConcurrentLazyHeap (BitVec 32) ℚ) (p : BitVec 32) (v : ℚ) :
    ConcurrentLazyHeap (BitVec 32) ℚ where
  values := Function.update heap.values p (some (v + 1))
  current := push heap.current (toLex (v + 1, p))
  stale := push heap.stale (toLex (v, p))

/-- Such a report raises the score. -/
theorem bumpActs_run (self : PmapIpAdapter scope) (a : Ipv4Addr) {s : IpState}
    (hidle : s.threads 0 = .idle) {state : PrefixState}
    (hactive : s.actives (prefixId a) = some state) (hroom : state.remaining > 0) {v : ℚ}
    (hvalue : s.heap.values (prefixId a) = some v) :
    ∃ threads, (bumpActs a).foldl self.step s =
      { s with heap := withBump s.heap (prefixId a) v, threads := threads } := by
  simp only [bumpActs, List.replicate, List.foldl_cons, List.foldl_nil, PmapIpAdapter.step, hidle,
    PmapIpAdapter.threadStep, Function.update_self, hactive, Option.map_some, Option.getD_some,
    hroom, decide_true, if_true, HeapOp.exec, ConcurrentLazyHeap.query, ConcurrentLazyHeap.update,
    hvalue]
  exact ⟨_, rfl⟩

/-- The blocks `10.0.0.0/24` and `10.0.1.0/24`. -/
def twoBlocks : Scope where
  source := ⟨[⟨0x0A000000#32, 0x0A0001FF#32⟩]⟩
  ranges := ⟨[(⟨0x0A000000#32, 0x0A0001FF#32⟩, ⟨0, 512⟩)], 512⟩
  compile_eq := rfl

/-- The first block has one historical hit. The sweep starts with `10.0.1.0` and `10.0.0.1`. -/
def twoBlocksAdapter : PmapIpAdapter twoBlocks where
  rng := Equiv.swap ⟨0, by decide⟩ ⟨256, by decide⟩
  graph := ⟨fun p => if p = 0x0A0000#32 then some 1 else none⟩
  epsilon := 1 / 2

/-- The offsets of the first block but those of its first and last address in the run below. -/
def otherOffsets : List (BitVec 8) :=
  (PrefixState.offsets.erase 1#8).erase 255#8

/-- The sweep takes an address of each block, then all others of the first block but the last are
picked. -/
def exploitActs : List IpAct :=
  sweepActs ++ sweepActs ++ otherOffsets.flatMap pickActs

/-- Both blocks are in the heap, the first on top, with one address left. -/
def exploited (state : PrefixState) (results : List (Option Ipv4Addr)) : IpState :=
  { IpState.initial.setEntry 0x0A0001#32 (PrefixState.new.markScanned 0#8).2 with
    heap := (ConcurrentLazyHeap.empty.withNew 0x0A0001#32 0).withNew 0x0A0000#32 1
    index := 2
    results := results }.setEntry 0x0A0000#32 state

theorem exploited_top (state : PrefixState) (results : List (Option Ipv4Addr)) :
    (exploited state results).heap.top =
      (some 0x0A0000#32, (exploited state results).heap) := by
  have hpeek : peek (exploited state results).heap.current =
      some (toLex ((1 : ℚ), 0x0A0000#32)) := by
    change some (max (toLex ((1 : ℚ), 0x0A0000#32)) (toLex (0, 0x0A0001#32))) = _
    rw [max_eq_left]
    decide
  exact ConcurrentLazyHeap.top_of_stale_nil hpeek rfl

/-- All offsets but two, the one of the sweep and the last one. -/
theorem otherOffsets_spec :
    otherOffsets.Nodup ∧ otherOffsets.length = 254 ∧ 1#8 ∉ otherOffsets ∧ 255#8 ∉ otherOffsets := by
  have hnodup := PrefixState.nodup_offsets.erase 1#8
  have hmem : 255#8 ∈ PrefixState.offsets.erase 1#8 :=
    PrefixState.nodup_offsets.mem_erase_iff.mpr ⟨by decide, PrefixState.mem_offsets _⟩
  refine ⟨hnodup.erase _, ?_, ?_, ?_⟩
  · rw [otherOffsets, List.length_erase_of_mem hmem,
      List.length_erase_of_mem (PrefixState.mem_offsets _), PrefixState.offsets, List.length_map,
      List.length_range]
  · intro h
    exact (PrefixState.nodup_offsets.mem_erase_iff.mp (List.mem_of_mem_erase h)).1 rfl
  · intro h
    exact (hnodup.mem_erase_iff.mp h).1 rfl

theorem twoBlocks_index {i : ℕ} (hi : i < 512) :
    twoBlocks.ranges.index i = .ok (0x0A000000#32 + BitVec.ofNat 32 i) :=
  CompiledRanges.index_singleton twoBlocks.compile_eq hi

/-- Two turns of the sweep, a hit, and picks until one address of the prefix is left. -/
theorem exploitActs_run : ∃ state results,
    twoBlocksAdapter.run exploitActs = exploited state results ∧ state.remaining = 1 ∧
      state.scanned 255#8 = false := by
  obtain ⟨hnodup, hlength, hone, hlast⟩ := otherOffsets_spec
  have horder0 : twoBlocksAdapter.order 0 = some 0x0A000100#32 :=
    twoBlocksAdapter.order_eq_some (by decide) (twoBlocks_index (i := 256) (by decide))
  have horder1 : twoBlocksAdapter.order 1 = some 0x0A000001#32 :=
    twoBlocksAdapter.order_eq_some (by decide) (twoBlocks_index (i := 1) (by decide))
  have hroom : PrefixState.new.remaining - 1 > 0 := by decide
  -- the two turns of the sweep
  let second : IpState :=
    { IpState.initial.setEntry 0x0A0001#32 (PrefixState.new.markScanned 0#8).2 with
      heap := ConcurrentLazyHeap.empty.withNew 0x0A0001#32 0
      index := 1
      results := [some 0x0A000100#32] }
  have hfirst : sweepActs.foldl twoBlocksAdapter.step .initial = second :=
    twoBlocksAdapter.sweepActs_run rfl (s := .initial) rfl horder0 (PrefixState.scanned_new _) hroom
      rfl
  have hsecond : sweepActs.foldl twoBlocksAdapter.step second =
      exploited (PrefixState.new.markScanned 1#8).2 [some 0x0A000100#32, some 0x0A000001#32] :=
    twoBlocksAdapter.sweepActs_run rfl (s := second) rfl horder1 (PrefixState.scanned_new _) hroom
      rfl
  -- 255 addresses are left, of which 254 are picked
  have hfree := PrefixState.markScanned_of_unscanned (PrefixState.scanned_new 1#8)
  have hrem := PrefixState.remaining_markScanned (PrefixState.scanned_new 1#8)
  have hroom' : otherOffsets.length < (PrefixState.new.markScanned 1#8).2.remaining.toNat := by
    rw [hlength, hrem]
    decide
  have hothers : ∀ o ∈ otherOffsets, (PrefixState.new.markScanned 1#8).2.scanned o = false := by
    intro o ho
    rw [hfree.2, PrefixState.scanned_new]
    simpa using fun h : o = 1#8 => hone (h ▸ ho)
  obtain ⟨hleft, hscanned⟩ := PrefixState.markAll_spec hnodup hothers hroom'.le
  obtain ⟨results, hpicks⟩ := twoBlocksAdapter.picks_run rfl otherOffsets hnodup
    (s := exploited (PrefixState.new.markScanned 1#8).2 [some 0x0A000100#32, some 0x0A000001#32])
    rfl (exploited_top _ _) rfl hothers hroom'
  refine ⟨(PrefixState.new.markScanned 1#8).2.markAll otherOffsets, results, ?_, ?_, ?_⟩
  · rw [PmapIpAdapter.run, exploitActs, List.foldl_append, List.foldl_append, hfirst, hsecond,
      hpicks]
    simp only [exploited, IpState.setEntry, Function.update_idem]
  · rw [hlength, hrem, show (PrefixState.new.remaining - 1).toNat = 255 by decide] at hleft
    apply BitVec.eq_of_toNat_eq
    exact Nat.add_right_cancel (m := 254) hleft
  · rw [hscanned, hfree.2, PrefixState.scanned_new]
    simpa using hlast

/-- `next_address` exploits, and `heap.top()` returns a prefix. -/
def chooseActs : List IpAct :=
  (pickActs 0#8).take 2

theorem chooseActs_run (self : PmapIpAdapter scope) (heps : self.epsilon = 1 / 2) {s : IpState}
    (hidle : s.feeder = .idle) {p : BitVec 32} (htop : s.heap.top = (some p, s.heap)) :
    chooseActs.foldl self.step s = { s with feeder := .tryPickEntry false p } :=
  self.pickActs_take_run heps hidle 0#8 htop

/-- Taking the last address of the chosen prefix leads into `pop`. -/
theorem takeLast_run (self : PmapIpAdapter scope) {s : IpState} {last : Bool} {p : BitVec 32}
    (hpc : s.feeder = .tryPickEntry last p) {o : BitVec 8}
    (hfree : (s.entry p).scanned o = false) (hone : (s.entry p).remaining = 1) :
    self.feederStep (fun _ => o) s =
      { s.setEntry p ((s.entry p).markScanned o).2 with
        feeder := .tryPickPop last (some (joinAddr p o)) .popTake } := by
  have hroom : (s.entry p).remaining ≠ 0 := by
    rw [hone]
    decide
  simp only [PmapIpAdapter.feederStep, hpc]
  rw [if_neg hroom, PrefixState.fetchUnscanned_const hfree hroom]
  simp only
  rw [if_pos (by rw [PrefixState.remaining_markScanned hfree, hone]; rfl)]
  rfl

/-- The last address of the first block is taken, with no report in between. -/
def soloActs : List IpAct :=
  exploitActs ++ chooseActs ++ [.feeder fun _ => 255#8]

/-- A hit at `10.0.1.0` is reported between `heap.top()` and the access to the first block. -/
def hotterActs : List IpAct :=
  exploitActs ++ chooseActs ++ bumpActs 0x0A000100#32 ++ [.feeder fun _ => 255#8]

/-- The run ends in the call of `pop`. -/
theorem soloActs_run :
    ((twoBlocksAdapter.run soloActs).feeder =
        .tryPickPop false (some 0x0A0000FF#32) ConcurrentLazyHeap.pop) ∧
      (twoBlocksAdapter.run soloActs).heap.top.1 = some 0x0A0000#32 := by
  obtain ⟨state, results, hrun, hone, hfree⟩ := exploitActs_run
  have hchoose := twoBlocksAdapter.chooseActs_run rfl (s := exploited state results) rfl
    (exploited_top state results)
  have htake := twoBlocksAdapter.takeLast_run
    (s := { exploited state results with feeder := .tryPickEntry false 0x0A0000#32 }) rfl
    (o := 255#8) hfree hone
  rw [PmapIpAdapter.run, soloActs, List.foldl_append, List.foldl_append, ← PmapIpAdapter.run, hrun,
    hchoose, List.foldl_cons, List.foldl_nil, PmapIpAdapter.step, htake]
  exact ⟨rfl, congrArg Prod.fst (exploited_top state results)⟩

theorem soloActs_no_report : ∀ act ∈ soloActs ++ List.replicate 2 (.feeder fun _ => 0#8),
    ∀ t addr, act ≠ .onResult t addr := by
  rintro act hact t addr rfl
  simp [soloActs, exploitActs, sweepActs, pickActs, chooseActs] at hact

/-- The second block has got ahead of the first. -/
theorem exploited_bump_top (state : PrefixState) (results : List (Option Ipv4Addr)) :
    (withBump (exploited state results).heap 0x0A0001#32 0).top.1 = some 0x0A0001#32 := by
  -- the scores are equal, and the identifier decides
  have hpeek : peek (withBump (exploited state results).heap 0x0A0001#32 0).current =
      some (toLex ((1 : ℚ), 0x0A0001#32)) := by
    change some (max (max (toLex ((0 + 1 : ℚ), 0x0A0001#32)) (toLex (1, 0x0A0000#32)))
      (toLex (0, 0x0A0001#32))) = _
    have hfirst : toLex ((1 : ℚ), 0x0A0000#32) ≤ toLex (1, 0x0A0001#32) := by decide
    have hold : toLex ((0 : ℚ), 0x0A0001#32) ≤ toLex (1, 0x0A0001#32) := by decide
    rw [zero_add, max_eq_left hfirst, max_eq_left hold]
  have hstale : peek (withBump (exploited state results).heap 0x0A0001#32 0).stale =
      some (toLex ((0 : ℚ), 0x0A0001#32)) := rfl
  have hclean := clean_of_peek_ne fun a ha hs => by
    rw [hpeek] at ha
    rw [hstale] at hs
    exact absurd (ha.trans hs.symm) (by decide)
  rw [ConcurrentLazyHeap.top, ConcurrentLazyHeap.cleaned, hclean, hpeek]
  rfl

/-- So does the run with the report. -/
theorem hotterActs_run :
    ((twoBlocksAdapter.run hotterActs).feeder =
        .tryPickPop false (some 0x0A0000FF#32) ConcurrentLazyHeap.pop) ∧
      (twoBlocksAdapter.run hotterActs).heap.top.1 = some 0x0A0001#32 ∧
      ((twoBlocksAdapter.run hotterActs).entry 0x0A0001#32).remaining = 255 := by
  obtain ⟨state, results, hrun, hone, hfree⟩ := exploitActs_run
  have hrem := PrefixState.remaining_markScanned (PrefixState.scanned_new 0#8)
  let chosen : IpState := { exploited state results with feeder := .tryPickEntry false 0x0A0000#32 }
  have hchoose : chooseActs.foldl twoBlocksAdapter.step (exploited state results) = chosen :=
    twoBlocksAdapter.chooseActs_run rfl rfl (exploited_top state results)
  -- the other prefix gets a hit while the feeder is between `top` and `pop`
  have hactive : chosen.actives 0x0A0001#32 = some (PrefixState.new.markScanned 0#8).2 := rfl
  obtain ⟨threads, hbump⟩ := twoBlocksAdapter.bumpActs_run 0x0A000100#32 (s := chosen) rfl hactive
    (by rw [hrem]; decide) (v := 0) rfl
  let hotter : IpState :=
    { chosen with heap := withBump chosen.heap 0x0A0001#32 0, threads := threads }
  have hbump' : (bumpActs 0x0A000100#32).foldl twoBlocksAdapter.step chosen = hotter := hbump
  have htake := twoBlocksAdapter.takeLast_run (s := hotter) rfl (o := 255#8) hfree hone
  rw [PmapIpAdapter.run, hotterActs, List.foldl_append, List.foldl_append, List.foldl_append,
    ← PmapIpAdapter.run, hrun, hchoose, hbump', List.foldl_cons, List.foldl_nil, PmapIpAdapter.step,
    htake]
  exact ⟨rfl, exploited_bump_top state results, hrem⟩

/-! ### What `pop` removes -/

/-- **Only exhausted prefixes leave the heap, if nothing gets ahead of the chosen one.** In every
run in which each `pop` of `try_pick` finds on top the prefix that `try_pick` has chosen, each
prefix removed has no free address at that moment. -/
theorem removesExhausted_of_topChosen (self : PmapIpAdapter scope) (chosen : BitVec 32)
    (acts : List IpAct) (h : Run.Along self.pickStep TopChosen ⟨.initial, chosen⟩ acts) :
    Run.Along self.step RemovesExhausted .initial acts := by
  have hrun : Run.Along self.pickStep (fun s => RemovesExhausted s.state) ⟨.initial, chosen⟩ acts :=
    h.imp_preserving
      (fun _ _ hI htop => ⟨PopInv.removesExhausted hI htop, PopInv.step self hI htop⟩)
      (PopInv.initial chosen)
  exact self.along_pickStep hrun

/-- The run of the feeder alone ends in a `pop` of the first block, with no address left. -/
theorem removesExhausted_of_topChosen_solo :
    (twoBlocksAdapter.run soloActs).heap.top.1 = some 0x0A0000#32 ∧
      Run.Along twoBlocksAdapter.step RemovesExhausted .initial
        (soloActs ++ List.replicate 2 (.feeder fun _ => 0#8)) :=
  ⟨soloActs_run.2, twoBlocksAdapter.removesExhausted_of_topChosen 0 _
    (twoBlocksAdapter.topChosen_of_no_report 0 _ soloActs_no_report)⟩

/-- **A prefix with free addresses leaves the heap.** `try_pick` takes the last address of the first
block, but `pop` removes the second, of which only one address was scanned. -/
theorem hotterPrefix_removed :
    (twoBlocksAdapter.run hotterActs).heap.top.1 = some 0x0A0001#32 ∧
      ((twoBlocksAdapter.run hotterActs).entry 0x0A0001#32).remaining = 255 ∧
      ¬ Run.Along twoBlocksAdapter.step RemovesExhausted .initial
        (hotterActs ++ [.feeder fun _ => 0#8]) := by
  obtain ⟨hpc, htop, hroom⟩ := hotterActs_run
  refine ⟨htop, hroom, fun halong => ?_⟩
  obtain ⟨hlast, -⟩ := (Run.along_append.mp halong).2
  have hzero : ((twoBlocksAdapter.run hotterActs).entry 0x0A0001#32).remaining = 0 :=
    (hlast _ _ _).1 hpc htop
  rw [hroom] at hzero
  exact absurd hzero (by decide)

end PmapIpAdapter

end Farsight
