import Farsight.Strategy.IpCoverage

/-!
# Scope safety of target selection

A fresh `PrefixState` has all 256 addresses of its prefix free, whether they are in scope or not,
and nothing else tells `try_pick` which of them it may return.

* `PmapIpAdapter.pickActs_spec` — with one prefix in the heap, any free address of it can be
  returned; the prefix gets there by the sweep (`sweepActs_spec`) or by a reported hit
  (`reportActs_spec`);
* `PmapIpAdapter.scope_safe_iff` — selection stays inside the scope exactly when every prefix that
  the scope or a reported address touches lies in the scope as a whole.
-/

namespace Farsight

/-! ### Two runs that exploit a prefix -/

/-- `next_address` takes the first address of the sweep and puts its prefix into the heap. -/
def sweepActs : List IpAct :=
  .nextAddress ⟨0, by norm_num⟩ :: List.replicate 5 (.feeder fun _ => 0#8)

/-- A responder thread reports a hit at `addr`. -/
def reportActs (addr : Ipv4Addr) : List IpAct :=
  .onResult 0 addr :: List.replicate 5 (.thread 0)

/-- `next_address` exploits the top of the heap, and the generator draws `o`. -/
def pickActs (o : BitVec 8) : List IpAct :=
  .nextAddress ⟨1, by norm_num⟩ :: List.replicate 2 (.feeder fun _ => o)

section Runs

variable {scope : Scope}

/-- With `p` on top of the heap, `try_pick` chooses it. -/
theorem PmapIpAdapter.pickActs_take_run (self : PmapIpAdapter scope) (heps : self.epsilon = 1 / 2)
    {s : IpState} (hidle : s.feeder = .idle) {p : BitVec 32} (o : BitVec 8)
    (htop : s.heap.top = (some p, s.heap)) :
    ((pickActs o).take 2).foldl self.step s = { s with feeder := .tryPickEntry false p } := by
  have hcall : self.step s (.nextAddress ⟨1, by norm_num⟩)
      = { s with feeder := .tryPickTop false } := by
    simp only [PmapIpAdapter.step, hidle]
    rw [if_pos (by rw [heps]; norm_num)]
  have hread : self.feederStep (fun _ => o) { s with feeder := .tryPickTop false }
      = { s with feeder := .tryPickEntry false p } := by
    simp only [PmapIpAdapter.feederStep, htop]
  change self.feederStep (fun _ => o) (self.step s (.nextAddress ⟨1, by norm_num⟩)) = _
  rw [hcall, hread]

/-- With `p` on top of the heap, `try_pick` can return any free offset of it, and marks it. -/
theorem PmapIpAdapter.pickActs_run (self : PmapIpAdapter scope) (heps : self.epsilon = 1 / 2)
    {s : IpState} (hidle : s.feeder = .idle) {p : BitVec 32} {o : BitVec 8}
    (htop : s.heap.top = (some p, s.heap)) (hfree : (s.entry p).scanned o = false)
    (hroom : (s.entry p).remaining ≠ 0) (hroom' : (s.entry p).remaining - 1 ≠ 0) :
    (pickActs o).foldl self.step s =
      (s.setEntry p ((s.entry p).markScanned o).2).finish (some (joinAddr p o)) := by
  have hchoose := self.pickActs_take_run heps hidle o htop
  -- every draw is `o`, so `fetch_unscanned` returns it
  have hentry : self.feederStep (fun _ => o) { s with feeder := .tryPickEntry false p }
      = (s.setEntry p ((s.entry p).markScanned o).2).finish (some (joinAddr p o)) := by
    simp only [PmapIpAdapter.feederStep]
    rw [show ({ s with feeder := .tryPickEntry false p } : IpState).entry p = s.entry p from rfl,
      if_neg hroom, PrefixState.fetchUnscanned_const hfree hroom]
    simp only
    rw [PrefixState.remaining_markScanned hfree, if_neg hroom']
    rfl
  change self.feederStep (fun _ => o) (((pickActs o).take 2).foldl self.step s) = _
  rw [hchoose, hentry]

/-- With one prefix in the heap, `try_pick` returns any free offset of it. -/
theorem PmapIpAdapter.pickActs_spec (self : PmapIpAdapter scope) (heps : self.epsilon = 1 / 2)
    {s : IpState} (hidle : s.feeder = .idle) {v : ℚ} {p : BitVec 32} {o : BitVec 8}
    (hcurrent : s.heap.current = [toLex (v, p)]) (hstale : s.heap.stale = [])
    (hfree : (s.entry p).scanned o = false) (hroom : (s.entry p).remaining ≠ 0)
    (hroom' : (s.entry p).remaining - 1 ≠ 0) :
    some (joinAddr p o) ∈ ((pickActs o).foldl self.step s).results := by
  rw [self.pickActs_run heps hidle (ConcurrentLazyHeap.top_singleton hcurrent hstale) hfree hroom
    hroom']
  exact List.mem_append_right _ List.mem_cons_self

/-- The heap with a new prefix of score `v`. -/
def ConcurrentLazyHeap.withNew (heap : ConcurrentLazyHeap (BitVec 32) ℚ) (p : BitVec 32) (v : ℚ) :
    ConcurrentLazyHeap (BitVec 32) ℚ where
  values := Function.update heap.values p (some v)
  current := MaxHeap.push heap.current (toLex (v, p))
  stale := heap.stale

/-- A `next` that has found the first address of a prefix inserts the prefix into the heap with its
next four accesses and returns the address. -/
theorem PmapIpAdapter.feeder_inserts (self : PmapIpAdapter scope) (draw : ℕ → BitVec 8)
    {s : IpState} {a : Ipv4Addr} (hpc : s.feeder = .nextQuery a)
    (hnew : s.heap.values (prefixId a) = none) :
    (List.replicate 4 (IpAct.feeder draw)).foldl self.step s =
      { s with
        heap := s.heap.withNew (prefixId a) (self.graph.historicalScore (prefixId a)).toNat
      }.finish (some a) := by
  let v : ℚ := (self.graph.historicalScore (prefixId a)).toNat
  have hquery : self.feederStep draw s
      = { s with feeder := .nextUpdate a (.updateGet (prefixId a) v) } := by
    rw [PmapIpAdapter.feederStep, hpc]
    simp only [ConcurrentLazyHeap.query, hnew]
    rfl
  -- there is no old value, so `update` skips the push on `stale`
  have hget : self.feederStep draw { s with feeder := .nextUpdate a (.updateGet (prefixId a) v) }
      = { s with feeder := .nextUpdate a (.updateInsert (prefixId a) v) } := by
    simp only [PmapIpAdapter.feederStep, HeapOp.exec, hnew]
  simp only [List.replicate, List.foldl_cons, List.foldl_nil, PmapIpAdapter.step, hquery, hget]
  rfl

/-- A report of a hit in a prefix that is neither active nor in the heap inserts the prefix into the
heap. -/
theorem PmapIpAdapter.report_inserts (self : PmapIpAdapter scope) (a : Ipv4Addr)
    {s : IpState} (hidle : s.threads 0 = .idle) (hactive : s.actives (prefixId a) = none)
    (hnew : s.heap.values (prefixId a) = none) :
    ∃ v threads, (reportActs a).foldl self.step s =
      { s with heap := s.heap.withNew (prefixId a) v, threads := threads } := by
  simp only [reportActs, List.replicate, List.foldl_cons, List.foldl_nil, PmapIpAdapter.step, hidle,
    PmapIpAdapter.threadStep, Function.update_self, hactive, Option.map_none, Option.getD_none,
    if_true, HeapOp.exec, ConcurrentLazyHeap.update, hnew]
  exact ⟨_, _, rfl⟩

/-- `next_address` explores if the coin is below epsilon. -/
theorem PmapIpAdapter.sweep_call (self : PmapIpAdapter scope) {s : IpState}
    (hidle : s.feeder = .idle) {coin : {r : ℚ // 0 ≤ r ∧ r ≤ 1}} (hcoin : coin.1 < self.epsilon) :
    self.step s (.nextAddress coin) = { s with feeder := .next } := by
  simp only [PmapIpAdapter.step, hidle]
  rw [if_neg (not_le.mpr hcoin)]

/-- The sweep finds an unmarked address and marks it. -/
theorem PmapIpAdapter.sweep_feederStep (self : PmapIpAdapter scope) (draw : ℕ → BitVec 8)
    {s : IpState} {a : Ipv4Addr} (ha : self.order s.index = some a)
    (hfree : (s.entry (prefixId a)).scanned (offset a) = false) :
    let found : IpState :=
      { s.setEntry (prefixId a) ((s.entry (prefixId a)).markScanned (offset a)).2 with
        index := s.index + 1
        feeder := .next }
    self.feederStep draw { s with feeder := .next } =
      if ((s.entry (prefixId a)).markScanned (offset a)).2.remaining > 0 then
        { found with feeder := .nextQuery a }
      else found.finish (some a) := by
  obtain ⟨hlt, hindex⟩ := self.index_of_order ha
  simp only [PmapIpAdapter.feederStep, hlt, dite_true, hindex]
  rw [show ({ s with feeder := .next } : IpState).entry (prefixId a) = s.entry (prefixId a)
      from rfl,
    (PrefixState.markScanned_of_unscanned hfree).1, if_neg (by decide)]
  rfl

/-- A turn of the sweep that finds an unmarked address of a prefix that is not in the heap marks the
address, inserts the prefix and returns the address. -/
theorem PmapIpAdapter.sweepActs_run (self : PmapIpAdapter scope) (heps : self.epsilon = 1 / 2)
    {s : IpState} (hidle : s.feeder = .idle) {a : Ipv4Addr} (ha : self.order s.index = some a)
    (hfree : (s.entry (prefixId a)).scanned (offset a) = false)
    (hroom : (s.entry (prefixId a)).remaining - 1 > 0)
    (hnew : s.heap.values (prefixId a) = none) :
    sweepActs.foldl self.step s =
      { s.setEntry (prefixId a) ((s.entry (prefixId a)).markScanned (offset a)).2 with
        index := s.index + 1
        heap := s.heap.withNew (prefixId a) (self.graph.historicalScore (prefixId a)).toNat
      }.finish (some a) := by
  let found : IpState :=
    { s.setEntry (prefixId a) ((s.entry (prefixId a)).markScanned (offset a)).2 with
      index := s.index + 1
      feeder := .nextQuery a }
  -- the sweep step itself, and then the four accesses that store the score
  have hnext : self.feederStep (fun _ => 0#8) { s with feeder := .next } = found := by
    rw [self.sweep_feederStep _ ha hfree, PrefixState.remaining_markScanned hfree, if_pos hroom]
  have hs : sweepActs.foldl self.step s
      = (List.replicate 4 (IpAct.feeder fun _ => 0#8)).foldl self.step found := by
    rw [sweepActs, List.foldl_cons, self.sweep_call hidle (by rw [heps]; norm_num),
      List.replicate_succ, List.foldl_cons, PmapIpAdapter.step, hnext]
  rw [hs, self.feeder_inserts (fun _ => 0#8) (s := found) rfl hnew]
  rfl

/-- After the first turn of the sweep the heap holds the prefix of its address, of which only that
address is marked. -/
theorem PmapIpAdapter.sweepActs_spec (self : PmapIpAdapter scope) (heps : self.epsilon = 1 / 2)
    {a : Ipv4Addr} (ha : self.order 0 = some a) :
    let s := self.run sweepActs
    s.feeder = .idle ∧ (∃ v, s.heap.current = [toLex (v, prefixId a)]) ∧ s.heap.stale = [] ∧
      s.entry (prefixId a) = (PrefixState.new.markScanned (offset a)).2 := by
  have hrun := self.sweepActs_run heps (s := .initial) rfl ha (PrefixState.scanned_new _)
    (show PrefixState.new.remaining - 1 > 0 by decide) rfl
  rw [PmapIpAdapter.run, hrun]
  refine ⟨rfl, ⟨_, rfl⟩, rfl, ?_⟩
  simp [IpState.entry, IpState.finish, IpState.setEntry, IpState.initial]

/-- After a report the heap holds the prefix of the reported address, of which nothing is marked. -/
theorem PmapIpAdapter.reportActs_spec (self : PmapIpAdapter scope) (a : Ipv4Addr) :
    let s := self.run (reportActs a)
    s.feeder = .idle ∧ (∃ v, s.heap.current = [toLex (v, prefixId a)]) ∧ s.heap.stale = [] ∧
      s.entry (prefixId a) = PrefixState.new := by
  obtain ⟨v, threads, hrun⟩ := self.report_inserts a (s := .initial) rfl rfl rfl
  rw [PmapIpAdapter.run, hrun]
  exact ⟨rfl, ⟨v, rfl⟩, rfl, rfl⟩

end Runs

/-! ### Scope safety -/

/-- **When target selection stays in scope.** Let `reported` be any set of addresses that responder
threads may report. Every address returned in every such run is in scope if and only if each /24
prefix of an address that is in scope or reported lies in the scope as a whole. -/
theorem PmapIpAdapter.scope_safe_iff (scope : Scope) (reported : Set Ipv4Addr) :
    (∀ (self : PmapIpAdapter scope) (acts : List IpAct),
        (∀ t a, IpAct.onResult t a ∈ acts → a ∈ reported) →
        ∀ a, some a ∈ (self.run acts).results → scope.Enumerates a) ↔
      ∀ a, scope.Enumerates a ∨ a ∈ reported →
        ∀ b, prefixId b = prefixId a → scope.Enumerates b := by
  constructor
  · intro hsafe a ha b hb
    by_contra hout
    -- a run that returns `b`
    rcases ha with ha | ha
    · have hne : offset b ≠ offset a := by
        intro hoff
        apply hout
        rw [← joinAddr_prefixId_offset b, hb, hoff, joinAddr_prefixId_offset]
        exact ha
      obtain ⟨i, hi⟩ := ha
      have hlt := scope.lt_count_of_index hi
      -- a shuffle that puts `a` first
      let self : PmapIpAdapter scope :=
        ⟨Equiv.swap ⟨0, by omega⟩ ⟨i, hlt⟩, ⟨fun _ => none⟩, 1 / 2⟩
      have horder : self.order 0 = some a := by
        refine self.order_eq_some (by omega) ?_
        rw [show self.rng ⟨0, by omega⟩ = ⟨i, hlt⟩ from Equiv.swap_apply_left _ _]
        exact hi
      obtain ⟨hidle, ⟨v, hcurrent⟩, hstale, hentry⟩ := self.sweepActs_spec rfl horder
      have hmark := (PrefixState.markScanned_of_unscanned (PrefixState.scanned_new (offset a))).2
      have hrem := PrefixState.remaining_markScanned (PrefixState.scanned_new (offset a))
      have hpick := self.pickActs_spec rfl hidle hcurrent hstale (o := offset b)
        (by rw [hentry, hmark]; simp [hne]) (by rw [hentry, hrem]; decide)
        (by rw [hentry, hrem]; decide)
      rw [PmapIpAdapter.run, ← List.foldl_append, ← hb, joinAddr_prefixId_offset] at hpick
      refine hout (hsafe self (sweepActs ++ pickActs (offset b)) ?_ b hpick)
      intro t c hc
      simp [sweepActs, pickActs] at hc
    · -- any shuffle will do, as the report alone fills the heap
      let self : PmapIpAdapter scope := ⟨Equiv.refl _, ⟨fun _ => none⟩, 1 / 2⟩
      obtain ⟨hidle, ⟨v, hcurrent⟩, hstale, hentry⟩ := self.reportActs_spec a
      have hpick := self.pickActs_spec rfl hidle hcurrent hstale (o := offset b)
        (by rw [hentry]; simp) (by rw [hentry]; decide) (by rw [hentry]; decide)
      rw [PmapIpAdapter.run, ← List.foldl_append, ← hb, joinAddr_prefixId_offset] at hpick
      refine hout (hsafe self (reportActs a ++ pickActs (offset b)) ?_ b hpick)
      intro t c hc
      simp [reportActs, pickActs] at hc
      rwa [hc.2]
  · intro hclosed self acts hacts a ha
    -- only prefixes inside the scope ever get into the heap
    have hI := self.run_inv
      (P := fun p => IsPrefix p ∧ ∀ b, prefixId b = p → scope.Enumerates b)
      (fun _ h => h.1) (fun b hb => ⟨isPrefix_prefixId b, hclosed b (.inl hb)⟩)
      acts fun t b hb => ⟨isPrefix_prefixId b, hclosed b (.inr (hacts t b hb))⟩
    rcases hI.sound a ((hI.marked_iff a).mpr (.inl ha)) with hpick | hsweep
    · exact hpick.2 a rfl
    · exact (self.exists_order_iff a).mp hsweep

/-- The rescan of a single host, `10.0.0.0`. -/
def singleHost : Scope where
  source := ⟨[⟨0x0A000000#32, 0x0A000000#32⟩]⟩
  ranges := ⟨[(⟨0x0A000000#32, 0x0A000000#32⟩, ⟨0, 1⟩)], 1⟩
  compile_eq := rfl

/-- An adapter for that scope without history. -/
def singleHostAdapter : PmapIpAdapter singleHost := ⟨Equiv.refl _, ⟨fun _ => none⟩, 1 / 2⟩

/-- **An address outside the scope is returned.** With the single host `10.0.0.0` in scope, the
second call of `next_address` returns `10.0.0.1`. -/
theorem PmapIpAdapter.singleHost_escapes :
    some 0x0A000001#32 ∈ (singleHostAdapter.run (sweepActs ++ pickActs 1#8)).results ∧
      ¬ singleHost.Enumerates 0x0A000001#32 := by
  constructor
  · have hindex : singleHost.ranges.index 0 = .ok 0x0A000000#32 := by
      rw [CompiledRanges.index_eq singleHost.compile_eq]
      rfl
    have horder : singleHostAdapter.order 0 = some 0x0A000000#32 :=
      singleHostAdapter.order_eq_some (by decide) hindex
    -- the one address is swept, and its prefix is stored with a score
    obtain ⟨hidle, ⟨v, hcurrent⟩, hstale, hentry⟩ := singleHostAdapter.sweepActs_spec rfl horder
    have hpick := singleHostAdapter.pickActs_spec rfl hidle hcurrent hstale (o := 1#8)
      (by rw [hentry]; decide) (by rw [hentry]; decide) (by rw [hentry]; decide)
    rw [PmapIpAdapter.run, ← List.foldl_append] at hpick
    exact hpick
  · rintro ⟨i, hi⟩
    have hlt := singleHost.lt_count_of_index hi
    obtain rfl : i = 0 := Nat.lt_one_iff.mp hlt
    rw [CompiledRanges.index_eq singleHost.compile_eq] at hi
    exact absurd hi (by decide)

end Farsight
