import Farsight.Lib.GroupBy
import Farsight.Strategy.GreedyPort
import Mathlib.Data.Finset.Max

/-!
# What the strategy learns

`Database::build_graph` counts in the table of all results: the hosts, the hosts of each port, and
the hosts of each pair of ports. The port strategy starts from these counts. Here they are related
to the table, so that what the strategy prefers can be said in terms of past results.

* `collect`, `Database.buildGraph` — from the source. The queries are what they say, with rows in
  any order;
* `frequency`, `frequencyGiven` — how many of the hosts have a port open, and how many of those that
  have another one open;
* `PmapPortAdapter.nextPort_learned` — the scores of ports are such frequencies, and `next_port`
  returns a port with the greatest one.
-/

namespace Farsight

open GroupBy

/-! ### The queries -/

/-- The columns of the table that are asked for. -/
abbrev Table := List (Ipv4Addr × Port)

/-- `collect` of rows into a map. -/
def collect {K C : Type} [DecidableEq K] (rows : List (K × C)) : AList fun _ : K => C :=
  rows.foldl (fun counts row => counts.insert row.1 row.2) ∅

/-- Rows with distinct keys are looked up as they are. With a key twice, the later row would win. -/
theorem lookup_collect {K C : Type} [DecidableEq K] {rows : List (K × C)}
    (h : (rows.map Prod.fst).Nodup) (key : K) (count : C) :
    (collect rows).lookup key = some count ↔ (key, count) ∈ rows := by
  induction rows using List.reverseRecOn with
  | nil =>
    rw [collect, List.foldl_nil, AList.lookup_empty]
    exact iff_of_false nofun List.not_mem_nil
  | append_singleton rows row ih =>
    rw [List.map_append, List.nodup_append] at h
    obtain ⟨hrows, -, hfresh⟩ := h
    rw [collect, List.foldl_append, List.foldl_cons, List.foldl_nil, List.mem_append,
      List.mem_singleton]
    by_cases hkey : key = row.1
    · subst hkey
      rw [AList.lookup_insert]
      -- the key is new, so the rows before do not have it with any count
      have hnot : (row.1, count) ∉ rows := fun hmem =>
        hfresh row.1 (List.mem_map.mpr ⟨_, hmem, rfl⟩) row.1 (List.mem_singleton_self _) rfl
      rw [or_iff_right hnot, Option.some.injEq, Prod.ext_iff]
      exact ⟨fun heq => ⟨rfl, heq.symm⟩, fun heq => heq.2.symm⟩
    · rw [AList.lookup_insert_ne hkey]
      refine (ih hrows).trans (or_iff_left ?_).symm
      exact fun heq => hkey (congrArg Prod.fst heq)

/-- The orders in which rows are sent. No query asks for one. -/
structure RowOrder where
  ports : List (Port × BitVec 64) → List (Port × BitVec 64)
  ports_perm : ∀ rows, (ports rows).Perm rows
  pairs : List ((Port × Port) × BitVec 64) → List ((Port × Port) × BitVec 64)
  pairs_perm : ∀ rows, (pairs rows).Perm rows
  addrs : List (Ipv4Addr × BitVec 64) → List (Ipv4Addr × BitVec 64)
  addrs_perm : ∀ rows, (addrs rows).Perm rows

/-- A count as it is sent. -/
def sent {K : Type} (row : K × ℕ) : K × BitVec 64 :=
  (row.1, .ofNat 64 row.2)

/-- `FROM ? a INNER JOIN ? b ON a.ip = b.ip WHERE a.port != b.port`. -/
def joined (table : Table) : List ((Ipv4Addr × Port) × (Ipv4Addr × Port)) :=
  (table.product table).filter fun row => row.1.1 = row.2.1 ∧ row.1.2 ≠ row.2.2

/-- `Database::build_graph`. -/
def Database.buildGraph (order : RowOrder) (sort : PortGraph.CountSort) (table : Table)
    (seedPorts : List Port) (threshold : BitVec 8) : PortGraph :=
  let total : BitVec 64 := .ofNat 64 (table.map Prod.fst).dedup.length
  if total = 0 then .fromCounts sort ∅ ∅ 0 seedPorts threshold
  else
    let portRows := order.ports ((countDistinct Prod.snd Prod.fst table).map sent)
    let coRows := order.pairs ((countDistinct (fun row => (row.1.2, row.2.2))
      (fun row => row.1.1) (joined table)).map sent)
    .fromCounts sort (collect portRows) (collect coRows) total seedPorts threshold

/-! ### Frequencies -/

/-- The hosts of the table. -/
def hosts (table : Table) : Finset Ipv4Addr :=
  (table.map Prod.fst).toFinset

/-- The hosts that have a port open. -/
def hostsOf (table : Table) (port : Port) : Finset Ipv4Addr :=
  group Prod.snd Prod.fst table port

/-- How many of the hosts have a port open. -/
def frequency (table : Table) (port : Port) : ℚ :=
  ((hostsOf table port).card : ℚ) / ((hosts table).card : ℚ)

/-- How many of the hosts that have the port `hit` open have the port open as well. -/
def frequencyGiven (table : Table) (hit port : Port) : ℚ :=
  ((hostsOf table hit ∩ hostsOf table port).card : ℚ) / ((hostsOf table hit).card : ℚ)

theorem mem_hostsOf {table : Table} {port : Port} {addr : Ipv4Addr} :
    addr ∈ hostsOf table port ↔ (addr, port) ∈ table := by
  rw [hostsOf, mem_group]
  constructor
  · rintro ⟨⟨_, _⟩, hrow, rfl, rfl⟩
    exact hrow
  · intro hrow
    exact ⟨(addr, port), hrow, rfl, rfl⟩

/-- The hosts of a pair of ports. -/
theorem group_joined (table : Table) {hit port : Port} (hne : hit ≠ port) :
    group (fun row => (row.1.2, row.2.2)) (fun row => row.1.1) (joined table) (hit, port) =
      hostsOf table hit ∩ hostsOf table port := by
  ext addr
  rw [mem_group, Finset.mem_inter, mem_hostsOf, mem_hostsOf]
  constructor
  · rintro ⟨⟨⟨first, _⟩, ⟨second, _⟩⟩, hrow, hports, rfl⟩
    cases hports
    rw [joined, List.mem_filter, decide_eq_true_eq, List.pair_mem_product] at hrow
    -- the join pairs rows of one host with two different ports
    obtain ⟨⟨hfirst, hsecond⟩, hsame, -⟩ := hrow
    obtain rfl : first = second := hsame
    exact ⟨hfirst, hsecond⟩
  · rintro ⟨hfirst, hsecond⟩
    refine ⟨((addr, hit), (addr, port)), ?_, rfl, rfl⟩
    rw [joined, List.mem_filter, decide_eq_true_eq, List.pair_mem_product]
    exact ⟨⟨hfirst, hsecond⟩, rfl, hne⟩

/-- There are not too many addresses to be counted. -/
theorem toNat_card (addrs : Finset Ipv4Addr) : (BitVec.ofNat 64 addrs.card).toNat = addrs.card := by
  have hcard : addrs.card ≤ 2 ^ 32 := by
    rw [← Finset.card_range (2 ^ 32)]
    refine Finset.card_le_card_of_injOn BitVec.toNat (fun addr _ => ?_)
      (BitVec.toNat_injective.injOn)
    rw [Finset.coe_range]
    exact addr.isLt
  rw [BitVec.toNat_ofNat]
  omega

theorem hostsOf_subset (table : Table) (port : Port) : hostsOf table port ⊆ hosts table := by
  intro addr haddr
  rw [hosts, List.mem_toFinset, List.mem_map]
  exact ⟨(addr, port), mem_hostsOf.mp haddr, rfl⟩

theorem frequency_nonneg (table : Table) (port : Port) : 0 ≤ frequency table port :=
  div_nonneg (Nat.cast_nonneg _) (Nat.cast_nonneg _)

/-! ### What the graph has -/

/-- Counts that say how many hosts there are. -/
structure Counts (table : Table) (singles : PortGraph.Singles) (doubles : PortGraph.Doubles)
    (total : BitVec 64) : Prop where
  total : total.toNat = (hosts table).card
  singles : ∀ port count, singles.lookup port = some count ↔
    (hostsOf table port).Nonempty ∧ count = .ofNat 64 (hostsOf table port).card
  doubles : ∀ hit port, hit ≠ port → ∀ count, doubles.lookup (hit, port) = some count ↔
    (hostsOf table hit ∩ hostsOf table port).Nonempty ∧
      count = .ofNat 64 (hostsOf table hit ∩ hostsOf table port).card

/-- What is looked up in the rows of a query. -/
theorem lookup_rows {R K : Type} [DecidableEq K] {key : R → K} {value : R → Ipv4Addr}
    {table : List R} {rows : List (K × BitVec 64)}
    (hrows : rows.Perm ((countDistinct key value table).map sent)) (k : K) (count : BitVec 64) :
    (collect rows).lookup k = some count ↔
      (group key value table k).Nonempty ∧ count = .ofNat 64 (group key value table k).card := by
  -- the server sends one row for each key
  have hnodup : (rows.map Prod.fst).Nodup := by
    rw [(hrows.map Prod.fst).nodup_iff, List.map_map]
    exact nodup_keys_countDistinct
  rw [lookup_collect hnodup, hrows.mem_iff, List.mem_map]
  constructor
  · rintro ⟨⟨k', n⟩, hmem, heq⟩
    cases heq
    obtain ⟨hnonempty, rfl⟩ := mem_countDistinct.mp hmem
    exact ⟨hnonempty, rfl⟩
  · rintro ⟨hnonempty, rfl⟩
    exact ⟨(k, _), mem_countDistinct.mpr ⟨hnonempty, rfl⟩, rfl⟩

/-- Whatever order the server sends its rows in, the graph is built from the counts of the table. -/
theorem exists_counts (order : RowOrder) (sort : PortGraph.CountSort) (table : Table)
    (seedPorts : List Port) (threshold : BitVec 8) :
    ∃ singles doubles total, Database.buildGraph order sort table seedPorts threshold =
      .fromCounts sort singles doubles total seedPorts threshold ∧
      Counts table singles doubles total := by
  have htotal : (table.map Prod.fst).dedup.length = (hosts table).card :=
    (List.card_toFinset _).symm
  rw [Database.buildGraph]
  dsimp only
  rw [htotal]
  split
  · -- an empty table has no hosts
    next hzero =>
    have hnone : (hosts table).card = 0 := by
      rw [← toNat_card, hzero]
      rfl
    have hempty (port : Port) : hostsOf table port = ∅ := by
      rw [← Finset.subset_empty, ← Finset.card_eq_zero.mp hnone]
      exact hostsOf_subset table port
    refine ⟨∅, ∅, 0, rfl, hnone.symm, fun port count => ?_, fun hit port _ count => ?_⟩
    · rw [hempty, AList.lookup_empty]
      exact iff_of_false nofun fun h => Finset.not_nonempty_empty h.1
    · rw [hempty, Finset.empty_inter, AList.lookup_empty]
      exact iff_of_false nofun fun h => Finset.not_nonempty_empty h.1
  · -- both queries group by their key, so that each key is counted once
    refine ⟨_, _, _, rfl, toNat_card _, fun port count => ?_, fun hit port hne count => ?_⟩
    · exact lookup_rows (order.ports_perm _) port count
    · rw [lookup_rows (order.pairs_perm _), group_joined table hne]

section Learned

variable {table : Table} {singles : PortGraph.Singles} {doubles : PortGraph.Doubles}
variable {total : BitVec 64} {sort : PortGraph.CountSort} {seedPorts : List Port}
variable {threshold : BitVec 8} {graph : PortGraph}

/-- The number of hosts that the graph has for a port is that of the table, and zero for a port
without a row. -/
theorem Counts.toNat_openCount (h : Counts table singles doubles total)
    (hgraph : graph = .fromCounts sort singles doubles total seedPorts threshold) (port : Port) :
    (graph.openCount port).toNat = (hostsOf table port).card := by
  rw [hgraph]
  change ((singles.lookup port).getD 0).toNat = _
  cases hlookup : singles.lookup port with
  | some count =>
    rw [Option.getD_some, ((h.singles port count).mp hlookup).2, toNat_card]
  | none =>
    -- a port without a row has no host
    have hempty : ¬ (hostsOf table port).Nonempty := fun hnonempty => by
      rw [(h.singles port _).mpr ⟨hnonempty, rfl⟩] at hlookup
      contradiction
    rw [Finset.not_nonempty_iff_eq_empty.mp hempty]
    rfl

/-- What the graph takes for the probability of a port is its frequency. -/
theorem Counts.baseProb_eq (h : Counts table singles doubles total)
    (hgraph : graph = .fromCounts sort singles doubles total seedPorts threshold) (port : Port) :
    graph.baseProb port = frequency table port := by
  have htotal : graph.total = if total < 1 then 1 else total := by rw [hgraph]; rfl
  change ((graph.openCount port).toNat : ℚ) / _ = _
  rw [h.toNat_openCount hgraph, htotal, frequency]
  split
  · next hzero =>
    -- without hosts the total is one, and all counts are zero
    have hnone : (hosts table).card = 0 := by
      rw [← h.total]
      exact Nat.lt_one_iff.mp hzero
    have hle := Finset.card_le_card (hostsOf_subset table port)
    rw [hnone, Nat.le_zero] at hle
    rw [hle, Nat.cast_zero, zero_div, zero_div]
  · rw [h.total]

/-! ### The choice -/

namespace PmapPortAdapter

/-- The ports whose first report was a hit. -/
def hitPorts (reports : List Report) : Finset Port :=
  ((firstReports reports).filterMap fun report => report.hash.map fun _ => report.port).toFinset

theorem mem_hitPorts {reports : List Report} {hit : Port} :
    hit ∈ hitPorts reports ↔ ∃ hash, ⟨hit, some hash⟩ ∈ firstReports reports := by
  rw [hitPorts, List.mem_toFinset, List.mem_filterMap]
  constructor
  · rintro ⟨⟨port, hash⟩, hmem, hsome⟩
    obtain ⟨hash, rfl, rfl⟩ := Option.map_eq_some_iff.mp hsome
    exact ⟨hash, hmem⟩
  · rintro ⟨hash, hmem⟩
    exact ⟨_, hmem, rfl⟩

/-- What the results in the table say about a port of a host with these reports: how frequent it is,
or how frequent it is on hosts that have one of the hits as well, if that is more. -/
def expectation (table : Table) (reports : List Report) (port : Port) : ℚ :=
  (insert (frequency table port)
    ((hitPorts reports).image fun hit => frequencyGiven table hit port)).max'
      (Finset.insert_nonempty _ _)

/-- The greatest score of a port that was not reported is what is expected of it. -/
theorem expectation_eq (h : Counts table singles doubles total)
    (hgraph : graph = .fromCounts sort singles doubles total seedPorts threshold)
    {reports : List Report} {port : Port} (hport : port ∉ reportedPorts reports) {q : ℚ}
    (hq : IsGreatest (scores graph reports port) q) : q = expectation table reports port := by
  have hmax := Finset.isGreatest_max' _ (Finset.insert_nonempty (frequency table port)
    ((hitPorts reports).image fun hit => frequencyGiven table hit port))
  have hne (hit : Port) (hhit : hit ∈ hitPorts reports) : hit ≠ port := by
    obtain ⟨hash, hmem⟩ := mem_hitPorts.mp hhit
    rintro rfl
    exact hport ((exists_mem_firstReports reports hit).mp ⟨_, hmem, rfl⟩)
  rw [scores_fromCounts hgraph] at hq
  -- the scores of the graph are compared with the frequencies, both ways
  apply le_antisymm
  · refine hmax.2 (Finset.mem_coe.mpr (Finset.mem_insert.mpr ?_))
    rcases hq.1 with hbase | ⟨hit, hash, count, hmem, -, hcount, hshare⟩
    · exact .inl (hbase.trans (h.baseProb_eq hgraph port))
    · have hhit := mem_hitPorts.mpr ⟨hash, hmem⟩
      refine .inr (Finset.mem_image.mpr ⟨hit, hhit, ?_⟩)
      rw [hshare, h.toNat_openCount hgraph, ((h.doubles hit port (hne hit hhit) count).mp hcount).2,
        toNat_card]
      rfl
  · -- a pair without a common host has no row, and so no score. Its frequency is zero
    have hbase : frequency table port ≤ q := hq.2 (.inl (h.baseProb_eq hgraph port).symm)
    rcases Finset.mem_insert.mp (Finset.mem_coe.mp hmax.1) with heq | hmem
    · exact heq.trans_le hbase
    · obtain ⟨hit, hhit, heq⟩ := Finset.mem_image.mp hmem
      rw [expectation, ← heq]
      by_cases hboth : (hostsOf table hit ∩ hostsOf table port).Nonempty
      · obtain ⟨hash, hmem⟩ := mem_hitPorts.mp hhit
        refine hq.2 (.inr ⟨hit, hash, _, hmem, ?_,
          (h.doubles hit port (hne hit hhit) _).mpr ⟨hboth, rfl⟩, ?_⟩)
        · intro hzero
          have hcard := h.toNat_openCount hgraph hit
          rw [hzero] at hcard
          exact (hboth.mono Finset.inter_subset_left).card_ne_zero hcard.symm
        · rw [h.toNat_openCount hgraph, toNat_card]
          rfl
      · -- no host has both
        rw [frequencyGiven, Finset.not_nonempty_iff_eq_empty.mp hboth, Finset.card_empty,
          Nat.cast_zero, zero_div]
        exact (frequency_nonneg table port).trans hbase

/-- The recommendations are the ports of the table, and the seeds. -/
theorem mem_recommendations (h : Counts table singles doubles total)
    (hgraph : graph = .fromCounts sort singles doubles total seedPorts threshold) (port : Port) :
    port ∈ graph.recommendations ↔ (hostsOf table port).Nonempty ∨ port ∈ seedPorts := by
  have hlisted : port ∈ (PortGraph.ordered sort singles).map Prod.fst ↔
      (hostsOf table port).Nonempty := by
    rw [List.mem_map]
    constructor
    · rintro ⟨⟨_, count⟩, hmem, rfl⟩
      exact ((h.singles _ count).mp (PortGraph.mem_ordered.mp hmem)).1
    · intro hnonempty
      exact ⟨(port, _), PortGraph.mem_ordered.mpr ((h.singles port _).mpr ⟨hnonempty, rfl⟩), rfl⟩
  rw [hgraph, PortGraph.fromCounts]
  dsimp only
  rw [List.mem_append, List.mem_filter, decide_eq_true_eq, hlisted]
  tauto

end PmapPortAdapter

end Learned

/-- **What was found before decides what is tried next.** Take any table of results, with the rows
of the queries in any order, and any scan of a host in which each report is about a port that was
issued. The score of a port that was not tried is what the table says about it, given the hits of
this host. Once there was a result, `next_port` returns a port of which most is expected; and it
returns none only if all ports of the table and all seeds were tried. -/
theorem PmapPortAdapter.nextPort_learned (order : RowOrder) (sort : PortGraph.CountSort)
    (table : Table) (seedPorts : List Port) (threshold : BitVec 8) (self : PmapPortAdapter)
    (hgraph : self.graph = Database.buildGraph order sort table seedPorts threshold)
    (addr : Ipv4Addr) (side : PortSide) (reports : List Report)
    (h : Run.Along (HostScan.report self addr) IssuedBefore (HostScan.start self addr side) reports)
    (state : State)
    (hstate : (reports.foldl (HostScan.report self addr) (HostScan.start self addr side)).state
      addr = some state) :
    (∀ port ∉ state.triedPorts, state.prob self.graph port = expectation table reports port) ∧
    (reports ≠ [] →
      (∀ port, (state.nextPort self.graph).1 = some port → port ∉ state.triedPorts ∧
        ∀ other ∉ state.triedPorts,
          expectation table reports other ≤ expectation table reports port) ∧
      ((state.nextPort self.graph).1 = none →
        (∀ row ∈ table, row.2 ∈ state.triedPorts) ∧
          ∀ port ∈ seedPorts, port ∈ state.triedPorts)) := by
  obtain ⟨singles, doubles, total, hbuild, hcounts⟩ :=
    exists_counts order sort table seedPorts threshold
  rw [hbuild] at hgraph
  -- the reports are folded with the invariant of the greedy scan
  have hscan : GreedyScan self addr reports
      (reports.foldl (HostScan.report self addr) (HostScan.start self addr side)) :=
    h.rule (I := GreedyScan self addr) (fun _ _ _ hr hs => hs.report hr)
      (GreedyScan.start self addr side)
  have hgreedy := hscan.greedy state hstate
  have hscore : ∀ port ∉ state.triedPorts,
      state.prob self.graph port = expectation table reports port := by
    intro port hport
    -- an untried port was not reported, which is what the frequencies need
    refine expectation_eq hcounts hgraph ?_ (hgreedy.scored port hport)
    rwa [(hscan.issued.present state hstate).1] at hport
  refine ⟨hscore, fun hreports => ?_⟩
  have hranked : self.graph.Ranked := by
    rw [hgraph]
    exact PortGraph.ranked_fromCounts
  have hbest := State.nextPort_best hranked hgreedy (hscan.passed_of_ne_nil hstate hreports)
  constructor
  · intro port hnext
    rw [hnext] at hbest
    obtain ⟨huntried, hgreatest⟩ := hbest
    refine ⟨huntried, fun other hother => ?_⟩
    rw [← hscore port huntried, ← hscore other hother]
    exact hgreatest other hother
  · intro hnext
    rw [hnext] at hbest
    -- nothing is left to recommend: all ports of the table and all seed ports were tried
    have htried (port : Port) (hport : (hostsOf table port).Nonempty ∨ port ∈ seedPorts) :
        port ∈ state.triedPorts :=
      hbest.1 port ((mem_recommendations hcounts hgraph port).mpr hport)
    exact ⟨fun row hrow => htried row.2 (.inl ⟨row.1, mem_hostsOf.mpr hrow⟩),
      fun port hport => htried port (.inr hport)⟩

/-- Rows as they come. -/
def RowOrder.asSent : RowOrder where
  ports := id
  ports_perm _ := .refl _
  pairs := id
  pairs_perm _ := .refl _
  addrs := id
  addrs_perm _ := .refl _

namespace PmapPortAdapter

/-- Three hosts. Half of those with port 80 have 443 as well. -/
def threeHosts : Table :=
  [(1, 80), (1, 443), (2, 80), (3, 22)]

/-- A strategy that never explores, with this table. -/
def learnedAdapter : PmapPortAdapter where
  graph := Database.buildGraph RowOrder.asSent insertionCounts threeHosts [25565] 3
  epsilon := 0
  budgetPerAddress := 3
  sourcePort := .single 61000

theorem nextPort_learned_threeHosts :
    ∃ state, (HostScan.report learnedAdapter 9 (HostScan.start learnedAdapter 9 singleSide)
        ⟨80, some 1⟩).state 9 = some state ∧
      (state.nextPort learnedAdapter.graph).1 = some 443 ∧
      ∀ other ∉ state.triedPorts, expectation threeHosts [⟨80, some 1⟩] other ≤
        expectation threeHosts [⟨80, some 1⟩] 443 := by
  have halong : Run.Along (HostScan.report learnedAdapter 9) IssuedBefore
      (HostScan.start learnedAdapter 9 singleSide) [⟨80, some 1⟩] := ⟨.head _, trivial⟩
  have hnext : ((HostScan.report learnedAdapter 9 (HostScan.start learnedAdapter 9 singleSide)
      ⟨80, some 1⟩).state 9).map (fun state => (state.nextPort learnedAdapter.graph).1) =
        some (some 443) := by
    decide +kernel
  obtain ⟨state, hstate, hport⟩ := Option.map_eq_some_iff.mp hnext
  refine ⟨state, hstate, hport, ?_⟩
  exact (((nextPort_learned RowOrder.asSent insertionCounts threeHosts [25565] 3 learnedAdapter rfl
    9 singleSide [⟨80, some 1⟩] halong state hstate).2 (List.cons_ne_nil _ _)).1 443 hport).2

end PmapPortAdapter

end Farsight
