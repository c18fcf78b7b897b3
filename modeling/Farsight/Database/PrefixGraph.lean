import Farsight.Database.Graph
import Farsight.Strategy.CallsReturn
import Farsight.Strategy.IpGreedy
import Mathlib.Algebra.BigOperators.Group.List.Lemmas

/-!
# Where the strategy looks first

`Database::build_prefix_graph` counts the results of each prefix, over the results of each address.
The address strategy starts from these counts, and adds the hits of the session. Here the address
that `next_address` returns is related to the table and the hits.

* `Database.buildPrefixGraph` — from the source, with the rows of the query in any order;
* `Database.historicalScore_buildPrefixGraph` — it counts the rows of the table;
* `PmapIpAdapter.nextAddress_learned` — when `next_address` does not explore, no prefix with free
  addresses that it has come across has more results than the one it returns an address of.
-/

namespace Farsight

/-! ### The query -/

/-- `*prefix_hits.entry(ip >> 8).or_insert(0) += cnt`. -/
def addHits (prefixHits : BitVec 32 → Option (BitVec 64)) (row : Ipv4Addr × BitVec 64) :
    BitVec 32 → Option (BitVec 64) :=
  Function.update prefixHits (prefixId row.1)
    (some ((prefixHits (prefixId row.1)).getD 0 + row.2))

/-- `Database::build_prefix_graph`. The query counts the rows of each address. -/
def Database.buildPrefixGraph (order : RowOrder) (table : Table) : PrefixGraph :=
  let ips := table.map Prod.fst
  let rows := order.addrs (ips.dedup.map fun ip => sent (ip, ips.count ip))
  { historicalHits := rows.foldl addHits fun _ => none }

/-- The results of a prefix. -/
def resultsIn (table : Table) (p : BitVec 32) : ℕ :=
  (table.map Prod.fst).countP fun ip => prefixId ip = p

/-- The results that rows count for a prefix. -/
def hitsIn (rows : List (Ipv4Addr × BitVec 64)) (p : BitVec 32) : ℕ :=
  ((rows.filter fun row => prefixId row.1 = p).map fun row => row.2.toNat).sum

theorem hitsIn_cons (row : Ipv4Addr × BitVec 64) (rows : List (Ipv4Addr × BitVec 64))
    (p : BitVec 32) :
    hitsIn (row :: rows) p = (if prefixId row.1 = p then row.2.toNat else 0) + hitsIn rows p := by
  unfold hitsIn
  split
  · next hp => rw [List.filter_cons_of_pos (by simpa using hp), List.map_cons, List.sum_cons]
  · next hp => rw [List.filter_cons_of_neg (by simpa using hp), Nat.zero_add]

/-- What the loop has added up for a prefix. -/
theorem foldl_addHits (rows : List (Ipv4Addr × BitVec 64))
    (prefixHits : BitVec 32 → Option (BitVec 64)) (p : BitVec 32) :
    ((rows.foldl addHits prefixHits p).getD 0).toNat =
      (((prefixHits p).getD 0).toNat + hitsIn rows p) % 2 ^ 64 := by
  induction rows generalizing prefixHits with
  | nil => exact (Nat.mod_eq_of_lt (BitVec.isLt _)).symm
  | cons row rows ih =>
    rw [List.foldl_cons, ih, hitsIn_cons, addHits]
    split
    · next hp =>
      rw [hp, Function.update_self, Option.getD_some, BitVec.toNat_add, Nat.mod_add_mod,
        Nat.add_assoc]
    · next hp => rw [Function.update_of_ne (Ne.symm hp), Nat.zero_add]

/-- The rows of the query count every result once. -/
theorem hitsIn_query (order : RowOrder) {table : Table} (htable : table.length < 2 ^ 64)
    (p : BitVec 32) :
    hitsIn (order.addrs ((table.map Prod.fst).dedup.map fun ip =>
      sent (ip, (table.map Prod.fst).count ip))) p = resultsIn table p := by
  rw [hitsIn, (((order.addrs_perm _).filter _).map _).sum_eq, List.filter_map, List.map_map,
    resultsIn, ← List.sum_map_count_dedup_filter_eq_countP]
  congr 1
  refine List.map_congr_left fun ip _ => ?_
  change (BitVec.ofNat 64 ((table.map Prod.fst).count ip)).toNat = _
  rw [BitVec.toNat_ofNat]
  refine Nat.mod_eq_of_lt (List.count_le_length.trans_lt ?_)
  rwa [List.length_map]

/-- The score that the history gives to a prefix is the number of its results. -/
theorem Database.historicalScore_buildPrefixGraph (order : RowOrder) {table : Table}
    (htable : table.length < 2 ^ 64) (p : BitVec 32) :
    ((Database.buildPrefixGraph order table).historicalScore p).toNat = resultsIn table p := by
  change (((List.foldl addHits _ _) p).getD 0).toNat = _
  rw [foldl_addHits, hitsIn_query order htable]
  change (0 + resultsIn table p) % 2 ^ 64 = _
  rw [Nat.zero_add]
  refine Nat.mod_eq_of_lt (List.countP_le_length.trans_lt ?_)
  rwa [List.length_map]

/-! ### The address that is returned -/

namespace PmapIpAdapter

variable {scope : Scope} {self : PmapIpAdapter scope} {acts : List IpAct} {p : BitVec 32}

/-- The hits of a prefix that were reported. -/
def reported (self : PmapIpAdapter scope) (acts : List IpAct) (p : BitVec 32) : ℕ :=
  Run.total self.step (reports p) .initial acts

/-- A prefix that was met: it has free addresses, and another one of its addresses was handed out or
a hit was reported. -/
def Met (self : PmapIpAdapter scope) (acts : List IpAct) (p : BitVec 32) : Prop :=
  (self.run acts).HasUnscanned p ∧ ((self.run acts).HasScanned p ∨ 0 < self.reported acts p)

/-- Between two calls the scores in the heap are settled. -/
theorem Quiet.settled (h : self.Quiet acts) (hidle : (self.run acts).feeder = .idle) :
    self.Settled (self.reported acts) (self.run acts) (self.run acts).heap.values 0 none := by
  have hsettled := (self.ledger_run h.alone).feeder h.threads
  rw [hidle] at hsettled
  exact hsettled

theorem remaining_of_hasUnscanned (hp : (self.run acts).HasUnscanned p) :
    ((self.run acts).entry p).remaining ≠ 0 := by
  intro hzero
  obtain ⟨o, ho⟩ := hp
  rw [(self.counted_run acts p).remaining_eq_zero_iff.mp hzero o] at ho
  cases ho

/-- Between two calls the score of a prefix with free addresses is the number of known results. -/
theorem Quiet.score (h : self.Quiet acts) (hidle : (self.run acts).feeder = .idle)
    (hp : (self.run acts).HasUnscanned p) :
    ((self.run acts).heap.values p).getD (self.graph.historicalScore p).toNat =
      self.known (self.reported acts) p := by
  have hscore := (h.settled hidle).score p (remaining_of_hasUnscanned hp)
  change ((self.run acts).heap.values p).getD _ + ((0 : ℕ) : ℚ) = _ at hscore
  rwa [Nat.cast_zero, add_zero] at hscore

/-- Between two calls a prefix that was met is in the heap. -/
theorem Met.candidate (h : self.Quiet acts) (hidle : (self.run acts).feeder = .idle)
    (hmet : self.Met acts p) :
    (self.run acts).Candidate p (self.known (self.reported acts) p) := by
  have hscore := h.score hidle hmet.1
  cases hvalue : (self.run acts).heap.values p with
  | some score =>
    rw [hvalue, Option.getD_some] at hscore
    exact ⟨hvalue.trans (congrArg some hscore), hmet.1⟩
  | none =>
    rcases hmet.2 with hscanned | hreported
    · exact absurd hvalue
        ((h.settled hidle).bound p (remaining_of_hasUnscanned hmet.1) hscanned nofun)
    · -- the score of a prefix that is not in the heap would be that of the history
      rw [hvalue, Option.getD_none, Nat.cast_inj, known] at hscore
      exact absurd hscore (Nat.ne_of_lt (Nat.lt_add_of_pos_right hreported))

/-- **The best prefix first.** The adapter has its history from the table, and calls come one after
another. Then `next_address`, if it does not explore and some prefix was met, returns a free address
after finitely many accesses, whatever the random generator returns. No prefix that was met has more
results than the prefix of this address: in the table, and reported since. -/
theorem nextAddress_learned (self : PmapIpAdapter scope) (order : RowOrder) (table : Table)
    (hgraph : self.graph = Database.buildPrefixGraph order table) (acts : List IpAct)
    (hquiet : self.Quiet acts) (hidle : (self.run acts).feeder = .idle)
    -- an `f64` has all these numbers
    (hsmall : table.length + acts.length < 2 ^ 53)
    (coin : {r : ℚ // 0 ≤ r ∧ r ≤ 1}) (hcoin : self.epsilon ≤ coin)
    (hmet : ∃ p, self.Met acts p) (draws : ℕ → ℕ → BitVec 8) :
    ∃ n addr,
      (self.run (acts ++ .nextAddress coin :: feeds draws n)).feeder = .idle ∧
      (self.run (acts ++ .nextAddress coin :: feeds draws n)).results =
        (self.run acts).results ++ [some addr] ∧
      ((self.run acts).entry (prefixId addr)).isUnscanned (offset addr) = true ∧
      ∀ q, self.Met acts q → resultsIn table q + self.reported acts q ≤
        resultsIn table (prefixId addr) + self.reported acts (prefixId addr) := by
  have hknown (q : BitVec 32) :
      self.known (self.reported acts) q = resultsIn table q + self.reported acts q := by
    rw [known, hgraph, Database.historicalScore_buildPrefixGraph order (by omega)]
  -- the call enters `try_pick` in the state between the calls
  have hcall : self.run (acts ++ [.nextAddress coin]) =
      { self.run acts with feeder := .tryPickTop false } := by
    rw [run_concat]
    simp only [step, hidle]
    exact if_pos hcoin
  have hrun := self.pickable_run hquiet.alone hquiet.threads (.inl hidle)
  have hpickable : (self.run (acts ++ [.nextAddress coin])).Pickable := by
    rw [hcall]
    exact ⟨hrun.represented, hrun.keys, hrun.counted⟩
  have hpc : (self.run (acts ++ [.nextAddress coin])).feeder = .tryPickTop false := by
    rw [hcall]
  obtain ⟨n, result, hpicks, hresult⟩ := self.exists_tryPicks hpickable hpc draws
  have hanswer : (self.run acts).Picks result := by
    refine hresult.of_candidate_iff (fun q => ?_) fun q score => ?_
    · rw [hcall]
      rfl
    · rw [hcall]
      exact Iff.rfl
  have hreturned := hpicks.returned
  rw [← self.run_feeds, ← List.append_cons] at hreturned
  cases result with
  | none =>
    -- a prefix that was met is a candidate, so there is an answer
    obtain ⟨p, hp⟩ := hmet
    exact absurd (hp.candidate hquiet hidle) (hanswer p _)
  | some addr =>
    obtain ⟨hfree, score, hcandidate, hbest⟩ := hanswer
    rw [hcall] at hreturned
    refine ⟨n, addr, hreturned.1, hreturned.2, hfree, fun q hq => ?_⟩
    -- the score of the answer and that of any other prefix are the numbers of their results
    have hscore := hquiet.score hidle hcandidate.2
    rw [hcandidate.1, Option.getD_some] at hscore
    have hle := hbest q _ (hq.candidate hquiet hidle)
    rwa [hscore, Nat.cast_le, hknown, hknown] at hle

/-- One result at `10.0.1.0` and one at `10.0.0.0`. -/
def twoResults : Table :=
  [(0x0A000100#32, 25565), (0x0A000000#32, 25565)]

/-- An adapter with this history. -/
def historyAdapter : PmapIpAdapter singleHost where
  rng := Equiv.refl _
  graph := Database.buildPrefixGraph RowOrder.asSent twoResults
  epsilon := 1 / 2

/-- After another hit at `10.0.0.0`, an address next to it is returned. -/
theorem nextAddress_learned_twoResults :
    ∃ n addr, (historyAdapter.run (reportActs 0x0A000000#32 ++
        .nextAddress ⟨1, zero_le_one, le_refl 1⟩ :: feeds (fun _ _ => 0#8) n)).results =
          [some addr] ∧
      2 ≤ resultsIn twoResults (prefixId addr) +
        historyAdapter.reported (reportActs 0x0A000000#32) (prefixId addr) := by
  have hthreads : ∀ t, (historyAdapter.run (reportActs 0x0A000000#32)).threads t = .idle := by
    intro t
    match t with
    | 0 => rfl
    | _ + 1 => rfl
  have halone : Run.Along historyAdapter.step Alone .initial (reportActs 0x0A000000#32) := by
    -- thread 0 makes the report, and all others stay idle
    refine Run.along_of_preserving
      (I := fun s => s.feeder = .idle ∧ ∀ u, u ≠ 0 → s.threads u = .idle) ?_ ⟨rfl, fun _ _ => rfl⟩
    intro act hact s hs
    refine historyAdapter.alone_of_thread ?_ hs
    simp only [reportActs, List.mem_cons, List.mem_replicate] at hact
    exact hact.imp (fun h => ⟨_, h⟩) fun h => h.2
  have hmet : historyAdapter.Met (reportActs 0x0A000000#32) 0x0A0000#32 :=
    ⟨⟨0#8, rfl⟩, .inr (by decide)⟩
  obtain ⟨n, addr, -, hresults, -, hbest⟩ := historyAdapter.nextAddress_learned RowOrder.asSent
    twoResults rfl (reportActs 0x0A000000#32) ⟨halone, hthreads⟩ rfl (by decide)
    ⟨1, zero_le_one, le_refl 1⟩ (by norm_num [historyAdapter]) ⟨_, hmet⟩ fun _ _ => 0#8
  exact ⟨n, addr, hresults, hbest _ hmet⟩

end PmapIpAdapter

end Farsight
