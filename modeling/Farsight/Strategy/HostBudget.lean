import Farsight.Strategy.HostReports

/-!
# Budget and honeypots

Every host has a budget of ports, and a host that gives the same response on too many ports is taken
for a honeypot. Both are counted by `on_result` as the reports come in. The number of ports in the
reports and the number of first reports with each hash say at any time what the state of the host
has to be.

* `firstCount` — how many ports had a response as their first report;
* `Going` — neither limit was reached;
* `Counted` — the state against the reports;
* `PmapPortAdapter.present_iff` — the host has a state as long as neither limit was reached.
-/

namespace Farsight

namespace PmapPortAdapter

/-! ### The reports that count -/

/-- The number of ports with a response of this hash as their first report. -/
def firstCount (reports : List Report) (hash : BitVec 64) : ℕ :=
  (firstReports reports).countP fun r => r.hash = some hash

variable {reports : List Report} {r : Report}

theorem firstCount_repeated (h : r.port ∈ reportedPorts reports) (hash : BitVec 64) :
    firstCount (reports ++ [r]) hash = firstCount reports hash := by
  rw [firstCount, firstReports_repeated h, firstCount]

theorem firstCount_first (h : r.port ∉ reportedPorts reports) (hash : BitVec 64) :
    firstCount (reports ++ [r]) hash =
      firstCount reports hash + if r.hash = some hash then 1 else 0 := by
  rw [firstCount, firstReports_first h, List.countP_append, List.countP_singleton, firstCount]
  simp only [decide_eq_true_eq]

theorem firstCount_le_append (reports : List Report) (r : Report) (hash : BitVec 64) :
    firstCount reports hash ≤ firstCount (reports ++ [r]) hash := by
  by_cases h : r.port ∈ reportedPorts reports
  · exact (firstCount_repeated h hash).ge
  · rw [firstCount_first h]
    exact Nat.le_add_right _ _

/-- A report about a new port adds one to the ports that count against the budget. -/
theorem card_reportedPorts_first (h : r.port ∉ reportedPorts reports) :
    (reportedPorts (reports ++ [r])).card = (reportedPorts reports).card + 1 := by
  rw [reportedPorts_append, Finset.card_insert_of_notMem h]

/-! ### The two limits -/

/-- Neither the budget is spent nor was a response seen too often. -/
def Going (self : PmapPortAdapter) (reports : List Report) : Prop :=
  (reportedPorts reports).card < max self.budgetPerAddress 1 ∧
    ∀ hash, firstCount reports hash < max self.graph.threshold.toNat 1

variable {self : PmapPortAdapter} {addr : Ipv4Addr} {past : List Report} {s : HostScan}

/-- A limit that was reached stays so. -/
theorem Going.of_append (h : self.Going (reports ++ [r])) : self.Going reports := by
  refine ⟨lt_of_le_of_lt (Finset.card_le_card ?_) h.1,
    fun hash => (firstCount_le_append reports r hash).trans_lt (h.2 hash)⟩
  rw [reportedPorts_append]
  exact Finset.subset_insert _ _

theorem going_repeated (h : r.port ∈ reportedPorts reports) (hgoing : self.Going reports) :
    self.Going (reports ++ [r]) := by
  refine ⟨?_, fun hash => ?_⟩
  · rw [reportedPorts_append, Finset.insert_eq_of_mem h]
    exact hgoing.1
  · rw [firstCount_repeated h]
    exact hgoing.2 hash

/-! ### The counters of a state -/

/-- The counters of a host with these reports. -/
structure Counters (adapter : PmapPortAdapter) (past : List Report) (state : State) : Prop where
  tried : state.triedPorts = reportedPorts past
  budget : state.budgetRemaining = adapter.budgetPerAddress - (reportedPorts past).card
  seen : ∀ hash, ((state.seenResponses hash).getD 0).toNat = firstCount past hash

variable {state : State}

theorem Counters.firstState (self : PmapPortAdapter) (draws : HostDraws) :
    Counters self [] (self.firstState draws) where
  tried := rfl
  budget := rfl
  seen := fun _ => rfl

/-- The next increment of a counter fits. -/
theorem Counters.seen_lt (h : Counters self past state) (hgoing : self.Going past)
    (hash : BitVec 64) : ((state.seenResponses hash).getD 0).toNat + 1 < 2 ^ 8 := by
  have hlimit := hgoing.2 hash
  have hthreshold := self.graph.threshold.isLt
  rw [h.seen]
  omega

/-- As long as the host is scanned its counters are below the threshold, so the increment of the
8-bit counter does not wrap. -/
theorem Counters.toNat_seen (h : Counters self past state) (hgoing : self.Going past)
    (hash : BitVec 64) :
    ((state.seenResponses hash).getD 0 + 1).toNat = firstCount past hash + 1 := by
  have hlt := h.seen_lt hgoing hash
  rw [h.seen] at hlt
  rw [BitVec.toNat_add, h.seen]
  exact Nat.mod_eq_of_lt hlt

/-- The first report about a port is counted. -/
theorem Counters.recorded (h : Counters self past state) (hgoing : self.Going past)
    (hnot : r.port ∉ state.triedPorts) :
    Counters self (past ++ [r]) (self.recorded r.port r.hash state) := by
  rw [h.tried] at hnot
  have htried : (self.recorded r.port r.hash state).triedPorts = reportedPorts (past ++ [r]) := by
    rw [triedPorts_recorded, h.tried, reportedPorts_append]
  have hcard := card_reportedPorts_first hnot
  obtain ⟨port, _ | hash⟩ := r
  · refine ⟨htried, ?_, fun hash => ?_⟩
    · change state.budgetRemaining - 1 = _
      rw [h.budget, hcard, Nat.sub_sub]
    · rw [firstCount_first hnot]
      exact h.seen hash
  · -- a hit also raises scores, which are not among the counters
    obtain ⟨heap, hrecord⟩ := state.recordHit_frame self.graph port hash
    refine ⟨htried, ?_, fun hash' => ?_⟩
    · rw [PmapPortAdapter.recorded, recordResult, hrecord]
      change state.budgetRemaining - 1 = _
      rw [h.budget, hcard, Nat.sub_sub]
    · rw [PmapPortAdapter.recorded, recordResult, hrecord, firstCount_first hnot]
      dsimp only
      -- the counter of this hash goes up by one, the others stay
      by_cases heq : hash' = hash
      · subst heq
        rw [Function.update_self, if_pos rfl]
        exact h.toNat_seen hgoing hash'
      · rw [Function.update_of_ne heq, if_neg fun hsome => heq (Option.some.inj hsome).symm]
        exact h.seen hash'

/-- The host is a honeypot if a response has come as often as the threshold says. -/
theorem Counters.recordResult_eq_false (h : Counters self past state) (hgoing : self.Going past)
    (hnot : r.port ∉ state.triedPorts) :
    (self.recordResult r.port r.hash state).1 = false ↔
      ∀ hash, firstCount (past ++ [r]) hash < max self.graph.threshold.toNat 1 := by
  rw [h.tried] at hnot
  obtain ⟨port, _ | hash⟩ := r
  · -- a failed result is never the sign of a honeypot
    refine iff_of_true rfl fun hash => ?_
    rw [firstCount_first hnot]
    exact hgoing.2 hash
  · -- the counter of this hash is compared with the threshold; those of others do not change
    obtain ⟨heap, hrecord⟩ := state.recordHit_frame self.graph port hash
    have hcount := firstCount_first hnot hash
    rw [if_pos rfl] at hcount
    rw [recordResult, hrecord]
    dsimp only
    rw [decide_eq_false_iff_not, ge_iff_le, BitVec.le_def, h.toNat_seen hgoing, ← hcount]
    constructor
    · intro hlt hash'
      by_cases heq : hash' = hash
      · subst heq
        omega
      · rw [firstCount_first hnot, if_neg fun hsome => heq (Option.some.inj hsome).symm]
        exact hgoing.2 hash'
    · intro hall hle
      have := hall hash
      omega

/-- Where `on_result` goes on, neither limit was reached. -/
theorem Counters.going_iff (h : Counters self past state) (hgoing : self.Going past)
    (hnot : r.port ∉ state.triedPorts) :
    self.Going (past ++ [r]) ↔ (self.recordResult r.port r.hash state).1 = false ∧
      (self.recorded r.port r.hash state).budgetRemaining ≠ 0 := by
  have hcard : (reportedPorts (past ++ [r])).card = (reportedPorts past).card + 1 :=
    card_reportedPorts_first (h.tried ▸ hnot)
  rw [h.recordResult_eq_false hgoing hnot, (h.recorded hgoing hnot).budget, Going, and_comm]
  refine and_congr_right fun _ => ?_
  omega

/-! ### The scan against the reports -/

/-- The scan of a host with these reports. -/
structure Counted (adapter : PmapPortAdapter) (addr : Ipv4Addr) (past : List Report)
    (s : HostScan) : Prop where
  present : ∀ state, s.state addr = some state →
    adapter.Going past ∧ Counters adapter past state ∧
      s.issued.length = (reportedPorts past).card + 1
  absent : s.state addr = none → ¬ adapter.Going past
  issued : s.issued.length ≤ max adapter.budgetPerAddress 1

theorem Counted.of_absent (hstate : s.state addr = none) (hgoing : ¬ self.Going past)
    (hissued : s.issued.length ≤ max self.budgetPerAddress 1) : Counted self addr past s where
  present := by
    intro state hsome
    rw [hstate] at hsome
    contradiction
  absent := fun _ => hgoing
  issued := hissued

/-- A host that is being scanned has one port more than were reported. -/
theorem Counted.of_present (hstate : s.state addr = some state) (hgoing : self.Going past)
    (hcounters : Counters self past state)
    (hissued : s.issued.length = (reportedPorts past).card + 1) : Counted self addr past s where
  present := by
    intro state' hstate'
    rw [hstate] at hstate'
    rw [← Option.some.inj hstate']
    exact ⟨hgoing, hcounters, hissued⟩
  absent := by
    intro habsent
    rw [hstate] at habsent
    contradiction
  issued := by
    rw [hissued]
    exact hgoing.1

theorem Counted.start (self : PmapPortAdapter) (addr : Ipv4Addr) (side : PortSide) :
    Counted self addr [] (HostScan.start self addr side) := by
  have hpos (n : ℕ) : 0 < max n 1 := by omega
  refine .of_present (HostScan.state_start self addr side) ⟨hpos _, fun _ => hpos _⟩
    (Counters.firstState self _) ?_
  rw [HostScan.issued_start]
  rfl

/-- A report that is no news counts nothing. -/
theorem Counters.repeated (h : Counters self past state) (hmem : r.port ∈ reportedPorts past) :
    Counters self (past ++ [r]) state where
  tried := by
    rw [reportedPorts_append, Finset.insert_eq_of_mem hmem]
    exact h.tried
  budget := by
    rw [reportedPorts_append, Finset.insert_eq_of_mem hmem]
    exact h.budget
  seen := by
    intro hash
    rw [firstCount_repeated hmem]
    exact h.seen hash

/-- The choice of the next port touches no counter. -/
theorem Counters.choosePort (h : Counters self past state) (draws : HostDraws) :
    Counters self past (self.choosePort draws state).2 := by
  obtain ⟨heap, index, hframe⟩ := self.choosePort_frame draws state
  rw [hframe]
  exact ⟨h.tried, h.budget, h.seen⟩

/-- A report keeps the counts. The budget is what makes a port always be found: at most 65534 of
them are tried, so a free one is left to explore. -/
theorem Counted.report (h : Counted self addr past s) (hbudget : self.budgetPerAddress ≤ 65534)
    {t : HostScan} (hstep : HostScan.ReportStep self addr s r t) :
    Counted self addr (past ++ [r]) t := by
  cases hstep with
  | absent hstate =>
    -- a limit was reached before
    exact .of_absent hstate (fun hgoing => h.absent hstate hgoing.of_append) h.issued
  | @tried state hstate hmem =>
    obtain ⟨hgoing, hcounters, hissued⟩ := h.present state hstate
    rw [hcounters.tried] at hmem
    refine .of_present hstate (going_repeated hmem hgoing) (hcounters.repeated hmem) ?_
    rw [hissued, reportedPorts_append, Finset.insert_eq_of_mem hmem]
  | @ends state draws t hstate hnot hends hremoved hissued =>
    -- the three ways in which `on_result` ends
    obtain ⟨hgoing, hcounters, -⟩ := h.present state hstate
    refine .of_absent hremoved ?_ (hissued ▸ h.issued)
    intro hgoing'
    obtain ⟨hhoneypot, hleft⟩ := (hcounters.going_iff hgoing hnot).mp hgoing'
    rcases hends with htrue | hzero | hnone
    · rw [hhoneypot] at htrue
      contradiction
    · exact hleft hzero
    · -- fewer ports were tried than the budget allows
      refine self.choosePort_ne_none draws ?_ hnone
      have hcard := hgoing'.1
      rw [(hcounters.recorded hgoing hnot).tried]
      omega
  | @next state state' draws next t hstate hnot hhoneypot hleft hnext hstate' hissued =>
    obtain ⟨hgoing, hcounters, hlength⟩ := h.present state hstate
    have hchosen := (hcounters.recorded hgoing hnot).choosePort draws
    rw [hnext] at hchosen
    refine .of_present hstate' ((hcounters.going_iff hgoing hnot).mpr ⟨hhoneypot, hleft⟩)
      hchosen ?_
    rw [hissued, List.length_append, hlength, card_reportedPorts_first (hcounters.tried ▸ hnot)]
    rfl

/-- The counts hold after any reports, repeated and late ones included. -/
theorem Counted.run (hbudget : self.budgetPerAddress ≤ 65534) (addr : Ipv4Addr) (side : PortSide)
    (reports : List Report) :
    Counted self addr reports
      (reports.foldl (HostScan.report self addr) (HostScan.start self addr side)) := by
  induction reports using List.reverseRecOn with
  | nil => exact Counted.start self addr side
  | append_singleton reports r ih =>
    rw [List.foldl_append]
    exact ih.report hbudget (HostScan.report_cases self addr _ r)

/-- **Budget and honeypots are exact.** Whatever is reported about a host, it has a state if and
only if fewer ports than its budget were reported and no hash was the first report of as many ports
as the threshold; a counter of responses never overflows; and no more probes are issued than the
budget. A budget or threshold of zero counts as one. -/
theorem present_iff (self : PmapPortAdapter) (hbudget : self.budgetPerAddress ≤ 65534)
    (addr : Ipv4Addr) (side : PortSide) (reports : List Report) :
    let s := reports.foldl (HostScan.report self addr) (HostScan.start self addr side)
    ((s.state addr).isSome ↔
      (reports.map Report.port).toFinset.card < max self.budgetPerAddress 1 ∧
        ∀ hash, firstCount reports hash < max self.graph.threshold.toNat 1) ∧
    (∀ state, s.state addr = some state → ∀ hash,
      ((state.seenResponses hash).getD 0).toNat + 1 < 2 ^ 8) ∧
    s.issued.length ≤ max self.budgetPerAddress 1 := by
  intro s
  have hcounted : Counted self addr reports s := Counted.run hbudget addr side reports
  refine ⟨⟨?_, ?_⟩, ?_, hcounted.issued⟩
  · intro hsome
    obtain ⟨state, hstate⟩ := Option.isSome_iff_exists.mp hsome
    exact (hcounted.present state hstate).1
  · intro hgoing
    -- a host that has been removed is over one of its limits
    rw [Option.isSome_iff_ne_none]
    exact fun habsent => hcounted.absent habsent hgoing
  · intro state hstate hash
    obtain ⟨hgoing, hcounters, -⟩ := hcounted.present state hstate
    exact hcounters.seen_lt hgoing hash

/-- The first state has a budget of two ports, and both were reported. -/
theorem present_iff_repeated :
    (repeatedReports.foldl (HostScan.report .sample 1)
        (HostScan.start .sample 1 singleSide)).state 1 = none ∧
      ¬ ((repeatedReports.map Report.port).toFinset.card <
          max PmapPortAdapter.sample.budgetPerAddress 1 ∧
        ∀ hash, firstCount repeatedReports hash <
          max PmapPortAdapter.sample.graph.threshold.toNat 1) := by
  have hspent : (repeatedReports.foldl (HostScan.report .sample 1)
      (HostScan.start .sample 1 singleSide)).state 1 = none := rfl
  have hexact := present_iff .sample (by decide) 1 singleSide repeatedReports
  refine ⟨hspent, fun hgoing => ?_⟩
  have hsome := hexact.1.mpr hgoing
  rw [hspent] at hsome
  contradiction

end PmapPortAdapter

end Farsight
