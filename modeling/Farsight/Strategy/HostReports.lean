import Farsight.Lib.Run
import Farsight.Strategy.PortAdapter
import Mathlib.Data.Finset.Dedup

/-!
# The reports about a host

One host from `generate` on, and the results that are reported for its ports, one call of
`on_result` after the other. A report may be late, repeated, or about a port that was never probed;
only the first one about a port counts.

* `HostScan` — the strategy and the ports that it has issued to the host;
* `HostScan.ReportStep`, `HostScan.report_cases` — what a report can do;
* `firstReports` — the reports that count;
* `PmapPortAdapter.issued_nodup` — no port is issued twice, and all but one were reported.
-/

namespace Farsight

namespace PmapPortAdapter

/-! ### The next port -/

namespace State

/-- The first loop of `next_port` ends at a port that was not tried. -/
theorem skipTried_untried {graph : PortGraph} {tried : Finset Port} {fuel index : ℕ}
    (hfuel : graph.recommendations.length ≤ index + fuel) {port : Port}
    (h : graph.recommendAt (skipTried graph tried fuel index) = some port) : port ∉ tried := by
  induction fuel generalizing index with
  -- out of fuel means past the end of the list, where there is no recommendation
  | zero =>
    rw [Nat.add_zero] at hfuel
    rw [skipTried, PortGraph.recommendAt, List.getElem?_eq_none hfuel] at h
    contradiction
  | succ fuel ih =>
    rw [skipTried] at h
    split at h
    · next p hp =>
      split at h
      · exact ih (by omega) h
      · next hnot =>
        rw [hp] at h
        rwa [← Option.some.inj h]
    · next hnone =>
      rw [hnone] at h
      contradiction

/-- The second loop of `next_port` leaves a port on top that was not tried. -/
theorem popTried_untried {tried : Finset Port} {fuel : ℕ} {heap : LazyHeap Port ℚ}
    (hfuel : heap.current.length ≤ fuel) {port : Port}
    (h : (popTried tried fuel heap).top.1 = some port) : port ∉ tried := by
  induction fuel generalizing heap with
  -- out of fuel means that the heap is empty
  | zero =>
    have hnil : heap.current = [] := List.length_eq_zero_iff.mp (Nat.le_zero.mp hfuel)
    rw [popTried, LazyHeap.top_of_current_nil hnil] at h
    contradiction
  | succ fuel ih =>
    have htop : heap.top = (heap.top.1, heap.cleaned) := rfl
    rw [popTried, htop] at h
    cases hfirst : heap.top.1 with
    | none =>
      rw [hfirst] at h
      dsimp only at h
      rw [LazyHeap.top_cleaned, hfirst] at h
      contradiction
    | some p =>
      rw [hfirst] at h
      dsimp only at h
      split at h
      · rw [LazyHeap.pop_cleaned] at h
        -- every tried port that is popped makes the heap smaller, so the fuel suffices
        have hlt := LazyHeap.length_pop_lt hfirst
        exact ih (by omega) h
      · next hnot =>
        rw [LazyHeap.top_cleaned, hfirst] at h
        rwa [← Option.some.inj h]

/-- The port strategy proposes no port twice: both candidates were looked for past the tried
ones. -/
theorem nextPort_untried {self : State} {graph : PortGraph} {port : Port}
    (h : (self.nextPort graph).1 = some port) : port ∉ self.triedPorts := by
  have hheap : ∀ p, (popTried self.triedPorts self.heap.current.length self.heap).top.1 = some p →
      p ∉ self.triedPorts := fun p => popTried_untried (Nat.le_refl _)
  have hlist : ∀ p, graph.recommendAt (skipTried graph self.triedPorts
      graph.recommendations.length self.recommendationIndex) = some p → p ∉ self.triedPorts :=
    fun p => skipTried_untried (Nat.le_add_left _ _)
  unfold nextPort at h
  dsimp only at h
  split at h
  · next a b ha hb =>
    have hport := Option.some.inj h
    -- whichever of the two is taken
    split at hport
    · exact hport ▸ hheap a ha
    · exact hport ▸ hlist b hb
  · next a ha hb => exact Option.some.inj h ▸ hheap a ha
  · next b ha hb => exact Option.some.inj h ▸ hlist b hb
  · contradiction

end State

/-- A port that is drawn at random is drawn again if it was tried. -/
theorem explore_untried {tried : Finset Port} {draws : PortDraws} {port : Port}
    (h : PortGraph.explore tried draws = some port) : port ∉ tried := by
  unfold PortGraph.explore at h
  split at h
  · contradiction
  · next hcard =>
    rw [← Option.some.inj h]
    exact Nat.find_spec (draws.exists_untried hcard)

/-- The next port comes from the generator or from `next_port`. -/
theorem choosePort_fst (self : PmapPortAdapter) (draws : HostDraws) (state : State) :
    (self.choosePort draws state).1 = PortGraph.explore state.triedPorts draws.ports ∨
      (self.choosePort draws state).1 = (state.nextPort self.graph).1 ∧
        (state.nextPort self.graph).1 ≠ none := by
  obtain ⟨heap, index, hframe⟩ := state.nextPort_frame self.graph
  unfold choosePort
  split
  · exact .inl rfl
  · split
    · next port state' hnext =>
      rw [hnext]
      exact .inr ⟨rfl, nofun⟩
    · next state' hnext =>
      -- nothing was recommended, so a port is explored; the search has left the tried ports as they
      -- were
      rw [hnext] at hframe
      have htried := congrArg State.triedPorts hframe
      dsimp only at htried
      rw [htried]
      exact .inl rfl

/-- Whatever the coin says, the next port was not tried. -/
theorem choosePort_untried {self : PmapPortAdapter} {draws : HostDraws} {state : State}
    {port : Port} (h : (self.choosePort draws state).1 = some port) :
    port ∉ state.triedPorts := by
  rcases self.choosePort_fst draws state with hexplore | ⟨hnext, -⟩
  · exact explore_untried (hexplore.symm.trans h)
  · exact State.nextPort_untried (hnext.symm.trans h)

/-- There is a port left as long as not all were tried. -/
theorem choosePort_ne_none (self : PmapPortAdapter) (draws : HostDraws) {state : State}
    (h : state.triedPorts.card < 65535) : (self.choosePort draws state).1 ≠ none := by
  rcases self.choosePort_fst draws state with hexplore | ⟨hnext, hne⟩
  · rw [hexplore, PortGraph.explore, dif_neg (Nat.not_le.mpr h)]
    exact nofun
  · rwa [hnext]

/-- What `on_result` has done to the state when it asks for the next port. -/
def recorded (self : PmapPortAdapter) (port : Port) (hash : Option (BitVec 64)) (state : State) :
    State :=
  let state := (self.recordResult port hash state).2
  { state with budgetRemaining := state.budgetRemaining - 1 }

/-- On a port that was not tried, `on_result` goes on or removes the state. -/
theorem visit_untried (self : PmapPortAdapter) (addr : Ipv4Addr) {port : Port}
    (hash : Option (BitVec 64)) (draws : HostDraws) {state : State}
    (h : port ∉ state.triedPorts) :
    (((self.recordResult port hash state).1 = true ∨
        (self.recorded port hash state).budgetRemaining = 0 ∨
        (self.choosePort draws (self.recorded port hash state)).1 = none) ∧
      (self.visit addr port hash draws state).1 ∈ [.honeypot, .spent, .noPort]) ∨
    ((self.recordResult port hash state).1 = false ∧
      (self.recorded port hash state).budgetRemaining ≠ 0 ∧
      ∃ next state', self.choosePort draws (self.recorded port hash state) = (some next, state') ∧
        self.visit addr port hash draws state =
          (.probe ⟨self.sourcePort.sample draws.source, addr, next⟩, state')) := by
  unfold visit recorded
  rw [if_neg h]
  rcases hresult : self.recordResult port hash state with ⟨honeypot, state'⟩
  dsimp only
  -- a honeypot, a spent budget and a host without a next port are done; in all other cases there is
  -- a probe
  split
  · next hhoneypot => exact .inl ⟨.inl hhoneypot, List.mem_of_elem_eq_true rfl⟩
  · next hhoneypot =>
    split
    · next hspent => exact .inl ⟨.inr (.inl hspent), List.mem_of_elem_eq_true rfl⟩
    · next hspent =>
      rw [Bool.not_eq_true] at hhoneypot
      rcases hnext : self.choosePort draws
        { state' with budgetRemaining := state'.budgetRemaining - 1 } with ⟨_ | next, state''⟩
      · exact .inl ⟨.inr (.inr rfl), List.mem_of_elem_eq_true rfl⟩
      · exact .inr ⟨hhoneypot, hspent, next, state'', rfl, rfl⟩

/-! ### The scan of a host -/

/-- A result that is reported for a port: the hash of a response, or that there was none. -/
structure Report where
  port : Port
  hash : Option (BitVec 64)
  deriving DecidableEq, Repr

/-- The strategy with its generator, and the destination ports of the probes that it has issued to
one host. -/
structure HostScan where
  side : PortSide
  issued : List Port

namespace HostScan

/-- The host is new: `generate`. -/
def start (self : PmapPortAdapter) (addr : Ipv4Addr) (side : PortSide) : HostScan :=
  match self.generate side.pool addr (side.rng 0) with
  | (template, pool) => ⟨⟨pool, fun n => side.rng (n + 1)⟩, [template.destinationPort]⟩

/-- A result is reported: `on_result`. -/
def report (self : PmapPortAdapter) (addr : Ipv4Addr) (s : HostScan) (report : Report) : HostScan :=
  match self.onResult s.side addr report.port report.hash with
  | (some template, side) => ⟨side, s.issued ++ [template.destinationPort]⟩
  | (none, side) => ⟨side, s.issued⟩

/-- The state of the host. -/
def state (s : HostScan) (addr : Ipv4Addr) : Option State :=
  s.side.pool.states.lookup addr

variable {self : PmapPortAdapter} {addr : Ipv4Addr} {s : HostScan} {r : Report} {state : State}

theorem state_start (self : PmapPortAdapter) (addr : Ipv4Addr) (side : PortSide) :
    (start self addr side).state addr = some (self.firstState (side.rng 0)) := by
  unfold HostScan.state start generate PortPool.insert
  cases side.pool.states.lookup addr with
  | none => exact AList.lookup_insert _
  | some old =>
    dsimp only
    rw [PortPool.states_push]
    exact AList.lookup_insert _

theorem issued_start (self : PmapPortAdapter) (addr : Ipv4Addr) (side : PortSide) :
    (start self addr side).issued = [self.firstPort (side.rng 0)] := by
  unfold start generate PortPool.insert
  cases side.pool.states.lookup addr with
  | none => rfl
  | some old => rfl

/-- A report that is no news changes nothing. -/
theorem report_of_not_news (h : ¬ News s.side.pool addr r.port) : s.report self addr r = s := by
  rw [report, self.onResult_of_not_news r.hash h]

theorem report_absent (h : s.state addr = none) : s.report self addr r = s := by
  refine report_of_not_news ?_
  rintro ⟨state, hstate, -⟩
  rw [HostScan.state, hstate] at h
  contradiction

/-- A second report about a port changes nothing: this is the guard against results that come
twice. -/
theorem report_tried (h : s.state addr = some state) (htried : r.port ∈ state.triedPorts) :
    s.report self addr r = s := by
  refine report_of_not_news ?_
  rintro ⟨state', hstate, hnot⟩
  rw [HostScan.state, hstate] at h
  rw [Option.some.inj h] at hnot
  exact hnot htried

/-- The first report about a port: the state is removed, or the next port is issued. -/
theorem report_untried (self : PmapPortAdapter) (h : s.state addr = some state)
    (hnot : r.port ∉ state.triedPorts) :
    ∃ draws,
      (((self.recordResult r.port r.hash state).1 = true ∨
          (self.recorded r.port r.hash state).budgetRemaining = 0 ∨
          (self.choosePort draws (self.recorded r.port r.hash state)).1 = none) ∧
        (s.report self addr r).state addr = none ∧ (s.report self addr r).issued = s.issued) ∨
      ((self.recordResult r.port r.hash state).1 = false ∧
        (self.recorded r.port r.hash state).budgetRemaining ≠ 0 ∧
        ∃ next state', self.choosePort draws (self.recorded r.port r.hash state) =
            (some next, state') ∧
          (s.report self addr r).state addr = some state' ∧
          (s.report self addr r).issued = s.issued ++ [next]) := by
  refine ⟨s.side.rng 0, ?_⟩
  have hremoved (pool : PortPool) : (pool.removeState addr).states.lookup addr = none := by
    rw [PortPool.states_removeState, AList.lookup_erase]
  -- the visit ends the occupancy, and then the state is removed, or it goes on with a probe
  rcases self.visit_untried addr r.hash (s.side.rng 0) hnot with
    ⟨hends, hvisit⟩ | ⟨hhoneypot, hspent, next, state', hnext, hvisit⟩
  · left
    refine ⟨hends, ?_⟩
    unfold HostScan.state report onResult PortPool.visit
    unfold HostScan.state at h
    rw [h]
    dsimp only
    rcases hresult : self.visit addr r.port r.hash (s.side.rng 0) state with ⟨visit, state'⟩
    rw [hresult] at hvisit
    cases visit with
    | ignored => simp at hvisit
    | honeypot => exact ⟨hremoved _, rfl⟩
    | spent => exact ⟨hremoved _, rfl⟩
    | noPort => exact ⟨hremoved _, rfl⟩
    | probe template => simp at hvisit
  · right
    refine ⟨hhoneypot, hspent, next, state', hnext, ?_⟩
    unfold HostScan.state report onResult PortPool.visit
    unfold HostScan.state at h
    rw [h]
    dsimp only
    rw [hvisit]
    exact ⟨AList.lookup_insert _, rfl⟩

/-- What a report can do to the scan of a host. -/
inductive ReportStep (self : PmapPortAdapter) (addr : Ipv4Addr) (s : HostScan) (r : Report) :
    HostScan → Prop
  /-- The host has no state. -/
  | absent (hstate : s.state addr = none) : ReportStep self addr s r s
  /-- The port was tried before. -/
  | tried {state : State} (hstate : s.state addr = some state)
      (htried : r.port ∈ state.triedPorts) : ReportStep self addr s r s
  /-- The state is removed. -/
  | ends {state : State} {draws : HostDraws} {t : HostScan} (hstate : s.state addr = some state)
      (hnot : r.port ∉ state.triedPorts)
      (hends : (self.recordResult r.port r.hash state).1 = true ∨
        (self.recorded r.port r.hash state).budgetRemaining = 0 ∨
        (self.choosePort draws (self.recorded r.port r.hash state)).1 = none)
      (hremoved : t.state addr = none) (hissued : t.issued = s.issued) :
      ReportStep self addr s r t
  /-- The next port is issued. -/
  | next {state state' : State} {draws : HostDraws} {next : Port} {t : HostScan}
      (hstate : s.state addr = some state) (hnot : r.port ∉ state.triedPorts)
      (hhoneypot : (self.recordResult r.port r.hash state).1 = false)
      (hleft : (self.recorded r.port r.hash state).budgetRemaining ≠ 0)
      (hnext : self.choosePort draws (self.recorded r.port r.hash state) = (some next, state'))
      (hstate' : t.state addr = some state') (hissued : t.issued = s.issued ++ [next]) :
      ReportStep self addr s r t

/-- Every report falls under one of the cases of `ReportStep`, which the invariants go by. -/
theorem report_cases (self : PmapPortAdapter) (addr : Ipv4Addr) (s : HostScan) (r : Report) :
    ReportStep self addr s r (s.report self addr r) := by
  cases hstate : s.state addr with
  | none =>
    rw [report_absent hstate]
    exact .absent hstate
  | some state =>
    by_cases hmem : r.port ∈ state.triedPorts
    · rw [report_tried hstate hmem]
      exact .tried hstate hmem
    · obtain ⟨draws, ⟨hends, hremoved, hissued⟩ | ⟨hhoneypot, hleft, next, state', hnext, hstate',
        hissued⟩⟩ := report_untried self hstate hmem
      · exact .ends hstate hmem hends hremoved hissued
      · exact .next hstate hmem hhoneypot hleft hnext hstate' hissued

end HostScan

/-! ### Reports -/

/-- The reported ports. -/
def reportedPorts (reports : List Report) : Finset Port :=
  (reports.map Report.port).toFinset

theorem mem_reportedPorts_append {reports : List Report} {r : Report} {port : Port} :
    port ∈ reportedPorts (reports ++ [r]) ↔ port = r.port ∨ port ∈ reportedPorts reports := by
  rw [reportedPorts, reportedPorts, List.mem_toFinset, List.mem_toFinset, List.map_append,
    List.mem_append, List.map_singleton, List.mem_singleton, or_comm]

theorem reportedPorts_append (reports : List Report) (r : Report) :
    reportedPorts (reports ++ [r]) = insert r.port (reportedPorts reports) := by
  ext port
  rw [mem_reportedPorts_append, Finset.mem_insert]

/-- The first report about each port. -/
def firstReports (reports : List Report) : List Report :=
  reports.foldl
    (fun firsts r => if ∃ first ∈ firsts, first.port = r.port then firsts else firsts ++ [r]) []

theorem firstReports_append (reports : List Report) (r : Report) :
    firstReports (reports ++ [r]) =
      if ∃ first ∈ firstReports reports, first.port = r.port then firstReports reports
      else firstReports reports ++ [r] := by
  rw [firstReports, List.foldl_append]
  rfl

/-- Every reported port has a first report. -/
theorem exists_mem_firstReports (reports : List Report) (port : BitVec 16) :
    (∃ first ∈ firstReports reports, first.port = port) ↔ port ∈ reportedPorts reports := by
  induction reports using List.reverseRecOn with
  | nil => simp [firstReports, reportedPorts]
  | append_singleton reports r ih =>
    rw [firstReports_append, reportedPorts_append, Finset.mem_insert, ← ih]
    split
    · next hagain =>
      -- a port that was reported before is no first report
      refine ⟨.inr, ?_⟩
      rintro (rfl | hfirst)
      · exact hagain
      · exact hfirst
    · simp only [List.mem_append, List.mem_singleton, or_and_right, exists_or, exists_eq_left]
      rw [or_comm, eq_comm]

theorem firstReports_repeated {reports : List Report} {r : Report}
    (h : r.port ∈ reportedPorts reports) :
    firstReports (reports ++ [r]) = firstReports reports := by
  rw [firstReports_append, if_pos ((exists_mem_firstReports reports r.port).mpr h)]

theorem firstReports_first {reports : List Report} {r : Report}
    (h : r.port ∉ reportedPorts reports) :
    firstReports (reports ++ [r]) = firstReports reports ++ [r] := by
  rw [← exists_mem_firstReports] at h
  rw [firstReports_append, if_neg h]

/-! ### No port twice -/

/-- A port is reported only after it was issued. -/
def IssuedBefore (s : HostScan) (r : Report) : Prop :=
  r.port ∈ s.issued

/-- All issued ports were reported, but for the last one while the host is being scanned. -/
structure Issued (addr : Ipv4Addr) (past : List Report) (s : HostScan) : Prop where
  nodup : s.issued.Nodup
  present : ∀ state, s.state addr = some state → state.triedPorts = reportedPorts past ∧
    ∃ last, last ∉ state.triedPorts ∧
      ∀ port, port ∈ s.issued ↔ port = last ∨ port ∈ state.triedPorts
  absent : s.state addr = none → ∀ port ∈ s.issued, port ∈ reportedPorts past

variable {self : PmapPortAdapter} {addr : Ipv4Addr} {past : List Report} {s : HostScan} {r : Report}

theorem Issued.of_absent (hstate : s.state addr = none) (hnodup : s.issued.Nodup)
    (hreported : ∀ port ∈ s.issued, port ∈ reportedPorts past) : Issued addr past s where
  nodup := hnodup
  present := by
    intro state hsome
    rw [hstate] at hsome
    contradiction
  absent := fun _ => hreported

/-- A host in the map has exactly one port outstanding: the last one, which was not tried. -/
theorem Issued.of_present {state : State} (hstate : s.state addr = some state)
    (hnodup : s.issued.Nodup) (htried : state.triedPorts = reportedPorts past) {last : Port}
    (hlast : last ∉ state.triedPorts)
    (hissued : ∀ port, port ∈ s.issued ↔ port = last ∨ port ∈ state.triedPorts) :
    Issued addr past s where
  nodup := hnodup
  present := by
    intro state' hstate'
    rw [hstate] at hstate'
    rw [← Option.some.inj hstate']
    exact ⟨htried, last, hlast, hissued⟩
  absent := by
    intro habsent
    rw [hstate] at habsent
    contradiction

/-- At the start one port is issued, and none is reported. -/
theorem Issued.start (self : PmapPortAdapter) (addr : Ipv4Addr) (side : PortSide) :
    Issued addr [] (HostScan.start self addr side) := by
  refine .of_present (HostScan.state_start self addr side) ?_ rfl
    (Finset.notMem_empty (self.firstPort (side.rng 0))) ?_
  · rw [HostScan.issued_start]
    exact List.nodup_singleton _
  · intro port
    rw [HostScan.issued_start, List.mem_singleton]
    exact (or_iff_left (Finset.notMem_empty _)).symm

theorem triedPorts_recorded (self : PmapPortAdapter) (port : Port) (hash : Option (BitVec 64))
    (state : State) : (self.recorded port hash state).triedPorts = insert port state.triedPorts :=
  self.triedPorts_recordResult port hash state

/-- The first report about an issued port is that about the last one. -/
theorem Issued.mem_issued (h : Issued addr past s) {state : State}
    (hstate : s.state addr = some state) (hr : IssuedBefore s r)
    (hnot : r.port ∉ state.triedPorts) (port : Port) :
    port ∈ s.issued ↔ port ∈ insert r.port state.triedPorts := by
  obtain ⟨-, last, -, hissued⟩ := h.present state hstate
  have hport : r.port = last := ((hissued r.port).mp hr).resolve_right hnot
  rw [hissued, Finset.mem_insert, hport]

/-- A report about the outstanding port, or a repeated one, keeps the ports distinct. -/
theorem Issued.report (h : Issued addr past s) (hr : IssuedBefore s r) {t : HostScan}
    (hstep : HostScan.ReportStep self addr s r t) : Issued addr (past ++ [r]) t := by
  cases hstep with
  | absent hstate =>
    refine .of_absent hstate h.nodup ?_
    intro port hport
    rw [mem_reportedPorts_append]
    exact .inr (h.absent hstate port hport)
  | @tried state hstate hmem =>
    -- a repeated report
    obtain ⟨htried, last, hlast, hissued⟩ := h.present state hstate
    refine .of_present hstate h.nodup ?_ hlast hissued
    rw [reportedPorts_append, ← htried, Finset.insert_eq_of_mem hmem]
  | @ends state draws t hstate hnot hends hremoved hissued =>
    -- the last port is reported now, and no other follows
    refine .of_absent hremoved (hissued ▸ h.nodup) ?_
    intro port hport
    rw [hissued, h.mem_issued hstate hr hnot, (h.present state hstate).1] at hport
    rwa [reportedPorts_append]
  | @next state state' draws next t hstate hnot hhoneypot hleft hnext hstate' hissued =>
    -- the next port was not tried, and all issued ones are
    have hall := h.mem_issued hstate hr hnot
    have huntried : next ∉ insert r.port state.triedPorts := by
      rw [← self.triedPorts_recorded r.port r.hash]
      exact choosePort_untried (congrArg Prod.fst hnext)
    have htried : state'.triedPorts = insert r.port state.triedPorts := by
      have hchoose := self.triedPorts_choosePort draws (self.recorded r.port r.hash state)
      rwa [hnext, triedPorts_recorded] at hchoose
    refine .of_present hstate' ?_ ?_ (htried ▸ huntried) ?_
    · rw [hissued]
      refine h.nodup.append (List.nodup_singleton _) ?_
      rw [List.disjoint_singleton, hall]
      exact huntried
    · rw [htried, (h.present state hstate).1, reportedPorts_append]
    · intro port
      rw [hissued, htried, List.mem_append, List.mem_singleton, hall, or_comm]

/-- At most the last port was not reported. -/
theorem Issued.unreported (h : Issued addr past s) :
    ∃ last, ∀ port ∈ s.issued, port ∉ reportedPorts past → port = last := by
  cases hstate : s.state addr with
  | none => exact ⟨0, fun port hport hnot => absurd (h.absent hstate port hport) hnot⟩
  | some state =>
    obtain ⟨htried, last, -, hissued⟩ := h.present state hstate
    refine ⟨last, fun port hport hnot => ((hissued port).mp hport).resolve_right ?_⟩
    rwa [htried]

/-- **No port is probed twice.** Whatever the graph, the budget and the generator, and however late
or often ports are reported after they were issued, the ports issued to a host are distinct, and at
most one of them was not reported. -/
theorem issued_nodup (self : PmapPortAdapter) (addr : Ipv4Addr) (side : PortSide)
    (reports : List Report)
    (h : Run.Along (HostScan.report self addr) IssuedBefore (HostScan.start self addr side)
      reports) :
    let s := reports.foldl (HostScan.report self addr) (HostScan.start self addr side)
    s.issued.Nodup ∧ (s.issued.filter fun port => port ∉ reports.map Report.port).length ≤ 1 := by
  intro s
  have hissued : Issued addr reports s :=
    h.rule (I := Issued addr) (fun _ s r hr hs => hs.report hr (s.report_cases self addr r))
      (Issued.start self addr side)
  obtain ⟨last, hlast⟩ := hissued.unreported
  refine ⟨hissued.nodup, ?_⟩
  -- the ports are distinct, so a list of them is no longer than the set, which is the last port at
  -- most
  calc (s.issued.filter fun port => port ∉ reports.map Report.port).length
      = (s.issued.filter fun port => port ∉ reports.map Report.port).toFinset.card :=
        (List.toFinset_card_of_nodup (hissued.nodup.filter _)).symm
    _ ≤ ({last} : Finset Port).card := by
        refine Finset.card_le_card fun port hport => ?_
        rw [List.mem_toFinset, List.mem_filter, decide_eq_true_eq] at hport
        rw [Finset.mem_singleton]
        refine hlast port hport.1 ?_
        rw [reportedPorts, List.mem_toFinset]
        exact hport.2
    _ = 1 := Finset.card_singleton last

/-- A strategy for one host. -/
def singleSide : PortSide where
  pool := .new 1
  rng := fun _ => .sample

/-- The first port is reported twice. -/
def repeatedReports : List Report :=
  [⟨80, none⟩, ⟨80, some 1⟩, ⟨443, none⟩]

/-- The second report about port 80 issues nothing. -/
theorem issued_nodup_repeated :
    (repeatedReports.foldl (HostScan.report .sample 1)
        (HostScan.start .sample 1 singleSide)).issued = [80, 443] ∧
      (repeatedReports.foldl (HostScan.report .sample 1)
        (HostScan.start .sample 1 singleSide)).issued.Nodup := by
  have halong : Run.Along (HostScan.report .sample 1) IssuedBefore
      (HostScan.start .sample 1 singleSide) repeatedReports :=
    ⟨.head _, .head _, .tail _ (.head _), trivial⟩
  exact ⟨by decide, (issued_nodup .sample 1 singleSide repeatedReports halong).1⟩

end PmapPortAdapter

end Farsight
