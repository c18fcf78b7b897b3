import Farsight.Lib.Run
import Farsight.Strategy.HostReports
import Farsight.Strategy.HostStates
import Mathlib.Data.List.Count

/-!
# The probes of a session

Which hosts are probed, on which ports and how often, is decided in several threads: the feeder
draws an address and issues its first probe, and each responder thread that reports a result may
issue the next one. Here is what all of them together do to the hosts of the internet.

* `Probed` — the machine of `HostStates`, with the hosts that were drawn, when they expire, and the
  probes that were issued;
* `HostStates.EntryStep`, `HostStates.entryStep_step` — what a step can do to the entry of a host;
* `Probed.probes_bounded` — every probe goes to an address that was drawn, from a port of the
  configured range, and the budget holds for every draw, in every interleaving;
* `Probed.probes_nodup` — and no port of a host is probed twice, if no address is drawn twice and
  results are reported for probed ports only.
-/

namespace Farsight

open PmapPortAdapter (State Visit)

/-! ### A visit -/

namespace PmapPortAdapter

/-- Recording a result does not touch the budget; the visit pays for the next probe after it. -/
theorem budgetRemaining_recordResult (self : PmapPortAdapter) (port : Port)
    (hash : Option (BitVec 64)) (state : State) :
    (self.recordResult port hash state).2.budgetRemaining = state.budgetRemaining := by
  cases hash with
  | none => rfl
  | some hash =>
    obtain ⟨heap, hrecord⟩ := state.recordHit_frame self.graph port hash
    rw [recordResult, hrecord]

/-- What a visit has done when it issues a probe. -/
structure Issues (adapter : PmapPortAdapter) (addr : Ipv4Addr) (port : Port) (state state' : State)
    (template : PacketTemplate) : Prop where
  ip : template.ip = addr
  sourcePort : ∃ r, template.sourcePort = adapter.sourcePort.sample r
  untried : template.destinationPort ∉ insert port state.triedPorts
  budget : state'.budgetRemaining + 1 = state.budgetRemaining
  left : 0 < state'.budgetRemaining

/-- A visit for a port that was not tried. -/
theorem visit_spec (self : PmapPortAdapter) (addr : Ipv4Addr) {port : Port}
    (hash : Option (BitVec 64)) (draws : HostDraws) {state state' : State} {visit : Visit}
    (hvisit : self.visit addr port hash draws state = (visit, state'))
    (h : port ∉ state.triedPorts) :
    state'.triedPorts = insert port state.triedPorts ∧
      state'.budgetRemaining ≤ state.budgetRemaining ∧
      ∀ template, visit = .probe template → Issues self addr port state state' template := by
  have htried := self.triedPorts_recordResult port hash state
  have hbudget := self.budgetRemaining_recordResult port hash state
  rw [PmapPortAdapter.visit, if_neg h] at hvisit
  rcases hrecord : self.recordResult port hash state with ⟨honeypot, recorded⟩
  rw [hrecord] at htried hbudget hvisit
  dsimp only at htried hbudget hvisit
  split at hvisit
  · -- a honeypot: no probe, and the budget as it was
    obtain ⟨rfl, rfl⟩ := Prod.mk.inj hvisit
    exact ⟨htried, hbudget.le, fun _ h => nomatch h⟩
  · split at hvisit
    · -- the budget is spent
      obtain ⟨rfl, rfl⟩ := Prod.mk.inj hvisit
      exact ⟨htried, hbudget ▸ Nat.sub_le _ _, fun _ h => nomatch h⟩
    · next hleft =>
      -- the choice of the next port keeps both
      obtain ⟨heap, index, hframe⟩ := self.choosePort_frame draws
        { recorded with budgetRemaining := recorded.budgetRemaining - 1 }
      rcases hchoose : self.choosePort draws
        { recorded with budgetRemaining := recorded.budgetRemaining - 1 } with ⟨_ | next, chosen⟩
      all_goals
        rw [hchoose] at hvisit hframe
        obtain ⟨rfl, rfl⟩ := Prod.mk.inj hvisit
        rw [show chosen = _ from hframe]
        refine ⟨htried, hbudget ▸ Nat.sub_le _ _, ?_⟩
      · exact fun _ h => nomatch h
      · rintro template heq
        cases heq
        refine ⟨rfl, ⟨draws.source, rfl⟩, ?_, ?_, Nat.pos_of_ne_zero hleft⟩
        · have huntried := choosePort_untried (congrArg Prod.fst hchoose)
          rwa [htried] at huntried
        · change recorded.budgetRemaining - 1 + 1 = _
          omega

end PmapPortAdapter

/-! ### The entry of a host -/

/-- The result that a step reports. -/
def HostAct.reported {n : ℕ} : HostAct n → Option (Ipv4Addr × Port)
  | .onResult _ addr port _ _ => some (addr, port)
  | _ => none

/-- The reading of the clock by the feeder. -/
def HostAct.clock {n : ℕ} : HostAct n → Option ℕ
  | .feeder now _ _ => some now
  | _ => none

namespace HostStates

variable {n : ℕ} {self : HostStates} {s : HostStatesState n}

/-- The expiry that a step of the feeder grants to a new host. -/
def granted (s : HostStatesState n) : HostAct n → Option PortExpiry
  | .feeder _ answer _ =>
    match s.feeder with
    | .guarded _ deadline _ => answer.map fun addr => (deadline, addr)
    | _ => none
  | _ => none

/-- The address that a step of the feeder draws. -/
def drawn (s : HostStatesState n) (act : HostAct n) : Option Ipv4Addr :=
  (granted s act).map Prod.snd

/-- The probe that a step issues: the first one of a host, or the next one. -/
def probe (self : HostStates) (s : HostStatesState n) : HostAct n → Option PacketTemplate
  | .feeder now answer draws =>
    (drawn s (.feeder now answer draws)).map fun addr => self.ports.firstProbe addr draws
  | .onResult i addr port hash draws =>
    match s.threads i with
    | .idle =>
      match (s.pool.visit self.ports addr port hash draws).1 with
      | .probe template => some template
      | _ => none
    | _ => none
  | _ => none

/-- What a step can do to the entry of a host, by what it draws, reports and issues. -/
inductive EntryStep (ports : PmapPortAdapter) (addr : Ipv4Addr) : Option State → Option Ipv4Addr →
    Option (Ipv4Addr × Port) → Option PacketTemplate → Option State → Prop
  | keep {entry : Option State} {drawn : Option Ipv4Addr} {reported : Option (Ipv4Addr × Port)}
      {probe : Option PacketTemplate} (hdrawn : drawn ≠ some addr)
      (hprobe : ∀ template ∈ probe, template.ip ≠ addr) :
      EntryStep ports addr entry drawn reported probe entry
  | draw {entry : Option State} (draws : HostDraws) :
      EntryStep ports addr entry (some addr) none (some (ports.firstProbe addr draws))
        (some (ports.firstState draws))
  | visit {state state' : State} {port : Port} {hash : Option (BitVec 64)} {draws : HostDraws}
      {visit : Visit} {probe : Option PacketTemplate}
      (hvisit : ports.visit addr port hash draws state = (visit, state'))
      (hport : port ∉ state.triedPorts)
      (hprobe : ∀ template ∈ probe, visit = .probe template) :
      EntryStep ports addr (some state) none (some (addr, port)) probe (some state')
  | remove {entry : Option State} : EntryStep ports addr entry none none none none

theorem EntryStep.refl {ports : PmapPortAdapter} {addr : Ipv4Addr} {entry : Option State}
    {reported : Option (Ipv4Addr × Port)} : EntryStep ports addr entry none reported none entry :=
  .keep nofun nofun

/-- What the feeder does to the entry of one host: it is drawn, and starts again with a fresh state,
or nothing happens. -/
theorem entryStep_feederStep (addr : Ipv4Addr) (now : ℕ) (answer : Option Ipv4Addr)
    (draws : HostDraws) :
    EntryStep self.ports addr (s.pool.states.lookup addr) (drawn s (.feeder now answer draws)) none
      (self.probe s (.feeder now answer draws))
      ((self.feederStep now answer draws s).pool.states.lookup addr) := by
  unfold probe drawn granted feederStep
  dsimp only
  cases s.feeder with
  | start =>
    dsimp only
    split
    · exact .refl
    · exact .refl
  | turn left deadline =>
    cases left with
    | zero => exact .refl
    | succ left =>
      dsimp only
      split
      · next state pool hpop =>
        rw [← PortPool.states_pop hpop]
        exact .refl
      · next pool hpop =>
        rw [← PortPool.states_pop hpop]
        exact .refl
  | guarded left deadline state =>
    cases answer with
    | none => exact .refl
    | some addr' =>
      -- whether or not the host had a state before
      have hinsert : EntryStep self.ports addr (s.pool.states.lookup addr) (some addr') none
          (some (self.ports.firstProbe addr' draws))
          ((s.pool.states.insert addr' (self.ports.firstState draws)).lookup addr) := by
        by_cases heq : addr' = addr
        · subst heq
          rw [AList.lookup_insert]
          exact .draw draws
        · rw [AList.lookup_insert_ne (Ne.symm heq)]
          refine .keep (fun h => heq (Option.some.inj h)) fun template htemplate => ?_
          rw [← Option.mem_some_iff.mp htemplate]
          exact heq
      dsimp only [Option.map_some]
      split
      · next old pool hold =>
        rw [← (Prod.mk.inj hold).2]
        exact hinsert
      · next pool hold =>
        rw [← (Prod.mk.inj hold).2]
        exact hinsert
  | replacing left deadline old addr' =>
    dsimp only
    rw [PortPool.states_push]
    exact .refl
  | elapsed => exact .refl
  | exhausted => exact .refl

/-- What a visit does to the map. -/
theorem entryStep_visit (ports : PmapPortAdapter) (pool : PortPool) (addr addr' : Ipv4Addr)
    (port : Port) (hash : Option (BitVec 64)) (draws : HostDraws) {visit : Visit} {pool' : PortPool}
    (h : pool.visit ports addr' port hash draws = (visit, pool')) {probe : Option PacketTemplate}
    (hprobe : ∀ template ∈ probe, visit = .probe template) :
    EntryStep ports addr (pool.states.lookup addr) none (some (addr', port)) probe
      (pool'.states.lookup addr) := by
  have hnone (hignored : visit = .ignored) : probe = none := by
    cases hp : probe with
    | none => rfl
    | some template => cases hignored.symm.trans (hprobe template hp)
  unfold PortPool.visit at h
  cases hstate : pool.states.lookup addr' with
  | none =>
    rw [hstate] at h
    obtain ⟨hvisit, rfl⟩ := Prod.mk.inj h
    rw [hnone hvisit.symm]
    exact .refl
  | some state =>
    rw [hstate] at h
    dsimp only at h
    rcases hresult : ports.visit addr' port hash draws state with ⟨result, state'⟩
    rw [hresult] at h
    -- a port that was tried is ignored, and the entry is not written
    by_cases htried : port ∈ state.triedPorts
    · rw [ports.visit_of_mem addr' hash draws htried] at hresult
      cases hresult
      obtain ⟨hvisit, rfl⟩ := Prod.mk.inj h
      rw [hnone hvisit.symm]
      exact .refl
    · have hnews := (ports.visit_of_not_mem addr' hash draws htried).1
      rw [hresult] at hnews
      -- the entry is written
      have hwritten : visit = result ∧
          pool' = { pool with states := pool.states.insert addr' state' } := by
        cases result with
        | ignored => exact absurd rfl hnews
        | honeypot | spent | noPort | probe _ =>
          obtain ⟨hvisit, hpool⟩ := Prod.mk.inj h
          exact ⟨hvisit.symm, hpool.symm⟩
      obtain ⟨rfl, rfl⟩ := hwritten
      -- the report is about this host or about another one
      by_cases heq : addr = addr'
      · subst heq
        rw [hstate, AList.lookup_insert]
        exact .visit hresult htried hprobe
      · rw [AList.lookup_insert_ne heq]
        refine .keep nofun fun template htemplate hip => ?_
        have hissues := (ports.visit_spec addr' hash draws hresult htried).2.2 template
          (hprobe template htemplate)
        exact heq (hip.symm.trans hissues.ip)

/-- What a report does to the entry of one host. -/
theorem entryStep_onResultStep (addr : Ipv4Addr) (i : Fin n) (addr' : Ipv4Addr) (port : Port)
    (hash : Option (BitVec 64)) (draws : HostDraws) :
    EntryStep self.ports addr (s.pool.states.lookup addr) none (some (addr', port))
      (self.probe s (.onResult i addr' port hash draws))
      ((self.onResultStep i addr' port hash draws s).pool.states.lookup addr) := by
  unfold probe onResultStep
  dsimp only
  cases s.threads i with
  -- the thread is busy with the state of another report
  | removing _ => exact .refl
  | pushing _ => exact .refl
  | idle =>
    dsimp only
    rcases hvisit : s.pool.visit self.ports addr' port hash draws with ⟨visit, pool⟩
    cases visit with
    | ignored | honeypot | spent | noPort =>
      exact entryStep_visit self.ports s.pool addr addr' port hash draws hvisit nofun
    | probe template =>
      refine entryStep_visit self.ports s.pool addr addr' port hash draws hvisit ?_
      intro template' htemplate
      rw [← Option.mem_some_iff.mp htemplate]

/-- A removal. -/
theorem entryStep_remove (ports : PmapPortAdapter) (pool : PortPool) (addr addr' : Ipv4Addr) :
    EntryStep ports addr (pool.states.lookup addr) none none none
      ((pool.states.erase addr').lookup addr) := by
  by_cases heq : addr = addr'
  · subst heq
    rw [AList.lookup_erase]
    exact .remove
  · rw [AList.lookup_erase_ne heq]
    exact .refl

/-- A thread that removes a state issues no probe. -/
theorem entryStep_threadStep (addr : Ipv4Addr) (i : Fin n) :
    EntryStep self.ports addr (s.pool.states.lookup addr) none none none
      ((threadStep i s).pool.states.lookup addr) := by
  unfold threadStep
  cases s.threads i with
  | idle => exact .refl
  | removing addr' =>
    dsimp only
    split
    · next state pool hremove =>
      rw [← (Prod.mk.inj hremove).2]
      exact entryStep_remove self.ports s.pool addr addr'
    · next pool hremove =>
      rw [← (Prod.mk.inj hremove).2]
      exact entryStep_remove self.ports s.pool addr addr'
  | pushing state =>
    -- the free list is no part of the table
    change EntryStep _ _ _ _ _ _ ((s.pool.push state).states.lookup addr)
    rw [PortPool.states_push]
    exact .refl

/-- Nor does the expirer. -/
theorem entryStep_expirerStep (addr : Ipv4Addr) :
    EntryStep self.ports addr (s.pool.states.lookup addr) none none none
      ((expirerStep s).pool.states.lookup addr) := by
  unfold expirerStep
  cases s.expirer with
  | idle => exact .refl
  | turn left now =>
    cases left with
    | zero => exact .refl
    | succ left =>
      dsimp only
      split
      · rw [pool_takeExpiry]
        exact .refl
      · split
        · exact .refl
        · rw [pool_takeExpiry]
          exact .refl
  | removing left now expiry =>
    dsimp only
    split
    · next state pool hremove =>
      rw [← (Prod.mk.inj hremove).2]
      exact entryStep_remove self.ports s.pool addr expiry.2
    · next pool hremove =>
      rw [← (Prod.mk.inj hremove).2]
      exact entryStep_remove self.ports s.pool addr expiry.2
  | pushing left now state =>
    dsimp only
    rw [PortPool.states_push]
    exact .refl

/-- Every step, whoever makes it, is one of four for a given host: it is drawn, visited, removed or
left alone. The invariants on probes go by these cases and not by the steps of the machine. -/
theorem entryStep_step (self : HostStates) (s : HostStatesState n) (act : HostAct n)
    (addr : Ipv4Addr) :
    EntryStep self.ports addr (s.pool.states.lookup addr) (drawn s act) act.reported
      (self.probe s act) ((self.step s act).pool.states.lookup addr) := by
  cases act with
  | feeder now answer draws => exact entryStep_feederStep addr now answer draws
  | onResult i addr' port hash draws => exact entryStep_onResultStep addr i addr' port hash draws
  | thread i => exact entryStep_threadStep addr i
  | expire now =>
    unfold step
    cases s.expirer with
    | idle => exact .refl
    | turn _ _ => exact .refl
    | removing _ _ _ => exact .refl
    | pushing _ _ _ => exact .refl
  | expirer => exact entryStep_expirerStep addr

end HostStates

/-! ### The record of a session -/

/-- The machine, with the last reading of the clock by the feeder, the expiries that were granted
and the probes that were issued. -/
structure Probed (n : ℕ) where
  state : HostStatesState n
  clock : ℕ
  granted : List PortExpiry
  issued : List PacketTemplate

namespace Probed

variable {n : ℕ} {self : HostStates} {p : Probed n}

def initial (self : HostStates) (n : ℕ) : Probed n where
  state := self.initial n
  clock := self.start
  granted := []
  issued := []

def step (self : HostStates) (p : Probed n) (act : HostAct n) : Probed n where
  state := self.step p.state act
  clock := act.clock.getD p.clock
  granted := p.granted ++ (HostStates.granted p.state act).toList
  issued := p.issued ++ (self.probe p.state act).toList

def run (self : HostStates) (acts : List (HostAct n)) : Probed n :=
  acts.foldl (step self) (initial self n)

/-- The record does not change the runs. -/
theorem state_run (self : HostStates) (acts : List (HostAct n)) :
    (run self acts).state = self.run acts :=
  (@List.foldl_hom _ _ _ state (step self) self.step acts (initial self n) fun _ _ => rfl).symm

/-- The addresses that were drawn. -/
def drawn (p : Probed n) : List Ipv4Addr :=
  p.granted.map Prod.snd

theorem drawn_step (self : HostStates) (p : Probed n) (act : HostAct n) :
    (step self p act).drawn = p.drawn ++ (HostStates.drawn p.state act).toList := by
  rw [drawn, step, List.map_append, ← Option.toList_map]
  rfl

/-- The entry of a host. -/
def entry (p : Probed n) (addr : Ipv4Addr) : Option State :=
  p.state.pool.states.lookup addr

/-- The probes of a host. -/
def probesOf (p : Probed n) (addr : Ipv4Addr) : List PacketTemplate :=
  p.issued.filter (·.ip = addr)

/-! ### The budget -/

/-- The probes that a host may still get. -/
def left : Option State → ℕ
  | some state => state.budgetRemaining - 1
  | none => 0

/-- The probes that a host has got and may still get are within the budget of its draws. -/
def Budgeted (self : HostStates) (addr : Ipv4Addr) (p : Probed n) : Prop :=
  (p.probesOf addr).length + left (p.entry addr) ≤
    p.drawn.count addr * max self.ports.budgetPerAddress 1

theorem length_probesOf_step (self : HostStates) (p : Probed n) (act : HostAct n)
    (addr : Ipv4Addr) :
    ((step self p act).probesOf addr).length = (p.probesOf addr).length +
      ((self.probe p.state act).toList.filter (·.ip = addr)).length := by
  rw [probesOf, step, List.filter_append, List.length_append]
  rfl

/-- Every step keeps to the budget. What counts are the probes made and those that the entry can
still pay for, since a host may be drawn again while it has some left. -/
theorem Budgeted.step {addr : Ipv4Addr} (h : Budgeted self addr p) (act : HostAct n) :
    Budgeted self addr (step self p act) := by
  have hentry := self.entryStep_step p.state act addr
  rw [Budgeted, length_probesOf_step, drawn_step, List.count_append]
  change _ + left ((self.step p.state act).pool.states.lookup addr) ≤ _
  unfold Budgeted Probed.entry at h
  -- only the entry before and after, the draw, the report and the probe matter from here on
  generalize p.state.pool.states.lookup addr = before at h hentry
  generalize (self.step p.state act).pool.states.lookup addr = after at hentry ⊢
  generalize self.probe p.state act = probe at hentry ⊢
  generalize HostStates.drawn p.state act = drawn at hentry ⊢
  generalize act.reported = reported at hentry
  cases hentry with
  | keep hdrawn hprobe =>
    have hnone : probe.toList.filter (·.ip = addr) = [] := by
      rw [List.filter_eq_nil_iff]
      intro template htemplate
      rw [decide_eq_true_eq]
      exact hprobe template (Option.mem_toList.mp htemplate)
    rw [hnone, Nat.add_mul]
    exact h.trans (Nat.le_add_right _ _)
  | draw draws =>
    -- one probe now, and the others of the budget to come
    have hone : [self.ports.firstProbe addr draws].filter (·.ip = addr) =
        [self.ports.firstProbe addr draws] := List.filter_eq_self.mpr fun template htemplate => by
      rw [List.mem_singleton.mp htemplate]
      exact decide_eq_true rfl
    have hleft : left (some (self.ports.firstState draws)) = self.ports.budgetPerAddress - 1 := rfl
    have hcount : List.count addr [addr] = 1 := List.count_singleton_self
    rw [Option.toList_some, Option.toList_some, hone, hleft, hcount, Nat.add_mul, Nat.one_mul]
    change _ + 1 + _ ≤ _
    omega
  | @visit state state' port hash draws visit _ hvisit hport hprobe =>
    obtain ⟨-, hle, hissues⟩ := self.ports.visit_spec addr hash draws hvisit hport
    have hleft : left (some state) = state.budgetRemaining - 1 := rfl
    have hleft' : left (some state') = state'.budgetRemaining - 1 := rfl
    rw [hleft] at h
    rw [hleft', Option.toList_none, List.count_nil, Nat.add_zero]
    cases hp : probe with
    | none =>
      rw [Option.toList_none, List.filter_nil, List.length_nil]
      omega
    | some template =>
      -- the budget pays for the probe
      have hissue := hissues template (hprobe template hp)
      have hfilter := List.length_filter_le (fun t : PacketTemplate => t.ip = addr) [template]
      have hbudget := hissue.budget
      have hpos := hissue.left
      rw [Option.toList_some]
      rw [List.length_singleton] at hfilter
      omega
  | remove =>
    -- what was left of the budget is given up
    exact (Nat.le_add_right _ _).trans h

theorem budgeted_run (self : HostStates) (acts : List (HostAct n)) (addr : Ipv4Addr) :
    Budgeted self addr (run self acts) :=
  List.foldlRecOn (motive := Budgeted self addr) acts (step self) (Nat.zero_le _)
    fun _ h act _ => h.step act

/-- A host is probed only after it was drawn. -/
theorem Budgeted.mem_drawn {template : PacketTemplate} (h : Budgeted self template.ip p)
    (htemplate : template ∈ p.issued) : template.ip ∈ p.drawn := by
  have hmem : template ∈ p.probesOf template.ip :=
    List.mem_filter.mpr ⟨htemplate, decide_eq_true rfl⟩
  have hpos := List.length_pos_of_mem hmem
  rw [Budgeted] at h
  by_contra hnot
  rw [List.count_eq_zero.mpr hnot, Nat.zero_mul] at h
  omega

/-- Every probe comes from the configured range. -/
theorem sourcePort_probe {act : HostAct n} {s : HostStatesState n} {template : PacketTemplate}
    (h : template ∈ self.probe s act) :
    ∃ r, template.sourcePort = self.ports.sourcePort.sample r := by
  have hentry := self.entryStep_step s act template.ip
  rw [Option.mem_def.mp h] at hentry
  generalize hip : template.ip = addr at hentry
  generalize s.pool.states.lookup addr = before at hentry
  generalize (self.step s act).pool.states.lookup addr = after at hentry
  generalize HostStates.drawn s act = drawn at hentry
  generalize act.reported = reported at hentry
  -- a probe is made with the first state of an address, or in a visit
  cases hentry with
  | keep _ hprobe => exact absurd hip (hprobe template rfl)
  | draw draws => exact ⟨draws.source, rfl⟩
  | visit hvisit hport hprobe =>
    exact ((self.ports.visit_spec _ _ _ hvisit hport).2.2 template (hprobe template rfl)).sourcePort

/-- Every probe has a source port of the configured range: the first one of the feeder and those of
the responder alike. -/
theorem sourcePort_issued (self : HostStates) (acts : List (HostAct n)) :
    ∀ template ∈ (run self acts).issued,
      ∃ r, template.sourcePort = self.ports.sourcePort.sample r := by
  refine List.foldlRecOn (motive := fun p : Probed n => ∀ template ∈ p.issued,
    ∃ r, template.sourcePort = self.ports.sourcePort.sample r) acts (step self) nofun ?_
  intro p h act _ template htemplate
  rcases List.mem_append.mp htemplate with hold | hnew
  · exact h template hold
  · exact sourcePort_probe (Option.mem_toList.mp hnew)

/-- **What a session does to the hosts.** In every interleaving of the feeder, of any number of
responder threads and of the expirer: a probe goes to an address that was drawn, and comes from the
configured range of source ports; and for each time that an address was drawn, it gets no more
probes than the budget allows, but always one. -/
theorem probes_bounded (self : HostStates) (acts : List (HostAct n)) :
    (∀ template ∈ (run self acts).issued, template.ip ∈ (run self acts).drawn ∧
      ∃ r, template.sourcePort = self.ports.sourcePort.sample r) ∧
    ∀ addr, ((run self acts).probesOf addr).length ≤
      (run self acts).drawn.count addr * max self.ports.budgetPerAddress 1 := by
  constructor
  · intro template htemplate
    exact ⟨(budgeted_run self acts template.ip).mem_drawn htemplate,
      sourcePort_issued self acts template htemplate⟩
  · intro addr
    exact (Nat.le_add_right _ _).trans (budgeted_run self acts addr)

/-! ### No port twice -/

/-- Where a probe goes. -/
def target (template : PacketTemplate) : Ipv4Addr × Port :=
  (template.ip, template.destinationPort)

/-- An address that is drawn is new. -/
def Fresh (p : Probed n) (act : HostAct n) : Prop :=
  ∀ addr ∈ HostStates.drawn p.state act, addr ∉ p.drawn

instance (p : Probed n) (act : HostAct n) : Decidable (Fresh p act) :=
  Option.decidableForallMem (HostStates.drawn p.state act)

/-- An address that is drawn is new, and a result is about a port that was probed. -/
def Orderly (p : Probed n) (act : HostAct n) : Prop :=
  Fresh p act ∧ ∀ endpoint ∈ act.reported, endpoint ∈ p.issued.map target

instance (p : Probed n) (act : HostAct n) : Decidable (Orderly p act) :=
  @instDecidableAnd _ _ inferInstance (Option.decidableForallMem act.reported)

/-- No target twice; and while a host has an entry, all its ports but one were tried. -/
structure Distinct (p : Probed n) : Prop where
  nodup : (p.issued.map target).Nodup
  tried : ∀ addr state, p.entry addr = some state → ∃ last, ∀ port,
    (addr, port) ∈ p.issued.map target → port = last ∨ port ∈ state.triedPorts

/-- The first result for a port is for the last one that was probed. -/
theorem Distinct.mem_insert (h : Distinct p) {addr : Ipv4Addr} {state : State}
    (hstate : p.entry addr = some state) {port : Port}
    (hissued : (addr, port) ∈ p.issued.map target) (hport : port ∉ state.triedPorts) {port' : Port}
    (hissued' : (addr, port') ∈ p.issued.map target) : port' ∈ insert port state.triedPorts := by
  obtain ⟨last, hlast⟩ := h.tried addr state hstate
  have hport' : port = last := (hlast port hissued).resolve_right hport
  rw [Finset.mem_insert, hport']
  exact hlast port' hissued'

/-- A new address has no probes yet. -/
theorem notMem_targets (hbudget : ∀ addr, Budgeted self addr p) {addr : Ipv4Addr}
    (h : addr ∉ p.drawn) (port : Port) : (addr, port) ∉ p.issued.map target := by
  intro hmem
  obtain ⟨template, htemplate, heq⟩ := List.mem_map.mp hmem
  have hip : template.ip = addr := congrArg Prod.fst heq
  exact h (hip ▸ (hbudget template.ip).mem_drawn htemplate)

/-- A new probe has a new target. -/
theorem Distinct.target_notMem (h : Distinct p) (hbudget : ∀ addr, Budgeted self addr p)
    {act : HostAct n} (hact : Orderly p act) {template : PacketTemplate}
    (htemplate : template ∈ self.probe p.state act) :
    target template ∉ p.issued.map target := by
  have hentry := self.entryStep_step p.state act template.ip
  rw [Option.mem_def.mp htemplate] at hentry
  obtain ⟨hdrawn, hreported⟩ := hact
  rw [Fresh] at hdrawn
  generalize hip : template.ip = addr at hentry
  generalize hbefore : p.state.pool.states.lookup addr = before at hentry
  generalize (self.step p.state act).pool.states.lookup addr = after at hentry
  generalize HostStates.drawn p.state act = drawn at hentry hdrawn
  generalize act.reported = reported at hentry hreported
  cases hentry with
  | keep _ hprobe => exact absurd hip (hprobe template rfl)
  | draw draws =>
    -- a fresh address has had no probe at all
    exact notMem_targets hbudget (hdrawn addr rfl) _
  | visit hvisit hport hprobe =>
    -- the port was not tried, and all others were
    have hissue := (self.ports.visit_spec _ _ _ hvisit hport).2.2 template (hprobe template rfl)
    intro hmem
    refine hissue.untried (h.mem_insert hbefore (hreported _ rfl) hport ?_)
    rwa [← hip]

/-- The endpoints that were probed, after one more step. -/
theorem mem_targets_step {act : HostAct n} {endpoint : Ipv4Addr × Port}
    (h : endpoint ∈ (step self p act).issued.map target) :
    endpoint ∈ p.issued.map target ∨
      ∃ template ∈ self.probe p.state act, target template = endpoint := by
  rw [step, List.map_append, List.mem_append] at h
  refine h.imp_right fun hnew => ?_
  obtain ⟨template, htemplate, heq⟩ := List.mem_map.mp hnew
  exact ⟨template, Option.mem_toList.mp htemplate, heq⟩

/-- All ports of a host but one are tried after a step. -/
theorem Distinct.tried_step (h : Distinct p) (hbudget : ∀ addr, Budgeted self addr p)
    {act : HostAct n} (hact : Orderly p act) {addr : Ipv4Addr} {state : State}
    (hstate : (step self p act).entry addr = some state) :
    ∃ last, ∀ port, (addr, port) ∈ (step self p act).issued.map target →
      port = last ∨ port ∈ state.triedPorts := by
  have hentry := self.entryStep_step p.state act addr
  have hnew (port : Port) := @mem_targets_step n self p act (addr, port)
  obtain ⟨hdrawn, hreported⟩ := hact
  rw [Fresh] at hdrawn
  change (self.step p.state act).pool.states.lookup addr = some state at hstate
  rw [hstate] at hentry
  generalize hbefore : p.state.pool.states.lookup addr = before at hentry
  generalize HostStates.drawn p.state act = drawn at hentry hdrawn
  generalize act.reported = reported at hentry hreported
  generalize self.probe p.state act = probe at hentry hnew
  cases hentry with
  | keep _ hprobe =>
    -- a probe of another host, or none
    obtain ⟨last, hlast⟩ := h.tried addr state hbefore
    refine ⟨last, fun port hport => ?_⟩
    rcases hnew port hport with hold | ⟨template, htemplate, heq⟩
    · exact hlast port hold
    · exact absurd (congrArg Prod.fst heq) (hprobe template htemplate)
  | draw draws =>
    refine ⟨self.ports.firstPort draws, fun port hport => ?_⟩
    rcases hnew port hport with hold | ⟨template, htemplate, heq⟩
    · exact absurd hold (notMem_targets hbudget (hdrawn addr rfl) port)
    · rw [← Option.mem_some_iff.mp htemplate] at heq
      exact .inl (congrArg Prod.snd heq).symm
  | @visit old _ port hash draws visit _ hvisit hport hprobe =>
    obtain ⟨htried, -, -⟩ := self.ports.visit_spec addr hash draws hvisit hport
    -- the port of the new probe, if there is one
    refine ⟨(probe.map PacketTemplate.destinationPort).getD 0, fun port' hport' => ?_⟩
    rcases hnew port' hport' with hold | ⟨template, htemplate, heq⟩
    · rw [htried]
      exact .inr (h.mem_insert hbefore (hreported _ rfl) hport hold)
    · rw [Option.mem_def.mp htemplate]
      exact .inl (congrArg Prod.snd heq).symm

/-- No endpoint is probed twice, as long as hosts are drawn once and results are about ports that
were probed. -/
theorem Distinct.step (h : Distinct p) (hbudget : ∀ addr, Budgeted self addr p) {act : HostAct n}
    (hact : Orderly p act) : Distinct (step self p act) where
  nodup := by
    rw [Probed.step, List.map_append]
    -- a step sends one probe at most, and to a target that had none
    refine h.nodup.append ?_ ?_
    · cases self.probe p.state act with
      | none => exact List.nodup_nil
      | some template => exact List.nodup_singleton _
    · intro endpoint hold hnew
      obtain ⟨template, htemplate, rfl⟩ := List.mem_map.mp hnew
      exact h.target_notMem hbudget hact (Option.mem_toList.mp htemplate) hold
  tried _ _ hstate := h.tried_step hbudget hact hstate

theorem distinct_initial (self : HostStates) (n : ℕ) : Distinct (initial self n) where
  nodup := List.nodup_nil
  tried addr state hstate := by
    rw [Probed.entry, initial, HostStates.initial, PortPool.new, AList.lookup_empty] at hstate
    cases hstate

/-- **No port of a host is probed twice**, by whatever threads and in whatever interleaving, as long
as no address is drawn twice and results come from ports that were probed. -/
theorem probes_nodup (self : HostStates) (acts : List (HostAct n))
    (h : Run.Along (step self) Orderly (initial self n) acts) :
    ((run self acts).issued.map target).Nodup := by
  have hrun := h.invariant
    (I := fun p => (∀ addr, Budgeted self addr p) ∧ Distinct p)
    (fun p act hact hp => ⟨fun addr => (hp.1 addr).step act, hp.2.step hp.1 hact⟩)
    ⟨fun _ => Nat.zero_le _, distinct_initial self n⟩
  exact hrun.2.nodup

/-- The feeder draws an address. Two responder threads report its first port, and one of them the
next one. -/
def twoThreads (first second : Fin n) : List (HostAct n) :=
  [.feeder 0 none .sample, .feeder 0 none .sample, .feeder 0 (some 1) .sample,
    .onResult first 1 80 none .sample, .onResult second 1 80 none .sample,
    .onResult second 1 443 none .sample]

def sampleHosts : HostStates where
  ports := .sample
  start := 0
  duration := 10
  timeout := 5
  batchSize := 1
  timeoutBatch := 1
  maxInFlight := 1

/-- Two responder threads report the first port, and one probe follows from it. -/
theorem probes_nodup_twoThreads :
    let p := run sampleHosts (twoThreads (0 : Fin 2) 1)
    p.issued.map target = [(1, 80), (1, 443)] ∧ (p.issued.map target).Nodup :=
  ⟨by decide, probes_nodup sampleHosts (twoThreads (0 : Fin 2) 1)
    ⟨by decide, by decide, by decide, by decide, by decide, by decide, trivial⟩⟩

end Probed

end Farsight
