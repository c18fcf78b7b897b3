import Farsight.Strategy.PrefixScore
import Farsight.Strategy.TryPick

/-!
# What the scores say

The heap of the target selection has a score for each of its prefixes. When calls come one after
another, this score is the number of results that are known of the prefix: those of the history, and
one for each hit that was reported. And the heap has every prefix of which something is known, as
long as the prefix has free addresses.

Both are invariants of the heap as it will be once the operation in progress is done
(`HeapOp.finish`), so that an access in the middle of an operation changes nothing
(`HeapOp.finish_exec`).

* `known` — the results that are known of a prefix;
* `Settled` — the two properties, of a map of scores;
* `Ledger` — the invariant: they hold of the map that the caller will leave;
* `ledger_run` — after any calls one after another.
-/

namespace Farsight

variable {scope : Scope}

/-- The prefix has an address that was handed out. -/
def IpState.HasScanned (s : IpState) (p : BitVec 32) : Prop :=
  ∃ o, (s.entry p).scanned o = true

/-- The address that the sweep has taken, before its prefix is looked up in the heap. -/
def FeederPc.swept : FeederPc → Option Ipv4Addr
  | .nextQuery addr => some addr
  | _ => none

/-- The hit of `p` that a responder thread still has to add. -/
def ReportPc.owed (p : BitVec 32) : ReportPc → ℕ
  | .room q => if q = p then 1 else 0
  | .query q => if q = p then 1 else 0
  | _ => 0

namespace PmapIpAdapter

/-- The results of a prefix that are known when `hits` were reported. -/
def known (self : PmapIpAdapter scope) (hits : BitVec 32 → ℕ) (p : BitVec 32) : ℕ :=
  (self.graph.historicalScore p).toNat + hits p

/-- A map that has the scores of all prefixes with free addresses of which something is known. The
hit that is `owed` is not in it, nor is the prefix of the address that was just `swept`. -/
structure Settled (adapter : PmapIpAdapter scope) (hits : BitVec 32 → ℕ) (s : IpState)
    (values : BitVec 32 → Option ℚ) (owed : BitVec 32 → ℕ) (swept : Option Ipv4Addr) : Prop where
  score : ∀ p, (s.entry p).remaining ≠ 0 →
    (values p).getD (adapter.graph.historicalScore p).toNat + owed p = adapter.known hits p
  bound : ∀ p, (s.entry p).remaining ≠ 0 → s.HasScanned p → swept.map prefixId ≠ some p →
    values p ≠ none

/-- The map that the only caller will leave is settled; and a prefix that `try_pick` has read is on
top. -/
structure Ledger (adapter : PmapIpAdapter scope) (hits : BitVec 32 → ℕ) (s : IpState) : Prop where
  feeder : (∀ t, s.threads t = .idle) →
    adapter.Settled hits s (s.feeder.op.finish s.heap.alone).values 0 s.feeder.swept
  thread : ∀ t, s.feeder = .idle → (∀ u, u ≠ t → s.threads u = .idle) →
    adapter.Settled hits s ((s.threads t).op.finish s.heap.alone).values
      (fun p => (s.threads t).owed p) none
  top : ∀ last p, s.feeder = .tryPickEntry last p → s.heap.top.1 = some p

variable {self : PmapIpAdapter scope} {hits : BitVec 32 → ℕ} {s t : IpState}
  {values values' : BitVec 32 → Option ℚ} {owed : BitVec 32 → ℕ} {swept : Option Ipv4Addr}

/-- The entries and the scores of the prefixes with free addresses stay. -/
theorem Settled.congr (h : self.Settled hits s values owed swept)
    (hentry : ∀ p, t.entry p = s.entry p)
    (hvalues : ∀ p, (s.entry p).remaining ≠ 0 → values' p = values p) :
    self.Settled hits t values' owed swept where
  score := by
    intro p hp
    rw [hentry] at hp
    rw [hvalues p hp]
    exact h.score p hp
  bound := by
    intro p hp hscanned hswept
    rw [IpState.HasScanned, hentry] at hscanned
    rw [hentry] at hp
    rw [hvalues p hp]
    exact h.bound p hp hscanned hswept

/-- An operation in progress goes on. -/
theorem finish_done {op : HeapOp (BitVec 32) ℚ} {heap : ConcurrentLazyHeap (BitVec 32) ℚ}
    (hdone : (op.exec heap).1 = .done) : (op.exec heap).2.alone = op.finish heap.alone := by
  have hexec := op.finish_exec heap
  rw [hdone] at hexec
  exact hexec

/-- A prefix that has free addresses after one was marked had some before. -/
theorem remaining_of_mark {state : PrefixState} (h : state.Counted) {o : BitVec 8}
    (hfree : (state.markScanned o).2.remaining ≠ 0) : state.remaining ≠ 0 := by
  intro hzero
  have hscanned : state.scanned o = true := by
    have hfalse := h.remaining_eq_zero_iff.mp hzero o
    rwa [PrefixState.isUnscanned_eq, Bool.not_eq_false_eq_eq_true] at hfalse
  rw [PrefixState.markScanned_of_scanned hscanned] at hfree
  exact hfree hzero

/-- An address of a prefix is marked. Either nothing is left of the prefix then, or it was bound, or
it is the prefix of the address that was swept. -/
theorem Settled.mark (h : self.Settled hits s values owed none)
    (hcounted : ∀ p, (s.entry p).Counted) {p : BitVec 32} {o : BitVec 8}
    (hentry : ∀ q, t.entry q = (s.setEntry p ((s.entry p).markScanned o).2).entry q)
    (hvalues : ∀ q, (t.entry q).remaining ≠ 0 → values' q = values q)
    (hp : (t.entry p).remaining = 0 ∨ values p ≠ none ∨ swept.map prefixId = some p) :
    self.Settled hits t values' owed swept := by
  have hother (q : BitVec 32) (hq : q ≠ p) : t.entry q = s.entry q := by
    rw [hentry, IpState.entry_setEntry, if_neg hq]
  -- only `p` gets fewer free addresses, by the one that is marked
  have hfree (q : BitVec 32) (hq : (t.entry q).remaining ≠ 0) : (s.entry q).remaining ≠ 0 := by
    by_cases hqp : q = p
    · subst hqp
      rw [hentry, IpState.entry_setEntry, if_pos rfl] at hq
      exact remaining_of_mark (hcounted q) hq
    · rwa [hother q hqp] at hq
  constructor
  · intro q hq
    rw [hvalues q hq]
    exact h.score q (hfree q hq)
  · intro q hq hscanned hswept
    rw [hvalues q hq]
    by_cases hqp : q = p
    · subst hqp
      -- a prefix with a marked address has a score, unless it is used up or its score is about to
      -- be stored
      rcases hp with hzero | hbound | heq
      · exact absurd hzero hq
      · exact hbound
      · exact absurd heq hswept
    · rw [IpState.HasScanned, hother q hqp] at hscanned
      exact h.bound q (hfree q hq) hscanned nofun

/-! ### The feeder -/

/-- Entering a prefix leaves its entry. -/
theorem entry_setEntry_entry (s : IpState) (p q : BitVec 32) :
    (s.setEntry p (s.entry p)).entry q = s.entry q := by
  rw [IpState.entry_setEntry]
  split
  · next hq => rw [hq]
  · rfl

/-- A prefix that was swept and is found in the heap. -/
theorem query_of_idle (self : PmapIpAdapter scope) {draw : ℕ → BitVec 8} {addr : Ipv4Addr}
    (hpc : s.feeder = .nextQuery addr) (hidle : (self.feederStep draw s).feeder = .idle) :
    s.heap.values (prefixId addr) ≠ none := by
  intro hnone
  have hquery : s.heap.query (prefixId addr) = none := hnone
  simp only [feederStep, hpc, hquery] at hidle
  cases hidle

/-- The feeder removes the score of a prefix only when the prefix is used up, and stores one for
each prefix that the sweep enters. It adds no hit. -/
theorem Settled.feederStep (self : PmapIpAdapter scope) (draw : ℕ → BitVec 8)
    (h : self.Settled hits s (s.feeder.op.finish s.heap.alone).values 0 s.feeder.swept)
    (hrepresented : (s.feeder.op.finish s.heap.alone).Represented)
    (hcounted : ∀ p, (s.entry p).Counted)
    (htop : ∀ last p, s.feeder = .tryPickEntry last p → s.heap.top.1 = some p) :
    let t := self.feederStep draw s
    self.Settled hits t (t.feeder.op.finish t.heap.alone).values 0 t.feeder.swept := by
  intro t
  have hknown (addr : Ipv4Addr) (hpc : s.feeder = .nextQuery addr) (hidle : t.feeder = .idle) :=
    self.query_of_idle hpc hidle
  have hstep : self.FeederStep draw s t := self.feederStep_cases draw s
  clear_value t
  cases hstep with
  | stay => exact h
  | top hpc | topEnd hpc | topEmpty hpc =>
    rw [hpc] at h
    exact h.congr (fun _ => rfl) fun _ _ => rfl
  | @used last p hpc hused =>
    -- the prefix on top is popped, and it has no free address
    have hp : s.heap.alone.top.1 = some p := htop last p hpc
    have hzero : (s.entry p).remaining = 0 := hused.elim id (hcounted p).remaining_eq_zero
    rw [hpc] at h
    refine h.congr (entry_setEntry_entry s p) fun q hq => ?_
    have hqp : q ≠ p := by
      rintro rfl
      exact hq hzero
    exact LazyHeap.values_pop_of_ne hp hqp
  | @pickLast last p o hpc hfetch hlast =>
    -- the last free address of the prefix on top: it is marked, and the prefix is popped
    have hp : s.heap.alone.top.1 = some p := htop last p hpc
    rw [hpc] at h
    have hnone : ((s.setEntry p ((s.entry p).markScanned o).2).entry p).remaining = 0 := by
      rw [IpState.entry_setEntry, if_pos rfl]
      exact hlast
    refine h.mark hcounted (p := p) (o := o) (fun _ => rfl) (fun q hq => ?_) (.inl hnone)
    have hqp : q ≠ p := by
      rintro rfl
      exact hq hnone
    exact LazyHeap.values_pop_of_ne hp hqp
  | @pick last p o hpc hfetch hlast =>
    have hp := htop last p hpc
    rw [hpc] at h hrepresented
    -- the prefix was on top, so it has a score
    obtain ⟨score, hbound, -⟩ := hrepresented.top_some hp
    refine h.mark hcounted (p := p) (o := o) (fun _ => rfl) (fun _ _ => rfl) (.inr (.inl ?_))
    rw [hbound]
    exact nofun
  -- an access of an operation: what the whole of it leads to was counted when it began
  | pop hpc | update hpc =>
    rw [hpc] at h
    refine h.congr (fun _ => rfl) fun q _ => ?_
    exact congrFun (congrArg LazyHeap.values (HeapOp.finish_exec _ s.heap)) q
  | popReturn hpc hexec | popLoop hpc hexec | updateReturn hpc hexec =>
    rw [hpc] at h
    refine h.congr (fun _ => rfl) fun q _ => ?_
    exact congrFun (congrArg LazyHeap.values (finish_done hexec)) q
  | indexPanic hpc | sweepEnd hpc =>
    rw [hpc] at h
    exact h.congr (fun _ => rfl) fun _ _ => rfl
  | @sweepSkip addr hpc hlt hindex hbefore =>
    rw [PrefixState.fst_markScanned] at hbefore
    refine h.congr (fun q => ?_) fun _ _ => rfl
    change (s.setEntry _ ((s.entry _).markScanned _).2).entry q = s.entry q
    rw [PrefixState.markScanned_of_scanned hbefore]
    exact entry_setEntry_entry s _ q
  | sweepTake hpc =>
    rw [hpc] at h
    -- its score is looked up next
    exact h.mark hcounted (fun _ => rfl) (fun _ _ => rfl) (.inr (.inr rfl))
  | @sweepLast addr hpc hlt hindex hbefore hroom =>
    rw [hpc] at h
    refine h.mark hcounted (fun _ => rfl) (fun _ _ => rfl) (.inl ?_)
    change ((s.setEntry _ ((s.entry _).markScanned _).2).entry _).remaining = 0
    rw [IpState.entry_setEntry, if_pos rfl]
    bv_omega
  | @queryKnown addr hpc =>
    -- the call returns because the prefix has a score already
    have hfound := hknown addr hpc rfl
    rw [hpc] at h
    refine ⟨h.score, fun p hp hscanned _ => ?_⟩
    by_cases hpa : prefixId addr = p
    · rw [← hpa]
      exact hfound
    · exact h.bound p hp hscanned fun heq => hpa (Option.some.inj heq)
  | @queryNew addr hpc hnew =>
    rw [hpc] at h
    -- the historical score is what was meant before
    have hvalues (p : BitVec 32) : ((ConcurrentLazyHeap.update (prefixId addr)
        ((self.graph.historicalScore (prefixId addr)).toNat : ℚ)).finish s.heap.alone).values p =
          if p = prefixId addr then some ((self.graph.historicalScore p).toNat : ℚ)
          else s.heap.values p := by
      change Function.update s.heap.values (prefixId addr) _ p = _
      rw [Function.update_apply]
      split
      · next hp => rw [hp]
      · rfl
    constructor
    · intro p hp
      have hscore := h.score p hp
      change ((ConcurrentLazyHeap.update _ _ |>.finish s.heap.alone).values p).getD _ + _ = _
      rw [hvalues]
      split
      · next hpa =>
        have hnone : s.heap.values p = none := by
          rw [hpa]
          exact hnew
        change (s.heap.values p).getD _ + _ = _ at hscore
        rwa [hnone] at hscore
      · exact hscore
    · intro p hp hscanned _
      change (ConcurrentLazyHeap.update _ _ |>.finish s.heap.alone).values p ≠ none
      rw [hvalues]
      split
      · exact nofun
      · next hpa =>
        exact h.bound p hp hscanned fun heq => hpa (Option.some.inj heq).symm

/-! ### The responder threads -/

/-- An access of a thread, with what it owes and what it will leave. -/
theorem Settled.threadStep (self : PmapIpAdapter scope) (i : ℕ)
    (h : self.Settled hits s ((s.threads i).op.finish s.heap.alone).values
      (fun p => (s.threads i).owed p) none) :
    let t := self.threadStep i s
    self.Settled hits t ((t.threads i).op.finish t.heap.alone).values
      (fun p => (t.threads i).owed p) none := by
  unfold PmapIpAdapter.threadStep
  split
  · exact h
  · next q hpc =>
    rw [hpc] at h
    dsimp only
    rw [Function.update_self]
    split
    · -- there is room, so the hit is still owed
      exact ⟨h.score, h.bound⟩
    · next hfull =>
      -- the hit is dropped, as the prefix has no free address
      refine ⟨fun p hp => ?_, h.bound⟩
      have hne : q ≠ p := by
        rintro rfl
        apply hfull
        cases hactive : s.actives q with
        | none => rfl
        | some state =>
          change ((s.actives q).getD PrefixState.new).remaining ≠ 0 at hp
          rw [hactive, Option.getD_some] at hp
          exact decide_eq_true (show state.remaining > 0 by bv_omega)
      have hscore := h.score p hp
      rw [ReportPc.owed, if_neg hne] at hscore
      exact hscore
  · next q hpc =>
    rw [hpc] at h
    dsimp only
    rw [Function.update_self]
    -- the new score is the one that was read, and one more for the hit that was owed
    have hvalues (p : BitVec 32) : ((ConcurrentLazyHeap.update q
        ((s.heap.query q).getD ((self.graph.historicalScore q).toNat : ℚ) + 1)).finish
          s.heap.alone).values p =
        if p = q then some ((s.heap.values p).getD ((self.graph.historicalScore p).toNat : ℚ) + 1)
        else s.heap.values p := by
      change Function.update s.heap.values q _ p = _
      rw [Function.update_apply]
      split
      · next hp =>
        rw [hp]
        rfl
      · rfl
    constructor
    · intro p hp
      have hscore : (s.heap.values p).getD _ + ((ReportPc.query q).owed p : ℚ) = _ := h.score p hp
      change ((ConcurrentLazyHeap.update _ _ |>.finish s.heap.alone).values p).getD _ + 0 = _
      rw [hvalues, ← hscore, add_zero, ReportPc.owed]
      split
      · next hpq =>
        rw [if_pos hpq.symm]
        rfl
      · next hpq =>
        rw [if_neg (Ne.symm hpq), Nat.cast_zero, add_zero]
    · intro p hp hscanned hswept
      change (ConcurrentLazyHeap.update _ _ |>.finish s.heap.alone).values p ≠ none
      rw [hvalues]
      split
      · exact nofun
      · exact h.bound p hp hscanned hswept
  · next op hpc =>
    rw [hpc] at h
    split
    · next heap hexec =>
      -- the accesses of the update: its effect is counted already
      obtain rfl : (op.exec s.heap).2 = heap := congrArg Prod.snd hexec
      dsimp only
      rw [Function.update_self]
      refine h.congr (fun _ => rfl) fun p _ => ?_
      exact congrFun (congrArg LazyHeap.values (finish_done (congrArg Prod.fst hexec))) p
    · next op' heap _ hexec =>
      obtain rfl : (op.exec s.heap).2 = heap := congrArg Prod.snd hexec
      obtain rfl : (op.exec s.heap).1 = op' := congrArg Prod.fst hexec
      dsimp only
      rw [Function.update_self]
      refine h.congr (fun _ => rfl) fun p _ => ?_
      exact congrFun (congrArg LazyHeap.values (op.finish_exec s.heap)) p

/-! ### Calls one after another -/

/-- Only the feeder may be inside a call. -/
theorem Ledger.of_feeder (hthreads : ∀ i, s.threads i = .idle)
    (h : self.Settled hits s (s.feeder.op.finish s.heap.alone).values 0 s.feeder.swept)
    (htop : ∀ last p, s.feeder = .tryPickEntry last p → s.heap.top.1 = some p) :
    self.Ledger hits s where
  feeder _ := h
  thread i hfeeder _ := by
    rw [hfeeder] at h
    rw [hthreads i]
    exact h
  top := htop

/-- Only thread `i` may be inside a call. -/
theorem Ledger.of_thread {i : ℕ} (hfeeder : s.feeder = .idle)
    (hthreads : ∀ j, j ≠ i → s.threads j = .idle)
    (h : self.Settled hits s ((s.threads i).op.finish s.heap.alone).values
      (fun p => (s.threads i).owed p) none) : self.Ledger hits s where
  feeder hidle := by
    rw [hidle i] at h
    rw [hfeeder]
    exact h
  thread j _ hothers := by
    -- whoever is idle may be taken for the one that is alone
    by_cases hj : j = i
    · subst hj
      exact h
    · rw [hothers i (Ne.symm hj)] at h
      rw [hthreads j hj]
      exact h
  top last p hpc := by
    rw [hfeeder] at hpc
    contradiction

/-- Between `top` and the entry the prefix stays on top: `top` cleans the heap, and nobody else is
at work. -/
theorem top_feederStep (self : PmapIpAdapter scope) (draw : ℕ → BitVec 8) {last : Bool}
    {p : BitVec 32} (hpc : (self.feederStep draw s).feeder = .tryPickEntry last p)
    (htop : ∀ last p, s.feeder = .tryPickEntry last p → s.heap.top.1 = some p) :
    (self.feederStep draw s).heap.top.1 = some p := by
  have hstep := self.feederStep_cases draw s
  generalize self.feederStep draw s = t at hpc hstep
  cases hstep with
  | stay => exact htop last p hpc
  | top _ hread =>
    -- reading the top cleans the heap, which leaves it there
    cases hpc
    exact top_cleaned hread
  | sweepSkip => exact htop last p hpc
  | _ => cases hpc

/-- A thread takes its steps while nobody else is inside a call. -/
theorem alone_of_thread (self : PmapIpAdapter scope) {i : ℕ} {act : IpAct}
    (hact : (∃ addr, act = .onResult i addr) ∨ act = .thread i) {s : IpState}
    (hs : s.feeder = .idle ∧ ∀ u, u ≠ i → s.threads u = .idle) :
    Alone s act ∧ (self.step s act).feeder = .idle ∧
      ∀ u, u ≠ i → (self.step s act).threads u = .idle := by
  rcases hact with ⟨addr, rfl⟩ | rfl
  · refine ⟨hs, ?_⟩
    rw [step]
    split
    · exact ⟨hs.1, fun u hu => (Function.update_of_ne hu _ _).trans (hs.2 u hu)⟩
    · exact hs
  · refine ⟨hs, (self.threadStep_frame i s).2.trans hs.1, fun u hu => ?_⟩
    rw [step, self.threadStep_threads_of_ne hu]
    exact hs.2 u hu

/-- A step of the only thread inside a call. A report adds to the hits when it begins, and is owed
until its update is through. -/
theorem Ledger.step (self : PmapIpAdapter scope) {act : IpAct} (halone : Alone s act)
    (hserial : s.Serial) (hcounted : ∀ p, (s.entry p).Counted) (h : self.Ledger hits s) :
    self.Ledger (fun p => hits p + reports p s act) (self.step s act) := by
  cases act with
  | nextAddress coin =>
    have hs := h.feeder halone
    rw [PmapIpAdapter.step]
    split
    · next hpc =>
      rw [hpc] at hs
      split
      · refine .of_feeder halone ⟨hs.score, hs.bound⟩ fun last p htop => ?_
        cases htop
      · refine .of_feeder halone ⟨hs.score, hs.bound⟩ fun last p htop => ?_
        cases htop
    · exact h
  | feeder draw =>
    refine .of_feeder (fun i => ?_)
      ((h.feeder halone).feederStep self draw (hserial.feeder halone) hcounted h.top)
      fun last p hpc => self.top_feederStep draw hpc h.top
    rw [PmapIpAdapter.step, (self.feederStep_cases draw s).threads]
    exact halone i
  | onResult i addr =>
    obtain ⟨hfeeder, hothers⟩ := halone
    have hs := h.thread i hfeeder hothers
    rw [PmapIpAdapter.step]
    cases hpc : s.threads i with
    | idle =>
      -- one more hit is known, and owed
      rw [hpc] at hs
      refine .of_thread hfeeder (i := i) (fun j hj => ?_) ?_
      · exact (Function.update_of_ne hj _ _).trans (hothers j hj)
      · dsimp only
        rw [Function.update_self]
        refine ⟨fun p hp => ?_, hs.bound⟩
        have hscore : (s.heap.values p).getD _ + ((0 : ℕ) : ℚ) = (self.known hits p : ℚ) :=
          hs.score p hp
        change (s.heap.values p).getD _ + ((if prefixId addr = p then 1 else 0 : ℕ) : ℚ) = _
        rw [Nat.cast_zero, add_zero] at hscore
        simp only [known, reports, hpc]
        rw [hscore, known, ← Nat.add_assoc, Nat.cast_add _ (if prefixId addr = p then 1 else 0)]
    | _ =>
      simp only [reports, hpc]
      exact h
  | thread i =>
    obtain ⟨-, hfeeder, hothers⟩ := self.alone_of_thread (.inr rfl) halone
    exact .of_thread hfeeder hothers ((h.thread i halone.1 halone.2).threadStep self i)

/-- **The ledger.** After any calls one after another. -/
theorem ledger_run (self : PmapIpAdapter scope) {acts : List IpAct}
    (halone : Run.Along self.step Alone .initial acts) :
    self.Ledger (fun p => Run.total self.step (reports p) .initial acts) (self.run acts) := by
  -- the state of a step is that of the run so far, which the counts need
  let I (past : List IpAct) (s : IpState) : Prop := s = self.run past ∧ s.Serial ∧
    self.Ledger (fun p => Run.total self.step (reports p) .initial past) s
  have hstart : I [] .initial := by
    refine ⟨rfl, .initial, .of_feeder (fun _ => rfl) ⟨fun p _ => ?_, fun p _ hscanned => ?_⟩ nofun⟩
    · exact add_zero _
    · obtain ⟨o, ho⟩ := hscanned
      cases (PrefixState.scanned_new o).symm.trans ho
  refine (halone.rule ?_ hstart).2.2
  rintro past _ act hact ⟨rfl, hserial, hledger⟩
  refine ⟨(self.run_concat past act).symm, self.serial_step hact hserial, ?_⟩
  simp only [Run.total_concat]
  exact hledger.step self hact hserial (self.counted_run past)

end PmapIpAdapter

end Farsight
