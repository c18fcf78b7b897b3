import Farsight.Controller.Feeder
import Farsight.Strategy.HostStates

/-!
# The ticks of the feeder among the other threads

`Feeder::tick` is embedded twice: as a whole tick that is given its guards (`Feeder.tick`), and in
the machine of the host states, where the feeder takes its guards from the pool, one call at a time,
while responder threads and the expirer give boxes back (`HostStates.feederStep`). Here the second
leads to the first: whatever the others do in between, the feeder makes the ticks of `Feeder.run`,
with the guards that it has found in the pool and the addresses that it was given. What the expirer
has not taken yet is the end of what those ticks have handed over.

`answers` of `Feeder.run` is a function of the number of calls, of which a run of the machine has
used a beginning only. So the statements are about every function that begins as the run has seen it
(`Begins`).

* `HostStates.Ticked`, `HostStates.Turning` — whole ticks, and a tick in progress;
* `HostStates.Follows` — where the machine stands in the ticks;
* `HostStates.follows_step`, `HostStates.feeder_run` — a step keeps it, hence a run.
-/

namespace Farsight

/-- The answers to the calls begin with these. -/
def Begins (answered : List (Option Ipv4Addr)) (answers : ℕ → Option Ipv4Addr) : Prop :=
  ∀ k answer, answered[k]? = some answer → answers k = answer

namespace Begins

variable {answered : List (Option Ipv4Addr)} {answer : Option Ipv4Addr}
  {answers : ℕ → Option Ipv4Addr}

theorem init (h : Begins (answered ++ [answer]) answers) : Begins answered answers := by
  intro k a hk
  exact h k a (List.getElem?_append_left (List.getElem?_eq_some_iff.mp hk).1 |>.trans hk)

theorem last (h : Begins (answered ++ [answer]) answers) : answers answered.length = answer :=
  h _ _ List.getElem?_concat_length

end Begins

/-- A tick after those that have returned `false`. -/
theorem Feeder.run_concat {self : Feeder} {answers : ℕ → Option Ipv4Addr}
    {inputs : List (TickInput self.batchSize)} {f f' : FeederState}
    (h : self.run answers inputs f = (.batched, f')) (input : TickInput self.batchSize) :
    self.run answers (inputs ++ [input]) f = self.tick answers input f' := by
  -- a run stops at the first tick that does not end with a batch, so all of these did
  induction inputs generalizing f with
  | nil =>
    obtain rfl := (Prod.mk.inj h).2
    rw [List.nil_append, run]
    split
    · next heq => exact heq.symm
    · rfl
  | cons first inputs ih =>
    rw [List.cons_append, run]
    rw [run] at h
    split at h
    · next f₁ htick =>
      exact ih h
    · next result hne => exact absurd h (hne _)

/-- The end of a tick hands over what the tick has collected. -/
theorem FeederState.handedExpiries_batch (f : FeederState) :
    f.batch.handedExpiries = f.handedExpiries ++ f.expiriesBatch := by
  change (f.handedOver ++ [(f.resultBatch, f.expiriesBatch)]).flatMap _ = _
  rw [List.flatMap_append, List.flatMap_singleton]
  rfl

namespace HostStates

variable {n : ℕ} {self : HostStates} {answered : List (Option Ipv4Addr)} {f : FeederState}

/-- The feeder of the machine. -/
def toFeeder (self : HostStates) : Feeder where
  start := self.start
  duration := self.duration
  timeout := self.timeout
  batchSize := self.batchSize
  ports := self.ports

/-- The feeder has made whole ticks, of which the last has ended so. -/
def Ticked (self : HostStates) (answered : List (Option Ipv4Addr)) (result : TickEnd)
    (f : FeederState) : Prop :=
  ∃ inputs : List (TickInput self.toFeeder.batchSize), ∀ answers, Begins answered answers →
    self.toFeeder.run answers inputs .new = (result, f)

/-- The feeder is in a tick with some turns left: the rest of the loop starts from `f`. -/
def Turning (self : HostStates) (answered : List (Option Ipv4Addr)) (left deadline : ℕ)
    (f : FeederState) : Prop :=
  ∃ (f₀ : FeederState) (now : ℕ) (guards : List (Option HostDraws)),
    self.Ticked answered .batched f₀ ∧ ¬ now - self.start ≥ self.duration ∧
      deadline = now + self.timeout ∧ guards.length + left = self.batchSize ∧
      f.handedOver = f₀.handedOver ∧
      ∀ answers, Begins answered answers → ∀ rest,
        self.toFeeder.tickLoop answers deadline (guards ++ rest) f₀.clear =
          self.toFeeder.tickLoop answers deadline rest f

/-! ### The parts of a tick -/

theorem Ticked.answer {result : TickEnd} (h : self.Ticked answered result f)
    (answer : Option Ipv4Addr) : self.Ticked (answered ++ [answer]) result f := by
  obtain ⟨inputs, hrun⟩ := h
  exact ⟨inputs, fun answers hbegins => hrun answers hbegins.init⟩

theorem Ticked.new : self.Ticked [] .batched .new :=
  ⟨[], fun _ _ => rfl⟩

/-- The session is over, whatever guards the tick would have got. -/
theorem Ticked.elapsed (h : self.Ticked answered .batched f) {now : ℕ}
    (hnow : now - self.start ≥ self.duration) : self.Ticked answered .elapsed f := by
  obtain ⟨inputs, hrun⟩ := h
  refine ⟨inputs ++ [⟨now, List.replicate _ none, List.length_replicate⟩],
    fun answers hbegins => ?_⟩
  rw [Feeder.run_concat (hrun answers hbegins)]
  exact if_pos hnow

/-- A tick begins. -/
theorem Ticked.turning (h : self.Ticked answered .batched f) {now : ℕ}
    (hnow : ¬ now - self.start ≥ self.duration) :
    self.Turning answered self.batchSize (now + self.timeout) f.clear :=
  ⟨f, now, [], h, hnow, rfl, Nat.zero_add _, rfl, fun _ _ _ => rfl⟩

/-- A turn without a guard. -/
theorem Turning.noGuard {left deadline : ℕ} (h : self.Turning answered (left + 1) deadline f) :
    self.Turning answered left deadline f := by
  obtain ⟨f₀, now, guards, hticked, hnow, hdeadline, hlength, hsame, hloop⟩ := h
  refine ⟨f₀, now, guards ++ [none], hticked, hnow, hdeadline, ?_, hsame,
    fun answers hbegins rest => ?_⟩
  · rw [List.length_append, List.length_singleton]
    omega
  · rw [List.append_assoc, hloop answers hbegins]
    rfl

/-- A turn that draws an address. -/
theorem Turning.target {left deadline : ℕ} (h : self.Turning answered (left + 1) deadline f)
    (hcalls : f.calls = answered.length) (addr : Ipv4Addr) (draws : HostDraws) :
    self.Turning (answered ++ [some addr]) left deadline
      (f.called.push (self.ports.firstProbe addr draws) (deadline, addr)) := by
  obtain ⟨f₀, now, guards, hticked, hnow, hdeadline, hlength, hsame, hloop⟩ := h
  refine ⟨f₀, now, guards ++ [some draws], hticked.answer _, hnow, hdeadline, ?_, hsame,
    fun answers hbegins rest => ?_⟩
  · rw [List.length_append, List.length_singleton]
    omega
  · have hanswer : answers f.calls = some addr := by
      rw [hcalls]
      exact hbegins.last
    rw [List.append_assoc, hloop answers hbegins.init, List.singleton_append, Feeder.tickLoop,
      hanswer]
    rfl

/-- A turn that finds no address left ends the tick. -/
theorem Turning.exhausted {left deadline : ℕ} (h : self.Turning answered (left + 1) deadline f)
    (hcalls : f.calls = answered.length) (draws : HostDraws) :
    self.Ticked (answered ++ [none]) .exhausted f.called := by
  obtain ⟨f₀, now, guards, ⟨inputs, hrun⟩, hnow, rfl, hlength, -, hloop⟩ := h
  -- the turns after this one get no guard
  have hguards : (guards ++ some draws :: List.replicate left none).length = self.batchSize := by
    rw [List.length_append, List.length_cons, List.length_replicate]
    exact hlength
  refine ⟨inputs ++ [⟨now, guards ++ some draws :: List.replicate left none, hguards⟩],
    fun answers hbegins => ?_⟩
  have hanswer : answers f.calls = none := by
    rw [hcalls]
    exact hbegins.last
  rw [Feeder.run_concat (hrun answers hbegins.init)]
  refine (if_neg hnow).trans ((hloop answers hbegins.init _).trans ?_)
  rw [Feeder.tickLoop, hanswer]

/-- After the last turn the batch is handed over. -/
theorem Turning.batched {deadline : ℕ} (h : self.Turning answered 0 deadline f) :
    self.Ticked answered .batched f.batch := by
  obtain ⟨f₀, now, guards, ⟨inputs, hrun⟩, hnow, rfl, hlength, -, hloop⟩ := h
  refine ⟨inputs ++ [⟨now, guards, hlength⟩], fun answers hbegins => ?_⟩
  rw [Feeder.run_concat (hrun answers hbegins)]
  have hrest := hloop answers hbegins []
  rw [List.append_nil] at hrest
  exact (if_neg hnow).trans hrest

/-! ### Where the machine stands -/

/-- Where the feeder stands in its ticks. The machine clears the batch when it hands it over, the
ticks when the next one begins. -/
def At (self : HostStates) (answered : List (Option Ipv4Addr)) (f : FeederState)
    (batch : List PortExpiry) : FeedPc → Prop
  | .start => batch = [] ∧ self.Ticked answered .batched f
  | .turn left deadline => batch = f.expiriesBatch ∧ self.Turning answered left deadline f
  | .guarded left deadline _ =>
    batch = f.expiriesBatch ∧ self.Turning answered (left + 1) deadline f
  -- the target counts already
  | .replacing left deadline _ addr =>
    batch ++ [(deadline, addr)] = f.expiriesBatch ∧ self.Turning answered left deadline f
  | .elapsed => self.Ticked answered .elapsed f
  | .exhausted => batch = f.expiriesBatch ∧ self.Ticked answered .exhausted f

/-- The machine stands there, and what the expirer has not taken yet is the end of what was handed
over. -/
structure Follows (states : HostStates) (answered : List (Option Ipv4Addr)) (f : FeederState)
    (s : HostStatesState n) : Prop where
  feeder : states.At answered f s.expiriesBatch s.feeder
  calls : f.calls = answered.length
  handed : s.pending.toList ++ s.expiries <:+ f.handedExpiries

theorem calls_called {answer : Option Ipv4Addr} (hcalls : f.calls = answered.length) :
    f.called.calls = (answered ++ [answer]).length := by
  rw [List.length_append, List.length_singleton, ← hcalls]
  rfl

/-- A step of the feeder. -/
theorem follows_feederStep {s : HostStatesState n} (h : self.Follows answered f s) (now : ℕ)
    (answer : Option Ipv4Addr) (draws : HostDraws) :
    ∃ answered' f', self.Follows answered' f' (self.feederStep now answer draws s) := by
  obtain ⟨pool, batch, expiries, pending, feeder, threads, expirer⟩ := s
  obtain ⟨hfeeder, hcalls, hhanded⟩ := h
  dsimp only at hfeeder hhanded
  unfold feederStep
  cases feeder with
  | start =>
    obtain ⟨rfl, hticked⟩ := hfeeder
    dsimp only
    -- the clock is read once for a tick, here
    split
    · next hnow => exact ⟨answered, f, hticked.elapsed hnow, hcalls, hhanded⟩
    · next hnow => exact ⟨answered, f.clear, ⟨rfl, hticked.turning hnow⟩, hcalls, hhanded⟩
  | turn left deadline =>
    obtain ⟨rfl, hturning⟩ := hfeeder
    cases left with
    | zero =>
      -- the end of the tick: the batch becomes a part of what was handed over, behind what the
      -- expiry loop has left
      refine ⟨answered, f.batch, ⟨rfl, hturning.batched⟩, hcalls, ?_⟩
      dsimp only
      obtain ⟨taken, htaken⟩ := hhanded
      refine ⟨taken, ?_⟩
      rw [FeederState.handedExpiries_batch, ← htaken, List.append_assoc, List.append_assoc]
    | succ left =>
      dsimp only
      split
      · exact ⟨answered, f, ⟨rfl, hturning⟩, hcalls, hhanded⟩
      · -- the pool is empty, so the turn passes without a target
        exact ⟨answered, f, ⟨rfl, hturning.noGuard⟩, hcalls, hhanded⟩
  | guarded left deadline state =>
    obtain ⟨rfl, hturning⟩ := hfeeder
    dsimp only
    cases answer with
    | none =>
      refine ⟨answered ++ [none], f.called, ⟨rfl, hturning.exhausted hcalls draws⟩, ?_, hhanded⟩
      exact calls_called hcalls
    | some addr =>
      have htarget := hturning.target hcalls addr draws
      dsimp only
      -- whether the address had a state is not seen in the feeder's own view
      split
      · exact ⟨_, _, ⟨rfl, htarget⟩, calls_called hcalls, hhanded⟩
      · exact ⟨_, _, ⟨rfl, htarget⟩, calls_called hcalls, hhanded⟩
  | replacing left deadline old addr =>
    obtain ⟨hbatch, hturning⟩ := hfeeder
    exact ⟨answered, f, ⟨hbatch, hturning⟩, hcalls, hhanded⟩
  | elapsed => exact ⟨answered, f, hfeeder, hcalls, hhanded⟩
  | exhausted => exact ⟨answered, f, hfeeder, hcalls, hhanded⟩

/-- The expirer takes expiries from the front, and may put back the last one. -/
theorem expirerStep_frame (s : HostStatesState n) :
    (expirerStep s).feeder = s.feeder ∧ (expirerStep s).expiriesBatch = s.expiriesBatch ∧
      (expirerStep s).pending.toList ++ (expirerStep s).expiries <:+
        s.pending.toList ++ s.expiries := by
  obtain ⟨pool, batch, expiries, pending, feeder, threads, expirer⟩ := s
  unfold expirerStep
  cases expirer with
  | idle => exact ⟨rfl, rfl, List.suffix_rfl⟩
  | turn left now =>
    cases left with
    | zero => exact ⟨rfl, rfl, List.suffix_rfl⟩
    | succ left =>
      -- what the loop removes is the first of the pending expiry and the queue, and one that is not
      -- due is put back
      cases pending with
      | some expiry =>
        dsimp only
        unfold takeExpiry
        split
        · exact ⟨rfl, rfl, List.suffix_rfl⟩
        · exact ⟨rfl, rfl, List.suffix_cons expiry expiries⟩
      | none =>
        cases expiries with
        | nil => exact ⟨rfl, rfl, List.suffix_rfl⟩
        | cons expiry rest =>
          dsimp only
          unfold takeExpiry
          split
          · exact ⟨rfl, rfl, List.suffix_rfl⟩
          · exact ⟨rfl, rfl, List.suffix_cons expiry rest⟩
  | removing left now expiry =>
    dsimp only
    split <;> exact ⟨rfl, rfl, List.suffix_rfl⟩
  | pushing left now state => exact ⟨rfl, rfl, List.suffix_rfl⟩

/-- The other threads leave the feeder where it is. -/
theorem step_frame (self : HostStates) (s : HostStatesState n) {act : HostAct n}
    (hact : ∀ now answer draws, act ≠ .feeder now answer draws) :
    (self.step s act).feeder = s.feeder ∧ (self.step s act).expiriesBatch = s.expiriesBatch ∧
      (self.step s act).pending.toList ++ (self.step s act).expiries <:+
        s.pending.toList ++ s.expiries := by
  cases act with
  | feeder now answer draws => exact absurd rfl (hact now answer draws)
  | onResult i addr port hash draws =>
    unfold step onResultStep
    dsimp only
    split
    · split <;> exact ⟨rfl, rfl, List.suffix_rfl⟩
    · exact ⟨rfl, rfl, List.suffix_rfl⟩
  | thread i =>
    unfold step threadStep
    dsimp only
    split
    · exact ⟨rfl, rfl, List.suffix_rfl⟩
    · split <;> exact ⟨rfl, rfl, List.suffix_rfl⟩
    · exact ⟨rfl, rfl, List.suffix_rfl⟩
  | expire now =>
    unfold step
    dsimp only
    split <;> exact ⟨rfl, rfl, List.suffix_rfl⟩
  | expirer => exact expirerStep_frame s

/-- One step of any thread: those of the others leave the feeder where it is. -/
theorem follows_step {s : HostStatesState n} (h : self.Follows answered f s) (act : HostAct n) :
    ∃ answered' f', self.Follows answered' f' (self.step s act) := by
  by_cases hact : ∃ now answer draws, act = .feeder now answer draws
  · obtain ⟨now, answer, draws, rfl⟩ := hact
    exact follows_feederStep h now answer draws
  · obtain ⟨hfeeder, hbatch, hsuffix⟩ := self.step_frame s
      fun now answer draws heq => hact ⟨now, answer, draws, heq⟩
    refine ⟨answered, f, ?_, h.calls, hsuffix.trans h.handed⟩
    rw [hfeeder, hbatch]
    exact h.feeder

theorem follows_run (self : HostStates) (acts : List (HostAct n)) :
    ∃ answered f, self.Follows answered f (self.run acts) := by
  refine List.foldlRecOn (motive := fun s => ∃ answered f, self.Follows answered f s) acts self.step
    ⟨[], .new, ⟨rfl, Ticked.new⟩, rfl, List.suffix_rfl⟩ ?_
  rintro s ⟨answered, f, h⟩ act -
  exact follows_step h act

/-- A run of whole ticks, with some answers to the calls that were not made. -/
theorem Ticked.exists_run {result : TickEnd} (h : self.Ticked answered result f) :
    ∃ (answers : ℕ → Option Ipv4Addr) (inputs : List (TickInput self.toFeeder.batchSize)),
      self.toFeeder.run answers inputs .new = (result, f) := by
  obtain ⟨inputs, hrun⟩ := h
  refine ⟨fun k => (answered[k]?).getD none, inputs, hrun _ fun k answer hk => ?_⟩
  rw [hk]
  rfl

/-- **Among the other threads the feeder makes its ticks.** After every run of the machine there are
the ticks of a feeder, with the guards and the addresses that it has got, that have handed over what
the expirer has taken and then what it has not taken yet. If the machine has come to the end of the
session, so has the last tick, and what was drawn in it and is lost is the same. -/
theorem feeder_run (self : HostStates) (acts : List (HostAct n)) :
    let s := self.run acts
    ∃ (answers : ℕ → Option Ipv4Addr) (inputs : List (TickInput self.toFeeder.batchSize))
      (result : TickEnd) (f : FeederState),
      self.toFeeder.run answers inputs .new = (result, f) ∧
        s.pending.toList ++ s.expiries <:+ f.handedExpiries ∧
        (s.feeder = .elapsed → result = .elapsed) ∧
        (s.feeder = .exhausted → result = .exhausted ∧ s.expiriesBatch = f.expiriesBatch) := by
  intro s
  obtain ⟨answered, f, hat, -, hhanded⟩ := self.follows_run acts
  change self.At answered f s.expiriesBatch s.feeder at hat
  -- in the middle of a tick: the ticks before it
  have hturning {left deadline : ℕ} (h : self.Turning answered left deadline f) :
      ∃ f₀, self.Ticked answered .batched f₀ ∧
        s.pending.toList ++ s.expiries <:+ f₀.handedExpiries := by
    obtain ⟨f₀, -, -, hticked, -, -, -, hsame, -⟩ := h
    refine ⟨f₀, hticked, ?_⟩
    rw [FeederState.handedExpiries, ← hsame]
    exact hhanded
  have hticks : ∃ result f', self.Ticked answered result f' ∧
      s.pending.toList ++ s.expiries <:+ f'.handedExpiries ∧
      (s.feeder = .elapsed → result = .elapsed) ∧
      (s.feeder = .exhausted → result = .exhausted ∧ s.expiriesBatch = f'.expiriesBatch) := by
    -- by the point the feeder has reached: a tick that is not over does not count
    cases hpc : s.feeder with
    | start =>
      rw [hpc] at hat
      exact ⟨_, f, hat.2, hhanded, by rintro ⟨⟩, by rintro ⟨⟩⟩
    | turn left deadline =>
      rw [hpc] at hat
      obtain ⟨f₀, hticked, hsuffix⟩ := hturning hat.2
      exact ⟨_, f₀, hticked, hsuffix, by rintro ⟨⟩, by rintro ⟨⟩⟩
    | guarded left deadline state =>
      rw [hpc] at hat
      obtain ⟨f₀, hticked, hsuffix⟩ := hturning hat.2
      exact ⟨_, f₀, hticked, hsuffix, by rintro ⟨⟩, by rintro ⟨⟩⟩
    | replacing left deadline old addr =>
      rw [hpc] at hat
      obtain ⟨f₀, hticked, hsuffix⟩ := hturning hat.2
      exact ⟨_, f₀, hticked, hsuffix, by rintro ⟨⟩, by rintro ⟨⟩⟩
    | elapsed =>
      rw [hpc] at hat
      exact ⟨_, f, hat, hhanded, fun _ => rfl, by rintro ⟨⟩⟩
    | exhausted =>
      rw [hpc] at hat
      exact ⟨_, f, hat.2, hhanded, by rintro ⟨⟩, fun _ => ⟨rfl, hat.1⟩⟩
  obtain ⟨result, f', hticked, hrest⟩ := hticks
  obtain ⟨answers, inputs, hrun⟩ := hticked.exists_run
  exact ⟨answers, inputs, result, f', hrun, hrest⟩

end HostStates

end Farsight
