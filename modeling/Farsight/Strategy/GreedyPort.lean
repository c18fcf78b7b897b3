import Farsight.Strategy.HostReports
import Mathlib.Data.List.Sort
import Mathlib.Order.Bounds.Basic

/-!
# The most promising port

`next_port` compares two ports: the next one of the global ranking, and the one on top of the heap
of the host, which has the ports that are more frequent on hosts like this one. The ranking is read
by an index that never goes back, and the heap is cleaned lazily.

* `scores` — what the history and the hits of the host say about a port;
* `Greedy` — the score of every port that was not tried is the greatest of these;
* `State.nextPort_best` — then `next_port` returns a port with the greatest score;
* `PmapPortAdapter.nextPort_greedy` — that is so after the first result of a host.
-/

namespace Farsight

namespace PmapPortAdapter

/-! ### Scores -/

/-- The ports whose score a hit of `port` may raise. -/
def related (graph : PortGraph) (port : Port) : List (Port × BitVec 64) :=
  if graph.openCount port = 0 then [] else (graph.coOccurring port).getD []

/-- The frequencies of `port` on hosts of another port, by the list of that port. -/
def shares (baseCount : BitVec 64) (others : List (Port × BitVec 64)) (port : Port) : Set ℚ :=
  {q | ∃ count, (port, count) ∈ others ∧ q = (count.toNat : ℚ) / (baseCount.toNat : ℚ)}

/-- What there is about a port: how frequent it is, and how frequent together with each of the ports
that were hit. -/
def scores (graph : PortGraph) (reports : List Report) (port : Port) : Set ℚ :=
  {q | q = graph.baseProb port ∨
    ∃ hit hash, ⟨hit, some hash⟩ ∈ firstReports reports ∧
      q ∈ shares (graph.openCount hit) (related graph hit) port}

variable {graph : PortGraph} {past : List Report} {r : Report} {port : Port}

theorem shares_nil (baseCount : BitVec 64) (port : Port) : shares baseCount [] port = ∅ := by
  refine Set.eq_empty_of_forall_notMem ?_
  rintro q ⟨count, hmem, -⟩
  exact absurd hmem List.not_mem_nil

/-- An entry for the port adds its own frequency, also if there are other entries for it. -/
theorem shares_cons_self (baseCount count : BitVec 64) (others : List (Port × BitVec 64))
    (port : Port) :
    shares baseCount ((port, count) :: others) port =
      insert ((count.toNat : ℚ) / (baseCount.toNat : ℚ)) (shares baseCount others port) := by
  ext q
  constructor
  · rintro ⟨count', hmem, hq⟩
    rcases List.mem_cons.mp hmem with heq | hmem
    · cases heq
      exact .inl hq
    · exact .inr ⟨count', hmem, hq⟩
  · rintro (hq | ⟨count', hmem, hq⟩)
    · exact ⟨count, List.mem_cons_self, hq⟩
    · exact ⟨count', List.mem_cons_of_mem _ hmem, hq⟩

/-- An entry for another port adds nothing. -/
theorem shares_cons_of_ne (baseCount : BitVec 64) {other : Port × BitVec 64}
    (others : List (Port × BitVec 64)) (h : port ≠ other.1) :
    shares baseCount (other :: others) port = shares baseCount others port := by
  ext q
  constructor
  · rintro ⟨count, hmem, hq⟩
    rcases List.mem_cons.mp hmem with heq | hmem
    · exact absurd (congrArg Prod.fst heq) h
    · exact ⟨count, hmem, hq⟩
  · rintro ⟨count, hmem, hq⟩
    exact ⟨count, List.mem_cons_of_mem _ hmem, hq⟩

/-- Before the first report there is the frequency of the port among all hosts only. -/
theorem scores_nil (graph : PortGraph) (port : Port) :
    scores graph [] port = {graph.baseProb port} := by
  ext q
  refine or_iff_left ?_
  rintro ⟨hit, hash, hmem, -⟩
  exact absurd hmem List.not_mem_nil

/-- A port that did not answer says nothing about the others: `record_empty` leaves the heap as it
is. -/
theorem scores_empty (hr : r.hash = none) (port : Port) :
    scores graph (past ++ [r]) port = scores graph past port := by
  have hmem : ∀ hit hash, (⟨hit, some hash⟩ : Report) ∈ firstReports (past ++ [r]) ↔
      ⟨hit, some hash⟩ ∈ firstReports past := by
    intro hit hash
    rw [firstReports_append]
    split
    · rfl
    · rw [List.mem_append, List.mem_singleton]
      -- the new report has no hash, so it is no hit
      refine or_iff_left ?_
      rintro rfl
      contradiction
  unfold scores
  simp only [hmem]

/-- The first hit of a port adds the shares of its list. Later reports of the same port add nothing,
which is why the port must be new. -/
theorem scores_hit {hash : BitVec 64} (hnot : r.port ∉ reportedPorts past) (hr : r.hash = some hash)
    (port : Port) :
    scores graph (past ++ [r]) port = scores graph past port ∪
      shares (graph.openCount r.port) (related graph r.port) port := by
  ext q
  unfold scores
  rw [firstReports_first hnot]
  constructor
  · rintro (hbase | ⟨hit, hash', hmem, hq⟩)
    · exact .inl (.inl hbase)
    · -- an earlier hit, or this one
      rcases List.mem_append.mp hmem with hmem | hmem
      · exact .inl (.inr ⟨hit, hash', hmem, hq⟩)
      · rw [List.mem_singleton] at hmem
        rw [← hmem]
        exact .inr hq
  · rintro ((hbase | ⟨hit, hash', hmem, hq⟩) | hq)
    · exact .inl hbase
    · exact .inr ⟨hit, hash', List.mem_append_left _ hmem, hq⟩
    · -- this hit is a first report
      refine .inr ⟨r.port, hash, List.mem_append_right _ ?_, hq⟩
      rw [List.mem_singleton, ← hr]

/-! ### Raising -/

namespace State

/-- `record_hit` updates the heap only if the new score is greater, so that what it stores is the
maximum. -/
theorem prob_raise (self : State) (graph : PortGraph) (baseCount : BitVec 64)
    (other : Port × BitVec 64) (port : Port) :
    (self.raise graph baseCount other).prob graph port =
      if port = other.1 then
        max ((other.2.toNat : ℚ) / (baseCount.toNat : ℚ)) (self.prob graph port)
      else self.prob graph port := by
  unfold raise
  dsimp only
  by_cases hport : port = other.1
  · rw [if_pos hport]
    subst hport
    split
    · next hgt =>
      -- the greater score is stored
      rw [max_eq_left hgt.le]
      change (Function.update self.heap.values other.1 _ other.1).getD _ = _
      rw [Function.update_self, Option.getD_some]
    · next hle => rw [max_eq_right (not_lt.mp hle)]
  · rw [if_neg hport]
    -- the heap changes at the other port at most
    split
    · change (Function.update self.heap.values other.1 _ port).getD _ = _
      rw [Function.update_of_ne hport]
      rfl
    · rfl

/-- A raise is an `update` of the heap or nothing. -/
theorem represented_raise {self : State} (h : self.heap.Represented) (graph : PortGraph)
    (baseCount : BitVec 64) (other : Port × BitVec 64) :
    (self.raise graph baseCount other).heap.Represented := by
  unfold raise
  dsimp only
  split
  · exact h.update _ _
  · exact h

/-- The loop of `record_hit` raises a score to the greatest share that it finds. -/
theorem isGreatest_foldl_raise {self : State} {S : Set ℚ} {baseCount : BitVec 64}
    (h : IsGreatest S (self.prob graph port)) (others : List (Port × BitVec 64)) :
    IsGreatest (S ∪ shares baseCount others port)
      ((others.foldl (fun self other => self.raise graph baseCount other) self).prob graph
        port) := by
  -- the scores that are known grow with the entries that were read
  induction others generalizing self S with
  | nil =>
    rw [shares_nil, Set.union_empty]
    exact h
  | cons other others ih =>
    have hraise := self.prob_raise graph baseCount other port
    rw [List.foldl_cons]
    by_cases hport : port = other.1
    · -- the share of this entry joins the others
      obtain ⟨_, count⟩ := other
      cases hport
      rw [if_pos rfl] at hraise
      have hinsert := h.insert ((count.toNat : ℚ) / (baseCount.toNat : ℚ))
      rw [← hraise] at hinsert
      rw [shares_cons_self, Set.union_insert, ← Set.insert_union]
      exact ih hinsert
    · rw [if_neg hport] at hraise
      rw [← hraise] at h
      rw [shares_cons_of_ne _ _ hport]
      exact ih h

theorem represented_foldl_raise {self : State} (h : self.heap.Represented) (graph : PortGraph)
    (baseCount : BitVec 64) (others : List (Port × BitVec 64)) :
    (others.foldl (fun self other => self.raise graph baseCount other) self).heap.Represented :=
  List.foldlRecOn (motive := fun state : State => state.heap.Represented) others _ h
    fun _ hstate other _ => represented_raise hstate graph baseCount other

/-- What `record_hit` does unless the host is a honeypot. -/
theorem recordHit_of_false {self : State} {hash : BitVec 64}
    (h : (self.recordHit graph port hash).1 = false) :
    (self.recordHit graph port hash).2 =
      (related graph port).foldl (fun self other => self.raise graph (graph.openCount port) other)
        { self with
          triedPorts := insert port self.triedPorts
          seenResponses := Function.update self.seenResponses hash
            (some ((self.seenResponses hash).getD 0 + 1)) } := by
  unfold recordHit related at *
  dsimp only at *
  -- a honeypot returns `true`
  split at h
  · contradiction
  · next hlt =>
    rw [if_neg hlt]
    -- without a list, or with a count of zero, there is nothing to raise
    cases graph.coOccurring port with
    | none => rw [Option.getD_none, ite_self, List.foldl_nil]
    | some coOccurring =>
      dsimp only
      split
      · rfl
      · rfl

/-! ### The two loops of `next_port` -/

/-- The first loop passes only ports that were tried. -/
theorem skipTried_passes {tried : Finset Port} {fuel index i : ℕ} (hindex : index ≤ i)
    (hi : i < skipTried graph tried fuel index) (hport : graph.recommendAt i = some port) :
    port ∈ tried := by
  induction fuel generalizing index with
  | zero =>
    rw [skipTried] at hi
    omega
  | succ fuel ih =>
    rw [skipTried] at hi
    split at hi
    · next p hp =>
      split at hi
      · -- the index moves on past a port that was tried
        next hmem =>
        -- the port itself, or one that the rest of the loop passes
        rcases hindex.eq_or_lt with rfl | hlt
        · rw [hport] at hp
          rwa [Option.some.inj hp]
        · exact ih hlt hi
      · omega
    · omega

/-- The second loop leaves the scores of ports that were not tried. -/
theorem popTried_spec (tried : Finset Port) (fuel : ℕ) {heap : LazyHeap Port ℚ}
    (h : heap.Represented) :
    (popTried tried fuel heap).Represented ∧
      ∀ port ∉ tried, (popTried tried fuel heap).values port = heap.values port := by
  induction fuel generalizing heap with
  | zero => exact ⟨h, fun _ _ => rfl⟩
  | succ fuel ih =>
    -- a turn looks at the top of the cleaned heap
    have htop : heap.top = (heap.top.1, heap.cleaned) := rfl
    rw [popTried, htop]
    cases hfirst : heap.top.1 with
    | none => exact ⟨h.cleaned, fun _ _ => rfl⟩
    | some p =>
      dsimp only
      split
      · -- the port on top was tried: its score is dropped
        next hmem =>
        rw [LazyHeap.pop_cleaned]
        obtain ⟨hrepresented, hvalues⟩ := ih h.pop
        refine ⟨hrepresented, fun port hport => ?_⟩
        rw [hvalues port hport]
        refine LazyHeap.values_pop_of_ne hfirst ?_
        rintro rfl
        exact hport hmem
      · exact ⟨h.cleaned, fun _ _ => rfl⟩

end State

/-! ### The state of a host -/

/-- The heap is sound, and the score of a port that was not tried is the greatest there is. -/
structure Greedy (graph : PortGraph) (past : List Report) (state : State) : Prop where
  heap : state.heap.Represented
  scored : ∀ port ∉ state.triedPorts,
    IsGreatest (scores graph past port) (state.prob graph port)

/-- The recommendations before the index were tried. -/
def Passed (graph : PortGraph) (state : State) : Prop :=
  ∀ i < state.recommendationIndex, ∀ port, graph.recommendAt i = some port →
    port ∈ state.triedPorts

/-- What `next_port` should return: a port that was not tried and has the greatest score of all such
ports, or none if neither the list nor the heap has a port that was not tried. -/
def Best (graph : PortGraph) (state : State) : Option Port → Prop
  | some port => port ∉ state.triedPorts ∧
    ∀ other ∉ state.triedPorts, state.prob graph other ≤ state.prob graph port
  | none => (∀ port ∈ graph.recommendations, port ∈ state.triedPorts) ∧
    ∀ port, state.heap.query port ≠ none → port ∈ state.triedPorts

variable {state : State}

/-- The frequency among all hosts is one of the scores, so the greatest is not below it. -/
theorem Greedy.baseProb_le (h : Greedy graph past state) (hport : port ∉ state.triedPorts) :
    graph.baseProb port ≤ state.prob graph port :=
  (h.scored port hport).2 (.inl rfl)

/-- A port that did not answer leaves the scores and the heap, and is one port less to speak
about. -/
theorem Greedy.recordEmpty (h : Greedy graph past state) (hr : r.hash = none) :
    Greedy graph (past ++ [r]) (state.recordEmpty r.port) where
  heap := h.heap
  scored := by
    intro port hport
    rw [scores_empty hr]
    exact h.scored port fun hmem => hport (Finset.mem_insert_of_mem hmem)

/-- A hit raises the scores by just the shares that it adds to what is known. `record_hit` returns
`false`: at a honeypot it stops before it has raised anything. -/
theorem Greedy.recordHit (h : Greedy graph past state)
    (htried : state.triedPorts = reportedPorts past) (hnot : r.port ∉ state.triedPorts)
    {hash : BitVec 64} (hr : r.hash = some hash)
    (hfalse : (state.recordHit graph r.port hash).1 = false) :
    Greedy graph (past ++ [r]) (state.recordHit graph r.port hash).2 := by
  have htried' : (state.recordHit graph r.port hash).2.triedPorts =
      insert r.port state.triedPorts := by
    obtain ⟨heap, hframe⟩ := state.recordHit_frame graph r.port hash
    rw [hframe]
  rw [htried] at hnot
  constructor
  · -- every raise is an update of the heap
    rw [State.recordHit_of_false hfalse]
    refine State.represented_foldl_raise ?_ _ _ _
    exact h.heap
  · -- the loop over the list takes the maximum of its shares
    intro port hport
    rw [htried'] at hport
    rw [scores_hit hnot hr, State.recordHit_of_false hfalse]
    refine State.isGreatest_foldl_raise ?_ _
    exact h.scored port fun hmem => hport (Finset.mem_insert_of_mem hmem)

/-- The state that `next_port` leaves. -/
theorem nextPort_snd (state : State) (graph : PortGraph) :
    (state.nextPort graph).2 =
      { state with
        recommendationIndex := State.skipTried graph state.triedPorts graph.recommendations.length
          state.recommendationIndex
        heap := (State.popTried state.triedPorts state.heap.current.length
          state.heap).cleaned } := by
  unfold State.nextPort
  dsimp only
  split
  all_goals rfl

/-- The loop over the heap drops scores of tried ports only. -/
theorem Greedy.prob_nextPort (h : Greedy graph past state) (hport : port ∉ state.triedPorts) :
    (state.nextPort graph).2.prob graph port = state.prob graph port := by
  obtain ⟨-, hvalues⟩ := State.popTried_spec state.triedPorts state.heap.current.length h.heap
  rw [nextPort_snd]
  change ((State.popTried state.triedPorts state.heap.current.length
    state.heap).values port).getD _ = _
  rw [hvalues port hport]
  rfl

/-- `next_port` pops only ports that were tried, about which nothing is said. -/
theorem Greedy.nextPort (h : Greedy graph past state) :
    Greedy graph past (state.nextPort graph).2 := by
  constructor
  · rw [nextPort_snd]
    exact (State.popTried_spec state.triedPorts state.heap.current.length h.heap).1.cleaned
  · intro port hport
    have huntried : port ∉ state.triedPorts := by rwa [nextPort_snd] at hport
    rw [h.prob_nextPort huntried]
    exact h.scored port huntried

/-- The index moves on over ports that were tried only. -/
theorem Passed.nextPort (h : Passed graph state) : Passed graph (state.nextPort graph).2 := by
  rw [nextPort_snd]
  intro i hi port hport
  rcases Nat.lt_or_ge i state.recommendationIndex with hlt | hge
  · exact h i hlt port hport
  · exact State.skipTried_passes hge hi hport

/-! ### The choice

What the heap and the list have to offer. -/

theorem prob_of_some {value : ℚ} (h : state.heap.values port = some value) :
    state.prob graph port = value := by
  rw [State.prob, LazyHeap.query, h, Option.getD_some]

theorem prob_of_none (h : state.heap.values port = none) :
    state.prob graph port = graph.baseProb port := by
  rw [State.prob, LazyHeap.query, h, Option.getD_none]

/-- What is on top of the heap after the loop was not tried, and its score is the greatest of those
in the heap. -/
theorem Greedy.fromHeap_some (h : Greedy graph past state)
    (htop : (State.popTried state.triedPorts state.heap.current.length state.heap).top.1 =
      some port) :
    port ∉ state.triedPorts ∧ ∀ other ∉ state.triedPorts, ∀ value,
      state.heap.values other = some value → value ≤ state.prob graph port := by
  obtain ⟨hrepresented, hvalues⟩ := State.popTried_spec state.triedPorts
    state.heap.current.length h.heap
  have huntried : port ∉ state.triedPorts := State.popTried_untried (Nat.le_refl _) htop
  -- popping tried ports leaves the values of the others, and the top is the greatest of them
  obtain ⟨greatest, hgreatest, hle⟩ := hrepresented.top_some htop
  rw [hvalues port huntried] at hgreatest
  refine ⟨huntried, fun other hother value hvalue => ?_⟩
  rw [prob_of_some hgreatest]
  refine hle other value ?_
  rw [hvalues other hother, hvalue]

/-- An empty heap after the loop has no port that was not tried. -/
theorem Greedy.fromHeap_none (h : Greedy graph past state)
    (htop : (State.popTried state.triedPorts state.heap.current.length state.heap).top.1 = none) :
    ∀ other ∉ state.triedPorts, state.heap.values other = none := by
  obtain ⟨hrepresented, hvalues⟩ := State.popTried_spec state.triedPorts
    state.heap.current.length h.heap
  intro other hother
  rw [← hvalues other hother]
  exact hrepresented.top_none htop other

/-- The next port of the ranking that was not tried is the most frequent one, since everything
before it was tried. -/
theorem Passed.fromList_some (h : Passed graph state) (hranked : graph.Ranked)
    (hlist : graph.recommendAt (State.skipTried graph state.triedPorts
      graph.recommendations.length state.recommendationIndex) = some port) :
    port ∉ state.triedPorts ∧
      ∀ other ∉ state.triedPorts, graph.baseProb other ≤ graph.baseProb port := by
  refine ⟨State.skipTried_untried (Nat.le_add_left _ _) hlist, fun other hother => ?_⟩
  refine hranked.order _ _ hlist other fun j hj hrecommend => hother ?_
  have hpassed := h.nextPort
  rw [nextPort_snd] at hpassed
  exact hpassed j hj other hrecommend

/-- At the end of the ranking all of it was tried. -/
theorem Passed.fromList_none (h : Passed graph state)
    (hlist : graph.recommendAt (State.skipTried graph state.triedPorts
      graph.recommendations.length state.recommendationIndex) = none) :
    ∀ other ∈ graph.recommendations, other ∈ state.triedPorts := by
  intro other hother
  obtain ⟨j, hj⟩ := List.getElem?_of_mem hother
  have hlength := List.getElem?_eq_none_iff.mp hlist
  obtain ⟨hjlt, -⟩ := List.getElem?_eq_some_iff.mp hj
  have hpassed := h.nextPort
  rw [nextPort_snd] at hpassed
  exact hpassed j (hjlt.trans_le hlength) other hj

/-- An untried port is scored by the heap or by the list, and each has a port at least as good. -/
theorem Greedy.prob_le_max (h : Greedy graph past state) (hpassed : Passed graph state)
    (hranked : graph.Ranked) {a b : Port}
    (ha : (State.popTried state.triedPorts state.heap.current.length state.heap).top.1 = some a)
    (hb : graph.recommendAt (State.skipTried graph state.triedPorts
      graph.recommendations.length state.recommendationIndex) = some b)
    (hport : port ∉ state.triedPorts) :
    state.prob graph port ≤ max (state.prob graph a) (state.prob graph b) := by
  -- a port with a value is in the heap, and any other is judged by the list
  cases hvalue : state.heap.values port with
  | some value =>
    rw [prob_of_some hvalue]
    exact le_max_of_le_left ((h.fromHeap_some ha).2 port hport value hvalue)
  | none =>
    obtain ⟨hbtried, hlist⟩ := hpassed.fromList_some hranked hb
    rw [prob_of_none hvalue]
    exact le_max_of_le_right ((hlist port hport).trans (h.baseProb_le hbtried))

/-- A port that is not in the heap has its frequency as score, and of those the ranking gives the
greatest; of the ones in the heap its top does. So the better of the two is the best of all, and the
cases are which of the two there are. -/
theorem State.nextPort_best (hranked : graph.Ranked) (h : Greedy graph past state)
    (hpassed : Passed graph state) : Best graph state (state.nextPort graph).1 := by
  -- `next_port` looks the scores up after the two loops
  have hprob : ∀ port ∉ state.triedPorts,
      (state.nextPort graph).2.prob graph port = state.prob graph port :=
    fun port hport => h.prob_nextPort hport
  rw [nextPort_snd] at hprob
  unfold State.nextPort
  dsimp only
  split
  · -- the top of the heap against the next recommendation
    next a b ha hb =>
    have hatried := (h.fromHeap_some ha).1
    have hbtried := (hpassed.fromList_some hranked hb).1
    have hcompare : ∀ other ∉ state.triedPorts,
        state.prob graph other ≤ max (state.prob graph a) (state.prob graph b) :=
      fun other hother => h.prob_le_max hpassed hranked ha hb hother
    change Best graph state (some (if State.prob _ graph a > State.prob _ graph b then a else b))
    rw [show (popTried state.triedPorts state.heap.current.length state.heap).top.2 =
      (popTried state.triedPorts state.heap.current.length state.heap).cleaned from rfl,
      hprob a hatried, hprob b hbtried]
    -- the source takes the port with the greater score, and the ranking at a tie
    split
    · next hgt =>
      rw [max_eq_left hgt.le] at hcompare
      exact ⟨hatried, hcompare⟩
    · next hle =>
      rw [max_eq_right (not_lt.mp hle)] at hcompare
      exact ⟨hbtried, hcompare⟩
  · -- all recommendations were tried, and the frequency of all other ports is zero
    next a ha hb =>
    obtain ⟨hatried, hheap⟩ := h.fromHeap_some ha
    refine ⟨hatried, fun other hother => ?_⟩
    cases hvalue : state.heap.values other with
    | some value =>
      rw [prob_of_some hvalue]
      exact hheap other hother value hvalue
    | none =>
      have hunlisted : other ∉ graph.recommendations :=
        fun hmem => hother (hpassed.fromList_none hb other hmem)
      rw [prob_of_none hvalue, hranked.unlisted other hunlisted]
      exact (graph.baseProb_nonneg a).trans (h.baseProb_le hatried)
  · -- the heap has no port that was not tried
    next b ha hb =>
    obtain ⟨hbtried, hlist⟩ := hpassed.fromList_some hranked hb
    refine ⟨hbtried, fun other hother => ?_⟩
    rw [prob_of_none (h.fromHeap_none ha other hother)]
    exact (hlist other hother).trans (h.baseProb_le hbtried)
  · next ha hb =>
    -- neither: all recommendations were tried, and so was what is in the heap
    refine ⟨hpassed.fromList_none hb, fun port hquery => ?_⟩
    by_contra hport
    exact hquery (h.fromHeap_none ha port hport)

/-! ### Along the reports -/

/-- Only `next_port` changes what it reads. -/
theorem choosePort_snd (self : PmapPortAdapter) (draws : HostDraws) (state : State) :
    (self.choosePort draws state).2 = state ∨
      (self.choosePort draws state).2 = (state.nextPort self.graph).2 := by
  unfold choosePort
  split
  · exact .inl rfl
  · right
    rcases state.nextPort self.graph with ⟨_ | port, state'⟩
    · rfl
    · rfl

variable {self : PmapPortAdapter} {addr : Ipv4Addr} {s : HostScan}

theorem recommendationIndex_recordResult (self : PmapPortAdapter) (port : Port)
    (hash : Option (BitVec 64)) (state : State) :
    (self.recordResult port hash state).2.recommendationIndex = state.recommendationIndex := by
  cases hash with
  | none => rfl
  | some hash =>
    obtain ⟨heap, hframe⟩ := state.recordHit_frame self.graph port hash
    rw [recordResult, hframe]

theorem Greedy.recorded (h : Greedy self.graph past state)
    (htried : state.triedPorts = reportedPorts past) (hnot : r.port ∉ state.triedPorts)
    (hfalse : (self.recordResult r.port r.hash state).1 = false) :
    Greedy self.graph (past ++ [r]) (self.recorded r.port r.hash state) := by
  have hresult : Greedy self.graph (past ++ [r]) (self.recordResult r.port r.hash state).2 := by
    cases hhash : r.hash with
    | none => exact h.recordEmpty hhash
    | some hash =>
      rw [hhash] at hfalse
      exact h.recordHit htried hnot hhash hfalse
  exact ⟨hresult.heap, hresult.scored⟩

/-- The states of a host with these reports. Before the first report, the recommendation that the
index has passed was issued. -/
structure GreedyScan (adapter : PmapPortAdapter) (addr : Ipv4Addr) (past : List Report)
    (s : HostScan) : Prop where
  issued : Issued addr past s
  greedy : ∀ state, s.state addr = some state → Greedy adapter.graph past state
  passed : ∀ state, s.state addr = some state →
    ∀ i < state.recommendationIndex, ∀ port, adapter.graph.recommendAt i = some port →
      port ∈ state.triedPorts ∨ past = [] ∧ port ∈ s.issued

/-- Before the first report the index may be past the first port while that was only issued. Once
there is a report it is that of the issued port. -/
theorem GreedyScan.passed_of_ne_nil (h : GreedyScan self addr past s)
    (hstate : s.state addr = some state) (hpast : past ≠ []) : Passed self.graph state :=
  fun i hi port hport =>
    (h.passed state hstate i hi port hport).resolve_right fun hnil => hpast hnil.1

/-- At the start nothing is known of the host, and at most the first port of the ranking is
issued. -/
theorem GreedyScan.start (self : PmapPortAdapter) (addr : Ipv4Addr) (side : PortSide) :
    GreedyScan self addr [] (HostScan.start self addr side) where
  issued := Issued.start self addr side
  greedy := by
    intro state hstate
    rw [HostScan.state_start] at hstate
    cases hstate
    -- an empty heap: each port has its frequency
    refine ⟨LazyHeap.Represented.empty, fun port _ => ?_⟩
    rw [scores_nil]
    exact isGreatest_singleton
  passed := by
    intro state hstate i hi port hport
    rw [HostScan.state_start] at hstate
    cases hstate
    rw [HostScan.issued_start, List.mem_singleton]
    -- with exploitation the first recommendation is issued
    change i < if (side.rng 0).coin.1 ≥ self.epsilon then 1 else 0 at hi
    split at hi
    · next hexploit =>
      have hzero : i = 0 := by omega
      subst hzero
      refine .inr ⟨rfl, ?_⟩
      rw [firstPort, if_pos hexploit, hport, Option.getD_some]
    · omega

/-- A report that is no news leaves the scores. -/
theorem Greedy.repeated (h : Greedy graph past state) (hmem : r.port ∈ reportedPorts past) :
    Greedy graph (past ++ [r]) state where
  heap := h.heap
  scored := by
    intro port hport
    rw [scores, firstReports_repeated hmem]
    exact h.scored port hport

/-- After a report everything that the index has passed was tried. -/
theorem GreedyScan.passed_recorded (h : GreedyScan self addr past s)
    (hstate : s.state addr = some state) (hr : IssuedBefore s r)
    (hnot : r.port ∉ state.triedPorts) : Passed self.graph (self.recorded r.port r.hash state) := by
  intro i hi port hport
  change i < (self.recordResult r.port r.hash state).2.recommendationIndex at hi
  rw [recommendationIndex_recordResult] at hi
  rw [triedPorts_recorded]
  rcases h.passed state hstate i hi port hport with htried | ⟨-, hissued⟩
  · exact Finset.mem_insert_of_mem htried
  · exact (h.issued.mem_issued hstate hr hnot port).mp hissued

/-- What a report does to the state of the host, by the cases of `on_result`. -/
theorem GreedyScan.states_report (h : GreedyScan self addr past s) (hr : IssuedBefore s r)
    {t : HostScan} (hstep : HostScan.ReportStep self addr s r t) {state' : State}
    (hstate' : t.state addr = some state') :
    Greedy self.graph (past ++ [r]) state' ∧ Passed self.graph state' := by
  cases hstep with
  | absent hstate =>
    rw [hstate] at hstate'
    contradiction
  | @tried state hstate hmem =>
    obtain rfl : state = state' := Option.some.inj (hstate.symm.trans hstate')
    rw [(h.issued.present state hstate).1] at hmem
    -- a port was reported, so this is not the first report
    have hpast : past ≠ [] := by
      rintro rfl
      exact absurd hmem (Finset.notMem_empty _)
    exact ⟨(h.greedy state hstate).repeated hmem, h.passed_of_ne_nil hstate hpast⟩
  -- the host is done, and has no state
  | ends _ _ _ hremoved =>
    rw [hremoved] at hstate'
    contradiction
  | @next state _ draws next t hstate hnot hhoneypot _ hnext hstate'' =>
    rw [hstate''] at hstate'
    cases hstate'
    have hrecorded := (h.greedy state hstate).recorded (h.issued.present state hstate).1 hnot
      hhoneypot
    have hpassed := h.passed_recorded hstate hr hnot
    -- exploring leaves the state, and `next_port` pops only ports that were tried
    rcases self.choosePort_snd draws (self.recorded r.port r.hash state) with hsame | hsame
    · rw [hnext] at hsame
      cases hsame
      exact ⟨hrecorded, hpassed⟩
    · rw [hnext] at hsame
      cases hsame
      exact ⟨hrecorded.nextPort, hpassed.nextPort⟩

theorem GreedyScan.report (h : GreedyScan self addr past s) (hr : IssuedBefore s r) :
    GreedyScan self addr (past ++ [r]) (s.report self addr r) where
  issued := h.issued.report hr (s.report_cases self addr r)
  greedy := fun _ hstate => (h.states_report hr (s.report_cases self addr r) hstate).1
  passed := fun _ hstate i hi port hport =>
    .inl ((h.states_report hr (s.report_cases self addr r) hstate).2 i hi port hport)

/-- The scores in terms of the counts. -/
theorem scores_fromCounts {sort : PortGraph.CountSort} {singles : PortGraph.Singles}
    {coBannerCounts : PortGraph.Doubles} {totalAddresses : BitVec 64} {seedPorts : List Port}
    {threshold : BitVec 8}
    (hgraph : graph = .fromCounts sort singles coBannerCounts totalAddresses seedPorts threshold)
    (reports : List Report) (port : Port) :
    scores graph reports port =
      {q | q = graph.baseProb port ∨
        ∃ hit hash count, ⟨hit, some hash⟩ ∈ firstReports reports ∧ graph.openCount hit ≠ 0 ∧
          coBannerCounts.lookup (hit, port) = some count ∧
          q = (count.toNat : ℚ) / ((graph.openCount hit).toNat : ℚ)} := by
  -- the list of a hit is made of the pairs of the second query
  have hrelated (hit : Port) (count : BitVec 64) : (port, count) ∈ related graph hit ↔
      graph.openCount hit ≠ 0 ∧ coBannerCounts.lookup (hit, port) = some count := by
    rw [related]
    split
    · next hzero => exact iff_of_false List.not_mem_nil fun h => h.1 hzero
    · next hne =>
      rw [hgraph, PortGraph.mem_coOccurring_fromCounts, ← hgraph]
      exact (and_iff_right hne).symm
  ext q
  refine or_congr Iff.rfl ?_
  constructor
  · rintro ⟨hit, hash, hmem, count, hcount, hq⟩
    exact ⟨hit, hash, count, hmem, ((hrelated hit count).mp hcount).1,
      ((hrelated hit count).mp hcount).2, hq⟩
  · rintro ⟨hit, hash, count, hmem, hne, hcount, hq⟩
    exact ⟨hit, hash, hmem, count, (hrelated hit count).mpr ⟨hne, hcount⟩, hq⟩

/-- **The greedy choice is optimal.** Whatever the counts from which the graph was built, in every
state that reports about issued ports lead to, the score of a port that was not tried is the
greatest of its frequency and its frequencies together with each port whose first report was a hit.
Once there was a result, `next_port` returns a port with the greatest score among those that were
not tried, or none if the recommendations and the heap have no such port. -/
theorem nextPort_greedy (sort : PortGraph.CountSort) (singles : PortGraph.Singles)
    (coBannerCounts : PortGraph.Doubles) (totalAddresses : BitVec 64) (seedPorts : List Port)
    (threshold : BitVec 8) (self : PmapPortAdapter)
    (hgraph : self.graph =
      .fromCounts sort singles coBannerCounts totalAddresses seedPorts threshold)
    (addr : Ipv4Addr) (side : PortSide) (reports : List Report)
    (h : Run.Along (HostScan.report self addr) IssuedBefore (HostScan.start self addr side) reports)
    (state : State)
    (hstate : (reports.foldl (HostScan.report self addr) (HostScan.start self addr side)).state
      addr = some state) :
    (∀ port ∉ state.triedPorts,
      IsGreatest
        {q | q = self.graph.baseProb port ∨
          ∃ hit hash count, ⟨hit, some hash⟩ ∈ firstReports reports ∧
            self.graph.openCount hit ≠ 0 ∧ coBannerCounts.lookup (hit, port) = some count ∧
            q = (count.toNat : ℚ) / ((self.graph.openCount hit).toNat : ℚ)}
        (state.prob self.graph port)) ∧
    (reports ≠ [] → Best self.graph state (state.nextPort self.graph).1) := by
  -- the invariant over all reports, from the state of a new host
  have hscan : GreedyScan self addr reports
      (reports.foldl (HostScan.report self addr) (HostScan.start self addr side)) :=
    h.rule (I := GreedyScan self addr) (fun _ _ _ hr hs => hs.report hr)
      (GreedyScan.start self addr side)
  have hgreedy := hscan.greedy state hstate
  constructor
  · intro port hport
    rw [← scores_fromCounts hgraph]
    exact hgreedy.scored port hport
  · intro hreports
    -- `from_counts` sorts the ranking by frequency
    have hranked : self.graph.Ranked := by
      rw [hgraph]
      exact PortGraph.ranked_fromCounts
    exact State.nextPort_best hranked hgreedy (hscan.passed_of_ne_nil hstate hreports)

/-! ### A small history -/

/-- By falling counts. -/
def fallingCounts (a b : Port × BitVec 64) : Prop :=
  b.2 ≤ a.2

instance : DecidableRel fallingCounts :=
  fun a b => inferInstanceAs (Decidable (b.2 ≤ a.2))

instance : Std.Total fallingCounts :=
  ⟨fun a b => BitVec.le_total b.2 a.2⟩

instance : IsTrans (Port × BitVec 64) fallingCounts :=
  ⟨fun _ _ _ hab hbc => BitVec.le_trans hbc hab⟩

/-- Insertion sort. -/
def insertionCounts : PortGraph.CountSort where
  sort := List.insertionSort fallingCounts
  perm := List.perm_insertionSort fallingCounts
  sorted := List.pairwise_insertionSort fallingCounts

/-- Port 80 was open on five of ten hosts, on three of them together with 443. -/
def webGraph : PortGraph :=
  .fromCounts insertionCounts (AList.insert 80 5 ∅) (AList.insert (80, 443) 3 ∅) 10 [] 3

/-- A strategy that never explores, with this history. -/
def webAdapter : PmapPortAdapter where
  graph := webGraph
  epsilon := 0
  budgetPerAddress := 3
  sourcePort := .single 61000

/-- A host that answers at port 80 is asked at 443 next, the port that most of the hosts with 80
have too. -/
theorem nextPort_greedy_web :
    ∃ state, (HostScan.report webAdapter 1 (HostScan.start webAdapter 1 singleSide)
        ⟨80, some 1⟩).state 1 = some state ∧ (state.nextPort webGraph).1 = some 443 ∧
      Best webGraph state (state.nextPort webGraph).1 := by
  have halong : Run.Along (HostScan.report webAdapter 1) IssuedBefore
      (HostScan.start webAdapter 1 singleSide) [⟨80, some 1⟩] := ⟨.head _, trivial⟩
  have hnext : ((HostScan.report webAdapter 1 (HostScan.start webAdapter 1 singleSide)
      ⟨80, some 1⟩).state 1).map (fun state => (state.nextPort webGraph).1) = some (some 443) := by
    decide +kernel
  obtain ⟨state, hstate, hport⟩ := Option.map_eq_some_iff.mp hnext
  refine ⟨state, hstate, hport, ?_⟩
  exact (nextPort_greedy insertionCounts _ _ 10 [] 3 webAdapter rfl 1 singleSide [⟨80, some 1⟩]
    halong state hstate).2 (List.cons_ne_nil _ _)

/-- Before the first result the index has passed a port that was not tried. And a hit of port 80
after an empty report raises nothing, although 443 was open on three of its five hosts. -/
theorem nextPort_misses :
    (∃ state, (HostScan.start webAdapter 1 singleSide).state 1 = some state ∧
      (state.nextPort webGraph).1 = none ∧ 80 ∈ webGraph.recommendations ∧
      80 ∉ state.triedPorts) ∧
    ∃ state, ([⟨80, none⟩, ⟨80, some 1⟩].foldl (HostScan.report webAdapter 1)
        (HostScan.start webAdapter 1 singleSide)).state 1 = some state ∧
      443 ∉ state.triedPorts ∧ (443, 3) ∈ related webGraph 80 ∧
      state.prob webGraph 443 < 3 / ((webGraph.openCount 80).toNat : ℚ) := by
  constructor
  · -- before the first report
    refine ⟨_, HostScan.state_start _ _ _, ?_⟩
    decide +kernel
  · -- a port that was reported without a banner is tried, so its banner comes too late
    have hstate : (([⟨80, none⟩, ⟨80, some 1⟩].foldl (HostScan.report webAdapter 1)
        (HostScan.start webAdapter 1 singleSide)).state 1).map (fun state =>
          decide (443 ∉ state.triedPorts ∧ (443, 3) ∈ related webGraph 80 ∧
            state.prob webGraph 443 < 3 / ((webGraph.openCount 80).toNat : ℚ))) = some true := by
      decide +kernel
    obtain ⟨state, hstate, hmisses⟩ := Option.map_eq_some_iff.mp hstate
    exact ⟨state, hstate, of_decide_eq_true hmisses⟩

end PmapPortAdapter

end Farsight
