import Farsight.Strategy.Heap
import Mathlib.Algebra.Order.Field.Basic
import Mathlib.Algebra.Order.Ring.Rat
import Mathlib.Data.Finset.Card
import Mathlib.Data.Finset.Image
import Mathlib.Data.List.AList
import Mathlib.Data.Nat.Cast.Order.Ring

/-!
# The port graph

`PortGraph` is what the history says about ports: how often each was open, how often two were open
on the same host, and the order in which to try them when nothing is known about a host. Frequencies
are exact rationals.

A graph is built from counts (`fromCounts`). The ports with a count come first in its order, those
with a greater count before the others (`Ranked`).

The generator draws ports until one comes that has not been tried (`explore`). `PortDraws` is what
it draws from some moment on: any sequence of ports in which every port comes at some time, so that
the loop ends.
-/

namespace Farsight

open Machine

/-- A port. -/
abbrev Port := BitVec 16

/-- What `random_range(1u16..=65535)` returns from some moment on. -/
structure PortDraws where
  draw : ℕ → Port
  ne_zero : ∀ n, draw n ≠ 0
  covers : ∀ port, port ≠ 0 → ∃ n, draw n = port

/-- As long as fewer than 65535 ports were tried, some draw has not been. -/
theorem PortDraws.exists_untried (draws : PortDraws) {tried : Finset Port}
    (h : ¬ 65535 ≤ tried.card) : ∃ n, draws.draw n ∉ tried := by
  by_contra hall
  apply h
  -- every port but 0 was tried
  let ports : Finset Port := (Finset.range 65535).image fun n => BitVec.ofNat 16 (n + 1)
  have hsub : ports ⊆ tried := by
    intro port hport
    obtain ⟨n, hn, rfl⟩ := Finset.mem_image.mp hport
    have hne : BitVec.ofNat 16 (n + 1) ≠ 0 := by
      intro heq
      have := congrArg BitVec.toNat heq
      rw [Finset.mem_range] at hn
      rw [BitVec.toNat_ofNat, Nat.mod_eq_of_lt (by omega)] at this
      exact absurd this (Nat.succ_ne_zero n)
    obtain ⟨k, hk⟩ := draws.covers _ hne
    by_contra hnot
    exact hall ⟨k, hk ▸ hnot⟩
  have hcard : ports.card = 65535 := by
    rw [Finset.card_image_of_injOn, Finset.card_range]
    intro a ha b hb heq
    have heq' : (BitVec.ofNat 16 (a + 1)).toNat = (BitVec.ofNat 16 (b + 1)).toNat :=
      congrArg BitVec.toNat heq
    rw [Finset.mem_coe, Finset.mem_range] at ha hb
    rw [BitVec.toNat_ofNat, BitVec.toNat_ofNat, Nat.mod_eq_of_lt (by omega),
      Nat.mod_eq_of_lt (by omega)] at heq'
    omega
  exact hcard ▸ Finset.card_le_card hsub

/-- A generator that counts the ports up. -/
def PortDraws.counting : PortDraws where
  draw := fun n => BitVec.ofNat 16 (n % 65535 + 1)
  ne_zero := by
    intro n h
    have hmod := congrArg BitVec.toNat h
    rw [BitVec.toNat_ofNat] at hmod
    have hzero : (0 : BitVec 16).toNat = 0 := rfl
    omega
  covers := by
    intro port hport
    refine ⟨port.toNat - 1, ?_⟩
    have hpos : port.toNat ≠ 0 := fun h => hport (BitVec.eq_of_toNat_eq h)
    apply BitVec.eq_of_toNat_eq
    rw [BitVec.toNat_ofNat]
    omega

/-- `PortGraph`. A map that is iterated over is a list of its entries. -/
structure PortGraph where
  singles : Port → Option (BitVec 64)
  doubles : Port → Option (List (Port × BitVec 64))
  total : BitVec 64
  recommendations : List Port
  threshold : BitVec 8

namespace PortGraph

/-- `PortGraph::base_prob`. -/
def baseProb (self : PortGraph) (port : Port) : ℚ :=
  (((self.singles port).getD 0).toNat : ℚ) / (self.total.toNat : ℚ)

/-- `PortGraph::co_occurring`. -/
def coOccurring (self : PortGraph) (port : Port) : Option (List (Port × BitVec 64)) :=
  self.doubles port

/-- `PortGraph::open_count`. -/
def openCount (self : PortGraph) (port : Port) : BitVec 64 :=
  (self.singles port).getD 0

/-- `PortGraph::recommend_at`. -/
def recommendAt (self : PortGraph) (index : ℕ) : Option Port :=
  self.recommendations[index]?

/-- `PortGraph::explore`. -/
def explore (tried : Finset Port) (draws : PortDraws) : Option Port :=
  if h : 65535 ≤ tried.card then none
  else some (draws.draw (Nat.find (draws.exists_untried h)))

/-- `PortGraph::explore_empty`. -/
def exploreEmpty (draws : PortDraws) : Port :=
  draws.draw 0

/-! ### From counts to a graph -/

/-- `sort_unstable_by(|a, b| b.1.cmp(&a.1))`: some order by falling counts. -/
structure CountSort where
  sort : List (Port × BitVec 64) → List (Port × BitVec 64)
  perm : ∀ l, (sort l).Perm l
  sorted : ∀ l, (sort l).Pairwise fun a b => b.2 ≤ a.2

/-- Counts of single ports. The order of the list is that of an iteration over the map. -/
abbrev Singles := AList fun _ : Port => BitVec 64

/-- Counts of pairs of ports. -/
abbrev Doubles := AList fun _ : Port × Port => BitVec 64

/-- `doubles.entry(i).or_default().insert(j, count)`. -/
def insertDouble (doubles : Port → Option (List (Port × BitVec 64)))
    (entry : Σ _ : Port × Port, BitVec 64) : Port → Option (List (Port × BitVec 64)) :=
  let i := entry.1.1
  let j := entry.1.2
  Function.update doubles i
    (some (((doubles i).getD []).filter (fun other => other.1 ≠ j) ++ [(j, entry.2)]))

/-- The ports with a count, in the order of the sort. -/
def ordered (sort : CountSort) (singles : Singles) : List (Port × BitVec 64) :=
  sort.sort (singles.entries.map fun entry => (entry.1, entry.2))

/-- `PortGraph::from_counts`. -/
def fromCounts (sort : CountSort) (singles : Singles) (coBannerCounts : Doubles)
    (totalAddresses : BitVec 64) (seedPorts : List Port) (threshold : BitVec 8) : PortGraph where
  singles := fun port => singles.lookup port
  doubles := coBannerCounts.entries.foldl insertDouble fun _ => none
  total := if totalAddresses < 1 then 1 else totalAddresses
  recommendations :=
    let recommendations := (ordered sort singles).map Prod.fst
    recommendations ++ seedPorts.filter fun port => port ∉ recommendations
  threshold

/-- The pairs with a first port are what its map has. -/
theorem mem_foldl_insertDouble {entries : List (Σ _ : Port × Port, BitVec 64)}
    (hkeys : entries.NodupKeys) (i j : Port) (count : BitVec 64) :
    (j, count) ∈ ((entries.foldl insertDouble fun _ => none) i).getD [] ↔
      ⟨(i, j), count⟩ ∈ entries := by
  -- entry by entry, from the front as the loop does
  induction entries using List.reverseRecOn with
  | nil => exact iff_of_false List.not_mem_nil List.not_mem_nil
  | append_singleton entries entry ih =>
    rw [List.nodupKeys_iff_pairwise, List.pairwise_append] at hkeys
    obtain ⟨hkeys, -, hfresh⟩ := hkeys
    have ih := ih (List.nodupKeys_iff_pairwise.mpr hkeys)
    obtain ⟨⟨i', j'⟩, count'⟩ := entry
    rw [List.foldl_append, List.foldl_cons, List.foldl_nil, List.mem_append, List.mem_singleton]
    by_cases hi : i = i'
    · subst hi
      rw [insertDouble, Function.update_self, Option.getD_some, List.mem_append, List.mem_filter,
        ih, List.mem_singleton, decide_eq_true_eq]
      -- an older entry with the same two ports would be replaced, but keys are distinct
      have hother : (⟨(i, j), count⟩ : Σ _ : Port × Port, BitVec 64) ∈ entries → j ≠ j' := by
        rintro hmem rfl
        exact hfresh _ hmem _ (List.mem_singleton_self _) rfl
      refine or_congr (and_iff_left_of_imp hother) ?_
      constructor
      · rintro ⟨⟩
        rfl
      · rintro ⟨⟩
        rfl
    · rw [insertDouble, Function.update_of_ne hi, ih]
      refine (or_iff_left ?_).symm
      rintro ⟨⟩
      exact hi rfl

/-! ### The order of the recommendations -/

theorem baseProb_nonneg (graph : PortGraph) (port : Port) : 0 ≤ graph.baseProb port :=
  div_nonneg (Nat.cast_nonneg _) (Nat.cast_nonneg _)

/-- The recommendations are ordered by what is known about them, and nothing is known about the
others. -/
structure Ranked (graph : PortGraph) : Prop where
  order : ∀ i port, graph.recommendAt i = some port →
    ∀ other, (∀ j < i, graph.recommendAt j ≠ some other) →
      graph.baseProb other ≤ graph.baseProb port
  unlisted : ∀ other, other ∉ graph.recommendations → graph.baseProb other = 0

theorem mem_ordered {sort : CountSort} {singles : Singles} {port : Port} {count : BitVec 64} :
    (port, count) ∈ ordered sort singles ↔ singles.lookup port = some count := by
  rw [ordered, (sort.perm _).mem_iff, List.mem_map]
  constructor
  · rintro ⟨⟨port', count'⟩, hmem, heq⟩
    cases heq
    exact AList.mem_lookup_iff.mpr hmem
  · intro hlookup
    exact ⟨⟨port, count⟩, AList.mem_lookup_iff.mp hlookup, rfl⟩

section FromCounts

variable {sort : CountSort} {singles : Singles} {coBannerCounts : Doubles}
variable {totalAddresses : BitVec 64} {seedPorts : List Port} {threshold : BitVec 8}

theorem mem_coOccurring_fromCounts {i j : Port} {count : BitVec 64} :
    (j, count) ∈ ((fromCounts sort singles coBannerCounts totalAddresses seedPorts
        threshold).coOccurring i).getD [] ↔ coBannerCounts.lookup (i, j) = some count :=
  (mem_foldl_insertDouble coBannerCounts.nodupKeys i j count).trans AList.mem_lookup_iff.symm

/-- A port with no count is not known at all. -/
theorem baseProb_of_not_ordered {port : Port} (h : port ∉ (ordered sort singles).map Prod.fst) :
    (fromCounts sort singles coBannerCounts totalAddresses seedPorts threshold).baseProb port =
      0 := by
  have hnone : singles.lookup port = none := by
    rw [Option.eq_none_iff_forall_ne_some]
    intro count hcount
    exact h (List.mem_map.mpr ⟨(port, count), mem_ordered.mpr hcount, rfl⟩)
  change ((((singles.lookup port).getD 0).toNat : ℕ) : ℚ) / _ = 0
  rw [hnone]
  exact zero_div _

/-- A greater count is a greater frequency. -/
theorem baseProb_le_of_count_le {port other : Port} {count count' : BitVec 64}
    (hport : (port, count) ∈ ordered sort singles) (hother : (other, count') ∈ ordered sort singles)
    (hle : count' ≤ count) :
    (fromCounts sort singles coBannerCounts totalAddresses seedPorts threshold).baseProb other ≤
      (fromCounts sort singles coBannerCounts totalAddresses seedPorts
        threshold).baseProb port := by
  change ((((singles.lookup other).getD 0).toNat : ℕ) : ℚ) / _ ≤
    ((((singles.lookup port).getD 0).toNat : ℕ) : ℚ) / _
  rw [mem_ordered.mp hport, mem_ordered.mp hother]
  exact div_le_div_of_nonneg_right (Nat.cast_le.mpr hle) (Nat.cast_nonneg _)

/-- The first recommendations are the ports with a count, in their order. -/
theorem recommendAt_fromCounts {i : ℕ} (hi : i < (ordered sort singles).length) :
    (fromCounts sort singles coBannerCounts totalAddresses seedPorts threshold).recommendAt i =
      (ordered sort singles)[i]?.map Prod.fst := by
  unfold recommendAt fromCounts
  dsimp only
  rw [List.getElem?_append_left (by rwa [List.length_map]), List.getElem?_map]

/-- A later port in the order has no greater count. -/
theorem count_le_of_ordered {i j : ℕ} {entry entry' : Port × BitVec 64}
    (hi : (ordered sort singles)[i]? = some entry)
    (hj : (ordered sort singles)[j]? = some entry') (hle : i ≤ j) : entry'.2 ≤ entry.2 := by
  rcases hle.eq_or_lt with rfl | hlt
  · rw [Option.some.inj (hi.symm.trans hj)]
  · obtain ⟨hilt, rfl⟩ := List.getElem?_eq_some_iff.mp hi
    obtain ⟨hjlt, rfl⟩ := List.getElem?_eq_some_iff.mp hj
    exact List.pairwise_iff_getElem.mp (sort.sorted _) i j hilt hjlt hlt

/-- The recommendations are in the order of their base probabilities, and a port that is not among
them has none. -/
theorem ranked_fromCounts :
    (fromCounts sort singles coBannerCounts totalAddresses seedPorts threshold).Ranked := by
  constructor
  · intro i port hport other hother
    by_cases hlisted : other ∈ (ordered sort singles).map Prod.fst
    · -- the other port has a count, and it is not before the first one
      obtain ⟨⟨_, count'⟩, hmem, rfl⟩ := List.mem_map.mp hlisted
      obtain ⟨j, hj⟩ := List.getElem?_of_mem hmem
      have hjlt : j < (ordered sort singles).length := (List.getElem?_eq_some_iff.mp hj).1
      have hle : i ≤ j := by
        by_contra hlt
        refine hother j (Nat.lt_of_not_le hlt) ?_
        rw [recommendAt_fromCounts hjlt, hj]
        rfl
      rw [recommendAt_fromCounts (hle.trans_lt hjlt), Option.map_eq_some_iff] at hport
      obtain ⟨⟨_, count⟩, hi, rfl⟩ := hport
      exact baseProb_le_of_count_le (List.mem_of_getElem? hi) hmem (count_le_of_ordered hi hj hle)
    · -- a seed port, or none that the graph knows
      rw [baseProb_of_not_ordered hlisted]
      exact baseProb_nonneg _ _
  · intro other hnot
    exact baseProb_of_not_ordered fun hmem => hnot (List.mem_append_left _ hmem)

end FromCounts

end PortGraph

end Farsight
