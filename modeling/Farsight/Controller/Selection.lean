import Farsight.Exclude.Grammar
import Farsight.Strategy.IpCoverage

/-!
# What a session scans

A session starts from a selection of addresses, all of them or those with results in the database,
and from the exclude file. What is left is compiled, and the ip strategy draws from it.

* `Selector.select` — the two selectors, with `Database.readRanges` for the second one. The rows of
  the query are given: `GROUP BY ip` returns each address once, in any order;
* `Controller.session` — the selection without the excluded addresses, compiled;
* `Controller.session_scope` — no step fails, and the scope is what is selected and not written in
  the exclude file;
* `Controller.session_draws` — the same from the text of the exclude file on, and what is drawn:
  every address of the scope once, and besides only addresses in the blocks of 256 of the scope and
  of reported hits.
-/

namespace Farsight

open Machine

/-! ### The selectors -/

/-- `From<Vec<T>>` for the ranges: one for each address. -/
def Ipv4Ranges.ofAddrs (addrs : List Ipv4Addr) : Ipv4Ranges :=
  ⟨addrs.map fun addr => ⟨addr, addr⟩⟩

/-- The loop of `Database::read_ranges`, over the rows that are left to fetch. -/
def readRangesLoop (count : ℕ) (ranges : List Ipv4Addr) : List Ipv4Addr → List Ipv4Addr
  | [] => ranges
  | ip :: rows =>
    let ranges := ranges ++ [ip]
    if ranges.length ≥ count then ranges else readRangesLoop count ranges rows

/-- `Database::read_ranges`. -/
def Database.readRanges (rows : List Ipv4Addr) (count : ℕ) : List Ipv4Addr :=
  (readRangesLoop count [] rows).insertionSort (· ≤ ·)

/-- `AllSelector` and `RescanSelector`. -/
inductive Selector where
  | all
  | rescan (count : ℕ)
  deriving DecidableEq, Repr

/-- `Selector::select`. -/
def Selector.select (rows : List Ipv4Addr) : Selector → Ipv4Ranges
  | .all => ⟨[⟨0, BitVec.allOnes 32⟩]⟩
  | .rescan count => .ofAddrs (Database.readRanges rows count)

/-- `Controller::session`, up to the ranges of the session. -/
def Controller.session (selector : Selector) (rows : List Ipv4Addr) (excludes : Ipv4Ranges) :
    Except Fault CompiledRanges := do
  let ranges ← (selector.select rows).exclude excludes
  ranges.compile

/-! ### What is selected -/

/-- The loop reads rows until it has enough, but one in any case. -/
theorem readRangesLoop_eq (count : ℕ) (ranges rows : List Ipv4Addr) :
    readRangesLoop count ranges rows =
      ranges ++ rows.take (max (count - ranges.length) 1) := by
  induction rows generalizing ranges with
  | nil => rw [readRangesLoop, List.take_nil, List.append_nil]
  | cons ip rows ih =>
    have hlength : (ranges ++ [ip]).length = ranges.length + 1 := List.length_append
    rw [readRangesLoop]
    split
    · next henough =>
      -- the row is kept before the count is compared, so there is one even if none was asked for
      have hone : max (count - ranges.length) 1 = 1 := by omega
      rw [hone, List.take_succ_cons, List.take_zero]
    · next hmore =>
      obtain ⟨left, hleft⟩ : ∃ left, max (count - ranges.length) 1 = left + 1 :=
        ⟨max (count - (ranges ++ [ip]).length) 1, by omega⟩
      rw [ih, hleft, List.take_succ_cons, List.append_assoc, List.singleton_append]
      congr 4
      omega

/-- The addresses that a selector selects. -/
def Selector.Selects (rows : List Ipv4Addr) : Selector → Ipv4Addr → Prop
  | .all, _ => True
  | .rescan count, addr => addr ∈ rows.take (max count 1)

/-- The first rows are kept, and one of them in any case. -/
theorem Database.mem_readRanges (rows : List Ipv4Addr) (count : ℕ) (addr : Ipv4Addr) :
    addr ∈ Database.readRanges rows count ↔ addr ∈ rows.take (max count 1) := by
  rw [readRanges, List.mem_insertionSort, readRangesLoop_eq, List.nil_append, List.length_nil,
    Nat.sub_zero]

/-- The rows of the query are distinct, so that what was read ascends. -/
theorem Database.pairwise_readRanges {rows : List Ipv4Addr} (h : rows.Nodup) (count : ℕ) :
    (Database.readRanges rows count).Pairwise (· < ·) := by
  have hsorted : (Database.readRanges rows count).Pairwise (· ≤ ·) :=
    List.pairwise_insertionSort _ _
  have hnodup : (Database.readRanges rows count).Nodup := by
    rw [readRanges, (List.perm_insertionSort _ _).nodup_iff, readRangesLoop_eq, List.nil_append]
    exact h.sublist (List.take_sublist _ _)
  exact hsorted.imp₂ (fun _ _ hle hne => lt_of_le_of_ne hle hne) hnodup

theorem ascending_ofAddrs {addrs : List Ipv4Addr} (h : addrs.Pairwise (· < ·)) :
    Ascending (Ipv4Ranges.ofAddrs addrs).inner where
  start_le range hrange := by
    obtain ⟨addr, -, rfl⟩ := List.mem_map.mp hrange
    exact le_rfl
  disjoint := List.pairwise_map.mpr h

theorem covers_ofAddrs (addrs : List Ipv4Addr) (addr : Ipv4Addr) :
    Covers (Ipv4Ranges.ofAddrs addrs).inner addr ↔ addr ∈ addrs := by
  constructor
  · rintro ⟨range, hrange, hstart, hlast⟩
    obtain ⟨addr', haddr', rfl⟩ := List.mem_map.mp hrange
    rwa [le_antisymm hlast hstart]
  · intro haddr
    exact ⟨_, List.mem_map_of_mem haddr, le_rfl, le_rfl⟩

/-- A selector makes ranges in order, without overlap, that cover what it selects. The rows are
distinct, or an address would be in two ranges. -/
theorem Selector.select_spec {rows : List Ipv4Addr} (h : rows.Nodup) (selector : Selector) :
    Ascending (selector.select rows).inner ∧
      ∀ addr, Covers (selector.select rows).inner addr ↔ selector.Selects rows addr := by
  cases selector with
  | all =>
    refine ⟨ascending_cons.mpr ⟨by decide, by simp, ascending_nil⟩, fun addr => ?_⟩
    refine iff_of_true ⟨_, List.mem_cons_self, ?_⟩ trivial
    refine ⟨BitVec.le_def.mpr (Nat.zero_le _), BitVec.le_def.mpr ?_⟩
    rw [BitVec.toNat_allOnes]
    exact Nat.le_sub_one_of_lt addr.isLt
  | rescan count =>
    refine ⟨ascending_ofAddrs (Database.pairwise_readRanges h count), fun addr => ?_⟩
    exact (covers_ofAddrs _ addr).trans (Database.mem_readRanges rows count addr)

/-! ### The scope -/

/-- The indices of the compiled ranges run through the addresses that the ranges cover. -/
theorem Scope.enumerates_iff (scope : Scope) (addr : Ipv4Addr) :
    scope.Enumerates addr ↔ Covers scope.source.inner addr := by
  have hle := (Ipv4Ranges.compile_eq_ok scope.compile_eq).1
  rw [← mem_addresses hle, List.mem_iff_getElem?]
  refine exists_congr fun i => ?_
  -- an index is looked up in the list of all addresses, one range after another
  rw [CompiledRanges.index_eq scope.compile_eq]
  cases (addresses scope.source.inner)[i]? with
  | none => exact ⟨nofun, nofun⟩
  | some a =>
    refine ⟨fun h => ?_, fun h => ?_⟩
    · cases h
      rfl
    · cases h
      rfl

theorem Ascending.exists_compile {ranges : Ipv4Ranges} (h : Ascending ranges.inner) :
    ∃ compiled, ranges.compile = .ok compiled := by
  have hlt : total ranges.inner < 2 ^ usizeBits :=
    (h.total_le 0 fun _ _ => Nat.zero_le _).trans_lt (by decide)
  exact ⟨_, Ipv4Ranges.compileLoop_spec h.start_le [] 0 (by omega)⟩

/-- The scope of a session. -/
theorem Controller.session_scope {rows : List Ipv4Addr} (hrows : rows.Nodup) (selector : Selector)
    {excludes : Ipv4Ranges} (hexcludes : StartSorted excludes.inner) :
    ∃ scope : Scope, Controller.session selector rows excludes = .ok scope.ranges ∧
      ∀ addr, scope.Enumerates addr ↔
        selector.Selects rows addr ∧ ¬ Covers excludes.inner addr := by
  obtain ⟨hascending, hselects⟩ := selector.select_spec hrows
  obtain ⟨kept, hkept, hascending', hcovers⟩ := Ipv4Ranges.exclude_spec hascending hexcludes
  obtain ⟨compiled, hcompiled⟩ := hascending'.exists_compile
  refine ⟨⟨kept, compiled, hcompiled⟩, ?_, fun addr => ?_⟩
  · rw [session, hkept]
    exact hcompiled
  · rw [Scope.enumerates_iff, hcovers, hselects]

/-- **From the exclude file to the draws.** Take a text in which every line is in the grammar, and
either selector, with the rows of the query in any order. Only a build with checks stops at a line
with the length 0, so there the text must have none. Then the text is parsed and the session gets a
scope without any fault: the selected addresses that are not written in the text. In every run, with
any shuffle, history and exploration rate and any reported hits, no address is drawn twice; when the
draws come to an end, the whole scope was drawn; and an address that was drawn has the first 24 bits
of an address of the scope, or of a reported one. -/
theorem Controller.session_draws (build : Exclude.Build) (text : List Char)
    (hgrammar : ∀ line ∈ Text.lines text, Exclude.InGrammar line)
    (hmasks : build = .checked →
      ∀ line ∈ Text.lines text, Exclude.prefixLength (Exclude.content line) ≠ some 0)
    (selector : Selector) (rows : List Ipv4Addr) (hrows : rows.Nodup) :
    ∃ (excludes : Ipv4Ranges) (scope : Scope), Exclude.parse build text = .ok excludes ∧
      Controller.session selector rows excludes = .ok scope.ranges ∧
      (∀ addr, scope.Enumerates addr ↔
        selector.Selects rows addr ∧ addr ∉ Exclude.written text) ∧
      ∀ (adapter : PmapIpAdapter scope) (acts : List IpAct),
        ((adapter.run acts).results.filterMap id).Nodup ∧
        (∀ before after, (adapter.run acts).results = before ++ none :: after →
          ∀ addr, selector.Selects rows addr → addr ∉ Exclude.written text → some addr ∈ before) ∧
        ∀ addr, some addr ∈ (adapter.run acts).results →
          ∃ near, prefixId near = prefixId addr ∧
            ((selector.Selects rows near ∧ near ∉ Exclude.written text) ∨
              ∃ thread, .onResult thread near ∈ acts) := by
  have htaken := Exclude.taken_of_inGrammar hgrammar hmasks
  obtain ⟨excludes, hparse⟩ := Exclude.parse_ok_iff.mpr htaken
  obtain ⟨hsorted, hwritten⟩ := Exclude.parse_means hgrammar htaken hparse
  obtain ⟨scope, hsession, hscope⟩ := session_scope hrows selector hsorted
  simp only [hwritten] at hscope
  refine ⟨excludes, scope, hparse, hsession, hscope, fun adapter acts => ?_⟩
  -- a prefix gets into the heap by an address of the scope or a report
  have hinv := adapter.run_inv
    (P := fun p => IsPrefix p ∧ ∃ near, prefixId near = p ∧
      (scope.Enumerates near ∨ ∃ thread, .onResult thread near ∈ acts))
    (fun _ h => h.1) (fun a ha => ⟨isPrefix_prefixId a, a, rfl, .inl ha⟩) acts
    (fun thread a ha => ⟨isPrefix_prefixId a, a, rfl, .inr ⟨thread, ha⟩⟩)
  refine ⟨hinv.nodup, fun before after hsplit addr hselected hkept => ?_, fun addr haddr => ?_⟩
  · -- every address of the scope has a place in the order, and the sweep has passed it
    obtain ⟨i, hi⟩ := (adapter.exists_order_iff addr).mpr ((hscope addr).mpr ⟨hselected, hkept⟩)
    exact hinv.complete before after hsplit i addr hi
  · -- an address is drawn from a prefix of the heap, or is swept
    rcases hinv.sound addr ((hinv.marked_iff addr).mpr (.inl haddr)) with
      ⟨-, near, hnear, hwhy⟩ | hswept
    · exact ⟨near, hnear, hwhy.imp_left (hscope near).mp⟩
    · exact ⟨addr, rfl, .inl ((hscope addr).mp ((adapter.exists_order_iff addr).mp hswept))⟩

/-- An exclude file with a single host. -/
theorem Exclude.inGrammar_oneHost :
    ∀ line ∈ Text.lines "10.0.0.1".toList, Exclude.InGrammar line := by
  have hlines : Text.lines "10.0.0.1".toList = ["10.0.0.1".toList] := by decide
  have hcontent : Exclude.content "10.0.0.1".toList = "10.0.0.1".toList := by decide
  intro line hline
  rw [hlines, List.mem_singleton] at hline
  rw [hline, Exclude.InGrammar, hcontent]
  exact .inr ⟨.single 0x0A000001, .single (by decide)⟩

/-- A rescan of two of three hosts, of which one is excluded. The single entry has no length. -/
theorem Controller.session_draws_rescan :
    Exclude.parse .checked "10.0.0.1".toList = .ok ⟨[⟨0x0A000001, 0x0A000001⟩]⟩ ∧
    ∃ scope : Scope,
      Controller.session (.rescan 2) [7, 0x0A000001, 5] ⟨[⟨0x0A000001, 0x0A000001⟩]⟩ =
        .ok scope.ranges ∧
      ∀ addr, scope.Enumerates addr ↔
        addr ∈ [7, 0x0A000001] ∧ addr ∉ Exclude.written "10.0.0.1".toList := by
  have hparse : Exclude.parse .checked "10.0.0.1".toList =
      .ok ⟨[⟨0x0A000001, 0x0A000001⟩]⟩ := by decide
  obtain ⟨excludes, scope, hparse', hsession, hscope, -⟩ :=
    session_draws .checked "10.0.0.1".toList Exclude.inGrammar_oneHost (fun _ => by decide)
      (.rescan 2) [7, 0x0A000001, 5] (by decide)
  obtain rfl := Except.ok.inj (hparse'.symm.trans hparse)
  exact ⟨hparse, scope, hsession, hscope⟩

end Farsight
