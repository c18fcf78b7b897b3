import Mathlib.Data.Finset.Card
import Mathlib.Data.List.Dedup

/-!
# Counting by groups

`SELECT key, count(DISTINCT value) FROM rows GROUP BY key` over a list of rows. There is one row for
each group that has a row, and it counts the different values of the group.
-/

namespace GroupBy

variable {R K V : Type} [DecidableEq K] [DecidableEq V]

/-- The values of a group. -/
def group (key : R → K) (value : R → V) (rows : List R) (k : K) : Finset V :=
  ((rows.filter fun row => key row = k).map value).toFinset

/-- The groups with the numbers of their values. -/
def countDistinct (key : R → K) (value : R → V) (rows : List R) : List (K × ℕ) :=
  (rows.map key).dedup.map fun k =>
    (k, ((rows.filter fun row => key row = k).map value).dedup.length)

variable {key : R → K} {value : R → V} {rows : List R} {k : K}

theorem mem_group {v : V} :
    v ∈ group key value rows k ↔ ∃ row ∈ rows, key row = k ∧ value row = v := by
  rw [group, List.mem_toFinset, List.mem_map]
  simp only [List.mem_filter, decide_eq_true_eq, and_assoc]

theorem group_nonempty : (group key value rows k).Nonempty ↔ ∃ row ∈ rows, key row = k := by
  constructor
  · rintro ⟨v, hv⟩
    obtain ⟨row, hrow, hkey, -⟩ := mem_group.mp hv
    exact ⟨row, hrow, hkey⟩
  · rintro ⟨row, hrow, hkey⟩
    exact ⟨value row, mem_group.mpr ⟨row, hrow, hkey, rfl⟩⟩

/-- The rows of the answer are the groups that are not empty. -/
theorem mem_countDistinct {n : ℕ} : (k, n) ∈ countDistinct key value rows ↔
    (group key value rows k).Nonempty ∧ n = (group key value rows k).card := by
  rw [countDistinct, List.mem_map, group_nonempty, group, List.card_toFinset]
  constructor
  · rintro ⟨k', hk', heq⟩
    cases heq
    exact ⟨List.mem_map.mp (List.mem_dedup.mp hk'), rfl⟩
  · rintro ⟨hrows, rfl⟩
    exact ⟨k, List.mem_dedup.mpr (List.mem_map.mpr hrows), rfl⟩

/-- No group has two rows. -/
theorem nodup_keys_countDistinct : ((countDistinct key value rows).map Prod.fst).Nodup := by
  rw [countDistinct, List.map_map]
  change ((rows.map key).dedup.map id).Nodup
  rw [List.map_id]
  exact List.nodup_dedup _

end GroupBy
