import Mathlib.Algebra.BigOperators.Group.Finset.Basic
import Mathlib.Data.Fintype.BigOperators

/-!
# Custody

Things that a finite number of threads hold, as a sum over the threads: a number of boxes, or the
multiset of items that were taken from a queue. A step of one thread changes what that thread holds
and nothing else (`held_update`).
-/

namespace Custody

variable {ι α M : Type*} [Fintype ι] [AddCommMonoid M]

/-- What all threads hold together. -/
def held (hold : α → M) (threads : ι → α) : M :=
  ∑ i, hold (threads i)

/-- When a thread moves, what it held is exchanged for what it holds. -/
theorem held_update [DecidableEq ι] (hold : α → M) (threads : ι → α) (i : ι) (x : α) :
    held hold (Function.update threads i x) + hold (threads i) = held hold threads + hold x := by
  have hrest : ∑ j ∈ Finset.univ.erase i, hold (Function.update threads i x j) =
      ∑ j ∈ Finset.univ.erase i, hold (threads j) :=
    Finset.sum_congr rfl fun j hj => by rw [Function.update_of_ne (Finset.ne_of_mem_erase hj)]
  rw [held, held, ← Finset.add_sum_erase _ _ (Finset.mem_univ i),
    ← Finset.add_sum_erase _ (fun j => hold (threads j)) (Finset.mem_univ i), hrest,
    Function.update_self, add_rotate, add_comm (hold (threads i))]

/-- Threads with empty hands. -/
theorem held_eq_zero {hold : α → M} {threads : ι → α} (h : ∀ i, hold (threads i) = 0) :
    held hold threads = 0 :=
  Finset.sum_eq_zero fun i _ => h i

end Custody
