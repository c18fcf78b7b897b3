import Mathlib.Algebra.Order.Field.Basic
import Mathlib.Algebra.Order.Floor.Semiring
import Mathlib.Tactic.Linarith
import Mathlib.Tactic.Ring

/-!
# Token buckets

A bucket gains tokens at a constant rate up to a capacity. All whole tokens are drawn from it at
once, and those that are not used are put back.

* `refill`, `draw`, `putBack` — the operations;
* `Within` — the bucket is between empty and full, and what was used does not exceed what has come
  in;
* `Within.draw`, `Within.putBack` — kept by a refill with a draw, and by putting back.
-/

namespace TokenBucket

variable {K : Type*} [Field K] [LinearOrder K]

/-- The tokens of a bucket and the time of the last refill. -/
structure Bucket (K : Type*) where
  tokens : K
  last : K

/-- Tokens come in for the time that has passed, up to the capacity. -/
def refill (rate cap now : K) (b : Bucket K) : Bucket K where
  tokens := min (b.tokens + (now - b.last) * rate) cap
  last := now

/-- Draw all whole tokens. -/
def draw [FloorSemiring K] (b : Bucket K) : ℕ × Bucket K :=
  if b.tokens < 1 then (0, b)
  else (⌊b.tokens⌋₊, { b with tokens := b.tokens - ⌊b.tokens⌋₊ })

/-- Put tokens back. -/
def putBack (n : ℕ) (b : Bucket K) : Bucket K :=
  { b with tokens := b.tokens + n }

variable [IsStrictOrderedRing K] {rate cap start : K} {spent : ℕ} {b : Bucket K}

/-- The bucket is between empty and full, and what was used and what is left does not exceed what
has come in since `start`. -/
structure Within (rate cap start : K) (spent : ℕ) (b : Bucket K) : Prop where
  nonneg : 0 ≤ b.tokens
  le_cap : b.tokens ≤ cap
  budget : spent + b.tokens ≤ rate * (b.last - start)

theorem Within.refill (h : Within rate cap start spent b) (hrate : 0 ≤ rate) {now : K}
    (hnow : b.last ≤ now) : Within rate cap start spent (refill rate cap now b) where
  nonneg := by
    have hgain : 0 ≤ (now - b.last) * rate := mul_nonneg (sub_nonneg.mpr hnow) hrate
    exact le_min (add_nonneg h.nonneg hgain) (h.nonneg.trans h.le_cap)
  le_cap := min_le_right _ _
  budget := by
    -- the bucket gains at most what has come in since the last refill
    calc (spent : K) + min (b.tokens + (now - b.last) * rate) cap
        ≤ spent + (b.tokens + (now - b.last) * rate) := by
          gcongr
          exact min_le_left _ _
      _ = spent + b.tokens + rate * (now - b.last) := by ring
      _ ≤ rate * (b.last - start) + rate * (now - b.last) := by
          gcongr
          exact h.budget
      _ = rate * (now - start) := by ring

variable [FloorSemiring K]

/-- What is drawn was in the bucket, and no more than it holds. -/
theorem draw_spec (hnonneg : 0 ≤ b.tokens) {n : ℕ} {b' : Bucket K} (hdraw : draw b = (n, b')) :
    0 ≤ b'.tokens ∧ n + b'.tokens = b.tokens ∧ b'.last = b.last := by
  unfold draw at hdraw
  split at hdraw
  · obtain ⟨rfl, rfl⟩ := Prod.mk.inj hdraw
    exact ⟨hnonneg, by rw [Nat.cast_zero, zero_add], rfl⟩
  · -- the whole tokens are drawn and the fraction is left
    obtain ⟨rfl, rfl⟩ := Prod.mk.inj hdraw
    refine ⟨sub_nonneg.mpr (Nat.floor_le hnonneg), ?_, rfl⟩
    dsimp only
    ring

/-- All that is drawn is used but `back`, which is put back. -/
theorem Within.draw_putBack (h : Within rate cap start spent b) {n used back : ℕ} {b' : Bucket K}
    (hdraw : draw b = (n, b')) (hn : used + back = n) :
    Within rate cap start (spent + used) (putBack back b') := by
  obtain ⟨hnonneg, hsum, hlast⟩ := draw_spec h.nonneg hdraw
  have hback : (0 : K) ≤ back := Nat.cast_nonneg back
  have hused : (0 : K) ≤ used := Nat.cast_nonneg used
  have hn' : (used : K) + back = n := by rw [← Nat.cast_add, hn]
  have hbudget := h.budget
  have hcap := h.le_cap
  refine ⟨add_nonneg hnonneg hback, ?_, ?_⟩
  · -- no more is put back than was drawn
    change b'.tokens + back ≤ cap
    linarith
  · change ((spent + used : ℕ) : K) + (b'.tokens + back) ≤ rate * (b'.last - start)
    rw [hlast, Nat.cast_add]
    linarith

end TokenBucket
