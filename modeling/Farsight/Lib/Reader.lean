import Mathlib.Tactic.Common

/-!
# Readers of a growing input

Input that arrives in pieces is read from the start again whenever there is more of it. A reader
takes what it needs from the front and returns the rest; if the input ends too early it fails with
an error of its own, `short`, which is no verdict. For the pieces not to matter, a verdict has to
stand when more input follows, and an input that is too short must not be a dead end.

* `Reader.Incremental` — what such a reader does when more input follows;
* `Reader.Incremental.andThen` — readers that run one after another;
* `Reader.takeOne`, `Reader.takeExactly` — one symbol, and a block of known length;
* `Reader.Incremental.verdict_append`, `Reader.Incremental.exists_verdict` — the same for a reader
  whose rest is dropped;
* `Reader.Passes` — a piece of input that brings a reader exactly to a point, with the rules
  `Reader.Passes.andThen` and `Reader.Passes.takeExactly`.
-/

/-- A reader of `σ`s: what it has read, and what is left. -/
abbrev Reader (σ ε α : Type) := List σ → Except ε (α × List σ)

namespace Reader

variable {σ ε α β : Type} {short : ε}

/-- Success and every error but `short` stand when more input follows, and an input that is too
short has a continuation that is not. -/
structure Incremental (short : ε) (r : Reader σ ε α) : Prop where
  ok {xs : List σ} {a : α} {rest : List σ} (h : r xs = .ok (a, rest)) (ys : List σ) :
    r (xs ++ ys) = .ok (a, rest ++ ys)
  error {xs : List σ} {e : ε} (h : r xs = .error e) (he : e ≠ short) (ys : List σ) :
    r (xs ++ ys) = .error e
  completes {xs : List σ} (h : r xs = .error short) : ∃ ys, r (xs ++ ys) ≠ .error short

/-- Read nothing. -/
theorem Incremental.pure (a : α) : Incremental short (fun xs : List σ => .ok (a, xs)) where
  ok h ys := by
    cases h
    rfl
  error h := nomatch h
  completes h := nomatch h

/-- Reject whatever follows. -/
theorem Incremental.fail {e : ε} (he : e ≠ short) :
    Incremental short (fun _ : List σ => (.error e : Except ε (α × List σ))) where
  ok h := nomatch h
  error h _ _ := h
  completes h := absurd (Except.error.inj h) he

/-- Run two readers one after another. -/
def andThen (r : Reader σ ε α) (f : α → Reader σ ε β) : Reader σ ε β := fun xs => do
  let (a, rest) ← r xs
  f a rest

section

variable {r : Reader σ ε α} {f : α → Reader σ ε β} {xs rest : List σ} {a : α}

theorem andThen_of_ok (h : r xs = .ok (a, rest)) : r.andThen f xs = f a rest := by
  rw [andThen, h]
  rfl

theorem andThen_of_error {e : ε} (h : r xs = .error e) : r.andThen f xs = .error e := by
  rw [andThen, h]
  rfl

/-- A sequence returns when both parts do, the second on what the first has left. -/
theorem andThen_eq_ok {b : β} : r.andThen f xs = .ok (b, rest) ↔
    ∃ a middle, r xs = .ok (a, middle) ∧ f a middle = .ok (b, rest) := by
  cases h : r xs with
  | error e =>
    rw [andThen_of_error h]
    exact ⟨nofun, fun ⟨_, _, h, _⟩ => nomatch h⟩
  | ok result =>
    obtain ⟨a, middle⟩ := result
    rw [andThen_of_ok h]
    refine ⟨fun h => ⟨a, middle, rfl, h⟩, ?_⟩
    rintro ⟨_, _, heq, h⟩
    cases heq
    exact h

end

/-- Two readers one after another. The first one has its verdict before the second one starts, so
that what completes the second completes both. -/
theorem Incremental.andThen {r : Reader σ ε α} {f : α → Reader σ ε β} (hr : Incremental short r)
    (hf : ∀ a, Incremental short (f a)) : Incremental short (r.andThen f) where
  ok {xs b rest} h ys := by
    cases hfirst : r xs with
    | error e =>
      rw [andThen_of_error hfirst] at h
      cases h
    | ok result =>
      obtain ⟨a, middle⟩ := result
      rw [andThen_of_ok hfirst] at h
      -- the first reader returns the same, with the additional input behind its rest
      rw [andThen_of_ok (hr.ok hfirst ys)]
      exact (hf a).ok h ys
  error {xs e} h he ys := by
    cases hfirst : r xs with
    | error e' =>
      rw [andThen_of_error hfirst] at h
      obtain rfl := Except.error.inj h
      exact andThen_of_error (hr.error hfirst he ys)
    | ok result =>
      obtain ⟨a, middle⟩ := result
      rw [andThen_of_ok hfirst] at h
      rw [andThen_of_ok (hr.ok hfirst ys)]
      exact (hf a).error h he ys
  completes {xs} h := by
    -- more input, with which the first reader has a verdict
    obtain ⟨ys, hys⟩ : ∃ ys, r (xs ++ ys) ≠ .error short := by
      cases hfirst : r xs with
      | error e =>
        rw [andThen_of_error hfirst] at h
        obtain rfl := Except.error.inj h
        exact hr.completes hfirst
      | ok result => exact ⟨[], by rw [List.append_nil, hfirst]; exact nofun⟩
    cases hfirst : r (xs ++ ys) with
    | error e =>
      refine ⟨ys, ?_⟩
      rw [hfirst] at hys
      rw [andThen_of_error hfirst]
      exact fun heq => hys (congrArg Except.error (Except.error.inj heq))
    | ok result =>
      obtain ⟨a, middle⟩ := result
      -- and still more, with which the second one has
      by_cases hsecond : f a middle = .error short
      · obtain ⟨zs, hzs⟩ := (hf a).completes hsecond
        refine ⟨ys ++ zs, ?_⟩
        rw [← List.append_assoc, andThen_of_ok (hr.ok hfirst zs)]
        exact hzs
      · refine ⟨ys, ?_⟩
        rw [andThen_of_ok hfirst]
        exact hsecond

/-- Read one symbol. -/
def takeOne (short : ε) : Reader σ ε σ
  | [] => .error short
  | x :: xs => .ok (x, xs)

/-- One symbol is missing from the empty input only. -/
theorem Incremental.takeOne [Nonempty σ] :
    Incremental short (takeOne short : Reader σ ε σ) where
  ok {xs x rest} h ys := by
    cases xs with
    | nil => cases h
    | cons x' xs =>
      cases h
      rfl
  error {xs e} h he ys := by
    cases xs with
    | nil => exact absurd (Except.error.inj h).symm he
    | cons x xs => cases h
  completes {xs} h := by
    obtain ⟨x⟩ := ‹Nonempty σ›
    cases xs with
    | nil => exact ⟨[x], nofun⟩
    | cons x xs => cases h

/-- Read a block of `n`. -/
def takeExactly (short : ε) (n : ℕ) : Reader σ ε (List σ) := fun xs =>
  if xs.length < n then .error short else .ok (xs.take n, xs.drop n)

/-- A block is missing until the input is long enough. `n` more symbols are always enough. -/
theorem Incremental.takeExactly [Nonempty σ] (n : ℕ) :
    Incremental short (takeExactly short n : Reader σ ε (List σ)) where
  ok {xs block rest} h ys := by
    unfold Reader.takeExactly at h ⊢
    split at h
    · cases h
    · next hlength =>
      cases h
      have hle : n ≤ xs.length := Nat.not_lt.mp hlength
      rw [if_neg (by rw [List.length_append]; omega), List.take_append_of_le_length hle,
        List.drop_append_of_le_length hle]
  error {xs e} h he ys := by
    unfold Reader.takeExactly at h
    split at h
    · exact absurd (Except.error.inj h).symm he
    · cases h
  completes {xs} h := by
    obtain ⟨x⟩ := ‹Nonempty σ›
    refine ⟨List.replicate n x, ?_⟩
    unfold Reader.takeExactly
    rw [if_neg (by rw [List.length_append, List.length_replicate]; omega)]
    exact nofun

/-! ### Verdicts -/

/-- What a reader says of an input, without the rest. -/
def verdict (r : Reader σ ε α) (xs : List σ) : Except ε α :=
  (r xs).map Prod.fst

/-- The verdict on a sequence, without the rest of the second part. -/
theorem verdict_andThen (r : Reader σ ε α) (f : α → Reader σ ε β) (xs : List σ) :
    (r.andThen f).verdict xs = r xs >>= fun (a, rest) => (f a).verdict rest := by
  unfold verdict
  cases h : r xs with
  | error e =>
    rw [andThen_of_error h]
    rfl
  | ok result =>
    rw [andThen_of_ok h]
    rfl

/-- The verdict forgets the rest of the input. -/
theorem verdict_eq_ok_iff {r : Reader σ ε α} {xs : List σ} {a : α} :
    r.verdict xs = .ok a ↔ ∃ rest, r xs = .ok (a, rest) := by
  unfold verdict
  cases r xs with
  | error e => exact ⟨nofun, fun ⟨_, h⟩ => nomatch h⟩
  | ok result =>
    obtain ⟨a', rest⟩ := result
    refine ⟨fun h => ⟨rest, ?_⟩, fun ⟨_, h⟩ => ?_⟩
    · cases h
      rfl
    · cases h
      rfl

theorem verdict_eq_short_iff {r : Reader σ ε α} {xs : List σ} :
    r.verdict xs = .error short ↔ r xs = .error short := by
  unfold verdict
  cases r xs with
  | error e =>
    exact ⟨fun h => congrArg Except.error (Except.error.inj h),
      fun h => congrArg Except.error (Except.error.inj h)⟩
  | ok result => exact ⟨nofun, nofun⟩

/-- A verdict stands when more input follows. -/
theorem Incremental.verdict_append {r : Reader σ ε α} (h : Incremental short r) {xs : List σ}
    (hxs : r.verdict xs ≠ .error short) (ys : List σ) :
    r.verdict (xs ++ ys) = r.verdict xs := by
  rw [Ne, verdict_eq_short_iff] at hxs
  unfold verdict
  cases hread : r xs with
  | error e =>
    rw [hread] at hxs
    rw [h.error hread (fun he => hxs (he ▸ rfl)) ys]
  | ok result =>
    obtain ⟨a, rest⟩ := result
    rw [h.ok hread ys]
    rfl

/-- Enough input leads to a verdict. -/
theorem Incremental.exists_verdict {r : Reader σ ε α} (h : Incremental short r) {xs : List σ}
    (hxs : r.verdict xs = .error short) : ∃ ys, r.verdict (xs ++ ys) ≠ .error short := by
  obtain ⟨ys, hys⟩ := h.completes (verdict_eq_short_iff.mp hxs)
  exact ⟨ys, fun hshort => hys (verdict_eq_short_iff.mp hshort)⟩

/-! ### Messages -/

/-- After `xs` the reader goes on as `k`, and everything that ends within `xs` is too short. -/
structure Passes (short : ε) (r : Reader σ ε α) (xs : List σ) (k : Reader σ ε α) : Prop where
  ok (rest : List σ) : r (xs ++ rest) = k rest
  short {ys : List σ} (h : ys <+: xs) (hne : ys ≠ xs) : r ys = .error short

/-- The reader goes on with the next one at the point where it has returned. -/
theorem Passes.andThen {r : Reader σ ε α} {f : α → Reader σ ε β} {xs ys : List σ} {a : α}
    {k : Reader σ ε β} (hr : Passes short r xs fun rest => .ok (a, rest))
    (hf : Passes short (f a) ys k) : Passes short (r.andThen f) (xs ++ ys) k where
  ok rest := by
    rw [List.append_assoc, andThen_of_ok (hr.ok (ys ++ rest))]
    exact hf.ok rest
  short {zs} h hne := by
    -- the input ends before the point, or after it
    rcases List.prefix_or_prefix_of_prefix h (List.prefix_append xs ys) with hzs | ⟨zs', rfl⟩
    · by_cases heq : zs = xs
      · subst heq
        have hys : ([] : List σ) ≠ ys := fun hnil => hne (by rw [← hnil, List.append_nil])
        have hread := hr.ok []
        rw [List.append_nil] at hread
        rw [andThen_of_ok hread]
        exact hf.short List.nil_prefix hys
      · exact andThen_of_error (hr.short hzs heq)
    · rw [andThen_of_ok (hr.ok zs')]
      exact hf.short ((List.prefix_append_right_inj xs).mp h) fun heq => hne (by rw [heq])

/-- The next one may take nothing more. -/
theorem Passes.last {r : Reader σ ε α} {f : α → Reader σ ε β} {xs : List σ} {a : α}
    (hr : Passes short r xs fun rest => .ok (a, rest)) : Passes short (r.andThen f) xs (f a) := by
  have hnil : Passes short (f a) [] (f a) :=
    ⟨fun _ => rfl, fun h hne => absurd (List.prefix_nil.mp h) hne⟩
  have h := hr.andThen hnil
  rwa [List.append_nil] at h

/-- A block of the right length. -/
theorem Passes.takeExactly (xs : List σ) :
    Passes short (takeExactly short xs.length) xs fun rest => .ok (xs, rest) where
  ok rest := by
    have hlength : ¬ (xs ++ rest).length < xs.length := by
      rw [List.length_append]
      omega
    rw [Reader.takeExactly, if_neg hlength, List.take_left, List.drop_left]
  short {ys} h hne := by
    have hlength : ys.length < xs.length :=
      Nat.lt_of_le_of_ne h.length_le fun heq => hne (h.eq_of_length heq)
    rw [Reader.takeExactly, if_pos hlength]

end Reader
