import Farsight.Lib.Run
import Farsight.Lib.TokenBucket
import Farsight.Xdp.Queue
import Mathlib.Data.Rat.Floor

/-!
# The rate ceiling

The `Completer` of a queue releases entries of the completion ring, at most as many as its token
bucket allows. The kernel transmits a packet only after it has reserved a slot of that ring, so the
bucket limits the packets as well. Times are in seconds and all numbers are exact.

* `Completer.nextBatch`, `Completer.tick` — the functions of the source;
* `PacedQueue` — the completer of a session and the slots that the kernel has reserved;
* `Completer.tick_spec` — a tick draws from the bucket what it releases;
* `PacedQueue.rate_ceiling` — the bounds, in every session.
-/

namespace Farsight

/-- `Completer`. The session divides a positive rate among the queues. -/
structure Completer where
  cr : ConsumerRing (BitVec 64)
  /-- What this completer has added to the counter of the session. -/
  completed : ℕ
  rate : ℚ
  tokens : ℚ
  lastRefill : ℚ
  batchSize : BitVec 32
  rate_nonneg : 0 ≤ rate

/-- What `Completer::new` reads of a session. -/
structure CompleterConfig where
  rate : ℚ
  batchSize : BitVec 32
  rate_nonneg : 0 ≤ rate

namespace Completer

/-- `Completer::new`. -/
def new (config : CompleterConfig) (cr : ConsumerRing (BitVec 64)) (now : ℚ) : Completer where
  cr := cr
  completed := 0
  rate := config.rate
  tokens := 0
  lastRefill := now
  batchSize := config.batchSize
  rate_nonneg := config.rate_nonneg

/-- `next_batch`, at a time `now`. -/
def nextBatch (self : Completer) (now : ℚ) : BitVec 32 × Completer :=
  -- refill for the time that has passed, but no more than a batch
  let elapsed := now - self.lastRefill
  let tokens := min (self.tokens + elapsed * self.rate) self.batchSize.toNat
  if tokens < 1 then (0, { self with lastRefill := now, tokens := tokens })
  else
    -- the fraction of a token stays in the bucket
    let take := ⌊tokens⌋₊
    (.ofNat 32 take, { self with lastRefill := now, tokens := tokens - take })

/-- `tick`, at a time `now`. -/
def tick (size : RingSize) (self : Completer) (now : ℚ) : Option Unit × Completer :=
  match self.nextBatch now with
  | (batch, self) =>
    match (self.cr.consumer.peek self.cr.prod batch).1 with
    | some (_, count) =>
      -- the part of the batch that was not completed is put back
      (some (),
        { self with
          cr := (self.cr.step size (.peek batch)).step size (.release count)
          completed := self.completed + count.toNat
          tokens := self.tokens + (batch - count).toNat })
    | none =>
      -- nothing was completed, so all of it
      (none,
        { self with
          cr := self.cr.step size (.peek batch)
          tokens := self.tokens + batch.toNat })

/-- `into_inner`. -/
def intoInner (self : Completer) : ConsumerRing (BitVec 64) :=
  self.cr

/-- The bucket of the completer. -/
def bucket (self : Completer) : TokenBucket.Bucket ℚ :=
  ⟨self.tokens, self.lastRefill⟩

end Completer

/-! ### A queue that transmits -/

/-- The completer of a queue, and how many slots of its completion ring the kernel has reserved
since the ring was made, one for each packet that it has transmitted. -/
structure PacedQueue where
  completer : Completer
  reserved : ℕ

/-- A step of a queue. -/
inductive PacedAct where
  | tick (now : ℚ)
  /-- The kernel reserves a slot and transmits a packet. -/
  | transmit
  /-- The kernel writes the address of a transmitted packet into the ring. -/
  | complete (addr : BitVec 64)

/-- One session of a queue: a new completer takes over the ring. Steps of the kernel that fall
between two sessions are counted with the earlier one. -/
structure PacedSession where
  config : CompleterConfig
  start : ℚ
  acts : List PacedAct

namespace PacedQueue

variable (size : RingSize)

/-- One step. -/
def step (s : PacedQueue) : PacedAct → PacedQueue
  | .tick now => { s with completer := (s.completer.tick size now).2 }
  | .transmit =>
    -- without a free slot of the completion ring the packet waits
    if s.reserved - s.completer.cr.released < size.entries then
      { s with reserved := s.reserved + 1 }
    else s
  | .complete addr =>
    if s.completer.cr.produced.length < s.reserved then
      { s with
        completer := { s.completer with cr := s.completer.cr.step size (.produce addr) } }
    else s

/-- A queue at the start of a session. -/
def enter (session : PacedSession) (cr : ConsumerRing (BitVec 64)) (reserved : ℕ) : PacedQueue where
  completer := Completer.new session.config cr session.start
  reserved := reserved

/-- A whole session, from the ring and the reserved slots to what they are after it. -/
def runSession (queue : ConsumerRing (BitVec 64) × ℕ) (session : PacedSession) :
    ConsumerRing (BitVec 64) × ℕ :=
  let s := session.acts.foldl (step size) (enter session queue.1 queue.2)
  (s.completer.intoInner, s.reserved)

end PacedQueue

/-- The times of the ticks. -/
def PacedSession.times (acts : List PacedAct) : List ℚ :=
  acts.filterMap fun
    | .tick now => some now
    | .transmit => none
    | .complete _ => none

/-- The clock does not go back in the session. -/
def PacedSession.Timely (session : PacedSession) : Prop :=
  (session.start :: PacedSession.times session.acts).IsChain (· ≤ ·)

/-! ### The ring between ticks -/

/-- Between two ticks nothing is peeked, and the kernel holds no more slots than there are. -/
structure CompletionRing (size : RingSize) (base : BitVec 32) (cr : ConsumerRing (BitVec 64))
    (reserved : ℕ) : Prop where
  ring : cr.Inv size base
  idle : cr.handed.length = cr.released
  produced_le : cr.produced.length ≤ reserved
  reserved_le : reserved ≤ cr.released + size.entries

variable {size : RingSize} {base : BitVec 32}

/-- A ring as the socket finds it: what is in it was reserved before. -/
theorem ConsumerRing.Starts.completionRing {kind : RingKind} {cr : ConsumerRing (BitVec 64)}
    (h : cr.Starts size kind) : CompletionRing size cr.cons cr cr.produced.length where
  ring := h.inv
  idle := by rw [h.handed, h.released, List.length_nil]
  produced_le := Nat.le_refl _
  reserved_le := h.room.trans (Nat.le_add_left _ _)

namespace CompletionRing

variable {cr : ConsumerRing (BitVec 64)} {reserved : ℕ}

/-- What was peeked is released at once. -/
theorem peek_some (h : CompletionRing size base cr reserved) {batch index count : BitVec 32}
    (hpeek : (cr.consumer.peek cr.prod batch).1 = some (index, count)) :
    count.toNat ≤ batch.toNat ∧
      ((cr.step size (.peek batch)).step size (.release count)).released =
        cr.released + count.toNat ∧
      CompletionRing size base ((cr.step size (.peek batch)).step size (.release count))
        reserved := by
  obtain ⟨consumer, hpeek⟩ : ∃ consumer,
      cr.consumer.peek cr.prod batch = (some (index, count), consumer) := ⟨_, Prod.ext hpeek rfl⟩
  obtain ⟨hcount, -, -, hinv⟩ := h.ring.peek_some hpeek
  -- between ticks nothing is handed out, so all that is now handed out is this batch
  have hstep : cr.step size (.peek batch) =
      { cr with
        consumer := consumer
        handed := cr.handed ++ size.read cr.slots index count.toNat } := by
    rw [ConsumerRing.step, hpeek]
  rw [hstep]
  have hidle := h.idle
  have hlength : (cr.handed ++ size.read cr.slots index count.toNat).length =
      cr.released + count.toNat := by
    rw [List.length_append, RingSize.length_read, hidle]
  -- the guard of the release
  have hle : count ≤ consumer.cachedCons - cr.cons := by
    have hunreleased := hinv.unreleased
    dsimp only at hunreleased
    rw [hlength, Nat.add_sub_cancel_left] at hunreleased
    exact hunreleased.ge
  rw [ConsumerRing.step, if_pos hle]
  refine ⟨?_, rfl, hinv.release hle, hlength, h.produced_le, ?_⟩
  · rw [hcount]
    exact Nat.min_le_left _ _
  · have := h.reserved_le
    change reserved ≤ cr.released + count.toNat + size.entries
    omega

/-- A tick that finds nothing releases nothing. -/
theorem peek_none (h : CompletionRing size base cr reserved) {batch : BitVec 32}
    (hpeek : (cr.consumer.peek cr.prod batch).1 = none) :
    (cr.step size (.peek batch)).released = cr.released ∧
      CompletionRing size base (cr.step size (.peek batch)) reserved := by
  obtain ⟨consumer, hpeek⟩ : ∃ consumer, cr.consumer.peek cr.prod batch = (none, consumer) :=
    ⟨_, Prod.ext hpeek rfl⟩
  rw [ConsumerRing.step, hpeek]
  exact ⟨rfl, (h.ring.peek_none hpeek).2, h.idle, h.produced_le, h.reserved_le⟩

/-- A packet that goes out reserves a slot of the completion ring, which the kernel only does if one
is free. -/
theorem transmit (h : CompletionRing size base cr reserved)
    (hfree : reserved - cr.released < size.entries) :
    CompletionRing size base cr (reserved + 1) where
  ring := h.ring
  idle := h.idle
  produced_le := h.produced_le.trans (Nat.le_succ _)
  reserved_le := by omega

/-- The kernel completes a packet into the slot that it has reserved for it. -/
theorem produce (h : CompletionRing size base cr reserved)
    (hreserved : cr.produced.length < reserved) (addr : BitVec 64) :
    (cr.step size (.produce addr)).released = cr.released ∧
      CompletionRing size base (cr.step size (.produce addr)) reserved := by
  have hinv := h.ring.step (.produce addr)
  -- the entries in the ring are among the reserved slots
  have hroom : (cr.prod - cr.cons).toNat < size.entries := by
    have := h.reserved_le
    have := size.pos
    rw [h.ring.filled]
    omega
  rw [ConsumerRing.step, if_pos hroom] at hinv ⊢
  refine ⟨rfl, hinv, h.idle, ?_, h.reserved_le⟩
  change (cr.produced ++ [addr]).length ≤ reserved
  rw [List.length_append]
  exact hreserved

end CompletionRing

/-! ### The bucket -/

namespace Completer

open TokenBucket (Within)

variable {self : Completer} {start now : ℚ} {spent reserved : ℕ}

/-- `next_batch` is a refill and a draw. -/
theorem nextBatch_eq (self : Completer) (now : ℚ) :
    self.nextBatch now =
      let drawn := TokenBucket.draw
        (TokenBucket.refill self.rate self.batchSize.toNat now self.bucket)
      (.ofNat 32 drawn.1, { self with tokens := drawn.2.tokens, lastRefill := now }) := by
  unfold nextBatch TokenBucket.draw TokenBucket.refill bucket
  dsimp only
  split
  · rfl
  · rfl

/-- Every tick refills the bucket, whether it completes anything or not. -/
theorem lastRefill_tick (self : Completer) (size : RingSize) (now : ℚ) :
    (self.tick size now).2.lastRefill = now := by
  unfold tick
  rw [nextBatch_eq]
  dsimp only
  split
  · rfl
  · rfl

/-- The batch fits 32 bits since the bucket does. -/
theorem nextBatch_spec (h : Within self.rate self.batchSize.toNat start spent self.bucket)
    (hnow : self.lastRefill ≤ now) :
    ∃ tokens, (self.nextBatch now).2 = { self with tokens := tokens, lastRefill := now } ∧
      ∀ used back, used + back = (self.nextBatch now).1.toNat →
        Within self.rate self.batchSize.toNat start (spent + used) ⟨tokens + back, now⟩ := by
  have hlater : self.bucket.last ≤ now := hnow
  have hrefill := h.refill self.rate_nonneg hlater
  obtain ⟨⟨batch, bucket⟩, hdraw⟩ : ∃ drawn, TokenBucket.draw
      (TokenBucket.refill self.rate self.batchSize.toNat now self.bucket) = drawn := ⟨_, rfl⟩
  obtain ⟨hnonneg, hsum, hlast⟩ := TokenBucket.draw_spec hrefill.nonneg hdraw
  -- no more is drawn than the bucket holds
  have hbatch : batch ≤ self.batchSize.toNat := by
    have hcap : (batch : ℚ) ≤ self.batchSize.toNat := by
      calc (batch : ℚ) ≤ batch + bucket.tokens := le_add_of_nonneg_right hnonneg
        _ = _ := hsum
        _ ≤ self.batchSize.toNat := hrefill.le_cap
    exact_mod_cast hcap
  have hlt := self.batchSize.isLt
  rw [nextBatch_eq, hdraw]
  refine ⟨bucket.tokens, rfl, ?_⟩
  intro used back hused
  dsimp only at hused
  rw [BitVec.toNat_ofNat, Nat.mod_eq_of_lt (by omega)] at hused
  have hwithin := hrefill.draw_putBack hdraw hused
  rw [TokenBucket.putBack, hlast] at hwithin
  exact hwithin

/-- A tick draws from the bucket what it releases. -/
theorem tick_spec (h : Within self.rate self.batchSize.toNat start spent self.bucket)
    (hring : CompletionRing size base self.cr reserved) (hnow : self.lastRefill ≤ now) :
    ∃ count cr tokens,
      (self.tick size now).2 =
        { self with
          cr := cr, completed := self.completed + count, tokens := tokens, lastRefill := now } ∧
      cr.released = self.cr.released + count ∧
      CompletionRing size base cr reserved ∧
      Within self.rate self.batchSize.toNat start (spent + count) ⟨tokens, now⟩ := by
  obtain ⟨tokens, hself, hwithin⟩ := nextBatch_spec h hnow
  obtain ⟨⟨batch, self'⟩, hbatch⟩ : ∃ result, self.nextBatch now = result := ⟨_, rfl⟩
  rw [hbatch] at hself hwithin
  dsimp only at hself hwithin
  subst hself
  unfold tick
  rw [hbatch]
  dsimp only
  split
  · next index count hpeek =>
    -- `count` tokens are spent, and the rest of the batch goes back
    obtain ⟨hle, hreleased, hring'⟩ := hring.peek_some hpeek
    refine ⟨count.toNat, _, _, rfl, hreleased, hring', hwithin _ _ ?_⟩
    rw [BitVec.toNat_sub_of_le hle, Nat.add_sub_cancel' hle]
  · next hpeek =>
    obtain ⟨hreleased, hring'⟩ := hring.peek_none hpeek
    refine ⟨0, _, _, rfl, hreleased, hring', hwithin 0 batch.toNat ?_⟩
    rw [Nat.zero_add]

end Completer

/-! ### Sessions -/

namespace PacedQueue

/-- The clock does not go back. -/
def OnTime (s : PacedQueue) : PacedAct → Prop
  | .tick now => s.completer.lastRefill ≤ now
  | .transmit => True
  | .complete _ => True

/-- What holds in a session that started with `released` released entries. -/
structure Inv (size : RingSize) (base : BitVec 32) (session : PacedSession) (released : ℕ)
    (s : PacedQueue) : Prop where
  rate : s.completer.rate = session.config.rate
  batchSize : s.completer.batchSize = session.config.batchSize
  ring : CompletionRing size base s.completer.cr s.reserved
  released : s.completer.cr.released = released + s.completer.completed
  bucket : TokenBucket.Within s.completer.rate s.completer.batchSize.toNat session.start
    s.completer.completed s.completer.bucket

/-- At the start of a session the bucket is full, and nothing is counted yet. -/
theorem inv_enter {cr : ConsumerRing (BitVec 64)} {reserved : ℕ}
    (h : CompletionRing size base cr reserved) (session : PacedSession) :
    Inv size base session cr.released (enter session cr reserved) where
  rate := rfl
  batchSize := rfl
  ring := h
  released := rfl
  bucket := by
    refine ⟨le_refl _, Nat.cast_nonneg _, ?_⟩
    change ((0 : ℕ) : ℚ) + 0 ≤ session.config.rate * (session.start - session.start)
    rw [Nat.cast_zero, add_zero, sub_self, mul_zero]

variable {session : PacedSession} {released : ℕ} {s : PacedQueue}

/-- Every step keeps the ring and the bucket: what is released in the session is what was spent. -/
theorem Inv.step (h : Inv size base session released s) {act : PacedAct} (hact : s.OnTime act) :
    Inv size base session released (s.step size act) := by
  cases act with
  | tick now =>
    obtain ⟨count, cr, tokens, htick, hreleased, hring, hwithin⟩ :=
      Completer.tick_spec h.bucket h.ring hact
    rw [PacedQueue.step, htick]
    -- the tokens that were spent are the entries that were released
    refine ⟨h.rate, h.batchSize, hring, ?_, hwithin⟩
    change cr.released = released + (s.completer.completed + count)
    rw [hreleased, h.released, Nat.add_assoc]
  | transmit =>
    rw [PacedQueue.step]
    split
    · next hfree => exact ⟨h.rate, h.batchSize, h.ring.transmit hfree, h.released, h.bucket⟩
    · exact h
  | complete addr =>
    rw [PacedQueue.step]
    split
    · next hreserved =>
      obtain ⟨hreleased, hring⟩ := h.ring.produce hreserved addr
      exact ⟨h.rate, h.batchSize, hring, hreleased.trans h.released, h.bucket⟩
    · exact h

theorem lastRefill_tick (now : ℚ) : (s.step size (.tick now)).completer.lastRefill = now :=
  s.completer.lastRefill_tick size now

theorem lastRefill_transmit :
    (s.step size .transmit).completer.lastRefill = s.completer.lastRefill := by
  rw [PacedQueue.step]
  split
  · rfl
  · rfl

theorem lastRefill_complete (addr : BitVec 64) :
    (s.step size (.complete addr)).completer.lastRefill = s.completer.lastRefill := by
  rw [PacedQueue.step]
  split
  · rfl
  · rfl

/-- The last refill was at the last tick. -/
theorem along_onTime {acts : List PacedAct}
    (h : (s.completer.lastRefill :: PacedSession.times acts).IsChain (· ≤ ·)) :
    Run.Along (step size) OnTime s acts := by
  -- the chain of times is cut off at the last refill as the run goes on
  induction acts generalizing s with
  | nil => trivial
  | cons act acts ih =>
    cases act with
    | tick now =>
      obtain ⟨hle, hrest⟩ := List.isChain_cons_cons.mp h
      refine ⟨hle, ih ?_⟩
      rwa [lastRefill_tick]
    | transmit =>
      refine ⟨trivial, ih ?_⟩
      rwa [lastRefill_transmit]
    | complete addr =>
      refine ⟨trivial, ih ?_⟩
      rwa [lastRefill_complete]

/-- The invariant of a session holds throughout. -/
theorem inv_session {cr : ConsumerRing (BitVec 64)} {reserved : ℕ}
    (h : CompletionRing size base cr reserved) (hsession : session.Timely) :
    Inv size base session cr.released
      (session.acts.foldl (step size) (enter session cr reserved)) := by
  have hontime : Run.Along (step size) OnTime (enter session cr reserved) session.acts :=
    along_onTime hsession
  exact hontime.invariant (fun _ _ hact hinv => hinv.step hact) (inv_enter h session)

/-- What a session leaves to the next one. -/
theorem completionRing_sessions {past : List PacedSession} {queue : ConsumerRing (BitVec 64) × ℕ}
    (h : CompletionRing size base queue.1 queue.2) (hpast : ∀ p ∈ past, p.Timely) :
    CompletionRing size base (past.foldl (runSession size) queue).1
      (past.foldl (runSession size) queue).2 :=
  List.foldlRecOn past (runSession size)
    (motive := fun queue : ConsumerRing (BitVec 64) × ℕ => CompletionRing size base queue.1 queue.2)
    h fun _ hqueue session hmem => (inv_session hqueue (hpast session hmem)).ring

/-- **The rate ceiling.** In every session of a queue, after any sessions before it, the tokens stay
between zero and the size of a batch; up to a time `T` after `Completer::new` at most `rate * T`
completions are released; and the kernel has transmitted at most the size of the completion ring
more. -/
theorem rate_ceiling (size : RingSize) {ring : ConsumerRing (BitVec 64)}
    (hring : ring.Starts size .complete) (past : List PacedSession) (hpast : ∀ p ∈ past, p.Timely)
    (session : PacedSession) (hsession : session.Timely) :
    let queue := past.foldl (runSession size) (ring, ring.produced.length)
    let s := session.acts.foldl (step size) (enter session queue.1 queue.2)
    (0 ≤ s.completer.tokens ∧ s.completer.tokens ≤ session.config.batchSize.toNat) ∧
    ∀ T : ℚ, s.completer.lastRefill ≤ session.start + T →
      (s.completer.cr.released : ℚ) - queue.1.released ≤ session.config.rate * T ∧
      (s.reserved : ℚ) - queue.2 ≤ session.config.rate * T + size.entries := by
  intro queue s
  have hqueue : CompletionRing size ring.cons queue.1 queue.2 :=
    completionRing_sessions hring.completionRing hpast
  have hinv : Inv size ring.cons session queue.1.released s := inv_session hqueue hsession
  have hbucket := hinv.bucket
  rw [hinv.rate, hinv.batchSize] at hbucket
  refine ⟨⟨hbucket.nonneg, hbucket.le_cap⟩, ?_⟩
  intro T hT
  -- what was released is what was taken from the bucket, which cannot have given more than came in
  have hreleased : (s.completer.cr.released : ℚ) - queue.1.released ≤ session.config.rate * T := by
    calc (s.completer.cr.released : ℚ) - queue.1.released
        = s.completer.completed := by rw [hinv.released, Nat.cast_add, add_sub_cancel_left]
      _ ≤ s.completer.completed + s.completer.tokens := le_add_of_nonneg_right hbucket.nonneg
      _ ≤ session.config.rate * (s.completer.lastRefill - session.start) := hbucket.budget
      _ ≤ session.config.rate * T :=
        mul_le_mul_of_nonneg_left (sub_le_iff_le_add'.mpr hT) session.config.rate_nonneg
  refine ⟨hreleased, ?_⟩
  -- each transmitted packet has a slot that is not free, or whose entry was released
  have hroom : (s.reserved : ℚ) ≤ s.completer.cr.released + size.entries := by
    exact_mod_cast hinv.ring.reserved_le
  -- before the session no more entries were released than slots reserved
  have hbefore : (queue.1.released : ℚ) ≤ queue.2 := by
    have hle := (hqueue.ring.released_le.trans hqueue.ring.tracks.le).trans hqueue.produced_le
    exact_mod_cast hle
  linarith

/-- A new completion ring. -/
def newCompletionRing : ConsumerRing (BitVec 64) where
  consumer := ⟨0, 0⟩
  prod := 0
  cons := 0
  slots := fun _ => 0
  produced := []
  handed := []
  released := 0

/-- Two packets are transmitted and completed before the bucket has a token. -/
def earlySession : PacedSession where
  config := ⟨1, 64, zero_le_one⟩
  start := 0
  acts := [.transmit, .transmit, .complete 0, .complete 2048, .tick 0, .tick 1]

/-- One second into the session, at a rate of one, at most one packet was completed. -/
theorem rate_ceiling_early :
    let s := earlySession.acts.foldl (step ⟨4, 2, by decide⟩)
      (enter earlySession newCompletionRing 0)
    s.reserved = 2 ∧ (s.completer.cr.released : ℚ) - (0 : ℕ) ≤ 1 * 1 := by
  have hstarts : newCompletionRing.Starts ⟨4, 2, by decide⟩ .complete :=
    ⟨.inr ⟨rfl, rfl, rfl⟩, rfl, rfl, Nat.zero_le _, rfl, rfl, rfl⟩
  have htimely : earlySession.Timely := by
    exact .cons_cons (le_refl 0) (.cons_cons zero_le_one (.singleton _))
  intro s
  have hceiling := rate_ceiling _ hstarts [] (fun _ h => absurd h List.not_mem_nil) _ htimely
  have hrefill : s.completer.lastRefill = 1 := lastRefill_tick 1
  refine ⟨rfl, (hceiling.2 1 ?_).1⟩
  change s.completer.lastRefill ≤ 0 + 1
  rw [hrefill, zero_add]

end PacedQueue

end Farsight
