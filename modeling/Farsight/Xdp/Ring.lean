import Farsight.Lib.Machine
import Farsight.Lib.Sequence

/-!
# Rings shared with the kernel

A ring is a pair of 32-bit counters that only grow, and wrap. Each end keeps the last value it has
seen of the other's counter and reads it again only if that is not enough.

* `Producer.free`, `Producer.reserve`, `Consumer.available`, `Consumer.peek` — the functions of the
  source; the counter of the other end is given as it stands when it is read;
* `Producer.TracksFrom` — what the cached counters say about the unbounded ones;
* `Producer.TracksFrom.reserve` — what is reserved lies less than a ring ahead of the consumer;
* `Consumer.TracksFrom`, `Consumer.TracksFrom.peek` — the same for the consumer.
-/

namespace Farsight

/-! ### Producers -/

/-- The counters of `Producer`. -/
structure Producer where
  cachedProd : BitVec 32
  cachedCons : BitVec 32
  deriving DecidableEq, Repr

namespace Producer

/-- `Ring::new` of a TX ring. -/
def new (size prod cons : BitVec 32) : Producer where
  cachedProd := prod
  cachedCons := cons + size

/-- `free`. -/
def free (self : Producer) (size cons batchSize : BitVec 32) : BitVec 32 × Producer :=
  let freeEntries := self.cachedCons - self.cachedProd
  if freeEntries ≥ batchSize then (freeEntries, self)
  else
    let self := { self with cachedCons := cons + size }
    (self.cachedCons - self.cachedProd, self)

/-- `reserve`. -/
def reserve (self : Producer) (size cons batchSize : BitVec 32) :
    Option (BitVec 32) × Producer :=
  let (free, self) := self.free size cons batchSize
  if free < batchSize then (none, self)
  else (some self.cachedProd, { self with cachedProd := self.cachedProd + batchSize })

end Producer

/-! ### Consumers -/

/-- The counters of `Consumer`. -/
structure Consumer where
  cachedProd : BitVec 32
  cachedCons : BitVec 32
  deriving DecidableEq, Repr

namespace Consumer

/-- `available`. -/
def available (self : Consumer) (prod batchSize : BitVec 32) : BitVec 32 × Consumer :=
  let entries := self.cachedProd - self.cachedCons
  if entries < batchSize then
    let self := { self with cachedProd := prod }
    (min (self.cachedProd - self.cachedCons) batchSize, self)
  else (min entries batchSize, self)

/-- `peek`. -/
def peek (self : Consumer) (prod batchSize : BitVec 32) :
    Option (BitVec 32 × BitVec 32) × Consumer :=
  let (entries, self) := self.available prod batchSize
  if entries = 0 then (none, self)
  else
    (some (self.cachedCons, entries), { self with cachedCons := self.cachedCons + entries })

/-- `unpeek`. -/
def unpeek (self : Consumer) (entries : BitVec 32) : Consumer :=
  { self with cachedCons := self.cachedCons - entries }

end Consumer

/-! ### The counters without their bounds

Positions are counted from the value `base` that the counter of the consumer has at the start. -/

namespace Producer

/-- After `reserved` entries, of which the kernel has taken `consumed`: the cached counter of the
kernel is one it has had, and the entries since then fit the ring. -/
structure TracksFrom (base : BitVec 32) (producer : Producer) (size reserved consumed : ℕ) :
    Prop where
  prod : producer.cachedProd = seqAt base reserved
  cons : ∃ seen ≤ consumed, producer.cachedCons = seqAt base (seen + size) ∧
    reserved ≤ seen + size

variable {base : BitVec 32} {producer : Producer} {size reserved consumed consumed' : ℕ}

/-- The kernel takes more. -/
theorem TracksFrom.mono (h : TracksFrom base producer size reserved consumed)
    (hle : consumed ≤ consumed') : TracksFrom base producer size reserved consumed' := by
  obtain ⟨seen, hseen, hcons, hroom⟩ := h.cons
  exact ⟨h.prod, seen, hseen.trans hle, hcons, hroom⟩

/-- `free` leaves the counters in line, and returns what is free of the ring as it knows it. If that
is not enough, it has just read the counter. -/
theorem TracksFrom.free (h : TracksFrom base producer size reserved consumed)
    (hsize : size < 2 ^ 32)
    (hconsumed : consumed ≤ reserved) {batchSize free : BitVec 32} {producer' : Producer}
    (hfree : producer.free (.ofNat 32 size) (seqAt base consumed) batchSize = (free, producer')) :
    ∃ seen ≤ consumed, free.toNat + reserved = seen + size ∧
      (free < batchSize → seen = consumed) ∧
      producer'.cachedProd = seqAt base reserved ∧
      producer'.cachedCons = seqAt base (seen + size) := by
  obtain ⟨seen, hseen, hcons, hroom⟩ := h.cons
  unfold Producer.free at hfree
  dsimp only at hfree
  split at hfree
  · next henough =>
    -- the cached counter shows enough room: the shared one is not read
    obtain ⟨rfl, rfl⟩ := Prod.mk.inj hfree
    refine ⟨seen, hseen, ?_, fun hlt => absurd hlt (Nat.not_lt.mpr henough), h.prod, hcons⟩
    rw [h.prod, hcons, toNat_seqAt_sub_of_le hroom (by omega)]
    omega
  · obtain ⟨rfl, rfl⟩ := Prod.mk.inj hfree
    -- the counter is read again
    refine ⟨consumed, Nat.le_refl _, ?_, fun _ => rfl, h.prod, seqAt_add base consumed size⟩
    have hroom' : reserved ≤ consumed + size := by omega
    rw [h.prod, seqAt_add, toNat_seqAt_sub_of_le hroom' (by omega)]
    omega

/-- A reservation that succeeds takes the next entries, all of them less than a ring ahead of the
consumer. One that fails changes nothing but what is known of the consumer, and there was no
room. -/
theorem TracksFrom.reserve (h : TracksFrom base producer size reserved consumed)
    (hsize : size < 2 ^ 32) (hconsumed : consumed ≤ reserved) (batchSize : BitVec 32) :
    match producer.reserve (.ofNat 32 size) (seqAt base consumed) batchSize with
    | (some index, producer') => index = seqAt base reserved ∧
        TracksFrom base producer' size (reserved + batchSize.toNat) consumed
    | (none, producer') => consumed + size < reserved + batchSize.toNat ∧
        TracksFrom base producer' size reserved consumed := by
  unfold Producer.reserve
  rcases hfree : producer.free (.ofNat 32 size) (seqAt base consumed) batchSize with
    ⟨free, producer'⟩
  obtain ⟨seen, hseen, hroom, hread, hprod, hcons⟩ := h.free hsize hconsumed hfree
  dsimp only
  by_cases henough : free < batchSize
  · rw [if_pos henough]
    have hlt : free.toNat < batchSize.toNat := henough
    have hseen' := hread henough
    exact ⟨by omega, hprod, seen, hseen, hcons, by omega⟩
  · rw [if_neg henough]
    have henough' : batchSize.toNat ≤ free.toNat := Nat.le_of_not_lt henough
    refine ⟨hprod, ?_, seen, hseen, hcons, by omega⟩
    change producer'.cachedProd + batchSize = _
    rw [hprod, seqAt_add_toNat]

/-- A new ring, with both counters at 0. -/
theorem tracksFrom_new (size : ℕ) : TracksFrom 0 (new (.ofNat 32 size) 0 0) size 0 0 where
  prod := (seqAt_zero 0).symm
  cons := ⟨0, Nat.le_refl 0, by rw [Nat.zero_add]; rfl, Nat.zero_le _⟩

end Producer

namespace Consumer

/-- After `produced` entries, of which `handed` were taken from the ring: the cached counter of the
kernel is one it has had. -/
structure TracksFrom (base : BitVec 32) (consumer : Consumer) (handed produced : ℕ) : Prop where
  cons : consumer.cachedCons = seqAt base handed
  prod : ∃ seen ≤ produced, consumer.cachedProd = seqAt base seen ∧ handed ≤ seen

variable {base : BitVec 32} {consumer : Consumer} {handed produced produced' : ℕ}

theorem TracksFrom.le (h : TracksFrom base consumer handed produced) : handed ≤ produced := by
  obtain ⟨seen, hseen, -, hle⟩ := h.prod
  exact hle.trans hseen

/-- The kernel produces more. -/
theorem TracksFrom.mono (h : TracksFrom base consumer handed produced)
    (hle : produced ≤ produced') : TracksFrom base consumer handed produced' := by
  obtain ⟨seen, hseen, hprod, hhanded⟩ := h.prod
  exact ⟨h.cons, seen, hseen.trans hle, hprod, hhanded⟩

/-- `available` returns what is in the ring, up to the size of the batch. -/
theorem TracksFrom.available (h : TracksFrom base consumer handed produced)
    (hlt : produced - handed < 2 ^ 32) (batchSize : BitVec 32) {entries : BitVec 32}
    {consumer' : Consumer}
    (hentries : consumer.available (seqAt base produced) batchSize = (entries, consumer')) :
    entries.toNat = min batchSize.toNat (produced - handed) ∧
      ∃ seen ≤ produced, handed + entries.toNat ≤ seen ∧
        consumer'.cachedCons = seqAt base handed ∧ consumer'.cachedProd = seqAt base seen := by
  obtain ⟨seen, hseen, hprod, hhanded⟩ := h.prod
  have hknown : (consumer.cachedProd - consumer.cachedCons).toNat = seen - handed := by
    rw [hprod, h.cons, toNat_seqAt_sub_of_le hhanded (by omega)]
  have hall : (seqAt base produced - consumer.cachedCons).toNat = produced - handed := by
    rw [h.cons, toNat_seqAt_sub_of_le h.le hlt]
  have hmin (x : BitVec 32) : (min x batchSize).toNat = min batchSize.toNat x.toNat := by
    rw [min_def, Nat.min_comm, min_def]
    split
    · next hle => rw [if_pos (show x.toNat ≤ batchSize.toNat from hle)]
    · next hle => rw [if_neg (show ¬ x.toNat ≤ batchSize.toNat from hle)]
  unfold Consumer.available at hentries
  dsimp only at hentries
  split at hentries
  · obtain ⟨rfl, rfl⟩ := Prod.mk.inj hentries
    -- the cached counter is not enough for the batch, so the shared one is read
    rw [hmin, hall]
    exact ⟨rfl, produced, Nat.le_refl _, by omega, h.cons, rfl⟩
  · next hnot =>
    obtain ⟨rfl, rfl⟩ := Prod.mk.inj hentries
    -- the cached counter is enough for the whole batch
    have henough : batchSize.toNat ≤ seen - handed := by
      rw [← hknown]
      exact Nat.le_of_not_lt hnot
    rw [hmin, hknown]
    exact ⟨by omega, seen, hseen, by omega, h.cons, hprod⟩

/-- `peek` takes the next entries, as many as there are up to the size of the batch. -/
theorem TracksFrom.peek (h : TracksFrom base consumer handed produced)
    (hlt : produced - handed < 2 ^ 32) (batchSize : BitVec 32) :
    match consumer.peek (seqAt base produced) batchSize with
    | (some (index, entries), consumer') => index = seqAt base handed ∧
        entries.toNat = min batchSize.toNat (produced - handed) ∧
        TracksFrom base consumer' (handed + entries.toNat) produced
    | (none, consumer') => min batchSize.toNat (produced - handed) = 0 ∧
        TracksFrom base consumer' handed produced := by
  unfold Consumer.peek
  rcases havailable : consumer.available (seqAt base produced) batchSize with ⟨entries, consumer'⟩
  obtain ⟨hentries, seen, hseen, hle, hcons, hprod⟩ := h.available hlt batchSize havailable
  dsimp only
  by_cases hzero : entries = 0
  · rw [if_pos hzero]
    rw [hzero] at hentries
    exact ⟨hentries.symm, hcons, seen, hseen, hprod, by omega⟩
  · rw [if_neg hzero]
    refine ⟨hcons, hentries, ?_, seen, hseen, hprod, hle⟩
    change consumer'.cachedCons + entries = _
    rw [hcons, seqAt_add_toNat]

/-- `unpeek` gives entries back. -/
theorem TracksFrom.unpeek (h : TracksFrom base consumer handed produced) {entries : BitVec 32}
    (hle : entries.toNat ≤ handed) :
    TracksFrom base (consumer.unpeek entries) (handed - entries.toNat) produced := by
  obtain ⟨seen, hseen, hprod, hhanded⟩ := h.prod
  refine ⟨?_, seen, hseen, hprod, by omega⟩
  change consumer.cachedCons - entries = _
  have hsplit : seqAt base handed = seqAt base (handed - entries.toNat) + entries := by
    rw [← BitVec.setWidth_eq (x := entries), ← BitVec.ofNat_toNat, seqAt_add]
    simp [Nat.sub_add_cancel hle]
  rw [h.cons, hsplit, BitVec.add_sub_cancel]

end Consumer

end Farsight
