import Farsight.Lib.Ring
import Farsight.Xdp.Ring

/-!
# Rings as queues

A ring shared with the kernel, with its slots and both ends. The program is at one end, a `Producer`
or a `Consumer`, and the kernel at the other. The kernel is assumed to move its own counter only,
within what has been published or freed. Next to the words of the ring a state has the history of
the queue, with counts that do not wrap.

* `ProducerRing`, `ConsumerRing` — the two kinds, with a step for each operation and one for the
  kernel;
* `ProducerRing.Inv`, `ConsumerRing.Inv` — the words are the counts modulo 2³², and the entries that
  were not taken yet are in their slots;
* `rings_exact` — whatever the counters have come to, the rings are queues.
-/

namespace Farsight

/-! ### Slots -/

/-- The number of slots of a ring, a power of two. -/
structure RingSize where
  entries : ℕ
  isPow : ∃ k < 32, entries = 2 ^ k

namespace RingSize

variable {T : Type} (size : RingSize)

theorem pos : 0 < size.entries := by
  obtain ⟨k, -, hk⟩ := size.isPow
  rw [hk]
  exact Nat.two_pow_pos k

/-- The size fits into the word that the source keeps it in, so counts of entries in the ring do not
wrap. -/
theorem lt : size.entries < 2 ^ 32 := by
  obtain ⟨k, hlt, hk⟩ := size.isPow
  rw [hk]
  exact Nat.pow_lt_pow_right (by decide) hlt

/-- The size divides 2³², so the wrap of a counter does not move the slots: `slot_seqAt` rests on
it. -/
theorem dvd : size.entries ∣ 2 ^ 32 := by
  obtain ⟨k, hlt, hk⟩ := size.isPow
  rw [hk]
  exact Nat.pow_dvd_pow 2 hlt.le

/-- `size`, as the source has it. -/
def word : BitVec 32 :=
  .ofNat 32 size.entries

/-- The slot of an index, `index % self.mask`. -/
def slot (index : BitVec 32) : ℕ :=
  index.toNat % size.entries

/-- The contents of `n` slots from an index on. -/
def read (slots : ℕ → T) (index : BitVec 32) (n : ℕ) : List T :=
  (List.range n).map fun i => slots (size.slot (index + .ofNat 32 i))

/-- The counters wrap at a multiple of the size. -/
theorem slot_seqAt (base : BitVec 32) (n : ℕ) :
    size.slot (seqAt base n) = (base.toNat + n) % size.entries := by
  rw [slot, seqAt, BitVec.toNat_add, BitVec.toNat_ofNat, Nat.add_mod_mod,
    Nat.mod_mod_of_dvd _ size.dvd]

/-- Reading by index is reading a window of the ring by count: the wrapped index has gone from the
statement, so the results about windows apply. -/
theorem read_seqAt (slots : ℕ → T) (base : BitVec 32) (a n : ℕ) :
    size.read slots (seqAt base a) n = Ring.window slots size.entries (base.toNat + a) n := by
  rw [read, Ring.window, Ring.slots, List.map_map]
  refine List.map_congr_left fun i _ => ?_
  rw [seqAt_add, slot_seqAt, Function.comp_apply, Nat.add_assoc]

/-- What lies in the slots from an index on is held there. This is how a ring that is not empty at
the start enters the invariant. -/
theorem holds_read (slots : ℕ → T) (base : BitVec 32) (n : ℕ) :
    Ring.Holds slots size.entries base.toNat 0 (size.read slots base n) := by
  have hread := size.read_seqAt slots base 0 n
  rw [seqAt_zero, Nat.add_zero] at hread
  rw [hread]
  exact Ring.holds_window slots size.entries base.toNat n

@[simp] theorem length_read (slots : ℕ → T) (index : BitVec 32) (n : ℕ) :
    (size.read slots index n).length = n := by
  rw [read, List.length_map, List.length_range]

/-- Writing the slots one after the other. -/
theorem read_update {slots : ℕ → T} {index : BitVec 32} {n : ℕ} (hn : n < size.entries) (x : T) :
    size.read (Function.update slots (size.slot (index + .ofNat 32 n)) x) index (n + 1) =
      size.read slots index n ++ [x] := by
  rw [read, List.range_succ, List.map_append, List.map_singleton, Function.update_self, read]
  congr 1
  refine List.map_congr_left fun i hi => Function.update_of_ne ?_ ..
  rw [List.mem_range] at hi
  change size.slot (seqAt index i) ≠ size.slot (seqAt index n)
  rw [slot_seqAt, slot_seqAt]
  exact Ring.mod_ne (by omega) (by omega)

end RingSize

/-! ### The cursors of a new ring -/

/-- `RingKind`. -/
inductive RingKind where
  | fill
  | complete
  | tx
  | rx
  deriving DecidableEq, Repr

/-- `cached_prod` and `cached_cons` in `Ring::new`, where the shared counters are `prod` and
`cons`. -/
def RingKind.cursors (size prod cons : BitVec 32) : RingKind → BitVec 32 × BitVec 32
  | .fill => (0, size)
  | .complete => (0, 0)
  | .tx => (prod, cons + size)
  | .rx => (prod, cons)

/-! ### A ring that the kernel reads -/

/-- A ring with the program as its producer. -/
structure ProducerRing (T : Type) where
  producer : Producer
  /-- The counters in shared memory. -/
  prod : BitVec 32
  cons : BitVec 32
  slots : ℕ → T
  /-- How many entries were reserved. -/
  reserved : ℕ
  /-- The entries that were published. -/
  published : List T
  /-- The entries that the kernel has consumed. -/
  seen : List T

/-- An operation on a ring that the kernel reads. -/
inductive ProducerAct (T : Type) where
  | reserve (batchSize : BitVec 32)
  /-- `ring[index] = x`. -/
  | write (index : BitVec 32) (x : T)
  | submit (batchSize : BitVec 32)
  /-- The kernel reads the next entries and moves its counter. -/
  | consume (count : BitVec 32)

namespace ProducerRing

variable {T : Type} (size : RingSize)

/-- One operation. The program writes and submits what it has reserved, and the kernel consumes what
was published. -/
def step (s : ProducerRing T) : ProducerAct T → ProducerRing T
  | .reserve batchSize =>
    match s.producer.reserve size.word s.cons batchSize with
    | (some _, producer) =>
      { s with producer := producer, reserved := s.reserved + batchSize.toNat }
    | (none, producer) => { s with producer := producer }
  | .write index x =>
    -- only what is reserved and not submitted belongs to the program
    if index - s.prod < s.producer.cachedProd - s.prod then
      { s with slots := Function.update s.slots (size.slot index) x }
    else s
  | .submit batchSize =>
    if batchSize ≤ s.producer.cachedProd - s.prod then
      { s with
        prod := s.prod + batchSize
        published := s.published ++ size.read s.slots s.prod batchSize.toNat }
    else s
  | .consume count =>
    -- the kernel does not go past the shared counter
    if count ≤ s.prod - s.cons then
      { s with
        cons := s.cons + count
        seen := s.seen ++ size.read s.slots s.cons count.toNat }
    else s

/-- A ring as `Ring::new` finds it and sets its cursors. Entries that were published before count as
published. -/
structure Starts (kind : RingKind) (s : ProducerRing T) : Prop where
  ofKind : kind = .tx ∨ kind = .fill ∧ s.prod = 0 ∧ s.cons = 0
  cursors : (s.producer.cachedProd, s.producer.cachedCons) = kind.cursors size.word s.prod s.cons
  prod : s.prod = s.cons + .ofNat 32 s.published.length
  room : s.published.length ≤ size.entries
  contents : size.read s.slots s.cons s.published.length = s.published
  reserved : s.reserved = s.published.length
  seen : s.seen = []

/-- What a queue is on this side. -/
structure Exact (s : ProducerRing T) : Prop where
  /-- At most as many entries as there are slots are reserved and not consumed. -/
  outstanding : s.reserved ≤ s.seen.length + size.entries
  /-- What `reserve` hands out holds no published entry that was not consumed. -/
  reserve_some : ∀ batchSize index,
    (s.producer.reserve size.word s.cons batchSize).1 = some index →
      ∀ i < batchSize.toNat, ∀ k < (s.prod - s.cons).toNat,
        size.slot (index + .ofNat 32 i) ≠ size.slot (s.cons + .ofNat 32 k)
  /-- `reserve` fails only if there is no room. -/
  reserve_none : ∀ batchSize, (s.producer.reserve size.word s.cons batchSize).1 = none →
    s.seen.length + size.entries - s.reserved < batchSize.toNat
  /-- The kernel has seen the published entries in order, each once. -/
  seen : s.seen <+: s.published
  /-- It will see the others. -/
  unseen : size.read s.slots s.cons (s.prod - s.cons).toNat = s.published.drop s.seen.length

/-- The words are the counts modulo 2³², counted from the first entry that the kernel consumes. -/
structure Inv (base : BitVec 32) (s : ProducerRing T) : Prop where
  cons : s.cons = seqAt base s.seen.length
  prod : s.prod = seqAt base s.published.length
  tracks : Producer.TracksFrom base s.producer size.entries s.reserved s.seen.length
  seen_le : s.seen.length ≤ s.published.length
  published_le : s.published.length ≤ s.reserved
  seen : s.seen = s.published.take s.seen.length
  holds : Ring.Holds s.slots size.entries base.toNat s.seen.length s.published

variable {size} {base : BitVec 32} {s : ProducerRing T}

/-- The program is never more than one turn ahead of the kernel. The cached counter is behind the
real one, so room found by the one is there for the other. -/
theorem Inv.reserved_le (h : Inv size base s) : s.reserved ≤ s.seen.length + size.entries := by
  obtain ⟨k, hk, -, hroom⟩ := h.tracks.cons
  omega

/-- The entries that were published and not consumed. -/
theorem Inv.unseen (h : Inv size base s) :
    (s.prod - s.cons).toNat = s.published.length - s.seen.length := by
  have := h.reserved_le
  have := h.published_le
  have := size.lt
  rw [h.prod, h.cons, toNat_seqAt_sub_of_le h.seen_le (by omega)]

/-- The entries that were reserved and not published. -/
theorem Inv.unpublished (h : Inv size base s) :
    (s.producer.cachedProd - s.prod).toNat = s.reserved - s.published.length := by
  have := h.reserved_le
  have := h.seen_le
  have := size.lt
  rw [h.tracks.prod, h.prod, toNat_seqAt_sub_of_le h.published_le (by omega)]

/-- A new ring satisfies the invariant, with its consumer counter as the base. The fill ring is the
one whose cursors are constants: it has to start at counters of zero. -/
theorem Starts.inv {kind : RingKind} (h : Starts size kind s) : Inv size s.cons s := by
  have hseen : s.seen.length = 0 := by rw [h.seen, List.length_nil]
  have hcursors := h.cursors
  -- a fill ring starts with cursors of zero and its size, which is where its counters are
  have hprod : s.producer.cachedProd = seqAt s.cons s.published.length := by
    rcases h.ofKind with rfl | ⟨rfl, hzero, -⟩
    · exact (congrArg Prod.fst hcursors).trans h.prod
    · exact (congrArg Prod.fst hcursors).trans (hzero.symm.trans h.prod)
  have hcons : s.producer.cachedCons = seqAt s.cons (0 + size.entries) := by
    rw [Nat.zero_add]
    rcases h.ofKind with rfl | ⟨rfl, -, hzero⟩
    · exact congrArg Prod.snd hcursors
    · have hword : s.producer.cachedCons = size.word := congrArg Prod.snd hcursors
      rw [hword, hzero, seqAt]
      exact (BitVec.zero_add _).symm
  constructor
  · rw [hseen, seqAt_zero]
  · exact h.prod
  · rw [h.reserved]
    exact ⟨hprod, 0, Nat.zero_le _, hcons, by have := h.room; omega⟩
  · omega
  · exact h.reserved.ge
  · rw [hseen, h.seen, List.take_zero]
  · have hholds := size.holds_read s.slots s.cons s.published.length
    rw [h.contents] at hholds
    rw [hseen]
    exact hholds

/-! One lemma for each operation. -/

/-- A batch that was reserved starts at the count of what was reserved before, as a word. -/
theorem Inv.reserve_some (h : Inv size base s) {batchSize index : BitVec 32} {producer : Producer}
    (hreserve : s.producer.reserve size.word s.cons batchSize = (some index, producer)) :
    index = seqAt base s.reserved ∧
      Inv size base { s with producer := producer, reserved := s.reserved + batchSize.toNat } := by
  have hspec := h.tracks.reserve size.lt (h.seen_le.trans h.published_le) batchSize
  rw [← h.cons] at hspec
  rw [RingSize.word] at hreserve
  rw [hreserve] at hspec
  exact ⟨hspec.1, h.cons, h.prod, hspec.2, h.seen_le, h.published_le.trans (Nat.le_add_right _ _),
    h.seen, h.holds⟩

/-- A batch that was refused did not fit, even into what the kernel has really consumed: `reserve`
loads the shared counter before it gives up. -/
theorem Inv.reserve_none (h : Inv size base s) {batchSize : BitVec 32} {producer : Producer}
    (hreserve : s.producer.reserve size.word s.cons batchSize = (none, producer)) :
    s.seen.length + size.entries < s.reserved + batchSize.toNat ∧
      Inv size base { s with producer := producer } := by
  have hspec := h.tracks.reserve size.lt (h.seen_le.trans h.published_le) batchSize
  rw [← h.cons] at hspec
  rw [RingSize.word] at hreserve
  rw [hreserve] at hspec
  exact ⟨hspec.1, h.cons, h.prod, hspec.2, h.seen_le, h.published_le, h.seen, h.holds⟩

/-- A write to what is reserved leaves the published entries. -/
theorem Inv.write (h : Inv size base s) {index : BitVec 32}
    (hindex : index - s.prod < s.producer.cachedProd - s.prod) (x : T) :
    Inv size base { s with slots := Function.update s.slots (size.slot index) x } := by
  have hlt : (index - s.prod).toNat < s.reserved - s.published.length := by
    rw [← h.unpublished]
    exact hindex
  have hroom := h.reserved_le
  -- the position of the index
  have hpos : index = seqAt base (s.published.length + (index - s.prod).toNat) := by
    rw [seqAt_add_toNat, ← h.prod, BitVec.add_comm, BitVec.sub_add_cancel]
  refine ⟨h.cons, h.prod, h.tracks, h.seen_le, h.published_le, h.seen, ?_⟩
  rw [hpos, size.slot_seqAt]
  -- it is after the published entries and less than a ring ahead of the first that is not consumed
  exact h.holds.write (Nat.le_add_right _ _) (by omega) x

/-- Publishing a part of what is reserved. The entries that the program wrote become the end of the
published list, whatever they are, so nothing has to be known about the writes. -/
theorem Inv.submit (h : Inv size base s) {batchSize : BitVec 32}
    (hsize : batchSize ≤ s.producer.cachedProd - s.prod) :
    Inv size base
      { s with
        prod := s.prod + batchSize
        published := s.published ++ size.read s.slots s.prod batchSize.toNat } := by
  -- the words differ by the number of unpublished entries, so the guard bounds the batch by it
  have hle : batchSize.toNat ≤ s.reserved - s.published.length := by
    rw [← h.unpublished]
    exact hsize
  have hpublished := h.published_le
  have hseen := h.seen_le
  have hread : size.read s.slots s.prod batchSize.toNat =
      Ring.window s.slots size.entries (base.toNat + s.published.length) batchSize.toNat := by
    rw [h.prod, size.read_seqAt]
  have hlength : (s.published ++ size.read s.slots s.prod batchSize.toNat).length =
      s.published.length + batchSize.toNat := by
    rw [hread, List.length_append, Ring.length_window]
  refine ⟨h.cons, ?_, h.tracks, ?_, ?_, ?_, ?_⟩
  · change s.prod + batchSize = _
    rw [hlength, seqAt_add_toNat, ← h.prod]
  · change s.seen.length ≤ (s.published ++ _).length
    omega
  · change (s.published ++ _).length ≤ s.reserved
    omega
  · change s.seen = (s.published ++ _).take s.seen.length
    rw [List.take_append_of_le_length h.seen_le]
    exact h.seen
  · change Ring.Holds s.slots size.entries base.toNat s.seen.length (s.published ++ _)
    rw [hread]
    -- the slots have not changed, but more of them are published
    exact h.holds.append batchSize.toNat

/-- The kernel reads published entries. -/
theorem Inv.read (h : Inv size base s) {n : ℕ} (hn : s.seen.length + n ≤ s.published.length) :
    size.read s.slots s.cons n = (s.published.drop s.seen.length).take n := by
  rw [h.cons, size.read_seqAt]
  exact h.holds.window (Nat.le_refl _) hn

/-- The kernel takes published entries. What it reads off the slots is the next part of the
published list, and the slots of the rest are as before. -/
theorem Inv.consume (h : Inv size base s) {count : BitVec 32} (hcount : count ≤ s.prod - s.cons) :
    Inv size base
      { s with
        cons := s.cons + count
        seen := s.seen ++ size.read s.slots s.cons count.toNat } := by
  have hle : count.toNat ≤ s.published.length - s.seen.length := by
    rw [← h.unseen]
    exact hcount
  have hseen := h.seen_le
  have hread := h.read (n := count.toNat) (by omega)
  have hlength : (s.seen ++ size.read s.slots s.cons count.toNat).length =
      s.seen.length + count.toNat := by
    rw [hread, List.length_append, List.length_take, List.length_drop]
    omega
  refine ⟨?_, h.prod, ?_, ?_, h.published_le, ?_, ?_⟩
  · change s.cons + count = _
    rw [hlength, seqAt_add_toNat, ← h.cons]
  · -- the cached counter is now further behind, which `TracksFrom` allows
    refine h.tracks.mono ?_
    rw [hlength]
    exact Nat.le_add_right _ _
  · change (s.seen ++ _).length ≤ s.published.length
    omega
  · change s.seen ++ _ = s.published.take (s.seen ++ _).length
    -- what was seen before is the start of the published list, and what was read now is what
    -- follows
    rw [hlength, List.take_add, ← h.seen, hread]
  · refine h.holds.mono ?_
    rw [hlength]
    exact Nat.le_add_right _ _

/-- Every operation of the program and of the kernel keeps the invariant. An operation whose guard
fails changes nothing, and a `reserve` that fails may still refresh the cached counter. -/
theorem Inv.step (h : Inv size base s) (act : ProducerAct T) : Inv size base (s.step size act) := by
  cases act with
  | reserve batchSize =>
    rw [ProducerRing.step]
    split
    · next heq => exact (h.reserve_some heq).2
    · next heq => exact (h.reserve_none heq).2
  | write index x =>
    rw [ProducerRing.step]
    split
    · next hindex => exact h.write hindex x
    · exact h
  | submit batchSize =>
    rw [ProducerRing.step]
    split
    · next hsize => exact h.submit hsize
    · exact h
  | consume count =>
    rw [ProducerRing.step]
    split
    · next hcount => exact h.consume hcount
    · exact h

/-- The invariant gives what a queue is, for the words as the source compares them. -/
theorem Inv.exact (h : Inv size base s) : Exact size s := by
  have hroom := h.reserved_le
  have hseen := h.seen_le
  have hpublished := h.published_le
  constructor
  · exact hroom
  · intro batchSize index hindex i hi k hk
    rw [h.unseen] at hk
    obtain ⟨hpos, hinv⟩ := h.reserve_some (Prod.ext hindex rfl)
    -- both positions are within one turn of the ring, and differ
    have hroom' : s.reserved + batchSize.toNat ≤ s.seen.length + size.entries := hinv.reserved_le
    rw [hpos, h.cons, seqAt_add, seqAt_add, size.slot_seqAt, size.slot_seqAt]
    exact (Ring.mod_ne (by omega) (by omega)).symm
  · intro batchSize hnone
    have hfull := (h.reserve_none (Prod.ext hnone rfl)).1
    omega
  · rw [h.seen]
    exact List.take_prefix _ _
  · rw [h.unseen, h.read (by omega), List.take_of_length_le (by rw [List.length_drop])]

end ProducerRing

/-! ### A ring that the kernel fills -/

/-- A ring with the program as its consumer. -/
structure ConsumerRing (T : Type) where
  consumer : Consumer
  /-- The counters in shared memory. -/
  prod : BitVec 32
  cons : BitVec 32
  slots : ℕ → T
  /-- The entries that the kernel has produced. -/
  produced : List T
  /-- The entries that `peek` has returned, without those of an `unpeek`. -/
  handed : List T
  /-- How many entries were released. -/
  released : ℕ

/-- An operation on a ring that the kernel fills. -/
inductive ConsumerAct (T : Type) where
  /-- The kernel writes an entry and moves its counter. -/
  | produce (x : T)
  | peek (batchSize : BitVec 32)
  | unpeek (entries : BitVec 32)
  | release (batchSize : BitVec 32)

namespace ConsumerRing

variable {T : Type} (size : RingSize)

/-- One operation. The kernel fills free slots, and the program gives back or releases what it has
peeked. -/
def step (s : ConsumerRing T) : ConsumerAct T → ConsumerRing T
  | .produce x =>
    -- the kernel does not overwrite what was not released
    if (s.prod - s.cons).toNat < size.entries then
      { s with
        slots := Function.update s.slots (size.slot s.prod) x
        prod := s.prod + 1
        produced := s.produced ++ [x] }
    else s
  | .peek batchSize =>
    match s.consumer.peek s.prod batchSize with
    | (some (index, entries), consumer) =>
      { s with
        consumer := consumer
        handed := s.handed ++ size.read s.slots index entries.toNat }
    | (none, consumer) => { s with consumer := consumer }
  | .unpeek entries =>
    if entries ≤ s.consumer.cachedCons - s.cons then
      { s with
        consumer := s.consumer.unpeek entries
        handed := s.handed.take (s.handed.length - entries.toNat) }
    else s
  | .release batchSize =>
    if batchSize ≤ s.consumer.cachedCons - s.cons then
      { s with cons := s.cons + batchSize, released := s.released + batchSize.toNat }
    else s

/-- A ring as `Ring::new` finds it and sets its cursors. -/
structure Starts (kind : RingKind) (s : ConsumerRing T) : Prop where
  ofKind : kind = .rx ∨ kind = .complete ∧ s.prod = 0 ∧ s.cons = 0
  cursors : (s.consumer.cachedProd, s.consumer.cachedCons) = kind.cursors size.word s.prod s.cons
  prod : s.prod = s.cons + .ofNat 32 s.produced.length
  room : s.produced.length ≤ size.entries
  contents : size.read s.slots s.cons s.produced.length = s.produced
  handed : s.handed = []
  released : s.released = 0

/-- What a queue is on this side. -/
structure Exact (s : ConsumerRing T) : Prop where
  /-- The program has got the produced entries in order, each once. -/
  handed : s.handed <+: s.produced
  /-- `peek` returns the next ones, as many as there are up to the size of the batch. -/
  peek_some : ∀ batchSize index entries,
    (s.consumer.peek s.prod batchSize).1 = some (index, entries) →
      entries.toNat = min batchSize.toNat (s.produced.length - s.handed.length) ∧
      size.read s.slots index entries.toNat =
        (s.produced.drop s.handed.length).take entries.toNat
  /-- It returns nothing only if there are none, or none were asked for. -/
  peek_none : ∀ batchSize, (s.consumer.peek s.prod batchSize).1 = none →
    batchSize = 0 ∨ s.handed = s.produced
  /-- What was peeked stays in its slots until it is released. -/
  unreleased : size.read s.slots s.cons (s.handed.length - s.released) = s.handed.drop s.released

/-- The words are the counts modulo 2³², counted from the first entry that the program gets. -/
structure Inv (base : BitVec 32) (s : ConsumerRing T) : Prop where
  cons : s.cons = seqAt base s.released
  prod : s.prod = seqAt base s.produced.length
  tracks : Consumer.TracksFrom base s.consumer s.handed.length s.produced.length
  released_le : s.released ≤ s.handed.length
  room : s.produced.length ≤ s.released + size.entries
  handed : s.handed = s.produced.take s.handed.length
  holds : Ring.Holds s.slots size.entries base.toNat s.released s.produced

variable {size} {base : BitVec 32} {s : ConsumerRing T}

/-- The entries that were peeked and not released. -/
theorem Inv.unreleased (h : Inv size base s) :
    (s.consumer.cachedCons - s.cons).toNat = s.handed.length - s.released := by
  have := h.tracks.le
  have := h.room
  have := size.lt
  rw [h.tracks.cons, h.cons, toNat_seqAt_sub_of_le h.released_le (by omega)]

/-- The entries that are in the ring. -/
theorem Inv.filled (h : Inv size base s) :
    (s.prod - s.cons).toNat = s.produced.length - s.released := by
  have hle := h.released_le.trans h.tracks.le
  have := h.room
  have := size.lt
  rw [h.prod, h.cons, toNat_seqAt_sub_of_le hle (by omega)]

/-- A new ring satisfies the invariant. Entries that the kernel put there before the program looked
are among the produced ones. -/
theorem Starts.inv {kind : RingKind} (h : Starts size kind s) : Inv size s.cons s := by
  have hhanded : s.handed.length = 0 := by rw [h.handed, List.length_nil]
  have hcursors := h.cursors
  -- a completion ring starts with cursors of zero, which is where its counters are
  have hprod : s.consumer.cachedProd = seqAt s.cons s.produced.length := by
    rcases h.ofKind with rfl | ⟨rfl, hzero, -⟩
    · exact (congrArg Prod.fst hcursors).trans h.prod
    · exact (congrArg Prod.fst hcursors).trans (hzero.symm.trans h.prod)
  have hcons : s.consumer.cachedCons = seqAt s.cons 0 := by
    rw [seqAt_zero]
    rcases h.ofKind with rfl | ⟨rfl, -, hzero⟩
    · exact congrArg Prod.snd hcursors
    · exact (congrArg Prod.snd hcursors).trans hzero.symm
  constructor
  · rw [h.released, seqAt_zero]
  · exact h.prod
  · rw [hhanded]
    exact ⟨hcons, s.produced.length, Nat.le_refl _, hprod, Nat.zero_le _⟩
  · rw [h.released]
    exact Nat.zero_le _
  · have := h.room
    omega
  · rw [hhanded, h.handed, List.take_zero]
  · have hholds := size.holds_read s.slots s.cons s.produced.length
    rw [h.contents] at hholds
    rw [h.released]
    exact hholds

/-! One lemma for each operation. -/

/-- The kernel fills a free slot. There is one as long as the words differ by less than the size,
and the slot of the next index holds nothing that is not released. -/
theorem Inv.produce (h : Inv size base s) (hroom : (s.prod - s.cons).toNat < size.entries) (x : T) :
    Inv size base
      { s with
        slots := Function.update s.slots (size.slot s.prod) x
        prod := s.prod + 1
        produced := s.produced ++ [x] } := by
  have hle := h.tracks.le
  have hreleased := h.released_le
  rw [h.filled] at hroom
  have hlength : (s.produced ++ [x]).length = s.produced.length + 1 := List.length_append
  refine ⟨h.cons, ?_, ?_, h.released_le, ?_, ?_, ?_⟩
  · change s.prod + 1 = _
    rw [hlength, ← seqAt_add, ← h.prod]
    rfl
  · refine h.tracks.mono ?_
    rw [hlength]
    exact Nat.le_succ _
  · change (s.produced ++ [x]).length ≤ s.released + size.entries
    omega
  · change s.handed = (s.produced ++ [x]).take s.handed.length
    rw [List.take_append_of_le_length hle]
    exact h.handed
  · change Ring.Holds (Function.update s.slots (size.slot s.prod) x) _ _ _ _
    rw [h.prod, size.slot_seqAt]
    -- the new entry is less than one turn past the oldest one, so it overwrites none
    exact h.holds.push (by omega) x

/-- Entries that were not released are in their slots. -/
theorem Inv.read (h : Inv size base s) {a n : ℕ} (ha : s.released ≤ a)
    (hn : a + n ≤ s.produced.length) :
    size.read s.slots (seqAt base a) n = (s.produced.drop a).take n := by
  rw [size.read_seqAt]
  exact h.holds.window ha hn

/-- A batch that `peek` returns is the next part of what the kernel produced, as long as was asked
for or as there is. -/
theorem Inv.peek_some (h : Inv size base s) {batchSize index entries : BitVec 32}
    {consumer : Consumer}
    (hpeek : s.consumer.peek s.prod batchSize = (some (index, entries), consumer)) :
    entries.toNat = min batchSize.toNat (s.produced.length - s.handed.length) ∧
      index = seqAt base s.handed.length ∧
      size.read s.slots index entries.toNat =
        (s.produced.drop s.handed.length).take entries.toNat ∧
      Inv size base
        { s with
          consumer := consumer
          handed := s.handed ++ size.read s.slots index entries.toNat } := by
  have hle := h.tracks.le
  have hroom := h.room
  have hreleased := h.released_le
  have hlt := size.lt
  -- the entries in the ring are fewer than 2³², so `peek` counts them right
  have hspec := h.tracks.peek (by omega) batchSize
  rw [← h.prod, hpeek] at hspec
  obtain ⟨hindex, hentries, htracks⟩ := hspec
  have hread : size.read s.slots index entries.toNat =
      (s.produced.drop s.handed.length).take entries.toNat := by
    rw [hindex]
    exact h.read h.released_le (by omega)
  have hlength : (s.handed ++ size.read s.slots index entries.toNat).length =
      s.handed.length + entries.toNat := by
    rw [hread, List.length_append, List.length_take, List.length_drop]
    omega
  -- the slots keep their contents: a peek only moves the cached cursor
  refine ⟨hentries, hindex, hread, h.cons, h.prod, ?_, ?_, h.room, ?_, h.holds⟩
  · change Consumer.TracksFrom base consumer (s.handed ++ _).length _
    rw [hlength]
    exact htracks
  · change s.released ≤ (s.handed ++ _).length
    omega
  · change s.handed ++ _ = s.produced.take (s.handed ++ _).length
    rw [hlength, List.take_add, ← h.handed, hread]

/-- `peek` returns nothing only if nothing was asked for or nothing is there. -/
theorem Inv.peek_none (h : Inv size base s) {batchSize : BitVec 32} {consumer : Consumer}
    (hpeek : s.consumer.peek s.prod batchSize = (none, consumer)) :
    min batchSize.toNat (s.produced.length - s.handed.length) = 0 ∧
      Inv size base { s with consumer := consumer } := by
  have hroom := h.room
  have hreleased := h.released_le
  have hlt := size.lt
  have hspec := h.tracks.peek (by omega) batchSize
  rw [← h.prod, hpeek] at hspec
  exact ⟨hspec.1, h.cons, h.prod, hspec.2, h.released_le, h.room, h.handed, h.holds⟩

/-- The entries that were handed out are the first that were produced, so a part of the one list is
a part of the other. -/
theorem Inv.take_handed (h : Inv size base s) {n : ℕ} (hn : n ≤ s.handed.length) :
    s.handed.take n = s.produced.take n := by
  rw [h.handed, List.take_take, Nat.min_eq_left hn]

/-- The entries from some peeked one on: the peeked ones, and those still in the ring. -/
theorem Inv.drop_eq (h : Inv size base s) {n : ℕ} (hn : n ≤ s.handed.length) :
    s.produced.drop n = s.handed.drop n ++ s.produced.drop s.handed.length := by
  -- the peeked entries are the first of the produced ones
  have hsplit : s.produced = s.handed ++ s.produced.drop s.handed.length := by
    nth_rewrite 1 [← List.take_append_drop s.handed.length s.produced]
    rw [← h.handed]
  nth_rewrite 1 [hsplit]
  exact List.drop_append_of_le_length hn

/-- Giving back the last entries of a peek. They were not released, so their slots still hold them,
and the next peek returns them again. -/
theorem Inv.unpeek (h : Inv size base s) {entries : BitVec 32}
    (hentries : entries ≤ s.consumer.cachedCons - s.cons) :
    Inv size base
      { s with
        consumer := s.consumer.unpeek entries
        handed := s.handed.take (s.handed.length - entries.toNat) } := by
  -- only entries that are peeked and not released can be given back
  have hle : entries.toNat ≤ s.handed.length - s.released := by
    rw [← h.unreleased]
    exact hentries
  have hreleased := h.released_le
  have hlength : (s.handed.take (s.handed.length - entries.toNat)).length =
      s.handed.length - entries.toNat := by
    rw [List.length_take]
    omega
  refine ⟨h.cons, h.prod, ?_, ?_, h.room, ?_, h.holds⟩
  · change Consumer.TracksFrom base _ (s.handed.take _).length _
    rw [hlength]
    exact h.tracks.unpeek (by omega)
  · change s.released ≤ (s.handed.take _).length
    omega
  · change s.handed.take _ = s.produced.take (s.handed.take _).length
    rw [hlength]
    exact h.take_handed (Nat.sub_le _ _)

/-- Releasing peeked entries hands their slots back to the kernel, so the slots that have to be kept
start later. -/
theorem Inv.release (h : Inv size base s) {batchSize : BitVec 32}
    (hsize : batchSize ≤ s.consumer.cachedCons - s.cons) :
    Inv size base
      { s with cons := s.cons + batchSize, released := s.released + batchSize.toNat } := by
  -- only entries that were handed out are given back
  have hle : batchSize.toNat ≤ s.handed.length - s.released := by
    rw [← h.unreleased]
    exact hsize
  have hreleased := h.released_le
  refine ⟨?_, h.prod, h.tracks, ?_, ?_, h.handed, h.holds.mono (Nat.le_add_right _ _)⟩
  · change s.cons + batchSize = _
    rw [seqAt_add_toNat, ← h.cons]
  · change s.released + batchSize.toNat ≤ s.handed.length
    omega
  · have hroom := h.room
    change s.produced.length ≤ s.released + batchSize.toNat + size.entries
    omega

/-- Every operation of the kernel and of the program keeps the invariant. -/
theorem Inv.step (h : Inv size base s) (act : ConsumerAct T) : Inv size base (s.step size act) := by
  cases act with
  | produce x =>
    rw [ConsumerRing.step]
    split
    · next hroom => exact h.produce hroom x
    · exact h
  | peek batchSize =>
    rw [ConsumerRing.step]
    split
    · next heq => exact (h.peek_some heq).2.2.2
    · next heq => exact (h.peek_none heq).2
  | unpeek entries =>
    rw [ConsumerRing.step]
    split
    · next hentries => exact h.unpeek hentries
    · exact h
  | release batchSize =>
    rw [ConsumerRing.step]
    split
    · next hsize => exact h.release hsize
    · exact h

/-- The invariant gives what a queue is on this side. -/
theorem Inv.exact (h : Inv size base s) : Exact size s := by
  have hle := h.tracks.le
  have hreleased := h.released_le
  constructor
  · rw [h.handed]
    exact List.take_prefix _ _
  · intro batchSize index entries hsome
    obtain ⟨hentries, -, hread, -⟩ := h.peek_some (Prod.ext hsome rfl)
    exact ⟨hentries, hread⟩
  · intro batchSize hnone
    have hzero := (h.peek_none (Prod.ext hnone rfl)).1
    -- the batch is empty, or the ring is
    rcases Nat.eq_zero_or_pos batchSize.toNat with hbatch | hbatch
    · exact .inl (BitVec.eq_of_toNat_eq hbatch)
    · refine .inr ?_
      rw [h.handed, List.take_of_length_le (by omega)]
  · rw [h.cons, h.read (Nat.le_refl _) (by omega)]
    nth_rewrite 2 [h.handed]
    rw [List.drop_take]

end ConsumerRing

/-! ### The rings are queues -/

/-- **Rings are exact queues.** In every run of either kind of ring, of any length, with a kernel
that stays within what was published or freed, the reservations never touch what the kernel has not
consumed, and every entry arrives once and in order. -/
theorem rings_exact {T : Type} (size : RingSize) (kind : RingKind) :
    (∀ s : ProducerRing T, s.Starts size kind → ∀ acts : List (ProducerAct T),
      (acts.foldl (ProducerRing.step size) s).Exact size) ∧
    (∀ s : ConsumerRing T, s.Starts size kind → ∀ acts : List (ConsumerAct T),
      (acts.foldl (ConsumerRing.step size) s).Exact size) := by
  -- the invariant counts from where the kernel's counter was at the start
  constructor
  · intro s hs acts
    have hinv : ProducerRing.Inv size s.cons (acts.foldl (ProducerRing.step size) s) :=
      List.foldlRecOn acts _ hs.inv fun _ h act _ => h.step act
    exact hinv.exact
  · intro s hs acts
    have hinv : ConsumerRing.Inv size s.cons (acts.foldl (ConsumerRing.step size) s) :=
      List.foldlRecOn acts _ hs.inv fun _ h act _ => h.step act
    exact hinv.exact

/-- A ring of four slots, whose counters are about to wrap. -/
def wrappingRing : ProducerRing ℕ where
  producer := ⟨0xFFFFFFFE, 2⟩
  prod := 0xFFFFFFFE
  cons := 0xFFFFFFFE
  slots := fun _ => 0
  reserved := 0
  published := []
  seen := []

/-- Three entries are published, of which the kernel consumes two. -/
def wrappingActs : List (ProducerAct ℕ) :=
  [.reserve 3, .write 0xFFFFFFFE 1, .write 0xFFFFFFFF 2, .write 0 3, .submit 3, .consume 2]

/-- The counters of this ring pass 2³², and the kernel still sees the first two entries, in
order. -/
theorem rings_exact_wrapping :
    (wrappingActs.foldl (ProducerRing.step ⟨4, 2, by decide⟩) wrappingRing).Exact
        ⟨4, 2, by decide⟩ ∧
      (wrappingActs.foldl (ProducerRing.step ⟨4, 2, by decide⟩) wrappingRing).seen = [1, 2] := by
  have hstarts : wrappingRing.Starts ⟨4, 2, by decide⟩ .tx :=
    ⟨.inl rfl, rfl, rfl, Nat.zero_le _, rfl, rfl, rfl⟩
  exact ⟨(rings_exact ⟨4, 2, by decide⟩ .tx).1 wrappingRing hstarts wrappingActs, by decide⟩

end Farsight
