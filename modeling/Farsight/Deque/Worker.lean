import Farsight.Deque.Buffer

/-!
# The deque, one operation at a time

`Worker` is the deque between two operations. The worker's own `buffer` cell and the shared
`inner.buffer` point to the same allocation then, so they are one field. `push` and `steal_batch`
fail with `Fault.outOfBounds` when a copy leaves its buffer, and with `Fault.panic` when an
allocation does.

* `Worker.resize_spec` — `resize` keeps the items;
* `Worker.push_spec` — a `push` whose slice fits the buffer it is copied into appends the slice;
* `Worker.steal_spec`, `Worker.stealBatch_spec` — the stealers take items from the front.
-/

namespace Farsight

open Machine

/-- `MIN_CAP`. -/
def minCap : ℕ := 64

/-- The deque between two operations. -/
structure Worker (T : Type) where
  consumed : Isize
  produced : Isize
  cachedCons : Isize
  buffer : Buffer T

/-- What a stealer returns. -/
inductive Steal (T : Type) where
  | empty
  | retry
  | success (value : T)
  deriving DecidableEq, Repr

/-- `b.wrapping_sub(f).max(0) as usize`. -/
def stealLen (b f : Isize) : ℕ :=
  (b - f).toInt.toNat

/-- `usize::min(len.div_ceil(2), dest.capacity()) as isize`. -/
def stealBatchSize (len capacity : ℕ) : Isize :=
  BitVec.ofNat 64 (min ((len + 1) / 2) capacity)

namespace Worker

variable {T : Type}

def new (size : ℕ+) : Except Fault (Worker T) := do
  let buffer ← Buffer.alloc size minCap
  return { consumed := 0, produced := 0, cachedCons := 0, buffer }

/-- Move the items to a new buffer of `newCap` slots. -/
def resize (size : ℕ+) (self : Worker T) (newCap : ℕ) : Except Fault (Worker T) := do
  let prod := self.produced
  let cons := self.consumed
  let old := self.buffer
  let new ← Buffer.alloc size newCap
  let slots ← Ring.copyAll old.cap old.slots new.cap new.slots (old.resizePlan new cons prod)
  return { self with buffer := new.withSlots slots }

/-- `prod.wrapping_sub(cons) >= buffer.cap as isize`, the test of `push`. -/
def fullFor (self : Worker T) (cons : Isize) : Bool :=
  (BitVec.ofNat 64 self.buffer.cap).sle (self.produced - cons)

/-- The first part of `push`: if the buffer looks full, reload `consumed`; if it still is, double
the buffer. The length of the slice plays no part. -/
def makeRoom (size : ℕ+) (self : Worker T) : Except Fault (Worker T) :=
  if self.fullFor self.cachedCons then
    let self := { self with cachedCons := self.consumed }
    if self.fullFor self.consumed then
      self.resize size (2 * self.buffer.cap)
    else
      return self
  else
    return self

/-- The second part of `push`: copy the slice behind index `prod` and publish it. -/
def copyTask (self : Worker T) (prod : Isize) (task : List T) : Except Fault (Worker T) := do
  let buffer := self.buffer
  let stop := prod + BitVec.ofNat 64 task.length
  let slots ← Ring.copyAll task.length (fun i => task[i]?) buffer.cap buffer.slots
    (buffer.pushPlan prod stop)
  return { self with produced := stop, buffer := buffer.withSlots slots }

def push (size : ℕ+) (self : Worker T) (task : List T) : Except Fault (Worker T) := do
  let prod := self.produced
  let self ← self.makeRoom size
  self.copyTask prod task

/-- `Stealer::steal`. Nothing happens between its loads and its compare-exchange, so it never
retries. -/
def steal (self : Worker T) : Steal (Option T) × Worker T :=
  let f := self.consumed
  let b := self.produced
  if stealLen b f = 0 then
    (.empty, self)
  else
    let task := self.buffer.slots (self.buffer.slotAt f)
    (.success task, { self with consumed := f + 1 })

/-- `Stealer::steal_batch` into an empty destination of the given capacity. -/
def stealBatch (self : Worker T) (capacity : ℕ) :
    Except Fault (Steal (List (Option T)) × Worker T) := do
  let f := self.consumed
  let b := self.produced
  let batchSize := stealBatchSize (stealLen b f) capacity
  if batchSize = 0 then
    return (.empty, self)
  else
    let buffer := self.buffer
    let dest ← Ring.copyAll buffer.cap buffer.slots capacity (fun _ => none)
      (buffer.stealPlan f batchSize)
    return (.success ((List.range batchSize.toNat).map dest),
      { self with consumed := f + batchSize })

/-! ### The items of a deque -/

/-- The number of items, `produced - consumed`. -/
def len (self : Worker T) : ℕ :=
  (self.produced - self.consumed).toNat

/-- The items, read from the slots of the indices `consumed .. produced`. -/
def items (self : Worker T) : List (Option T) :=
  (List.range self.len).map fun j =>
    self.buffer.slots (self.buffer.slotAt (self.consumed + BitVec.ofNat 64 j))

/-- The items are the slots of a ring, from `consumed` on. -/
theorem items_eq (self : Worker T) :
    self.items
      = (Ring.slots self.buffer.cap self.consumed.toNat self.len).map self.buffer.slots := by
  unfold items Ring.slots
  rw [List.map_map]
  refine List.map_congr_left fun j _ => ?_
  rw [Function.comp_apply, Buffer.slotAt_eq, Buffer.toNat_add_mod_cap]

@[simp] theorem length_items (self : Worker T) : self.items.length = self.len := by
  simp [items]

/-- A counter from another one on. -/
theorem add_toNat_sub (a b : Isize) : a + BitVec.ofNat 64 (b - a).toNat = b := by
  rw [BitVec.ofNat_toNat, BitVec.setWidth_eq, BitVec.add_comm, BitVec.sub_add_cancel]

theorem produced_eq (self : Worker T) :
    self.produced = self.consumed + BitVec.ofNat 64 self.len :=
  (add_toNat_sub self.consumed self.produced).symm

/-- The slot that the next item is written to. The counters wrap at `2 ^ 64`, which the capacity
divides. -/
theorem produced_mod_cap (self : Worker T) :
    self.produced.toNat % self.buffer.cap
      = (self.consumed.toNat + self.len) % self.buffer.cap := by
  rw [← self.buffer.toNat_add_mod_cap, ← self.produced_eq]

/-- Counter differences below `2 ^ 64` are exact. -/
theorem toNat_add_sub (a c : Isize) {n : ℕ} (h : (a - c).toNat + n < 2 ^ 64) :
    (a + BitVec.ofNat 64 n - c).toNat = (a - c).toNat + n := by
  rw [show a + BitVec.ofNat 64 n - c = a - c + BitVec.ofNat 64 n by
    rw [BitVec.sub_eq_add_neg, BitVec.sub_eq_add_neg, BitVec.add_assoc, BitVec.add_assoc,
      BitVec.add_comm (-c)]]
  rw [BitVec.toNat_add, BitVec.toNat_ofNat, Nat.add_mod_mod, Nat.mod_eq_of_lt h]

/-- To consume `n` shortens the distance of the counters by `n`. -/
theorem toNat_sub_add (a c : Isize) {n : ℕ} (h : n ≤ (a - c).toNat) :
    (a - (c + BitVec.ofNat 64 n)).toNat = (a - c).toNat - n := by
  have hlt := (a - c).isLt
  have hn : (BitVec.ofNat 64 n).toNat = n := by
    rw [BitVec.toNat_ofNat]
    exact Nat.mod_eq_of_lt (by omega)
  rw [show a - (c + BitVec.ofNat 64 n) = a - c - BitVec.ofNat 64 n by
    rw [BitVec.sub_eq_add_neg, BitVec.sub_eq_add_neg, BitVec.sub_eq_add_neg, BitVec.neg_add,
      BitVec.sub_eq_add_neg, BitVec.add_assoc]]
  rw [BitVec.toNat_sub_of_le (by rw [BitVec.le_def, hn]; exact h), hn]

/-! ### Making room -/

/-- The comparison of signed words says that the buffer is full, as long as the counters are less
than two capacities apart. -/
theorem fullFor_iff (self : Worker T) {cons : Isize}
    (h : (self.produced - cons).toNat < 2 * self.buffer.cap) :
    self.fullFor cons ↔ self.buffer.cap ≤ (self.produced - cons).toNat := by
  have hcap := self.buffer.two_mul_cap_le
  have hpos := self.buffer.cap_pos
  unfold fullFor
  rw [sle_iff_of_lt (by rw [Buffer.toNat_cap]; omega) (by omega), Buffer.toNat_cap]

theorem alloc_eq (size : ℕ+) {cap : ℕ} (hpow : cap.isPowerOfTwo) :
    (∃ new : Buffer T, Buffer.alloc size cap = .ok new ∧ new.cap = cap ∧ cap * size < 2 ^ 63) ∨
      ((Buffer.alloc size cap : Except Fault (Buffer T)) = .error .panic ∧
        ¬ cap * size < 2 ^ 63) := by
  unfold Buffer.alloc
  by_cases h : cap * size < 2 ^ 63
  · rw [dif_pos ⟨hpow, h⟩]
    exact .inl ⟨_, rfl, rfl, h⟩
  · rw [dif_neg fun h' => h h'.2]
    exact .inr ⟨rfl, h⟩

/-- **`resize` keeps the items**, if it can allocate. -/
theorem resize_spec (size : ℕ+) (self : Worker T) {newCap : ℕ} (hpow : newCap.isPowerOfTwo)
    (hcap : self.buffer.cap ≤ newCap) (hlen : self.len ≤ self.buffer.cap) :
    (∃ buffer : Buffer T, self.resize size newCap = .ok { self with buffer } ∧
        buffer.cap = newCap ∧ ({ self with buffer } : Worker T).items = self.items ∧
        newCap * size < 2 ^ 63) ∨
      (self.resize size newCap = .error .panic ∧ ¬ newCap * size < 2 ^ 63) := by
  unfold resize
  rcases alloc_eq (T := T) size hpow with ⟨new, halloc, rfl, hsize⟩ | ⟨halloc, hsize⟩
  · left
    -- wherever the two buffers wrap, the copies are those of a ring
    have hplan := Buffer.resizePlan_eq new self.consumed hlen hcap
    rw [← self.produced_eq] at hplan
    rw [halloc]
    simp only [bind, Except.bind, hplan]
    rw [Ring.copyAll_zip_eq_ok _ (fun _ => Ring.lt_of_mem_slots self.buffer.cap_pos)
      (fun _ => Ring.lt_of_mem_slots new.cap_pos)]
    refine ⟨_, rfl, rfl, ?_, hsize⟩
    -- item by item: the slot of index `consumed + j` in the new buffer
    rw [items_eq, items_eq]
    refine List.ext_getElem (by simp [len]) fun j h₁ h₂ => ?_
    rw [List.getElem_map, List.getElem_map]
    exact Ring.copy_zip _ _ (by simp) (Ring.nodup_slots (Nat.le_trans hlen hcap)) _
  · right
    rw [halloc]
    exact ⟨rfl, hsize⟩

/-- The buffer is full for the cached and for the current `consumed`: `push` doubles it. -/
def full (self : Worker T) : Bool :=
  self.fullFor self.cachedCons && self.fullFor self.consumed

/-- The capacity of the buffer that `push` copies into. -/
def pushCap (self : Worker T) : ℕ :=
  if self.full then 2 * self.buffer.cap else self.buffer.cap

/-- The allocation of `push`, if it makes one, is within `isize::MAX` bytes. -/
def CanGrow (size : ℕ+) (self : Worker T) : Prop :=
  self.full → 2 * self.buffer.cap * size < 2 ^ 63

/-- The first part of `push` keeps the items and leaves a buffer of `pushCap` slots. The cached
counter is either less than `cap` behind or up to date. -/
theorem makeRoom_spec (size : ℕ+) (self : Worker T) (hlen : self.len ≤ self.buffer.cap)
    (hcached : (self.produced - self.cachedCons).toNat < 2 * self.buffer.cap) :
    (∃ w : Worker T, self.makeRoom size = .ok w ∧ w.consumed = self.consumed ∧
        w.produced = self.produced ∧ w.items = self.items ∧ w.buffer.cap = self.pushCap ∧
        ((w.produced - w.cachedCons).toNat < w.buffer.cap ∨ w.cachedCons = w.consumed) ∧
        self.CanGrow size) ∨
      (self.makeRoom size = .error .panic ∧ ¬ self.CanGrow size) := by
  unfold makeRoom CanGrow pushCap full
  -- full for the cached counter, and then for the current one
  cases hfull : self.fullFor self.cachedCons with
  | false =>
    left
    have hroom : ¬ self.buffer.cap ≤ (self.produced - self.cachedCons).toNat := by
      rw [← self.fullFor_iff hcached, hfull]
      exact Bool.false_ne_true
    exact ⟨self, rfl, rfl, rfl, rfl, rfl, .inl (by omega), fun h => by cases h⟩
  | true =>
    have hsame : ({ self with cachedCons := self.consumed } : Worker T).fullFor self.consumed
        = self.fullFor self.consumed := rfl
    simp only [if_true, Bool.true_and, hsame]
    cases hfull' : self.fullFor self.consumed with
    | false =>
      left
      -- a consumer has made room since the counter was cached: nothing is allocated
      exact ⟨_, rfl, rfl, rfl, rfl, rfl, .inr rfl, fun h => by cases h⟩
    | true =>
      have hpow : (2 * self.buffer.cap).isPowerOfTwo := by
        rw [Nat.mul_comm]
        exact Nat.isPowerOfTwo_mul_two_of_isPowerOfTwo self.buffer.pow2
      rcases resize_spec size { self with cachedCons := self.consumed } hpow
        (Nat.le_mul_of_pos_left _ (by decide)) hlen with
        ⟨buffer, heq, hcap, hitems, hsize⟩ | ⟨heq, hsize⟩
      · exact .inl ⟨_, heq, rfl, rfl, hitems, hcap, .inr rfl, fun _ => hsize⟩
      · exact .inr ⟨heq, fun h => hsize (h rfl)⟩

/-! ### Pushing -/

/-- Writing a slice that fits behind the items appends it. -/
theorem items_append {w w' : Worker T} (task : List T)
    (hfit : w.len + task.length ≤ w.buffer.cap) (hcons : w'.consumed = w.consumed)
    (hprod : w'.produced = w.produced + BitVec.ofNat 64 task.length)
    (hcap : w'.buffer.cap = w.buffer.cap)
    (hslots : w'.buffer.slots = Ring.copy (fun i => task[i]?) w.buffer.slots
      ((List.range task.length).zip (Ring.slots w.buffer.cap w.produced.toNat task.length))) :
    w'.items = w.items ++ task.map some := by
  have hlt := w.buffer.cap_lt
  have hlen : w'.len = w.len + task.length := by
    rw [len, hcons, hprod]
    exact toNat_add_sub _ _ (by unfold len at hfit; omega)
  have hmod := w.produced_mod_cap
  -- the slots of the old items and of the slice are distinct: together they fit
  have hnodup := Ring.nodup_slots (a := w.consumed.toNat) hfit
  rw [Ring.slots_append, ← Ring.slots_congr _ hmod] at hnodup
  rw [items_eq, items_eq, hlen, hcons, hcap, hslots, Ring.slots_append, List.map_append,
    ← Ring.slots_congr _ hmod]
  congr 1
  · -- the slots of the old items are not written
    refine List.map_congr_left fun i hi => ?_
    refine Ring.copy_of_not_mem _ _ fun hmem => ?_
    rw [List.map_snd_zip (by simp)] at hmem
    exact (List.nodup_append.mp hnodup).2.2 i hi i hmem rfl
  · -- the slice is read back item by item
    refine List.ext_getElem (by simp) fun j h₁ h₂ => ?_
    rw [List.length_map] at h₁ h₂
    rw [List.getElem_map, List.getElem_map,
      Ring.copy_zip _ _ (by simp) (List.nodup_append.mp hnodup).2.1 h₁, List.getElem_range,
      List.getElem?_eq_getElem]

/-- A slice that fits is appended, whether or not it wraps around the end of the buffer. -/
theorem copyTask_spec (self : Worker T) (task : List T)
    (hfit : self.len + task.length ≤ self.buffer.cap) :
    ∃ buffer : Buffer T, self.copyTask self.produced task
        = .ok { self with
            produced := self.produced + BitVec.ofNat 64 task.length
            buffer } ∧
      buffer.cap = self.buffer.cap ∧
      ({ self with
          produced := self.produced + BitVec.ofNat 64 task.length
          buffer } : Worker T).items = self.items ++ task.map some := by
  have hn : task.length ≤ self.buffer.cap := by omega
  have hplan := self.buffer.pushPlan_eq self.produced hn
  simp only [copyTask, bind, Except.bind]
  rw [hplan, Ring.copyAll_zip_eq_ok _ (fun _ => List.mem_range.mp)
    (fun _ => Ring.lt_of_mem_slots self.buffer.cap_pos)]
  exact ⟨_, rfl, rfl, items_append task hfit rfl rfl rfl rfl⟩

/-- A slice of `n` items fits the buffer that `push` copies it into. -/
def Fits (size : ℕ+) (self : Worker T) (n : ℕ) : Prop :=
  self.CanGrow size → self.len + n ≤ self.pushCap

/-- **`push` appends a slice that fits** the buffer it is copied into. -/
theorem push_spec (size : ℕ+) (self : Worker T) (task : List T)
    (hlen : self.len ≤ self.buffer.cap)
    (hcached : (self.produced - self.cachedCons).toNat < 2 * self.buffer.cap)
    (hfit : self.Fits size task.length) :
    (∃ w : Worker T, self.push size task = .ok w ∧ w.items = self.items ++ task.map some ∧
        w.len ≤ w.buffer.cap ∧ (w.produced - w.cachedCons).toNat < 2 * w.buffer.cap) ∨
      self.push size task = .error .panic := by
  rcases self.makeRoom_spec size hlen hcached with
    ⟨w, hroom, hcons, hprod, hitems, hcap, hw, hgrow⟩ | ⟨hroom, -⟩
  · left
    have hwlen : w.len = self.len := by rw [len, hcons, hprod, len]
    -- that the slice fits is judged by the capacity after the growth
    have hfit' : w.len + task.length ≤ w.buffer.cap := by
      rw [hwlen, hcap]
      exact hfit hgrow
    obtain ⟨buffer, heq, hbuffer, happend⟩ := w.copyTask_spec task hfit'
    have hcap63 := w.buffer.two_mul_cap_le
    have hpos := w.buffer.cap_pos
    simp only [push, hroom, bind, Except.bind, ← hprod]
    refine ⟨_, heq, by rw [happend, hitems], ?_, ?_⟩
    · rw [← length_items, happend, hbuffer]
      simpa using hfit'
    · -- at most `cap` behind before, and the slice is at most `cap` long
      change (w.produced + BitVec.ofNat 64 task.length - w.cachedCons).toNat < 2 * buffer.cap
      rw [hbuffer]
      rcases hw with hw | hw
      · rw [toNat_add_sub _ _ (by omega)]
        omega
      · rw [hw, toNat_add_sub _ _ (by unfold len at hfit'; omega)]
        unfold len at hfit'
        omega
  · right
    simp only [push, hroom, bind, Except.bind]

/-- A slice that does not fit leaves the buffer, or `push` returns with a buffer of `pushCap` slots
all the same. -/
theorem push_of_not_fits (size : ℕ+) (self : Worker T) (task : List T)
    (hlen : self.len ≤ self.buffer.cap)
    (hcached : (self.produced - self.cachedCons).toNat < 2 * self.buffer.cap)
    (hfit : ¬ self.Fits size task.length) :
    (∃ w : Worker T, self.push size task = .ok w ∧ w.buffer.cap < self.len + task.length) ∨
      self.push size task = .error .outOfBounds := by
  obtain ⟨hgrow, hlt⟩ : self.CanGrow size ∧ self.pushCap < self.len + task.length := by
    unfold Fits at hfit
    simpa using hfit
  -- the copy runs whatever the length, and only the buffer bounds it
  rcases self.makeRoom_spec size hlen hcached with
    ⟨w, hroom, -, -, -, hcap, -, -⟩ | ⟨-, hno⟩
  · simp only [push, hroom, bind, Except.bind, copyTask]
    split
    · next e hcopy =>
      rw [Ring.copyAll_error hcopy]
      exact .inr rfl
    · exact .inl ⟨_, rfl, by rwa [← hcap] at hlt⟩
  · exact absurd hgrow hno

/-! ### Stealing -/

/-- The length that a consumer computes from the two counters, when it has read both at one
moment. -/
theorem stealLen_eq (self : Worker T) (hlen : self.len ≤ self.buffer.cap) :
    stealLen self.produced self.consumed = self.len := by
  have hcap := self.buffer.cap_lt
  unfold stealLen
  rw [toInt_of_lt (by unfold len at hlen; omega), Int.toNat_natCast, len]

/-- Advancing `consumed` by `n` drops the first `n` items. -/
theorem items_drop (self : Worker T) {n : ℕ} (hn : n ≤ self.len) :
    ({ self with consumed := self.consumed + BitVec.ofNat 64 n } : Worker T).items
      = self.items.drop n := by
  have hlen : ({ self with consumed := self.consumed + BitVec.ofNat 64 n } : Worker T).len
      = self.len - n := toNat_sub_add _ _ hn
  have hmod := self.buffer.toNat_add_mod_cap self.consumed n
  obtain ⟨m, hm⟩ := Nat.exists_eq_add_of_le hn
  rw [items_eq, items_eq, hlen, Ring.slots_congr _ hmod, hm, Nat.add_sub_cancel_left,
    Ring.slots_append, List.map_append, List.drop_left' (by simp)]

/-- **`steal` takes the first item.** -/
theorem steal_spec (self : Worker T) (hlen : self.len ≤ self.buffer.cap) :
    (self.items = [] ∧ self.steal = (.empty, self)) ∨
      ∃ x, self.steal = (.success x, { self with consumed := self.consumed + BitVec.ofNat 64 1 }) ∧
        self.items.head? = some x ∧ 1 ≤ self.len := by
  simp only [steal, self.stealLen_eq hlen]
  by_cases hzero : self.len = 0
  · left
    rw [if_pos hzero]
    exact ⟨List.length_eq_zero_iff.mp (by rw [length_items, hzero]), rfl⟩
  · right
    rw [if_neg hzero]
    refine ⟨_, rfl, ?_, by omega⟩
    -- the first item is the one in the slot of `consumed`
    have hsplit : self.len = (self.len - 1) + 1 := by omega
    rw [items, hsplit, List.range_succ_eq_map]
    simp

/-- **`steal_batch` takes the first half of the items**, rounded up, or as many as the destination
holds. -/
theorem stealBatch_eq (self : Worker T) (capacity : ℕ) (hlen : self.len ≤ self.buffer.cap) {n : ℕ}
    (hn : min ((self.len + 1) / 2) capacity = n) :
    self.stealBatch capacity =
      if n = 0 then .ok (.empty, self)
      else .ok (.success (self.items.take n),
        { self with consumed := self.consumed + BitVec.ofNat 64 n }) := by
  have hnlen : n ≤ self.len := by omega
  have hncap : n ≤ self.buffer.cap := by omega
  -- a batch is no longer than the buffer, so it does not wrap as a word
  have hword := self.buffer.toNat_ofNat_of_le hncap
  have hzero : BitVec.ofNat 64 n = 0 ↔ n = 0 := by
    rw [← BitVec.toNat_inj, hword]
    rfl
  simp only [stealBatch, self.stealLen_eq hlen, stealBatchSize, hn, bind, Except.bind]
  rw [if_congr hzero rfl rfl]
  split
  · rfl
  · have hplan := self.buffer.stealPlan_eq self.consumed hncap
    have hdest (j : ℕ) (hj : j ∈ List.range n) : j < capacity := by
      rw [List.mem_range] at hj
      omega
    rw [hplan, Ring.copyAll_zip_eq_ok _ (fun _ => Ring.lt_of_mem_slots self.buffer.cap_pos) hdest,
      hword]
    -- what is copied to the destination is the front of the queue, slot by slot
    have htaken : (List.range n).map (Ring.copy self.buffer.slots (fun _ => none)
        ((Ring.slots self.buffer.cap self.consumed.toNat n).zip (List.range n)))
          = self.items.take n := by
      refine List.ext_getElem (by simp [hnlen]) fun j h₁ h₂ => ?_
      have hj : j < (List.range n).length := by simpa using h₁
      have hcopy := Ring.copy_zip self.buffer.slots (fun _ => none)
        (show (Ring.slots self.buffer.cap self.consumed.toNat n).length = _ by simp)
        List.nodup_range hj
      simp only [List.getElem_range] at hcopy
      simp only [items_eq, List.getElem_map, List.getElem_range, List.getElem_take, hcopy,
        Ring.getElem_slots]
    simp only [htaken, pure, Except.pure]

/-- It never takes more items than there are. -/
theorem stealBatch_spec (self : Worker T) (capacity : ℕ) (hlen : self.len ≤ self.buffer.cap) :
    self.stealBatch capacity = .ok (.empty, self) ∨
      ∃ n ≤ self.len, self.stealBatch capacity = .ok (.success (self.items.take n),
        { self with consumed := self.consumed + BitVec.ofNat 64 n }) := by
  rw [self.stealBatch_eq capacity hlen rfl]
  split
  · exact .inl rfl
  · exact .inr ⟨_, by omega, rfl⟩

end Worker

end Farsight
