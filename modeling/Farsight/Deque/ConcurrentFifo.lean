import Farsight.Deque.Concurrent
import Farsight.Lib.Sequence

/-!
# Concurrent stealing is exactly-once and in order

A stealer reads slots that the owner may be overwriting, from a buffer that may be about to be
replaced. What it read is right if, when its compare-exchange succeeds, `consumed` still has the
value it loaded: `consumed` only grows, so it has not moved since, and the second load of the buffer
pointer shows that the slots were read while the buffer was the current one.

* `MemoryInv` — at most `cap` items, all of them in the slots of the current buffer;
* `OwnerInv` — how far a `resize` or a copy of `push` has got. A slice that fits is not written over
  items that were not taken;
* `StealerInv` — what a stealer knows, under the proviso that `consumed` (and, before the second
  load, the buffer pointer) is still the one it loaded. `Later` is all it needs to know of the steps
  of others;
* `DequeState.step_inv`, `DequeState.run_inv` — all this in every run whose pushes fit;
* `DequeState.exactly_once_fifo` — the deliveries, in the order of the values of `consumed` they
  advanced, are a prefix of what was pushed.
-/

namespace Farsight

open Machine

variable {T : Type}

/-! ### Words of counters -/

/-- The capacity divides 2⁶⁴, so a counter has the same slot before and after it wraps. -/
theorem toNat_word_mod (buffer : Buffer T) (a : ℕ) :
    (word a).toNat % buffer.cap = a % buffer.cap := by
  rw [word, BitVec.toNat_ofNat, Nat.mod_mod_of_dvd _ buffer.cap_dvd]

theorem word_add (a n : ℕ) : word (a + n) = word a + BitVec.ofNat 64 n :=
  BitVec.ofNat_add a n

/-- A counter of the deque is a sequence number from zero, so the results about differences of those
apply to it. -/
theorem word_eq_seqAt (a : ℕ) : word a = seqAt 0 a :=
  (zero_seqAt a).symm

/-- The wrapping subtraction of the source is exact for counters that are less than 2⁶⁴ apart. -/
theorem toNat_word_sub {a b : ℕ} (hle : a ≤ b) (hlt : b - a < 2 ^ 64) :
    (word b - word a).toNat = b - a := by
  rw [word_eq_seqAt, word_eq_seqAt]
  exact toNat_seqAt_sub_of_le hle hlt

/-- The two `copy_nonoverlapping` of `push` write the slice to the next slots of the ring, one for
each item. The copies wrap at the end of the buffer, the slots modulo its capacity. -/
theorem pushPlan_word (buffer : Buffer T) (prod : ℕ) {n : ℕ} (hn : n ≤ buffer.cap) :
    buffer.pushPlan (word prod) (word (prod + n))
      = (List.range n).zip (Ring.slots buffer.cap prod n) := by
  rw [word_add, buffer.pushPlan_eq _ hn, Ring.slots_congr n (toNat_word_mod buffer prod)]

/-- The copies of `resize` move each index from its slot in the old buffer to its slot in the new
one. There are up to three of them, since either buffer may wrap in between. -/
theorem resizePlan_word {old : Buffer T} (new : Buffer T) {c prod : ℕ} (hle : c ≤ prod)
    (hn : prod - c ≤ old.cap) (hcap : old.cap ≤ new.cap) :
    old.resizePlan new (word c) (word prod)
      = (Ring.slots old.cap c (prod - c)).zip (Ring.slots new.cap c (prod - c)) := by
  obtain ⟨n, rfl⟩ := Nat.exists_eq_add_of_le hle
  rw [Nat.add_sub_cancel_left] at hn ⊢
  rw [word_add, Buffer.resizePlan_eq new _ hn hcap, Ring.slots_congr n (toNat_word_mod old c),
    Ring.slots_congr n (toNat_word_mod new c)]

namespace StealCall

/-- The slots a stealer reads are those of the `n` indices from `f` on. -/
theorem slots_eq (call : StealCall) (buffer : Buffer T) (f : ℕ) {n : ℕ} (hn : n ≤ buffer.cap)
    (hsteal : call = .steal → n = 1) : call.slots buffer f n = Ring.slots buffer.cap f n := by
  cases call with
  | steal =>
    rw [hsteal rfl]
    simp [slots, Ring.slots, Buffer.slotAt_eq, toNat_word_mod]
  | stealBatch capacity =>
    rw [slots, buffer.stealPlan_eq _ hn, List.map_fst_zip (by simp),
      Ring.slots_congr n (toNat_word_mod buffer f)]

/-- No operation asks for more items than it sees. -/
theorem count_le (call : StealCall) {len : ℕ} (hlen : len < 2 ^ 64) : call.count len ≤ len := by
  cases call with
  | steal => exact Nat.min_le_left _ _
  | stealBatch capacity =>
    rw [count, stealBatchSize, BitVec.toNat_ofNat, Nat.mod_eq_of_lt (by omega)]
    omega

end StealCall

/-! ### The invariants -/

namespace DequeMemory

variable {m m' : DequeMemory T}

/-- The slot of index `i` in a buffer has the `i`-th item. -/
def Holds (m : DequeMemory T) (buffer i : ℕ) : Prop :=
  (m.mem buffer).slots (i % (m.mem buffer).cap) = m.pushed[i]?

/-- What holds between any two steps. -/
structure MemoryInv (m : DequeMemory T) : Prop where
  length_pushed : m.pushed.length = m.produced
  consumed_le : m.consumed ≤ m.produced
  produced_le : m.produced ≤ m.consumed + m.own.cap
  ownBuffer_eq : m.ownBuffer = m.buffer
  buffer_lt : m.buffer < m.fresh
  holds : ∀ i, m.consumed ≤ i → i < m.produced → m.Holds m.buffer i
  cached_le : m.cachedCons ≤ m.consumed
  cached_lt : m.produced < m.cachedCons + 2 * m.own.cap

/-- A `resize` that loaded `c` from `consumed` has moved `k` slots to buffer `new`. -/
structure Resizing (m : DequeMemory T) (prod new c k : ℕ) (moves : List (ℕ × ℕ)) : Prop where
  prod_eq : prod = m.produced
  le_consumed : c ≤ m.consumed
  prod_le : prod ≤ c + m.own.cap
  prod_lt : prod < m.cachedCons + 2 * m.own.cap
  le_prod : c + k ≤ prod
  buffer_lt : m.buffer < new
  new_lt : new < m.fresh
  cap_new : (m.mem new).cap = 2 * m.own.cap
  moved : ∀ i, m.consumed ≤ i → i < c + k → m.Holds new i
  moves_eq : moves = ((Ring.slots m.own.cap c (prod - c)).zip
    (Ring.slots (m.mem new).cap c (prod - c))).drop k

/-- A `push` has written `k` items of its slice. -/
structure Writing (m : DequeMemory T) (task : List T) (prod k : ℕ) (moves : List (ℕ × ℕ)) :
    Prop where
  prod_eq : prod = m.produced
  prod_lt : prod < m.cachedCons + m.own.cap
  fits : prod + task.length ≤ m.consumed + m.own.cap
  le_length : k ≤ task.length
  written : ∀ j < k, m.own.slots ((prod + j) % m.own.cap) = task[j]?
  moves_eq : moves
    = ((List.range task.length).zip (Ring.slots m.own.cap prod task.length)).drop k

def OwnerInv (m : DequeMemory T) : OwnerPc T → Prop
  | .idle | .readProd _ | .panicked => True
  | .loadCons _ prod => prod = m.produced
  | .resizeProd _ prod => prod = m.produced ∧ prod ≤ m.cachedCons + m.own.cap
  | .resizeCons _ prod stop =>
    prod = m.produced ∧ stop = m.produced ∧ prod ≤ m.cachedCons + m.own.cap
  | .resizeRead _ prod new moves => ∃ c k, m.Resizing prod new c k moves
  -- a slot that a stealer has taken meanwhile may hold anything
  | .resizeWrite _ prod new value slot moves =>
    ∃ c k i, m.Resizing prod new c k ((i, slot) :: moves) ∧
      (m.consumed ≤ c + k → value = m.pushed[c + k]?)
  | .copy _ prod => prod = m.produced ∧ prod < m.cachedCons + m.own.cap
  | .write task prod moves => ∃ k, m.Writing task prod k moves
  | .undefined => False

/-- The first `k` items from index `f` on. -/
def itemsFrom (m : DequeMemory T) (f k : ℕ) : List (Option T) :=
  ((m.pushed.drop f).take k).map some

def StealerInv (m : DequeMemory T) : StealerPc T → Prop
  | .idle | .loadCons _ => True
  | .loadProd _ f => f ≤ m.consumed
  | .loadBuffer call f n =>
    f ≤ m.consumed ∧ 0 < n ∧ (call = .steal → n = 1) ∧
      (m.consumed = f → f + n ≤ m.produced)
  -- what was read counts only if the counter and the buffer are still the ones that were loaded
  | .read f n buffer slots values =>
    f ≤ m.consumed ∧ 0 < n ∧ buffer ≤ m.buffer ∧
      (m.consumed = f → m.buffer = buffer → f + n ≤ m.produced ∧
        ∃ k ≤ n, slots = (Ring.slots (m.mem buffer).cap f n).drop k ∧ values = m.itemsFrom f k)
  | .compareExchange f n values =>
    f ≤ m.consumed ∧ 0 < n ∧
      (m.consumed = f → f + n ≤ m.produced ∧ values = m.itemsFrom f n)

/-- What a stealer needs to know of the steps of others. -/
structure Later (m m' : DequeMemory T) : Prop where
  consumed_le : m.consumed ≤ m'.consumed
  produced_le : m.produced ≤ m'.produced
  pushed : m.pushed <+: m'.pushed
  buffer_le : m.buffer ≤ m'.buffer
  cap_eq : m'.buffer = m.buffer → (m'.mem m.buffer).cap = (m.mem m.buffer).cap

theorem itemsFrom_succ {f k : ℕ} (h : f + k < m.pushed.length) :
    m.itemsFrom f (k + 1) = m.itemsFrom f k ++ [m.pushed[f + k]?] := by
  rw [itemsFrom, itemsFrom, List.take_add_one, List.map_append]
  congr 1
  rw [List.getElem?_drop, List.getElem?_eq_getElem h]
  rfl

theorem itemsFrom_of_extends (hpushed : m.pushed <+: m'.pushed) {f k : ℕ}
    (hk : f + k ≤ m.pushed.length) : m'.itemsFrom f k = m.itemsFrom f k := by
  obtain ⟨rest, hrest⟩ := hpushed
  unfold itemsFrom
  rw [← hrest, List.drop_append_of_le_length (by omega),
    List.take_append_of_le_length (by rw [List.length_drop]; omega)]

/-- **A stealer keeps what it knows** while others step. -/
theorem StealerInv.later (hM : m.MemoryInv) (h : m.Later m') {pc : StealerPc T}
    (hpc : m.StealerInv pc) : m'.StealerInv pc := by
  have hcons := h.consumed_le
  have hprod := h.produced_le
  have hbuffer := h.buffer_le
  have hlen := hM.length_pushed
  cases pc with
  | idle => trivial
  | loadCons call => trivial
  | loadProd call f => exact Nat.le_trans hpc hcons
  | loadBuffer call f n =>
    obtain ⟨hf, hn, hcall, hroom⟩ := hpc
    refine ⟨Nat.le_trans hf hcons, hn, hcall, fun hsame => ?_⟩
    -- `produced` only grows, so the items that were seen are still there
    have := hroom (by omega)
    omega
  | read f n buffer slots values =>
    obtain ⟨hf, hn, hb, hknow⟩ := hpc
    refine ⟨Nat.le_trans hf hcons, hn, Nat.le_trans hb hbuffer, fun hsame hsame' => ?_⟩
    -- nothing has moved if nothing seems to have moved
    obtain rfl : m.buffer = buffer := by omega
    obtain ⟨hroom, k, hk, hslots, hvalues⟩ := hknow (by omega) rfl
    refine ⟨by omega, k, hk, ?_, ?_⟩
    · -- the same buffer has the same slots, and the items that were read are still those of their
      -- indices
      rw [h.cap_eq hsame']
      exact hslots
    · rw [itemsFrom_of_extends h.pushed (by omega)]
      exact hvalues
  | compareExchange f n values =>
    obtain ⟨hf, hn, hknow⟩ := hpc
    refine ⟨Nat.le_trans hf hcons, hn, fun hsame => ?_⟩
    obtain ⟨hroom, hvalues⟩ := hknow (by omega)
    refine ⟨by omega, ?_⟩
    rw [itemsFrom_of_extends h.pushed (by omega)]
    exact hvalues

/-- A `resize` in progress does not mind that items are taken: they are only fewer to move. -/
theorem Resizing.advance {c : ℕ} (hc : m.consumed ≤ c) {prod new c₀ k : ℕ}
    {moves : List (ℕ × ℕ)} (h : m.Resizing prod new c₀ k moves) :
    Resizing { m with consumed := c } prod new c₀ k moves where
  prod_eq := h.prod_eq
  le_consumed := Nat.le_trans h.le_consumed hc
  prod_le := h.prod_le
  prod_lt := h.prod_lt
  le_prod := h.le_prod
  buffer_lt := h.buffer_lt
  new_lt := h.new_lt
  cap_new := h.cap_new
  moved := fun i hi => h.moved i (Nat.le_trans hc hi)
  moves_eq := h.moves_eq

/-- The owner keeps what it knows while stealers advance `consumed`. -/
theorem OwnerInv.advance {c : ℕ} (hc : m.consumed ≤ c) {pc : OwnerPc T} (hpc : m.OwnerInv pc) :
    OwnerInv { m with consumed := c } pc := by
  cases pc with
  -- a stealer takes items from the front, which the owner copies but does not need
  | resizeRead task prod new moves =>
    obtain ⟨c₀, k, h⟩ := hpc
    exact ⟨c₀, k, h.advance hc⟩
  | resizeWrite task prod new value slot moves =>
    obtain ⟨c₀, k, i, h, hvalue⟩ := hpc
    exact ⟨c₀, k, i, h.advance hc, fun hle => hvalue (Nat.le_trans hc hle)⟩
  | write task prod moves =>
    obtain ⟨k, h⟩ := hpc
    exact ⟨k, h.prod_eq, h.prod_lt, Nat.le_trans h.fits (Nat.add_le_add_right hc _),
      h.le_length, h.written, h.moves_eq⟩
  | _ => exact hpc

/-- The memory invariant when a stealer advances `consumed` to `c`. -/
theorem MemoryInv.advance (hM : m.MemoryInv) {c : ℕ} (hc : m.consumed ≤ c)
    (hle : c ≤ m.produced) : MemoryInv { m with consumed := c } where
  length_pushed := hM.length_pushed
  consumed_le := hle
  produced_le := Nat.le_trans hM.produced_le (Nat.add_le_add_right hc _)
  ownBuffer_eq := hM.ownBuffer_eq
  buffer_lt := hM.buffer_lt
  holds := fun i hi => hM.holds i (Nat.le_trans hc hi)
  cached_le := Nat.le_trans hM.cached_le hc
  cached_lt := hM.cached_lt

theorem Later.refl (m : DequeMemory T) : m.Later m :=
  ⟨Nat.le_refl _, Nat.le_refl _, List.prefix_refl _, Nat.le_refl _, fun _ => rfl⟩

theorem Later.advance {c : ℕ} (hc : m.consumed ≤ c) : m.Later { m with consumed := c } :=
  ⟨hc, Nat.le_refl _, List.prefix_refl _, Nat.le_refl _, fun _ => rfl⟩

/-- The counters are at most `cap` apart, so the length that a stealer computes is exact. -/
theorem MemoryInv.stealLen_eq (hM : m.MemoryInv) :
    stealLen (word m.produced) (word m.consumed) = m.produced - m.consumed := by
  have hcap := m.own.cap_lt
  have hprod := hM.produced_le
  have hsub := toNat_word_sub hM.consumed_le (by omega)
  rw [stealLen, toInt_of_lt (by rw [hsub]; omega), hsub, Int.toNat_natCast]

/-- A slot of the current buffer holds the item that is due there. -/
theorem MemoryInv.load_slot (hM : m.MemoryInv) {i : ℕ} (hlo : m.consumed ≤ i)
    (hhi : i < m.produced) :
    (m.mem m.buffer).load (i % (m.mem m.buffer).cap) = m.pushed[i]? := by
  rw [Buffer.load, if_pos (Nat.mod_lt _ (m.mem m.buffer).cap_pos)]
  exact hM.holds i hlo hhi

/-! ### Steps of the owner -/

/-- The cached counter is brought up to date. -/
theorem MemoryInv.reload (hM : m.MemoryInv) : MemoryInv { m with cachedCons := m.consumed } where
  length_pushed := hM.length_pushed
  consumed_le := hM.consumed_le
  produced_le := hM.produced_le
  ownBuffer_eq := hM.ownBuffer_eq
  buffer_lt := hM.buffer_lt
  holds := hM.holds
  cached_le := Nat.le_refl _
  cached_lt := by
    -- the queue is at most a buffer long
    have hle := hM.produced_le
    have hpos := m.own.cap_pos
    change m.produced < m.consumed + 2 * m.own.cap
    omega

theorem Later.reload (m : DequeMemory T) : m.Later { m with cachedCons := m.consumed } :=
  ⟨Nat.le_refl _, Nat.le_refl _, List.prefix_refl _, Nat.le_refl _, fun _ => rfl⟩

/-- Between its operations the owner works on the buffer that the stealers load. -/
theorem MemoryInv.own_eq (hM : m.MemoryInv) : m.own = m.mem m.buffer := by
  rw [own, hM.ownBuffer_eq]

/-- The test of `push` on the wrapped words is the test on the counts, as long as the counts are
less than two turns apart. -/
theorem fullFor_iff (m : DequeMemory T) {prod cons : ℕ} (hle : cons ≤ prod)
    (hlt : prod < cons + 2 * m.own.cap) : m.fullFor prod cons ↔ cons + m.own.cap ≤ prod := by
  have hcap := m.own.two_mul_cap_le
  have hpos := m.own.cap_pos
  have hsub := toNat_word_sub hle (by omega)
  unfold fullFor
  rw [sle_iff_of_lt (by rw [Buffer.toNat_cap]; omega) (by rw [hsub]; omega), Buffer.toNat_cap,
    hsub]
  omega

/-- Changes to other buffers than the current one. -/
theorem MemoryInv.frame (hM : m.MemoryInv) {mem : ℕ → Buffer T} {fresh : ℕ}
    (hmem : mem m.buffer = m.mem m.buffer) (hfresh : m.fresh ≤ fresh) :
    MemoryInv { m with mem, fresh } := by
  -- the owner's buffer is the current one
  have hown : own { m with mem, fresh } = m.own := by
    rw [hM.own_eq, own, hM.ownBuffer_eq]
    exact hmem
  refine ⟨hM.length_pushed, hM.consumed_le, ?_, hM.ownBuffer_eq,
    Nat.lt_of_lt_of_le hM.buffer_lt hfresh, fun i hi hi' => ?_, hM.cached_le, ?_⟩
  · rw [hown]
    exact hM.produced_le
  · have hold := hM.holds i hi hi'
    unfold Holds at hold ⊢
    rw [← hmem] at hold
    exact hold
  · rw [hown]
    exact hM.cached_lt

theorem Later.frame {mem : ℕ → Buffer T} (fresh : ℕ) (hmem : mem m.buffer = m.mem m.buffer) :
    m.Later { m with mem, fresh } :=
  ⟨Nat.le_refl _, Nat.le_refl _, List.prefix_refl _, Nat.le_refl _,
    fun _ => congrArg Buffer.cap hmem⟩

/-- The next of the remaining moves. -/
private theorem drop_eq_cons {α : Type*} {l rest : List α} {x : α} {k : ℕ}
    (h : x :: rest = l.drop k) : ∃ hk : k < l.length, x = l[k] ∧ rest = l.drop (k + 1) := by
  have hk : k < l.length := by
    by_contra hge
    rw [List.drop_eq_nil_of_le (by omega)] at h
    cases h
  rw [List.drop_eq_getElem_cons hk] at h
  obtain ⟨rfl, rfl⟩ := List.cons.inj h
  exact ⟨hk, rfl, rfl⟩

/-- `resize` has loaded the counters and allocated. -/
theorem Resizing.start (hM : m.MemoryInv) {size : ℕ+} {new : Buffer T}
    (hnew : Buffer.alloc size (2 * m.own.cap) = .ok new)
    (hcached : m.produced ≤ m.cachedCons + m.own.cap) :
    Resizing { m with mem := Function.update m.mem m.fresh new, fresh := m.fresh + 1 }
      m.produced m.fresh m.consumed 0
      (m.own.resizePlan new (word m.consumed) (word m.produced)) := by
  have hpos := m.own.cap_pos
  have hlt := hM.buffer_lt
  have hcap : new.cap = 2 * m.own.cap := by
    unfold Buffer.alloc at hnew
    split at hnew
    · obtain rfl := Except.ok.inj hnew
      rfl
    · cases hnew
  -- the new buffer is at a fresh place, so the owner's buffer is untouched
  have hown : own { m with mem := Function.update m.mem m.fresh new, fresh := m.fresh + 1 }
      = m.own := by
    rw [hM.own_eq, own, hM.ownBuffer_eq]
    exact Function.update_of_ne (by omega) _ _
  have hself : Function.update m.mem m.fresh new m.fresh = new := Function.update_self ..
  have hle := hM.produced_le
  -- nothing has been moved yet, and the whole plan is to come
  refine ⟨rfl, Nat.le_refl _, ?_, ?_, hM.consumed_le, hlt, Nat.lt_succ_self _, ?_,
    fun i hi hi' => absurd hi (by simpa using hi'), ?_⟩
  · rw [hown]
    exact hle
  · rw [hown]
    change m.produced < m.cachedCons + 2 * m.own.cap
    omega
  · rw [hown]
    exact (congrArg Buffer.cap hself).trans hcap
  · rw [hown, List.drop_zero]
    dsimp only
    rw [hself]
    exact resizePlan_word new hM.consumed_le (by omega) (by omega)

section Resize

variable {prod new c k : ℕ} {moves : List (ℕ × ℕ)} {i j : ℕ}

/-- The slots of the next move. -/
theorem Resizing.next (h : m.Resizing prod new c k ((i, j) :: moves)) :
    c + k < prod ∧ i = (c + k) % m.own.cap ∧ j = (c + k) % (m.mem new).cap := by
  obtain ⟨hk, hx, -⟩ := drop_eq_cons h.moves_eq
  rw [List.getElem_zip, Ring.getElem_slots, Ring.getElem_slots] at hx
  rw [List.length_zip, Ring.length_slots, Ring.length_slots] at hk
  obtain ⟨rfl, rfl⟩ := Prod.mk.inj hx
  exact ⟨by omega, rfl, rfl⟩

/-- The slot that `resize` reads has its item, unless it was taken meanwhile. -/
theorem Resizing.read (hM : m.MemoryInv) (h : m.Resizing prod new c k ((i, j) :: moves))
    (hle : m.consumed ≤ c + k) : m.own.slots i = m.pushed[c + k]? := by
  obtain ⟨hlt, rfl, -⟩ := h.next
  have hold := hM.holds (c + k) hle (by rw [← h.prod_eq]; exact hlt)
  rw [hM.own_eq]
  exact hold

/-- `resize` writes the slot it read. -/
theorem Resizing.write (hM : m.MemoryInv) (h : m.Resizing prod new c k ((i, j) :: moves))
    {value : Option T} (hvalue : m.consumed ≤ c + k → value = m.pushed[c + k]?) :
    Resizing { m with mem := Function.update m.mem new ((m.mem new).store j value) }
      prod new c (k + 1) moves := by
  obtain ⟨hlt, -, rfl⟩ := h.next
  have hne : m.buffer ≠ new := Nat.ne_of_lt h.buffer_lt
  have hown : own { m with mem := Function.update m.mem new ((m.mem new).store
      ((c + k) % (m.mem new).cap) value) } = m.own := by
    rw [hM.own_eq, own, hM.ownBuffer_eq]
    exact Function.update_of_ne hne _ _
  have hself : Function.update m.mem new ((m.mem new).store ((c + k) % (m.mem new).cap) value) new
      = (m.mem new).store ((c + k) % (m.mem new).cap) value := Function.update_self ..
  refine ⟨h.prod_eq, h.le_consumed, ?_, ?_, by omega, h.buffer_lt, h.new_lt, ?_,
    fun i hi hi' => ?_, ?_⟩
  · rw [hown]
    exact h.prod_le
  · rw [hown]
    exact h.prod_lt
  · rw [hown]
    exact (congrArg Buffer.cap hself).trans h.cap_new
  · -- at most `cap` indices are moved, and they do not collide in the new buffer
    have hcons := h.le_consumed
    have hprod := h.prod_le
    have hcap := h.cap_new
    unfold Holds
    dsimp only
    rw [hself]
    change Function.update (m.mem new).slots _ value (i % (m.mem new).cap) = m.pushed[i]?
    by_cases heq : i = c + k
    · rw [heq, Function.update_self]
      exact hvalue (by rw [← heq]; exact hi)
    · -- moved before, to another slot
      have hlt' : i < c + k := by omega
      rw [Function.update_of_ne (Ring.mod_ne hlt' (by change m.consumed ≤ i at hi; omega))]
      exact h.moved i hi hlt'
  · rw [hown]
    dsimp only
    rw [hself]
    exact (drop_eq_cons h.moves_eq).2.2

/-- `resize` swaps the buffers: the new one has every item that is left. -/
theorem Resizing.swap (hM : m.MemoryInv) (h : m.Resizing prod new c k []) :
    MemoryInv { m with buffer := new, ownBuffer := new } ∧
      OwnerInv { m with buffer := new, ownBuffer := new } (.copy ([] : List T) prod) ∧
      m.Later { m with buffer := new, ownBuffer := new } := by
  have hcap := h.cap_new
  -- no move is left, so every index up to `prod` was moved
  have hdone : prod ≤ c + k := by
    have hlen := List.drop_eq_nil_iff.mp h.moves_eq.symm
    rw [List.length_zip, Ring.length_slots, Ring.length_slots] at hlen
    omega
  have hprod := h.prod_eq
  have hlt := h.prod_lt
  have hle := hM.produced_le
  have hpos := m.own.cap_pos
  -- the new buffer holds the items, and a stealer that loaded the old pointer finds it changed
  refine ⟨⟨hM.length_pushed, hM.consumed_le, ?_, rfl, h.new_lt,
    fun i hi hi' => h.moved i hi (by change i < m.produced at hi'; omega), hM.cached_le, ?_⟩,
    ⟨hprod, ?_⟩, ⟨Nat.le_refl _, Nat.le_refl _, List.prefix_refl _, Nat.le_of_lt h.buffer_lt,
      fun heq => absurd heq.symm (Nat.ne_of_lt h.buffer_lt)⟩⟩
  · change m.produced ≤ m.consumed + (m.mem new).cap
    omega
  · change m.produced < m.cachedCons + 2 * (m.mem new).cap
    omega
  · change prod < m.cachedCons + (m.mem new).cap
    omega

end Resize

section Write

variable {task : List T} {prod k : ℕ} {moves : List (ℕ × ℕ)} {i j : ℕ}

/-- `push` starts to copy a slice that fits. -/
theorem Writing.start (hM : m.MemoryInv) (hprod : prod = m.produced)
    (hlt : prod < m.cachedCons + m.own.cap)
    (hfit : prod + task.length ≤ m.consumed + m.own.cap) :
    m.Writing task prod 0 (m.own.pushPlan (word prod) (word (prod + task.length))) where
  prod_eq := hprod
  prod_lt := hlt
  fits := hfit
  le_length := Nat.zero_le _
  written := fun j hj => absurd hj (Nat.not_lt_zero j)
  moves_eq := by
    have hle := hM.consumed_le
    rw [pushPlan_word _ _ (by omega), List.drop_zero]

/-- The next move of a push: the next item, and the slot of its index. -/
theorem Writing.next (h : m.Writing task prod k ((i, j) :: moves)) :
    k < task.length ∧ i = k ∧ j = (prod + k) % m.own.cap := by
  obtain ⟨hk, hx, -⟩ := drop_eq_cons h.moves_eq
  rw [List.getElem_zip, Ring.getElem_slots, List.getElem_range] at hx
  rw [List.length_zip, Ring.length_slots, List.length_range] at hk
  obtain ⟨rfl, rfl⟩ := Prod.mk.inj hx
  exact ⟨by omega, rfl, rfl⟩

/-- The owner's buffer after a write to one of its slots. -/
theorem own_store (m : DequeMemory T) (slot : ℕ) (value : Option T) :
    own { m with mem := Function.update m.mem m.ownBuffer (m.own.store slot value) }
      = m.own.store slot value :=
  Function.update_self ..

/-- The owner may write a slot that holds no item. -/
theorem MemoryInv.store (hM : m.MemoryInv) {slot : ℕ} (value : Option T)
    (hfree : ∀ i, m.consumed ≤ i → i < m.produced → i % m.own.cap ≠ slot) :
    MemoryInv { m with mem := Function.update m.mem m.ownBuffer (m.own.store slot value) } := by
  have hown := m.own_store slot value
  refine ⟨hM.length_pushed, hM.consumed_le, ?_, hM.ownBuffer_eq, hM.buffer_lt,
    fun i hi hi' => ?_, hM.cached_le, ?_⟩
  · rw [hown]
    exact hM.produced_le
  · have hold := hM.holds i hi hi'
    rw [Holds, ← hM.own_eq] at hold
    unfold Holds
    dsimp only
    rw [← hM.ownBuffer_eq, Function.update_self]
    change Function.update m.own.slots slot value (i % m.own.cap) = m.pushed[i]?
    -- no item that is still to be taken lies in the slot
    rw [Function.update_of_ne (hfree i hi hi')]
    exact hold
  · rw [hown]
    exact hM.cached_lt

theorem Later.store (hM : m.MemoryInv) (slot : ℕ) (value : Option T) :
    m.Later { m with mem := Function.update m.mem m.ownBuffer (m.own.store slot value) } := by
  refine ⟨Nat.le_refl _, Nat.le_refl _, List.prefix_refl _, Nat.le_refl _, fun _ => ?_⟩
  dsimp only
  rw [← hM.ownBuffer_eq, Function.update_self]
  rfl

/-- The slot of the next item holds no item that is left: the slice fits. -/
theorem Writing.free (h : m.Writing task prod k ((i, j) :: moves)) :
    ∀ l, m.consumed ≤ l → l < m.produced → l % m.own.cap ≠ j := by
  obtain ⟨hk, -, rfl⟩ := h.next
  have hprod := h.prod_eq
  have hfits := h.fits
  intro l hl hl'
  exact Ring.mod_ne (by omega) (by omega)

/-- `push` writes an item, over none of those it wrote before. -/
theorem Writing.write (hM : m.MemoryInv) (h : m.Writing task prod k ((i, j) :: moves)) :
    Writing { m with mem := Function.update m.mem m.ownBuffer (m.own.store j task[i]?) }
      task prod (k + 1) moves := by
  obtain ⟨hk, rfl, rfl⟩ := h.next
  have hown := m.own_store ((prod + i) % m.own.cap) task[i]?
  have hprod := h.prod_eq
  have hfits := h.fits
  have hle := hM.consumed_le
  refine ⟨hprod, ?_, ?_, hk, fun l hl => ?_, ?_⟩
  · rw [hown]
    exact h.prod_lt
  · rw [hown]
    exact hfits
  · rw [hown]
    change Function.update m.own.slots _ _ ((prod + l) % m.own.cap) = task[l]?
    -- written now, or before into another slot: the slice fits into the buffer
    by_cases heq : l = i
    · rw [heq, Function.update_self]
    · rw [Function.update_of_ne (Ring.mod_ne (by omega) (by omega))]
      exact h.written l (by omega)
  · rw [hown]
    exact (drop_eq_cons h.moves_eq).2.2

/-- `push` publishes its slice. -/
theorem Writing.store (hM : m.MemoryInv) (h : m.Writing task prod k []) :
    MemoryInv { m with produced := prod + task.length, pushed := m.pushed ++ task } ∧
      m.Later { m with produced := prod + task.length, pushed := m.pushed ++ task } := by
  -- no move is left, so the whole slice was written
  have hdone : task.length ≤ k := by
    have hlen := List.drop_eq_nil_iff.mp h.moves_eq.symm
    rw [List.length_zip, Ring.length_slots, List.length_range] at hlen
    omega
  have hlen := hM.length_pushed
  have hprod := h.prod_eq
  have hlt := h.prod_lt
  have hfits := h.fits
  have hcons := hM.consumed_le
  refine ⟨⟨by rw [List.length_append, hlen, hprod],
    by change m.consumed ≤ prod + task.length; omega,
    hfits, hM.ownBuffer_eq, hM.buffer_lt, fun i hi hi' => ?_, hM.cached_le, ?_⟩,
    ⟨Nat.le_refl _, by change m.produced ≤ prod + task.length; omega, List.prefix_append _ _,
      Nat.le_refl _, fun _ => rfl⟩⟩
  · change i < prod + task.length at hi'
    change (m.mem m.buffer).slots (i % (m.mem m.buffer).cap) = (m.pushed ++ task)[i]?
    -- an old item, or one of the slice
    by_cases hold : i < m.produced
    · rw [List.getElem?_append_left (by omega)]
      exact hM.holds i hi hold
    · have hnew := h.written (i - prod) (by omega)
      rw [show prod + (i - prod) = i by omega, hM.own_eq] at hnew
      rw [List.getElem?_append_right (by omega), hlen, ← hprod]
      exact hnew
  · change prod + task.length < m.cachedCons + 2 * m.own.cap
    omega

end Write

end DequeMemory

namespace DequeState

open DequeMemory

variable {s : DequeState T}

/-- The deliveries so far: in order, below `consumed`, and all items below it. -/
structure LogInv (consumed : ℕ) (pushed : List T) (deliveries : List (ℕ × List (Option T))) :
    Prop where
  sorted : (deliveries.map Prod.fst).Pairwise (· < ·)
  below : ∀ d ∈ deliveries, d.1 < consumed
  delivered : deliveries.flatMap Prod.snd = (pushed.take consumed).map some

/-- The next delivery is the items from `consumed` on. -/
theorem LogInv.deliver {f n : ℕ} {pushed : List T} {deliveries : List (ℕ × List (Option T))}
    (h : LogInv f pushed deliveries) (hn : 0 < n) :
    LogInv (f + n) pushed (deliveries ++ [(f, ((pushed.drop f).take n).map some)]) where
  sorted := by
    -- the new delivery starts at `f`, and all the others start below it
    rw [List.map_append, List.pairwise_append]
    refine ⟨h.sorted, List.pairwise_singleton _ _, fun a ha b hb => ?_⟩
    obtain ⟨d, hd, rfl⟩ := List.mem_map.mp ha
    obtain rfl : b = f := by simpa using hb
    exact h.below d hd
  below d hd := by
    rcases List.mem_append.mp hd with hd | hd
    · exact Nat.lt_add_right n (h.below d hd)
    · rw [List.mem_singleton.mp hd]
      exact Nat.lt_add_of_pos_right hn
  delivered := by
    -- the first `f` items were delivered, and now the `n` after them
    rw [List.flatMap_append, h.delivered, List.take_add, List.map_append]
    simp

/-- What is published stands behind the items delivered so far. -/
theorem LogInv.publish {consumed : ℕ} {pushed pushed' : List T}
    {deliveries : List (ℕ × List (Option T))} (h : LogInv consumed pushed deliveries)
    (hle : consumed ≤ pushed.length) (hpushed : pushed <+: pushed') :
    LogInv consumed pushed' deliveries := by
  obtain ⟨rest, rfl⟩ := hpushed
  refine ⟨h.sorted, h.below, ?_⟩
  rw [h.delivered, List.take_append_of_le_length hle]

structure Inv (s : DequeState T) : Prop where
  memory : s.MemoryInv
  owner : s.OwnerInv s.owner
  stealers : ∀ t, s.StealerInv (s.stealers t)
  log : LogInv s.consumed s.pushed s.deliveries

theorem Inv.initial : Inv (initial : DequeState T) where
  memory := ⟨rfl, Nat.le_refl _, Nat.zero_le _, rfl, Nat.zero_lt_one,
    fun i _ hi => absurd hi (Nat.not_lt_zero i), Nat.le_refl _,
    by change 0 < 0 + 2 * minCap; decide⟩
  owner := trivial
  stealers := fun _ => trivial
  log := ⟨List.Pairwise.nil, by simp [deliveries, DequeState.initial], rfl⟩

/-- **A step of the owner** keeps its invariant, and stealers see a later memory. -/
theorem ownerStep_inv (size : ℕ+) (hM : s.MemoryInv) (hO : s.OwnerInv s.owner)
    (hfit : s.PushFits) :
    (s.ownerStep size).MemoryInv ∧ (s.ownerStep size).OwnerInv (s.ownerStep size).owner ∧
      s.Later (s.ownerStep size).toDequeMemory := by
  have hcons := hM.consumed_le
  have hcached := hM.cached_le
  unfold ownerStep
  cases howner : s.owner with
  | idle => exact ⟨hM, by rw [howner]; trivial, .refl _⟩
  | panicked => exact ⟨hM, by rw [howner]; trivial, .refl _⟩
  | undefined =>
    rw [howner] at hO
    exact hO.elim
  | readProd task =>
    -- the cached counter is behind, so a buffer that is not full for it has room
    have hfull := fullFor_iff s.toDequeMemory (Nat.le_trans hcached hcons) hM.cached_lt
    simp only
    split
    · exact ⟨hM, rfl, .refl _⟩
    · next h =>
      rw [hfull] at h
      exact ⟨hM, ⟨rfl, by change s.produced < s.cachedCons + s.own.cap; omega⟩, .refl _⟩
  | loadCons task prod =>
    rw [howner] at hO
    obtain rfl : prod = s.produced := hO
    have hle := hM.produced_le
    have hpos := s.own.cap_pos
    have hfull := fullFor_iff s.toDequeMemory hcons (by omega)
    simp only
    split
    · -- really full: the push goes on to `resize`
      exact ⟨hM.reload, ⟨rfl, hle⟩, .reload _⟩
    · next h =>
      rw [hfull] at h
      exact ⟨hM.reload, ⟨rfl, by change s.produced < s.consumed + s.own.cap; omega⟩, .reload _⟩
  | resizeProd task prod =>
    rw [howner] at hO
    exact ⟨hM, ⟨hO.1, rfl, hO.2⟩, .refl _⟩
  | resizeCons task prod stop =>
    rw [howner] at hO
    obtain ⟨rfl, rfl, hle⟩ := hO
    have hne : s.buffer ≠ s.fresh := Nat.ne_of_lt hM.buffer_lt
    simp only
    split
    · -- the allocation panics, and nothing has been changed
      exact ⟨hM, trivial, .refl _⟩
    · next new halloc =>
      have hmem : Function.update s.mem s.fresh new s.buffer = s.mem s.buffer :=
        Function.update_of_ne hne _ _
      exact ⟨hM.frame hmem (Nat.le_succ _), ⟨_, _, Resizing.start hM halloc hle⟩,
        Later.frame _ hmem⟩
  | resizeRead task prod new moves =>
    rw [howner] at hO
    obtain ⟨c, k, h⟩ := hO
    cases moves with
    -- all moved, so the pointer is swapped
    | nil => exact h.swap hM
    | cons move moves => exact ⟨hM, ⟨c, k, _, h, fun hle => h.read hM hle⟩, .refl _⟩
  | resizeWrite task prod new value slot moves =>
    rw [howner] at hO
    obtain ⟨c, k, i, h, hvalue⟩ := hO
    -- the target slot lies in the new buffer, so the owner does not stop here
    have hslot : slot < (s.mem new).cap := by
      rw [h.next.2.2]
      exact Nat.mod_lt _ (s.mem new).cap_pos
    have hmem : Function.update s.mem new ((s.mem new).store slot value) s.buffer
        = s.mem s.buffer := Function.update_of_ne (Nat.ne_of_lt h.buffer_lt) _ _
    simp only [if_pos hslot]
    exact ⟨hM.frame hmem (Nat.le_refl _), ⟨c, k + 1, h.write hM hvalue⟩, Later.frame _ hmem⟩
  | copy task prod =>
    rw [howner] at hO
    -- the one place where the slice has to fit
    exact ⟨hM, ⟨0, Writing.start hM hO.1 hO.2 (hfit task prod howner)⟩, .refl _⟩
  | write task prod moves =>
    rw [howner] at hO
    obtain ⟨k, h⟩ := hO
    cases moves with
    -- all written, so `produced` is stored and the items become visible
    | nil => exact ⟨(h.store hM).1, trivial, (h.store hM).2⟩
    | cons move moves =>
      obtain ⟨i, j⟩ := move
      have hslot : j < s.own.cap := by
        rw [h.next.2.2]
        exact Nat.mod_lt _ s.own.cap_pos
      simp only [if_pos hslot]
      exact ⟨hM.store _ h.free, ⟨k + 1, h.write hM⟩, Later.store hM _ _⟩

/-- The slice of the push in progress. -/
def inProgress : OwnerPc T → Option (List T)
  | .readProd task | .loadCons task _ | .resizeProd task _ | .resizeCons task _ _
  | .resizeRead task _ _ _ | .resizeWrite task _ _ _ _ _ | .copy task _ | .write task _ _ =>
    some task
  | .idle | .panicked | .undefined => none

/-- The owner does not steal, and takes no other slice before it is done with one. -/
theorem ownerStep_frame (size : ℕ+) (s : DequeState T) :
    (s.ownerStep size).consumed = s.consumed ∧ (s.ownerStep size).stealers = s.stealers ∧
      (s.ownerStep size).returns = s.returns ∧
      (inProgress (s.ownerStep size).owner = inProgress s.owner ∨
        inProgress (s.ownerStep size).owner = none) := by
  unfold ownerStep
  cases howner : s.owner with
  | readProd task =>
    -- each case changes the owner and its own fields only; a push ends when the allocation panics,
    -- at an undefined access or at the last store
    dsimp only
    split <;> exact ⟨rfl, rfl, rfl, .inl rfl⟩
  | loadCons task prod =>
    dsimp only
    split <;> exact ⟨rfl, rfl, rfl, .inl rfl⟩
  | resizeCons task prod stop =>
    dsimp only
    split
    · exact ⟨rfl, rfl, rfl, .inr rfl⟩
    · exact ⟨rfl, rfl, rfl, .inl rfl⟩
  | resizeRead task prod new moves => cases moves <;> exact ⟨rfl, rfl, rfl, .inl rfl⟩
  | resizeWrite task prod new value slot moves =>
    dsimp only
    split
    · exact ⟨rfl, rfl, rfl, .inl rfl⟩
    · exact ⟨rfl, rfl, rfl, .inr rfl⟩
  | write task prod moves =>
    cases moves with
    | nil => exact ⟨rfl, rfl, rfl, .inr rfl⟩
    | cons move moves =>
      dsimp only
      split
      · exact ⟨rfl, rfl, rfl, .inl rfl⟩
      · exact ⟨rfl, rfl, rfl, .inr rfl⟩
  | resizeProd task prod => exact ⟨rfl, rfl, rfl, .inl rfl⟩
  | copy task prod => exact ⟨rfl, rfl, rfl, .inl rfl⟩
  | _ => exact ⟨rfl, rfl, rfl, .inl (by rw [howner])⟩

/-! ### Steps of a stealer -/

/-- A stealer that moves on without a result changes nobody else's knowledge. -/
theorem Inv.setStealer (hI : s.Inv) (t : ℕ) {pc : StealerPc T} (hpc : s.StealerInv pc) :
    Inv (s.setStealer t pc) := by
  refine ⟨hI.memory, hI.owner, fun t' => ?_, hI.log⟩
  change s.StealerInv (Function.update s.stealers t pc t')
  by_cases h : t' = t
  · rw [h, Function.update_self]
    exact hpc
  · rw [Function.update_of_ne h]
    exact hI.stealers t'

/-- A return that is no success delivers nothing. -/
theorem deliveries_finish (s : DequeState T) (t : ℕ) {result : Steal (ℕ × List (Option T))}
    (h : ∀ d, result ≠ .success d) : (s.finish t result).deliveries = s.deliveries := by
  simp only [deliveries, finish, List.filterMap_append]
  cases result with
  | success d => exact absurd rfl (h d)
  | _ => simp

theorem deliveries_finish_success (s : DequeState T) (t : ℕ) (d : ℕ × List (Option T)) :
    (s.finish t (.success d)).deliveries = s.deliveries ++ [d] := by
  simp [deliveries, finish]

theorem Inv.finish (hI : s.Inv) (t : ℕ) {result : Steal (ℕ × List (Option T))}
    (h : ∀ d, result ≠ .success d) : Inv (s.finish t result) := by
  have hset := hI.setStealer t (show s.StealerInv .idle from trivial)
  refine ⟨hset.memory, hset.owner, hset.stealers, ?_⟩
  rw [deliveries_finish s t h]
  exact hI.log

/-- **The compare-exchange succeeds**: what was read is what is due. -/
theorem Inv.success (hI : s.Inv) {t f n : ℕ} {values : List (Option T)}
    (hpc : s.stealers t = .compareExchange f n values) (hf : s.consumed = f) :
    Inv { s.finish t (.success (f, values)) with consumed := f + n } := by
  have hknow := hI.stealers t
  rw [hpc] at hknow
  obtain ⟨-, hn, hknow⟩ := hknow
  obtain ⟨hroom, hvalues⟩ := hknow hf
  have hset := hI.setStealer t (show s.StealerInv .idle from trivial)
  -- `consumed` has not moved since it was loaded, so what was read is still due
  have hadvance : s.consumed ≤ f + n := by omega
  refine ⟨hI.memory.advance hadvance hroom, hI.owner.advance hadvance, fun t' => ?_, ?_⟩
  · exact (hset.stealers t').later hI.memory (Later.advance hadvance)
  · change LogInv (f + n) s.pushed (s.finish t (.success (f, values))).deliveries
    have hlog := hI.log
    rw [hf] at hlog
    rw [deliveries_finish_success, hvalues]
    exact hlog.deliver hn

/-- **A step of a stealer keeps the invariant.** -/
theorem stealerStep_inv (hI : s.Inv) (t : ℕ) : Inv (s.stealerStep t) := by
  have hM := hI.memory
  have hpc := hI.stealers t
  unfold stealerStep
  cases hstealer : s.stealers t with
  | idle => exact hI
  | loadCons call =>
    exact hI.setStealer t (show s.StealerInv (.loadProd call s.consumed) from Nat.le_refl _)
  | loadProd call f =>
    rw [hstealer] at hpc
    have hle : f ≤ s.consumed := hpc
    simp only
    split
    · -- nothing to take: `Steal::Empty`
      exact hI.finish t fun d h => by cases h
    · next hn =>
      refine hI.setStealer t ⟨hle, Nat.pos_of_ne_zero hn, fun hcall => ?_, fun hsame => ?_⟩
      · rw [hcall] at hn ⊢
        simp only [StealCall.count] at hn ⊢
        omega
      · -- `f` is current, so the counters are at most `cap` apart and `len` is exact
        obtain rfl : s.consumed = f := hsame
        have hcap := s.own.cap_lt
        have hcons := hM.consumed_le
        have hprod := hM.produced_le
        have hcount := call.count_le (show s.produced - s.consumed < 2 ^ 64 by omega)
        rw [hM.stealLen_eq]
        omega
  | loadBuffer call f n =>
    rw [hstealer] at hpc
    obtain ⟨hle, hn, hcall, hroom⟩ := hpc
    refine hI.setStealer t ⟨hle, hn, Nat.le_refl _, fun hsame _ => ⟨hroom hsame, 0, ?_⟩⟩
    -- not more items than the buffer has slots
    have hfit : n ≤ (s.mem s.buffer).cap := by
      have hprod := hM.produced_le
      have := hroom hsame
      rw [hM.own_eq] at hprod
      omega
    exact ⟨Nat.zero_le n, call.slots_eq _ f hfit hcall, rfl⟩
  | read f n buffer slots values =>
    rw [hstealer] at hpc
    obtain ⟨hle, hn, hb, hknow⟩ := hpc
    cases slots with
    | nil =>
      simp only
      split
      · next hsame' =>
        refine hI.setStealer t ⟨hle, hn, fun hsame => ?_⟩
        -- the pointer did not change, and all slots were read
        obtain ⟨hroom, k, hk, hslots, hvalues⟩ := hknow hsame hsame'
        have hdone := List.drop_eq_nil_iff.mp hslots.symm
        rw [Ring.length_slots] at hdone
        obtain rfl : k = n := by omega
        exact ⟨hroom, hvalues⟩
      · exact hI.finish t fun d h => by cases h
    | cons i slots =>
      refine hI.setStealer t ⟨hle, hn, hb, fun hsame hsame' => ?_⟩
      obtain ⟨hroom, k, hk, hslots, hvalues⟩ := hknow hsame hsame'
      obtain ⟨hlt, hi, hrest⟩ := drop_eq_cons hslots
      rw [Ring.length_slots] at hlt
      rw [Ring.getElem_slots] at hi
      refine ⟨hroom, k + 1, hlt, hrest, ?_⟩
      -- the slot is read while it holds item `f + k`
      have hlen := hM.length_pushed
      rw [hvalues, hi, ← hsame', hM.load_slot (by omega) (by omega)]
      exact (itemsFrom_succ (by omega)).symm
  | compareExchange f n values =>
    simp only
    split
    · -- the exchange succeeds only if nobody has taken anything since `f` was loaded
      next hsame => exact hI.success hstealer hsame
    · exact hI.finish t fun d h => by cases h

/-- A stealer leaves the owner alone, and only a success moves `consumed` or delivers. -/
theorem stealerStep_frame (s : DequeState T) (t : ℕ) :
    (s.stealerStep t).owner = s.owner ∧
      (((s.stealerStep t).consumed = s.consumed ∧ (s.stealerStep t).deliveries = s.deliveries) ∨
        ∃ d, (s.stealerStep t).returns = s.returns ++ [⟨t, .success d⟩]) := by
  have hfinish (result : Steal (ℕ × List (Option T))) (h : ∀ d, result ≠ .success d) :
      (s.finish t result).consumed = s.consumed ∧ (s.finish t result).deliveries = s.deliveries :=
    ⟨rfl, deliveries_finish s t h⟩
  unfold stealerStep
  cases s.stealers t with
  | loadProd call f =>
    dsimp only
    split
    · exact ⟨rfl, .inl (hfinish _ fun d h => by cases h)⟩
    · exact ⟨rfl, .inl ⟨rfl, rfl⟩⟩
  | read f n buffer slots values =>
    cases slots with
    | nil =>
      dsimp only
      split
      · exact ⟨rfl, .inl ⟨rfl, rfl⟩⟩
      · exact ⟨rfl, .inl (hfinish _ fun d h => by cases h)⟩
    | cons i slots => exact ⟨rfl, .inl ⟨rfl, rfl⟩⟩
  -- only a successful exchange moves `consumed`, and it returns what it took
  | compareExchange f n values =>
    dsimp only
    split
    · exact ⟨rfl, .inr ⟨_, rfl⟩⟩
    · exact ⟨rfl, .inl (hfinish _ fun d h => by cases h)⟩
  | _ => exact ⟨rfl, .inl ⟨rfl, rfl⟩⟩

/-! ### Runs -/

/-- **A step keeps the invariant** if the push that starts to copy fits. -/
theorem step_inv (size : ℕ+) (hI : s.Inv) (hfit : s.PushFits) (act : DequeAct T) :
    Inv (s.step size act) := by
  cases act with
  | push task =>
    simp only [step]
    split
    · exact ⟨hI.memory, trivial, hI.stealers, hI.log⟩
    · exact hI
  | owner =>
    obtain ⟨hM, hO, hlater⟩ := ownerStep_inv size hI.memory hI.owner hfit
    obtain ⟨hcons, hstealers, hreturns, -⟩ := s.ownerStep_frame size
    refine ⟨hM, hO, fun t => ?_, ?_⟩
    · -- what the owner does makes the memory a later one, and stealers keep their knowledge in
      -- those
      have hpc := (hI.stealers t).later hI.memory hlater
      rw [← hstealers] at hpc
      exact hpc
    · have hlog := hI.log.publish (hI.memory.length_pushed ▸ hI.memory.consumed_le) hlater.pushed
      change LogInv (s.ownerStep size).consumed (s.ownerStep size).pushed
        (s.ownerStep size).deliveries
      rw [hcons, deliveries, hreturns]
      exact hlog
  | steal t call =>
    simp only [step]
    split
    · exact hI.setStealer t (show s.StealerInv (.loadCons call) from trivial)
    · exact hI
  | stealer t => exact stealerStep_inv hI t

/-- A run is extended at its end, which is what the inductions on runs are on. -/
theorem run_concat (size : ℕ+) (acts : List (DequeAct T)) (act : DequeAct T) :
    run size (acts ++ [act]) = (run size acts).step size act := by
  rw [run, List.foldl_append]
  rfl

theorem AllFit.init {size : ℕ+} {acts : List (DequeAct T)} {act : DequeAct T}
    (h : AllFit size (acts ++ [act])) : AllFit size acts :=
  fun done hdone => h done (hdone.trans (List.prefix_append _ _))

/-- **Every run whose pushes fit keeps the invariant.** -/
theorem run_inv (size : ℕ+) {acts : List (DequeAct T)} (hfit : AllFit size acts) :
    Inv (run size acts) := by
  -- a push that starts to copy fits in the state before the step
  induction acts using List.reverseRecOn with
  | nil => exact Inv.initial
  | append_singleton acts act ih =>
    rw [run_concat]
    exact step_inv size (ih hfit.init) (hfit.init acts (List.prefix_refl _)) act

/-! ### Slices of length at most one -/

/-- The slice in progress was pushed in the run. -/
theorem inProgress_run (size : ℕ+) {acts : List (DequeAct T)} {task : List T}
    (h : inProgress (run size acts).owner = some task) : .push task ∈ acts := by
  induction acts using List.reverseRecOn with
  | nil => cases h
  | append_singleton acts act ih =>
    rw [run_concat] at h
    -- a slice that was in progress before the last step
    have hold (h' : inProgress (run size acts).owner = some task) : .push task ∈ acts ++ [act] :=
      List.mem_append_left _ (ih h')
    cases act with
    | push task' =>
      simp only [step] at h
      split at h
      · -- an idle owner starts this push
        obtain rfl : task' = task := Option.some.inj h
        simp
      · exact hold h
    | owner =>
      rcases ((run size acts).ownerStep_frame size).2.2.2 with heq | heq
      · exact hold (heq.symm.trans h)
      · rw [step, heq] at h
        cases h
    | steal t call =>
      simp only [step] at h
      split at h
      · exact hold h
      · exact hold h
    | stealer t =>
      rw [step, ((run size acts).stealerStep_frame t).1] at h
      exact hold h

/-- **A slice of at most one item always fits.** -/
theorem allFit_of_length_le_one (size : ℕ+) {acts : List (DequeAct T)}
    (h : ∀ task, .push task ∈ acts → task.length ≤ 1) : AllFit size acts := by
  -- after the test of `push` there is room for one item at least
  have hfits {done : List (DequeAct T)} (hI : Inv (run size done))
      (hdone : ∀ task, .push task ∈ done → task.length ≤ 1) : (run size done).PushFits := by
    intro task prod howner
    have hO := hI.owner
    rw [howner] at hO
    obtain ⟨-, hlt⟩ : _ ∧ prod < (run size done).cachedCons + (run size done).own.cap := hO
    have hcached := hI.memory.cached_le
    have hlen := hdone task (inProgress_run size (by rw [howner]; rfl))
    omega
  -- the invariant of a run needs that its pushes fit, and that they fit needs the invariant of the
  -- run before: both go along in one induction
  induction acts using List.reverseRecOn with
  | nil =>
    intro done hdone
    obtain rfl : done = [] := List.prefix_nil.mp hdone
    exact hfits Inv.initial h
  | append_singleton acts act ih =>
    have hinit : AllFit size acts := ih fun task htask => h task (List.mem_append_left _ htask)
    intro done hdone
    rcases List.prefix_concat_iff.mp hdone with rfl | hdone
    · refine hfits ?_ h
      rw [run_concat]
      exact step_inv size (run_inv size hinit) (hinit acts (List.prefix_refl _)) act
    · exact hinit done hdone

/-- **Concurrent stealing is exactly-once and in order.** In every run in which each push fits the
buffer it is copied into (as it always does for slices of length at most one), the values delivered,
in the order of the values of `consumed` they advanced, are a prefix of the pushed values,
`consumed` of them. A step of a stealer that returns no success (a retry in particular) delivers
nothing and leaves `consumed` alone. -/
theorem exactly_once_fifo (size : ℕ+) :
    (∀ acts : List (DequeAct T), (∀ task, .push task ∈ acts → task.length ≤ 1) →
        AllFit size acts) ∧
      ∀ acts : List (DequeAct T), AllFit size acts →
        ((run size acts).deliveries.map Prod.fst).Pairwise (· < ·) ∧
        (run size acts).deliveries.flatMap Prod.snd <+: (run size acts).pushed.map some ∧
        ((run size acts).deliveries.flatMap Prod.snd).length = (run size acts).consumed ∧
        ∀ t, (((run size acts).stealerStep t).consumed = (run size acts).consumed ∧
            ((run size acts).stealerStep t).deliveries = (run size acts).deliveries) ∨
          ∃ d, ((run size acts).stealerStep t).returns
            = (run size acts).returns ++ [⟨t, .success d⟩] := by
  refine ⟨fun acts h => allFit_of_length_le_one size h, fun acts hfit => ?_⟩
  have hI := run_inv size hfit
  have hlen := hI.memory.length_pushed
  have hle := hI.memory.consumed_le
  refine ⟨hI.log.sorted, ?_, ?_, fun t => ((run size acts).stealerStep_frame t).2⟩
  · -- what was delivered is the front of what was pushed, up to the counter
    rw [hI.log.delivered]
    exact (List.take_prefix _ _).map some
  · rw [hI.log.delivered, List.length_map, List.length_take]
    omega

/-- Two items are pushed. Two stealers go for the first one, step by step in turn, while the owner
pushes a third item. The stealer that comes second has to start again, and gets the second item. -/
def twoStealers : List (DequeAct ℕ) :=
  .push [7] :: List.replicate 4 .owner ++ .push [8] :: List.replicate 4 .owner ++
    [.steal 0 .steal, .steal 1 .steal, .stealer 0, .stealer 1, .push [9], .owner, .stealer 1,
      .stealer 0, .owner, .stealer 0, .stealer 1, .owner, .stealer 1, .stealer 0, .owner,
      .stealer 0, .stealer 1, .stealer 0, .stealer 1] ++
    .steal 1 .steal :: List.replicate 6 (.stealer 1)

/-- Two stealers and the owner, interleaved: a single item goes to each stealer, and the one that
was not taken is still in the deque. -/
theorem exactly_once_fifo_twoStealers :
    (run 8 twoStealers).returns.map (fun r => r.stealer) = [0, 1, 1] ∧
    (run 8 twoStealers).deliveries = [(0, [some 7]), (1, [some 8])] ∧
    (run 8 twoStealers).pushed = [7, 8, 9] ∧
    (run 8 twoStealers).deliveries.flatMap Prod.snd <+: (run 8 twoStealers).pushed.map some := by
  have hshort : ∀ task, .push task ∈ twoStealers → task.length ≤ 1 := by
    intro task htask
    have hone : task = [7] ∨ task = [8] ∨ task = [9] := by
      simpa [twoStealers] using htask
    rcases hone with rfl | rfl | rfl <;> exact le_rfl
  have hfit := (exactly_once_fifo 8).1 twoStealers hshort
  exact ⟨by decide +kernel, by decide +kernel, by decide +kernel,
    ((exactly_once_fifo 8).2 twoStealers hfit).2.1⟩

end DequeState

end Farsight
