import Mathlib.Data.List.Basic
import Mathlib.Tactic.Common

/-!
# Byte memories

A memory is a function from addresses to bytes. A write inside a region that is read afterwards
replaces a part of what was there (`splice`); a write outside of it changes nothing.

* `ByteMemory.write`, `ByteMemory.read`, `ByteMemory.writeAll`;
* `ByteMemory.read_write` — a write inside the region that is read;
* `ByteMemory.read_write_disjoint` — a write outside of it;
* `ByteMemory.read_writeAll`, `ByteMemory.read_writeAll_disjoint` — the same of lists of writes;
* `ByteMemory.Touches` — the addresses that a list of writes touches.
-/

namespace ByteMemory

/-- Write a string of bytes at an address. -/
def write (m : ℕ → UInt8) (addr : ℕ) (bytes : List UInt8) : ℕ → UInt8 := fun a =>
  if addr ≤ a then (bytes[a - addr]?).getD (m a) else m a

/-- The `len` bytes at an address. -/
def read (m : ℕ → UInt8) (addr len : ℕ) : List UInt8 :=
  (List.range len).map fun i => m (addr + i)

/-- Replace the bytes from `offset` on. -/
def splice (offset : ℕ) (new bytes : List UInt8) : List UInt8 :=
  bytes.take offset ++ new ++ bytes.drop (offset + new.length)

/-- Write strings at offsets from a base address, one after the other. -/
def writeAll (m : ℕ → UInt8) (base : ℕ) (writes : List (ℕ × List UInt8)) : ℕ → UInt8 :=
  writes.foldl (fun m w => write m (base + w.1) w.2) m

/-- The writes touch the byte at this address. -/
def Touches (base : ℕ) (writes : List (ℕ × List UInt8)) (a : ℕ) : Prop :=
  ∃ w ∈ writes, base + w.1 ≤ a ∧ a < base + w.1 + w.2.length

variable {m : ℕ → UInt8} {addr base offset len : ℕ} {bytes : List UInt8}

@[simp] theorem length_read : (read m addr len).length = len := by
  rw [read, List.length_map, List.length_range]

theorem getElem?_read (m : ℕ → UInt8) (addr len i : ℕ) :
    (read m addr len)[i]? = if i < len then some (m (addr + i)) else none := by
  rw [read, List.getElem?_map]
  split
  · next h => rw [List.getElem?_range h, Option.map_some]
  · next h => rw [List.getElem?_eq_none (by rw [List.length_range]; omega), Option.map_none]

theorem write_of_covered {a : ℕ} (h : addr ≤ a) {b : UInt8} (hb : bytes[a - addr]? = some b) :
    write m addr bytes a = b := by
  rw [write, if_pos h, hb, Option.getD_some]

theorem write_of_not_covered {a : ℕ} (h : ¬ (addr ≤ a ∧ a < addr + bytes.length)) :
    write m addr bytes a = m a := by
  unfold write
  split
  · next hle =>
    rw [List.getElem?_eq_none (by omega), Option.getD_none]
  · rfl

/-- Two regions side by side. -/
theorem read_add (m : ℕ → UInt8) (addr len len' : ℕ) :
    read m addr (len + len') = read m addr len ++ read m (addr + len) len' := by
  rw [read, List.range_add, List.map_append, List.map_map]
  congr 1
  exact List.map_congr_left fun i _ => congrArg m (Nat.add_assoc addr len i).symm

/-- A write outside the region. -/
theorem read_write_disjoint (h : addr + len ≤ offset ∨ offset + bytes.length ≤ addr) :
    read (write m offset bytes) addr len = read m addr len := by
  refine List.map_congr_left fun i hi => ?_
  have := List.mem_range.mp hi
  exact write_of_not_covered (by omega)

/-- A write of the whole region. -/
theorem read_write_self (m : ℕ → UInt8) (addr : ℕ) (bytes : List UInt8) :
    read (write m addr bytes) addr bytes.length = bytes := by
  refine List.ext_getElem? fun i => ?_
  rw [getElem?_read]
  split
  · next hi =>
    rw [write_of_covered (Nat.le_add_right _ _) (b := bytes[i])]
    · exact (List.getElem?_eq_getElem hi).symm
    · rw [Nat.add_sub_cancel_left, List.getElem?_eq_getElem hi]
  · next hi => rw [List.getElem?_eq_none (by omega)]

/-- A write inside the region. -/
theorem read_write (h : offset + bytes.length ≤ len) :
    read (write m (addr + offset) bytes) addr len = splice offset bytes (read m addr len) := by
  -- before the write, in it, and after it
  obtain ⟨rest, rfl⟩ := Nat.exists_eq_add_of_le h
  have hbefore : read (write m (addr + offset) bytes) addr offset = read m addr offset :=
    read_write_disjoint (.inl (Nat.le_refl _))
  have hafter : read (write m (addr + offset) bytes) (addr + (offset + bytes.length)) rest =
      read m (addr + (offset + bytes.length)) rest :=
    read_write_disjoint (.inr (by omega))
  have htake : (read m addr (offset + bytes.length + rest)).take offset = read m addr offset := by
    rw [Nat.add_assoc, read_add, List.take_left' length_read]
  have hdrop : (read m addr (offset + bytes.length + rest)).drop (offset + bytes.length) =
      read m (addr + (offset + bytes.length)) rest := by
    rw [read_add, List.drop_left' length_read]
  rw [read_add, read_add, hbefore, read_write_self, hafter, splice, htake, hdrop]

/-- A list of writes outside the region. -/
theorem read_writeAll_disjoint {writes : List (ℕ × List UInt8)}
    (h : ∀ w ∈ writes, addr + len ≤ base + w.1 ∨ base + w.1 + w.2.length ≤ addr) :
    read (writeAll m base writes) addr len = read m addr len := by
  induction writes generalizing m with
  | nil => rfl
  | cons w writes ih =>
    refine (ih fun w' hw' => h w' (List.mem_cons_of_mem _ hw')).trans ?_
    exact read_write_disjoint (h w List.mem_cons_self)

/-- A list of writes inside the region. -/
theorem read_writeAll {writes : List (ℕ × List UInt8)}
    (h : ∀ w ∈ writes, w.1 + w.2.length ≤ len) :
    read (writeAll m addr writes) addr len =
      writes.foldl (fun bytes w => splice w.1 w.2 bytes) (read m addr len) := by
  induction writes generalizing m with
  | nil => rfl
  | cons w writes ih =>
    refine (ih fun w' hw' => h w' (List.mem_cons_of_mem _ hw')).trans ?_
    rw [read_write (h w List.mem_cons_self), List.foldl_cons]

/-- Writes that do not overlap are all read back. -/
theorem read_writeAll_mem {writes : List (ℕ × List UInt8)}
    (hpair : writes.Pairwise fun w w' => w.1 + w.2.length ≤ w'.1 ∨ w'.1 + w'.2.length ≤ w.1)
    {w : ℕ × List UInt8} (hw : w ∈ writes) :
    read (writeAll m base writes) (base + w.1) w.2.length = w.2 := by
  induction writes generalizing m with
  | nil => exact absurd hw List.not_mem_nil
  | cons first writes ih =>
    obtain ⟨hfirst, hrest⟩ := List.pairwise_cons.mp hpair
    rcases List.mem_cons.mp hw with rfl | hw
    · -- what is written later lies elsewhere
      change read (writeAll (write m (base + w.1) w.2) base writes) _ _ = _
      rw [read_writeAll_disjoint, read_write_self]
      intro w' hw'
      have := hfirst w' hw'
      omega
    · exact ih hrest hw

end ByteMemory
