import Farsight.Controller.FrameOwnership
import Farsight.Controller.Receiver
import Mathlib.Order.CompletePartialOrder
import Mathlib.Order.Interval.Set.Disjoint

/-!
# The layout of the UMEM

`main` makes a UMEM of three frames for each entry of a ring: the first ones are bound to the slots
of the scanner, the next are given to the fill ring, and the last are bound to the slots of the
responder. A packet to send starts behind the metadata of its frame, but `Umem::of_desc` returns a
slice of a full frame from there on. It ends 24 bytes inside of the next frame.

* `Umem.new`, `Umem.ofDesc` — the size of the area, and the slice of a descriptor;
* `FrameSlot.slice` — the slice that `of_desc` returns for the descriptor of a slot, once
  `Sender::new` has bound the slots to their frames, or the frame that the kernel is given;
* `FrameSlot.bytes` — any number of bytes from the address of a descriptor on. The slices are those
  of a full frame (`FrameSlot.slice_eq`);
* `FramesApart` — the slots keep to their frames and to the area, do not share bytes, and no address
  overflows;
* `framesApart_iff` — for which rings and lengths this is the case;
* `frames_overlap` — it never is for the slices of `of_desc`, and for the bytes that
  `send_with_data` writes it depends on the body.
-/

namespace Farsight

open Machine Set

/-! ### The area -/

/-- The size of a page or of a huge page. -/
structure PageSize where
  bytes : ℕ
  isPow : ∃ k < 63, bytes = 2 ^ k

/-- `Umem`, without its pointer. -/
structure Umem where
  size : BitVec 64
  frameSize : BitVec 32
  deriving DecidableEq, Repr

/-- `align_to`. -/
def alignTo (size align : BitVec 64) : BitVec 64 :=
  (size + align - 1) &&& ~~~(align - 1)

namespace Umem

/-- `Umem::new`, with pages of the given size. -/
def new (page : PageSize) (frameSize frameCount : BitVec 32) : Umem where
  size := alignTo ((saturatingMul frameSize frameCount).setWidth 64) (.ofNat 64 page.bytes)
  frameSize

/-- The bytes of `Umem::of_desc`. -/
def ofDesc (self : Umem) (desc : Descriptor) : Set ℕ :=
  Ico desc.addr (desc.addr + self.frameSize.toNat)

/-- The UMEM that `main` makes. -/
def ofRing (page : PageSize) (size : RingSize) : Umem :=
  new page (.ofNat 32 Farsight.frameSize) (3 * size.word)

end Umem

/-- Rounding up: not less, less than a page more, and a multiple. -/
theorem PageSize.alignTo_spec (page : PageSize) {size : BitVec 64} (hsize : size.toNat < 2 ^ 32) :
    size.toNat ≤ (alignTo size (.ofNat 64 page.bytes)).toNat ∧
    (alignTo size (.ofNat 64 page.bytes)).toNat < size.toNat + page.bytes ∧
    page.bytes ∣ (alignTo size (.ofNat 64 page.bytes)).toNat := by
  obtain ⟨k, hk, hbytes⟩ := page.isPow
  have hpos := Nat.two_pow_pos k
  have hle : 2 ^ k ≤ 2 ^ 62 := Nat.pow_le_pow_right (by decide) (Nat.le_of_lt_succ hk)
  have hword : (BitVec.ofNat 64 page.bytes).toNat = 2 ^ k := by
    rw [BitVec.toNat_ofNat, hbytes]
    exact Nat.mod_eq_of_lt (by omega)
  have hmask : (BitVec.ofNat 64 page.bytes - 1).toNat = 2 ^ k - 1 := by
    bv_omega
  have hsum : (size + BitVec.ofNat 64 page.bytes - 1).toNat = size.toNat + (2 ^ k - 1) := by
    bv_omega
  rw [alignTo, toNat_and_not_mask _ hmask, hsum, hbytes]
  have hmod := Nat.mod_lt (size.toNat + (2 ^ k - 1)) hpos
  refine ⟨by omega, by omega, Nat.dvd_sub_mod _⟩

/-! ### Slots -/

/-- A slot of a TX ring, or an entry of the fill ring. -/
inductive FrameSlot where
  | tx (side : Side) (i : ℕ)
  | fill (i : ℕ)
  deriving DecidableEq, Repr

namespace FrameSlot

variable (size : RingSize)

/-- The slot is there. -/
def Valid : FrameSlot → Prop
  | .tx _ i => i < size.entries
  | .fill i => i < size.entries

/-- The frame of the slot. -/
def frame : FrameSlot → ℕ
  | .tx .scanner i => i
  | .fill i => size.entries + i
  | .tx .responder i => 2 * size.entries + i

/-- The frame that the kernel gets with an entry of the fill ring. -/
def fillBytes (i : ℕ) : Set ℕ :=
  Ico (Receiver.fillAddr size i).toNat ((Receiver.fillAddr size i).toNat + frameSize)

/-- `len` bytes from the address of the descriptor on, or a frame that the kernel gets. -/
def bytes (len : ℕ) : FrameSlot → Set ℕ
  | .fill i => fillBytes size i
  | slot => Ico (Sender.addr (slot.frame size)) (Sender.addr (slot.frame size) + len)

end FrameSlot

/-- A queue with rings of this size. -/
def TxQueue.ofSize (shared : SharedData) (checksumOffload : Bool) (size : RingSize) : TxQueue where
  shared
  checksumOffload
  ringSize := size.entries
  ringSize_dvd := size.dvd
  ringSize_lt := size.lt

section Slice

variable (page : PageSize) (size : RingSize) (shared : SharedData) (checksumOffload : Bool)
  (umem : ℕ → UInt8)

/-- What a slot hands out: the slice of `of_desc` for the descriptor that `Sender::new` has made, or
the frame that the kernel gets. -/
def FrameSlot.slice : FrameSlot → Set ℕ
  | .fill i => fillBytes size i
  | .tx side i => (Umem.ofRing page size).ofDesc
      ((((TxQueue.ofSize shared checksumOffload size).sender side).new umem).tx
        ((FrameSlot.tx side i).frame size % size.entries))

/-- The slices are a full frame from the address of the descriptor on. -/
theorem FrameSlot.slice_eq {slot : FrameSlot} (hslot : slot.Valid size) :
    slot.slice page size shared checksumOffload umem = slot.bytes size frameSize := by
  cases slot with
  | fill i => rfl
  | tx side i =>
    let queue := TxQueue.ofSize shared checksumOffload size
    have hi : i < size.entries := hslot
    -- the descriptor of a slot was given its address when the sender was made
    have howns : (queue.sender side).Owns ((FrameSlot.tx side i).frame size) := by
      cases side with
      | scanner =>
        refine ⟨Nat.zero_le _, ?_⟩
        change i < 0 + size.entries
        omega
      | responder =>
        refine ⟨Nat.le_add_right _ _, ?_⟩
        change 2 * size.entries + i < 2 * size.entries + size.entries
        omega
    have haddr : (((queue.sender side).new umem).tx
        ((FrameSlot.tx side i).frame size % size.entries)).addr =
        Sender.addr ((FrameSlot.tx side i).frame size) :=
      ((queue.sender side).bound_new umem _ howns).addr
    change (Umem.ofRing page size).ofDesc _ = _
    rw [Umem.ofDesc, haddr]
    rfl

end Slice

/-! ### Frames that are apart -/

/-- The address computations of `main`, `Controller::new`, `Sender::new` and `Receiver::new` stay in
`u32`. -/
structure NoOverflow (size : RingSize) : Prop where
  frameCount : ∃ count, mulBits 3 size.word = .ok count
  startingFrame : ∃ start stop, mulBits 2 size.word = .ok start ∧
    addBits start size.word = .ok stop
  fill : ∀ i < size.entries, ∃ frame addr, addBits size.word (.ofNat 32 i) = .ok frame ∧
    mulBits frame (.ofNat 32 frameSize) = .ok addr

/-- The slots, with these bytes, keep to their frames and to the area and share nothing; and no
address overflows. -/
structure FramesApart (page : PageSize) (size : RingSize) (bytes : FrameSlot → Set ℕ) : Prop where
  noOverflow : NoOverflow size
  own : ∀ side, ∀ i < size.entries, bytes (.tx side i) ⊆
    Ico ((FrameSlot.tx side i).frame size * frameSize)
      (((FrameSlot.tx side i).frame size + 1) * frameSize)
  area : ∀ side, ∀ i < size.entries, bytes (.tx side i) ⊆ Iio (Umem.ofRing page size).size.toNat
  disjoint : ∀ slot slot' : FrameSlot, slot.Valid size → slot'.Valid size → slot ≠ slot' →
    Disjoint (bytes slot) (bytes slot')

/-- Only the slots that are there matter. -/
theorem FramesApart.congr {page : PageSize} {size : RingSize} {bytes bytes' : FrameSlot → Set ℕ}
    (h : FramesApart page size bytes) (heq : ∀ slot, slot.Valid size → bytes slot = bytes' slot) :
    FramesApart page size bytes' where
  noOverflow := h.noOverflow
  own side i hi := heq (.tx side i) hi ▸ h.own side i hi
  area side i hi := heq (.tx side i) hi ▸ h.area side i hi
  disjoint slot slot' hslot hslot' hne :=
    heq slot hslot ▸ heq slot' hslot' ▸ h.disjoint slot slot' hslot hslot' hne

section

variable {page : PageSize} {size : RingSize} {len : ℕ}

/-- The arithmetic of the set-up stays within 32 bits up to `2 ^ 20` entries. The address of the
last receive frame is the first to fail. -/
theorem noOverflow_iff : NoOverflow size ↔ size.entries ≤ 2 ^ 20 := by
  have hword := Receiver.toNat_word size
  have hpos := size.pos
  have hframeSize : (BitVec.ofNat 32 frameSize).toNat = 2048 := rfl
  constructor
  · intro h
    -- the last receive frame has the largest address
    obtain ⟨frame, addr, hframe, haddr⟩ := h.fill (size.entries - 1) (by omega)
    have hlt := size.lt
    have hprod := exists_mulBits_eq_ok.mp ⟨addr, haddr⟩
    rw [addBits_eq_ok hframe, hword, hframeSize, BitVec.toNat_ofNat,
      Nat.mod_eq_of_lt (by omega)] at hprod
    omega
  · intro h
    have htwo : (2#32).toNat * size.word.toNat < 2 ^ 32 := by
      rw [hword, BitVec.toNat_ofNat]
      omega
    have hthree : (3#32).toNat * size.word.toNat < 2 ^ 32 := by
      rw [hword, BitVec.toNat_ofNat]
      omega
    -- the number of frames, the range of the responder and the receive frames, in turn
    refine ⟨exists_mulBits_eq_ok.mpr hthree, ?_, fun i hi => ?_⟩
    · obtain ⟨start, hstart⟩ := exists_mulBits_eq_ok.mpr htwo
      have hstop : start.toNat + size.word.toNat < 2 ^ 32 := by
        rw [mulBits_eq_ok hstart, hword, BitVec.toNat_ofNat]
        omega
      obtain ⟨stop, hstop⟩ := exists_addBits_eq_ok.mpr hstop
      exact ⟨start, stop, hstart, hstop⟩
    · have hi' : (BitVec.ofNat 32 i).toNat = i := by
        rw [BitVec.toNat_ofNat]
        exact Nat.mod_eq_of_lt (by omega)
      have hsum : size.word.toNat + (BitVec.ofNat 32 i).toNat < 2 ^ 32 := by
        rw [hword, hi']
        omega
      obtain ⟨frame, hframe⟩ := exists_addBits_eq_ok.mpr hsum
      have hprod : frame.toNat * (BitVec.ofNat 32 frameSize).toNat < 2 ^ 32 := by
        rw [addBits_eq_ok hframe, hword, hi', hframeSize]
        omega
      obtain ⟨addr, haddr⟩ := exists_mulBits_eq_ok.mpr hprod
      exact ⟨frame, addr, hframe, haddr⟩

/-- A power of two up to 2²⁰ is 2²⁰ or at most half of it. -/
theorem RingSize.entries_cases (h : size.entries ≤ 2 ^ 20) :
    size.entries ≤ 2 ^ 19 ∨ size.entries = 2 ^ 20 := by
  obtain ⟨k, -, hk⟩ := size.isPow
  rw [hk] at h ⊢
  have hle : k ≤ 20 := (Nat.pow_le_pow_iff_right (by decide)).mp h
  rcases Nat.lt_or_eq_of_le hle with hlt | rfl
  · exact .inl (Nat.pow_le_pow_right (by decide) (Nat.le_of_lt_succ hlt))
  · exact .inr rfl

/-- The size of the area before it is rounded up: a product that saturates. -/
theorem toNat_saturated (h : size.entries ≤ 2 ^ 20) :
    ((saturatingMul (.ofNat 32 frameSize) (3 * size.word)).setWidth 64).toNat =
      min (3 * size.entries * frameSize) (2 ^ 32 - 1) := by
  have hword := Receiver.toNat_word size
  have hcount : (3 * size.word).toNat = 3 * size.entries := by
    rw [BitVec.toNat_mul, hword]
    exact Nat.mod_eq_of_lt (by change 3 * _ < _; omega)
  have hframeSize : (BitVec.ofNat 32 frameSize).toNat = frameSize := rfl
  rw [BitVec.toNat_setWidth, toNat_saturatingMul, hcount, hframeSize, Nat.mul_comm frameSize]
  exact Nat.mod_eq_of_lt (by omega)

/-- All frames are in the area: its size is that of the frames, or it saturates and there is a page
that is larger. -/
theorem frames_le_size (h : size.entries ≤ 2 ^ 19 ∨ size.entries = 2 ^ 20 ∧ 2 ^ 33 ≤ page.bytes) :
    3 * size.entries * frameSize ≤ (Umem.ofRing page size).size.toNat := by
  have hentries' : size.entries ≤ 2 ^ 20 := by omega
  have hsize := toNat_saturated hentries'
  obtain ⟨hlower, -, hdvd⟩ := page.alignTo_spec (by rw [hsize]; omega)
  rw [hsize] at hlower
  change 3 * size.entries * 2048 ≤ (alignTo _ _).toNat
  change min (3 * size.entries * 2048) (2 ^ 32 - 1) ≤ _ at hlower
  rcases h with hsmall | ⟨hentries, hpage⟩
  · omega
  · have hpages := Nat.le_of_dvd (by omega) hdvd
    omega

/-- With 2²⁰ entries and pages of up to 4 GiB the area has 4 GiB. -/
theorem size_le_of_page_lt (hentries : size.entries = 2 ^ 20) (hpage : page.bytes < 2 ^ 33) :
    (Umem.ofRing page size).size.toNat ≤ 2 ^ 32 := by
  have hentries' : size.entries ≤ 2 ^ 20 := by omega
  have hsize := toNat_saturated hentries'
  obtain ⟨-, hupper, hdvd⟩ := page.alignTo_spec (by rw [hsize]; omega)
  change (alignTo _ _).toNat ≤ 2 ^ 32
  rw [hsize] at hupper
  -- both are multiples of the page
  have hpow : page.bytes ∣ 2 ^ 32 := by
    obtain ⟨k, -, hk⟩ := page.isPow
    rw [hk] at hpage ⊢
    exact Nat.pow_dvd_pow 2 (Nat.le_of_lt_succ ((Nat.pow_lt_pow_iff_right (by decide)).mp hpage))
  by_contra hgt
  have hnext := Nat.le_of_dvd (by omega) (Nat.dvd_sub hdvd hpow)
  omega

/-- A slot keeps to its frame, if nothing overflows and its bytes fit behind the metadata. -/
theorem FrameSlot.bytes_subset (hentries : size.entries ≤ 2 ^ 20)
    (hlen : TxMetadata.len + len ≤ frameSize) {slot : FrameSlot} (hslot : slot.Valid size) :
    slot.bytes size len ⊆
      Ico (slot.frame size * frameSize) ((slot.frame size + 1) * frameSize) := by
  rw [Nat.succ_mul]
  cases slot with
  | tx side i =>
    change Ico (_ * frameSize + TxMetadata.len) (_ * frameSize + TxMetadata.len + len) ⊆ _
    exact Ico_subset_Ico (by omega) (by omega)
  | fill i =>
    have hi : i < size.entries := hslot
    have haddr : (size.entries + i) * frameSize < 2 ^ 32 := by
      change _ * 2048 < _
      omega
    change Ico (Receiver.fillAddr size i).toNat _ ⊆ _
    rw [Receiver.toNat_fillAddr haddr]
    exact subset_rfl

/-- The frame tells the slot. -/
theorem FrameSlot.eq_of_frame_eq {slot slot' : FrameSlot} (hslot : slot.Valid size)
    (hslot' : slot'.Valid size) (h : slot.frame size = slot'.frame size) : slot = slot' := by
  rcases slot with ⟨_ | _, i⟩ | i <;> rcases slot' with ⟨_ | _, i'⟩ | i' <;>
    simp only [frame, Valid] at h hslot hslot'
  -- slots of different users have frames in different thirds
  all_goals first | omega | (obtain rfl : i = i' := by omega); rfl

theorem disjoint_frames {frame frame' : ℕ} (h : frame ≠ frame') :
    Disjoint (Ico (frame * frameSize) ((frame + 1) * frameSize))
      (Ico (frame' * frameSize) ((frame' + 1) * frameSize)) := by
  rw [Ico_disjoint_Ico]
  rcases Nat.lt_or_gt_of_ne h with hlt | hlt
  · exact (min_le_left _ _).trans
      ((Nat.mul_le_mul_right _ (Nat.succ_le_of_lt hlt)).trans (le_max_right _ _))
  · exact (min_le_right _ _).trans
      ((Nat.mul_le_mul_right _ (Nat.succ_le_of_lt hlt)).trans (le_max_left _ _))

/-- **When the frames are apart**: if packets fit behind the metadata of their frame, and all frames
fit into the area. -/
theorem framesApart_iff (hlen : 0 < len) :
    FramesApart page size (FrameSlot.bytes size len) ↔ TxMetadata.len + len ≤ frameSize ∧
      (size.entries ≤ 2 ^ 19 ∨ size.entries = 2 ^ 20 ∧ 2 ^ 33 ≤ page.bytes) := by
  have hpos := size.pos
  constructor
  · intro h
    refine ⟨?_, ?_⟩
    · -- the last byte of the first slot
      have hlast : TxMetadata.len + len - 1 ∈ (FrameSlot.tx .scanner 0).bytes size len := by
        change _ ∈ Ico (0 * frameSize + TxMetadata.len) (0 * frameSize + TxMetadata.len + len)
        rw [mem_Ico]
        omega
      have hown := (h.own .scanner 0 hpos hlast).2
      change _ < (0 + 1) * frameSize at hown
      omega
    · rcases RingSize.entries_cases (noOverflow_iff.mp h.noOverflow) with hsmall | hentries
      · exact .inl hsmall
      · refine .inr ⟨hentries, ?_⟩
        by_contra hpage
        have hsize := size_le_of_page_lt hentries (Nat.lt_of_not_le hpage)
        -- the last slot of the responder is behind the end
        have hfirst : Sender.addr (2 * size.entries + (size.entries - 1)) ∈
            (FrameSlot.tx .responder (size.entries - 1)).bytes size len :=
          mem_Ico.mpr ⟨le_rfl, Nat.lt_add_of_pos_right hlen⟩
        have harea := h.area .responder (size.entries - 1) (by omega) hfirst
        change _ * 2048 + 24 < _ at harea
        omega
  · rintro ⟨hfits, hframes⟩
    have hentries : size.entries ≤ 2 ^ 20 := by omega
    have hsubset (slot : FrameSlot) (hslot : slot.Valid size) :=
      FrameSlot.bytes_subset hentries hfits hslot
    refine ⟨noOverflow_iff.mpr hentries, fun side i hi => hsubset (.tx side i) hi,
      fun side i hi => ?_, fun slot slot' hslot hslot' hne => ?_⟩
    · have hframe : (FrameSlot.tx side i).frame size + 1 ≤ 3 * size.entries := by
        cases side <;> simp only [FrameSlot.frame] <;> omega
      intro byte hbyte
      have hown := (hsubset (.tx side i) hi hbyte).2
      exact hown.trans_le ((Nat.mul_le_mul_right _ hframe).trans (frames_le_size hframes))
    · -- every slice stays in its own frame, and the frames are apart
      refine Disjoint.mono (hsubset slot hslot) (hsubset slot' hslot') (disjoint_frames ?_)
      exact fun h => hne (FrameSlot.eq_of_frame_eq hslot hslot' h)

end

/-- **Frames overlap.** Whatever the size of the rings and of the pages, and whatever was in the
UMEM, the slices that `of_desc` returns for the descriptors of `Sender::new` are not apart. The
bytes that `send_with_data` writes for a body that fits into its slice are apart if and only if the
body has at most 1962 bytes and the rings at most 2¹⁹ entries; with pages of 8 GiB, 2²⁰ entries are
possible. -/
theorem frames_overlap (page : PageSize) (size : RingSize) (shared : SharedData)
    (checksumOffload : Bool) (umem : ℕ → UInt8) :
    ¬ FramesApart page size (FrameSlot.slice page size shared checksumOffload umem) ∧
    ∀ body : List UInt8, 62 + body.length ≤ (Umem.ofRing page size).frameSize.toNat →
      (FramesApart page size (FrameSlot.bytes size (62 + body.length)) ↔ body.length ≤ 1962 ∧
        (size.entries ≤ 2 ^ 19 ∨ size.entries = 2 ^ 20 ∧ 2 ^ 33 ≤ page.bytes)) := by
  refine ⟨fun h => ?_, fun body _ => ?_⟩
  · have hbytes : FramesApart page size (FrameSlot.bytes size frameSize) :=
      h.congr fun slot hslot => slot.slice_eq page size shared checksumOffload umem hslot
    exact absurd ((framesApart_iff (by decide)).mp hbytes).1 (by decide)
  · rw [framesApart_iff (by omega)]
    refine and_congr_left fun _ => ?_
    change 24 + (62 + body.length) ≤ 2048 ↔ _
    omega

/-- Rings of four entries and pages of 4 KiB. -/
def fourSlots : RingSize :=
  ⟨4, 2, by decide, rfl⟩

def smallPage : PageSize :=
  ⟨4096, 12, by decide, rfl⟩

/-- The slices of these, for a sender without checksum offload and an area of zeros. -/
def fourSlices : FrameSlot → Set ℕ :=
  FrameSlot.slice smallPage fourSlots TxQueue.oneSlot.shared false fun _ => 0

/-- The slice of the first slot of the scanner has the first byte of the second frame, where the
metadata of the second slot is, and that of the last slot the first byte of a receive frame. The
last slot of the responder leaves the area. -/
theorem fourSlots_overlap :
    ¬ FramesApart smallPage fourSlots fourSlices ∧
    1 * frameSize ∈ fourSlices (.tx .scanner 0) ∧
    (Receiver.fillAddr fourSlots 0).toNat ∈ fourSlices (.tx .scanner 3) ∧
    (Umem.ofRing smallPage fourSlots).size.toNat ∈ fourSlices (.tx .responder 3) := by
  have hslice (side : Side) (i : ℕ) (hi : i < 4) :
      fourSlices (.tx side i) = (FrameSlot.tx side i).bytes fourSlots 2048 :=
    @FrameSlot.slice_eq smallPage fourSlots TxQueue.oneSlot.shared false (fun _ => 0)
      (.tx side i) hi
  have hmem : 1 * frameSize ∈ fourSlices (.tx .scanner 0) := by
    rw [hslice .scanner 0 (by decide)]
    exact mem_Ico.mpr (by decide)
  refine ⟨fun h => ?_, hmem, ?_, ?_⟩
  · -- the byte is outside of the first frame
    have hown := (h.own .scanner 0 (by decide) hmem).2
    exact absurd hown (by decide)
  · rw [hslice .scanner 3 (by decide)]
    exact mem_Ico.mpr (by decide)
  · rw [hslice .responder 3 (by decide)]
    exact mem_Ico.mpr (by decide)

end Farsight
