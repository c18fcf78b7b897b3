import Farsight.Controller.Sender
import Farsight.Xdp.Queue

/-!
# Receive frames

A `Receiver` gives the frames of its part of the UMEM to the kernel through the fill ring and gets
them back, with a packet in each, through the RX ring. `receive` takes a batch from the RX ring and
reserves as many entries of the fill ring; the `BatchGuard` that it returns writes the frames there
while it is iterated, and `drop` writes the others, releases the batch and submits the frames.

The kernel takes entries of the fill ring, moves its counter over them at some later time, and
returns each frame on the RX ring with an address inside of it. Both sides move in any order.

* `Receiver.new`, `Receiver.step` — the machine;
* `RxState.tally` — how often a frame is in the fill ring, in the kernel, in the RX ring and in the
  live guard;
* `Receiver.Inv` — what each place in `receive` and `drop` knows about the two rings;
* `Receiver.frames_conserved_iff` — frames are conserved if and only if the addresses of the receive
  frames fit 32 bits.
-/

namespace Farsight

/-! ### The machine -/

/-- What `BatchGuard` reads of a `Descriptor`. -/
structure RxDescriptor where
  addr : BitVec 64
  len : BitVec 32
  deriving DecidableEq, Repr

namespace RxDescriptor

/-- `addr & XSK_UNALIGNED_BUF_ADDR_MASK`. -/
def compAddr (self : RxDescriptor) : BitVec 64 :=
  self.addr &&& 0xFFFFFFFFFFFF#64

/-- Where the packet starts in the UMEM. -/
def packetStart (self : RxDescriptor) : ℕ :=
  (self.addr >>> 48).toNat + self.compAddr.toNat

end RxDescriptor

/-- `BatchGuard`, without its references. -/
structure BatchGuard where
  rxStart : BitVec 32
  fillStart : BitVec 32
  count : BitVec 32
  cursor : BitVec 32

/-- What the last call of `receive` has returned. -/
inductive ReceiveResult where
  /-- There was no call. -/
  | never
  /-- `Ok(None)`. -/
  | none
  /-- An error. -/
  | err
  /-- A guard, which was dropped. -/
  | dropped
  deriving DecidableEq, Repr

/-- Where the receiving thread stands. -/
inductive ReceivePc where
  /-- Outside `receive`, with no guard alive. -/
  | idle (last : ReceiveResult)
  /-- `receive`: about to look at the flags of the fill ring. -/
  | kicking (rxStart count : BitVec 32)
  /-- `receive`: about to reserve entries of the fill ring. -/
  | reserving (rxStart count : BitVec 32)
  /-- A guard is alive. -/
  | guard (batch : BatchGuard)
  /-- `drop`: at entry `i` of its loop. -/
  | dropping (batch : BatchGuard) (i : BitVec 32)
  /-- `drop`: about to submit. -/
  | submitting (batch : BatchGuard)

namespace ReceivePc

/-- The entries that were peeked by a `receive` that has not returned. -/
def pending : ReceivePc → ℕ
  | .kicking _ count => count.toNat
  | .reserving _ count => count.toNat
  | _ => 0

/-- The entries of the live guard. -/
def guarded : ReceivePc → ℕ
  | .guard batch => batch.count.toNat
  | .dropping batch _ => batch.count.toNat
  | .submitting batch => batch.count.toNat
  | _ => 0

end ReceivePc

/-- The position of the receiver in both rings. -/
structure RxPositions where
  cachedCons : BitVec 32
  cons : BitVec 32
  handed : List RxDescriptor
  cachedProd : BitVec 32
  prod : BitVec 32

/-- The rings, the receiving thread and the kernel. -/
structure RxState where
  fill : ProducerRing (BitVec 64)
  rx : ConsumerRing RxDescriptor
  pc : ReceivePc
  /-- How many entries of the fill ring the kernel has taken. -/
  taken : ℕ
  /-- The frames in the kernel, by the addresses it took. -/
  held : List (BitVec 64)
  /-- The position at the last call of `receive`. -/
  entry : RxPositions
  /-- The slices of the UMEM that `next` has returned, by their start and length. -/
  packets : List (ℕ × BitVec 32)
  /-- The counter `filled`. -/
  filled : ℕ

/-- The position of the receiver. -/
def RxState.positions (s : RxState) : RxPositions where
  cachedCons := s.rx.consumer.cachedCons
  cons := s.rx.cons
  handed := s.rx.handed
  cachedProd := s.fill.producer.cachedProd
  prod := s.fill.prod

/-- The frame of an address. -/
def frameOf (addr : BitVec 64) : ℕ :=
  addr.toNat / frameSize

/-- An action of the thread or of the kernel. -/
inductive RxAct where
  /-- Call `receive`. -/
  | receive
  /-- Wake the kernel up if it asks for that, which may fail. -/
  | kick (failed : Bool)
  /-- `self.fr.reserve(count)`. -/
  | reserve
  /-- `BatchGuard::next`. -/
  | next
  /-- Drop the guard. -/
  | drop
  /-- The next access of `drop`. -/
  | advance
  /-- The kernel takes the next entry of the fill ring. -/
  | take
  /-- The kernel moves its counter of the fill ring. -/
  | consume (count : BitVec 32)
  /-- The kernel returns the `k`-th of its frames with a packet. -/
  | deliver (k : ℕ) (desc : RxDescriptor)

namespace Receiver

variable (size : RingSize) (batchSize : BitVec 32)

/-- The address of fill entry `i` in `Receiver::new`, where `starting_frame` is the size of the
ring. The arithmetic is that of `u32`. -/
def fillAddr (i : ℕ) : BitVec 64 :=
  ((size.word + .ofNat 32 i) * .ofNat 32 frameSize).setWidth 64

/-- The loop of `Receiver::new`, and `submit`. -/
def fillActs (index : BitVec 32) : List (ProducerAct (BitVec 64)) :=
  (List.range size.entries).map (fun i => .write (index + .ofNat 32 i) (fillAddr size i)) ++
    [.submit size.word]

/-- A new fill ring. -/
def newFill (slots : ℕ → BitVec 64) : ProducerRing (BitVec 64) where
  producer := ⟨(RingKind.fill.cursors size.word 0 0).1, (RingKind.fill.cursors size.word 0 0).2⟩
  prod := 0
  cons := 0
  slots := slots
  reserved := 0
  published := []
  seen := []

/-- A new RX ring, whose counters stand at `base`. -/
def newRx (base : BitVec 32) (slots : ℕ → RxDescriptor) : ConsumerRing RxDescriptor where
  consumer :=
    ⟨(RingKind.rx.cursors size.word base base).1, (RingKind.rx.cursors size.word base base).2⟩
  prod := base
  cons := base
  slots := slots
  produced := []
  handed := []
  released := 0

/-- The state for given rings, before the first `receive`. -/
def ready (fill : ProducerRing (BitVec 64)) (rx : ConsumerRing RxDescriptor) : RxState where
  fill := fill
  rx := rx
  pc := .idle .never
  taken := 0
  held := []
  entry := ⟨rx.consumer.cachedCons, rx.cons, rx.handed, fill.producer.cachedProd, fill.prod⟩
  packets := []
  filled := 0

/-- `Receiver::new`; it fails if the fill ring is too small. -/
def new (base : BitVec 32) (fillSlots : ℕ → BitVec 64) (rxSlots : ℕ → RxDescriptor) :
    Option RxState :=
  let fill := newFill size fillSlots
  match (fill.producer.reserve size.word fill.cons size.word).1 with
  | some index =>
    some (ready ((fillActs size index).foldl (ProducerRing.step size)
      (fill.step size (.reserve size.word))) (newRx size base rxSlots))
  | none => none

/-- The descriptor of entry `i` of a batch. -/
def descOf (s : RxState) (batch : BatchGuard) (i : BitVec 32) : RxDescriptor :=
  s.rx.slots (size.slot (batch.rxStart + i))

/-- The frame of entry `i` is written to the fill ring. -/
def recycle (s : RxState) (batch : BatchGuard) (i : BitVec 32) : ProducerRing (BitVec 64) :=
  s.fill.step size (.write (batch.fillStart + i) (descOf size s batch i).compAddr)

/-- One action. -/
def step (s : RxState) : RxAct → RxState
  | .receive =>
    match s.pc with
    | .idle _ =>
      match (s.rx.consumer.peek s.rx.prod batchSize).1 with
      | some (index, count) =>
        { s with
          rx := s.rx.step size (.peek batchSize), entry := s.positions, pc := .kicking index count }
      | none =>
        { s with rx := s.rx.step size (.peek batchSize), entry := s.positions, pc := .idle .none }
    | _ => s
  | .kick failed =>
    match s.pc with
    | .kicking rxStart count =>
      -- the batch is given back if the system call fails
      if failed then { s with rx := s.rx.step size (.unpeek count), pc := .idle .err }
      else { s with pc := .reserving rxStart count }
    | _ => s
  | .reserve =>
    match s.pc with
    | .reserving rxStart count =>
      match (s.fill.producer.reserve size.word s.fill.cons count).1 with
      | some fillStart =>
        { s with
          fill := s.fill.step size (.reserve count), pc := .guard ⟨rxStart, fillStart, count, 0⟩ }
      | none =>
        -- no room in the fill ring: the batch is given back
        { s with
          fill := s.fill.step size (.reserve count)
          rx := s.rx.step size (.unpeek count)
          pc := .idle .err }
    | _ => s
  | .next =>
    match s.pc with
    | .guard batch =>
      if batch.cursor ≥ batch.count then s
      else
        let desc := descOf size s batch batch.cursor
        { s with
          fill := recycle size s batch batch.cursor
          pc := .guard { batch with cursor := batch.cursor + 1 }
          packets := s.packets ++ [(desc.packetStart, desc.len)] }
    | _ => s
  | .drop =>
    match s.pc with
    | .guard batch => { s with pc := .dropping batch batch.cursor }
    | _ => s
  | .advance =>
    match s.pc with
    | .dropping batch i =>
      -- the frames that `next` has not returned are recycled too
      if i < batch.count then
        { s with fill := recycle size s batch i, pc := .dropping batch (i + 1) }
      else { s with rx := s.rx.step size (.release batch.count), pc := .submitting batch }
    | .submitting batch =>
      { s with
        fill := s.fill.step size (.submit batch.count)
        pc := .idle .dropped
        filled := s.filled + batch.cursor.toNat }
    | _ => s
  | .take =>
    -- the kernel compares counters
    if s.fill.prod - .ofNat 32 s.taken ≠ 0 then
      { s with
        taken := s.taken + 1
        held := s.held ++ [s.fill.slots (size.slot (.ofNat 32 s.taken))] }
    else s
  | .consume count =>
    -- not before it has read the entries
    if count ≤ .ofNat 32 s.taken - s.fill.cons then
      { s with fill := s.fill.step size (.consume count) }
    else s
  | .deliver k desc =>
    match s.held[k]? with
    | some addr =>
      -- the packet starts at some offset inside the frame
      if frameOf desc.addr = frameOf addr ∧ (s.rx.prod - s.rx.cons).toNat < size.entries then
        { s with held := s.held.eraseIdx k, rx := s.rx.step size (.produce desc) }
      else s
    | none => s

end Receiver

/-! ### Where a frame is -/

/-- The addresses among `addrs` that are in a frame. -/
def onFrame (frame : ℕ) (addrs : List (BitVec 64)) : ℕ :=
  addrs.countP fun addr => frameOf addr = frame

@[simp] theorem onFrame_nil (frame : ℕ) : onFrame frame [] = 0 := rfl

theorem onFrame_append (frame : ℕ) (l l' : List (BitVec 64)) :
    onFrame frame (l ++ l') = onFrame frame l + onFrame frame l' :=
  List.countP_append

theorem onFrame_singleton (frame : ℕ) (addr : BitVec 64) :
    onFrame frame [addr] = if frameOf addr = frame then 1 else 0 := by
  rw [onFrame, List.countP_singleton]
  simp only [decide_eq_true_eq]

/-- An address is taken out of a list. -/
theorem onFrame_eraseIdx {l : List (BitVec 64)} {k : ℕ} {addr : BitVec 64}
    (h : l[k]? = some addr) (frame : ℕ) :
    onFrame frame (l.eraseIdx k) + onFrame frame [addr] = onFrame frame l := by
  obtain ⟨hk, rfl⟩ := List.getElem?_eq_some_iff.mp h
  rw [Nat.add_comm, ← onFrame_append, List.singleton_append]
  exact (List.getElem_cons_eraseIdx_perm hk).countP_eq _

namespace RxState

/-- The published entries of the fill ring that the kernel has not taken. -/
def inFill (s : RxState) : List (BitVec 64) :=
  s.fill.published.drop s.taken

/-- The entries of the RX ring that are not in a guard. -/
def inRx (s : RxState) : List (BitVec 64) :=
  (s.rx.produced.drop (s.rx.handed.length - s.pc.pending)).map RxDescriptor.addr

/-- The entries of the live guard. -/
def inGuard (s : RxState) : List (BitVec 64) :=
  (s.rx.handed.drop (s.rx.handed.length - s.pc.guarded)).map RxDescriptor.addr

/-- How often a frame is anywhere. -/
def tally (s : RxState) (frame : ℕ) : ℕ :=
  onFrame frame s.inFill + onFrame frame s.held + onFrame frame s.inRx + onFrame frame s.inGuard

theorem inGuard_eq_nil {s : RxState} (h : s.pc.guarded = 0) : s.inGuard = [] := by
  rw [inGuard, h, Nat.sub_zero, List.drop_length, List.map_nil]

theorem inRx_eq {s : RxState} (h : s.pc.pending = 0) :
    s.inRx = (s.rx.produced.drop s.rx.handed.length).map RxDescriptor.addr := by
  rw [inRx, h, Nat.sub_zero]

theorem tally_eq {s t : RxState} (hfill : t.inFill = s.inFill) (hheld : t.held = s.held)
    (hrx : t.inRx = s.inRx) (hguard : t.inGuard = s.inGuard) (frame : ℕ) :
    t.tally frame = s.tally frame := by
  rw [tally, tally, hfill, hheld, hrx, hguard]

/-- Each receive frame is in one place, once, and no other frame is anywhere. -/
def Conserved (size : RingSize) (s : RxState) : Prop :=
  ∀ frame, s.tally frame =
    if size.entries ≤ frame ∧ frame < 2 * size.entries then 1 else 0

/-- If the last `receive` has returned `None` or an error, the receiver is where it was before. -/
def Restored (s : RxState) : Prop :=
  s.pc = .idle .none ∨ s.pc = .idle .err → s.positions = s.entry

end RxState

/-! ### What the thread knows about the rings -/

namespace Receiver

/-- The first `n` fill entries of a batch hold its frames. -/
def Written (size : RingSize) (s : RxState) (batch : BatchGuard) (n : ℕ) : Prop :=
  size.read s.fill.slots s.fill.prod n =
    ((s.rx.handed.drop (s.rx.handed.length - batch.count.toNat)).take n).map RxDescriptor.compAddr

/-- Nothing is reserved but `count` entries of the fill ring, and nothing is peeked but the batch of
`peeked` entries from `rxStart` on. -/
structure Standing (s : RxState) (count peeked : ℕ) : Prop where
  reserved : s.fill.reserved = s.fill.published.length + count
  handed : s.rx.handed.length = s.rx.released + peeked

/-- A batch, by its places in both rings. -/
structure GuardInv (s : RxState) (batch : BatchGuard) : Prop where
  standing : Standing s batch.count.toNat batch.count.toNat
  rxStart : batch.rxStart = s.rx.cons
  fillStart : batch.fillStart = s.fill.prod

/-- The position of the receiver once a `receive` in progress has given its batch back. -/
def unpeeked (s : RxState) (count : BitVec 32) : RxPositions :=
  { s.positions with
    cachedCons := s.rx.consumer.cachedCons - count
    handed := s.rx.handed.take (s.rx.handed.length - count.toNat) }

/-- What is known at each place of the thread. -/
def PcInv (size : RingSize) (s : RxState) : ReceivePc → Prop
  | .idle last => Standing s 0 0 ∧ (last = .none ∨ last = .err → s.positions = s.entry)
  | .kicking rxStart count =>
    Standing s 0 count.toNat ∧ rxStart = s.rx.cons ∧ unpeeked s count = s.entry
  | .reserving rxStart count =>
    Standing s 0 count.toNat ∧ rxStart = s.rx.cons ∧ unpeeked s count = s.entry
  | .guard batch => GuardInv s batch ∧ batch.cursor ≤ batch.count ∧
    Written size s batch batch.cursor.toNat
  | .dropping batch i => GuardInv s batch ∧ i ≤ batch.count ∧ Written size s batch i.toNat
  | .submitting batch => Standing s batch.count.toNat 0 ∧
    batch.count.toNat ≤ s.rx.handed.length ∧ Written size s batch batch.count.toNat

structure Inv (size : RingSize) (base : BitVec 32) (s : RxState) : Prop where
  fill : ProducerRing.Inv size 0 s.fill
  rx : ConsumerRing.Inv size base s.rx
  seen_le : s.fill.seen.length ≤ s.taken
  taken_le : s.taken ≤ s.fill.published.length
  pc : PcInv size s s.pc
  conserved : s.Conserved size

variable {size : RingSize} {batchSize base : BitVec 32} {s : RxState} {batch : BatchGuard}

/-- What holds where the thread stands. -/
theorem Inv.pcInv (h : Inv size base s) {pc : ReceivePc} (hpc : s.pc = pc) : PcInv size s pc := by
  subst hpc
  exact h.pc

/-! ### `receive` -/

/-- The batch of a `receive` in progress can be given back. -/
theorem unpeek_eq (hrx : ConsumerRing.Inv size base s.rx) {count : BitVec 32}
    (hstanding : Standing s 0 count.toNat) :
    s.rx.step size (.unpeek count) =
      { s.rx with
        consumer := s.rx.consumer.unpeek count
        handed := s.rx.handed.take (s.rx.handed.length - count.toNat) } := by
  have hle : count ≤ s.rx.consumer.cachedCons - s.rx.cons := by
    change count.toNat ≤ (s.rx.consumer.cachedCons - s.rx.cons).toNat
    rw [hrx.unreleased, hstanding.handed, Nat.add_sub_cancel_left]
  rw [ConsumerRing.step, if_pos hle]

/-- A step after which every frame is where it was, or has moved from one place to another. -/
theorem conserved_of_tally {t : RxState} (h : s.Conserved size)
    (htally : ∀ frame, t.tally frame = s.tally frame) : t.Conserved size :=
  fun frame => (htally frame).trans (h frame)

/-- The batch is given back to the RX ring. -/
theorem Inv.giveBack (h : Inv size base s) {rxStart count : BitVec 32}
    (hpc : s.pc = .kicking rxStart count ∨ s.pc = .reserving rxStart count) :
    Inv size base { s with rx := s.rx.step size (.unpeek count), pc := .idle .err } := by
  have hpcInv : Standing s 0 count.toNat ∧ rxStart = s.rx.cons ∧ unpeeked s count = s.entry := by
    rcases hpc with hpc | hpc <;> exact h.pcInv hpc
  have hpending : s.pc.pending = count.toNat ∧ s.pc.guarded = 0 := by
    rcases hpc with hpc | hpc <;> rw [hpc] <;> exact ⟨rfl, rfl⟩
  obtain ⟨hstanding, -, hentry⟩ := hpcInv
  have hunpeek := unpeek_eq h.rx hstanding
  have hrx := h.rx.step (.unpeek count)
  have hlength := hstanding.handed
  rw [hunpeek] at hrx ⊢
  refine ⟨h.fill, hrx, h.seen_le, h.taken_le, ⟨⟨hstanding.reserved, ?_⟩, fun _ => hentry⟩, ?_⟩
  · change (s.rx.handed.take (s.rx.handed.length - count.toNat)).length = s.rx.released + 0
    rw [List.length_take]
    omega
  · -- what was pending is in the RX ring again, where the tally had it all along
    refine conserved_of_tally h.conserved (RxState.tally_eq rfl rfl ?_ ?_)
    · rw [RxState.inRx_eq rfl, RxState.inRx, hpending.1]
      change (s.rx.produced.drop (s.rx.handed.take _).length).map _ = _
      rw [List.length_take, Nat.min_eq_left (Nat.sub_le _ _)]
    · rw [RxState.inGuard_eq_nil rfl, RxState.inGuard_eq_nil hpending.2]

/-- A batch is taken from the RX ring. -/
theorem Inv.receive_some (h : Inv size base s) {last : ReceiveResult} (hpc : s.pc = .idle last)
    {index count : BitVec 32}
    (hpeek : (s.rx.consumer.peek s.rx.prod batchSize).1 = some (index, count)) :
    Inv size base
      { s with
        rx := s.rx.step size (.peek batchSize)
        entry := s.positions
        pc := .kicking index count } := by
  have hstanding := (h.pcInv hpc).1
  rcases heq : s.rx.consumer.peek s.rx.prod batchSize with ⟨result, consumer⟩
  obtain rfl : result = some (index, count) := by rw [← hpeek, heq]
  obtain ⟨hentries, hindex, hread, hinv⟩ := h.rx.peek_some heq
  have hstep : s.rx.step size (.peek batchSize) =
      { s.rx with
        consumer := consumer
        handed := s.rx.handed ++ size.read s.rx.slots index count.toNat } := by
    rw [ConsumerRing.step, heq]
  have hlength : (s.rx.handed ++ size.read s.rx.slots index count.toNat).length =
      s.rx.handed.length + count.toNat := by
    rw [List.length_append, RingSize.length_read]
  have hhanded := hstanding.handed
  rw [hstep]
  refine ⟨h.fill, hinv, h.seen_le, h.taken_le, ⟨⟨hstanding.reserved, ?_⟩, ?_, ?_⟩, ?_⟩
  · change (s.rx.handed ++ _).length = s.rx.released + count.toNat
    omega
  · -- nothing else is peeked, so the batch starts where the shared counter is
    change index = s.rx.cons
    rw [hindex, hhanded, Nat.add_zero, h.rx.cons]
  · -- giving the batch back leads to where the call was made
    have hcons : consumer.cachedCons = s.rx.consumer.cachedCons + count := by
      have hcons' : consumer.cachedCons = seqAt base (s.rx.handed ++ _).length := hinv.tracks.cons
      rw [hcons', hlength, seqAt_add_toNat, ← h.rx.tracks.cons]
    have htake : (s.rx.handed ++ size.read s.rx.slots index count.toNat).take
        ((s.rx.handed ++ size.read s.rx.slots index count.toNat).length - count.toNat) =
        s.rx.handed := by
      rw [hlength, Nat.add_sub_cancel, List.take_left']
      rfl
    simp only [unpeeked, RxState.positions]
    rw [hcons, htake, BitVec.add_sub_cancel]
  · refine conserved_of_tally h.conserved (RxState.tally_eq rfl rfl ?_ ?_)
    · rw [RxState.inRx_eq (s := s) (by rw [hpc]; rfl), RxState.inRx]
      change (s.rx.produced.drop ((s.rx.handed ++ _).length - count.toNat)).map _ = _
      rw [hlength, Nat.add_sub_cancel]
    · rw [RxState.inGuard_eq_nil rfl, RxState.inGuard_eq_nil (by rw [hpc]; rfl)]

/-- Nothing to receive: `receive` returns `None`, and the receiver is where it was. -/
theorem Inv.receive_none (h : Inv size base s) {last : ReceiveResult} (hpc : s.pc = .idle last)
    (hpeek : (s.rx.consumer.peek s.rx.prod batchSize).1 = none) :
    Inv size base
      { s with
        rx := s.rx.step size (.peek batchSize)
        entry := s.positions
        pc := .idle .none } := by
  have hstanding := (h.pcInv hpc).1
  rcases heq : s.rx.consumer.peek s.rx.prod batchSize with ⟨result, consumer⟩
  obtain rfl : result = none := by rw [← hpeek, heq]
  have hinv := (h.rx.peek_none heq).2
  have hstep : s.rx.step size (.peek batchSize) = { s.rx with consumer := consumer } := by
    rw [ConsumerRing.step, heq]
  -- a failed `peek` may have read the other counter, but has not moved its own
  have hcons : consumer.cachedCons = s.rx.consumer.cachedCons :=
    hinv.tracks.cons.trans h.rx.tracks.cons.symm
  rw [hstep]
  refine ⟨h.fill, hinv, h.seen_le, h.taken_le, ⟨⟨hstanding.reserved, hstanding.handed⟩, ?_⟩, ?_⟩
  · intro _
    simp only [RxState.positions]
    rw [hcons]
  · refine conserved_of_tally h.conserved (RxState.tally_eq rfl rfl ?_ ?_)
    · rw [RxState.inRx_eq rfl, RxState.inRx_eq (by rw [hpc]; rfl)]
    · rw [RxState.inGuard_eq_nil rfl, RxState.inGuard_eq_nil (by rw [hpc]; rfl)]

/-- The fill ring has no room. -/
theorem Inv.reserve_none (h : Inv size base s) {rxStart count : BitVec 32}
    (hpc : s.pc = .reserving rxStart count)
    (hreserve : (s.fill.producer.reserve size.word s.fill.cons count).1 = none) :
    Inv size base { s with fill := s.fill.step size (.reserve count) } := by
  obtain ⟨hstanding, hrxStart, hentry⟩ := h.pcInv hpc
  rcases heq : s.fill.producer.reserve size.word s.fill.cons count with ⟨result, producer⟩
  obtain rfl : result = none := by rw [← hreserve, heq]
  have hinv := (h.fill.reserve_none heq).2
  have hstep : s.fill.step size (.reserve count) = { s.fill with producer := producer } := by
    rw [ProducerRing.step, heq]
  -- only the cached counter of the kernel may have moved, and no position of the receiver
  have hprod : producer.cachedProd = s.fill.producer.cachedProd :=
    hinv.tracks.prod.trans h.fill.tracks.prod.symm
  rw [hstep]
  refine ⟨hinv, h.rx, h.seen_le, h.taken_le, ?_, ?_⟩
  · change PcInv size _ s.pc
    rw [hpc]
    refine ⟨⟨hstanding.reserved, hstanding.handed⟩, hrxStart, ?_⟩
    rw [← hentry]
    simp only [unpeeked, RxState.positions]
    rw [hprod]
  · exact conserved_of_tally h.conserved (RxState.tally_eq rfl rfl rfl rfl)

/-- The guard is returned. -/
theorem Inv.reserve_some (h : Inv size base s) {rxStart count fillStart : BitVec 32}
    (hpc : s.pc = .reserving rxStart count)
    (hreserve : (s.fill.producer.reserve size.word s.fill.cons count).1 = some fillStart) :
    Inv size base
      { s with
        fill := s.fill.step size (.reserve count)
        pc := .guard ⟨rxStart, fillStart, count, 0⟩ } := by
  obtain ⟨hstanding, hrxStart, hentry⟩ := h.pcInv hpc
  rcases heq : s.fill.producer.reserve size.word s.fill.cons count with ⟨result, producer⟩
  obtain rfl : result = some fillStart := by rw [← hreserve, heq]
  obtain ⟨hindex, hinv⟩ := h.fill.reserve_some heq
  have hstep : s.fill.step size (.reserve count) =
      { s.fill with producer := producer, reserved := s.fill.reserved + count.toNat } := by
    rw [ProducerRing.step, heq]
  have hreserved := hstanding.reserved
  have hhanded := hstanding.handed
  rw [hstep]
  refine ⟨hinv, h.rx, h.seen_le, h.taken_le, ⟨⟨⟨?_, hhanded⟩, hrxStart, ?_⟩, ?_, ?_⟩, ?_⟩
  · change s.fill.reserved + count.toNat = s.fill.published.length + count.toNat
    omega
  · -- nothing else is reserved, so the entries start where the shared counter is
    change fillStart = s.fill.prod
    rw [hindex, hreserved, Nat.add_zero, h.fill.prod]
  · exact Nat.zero_le _
  · rfl
  · refine conserved_of_tally h.conserved fun frame => ?_
    -- what was in the ring is in the guard now
    have hsplit : s.rx.produced.drop (s.rx.handed.length - count.toNat) =
        s.rx.handed.drop (s.rx.handed.length - count.toNat) ++
          s.rx.produced.drop s.rx.handed.length :=
      h.rx.drop_eq (Nat.sub_le _ _)
    have hrx : onFrame frame s.inRx = _ := congrArg (onFrame frame)
      ((congrArg (List.map RxDescriptor.addr) (by rw [hpc]; exact hsplit)).trans List.map_append)
    have hguard : s.inGuard = [] := RxState.inGuard_eq_nil (by rw [hpc]; rfl)
    rw [RxState.tally, RxState.tally, hrx, hguard, RxState.inRx_eq rfl, onFrame_append]
    change onFrame frame s.inFill + onFrame frame s.held +
      onFrame frame ((s.rx.produced.drop s.rx.handed.length).map _) +
      onFrame frame ((s.rx.handed.drop (s.rx.handed.length - count.toNat)).map _) =
      onFrame frame s.inFill + onFrame frame s.held + (_ + _) + 0
    omega

/-! ### The guard -/

/-- Entry `i` of the batch is in the RX ring, as it was handed out. -/
theorem descOf_eq (hrx : ConsumerRing.Inv size base s.rx) {batch : BatchGuard}
    (hguard : GuardInv s batch) {i : BitVec 32} (hi : i < batch.count) :
    (s.rx.handed.drop (s.rx.handed.length - batch.count.toNat))[i.toNat]? =
      some (descOf size s batch i) := by
  have hlt : i.toNat < batch.count.toNat := hi
  have hhanded := hguard.standing.handed
  have hreleased : s.rx.handed.length - batch.count.toNat = s.rx.released := by omega
  rw [hreleased, ← hrx.exact.unreleased, RingSize.read, List.getElem?_map,
    List.getElem?_range (by omega), Option.map_some, descOf, hguard.rxStart, BitVec.ofNat_toNat,
    BitVec.setWidth_eq]

/-- A batch is no longer than the ring. -/
theorem GuardInv.count_le (hguard : GuardInv s batch) (hfill : ProducerRing.Inv size 0 s.fill) :
    batch.count.toNat ≤ size.entries := by
  have hroom := hfill.reserved_le
  have hreserved := hguard.standing.reserved
  have hseen := hfill.seen_le
  omega

/-- `next`, or a turn of the loop in `drop`: one more frame is written to the fill ring. -/
theorem recycle_spec (hfill : ProducerRing.Inv size 0 s.fill)
    (hrx : ConsumerRing.Inv size base s.rx)
    (hguard : GuardInv s batch) {i : BitVec 32} (hi : i < batch.count)
    (hwritten : Written size s batch i.toNat) :
    (∃ slots, recycle size s batch i = { s.fill with slots := slots }) ∧
      Written size { s with fill := recycle size s batch i } batch (i.toNat + 1) := by
  have hlt : i.toNat < batch.count.toNat := hi
  have hcount := hguard.count_le hfill
  -- the entry is reserved
  have hindex : s.fill.prod + i - s.fill.prod < s.fill.producer.cachedProd - s.fill.prod := by
    change (s.fill.prod + i - s.fill.prod).toNat < (s.fill.producer.cachedProd - s.fill.prod).toNat
    rw [hfill.unpublished, hguard.standing.reserved, Nat.add_sub_cancel_left, BitVec.add_comm,
      BitVec.add_sub_cancel]
    exact hlt
  have hrecycle : recycle size s batch i =
      { s.fill with
        slots := Function.update s.fill.slots (size.slot (s.fill.prod + .ofNat 32 i.toNat))
          (descOf size s batch i).compAddr } := by
    rw [recycle, hguard.fillStart, ProducerRing.step, if_pos hindex, BitVec.ofNat_toNat,
      BitVec.setWidth_eq]
  refine ⟨⟨_, hrecycle⟩, ?_⟩
  rw [Written, hrecycle]
  change size.read (Function.update _ _ _) s.fill.prod _ = _
  rw [size.read_update (by omega), hwritten, List.take_add_one, descOf_eq hrx hguard hi,
    Option.toList_some, List.map_append, List.map_singleton]

theorem toNat_succ {i n : BitVec 32} (hi : i < n) : (i + 1).toNat = i.toNat + 1 := by
  have hlt : i.toNat < n.toNat := hi
  have := n.isLt
  rw [BitVec.toNat_add]
  exact Nat.mod_eq_of_lt (show i.toNat + 1 < 2 ^ 32 by omega)

theorem succ_le {i n : BitVec 32} (hi : i < n) : i + 1 ≤ n := by
  change (i + 1).toNat ≤ n.toNat
  rw [toNat_succ hi]
  exact hi

/-- The state after it. -/
theorem Inv.recycle (h : Inv size base s) (hguard : GuardInv s batch) {i : BitVec 32}
    (hi : i < batch.count) (hwritten : Written size s batch i.toNat) {pc : ReceivePc}
    (hpending : pc.pending = s.pc.pending) (hguarded : pc.guarded = s.pc.guarded)
    {packets : List (ℕ × BitVec 32)}
    (hpc : ∀ t : RxState, GuardInv t batch → Written size t batch (i + 1).toNat →
      PcInv size t pc) :
    Inv size base
      { s with fill := Receiver.recycle size s batch i, pc := pc, packets := packets } := by
  obtain ⟨⟨slots, hslots⟩, hnext⟩ := recycle_spec h.fill h.rx hguard hi hwritten
  have hinv : ProducerRing.Inv size 0 (Receiver.recycle size s batch i) := h.fill.step _
  rw [hslots] at hinv hnext ⊢
  refine ⟨hinv, h.rx, h.seen_le, h.taken_le, ?_, ?_⟩
  · apply hpc
    · exact ⟨⟨hguard.standing.reserved, hguard.standing.handed⟩, hguard.rxStart, hguard.fillStart⟩
    · rw [toNat_succ hi]
      exact hnext
  · -- writing to reserved entries moves no frame: they are published with `submit`
    refine conserved_of_tally h.conserved (RxState.tally_eq rfl rfl ?_ ?_)
    · unfold RxState.inRx
      rw [hpending]
    · unfold RxState.inGuard
      rw [hguarded]

/-- `drop` releases the batch once all of it is written. -/
theorem Inv.release (h : Inv size base s) {i : BitVec 32} (hpc : s.pc = .dropping batch i)
    (hi : ¬ i < batch.count) :
    Inv size base
      { s with rx := s.rx.step size (.release batch.count), pc := .submitting batch } := by
  obtain ⟨hguard, hle, hwritten⟩ := h.pcInv hpc
  -- all frames of the batch are written before it is released
  have hall : i.toNat = batch.count.toNat := Nat.le_antisymm hle (Nat.le_of_not_lt hi)
  have hhanded := hguard.standing.handed
  have hcount : batch.count ≤ s.rx.consumer.cachedCons - s.rx.cons := by
    change batch.count.toNat ≤ (s.rx.consumer.cachedCons - s.rx.cons).toNat
    rw [h.rx.unreleased, hhanded, Nat.add_sub_cancel_left]
  have hstep : s.rx.step size (.release batch.count) =
      { s.rx with
        cons := s.rx.cons + batch.count
        released := s.rx.released + batch.count.toNat } := by
    rw [ConsumerRing.step, if_pos hcount]
  have hinv := h.rx.step (.release batch.count)
  rw [hall] at hwritten
  rw [hstep] at hinv ⊢
  refine ⟨h.fill, hinv, h.seen_le, h.taken_le,
    ⟨⟨hguard.standing.reserved, ?_⟩, ?_, hwritten⟩, ?_⟩
  · exact hhanded
  · change batch.count.toNat ≤ s.rx.handed.length
    omega
  · refine conserved_of_tally h.conserved (RxState.tally_eq rfl rfl ?_ ?_)
    · rw [RxState.inRx_eq rfl, RxState.inRx_eq (by rw [hpc]; rfl)]
    · unfold RxState.inGuard
      rw [hpc]
      rfl

/-- The receive frames are below 2³², so their addresses have no offset in the upper bits. -/
theorem compAddr_eq (hfit : 2 * size.entries * frameSize ≤ 2 ^ 32) (h : s.Conserved size)
    {desc : RxDescriptor} (hmem : desc.addr ∈ s.inGuard) : desc.compAddr = desc.addr := by
  have hpos : 0 < onFrame (frameOf desc.addr) s.inGuard := by
    rw [onFrame, List.countP_pos_iff]
    exact ⟨desc.addr, hmem, decide_eq_true rfl⟩
  have htally := h (frameOf desc.addr)
  rw [RxState.tally] at htally
  split at htally
  · -- the frame is a receive frame, and these end below 2³²
    next hframe =>
    have haddr : desc.addr.toNat < 2 ^ 48 := by
      have hlt : desc.addr.toNat < 2 * size.entries * frameSize :=
        (Nat.div_lt_iff_lt_mul (by decide)).mp hframe.2
      omega
    apply BitVec.eq_of_toNat_eq
    rw [RxDescriptor.compAddr, BitVec.toNat_and]
    exact (Nat.and_two_pow_sub_one_eq_mod _ 48).trans (Nat.mod_eq_of_lt haddr)
  · -- no other frame is anywhere
    omega

/-- `drop` gives the frames to the kernel. -/
theorem Inv.submit (h : Inv size base s) (hfit : 2 * size.entries * frameSize ≤ 2 ^ 32)
    (hpc : s.pc = .submitting batch) (filled : ℕ) :
    Inv size base
      { s with
        fill := s.fill.step size (.submit batch.count)
        pc := .idle .dropped
        filled := filled } := by
  obtain ⟨hstanding, hcount, hwritten⟩ := h.pcInv hpc
  have hguarded : s.inGuard =
      (s.rx.handed.drop (s.rx.handed.length - batch.count.toNat)).map RxDescriptor.addr := by
    rw [RxState.inGuard, hpc]
    rfl
  -- what is published is what the guard held
  have hread : size.read s.fill.slots s.fill.prod batch.count.toNat = s.inGuard := by
    rw [hwritten, List.take_of_length_le (by rw [List.length_drop]; omega), hguarded]
    refine List.map_congr_left fun desc hdesc => compAddr_eq hfit h.conserved ?_
    rw [hguarded]
    exact List.mem_map_of_mem hdesc
  have hsize : batch.count ≤ s.fill.producer.cachedProd - s.fill.prod := by
    change batch.count.toNat ≤ (s.fill.producer.cachedProd - s.fill.prod).toNat
    rw [h.fill.unpublished, hstanding.reserved, Nat.add_sub_cancel_left]
  have hstep : s.fill.step size (.submit batch.count) =
      { s.fill with
        prod := s.fill.prod + batch.count
        published := s.fill.published ++ s.inGuard } := by
    rw [ProducerRing.step, if_pos hsize, hread]
  have hlength : (s.fill.published ++ s.inGuard).length =
      s.fill.published.length + batch.count.toNat := by
    rw [List.length_append, ← hread, RingSize.length_read]
  have hinv := h.fill.step (.submit batch.count)
  have htaken := h.taken_le
  have hreserved := hstanding.reserved
  rw [hstep] at hinv ⊢
  refine ⟨hinv, h.rx, h.seen_le, ?_, ⟨⟨?_, hstanding.handed⟩, ?_⟩, ?_⟩
  · change s.taken ≤ (s.fill.published ++ s.inGuard).length
    omega
  · change s.fill.reserved = (s.fill.published ++ s.inGuard).length + 0
    omega
  · rintro (hlast | hlast) <;> cases hlast
  · refine conserved_of_tally h.conserved fun frame => ?_
    -- the frames of the guard are in the fill ring now
    have hfill : (s.fill.published ++ s.inGuard).drop s.taken = s.inFill ++ s.inGuard :=
      List.drop_append_of_le_length h.taken_le
    have hrx : s.inRx = _ := RxState.inRx_eq (by rw [hpc]; rfl)
    change onFrame frame ((s.fill.published ++ s.inGuard).drop s.taken) + onFrame frame s.held +
      onFrame frame ((s.rx.produced.drop (s.rx.handed.length - 0)).map RxDescriptor.addr) +
      onFrame frame ((s.rx.handed.drop (s.rx.handed.length - 0)).map RxDescriptor.addr) = _
    rw [RxState.tally, hrx, hfill, onFrame_append, Nat.sub_zero, List.drop_length, List.map_nil,
      onFrame_nil]
    omega

/-! ### The kernel -/

/-- What the kernel does not touch. -/
def ofThread (s : RxState) : ℕ × List (BitVec 64) × (ℕ → BitVec 64) × ℕ :=
  (s.fill.reserved, s.fill.published, s.fill.slots, s.rx.released)

/-- A step of the kernel leaves what the thread knows. -/
theorem PcInv.frame {pc : ReceivePc} (h : PcInv size s pc) {t : RxState}
    (hthread : ofThread t = ofThread s) (hpositions : t.positions = s.positions)
    (hentry : t.entry = s.entry) : PcInv size t pc := by
  obtain ⟨hreserved, hpublished, hslots, hreleased⟩ :
      t.fill.reserved = s.fill.reserved ∧ t.fill.published = s.fill.published ∧
        t.fill.slots = s.fill.slots ∧ t.rx.released = s.rx.released := by
    simpa only [ofThread, Prod.mk.injEq] using hthread
  obtain ⟨hcachedCons, hcons, hhanded, hcachedProd, hprod⟩ :
      t.rx.consumer.cachedCons = s.rx.consumer.cachedCons ∧ t.rx.cons = s.rx.cons ∧
        t.rx.handed = s.rx.handed ∧ t.fill.producer.cachedProd = s.fill.producer.cachedProd ∧
        t.fill.prod = s.fill.prod := by
    simpa only [RxState.positions, RxPositions.mk.injEq] using hpositions
  have hstanding {n m : ℕ} (hs : Standing s n m) : Standing t n m := by
    refine ⟨?_, ?_⟩
    · rw [hreserved, hpublished]
      exact hs.reserved
    · rw [hhanded, hreleased]
      exact hs.handed
  have hguard {batch : BatchGuard} (hs : GuardInv s batch) : GuardInv t batch := by
    refine ⟨hstanding hs.standing, ?_, ?_⟩
    · rw [hcons]
      exact hs.rxStart
    · rw [hprod]
      exact hs.fillStart
  have hwritten {batch : BatchGuard} {n : ℕ} (hs : Written size s batch n) :
      Written size t batch n := by
    rw [Written, hslots, hprod, hhanded]
    exact hs
  have hunpeeked (count : BitVec 32) : unpeeked t count = unpeeked s count := by
    rw [unpeeked, hpositions, hcachedCons, hhanded]
    rfl
  -- each place speaks of the fields of the thread only
  cases pc with
  | idle last =>
    rw [PcInv, hpositions, hentry]
    exact ⟨hstanding h.1, h.2⟩
  | kicking rxStart count =>
    rw [PcInv, hcons, hunpeeked, hentry]
    exact ⟨hstanding h.1, h.2⟩
  | reserving rxStart count =>
    rw [PcInv, hcons, hunpeeked, hentry]
    exact ⟨hstanding h.1, h.2⟩
  | guard batch => exact ⟨hguard h.1, h.2.1, hwritten h.2.2⟩
  | dropping batch i => exact ⟨hguard h.1, h.2.1, hwritten h.2.2⟩
  | submitting batch =>
    refine ⟨hstanding h.1, ?_, hwritten h.2.2⟩
    rw [hhanded]
    exact h.2.1

/-- The kernel takes a frame from the fill ring. -/
theorem Inv.take (h : Inv size base s) (htake : s.fill.prod - .ofNat 32 s.taken ≠ 0) :
    Inv size base
      { s with
        taken := s.taken + 1
        held := s.held ++ [s.fill.slots (size.slot (.ofNat 32 s.taken))] } := by
  have hword : BitVec.ofNat 32 s.taken = seqAt 0 s.taken := (zero_seqAt _).symm
  -- the words differ, so there is an entry that was not taken
  have hlt : s.taken < s.fill.published.length := by
    refine Nat.lt_of_le_of_ne h.taken_le fun heq => htake ?_
    rw [h.fill.prod, hword, heq]
    exact BitVec.sub_self _
  -- the slot still holds the entry that was published there
  have hslot : s.fill.slots (size.slot (.ofNat 32 s.taken)) = s.fill.published[s.taken] := by
    rw [hword, size.slot_seqAt]
    exact h.fill.holds s.taken h.seen_le hlt
  refine ⟨h.fill, h.rx, h.seen_le.trans (Nat.le_succ _), hlt, h.pc.frame rfl rfl rfl, ?_⟩
  refine conserved_of_tally h.conserved fun frame => ?_
  have hfill : s.inFill = [s.fill.published[s.taken]] ++ s.fill.published.drop (s.taken + 1) :=
    List.drop_eq_getElem_cons hlt
  change onFrame frame (s.fill.published.drop (s.taken + 1)) +
    onFrame frame (s.held ++ [s.fill.slots (size.slot (.ofNat 32 s.taken))]) +
    onFrame frame s.inRx + onFrame frame s.inGuard = _
  rw [RxState.tally, hfill, hslot, onFrame_append, onFrame_append]
  omega

/-- The kernel moves its counter. -/
theorem Inv.consume (h : Inv size base s) {count : BitVec 32}
    (hcount : count ≤ .ofNat 32 s.taken - s.fill.cons) :
    Inv size base { s with fill := s.fill.step size (.consume count) } := by
  have hword : BitVec.ofNat 32 s.taken = seqAt 0 s.taken := (zero_seqAt _).symm
  have htaken := h.taken_le
  have hroom := h.fill.reserved_le
  have hpublished := h.fill.published_le
  have hlt := size.lt
  have hdiff : (seqAt (0 : BitVec 32) s.taken - seqAt 0 s.fill.seen.length).toNat =
      s.taken - s.fill.seen.length := toNat_seqAt_sub_of_le h.seen_le (by omega)
  have hle : count.toNat ≤ s.taken - s.fill.seen.length := by
    rw [← hdiff, ← hword, ← h.fill.cons]
    exact hcount
  -- what was taken was published
  have hcount' : count ≤ s.fill.prod - s.fill.cons := by
    change count.toNat ≤ (s.fill.prod - s.fill.cons).toNat
    rw [h.fill.unseen]
    omega
  have hstep : s.fill.step size (.consume count) =
      { s.fill with
        cons := s.fill.cons + count
        seen := s.fill.seen ++ size.read s.fill.slots s.fill.cons count.toNat } := by
    rw [ProducerRing.step, if_pos hcount']
  have hseen := h.seen_le
  have hinv := h.fill.step (.consume count)
  rw [hstep] at hinv ⊢
  refine ⟨hinv, h.rx, ?_, h.taken_le, ?_, ?_⟩
  · change (s.fill.seen ++ _).length ≤ s.taken
    rw [List.length_append, RingSize.length_read]
    omega
  · exact h.pc.frame rfl rfl rfl
  · exact conserved_of_tally h.conserved (RxState.tally_eq rfl rfl rfl rfl)

/-- The kernel returns a frame. -/
theorem Inv.deliver (h : Inv size base s) {k : ℕ} {addr : BitVec 64} (hk : s.held[k]? = some addr)
    {desc : RxDescriptor} (hframe : frameOf desc.addr = frameOf addr)
    (hroom : (s.rx.prod - s.rx.cons).toNat < size.entries) :
    Inv size base { s with held := s.held.eraseIdx k, rx := s.rx.step size (.produce desc) } := by
  have hstep : s.rx.step size (.produce desc) =
      { s.rx with
        slots := Function.update s.rx.slots (size.slot s.rx.prod) desc
        prod := s.rx.prod + 1
        produced := s.rx.produced ++ [desc] } := by
    rw [ConsumerRing.step, if_pos hroom]
  have hinv := h.rx.step (.produce desc)
  have hhanded := h.rx.tracks.le
  rw [hstep] at hinv ⊢
  refine ⟨h.fill, hinv, h.seen_le, h.taken_le, h.pc.frame rfl rfl rfl, ?_⟩
  · refine conserved_of_tally h.conserved fun frame => ?_
    have herase := onFrame_eraseIdx hk frame
    have hrx : (s.rx.produced ++ [desc]).drop (s.rx.handed.length - s.pc.pending) =
        s.rx.produced.drop (s.rx.handed.length - s.pc.pending) ++ [desc] :=
      List.drop_append_of_le_length (by omega)
    -- the frame leaves the kernel and enters the RX ring
    have hmoved : onFrame frame [desc.addr] = onFrame frame [addr] := by
      rw [onFrame_singleton, onFrame_singleton, hframe]
    change onFrame frame s.inFill + onFrame frame (s.held.eraseIdx k) +
      onFrame frame (((s.rx.produced ++ [desc]).drop (s.rx.handed.length - s.pc.pending)).map
        RxDescriptor.addr) + onFrame frame s.inGuard = _
    rw [hrx, List.map_append, List.map_singleton, onFrame_append, hmoved, RxState.tally,
      RxState.inRx]
    omega

/-! ### Whole runs -/

/-- The thread moves on and touches neither ring. -/
theorem Inv.move (h : Inv size base s) {pc : ReceivePc} (hpending : pc.pending = s.pc.pending)
    (hguarded : pc.guarded = s.pc.guarded) (hpc : PcInv size { s with pc := pc } pc) :
    Inv size base { s with pc := pc } := by
  refine ⟨h.fill, h.rx, h.seen_le, h.taken_le, hpc, ?_⟩
  refine conserved_of_tally h.conserved (RxState.tally_eq rfl rfl ?_ ?_)
  · unfold RxState.inRx
    rw [hpending]
  · unfold RxState.inGuard
    rw [hguarded]

/-- Every action of the thread and of the kernel keeps the invariant. The bound on the size is
needed in one place, where the address that is written back is masked. -/
theorem Inv.step (h : Inv size base s) (hfit : 2 * size.entries * frameSize ≤ 2 ^ 32)
    (act : RxAct) : Inv size base (Receiver.step size batchSize s act) := by
  unfold Receiver.step
  cases act with
  | receive =>
    cases hpc : s.pc with
    | idle last =>
      dsimp only
      split
      · next hpeek => exact h.receive_some hpc hpeek
      · next hpeek => exact h.receive_none hpc hpeek
    | _ => exact h
  | kick failed =>
    cases hpc : s.pc with
    | kicking rxStart count =>
      dsimp only
      split
      · exact h.giveBack (.inl hpc)
      · -- both places ask for the same
        have hkicking := h.pcInv hpc
        have hreserving : PcInv size s (.reserving rxStart count) := hkicking
        exact h.move (by rw [hpc]; rfl) (by rw [hpc]; rfl) (hreserving.frame rfl rfl rfl)
    | _ => exact h
  | reserve =>
    cases hpc : s.pc with
    | reserving rxStart count =>
      dsimp only
      split
      · next hreserve => exact h.reserve_some hpc hreserve
      · -- no room in the fill ring: the batch is given back
        next hreserve => exact (h.reserve_none hpc hreserve).giveBack (.inr hpc)
    | _ => exact h
  | next =>
    cases hpc : s.pc with
    | guard batch =>
      dsimp only
      split
      · exact h
      · next hlt =>
        obtain ⟨hguard, hle, hwritten⟩ := h.pcInv hpc
        have hi : batch.cursor < batch.count := Nat.lt_of_not_le hlt
        refine h.recycle hguard hi hwritten (by rw [hpc]; rfl) (by rw [hpc]; rfl) fun t ht hw => ?_
        exact ⟨⟨ht.standing, ht.rxStart, ht.fillStart⟩, succ_le hi, hw⟩
    | _ => exact h
  | drop =>
    cases hpc : s.pc with
    | guard batch =>
      have hguard := h.pcInv hpc
      -- `drop` goes on where the iteration has stopped
      have hdropping : PcInv size s (.dropping batch batch.cursor) := hguard
      exact h.move (by rw [hpc]; rfl) (by rw [hpc]; rfl) (hdropping.frame rfl rfl rfl)
    | _ => exact h
  | advance =>
    cases hpc : s.pc with
    | dropping batch i =>
      dsimp only
      split
      · next hi =>
        obtain ⟨hguard, hle, hwritten⟩ := h.pcInv hpc
        refine h.recycle hguard hi hwritten (by rw [hpc]; rfl) (by rw [hpc]; rfl) fun t ht hw => ?_
        exact ⟨ht, succ_le hi, hw⟩
      · next hi => exact h.release hpc hi
    | submitting batch => exact h.submit hfit hpc _
    | _ => exact h
  | take =>
    dsimp only
    split
    · next htake => exact h.take htake
    · exact h
  | consume count =>
    dsimp only
    split
    · next hcount => exact h.consume hcount
    · exact h
  | deliver k desc =>
    dsimp only
    split
    · next hk =>
      split
      · next hdesc => exact h.deliver hk hdesc.1 hdesc.2
      · exact h
    · exact h

/-! ### A new receiver -/

/-- The loop of `Receiver::new` over the first `n` entries. -/
theorem fill_run {fill : ProducerRing (BitVec 64)} (h : ProducerRing.Inv size 0 fill)
    (hreserved : fill.reserved = fill.published.length + size.entries) (g : ℕ → BitVec 64) {n : ℕ}
    (hn : n ≤ size.entries) :
    ∃ slots, ((List.range n).map fun i =>
        ProducerAct.write (fill.prod + .ofNat 32 i) (g i)).foldl (ProducerRing.step size) fill =
      { fill with slots := slots } ∧ size.read slots fill.prod n = (List.range n).map g := by
  induction n with
  | zero => exact ⟨fill.slots, rfl, rfl⟩
  | succ n ih =>
    obtain ⟨slots, hrun, hread⟩ := ih (Nat.le_of_succ_le hn)
    have hlt := size.lt
    -- the entry is one of those reserved
    have hindex : fill.prod + .ofNat 32 n - fill.prod < fill.producer.cachedProd - fill.prod := by
      change (fill.prod + .ofNat 32 n - fill.prod).toNat <
        (fill.producer.cachedProd - fill.prod).toNat
      rw [h.unpublished, hreserved, Nat.add_sub_cancel_left, BitVec.add_comm,
        BitVec.add_sub_cancel, BitVec.toNat_ofNat, Nat.mod_eq_of_lt (by omega)]
      exact hn
    refine ⟨Function.update slots (size.slot (fill.prod + .ofNat 32 n)) (g n), ?_, ?_⟩
    · rw [List.range_succ, List.map_append, List.foldl_append, hrun, List.map_singleton,
        List.foldl_cons, List.foldl_nil, ProducerRing.step, if_pos hindex]
    · rw [size.read_update hn, hread, List.range_succ, List.map_append, List.map_singleton]

theorem toNat_word (size : RingSize) : size.word.toNat = size.entries := by
  rw [RingSize.word, BitVec.toNat_ofNat, Nat.mod_eq_of_lt size.lt]

/-- `Receiver::new` succeeds and publishes the addresses of its frames, as it computes them. -/
theorem new_eq (size : RingSize) (base : BitVec 32) (fillSlots : ℕ → BitVec 64)
    (rxSlots : ℕ → RxDescriptor) :
    ∃ fill : ProducerRing (BitVec 64),
      new size base fillSlots rxSlots = some (ready fill (newRx size base rxSlots)) ∧
      ProducerRing.Inv size 0 fill ∧ fill.seen = [] ∧ fill.reserved = fill.published.length ∧
      fill.published = (List.range size.entries).map (fillAddr size) := by
  have hstarts : (newFill size fillSlots).Starts size .fill :=
    ⟨.inr ⟨rfl, rfl, rfl⟩, rfl, rfl, Nat.zero_le _, rfl, rfl, rfl⟩
  have hinv : ProducerRing.Inv size 0 (newFill size fillSlots) := hstarts.inv
  rcases hreserve : (newFill size fillSlots).producer.reserve size.word
    (newFill size fillSlots).cons size.word with ⟨result, producer⟩
  cases result with
  | none =>
    -- the ring is empty
    have hfull := (hinv.reserve_none hreserve).1
    rw [toNat_word] at hfull
    exact absurd hfull (Nat.lt_irrefl _)
  | some index =>
    obtain ⟨hindex, hinv'⟩ := hinv.reserve_some hreserve
    let fill := (newFill size fillSlots).step size (.reserve size.word)
    have hfill : fill =
        { newFill size fillSlots with
          producer := producer
          reserved := (newFill size fillSlots).reserved + size.word.toNat } := by
      change ProducerRing.step size _ _ = _
      rw [ProducerRing.step, hreserve]
    -- all of the ring is reserved, then written, then submitted
    have hfillInv : ProducerRing.Inv size 0 fill := hinv.step _
    have hreserved : fill.reserved = fill.published.length + size.entries := by
      rw [hfill]
      change 0 + size.word.toNat = 0 + size.entries
      rw [toNat_word]
    have hprod : fill.prod = index := by
      rw [hfill, hindex]
      exact (seqAt_zero _).symm
    obtain ⟨slots, hrun, hread⟩ := fill_run hfillInv hreserved (fillAddr size) (Nat.le_refl _)
    have hsize : size.word ≤ fill.producer.cachedProd - fill.prod := by
      change size.word.toNat ≤ (fill.producer.cachedProd - fill.prod).toNat
      rw [hfillInv.unpublished, hreserved, Nat.add_sub_cancel_left, toNat_word]
    let done := (fillActs size index).foldl (ProducerRing.step size) fill
    have hdone : done =
        { fill with
          slots := slots
          prod := fill.prod + size.word
          published := fill.published ++ (List.range size.entries).map (fillAddr size) } := by
      change (fillActs size index).foldl _ fill = _
      rw [fillActs, ← hprod, List.foldl_append, hrun, List.foldl_cons, List.foldl_nil,
        ProducerRing.step, if_pos hsize, toNat_word, hread]
    have hpublished : done.published = (List.range size.entries).map (fillAddr size) := by
      rw [hdone, hfill]
      rfl
    refine ⟨done, ?_, ?_, ?_, ?_, hpublished⟩
    · simp only [new, hreserve]
      rfl
    · exact List.foldlRecOn _ _ hfillInv fun _ h act _ => h.step act
    · rw [hdone, hfill]
      rfl
    · rw [hpublished, List.length_map, List.length_range, hdone]
      change fill.reserved = _
      rw [hreserved, hfill]
      exact Nat.zero_add _

/-- The address is computed in 32 bits before it is widened. -/
theorem fillAddr_lt (size : RingSize) (i : ℕ) : (fillAddr size i).toNat < 2 ^ 32 := by
  rw [fillAddr, BitVec.toNat_setWidth]
  exact Nat.lt_of_le_of_lt (Nat.mod_le _ _) (BitVec.isLt _)

/-- An address that does not overflow is that of the frame. -/
theorem toNat_fillAddr {i : ℕ} (hlt : (size.entries + i) * frameSize < 2 ^ 32) :
    (fillAddr size i).toNat = (size.entries + i) * frameSize := by
  have hpos : 0 < frameSize := by decide
  have hsum : size.entries + i < 2 ^ 32 :=
    Nat.lt_of_le_of_lt (Nat.le_mul_of_pos_right _ hpos) hlt
  have hword := toNat_word size
  rw [fillAddr, BitVec.toNat_setWidth, BitVec.toNat_mul, BitVec.toNat_add, hword,
    BitVec.toNat_ofNat, BitVec.toNat_ofNat, Nat.add_mod_mod, Nat.mod_eq_of_lt hsum,
    Nat.mul_mod_mod, Nat.mod_eq_of_lt hlt]
  exact Nat.mod_eq_of_lt (hlt.trans (by decide))

/-- If the receive frames end below 2³², entry `i` is the address of frame `i` of them. -/
theorem frameOf_fillAddr (hfit : 2 * size.entries * frameSize ≤ 2 ^ 32) {i : ℕ}
    (hi : i < size.entries) : frameOf (fillAddr size i) = size.entries + i := by
  have hpos : 0 < frameSize := by decide
  have hlt : (size.entries + i) * frameSize < 2 ^ 32 :=
    Nat.lt_of_lt_of_le (Nat.mul_lt_mul_of_pos_right (by omega) hpos) hfit
  have haddr := toNat_fillAddr hlt
  rw [frameOf, haddr, Nat.mul_div_cancel _ hpos]

/-- Every receive frame is published once. -/
theorem conserved_ready (hfit : 2 * size.entries * frameSize ≤ 2 ^ 32)
    {fill : ProducerRing (BitVec 64)}
    (hpublished : fill.published = (List.range size.entries).map (fillAddr size))
    (rxSlots : ℕ → RxDescriptor) : (ready fill (newRx size base rxSlots)).Conserved size := by
  intro frame
  have htally : (ready fill (newRx size base rxSlots)).tally frame =
      (List.range size.entries).countP fun i => size.entries + i = frame := by
    change onFrame frame fill.published + 0 + 0 + 0 = _
    rw [hpublished, onFrame, List.countP_map]
    refine List.countP_congr fun i hi => ?_
    rw [List.mem_range] at hi
    rw [Function.comp_apply, frameOf_fillAddr hfit hi]
  rw [htally]
  -- the addresses are those of the frames from `size` on, one after the other
  split
  · next hframe =>
    have hone := List.count_eq_one_of_mem List.nodup_range
      (List.mem_range.mpr (show frame - size.entries < size.entries by omega))
    rw [List.count] at hone
    rw [← hone]
    refine List.countP_congr fun i _ => ?_
    rw [decide_eq_true_iff, beq_iff_eq]
    omega
  · next hframe =>
    -- no entry has an address outside of the receive frames
    rw [List.countP_eq_zero]
    intro i hi
    rw [List.mem_range] at hi
    rw [decide_eq_true_iff]
    omega

/-- A new receiver meets the invariant. -/
theorem inv_ready (hfit : 2 * size.entries * frameSize ≤ 2 ^ 32)
    {fill : ProducerRing (BitVec 64)} (hfill : ProducerRing.Inv size 0 fill)
    (hseen : fill.seen = []) (hreserved : fill.reserved = fill.published.length)
    (hpublished : fill.published = (List.range size.entries).map (fillAddr size))
    (rxSlots : ℕ → RxDescriptor) : Inv size base (ready fill (newRx size base rxSlots)) where
  fill := hfill
  rx := by
    have hstarts : (newRx size base rxSlots).Starts size .rx :=
      ⟨.inl rfl, rfl, (BitVec.add_zero _).symm, Nat.zero_le _, rfl, rfl, rfl⟩
    exact hstarts.inv
  seen_le := by
    change fill.seen.length ≤ 0
    rw [hseen]
    exact Nat.le_refl 0
  taken_le := Nat.zero_le _
  pc := ⟨⟨hreserved, rfl⟩, nofun⟩
  conserved := conserved_ready hfit hpublished rxSlots

/-- With a larger ring the last receive frame is not published, as no address of 2³² or more is. -/
theorem tally_ready_eq_zero (hfit : 2 ^ 32 < 2 * size.entries * frameSize)
    {fill : ProducerRing (BitVec 64)}
    (hpublished : fill.published = (List.range size.entries).map (fillAddr size))
    (rxSlots : ℕ → RxDescriptor) :
    (ready fill (newRx size base rxSlots)).tally (2 * size.entries - 1) = 0 := by
  change onFrame _ fill.published + 0 + 0 + 0 = 0
  rw [hpublished, Nat.add_zero, onFrame, List.countP_eq_zero]
  intro addr haddr
  obtain ⟨i, -, rfl⟩ := List.mem_map.mp haddr
  rw [decide_eq_true_iff, frameOf]
  have hlt := fillAddr_lt size i
  -- an address of 32 bits is in one of the first 2²¹ frames
  have hframe : (fillAddr size i).toNat / frameSize < 2 ^ 21 := by
    rw [Nat.div_lt_iff_lt_mul (by decide)]
    exact hlt
  have hlarge : 2 ^ 21 < 2 * size.entries := by
    refine Nat.lt_of_mul_lt_mul_right (a := frameSize) ?_
    exact hfit
  omega

/-- **When receive frames are conserved.** In every run of a new receiver each of its frames is in
one place, once, and a `receive` that returns `None` or an error leaves the receiver where it was,
if and only if the receive frames end below 2³². -/
theorem frames_conserved_iff (size : RingSize) :
    (∀ (batchSize base : BitVec 32) (fillSlots : ℕ → BitVec 64) (rxSlots : ℕ → RxDescriptor)
        (s : RxState), new size base fillSlots rxSlots = some s → ∀ acts : List RxAct,
        (acts.foldl (Receiver.step size batchSize) s).Conserved size ∧
          (acts.foldl (Receiver.step size batchSize) s).Restored) ↔
      2 * size.entries * frameSize ≤ 2 ^ 32 := by
  constructor
  · -- the new receiver is already short of a frame
    intro hall
    by_contra hfit
    obtain ⟨fill, hnew, -, -, -, hpublished⟩ := new_eq size 0 (fun _ => 0) fun _ => ⟨0, 0⟩
    have hzero : (ready fill (newRx size 0 fun _ => ⟨0, 0⟩)).tally (2 * size.entries - 1) = 0 :=
      tally_ready_eq_zero (Nat.lt_of_not_le hfit) hpublished _
    have hone := (hall 0 0 _ _ _ hnew []).1 (2 * size.entries - 1)
    have hpos := size.pos
    rw [List.foldl_nil, hzero, if_pos (by omega)] at hone
    exact absurd hone (by decide)
  · intro hfit batchSize base fillSlots rxSlots s hnew acts
    obtain ⟨fill, hnew', hfill, hseen, hreserved, hpublished⟩ := new_eq size base fillSlots rxSlots
    obtain rfl : ready fill (newRx size base rxSlots) = s := by
      rw [hnew'] at hnew
      exact Option.some.inj hnew
    have hinv : Inv size base (acts.foldl (Receiver.step size batchSize)
        (ready fill (newRx size base rxSlots))) :=
      List.foldlRecOn acts _ (inv_ready hfit hfill hseen hreserved hpublished rxSlots)
        fun _ h act _ => h.step hfit act
    refine ⟨hinv.conserved, fun hlast => ?_⟩
    -- `None` and an error leave the receiver where it was
    rcases hlast with hlast | hlast
    · exact (hinv.pcInv hlast).2 (.inl rfl)
    · exact (hinv.pcInv hlast).2 (.inr rfl)

/-- A ring of 2²¹ entries. -/
def largeRing : RingSize :=
  ⟨2 ^ 21, 21, by decide, rfl⟩

/-- **Frames of the sender are given to the kernel.** With 2²¹ entries the first fill address wraps
to 0, the first frame of the scanner's sender, and the last receive frame is nowhere. -/
theorem largeRing_wraps :
    ∃ s, new largeRing 0 (fun _ => 0) (fun _ => ⟨0, 0⟩) = some s ∧
      0#64 ∈ s.fill.published ∧ s.tally (2 * largeRing.entries - 1) = 0 := by
  obtain ⟨fill, hnew, -, -, -, hpublished⟩ := new_eq largeRing 0 (fun _ => 0) fun _ => ⟨0, 0⟩
  refine ⟨_, hnew, ?_, tally_ready_eq_zero (by decide) hpublished _⟩
  change 0#64 ∈ fill.published
  rw [hpublished]
  exact List.mem_map.mpr ⟨0, List.mem_range.mpr largeRing.pos, by decide⟩

end Receiver

end Farsight
