import Farsight.Controller.Sender
import Farsight.Lib.Run
import Farsight.Xdp.Ring

/-!
# Who owns a frame

Each slot of a TX ring is bound to one frame, so a frame is written again when its slot is reserved
again. A reservation only asks how far the kernel has taken descriptors from the ring; the kernel
gives a frame back later, through the completion ring, which the senders do not look at.

The two senders of a queue, the completer and the kernel take turns in any order. A frame is *in
flight* from the submission of a descriptor until its completion.

* `TxQueue.step` — the turns: `reserve`, one packet of a call, `submit`, `Completer::tick`, and the
  kernel that consumes descriptors in order and completes the consumed ones in any order;
* `TxQueue.Turn` — what a turn can do to a sender; the invariants are proved from it;
* `TxQueue.SideInv` — what is reserved is less than a ring ahead of what is consumed, and each slot
  describes its frame;
* `TxQueue.untouched_iff` — in a run no byte of a frame in flight is written if and only if every
  packet is written after the completion of the descriptor one ring before it.
-/

namespace Farsight

open ByteMemory

/-- The two senders of a queue. -/
inductive Side where
  | scanner
  | responder
  deriving DecidableEq, Repr

/-- A queue, as `Controller::new` sets it up. -/
structure TxQueue where
  shared : SharedData
  checksumOffload : Bool
  ringSize : ℕ
  ringSize_dvd : ringSize ∣ 2 ^ 32
  ringSize_lt : ringSize < 2 ^ 32

/-- Where a call of a sender stands. -/
inductive SendPc where
  | idle
  /-- In the loop around `reserve`. -/
  | reserving (call : SendCall)
  /-- The slots from `index` on are reserved, the first `done` packets are written. -/
  | writing (index : BitVec 32) (done : ℕ) (rest : List EthPacket)
  deriving DecidableEq, Repr

/-- A sender and its ring. The counters that it shares with the kernel are the low words of
`published` and `consumed`. -/
structure TxSide where
  pc : SendPc
  producer : Producer
  tx : ℕ → Descriptor
  published : ℕ
  consumed : ℕ
  /-- The descriptors whose completion has been produced. -/
  completed : List ℕ

/-- A queue with its completion ring. -/
structure TxQueueState where
  umem : ℕ → UInt8
  sides : Side → TxSide
  /-- The addresses that the kernel has put into the completion ring. -/
  completions : List ℕ
  cr : Consumer
  /-- How many of them the completer has released and counted. -/
  released : ℕ

/-- A turn of a sender. -/
inductive SendAct where
  | call (call : SendCall)
  | reserve
  /-- Waking up the ring has failed. -/
  | abort
  | write
  | submit
  deriving DecidableEq, Repr

/-- A turn. -/
inductive TxAct where
  | send (side : Side) (act : SendAct)
  | consume (side : Side)
  | complete (side : Side) (position : ℕ)
  | tick (batch : BitVec 32)
  deriving DecidableEq, Repr

namespace TxQueue

variable (self : TxQueue)

/-- The senders of `Controller::new`. -/
def sender (side : Side) : Sender where
  shared := self.shared
  checksumOffload := self.checksumOffload
  startingFrame :=
    match side with
    | .scanner => 0
    | .responder => 2 * self.ringSize
  size := self.ringSize
  size_dvd := self.ringSize_dvd

/-- A sender that has not sent anything. -/
def newSide (tx : ℕ → Descriptor) : TxSide where
  pc := .idle
  producer := .new (.ofNat 32 self.ringSize) 0 0
  tx
  published := 0
  consumed := 0
  completed := []

/-- After `Controller::new`. -/
def new (umem : ℕ → UInt8) : TxQueueState :=
  let scanner := (self.sender .scanner).new umem
  let responder := (self.sender .responder).new scanner.umem
  { umem := responder.umem
    sides := fun side =>
      match side with
      | .scanner => self.newSide scanner.tx
      | .responder => self.newSide responder.tx
    completions := []
    cr := { cachedProd := 0, cachedCons := 0 }
    released := 0 }

/-- A turn of a sender. -/
def sendStep (side : Side) (umem : ℕ → UInt8) (t : TxSide) : SendAct → (ℕ → UInt8) × TxSide
  | .call call =>
      match t.pc with
      | .idle => (umem, { t with pc := .reserving call })
      | _ => (umem, t)
  | .reserve =>
      match t.pc with
      | .reserving call =>
          match t.producer.reserve (.ofNat 32 self.ringSize) (seqAt 0 t.consumed)
            (.ofNat 32 call.count) with
          | (some index, producer) =>
              (umem, { t with pc := .writing index 0 ((self.sender side).packets call), producer })
          -- no room: the loop of the source tries again
          | (none, producer) => (umem, { t with producer })
      | _ => (umem, t)
  -- a wakeup that fails ends the call before anything is written
  | .abort =>
      match t.pc with
      | .reserving _ => (umem, { t with pc := .idle })
      | _ => (umem, t)
  | .write =>
      match t.pc with
      | .writing index done (packet :: rest) =>
          let state := (self.sender side).put { umem, tx := t.tx } (index + .ofNat 32 done) packet
          (state.umem, { t with tx := state.tx, pc := .writing index (done + 1) rest })
      | _ => (umem, t)
  | .submit =>
      match t.pc with
      | .writing _ done [] => (umem, { t with pc := .idle, published := t.published + done })
      | _ => (umem, t)

/-- A turn. -/
def step (s : TxQueueState) : TxAct → TxQueueState
  | .send side act =>
      let (umem, t) := self.sendStep side s.umem (s.sides side) act
      { s with umem, sides := Function.update s.sides side t }
  | .consume side =>
      let t := s.sides side
      if t.consumed < t.published then
        { s with sides := Function.update s.sides side { t with consumed := t.consumed + 1 } }
      else s
  | .complete side position =>
      let t := s.sides side
      -- the kernel completes in any order, each descriptor once
      if position < t.consumed ∧ position ∉ t.completed then
        { s with
          sides := Function.update s.sides side { t with completed := position :: t.completed }
          completions := s.completions ++ [(t.tx (position % self.ringSize)).addr] }
      else s
  | .tick batch =>
      match s.cr.peek (seqAt 0 s.completions.length) batch with
      | (some (_, count), cr) => { s with cr, released := s.released + count.toNat }
      | (none, cr) => { s with cr }

/-- The state after the turns. -/
def run (umem : ℕ → UInt8) (acts : List TxAct) : TxQueueState :=
  acts.foldl self.step (self.new umem)

/-! ### Frames in flight -/

/-- The frame of a descriptor. -/
def frameOf (side : Side) (position : ℕ) : ℕ :=
  (self.sender side).startingFrame + position % self.ringSize

/-- The frame has been submitted and its completion has not been produced. -/
def InFlight (s : TxQueueState) (frame : ℕ) : Prop :=
  ∃ side position, position < (s.sides side).published ∧ position ∉ (s.sides side).completed ∧
    self.frameOf side position = frame

/-- The turn writes no byte of a frame in flight. -/
def Untouched (s : TxQueueState) (act : TxAct) : Prop :=
  ∀ side index done packet rest, act = .send side .write →
    (s.sides side).pc = .writing index done (packet :: rest) →
      ∀ a, Touches ((s.sides side).tx ((index + .ofNat 32 done).toNat % self.ringSize)).addr
        packet.writes a → ¬ self.InFlight s (a / frameSize)

/-- If the turn writes a packet, the completion of the descriptor one ring before has been
produced. -/
def Returned (s : TxQueueState) (act : TxAct) : Prop :=
  ∀ side index done packet rest, act = .send side .write →
    (s.sides side).pc = .writing index done (packet :: rest) →
      (s.sides side).published + done < self.ringSize ∨
        (s.sides side).published + done - self.ringSize ∈ (s.sides side).completed

end TxQueue

/-- The packets of the call stay in their frames. -/
def TxAct.Fits : TxAct → Prop
  | .send _ (.call call) =>
      call.FitsIn (frameSize - TxMetadata.len) ∧ call.count < 2 ^ 32
  | _ => True

instance (act : TxAct) : Decidable act.Fits :=
  match act with
  | .send _ (.call _) => inferInstanceAs (Decidable (_ ∧ _))
  | .send _ .reserve | .send _ .abort | .send _ .write | .send _ .submit => .isTrue trivial
  | .consume _ | .complete _ _ | .tick _ => .isTrue trivial

/-- How many slots are reserved. -/
def SendPc.count : SendPc → ℕ
  | .writing _ done rest => done + rest.length
  | _ => 0

/-- How many packets are written. -/
def SendPc.done : SendPc → ℕ
  | .writing _ done _ => done
  | _ => 0

/-- The packets that are left stay in their frames. -/
def SendPc.Fits : SendPc → Prop
  | .idle => True
  | .reserving call => call.FitsIn (frameSize - TxMetadata.len) ∧ call.count < 2 ^ 32
  | .writing _ _ rest => ∀ packet ∈ rest, packet.len ≤ frameSize - TxMetadata.len

namespace TxQueue

variable {self : TxQueue} {side side' : Side} {s : TxQueueState} {t : TxSide}

/-! ### What a turn does to a sender -/

/-- What the turns leave of a sender. Those of others leave it as it is. -/
inductive Turn (queue : TxQueue) (side : Side) (t : TxSide) : TxAct → TxSide → Prop
  | skip {act : TxAct} : Turn queue side t act t
  | call {call : SendCall} (hpc : t.pc = .idle) :
      Turn queue side t (.send side (.call call)) { t with pc := .reserving call }
  | reserve {call : SendCall} {index : BitVec 32} {producer : Producer}
      (hpc : t.pc = .reserving call)
      (hreserve : t.producer.reserve (.ofNat 32 queue.ringSize) (seqAt 0 t.consumed)
        (.ofNat 32 call.count) = (some index, producer)) :
      Turn queue side t (.send side .reserve)
        { t with pc := .writing index 0 ((queue.sender side).packets call), producer }
  | wait {call : SendCall} {producer : Producer} (hpc : t.pc = .reserving call)
      (hreserve : t.producer.reserve (.ofNat 32 queue.ringSize) (seqAt 0 t.consumed)
        (.ofNat 32 call.count) = (none, producer)) :
      Turn queue side t (.send side .reserve) { t with producer }
  | abort {call : SendCall} (hpc : t.pc = .reserving call) :
      Turn queue side t (.send side .abort) { t with pc := .idle }
  | write {index : BitVec 32} {done : ℕ} {packet : EthPacket} {rest : List EthPacket}
      (hpc : t.pc = .writing index done (packet :: rest)) (umem : ℕ → UInt8) :
      Turn queue side t (.send side .write)
        { t with
          tx := ((queue.sender side).put { umem, tx := t.tx } (index + .ofNat 32 done) packet).tx
          pc := .writing index (done + 1) rest }
  | submit {index : BitVec 32} {done : ℕ} (hpc : t.pc = .writing index done []) :
      Turn queue side t (.send side .submit)
        { t with pc := .idle, published := t.published + done }
  | consume (hlt : t.consumed < t.published) :
      Turn queue side t (.consume side) { t with consumed := t.consumed + 1 }
  | complete {position : ℕ} (hposition : position < t.consumed ∧ position ∉ t.completed) :
      Turn queue side t (.complete side position)
        { t with completed := position :: t.completed }

/-- What the sender itself does is one of the turns, by its place and by the answer of `reserve`. -/
theorem turn_sendStep (self : TxQueue) (side : Side) (umem : ℕ → UInt8) (t : TxSide)
    (act : SendAct) : self.Turn side t (.send side act) (self.sendStep side umem t act).2 := by
  unfold sendStep
  cases act with
  | call call =>
    dsimp only
    split
    · next hpc => exact .call hpc
    · exact .skip
  | reserve =>
    dsimp only
    split
    · next call hpc =>
      split
      · next index producer hreserve => exact .reserve hpc hreserve
      · next producer hreserve => exact .wait hpc hreserve
    · exact .skip
  | abort =>
    dsimp only
    split
    · next call hpc => exact .abort hpc
    · exact .skip
  | write =>
    dsimp only
    split
    · next index done packet rest hpc => exact .write hpc umem
    · exact .skip
  | submit =>
    dsimp only
    split
    · next index done hpc => exact .submit hpc
    · exact .skip

/-- Changing one sender is a turn of that one, and leaves the other as it is. -/
theorem turn_update {sides : Side → TxSide} {act : TxAct}
    (h : self.Turn side' (sides side') act t) :
    self.Turn side (sides side) act (Function.update sides side' t side) := by
  by_cases hside : side = side'
  · subst hside
    rw [Function.update_self]
    exact h
  · rw [Function.update_of_ne hside]
    exact .skip

/-- Every step is a turn for both senders. -/
theorem turn_step (self : TxQueue) (s : TxQueueState) (act : TxAct) (side : Side) :
    self.Turn side (s.sides side) act ((self.step s act).sides side) := by
  unfold step
  cases act with
  | send side' act => exact turn_update (self.turn_sendStep side' s.umem (s.sides side') act)
  | consume side' =>
    dsimp only
    split
    · next hlt => exact turn_update (.consume hlt)
    · exact .skip
  | complete side' position =>
    dsimp only
    split
    · next hposition => exact turn_update (.complete hposition)
    · exact .skip
  -- the completer reads the completion queue, and no sender sees it
  | tick batch =>
    dsimp only
    split <;> exact .skip

/-! ### The invariant of a sender -/

/-- What holds of a sender at any time. -/
structure SideInv (queue : TxQueue) (side : Side) (t : TxSide) : Prop where
  tracks : Producer.TracksFrom 0 t.producer queue.ringSize (t.published + t.pc.count) t.consumed
  consumed : t.consumed ≤ t.published
  index : ∀ index done rest, t.pc = .writing index done rest → index = seqAt 0 t.published
  fits : t.pc.Fits
  addr : ∀ frame, (queue.sender side).Owns frame →
    (t.tx (frame % queue.ringSize)).addr = Sender.addr frame

/-- A new sender has its descriptors filled in: each slot has the address of the frame that belongs
to it. -/
theorem sideInv_newSide {tx : ℕ → Descriptor}
    (htx : ∀ frame, (self.sender side).Owns frame →
      (tx (frame % self.ringSize)).addr = Sender.addr frame) :
    self.SideInv side (self.newSide tx) where
  tracks := Producer.tracksFrom_new self.ringSize
  consumed := Nat.le_refl 0
  index := fun _ _ _ h => by cases h
  fits := trivial
  addr := htx

/-- Both senders of a new queue, each with its own half of the frames. -/
theorem sideInv_new (self : TxQueue) (umem : ℕ → UInt8) (side : Side) :
    self.SideInv side ((self.new umem).sides side) := by
  cases side with
  | scanner =>
    exact sideInv_newSide fun frame howns => (Sender.bound_new _ umem frame howns).addr
  | responder =>
    exact sideInv_newSide fun frame howns => (Sender.bound_new _ _ frame howns).addr

/-- Writing a packet leaves the addresses of the slots as they are. -/
theorem addr_put (sender : Sender) (state : SenderState) (index : BitVec 32) (packet : EthPacket)
    (slot : ℕ) : ((sender.put state index packet).tx slot).addr = (state.tx slot).addr := by
  change (Function.update state.tx _ _ slot).addr = _
  by_cases hslot : slot = index.toNat % sender.size
  · rw [hslot, Function.update_self]
  · rw [Function.update_of_ne hslot]

/-- Every turn keeps the invariant of a sender. The word `index` is that of the published count as
long as the call lasts, since nothing is published before its end. -/
theorem SideInv.turn (h : self.SideInv side t) {act : TxAct} {t' : TxSide}
    (hturn : self.Turn side t act t') (hfits : act.Fits) : self.SideInv side t' := by
  have htracks := h.tracks
  have hpcFits := h.fits
  cases hturn with
  | skip => exact h
  | call hpc =>
    rw [hpc] at htracks
    exact ⟨htracks, h.consumed, (fun _ _ _ hcase => by cases hcase), hfits, h.addr⟩
  | @reserve call index producer hpc hreserve =>
    -- the whole call is reserved at once, and its packets are still to be written
    rw [hpc] at htracks hpcFits
    have hstep := htracks.reserve self.ringSize_lt (h.consumed.trans (Nat.le_add_right _ _))
      (.ofNat 32 call.count)
    rw [hreserve, BitVec.toNat_ofNat, Nat.mod_eq_of_lt hpcFits.2] at hstep
    obtain ⟨hindex, hstep⟩ := hstep
    refine ⟨?_, h.consumed, ?_, fun packet hpacket => Sender.len_le_of_fitsIn hpcFits.1 hpacket,
      h.addr⟩
    · change Producer.TracksFrom 0 producer _
        (t.published + (0 + ((self.sender side).packets call).length)) _
      rw [Sender.length_packets, Nat.zero_add]
      exact hstep
    · intro index' done rest hcase
      obtain ⟨rfl, -, -⟩ := SendPc.writing.inj hcase
      exact hindex
  | @wait call producer hpc hreserve =>
    -- the consumer index was read again, and nothing was reserved
    have hstep := htracks.reserve self.ringSize_lt (h.consumed.trans (Nat.le_add_right _ _))
      (.ofNat 32 call.count)
    rw [hreserve] at hstep
    exact ⟨hstep.2, h.consumed, h.index, h.fits, h.addr⟩
  | abort hpc =>
    rw [hpc] at htracks
    exact ⟨htracks, h.consumed, (fun _ _ _ hcase => by cases hcase), trivial, h.addr⟩
  | @write index done packet rest hpc umem =>
    -- a packet moves from those to be written to those done, so the number reserved stays
    rw [hpc] at htracks hpcFits
    refine ⟨?_, h.consumed, ?_, fun p hp => hpcFits p (List.mem_cons_of_mem _ hp), ?_⟩
    · change Producer.TracksFrom 0 t.producer _ (t.published + (done + 1 + rest.length)) _
      rw [Nat.add_assoc done, Nat.add_comm 1]
      exact htracks
    · intro index' done' rest' hcase
      obtain ⟨rfl, -, -⟩ := SendPc.writing.inj hcase
      exact h.index _ _ _ hpc
    · intro frame howns
      exact (addr_put _ _ _ _ _).trans (h.addr frame howns)
  -- the whole call is published at once
  | @submit index done hpc =>
    rw [hpc] at htracks
    exact ⟨htracks, h.consumed.trans (Nat.le_add_right _ _),
      (fun _ _ _ hcase => by cases hcase), trivial, h.addr⟩
  | consume hlt => exact ⟨htracks.mono (Nat.le_succ _), hlt, h.index, h.fits, h.addr⟩
  | complete hposition => exact ⟨htracks, h.consumed, h.index, h.fits, h.addr⟩

/-- The invariant of both senders. -/
def Inv (self : TxQueue) (s : TxQueueState) : Prop :=
  ∀ side, self.SideInv side (s.sides side)

/-- Both senders keep their invariant, whichever of them the turn belongs to. -/
theorem Inv.step (h : self.Inv s) {act : TxAct} (hfits : act.Fits) :
    self.Inv (self.step s act) :=
  fun side => (h side).turn (self.turn_step s act side) hfits

/-! ### Frames and descriptors -/

theorem ringSize_pos (self : TxQueue) : 0 < self.ringSize :=
  (self.sender .scanner).size_pos

theorem owns_frameOf (self : TxQueue) (side : Side) (position : ℕ) :
    (self.sender side).Owns (self.frameOf side position) :=
  ⟨Nat.le_add_right _ _, Nat.add_lt_add_left (Nat.mod_lt _ self.ringSize_pos) _⟩

/-- The slot of the frame is that of the position, so the descriptor there has the address of this
frame. -/
theorem frameOf_mod (self : TxQueue) (side : Side) (position : ℕ) :
    self.frameOf side position % self.ringSize = position % self.ringSize := by
  cases side with
  | scanner =>
    change (0 + _) % _ = _
    rw [Nat.zero_add, Nat.mod_mod]
  | responder =>
    change (2 * self.ringSize + _) % _ = _
    rw [Nat.mul_add_mod_self_right, Nat.mod_mod]

/-- Descriptors of the same frame are of the same ring, and a number of rings apart. -/
theorem eq_of_frameOf_eq {position position' : ℕ}
    (h : self.frameOf side position = self.frameOf side' position') :
    side = side' ∧ position % self.ringSize = position' % self.ringSize := by
  have hlt := Nat.mod_lt position self.ringSize_pos
  have hlt' := Nat.mod_lt position' self.ringSize_pos
  have hmod : position % self.ringSize = position' % self.ringSize := by
    rw [← frameOf_mod self side, h, frameOf_mod]
  refine ⟨?_, hmod⟩
  unfold frameOf sender at h
  cases side <;> cases side' <;> first | rfl | (dsimp only at h; omega)

variable {index : BitVec 32} {done : ℕ} {packet : EthPacket} {rest : List EthPacket}

/-- A packet is written into the frame of its descriptor. -/
theorem SideInv.addr_writing (h : self.SideInv side t)
    (hpc : t.pc = .writing index done (packet :: rest)) :
    (t.tx ((index + .ofNat 32 done).toNat % self.ringSize)).addr =
      Sender.addr (self.frameOf side (t.published + done)) := by
  have hslot : (index + .ofNat 32 done).toNat % self.ringSize =
      self.frameOf side (t.published + done) % self.ringSize := by
    rw [h.index _ _ _ hpc, seqAt_add]
    change (0#32 + _).toNat % _ = _
    rw [BitVec.zero_add, BitVec.toNat_ofNat, Nat.mod_mod_of_dvd _ self.ringSize_dvd, frameOf_mod]
  rw [hslot]
  exact h.addr _ (self.owns_frameOf side _)

/-- What is written is less than a ring ahead of what is consumed. -/
theorem SideInv.lt_of_writing (h : self.SideInv side t)
    (hpc : t.pc = .writing index done (packet :: rest)) :
    t.published + done < t.consumed + self.ringSize := by
  obtain ⟨seen, hseen, -, hroom⟩ := h.tracks.cons
  rw [hpc] at hroom
  change t.published + (done + (rest.length + 1)) ≤ seen + self.ringSize at hroom
  omega

/-- All bytes that are written are in the frame. -/
theorem div_of_touches {frame a : ℕ} (hlen : packet.len ≤ frameSize - TxMetadata.len)
    (h : Touches (Sender.addr frame) packet.writes a) : a / frameSize = frame := by
  obtain ⟨w, hw, hle, hlt⟩ := h
  have hend := Sender.le_of_mem_writes w hw
  unfold Sender.addr frameSize TxMetadata.len at *
  omega

/-- Some byte is written. -/
theorem exists_touches (packet : EthPacket) (frame : ℕ) :
    ∃ a, Touches (Sender.addr frame) packet.writes a ∧ a / frameSize = frame := by
  refine ⟨Sender.addr frame + 30, ⟨(30, be32 packet.hdr.destAddr), ?_, ?_, ?_⟩, ?_⟩
  · exact List.mem_cons_of_mem _ List.mem_cons_self
  · exact Nat.le_refl _
  · change _ < _ + 4
    omega
  · unfold Sender.addr frameSize TxMetadata.len
    omega

/-! ### Frames are written again -/

/-- **Only completions keep frames apart.** A packet that touches nothing in flight comes after the
completion of the descriptor one ring before it. -/
theorem returned_of_untouched (h : self.Inv s) {act : TxAct} (huntouched : self.Untouched s act) :
    self.Returned s act := by
  intro side index done packet rest hact hpc
  have hinv := h side
  obtain ⟨a, htouches, hframe⟩ :=
    exists_touches packet (self.frameOf side ((s.sides side).published + done))
  have hflight := huntouched side index done packet rest hact hpc a
    (by rw [hinv.addr_writing hpc]; exact htouches)
  rw [hframe] at hflight
  -- a write always touches its frame, so if that is not in flight it was completed or never used
  by_contra hnot
  obtain ⟨hge, hmissing⟩ := not_or.mp hnot
  have hle := Nat.le_of_not_lt hge
  -- the descriptor one ring before is of the same frame, and was submitted
  refine hflight ⟨side, (s.sides side).published + done - self.ringSize, ?_, hmissing, ?_⟩
  · have hlt := hinv.lt_of_writing hpc
    have hconsumed := hinv.consumed
    omega
  · rw [frameOf, frameOf, ← Nat.mod_eq_sub_mod hle]

/-- All descriptors more than a ring before what is written are completed. -/
def Reused (self : TxQueue) (t : TxSide) : Prop :=
  ∀ position, position + self.ringSize < t.published + t.pc.done → position ∈ t.completed

theorem Reused.mono (h : self.Reused t) {t' : TxSide}
    (hle : t'.published + t'.pc.done ≤ t.published + t.pc.done)
    (hsub : t.completed ⊆ t'.completed) : self.Reused t' :=
  fun position hlt => hsub (h position (Nat.lt_of_lt_of_le hlt hle))

/-- Only a write brings a new descriptor into the range of a ring before, and its completion is the
hypothesis. -/
theorem Reused.turn (h : self.Reused t) {act : TxAct} {t' : TxSide}
    (hturn : self.Turn side t act t')
    (hreturned : ∀ index done packet rest, act = .send side .write →
      t.pc = .writing index done (packet :: rest) →
        t.published + done < self.ringSize ∨ t.published + done - self.ringSize ∈ t.completed) :
    self.Reused t' := by
  cases hturn with
  | skip => exact h
  | call hpc => exact h.mono (Nat.le_add_right _ _) (List.Subset.refl _)
  | reserve hpc hreserve => exact h.mono (Nat.le_add_right _ _) (List.Subset.refl _)
  | wait hpc hreserve => exact h.mono (Nat.le_refl _) (List.Subset.refl _)
  | abort hpc => exact h.mono (Nat.le_add_right _ _) (List.Subset.refl _)
  | @write index done packet rest hpc umem =>
    -- the descriptor one ring before is the only new one
    intro position hlt
    change position + self.ringSize < t.published + (done + 1) at hlt
    rcases Nat.lt_or_ge (position + self.ringSize) (t.published + done) with hbefore | hnow
    · exact h position (by rw [hpc]; exact hbefore)
    · rcases hreturned index done packet rest rfl hpc with hfirst | hcompleted
      · omega
      · rwa [show position = t.published + done - self.ringSize by omega]
  | @submit index done hpc =>
    refine h.mono ?_ (List.Subset.refl _)
    rw [hpc]
    exact Nat.le_refl _
  | consume hlt => exact h.mono (Nat.le_refl _) (List.Subset.refl _)
  | complete hposition => exact h.mono (Nat.le_refl _) (List.subset_cons_self _ _)

/-- The invariant of runs in which frames are only written after their completion. -/
structure SafeInv (queue : TxQueue) (s : TxQueueState) : Prop where
  inv : queue.Inv s
  reused : ∀ side, queue.Reused (s.sides side)

/-- A turn that waits for the completion keeps the frames safe. -/
theorem SafeInv.step (h : self.SafeInv s) {act : TxAct} (hfits : act.Fits)
    (hreturned : self.Returned s act) : self.SafeInv (self.step s act) where
  inv := h.inv.step hfits
  reused := by
    intro side
    refine (h.reused side).turn (self.turn_step s act side) ?_
    intro index done packet rest hact hpc
    exact hreturned side index done packet rest hact hpc

/-- In such a state, a packet after the completion touches nothing in flight. -/
theorem SafeInv.untouched (h : self.SafeInv s) {act : TxAct} (hreturned : self.Returned s act) :
    self.Untouched s act := by
  rintro side index done packet rest hact hpc a htouches ⟨side', position, hlt, hmissing, hframe⟩
  have hinv := h.inv side
  have hlen : packet.len ≤ frameSize - TxMetadata.len := by
    have hfits := hinv.fits
    rw [hpc] at hfits
    exact hfits packet List.mem_cons_self
  rw [hinv.addr_writing hpc] at htouches
  rw [div_of_touches hlen htouches] at hframe
  obtain ⟨rfl, hmod⟩ := eq_of_frameOf_eq hframe
  -- an earlier descriptor of the slot is at least a ring before
  have hring : position + self.ringSize ≤ (s.sides side').published + done := by
    have hdvd : self.ringSize ∣ (s.sides side').published + done - position :=
      (Nat.modEq_iff_dvd' (by omega)).mp hmod
    have := Nat.le_of_dvd (by omega) hdvd
    omega
  apply hmissing
  rcases Nat.lt_or_eq_of_le hring with hbefore | heq
  · -- two rings before or more: completed since
    exact h.reused side' position (by rw [hpc]; exact hbefore)
  · rcases hreturned side' index done packet rest hact hpc with hfirst | hcompleted
    · omega
    · rwa [← heq, Nat.add_sub_cancel] at hcompleted

/-- **Frames in flight are not written if and only if completions come first.** For every queue and
every interleaving of the two senders, the completer and the kernel, with packets that stay in their
frames: no turn writes a byte of a frame that has been submitted and not completed if and only if
each packet is written after the completion of the descriptor one ring before. -/
theorem untouched_iff (self : TxQueue) (umem : ℕ → UInt8) (acts : List TxAct)
    (hfits : ∀ act ∈ acts, act.Fits) :
    Run.Along self.step self.Untouched (self.new umem) acts ↔
      Run.Along self.step self.Returned (self.new umem) acts := by
  have hnew : self.Inv (self.new umem) := self.sideInv_new umem
  constructor
  · intro h
    refine Run.Along.imp_preserving ?_ hnew (h.and_forall hfits)
    -- step by step, with the invariant that holds in any run
    intro s act hinv hact
    exact ⟨returned_of_untouched hinv hact.1, hinv.step hact.2⟩
  · intro h
    refine Run.Along.imp_preserving (I := self.SafeInv) ?_ ⟨hnew, ?_⟩ (h.and_forall hfits)
    · -- with the frames returned in time, every byte that is described stays as it is
      intro s act hsafe hact
      exact ⟨hsafe.untouched hact.1, hsafe.step hact.2 hact.1⟩
    · intro side position hlt
      cases side <;> exact absurd hlt (Nat.not_lt_zero _)

/-- A queue with rings of one slot. -/
def oneSlot : TxQueue where
  shared :=
    { sourceIp := 0x0A000002, gateway := 0x020000000001, interface := 0x020000000002 }
  checksumOffload := false
  ringSize := 1
  ringSize_dvd := by decide
  ringSize_lt := by decide

/-- A packet is submitted and consumed, and the next one is about to be written. -/
def secondPacket : List TxAct :=
  [.send .scanner (.call (.send .syn 0x01020304 61000 25565 7 0)), .send .scanner .reserve,
    .send .scanner .write, .send .scanner .submit, .consume .scanner,
    .send .scanner (.call (.send .syn 0x05060708 61000 25565 9 0)), .send .scanner .reserve]

/-- A ring of one slot: the second packet is written after the completion of the first, and both
sides hold. -/
theorem untouched_iff_secondPacket :
    Run.Along oneSlot.step oneSlot.Untouched (oneSlot.new fun _ => 0)
        (secondPacket ++ [.complete .scanner 0, .send .scanner .write]) ↔
      Run.Along oneSlot.step oneSlot.Returned (oneSlot.new fun _ => 0)
        (secondPacket ++ [.complete .scanner 0, .send .scanner .write]) :=
  untouched_iff oneSlot (fun _ => 0) _ (by decide)

/-- The second packet overwrites the destination of the first, which has not been completed. -/
theorem secondPacket_touches :
    (((oneSlot.run (fun _ => 0) secondPacket).sides .scanner).published = 1 ∧
      ((oneSlot.run (fun _ => 0) secondPacket).sides .scanner).completed = []) ∧
    read (oneSlot.run (fun _ => 0) secondPacket).umem 54 4 = [1, 2, 3, 4] ∧
    read (oneSlot.run (fun _ => 0) (secondPacket ++ [.send .scanner .write])).umem 54 4 =
      [5, 6, 7, 8] ∧
    ¬ oneSlot.Untouched (oneSlot.run (fun _ => 0) secondPacket) (.send .scanner .write) := by
  refine ⟨by decide +kernel, by decide +kernel, by decide +kernel, fun h => ?_⟩
  have hpc : ((oneSlot.run (fun _ => 0) secondPacket).sides .scanner).pc =
      .writing 1 0 [(oneSlot.sender .scanner).sendPacket .syn 0x05060708 61000 25565 9 0] := by
    decide +kernel
  have haddr : (((oneSlot.run (fun _ => 0) secondPacket).sides .scanner).tx 0).addr = 24 := by
    decide +kernel
  -- byte 54 is of a packet that was published and not completed
  refine h .scanner 1 0 _ [] rfl hpc 54 ?_ ⟨.scanner, 0, by decide +kernel, by decide +kernel,
    by decide⟩
  refine ⟨(30, [5, 6, 7, 8]), by decide +kernel, ?_, ?_⟩
  · exact haddr.symm ▸ Nat.le_refl _
  · exact haddr.symm ▸ by decide

end TxQueue

end Farsight
