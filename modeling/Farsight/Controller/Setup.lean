import Farsight.Responder.Wire
import Farsight.Strategy.PortAdapter

/-!
# Setting up the filter

`main` takes as many queues as there are threads to serve them, and refuses to start if these are
not all queues of the interface. `Controller::new` then gives each queue a socket in `SOCKS`, and
the filter gets the range from which the source ports of the probes are sampled.

* `usableQueueCount`, `setSocks`, `loadProgram` — from the source. `XskMap::set` is not part of it
  and is given; all that is used of it is `XskMap.Lawful`;
* `loadProgram_ok_iff` — for which interfaces there is a program;
* `answers_received` — the answers to probes, and no other segments, go to the socket of the queue
  on which they arrive.
-/

namespace Farsight

namespace PortRange

/-- `PortRange::start`. -/
def start : PortRange → Port
  | .range start _ => start
  | .single port => port

/-- `PortRange::end`. -/
def last : PortRange → Port
  | .range _ last => last
  | .single port => port

/-- What is sampled lies between the two. -/
theorem mem_range_sample {range : PortRange} (h : range.start ≤ range.last) (port : Port) :
    port ∈ Set.range range.sample ↔ range.start ≤ port ∧ port ≤ range.last := by
  cases range with
  | single only =>
    constructor
    · rintro ⟨r, rfl⟩
      exact ⟨BitVec.le_refl _, BitVec.le_refl _⟩
    · rintro ⟨hle, hge⟩
      exact ⟨0, BitVec.le_antisymm hle hge⟩
  | range first last =>
    change first ≤ last at h
    change _ ↔ first ≤ port ∧ port ≤ last
    have hlast := last.isLt
    constructor
    · rintro ⟨r, rfl⟩
      -- the remainder is at most the width of the range, so the sum does not wrap
      have hmod : r % (last.toNat - first.toNat + 1) < last.toNat - first.toNat + 1 :=
        Nat.mod_lt r (Nat.succ_pos _)
      rw [sample]
      simp only [BitVec.le_def, BitVec.toNat_add, BitVec.toNat_ofNat] at h ⊢
      omega
    · rintro ⟨hle, hge⟩
      refine ⟨port.toNat - first.toNat, BitVec.eq_of_toNat_eq ?_⟩
      rw [sample]
      simp only [BitVec.le_def, BitVec.toNat_add, BitVec.toNat_ofNat] at h hle hge ⊢
      rw [Nat.mod_eq_of_lt (by omega : port.toNat - first.toNat < _)]
      omega

end PortRange

/-! ### `main` -/

/-- `Queue`. -/
structure Queue where
  combined : BitVec 32
  deriving DecidableEq, Repr

/-- `Queues`. -/
structure Queues where
  max : Queue
  current : Queue
  deriving DecidableEq, Repr

/-- Why there is no scan. -/
inductive SetupError where
  | noQueues (interface : String) (usable : BitVec 32)
  | tooManyQueues (max current : BitVec 32) (interface : String) (usable : BitVec 32)
  /-- `XskMap::set`, with the context that `Controller::new` gives. -/
  | socketFd (index : BitVec 32)
  deriving DecidableEq, Repr

/-- The messages. -/
def SetupError.message : SetupError → String
  | .noQueues interface usable =>
      "NIC reports 0 queues which means ; consider 'ethtool -L " ++ interface ++ " combined " ++
        toString usable.toNat ++ "' to fix"
  | .tooManyQueues max current interface usable =>
      "NIC reports " ++ toString max.toNat ++ " queues but only using " ++
        toString current.toNat ++ " to leave cores free for management/db; consider 'ethtool -L " ++
        interface ++ " combined " ++ toString usable.toNat ++ "' to match"
  | .socketFd _ => "setting socket fd"

/-- `parallelism.saturating_sub(2).max(1).min(limit) as u32`. -/
def servedQueues (parallelism : ℕ) (limit : BitVec 32) : BitVec 32 :=
  .ofNat 32 (min (max (parallelism - 2) 1) limit.toNat)

/-- `usable_queue_count` of `main`. -/
def usableQueueCount (parallelism : ℕ) (interface : String) (queues : Queues) :
    Except SetupError (BitVec 32) :=
  let queueCount := queues.current.combined
  if queueCount = 0 then
    .error (.noQueues interface (servedQueues parallelism queues.max.combined))
  else
  let usable := servedQueues parallelism queueCount
  if usable < queueCount then
    .error (.tooManyQueues queues.max.combined queues.current.combined interface usable)
  else .ok usable

/-! ### `SOCKS` -/

/-- `XskMap::set`, on the keys that have a socket. -/
abbrev XskMap.Set (E : Type) := (BitVec 32 → Bool) → BitVec 32 → Except E (BitVec 32 → Bool)

/-- What is used of `XskMap::set`: when it succeeds, there is a socket at the key, and the other
keys are as they were. It may fail at any key. -/
structure XskMap.Lawful {E : Type} (set : XskMap.Set E) : Prop where
  sets : ∀ {socks index socks'}, set socks index = .ok socks' → socks' index = true
  keeps : ∀ {socks index socks'}, set socks index = .ok socks' →
    ∀ key ≠ index, socks' key = socks key

section Load

variable {E : Type} (set : XskMap.Set E)

/-- The loop of `Controller::new`, as far as it is about `SOCKS`. -/
def setSocks (count : ℕ) : Except SetupError (BitVec 32 → Bool) :=
  (List.range count).foldlM
    (fun socks queueId =>
      (set socks (.ofNat 32 queueId)).mapError fun _ => .socketFd (.ofNat 32 queueId))
    fun _ => false

/-- The program that `main` loads, once `Controller::new` has set the sockets. -/
def loadProgram (parallelism : ℕ) (interface : String) (queues : Queues) (sourcePort : PortRange) :
    Except SetupError XdpProgram := do
  let usableQueues ← usableQueueCount parallelism interface queues
  let socks ← setSocks set usableQueues.toNat
  return {
    sourcePortStart := sourcePort.start
    sourcePortEnd := sourcePort.last
    usableQueues
    socks }

end Load

/-- `farsight_xdp`. -/
def XdpProgram.farsightXdp (self : XdpProgram) (rxQueueIndex : BitVec 32) (data : List UInt8) :
    XdpAction :=
  (self.tryFarsightXdp rxQueueIndex data).toOption.getD .pass

/-! ### What was set up -/

/-- The scan starts only if every queue of the interface has a thread of its own: two processors are
kept for other work, and one queue is always served. -/
theorem usableQueueCount_ok_iff {parallelism : ℕ} {interface : String} {queues : Queues}
    {usable : BitVec 32} :
    usableQueueCount parallelism interface queues = .ok usable ↔
      queues.current.combined ≠ 0 ∧
      queues.current.combined.toNat ≤ max (parallelism - 2) 1 ∧
      usable = queues.current.combined := by
  -- the conversion to 32 bits loses nothing, as the count is at most the one that came in
  have hserved : (servedQueues parallelism queues.current.combined).toNat =
      min (max (parallelism - 2) 1) queues.current.combined.toNat := by
    rw [servedQueues, BitVec.toNat_ofNat]
    exact Nat.mod_eq_of_lt ((Nat.min_le_right _ _).trans_lt (BitVec.isLt _))
  rw [usableQueueCount]
  dsimp only
  split
  · next hzero => exact ⟨nofun, fun h => absurd hzero h.1⟩
  · next hzero =>
    split
    · next hlt =>
      rw [BitVec.lt_def, hserved] at hlt
      exact ⟨nofun, fun h => absurd h.2.1 (by omega)⟩
    · next hge =>
      rw [BitVec.lt_def, hserved] at hge
      have hall : servedQueues parallelism queues.current.combined = queues.current.combined := by
        apply BitVec.eq_of_toNat_eq
        omega
      rw [hall]
      constructor
      · intro h
        exact ⟨hzero, by omega, (Except.ok.inj h).symm⟩
      · rintro ⟨-, -, rfl⟩
        rfl

/-- A socket for each of the first queues. -/
def socksBelow (count : ℕ) : BitVec 32 → Bool :=
  fun key => decide (key.toNat < count)

variable {E : Type} {set : XskMap.Set E}

/-- One turn of the loop. -/
theorem socksBelow_succ (hset : XskMap.Lawful set) {count : ℕ} (hcount : count < 2 ^ 32)
    {socks : BitVec 32 → Bool} (h : set (socksBelow count) (.ofNat 32 count) = .ok socks) :
    socks = socksBelow (count + 1) := by
  have hindex : (BitVec.ofNat 32 count).toNat = count := by
    rw [BitVec.toNat_ofNat]
    exact Nat.mod_eq_of_lt hcount
  funext key
  by_cases hkey : key = .ofNat 32 count
  · rw [hkey, hset.sets h, socksBelow, hindex]
    exact (decide_eq_true (Nat.lt_succ_self count)).symm
  · have hne : key.toNat ≠ count := fun heq =>
      hkey (BitVec.eq_of_toNat_eq (heq.trans hindex.symm))
    rw [hset.keeps h key hkey, socksBelow, socksBelow, decide_eq_decide]
    omega

/-- If the loop ends, there is a socket for each of the queues, and no other. -/
theorem setSocks_ok (hset : XskMap.Lawful set) {count : ℕ} (hcount : count ≤ 2 ^ 32)
    {socks : BitVec 32 → Bool} (h : setSocks set count = .ok socks) :
    socks = socksBelow count := by
  induction count generalizing socks with
  | zero =>
    cases h
    rfl
  | succ count ih =>
    rw [setSocks, List.range_succ, List.foldlM_append] at h
    -- the first failure ends the loop, so the entries before the last were all made
    obtain ⟨socks', hbefore, hlast⟩ := XdpProgram.bind_eq_ok.mp h
    obtain rfl := ih (by omega) hbefore
    rw [List.foldlM_cons] at hlast
    cases hone : set (socksBelow count) (.ofNat 32 count) with
    | error e =>
      rw [hone] at hlast
      cases hlast
    | ok socks' =>
      rw [hone] at hlast
      cases hlast
      exact socksBelow_succ hset (by omega) hone

/-- There is a program if the interface has queues, the threads can serve them all, and each gets
its place in `SOCKS`. -/
theorem loadProgram_ok_iff (hset : XskMap.Lawful set) {parallelism : ℕ} {interface : String}
    {queues : Queues} {sourcePort : PortRange} {program : XdpProgram} :
    loadProgram set parallelism interface queues sourcePort = .ok program ↔
      0 < queues.current.combined.toNat ∧
      queues.current.combined.toNat ≤ max (parallelism - 2) 1 ∧
      (∃ socks, setSocks set queues.current.combined.toNat = .ok socks) ∧
      program = {
        sourcePortStart := sourcePort.start
        sourcePortEnd := sourcePort.last
        usableQueues := queues.current.combined
        socks := socksBelow queues.current.combined.toNat } := by
  have hzero : queues.current.combined ≠ 0 ↔ 0 < queues.current.combined.toNat := by
    rw [Nat.pos_iff_ne_zero, Ne, ← BitVec.toNat_inj]
    rfl
  have hcount : queues.current.combined.toNat ≤ 2 ^ 32 := (BitVec.isLt _).le
  rw [loadProgram, XdpProgram.bind_eq_ok]
  constructor
  · -- the steps of the set-up one after another, each of which has to succeed
    rintro ⟨usable, husable, h⟩
    obtain ⟨hne, hle, rfl⟩ := usableQueueCount_ok_iff.mp husable
    obtain ⟨socks, hsocks, h⟩ := XdpProgram.bind_eq_ok.mp h
    obtain rfl := setSocks_ok hset hcount hsocks
    exact ⟨hzero.mp hne, hle, ⟨_, hsocks⟩, (Except.ok.inj h).symm⟩
  · rintro ⟨hpos, hserved, ⟨socks, hsocks⟩, rfl⟩
    obtain rfl := setSocks_ok hset hcount hsocks
    refine ⟨_, usableQueueCount_ok_iff.mpr ⟨hzero.mpr hpos, hserved, rfl⟩, ?_⟩
    rw [hsocks]
    rfl

/-! ### The answers -/

/-- **Every answer is received, and nothing else.** Take an interface with which the scanner starts,
and a range of source ports that has ports, but not port 0. A TCP segment on any queue, with any
options and any padding, goes to the socket of that queue if its port is one that probes are sent
from, and to the kernel otherwise; and the responder of the queue then processes just what is in the
segment. -/
theorem answers_received {E : Type} (set : XskMap.Set E) (hset : XskMap.Lawful set)
    (parallelism : ℕ) (interface : String) (queues : Queues)
    (sourcePort : PortRange) (hports : 0 < sourcePort.start ∧ sourcePort.start ≤ sourcePort.last)
    (program : XdpProgram)
    (hload : loadProgram set parallelism interface queues sourcePort = .ok program)
    (frame : TcpFrame) (queue : BitVec 32) (hqueue : queue < queues.current.combined) :
    (frame.hdr.destPort ∈ Set.range sourcePort.sample →
      program.farsightXdp queue frame.bytes = .redirect queue) ∧
    (frame.hdr.destPort ∉ Set.range sourcePort.sample →
      program.farsightXdp queue frame.bytes = .pass) ∧
    ∀ {A B : Type} (env : ResponderEnv A B) (now : ℕ),
      Responder.processFrame env now frame.bytes =
        .ok (Responder.processPacket env now frame.packet) := by
  obtain ⟨-, -, -, hprogram⟩ := (loadProgram_ok_iff hset).mp hload
  obtain ⟨hstart, hle⟩ := hports
  have hfirst : program.sourcePortStart = sourcePort.start := by rw [hprogram]
  have hlast : program.sourcePortEnd = sourcePort.last := by rw [hprogram]
  -- all queues are used, so that the remainder is the queue itself
  have hkey : queue % program.usableQueues = queue := by
    rw [hprogram]
    exact BitVec.umod_eq_of_lt hqueue
  have hsock : program.socks queue = true := by
    rw [hprogram]
    exact decide_eq_true hqueue
  have hxdp := program.tryFarsightXdp_bytes frame
    (by rw [hfirst]; exact (BitVec.ne_of_lt hstart).symm)
    (by rw [hlast]; exact (BitVec.ne_of_lt (Std.lt_of_lt_of_le hstart hle)).symm) queue
  rw [hkey, if_pos hsock, hfirst, hlast] at hxdp
  rw [PortRange.mem_range_sample hle, XdpProgram.farsightXdp, hxdp]
  -- in the range of ports the frame is redirected, outside it is passed on
  refine ⟨fun h => ?_, fun h => ?_, fun env now => ?_⟩
  · rw [if_neg (by rwa [not_or, BitVec.not_lt, gt_iff_lt, BitVec.not_lt])]
    rfl
  · rw [if_pos (by rwa [not_and_or, BitVec.not_le, BitVec.not_le] at h)]
    rfl
  · rw [Responder.processFrame, Responder.decode_bytes]
    rfl

/-- A SYN+ACK to port 61000, with an option in the IP header, and with padding. -/
def answerFrame : TcpFrame where
  destMac := 0x020000000002
  sourceMac := 0x020000000001
  tos := 0
  ident := 0
  fragment := 0
  ttl := 57
  ipChecksum := 0
  sourceIp := 0x0A000007
  destIp := 0x0A000002
  ipOptions := [0x94040000]
  hdr := { sourcePort := 80, destPort := 61000, seq := 1, ack := 2, flags := 0x12 }
  reserved := 0
  window := 1024
  tcpChecksum := 0
  urgent := 0
  tcpOptions := []
  payload := []
  padding := [0, 0]
  ipOptions_le := by decide
  tcpOptions_le := by decide
  total_lt := by decide

/-- A map of 128 entries, the size of `SOCKS`. -/
def boundedSet : XskMap.Set Unit := fun socks index =>
  if index.toNat < 128 then .ok (Function.update socks index true) else .error ()

theorem boundedSet_lawful : XskMap.Lawful boundedSet := by
  have hok {socks socks' : BitVec 32 → Bool} {index : BitVec 32}
      (h : boundedSet socks index = .ok socks') : socks' = Function.update socks index true := by
    rw [boundedSet] at h
    split at h
    · exact (Except.ok.inj h).symm
    · cases h
  refine ⟨fun h => ?_, fun h key hkey => ?_⟩
  · rw [hok h, Function.update_self]
  · rw [hok h, Function.update_of_ne hkey]

theorem answers_received_option :
    ∃ program, loadProgram boundedSet 6 "eth0" ⟨⟨8⟩, ⟨4⟩⟩ (.range 61000 61999) = .ok program ∧
      program.farsightXdp 3 answerFrame.bytes = .redirect 3 := by
  obtain ⟨program, hload⟩ : ∃ program,
      loadProgram boundedSet 6 "eth0" ⟨⟨8⟩, ⟨4⟩⟩ (.range 61000 61999) = .ok program :=
    ⟨_, (loadProgram_ok_iff boundedSet_lawful).mpr ⟨by decide, by decide, ⟨_, rfl⟩, rfl⟩⟩
  exact ⟨program, hload, (answers_received boundedSet boundedSet_lawful 6 "eth0" ⟨⟨8⟩, ⟨4⟩⟩
    (.range 61000 61999) ⟨by decide, by decide⟩ program hload answerFrame 3 (by decide)).1 ⟨0, rfl⟩⟩

end Farsight
