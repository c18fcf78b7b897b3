import Farsight.Lib.Run
import Farsight.Strategy.IpCoverage

/-!
# Calls one after another

The machine of the target selection lets the feeder and any number of responder threads run into
each other. Here nobody starts a call, or goes on with one, while another is inside one. The shared
heap is then that of a single owner: whatever operation is in progress, the heap will be a
`LazyHeap` that represents its map once the operation is done.

* `HeapOp.finish` — the rest of an operation, done at once, with `HeapOp.finish_exec` for one
  access;
* `PmapIpAdapter.Alone` — nobody else is inside a call;
* `IpState.Serial` — the invariant of such runs: finishing what is in progress leaves a heap that
  represents its map;
* `PmapIpAdapter.counted_run` — in every run, alone or not, each prefix counts its free addresses.
-/

namespace Farsight

open MaxHeap

section Heap

variable {K V : Type} [LinearOrder K] [LinearOrder V]

/-- The heap of one owner with the same contents. -/
def ConcurrentLazyHeap.alone (self : ConcurrentLazyHeap K V) : LazyHeap K V where
  values := self.values
  current := self.current
  stale := self.stale

/-- What is left to do of an operation, done at once by one owner. -/
def HeapOp.finish : HeapOp K V → LazyHeap K V → LazyHeap K V
  | .updateGet key value, heap => heap.update key value
  | .updateStale key value old, heap =>
    { values := Function.update heap.values key (some value)
      current := push heap.current (toLex (value, key))
      stale := push heap.stale (toLex (old, key)) }
  | .updateInsert key value, heap =>
    { heap with
      values := Function.update heap.values key (some value)
      current := push heap.current (toLex (value, key)) }
  | .updatePush key value, heap => { heap with current := push heap.current (toLex (value, key)) }
  | .popTake, heap => heap.pop
  | .popRemove key, heap => { heap with values := Function.update heap.values key none }
  | .done, heap => heap

/-- An access leaves that much less to do. -/
theorem HeapOp.finish_exec (op : HeapOp K V) (heap : ConcurrentLazyHeap K V) :
    (op.exec heap).1.finish (op.exec heap).2.alone = op.finish heap.alone := by
  cases op with
  | updateGet key value =>
    have halone : heap.alone.values key = heap.values key := rfl
    rw [exec, finish, LazyHeap.update, halone]
    -- with or without an old value, the branch taken is the one of `update`
    cases heap.values key <;> rfl
  | popTake =>
    have halone : heap.alone.cleaned.current = heap.cleaned.current := rfl
    rw [exec, finish, LazyHeap.pop, halone]
    cases peek heap.cleaned.current <;> rfl
  | _ => rfl

/-- An access of an operation that nobody interrupts: the heap that the rest of it leads to stays
the same. -/
theorem HeapOp.represented_exec {op : HeapOp K V} {heap : ConcurrentLazyHeap K V}
    (h : (op.finish heap.alone).Represented) :
    ((op.exec heap).1.finish (op.exec heap).2.alone).Represented := by
  rw [op.finish_exec]
  exact h

/-- After the last access nothing is left to do. -/
theorem HeapOp.represented_done {op : HeapOp K V} {heap : ConcurrentLazyHeap K V}
    (h : (op.finish heap.alone).Represented) (hdone : (op.exec heap).1 = .done) :
    (op.exec heap).2.alone.Represented := by
  have hexec := op.represented_exec h
  rw [hdone] at hexec
  exact hexec

end Heap

/-! ### Nobody else is inside a call -/

/-- The operation on the heap that the feeder has in progress. -/
def FeederPc.op : FeederPc → HeapOp (BitVec 32) ℚ
  | .tryPickPop _ _ op => op
  | .nextUpdate _ op => op
  | _ => .done

/-- The operation on the heap that a responder thread has in progress. -/
def ReportPc.op : ReportPc → HeapOp (BitVec 32) ℚ
  | .update op => op
  | _ => .done

/-- What is in progress, once it is done, leaves a heap that represents its map. -/
structure IpState.Serial (s : IpState) : Prop where
  feeder : (∀ t, s.threads t = .idle) → (s.feeder.op.finish s.heap.alone).Represented
  thread : ∀ t, s.feeder = .idle → (∀ u, u ≠ t → s.threads u = .idle) →
    ((s.threads t).op.finish s.heap.alone).Represented

namespace IpState

variable {s : IpState}

theorem Serial.initial : IpState.initial.Serial where
  feeder _ := LazyHeap.Represented.empty
  thread _ _ _ := LazyHeap.Represented.empty

/-- Only the feeder may be inside a call. -/
theorem Serial.of_feeder (hthreads : ∀ t, s.threads t = .idle)
    (h : (s.feeder.op.finish s.heap.alone).Represented) : s.Serial where
  feeder _ := h
  thread t hfeeder _ := by
    rw [hfeeder] at h
    rw [hthreads t]
    exact h

/-- Only thread `t` may be inside a call. -/
theorem Serial.of_thread {t : ℕ} (hfeeder : s.feeder = .idle)
    (hthreads : ∀ u, u ≠ t → s.threads u = .idle)
    (h : ((s.threads t).op.finish s.heap.alone).Represented) : s.Serial where
  feeder hidle := by
    rw [hidle t] at h
    rw [hfeeder]
    exact h
  thread u _ hothers := by
    by_cases hu : u = t
    · subst hu
      exact h
    · rw [hothers t (Ne.symm hu)] at h
      rw [hthreads u hu]
      exact h

end IpState

namespace PmapIpAdapter

variable {scope : Scope}

/-- The caller is the only one inside a call. -/
def Alone (s : IpState) : IpAct → Prop
  | .nextAddress _ => ∀ t, s.threads t = .idle
  | .feeder _ => ∀ t, s.threads t = .idle
  | .onResult t _ => s.feeder = .idle ∧ ∀ u, u ≠ t → s.threads u = .idle
  | .thread t => s.feeder = .idle ∧ ∀ u, u ≠ t → s.threads u = .idle

/-- An access of the feeder: it starts an operation on a heap that represents its map, goes on with
one, or leaves the heap to what `top` does to it. -/
theorem FeederStep.finish_represented {self : PmapIpAdapter scope} {draw : ℕ → BitVec 8}
    {s t : IpState} (h : self.FeederStep draw s t)
    (hs : (s.feeder.op.finish s.heap.alone).Represented) :
    (t.feeder.op.finish t.heap.alone).Represented := by
  -- the heap is judged by what it will be when the current operation ends
  cases h with
  | stay => exact hs
  | top hpc | topEnd hpc | topEmpty hpc =>
    rw [hpc] at hs
    exact LazyHeap.Represented.cleaned hs
  -- an operation begins, so its whole effect is due
  | used hpc | pickLast hpc =>
    rw [hpc] at hs
    exact LazyHeap.Represented.pop hs
  | pop hpc | update hpc =>
    rw [hpc] at hs
    exact HeapOp.represented_exec hs
  | popReturn hpc hexec | popLoop hpc hexec | updateReturn hpc hexec =>
    rw [hpc] at hs
    exact HeapOp.represented_done hs hexec
  | queryNew hpc =>
    rw [hpc] at hs
    exact LazyHeap.Represented.update hs _ _
  | sweepSkip => exact hs
  | pick hpc | indexPanic hpc | sweepTake hpc | sweepLast hpc | sweepEnd hpc | queryKnown hpc =>
    rw [hpc] at hs
    exact hs

/-- An access of a responder thread. -/
theorem threadStep_finish_represented (self : PmapIpAdapter scope) (t : ℕ) {s : IpState}
    (hs : ((s.threads t).op.finish s.heap.alone).Represented) :
    (((self.threadStep t s).threads t).op.finish (self.threadStep t s).heap.alone).Represented := by
  unfold threadStep
  split
  · exact hs
  · next p hpc =>
    rw [hpc] at hs
    dsimp only
    rw [Function.update_self]
    split <;> exact hs
  · next p hpc =>
    rw [hpc] at hs
    dsimp only
    rw [Function.update_self]
    exact LazyHeap.Represented.update hs _ _
  · next op hpc =>
    rw [hpc] at hs
    split
    · next heap hexec =>
      -- the last access: what was due is there
      obtain rfl : (op.exec s.heap).2 = heap := congrArg Prod.snd hexec
      dsimp only
      rw [Function.update_self]
      exact HeapOp.represented_done hs (congrArg Prod.fst hexec)
    · next op' heap _ hexec =>
      obtain rfl : (op.exec s.heap).2 = heap := congrArg Prod.snd hexec
      obtain rfl : (op.exec s.heap).1 = op' := congrArg Prod.fst hexec
      dsimp only
      rw [Function.update_self]
      exact HeapOp.represented_exec hs

/-- A responder thread leaves the others. -/
theorem threadStep_threads_of_ne (self : PmapIpAdapter scope) {t u : ℕ} (hu : u ≠ t) (s : IpState) :
    (self.threadStep t s).threads u = s.threads u := by
  unfold threadStep
  split
  · rfl
  · exact Function.update_of_ne hu _ _
  · exact Function.update_of_ne hu _ _
  · split <;> exact Function.update_of_ne hu _ _

/-- A step of whoever is alone with the heap. The feeder and the `on_result` threads are alike here:
one operation is in progress, and all others have ended. -/
theorem serial_step (self : PmapIpAdapter scope) {s : IpState} {act : IpAct} (halone : Alone s act)
    (h : s.Serial) : (self.step s act).Serial := by
  cases act with
  | nextAddress coin =>
    rw [step]
    split
    · next hpc =>
      -- the call begins with no operation in progress
      have hs := h.feeder halone
      rw [hpc] at hs
      split <;> exact .of_feeder halone hs
    · exact h
  | feeder draw =>
    have hstep := self.feederStep_cases draw s
    refine .of_feeder (fun t => ?_) (hstep.finish_represented (h.feeder halone))
    change (self.feederStep draw s).threads t = .idle
    rw [hstep.threads]
    exact halone t
  | onResult t addr =>
    obtain ⟨hfeeder, hothers⟩ := halone
    have hs := h.thread t hfeeder hothers
    rw [step]
    split
    · next hpc =>
      rw [hpc] at hs
      refine .of_thread hfeeder (t := t) (fun u hu => ?_) ?_
      · exact (Function.update_of_ne hu _ _).trans (hothers u hu)
      · dsimp only
        rw [Function.update_self]
        exact hs
    · exact h
  | thread t =>
    obtain ⟨hfeeder, hothers⟩ := halone
    -- a thread moves nobody but itself
    refine .of_thread ((self.threadStep_frame t s).2.trans hfeeder) (fun u hu => ?_)
      (self.threadStep_finish_represented t (h.thread t hfeeder hothers))
    rw [step, self.threadStep_threads_of_ne hu]
    exact hothers u hu

theorem serial_run (self : PmapIpAdapter scope) {acts : List IpAct}
    (halone : Run.Along self.step Alone .initial acts) : (self.run acts).Serial :=
  halone.invariant (fun _ _ => self.serial_step) .initial

/-! ### The counts of the prefixes -/

/-- What an access of the feeder does to the entries: nothing, or it enters one prefix and may mark
one of its addresses. -/
theorem FeederStep.actives {self : PmapIpAdapter scope} {draw : ℕ → BitVec 8} {s t : IpState}
    (h : self.FeederStep draw s t) :
    t.actives = s.actives ∨ ∃ p state, t.actives = (s.setEntry p state).actives ∧
      (state = s.entry p ∨ ∃ o, state = ((s.entry p).markScanned o).2) := by
  cases h with
  | used => exact .inr ⟨_, _, rfl, .inl rfl⟩
  | pickLast | pick | sweepSkip | sweepTake | sweepLast => exact .inr ⟨_, _, rfl, .inr ⟨_, rfl⟩⟩
  | _ => exact .inl rfl

/-- `mark_scanned` keeps the count of an entry, and no other step touches it. -/
theorem counted_feederStep {self : PmapIpAdapter scope} {draw : ℕ → BitVec 8} {s t : IpState}
    (h : self.FeederStep draw s t) (hs : ∀ p, (s.entry p).Counted) (p : BitVec 32) :
    (t.entry p).Counted := by
  rcases h.actives with hactives | ⟨q, state, hactives, hstate⟩
  · rw [IpState.entry, hactives]
    exact hs p
  · have hentry : t.entry p = (s.setEntry q state).entry p := by
      rw [IpState.entry, hactives]
      rfl
    rw [hentry, IpState.entry_setEntry]
    split
    · -- the entry is stored as it was found, or with one more mark
      rcases hstate with rfl | ⟨o, rfl⟩
      · exact hs q
      · exact (hs q).markScanned o
    · exact hs p

/-- The count of free addresses is right after every step, however the threads are interleaved. -/
theorem counted_step (self : PmapIpAdapter scope) {s : IpState} (hs : ∀ p, (s.entry p).Counted)
    (act : IpAct) (p : BitVec 32) : ((self.step s act).entry p).Counted := by
  cases act with
  | feeder draw => exact counted_feederStep (self.feederStep_cases draw s) hs p
  | nextAddress coin =>
    rw [step]
    split
    · split <;> exact hs p
    · exact hs p
  | onResult t addr =>
    rw [step]
    split <;> exact hs p
  | thread t =>
    rw [step, IpState.entry, (self.threadStep_frame t s).1]
    exact hs p

/-- Every prefix counts its free addresses, in every run. -/
theorem counted_run (self : PmapIpAdapter scope) (acts : List IpAct) (p : BitVec 32) :
    ((self.run acts).entry p).Counted := by
  have hinitial (p : BitVec 32) : (IpState.initial.entry p).Counted := PrefixState.counted_new
  exact List.foldlRecOn (motive := fun s : IpState => ∀ p, (s.entry p).Counted) acts self.step
    hinitial (fun _ hs act _ => self.counted_step hs act) p

end PmapIpAdapter

end Farsight
