import Farsight.Responder.Reports

/-!
# What the responder reports

A responder thread calls the strategies: `PortAdapter::on_result` for every result and every
failure, `IpAdapter::on_result` for every result. The strategies are shared by all threads. To run a
thread apart from them, its calls are recorded, and what they return is given.

* `ResponderEnv.recording` — the environment that does so;
* `Responder.About` — all that a thread remembers and reports is about some given endpoints;
* `Responder.About.step` — it stays so while packets come from these endpoints only.
-/

namespace Farsight

open Handler
open Responder (State Event Arrival)

/-- The calls of a thread. `answers` is what the next calls of `PortAdapter::on_result` return. -/
structure Calls where
  answers : List (Option PacketTemplate)
  results : List (Endpoint × Option (BitVec 64))
  hits : List Ipv4Addr

/-- `PortAdapter::on_result` is called. -/
def Calls.onResult (calls : Calls) (ip : Ipv4Addr) (port : BitVec 16) (hash : Option (BitVec 64)) :
    Option PacketTemplate × Calls :=
  (calls.answers.head?.join,
    { calls with
      answers := calls.answers.tail
      results := calls.results ++ [((ip, port), hash)] })

/-- `IpAdapter::on_result` is called. -/
def Calls.ipOnResult (calls : Calls) (ip : Ipv4Addr) : Calls :=
  { calls with hits := calls.hits ++ [ip] }

/-- The environment of a thread whose calls are recorded. -/
def ResponderEnv.recording {A B : Type} (env : ResponderEnv A B) : ResponderEnv Calls B where
  onResult := Calls.onResult
  ipOnResult := Calls.ipOnResult
  build := env.build
  parse := env.parse
  hash64 := env.hash64
  seed := env.seed
  maxReorderSegments := env.maxReorderSegments
  maxReorderBytes := env.maxReorderBytes
  timeout := env.timeout

namespace Responder

variable {A B : Type} {env : ResponderEnv A B} {probed probed' : Endpoint → Prop}

/-- The calls are about these endpoints. -/
def Asks (probed : Endpoint → Prop) (calls : Calls) : Prop :=
  (∀ call ∈ calls.results, probed call.1) ∧ ∀ addr ∈ calls.hits, ∃ port, probed (addr, port)

/-- All that a thread remembers and has reported is about these endpoints. -/
structure About (probed : Endpoint → Prop) (w : Responder Calls B) : Prop where
  connections : ∀ key state, w.connections key = some state → probed (state.ip, state.port)
  scanlings : ∀ scanling ∈ w.scanlings, probed (scanling.ip, scanling.port)
  calls : Asks probed w.adapter

/-- The endpoints that were probed only become more in a scan, and what was about them stays about
them. -/
theorem About.mono {w : Responder Calls B} (h : About probed w)
    (hprobed : ∀ key, probed key → probed' key) : About probed' w where
  connections key state hstate := hprobed _ (h.connections key state hstate)
  scanlings scanling hscanling := hprobed _ (h.scanlings scanling hscanling)
  calls := by
    refine ⟨fun call hcall => hprobed _ (h.calls.1 call hcall), fun addr haddr => ?_⟩
    obtain ⟨port, hport⟩ := h.calls.2 addr haddr
    exact ⟨port, hprobed _ hport⟩

theorem about_new (probed : Endpoint → Prop) :
    About probed (Responder.new ⟨[], [], []⟩ : Responder Calls B) where
  connections _ _ h := nomatch h
  scanlings _ h := absurd h List.not_mem_nil
  calls := ⟨fun _ h => absurd h List.not_mem_nil, fun _ h => absurd h List.not_mem_nil⟩

/-! ### Handlers -/

/-- The calls of a thread are about these endpoints. -/
def Reports (probed : Endpoint → Prop) (w : Responder Calls B) : Prop :=
  Asks probed w.adapter

/-- A report adds one call, which is about the endpoint that it names. -/
theorem Asks.onResult {calls : Calls} (h : Asks probed calls) {key : Endpoint} (hkey : probed key)
    (hash : Option (BitVec 64)) :
    Asks probed (calls.onResult key.1 key.2 hash).2 := by
  refine ⟨fun call hcall => ?_, h.2⟩
  rcases List.mem_append.mp hcall with hold | hnew
  · exact h.1 call hold
  · rw [List.mem_singleton.mp hnew]
    exact hkey

/-- `record` calls `PortAdapter::on_result` once, and the probe that it may send is no call. -/
theorem record_reports {key : Endpoint} (hkey : probed key) (hash : Option (BitVec 64)) :
    Keeps (Reports probed) (record env.recording key.1 key.2 hash) :=
  record_keeps (J := fun _ => Reports probed) (fun _ h => Asks.onResult h hkey hash)
    (fun _ h => h) fun _ => transmit_rule (fun _ _ h => h) fun _ _ h => h

/-- `IpAdapter::on_result` gets an address only. It is the address of a probed endpoint, so some
port of it was probed. -/
theorem ipOnResult_reports {key : Endpoint} (hkey : probed key) :
    Keeps (Reports (B := B) probed)
      (Handler.modify fun w => { w with adapter := w.adapter.ipOnResult key.1 }) := by
  refine Triple.modify fun w h => ⟨h.1, fun addr haddr => ?_⟩
  rcases List.mem_append.mp haddr with hold | hnew
  · exact h.2 addr hold
  · rw [List.mem_singleton.mp hnew]
    exact ⟨key.2, hkey⟩

/-- The handler of a packet reports the endpoint of the packet, whatever it remembers. -/
theorem processPacket_reports {p : Packet} (hp : probed p.key) (now : ℕ) :
    Keeps (Reports probed) (processPacket env.recording now p) :=
  -- of the four things a handler does, only the calls of the strategies matter
  processPacket_keeps (fun _ => Triple.modify fun _ h => h)
    (fun _ _ => transmit_rule (fun _ _ h => h) fun _ _ h => h) (record_reports hp)
    (ipOnResult_reports hp) now

/-! ### Events -/

variable {w : Responder Calls B}

/-- A packet adds to what is remembered only its own endpoint. The connections are followed by the
cases of the tracker, the results by the frame of the other endpoints, and the calls by the
handler. -/
theorem About.receive (h : About probed w) {arrival : Arrival} (hp : probed arrival.packet.key) :
    About probed (receive env.recording arrival w).2 := by
  obtain ⟨hstep, -⟩ := receive_spec env.recording arrival w
  have hpacket : Keeps (Reports probed) (processPacket env.recording arrival.now arrival.packet) :=
    processPacket_reports hp arrival.now
  have hcalls : Reports probed (Responder.receive env.recording arrival w).2 :=
    hpacket.state (s := { w with wakes := arrival.wakes }) h.calls
  refine ⟨?_, fun scanling hscanling => ?_, hcalls⟩
  · -- created by the packet, changed by it, or another one
    refine hstep.forall_connections (P := fun _ state => probed (state.ip, state.port))
      h.connections (fun _ => hp) (fun state _ hstate => ?_) (fun state _ hstate => ?_)
      fun _ _ hstate => hstate
    · -- a segment that is kept does not change the endpoint of its connection
      obtain ⟨hip, hport⟩ := bufferSegment_endpoint env.recording state arrival.packet.hdr.seq
        arrival.packet.payload
      rwa [hip, hport]
    · obtain ⟨hip, hport⟩ := accept_endpoint state arrival.packet.payload
      rwa [hip, hport]
  · -- a new result is one of the packet
    by_cases hkey : (scanling.ip, scanling.port) = arrival.packet.key
    · rwa [hkey]
    · have hmem : scanling ∈ (Responder.receive env.recording arrival w).2.scanlingsOf
          (scanling.ip, scanling.port) := List.mem_filter.mpr ⟨hscanling, decide_eq_true rfl⟩
      rw [(hstep.frame hkey).2] at hmem
      exact h.scanlings scanling (List.mem_of_mem_filter hmem)

/-- An expiry pass only forgets. What it reports is the endpoint of the connection that it has just
removed, so the loop carries that endpoint from the removal to the report. -/
theorem About.expire (h : About probed w) (now : ℕ) (wakes : List Wake) :
    About probed (expire env.recording now wakes w).2 := by
  refine expire_of_loop (I := About probed) (expiryLoop_rule
    (J := fun state w => About probed w ∧ probed (state.ip, state.port)) now
    (fun _ _ _ h => ⟨h.connections, h.scanlings, h.calls⟩) ?_ (fun state => ?_) w.queue)
    ⟨h.connections, h.scanlings, h.calls⟩
  · -- `connections.remove`: what it returns was remembered
    intro w key state h hstate
    refine ⟨⟨fun key' state' hstate' => ?_, h.scanlings, h.calls⟩, h.connections key state hstate⟩
    exact h.connections key' state' (Tracker.connections_of_remove hstate')
  · -- the report is about the endpoint of the connection that is gone
    refine Triple.of_forall fun w h => ?_
    have hrecord : Keeps (About probed) (recordEmpty env.recording state.ip state.port) := by
      refine record_keeps (J := fun _ => About probed)
        (fun _ h' => ⟨h'.connections, h'.scanlings, Asks.onResult h'.calls h.2 none⟩)
        (fun _ h' => h') fun _ => transmit_rule ?_ ?_
      · exact fun _ _ h' => ⟨h'.connections, h'.scanlings, h'.calls⟩
      · exact fun _ _ h' => ⟨h'.connections, h'.scanlings, h'.calls⟩
    refine hrecord.mono ?_ (fun _ _ h => h) fun _ h => h
    -- the state at the start of the report is the one of the loop
    rintro _ rfl
    exact h.1

/-- The packet of an event comes from one of these endpoints. -/
def Event.From (probed : Endpoint → Prop) : Event → Prop
  | .packet arrival => probed arrival.packet.key
  | .expiry _ _ => True

/-- **A thread reports what it was told.** As long as packets come from these endpoints only, all
that it remembers, reports and finds is about them. -/
theorem About.step (h : About probed w) {event : Event} (hevent : event.From probed) :
    About probed (Responder.step env.recording w event) := by
  cases event with
  | packet arrival => exact h.receive hevent
  | expiry now wakes => exact h.expire now wakes

end Responder

end Farsight
