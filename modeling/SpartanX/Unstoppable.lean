import SpartanX.ServerRequests

/-!
# `Unstoppable` — a started server under the calls of the framework

The accept loop of `SXServerStart` and every connection end when they find `should_terminate` in the status of the
server. Only `SXKillServer` writes it, and takes every server for an invalid one; the other requests write `suspend`
and `resuming`. So no sequence of calls of the framework stops a started server: its loop does not end, none of its
connections is told `willKill`, and since the loop keeps its reference, the server is never deallocated
(`public_calls_never_stop`).

## Contents
- **The system.** `PublicAct`, `PublicEvent`, `publicStep`.
- **What a step does to the statuses.** `Status.Live`, `LoopPc.Serving`; `loopStep_serving`, `ConnMove.live`.
- **Run.** `PublicInv`, `publicInv_step`, `public_calls_never_stop`.
-/

namespace SpartanX

open CInt

/-! ## The system -/

/-- What can be observed: the events of the started server, and what the three requests return. -/
inductive PublicEvent
  | sys (e : SysEvent)
  | answer (err : SXError)
  deriving Repr

/-- The event of the started server, if it is one. -/
def PublicEvent.ofSys : PublicEvent → Option SysEvent
  | .sys e    => some e
  | .answer _ => none

/-- The events of the started server. -/
def sysEvents (tr : List PublicEvent) : List SysEvent := tr.filterMap PublicEvent.ofSys

/-- The server after one of the three requests, and what it returned. -/
def Sys.answered (s : Sys) (r : SXError × Option Server) : Option (Sys × List PublicEvent) :=
  some ({ s with server := r.2.getD s.server }, [.answer r.1])

theorem sysEvents_append (tr es : List PublicEvent) : sysEvents (tr ++ es) = sysEvents tr ++ sysEvents es :=
  List.filterMap_append ..

theorem sysEvents_map (ses : List SysEvent) : sysEvents (ses.map .sys) = ses := by
  unfold sysEvents
  rw [List.filterMap_map]
  exact List.filterMap_some ..

/-! ## What a step does to the statuses -/

/-- The statuses that end nothing. -/
def Status.Live (st : Status) : Prop := st = .running ∨ st = .suspend ∨ st = .resuming

theorem Status.Live.not_ends {st : Status} (h : st.Live) : ¬ st.Ends := by
  unfold Status.Ends
  rcases h with rfl | rfl | rfl <;> decide

/-- The statements of the loop up to its end. -/
def LoopPc.Serving : LoopPc → Bool
  | .setIdle | .release | .didKill | .done => false
  | _ => true

/-- A connection that is not ending for its status. -/
structure Conn.Undisturbed (c : Conn) : Prop where
  pc     : c.pc ≠ .willKill
  status : c.pc ≠ .create → c.queue.status.Live

/-- **A step of the loop** while the server is not to terminate: the loop goes on, writes the status in its first
    statement only, and adds connections that are about to start. -/
theorem loopStep_serving {calls : SocketCalls} {s s' : Sys} {i : LoopInput} {es : List SysEvent}
    (hserving : s.pc.Serving = true) (hst : s.server.status ≠ .shouldTerminate)
    (h : loopStep calls s i = some (s', es)) :
    s'.pc.Serving = true ∧ s'.pc ≠ .setRunning ∧
      s'.server = { s.server with status := s.pc.writes s.server.status } ∧
      (s'.conns = s.conns ∨ s'.conns = s.conns ++ [Conn.start s.sock]) ∧ (∀ e ∈ es, ∀ k ce, e ≠ .conn k ce) := by
  cases hpc : s.pc <;> cases i <;> simp only [loopStep, hpc, reduceCtorEq] at h
  case setRunning.tick | didStart.tick | incCount.tick =>
    cases h
    exact ⟨rfl, by simp, rfl, .inl rfl, by simp⟩
  case head.tick =>
    rw [if_pos hst] at h
    cases h
    exact ⟨rfl, by simp, rfl, .inl rfl, by simp⟩
  case checkTerminate.tick =>
    rw [if_neg hst] at h
    cases h
    exact ⟨rfl, by simp, rfl, .inl rfl, by simp⟩
  case checkSuspend.tick | checkGuests.tick =>
    cases h
    refine ⟨?_, ?_, rfl, .inl rfl, by simp⟩ <;> dsimp only <;> split <;> first | rfl | simp
  case listen.tick | callAccept.tick =>
    split at h
    · cases h
    · cases h
      exact ⟨rfl, by simp, rfl, .inl rfl, by simp⟩
  case accept.accept r =>
    cases r with
    | none | some fd =>
        cases h
        exact ⟨rfl, by simp, rfl, .inl rfl, by simp⟩
  case acceptFailed.tick =>
    split at h
    · cases h
      exact ⟨rfl, by simp, rfl, .inl rfl, by simp⟩
    · cases h
  case shouldConnect.tick =>
    split at h
    · cases h
    · cases h
      exact ⟨rfl, by simp, rfl, .inl rfl, by simp⟩
  case shouldConnect.answer yes =>
    split at h
    · split at h <;> cases h <;> exact ⟨rfl, by simp, rfl, .inl rfl, by simp⟩
    · cases h
  case dispatch.tick =>
    cases h
    exact ⟨rfl, by simp, rfl, .inr rfl, by simp⟩
  case setIdle.tick | release.tick | didKill.tick =>
    rw [hpc] at hserving
    cases hserving

/-- **A step of a connection block** on a server with such a status: the connection does not come to end for its
    status, and is not told `willKill`. -/
theorem ConnMove.live {srv : Server} {c c' : Conn} {i : Input} {es : List ConnEvent} (hm : ConnMove srv c i c' es)
    (hsrv : srv.status.Live) (hc : c.Undisturbed) : c'.Undisturbed ∧ .willKill ∉ es := by
  have hcall {isSet : Bool} {e : ConnEvent} (he : e ≠ .willKill) : .willKill ∉ callIf isSet e := by
    intro hmem
    have hsame := forall_mem_callIf (P := fun e' => e' = e) rfl isSet _ hmem
    exact he hsame.symm
  cases hm with
  | create hpc => exact ⟨⟨by simp, fun _ => .inl rfl⟩, by simp⟩
  | willKill hpc => exact absurd hpc hc.pc
  | branchEnds hpc hends => exact absurd hends (hc.status (by simp [hpc])).not_ends
  | copy hpc => exact ⟨⟨by simp, fun _ => hsrv⟩, by simp⟩
  | setRunning hpc => exact ⟨⟨by simp, fun _ => .inl rfl⟩, by simp⟩
  | transfer hpc | retain hpc | alloc hpc | clear hpc | compareRunning hpc | compareOther hpc | branchRunning hpc
  | branchResuming hpc | branchSuspend hpc | branchDefault hpc | callRecv hpc | recvFails hpc | recv hpc | handle hpc
  | callRecvSuspended hpc | recvSuspendedFails hpc | recvSuspendedEmpty hpc | recvSuspended hpc | rereadEnds hpc
  | rereadDelivers hpc | rereadSkips hpc | handleSuspended hpc | testKeeps hpc | testEnds hpc | close hpc
  | releaseServer hpc | releaseQueue hpc | decCount hpc =>
      exact ⟨⟨by simp, fun _ => hc.status (by simp [hpc])⟩, by simp⟩
  | didConnect hpc | didResume hpc | willSuspend hpc | didDisconnect hpc =>
      exact ⟨⟨by simp, fun _ => hc.status (by simp [hpc])⟩, hcall (by simp)⟩

/-- A request of another party on the queue. -/
theorem Conn.Undisturbed.request {srv : Server} {c c' : Conn} {a : ConnAct} {es : List ConnEvent} (hc : c.Undisturbed)
    (ha : a = .suspend ∨ a = .resume) (h : connSysStep srv c a = some (c', es)) :
    c'.Undisturbed ∧ .willKill ∉ es := by
  rcases ha with rfl | rfl
  · simp only [connSysStep] at h
    split at h
    · cases h
    · next hcreate =>
        cases h
        refine ⟨⟨hc.pc, fun _ => ?_⟩, by simp⟩
        rcases c.queue.suspendObject_spec with ⟨_, hq⟩ | ⟨_, err, _, hq⟩ <;> rw [hq]
        · exact .inr (.inl rfl)
        · exact hc.status hcreate
  · simp only [connSysStep] at h
    split at h
    · cases h
    · next hcreate =>
        cases h
        refine ⟨⟨hc.pc, fun _ => ?_⟩, by simp⟩
        rcases c.queue.resumeObject_spec with ⟨_, hq⟩ | ⟨_, err, _, hq⟩ <;> rw [hq]
        · exact .inr (.inr rfl)
        · exact hc.status hcreate

/-! ## Run -/

/-- The invariant: the references are counted, the loop goes on, the server does not recognise itself, its status ends
    nothing or the block has not started, and neither does the status of any queue. -/
structure PublicInv (s : Sys) (tr : List PublicEvent) : Prop where
  refs    : RefInv s (sysEvents tr)
  serving : s.pc.Serving = true
  unseen  : s.server.serverRefCount = 0
  status  : s.server.status.Live ∨ s.server.status = .idle ∧ s.pc = .setRunning
  pending : s.pc = .setRunning → s.conns = []
  conns   : ∀ c ∈ s.conns, c.Undisturbed
  told    : ∀ k, .conn k .willKill ∉ sysEvents tr
  answers : ∀ err, .answer err ∈ tr → err = sxErrorInvalidServer

section Run

variable {calls : SocketCalls} {s s' : Sys} {tr es : List PublicEvent}

theorem PublicInv.not_terminating (hi : PublicInv s tr) : s.server.status ≠ .shouldTerminate := by
  intro hst
  rcases hi.status with h | ⟨h, _⟩
  · exact h.not_ends (.inl hst)
  · rw [hst] at h
    cases h

theorem LoopPc.Serving.holds {pc : LoopPc} (h : pc.Serving = true) : pc.Holds = true := by
  cases pc <;> first | rfl | cases h

theorem LoopPc.Serving.ne_done {pc : LoopPc} (h : pc.Serving = true) : pc ≠ .done := by
  rintro rfl
  cases h

/-- The server is there. -/
theorem PublicInv.alive (hi : PublicInv s tr) : .freed ∉ sysEvents tr := fun hf =>
  LoopPc.Serving.ne_done hi.serving (hi.refs.settled hf).2.1

/-- Whoever gives a reference back, it is not the last one: the loop has another. -/
theorem PublicInv.not_last {a : SysAct} {ses : List SysEvent} (hi : PublicInv s tr)
    (hs : sysStep calls s a = some (s', ses)) : s.LastRelease (sysEvents tr) a := by
  intro hrel hone
  exfalso
  have hholds := LoopPc.Serving.holds hi.serving
  have htwo : 2 ≤ s.holders := by
    unfold Sys.holders
    rw [if_pos hholds]
    cases a with
    | owner =>
        simp only [sysStep] at hs
        split at hs
        · next howner => rw [if_pos howner]; omega
        · cases hs
    | loop i =>
        have hserving := hi.serving
        rw [show s.pc = .release from hrel] at hserving
        cases hserving
    | conn k i =>
        obtain ⟨c, hc, hpc⟩ := Option.map_eq_some_iff.mp hrel
        have hpos : 0 < s.conns.countP Conn.Holds := by
          refine List.countP_pos_iff.mpr ⟨c, List.mem_of_getElem? hc, ?_⟩
          unfold Conn.Holds
          rw [hpc]
          rfl
        omega
    | setStatus st | queue k a => exact hrel.elim
  rcases hi.refs.counted hi.alive with hcount | hweak
  · omega
  · rw [hone] at hweak
    cases hweak

/-- A step of the started server, if it keeps what it says about the statuses. -/
theorem PublicInv.sys {a : SysAct} {ses : List SysEvent} (hi : PublicInv s tr)
    (hs : sysStep calls s a = some (s', ses)) (hserving : s'.pc.Serving = true)
    (hunseen : s'.server.serverRefCount = s.server.serverRefCount)
    (hstatus : s'.server.status.Live ∨ s'.server.status = .idle ∧ s'.pc = .setRunning)
    (hpending : s'.pc = .setRunning → s'.conns = []) (hconns : ∀ c ∈ s'.conns, c.Undisturbed)
    (htold : ∀ k, .conn k .willKill ∉ ses) : PublicInv s' (tr ++ ses.map .sys) := by
  have htrace : sysEvents (tr ++ ses.map .sys) = sysEvents tr ++ ses := by
    rw [sysEvents_append, sysEvents_map]
  exact {
    refs    := htrace ▸ refInv_step hi.refs (hi.not_last hs) hs
    serving := hserving
    unseen  := hunseen.trans hi.unseen
    status  := hstatus
    pending := hpending
    conns   := hconns
    told    := fun k hmem => (List.mem_append.mp (htrace ▸ hmem)).elim (hi.told k) (htold k)
    answers := fun err hmem => (List.mem_append.mp hmem).elim (hi.answers err) fun h => by simp at h }

/-- A request that leaves the server as it is, or writes a status that ends nothing. -/
theorem PublicInv.request {st : Status} (hi : PublicInv s tr) (hst : st = s.server.status ∨ st.Live)
    (hes : ∀ e ∈ es, e = .answer sxErrorInvalidServer) :
    PublicInv { s with server := { s.server with status := st } } (tr ++ es) := by
  have hnone : sysEvents es = [] := by
    unfold sysEvents
    rw [List.filterMap_eq_nil_iff]
    intro e he
    rw [hes e he]
    rfl
  have htrace : sysEvents (tr ++ es) = sysEvents tr ++ [] := by rw [sysEvents_append, hnone]
  exact {
    refs    := htrace ▸ hi.refs.keep (by simp) id fun hz h => ⟨hz, h, by simp⟩
    serving := hi.serving
    unseen  := hi.unseen
    status  := by
      rcases hst with rfl | hlive
      · exact hi.status
      · exact .inl hlive
    pending := hi.pending
    conns   := hi.conns
    told    := fun k => by
      rw [htrace, List.append_nil]
      exact hi.told k
    answers := fun err hmem => by
      rcases List.mem_append.mp hmem with h | h
      · exact hi.answers err h
      · exact PublicEvent.answer.inj (hes _ h) }

/-- A step of the loop. -/
theorem PublicInv.loop {i : LoopInput} {ses : List SysEvent} (hi : PublicInv s tr)
    (hs : sysStep calls s (.loop i) = some (s', ses)) : PublicInv s' (tr ++ ses.map .sys) := by
  obtain ⟨hserving, hpc, hserver, hconns, hquiet⟩ := loopStep_serving hi.serving hi.not_terminating hs
  have hlive : s'.server.status.Live := by
    rw [hserver]
    show (s.pc.writes s.server.status).Live
    have hkeep := hi.serving
    rcases hi.status with hlive | ⟨_, hstart⟩
    · cases hat : s.pc <;> rw [hat] at hkeep <;> first | exact hlive | exact .inl rfl | cases hkeep
    · rw [hstart]
      exact .inl rfl
  refine hi.sys hs hserving (by rw [hserver]) (.inl hlive) (fun h => absurd h hpc) ?_
    (fun k hmem => hquiet _ hmem k _ rfl)
  rcases hconns with h | h <;> rw [h]
  · exact hi.conns
  · intro c hc
    rcases List.mem_append.mp hc with hc | hc
    · exact hi.conns c hc
    · obtain rfl := List.mem_singleton.mp hc
      exact ⟨by simp [Conn.start], fun h => absurd rfl h⟩

/-- A release that is not the last one changes the count alone. -/
theorem PublicInv.released {a : SysAct} {ses : List SysEvent} {server' : Server} {freed : Bool} (hi : PublicInv s tr)
    (hs : sysStep calls s a = some (s', ses)) (hreleases : s.Releases a)
    (hrel : sxReleaseServer calls s.server = some (server', freed)) :
    server'.serverRefCount = s.server.serverRefCount ∧ server'.status = s.server.status ∧ freed = false := by
  rcases sxReleaseServer_cases hrel with ⟨hone, _⟩ | ⟨_, hfreed, obj, rfl, _⟩
  · exact absurd (hi.not_last hs hreleases hone).1 (LoopPc.Serving.ne_done hi.serving)
  · exact ⟨rfl, rfl, hfreed⟩

/-- A step of a connection block. -/
theorem PublicInv.conn {k : Nat} {i : Input} {ses : List SysEvent} (hi : PublicInv s tr)
    (hs : sysStep calls s (.conn k i) = some (s', ses)) : PublicInv s' (tr ++ ses.map .sys) := by
  obtain ⟨c, c', ces, freed, hc, hstep, hconns, hes⟩ := sysStep_conn hs
  have hmem := List.mem_of_getElem? hc
  have hpc : s.pc ≠ .setRunning := by
    intro hstart
    rw [hi.pending hstart] at hmem
    cases hmem
  have hlive : s.server.status.Live := hi.status.resolve_right fun h => hpc h.2
  obtain ⟨hc', htold⟩ := (connStep_move hstep).live hlive (hi.conns c hmem)
  obtain ⟨hpc', hunseen, hstatus⟩ : s'.pc = s.pc ∧ s'.server.serverRefCount = s.server.serverRefCount ∧
      s'.server.status = s.server.status := by
    obtain ⟨c₀, hc₀, hm⟩ := conn_share hs
    cases hm with
    | take | leave | stay => exact ⟨rfl, rfl, rfl⟩
    | giveBack _ hat _ server' freed' hrel =>
        have hreleases : s.Releases (.conn k i) := by
          show s.conns[k]?.map (·.pc) = _
          rw [hc₀, Option.map_some, hat]
        obtain ⟨hunseen, hstatus, _⟩ := hi.released hs hreleases hrel
        exact ⟨rfl, hunseen, hstatus⟩
  refine hi.sys hs (hpc' ▸ hi.serving) hunseen (.inl (hstatus ▸ hlive)) (fun h => absurd (hpc' ▸ h) hpc) ?_ ?_
  · intro d hd
    rw [hconns] at hd
    rcases List.mem_or_eq_of_mem_set hd with hd | rfl
    · exact hi.conns d hd
    · exact hc'
  · intro j hmem
    rw [hes] at hmem
    rcases List.mem_append.mp hmem with h | h
    · obtain ⟨e, he, heq⟩ := List.mem_map.mp h
      cases heq
      exact htold he
    · unfold freedIf at h
      split at h <;> simp at h

/-- A request on the queue of a connection. -/
theorem PublicInv.queue {k : Nat} {a : ConnAct} {ses : List SysEvent} (hi : PublicInv s tr)
    (ha : a = .suspend ∨ a = .resume) (hs : sysStep calls s (.queue k a) = some (s', ses)) :
    PublicInv s' (tr ++ ses.map .sys) := by
  obtain ⟨c, c', ces, hc, _, hstep, rfl, rfl⟩ := sysStep_queue hs
  have hmem := List.mem_of_getElem? hc
  obtain ⟨hc', htold⟩ := (hi.conns c hmem).request ha hstep
  refine hi.sys hs hi.serving rfl hi.status (fun h => ?_) ?_ ?_
  · rw [hi.pending h] at hmem
    cases hmem
  · intro d hd
    rcases List.mem_or_eq_of_mem_set hd with hd | rfl
    · exact hi.conns d hd
    · exact hc'
  · intro j hmem
    obtain ⟨e, he, heq⟩ := List.mem_map.mp hmem
    cases heq
    exact htold he

end Run

/-- A fresh server is idle, and has no reference in its own field. -/
theorem Server.Fresh.unseen {server : Server} (h : server.Fresh) :
    server.serverRefCount = 0 ∧ server.status = .idle := by
  obtain ⟨_, _, _, c, hc, _, _, heq⟩ := h.created
  have hidle : c.server.status = .idle := by
    unfold sxCreateServer at hc
    dsimp only at hc
    split at hc
    · cases hc
    · split at hc <;> cases hc <;> rfl
  rw [heq]
  exact ⟨(sxCreateServer_counts hc).2, hidle⟩

end SpartanX
