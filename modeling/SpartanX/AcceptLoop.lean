import SpartanX.Lib.Parties
import SpartanX.Shared

/-!
# `AcceptLoop` — `SXServerStart` and the accept loop it dispatches

A started server is a system of parties that take atomic steps in any order: the owner, the accept loop, one
block for each connection the loop has dispatched, and whoever changes statuses. A step of the loop executes
one statement, up to at most one access to the server; a step of a connection is a step of its block
(`Connection.Block`) on the fields the server has at that moment.

## Contents
- **The system.** `LoopPc`, `Sys`, `SysAct`, `loopStep`, `sysStep`, `sxServerStart`.
- **What a step does.** `LoopMove` (`loopStep_move`) and `ConnShare` (`conn_share`), the cases of a loop step
  and of a connection step.
-/

namespace SpartanX

open CInt

/-! ## The system -/

/-- The statement the accept loop executes next. -/
inductive LoopPc
  | setRunning       -- server->status = sx_status_running
  | didStart
  | head             -- while (server->status != sx_status_should_terminate)
  | listen
  | checkTerminate   -- if (server->status == sx_status_should_terminate) break
  | checkSuspend     -- else if (server->status == sx_status_suspend) continue
  | checkGuests      -- if (count >= server->max_guest) continue
  | incCount         -- ++count
  | callAccept
  | accept
  | acceptFailed
  | shouldConnect
  | dispatch         -- dispatch_async(r_queue, ..)
  | setIdle          -- server->status = sx_status_idle
  | release          -- SXRelease(server)
  | didKill
  | done
  deriving DecidableEq, Repr

/-- A server started by `SXServerStart`, with everything that was dispatched for it. `owner` tells whether the
    owner still has its reference, `sock` is the variable of the loop that the connection blocks capture. -/
structure Sys where
  server : Server
  owner  : Bool      := true
  pc     : LoopPc    := .setRunning
  count  : IntT      := 0
  sock   : Socket    := {}
  conns  : List Conn := []
  deriving DecidableEq, Repr

/-- What a step of the loop gets from outside: nothing, the return of `accept` (`none` for `-1`), or the answer
    of `shouldConnect`. -/
inductive LoopInput
  | tick
  | accept (fd : Option IntT)
  | answer (yes : Bool)
  deriving Repr

/-- A step of the system: the owner releases the server, the loop or a connection block takes a step, somebody
    writes the server's status, or somebody does something to the queue of a connection. -/
inductive SysAct
  | owner
  | loop (i : LoopInput)
  | conn (k : Nat) (i : Input)
  | setStatus (st : Status)
  | queue (k : Nat) (a : ConnAct)
  deriving Repr

/-- One step of the accept loop. -/
def loopStep (calls : SocketCalls) (s : Sys) (i : LoopInput) : Option (Sys × List SysEvent) :=
  match s.pc, i with
  | .setRunning, .tick =>
    some ({ s with pc := .didStart, server := { s.server with status := .running } }, [.access])
  | .didStart, .tick => some ({ s with pc := .head }, [.access])
  | .head, .tick =>
    some ({ s with pc := if s.server.status ≠ .shouldTerminate then .listen else .setIdle }, [.access])
  | .listen, .tick =>
    match s.server.sock with
    | none   => none
    | some _ => some ({ s with pc := .checkTerminate }, [.access])
  | .checkTerminate, .tick =>
    some ({ s with pc := if s.server.status = .shouldTerminate then .setIdle else .checkSuspend }, [.access])
  | .checkSuspend, .tick =>
    some ({ s with pc := if s.server.status = .suspend then .head else .checkGuests }, [.access])
  | .checkGuests, .tick =>
    some ({ s with pc := if s.server.maxGuest ≤ IntT.toSizeT s.count then .head else .incCount }, [.access])
  | .incCount, .tick => some ({ s with pc := .callAccept, count := s.count + 1 }, [])
  | .callAccept, .tick =>
    match s.server.sock with
    | none   => none
    | some _ => some ({ s with pc := .accept }, [.access])
  | .accept, .accept r =>
    match r with
    | none    => some ({ s with pc := .acceptFailed }, [])
    | some fd => some ({ s with pc := .shouldConnect, sock := { sockfd := fd, domain := .unspec } }, [])
  | .acceptFailed, .tick =>
    -- the handler is called without a test for `NULL`
    if s.server.handlers.errHandler then
      some ({ s with pc := .head }, [.access, .errHandler sxErrorSysAccept])
    else none
  | .shouldConnect, .tick =>
    if s.server.shouldConnect then none else some ({ s with pc := .dispatch }, [.access])
  | .shouldConnect, .answer yes =>
    if s.server.shouldConnect then
      if yes then some ({ s with pc := .dispatch }, [.access])
      else some ({ s with pc := .head }, [.access, .refused])
    else none
  | .dispatch, .tick =>
    some ({ s with pc := .head, conns := s.conns ++ [Conn.start s.sock] }, [.dispatched])
  | .setIdle, .tick =>
    some ({ s with pc := .release, server := { s.server with status := .idle } }, [.access])
  | .release, .tick =>
    match sxReleaseServer calls s.server with
    | none                 => none
    | some (server, freed) => some ({ s with pc := .didKill, server := server }, .access :: freedIf freed)
  | .didKill, .tick => some ({ s with pc := .done }, [.access])
  | _, _ => none

/-- What the events of a connection do to what is shared; the flag tells whether the server was deallocated. -/
def Sys.share (calls : SocketCalls) (s : Sys) : List ConnEvent → Option (Sys × Bool)
  | [.retainServer]  => some ({ s with server := { s.server with obj := sxRetain s.server.obj } }, false)
  | [.releaseServer] =>
    match sxReleaseServer calls s.server with
    | none                 => none
    | some (server, freed) => some ({ s with server := server }, freed)
  | [.decCount]      => some ({ s with count := s.count - 1 }, false)
  | _                => some (s, false)

/-- One step of a started server. -/
def sysStep (calls : SocketCalls) (s : Sys) : SysAct → Option (Sys × List SysEvent)
  | .owner =>
    if s.owner then
      match sxReleaseServer calls s.server with
      | none                 => none
      | some (server, freed) => some ({ s with owner := false, server := server }, freedIf freed)
    else none
  | .loop i => loopStep calls s i
  | .conn k i =>
    match s.conns[k]? with
    | none   => none
    | some c =>
      match connSysStep s.server c (.block s.server.status i) with
      | none          => none
      | some (c', es) =>
        match s.share calls es with
        | none             => none
        | some (s', freed) =>
          some ({ s' with conns := s.conns.set k c' }, es.map (.conn k) ++ freedIf freed)
  | .setStatus st => some ({ s with server := { s.server with status := st } }, [])
  | .queue k a =>
    match s.conns[k]? with
    | none   => none
    | some c =>
      if a.ByOther then
        match connSysStep s.server c a with
        | none          => none
        | some (c', es) => some ({ s with conns := s.conns.set k c' }, es.map (.conn k))
      else none

/-- `SXServerStart`: the error code, and the system at its return. The flags tell whether the two policies are
    given. -/
def sxServerStart (server : Option Server) (preprocessQueue operatingQueue : Bool) :
    Option (SXError × Option Sys) :=
  match server with
  | none        => some (sxErrorInvalidServer, none)
  | some server =>
    if !preprocessQueue then some (sxErrorCreateThread, none)
    else if !operatingQueue then some (sxErrorCreateThread, none)
    else
      match server.sock with
      | none      => none
      | some sock =>
        if sock.type = .dgram then some (sxErrorServerCannotBeDgram, none)
        else some (sxSuccess, some { server := { server with obj := sxRetain server.obj } })

/-- What a successful `SXServerStart` starts from. -/
theorem sxServerStart_spec {server : Server} {preprocessQueue operatingQueue : Bool} {s : Sys}
    (h : sxServerStart (some server) preprocessQueue operatingQueue = some (sxSuccess, some s)) :
    s = { server := { server with obj := sxRetain server.obj } } := by
  simp only [sxServerStart] at h
  split at h
  · cases h
  split at h
  · cases h
  split at h
  · cases h
  split at h
  · cases h
  · cases h
    rfl

/-! ## What a step of the loop does -/

/-- The loop has its own reference to the server. -/
def LoopPc.Holds : LoopPc → Bool
  | .didKill | .done => false
  | _ => true

/-- The loop has raised the count for a connection it has not dispatched yet. -/
def LoopPc.HasSlot : LoopPc → Bool
  | .callAccept | .accept | .acceptFailed | .shouldConnect | .dispatch => true
  | _ => false

/-- What one step of the accept loop can do. `touch` stands for the steps that move on and at most read the
    server or write its status; one that writes none is written with the status the server has. -/
inductive LoopMove (calls : SocketCalls) (s : Sys) : Sys → List SysEvent → Prop
  | touch (pc' : LoopPc) (st : Status) (es : List SysEvent)
      (hholds : s.pc.Holds = true ∧ pc'.Holds = true) (hslot : pc'.HasSlot = s.pc.HasSlot)
      (hinc : pc' ≠ .incCount) (hes : es = [.access] ∨ es = []) :
      LoopMove calls s { s with pc := pc', server := { s.server with status := st } } es
  | enter (hpc : s.pc = .checkGuests) (hlt : IntT.toSizeT s.count < s.server.maxGuest) :
      LoopMove calls s { s with pc := .incCount } [.access]
  | inc (hpc : s.pc = .incCount) : LoopMove calls s { s with pc := .callAccept, count := s.count + 1 } []
  | accepted (hpc : s.pc = .accept) (fd : IntT) :
      LoopMove calls s { s with pc := .shouldConnect, sock := { sockfd := fd, domain := .unspec } } []
  | failed (hpc : s.pc = .acceptFailed) :
      LoopMove calls s { s with pc := .head } [.access, .errHandler sxErrorSysAccept]
  | refused (hpc : s.pc = .shouldConnect) : LoopMove calls s { s with pc := .head } [.access, .refused]
  | dispatch (hpc : s.pc = .dispatch) :
      LoopMove calls s { s with pc := .head, conns := s.conns ++ [Conn.start s.sock] } [.dispatched]
  | release (hpc : s.pc = .release) (server' : Server) (freed : Bool)
      (hrel : sxReleaseServer calls s.server = some (server', freed)) :
      LoopMove calls s { s with pc := .didKill, server := server' } (.access :: freedIf freed)
  | didKill (hpc : s.pc = .didKill) : LoopMove calls s { s with pc := .done } [.access]

/-- **Every step of the loop is a move.** -/
theorem loopStep_move {calls : SocketCalls} {s s' : Sys} {i : LoopInput} {es : List SysEvent}
    (h : loopStep calls s i = some (s', es)) : LoopMove calls s s' es := by
  have htouch {pc' : LoopPc} {st : Status} {es : List SysEvent} {pc : LoopPc} (hpc : s.pc = pc)
      (hholds : pc.Holds = true ∧ pc'.Holds = true) (hslot : pc'.HasSlot = pc.HasSlot) (hinc : pc' ≠ .incCount)
      (hes : es = [.access] ∨ es = []) :
      LoopMove calls s { s with pc := pc', server := { s.server with status := st } } es := by
    subst hpc
    exact .touch pc' st es hholds hslot hinc hes
  cases hpc : s.pc <;> cases i <;> simp only [loopStep, hpc, reduceCtorEq] at h
  case setRunning.tick | didStart.tick | setIdle.tick =>
    cases h
    exact htouch hpc ⟨rfl, rfl⟩ rfl (by simp) (.inl rfl)
  case head.tick | checkTerminate.tick | checkSuspend.tick =>
    cases h
    exact htouch hpc ⟨rfl, by split <;> rfl⟩ (by split <;> rfl) (by split <;> simp) (.inl rfl)
  case listen.tick | callAccept.tick =>
    split at h
    · cases h
    · cases h
      exact htouch hpc ⟨rfl, rfl⟩ rfl (by simp) (.inl rfl)
  case checkGuests.tick =>
    by_cases hle : s.server.maxGuest ≤ IntT.toSizeT s.count
    · rw [if_pos hle] at h
      cases h
      exact htouch hpc ⟨rfl, rfl⟩ rfl (by simp) (.inl rfl)
    · rw [if_neg hle] at h
      cases h
      exact .enter hpc (BitVec.not_le.mp hle)
  case incCount.tick =>
    cases h
    exact .inc hpc
  case accept.accept r =>
    cases r with
    | none =>
      cases h
      exact htouch hpc ⟨rfl, rfl⟩ rfl (by simp) (.inr rfl)
    | some fd =>
      cases h
      exact .accepted hpc fd
  case acceptFailed.tick =>
    split at h
    · cases h
      exact .failed hpc
    · cases h
  case shouldConnect.tick =>
    split at h
    · cases h
    · cases h
      exact htouch hpc ⟨rfl, rfl⟩ rfl (by simp) (.inl rfl)
  case shouldConnect.answer yes =>
    split at h
    · split at h
      · cases h
        exact htouch hpc ⟨rfl, rfl⟩ rfl (by simp) (.inl rfl)
      · cases h
        exact .refused hpc
    · cases h
  case dispatch.tick =>
    cases h
    exact .dispatch hpc
  case release.tick =>
    split at h
    · cases h
    · rename_i server freed hrel
      cases h
      exact .release hpc server freed hrel
  case didKill.tick =>
    cases h
    exact .didKill hpc

/-! ## What a step of a connection does -/

/-- What a step of connection `k` does to the system: it takes its reference, gives it back, leaves, or does
    nothing to what is shared. -/
inductive ConnShare (calls : SocketCalls) (s : Sys) (k : Nat) (c : Conn) : Sys → List SysEvent → Prop
  | take (c' : Conn) (hpc : c.pc = .retain) (hpc' : c'.pc = .didConnect) : ConnShare calls s k c
      { s with
        server := { s.server with obj := sxRetain s.server.obj }
        conns  := s.conns.set k c' } [.conn k .retainServer]
  | giveBack (c' : Conn) (hpc : c.pc = .releaseServer) (hpc' : c'.pc = .releaseQueue) (server' : Server)
      (freed : Bool) (hrel : sxReleaseServer calls s.server = some (server', freed)) : ConnShare calls s k c
      { s with server := server', conns := s.conns.set k c' } (.conn k .releaseServer :: freedIf freed)
  | leave (c' : Conn) (hpc : c.pc = .decCount) (hpc' : c'.pc = .done) : ConnShare calls s k c
      { s with count := s.count - 1, conns := s.conns.set k c' } [.conn k .decCount]
  | stay (c' : Conn) (es : List ConnEvent) (hphase : c'.pc.phase = c.pc.phase) (hgone : c.pc.phase ≠ .gone)
      (hexit : c.pc.phase = .exiting → ∀ e ∈ es, e.AccessesServer = false) :
      ConnShare calls s k c { s with conns := s.conns.set k c' } (es.map (.conn k))

/-- A step of connection `k` is a step of its block on the server as it is; it changes no other
    connection. -/
theorem sysStep_conn {calls : SocketCalls} {s s' : Sys} {k : Nat} {i : Input} {es : List SysEvent}
    (h : sysStep calls s (.conn k i) = some (s', es)) :
    ∃ c c' ces freed, s.conns[k]? = some c ∧ connStep s.server c i = some (c', ces) ∧
      s'.conns = s.conns.set k c' ∧ es = ces.map (.conn k) ++ freedIf freed := by
  simp only [sysStep] at h
  split at h
  · cases h
  rename_i c hc
  split at h
  · cases h
  rename_i c' ces hstep
  split at h
  · cases h
  rename_i s'' freed _
  cases h
  exact ⟨c, c', ces, freed, hc, hstep, rfl, rfl⟩

/-- A request on the queue of connection `k` is one step of that connection among other parties. -/
theorem sysStep_queue {calls : SocketCalls} {s s' : Sys} {k : Nat} {a : ConnAct} {es : List SysEvent}
    (h : sysStep calls s (.queue k a) = some (s', es)) :
    ∃ c c' ces, s.conns[k]? = some c ∧ a.ByOther = true ∧ connSysStep s.server c a = some (c', ces) ∧
      s' = { s with conns := s.conns.set k c' } ∧ es = ces.map (.conn k) := by
  simp only [sysStep] at h
  split at h
  · cases h
  rename_i c hc
  split at h
  · rename_i hother
    split at h
    · cases h
    rename_i c' ces hstep
    cases h
    exact ⟨c, c', ces, hc, hother, hstep, rfl, rfl⟩
  · cases h

/-- **Every step of a connection shares so.** -/
theorem conn_share {calls : SocketCalls} {s s' : Sys} {k : Nat} {i : Input} {es : List SysEvent}
    (h : sysStep calls s (.conn k i) = some (s', es)) :
    ∃ c, s.conns[k]? = some c ∧ ConnShare calls s k c s' es := by
  simp only [sysStep] at h
  split at h
  · cases h
  rename_i c hc
  refine ⟨c, hc, ?_⟩
  split at h
  · cases h
  rename_i c' ces hstep
  cases (connStep_move hstep).role with
  | take hpc hpc' hes =>
      subst hes
      cases h
      exact .take c' hpc hpc'
  | giveBack hpc hpc' hes =>
      subst hes
      simp only [Sys.share] at h
      split at h
      · cases h
      · rename_i hshare
        split at hshare
        · cases hshare
        · rename_i hrel
          cases hshare
          cases h
          exact .giveBack c' hpc hpc' _ _ hrel
  | leave hpc hpc' hes =>
      subst hes
      cases h
      exact .leave c' hpc hpc'
  | stay hphase hgone hes hexit =>
      have hshare : s.share calls ces = some (s, false) := by
        unfold Sys.share
        split <;> simp_all
      rw [hshare] at h
      cases h
      simpa [freedIf] using ConnShare.stay c' ces hphase hgone hexit

/-- What somebody does to the queue of a connection leaves its phase and everything shared alone. -/
theorem queue_share {calls : SocketCalls} {s s' : Sys} {k : Nat} {a : ConnAct} {es : List SysEvent}
    (h : sysStep calls s (.queue k a) = some (s', es)) :
    ∃ c q e, s.conns[k]? = some c ∧ s' = { s with conns := s.conns.set k { c with queue := q } } ∧
      es = [.conn k e] ∧ e.AccessesServer = false := by
  obtain ⟨c, c', ces, hc, hother, hstep, rfl, rfl⟩ := sysStep_queue h
  obtain ⟨_, st, e, rfl, rfl, he⟩ := connSysStep_other hother hstep
  refine ⟨c, _, e, hc, rfl, rfl, ?_⟩
  cases e <;> first | rfl | cases he

end SpartanX
