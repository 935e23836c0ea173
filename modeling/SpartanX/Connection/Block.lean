import SpartanX.Lib.Machine
import SpartanX.Queue
import SpartanX.Server

/-!
# `Connection.Block` — the block `SXServerStart` dispatches for one connection

The block is a state machine over its program points (`ConnPc`): one step executes the statement it stands
at, up to at most one access to memory that other parties can change, so every interleaving of the block
with other parties is an interleaving of steps. A step reads the fields of the server as they are at that
moment and takes from outside what the statement gets from outside (`Input`).

## Contents
- **State.** `ConnPc`, `Conn`, `Input`, `ConnEvent`.
- **Step.** `connStep`, the statements in source order, and `ConnMove`, the same as one case per outcome
  (`connStep_move`): proofs about the block go by cases on a move.
- **The block among other parties.** `ConnAct`, `connSysStep`: steps of the block under any server status,
  requests on its queue and writes to the queue's status; `connSysStep_other` says what another party does.
- **What a step means for the server.** `ConnPhase`, `ConnRole` (`ConnMove.role`).
-/

namespace SpartanX

open CInt

/-- `sx_byte`. -/
abbrev Byte := UInt8

/-! ## State -/

/-- The statement a connection block executes next. -/
inductive ConnPc
  | create             -- SXCreateQueue; queue->status = sx_status_running
  | transfer           -- transfer_fn, six times
  | retain             -- SXRetain(server)
  | didConnect
  | alloc              -- buf = sx_calloc(server->dataSize, ..)
  | clear              -- do { memset(buf, 0, ..)
  | compare            -- if (server->status != sx_status_running)
  | copy               -- queue->status = server->status
  | branch             -- switch (queue->status)
  | callRecv           -- case running: the call of recv
  | recv               -- .. and its return
  | handle
  | setRunning         -- case resuming: queue->status = sx_status_running
  | didResume
  | willSuspend        -- case suspend: if (!suspended) willSuspend; suspended = true
  | callRecvSuspended
  | recvSuspended
  | reread             -- the inner switch (queue->status)
  | handleSuspended
  | willKill           -- case should_terminate, idle
  | test               -- while (s > 0)
  | close              -- exit: close(socket.sockfd)
  | didDisconnect
  | releaseServer
  | releaseQueue
  | decCount           -- --count
  | done
  deriving DecidableEq, Repr

/-- The state of a connection block: the locals of the block, the captured `sock`, its copy `socket`, and the
    queue object. `want` is the length argument of a pending `recv`. -/
structure Conn where
  pc        : ConnPc    := .create
  s         : SizeT     := 0
  len       : SizeT     := 0
  want      : SizeT     := 0
  suspended : Bool      := false
  buf       : List Byte := []
  sock      : Socket    := {}
  socket    : Socket    := {}
  queue     : Queue     := {}
  deriving DecidableEq, Repr

/-- What a step gets from outside: nothing, the return of `recv` (`none` for `-1`), or the return of the data
    handler together with what the handler left in the buffer. -/
inductive Input
  | tick
  | recv (r : Option (List Byte))
  | handler (ret : SizeT) (buf : List Byte)
  deriving DecidableEq, Repr

/-- What can be observed of a connection. `accessServer` stands for a read of a field of the server by the
    block, `compareStatus` and `copyStatus` for the reads of its status with the value read; the last three
    are the doing of other parties. -/
inductive ConnEvent
  | accessServer
  | compareStatus (st : Status)
  | copyStatus (st : Status)
  | createQueue
  | retainServer
  | releaseServer
  | didConnect
  | didDisconnect
  | willSuspend
  | didResume
  | willKill
  | allocBuf
  | iterate
  | branch (st : Status)
  | recv (st : Status) (r : Option (List Byte))
  | reread (st : Status)
  | dataHandler (buf : List Byte) (len ret : SizeT)
  | close (fd : IntT)
  | releaseQueue (freed : Bool)
  | decCount
  | suspendQueue (err : SXError)
  | resumeQueue (err : SXError)
  | setQueueStatus (st : Status)
  deriving DecidableEq, Repr

/-! ## Step -/

/-- The value of the variable that a `recv` result is assigned to. -/
def recvValue : Option (List Byte) → SizeT
  | none    => minusOne
  | some bs => BitVec.ofNat 64 bs.length

/-- The buffer after a `recv` into it. -/
def recvInto (buf : List Byte) : Option (List Byte) → List Byte
  | none    => buf
  | some bs => bs ++ buf.drop bs.length

/-- What `recv` may return for a length argument: `-1`, or at most that many bytes, their number a
    `ssize_t`. -/
def recvOk (want : SizeT) : Option (List Byte) → Bool
  | none    => true
  | some bs => bs.length ≤ want.toNat && bs.length < 9223372036854775808

/-- The event of a handler call, if the handler is set. -/
def callIf (isSet : Bool) (e : ConnEvent) : List ConnEvent := if isSet then [e] else []

/-- What holds of the call holds of all its events. -/
theorem forall_mem_callIf {P : ConnEvent → Prop} {e : ConnEvent} (h : P e) (isSet : Bool) :
    ∀ e' ∈ callIf isSet e, P e' := by
  intro e' he
  cases isSet with
  | false => cases he
  | true => rwa [List.mem_singleton.mp he]

/-- The case label `switch (queue->status)` jumps to. -/
def branchTarget : Status → ConnPc
  | .running         => .callRecv
  | .resuming        => .setRunning
  | .suspend         => .willSuspend
  | .shouldTerminate => .willKill
  | .idle            => .willKill
  | _                => .test

/-- The case label the inner `switch (queue->status)` of the suspend branch jumps to. -/
def rereadTarget : Status → ConnPc
  | .shouldTerminate => .close
  | .idle            => .close
  | .resuming        => .handleSuspended
  | .running         => .handleSuspended
  | _                => .test

/-- One step of a connection block, when the fields of the server are `srv`. -/
def connStep (srv : Server) (c : Conn) (i : Input) : Option (Conn × List ConnEvent) :=
  match c.pc, i with
  | .create, .tick =>
    match sxCreateQueue (some c.sock) with
    | none               => none
    | some (queue, sock) =>
      some ({ c with
        pc     := .transfer
        s      := 1
        socket := { c.sock with obj := { c.sock.obj with refCount := sxWeakObject } }
        sock   := sock
        queue  := { queue with status := .running } }, [.createQueue])
  | .transfer, .tick =>
    some ({ c with
      pc    := .retain
      queue := { c.queue with
        handlers := { srv.handlers with errHandler := c.queue.handlers.errHandler } } }, [.accessServer])
  | .retain, .tick => some ({ c with pc := .didConnect, suspended := false }, [.retainServer])
  | .didConnect, .tick => some ({ c with pc := .alloc }, callIf c.queue.handlers.didConnect .didConnect)
  | .alloc, .tick =>
    some ({ c with pc := .clear, buf := List.replicate srv.dataSize.toNat 0 }, [.accessServer, .allocBuf])
  | .clear, .tick =>
    some ({ c with
      pc  := .compare
      buf := List.replicate srv.dataSize.toNat 0 ++ c.buf.drop srv.dataSize.toNat }, [.accessServer, .iterate])
  | .compare, .tick =>
    some ({ c with pc := if srv.status ≠ .running then .copy else .branch }, [.compareStatus srv.status])
  | .copy, .tick =>
    some ({ c with pc := .branch, queue := { c.queue with status := srv.status } },
      [.copyStatus srv.status])
  | .branch, .tick =>
    some ({ c with pc := branchTarget c.queue.status }, [.branch c.queue.status])
  -- case sx_status_running
  | .callRecv, .tick => some ({ c with pc := .recv, want := srv.dataSize }, [.accessServer])
  | .recv, .recv r =>
    if recvOk c.want r then
      some ({ c with
        pc  := if recvValue r = minusOne then .close else .handle
        s   := recvValue r
        buf := recvInto c.buf r }, [.recv .running r])
    else none
  | .handle, .handler ret buf =>
    -- the handler is called without a test for `NULL`
    if c.queue.handlers.dataHandler && buf.length == c.buf.length then
      some ({ c with pc := .test, s := ret, buf := buf }, [.dataHandler c.buf c.s ret])
    else none
  -- case sx_status_resuming
  | .setRunning, .tick =>
    some ({ c with pc := .didResume, queue := { c.queue with status := .running } }, [])
  | .didResume, .tick => some ({ c with pc := .test }, callIf c.queue.handlers.didResume .didResume)
  -- case sx_status_suspend
  | .willSuspend, .tick =>
    some ({ c with pc := .callRecvSuspended, suspended := true },
      callIf (!c.suspended && c.queue.handlers.willSuspend) .willSuspend)
  | .callRecvSuspended, .tick =>
    some ({ c with pc := .recvSuspended, want := srv.dataSize }, [.accessServer])
  | .recvSuspended, .recv r =>
    if recvOk c.want r then
      some ({ c with
        pc  := if recvValue r = 0 ∨ recvValue r = minusOne then .close else .reread
        len := recvValue r
        buf := recvInto c.buf r }, [.recv .suspend r])
    else none
  | .reread, .tick => some ({ c with pc := rereadTarget c.queue.status }, [.reread c.queue.status])
  | .handleSuspended, .handler ret buf =>
    if c.queue.handlers.dataHandler && buf.length == c.buf.length then
      some ({ c with pc := .test, s := ret, buf := buf }, [.dataHandler c.buf c.len ret])
    else none
  -- case sx_status_should_terminate, sx_status_idle
  | .willKill, .tick => some ({ c with pc := .close }, callIf c.queue.handlers.willKill .willKill)
  | .test, .tick => some ({ c with pc := if c.s > 0 then .clear else .close }, [])
  -- exit:
  | .close, .tick => some ({ c with pc := .didDisconnect }, [.close c.socket.sockfd])
  | .didDisconnect, .tick =>
    some ({ c with pc := .releaseServer }, callIf c.queue.handlers.didDisconnect .didDisconnect)
  | .releaseServer, .tick => some ({ c with pc := .releaseQueue }, [.releaseServer])
  | .releaseQueue, .tick =>
    let r := sxRelease c.queue.obj
    some ({ c with pc := .decCount, queue := { c.queue with obj := r.1 } }, [.releaseQueue r.2])
  | .decCount, .tick => some ({ c with pc := .done }, [.decCount])
  | _, _ => none

/-! ## The moves of a block, one case per outcome -/

/-- Whether the switch leaves the loop for `willKill` at this status. -/
def Status.Ends (st : Status) : Prop := st = .shouldTerminate ∨ st = .idle

/-- Whether the suspend branch delivers a message that found this status after its `recv`. -/
def Status.Delivers (st : Status) : Prop := st = .resuming ∨ st = .running

instance (st : Status) : Decidable st.Ends := inferInstanceAs (Decidable (_ ∨ _))
instance (st : Status) : Decidable st.Delivers := inferInstanceAs (Decidable (_ ∨ _))

/-- What one step of a connection block can do. -/
inductive ConnMove (srv : Server) (c : Conn) : Input → Conn → List ConnEvent → Prop
  | create (h : c.pc = .create) : ConnMove srv c .tick
      { c with
        pc     := .transfer
        s      := 1
        socket := { c.sock with obj := { c.sock.obj with refCount := sxWeakObject } }
        sock   := { c.sock with obj := sxObjInit c.sock.obj .freeQueue }
        queue  := { status := .running } } [.createQueue]
  | transfer (h : c.pc = .transfer) : ConnMove srv c .tick
      { c with
        pc    := .retain
        queue := { c.queue with
          handlers := { srv.handlers with errHandler := c.queue.handlers.errHandler } } } [.accessServer]
  | retain (h : c.pc = .retain) :
      ConnMove srv c .tick { c with pc := .didConnect, suspended := false } [.retainServer]
  | didConnect (h : c.pc = .didConnect) :
      ConnMove srv c .tick { c with pc := .alloc } (callIf c.queue.handlers.didConnect .didConnect)
  | alloc (h : c.pc = .alloc) : ConnMove srv c .tick
      { c with pc := .clear, buf := List.replicate srv.dataSize.toNat 0 } [.accessServer, .allocBuf]
  | clear (h : c.pc = .clear) : ConnMove srv c .tick
      { c with
        pc  := .compare
        buf := List.replicate srv.dataSize.toNat 0 ++ c.buf.drop srv.dataSize.toNat }
      [.accessServer, .iterate]
  | compareRunning (h : c.pc = .compare) (hs : srv.status = .running) :
      ConnMove srv c .tick { c with pc := .branch } [.compareStatus srv.status]
  | compareOther (h : c.pc = .compare) (hs : srv.status ≠ .running) :
      ConnMove srv c .tick { c with pc := .copy } [.compareStatus srv.status]
  | copy (h : c.pc = .copy) : ConnMove srv c .tick
      { c with pc := .branch, queue := { c.queue with status := srv.status } } [.copyStatus srv.status]
  | branchRunning (h : c.pc = .branch) (hs : c.queue.status = .running) :
      ConnMove srv c .tick { c with pc := .callRecv } [.branch .running]
  | branchResuming (h : c.pc = .branch) (hs : c.queue.status = .resuming) :
      ConnMove srv c .tick { c with pc := .setRunning } [.branch .resuming]
  | branchSuspend (h : c.pc = .branch) (hs : c.queue.status = .suspend) :
      ConnMove srv c .tick { c with pc := .willSuspend } [.branch .suspend]
  | branchEnds (h : c.pc = .branch) (hs : c.queue.status.Ends) :
      ConnMove srv c .tick { c with pc := .willKill } [.branch c.queue.status]
  | branchDefault (h : c.pc = .branch) (hs : ¬ c.queue.status.Ends) (hd : ¬ c.queue.status.Delivers)
      (hsus : c.queue.status ≠ .suspend) :
      ConnMove srv c .tick { c with pc := .test } [.branch c.queue.status]
  | callRecv (h : c.pc = .callRecv) :
      ConnMove srv c .tick { c with pc := .recv, want := srv.dataSize } [.accessServer]
  | recvFails (h : c.pc = .recv) : ConnMove srv c (.recv none)
      { c with pc := .close, s := minusOne } [.recv .running none]
  | recv (h : c.pc = .recv) (bs : List Byte) (hok : recvOk c.want (some bs) = true) :
      ConnMove srv c (.recv (some bs))
      { c with pc := .handle, s := BitVec.ofNat 64 bs.length, buf := bs ++ c.buf.drop bs.length }
      [.recv .running (some bs)]
  | handle (h : c.pc = .handle) (ret : SizeT) (buf : List Byte)
      (hset : c.queue.handlers.dataHandler = true) (hlen : buf.length = c.buf.length) :
      ConnMove srv c (.handler ret buf) { c with pc := .test, s := ret, buf := buf }
      [.dataHandler c.buf c.s ret]
  | setRunning (h : c.pc = .setRunning) : ConnMove srv c .tick
      { c with pc := .didResume, queue := { c.queue with status := .running } } []
  | didResume (h : c.pc = .didResume) :
      ConnMove srv c .tick { c with pc := .test } (callIf c.queue.handlers.didResume .didResume)
  | willSuspend (h : c.pc = .willSuspend) : ConnMove srv c .tick
      { c with pc := .callRecvSuspended, suspended := true }
      (callIf (!c.suspended && c.queue.handlers.willSuspend) .willSuspend)
  | callRecvSuspended (h : c.pc = .callRecvSuspended) :
      ConnMove srv c .tick { c with pc := .recvSuspended, want := srv.dataSize } [.accessServer]
  | recvSuspendedFails (h : c.pc = .recvSuspended) : ConnMove srv c (.recv none)
      { c with pc := .close, len := minusOne } [.recv .suspend none]
  | recvSuspendedEmpty (h : c.pc = .recvSuspended) : ConnMove srv c (.recv (some []))
      { c with pc := .close, len := 0 } [.recv .suspend (some [])]
  | recvSuspended (h : c.pc = .recvSuspended) (bs : List Byte) (hok : recvOk c.want (some bs) = true)
      (hne : bs ≠ []) : ConnMove srv c (.recv (some bs))
      { c with pc := .reread, len := BitVec.ofNat 64 bs.length, buf := bs ++ c.buf.drop bs.length }
      [.recv .suspend (some bs)]
  | rereadEnds (h : c.pc = .reread) (hs : c.queue.status.Ends) :
      ConnMove srv c .tick { c with pc := .close } [.reread c.queue.status]
  | rereadDelivers (h : c.pc = .reread) (hs : c.queue.status.Delivers) :
      ConnMove srv c .tick { c with pc := .handleSuspended } [.reread c.queue.status]
  | rereadSkips (h : c.pc = .reread) (hs : ¬ c.queue.status.Ends) (hd : ¬ c.queue.status.Delivers) :
      ConnMove srv c .tick { c with pc := .test } [.reread c.queue.status]
  | handleSuspended (h : c.pc = .handleSuspended) (ret : SizeT) (buf : List Byte)
      (hset : c.queue.handlers.dataHandler = true) (hlen : buf.length = c.buf.length) :
      ConnMove srv c (.handler ret buf) { c with pc := .test, s := ret, buf := buf }
      [.dataHandler c.buf c.len ret]
  | willKill (h : c.pc = .willKill) :
      ConnMove srv c .tick { c with pc := .close } (callIf c.queue.handlers.willKill .willKill)
  | testKeeps (h : c.pc = .test) (hs : c.s ≠ 0) : ConnMove srv c .tick { c with pc := .clear } []
  | testEnds (h : c.pc = .test) (hs : c.s = 0) : ConnMove srv c .tick { c with pc := .close } []
  | close (h : c.pc = .close) :
      ConnMove srv c .tick { c with pc := .didDisconnect } [.close c.socket.sockfd]
  | didDisconnect (h : c.pc = .didDisconnect) : ConnMove srv c .tick
      { c with pc := .releaseServer } (callIf c.queue.handlers.didDisconnect .didDisconnect)
  | releaseServer (h : c.pc = .releaseServer) :
      ConnMove srv c .tick { c with pc := .releaseQueue } [.releaseServer]
  | releaseQueue (h : c.pc = .releaseQueue) : ConnMove srv c .tick
      { c with pc := .decCount, queue := { c.queue with obj := (sxRelease c.queue.obj).1 } }
      [.releaseQueue (sxRelease c.queue.obj).2]
  | decCount (h : c.pc = .decCount) : ConnMove srv c .tick { c with pc := .done } [.decCount]

theorem branchTarget_ends {st : Status} (h : st.Ends) : branchTarget st = .willKill := by
  rcases h with rfl | rfl <;> rfl

theorem branchTarget_default {st : Status} (he : ¬ st.Ends) (hd : ¬ st.Delivers) (hs : st ≠ .suspend) :
    branchTarget st = .test := by
  cases st <;> simp_all [Status.Ends, Status.Delivers, branchTarget]

theorem rereadTarget_ends {st : Status} (h : st.Ends) : rereadTarget st = .close := by
  rcases h with rfl | rfl <;> rfl

theorem rereadTarget_delivers {st : Status} (h : st.Delivers) : rereadTarget st = .handleSuspended := by
  rcases h with rfl | rfl <;> rfl

theorem rereadTarget_default {st : Status} (he : ¬ st.Ends) (hd : ¬ st.Delivers) :
    rereadTarget st = .test := by
  cases st <;> simp_all [Status.Ends, Status.Delivers, rereadTarget]

/-- A `recv` that returned bytes did not return `-1`: their number is a `ssize_t`. -/
theorem recvValue_ne_minusOne {want : SizeT} {bs : List Byte} (h : recvOk want (some bs) = true) :
    recvValue (some bs) ≠ minusOne := by
  simp only [recvOk, Bool.and_eq_true, decide_eq_true_eq] at h
  exact ofNat_ne_minusOne (by omega)

/-- The number of received bytes survives as a `size_t`. -/
theorem toNat_recvValue {want : SizeT} {bs : List Byte} (h : recvOk want (some bs) = true) :
    (recvValue (some bs)).toNat = bs.length := by
  simp only [recvOk, Bool.and_eq_true, decide_eq_true_eq] at h
  exact toNat_ofNat_of_lt (by omega)

/-- A `recv` that returned bytes did not return `0`. -/
theorem recvValue_ne_zero {want : SizeT} {bs : List Byte} (h : recvOk want (some bs) = true) (hne : bs ≠ []) :
    recvValue (some bs) ≠ 0 := by
  intro hz
  have hn := toNat_recvValue h
  rw [hz] at hn
  exact hne (List.length_eq_zero_iff.mp hn.symm)

/-- **Every step is a move.** -/
theorem connStep_move {srv : Server} {c c' : Conn} {i : Input} {es : List ConnEvent}
    (h : connStep srv c i = some (c', es)) : ConnMove srv c i c' es := by
  cases hpc : c.pc <;> cases i <;> simp only [connStep, hpc, reduceCtorEq] at h
  case create.tick => cases h; exact .create hpc
  case transfer.tick => cases h; exact .transfer hpc
  case retain.tick => cases h; exact .retain hpc
  case didConnect.tick => cases h; exact .didConnect hpc
  case alloc.tick => cases h; exact .alloc hpc
  case clear.tick => cases h; exact .clear hpc
  case compare.tick =>
    cases h
    by_cases hs : srv.status = .running
    · simpa [hs] using ConnMove.compareRunning hpc hs
    · simpa [hs] using ConnMove.compareOther hpc hs
  case copy.tick => cases h; exact .copy hpc
  case branch.tick =>
    cases h
    by_cases he : c.queue.status.Ends
    · rw [branchTarget_ends he]; exact .branchEnds hpc he
    · by_cases hd : c.queue.status.Delivers
      · rcases hd with hd | hd <;> rw [hd]
        · exact .branchResuming hpc hd
        · exact .branchRunning hpc hd
      · by_cases hsus : c.queue.status = .suspend
        · rw [hsus]; exact .branchSuspend hpc hsus
        · rw [branchTarget_default he hd hsus]; exact .branchDefault hpc he hd hsus
  case callRecv.tick => cases h; exact .callRecv hpc
  case recv.recv r =>
    split at h
    case isFalse => cases h
    case isTrue hok =>
      cases h
      cases r with
      | none => exact .recvFails hpc
      | some bs => rw [if_neg (recvValue_ne_minusOne hok)]; exact .recv hpc bs hok
  case handle.handler ret buf =>
    split at h
    case isFalse => cases h
    case isTrue hok =>
      cases h
      simp only [Bool.and_eq_true, beq_iff_eq] at hok
      exact .handle hpc ret buf hok.1 hok.2
  case setRunning.tick => cases h; exact .setRunning hpc
  case didResume.tick => cases h; exact .didResume hpc
  case willSuspend.tick => cases h; exact .willSuspend hpc
  case callRecvSuspended.tick => cases h; exact .callRecvSuspended hpc
  case recvSuspended.recv r =>
    split at h
    case isFalse => cases h
    case isTrue hok =>
      cases h
      cases r with
      | none => exact .recvSuspendedFails hpc
      | some bs =>
          by_cases hne : bs = []
          · subst hne; exact .recvSuspendedEmpty hpc
          · rw [if_neg (not_or.mpr ⟨recvValue_ne_zero hok hne, recvValue_ne_minusOne hok⟩)]
            exact .recvSuspended hpc bs hok hne
  case reread.tick =>
    cases h
    by_cases he : c.queue.status.Ends
    · rw [rereadTarget_ends he]; exact .rereadEnds hpc he
    · by_cases hd : c.queue.status.Delivers
      · rw [rereadTarget_delivers hd]; exact .rereadDelivers hpc hd
      · rw [rereadTarget_default he hd]; exact .rereadSkips hpc he hd
  case handleSuspended.handler ret buf =>
    split at h
    case isFalse => cases h
    case isTrue hok =>
      cases h
      simp only [Bool.and_eq_true, beq_iff_eq] at hok
      exact .handleSuspended hpc ret buf hok.1 hok.2
  case willKill.tick => cases h; exact .willKill hpc
  case test.tick =>
    cases h
    by_cases hs : c.s = 0
    · simpa [hs] using ConnMove.testEnds hpc hs
    · have hgt : c.s > 0 := (BitVec.pos_iff_ne_zero c.s).mpr hs
      rw [if_pos hgt]; exact .testKeeps hpc hs
  case close.tick => cases h; exact .close hpc
  case didDisconnect.tick => cases h; exact .didDisconnect hpc
  case releaseServer.tick => cases h; exact .releaseServer hpc
  case releaseQueue.tick => cases h; exact .releaseQueue hpc
  case decCount.tick => cases h; exact .decCount hpc

/-! ## The block among other parties -/

/-- A step of the block while the server has some status, or the doing of another party: a request on the
    queue, or a plain write to its status. -/
inductive ConnAct
  | block (serverStatus : Status) (i : Input)
  | suspend
  | resume
  | setStatus (st : Status)
  deriving DecidableEq, Repr

/-- The doing of a party other than the block. -/
def ConnAct.ByOther : ConnAct → Bool
  | .block .. => false
  | _ => true

/-- One step of a connection among other parties. `srv` gives the fields of the server that do not change;
    other parties know the queue once it exists. -/
def connSysStep (srv : Server) (c : Conn) : ConnAct → Option (Conn × List ConnEvent)
  | .block serverStatus i => connStep { srv with status := serverStatus } c i
  | .suspend              =>
    if c.pc = .create then none
    else some ({ c with queue := c.queue.suspendObject.2 }, [.suspendQueue c.queue.suspendObject.1])
  | .resume               =>
    if c.pc = .create then none
    else some ({ c with queue := c.queue.resumeObject.2 }, [.resumeQueue c.queue.resumeObject.1])
  | .setStatus st         =>
    if c.pc = .create then none
    else some ({ c with queue := { c.queue with status := st } }, [.setQueueStatus st])

/-- The event of a party other than the block. -/
def ConnEvent.FromOther : ConnEvent → Bool
  | .suspendQueue _ | .resumeQueue _ | .setQueueStatus _ => true
  | _ => false

/-- **What another party does**: it changes the status of the queue and leaves its handlers and the block alone,
    and the one event is its own. -/
theorem connSysStep_other {srv : Server} {c c' : Conn} {a : ConnAct} {es : List ConnEvent}
    (ha : a.ByOther = true) (hs : connSysStep srv c a = some (c', es)) :
    c.pc ≠ .create ∧ ∃ st e, c' = { c with queue := { c.queue with status := st } } ∧ es = [e] ∧
      e.FromOther = true := by
  cases a with
  | block st i => cases ha
  | suspend =>
      simp only [connSysStep] at hs
      split at hs
      · cases hs
      · rename_i hpc
        cases hs
        rcases c.queue.suspendObject_spec with ⟨_, h⟩ | ⟨_, _, _, h⟩ <;> rw [h]
        exacts [⟨hpc, _, _, rfl, rfl, rfl⟩, ⟨hpc, c.queue.status, _, rfl, rfl, rfl⟩]
  | resume =>
      simp only [connSysStep] at hs
      split at hs
      · cases hs
      · rename_i hpc
        cases hs
        rcases c.queue.resumeObject_spec with ⟨_, h⟩ | ⟨_, _, _, h⟩ <;> rw [h]
        exacts [⟨hpc, _, _, rfl, rfl, rfl⟩, ⟨hpc, c.queue.status, _, rfl, rfl, rfl⟩]
  | setStatus st =>
      simp only [connSysStep] at hs
      split at hs
      · cases hs
      · rename_i hpc
        cases hs
        exact ⟨hpc, st, _, rfl, rfl, rfl⟩

/-! ## What a step means for the server

A block takes its reference of the server after its dispatch, gives it back in its teardown, and lowers the
count of guests at its end. -/

/-- Where a block stands to the server. -/
inductive ConnPhase
  | pending   -- dispatched, without a reference of its own
  | holding   -- from `SXRetain(server)` to `SXRelease(server)`
  | exiting   -- done with the server, still counted as a guest
  | gone      -- past `--count`
  deriving DecidableEq, Repr

/-- The phase of a program point. -/
def ConnPc.phase : ConnPc → ConnPhase
  | .create | .transfer | .retain => .pending
  | .releaseQueue | .decCount     => .exiting
  | .done                         => .gone
  | _                             => .holding

/-- Whether the event is a read or a write of the server. -/
def ConnEvent.AccessesServer : ConnEvent → Bool
  | .accessServer | .compareStatus _ | .copyStatus _ | .retainServer | .releaseServer => true
  | _ => false

/-- What a step of a block means for the reference count and the guest count: it takes the reference, gives it
    back, leaves, or changes neither. -/
inductive ConnRole (c c' : Conn) (es : List ConnEvent) : Prop
  | take (hpc : c.pc = .retain) (hpc' : c'.pc = .didConnect) (hes : es = [.retainServer])
  | giveBack (hpc : c.pc = .releaseServer) (hpc' : c'.pc = .releaseQueue) (hes : es = [.releaseServer])
  | leave (hpc : c.pc = .decCount) (hpc' : c'.pc = .done) (hes : es = [.decCount])
  | stay (hphase : c'.pc.phase = c.pc.phase) (hgone : c.pc.phase ≠ .gone)
      (hes : es ≠ [.retainServer] ∧ es ≠ [.releaseServer] ∧ es ≠ [.decCount])
      (hexit : c.pc.phase = .exiting → ∀ e ∈ es, e.AccessesServer = false)

theorem callIf_ne {e e' : ConnEvent} (h : e ≠ e') (isSet : Bool) : callIf isSet e ≠ [e'] := by
  cases isSet <;> simp [callIf, h]

/-- Every move has one of the roles. -/
theorem ConnMove.role {srv : Server} {c c' : Conn} {i : Input} {es : List ConnEvent}
    (hm : ConnMove srv c i c' es) : ConnRole c c' es := by
  have hstay (h' : c'.pc.phase = .holding) (h : c.pc.phase = .holding)
      (hes : es ≠ [.retainServer] ∧ es ≠ [.releaseServer] ∧ es ≠ [.decCount]) : ConnRole c c' es :=
    .stay (h'.trans h.symm) (by simp [h]) hes (fun he => by rw [h] at he; cases he)
  cases hm with
  | create hpc | transfer hpc =>
      exact .stay (by rw [hpc]; rfl) (by simp [hpc, ConnPc.phase]) (by simp) (by simp [hpc, ConnPc.phase])
  | retain hpc => exact .take hpc rfl rfl
  | releaseServer hpc => exact .giveBack hpc rfl rfl
  | releaseQueue hpc =>
      exact .stay (by rw [hpc]; rfl) (by simp [hpc, ConnPc.phase]) (by simp) (by simp [ConnEvent.AccessesServer])
  | decCount hpc => exact .leave hpc rfl rfl
  | didConnect hpc | didResume hpc | willSuspend hpc | willKill hpc | didDisconnect hpc =>
      exact hstay rfl (by rw [hpc]; rfl)
        ⟨callIf_ne (by simp) _, callIf_ne (by simp) _, callIf_ne (by simp) _⟩
  | _ hpc => exact hstay rfl (by rw [hpc]; rfl) (by simp)

/-- The block at its dispatch, with the accepted socket it captured. -/
def Conn.start (sock : Socket) : Conn := { sock := sock }

end SpartanX
