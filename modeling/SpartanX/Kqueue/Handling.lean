import SpartanX.Connection.Iteration

/-!
# `Kqueue.Handling` — the handling of one event of a connection in `SXServerStart_kqueue`

The statements the event loop executes for an event of a registered connection, as a state machine over their
program points like the connection block's (`Connection.Block`), and in one go as a function of what they get
from outside (`kqIteration`). The two differ from the connection block where the source does: `s` and
`suspended` are declared anew for every event and not initialised, the handlers are read from the server, the
`suspend` case runs on into the case behind it, and the last test is `s == 0`.

## Contents
- **The machine.** `HandlingPc`, `Handling`, `handlingStep`, `handlingSysStep`.
- **The function.** `kqIteration`, `kqLoop`.
- **The machine makes the function.** `kqIteration_run`.
-/

namespace SpartanX

open CInt

/-! ## The machine -/

/-- The statement the handling of an event executes next. -/
inductive HandlingPc
  | clear              -- buf[server->dataSize]; memset(buf, 0, ..)
  | compare            -- if (server->status != sx_status_running)
  | copy               -- queue->status = server->status
  | branch             -- switch (queue->status)
  | callRecv           -- case running
  | recv
  | handle
  | setRunning         -- case resuming
  | didResume
  | willSuspend        -- case suspend
  | callRecvSuspended
  | recvSuspended
  | reread
  | handleSuspended
  | willKill           -- case should_terminate, idle
  | test               -- if (s == 0)
  | close              -- exit: EV_DELETE, close(queue->sock->sockfd)
  | releaseQueue
  | didDisconnect
  | decCount           -- --count
  | kept               -- continue
  | closed
  deriving DecidableEq, Repr

/-- The state of the handling: its locals, and the queue and the descriptor of the connection. -/
structure Handling where
  pc        : HandlingPc := .clear
  s         : SizeT      := 0
  suspended : Bool       := false
  len       : SizeT      := 0
  want      : SizeT      := 0
  buf       : List Byte  := []
  queue     : Queue      := {}
  sockfd    : IntT       := 0
  deriving DecidableEq, Repr

/-- The case label `switch (queue->status)` jumps to. -/
def handlingTarget : Status → HandlingPc
  | .running         => .callRecv
  | .resuming        => .setRunning
  | .suspend         => .willSuspend
  | .shouldTerminate => .willKill
  | .idle            => .willKill
  | _                => .test

/-- The case label the inner `switch (queue->status)` jumps to; its `default` leaves only the inner `switch`,
    and the case around it runs on into the next one. -/
def handlingRereadTarget : Status → HandlingPc
  | .shouldTerminate => .close
  | .idle            => .close
  | .resuming        => .handleSuspended
  | .running         => .handleSuspended
  | _                => .willKill

/-- One step of the handling of an event, when the fields of the server are `srv`. -/
def handlingStep (srv : Server) (h : Handling) (i : Input) : Option (Handling × List ConnEvent) :=
  match h.pc, i with
  | .clear, .tick =>
    some ({ h with pc := .compare, buf := List.replicate srv.dataSize.toNat 0 }, [.accessServer, .iterate])
  | .compare, .tick =>
    some ({ h with pc := if srv.status ≠ .running then .copy else .branch }, [.compareStatus srv.status])
  | .copy, .tick =>
    some ({ h with pc := .branch, queue := { h.queue with status := srv.status } },
      [.copyStatus srv.status])
  | .branch, .tick =>
    some ({ h with pc := handlingTarget h.queue.status }, [.branch h.queue.status])
  -- case sx_status_running
  | .callRecv, .tick => some ({ h with pc := .recv, want := srv.dataSize }, [.accessServer])
  | .recv, .recv r =>
    if recvOk h.want r then
      some ({ h with
        pc  := if recvValue r ≠ minusOne then .handle else .close
        s   := recvValue r
        buf := recvInto h.buf r }, [.recv .running r])
    else none
  | .handle, .handler ret buf =>
    if srv.handlers.dataHandler && buf.length == h.buf.length then
      some ({ h with pc := if ret = minusOne then .close else .test, s := ret, buf := buf },
        [.accessServer, .dataHandler h.buf h.s ret])
    else none
  -- case sx_status_resuming
  | .setRunning, .tick =>
    some ({ h with pc := .didResume, queue := { h.queue with status := .running } }, [])
  | .didResume, .tick =>
    some ({ h with pc := .test }, .accessServer :: callIf srv.handlers.didResume .didResume)
  -- case sx_status_suspend
  | .willSuspend, .tick =>
    some ({ h with pc := .callRecvSuspended, suspended := true },
      if h.suspended then [] else .accessServer :: callIf srv.handlers.willSuspend .willSuspend)
  | .callRecvSuspended, .tick =>
    some ({ h with pc := .recvSuspended, want := srv.dataSize }, [.accessServer])
  | .recvSuspended, .recv r =>
    if recvOk h.want r then
      some ({ h with
        pc  := if recvValue r = 0 ∨ recvValue r = minusOne then .close else .reread
        len := recvValue r
        buf := recvInto h.buf r }, [.recv .suspend r])
    else none
  | .reread, .tick => some ({ h with pc := handlingRereadTarget h.queue.status }, [.reread h.queue.status])
  | .handleSuspended, .handler ret buf =>
    if srv.handlers.dataHandler && buf.length == h.buf.length then
      some ({ h with pc := .willKill, s := ret, buf := buf },
        [.accessServer, .dataHandler h.buf h.len ret])
    else none
  -- case sx_status_should_terminate, sx_status_idle
  | .willKill, .tick =>
    some ({ h with pc := .close }, .accessServer :: callIf srv.handlers.willKill .willKill)
  | .test, .tick => some ({ h with pc := if h.s = 0 then .close else .kept }, [])
  -- exit:
  | .close, .tick => some ({ h with pc := .releaseQueue }, [.close h.sockfd])
  | .releaseQueue, .tick =>
    let r := sxRelease h.queue.obj
    some ({ h with pc := .didDisconnect, queue := { h.queue with obj := r.1 } }, [.releaseQueue r.2])
  | .didDisconnect, .tick =>
    some ({ h with pc := .decCount }, .accessServer :: callIf srv.handlers.didDisconnect .didDisconnect)
  | .decCount, .tick => some ({ h with pc := .closed }, [.decCount])
  | _, _ => none

/-- One step of the handling of an event among other parties. -/
def handlingSysStep (srv : Server) (h : Handling) : ConnAct → Option (Handling × List ConnEvent)
  | .block serverStatus i => handlingStep { srv with status := serverStatus } h i
  | .suspend              =>
    some ({ h with queue := h.queue.suspendObject.2 }, [.suspendQueue h.queue.suspendObject.1])
  | .resume               =>
    some ({ h with queue := h.queue.resumeObject.2 }, [.resumeQueue h.queue.resumeObject.1])
  | .setStatus st         => some ({ h with queue := { h.queue with status := st } }, [.setQueueStatus st])

/-! ## The function -/

/-- `if (s == 0) goto exit; continue`. -/
def kqTest (s : SizeT) (calls : List ConnEvent) : Outcome Unit := if s = 0 then exit calls else (calls, some ())

/-- The handling of one event, with the values the two uninitialised variables happen to hold. -/
def kqIteration (dataSize s : SizeT) (suspended : Bool) (it : Iteration) : Outcome Unit :=
  let buf := List.replicate dataSize.toNat 0
  match it.switchStatus with
  | .running =>
    let s := recvValue it.recv
    if s ≠ minusOne then
      let calls := [.dataHandler (recvInto buf it.recv) s it.ret]
      if it.ret = minusOne then exit calls else kqTest it.ret calls
    else exit []
  | .resuming => kqTest s [.didResume]
  | .suspend =>
    let calls := callIf (!suspended) .willSuspend
    let len := recvValue it.recv
    if len = 0 ∨ len = minusOne then exit calls
    else
      match it.reread with
      | .shouldTerminate => exit calls
      | .idle            => exit calls
      -- the inner `break` ends in the next case
      | .resuming        => exit (calls ++ [.dataHandler (recvInto buf it.recv) len it.ret, .willKill])
      | .running         => exit (calls ++ [.dataHandler (recvInto buf it.recv) len it.ret, .willKill])
      | _                => exit (calls ++ [.willKill])
  | .shouldTerminate => exit [.willKill]
  | .idle            => exit [.willKill]
  | _                => kqTest s []

/-- The events of a connection, up to the one that closes it; `junk` gives the uninitialised `s` and
    `suspended` of each. -/
def kqLoop (dataSize : SizeT) : (Nat → SizeT × Bool) → List Iteration → List (List ConnEvent × Bool)
  | _,    []        => []
  | junk, it :: its =>
    match kqIteration dataSize (junk 0).1 (junk 0).2 it with
    | (calls, none)   => [(calls, false)]
    | (calls, some _) => (calls, true) :: kqLoop dataSize (fun k => junk (k + 1)) its

/-! ## The machine makes the function -/

section Run

variable {srv : Server} {h : Handling} {it : Iteration}

/-- On the inputs of the iteration the handling makes the calls of the outcome and then keeps the connection, or
    is past the last handler call of the connection. -/
def Handling.Reaches (srv : Server) (it : Iteration) (h : Handling) (out : Outcome Unit) : Prop :=
  Machine.Leads (handlingSysStep srv) it.Gives ConnEvent.IsCall
    (fun h' => h'.pc = if out.2.isSome then .kept else .decCount) h out.1

/-- A step that makes the calls in front of what the handling reaches. -/
theorem Handling.Reaches.step {h' : Handling} {es calls : List ConnEvent} {a : ConnAct} {out : Outcome Unit}
    (hs : handlingSysStep srv h a = some (h', es)) (hgives : es.all it.Gives = true)
    (hes : es.filter ConnEvent.IsCall = calls) (hr : h'.Reaches srv it out) :
    h.Reaches srv it (out.after calls) :=
  Machine.Leads.cons hs hgives hes hr

/-- A step without a call. -/
theorem Handling.Reaches.silent {h' : Handling} {es : List ConnEvent} {a : ConnAct} {out : Outcome Unit}
    (hs : handlingSysStep srv h a = some (h', es)) (hgives : es.all it.Gives = true)
    (hes : es.filter ConnEvent.IsCall = []) (hr : h'.Reaches srv it out) : h.Reaches srv it out :=
  hr.step hs hgives hes

theorem kqTest_after (s : SizeT) (calls : List ConnEvent) : kqTest s calls = (kqTest s []).after calls := by
  unfold kqTest
  split <;> simp [Outcome.after, exit]

/-- From the label `exit`. -/
theorem handling_exit (hset : srv.handlers.AllSet) (hpc : h.pc = .close) : h.Reaches srv it (exit []) := by
  have hclose : handlingSysStep srv h (.block .running .tick) =
      some ({ h with pc := .releaseQueue }, [.close h.sockfd]) := by
    simp [handlingSysStep, handlingStep, hpc]
  have hlast {q : Queue} : handlingSysStep srv { h with pc := .didDisconnect, queue := q }
      (.block .running .tick) =
      some ({ h with pc := .decCount, queue := q }, [.accessServer, .didDisconnect]) := by
    simp [handlingSysStep, handlingStep, callIf, hset.2.2.2.2]
  refine .silent hclose rfl rfl (.silent (a := .block .running .tick) rfl rfl rfl ?_)
  exact Machine.Leads.last hlast rfl rfl rfl

/-- From `willKill`, where the suspend case ends up too. -/
theorem handling_willKill (hset : srv.handlers.AllSet) (hpc : h.pc = .willKill) :
    h.Reaches srv it (exit [.willKill]) := by
  have hkill : handlingSysStep srv h (.block .running .tick) =
      some ({ h with pc := .close }, [.accessServer, .willKill]) := by
    simp [handlingSysStep, handlingStep, hpc, callIf, hset.2.2.2.1]
  show Handling.Reaches srv it h ((exit []).after [.willKill])
  refine .step hkill rfl rfl ?_
  exact handling_exit hset rfl

/-- From the last test. -/
theorem handling_test (hset : srv.handlers.AllSet) (hpc : h.pc = .test) : h.Reaches srv it (kqTest h.s []) := by
  have htest : handlingSysStep srv h (.block .running .tick) =
      some ({ h with pc := if h.s = 0 then .close else .kept }, []) := by
    simp [handlingSysStep, handlingStep, hpc]
  unfold kqTest
  by_cases hs : h.s = 0
  · rw [if_pos hs] at htest ⊢
    refine .silent htest rfl rfl ?_
    exact handling_exit hset rfl
  · rw [if_neg hs] at htest ⊢
    exact Machine.Leads.last htest rfl rfl rfl

/-- The handling at the `switch`. -/
structure Handling.AtSwitch (srv : Server) (s : SizeT) (suspended : Bool) (st : Status) (h : Handling) :
    Prop where
  pc        : h.pc = .branch
  buf       : h.buf = List.replicate srv.dataSize.toNat 0
  status    : h.queue.status = st
  s         : h.s = s
  suspended : h.suspended = suspended

/-- The statements in front of the `switch`. -/
theorem handling_switch {out : Outcome Unit} (hpc : h.pc = .clear)
    (hr : ∀ h' : Handling, h'.AtSwitch srv h.s h.suspended it.switchStatus → h'.Reaches srv it out) :
    h.Reaches srv it out := by
  have hclear : handlingSysStep srv h (.block it.serverStatus .tick) =
      some ({ h with pc := .compare, buf := List.replicate srv.dataSize.toNat 0 },
        [.accessServer, .iterate]) := by
    simp [handlingSysStep, handlingStep, hpc]
  -- whatever was copied, another party leaves the status that the `switch` is to find
  have hleft (q : Queue) : Handling.Reaches srv it { h with
      pc := .branch, buf := List.replicate srv.dataSize.toNat 0, queue := q } out :=
    .silent (a := .setStatus it.switchStatus) rfl rfl rfl (hr _ ⟨rfl, rfl, rfl, rfl, rfl⟩)
  have hread : [ConnEvent.compareStatus it.serverStatus].all it.Gives = true := by simp [Iteration.Gives]
  have hcopy : [ConnEvent.copyStatus it.serverStatus].all it.Gives = true := by simp [Iteration.Gives]
  refine .silent hclear rfl rfl ?_
  by_cases hst : it.serverStatus = .running
  · have hcompare : handlingSysStep srv
        { h with pc := .compare, buf := List.replicate srv.dataSize.toNat 0 } (.block it.serverStatus .tick) =
        some ({ h with pc := .branch, buf := List.replicate srv.dataSize.toNat 0 },
          [.compareStatus it.serverStatus]) := by simp [handlingSysStep, handlingStep, hst]
    exact .silent hcompare hread rfl (hleft _)
  · have hcompare : handlingSysStep srv
        { h with pc := .compare, buf := List.replicate srv.dataSize.toNat 0 } (.block it.serverStatus .tick) =
        some ({ h with pc := .copy, buf := List.replicate srv.dataSize.toNat 0 },
          [.compareStatus it.serverStatus]) := by simp [handlingSysStep, handlingStep, hst]
    exact .silent hcompare hread rfl (.silent (a := .block it.serverStatus .tick) rfl hcopy rfl (hleft _))

/-- The jump of the `switch`. -/
theorem handling_branch {s : SizeT} {suspended : Bool} {st : Status} (hh : h.AtSwitch srv s suspended st) :
    handlingSysStep srv h (.block .running .tick) =
      some ({ h with pc := handlingTarget st }, [.branch st]) := by
  simp [handlingSysStep, handlingStep, hh.pc, hh.status]

/-- The running case. -/
theorem handling_running {s : SizeT} {suspended : Bool} (hset : srv.handlers.AllSet)
    (hst : it.switchStatus = .running) (hh : h.AtSwitch srv s suspended .running)
    (hrecv : recvOk srv.dataSize it.recv = true) :
    h.Reaches srv it
      (if recvValue it.recv ≠ minusOne then
        let calls := [.dataHandler (recvInto (List.replicate srv.dataSize.toNat 0) it.recv)
          (recvValue it.recv) it.ret]
        if it.ret = minusOne then exit calls else kqTest it.ret calls
       else exit []) := by
  have hstep : handlingSysStep srv { h with pc := .recv, want := srv.dataSize }
      (.block .running (.recv it.recv)) =
      some ({ h with
        pc   := if recvValue it.recv ≠ minusOne then .handle else .close
        s    := recvValue it.recv
        want := srv.dataSize
        buf  := recvInto h.buf it.recv }, [.recv .running it.recv]) := if_pos hrecv
  refine .silent (handling_branch hh) (gives_branch hst) rfl
    (.silent (a := .block .running .tick) rfl rfl rfl ?_)
  by_cases hs : recvValue it.recv = minusOne
  · rw [if_neg (not_not.mpr hs)] at hstep ⊢
    refine .silent hstep (gives_recv _) rfl ?_
    exact handling_exit hset rfl
  · rw [if_pos hs] at hstep ⊢
    refine .silent hstep (gives_recv _) rfl ?_
    have hhandle : handlingSysStep srv
        { h with pc := .handle, s := recvValue it.recv, want := srv.dataSize, buf := recvInto h.buf it.recv }
        (.block .running (.handler it.ret (recvInto h.buf it.recv))) =
        some ({ h with
          pc := if it.ret = minusOne then .close else .test
          s := it.ret, want := srv.dataSize, buf := recvInto h.buf it.recv },
          [.accessServer, .dataHandler (recvInto h.buf it.recv) (recvValue it.recv) it.ret]) := by
      simp [handlingSysStep, handlingStep, hset.2.2.1]
    rw [← hh.buf]
    dsimp only
    by_cases hret : it.ret = minusOne
    · rw [if_pos hret] at hhandle ⊢
      show Handling.Reaches srv it _ ((exit []).after [.dataHandler _ _ _])
      refine .step hhandle (by simp [Iteration.Gives]) rfl ?_
      exact handling_exit hset rfl
    · rw [if_neg hret] at hhandle ⊢
      rw [kqTest_after]
      refine .step hhandle (by simp [Iteration.Gives]) rfl ?_
      exact handling_test hset rfl

/-- What follows a suspended `recv` that returned a message: it always ends the connection. -/
def kqAfterSuspendedRecv (dataSize : SizeT) (it : Iteration) : List ConnEvent :=
  if it.reread.Ends then []
  else if it.reread.Delivers then
    [.dataHandler (recvInto (List.replicate dataSize.toNat 0) it.recv) (recvValue it.recv) it.ret, .willKill]
  else [.willKill]

/-- The reading of the status after a suspended `recv`. -/
theorem handling_reread (hset : srv.handlers.AllSet) (hpc : h.pc = .reread)
    (hbuf : h.buf = recvInto (List.replicate srv.dataSize.toNat 0) it.recv) (hlen : h.len = recvValue it.recv) :
    h.Reaches srv it (exit (kqAfterSuspendedRecv srv.dataSize it)) := by
  have hreread {q : Queue} (hq : q.status = it.reread) : handlingSysStep srv { h with queue := q }
      (.block .running .tick) = some ({ h with pc := handlingRereadTarget it.reread, queue := q },
        [.reread it.reread]) := by
    simp [handlingSysStep, handlingStep, hpc, hq]
  refine .silent (a := .setStatus it.reread) rfl rfl rfl
    (.silent (hreread rfl) (by simp [Iteration.Gives]) rfl ?_)
  have hhandle {q : Queue} : handlingSysStep srv { h with pc := .handleSuspended, queue := q }
      (.block .running (.handler it.ret h.buf)) =
      some ({ h with pc := .willKill, s := it.ret, queue := q },
        [.accessServer, .dataHandler h.buf h.len it.ret]) := by
    simp [handlingSysStep, handlingStep, hset.2.2.1]
  unfold kqAfterSuspendedRecv
  rw [← hbuf, ← hlen]
  cases hre : it.reread with
  | shouldTerminate | idle => exact handling_exit hset rfl
  | running | resuming =>
      show Handling.Reaches srv it _ ((exit [.willKill]).after [.dataHandler _ _ _])
      refine .step hhandle (by simp [Iteration.Gives]) rfl ?_
      exact handling_willKill hset rfl
  | suspend | ignored | shouldKill | other n => exact handling_willKill hset rfl

/-- The suspend case. -/
theorem handling_suspend {s : SizeT} {suspended : Bool} (hset : srv.handlers.AllSet)
    (hst : it.switchStatus = .suspend) (hh : h.AtSwitch srv s suspended .suspend)
    (hrecv : recvOk srv.dataSize it.recv = true) :
    h.Reaches srv it
      (if recvValue it.recv = 0 ∨ recvValue it.recv = minusOne then exit (callIf (!suspended) .willSuspend)
       else exit (callIf (!suspended) .willSuspend ++ kqAfterSuspendedRecv srv.dataSize it)) := by
  have hexit (calls calls' : List ConnEvent) :
      (exit (calls ++ calls') : Outcome Unit) = (exit calls').after calls := by
    simp [exit, Outcome.after]
  have hwill : handlingSysStep srv { h with pc := .willSuspend } (.block .running .tick) =
      some ({ h with pc := .callRecvSuspended, suspended := true },
        if suspended then [] else [.accessServer, .willSuspend]) := by
    simp [handlingSysStep, handlingStep, callIf, hset.1, hh.suspended]
  have hfilter : (if suspended then [] else [.accessServer, .willSuspend]).filter ConnEvent.IsCall =
      callIf (!suspended) .willSuspend := by
    cases suspended <;> rfl
  have hstep : handlingSysStep srv { h with pc := .recvSuspended, suspended := true, want := srv.dataSize }
      (.block .running (.recv it.recv)) =
      some ({ h with
        pc        := if recvValue it.recv = 0 ∨ recvValue it.recv = minusOne then .close else .reread
        suspended := true
        len       := recvValue it.recv
        want      := srv.dataSize
        buf       := recvInto h.buf it.recv }, [.recv .suspend it.recv]) := if_pos hrecv
  have hgives : (if suspended then [] else [ConnEvent.accessServer, .willSuspend]).all it.Gives = true := by
    cases suspended <;> rfl
  refine .silent (handling_branch hh) (gives_branch hst) rfl ?_
  by_cases hs : recvValue it.recv = 0 ∨ recvValue it.recv = minusOne
  · rw [if_pos hs] at hstep ⊢
    rw [← List.append_nil (callIf (!suspended) .willSuspend), hexit]
    refine .step hwill hgives hfilter (.silent (a := .block .running .tick) rfl rfl rfl
      (.silent hstep (gives_recv _) rfl ?_))
    exact handling_exit hset rfl
  · rw [if_neg hs] at hstep ⊢
    rw [hexit]
    refine .step hwill hgives hfilter (.silent (a := .block .running .tick) rfl rfl rfl
      (.silent hstep (gives_recv _) rfl ?_))
    refine handling_reread hset rfl ?_ rfl
    show recvInto h.buf it.recv = _
    rw [hh.buf]

/-- The suspend case of the function, with its inner `switch` by cases on what the status means. -/
theorem kqIteration_suspend {n s : SizeT} {suspended : Bool} (hst : it.switchStatus = .suspend) :
    kqIteration n s suspended it =
      if recvValue it.recv = 0 ∨ recvValue it.recv = minusOne then exit (callIf (!suspended) .willSuspend)
      else exit (callIf (!suspended) .willSuspend ++ kqAfterSuspendedRecv n it) := by
  unfold kqIteration kqAfterSuspendedRecv
  simp only [hst]
  congr 1
  cases hre : it.reread with
  | shouldTerminate | idle => simp [Status.Ends]
  | running | resuming => simp [Status.Ends, Status.Delivers]
  | suspend | ignored | shouldKill | other n => simp [Status.Ends, Status.Delivers]

/-- **The event loop makes the handling**: from the start of the handling of an event, on the inputs of the
    iteration, it makes the calls and the decision that the function gives for the values that `s` and
    `suspended` happen to hold. -/
theorem kqIteration_run (hset : srv.handlers.AllSet) (hpc : h.pc = .clear)
    (hrecv : recvOk srv.dataSize it.recv = true) :
    h.Reaches srv it (kqIteration srv.dataSize h.s h.suspended it) := by
  refine @handling_switch _ _ it _ hpc fun h' hh => ?_
  have htest (hpc' : h'.pc = .branch) (ht : handlingTarget it.switchStatus = .test) :
      h'.Reaches srv it (kqTest h.s []) := by
    have hbranch := handling_branch hh
    rw [ht] at hbranch
    refine .silent hbranch (gives_branch rfl) rfl ?_
    rw [← hh.s]
    exact handling_test hset rfl
  cases hst : it.switchStatus with
  | running =>
      rw [hst] at hh
      simpa only [kqIteration, hst] using handling_running hset hst hh hrecv
  | resuming =>
      rw [hst] at hh
      simp only [kqIteration, hst]
      have hresume : handlingSysStep srv { h' with
          pc := .didResume, queue := { h'.queue with status := .running } } (.block .running .tick) =
          some ({ h' with pc := .test, queue := { h'.queue with status := .running } },
            [.accessServer, .didResume]) := by
        simp [handlingSysStep, handlingStep, callIf, hset.2.1]
      refine .silent (handling_branch hh) (gives_branch hst) rfl
        (.silent (a := .block .running .tick) rfl rfl rfl ?_)
      rw [kqTest_after, ← hh.s]
      refine .step hresume rfl rfl ?_
      exact handling_test hset rfl
  | suspend =>
      rw [hst] at hh
      rw [kqIteration_suspend hst]
      exact handling_suspend hset hst hh hrecv
  | shouldTerminate | idle =>
      rw [hst] at hh
      simp only [kqIteration, hst]
      refine .silent (handling_branch hh) (gives_branch hst) rfl ?_
      exact handling_willKill hset rfl
  | ignored | shouldKill | other n =>
      simpa only [kqIteration, hst] using htest hh.pc (by rw [hst]; rfl)

end Run

end SpartanX
