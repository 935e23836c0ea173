import SpartanX.Connection.Block

/-!
# `Connection.Iteration` — one iteration of the connection loop, as a function of its inputs

The statements of one iteration of the loop in the connection block, run in one go on what the iteration gets
from outside (`Iteration`): the two statuses it reads, the result of its `recv` and the answer of the data
handler. Every handler is set. `connLoop` repeats it until the connection is closed.

The function is connected to the block: whatever the inputs, there is a run of the block through the iteration
in which it is given exactly these inputs (`Iteration.Gives`), makes the same calls and ends where the function
says (`connIteration_run`), and likewise through any number of iterations (`connLoop_run`).
-/

namespace SpartanX

open CInt

/-! ## The iteration -/

/-- What one iteration gets from outside: the status of the server, the status the `switch` finds in the
    queue, the result of `recv`, the status found after a suspended `recv`, and what the data handler
    returns. -/
structure Iteration where
  serverStatus : Status
  switchStatus : Status
  recv         : Option (List Byte)
  reread       : Status
  ret          : SizeT
  deriving DecidableEq, Repr

/-- The locals of the connection block that live from one iteration to the next. -/
structure Locals where
  s         : SizeT := 1
  suspended : Bool  := false
  deriving DecidableEq, Repr

/-- The calls of an iteration, and the locals of the next one, or `none` if the connection is closed. -/
abbrev Outcome (σ : Type) := List ConnEvent × Option σ

/-- The calls of the handlers that a running connection can make. -/
def ConnEvent.IsCall : ConnEvent → Bool
  | .willSuspend | .didResume | .dataHandler .. | .willKill | .didDisconnect => true
  | _ => false

/-- The handlers that a running connection can call are all set. -/
def Handlers.AllSet (h : Handlers) : Prop :=
  h.willSuspend = true ∧ h.didResume = true ∧ h.dataHandler = true ∧ h.willKill = true ∧
    h.didDisconnect = true

/-- The outcome with some calls in front. -/
def Outcome.after {σ : Type} (calls : List ConnEvent) (out : Outcome σ) : Outcome σ := (calls ++ out.1, out.2)

/-- The label `exit`. -/
def exit {σ : Type} (calls : List ConnEvent) : Outcome σ := (calls ++ [.didDisconnect], none)

/-- `while (s > 0)`. -/
def connTest (l : Locals) (calls : List ConnEvent) : Outcome Locals :=
  if l.s > 0 then (calls, some l) else exit calls

/-- One iteration of the loop in the connection block. The statements in front of the `switch` clear the buffer
    and may write the status of the server to the queue; what the `switch` then reads is an input. -/
def connIteration (dataSize : SizeT) (l : Locals) (it : Iteration) : Outcome Locals :=
  let buf := List.replicate dataSize.toNat 0
  match it.switchStatus with
  | .running =>
    let s := recvValue it.recv
    if s = minusOne then exit []
    else connTest { l with s := it.ret } [.dataHandler (recvInto buf it.recv) s it.ret]
  | .resuming => connTest l [.didResume]
  | .suspend =>
    let calls := callIf (!l.suspended) .willSuspend
    let l := { l with suspended := true }
    let len := recvValue it.recv
    if len = 0 ∨ len = minusOne then exit calls
    else
      match it.reread with
      | .shouldTerminate => exit calls
      | .idle            => exit calls
      | .resuming        =>
        connTest { l with s := it.ret } (calls ++ [.dataHandler (recvInto buf it.recv) len it.ret])
      | .running         =>
        connTest { l with s := it.ret } (calls ++ [.dataHandler (recvInto buf it.recv) len it.ret])
      | _                => connTest l calls
  | .shouldTerminate => exit [.willKill]
  | .idle            => exit [.willKill]
  | _                => connTest l []

/-- The iterations of a connection, up to the one that closes it: the calls of each, and whether it kept the
    connection. -/
def connLoop (dataSize : SizeT) : Locals → List Iteration → List (List ConnEvent × Bool)
  | _, []        => []
  | l, it :: its =>
    match connIteration dataSize l it with
    | (calls, none)    => [(calls, false)]
    | (calls, some l') => (calls, true) :: connLoop dataSize l' its

/-! ## The block makes the iteration -/

/-- What a block gets from outside in the event is what the iteration gives. -/
def Iteration.Gives (it : Iteration) : ConnEvent → Bool
  | .compareStatus st | .copyStatus st => st == it.serverStatus
  | .branch st              => st == it.switchStatus
  | .recv _ r               => r == it.recv
  | .reread st              => st == it.reread
  | .dataHandler _ _ ret    => ret == it.ret
  | _                       => true

/-- The locals of a block. -/
def Conn.locals (c : Conn) : Locals := { s := c.s, suspended := c.suspended }

/-- A block at the head of its loop, as an iteration finds it. -/
structure Conn.AtHead (srv : Server) (c : Conn) : Prop where
  pc       : c.pc = .clear
  handlers : c.queue.handlers.AllSet
  buf      : c.buf.length = srv.dataSize.toNat

section Run

variable {srv : Server} {c : Conn} {it : Iteration}

/-- On the inputs of the iteration the block makes the calls of the outcome and is then at the head of its loop
    again, with the locals of the outcome, or past the last handler call of the connection. -/
def Conn.Reaches (srv : Server) (it : Iteration) (c : Conn) (out : Outcome Locals) : Prop :=
  Machine.Leads (connSysStep srv) it.Gives ConnEvent.IsCall
    (fun c' => match out.2 with
      | some l => c'.AtHead srv ∧ c'.locals = l
      | none   => c'.pc = .releaseServer) c out.1

/-- A step of the block that makes the calls in front of what it reaches. -/
theorem Conn.Reaches.step {c' : Conn} {es calls : List ConnEvent} {a : ConnAct} {out : Outcome Locals}
    (hs : connSysStep srv c a = some (c', es)) (hgives : es.all it.Gives = true)
    (hes : es.filter ConnEvent.IsCall = calls) (h : c'.Reaches srv it out) :
    c.Reaches srv it (out.after calls) :=
  Machine.Leads.cons hs hgives hes h

/-- A step of the block without a call. -/
theorem Conn.Reaches.silent {c' : Conn} {es : List ConnEvent} {a : ConnAct} {out : Outcome Locals}
    (hs : connSysStep srv c a = some (c', es)) (hgives : es.all it.Gives = true)
    (hes : es.filter ConnEvent.IsCall = []) (h : c'.Reaches srv it out) : c.Reaches srv it out :=
  h.step hs hgives hes

/-- The jump the iteration asks for. -/
theorem gives_branch {st : Status} (hst : it.switchStatus = st) :
    [ConnEvent.branch st].all it.Gives = true := by
  simp [Iteration.Gives, hst]

/-- The return of `recv` the iteration asks for. -/
theorem gives_recv (st : Status) : [ConnEvent.recv st it.recv].all it.Gives = true := by
  simp [Iteration.Gives]

/-- The answer of the data handler the iteration asks for. -/
theorem gives_dataHandler (buf : List Byte) (len : SizeT) :
    [ConnEvent.dataHandler buf len it.ret].all it.Gives = true := by
  simp [Iteration.Gives]

theorem connTest_after (l : Locals) (calls : List ConnEvent) :
    connTest l calls = (connTest l []).after calls := by
  unfold connTest
  split <;> simp [Outcome.after, exit]

/-- From the label `exit`. -/
theorem reaches_exit (hpc : c.pc = .close) (hset : c.queue.handlers.AllSet) :
    c.Reaches srv it (exit []) := by
  have hclose : connSysStep srv c (.block .running .tick) =
      some ({ c with pc := .didDisconnect }, [.close c.socket.sockfd]) := by
    simp [connSysStep, connStep, hpc]
  have hlast : connSysStep srv { c with pc := .didDisconnect } (.block .running .tick) =
      some ({ c with pc := .releaseServer }, [.didDisconnect]) := by
    simp [connSysStep, connStep, callIf, hset.2.2.2.2]
  refine .silent hclose rfl rfl (Machine.Leads.last hlast rfl rfl ?_)
  rfl

/-- From the loop condition. -/
theorem reaches_test (hpc : c.pc = .test) (hset : c.queue.handlers.AllSet)
    (hbuf : c.buf.length = srv.dataSize.toNat) : c.Reaches srv it (connTest c.locals []) := by
  have htest : connSysStep srv c (.block .running .tick) =
      some ({ c with pc := if c.s > 0 then .clear else .close }, []) := by
    simp [connSysStep, connStep, hpc]
  unfold connTest
  by_cases hs : c.s > 0
  · rw [if_pos hs] at htest
    rw [if_pos (show c.locals.s > 0 from hs)]
    exact Machine.Leads.last htest rfl rfl ⟨⟨rfl, hset, hbuf⟩, rfl⟩
  · rw [if_neg hs] at htest
    rw [if_neg (show ¬ c.locals.s > 0 from hs)]
    exact .silent htest rfl rfl (reaches_exit rfl hset)

/-- A block at the `switch`, with what the iteration makes it find there. -/
structure Conn.AtSwitch (srv : Server) (l : Locals) (st : Status) (c : Conn) : Prop where
  pc       : c.pc = .branch
  handlers : c.queue.handlers.AllSet
  buf      : c.buf = List.replicate srv.dataSize.toNat 0
  status   : c.queue.status = st
  locals   : c.locals = l

/-- The statements in front of the `switch`. -/
theorem reaches_switch {out : Outcome Locals} (hc : c.AtHead srv)
    (h : ∀ c' : Conn, c'.AtSwitch srv c.locals it.switchStatus → c'.Reaches srv it out) :
    c.Reaches srv it out := by
  have hbuf : List.replicate srv.dataSize.toNat 0 ++ c.buf.drop srv.dataSize.toNat =
      List.replicate srv.dataSize.toNat 0 := by
    rw [List.drop_of_length_le (Nat.le_of_eq hc.buf), List.append_nil]
  have hclear : connSysStep srv c (.block it.serverStatus .tick) =
      some ({ c with pc := .compare, buf := List.replicate srv.dataSize.toNat 0 },
        [.accessServer, .iterate]) := by
    simp [connSysStep, connStep, hc.pc, hbuf]
  -- whatever was copied, another party leaves the status that the `switch` is to find
  have hleft {q : Queue} (hq : q.handlers = c.queue.handlers) :
      Conn.Reaches srv it { c with
        pc := .branch, buf := List.replicate srv.dataSize.toNat 0, queue := q } out := by
    refine .silent (a := .setStatus it.switchStatus) rfl rfl rfl (h _ ⟨rfl, ?_, rfl, rfl, rfl⟩)
    show q.handlers.AllSet
    rw [hq]
    exact hc.handlers
  have hread : [ConnEvent.compareStatus it.serverStatus].all it.Gives = true := by simp [Iteration.Gives]
  have hcopy : [ConnEvent.copyStatus it.serverStatus].all it.Gives = true := by simp [Iteration.Gives]
  refine .silent hclear rfl rfl ?_
  by_cases hst : it.serverStatus = .running
  · have hcompare : connSysStep srv
        { c with pc := .compare, buf := List.replicate srv.dataSize.toNat 0 } (.block it.serverStatus .tick) =
        some ({ c with pc := .branch, buf := List.replicate srv.dataSize.toNat 0 },
          [.compareStatus it.serverStatus]) := by simp [connSysStep, connStep, hst]
    exact .silent hcompare hread rfl (hleft rfl)
  · have hcompare : connSysStep srv
        { c with pc := .compare, buf := List.replicate srv.dataSize.toNat 0 } (.block it.serverStatus .tick) =
        some ({ c with pc := .copy, buf := List.replicate srv.dataSize.toNat 0 },
          [.compareStatus it.serverStatus]) := by simp [connSysStep, connStep, hst]
    exact .silent hcompare hread rfl (.silent (a := .block it.serverStatus .tick) rfl hcopy rfl (hleft rfl))

/-- The jump of the `switch`. -/
theorem step_branch {l : Locals} {st : Status} (hc : c.AtSwitch srv l st) :
    connSysStep srv c (.block .running .tick) = some ({ c with pc := branchTarget st }, [.branch st]) := by
  simp [connSysStep, connStep, hc.pc, hc.status]

/-- A `recv` writes inside the buffer. -/
theorem length_recvInto {n : SizeT} {r : Option (List Byte)} (hr : recvOk n r = true) :
    (recvInto (List.replicate n.toNat 0) r).length = n.toNat := by
  cases r with
  | none => exact List.length_replicate
  | some bs =>
      simp only [recvOk, Bool.and_eq_true, decide_eq_true_eq] at hr
      simp only [recvInto, List.length_append, List.length_drop, List.length_replicate]
      omega

/-- The running branch. -/
theorem reaches_running {l : Locals} (hst : it.switchStatus = .running) (hc : c.AtSwitch srv l .running)
    (hrecv : recvOk srv.dataSize it.recv = true) :
    c.Reaches srv it
      (if recvValue it.recv = minusOne then exit []
       else connTest { l with s := it.ret }
        [.dataHandler (recvInto (List.replicate srv.dataSize.toNat 0) it.recv) (recvValue it.recv) it.ret]) := by
  have hlen := length_recvInto hrecv
  rw [← hc.buf] at hlen ⊢
  have hstep : connSysStep srv { c with pc := .recv, want := srv.dataSize } (.block .running (.recv it.recv)) =
      some ({ c with
        pc   := if recvValue it.recv = minusOne then .close else .handle
        s    := recvValue it.recv
        want := srv.dataSize
        buf  := recvInto c.buf it.recv }, [.recv .running it.recv]) := if_pos hrecv
  refine .silent (step_branch hc) (gives_branch hst) rfl (.silent (a := .block .running .tick) rfl rfl rfl ?_)
  by_cases hs : recvValue it.recv = minusOne
  · rw [if_pos hs] at hstep ⊢
    exact .silent hstep (gives_recv _) rfl (reaches_exit rfl hc.handlers)
  · rw [if_neg hs] at hstep ⊢
    refine .silent hstep (gives_recv _) rfl ?_
    have hhandle : connSysStep srv
        { c with pc := .handle, s := recvValue it.recv, want := srv.dataSize, buf := recvInto c.buf it.recv }
        (.block .running (.handler it.ret (recvInto c.buf it.recv))) =
        some ({ c with pc := .test, s := it.ret, want := srv.dataSize, buf := recvInto c.buf it.recv },
          [.dataHandler (recvInto c.buf it.recv) (recvValue it.recv) it.ret]) := by
      simp [connSysStep, connStep, hc.handlers.2.2.1]
    rw [connTest_after, ← hc.locals]
    refine .step hhandle (gives_dataHandler _ _) rfl ?_
    exact reaches_test rfl hc.handlers hlen

/-- The resuming branch. -/
theorem reaches_resuming {l : Locals} (hst : it.switchStatus = .resuming) (hc : c.AtSwitch srv l .resuming) :
    c.Reaches srv it (connTest l [.didResume]) := by
  have hbuf : c.buf.length = srv.dataSize.toNat := by rw [hc.buf, List.length_replicate]
  have hresume : connSysStep srv { c with pc := .didResume, queue := { c.queue with status := .running } }
      (.block .running .tick) =
      some ({ c with pc := .test, queue := { c.queue with status := .running } }, [.didResume]) := by
    simp [connSysStep, connStep, callIf, hc.handlers.2.1]
  refine .silent (step_branch hc) (gives_branch hst) rfl (.silent (a := .block .running .tick) rfl rfl rfl ?_)
  rw [connTest_after, ← hc.locals]
  refine .step hresume rfl rfl ?_
  exact reaches_test rfl hc.handlers hbuf

/-- The branch of the two ending statuses. -/
theorem reaches_ends {l : Locals} {st : Status} (hst : it.switchStatus = st) (hc : c.AtSwitch srv l st)
    (he : st.Ends) :
    c.Reaches srv it (exit [.willKill]) := by
  have hbranch := step_branch hc
  rw [branchTarget_ends he] at hbranch
  have hkill : connSysStep srv { c with pc := .willKill } (.block .running .tick) =
      some ({ c with pc := .close }, [.willKill]) := by
    simp [connSysStep, connStep, callIf, hc.handlers.2.2.2.1]
  refine .silent hbranch (gives_branch hst) rfl ?_
  show Conn.Reaches srv it _ ((exit []).after [.willKill])
  refine .step hkill rfl rfl ?_
  exact reaches_exit rfl hc.handlers

/-- The other statuses. -/
theorem reaches_default {l : Locals} {st : Status} (hst : it.switchStatus = st) (hc : c.AtSwitch srv l st)
    (he : ¬ st.Ends) (hd : ¬ st.Delivers) (hsus : st ≠ .suspend) : c.Reaches srv it (connTest l []) := by
  have hbuf : c.buf.length = srv.dataSize.toNat := by rw [hc.buf, List.length_replicate]
  have hbranch := step_branch hc
  rw [branchTarget_default he hd hsus] at hbranch
  rw [← hc.locals]
  exact .silent hbranch (gives_branch hst) rfl (reaches_test rfl hc.handlers hbuf)

/-- What follows a suspended `recv` that returned a message. -/
def afterSuspendedRecv (dataSize : SizeT) (l : Locals) (it : Iteration) : Outcome Locals :=
  if it.reread.Ends then exit []
  else if it.reread.Delivers then
    connTest { l with s := it.ret }
      [.dataHandler (recvInto (List.replicate dataSize.toNat 0) it.recv) (recvValue it.recv) it.ret]
  else connTest l []

/-- The reading of the status after a suspended `recv`. -/
theorem reaches_reread {l : Locals} (hpc : c.pc = .reread) (hset : c.queue.handlers.AllSet)
    (hbuf : c.buf = recvInto (List.replicate srv.dataSize.toNat 0) it.recv)
    (hlen : c.len = recvValue it.recv) (hl : c.locals = l) (hrecv : recvOk srv.dataSize it.recv = true) :
    c.Reaches srv it (afterSuspendedRecv srv.dataSize l it) := by
  have hlength : c.buf.length = srv.dataSize.toNat := by rw [hbuf, length_recvInto hrecv]
  have hreread {q : Queue} (hq : q.status = it.reread) : connSysStep srv { c with queue := q }
      (.block .running .tick) = some ({ c with pc := rereadTarget it.reread, queue := q },
        [.reread it.reread]) := by
    simp [connSysStep, connStep, hpc, hq]
  -- another party leaves the status that is to be found
  have hleft : connSysStep srv c (.setStatus it.reread) =
      some ({ c with queue := { c.queue with status := it.reread } }, [.setQueueStatus it.reread]) := by
    simp [connSysStep, hpc]
  refine .silent hleft rfl rfl (.silent (hreread rfl) (by simp [Iteration.Gives]) rfl ?_)
  unfold afterSuspendedRecv
  by_cases he : it.reread.Ends
  · rw [if_pos he, rereadTarget_ends he]
    exact reaches_exit rfl hset
  rw [if_neg he]
  by_cases hd : it.reread.Delivers
  · rw [if_pos hd, rereadTarget_delivers hd]
    have hhandle : connSysStep srv
        { c with pc := .handleSuspended, queue := { c.queue with status := it.reread } }
        (.block .running (.handler it.ret c.buf)) =
        some ({ c with pc := .test, s := it.ret, queue := { c.queue with status := it.reread } },
          [.dataHandler c.buf c.len it.ret]) := by
      simp [connSysStep, connStep, hset.2.2.1]
    rw [connTest_after, ← hl, ← hbuf, ← hlen]
    refine .step hhandle (gives_dataHandler _ _) rfl ?_
    exact reaches_test rfl hset hlength
  · rw [if_neg hd, rereadTarget_default he hd, ← hl]
    exact reaches_test rfl hset hlength

/-- The suspend branch. -/
theorem reaches_suspend {l : Locals} (hst : it.switchStatus = .suspend) (hc : c.AtSwitch srv l .suspend)
    (hrecv : recvOk srv.dataSize it.recv = true) :
    c.Reaches srv it
      (Outcome.after (callIf (!l.suspended) .willSuspend)
        (if recvValue it.recv = 0 ∨ recvValue it.recv = minusOne then exit []
         else afterSuspendedRecv srv.dataSize { l with suspended := true } it)) := by
  have hl : c.suspended = l.suspended := by rw [← hc.locals]; rfl
  have hwill : connSysStep srv { c with pc := .willSuspend } (.block .running .tick) =
      some ({ c with pc := .callRecvSuspended, suspended := true }, callIf (!l.suspended) .willSuspend) := by
    simp [connSysStep, connStep, hc.handlers.1, hl]
  have hfilter : (callIf (!l.suspended) .willSuspend).filter ConnEvent.IsCall =
      callIf (!l.suspended) .willSuspend := by
    cases l.suspended <;> rfl
  have hgives : (callIf (!l.suspended) .willSuspend).all it.Gives = true :=
    List.all_eq_true.mpr (forall_mem_callIf (by rfl) _)
  have hstep : connSysStep srv { c with pc := .recvSuspended, suspended := true, want := srv.dataSize }
      (.block .running (.recv it.recv)) =
      some ({ c with
        pc        := if recvValue it.recv = 0 ∨ recvValue it.recv = minusOne then .close else .reread
        suspended := true
        len       := recvValue it.recv
        want      := srv.dataSize
        buf       := recvInto c.buf it.recv }, [.recv .suspend it.recv]) := if_pos hrecv
  refine .silent (step_branch hc) (gives_branch hst) rfl (.step hwill hgives hfilter ?_)
  refine .silent (a := .block .running .tick) rfl rfl rfl ?_
  by_cases hs : recvValue it.recv = 0 ∨ recvValue it.recv = minusOne
  · rw [if_pos hs] at hstep ⊢
    exact .silent hstep (gives_recv _) rfl (reaches_exit rfl hc.handlers)
  · rw [if_neg hs] at hstep ⊢
    refine .silent hstep (gives_recv _) rfl (reaches_reread rfl hc.handlers ?_ rfl ?_ hrecv)
    · show recvInto c.buf it.recv = _
      rw [hc.buf]
    · rw [← hc.locals]
      rfl

/-- The suspend branch of the function, with its inner `switch` by cases on what the statuses mean. -/
theorem connIteration_suspend {n : SizeT} {l : Locals} (hst : it.switchStatus = .suspend) :
    connIteration n l it = Outcome.after (callIf (!l.suspended) .willSuspend)
      (if recvValue it.recv = 0 ∨ recvValue it.recv = minusOne then exit []
       else afterSuspendedRecv n { l with suspended := true } it) := by
  have hexit (calls : List ConnEvent) : (exit calls : Outcome Locals) = Outcome.after calls (exit []) := by
    simp [exit, Outcome.after]
  have hafter (l : Locals) (calls calls' : List ConnEvent) :
      connTest l (calls ++ calls') = Outcome.after calls (connTest l calls') := by
    rw [connTest_after l (calls ++ calls'), connTest_after l calls']
    simp [Outcome.after]
  unfold connIteration afterSuspendedRecv
  simp only [hst]
  by_cases hr : recvValue it.recv = 0 ∨ recvValue it.recv = minusOne
  · rw [if_pos hr, if_pos hr, hexit]
  · rw [if_neg hr, if_neg hr]
    cases hre : it.reread with
    | shouldTerminate | idle => simp only [Status.Ends, or_true, true_or, if_true]; exact hexit _
    | running | resuming => simpa [Status.Ends, Status.Delivers] using hafter _ _ _
    | suspend | ignored | shouldKill | other n =>
        simpa [Status.Ends, Status.Delivers] using connTest_after _ _

/-- **The block makes the iteration**: from the head of its loop, on the inputs of the iteration, it makes the
    calls and reaches the end that the function gives. -/
theorem connIteration_run (hc : c.AtHead srv) (hrecv : recvOk srv.dataSize it.recv = true) :
    c.Reaches srv it (connIteration srv.dataSize c.locals it) := by
  refine @reaches_switch _ _ it _ hc fun c' hc' => ?_
  cases hst : it.switchStatus with
  | running =>
      rw [hst] at hc'
      simpa only [connIteration, hst] using reaches_running hst hc' hrecv
  | resuming =>
      rw [hst] at hc'
      simpa only [connIteration, hst] using reaches_resuming hst hc'
  | suspend =>
      rw [hst] at hc'
      rw [connIteration_suspend hst]
      exact reaches_suspend hst hc' hrecv
  | shouldTerminate | idle =>
      rw [hst] at hc'
      simpa only [connIteration, hst] using reaches_ends hst hc' (by simp [Status.Ends])
  | ignored | shouldKill | other n =>
      rw [hst] at hc'
      simpa only [connIteration, hst] using
        reaches_default hst hc' (by simp [Status.Ends]) (by simp [Status.Delivers]) (by simp)

end Run

/-- **The block makes every sequence of iterations**: its trace is cut into one piece for each iteration, up to
    the one that closes the connection. -/
theorem connLoop_run {srv : Server} {its : List Iteration} {c : Conn} (hc : c.AtHead srv)
    (hrecv : ∀ it ∈ its, recvOk srv.dataSize it.recv = true) :
    ∃ (acts : List ConnAct) (c' : Conn) (trs : List (List ConnEvent)),
      Machine.run (connSysStep srv) c acts = some (c', trs.flatten) ∧
      (∀ p ∈ trs.zip its, p.1.all p.2.Gives = true) ∧
      trs.map (·.filter ConnEvent.IsCall) = (connLoop srv.dataSize c.locals its).map (·.1) ∧
      if (connLoop srv.dataSize c.locals its).all (·.2) then c'.AtHead srv else c'.pc = .releaseServer := by
  induction its generalizing c with
  | nil => exact ⟨[], c, [], rfl, by simp, rfl, hc⟩
  | cons it its ih =>
      obtain ⟨acts, c₁, tr, hrun, hgives, hcalls, hend⟩ := connIteration_run hc (hrecv it List.mem_cons_self)
      unfold connLoop
      rcases hout : connIteration srv.dataSize c.locals it with ⟨calls, _ | l⟩
      · rw [hout] at hcalls hend
        refine ⟨acts, c₁, [tr], by simpa using hrun, ?_, by simpa using hcalls, by simpa using hend⟩
        intro p hp
        rw [List.zip_cons_cons, List.zip_nil_left, List.mem_singleton] at hp
        rw [hp]
        exact hgives
      · rw [hout] at hcalls hend
        obtain ⟨hc₁, rfl⟩ := hend
        obtain ⟨acts', c₂, trs, hrun', hgives', hcalls', hend'⟩ :=
          ih hc₁ fun it' h => hrecv it' (List.mem_cons_of_mem it h)
        refine ⟨acts ++ acts', c₂, tr :: trs, ?_, ?_, ?_, hend'⟩
        · rw [List.flatten_cons]
          exact Machine.run_append hrun hrun'
        · intro p hp
          rw [List.zip_cons_cons] at hp
          rcases List.mem_cons.mp hp with rfl | hp
          · exact hgives
          · exact hgives' p hp
        · rw [List.map_cons, List.map_cons, hcalls, hcalls']

end SpartanX
