import SpartanX.Connection.Block

/-!
# `Client.Loop` — the client and the loop `SXStartClient` dispatches for it

The block of `SXStartClient` is a state machine over its program points (`ClientPc`), like the block of a
connection: one step executes the statement it stands at, reads the fields of the client as they are at that
moment, and takes from outside what the statement gets from outside (`Input`). The status lives in the client
itself, so other parties change what the next `switch` reads. The step follows the teardown into `SXFreeClient`,
which releases the socket that the loop has released already.

## Contents
- **State.** `Client`, `ClientPc`, `ClientLoop`, `ClientEvent`.
- **Step.** `clientStep`, the statements in source order, and `ClientMove`, the same as one case per outcome
  (`clientStep_move`).
- **The loop among other parties.** `ClientAct`, `clientSysStep`, `clientSysStep_other`.
- **Dispatch.** `sxStartClient`, and `client_run_invariant` for the runs from it; `listening` is a client at work.
-/

namespace SpartanX

open CInt

/-! ## State -/

/-- `sx_client_t`. -/
structure Client extends RuntimeObject where
  sock : Option Socket := none
  buf  : List Byte     := []
  deriving DecidableEq, Repr

/-- The statement the loop of a client executes next. -/
inductive ClientPc
  | setStatus          -- client->status = sx_status_running; s = 0; suspended = false
  | clear              -- do { memset(client->buf, 0, ..)
  | branch             -- switch (client->status)
  | callRecv           -- case running: the call of recv
  | recv               -- .. and its return
  | handle
  | setRunning         -- case resuming: client->status = sx_status_running
  | didResume
  | willSuspend        -- case suspend: if (!suspended) willSuspend; suspended = true
  | callRecvSuspended
  | recvSuspended
  | reread             -- the inner switch (client->status)
  | handleSuspended
  | test               -- while (s > 0)
  | releaseSock        -- exit: SXRelease(client->sock)
  | didDisconnect
  | releaseClient      -- SXRelease(client)
  | freeClient         -- SXFreeClient
  | done
  | freed              -- the memory of the client has been returned
  deriving DecidableEq, Repr

/-- The state of the loop: its locals and the client. `want` is the length argument of a pending `recv`. -/
structure ClientLoop where
  pc        : ClientPc := .setStatus
  s         : SizeT    := 0
  len       : SizeT    := 0
  want      : SizeT    := 0
  suspended : Bool     := false
  client    : Client   := {}
  deriving DecidableEq, Repr

/-- What can be observed of a client. `accessSock` is the read of the descriptor for a `recv`; the flag of a
    release is whether it ran the deallocator; the last three are the doing of other parties. -/
inductive ClientEvent
  | iterate
  | branch (st : Status)
  | accessSock
  | recv (st : Status) (r : Option (List Byte))
  | reread (st : Status)
  | dataHandler (buf : List Byte) (len ret : SizeT)
  | willSuspend
  | didResume
  | didDisconnect
  | releaseSock (freed : Bool)
  | releaseClient (freed : Bool)
  | freeClient
  | suspendClient (err : SXError)
  | resumeClient (err : SXError)
  | setClientStatus (st : Status)
  deriving DecidableEq, Repr

/-! ## Step -/

/-- The event of a handler call, if the handler is set. -/
def callClientIf (isSet : Bool) (e : ClientEvent) : List ClientEvent := if isSet then [e] else []

/-- What holds of the call holds of all its events. -/
theorem forall_mem_callClientIf {P : ClientEvent → Prop} {e : ClientEvent} (h : P e) (isSet : Bool) :
    ∀ e' ∈ callClientIf isSet e, P e' := by
  intro e' he
  cases isSet with
  | false => cases he
  | true => rwa [List.mem_singleton.mp he]

/-- The case label `switch (client->status)` jumps to. -/
def clientBranchTarget : Status → ClientPc
  | .running  => .callRecv
  | .resuming => .setRunning
  | .suspend  => .willSuspend
  | _         => .test

/-- The case label the inner `switch (client->status)` of the suspend branch jumps to. -/
def clientRereadTarget : Status → ClientPc
  | .shouldTerminate => .releaseSock
  | .idle            => .releaseSock
  | .resuming        => .handleSuspended
  | .running         => .handleSuspended
  | _                => .test

/-- `if (client->dataHandler_block != NULL) s = client->dataHandler_block(client, client->buf, s)`. -/
def clientHandle (c : ClientLoop) : Input → Option (ClientLoop × List ClientEvent)
  | .handler ret buf =>
    if c.client.handlers.dataHandler && buf.length == c.client.buf.length then
      some ({ c with pc := .test, s := ret, client := { c.client with buf := buf } },
        [.dataHandler c.client.buf c.s ret])
    else none
  | .tick => if c.client.handlers.dataHandler then none else some ({ c with pc := .test }, [])
  | _ => none

/-- `SXRelease(client->sock)`: the client after it, and whether it ran `SXFreeSocket`. -/
def Client.releaseSock (client : Client) : Option (Client × Bool) :=
  match client.sock with
  | none      => none
  | some sock =>
    let r := sxRelease sock.obj
    some ({ client with sock := some { sock with obj := r.1 } }, r.2)

/-- One step of the loop of a client. -/
def clientStep (c : ClientLoop) (i : Input) : Option (ClientLoop × List ClientEvent) :=
  match c.pc, i with
  | .setStatus, .tick =>
    some ({ c with pc := .clear, s := 0, suspended := false, client := { c.client with status := .running } }, [])
  | .clear, .tick =>
    let size := c.client.dataSize.toNat
    some ({ c with
      pc     := .branch
      client := { c.client with buf := List.replicate size 0 ++ c.client.buf.drop size } }, [.iterate])
  | .branch, .tick =>
    some ({ c with pc := clientBranchTarget c.client.status }, [.branch c.client.status])
  -- case sx_status_running
  | .callRecv, .tick =>
    if c.client.sock.isSome then some ({ c with pc := .recv, want := c.client.dataSize }, [.accessSock]) else none
  | .recv, .recv r =>
    if recvOk c.want r then
      some ({ c with
        pc     := if recvValue r = minusOne then .releaseSock else .handle
        s      := recvValue r
        client := { c.client with buf := recvInto c.client.buf r } }, [.recv .running r])
    else none
  | .handle, i => clientHandle c i
  -- case sx_status_resuming
  | .setRunning, .tick => some ({ c with pc := .didResume, client := { c.client with status := .running } }, [])
  | .didResume, .tick => some ({ c with pc := .test }, callClientIf c.client.handlers.didResume .didResume)
  -- case sx_status_suspend
  | .willSuspend, .tick =>
    some ({ c with pc := .callRecvSuspended, suspended := true },
      callClientIf (!c.suspended && c.client.handlers.willSuspend) .willSuspend)
  | .callRecvSuspended, .tick =>
    if c.client.sock.isSome then some ({ c with pc := .recvSuspended, want := c.client.dataSize }, [.accessSock])
    else none
  | .recvSuspended, .recv r =>
    if recvOk c.want r then
      some ({ c with
        pc     := if recvValue r = 0 ∨ recvValue r = minusOne then .releaseSock else .reread
        len    := recvValue r
        client := { c.client with buf := recvInto c.client.buf r } }, [.recv .suspend r])
    else none
  | .reread, .tick => some ({ c with pc := clientRereadTarget c.client.status }, [.reread c.client.status])
  -- the handler is given `s` here too, not `len`
  | .handleSuspended, i => clientHandle c i
  | .test, .tick => some ({ c with pc := if c.s > 0 then .clear else .releaseSock }, [])
  -- exit:
  | .releaseSock, .tick =>
    match c.client.releaseSock with
    | none                 => none
    | some (client, freed) => some ({ c with pc := .didDisconnect, client := client }, [.releaseSock freed])
  | .didDisconnect, .tick =>
    some ({ c with pc := .releaseClient }, callClientIf c.client.handlers.didDisconnect .didDisconnect)
  | .releaseClient, .tick =>
    let r := sxRelease c.client.obj
    some ({ c with pc := if r.2 then .freeClient else .done, client := { c.client with obj := r.1 } },
      [.releaseClient r.2])
  | .freeClient, .tick =>
    match c.client.releaseSock with
    | none                 => none
    | some (client, freed) => some ({ c with pc := .freed, client := client }, [.releaseSock freed, .freeClient])
  | _, _ => none

/-! ## The moves of a client, one case per outcome -/

/-- What one step of the loop of a client can do. -/
inductive ClientMove (c : ClientLoop) : Input → ClientLoop → List ClientEvent → Prop
  | setStatus (h : c.pc = .setStatus) : ClientMove c .tick
      { c with pc := .clear, s := 0, suspended := false, client := { c.client with status := .running } } []
  | clear (h : c.pc = .clear) (buf : List Byte) : ClientMove c .tick
      { c with pc := .branch, client := { c.client with buf := buf } } [.iterate]
  | branchRunning (h : c.pc = .branch) (hs : c.client.status = .running) :
      ClientMove c .tick { c with pc := .callRecv } [.branch .running]
  | branchResuming (h : c.pc = .branch) (hs : c.client.status = .resuming) :
      ClientMove c .tick { c with pc := .setRunning } [.branch .resuming]
  | branchSuspend (h : c.pc = .branch) (hs : c.client.status = .suspend) :
      ClientMove c .tick { c with pc := .willSuspend } [.branch .suspend]
  | branchDefault (h : c.pc = .branch) (hd : ¬ c.client.status.Delivers) (hs : c.client.status ≠ .suspend) :
      ClientMove c .tick { c with pc := .test } [.branch c.client.status]
  | callRecv (h : c.pc = .callRecv) :
      ClientMove c .tick { c with pc := .recv, want := c.client.dataSize } [.accessSock]
  | recvFails (h : c.pc = .recv) : ClientMove c (.recv none)
      { c with pc := .releaseSock, s := minusOne } [.recv .running none]
  | recv (h : c.pc = .recv) (bs : List Byte) (hok : recvOk c.want (some bs) = true) :
      ClientMove c (.recv (some bs))
      { c with
        pc     := .handle
        s      := BitVec.ofNat 64 bs.length
        client := { c.client with buf := bs ++ c.client.buf.drop bs.length } } [.recv .running (some bs)]
  | handle (h : c.pc = .handle ∨ c.pc = .handleSuspended) (ret : SizeT) (buf : List Byte)
      (hset : c.client.handlers.dataHandler = true) (hlen : buf.length = c.client.buf.length) :
      ClientMove c (.handler ret buf)
      { c with pc := .test, s := ret, client := { c.client with buf := buf } }
      [.dataHandler c.client.buf c.s ret]
  | handleNull (h : c.pc = .handle ∨ c.pc = .handleSuspended)
      (hset : c.client.handlers.dataHandler = false) : ClientMove c .tick { c with pc := .test } []
  | setRunning (h : c.pc = .setRunning) : ClientMove c .tick
      { c with pc := .didResume, client := { c.client with status := .running } } []
  | didResume (h : c.pc = .didResume) : ClientMove c .tick
      { c with pc := .test } (callClientIf c.client.handlers.didResume .didResume)
  | willSuspend (h : c.pc = .willSuspend) : ClientMove c .tick
      { c with pc := .callRecvSuspended, suspended := true }
      (callClientIf (!c.suspended && c.client.handlers.willSuspend) .willSuspend)
  | callRecvSuspended (h : c.pc = .callRecvSuspended) :
      ClientMove c .tick { c with pc := .recvSuspended, want := c.client.dataSize } [.accessSock]
  | recvSuspendedFails (h : c.pc = .recvSuspended) : ClientMove c (.recv none)
      { c with pc := .releaseSock, len := minusOne } [.recv .suspend none]
  | recvSuspendedEmpty (h : c.pc = .recvSuspended) : ClientMove c (.recv (some []))
      { c with pc := .releaseSock, len := 0 } [.recv .suspend (some [])]
  | recvSuspended (h : c.pc = .recvSuspended) (bs : List Byte) (hok : recvOk c.want (some bs) = true)
      (hne : bs ≠ []) : ClientMove c (.recv (some bs))
      { c with
        pc     := .reread
        len    := BitVec.ofNat 64 bs.length
        client := { c.client with buf := bs ++ c.client.buf.drop bs.length } } [.recv .suspend (some bs)]
  | rereadEnds (h : c.pc = .reread) (hs : c.client.status.Ends) :
      ClientMove c .tick { c with pc := .releaseSock } [.reread c.client.status]
  | rereadDelivers (h : c.pc = .reread) (hs : c.client.status.Delivers) :
      ClientMove c .tick { c with pc := .handleSuspended } [.reread c.client.status]
  | rereadSkips (h : c.pc = .reread) (hs : ¬ c.client.status.Ends) (hd : ¬ c.client.status.Delivers) :
      ClientMove c .tick { c with pc := .test } [.reread c.client.status]
  | testKeeps (h : c.pc = .test) (hs : c.s ≠ 0) : ClientMove c .tick { c with pc := .clear } []
  | testEnds (h : c.pc = .test) (hs : c.s = 0) : ClientMove c .tick { c with pc := .releaseSock } []
  | releaseSock (h : c.pc = .releaseSock) (client : Client) (freed : Bool)
      (hr : c.client.releaseSock = some (client, freed)) :
      ClientMove c .tick { c with pc := .didDisconnect, client := client } [.releaseSock freed]
  | didDisconnect (h : c.pc = .didDisconnect) : ClientMove c .tick
      { c with pc := .releaseClient } (callClientIf c.client.handlers.didDisconnect .didDisconnect)
  | releaseClient (h : c.pc = .releaseClient) : ClientMove c .tick
      { c with
        pc     := if (sxRelease c.client.obj).2 then .freeClient else .done
        client := { c.client with obj := (sxRelease c.client.obj).1 } }
      [.releaseClient (sxRelease c.client.obj).2]
  | freeClient (h : c.pc = .freeClient) (client : Client) (freed : Bool)
      (hr : c.client.releaseSock = some (client, freed)) :
      ClientMove c .tick { c with pc := .freed, client := client } [.releaseSock freed, .freeClient]

theorem clientBranchTarget_default {st : Status} (hd : ¬ st.Delivers) (hs : st ≠ .suspend) :
    clientBranchTarget st = .test := by
  cases st <;> simp_all [Status.Delivers, clientBranchTarget]

theorem clientRereadTarget_ends {st : Status} (h : st.Ends) : clientRereadTarget st = .releaseSock := by
  rcases h with rfl | rfl <;> rfl

theorem clientRereadTarget_delivers {st : Status} (h : st.Delivers) :
    clientRereadTarget st = .handleSuspended := by
  rcases h with rfl | rfl <;> rfl

theorem clientRereadTarget_default {st : Status} (he : ¬ st.Ends) (hd : ¬ st.Delivers) :
    clientRereadTarget st = .test := by
  cases st <;> simp_all [Status.Ends, Status.Delivers, clientRereadTarget]

/-- A call of the data handler, or the statement without one when it is not set, is a move. -/
theorem clientHandle_move {c c' : ClientLoop} {i : Input} {es : List ClientEvent}
    (hpc : c.pc = .handle ∨ c.pc = .handleSuspended) (h : clientHandle c i = some (c', es)) :
    ClientMove c i c' es := by
  cases i with
  | recv r => cases h
  | tick =>
      simp only [clientHandle] at h
      split at h
      · cases h
      · rename_i hset
        cases h
        exact .handleNull hpc (Bool.eq_false_iff.mpr hset)
  | handler ret buf =>
      simp only [clientHandle] at h
      split at h
      · rename_i hok
        cases h
        simp only [Bool.and_eq_true, beq_iff_eq] at hok
        exact .handle hpc ret buf hok.1 hok.2
      · cases h

/-- **Every step is a move.** -/
theorem clientStep_move {c c' : ClientLoop} {i : Input} {es : List ClientEvent}
    (h : clientStep c i = some (c', es)) : ClientMove c i c' es := by
  cases hpc : c.pc
  case handle =>
    simp only [clientStep, hpc] at h
    exact clientHandle_move (.inl hpc) h
  case handleSuspended =>
    simp only [clientStep, hpc] at h
    exact clientHandle_move (.inr hpc) h
  all_goals cases i <;> simp only [clientStep, hpc, reduceCtorEq] at h
  case setStatus.tick => cases h; exact .setStatus hpc
  case clear.tick => cases h; exact .clear hpc _
  case branch.tick =>
    cases h
    by_cases hd : c.client.status.Delivers
    · rcases hd with hd | hd <;> rw [hd]
      · exact .branchResuming hpc hd
      · exact .branchRunning hpc hd
    · by_cases hs : c.client.status = .suspend
      · rw [hs]; exact .branchSuspend hpc hs
      · rw [clientBranchTarget_default hd hs]; exact .branchDefault hpc hd hs
  case callRecv.tick =>
    split at h
    · cases h; exact .callRecv hpc
    · cases h
  case recv.recv r =>
    split at h
    case isFalse => cases h
    case isTrue hok =>
      cases h
      cases r with
      | none => exact .recvFails hpc
      | some bs => rw [if_neg (recvValue_ne_minusOne hok)]; exact .recv hpc bs hok
  case setRunning.tick => cases h; exact .setRunning hpc
  case didResume.tick => cases h; exact .didResume hpc
  case willSuspend.tick => cases h; exact .willSuspend hpc
  case callRecvSuspended.tick =>
    split at h
    · cases h; exact .callRecvSuspended hpc
    · cases h
  case recvSuspended.recv r =>
    split at h
    case isFalse => cases h
    case isTrue hok =>
      cases h
      cases r with
      | none => exact .recvSuspendedFails hpc
      | some bs =>
          by_cases hne : bs = []
          · subst hne; exact .recvSuspendedEmpty hpc
          · rw [if_neg (not_or.mpr ⟨recvValue_ne_zero hok hne, recvValue_ne_minusOne hok⟩)]
            exact .recvSuspended hpc bs hok hne
  case reread.tick =>
    cases h
    by_cases he : c.client.status.Ends
    · rw [clientRereadTarget_ends he]; exact .rereadEnds hpc he
    · by_cases hd : c.client.status.Delivers
      · rw [clientRereadTarget_delivers hd]; exact .rereadDelivers hpc hd
      · rw [clientRereadTarget_default he hd]; exact .rereadSkips hpc he hd
  case test.tick =>
    cases h
    by_cases hs : c.s = 0
    · simpa [hs] using ClientMove.testEnds hpc hs
    · have hgt : c.s > 0 := (BitVec.pos_iff_ne_zero c.s).mpr hs
      rw [if_pos hgt]; exact .testKeeps hpc hs
  case releaseSock.tick =>
    split at h
    · cases h
    · rename_i client freed hr
      cases h; exact .releaseSock hpc client freed hr
  case didDisconnect.tick => cases h; exact .didDisconnect hpc
  case releaseClient.tick => cases h; exact .releaseClient hpc
  case freeClient.tick =>
    split at h
    · cases h
    · rename_i client freed hr
      cases h; exact .freeClient hpc client freed hr

/-! ## The loop among other parties -/

/-- A step of the loop, or the doing of another party: a request on the client, or a plain write to its
    status. -/
inductive ClientAct
  | loop (i : Input)
  | suspend
  | resume
  | setStatus (st : Status)
  deriving DecidableEq, Repr

/-- The doing of a party other than the loop. -/
def ClientAct.ByOther : ClientAct → Bool
  | .loop _ => false
  | _       => true

/-- `SXSuspendObject(client)` on a client. -/
def Client.suspendObject (client : Client) : SXError × Client :=
  let r := sxSuspendObject (some client.toRuntimeObject)
  (r.1, { client with toRuntimeObject := r.2.getD client.toRuntimeObject })

/-- `SXResumeObject(client)` on a client. -/
def Client.resumeObject (client : Client) : SXError × Client :=
  let r := sxResumeObject (some client.toRuntimeObject)
  (r.1, { client with toRuntimeObject := r.2.getD client.toRuntimeObject })

/-- One step of a client among other parties, who reach it until its memory is returned. -/
def clientSysStep (c : ClientLoop) : ClientAct → Option (ClientLoop × List ClientEvent)
  | .loop i       => clientStep c i
  | .suspend      =>
    if c.pc = .freed then none
    else some ({ c with client := c.client.suspendObject.2 }, [.suspendClient c.client.suspendObject.1])
  | .resume       =>
    if c.pc = .freed then none
    else some ({ c with client := c.client.resumeObject.2 }, [.resumeClient c.client.resumeObject.1])
  | .setStatus st =>
    if c.pc = .freed then none
    else some ({ c with client := { c.client with status := st } }, [.setClientStatus st])

/-- The event of a party other than the loop. -/
def ClientEvent.FromOther : ClientEvent → Bool
  | .suspendClient _ | .resumeClient _ | .setClientStatus _ => true
  | _ => false

/-- A request changes at most the status of a client. -/
theorem Client.suspendObject_status (client : Client) :
    ∃ st, client.suspendObject.2 = { client with status := st } := by
  rcases sxSuspendObject_spec client.toRuntimeObject with ⟨_, h⟩ | ⟨_, _, _, h⟩
  · exact ⟨.suspend, by simp [Client.suspendObject, h]⟩
  · exact ⟨client.status, by simp [Client.suspendObject, h]⟩

theorem Client.resumeObject_status (client : Client) :
    ∃ st, client.resumeObject.2 = { client with status := st } := by
  rcases sxResumeObject_spec client.toRuntimeObject with ⟨_, h⟩ | ⟨_, _, _, h⟩
  · exact ⟨.resuming, by simp [Client.resumeObject, h]⟩
  · exact ⟨client.status, by simp [Client.resumeObject, h]⟩

/-- **What another party does**: it changes the status of the client and leaves the rest of it and the loop
    alone, and the one event is its own. -/
theorem clientSysStep_other {c c' : ClientLoop} {a : ClientAct} {es : List ClientEvent}
    (ha : a.ByOther = true) (hs : clientSysStep c a = some (c', es)) :
    ∃ st e, c' = { c with client := { c.client with status := st } } ∧ es = [e] ∧ e.FromOther = true := by
  cases a with
  | loop i => cases ha
  | suspend =>
      simp only [clientSysStep] at hs
      split at hs
      · cases hs
      · cases hs
        obtain ⟨st, h⟩ := c.client.suspendObject_status
        rw [h]
        exact ⟨st, _, rfl, rfl, rfl⟩
  | resume =>
      simp only [clientSysStep] at hs
      split at hs
      · cases hs
      · cases hs
        obtain ⟨st, h⟩ := c.client.resumeObject_status
        rw [h]
        exact ⟨st, _, rfl, rfl, rfl⟩
  | setStatus st =>
      simp only [clientSysStep] at hs
      split at hs
      · cases hs
      · cases hs
        exact ⟨st, _, rfl, rfl, rfl⟩

/-! ## Dispatch -/

/-- `SXSocketConnect`, when `connect` succeeded or failed. -/
def sxSocketConnect (connected : Bool) : SXError := if connected then sxSuccess else sxErrorSysConnect

/-- `SXStartClient`: its result, and the loop it dispatched. -/
def sxStartClient (connected : Bool) (client : Client) : Option (SXError × Option ClientLoop) :=
  match client.sock with
  | none   => none
  | some _ =>
    let err := sxSocketConnect connected
    if err ≠ sxSuccess then some (err, none) else some (err, some { client := client })

/-- A dispatched loop is at its first statement, with the client as it was. -/
theorem sxStartClient_spec {connected : Bool} {client : Client} {err : SXError} {c : ClientLoop}
    (h : sxStartClient connected client = some (err, some c)) : c = { client := client } := by
  unfold sxStartClient at h
  split at h
  · cases h
  · dsimp only at h
    split at h <;> cases h
    rfl

/-- **Invariant rule for a client.** What holds of the client at the dispatch, and is preserved by every move of its
    loop and by every write of another party to its status, holds after every run. -/
theorem client_run_invariant {I : ClientLoop → List ClientEvent → Prop}
    (hmove : ∀ c i c' tr es, I c tr → ClientMove c i c' es → I c' (tr ++ es))
    (hother : ∀ c tr st e, I c tr → e.FromOther = true →
      I { c with client := { c.client with status := st } } (tr ++ [e]))
    {connected : Bool} {client : Client} {err : SXError} {c₀ c : ClientLoop} {acts : List ClientAct}
    {tr : List ClientEvent} (hstart : sxStartClient connected client = some (err, some c₀))
    (h0 : I { client := client } []) (hrun : Machine.run clientSysStep c₀ acts = some (c, tr)) : I c tr := by
  rw [sxStartClient_spec hstart] at hrun
  have hstep (c₁ : ClientLoop) (tr₁ : List ClientEvent) (a : ClientAct) (c₂ : ClientLoop) (es : List ClientEvent)
      (hi : I c₁ tr₁) (hs : clientSysStep c₁ a = some (c₂, es)) : I c₂ (tr₁ ++ es) := by
    cases a with
    | loop i => exact hmove c₁ i c₂ tr₁ es hi (clientStep_move hs)
    | suspend | resume | setStatus _ =>
        obtain ⟨st, e, rfl, rfl, he⟩ := clientSysStep_other rfl hs
        exact hother c₁ tr₁ st e hi he
  have hi := Machine.run_invariant (I := I) hstep h0 hrun
  rwa [List.nil_append] at hi

/-! ## A client at work -/

/-- A client with every handler set and a buffer of one byte. -/
def listeningClient : Client :=
  { sock := some { sockfd := 3 }, dataSize := 1, buf := [0]
    handlers := { willSuspend := true, didResume := true, dataHandler := true, didDisconnect := true } }

/-- The loop dispatched for it. -/
def listening : ClientLoop := { client := listeningClient }

/-- Statements of the loop that get nothing from outside. -/
def ticks (n : Nat) : List ClientAct := List.replicate n (.loop .tick)

/-- The loop up to the exit test behind its first message. -/
def firstMessage (bs : List Byte) (answer : SizeT) : List ClientAct :=
  ticks 4 ++ [.loop (.recv (some bs)), .loop (.handler answer [0]), .loop .tick]

/-- A second message in suspension, which a resume request lets through and whose answer ends the loop. -/
def lastMessage (answer : SizeT) : List ClientAct :=
  [.suspend] ++ ticks 4 ++ [.loop (.recv (some [6])), .resume, .loop .tick, .loop (.handler answer [0])] ++ ticks 2

end SpartanX
