import SpartanX.Kqueue.Handling
import SpartanX.Shared

/-!
# `Kqueue.Loop` — `SXServerStart_kqueue` and the event loop it dispatches

The event loop is one block: it waits for a batch of events, accepts a connection for an event of the
listening socket and handles the events of the connections (`Kqueue.Handling`). The parties around it are the
start function itself, which gives its reference back after the dispatch, the owner of the server, and whoever
changes statuses. A descriptor that `kevent` reports is one that is registered, and reported once in a batch;
`accept` returns a descriptor that is not in use.

## Contents
- **The system.** `KqPc`, `Kq`, `KqAct`, `kqLoopStep`, `kqStep`, `sxServerStartKqueue`.
- **What a step does.** `KqMove` (`kqLoopStep_move`).
-/

namespace SpartanX

open CInt

/-! ## The system -/

/-- The statement the event loop executes next. -/
inductive KqPc
  | setRunning     -- server->status = sx_status_running
  | didStart
  | events         -- struct kevent events[server->max_guest + 1]
  | kqueue
  | listen
  | register       -- EV_SET(&change, server->sock->sockfd, ..); kevent(kq, &change, ..)
  | head           -- while (server->status != sx_status_should_terminate)
  | callKevent
  | kevent
  | next           -- for (i < n_ev_changes): if (events[i].ident == server->sock->sockfd)
  | checkGuests    -- if (!(count >= server->max_guest))
  | callAccept
  | accept
  | addConn        -- SXCreateQueue; EV_ADD; queue->status = sx_status_running; count++
  | handling
  | done
  deriving DecidableEq, Repr

/-- A registered connection: its descriptor and its queue. -/
structure Registered where
  sockfd : IntT
  queue  : Queue
  deriving DecidableEq, Repr

/-- A server started by `SXServerStart_kqueue`. `starter` and `owner` tell whether the start function and the
    owner still have their references; `cur` is the handling the loop is in, whose connection is not among
    `conns` meanwhile. -/
structure Kq where
  server   : Server
  starter  : Bool            := true
  owner    : Bool            := true
  pc       : KqPc            := .setRunning
  count    : SizeT           := 0
  nevents  : SizeT           := 0
  listenFd : IntT            := 0
  batch    : List IntT       := []
  newFd    : IntT            := 0
  conns    : List Registered := []
  cur      : Handling        := {}
  deriving DecidableEq, Repr

/-- What a step of the event loop gets from outside: nothing, whether `kqueue` succeeded, the identifiers that
    `kevent` reports (`none` for `-1`), the return of `accept`, the values of the uninitialised variables of the
    next event, or what a step of the handling gets. -/
inductive KqInput
  | tick
  | kqueue (ok : Bool)
  | kevent (batch : Option (List IntT))
  | accept (fd : Option IntT)
  | next (junk : SizeT) (suspended : Bool)
  | handling (i : Input)
  deriving DecidableEq, Repr

/-- A step of the system. Requests go to the queue of the registered connection `k`, or to the one whose event
    is being handled. -/
inductive KqAct
  | starter
  | owner
  | loop (i : KqInput)
  | setStatus (st : Status)
  | queue (k : Nat) (a : ConnAct)
  | curQueue (a : ConnAct)
  deriving DecidableEq, Repr

/-- The descriptors that are registered. -/
def Kq.registeredFds (s : Kq) : List IntT := s.listenFd :: s.conns.map (·.sockfd)

/-- What `kevent` may report: every registered descriptor at most once, no other, and no more events than it
    was asked for. -/
def Kq.keventOk (s : Kq) (batch : List IntT) : Bool :=
  batch.Nodup && batch.all (s.registeredFds.contains ·) && batch.length ≤ s.nevents.toNat

/-- The next event of the batch; `junk` and `suspended` are what the uninitialised variables hold if it is an
    event of a connection. -/
def kqNext (s : Kq) (junk : SizeT) (suspended : Bool) : Option (Kq × List SysEvent) :=
  match s.batch with
  | []             => some ({ s with pc := .head }, [])
  | ident :: batch =>
    match s.server.sock with
    | none      => none
    | some sock =>
      if ident = sock.sockfd then some ({ s with pc := .checkGuests, batch := batch }, [.access])
      else
        -- `events[i].udata` is the queue that was registered with the descriptor
        match s.conns.find? (·.sockfd == ident) with
        | none   => none
        | some r =>
          some ({ s with
            pc    := .handling
            batch := batch
            conns := s.conns.erase r
            cur   := { s := junk, suspended := suspended, queue := r.queue, sockfd := r.sockfd } },
            [.access])

/-- One step of the handling of an event. -/
def kqHandle (s : Kq) (i : Input) : Option (Kq × List SysEvent) :=
  match handlingStep s.server s.cur i with
  | none         => none
  | some (h, es) =>
    if h.pc = .kept then
      some ({ s with
        pc    := .next
        cur   := h
        conns := s.conns ++ [{ sockfd := h.sockfd, queue := h.queue }] }, es.map .handling)
    else if h.pc = .closed then
      some ({ s with pc := .next, cur := h, count := s.count - 1 }, es.map .handling)
    else some ({ s with cur := h }, es.map .handling)

/-- One step of the event loop. -/
def kqLoopStep (s : Kq) (i : KqInput) : Option (Kq × List SysEvent) :=
  match s.pc, i with
  | .setRunning, .tick =>
    some ({ s with pc := .didStart, server := { s.server with status := .running } }, [.access])
  | .didStart, .tick => some ({ s with pc := .events }, [.access])
  | .events, .tick => some ({ s with pc := .kqueue }, [.access])
  | .kqueue, .kqueue ok => some ({ s with pc := if ok then .listen else .done }, [])
  | .listen, .tick =>
    match s.server.sock with
    | none   => none
    | some _ => some ({ s with pc := .register }, [.access])
  | .register, .tick =>
    match s.server.sock with
    | none      => none
    | some sock => some ({ s with pc := .head, listenFd := sock.sockfd }, [.access])
  | .head, .tick =>
    some ({ s with pc := if s.server.status ≠ .shouldTerminate then .callKevent else .done }, [.access])
  | .callKevent, .tick => some ({ s with pc := .kevent, nevents := s.server.maxGuest + 1 }, [.access])
  | .kevent, .kevent r =>
    match r with
    | none       => some ({ s with pc := .done }, [])
    | some batch => if s.keventOk batch then some ({ s with pc := .next, batch := batch }, []) else none
  | .next, .next junk suspended => kqNext s junk suspended
  | .checkGuests, .tick =>
    some ({ s with pc := if ¬ s.server.maxGuest ≤ s.count then .callAccept else .next }, [.access])
  | .callAccept, .tick =>
    match s.server.sock with
    | none   => none
    | some _ => some ({ s with pc := .accept }, [.access])
  | .accept, .accept r =>
    match r with
    -- `SXRelease(socket)` frees the socket that was to hold the descriptor
    | none    => some ({ s with pc := .next }, [])
    | some fd =>
      if s.registeredFds.contains fd then none else some ({ s with pc := .addConn, newFd := fd }, [])
  | .addConn, .tick =>
    match sxCreateQueue (some { obj := sxObjInit {} .freeSocket, domain := .unspec, sockfd := s.newFd }) with
    | none                => none
    | some (queue, sock) =>
      some ({ s with
        pc    := .next
        conns := s.conns ++ [{ sockfd := sock.sockfd, queue := { queue with status := .running } }]
        count := s.count + 1 }, [.dispatched])
  | .handling, .handling i => kqHandle s i
  | _, _ => none

/-- One step of a started server. -/
def kqStep (calls : SocketCalls) (s : Kq) : KqAct → Option (Kq × List SysEvent)
  | .starter =>
    if s.starter then
      match sxReleaseServer calls s.server with
      | none                 => none
      | some (server, freed) => some ({ s with starter := false, server := server }, freedIf freed)
    else none
  -- the owner's release comes after the return of the start function
  | .owner =>
    if s.owner && !s.starter then
      match sxReleaseServer calls s.server with
      | none                 => none
      | some (server, freed) => some ({ s with owner := false, server := server }, freedIf freed)
    else none
  | .loop i => kqLoopStep s i
  | .setStatus st => some ({ s with server := { s.server with status := st } }, [])
  | .queue k a =>
    match s.conns[k]? with
    | none   => none
    | some r =>
      if a.ByOther then
        match handlingSysStep s.server { queue := r.queue } a with
        | none         => none
        | some (h, es) => some ({ s with conns := s.conns.set k { r with queue := h.queue } }, es.map .handling)
      else none
  | .curQueue a =>
    if s.pc = .handling ∧ a.ByOther = true then
      match handlingSysStep s.server s.cur a with
      | none         => none
      | some (h, es) => some ({ s with cur := h }, es.map .handling)
    else none

/-- `SXServerStart_kqueue`: the error code and, in the success case, the system right after the dispatch, with
    the release of the start function still to come. -/
def sxServerStartKqueue (server : Server) : Option (SXError × Option Kq) :=
  match server.sock with
  | none      => none
  | some sock =>
    if sock.type = .dgram then some (sxErrorServerCannotBeDgram, none)
    else some (sxSuccess, some { server := { server with obj := sxRetain server.obj } })

/-- What a successful `SXServerStart_kqueue` starts from. -/
theorem sxServerStartKqueue_spec {server : Server} {s : Kq}
    (h : sxServerStartKqueue server = some (sxSuccess, some s)) :
    s = { server := { server with obj := sxRetain server.obj } } := by
  simp only [sxServerStartKqueue] at h
  split at h
  · cases h
  split at h
  · cases h
  · cases h
    rfl

/-- The connections that are registered: those waiting for events and the one whose event is being handled,
    which counts up to the `--count` that ends its deregistration. -/
def Kq.registered (s : Kq) : Nat := s.conns.length + if s.pc = .handling then 1 else 0

/-! ## What a step of the loop does -/

/-- The program points between the passed test for guests and the registration. -/
def KqPc.Entered : KqPc → Bool
  | .callAccept | .accept | .addConn => true
  | _ => false

/-- What one step of the event loop can do. `touch` stands for the steps that move on and at most read the
    server or write its status. -/
inductive KqMove (s : Kq) : Kq → Prop
  | touch (s' : Kq) (hserver : s'.server.maxGuest = s.server.maxGuest) (hcount : s'.count = s.count)
      (hconns : s'.conns = s.conns) (hpc : s.pc ≠ .handling) (hpc' : s'.pc ≠ .handling)
      (hentered : s'.pc.Entered = true → s.pc.Entered = true) : KqMove s s'
  | enter (hpc : s.pc = .checkGuests) (hlt : s.count < s.server.maxGuest) :
      KqMove s { s with pc := .callAccept }
  | add (hpc : s.pc = .addConn) (r : Registered) :
      KqMove s { s with pc := .next, conns := s.conns ++ [r], count := s.count + 1 }
  | begin (hpc : s.pc = .next) (r : Registered) (hr : r ∈ s.conns) (batch : List IntT) (h : Handling) :
      KqMove s { s with pc := .handling, batch := batch, conns := s.conns.erase r, cur := h }
  | handle (hpc : s.pc = .handling) (h : Handling) : KqMove s { s with cur := h }
  | keep (hpc : s.pc = .handling) (h : Handling) (r : Registered) :
      KqMove s { s with pc := .next, cur := h, conns := s.conns ++ [r] }
  | close (hpc : s.pc = .handling) (h : Handling) :
      KqMove s { s with pc := .next, cur := h, count := s.count - 1 }

/-- What a step outside the handling of an event is to the handlings: it leaves the last one alone or begins a new
    one, and emits nothing of a handling. -/
structure KqOutside (s s' : Kq) (es : List SysEvent) : Prop where
  cur    : s'.cur = s.cur ∧ s'.pc ≠ .handling ∨ s'.cur.pc = .clear
  events : ∀ e ∈ es, ∀ ce, e ≠ .handling ce

/-- The next event of a batch. -/
theorem kqNext_move {s s' : Kq} {junk : SizeT} {suspended : Bool} {es : List SysEvent} (hpc : s.pc = .next)
    (h : kqNext s junk suspended = some (s', es)) : KqMove s s' ∧ .freed ∉ es ∧ KqOutside s s' es := by
  unfold kqNext at h
  split at h
  · cases h
    exact ⟨.touch _ rfl rfl rfl (by simp [hpc]) (by simp) (by simp [KqPc.Entered]), by simp,
      .inl ⟨rfl, by simp⟩, by simp⟩
  rename_i ident batch _
  split at h
  · cases h
  split at h
  · cases h
    exact ⟨.touch _ rfl rfl rfl (by simp [hpc]) (by simp) (by simp [KqPc.Entered]), by simp,
      .inl ⟨rfl, by simp⟩, by simp⟩
  split at h
  · cases h
  rename_i r hr
  cases h
  exact ⟨.begin hpc r (List.mem_of_find?_eq_some hr) batch _, by simp, .inr rfl, by simp⟩

/-- A step of the handling of an event. -/
theorem kqHandle_move {s s' : Kq} {i : Input} {es : List SysEvent} (hpc : s.pc = .handling)
    (h : kqHandle s i = some (s', es)) : KqMove s s' ∧ .freed ∉ es := by
  unfold kqHandle at h
  split at h
  · cases h
  rename_i hd ces _
  split at h
  · cases h
    exact ⟨.keep hpc hd _, by simp⟩
  split at h
  · cases h
    exact ⟨.close hpc hd, by simp⟩
  · cases h
    exact ⟨.handle hpc hd, by simp⟩

/-- **Every step of the loop is a move**, made by a loop that has not ended; it deallocates nothing, and has to do
    with a handling only inside one. -/
theorem kqLoopStep_move {s s' : Kq} {i : KqInput} {es : List SysEvent} (h : kqLoopStep s i = some (s', es)) :
    KqMove s s' ∧ s.pc ≠ .done ∧ .freed ∉ es ∧ (s.pc ≠ .handling → KqOutside s s' es) := by
  have htouch {s' : Kq} {es : List SysEvent} {pc : KqPc} (hpc : s.pc = pc)
      (hsame : s'.server.maxGuest = s.server.maxGuest ∧ s'.count = s.count ∧ s'.conns = s.conns ∧ s'.cur = s.cur)
      (hne : pc ≠ .handling ∧ pc ≠ .done ∧ s'.pc ≠ .handling)
      (hentered : s'.pc.Entered = true → pc.Entered = true) (hes : es = [.access] ∨ es = []) :
      KqMove s s' ∧ pc ≠ .done ∧ .freed ∉ es ∧ (pc ≠ .handling → KqOutside s s' es) := by
    subst hpc
    obtain ⟨hguests, hcount, hconns, hcur⟩ := hsame
    refine ⟨.touch s' hguests hcount hconns hne.1 hne.2.2 hentered, hne.2.1, ?_, ?_⟩
    · rcases hes with rfl | rfl <;> simp
    · intro _
      refine ⟨.inl ⟨hcur, hne.2.2⟩, ?_⟩
      rcases hes with rfl | rfl <;> simp
  unfold kqLoopStep at h
  cases hpc : s.pc <;> cases i <;> simp only [hpc, reduceCtorEq] at h
  case setRunning.tick | didStart.tick | events.tick | callKevent.tick =>
    cases h
    exact htouch hpc ⟨rfl, rfl, rfl, rfl⟩ (by simp) (by simp [KqPc.Entered]) (.inl rfl)
  case kqueue.kqueue ok =>
    cases h
    exact htouch hpc ⟨rfl, rfl, rfl, rfl⟩ (by cases ok <;> simp) (by cases ok <;> simp [KqPc.Entered]) (.inr rfl)
  case listen.tick | register.tick =>
    split at h
    · cases h
    · cases h
      exact htouch hpc ⟨rfl, rfl, rfl, rfl⟩ (by simp) (by simp [KqPc.Entered]) (.inl rfl)
  case head.tick =>
    cases h
    exact htouch hpc ⟨rfl, rfl, rfl, rfl⟩ (by split <;> simp) (by split <;> simp [KqPc.Entered]) (.inl rfl)
  case kevent.kevent r =>
    cases r with
    | none => cases h; exact htouch hpc ⟨rfl, rfl, rfl, rfl⟩ (by simp) (by simp [KqPc.Entered]) (.inr rfl)
    | some batch =>
        dsimp only at h
        split at h
        · cases h; exact htouch hpc ⟨rfl, rfl, rfl, rfl⟩ (by simp) (by simp [KqPc.Entered]) (.inr rfl)
        · cases h
  case next.next junk suspended =>
    obtain ⟨hm, hes, hout⟩ := kqNext_move hpc h
    exact ⟨hm, by simp, hes, fun _ => hout⟩
  case checkGuests.tick =>
    by_cases hle : s.server.maxGuest ≤ s.count
    · rw [if_neg (not_not.mpr hle)] at h
      cases h
      exact htouch hpc ⟨rfl, rfl, rfl, rfl⟩ (by simp) (by simp [KqPc.Entered]) (.inl rfl)
    · rw [if_pos hle] at h
      cases h
      exact ⟨.enter hpc (BitVec.not_le.mp hle), by simp, by simp, fun _ => ⟨.inl ⟨rfl, by simp⟩, by simp⟩⟩
  case callAccept.tick =>
    split at h
    · cases h
    · cases h
      exact htouch hpc ⟨rfl, rfl, rfl, rfl⟩ (by simp) (fun _ => rfl) (.inl rfl)
  case accept.accept r =>
    cases r with
    | none => cases h; exact htouch hpc ⟨rfl, rfl, rfl, rfl⟩ (by simp) (by simp [KqPc.Entered]) (.inr rfl)
    | some fd =>
        dsimp only at h
        split at h
        · cases h
        · cases h; exact htouch hpc ⟨rfl, rfl, rfl, rfl⟩ (by simp) (fun _ => rfl) (.inr rfl)
  case addConn.tick =>
    cases h
    exact ⟨.add hpc _, by simp, by simp, fun _ => ⟨.inl ⟨rfl, by simp⟩, by simp⟩⟩
  case handling.handling i =>
    obtain ⟨hm, hes⟩ := kqHandle_move hpc h
    exact ⟨hm, by simp, hes, fun hne => absurd rfl hne⟩

/-- What somebody does to the status of the server or of a queue leaves the connections, their number and the
    count alone. -/
theorem kqStep_other {calls : SocketCalls} {s s' : Kq} {a : KqAct} {es : List SysEvent}
    (h : kqStep calls s a = some (s', es))
    (ha : (∃ st, a = .setStatus st) ∨ (∃ k act, a = .queue k act) ∨ ∃ act, a = .curQueue act) :
    s'.server.maxGuest = s.server.maxGuest ∧ s'.server.obj = s.server.obj ∧ s'.pc = s.pc ∧
      s'.count = s.count ∧ s'.conns.length = s.conns.length ∧ ∀ e ∈ es, e.Accesses = false ∧ e ≠ .freed := by
  rcases ha with ⟨st, rfl⟩ | ⟨k, act, rfl⟩ | ⟨act, rfl⟩
  · simp only [kqStep] at h
    cases h
    exact ⟨rfl, rfl, rfl, rfl, rfl, by simp⟩
  · simp only [kqStep] at h
    split at h
    · cases h
    split at h
    · rename_i hother
      split at h
      · cases h
      rename_i hd ces hstep
      cases h
      refine ⟨rfl, rfl, rfl, rfl, List.length_set, ?_⟩
      cases act with
      | block _ _ => cases hother
      | suspend | resume | setStatus _ => cases hstep; simp [SysEvent.Accesses, ConnEvent.AccessesServer]
    · cases h
  · simp only [kqStep] at h
    split at h
    · rename_i hother
      split at h
      · cases h
      rename_i hd ces hstep
      cases h
      refine ⟨rfl, rfl, rfl, rfl, rfl, ?_⟩
      cases act with
      | block _ _ => cases hother.2
      | suspend | resume | setStatus _ => cases hstep; simp [SysEvent.Accesses, ConnEvent.AccessesServer]
    · cases h

end SpartanX
