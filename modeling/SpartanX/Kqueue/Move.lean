import SpartanX.Kqueue.Loop

/-!
# `Kqueue.Move` — what a step of the event loop can do, case by case

The inversions of `handlingStep` and of `kqLoopStep`, as `ConnMove` is the one of the connection block
(`handlingStep_move`, `kqLoopStep_loopMove`), what the other parties do to the loop (`kqStep_aside`), and what a
started server keeps of its fields (`kqStep_server`).
-/

namespace SpartanX

open CInt

/-! ## The handling of an event -/

/-- What one step of the handling of an event can do. -/
inductive HandlingMove (srv : Server) (h : Handling) : Handling → List ConnEvent → Prop
  | clear (hpc : h.pc = .clear) : HandlingMove srv h
      { h with pc := .compare, buf := List.replicate srv.dataSize.toNat 0 } [.accessServer, .iterate]
  | compareRunning (hpc : h.pc = .compare) (hs : srv.status = .running) :
      HandlingMove srv h { h with pc := .branch } [.compareStatus srv.status]
  | compareOther (hpc : h.pc = .compare) (hs : srv.status ≠ .running) :
      HandlingMove srv h { h with pc := .copy } [.compareStatus srv.status]
  | copy (hpc : h.pc = .copy) : HandlingMove srv h
      { h with pc := .branch, queue := { h.queue with status := srv.status } } [.copyStatus srv.status]
  | branchRunning (hpc : h.pc = .branch) (hs : h.queue.status = .running) :
      HandlingMove srv h { h with pc := .callRecv } [.branch h.queue.status]
  | branchResuming (hpc : h.pc = .branch) (hs : h.queue.status = .resuming) :
      HandlingMove srv h { h with pc := .setRunning } [.branch h.queue.status]
  | branchSuspend (hpc : h.pc = .branch) (hs : h.queue.status = .suspend) :
      HandlingMove srv h { h with pc := .willSuspend } [.branch h.queue.status]
  | branchEnds (hpc : h.pc = .branch) (hs : h.queue.status.Ends) :
      HandlingMove srv h { h with pc := .willKill } [.branch h.queue.status]
  | branchDefault (hpc : h.pc = .branch) : HandlingMove srv h { h with pc := .test } [.branch h.queue.status]
  | callRecv (hpc : h.pc = .callRecv) :
      HandlingMove srv h { h with pc := .recv, want := srv.dataSize } [.accessServer]
  | recvFails (hpc : h.pc = .recv) :
      HandlingMove srv h { h with pc := .close, s := minusOne } [.recv .running none]
  | recv (hpc : h.pc = .recv) (bs : List Byte) (hok : recvOk h.want (some bs) = true) : HandlingMove srv h
      { h with pc := .handle, s := BitVec.ofNat 64 bs.length, buf := bs ++ h.buf.drop bs.length }
      [.recv .running (some bs)]
  | handleFails (hpc : h.pc = .handle) (buf : List Byte) (hlen : buf.length = h.buf.length) : HandlingMove srv h
      { h with pc := .close, s := minusOne, buf := buf } [.accessServer, .dataHandler h.buf h.s minusOne]
  | handle (hpc : h.pc = .handle) (ret : SizeT) (buf : List Byte) (hlen : buf.length = h.buf.length)
      (hret : ret ≠ minusOne) : HandlingMove srv h
      { h with pc := .test, s := ret, buf := buf } [.accessServer, .dataHandler h.buf h.s ret]
  | setRunning (hpc : h.pc = .setRunning) :
      HandlingMove srv h { h with pc := .didResume, queue := { h.queue with status := .running } } []
  | didResume (hpc : h.pc = .didResume) : HandlingMove srv h
      { h with pc := .test } (.accessServer :: callIf srv.handlers.didResume .didResume)
  | willSuspend (hpc : h.pc = .willSuspend) : HandlingMove srv h
      { h with pc := .callRecvSuspended, suspended := true }
      (if h.suspended then [] else .accessServer :: callIf srv.handlers.willSuspend .willSuspend)
  | callRecvSuspended (hpc : h.pc = .callRecvSuspended) :
      HandlingMove srv h { h with pc := .recvSuspended, want := srv.dataSize } [.accessServer]
  | recvSuspendedFails (hpc : h.pc = .recvSuspended) :
      HandlingMove srv h { h with pc := .close, len := minusOne } [.recv .suspend none]
  | recvSuspendedEmpty (hpc : h.pc = .recvSuspended) :
      HandlingMove srv h { h with pc := .close, len := 0 } [.recv .suspend (some [])]
  | recvSuspended (hpc : h.pc = .recvSuspended) (bs : List Byte) (hok : recvOk h.want (some bs) = true)
      (hne : bs ≠ []) : HandlingMove srv h
      { h with pc := .reread, len := BitVec.ofNat 64 bs.length, buf := bs ++ h.buf.drop bs.length }
      [.recv .suspend (some bs)]
  | rereadEnds (hpc : h.pc = .reread) (hs : h.queue.status.Ends) :
      HandlingMove srv h { h with pc := .close } [.reread h.queue.status]
  | rereadDelivers (hpc : h.pc = .reread) (hs : h.queue.status.Delivers) :
      HandlingMove srv h { h with pc := .handleSuspended } [.reread h.queue.status]
  | rereadFalls (hpc : h.pc = .reread) (hs : ¬ h.queue.status.Ends) (hd : ¬ h.queue.status.Delivers) :
      HandlingMove srv h { h with pc := .willKill } [.reread h.queue.status]
  | handleSuspended (hpc : h.pc = .handleSuspended) (ret : SizeT) (buf : List Byte)
      (hlen : buf.length = h.buf.length) : HandlingMove srv h
      { h with pc := .willKill, s := ret, buf := buf } [.accessServer, .dataHandler h.buf h.len ret]
  | willKill (hpc : h.pc = .willKill) : HandlingMove srv h
      { h with pc := .close } (.accessServer :: callIf srv.handlers.willKill .willKill)
  | testKeeps (hpc : h.pc = .test) (hs : h.s ≠ 0) : HandlingMove srv h { h with pc := .kept } []
  | testEnds (hpc : h.pc = .test) (hs : h.s = 0) : HandlingMove srv h { h with pc := .close } []
  | close (hpc : h.pc = .close) : HandlingMove srv h { h with pc := .releaseQueue } [.close h.sockfd]
  | releaseQueue (hpc : h.pc = .releaseQueue) : HandlingMove srv h
      { h with pc := .didDisconnect, queue := { h.queue with obj := (sxRelease h.queue.obj).1 } }
      [.releaseQueue (sxRelease h.queue.obj).2]
  | didDisconnect (hpc : h.pc = .didDisconnect) : HandlingMove srv h
      { h with pc := .decCount } (.accessServer :: callIf srv.handlers.didDisconnect .didDisconnect)
  | decCount (hpc : h.pc = .decCount) : HandlingMove srv h { h with pc := .closed } [.decCount]

/-- Where the `switch` jumps to. -/
theorem handlingTarget_cases (st : Status) :
    (st = .running ∧ handlingTarget st = .callRecv) ∨ (st = .resuming ∧ handlingTarget st = .setRunning) ∨
      (st = .suspend ∧ handlingTarget st = .willSuspend) ∨ (st.Ends ∧ handlingTarget st = .willKill) ∨
      handlingTarget st = .test := by
  cases st <;> simp [handlingTarget, Status.Ends]

/-- Where the inner one does. -/
theorem handlingRereadTarget_cases (st : Status) :
    (st.Ends ∧ handlingRereadTarget st = .close) ∨ (st.Delivers ∧ handlingRereadTarget st = .handleSuspended) ∨
      (¬ st.Ends ∧ ¬ st.Delivers ∧ handlingRereadTarget st = .willKill) := by
  cases st <;> simp [handlingRereadTarget, Status.Ends, Status.Delivers]

/-- **Every step of a handling is a move.** -/
theorem handlingStep_move {srv : Server} {h h' : Handling} {i : Input} {es : List ConnEvent}
    (hs : handlingStep srv h i = some (h', es)) : HandlingMove srv h h' es := by
  cases hpc : h.pc <;> cases i <;> simp only [handlingStep, hpc, reduceCtorEq] at hs
  case clear.tick => cases hs; exact .clear hpc
  case compare.tick =>
    cases hs
    by_cases hst : srv.status = .running
    · rw [if_neg (not_not.mpr hst)]
      exact .compareRunning hpc hst
    · rw [if_pos hst]
      exact .compareOther hpc hst
  case copy.tick => cases hs; exact .copy hpc
  case branch.tick =>
    cases hs
    rcases handlingTarget_cases h.queue.status with ⟨hst, ht⟩ | ⟨hst, ht⟩ | ⟨hst, ht⟩ | ⟨hst, ht⟩ | ht <;> rw [ht]
    · exact .branchRunning hpc hst
    · exact .branchResuming hpc hst
    · exact .branchSuspend hpc hst
    · exact .branchEnds hpc hst
    · exact .branchDefault hpc
  case callRecv.tick => cases hs; exact .callRecv hpc
  case recv.recv r =>
    split at hs
    case isFalse => cases hs
    case isTrue hok =>
      cases hs
      cases r with
      | none => exact .recvFails hpc
      | some bs =>
          rw [if_pos (recvValue_ne_minusOne hok)]
          exact .recv hpc bs hok
  case handle.handler ret buf =>
    split at hs
    case isFalse => cases hs
    case isTrue hok =>
      cases hs
      simp only [Bool.and_eq_true, beq_iff_eq] at hok
      by_cases hret : ret = minusOne
      · subst hret
        rw [if_pos rfl]
        exact .handleFails hpc buf hok.2
      · rw [if_neg hret]
        exact .handle hpc ret buf hok.2 hret
  case setRunning.tick => cases hs; exact .setRunning hpc
  case didResume.tick => cases hs; exact .didResume hpc
  case willSuspend.tick => cases hs; exact .willSuspend hpc
  case callRecvSuspended.tick => cases hs; exact .callRecvSuspended hpc
  case recvSuspended.recv r =>
    split at hs
    case isFalse => cases hs
    case isTrue hok =>
      cases hs
      cases r with
      | none => exact .recvSuspendedFails hpc
      | some bs =>
          by_cases hne : bs = []
          · subst hne
            exact .recvSuspendedEmpty hpc
          · rw [if_neg (not_or.mpr ⟨recvValue_ne_zero hok hne, recvValue_ne_minusOne hok⟩)]
            exact .recvSuspended hpc bs hok hne
  case reread.tick =>
    cases hs
    rcases handlingRereadTarget_cases h.queue.status with ⟨hst, ht⟩ | ⟨hst, ht⟩ | ⟨hst, hd, ht⟩ <;> rw [ht]
    · exact .rereadEnds hpc hst
    · exact .rereadDelivers hpc hst
    · exact .rereadFalls hpc hst hd
  case handleSuspended.handler ret buf =>
    split at hs
    case isFalse => cases hs
    case isTrue hok =>
      cases hs
      simp only [Bool.and_eq_true, beq_iff_eq] at hok
      exact .handleSuspended hpc ret buf hok.2
  case willKill.tick => cases hs; exact .willKill hpc
  case test.tick =>
    cases hs
    by_cases hz : h.s = 0
    · rw [if_pos hz]
      exact .testEnds hpc hz
    · rw [if_neg hz]
      exact .testKeeps hpc hz
  case close.tick => cases hs; exact .close hpc
  case releaseQueue.tick => cases hs; exact .releaseQueue hpc
  case didDisconnect.tick => cases hs; exact .didDisconnect hpc
  case decCount.tick => cases hs; exact .decCount hpc

/-! ## The loop -/

/-- The statements of the loop before the listening socket is registered. -/
def KqPc.Starting : KqPc → Bool
  | .setRunning | .didStart | .events | .kqueue | .listen | .register => true
  | _ => false

/-- The statements after it, up to the end of the loop, at which it has no descriptor in its hands. -/
def KqPc.Passing : KqPc → Bool
  | .head | .callKevent | .kevent | .next | .checkGuests | .callAccept | .accept => true
  | _ => false

/-- Away from a handling and from a registration. -/
theorem KqPc.Starting.away {pc : KqPc} (h : pc.Starting = true) : pc ≠ .handling ∧ pc ≠ .addConn := by
  constructor <;> rintro rfl <;> cases h

theorem KqPc.Passing.away {pc : KqPc} (h : pc.Passing = true ∨ pc = .done) :
    (pc ≠ .handling ∧ pc ≠ .addConn) ∧ pc.Starting = false := by
  rcases h with h | rfl
  · refine ⟨⟨?_, ?_⟩, ?_⟩
    · rintro rfl
      cases h
    · rintro rfl
      cases h
    · cases pc <;> first | rfl | cases h
  · exact ⟨⟨nofun, nofun⟩, rfl⟩

/-- What one step of the event loop can do. `start` and `go` stand for the statements that move on in front of the
    registration of the listening socket and behind it. -/
inductive KqLoopMove (s : Kq) : KqInput → Kq → List SysEvent → Prop
  | start (i : KqInput) (hpc : s.pc.Starting = true) (pc : KqPc) (hpc' : pc.Starting = true) (st : Status)
      (es : List SysEvent) (hes : es = [.access] ∨ es = []) (hi : ∀ fd, i ≠ .accept (some fd)) :
      KqLoopMove s i { s with pc := pc, server := { s.server with status := st } } es
  | fails (hpc : s.pc = .kqueue) : KqLoopMove s (.kqueue false) { s with pc := .done } []
  | register (hpc : s.pc = .register) (sock : Socket) (hsock : s.server.sock = some sock) :
      KqLoopMove s .tick { s with pc := .head, listenFd := sock.sockfd } [.access]
  | go (i : KqInput) (hpc : s.pc.Passing = true) (pc : KqPc) (hpc' : pc.Passing = true ∨ pc = .done)
      (nevents : SizeT) (es : List SysEvent) (hes : es = [.access] ∨ es = []) (hi : ∀ fd, i ≠ .accept (some fd)) :
      KqLoopMove s i { s with pc := pc, nevents := nevents } es
  | report (hpc : s.pc = .kevent) (batch : List IntT) (hok : s.keventOk batch = true) :
      KqLoopMove s (.kevent (some batch)) { s with pc := .next, batch := batch } []
  | skip (hpc : s.pc = .next) (ident : IntT) (batch : List IntT) (hbatch : s.batch = ident :: batch)
      (junk : SizeT) (suspended : Bool) :
      KqLoopMove s (.next junk suspended) { s with pc := .checkGuests, batch := batch } [.access]
  | begin (hpc : s.pc = .next) (ident : IntT) (batch : List IntT) (hbatch : s.batch = ident :: batch)
      (r : Registered) (hr : r ∈ s.conns) (hfd : r.sockfd = ident) (junk : SizeT) (suspended : Bool) :
      KqLoopMove s (.next junk suspended)
      { s with
        pc    := .handling
        batch := batch
        conns := s.conns.erase r
        cur   := { s := junk, suspended := suspended, queue := r.queue, sockfd := r.sockfd } } [.access]
  | accept (hpc : s.pc = .accept) (fd : IntT) (hfresh : fd ∉ s.registeredFds) :
      KqLoopMove s (.accept (some fd)) { s with pc := .addConn, newFd := fd } []
  | add (hpc : s.pc = .addConn) : KqLoopMove s .tick
      { s with
        pc    := .next
        conns := s.conns ++ [{ sockfd := s.newFd, queue := { ({} : Queue) with status := .running } }]
        count := s.count + 1 } [.dispatched]
  | keep (hpc : s.pc = .handling) (i : Input) (h : Handling) (ces : List ConnEvent)
      (hm : HandlingMove s.server s.cur h ces) (hkept : h.pc = .kept) : KqLoopMove s (.handling i)
      { s with pc := .next, cur := h, conns := s.conns ++ [{ sockfd := h.sockfd, queue := h.queue }] }
      (ces.map .handling)
  | close (hpc : s.pc = .handling) (i : Input) (h : Handling) (ces : List ConnEvent)
      (hm : HandlingMove s.server s.cur h ces) (hclosed : h.pc = .closed) : KqLoopMove s (.handling i)
      { s with pc := .next, cur := h, count := s.count - 1 } (ces.map .handling)
  | handle (hpc : s.pc = .handling) (i : Input) (h : Handling) (ces : List ConnEvent)
      (hm : HandlingMove s.server s.cur h ces) (hkept : h.pc ≠ .kept) (hclosed : h.pc ≠ .closed) :
      KqLoopMove s (.handling i) { s with cur := h } (ces.map .handling)

/-- The next event of a batch. -/
theorem kqNext_loopMove {s s' : Kq} {junk : SizeT} {suspended : Bool} {es : List SysEvent} (hpc : s.pc = .next)
    (hs : kqNext s junk suspended = some (s', es)) : KqLoopMove s (.next junk suspended) s' es := by
  unfold kqNext at hs
  split at hs
  · cases hs
    exact .go _ (by rw [hpc]; rfl) .head (.inl rfl) s.nevents [] (.inr rfl) (by simp)
  next ident batch hbatch =>
  split at hs
  · cases hs
  split at hs
  · cases hs
    exact .skip hpc ident batch hbatch junk suspended
  split at hs
  · cases hs
  · next r hr =>
      cases hs
      exact .begin hpc ident batch hbatch r (List.mem_of_find?_eq_some hr) (by simpa using List.find?_some hr) junk
        suspended

/-- A step of the handling of an event. -/
theorem kqHandle_loopMove {s s' : Kq} {i : Input} {es : List SysEvent} (hpc : s.pc = .handling)
    (hs : kqHandle s i = some (s', es)) : KqLoopMove s (.handling i) s' es := by
  unfold kqHandle at hs
  split at hs
  · cases hs
  next h ces hstep =>
  have hm := handlingStep_move hstep
  split at hs
  · next hkept =>
      cases hs
      exact .keep hpc i h ces hm hkept
  next hkept =>
  split at hs
  · next hclosed =>
      cases hs
      exact .close hpc i h ces hm hclosed
  · next hclosed =>
      cases hs
      exact .handle hpc i h ces hm hkept hclosed

/-- **Every step of the loop is a move.** -/
theorem kqLoopStep_loopMove {s s' : Kq} {i : KqInput} {es : List SysEvent} (hs : kqLoopStep s i = some (s', es)) :
    KqLoopMove s i s' es := by
  unfold kqLoopStep at hs
  cases hpc : s.pc <;> cases i <;> simp only [hpc, reduceCtorEq] at hs
  case setRunning.tick =>
    cases hs
    exact .start _ (by rw [hpc]; rfl) .didStart rfl .running _ (.inl rfl) (by simp)
  case didStart.tick =>
    cases hs
    exact .start _ (by rw [hpc]; rfl) .events rfl s.server.status _ (.inl rfl) (by simp)
  case events.tick =>
    cases hs
    exact .start _ (by rw [hpc]; rfl) .kqueue rfl s.server.status _ (.inl rfl) (by simp)
  case kqueue.kqueue ok =>
    cases hs
    cases ok with
    | false => exact .fails hpc
    | true => exact .start _ (by rw [hpc]; rfl) .listen rfl s.server.status _ (.inr rfl) (by simp)
  case listen.tick =>
    split at hs <;> cases hs
    exact .start _ (by rw [hpc]; rfl) .register rfl s.server.status _ (.inl rfl) (by simp)
  case register.tick =>
    split at hs
    · cases hs
    · next sock hsock =>
        cases hs
        exact .register hpc sock hsock
  case head.tick =>
    cases hs
    refine .go _ (by rw [hpc]; rfl) _ ?_ s.nevents _ (.inl rfl) (by simp)
    split
    · exact .inl rfl
    · exact .inr rfl
  case callKevent.tick =>
    cases hs
    exact .go _ (by rw [hpc]; rfl) .kevent (.inl rfl) _ _ (.inl rfl) (by simp)
  case kevent.kevent r =>
    cases r with
    | none =>
        cases hs
        exact .go _ (by rw [hpc]; rfl) .done (.inr rfl) s.nevents _ (.inr rfl) (by simp)
    | some batch =>
        dsimp only at hs
        split at hs
        · next hok =>
            cases hs
            exact .report hpc batch hok
        · cases hs
  case next.next junk suspended => exact kqNext_loopMove hpc hs
  case checkGuests.tick =>
    cases hs
    refine .go _ (by rw [hpc]; rfl) _ (.inl ?_) s.nevents _ (.inl rfl) (by simp)
    split <;> rfl
  case callAccept.tick =>
    split at hs <;> cases hs
    exact .go _ (by rw [hpc]; rfl) .accept (.inl rfl) s.nevents _ (.inl rfl) (by simp)
  case accept.accept r =>
    cases r with
    | none =>
        cases hs
        exact .go _ (by rw [hpc]; rfl) .next (.inl rfl) s.nevents _ (.inr rfl) (by simp)
    | some fd =>
        dsimp only at hs
        split at hs
        · cases hs
        · next hfresh =>
            cases hs
            exact .accept hpc fd (by simpa using hfresh)
  case addConn.tick =>
    cases hs
    exact .add hpc
  case handling.handling i => exact kqHandle_loopMove hpc hs

/-! ## The other parties -/

/-- What a step of another party is to the loop: it changes at most the statuses of queues, and what can be observed
    is the end of the server or the party's own event. -/
structure KqAside (s s' : Kq) (es : List SysEvent) : Prop where
  pc       : s'.pc = s.pc
  listenFd : s'.listenFd = s.listenFd
  newFd    : s'.newFd = s.newFd
  batch    : s'.batch = s.batch
  fds      : s'.conns.map (·.sockfd) = s.conns.map (·.sockfd)
  queues   : ∀ r ∈ s'.conns, ∃ r₀ ∈ s.conns, r.queue.obj = r₀.queue.obj
  cur      : ∃ st, s'.cur = { s.cur with queue := { s.cur.queue with status := st } }
  events   : ∀ e ∈ es, e = .freed ∨ ∃ ce : ConnEvent, e = .handling ce ∧ ce.FromOther = true

section Aside

variable {calls : SocketCalls} {s s' : Kq} {es : List SysEvent}

/-- What another party does to a queue. -/
theorem handlingSysStep_other {srv : Server} {h h' : Handling} {a : ConnAct} {ces : List ConnEvent}
    (ha : a.ByOther = true) (hs : handlingSysStep srv h a = some (h', ces)) :
    ∃ st e, h' = { h with queue := { h.queue with status := st } } ∧ ces = [e] ∧ e.FromOther = true := by
  cases a with
  | block st i => cases ha
  | suspend =>
      cases hs
      rcases h.queue.suspendObject_spec with ⟨_, heq⟩ | ⟨_, _, _, heq⟩ <;> rw [heq]
      exacts [⟨_, _, rfl, rfl, rfl⟩, ⟨h.queue.status, _, rfl, rfl, rfl⟩]
  | resume =>
      cases hs
      rcases h.queue.resumeObject_spec with ⟨_, heq⟩ | ⟨_, _, _, heq⟩ <;> rw [heq]
      exacts [⟨_, _, rfl, rfl, rfl⟩, ⟨h.queue.status, _, rfl, rfl, rfl⟩]
  | setStatus st =>
      cases hs
      exact ⟨st, _, rfl, rfl, rfl⟩

/-- A step that leaves loop and connections alone. -/
theorem KqAside.server {server : Server} {starter owner : Bool} (hes : ∀ e ∈ es, e = .freed) :
    KqAside s { s with server := server, starter := starter, owner := owner } es :=
  ⟨rfl, rfl, rfl, rfl, rfl, fun r hr => ⟨r, hr, rfl⟩, ⟨s.cur.queue.status, rfl⟩, fun e he => .inl (hes e he)⟩

/-- **Every step of another party is one.** -/
theorem kqStep_aside {a : KqAct} (ha : ∀ i, a ≠ .loop i) (hs : kqStep calls s a = some (s', es)) :
    KqAside s s' es := by
  have hfreed (freed : Bool) : ∀ e ∈ freedIf freed, e = .freed := by cases freed <;> simp [freedIf]
  cases a with
  | loop i => exact absurd rfl (ha i)
  | starter | owner =>
      simp only [kqStep] at hs
      split at hs
      · split at hs
        · cases hs
        · cases hs
          exact .server (hfreed _)
      · cases hs
  | setStatus st =>
      cases hs
      exact .server (by simp)
  | queue k act =>
      simp only [kqStep] at hs
      split at hs
      · cases hs
      next r hr =>
      split at hs
      · next hother =>
          split at hs
          · cases hs
          · next h ces hstep =>
              obtain ⟨st, e, rfl, rfl, he⟩ := handlingSysStep_other hother hstep
              cases hs
              refine ⟨rfl, rfl, rfl, rfl, ?_, ?_, ⟨s.cur.queue.status, rfl⟩, ?_⟩
              · rw [List.map_set]
                show (s.conns.map (·.sockfd)).set k r.sockfd = _
                obtain ⟨hlt, hget⟩ := List.getElem?_eq_some_iff.mp hr
                have hlt' : k < (s.conns.map (·.sockfd)).length := by simpa using hlt
                have hget' : (s.conns.map (·.sockfd))[k] = r.sockfd := by simp [hget]
                rw [← hget']
                exact List.set_getElem_self hlt'
              · intro r' hr'
                rcases List.mem_or_eq_of_mem_set hr' with hr' | rfl
                · exact ⟨r', hr', rfl⟩
                · exact ⟨r, List.mem_of_getElem? hr, rfl⟩
              · intro e' he'
                obtain rfl := List.mem_singleton.mp he'
                exact .inr ⟨e, rfl, he⟩
      · cases hs
  | curQueue act =>
      simp only [kqStep] at hs
      split at hs
      · next hother =>
          split at hs
          · cases hs
          · next h ces hstep =>
              obtain ⟨st, e, rfl, rfl, he⟩ := handlingSysStep_other hother.2 hstep
              cases hs
              refine ⟨rfl, rfl, rfl, rfl, rfl, fun r hr => ⟨r, hr, rfl⟩, ⟨st, rfl⟩, ?_⟩
              intro e' he'
              obtain rfl := List.mem_singleton.mp he'
              exact .inr ⟨e, rfl, he⟩
      · cases hs

end Aside

/-! ## The server -/

/-- **What a server keeps.** As long as it is not deallocated, its data size and its socket stay. -/
theorem kqStep_server {calls : SocketCalls} {s s' : Kq} {a : KqAct} {es : List SysEvent}
    (hs : kqStep calls s a = some (s', es)) (hlive : .freed ∉ es) :
    s'.server.dataSize = s.server.dataSize ∧ s'.server.sock = s.server.sock := by
  cases a with
  | starter | owner =>
      simp only [kqStep] at hs
      split at hs
      · split at hs
        · cases hs
        · next server freed hrel =>
            cases hs
            rcases sxReleaseServer_cases hrel with ⟨_, rfl, _⟩ | ⟨_, _, obj, rfl, _⟩
            · exact absurd List.mem_cons_self hlive
            · exact ⟨rfl, rfl⟩
      · cases hs
  | loop i => cases kqLoopStep_loopMove hs <;> exact ⟨rfl, rfl⟩
  | setStatus st =>
      cases hs
      exact ⟨rfl, rfl⟩
  | queue k act =>
      simp only [kqStep] at hs
      split at hs
      · cases hs
      split at hs
      · split at hs <;> cases hs
        exact ⟨rfl, rfl⟩
      · cases hs
  | curQueue act =>
      simp only [kqStep] at hs
      split at hs
      · split at hs <;> cases hs
        exact ⟨rfl, rfl⟩
      · cases hs

end SpartanX
