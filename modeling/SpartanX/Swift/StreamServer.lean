import SpartanX.Lib.Parties
import SpartanX.Lib.SwiftInt
import SpartanX.Swift.RunLoop

/-!
# `Swift.StreamServer` — the accept loop of `SXStreamServer.start` and the number of its queues

A started server is a system of parties that take atomic steps in any order: the accept loop, the queues it has
dispatched, each with the loop of `SXQueue.start` and the completion behind it, and whoever changes statuses. The
accept loop compares `count` with `maxGuest`, but raises it only where the limit is reached already; a completion
lowers it. So with a positive `maxGuest` the count never rises above `0` and nobody is turned away
(`guests_never_turned_away`): the loop lets in as many guests as come (`guests_unbounded`), and only a server that has
room for none keeps to its limit (`swift_guest_limit_iff`).

## Contents
- **The system.** `StreamServer`, `SwiftPc`, `Guest`, `SwiftSys`, `swiftStep`.
- **What a step does.** `SwiftMove` (`swiftStep_move`, `swiftLoopStep_move`) and `guestStep_live`.
- **The count.** `NoGuestInv`, `FreeInv`.
- **Results.** `guests_never_turned_away`, `guests_unbounded`, `swift_guest_limit_iff`.
-/

namespace SpartanX

open CInt

/-! ## The system -/

/-- What the accept loop reads of an `SXStreamServer`. `delegate` tells whether it has one. -/
structure StreamServer where
  maxGuest : Int
  status   : SXStatus := .idle
  recvFlag : IntT     := 0
  sendFlag : IntT     := 0
  delegate : Bool     := true
  deriving DecidableEq, Repr

/-- The statement the accept loop executes next. -/
inductive SwiftPc
  | setRunning       -- self.status = .RUNNING; var count = 0
  | head             -- while self.status != .SHOULD_TERMINATE
  | listen           -- try self.socket.listen(self.backlog)
  | checkTerminate   -- if self.status == .SHOULD_TERMINATE { break }
  | checkSuspended   -- else if self.status == .SUSPENDED { continue }
  | accept           -- try SXRemoteStreamSocket(socket: try self.socket.accept(self.bufsize))
  | acceptFailed     -- catch { self.method.didReceiveError(..); continue }
  | checkGuests      -- if count >= self.maxGuest
  | incCount         -- { count += 1; continue }
  | shouldConnect
  | dispatch         -- dispatch_async(operatingQueue()) { queue.start(..) }
  | setIdle          -- self.status = .IDLE
  | close
  | didKill
  | listenFailed     -- the outer catch
  | done
  deriving DecidableEq, Repr

/-- Where a dispatched queue stands: in its `start`, or at a statement of its completion. -/
inductive GuestPc
  | queue
  | close            -- queue.close()
  | didDisconnect
  | decCount         -- count -= 1
  | done
  deriving DecidableEq, Repr

/-- A dispatched queue. -/
structure Guest where
  sockfd : IntT
  loop   : RunLoop
  pc     : GuestPc := .queue
  deriving DecidableEq, Repr

/-- A started server with the queues dispatched for it. `sockfd` is the socket accepted last. -/
structure SwiftSys where
  server : StreamServer
  pc     : SwiftPc    := .setRunning
  count  : Int        := 0
  sockfd : IntT       := 0
  guests : List Guest := []
  deriving DecidableEq, Repr

/-- What can be observed of the system. -/
inductive SwiftEvent
  | listenFailed
  | acceptFailed
  | abandoned (sockfd : IntT)
  | tooMany (sockfd : IntT)
  | refused (sockfd : IntT)
  | dispatched (sockfd : IntT)
  | closed
  | didKill
  | run (k : Nat) (e : RunEvent)
  | guestClosed (k : Nat) (sockfd : IntT)
  | didDisconnect (k : Nat)
  | completed (k : Nat)
  | setStatus (st : SXStatus)
  deriving DecidableEq, Repr

/-- What a step of the accept loop gets from outside: nothing, whether `listen` threw, the result of `accept`, `none`
    for `-1`, or the answer of `serverShouldConnect`. `acceptThrows` is an `accept` with a descriptor, for which the
    initialiser of `SXRemoteSocket` or `SXRemoteStreamSocket` then throws. -/
inductive SwiftInput
  | tick
  | listen (ok : Bool)
  | accept (r : Option IntT)
  | acceptThrows (sockfd : IntT)
  | answer (yes : Bool)
  deriving DecidableEq, Repr

/-- A step of the system: the accept loop or a queue takes one, or somebody writes the status of the server or of a
    queue. -/
inductive SwiftAct
  | loop (i : SwiftInput)
  | guest (k : Nat) (i : RunInput)
  | setStatus (st : SXStatus)
  | setQueueStatus (k : Nat) (st : SXStatus)
  deriving DecidableEq, Repr

/-- `SXStreamQueue.init(server:socket:method:)`; the socket has the default `bufsize`, whatever the server's is. -/
def sxStreamQueue (server : StreamServer) : RunObject :=
  { status := .idle, recvFlag := server.recvFlag, bufsize := 16384, delegate := server.delegate }

/-- One step of the accept loop. -/
def swiftLoopStep (s : SwiftSys) (i : SwiftInput) : Option (SwiftSys × List SwiftEvent) :=
  match s.pc, i with
  | .setRunning, .tick =>
    some ({ s with pc := .head, count := 0, server := { s.server with status := .running } }, [])
  | .head, .tick => some ({ s with pc := if s.server.status ≠ .shouldTerminate then .listen else .setIdle }, [])
  | .listen, .listen ok => some ({ s with pc := if ok then .checkTerminate else .listenFailed }, [])
  | .checkTerminate, .tick =>
    some ({ s with pc := if s.server.status = .shouldTerminate then .setIdle else .checkSuspended }, [])
  | .checkSuspended, .tick => some ({ s with pc := if s.server.status = .suspended then .head else .accept }, [])
  | .accept, .accept r =>
    match r with
    | none        => some ({ s with pc := .acceptFailed }, [])
    | some sockfd => some ({ s with pc := .checkGuests, sockfd := sockfd }, [])
  -- nobody has the descriptor, and nobody closes it
  | .accept, .acceptThrows sockfd => some ({ s with pc := .acceptFailed }, [.abandoned sockfd])
  | .acceptFailed, .tick => some ({ s with pc := .head }, [.acceptFailed])
  | .checkGuests, .tick =>
    some ({ s with pc := if s.server.maxGuest ≤ s.count then .incCount else .shouldConnect }, [])
  | .incCount, .tick =>
    (SwiftInt.checked (s.count + 1)).map fun count => ({ s with pc := .head, count := count }, [.tooMany s.sockfd])
  | .shouldConnect, .tick => if s.server.delegate then none else some ({ s with pc := .dispatch }, [])
  | .shouldConnect, .answer yes =>
    if s.server.delegate then
      some (if yes then ({ s with pc := .dispatch }, []) else ({ s with pc := .head }, [.refused s.sockfd]))
    else none
  | .dispatch, .tick =>
    let guest : Guest := { sockfd := s.sockfd, loop := sxQueueStart (sxStreamQueue s.server) }
    some ({ s with pc := .head, guests := s.guests ++ [guest] }, [.dispatched s.sockfd])
  | .setIdle, .tick => some ({ s with pc := .close, server := { s.server with status := .idle } }, [])
  | .close, .tick => some ({ s with pc := .didKill }, [.closed])
  | .didKill, .tick => some ({ s with pc := .done }, if s.server.delegate then [.didKill] else [])
  | .listenFailed, .tick => some ({ s with pc := .done }, [.listenFailed])
  | _, _ => none

/-- One step of a dispatched queue, the `k`-th, under its server. -/
def guestStep (server : StreamServer) (k : Nat) (g : Guest) (i : RunInput) : Option (Guest × List SwiftEvent) :=
  match g.pc, i with
  | .queue, i =>
    let controller : Controller :=
      { status := server.status, recvFlag := server.recvFlag, sendFlag := server.sendFlag }
    (runStep .queue (some controller) g.loop i).map fun r =>
      ({ g with loop := r.1, pc := if r.1.pc = .done then .close else .queue }, r.2.map (.run k))
  | .close, .tick => some ({ g with pc := .didDisconnect }, [.guestClosed k g.sockfd])
  | .didDisconnect, .tick =>
    some ({ g with pc := .decCount }, if g.loop.object.delegate then [.didDisconnect k] else [])
  | .decCount, .tick => some ({ g with pc := .done }, [.completed k])
  | _, _ => none

/-- One step of a started server. -/
def swiftStep (s : SwiftSys) : SwiftAct → Option (SwiftSys × List SwiftEvent)
  | .loop i => swiftLoopStep s i
  | .guest k i =>
    match s.guests[k]? with
    | none   => none
    | some g =>
      match guestStep s.server k g i with
      | none          => none
      | some (g', es) =>
        (if g.pc = .decCount then SwiftInt.checked (s.count - 1) else some s.count).map fun count =>
          ({ s with count := count, guests := s.guests.set k g' }, es)
  | .setStatus st => some ({ s with server := { s.server with status := st } }, [.setStatus st])
  | .setQueueStatus k st =>
    match s.guests[k]? with
    | none   => none
    | some g =>
      let object := { g.loop.object with status := st }
      some ({ s with guests := s.guests.set k { g with loop := { g.loop with object := object } } },
        [.run k (.setStatus st)])

/-- `SXStreamServer.start`. -/
def sxStreamServerStart (server : StreamServer) : SwiftSys := { server := server }

/-! ## What a step does -/

/-- A queue that has not completed. -/
def Guest.Live (g : Guest) : Bool := g.pc ≠ .done

/-- The number of queues started and not yet completed. -/
def SwiftSys.live (s : SwiftSys) : Nat := s.guests.countP Guest.Live

/-- The loop has let a connection in. -/
def SwiftPc.LetIn : SwiftPc → Bool
  | .shouldConnect | .dispatch => true
  | _ => false

/-- An accepted connection was turned away because of the limit. -/
def SwiftEvent.TurnedAway : SwiftEvent → Bool
  | .tooMany _ => true
  | _          => false

/-- No event tells of one. -/
def NobodyTurnedAway (es : List SwiftEvent) : Prop := ∀ e ∈ es, e.TurnedAway = false

theorem NobodyTurnedAway.nil : NobodyTurnedAway [] := fun _ he => absurd he List.not_mem_nil

theorem NobodyTurnedAway.singleton {e : SwiftEvent} (h : e.TurnedAway = false) : NobodyTurnedAway [e] := by
  intro e' he
  rw [List.mem_singleton.mp he]
  exact h

theorem NobodyTurnedAway.append {es es' : List SwiftEvent} (h : NobodyTurnedAway es) (h' : NobodyTurnedAway es') :
    NobodyTurnedAway (es ++ es') := fun e he => (List.mem_append.mp he).elim (h e) (h' e)

theorem NobodyTurnedAway.map_run (k : Nat) (es : List RunEvent) : NobodyTurnedAway (es.map (.run k)) := by
  intro e he
  obtain ⟨_, _, rfl⟩ := List.mem_map.mp he
  rfl

/-- What one step can do to the program point of the accept loop, the count and the queues. `touch` stands for the
    steps of the loop that only move on, `stay` for those of others that neither start nor complete a queue. -/
inductive SwiftMove (s : SwiftSys) : SwiftAct → SwiftSys → List SwiftEvent → Prop
  | start (i : SwiftInput) (h : s.pc = .setRunning) : SwiftMove s (.loop i)
      { s with pc := .head, count := 0, server := { s.server with status := .running } } []
  | touch (i : SwiftInput) (pc' : SwiftPc) (st : SXStatus) (sockfd : IntT) (es : List SwiftEvent)
      (hletIn : pc'.LetIn = true → s.pc = .shouldConnect) (hinc : pc' ≠ .incCount)
      (hes : NobodyTurnedAway es) : SwiftMove s (.loop i)
      { s with pc := pc', sockfd := sockfd, server := { s.server with status := st } } es
  | enter (i : SwiftInput) (h : s.pc = .checkGuests) (hlt : s.count < s.server.maxGuest) :
      SwiftMove s (.loop i) { s with pc := .shouldConnect } []
  | full (i : SwiftInput) (h : s.pc = .checkGuests) (hle : s.server.maxGuest ≤ s.count) :
      SwiftMove s (.loop i) { s with pc := .incCount } []
  | inc (i : SwiftInput) (h : s.pc = .incCount) :
      SwiftMove s (.loop i) { s with pc := .head, count := s.count + 1 } [.tooMany s.sockfd]
  | dispatch (i : SwiftInput) (h : s.pc = .dispatch) (g : Guest) (hg : g.Live = true) :
      SwiftMove s (.loop i) { s with pc := .head, guests := s.guests ++ [g] } [.dispatched s.sockfd]
  | stay (a : SwiftAct) (st : SXStatus) (guests : List Guest) (es : List SwiftEvent)
      (hlength : guests.length = s.guests.length) (hlive : guests.countP Guest.Live = s.live)
      (hes : NobodyTurnedAway es) :
      SwiftMove s a { s with guests := guests, server := { s.server with status := st } } es
  | leave (a : SwiftAct) (guests : List Guest) (es : List SwiftEvent)
      (hlength : guests.length = s.guests.length) (hlive : guests.countP Guest.Live + 1 = s.live)
      (hes : NobodyTurnedAway es) : SwiftMove s a { s with count := s.count - 1, guests := guests } es

/-- Every step of the accept loop is a move. -/
theorem swiftLoopStep_move {s s' : SwiftSys} {i : SwiftInput} {es : List SwiftEvent}
    (h : swiftLoopStep s i = some (s', es)) : SwiftMove s (.loop i) s' es := by
  have htouch {pc pc' : SwiftPc} {st : SXStatus} {sockfd : IntT} {es : List SwiftEvent} {i : SwiftInput}
      (hpc : s.pc = pc) (hletIn : pc'.LetIn = true → pc = .shouldConnect) (hinc : pc' ≠ .incCount)
      (hes : NobodyTurnedAway es) : SwiftMove s (.loop i)
      { s with pc := pc', sockfd := sockfd, server := { s.server with status := st } } es := by
    subst hpc
    exact .touch i pc' st sockfd es hletIn hinc hes
  unfold swiftLoopStep at h
  cases i with
  | listen ok =>
      cases hpc : s.pc <;> simp only [hpc, reduceCtorEq] at h
      case listen =>
        cases h
        exact htouch hpc (by split <;> nofun) (by split <;> nofun) .nil
  | accept r =>
      cases hpc : s.pc <;> simp only [hpc, reduceCtorEq] at h
      case accept =>
        split at h <;> cases h <;> exact htouch hpc nofun nofun .nil
  | acceptThrows sockfd =>
      cases hpc : s.pc <;> simp only [hpc, reduceCtorEq] at h
      case accept =>
        cases h
        exact htouch hpc nofun nofun (.singleton rfl)
  | answer yes =>
      cases hpc : s.pc <;> simp only [hpc, reduceCtorEq] at h
      case shouldConnect =>
        split at h
        · cases yes <;> cases h
          · exact htouch hpc (fun _ => rfl) nofun (.singleton rfl)
          · exact htouch hpc (fun _ => rfl) nofun .nil
        · cases h
  | tick =>
      cases hpc : s.pc <;> simp only [hpc, reduceCtorEq] at h
      case setRunning => cases h; exact .start _ hpc
      case head | checkTerminate | checkSuspended =>
        cases h
        exact htouch hpc (by split <;> nofun) (by split <;> nofun) .nil
      case checkGuests =>
        cases h
        by_cases hle : s.server.maxGuest ≤ s.count
        · rw [if_pos hle]; exact .full _ hpc hle
        · rw [if_neg hle]; exact .enter _ hpc (Int.not_le.mp hle)
      case incCount =>
        obtain ⟨count, hcount, heq⟩ := Option.map_eq_some_iff.mp h
        cases heq
        rw [SwiftInt.checked_eq_some hcount]
        exact .inc _ hpc
      case shouldConnect =>
        split at h
        · cases h
        · cases h; exact htouch hpc (fun _ => rfl) nofun .nil
      case dispatch => cases h; exact .dispatch _ hpc _ rfl
      case setIdle =>
        cases h
        exact htouch hpc nofun nofun .nil
      case acceptFailed | close | listenFailed =>
        cases h
        exact htouch hpc nofun nofun (.singleton rfl)
      case didKill =>
        cases h
        refine htouch hpc nofun nofun ?_
        split
        · exact .singleton rfl
        · exact .nil

/-- What a step of a queue does to it. -/
theorem guestStep_live {server : StreamServer} {k : Nat} {g g' : Guest} {i : RunInput} {es : List SwiftEvent}
    (h : guestStep server k g i = some (g', es)) :
    g.Live = true ∧ g'.Live = decide (g.pc ≠ .decCount) ∧ NobodyTurnedAway es := by
  cases hpc : g.pc <;> cases i <;> simp only [guestStep, hpc, reduceCtorEq] at h
  case queue.tick | queue.receive | queue.proceed =>
    obtain ⟨r, _, heq⟩ := Option.map_eq_some_iff.mp h
    cases heq
    refine ⟨by simp [Guest.Live, hpc], ?_, .map_run k _⟩
    unfold Guest.Live
    dsimp only
    split <;> rfl
  case close.tick | decCount.tick =>
    cases h
    exact ⟨by simp [Guest.Live, hpc], rfl, .singleton rfl⟩
  case didDisconnect.tick =>
    cases h
    refine ⟨by simp [Guest.Live, hpc], rfl, ?_⟩
    split
    · exact .singleton rfl
    · exact .nil

/-- **Every step is a move.** -/
theorem swiftStep_move {s s' : SwiftSys} {a : SwiftAct} {es : List SwiftEvent}
    (h : swiftStep s a = some (s', es)) : SwiftMove s a s' es := by
  cases a with
  | loop i => exact swiftLoopStep_move h
  | guest k i =>
      simp only [swiftStep] at h
      split at h
      · cases h
      · next g hg =>
          split at h
          · cases h
          · next g' es' hstep =>
              obtain ⟨hlive, hlive', hes⟩ := guestStep_live hstep
              have hset := Parties.countP_set (b := g') Guest.Live hg
              obtain ⟨count, hcount, heq⟩ := Option.map_eq_some_iff.mp h
              cases heq
              by_cases hpc : g.pc = .decCount
              · rw [if_pos hpc] at hcount
                rw [SwiftInt.checked_eq_some hcount]
                refine .leave _ _ _ List.length_set ?_ hes
                unfold SwiftSys.live
                simpa [hlive, hlive', hpc] using hset
              · rw [if_neg hpc] at hcount
                cases hcount
                refine .stay _ s.server.status _ _ List.length_set ?_ hes
                unfold SwiftSys.live
                simpa [hlive, hlive', hpc] using hset
  | setStatus st =>
      cases h
      exact .stay _ st s.guests _ rfl rfl (.singleton rfl)
  | setQueueStatus k st =>
      simp only [swiftStep] at h
      split at h
      · cases h
      · next g hg =>
          cases h
          exact .stay _ s.server.status _ _ List.length_set (Parties.countP_set_eq hg rfl) (.singleton rfl)

/-! ## The count -/

/-- The invariant without room: there is no queue, and the count, which only rises, keeps everybody out. -/
structure NoGuestInv (m : Int) (s : SwiftSys) : Prop where
  maxGuest : s.server.maxGuest = m
  count    : 0 ≤ s.count
  pc       : s.pc.LetIn = false
  guests   : s.guests = []

/-- The invariant with room: the count, which only falls, keeps nobody out. -/
structure FreeInv (m : Int) (s : SwiftSys) (tr : List SwiftEvent) : Prop where
  maxGuest : s.server.maxGuest = m
  count    : s.count ≤ 0
  pc       : s.pc ≠ .incCount
  tooMany  : NobodyTurnedAway tr

section Count

variable {m : Int} {s s' : SwiftSys} {a : SwiftAct} {tr es : List SwiftEvent}

/-- A server without room stays without queues. -/
theorem noGuestInv_step (hm : m ≤ 0) (hi : NoGuestInv m s) (hs : SwiftMove s a s' es) : NoGuestInv m s' := by
  have hpc := hi.pc
  have hguests := hi.guests
  have hcount := hi.count
  have hnone : s.live = 0 := by
    unfold SwiftSys.live
    rw [hguests]
    rfl
  cases hs with
  | start i h => exact ⟨hi.maxGuest, Int.le_refl 0, rfl, hguests⟩
  | touch i pc' st sockfd es hletIn hinc hes =>
      refine ⟨hi.maxGuest, hcount, ?_, hguests⟩
      show pc'.LetIn = false
      by_contra hlet
      rw [hletIn (Bool.of_not_eq_false hlet)] at hpc
      cases hpc
  | enter i h hlt =>
      rw [hi.maxGuest] at hlt
      omega
  | full i h hle => exact ⟨hi.maxGuest, hcount, rfl, hguests⟩
  | inc i h =>
      refine ⟨hi.maxGuest, ?_, rfl, hguests⟩
      show 0 ≤ s.count + 1
      omega
  | dispatch i h g hg =>
      rw [h] at hpc
      cases hpc
  | stay a st guests es hlength hlive hes =>
      refine ⟨hi.maxGuest, hcount, hpc, ?_⟩
      rw [hguests] at hlength
      exact List.eq_nil_of_length_eq_zero hlength
  | leave a guests es hlength hlive hes =>
      -- nobody is there to leave
      rw [hnone] at hlive
      omega

/-- A server with room lets everybody in. -/
theorem freeInv_step (hm : 0 < m) (hi : FreeInv m s tr) (hs : SwiftMove s a s' es) : FreeInv m s' (tr ++ es) := by
  have hcount := hi.count
  have hpc := hi.pc
  have hnot {es : List SwiftEvent} (h : NobodyTurnedAway es) : NobodyTurnedAway (tr ++ es) := hi.tooMany.append h
  cases hs with
  | start i h => exact ⟨hi.maxGuest, Int.le_refl 0, nofun, hnot .nil⟩
  | touch i pc' st sockfd es hletIn hinc hes => exact ⟨hi.maxGuest, hcount, hinc, hnot hes⟩
  | enter i h hlt => exact ⟨hi.maxGuest, hcount, nofun, hnot .nil⟩
  | full i h hle =>
      rw [hi.maxGuest] at hle
      omega
  | inc i h => exact absurd h hpc
  | dispatch i h g hg => exact ⟨hi.maxGuest, hcount, nofun, hnot (.singleton rfl)⟩
  | stay a st guests es hlength hlive hes => exact ⟨hi.maxGuest, hcount, hpc, hnot hes⟩
  | leave a guests es hlength hlive hes =>
      refine ⟨hi.maxGuest, ?_, hpc, hnot hes⟩
      show s.count - 1 ≤ 0
      omega

/-- Nothing changes `maxGuest`. -/
theorem maxGuest_step (hs : SwiftMove s a s' es) : s'.server.maxGuest = s.server.maxGuest := by
  cases hs <;> rfl

end Count

/-! ## Results -/

/-- **Nobody is turned away.** With a positive `maxGuest` the accept loop never finds its count at the limit. -/
theorem guests_never_turned_away {server : StreamServer} {s : SwiftSys} {acts : List SwiftAct}
    {tr : List SwiftEvent} (hm : 0 < server.maxGuest)
    (hrun : Machine.run swiftStep (sxStreamServerStart server) acts = some (s, tr)) :
    s.count ≤ 0 ∧ NobodyTurnedAway tr := by
  have h0 : FreeInv server.maxGuest (sxStreamServerStart server) [] :=
    ⟨rfl, Int.le_refl 0, nofun, .nil⟩
  have hi : FreeInv server.maxGuest s ([] ++ tr) := Machine.run_invariant
    (fun _ _ _ _ _ hi hs => freeInv_step hm hi (swiftStep_move hs)) h0 hrun
  exact ⟨hi.count, hi.tooMany⟩

theorem run_maxGuest {server : StreamServer} {s : SwiftSys} {acts : List SwiftAct} {tr : List SwiftEvent}
    (hrun : Machine.run swiftStep (sxStreamServerStart server) acts = some (s, tr)) :
    s.server.maxGuest = server.maxGuest :=
  Machine.run_state_invariant (I := fun s => s.server.maxGuest = server.maxGuest)
    (fun _ _ _ _ hi hs => (maxGuest_step (swiftStep_move hs)).trans hi) rfl hrun

/-- The number of queues keeps to the limit. -/
def SwiftSys.WithinLimit (s : SwiftSys) (_ : List SwiftEvent) : Prop := (s.live : Int) ≤ s.server.maxGuest

/-- The accept loop from its head to a dispatch, if the connection is not turned away. -/
def StreamServer.letsIn (server : StreamServer) (sockfd : IntT) : List SwiftAct :=
  [.loop .tick, .loop (.listen true), .loop .tick, .loop .tick, .loop (.accept (some sockfd)), .loop .tick,
    .loop (if server.delegate then .answer true else .tick), .loop .tick]

section Limit

variable {server : StreamServer} {s : SwiftSys} {acts : List SwiftAct} {tr : List SwiftEvent}

/-- A server without room keeps to its limit. -/
theorem withinLimit_of_no_room (hzero : server.maxGuest = 0) (acts : List SwiftAct) :
    Machine.Throughout swiftStep SwiftSys.WithinLimit [] (sxStreamServerStart server) acts := by
  refine Machine.throughout_of_invariant (I := fun s _ => NoGuestInv 0 s) ?_ ?_ acts ?_
  · intro s tr hi
    unfold SwiftSys.WithinLimit SwiftSys.live
    rw [hi.guests, hi.maxGuest]
    exact Int.le_refl 0
  · intro s tr a s' es hi hs
    exact noGuestInv_step (Int.le_refl 0) hi (swiftStep_move hs)
  · exact ⟨hzero, Int.le_refl 0, rfl, rfl⟩

/-- A running server at the head of its loop whose count is below the limit lets the next connection in. -/
theorem run_letsIn (sockfd : IntT) (hhead : s.pc = .head) (hstatus : s.server.status = .running)
    (hcount : s.count < s.server.maxGuest) :
    ∃ s' es, Machine.run swiftStep s (s.server.letsIn sockfd) = some (s', es) ∧
      s'.pc = .head ∧ s'.server = s.server ∧ s'.live = s.live + 1 := by
  have hterminates : s.server.status ≠ .shouldTerminate := by simp [hstatus]
  have hsuspends : s.server.status ≠ .suspended := by simp [hstatus]
  have hloop : swiftStep s (.loop .tick) = some ({ s with pc := .listen }, []) := by
    unfold swiftStep swiftLoopStep
    rw [hhead]
    dsimp only
    rw [if_pos hterminates]
  have hlisten : swiftStep { s with pc := .listen } (.loop (.listen true)) =
      some ({ s with pc := .checkTerminate }, []) := rfl
  have hterminate : swiftStep { s with pc := .checkTerminate } (.loop .tick) =
      some ({ s with pc := .checkSuspended }, []) := by
    dsimp only [swiftStep, swiftLoopStep]
    rw [if_neg hterminates]
  have hsuspended : swiftStep { s with pc := .checkSuspended } (.loop .tick) =
      some ({ s with pc := .accept }, []) := by
    dsimp only [swiftStep, swiftLoopStep]
    rw [if_neg hsuspends]
  have haccept : swiftStep { s with pc := .accept } (.loop (.accept (some sockfd))) =
      some ({ s with pc := .checkGuests, sockfd := sockfd }, []) := rfl
  have hguests : swiftStep { s with pc := .checkGuests, sockfd := sockfd } (.loop .tick) =
      some ({ s with pc := .shouldConnect, sockfd := sockfd }, []) := by
    dsimp only [swiftStep, swiftLoopStep]
    rw [if_neg (Int.not_le.mpr hcount)]
  have hanswer : swiftStep { s with pc := .shouldConnect, sockfd := sockfd }
      (.loop (if s.server.delegate then .answer true else .tick)) =
        some ({ s with pc := .dispatch, sockfd := sockfd }, []) := by
    cases hdelegate : s.server.delegate
    · exact if_neg (by simp [hdelegate])
    · exact if_pos hdelegate
  let guest : Guest := { sockfd := sockfd, loop := sxQueueStart (sxStreamQueue s.server) }
  have hdispatch : swiftStep { s with pc := .dispatch, sockfd := sockfd } (.loop .tick) =
      some ({ s with pc := .head, sockfd := sockfd, guests := s.guests ++ [guest] }, [.dispatched sockfd]) := rfl
  refine ⟨{ s with pc := .head, sockfd := sockfd, guests := s.guests ++ [guest] }, [.dispatched sockfd], ?_, rfl, rfl,
    ?_⟩
  · simp only [StreamServer.letsIn, Machine.run, hloop, hlisten, hterminate, hsuspended, haccept, hguests, hanswer,
      hdispatch, List.nil_append, List.append_nil]
  · simp [SwiftSys.live, Guest.Live, guest]

/-- Whatever has happened to a server with room, if it is running it lets the next connection in. -/
theorem admits_one_more (sockfd : IntT) (hm : 0 < server.maxGuest)
    (hrun : Machine.run swiftStep (sxStreamServerStart server) acts = some (s, tr)) (hhead : s.pc = .head)
    (hstatus : s.server.status = .running) :
    ∃ s' tr', Machine.run swiftStep (sxStreamServerStart server) (acts ++ s.server.letsIn sockfd) = some (s', tr') ∧
      s'.pc = .head ∧ s'.server = s.server ∧ s'.live = s.live + 1 := by
  have hmax := run_maxGuest hrun
  obtain ⟨hcount, _⟩ := guests_never_turned_away hm hrun
  obtain ⟨s', es, hletsIn, hafter⟩ := run_letsIn sockfd hhead hstatus (by omega)
  exact ⟨s', tr ++ es, Machine.run_append hrun hletsIn, hafter⟩

/-- **There is no limit.** A server with room has any number of queues at once in some run. -/
theorem guests_unbounded (hm : 0 < server.maxGuest) (n : Nat) :
    ∃ acts s tr, Machine.run swiftStep (sxStreamServerStart server) acts = some (s, tr) ∧ s.live = n ∧
      s.pc = .head ∧ s.server.status = .running := by
  induction n with
  | zero => exact ⟨[.loop .tick], _, _, rfl, rfl, rfl, rfl⟩
  | succ n ih =>
      obtain ⟨acts, s, tr, hrun, hlive, hhead, hstatus⟩ := ih
      obtain ⟨s', tr', hrun', hhead', hserver, hlive'⟩ :=
        admits_one_more (BitVec.ofNat 32 (n + 4)) hm hrun hhead hstatus
      exact ⟨_, s', tr', hrun', by rw [hlive', hlive], hhead', by rw [hserver, hstatus]⟩

/-- **When the Swift server keeps its guest limit.** Throughout every run the number of queues started and not yet
    completed is at most `maxGuest` iff `maxGuest` is `0`. Then nobody is ever let in. A negative limit is missed from
    the start; and with a positive one the loop keeps nobody out, so that `maxGuest + 1` connections whose queues do
    not complete are too many. -/
theorem swift_guest_limit_iff (server : StreamServer) :
    (∀ acts s tr, Machine.run swiftStep (sxStreamServerStart server) acts = some (s, tr) →
      Machine.Throughout swiftStep SwiftSys.WithinLimit [] (sxStreamServerStart server) acts) ↔
      server.maxGuest = 0 := by
  constructor
  · intro h
    have hstart : (0 : Int) ≤ server.maxGuest := (h [] _ _ rfl).here
    rcases Int.lt_or_eq_of_le hstart with hpos | hzero
    · obtain ⟨acts, s, tr, hrun, hlive, _⟩ := guests_unbounded hpos (server.maxGuest.toNat + 1)
      have hwithin : (s.live : Int) ≤ s.server.maxGuest := (h acts s tr hrun).last hrun
      rw [run_maxGuest hrun] at hwithin
      omega
    · exact hzero.symm
  · intro hzero acts _ _ _
    exact withinLimit_of_no_room hzero acts

end Limit

/-- A server for one guest. -/
def oneGuestServer : StreamServer := { maxGuest := 1 }

/-- **The limit is not kept.** A server for one guest has two queues, if the second connection comes before the first
    queue has completed. -/
theorem two_queues_for_one_guest :
    ∃ s tr, Machine.run swiftStep (sxStreamServerStart oneGuestServer)
        ([.loop .tick] ++ oneGuestServer.letsIn 4 ++ oneGuestServer.letsIn 5) = some (s, tr) ∧
      s.live = 2 ∧ ¬ Machine.Throughout swiftStep SwiftSys.WithinLimit [] (sxStreamServerStart oneGuestServer)
        ([.loop .tick] ++ oneGuestServer.letsIn 4 ++ oneGuestServer.letsIn 5) := by
  have hover : (Machine.run swiftStep (sxStreamServerStart oneGuestServer)
      ([.loop .tick] ++ oneGuestServer.letsIn 4 ++ oneGuestServer.letsIn 5)).map
        (fun p => (p.1.live, p.1.server.maxGuest)) = some (2, 1) := by
    decide +kernel
  obtain ⟨⟨s, tr⟩, hrun, heq⟩ := Option.map_eq_some_iff.mp hover
  obtain ⟨hlive, hmax⟩ := Prod.mk.inj heq
  refine ⟨s, tr, hrun, hlive, ?_⟩
  intro h
  have hwithin := h.last hrun
  unfold SwiftSys.WithinLimit at hwithin
  dsimp only at hlive hmax
  omega

end SpartanX
