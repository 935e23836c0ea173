import SpartanX.Lib.CInt
import SpartanX.Lib.Iterations
import SpartanX.Lib.Machine

/-!
# `Swift.RunLoop` — the loops of `SXQueue.start` and `SXStreamClient.start`

The two loops have one shape: take over the status of the object above, `switch` on the own status, receive and call
the data handler, go on while `s > 0`. They are one machine with a parameter for what only one of them does
(`Runner`): a queue follows the flags of its server, reports a failed receive in suspension and calls
`objectWillKill`, and its `statusDidChange` writes the status it is told. One step executes one statement, up to at
most one read of the own status or of the status above; what is above is handed to each step as it is at that moment.

## Contents
- **State.** `SXStatus`, `Controller`, `RunObject`, `RunPc`, `RunLoop`, `RunEvent`.
- **Step.** `runStep`, and `RunMove`, the same as one case per outcome (`runStep_move`).
- **The loop among other parties.** `runSysStep`; `sxQueueStart` and `sxStreamClientStart` start it.
-/

namespace SpartanX

open CInt

/-! ## State -/

/-- `SXStatus`. -/
inductive SXStatus
  | idle
  | running
  | resumming
  | suspended
  | shouldTerminate
  deriving DecidableEq, Repr

/-- The statuses that end a loop. -/
def SXStatus.Ends (st : SXStatus) : Prop := st = .shouldTerminate ∨ st = .idle

/-- The statuses in which the suspended branch hands data on. -/
def SXStatus.Delivers (st : SXStatus) : Prop := st = .running ∨ st = .resumming

instance SXStatus.Ends.decidable (st : SXStatus) : Decidable st.Ends := inferInstanceAs (Decidable (_ ∨ _))
instance SXStatus.Delivers.decidable (st : SXStatus) : Decidable st.Delivers := inferInstanceAs (Decidable (_ ∨ _))

/-- What a loop reads of the object above its own: the server of a queue, the owner of a client. -/
structure Controller where
  status   : SXStatus
  recvFlag : IntT := 0
  sendFlag : IntT := 0
  deriving DecidableEq, Repr

/-- The object a loop runs for. `delegate` tells whether it has one. -/
structure RunObject where
  status   : SXStatus := .idle
  recvFlag : IntT     := 0
  sendFlag : IntT     := 0
  bufsize  : Nat      := 16384
  delegate : Bool     := true
  deriving DecidableEq, Repr

/-- The two loops. -/
inductive Runner
  | queue
  | client
  deriving DecidableEq, Repr

/-- The statement a loop executes next. -/
inductive RunPc
  | setStatus         -- self.status = .RUNNING; suspended = false; s = 0
  | readOwner         -- repeat { if server.status != .RUNNING
  | takeStatus        -- self.status = server.status
  | takeFlags
  | branch            -- switch self.status
  | receive           -- handleData(): getData(self.recvFlag)
  | didReceive        -- method.didReceiveData(self, data: data)
  | didFail           -- catch
  | setRunning        -- case .RESUMMING: self.status = .RUNNING
  | readResumed       -- the argument of statusDidChange(self.status)
  | tellResumed
  | readSuspended     -- case .SUSPENDED: if !suspended
  | tellSuspended
  | receiveSuspended
  | didFailSuspended
  | reread            -- the inner switch self.status
  | willKill          -- case .SHOULD_TERMINATE, .IDLE: delegate?.objectWillKill(self)
  | readKilled
  | tellKilled
  | test              -- while (s > 0)
  | completion
  | done
  deriving DecidableEq, Repr

/-- The state of a loop: its object and its locals. `data` is the data of a pending handler call, `told` the argument
    of a pending `statusDidChange`. -/
structure RunLoop where
  pc        : RunPc     := .setStatus
  object    : RunObject := {}
  s         : Int       := 0
  suspended : Bool      := false
  cacheRecv : IntT      := 0
  cacheSend : IntT      := 0
  data      : List UInt8 := []
  told      : SXStatus  := .idle
  deriving DecidableEq, Repr

/-- What can be observed of a loop. `receive` has the flags and the data, `none` if it threw; `didReceive` the data,
    the answer of the handler and the data as the handler left them; `setStatus` is the doing of another party. -/
inductive RunEvent
  | send (payload : List UInt8)
  | iterate
  | branch (st : SXStatus)
  | receive (flags : IntT) (r : Option (List UInt8))
  | didReceive (data : List UInt8) (proceed : Bool) (left : List UInt8)
  | didFail
  | reread (st : SXStatus)
  | statusDidChange (st : SXStatus)
  | willKill
  | completion
  | setStatus (st : SXStatus)
  deriving DecidableEq, Repr

/-- What a step gets from outside: nothing, the result of a receive, or the answer of the data handler. The data are
    `NSMutableData`, so the handler also decides what is left of them. -/
inductive RunInput
  | tick
  | receive (r : Option (List UInt8))
  | proceed (yes : Bool) (left : List UInt8)
  deriving DecidableEq, Repr

/-! ## Step -/

/-- The statement behind the one that takes over the status: a queue follows the flags of its server. -/
def Runner.afterStatus : Runner → RunPc
  | .queue  => .takeFlags
  | .client => .branch

/-- The flags of a receive in `handleData`. -/
def Runner.flags (runner : Runner) (object : RunObject) : IntT :=
  match runner with
  | .queue  => object.recvFlag
  | .client => 0

/-- The case label `switch self.status` jumps to. -/
def Runner.branchTarget (runner : Runner) : SXStatus → RunPc
  | .running   => .receive
  | .resumming => .setRunning
  | .suspended => .readSuspended
  | .shouldTerminate | .idle =>
    match runner with
    | .queue  => .willKill
    | .client => .readKilled

/-- `statusDidChange(st)`: a queue writes its status, a client tells its delegate. -/
def Runner.statusDidChange (runner : Runner) (object : RunObject) (st : SXStatus) : RunObject × List RunEvent :=
  match runner with
  | .queue  => ({ object with status := st }, [.statusDidChange st])
  | .client => (object, if object.delegate then [.statusDidChange st] else [])

/-- A receive gets at most as much as the buffer holds. -/
def RunObject.fits (object : RunObject) (r : Option (List UInt8)) : Bool := (r.getD []).length ≤ object.bufsize

/-- One step of a loop. `owner` is the object above: the server, which a queue always has, or the owner of a
    client. -/
def runStep (runner : Runner) (owner : Option Controller) (c : RunLoop) (i : RunInput) :
    Option (RunLoop × List RunEvent) :=
  match c.pc, i with
  | .setStatus, .tick =>
    let c : RunLoop :=
      { c with pc := .readOwner, object := { c.object with status := .running }, suspended := false, s := 0 }
    match runner, owner with
    | .queue,  none        => none
    | .queue,  some server => some ({ c with cacheRecv := server.recvFlag, cacheSend := server.sendFlag }, [])
    | .client, _           => some (c, [])
  | .readOwner, .tick =>
    match runner, owner with
    | .queue,  none   => none
    | .client, none   => some ({ c with pc := .branch }, [.iterate])
    | _, some owner =>
      some ({ c with pc := if owner.status ≠ .running then .takeStatus else runner.afterStatus }, [.iterate])
  | .takeStatus, .tick =>
    match owner with
    | none       => none
    | some owner => some ({ c with pc := runner.afterStatus, object := { c.object with status := owner.status } }, [])
  | .takeFlags, .tick =>
    match owner with
    | none        => none
    | some server =>
      let recvChanged := server.recvFlag ≠ c.cacheRecv
      let sendChanged := server.sendFlag ≠ c.cacheSend
      some ({ c with
        pc        := .branch
        cacheRecv := if recvChanged then server.recvFlag else c.cacheRecv
        cacheSend := if sendChanged then server.sendFlag else c.cacheSend
        object    := { c.object with
          recvFlag := if recvChanged then server.recvFlag else c.object.recvFlag
          sendFlag := if sendChanged then server.sendFlag else c.object.sendFlag } }, [])
  | .branch, .tick =>
    some ({ c with pc := runner.branchTarget c.object.status }, [.branch c.object.status])
  -- handleData()
  | .receive, .receive r =>
    if c.object.fits r then
      match r with
      | none      => some ({ c with pc := .didFail, s := 0 }, [.receive (runner.flags c.object) none])
      | some data => some ({ c with pc := .didReceive, data := data }, [.receive (runner.flags c.object) (some data)])
    else none
  | .didReceive, .proceed yes left =>
    some ({ c with pc := .test, s := if yes then left.length else 0 }, [.didReceive c.data yes left])
  | .didFail, .tick => some ({ c with pc := .test }, [.didFail])
  -- case .RESUMMING
  | .setRunning, .tick => some ({ c with pc := .readResumed, object := { c.object with status := .running } }, [])
  | .readResumed, .tick => some ({ c with pc := .tellResumed, told := c.object.status }, [])
  | .tellResumed, .tick =>
    let r := runner.statusDidChange c.object c.told
    some ({ c with pc := .test, object := r.1 }, r.2)
  -- case .SUSPENDED
  | .readSuspended, .tick =>
    if c.suspended then some ({ c with pc := .receiveSuspended }, [])
    else some ({ c with pc := .tellSuspended, told := c.object.status }, [])
  | .tellSuspended, .tick =>
    let r := runner.statusDidChange c.object c.told
    some ({ c with pc := .receiveSuspended, suspended := true, object := r.1 }, r.2)
  | .receiveSuspended, .receive r =>
    if c.object.fits r then
      some ({ c with
        pc := if r = none ∧ runner = .queue then .didFailSuspended else .reread
        s  := if r = none ∨ r = some [] then 0 else c.s }, [.receive 0 r])
    else none
  | .didFailSuspended, .tick => some ({ c with pc := .reread }, [.didFail])
  | .reread, .tick =>
    match c.object.status with
    | .shouldTerminate | .idle => some ({ c with pc := .test, s := 0 }, [.reread c.object.status])
    | .running | .resumming    => some ({ c with pc := .receive }, [.reread c.object.status])
    | .suspended               => some ({ c with pc := .test }, [.reread c.object.status])
  -- case .SHOULD_TERMINATE, .IDLE
  | .willKill, .tick => some ({ c with pc := .readKilled }, if c.object.delegate then [.willKill] else [])
  | .readKilled, .tick => some ({ c with pc := .tellKilled, told := c.object.status }, [])
  | .tellKilled, .tick =>
    let r := runner.statusDidChange c.object c.told
    some ({ c with pc := .test, object := r.1 }, r.2)
  | .test, .tick => some ({ c with pc := if 0 < c.s then .readOwner else .completion }, [])
  | .completion, .tick => some ({ c with pc := .done }, [.completion])
  | _, _ => none

/-! ## The moves of a loop, one case per outcome -/

/-- What one step of a loop can do to its program point, its `s` and its iterations. The fields that only say what is
    received and told are left open. -/
inductive RunMove (runner : Runner) (c : RunLoop) : RunLoop → List RunEvent → Prop
  | start (h : c.pc = .setStatus) (c' : RunLoop) (hpc : c'.pc = .readOwner) (hs : c'.s = 0) : RunMove runner c c' []
  | iterate (h : c.pc = .readOwner) (pc' : RunPc) (hpc : pc' = .takeStatus ∨ pc' = .takeFlags ∨ pc' = .branch) :
      RunMove runner c { c with pc := pc' } [.iterate]
  | takeOver (h : c.pc = .takeStatus ∨ c.pc = .takeFlags) (c' : RunLoop)
      (hpc : c'.pc = .takeFlags ∨ c'.pc = .branch) (hs : c'.s = c.s) : RunMove runner c c' []
  | branchRunning (h : c.pc = .branch) (hst : c.object.status = .running) :
      RunMove runner c { c with pc := .receive } [.branch .running]
  | branchResumming (h : c.pc = .branch) (hst : c.object.status = .resumming) :
      RunMove runner c { c with pc := .setRunning } [.branch .resumming]
  | branchSuspended (h : c.pc = .branch) (hst : c.object.status = .suspended) :
      RunMove runner c { c with pc := .readSuspended } [.branch .suspended]
  | branchEnds (h : c.pc = .branch) (hst : c.object.status.Ends) (pc' : RunPc)
      (hpc : pc' = .willKill ∨ pc' = .readKilled) : RunMove runner c { c with pc := pc' } [.branch c.object.status]
  | receiveFails (h : c.pc = .receive) (flags : IntT) :
      RunMove runner c { c with pc := .didFail, s := 0 } [.receive flags none]
  | receive (h : c.pc = .receive) (flags : IntT) (data : List UInt8) :
      RunMove runner c { c with pc := .didReceive, data := data } [.receive flags (some data)]
  | didReceive (h : c.pc = .didReceive) (yes : Bool) (left : List UInt8) :
      RunMove runner c { c with pc := .test, s := if yes then left.length else 0 } [.didReceive c.data yes left]
  | didFail (h : c.pc = .didFail) : RunMove runner c { c with pc := .test } [.didFail]
  | resume (h : c.pc = .setRunning ∨ c.pc = .readResumed) (c' : RunLoop)
      (hpc : c'.pc = .readResumed ∨ c'.pc = .tellResumed) (hs : c'.s = c.s) : RunMove runner c c' []
  | tellResumed (h : c.pc = .tellResumed) (object : RunObject) (es : List RunEvent)
      (hes : ∀ e ∈ es, e = .statusDidChange c.told) : RunMove runner c { c with pc := .test, object := object } es
  | readSuspended (h : c.pc = .readSuspended) (c' : RunLoop)
      (hpc : c'.pc = .tellSuspended ∨ c'.pc = .receiveSuspended) (hs : c'.s = c.s) : RunMove runner c c' []
  | tellSuspended (h : c.pc = .tellSuspended) (object : RunObject) (es : List RunEvent)
      (hes : ∀ e ∈ es, e = .statusDidChange c.told) :
      RunMove runner c { c with pc := .receiveSuspended, suspended := true, object := object } es
  | receiveSuspended (h : c.pc = .receiveSuspended) (r : Option (List UInt8)) (pc' : RunPc)
      (hpc : pc' = .reread ∨ pc' = .didFailSuspended) :
      RunMove runner c { c with pc := pc', s := if r = none ∨ r = some [] then 0 else c.s } [.receive 0 r]
  | didFailSuspended (h : c.pc = .didFailSuspended) : RunMove runner c { c with pc := .reread } [.didFail]
  | rereadEnds (h : c.pc = .reread) (hst : c.object.status.Ends) :
      RunMove runner c { c with pc := .test, s := 0 } [.reread c.object.status]
  | rereadDelivers (h : c.pc = .reread) (hst : c.object.status.Delivers) :
      RunMove runner c { c with pc := .receive } [.reread c.object.status]
  | rereadSuspended (h : c.pc = .reread) (hst : c.object.status = .suspended) :
      RunMove runner c { c with pc := .test } [.reread .suspended]
  | willKill (h : c.pc = .willKill) (es : List RunEvent) (hes : es = [.willKill] ∨ es = []) :
      RunMove runner c { c with pc := .readKilled } es
  | readKilled (h : c.pc = .readKilled) (told : SXStatus) :
      RunMove runner c { c with pc := .tellKilled, told := told } []
  | tellKilled (h : c.pc = .tellKilled) (object : RunObject) (es : List RunEvent)
      (hes : ∀ e ∈ es, e = .statusDidChange c.told) : RunMove runner c { c with pc := .test, object := object } es
  | testKeeps (h : c.pc = .test) (hs : 0 < c.s) : RunMove runner c { c with pc := .readOwner } []
  | testEnds (h : c.pc = .test) (hs : ¬ 0 < c.s) : RunMove runner c { c with pc := .completion } []
  | completion (h : c.pc = .completion) : RunMove runner c { c with pc := .done } [.completion]

/-- The one event of `statusDidChange`, if there is one. -/
theorem mem_statusDidChange {runner : Runner} {object : RunObject} {st : SXStatus} :
    ∀ e ∈ (runner.statusDidChange object st).2, e = .statusDidChange st := by
  intro e he
  unfold Runner.statusDidChange at he
  cases runner with
  | queue => exact List.mem_singleton.mp he
  | client =>
      dsimp only at he
      split at he
      · exact List.mem_singleton.mp he
      · cases he

theorem afterStatus_cases (runner : Runner) : runner.afterStatus = .takeFlags ∨ runner.afterStatus = .branch := by
  cases runner
  · exact .inl rfl
  · exact .inr rfl

/-- **Every step is a move.** -/
theorem runStep_move {runner : Runner} {owner : Option Controller} {c c' : RunLoop} {i : RunInput}
    {es : List RunEvent} (h : runStep runner owner c i = some (c', es)) : RunMove runner c c' es := by
  cases hpc : c.pc <;> cases i <;> simp only [runStep, hpc, reduceCtorEq] at h
  case setStatus.tick =>
    split at h
    · cases h
    · cases h; exact .start hpc _ rfl rfl
    · cases h; exact .start hpc _ rfl rfl
  case readOwner.tick =>
    split at h
    · cases h
    · cases h; exact .iterate hpc _ (.inr (.inr rfl))
    · cases h
      refine .iterate hpc _ ?_
      split
      · exact .inl rfl
      · exact .inr (afterStatus_cases runner)
  case takeStatus.tick =>
    split at h
    · cases h
    · cases h; exact .takeOver (.inl hpc) _ (afterStatus_cases runner) rfl
  case takeFlags.tick =>
    split at h
    · cases h
    · cases h; exact .takeOver (.inr hpc) _ (.inr rfl) rfl
  case branch.tick =>
    cases h
    cases hst : c.object.status
    case running => exact .branchRunning hpc hst
    case resumming => exact .branchResumming hpc hst
    case suspended => exact .branchSuspended hpc hst
    all_goals
      rw [← hst]
      refine .branchEnds hpc (by rw [hst]; decide) _ ?_
      rw [hst]
      cases runner
      · exact .inl rfl
      · exact .inr rfl
  case receive.receive r =>
    split at h
    · split at h
      · cases h; exact .receiveFails hpc _
      · cases h; exact .receive hpc _ _
    · cases h
  case didReceive.proceed yes left => cases h; exact .didReceive hpc yes left
  case didFail.tick => cases h; exact .didFail hpc
  case setRunning.tick => cases h; exact .resume (.inl hpc) _ (.inl rfl) rfl
  case readResumed.tick => cases h; exact .resume (.inr hpc) _ (.inr rfl) rfl
  case tellResumed.tick => cases h; exact .tellResumed hpc _ _ mem_statusDidChange
  case readSuspended.tick =>
    split at h
    · cases h; exact .readSuspended hpc _ (.inr rfl) rfl
    · cases h; exact .readSuspended hpc _ (.inl rfl) rfl
  case tellSuspended.tick => cases h; exact .tellSuspended hpc _ _ mem_statusDidChange
  case receiveSuspended.receive r =>
    split at h
    · cases h
      refine .receiveSuspended hpc r _ ?_
      split
      · exact .inr rfl
      · exact .inl rfl
    · cases h
  case didFailSuspended.tick => cases h; exact .didFailSuspended hpc
  case reread.tick =>
    split at h <;> next hst =>
      cases h
      first
        | exact .rereadEnds hpc (by rw [hst]; decide)
        | exact .rereadDelivers hpc (by rw [hst]; decide)
        | (rw [hst]; exact .rereadSuspended hpc hst)
  case willKill.tick =>
    cases h
    refine .willKill hpc _ ?_
    split
    · exact .inl rfl
    · exact .inr rfl
  case readKilled.tick => cases h; exact .readKilled hpc _
  case tellKilled.tick => cases h; exact .tellKilled hpc _ _ mem_statusDidChange
  case test.tick =>
    cases h
    by_cases hs : 0 < c.s
    · rw [if_pos hs]; exact .testKeeps hpc hs
    · rw [if_neg hs]; exact .testEnds hpc hs
  case completion.tick => cases h; exact .completion hpc

/-! ## The loop among other parties -/

/-- A step of the loop, with what is above its object at that moment, or a write of another party to the status. -/
inductive RunAct
  | loop (owner : Option Controller) (i : RunInput)
  | setStatus (st : SXStatus)
  deriving DecidableEq, Repr

/-- One step of a loop among other parties. -/
def runSysStep (runner : Runner) (c : RunLoop) : RunAct → Option (RunLoop × List RunEvent)
  | .loop owner i  => runStep runner owner c i
  | .setStatus st => some ({ c with object := { c.object with status := st } }, [.setStatus st])

/-- `SXQueue.start`: the loop runs in the call. -/
def sxQueueStart (queue : RunObject) : RunLoop := { object := queue }

/-- `SXStreamClient.start`: what it does before it dispatches the loop, and the loop. -/
def sxStreamClientStart (connected : Bool) (initialPayload : Option (List UInt8)) (client : RunObject) :
    List RunEvent × Option RunLoop :=
  if connected then ((initialPayload.map .send).toList, some { object := client })
  else ([.didFail], none)

/-- **Invariant rule for a loop.** What holds at the start, and is preserved by every move and by every write of
    another party to the status, holds after every run. -/
theorem runLoop_invariant {runner : Runner} {I : RunLoop → List RunEvent → Prop}
    (hmove : ∀ c c' tr es, I c tr → RunMove runner c c' es → I c' (tr ++ es))
    (hother : ∀ c tr st, I c tr → I { c with object := { c.object with status := st } } (tr ++ [.setStatus st]))
    {c₀ c : RunLoop} {acts : List RunAct} {tr : List RunEvent} (h0 : I c₀ [])
    (hrun : Machine.run (runSysStep runner) c₀ acts = some (c, tr)) : I c tr := by
  have hstep (c₁ : RunLoop) (tr₁ : List RunEvent) (a : RunAct) (c₂ : RunLoop) (es : List RunEvent)
      (hi : I c₁ tr₁) (hs : runSysStep runner c₁ a = some (c₂, es)) : I c₂ (tr₁ ++ es) := by
    cases a with
    | loop owner i => exact hmove c₁ c₂ tr₁ es hi (runStep_move hs)
    | setStatus st =>
        cases hs
        exact hother c₁ tr₁ st hi
  have hi := Machine.run_invariant (I := I) hstep h0 hrun
  rwa [List.nil_append] at hi

end SpartanX
