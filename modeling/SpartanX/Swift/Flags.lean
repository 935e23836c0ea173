import SpartanX.Lib.Follower
import SpartanX.Swift.StreamServer

/-!
# `Swift.Flags` — the flags of a queue and those of its server

An `SXStreamQueue` takes the receive flag of its server when it is created, and never its send flag. `SXQueue.start`
caches both flags of the server at its start, and afterwards takes a flag over when it differs from the cache. So a
queue follows its server like a `Follower` that was set up at the start but has its own values from the creation on.

The flags of the server change between the creation and the start, and between iterations, so that within an
iteration there is one value of each.

## Contents
- **The system.** `sxStreamQueueInit`, `FlagSys`, `flagStep`.
- **The trace.** `FlagHistory`; `FlagEvent.Follows`, what a receive is to meet; `FlagEvent.CaughtUp`, when it does.
- **The invariant.** `FlagMove` (`runStep_flagMove`), `FlagInv`; of a whole run `FlagRun`, with the step lemma
  `flagRun_step`.
- **Result.** `queue_flags_follow_iff`.
-/

namespace SpartanX

open CInt

/-! ## The system -/

/-- The `recvFlag` and the `sendFlag` of an object. -/
structure Flags where
  recvFlag : IntT
  sendFlag : IntT
  deriving DecidableEq, Repr

def RunObject.flags (object : RunObject) : Flags := ⟨object.recvFlag, object.sendFlag⟩
def StreamServer.flags (server : StreamServer) : Flags := ⟨server.recvFlag, server.sendFlag⟩

/-- What a queue reads of its server. -/
def StreamServer.controller (server : StreamServer) : Controller :=
  { status := server.status, recvFlag := server.recvFlag, sendFlag := server.sendFlag }

/-- The three `init`s of `SXStreamQueue`, which differ in the `method` only: they assign `recvFlag` twice, and leave
    `sendFlag` at its default. -/
def sxStreamQueueInit (server : StreamServer) (bufsize : Nat) (delegate : Bool) : RunObject :=
  { status := .idle, recvFlag := server.recvFlag, bufsize := bufsize, delegate := delegate }

-- so does the accept loop create its queues
example (server : StreamServer) : sxStreamQueue server = sxStreamQueueInit server 16384 server.delegate := rfl

/-- A queue and its server. -/
structure FlagSys where
  server : StreamServer
  queue  : RunLoop
  deriving DecidableEq, Repr

/-- What can be observed: the server's flags as `start` caches them and as an iteration compares them, and the events
    of the queue, with its own flags at that moment. The rest is the doing of other parties. -/
inductive FlagEvent
  | started (flags : Flags)
  | compared (flags : Flags)
  | queue (e : RunEvent) (flags : Flags)
  | setFlags (flags : Flags)
  | setStatus (st : SXStatus)
  deriving DecidableEq, Repr

/-- A step of the queue, or a write of another party to the flags or the status of the server, or to the status of
    the queue. -/
inductive FlagAct
  | queue (i : RunInput)
  | setFlags (flags : Flags)
  | setStatus (st : SXStatus)
  | setQueueStatus (st : SXStatus)
  deriving DecidableEq, Repr

/-- The queue has not been started, or stands between two iterations. -/
def RunPc.Between : RunPc → Bool
  | .setStatus | .readOwner => true
  | _ => false

/-- What the next step of the queue reads of the server's flags. -/
def FlagSys.reads (s : FlagSys) : List FlagEvent :=
  match s.queue.pc with
  | .setStatus => [.started s.server.flags]
  | .takeFlags => [.compared s.server.flags]
  | _          => []

/-- One step of a queue and those around it. -/
def flagStep (s : FlagSys) : FlagAct → Option (FlagSys × List FlagEvent)
  | .queue i =>
    match runStep .queue (some s.server.controller) s.queue i with
    | none             => none
    | some (queue, es) => some ({ s with queue := queue }, s.reads ++ es.map (.queue · s.queue.object.flags))
  | .setFlags flags =>
    if s.queue.pc.Between then
      let server := { s.server with recvFlag := flags.recvFlag, sendFlag := flags.sendFlag }
      some ({ s with server := server }, [.setFlags flags])
    else none
  | .setStatus st => some ({ s with server := { s.server with status := st } }, [.setStatus st])
  | .setQueueStatus st =>
    let object := { s.queue.object with status := st }
    some ({ s with queue := { s.queue with object := object } }, [.queue (.setStatus st) s.queue.object.flags])

/-- A queue created for a server, and not yet started. -/
def flagStart (server : StreamServer) (bufsize : Nat) (delegate : Bool) : FlagSys :=
  { server := server, queue := sxQueueStart (sxStreamQueueInit server bufsize delegate) }

/-! ## The trace -/

/-- What the events so far say: the server's flags at the start and at all comparisons, the last one first; those of
    the iteration under way, and what it branched on. -/
structure FlagHistory where
  started  : Option Flags    := none
  seen     : List Flags      := []
  compared : Option Flags    := none
  branch   : Option SXStatus := none
  deriving DecidableEq, Repr

/-- One more event. The suspended branch looks at the status again before it hands data on. -/
def FlagHistory.note (w : FlagHistory) : FlagEvent → FlagHistory
  | .started flags         => { w with started := some flags }
  | .compared flags        => { w with seen := flags :: w.seen, compared := some flags }
  | .queue .iterate _      => { w with compared := none, branch := none }
  | .queue (.branch st) _  => { w with branch := some st }
  | .queue (.reread _) _   => { w with branch := none }
  | _                      => w

def flagHistory (tr : List FlagEvent) : FlagHistory := tr.foldl FlagHistory.note {}

/-- The queue's flags at a data receive. -/
def FlagEvent.received : FlagEvent → Option Flags
  | .queue (.receive _ _) flags => some flags
  | _ => none

/-- A receive in the running branch finds the queue with the flags the server had when the iteration compared them. -/
def FlagEvent.Follows (w : FlagHistory) (e : FlagEvent) : Prop :=
  w.branch = some .running → ∀ flags ∈ e.received, w.compared = some flags

/-- A queue created with these flags has caught up with its server: at the start the server's flag was what the
    queue's is, or a comparison has found another value than that at the start. -/
def FlagHistory.CaughtUp (created : Flags) (w : FlagHistory) : Prop :=
  ∀ start ∈ w.started,
    (created.recvFlag = start.recvFlag ∨ ∃ flags ∈ w.seen, flags.recvFlag ≠ start.recvFlag) ∧
    (created.sendFlag = start.sendFlag ∨ ∃ flags ∈ w.seen, flags.sendFlag ≠ start.sendFlag)

/-- The condition on a receive in the running branch. -/
def FlagEvent.CaughtUp (created : Flags) (w : FlagHistory) (e : FlagEvent) : Prop :=
  w.branch = some .running → ∀ _ ∈ e.received, w.CaughtUp created

instance (w : FlagHistory) (e : FlagEvent) : Decidable (e.Follows w) := inferInstanceAs (Decidable (_ → _))
instance (created : Flags) (w : FlagHistory) : Decidable (w.CaughtUp created) :=
  inferInstanceAs (Decidable (∀ start ∈ w.started, _ ∧ _))
instance (created : Flags) (w : FlagHistory) (e : FlagEvent) : Decidable (e.CaughtUp created w) :=
  inferInstanceAs (Decidable (_ → _))

/-! ## The invariant -/

/-- The server's flag as the queue caches it, and the queue's own. -/
def RunLoop.recvFollower (q : RunLoop) : Follower IntT := ⟨q.cacheRecv, q.object.recvFlag⟩
def RunLoop.sendFollower (q : RunLoop) : Follower IntT := ⟨q.cacheSend, q.object.sendFlag⟩

/-- The iteration under way has compared the flags. -/
def RunPc.Compared : RunPc → Bool
  | .setStatus | .readOwner | .takeStatus | .takeFlags => false
  | _ => true

theorem RunPc.ne_of_compared {pc : RunPc} (h : pc.Compared = true) : pc ≠ .setStatus ∧ pc ≠ .takeFlags := by
  constructor
  · rintro rfl
    cases h
  · rintro rfl
    cases h

/-- What one step of a queue can do to its flags and caches, and to what is seen of them. -/
inductive FlagMove (server : StreamServer) (q : RunLoop) : RunLoop → List RunEvent → Prop
  | start (h : q.pc = .setStatus) (q' : RunLoop) (hpc : q'.pc = .readOwner)
      (hrecv : q'.recvFollower = ⟨server.recvFlag, q.object.recvFlag⟩)
      (hsend : q'.sendFollower = ⟨server.sendFlag, q.object.sendFlag⟩) : FlagMove server q q' []
  | compare (h : q.pc = .takeFlags) (q' : RunLoop) (hpc : q'.pc = .branch)
      (hrecv : q'.recvFollower = q.recvFollower.see server.recvFlag)
      (hsend : q'.sendFollower = q.sendFollower.see server.sendFlag) : FlagMove server q q' []
  | keep (h : q.pc ≠ .setStatus ∧ q.pc ≠ .takeFlags) (q' : RunLoop) (e : Option RunEvent)
      (hpc : q'.pc ≠ .setStatus) (hcompared : q'.pc.Compared = true → q.pc.Compared = true ∧ e ≠ some .iterate)
      (hreceive : ∀ flags r, e = some (.receive flags r) → q.pc.Compared = true)
      (hrecv : q'.recvFollower = q.recvFollower) (hsend : q'.sendFollower = q.sendFollower) :
      FlagMove server q q' e.toList

/-- **Every step of a queue is such a move.** -/
theorem runStep_flagMove {server : StreamServer} {q q' : RunLoop} {i : RunInput} {es : List RunEvent}
    (h : runStep .queue (some server.controller) q i = some (q', es)) : FlagMove server q q' es := by
  -- the steps behind the comparison, which do not touch the flags
  have hkeep {pc : RunPc} (hpc : q.pc = pc) (hc : pc.Compared = true) (q' : RunLoop) (e : Option RunEvent)
      (hpc' : q'.pc ≠ .setStatus) (hiterate : e ≠ some .iterate) (hrecv : q'.recvFollower = q.recvFollower)
      (hsend : q'.sendFollower = q.sendFollower) : FlagMove server q q' e.toList := by
    rw [← hpc] at hc
    exact .keep (RunPc.ne_of_compared hc) q' e hpc' (fun _ => ⟨hc, hiterate⟩) (fun _ _ _ => hc) hrecv hsend
  cases hpc : q.pc <;> cases i <;> simp only [runStep, hpc, reduceCtorEq] at h
  case setStatus.tick =>
    cases h
    exact .start hpc _ rfl rfl rfl
  case readOwner.tick =>
    cases h
    refine .keep (by simp [hpc]) _ (some .iterate) ?_ ?_ (by simp) rfl rfl
    · dsimp only
      split <;> simp [Runner.afterStatus]
    · dsimp only
      split <;> simp [Runner.afterStatus, RunPc.Compared]
  case takeStatus.tick =>
    cases h
    exact .keep (by simp [hpc]) _ none (by simp [Runner.afterStatus]) (by simp [Runner.afterStatus, RunPc.Compared])
      (by simp) rfl rfl
  case takeFlags.tick =>
    cases h
    have hrecv := Follower.see_eq q.recvFollower server.recvFlag
    have hsend := Follower.see_eq q.sendFollower server.sendFlag
    exact .compare hpc _ rfl hrecv.symm hsend.symm
  case branch.tick =>
    cases h
    refine hkeep hpc rfl _ (some _) ?_ (by simp) rfl rfl
    cases q.object.status <;> simp [Runner.branchTarget]
  case receive.receive r =>
    split at h
    · split at h <;> cases h <;> exact hkeep hpc rfl _ (some _) (by simp) (by simp) rfl rfl
    · cases h
  case receiveSuspended.receive r =>
    split at h
    · cases h
      refine hkeep hpc rfl _ (some _) ?_ (by simp) rfl rfl
      dsimp only
      split <;> simp
    · cases h
  case reread.tick =>
    split at h <;> cases h <;> exact hkeep hpc rfl _ (some _) (by simp) (by simp) rfl rfl
  case readSuspended.tick =>
    split at h <;> cases h <;> exact hkeep hpc rfl _ none (by simp) (by simp) rfl rfl
  case willKill.tick =>
    cases h
    split
    · exact hkeep hpc rfl _ (some _) (by simp) (by simp) rfl rfl
    · exact hkeep hpc rfl _ none (by simp) (by simp) rfl rfl
  case test.tick =>
    cases h
    refine hkeep hpc rfl _ none ?_ (by simp) rfl rfl
    dsimp only
    split <;> simp
  case setRunning.tick | readResumed.tick | readKilled.tick =>
    cases h
    exact hkeep hpc rfl _ none (by simp) (by simp) rfl rfl
  case didReceive.proceed | didFail.tick | tellResumed.tick | tellSuspended.tick | didFailSuspended.tick |
      tellKilled.tick | completion.tick =>
    cases h
    exact hkeep hpc rfl _ (some _) (by simp) (by simp) rfl rfl

/-- The invariant, of a queue created with these flags and the history of its trace: from the start on the caches and
    the queue's flags are those of a follower that has seen what was compared. -/
structure FlagInv (created : Flags) (q : RunLoop) (w : FlagHistory) : Prop where
  fresh     : q.pc = .setStatus → w.seen = [] ∧ q.object.flags = created
  following : q.pc ≠ .setStatus → ∃ start, w.started = some start ∧
    q.recvFollower = Follower.after start.recvFlag created.recvFlag (w.seen.map Flags.recvFlag) ∧
    q.sendFollower = Follower.after start.sendFlag created.sendFlag (w.seen.map Flags.sendFlag)
  compared  : q.pc.Compared = true → ∃ last before, w.seen = last :: before ∧ w.compared = some last

section Step

variable {created : Flags} {q q' : RunLoop} {w w' : FlagHistory} {s s' : FlagSys} {tr : List FlagEvent}

/-- An event of the queue is not about the flags of the server. -/
theorem note_queue (w : FlagHistory) (e : RunEvent) (flags : Flags) :
    (w.note (.queue e flags)).started = w.started ∧ (w.note (.queue e flags)).seen = w.seen ∧
      (e ≠ .iterate → (w.note (.queue e flags)).compared = w.compared) := by
  cases e
  case iterate => exact ⟨rfl, rfl, fun h => absurd rfl h⟩
  all_goals exact ⟨rfl, rfl, fun _ => rfl⟩

/-- The invariant survives a step that leaves the flags and the caches alone. -/
theorem FlagInv.keep (hi : FlagInv created q w) (hpc : q.pc ≠ .setStatus) (hpc' : q'.pc ≠ .setStatus)
    (hstarted : w'.started = w.started) (hseen : w'.seen = w.seen)
    (hcompared : q'.pc.Compared = true → q.pc.Compared = true ∧ w'.compared = w.compared)
    (hrecv : q'.recvFollower = q.recvFollower) (hsend : q'.sendFollower = q.sendFollower) :
    FlagInv created q' w' := by
  refine ⟨fun h => absurd h hpc', fun _ => ?_, fun h => ?_⟩
  · rw [hstarted, hseen, hrecv, hsend]
    exact hi.following hpc
  · obtain ⟨hc, hsame⟩ := hcompared h
    rw [hseen, hsame]
    exact hi.compared hc

/-- A flag of the queue is what the last comparison found iff it was right at the start or has changed since. -/
theorem own_eq_last_iff (field : Flags → IntT) {f : Follower IntT} {own : IntT} {start last : Flags}
    {before : List Flags} (hf : f = Follower.after (field start) own ((last :: before).map field)) :
    f.own = field last ↔ own = field start ∨ ∃ flags ∈ last :: before, field flags ≠ field start := by
  have hiff : f.own = field last ↔ own = field start ∨ ∃ v ∈ (last :: before).map field, v ≠ field start := by
    rw [hf]
    exact Follower.own_after_iff
  rw [hiff]
  simp only [List.mem_map, exists_exists_and_eq_and]

/-- Once an iteration has compared the flags, the queue has the ones it compared iff it has caught up. -/
theorem FlagInv.compared_iff (hi : FlagInv created q w) (hc : q.pc.Compared = true) :
    w.compared = some q.object.flags ↔ w.CaughtUp created := by
  obtain ⟨hpc, _⟩ := RunPc.ne_of_compared hc
  obtain ⟨last, before, hseen, hlast⟩ := hi.compared hc
  obtain ⟨start, hstart, hrecv, hsend⟩ := hi.following hpc
  rw [hseen] at hrecv hsend
  have hrecv' := own_eq_last_iff Flags.recvFlag hrecv
  have hsend' := own_eq_last_iff Flags.sendFlag hsend
  have hflags : w.compared = some q.object.flags ↔
      q.recvFollower.own = last.recvFlag ∧ q.sendFollower.own = last.sendFlag := by
    rw [hlast, Option.some.injEq, eq_comm]
    exact Flags.mk.injEq .. ▸ Iff.rfl
  unfold FlagHistory.CaughtUp
  rw [hflags, hrecv', hsend', hstart, hseen]
  simp

/-- So a receive follows iff it meets the condition. -/
theorem FlagInv.event_iff (hi : FlagInv created q w) {e : RunEvent}
    (hreceive : ∀ flags r, e = .receive flags r → q.pc.Compared = true) :
    (FlagEvent.queue e q.object.flags).Follows w ↔ (FlagEvent.queue e q.object.flags).CaughtUp created w := by
  unfold FlagEvent.Follows FlagEvent.CaughtUp
  cases e
  case receive flags r =>
    have hiff := hi.compared_iff (hreceive flags r rfl)
    simp [FlagEvent.received, hiff]
  all_goals simp [FlagEvent.received]

/-- The invariant of a run: at every event so far the queue followed its server iff it had caught up. -/
structure FlagRun (created : Flags) (s : FlagSys) (tr : List FlagEvent) : Prop where
  inv    : FlagInv created s.queue (flagHistory tr)
  events : Machine.EachEvent
    (fun before e => e.Follows (flagHistory before) ↔ e.CaughtUp created (flagHistory before)) tr

theorem flagHistory_concat (tr : List FlagEvent) (e : FlagEvent) :
    flagHistory (tr ++ [e]) = (flagHistory tr).note e := by
  unfold flagHistory
  rw [List.foldl_append]
  rfl

/-- One more event. -/
theorem FlagRun.concat {e : FlagEvent} (hr : FlagRun created s tr)
    (hinv : FlagInv created s'.queue ((flagHistory tr).note e))
    (hevent : e.Follows (flagHistory tr) ↔ e.CaughtUp created (flagHistory tr)) : FlagRun created s' (tr ++ [e]) := by
  refine ⟨?_, hr.events.concat hevent⟩
  rw [flagHistory_concat]
  exact hinv

/-- An event that is no receive asks for nothing. -/
theorem follows_iff_of_not_received {e : FlagEvent} (h : e.received = none) :
    e.Follows w ↔ e.CaughtUp created w := by
  unfold FlagEvent.Follows FlagEvent.CaughtUp
  rw [h]
  simp

/-- The invariant survives every move of the queue. -/
theorem flagRun_move {es : List RunEvent} (hr : FlagRun created s tr) (hm : FlagMove s.server s.queue q' es) :
    FlagRun created { s with queue := q' } (tr ++ (s.reads ++ es.map (.queue · s.queue.object.flags))) := by
  have hi := hr.inv
  cases hm with
  | start h _ hpc hrecv hsend =>
      obtain ⟨hseen, hflags⟩ := hi.fresh h
      have hreads : s.reads = [.started s.server.flags] := by simp [FlagSys.reads, h]
      rw [hreads]
      refine hr.concat ⟨?_, fun _ => ⟨s.server.flags, rfl, ?_, ?_⟩, ?_⟩ (follows_iff_of_not_received rfl)
      · rw [hpc]
        nofun
      · show q'.recvFollower = Follower.after _ _ ((flagHistory tr).seen.map _)
        rw [hseen, hrecv, ← hflags]
        rfl
      · show q'.sendFollower = Follower.after _ _ ((flagHistory tr).seen.map _)
        rw [hseen, hsend, ← hflags]
        rfl
      · rw [hpc]
        nofun
  | compare h _ hpc hrecv hsend =>
      obtain ⟨start, hstart, hrecv₀, hsend₀⟩ := hi.following (by rw [h]; nofun)
      have hreads : s.reads = [.compared s.server.flags] := by simp [FlagSys.reads, h]
      rw [hreads]
      refine hr.concat ⟨?_, fun _ => ⟨start, hstart, ?_, ?_⟩, fun _ => ⟨_, _, rfl, rfl⟩⟩
        (follows_iff_of_not_received rfl)
      · rw [hpc]
        nofun
      · rw [hrecv, hrecv₀]
        rfl
      · rw [hsend, hsend₀]
        rfl
  | keep h _ e hpc hcompared hreceive hrecv hsend =>
      obtain ⟨hstart, hflags⟩ := h
      have hreads : s.reads = [] := by
        unfold FlagSys.reads
        split
        · exact absurd ‹_› hstart
        · exact absurd ‹_› hflags
        · rfl
      rw [hreads]
      cases e with
      | none =>
          show FlagRun created _ (tr ++ [])
          rw [List.append_nil]
          exact ⟨hi.keep hstart hpc rfl rfl (fun hc => ⟨(hcompared hc).1, rfl⟩) hrecv hsend, hr.events⟩
      | some e =>
          obtain ⟨hstarted, hseen, hsame⟩ := note_queue (flagHistory tr) e s.queue.object.flags
          refine hr.concat (hi.keep hstart hpc hstarted hseen ?_ hrecv hsend) (hi.event_iff ?_)
          · intro hc
            obtain ⟨hc', hne⟩ := hcompared hc
            exact ⟨hc', hsame fun heq => hne (congrArg some heq)⟩
          · intro flags r heq
            exact hreceive flags r (congrArg some heq)

/-- **The invariant survives every step.** -/
theorem flagRun_step {a : FlagAct} {es : List FlagEvent} (hr : FlagRun created s tr)
    (hs : flagStep s a = some (s', es)) : FlagRun created s' (tr ++ es) := by
  have hi := hr.inv
  cases a with
  | queue i =>
      simp only [flagStep] at hs
      split at hs
      · cases hs
      · next q' es' hstep =>
          cases hs
          exact flagRun_move hr (runStep_flagMove hstep)
  | setFlags flags =>
      simp only [flagStep] at hs
      split at hs
      · cases hs
        exact hr.concat hi (follows_iff_of_not_received rfl)
      · cases hs
  | setStatus st =>
      cases hs
      exact hr.concat hi (follows_iff_of_not_received rfl)
  | setQueueStatus st =>
      cases hs
      exact hr.concat ⟨hi.fresh, hi.following, hi.compared⟩ (follows_iff_of_not_received rfl)

end Step

/-! ## Result -/

/-- **When the queue's flags follow the server's.** In every run of a queue created for a server, however the flags
    of the server change before the start and between iterations: all receives in the running branch find the queue
    with the flags that the server had when the iteration compared them, iff at all of them the queue, created with
    the receive flag of the server and send flag `0`, has caught up. -/
theorem queue_flags_follow_iff {server : StreamServer} {bufsize : Nat} {delegate : Bool} {acts : List FlagAct}
    {s : FlagSys} {tr : List FlagEvent}
    (hrun : Machine.run flagStep (flagStart server bufsize delegate) acts = some (s, tr)) :
    Machine.EachEvent (fun before e => e.Follows (flagHistory before)) tr ↔
      Machine.EachEvent (fun before e => e.CaughtUp ⟨server.recvFlag, 0⟩ (flagHistory before)) tr := by
  have h0 : FlagRun ⟨server.recvFlag, 0⟩ (flagStart server bufsize delegate) [] := by
    refine ⟨⟨fun _ => ⟨rfl, rfl⟩, fun h => absurd rfl h, nofun⟩, Machine.eachEvent_nil _⟩
  have hr := Machine.run_invariant (I := FlagRun ⟨server.recvFlag, 0⟩)
    (fun _ _ _ _ _ hr hs => flagRun_step hr hs) h0 hrun
  exact Machine.eachEvent_congr hr.events

/-- A running server with these flags. -/
def flaggedServer (recvFlag sendFlag : IntT) : StreamServer :=
  { maxGuest := 1, status := .running, recvFlag := recvFlag, sendFlag := sendFlag }

/-- The start of a queue up to its first receive, and an iteration behind one that has received a byte. -/
def toReceive : List FlagAct := List.replicate 4 (.queue .tick)
def nextReceive (between : List FlagAct) : List FlagAct :=
  [.queue (.receive (some [5])), .queue (.proceed true [5]), .queue .tick] ++ between ++
    List.replicate 3 (.queue .tick)

/-- A queue whose server changes both flags between its first two iterations. -/
theorem queue_flags_follow_iff_changed :
    ∃ s tr, Machine.run flagStep (flagStart (flaggedServer 2 0) 16384 true)
        (toReceive ++ nextReceive [.setFlags ⟨3, 1⟩] ++ [.queue (.receive none)]) = some (s, tr) ∧
      tr.filterMap FlagEvent.received = [⟨2, 0⟩, ⟨3, 1⟩] ∧
      Machine.EachEvent (fun before e => e.Follows (flagHistory before)) tr := by
  have hruns : (Machine.run flagStep (flagStart (flaggedServer 2 0) 16384 true)
      (toReceive ++ nextReceive [.setFlags ⟨3, 1⟩] ++ [.queue (.receive none)])).map
      (fun p => (p.2.filterMap FlagEvent.received,
        decide (Machine.EachEvent (fun before e => e.CaughtUp ⟨2, 0⟩ (flagHistory before)) p.2))) =
      some ([⟨2, 0⟩, ⟨3, 1⟩], true) := by decide +kernel
  obtain ⟨⟨s, tr⟩, hrun, heq⟩ := Option.map_eq_some_iff.mp hruns
  obtain ⟨hreceived, hcaught⟩ := Prod.mk.inj heq
  exact ⟨s, tr, hrun, hreceived, (queue_flags_follow_iff hrun).mpr (of_decide_eq_true hcaught)⟩

/-- **The flags do not follow.** The first receive finds the queue without the send flag of its server; and if the
    receive flag of the server is changed between the creation of the queue and its start, with the old one. -/
theorem queue_flags_lag :
    (∃ s tr, Machine.run flagStep (flagStart (flaggedServer 0 1) 16384 true) (toReceive ++ [.queue (.receive none)]) =
        some (s, tr) ∧
      tr.filterMap FlagEvent.received = [⟨0, 0⟩] ∧
      ¬ Machine.EachEvent (fun before e => e.Follows (flagHistory before)) tr) ∧
    ∃ s tr, Machine.run flagStep (flagStart (flaggedServer 0 0) 16384 true)
        ([.setFlags ⟨1, 0⟩] ++ toReceive ++ [.queue (.receive none)]) = some (s, tr) ∧
      tr.filterMap FlagEvent.received = [⟨0, 0⟩] ∧
      ¬ Machine.EachEvent (fun before e => e.Follows (flagHistory before)) tr := by
  have hlags {server : StreamServer} {acts : List FlagAct}
      (h : (Machine.run flagStep (flagStart server 16384 true) acts).map (fun p =>
        (p.2.filterMap FlagEvent.received,
          decide (Machine.EachEvent (fun before e => e.Follows (flagHistory before)) p.2))) =
        some ([⟨0, 0⟩], false)) :
      ∃ s tr, Machine.run flagStep (flagStart server 16384 true) acts = some (s, tr) ∧
        tr.filterMap FlagEvent.received = [⟨0, 0⟩] ∧
        ¬ Machine.EachEvent (fun before e => e.Follows (flagHistory before)) tr := by
    obtain ⟨⟨s, tr⟩, hrun, heq⟩ := Option.map_eq_some_iff.mp h
    obtain ⟨hreceived, hfollows⟩ := Prod.mk.inj heq
    exact ⟨s, tr, hrun, hreceived, of_decide_eq_false hfollows⟩
  exact ⟨hlags (by decide +kernel), hlags (by decide +kernel)⟩

end SpartanX
