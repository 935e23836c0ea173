import SpartanX.Lifetime

/-!
# `Shutdown` — a server that is to terminate winds down

Once the status of a started server is `should_terminate`, and nobody writes the status of the server or of a queue
any more, every step brings somebody nearer to its end: the accept loop leaves at its head or its test, and a block
copies the status in its next iteration and leaves at the switch. So the owner, the loop and the blocks take boundedly
many steps between them, in whatever order (`connMove_left`, `ending_step`); and when neither the loop nor a block can
take another, they have all ended, except for one that calls a handler through `NULL` or gives back a server that has
been deallocated under it (`server_winds_down`).

## Contents
- **How far it is to the end.** `Conn.stepsLeft`, `LoopPc.left`, `Sys.stepsLeft`.
- **The loop keeps the server.** `Sys.LoopKeeps`.
- **Every step is a step towards the end.** `Sys.Ending`, `ending_step`.
- **Who cannot take a step.** `loop_stuck`, `conn_stuck`.
- **Results.** `server_winds_down`.
-/

namespace SpartanX

open CInt

/-! ## How far it is to the end -/

/-- The steps of a block up to its end, at most, if the status of the server ends its loop. -/
def Conn.stepsLeft (c : Conn) : Nat :=
  match c.pc with
  | .branch => if c.queue.status.Ends then 7 else 17
  | .create | .willSuspend => 16
  | .transfer | .callRecvSuspended => 15
  | .retain | .callRecv | .recvSuspended => 14
  | .didConnect | .recv | .setRunning | .reread => 13
  | .handle | .didResume | .handleSuspended => 12
  | .alloc | .test => 11
  | .clear => 10
  | .compare => 9
  | .copy => 8
  | .willKill => 6
  | .close => 5
  | .didDisconnect => 4
  | .releaseServer => 3
  | .releaseQueue => 2
  | .decCount => 1
  | .done => 0

/-- The steps of the loop up to its end, at most, if the status is `should_terminate`, with those of the block it may
    still dispatch. -/
def LoopPc.left : LoopPc → Nat
  | .setRunning | .checkSuspend => 27
  | .checkGuests => 26
  | .incCount => 25
  | .callAccept => 24
  | .accept => 23
  | .shouldConnect => 22
  | .dispatch => 21
  | .didStart | .listen | .acceptFailed => 5
  | .head | .checkTerminate => 4
  | .setIdle => 3
  | .release => 2
  | .didKill => 1
  | .done => 0

/-- The steps of all parties. -/
def Sys.stepsLeft (s : Sys) : Nat := (if s.owner then 1 else 0) + s.pc.left + (s.conns.map Conn.stepsLeft).sum

/-- The step is one of the owner, the loop or a block, and not one of somebody who writes a status. -/
def SysAct.Own : SysAct → Prop
  | .owner | .loop _ | .conn _ _    => True
  | .setStatus _ | .queue _ _ => False

theorem Conn.stepsLeft_le (c : Conn) : c.stepsLeft ≤ 17 := by
  unfold Conn.stepsLeft
  split <;> first | omega | (split <;> omega)

theorem Sys.stepsLeft_le (s : Sys) : s.stepsLeft ≤ 28 + 17 * s.conns.length := by
  have hpc : s.pc.left ≤ 27 := by cases s.pc <;> simp [LoopPc.left]
  have hsum (l : List Conn) : (l.map Conn.stepsLeft).sum ≤ 17 * l.length := by
    induction l with
    | nil => exact Nat.zero_le _
    | cons c l ih =>
        have hc := c.stepsLeft_le
        rw [List.map_cons, List.sum_cons, List.length_cons]
        omega
  have hconns := hsum s.conns
  unfold Sys.stepsLeft
  split <;> omega

/-- **A step of a block brings it nearer to its end**, if the status of the server ends its loop. -/
theorem connMove_left {srv : Server} {c c' : Conn} {i : Input} {es : List ConnEvent} (hends : srv.status.Ends)
    (hm : ConnMove srv c i c' es) : c'.stepsLeft < c.stepsLeft := by
  cases hm with
  | compareRunning h hs =>
      rw [hs] at hends
      rcases hends with hends | hends <;> cases hends
  | copy h => simp [Conn.stepsLeft, h, hends]
  | branchEnds h hs => simp [Conn.stepsLeft, h, hs]
  | branchRunning h hs | branchResuming h hs | branchSuspend h hs => simp [Conn.stepsLeft, h, hs, Status.Ends]
  | branchDefault h hs hd hsus => simp [Conn.stepsLeft, h, hs]
  | _ h => simp [Conn.stepsLeft, h]

/-! ## The loop keeps the server -/

/-- As long as the loop has its reference, the count is the number of those who hold the server, or the sentinel, and
    the server has its socket. -/
structure Sys.LoopKeeps (s : Sys) : Prop where
  counted : s.pc.Holds = true → s.server.obj.refCount = s.holders ∨ s.server.obj.refCount = sxWeakObject
  sock    : s.pc.Holds = true → s.server.sock.isSome = true

section Step

variable {calls : SocketCalls} {s s' : Sys} {a : SysAct} {i : LoopInput} {es : List SysEvent}

/-- The loop does not get its reference back. -/
theorem holds_of_step (hs : sysStep calls s a = some (s', es)) (hholds : s'.pc.Holds = true) : s.pc.Holds = true := by
  cases a with
  | owner =>
      simp only [sysStep] at hs
      split at hs
      · split at hs
        · cases hs
        · cases hs
          exact hholds
      · cases hs
  | setStatus st =>
      cases hs
      exact hholds
  | loop i =>
      cases loopStep_move hs with
      | touch pc' st es h _ _ _ => exact h.1
      | didKill hpc => cases hholds
      | enter hpc | inc hpc | accepted hpc | failed hpc | refused hpc | dispatch hpc | release hpc =>
          rw [hpc]
          rfl
  | conn k i =>
      obtain ⟨c, _, hshare⟩ := conn_share hs
      cases hshare <;> exact hholds
  | queue k a =>
      obtain ⟨c, c', ces, _, _, _, rfl, _⟩ := sysStep_queue hs
      exact hholds

/-- Nobody's release is the last one as long as the loop has its reference. -/
theorem lastRelease_vacuous (hi : s.LoopKeeps) (hs : sysStep calls s a = some (s', es))
    (hholds : s'.pc.Holds = true) : s.LastRelease [] a := by
  intro hreleases hone
  have hheld := holds_of_step hs hholds
  have htwo : s.holders < 2 := by
    rcases hi.counted hheld with h | h
    · omega
    · rw [hone] at h
      exact absurd h (by decide)
  unfold Sys.holders at htwo
  rw [if_pos hheld] at htwo
  cases a with
  | owner =>
      have howner : s.owner = true := by
        by_contra hnot
        simp [sysStep, hnot] at hs
      rw [if_pos howner] at htwo
      omega
  | loop i =>
      have hpc : s.pc = .release := hreleases
      cases i <;> simp only [sysStep, loopStep, hpc, reduceCtorEq] at hs
      split at hs
      · cases hs
      · cases hs
        cases hholds
  | conn k i =>
      obtain ⟨c, hc, _⟩ := conn_share hs
      have hpc : c.pc = .releaseServer := by
        have hat : s.conns[k]?.map (·.pc) = some .releaseServer := hreleases
        rw [hc] at hat
        exact Option.some.inj hat
      have hpos : 0 < s.conns.countP Conn.Holds :=
        List.countP_pos_iff.mpr ⟨c, List.mem_of_getElem? hc, by simp [Conn.Holds, hpc, ConnPc.phase]⟩
      omega
  | setStatus st => cases hreleases
  | queue k a => cases hreleases

/-- A step leaves the socket, and whoever does not write the status leaves that, unless the server is deallocated. -/
theorem sysStep_server (hs : sysStep calls s a = some (s', es)) :
    (.freed ∈ es ∧ s'.server = {}) ∨
      (s'.server.sock = s.server.sock ∧
        ((∀ i, a ≠ .loop i) → (∀ st, a ≠ .setStatus st) → s'.server.status = s.server.status)) := by
  have hrelease {server' : Server} {freed : Bool} (es : List SysEvent)
      (h : sxReleaseServer calls s.server = some (server', freed)) :
      (.freed ∈ es ++ freedIf freed ∧ server' = {}) ∨
        (server'.sock = s.server.sock ∧ server'.status = s.server.status) := by
    rcases sxReleaseServer_cases h with ⟨_, rfl, rfl⟩ | ⟨_, rfl, obj, rfl, _⟩
    · exact .inl ⟨by simp [freedIf], rfl⟩
    · exact .inr ⟨rfl, rfl⟩
  cases a with
  | owner =>
      simp only [sysStep] at hs
      split at hs
      · split at hs
        · cases hs
        · next server freed hrel =>
            cases hs
            exact (hrelease [] hrel).imp id fun h => ⟨h.1, fun _ _ => h.2⟩
      · cases hs
  | setStatus st =>
      cases hs
      exact .inr ⟨rfl, fun _ h => absurd rfl (h st)⟩
  | loop i =>
      cases loopStep_move hs with
      | release hpc server' freed hrel =>
          exact (hrelease [.access] hrel).imp id fun h => ⟨h.1, fun h => absurd rfl (h i)⟩
      | _ => exact .inr ⟨rfl, fun h => absurd rfl (h i)⟩
  | conn k i =>
      obtain ⟨c, _, hshare⟩ := conn_share hs
      cases hshare with
      | giveBack c' _ _ server' freed hrel =>
          exact (hrelease [.conn k .releaseServer] hrel).imp id fun h => ⟨h.1, fun _ _ => h.2⟩
      | _ => exact .inr ⟨rfl, fun _ _ => rfl⟩
  | queue k a =>
      obtain ⟨c, c', ces, _, _, _, rfl, _⟩ := sysStep_queue hs
      exact .inr ⟨rfl, fun _ _ => rfl⟩

/-- **The loop keeps the server** as long as it has its reference. -/
theorem loopKeeps_step (hi : s.LoopKeeps) (hs : sysStep calls s a = some (s', es)) :
    s'.LoopKeeps ∧ (s'.pc.Holds = true → .freed ∉ es) := by
  have hkept (hholds : s'.pc.Holds = true) : RefInv s' es := by
    have h0 : RefInv s [] := by
      refine ⟨fun _ => hi.counted (holds_of_step hs hholds), fun h => (List.not_mem_nil h).elim, ?_⟩
      exact noUseAfterFree_of_not_mem List.not_mem_nil
    exact refInv_step h0 (lastRelease_vacuous hi hs hholds) hs
  have hlive (hholds : s'.pc.Holds = true) : .freed ∉ es := by
    intro hfreed
    rw [((hkept hholds).settled hfreed).2.1] at hholds
    cases hholds
  refine ⟨⟨fun hholds => (hkept hholds).counted (hlive hholds), fun hholds => ?_⟩, hlive⟩
  rcases sysStep_server hs with ⟨hfreed, _⟩ | ⟨hsock, _⟩
  · exact absurd hfreed (hlive hholds)
  · rw [hsock]
    exact hi.sock (holds_of_step hs hholds)

/-! ## Every step is a step towards the end -/

/-- The server is to end, and its loop, if it has not left yet, finds that out where it looks next. -/
structure Sys.Ending (s : Sys) : Prop where
  started   : s.pc ≠ .setRunning
  ends      : s.server.status.Ends
  terminate : s.pc.Holds = true → s.pc ≠ .release → s.server.status = .shouldTerminate
  keeps     : s.LoopKeeps

/-- A step of the loop. -/
theorem loop_ending (hi : s.Ending) (hs : loopStep calls s i = some (s', es)) (hkeeps : s'.LoopKeeps) :
    s'.Ending ∧ s'.stepsLeft < s.stepsLeft := by
  have hpass {pc : LoopPc} {s₁ : Sys} (hpc : s.pc = pc) (hholds : pc.Holds = true ∧ pc ≠ .release)
      (hpc' : s₁.pc ≠ .setRunning) (hleft : s₁.pc.left < pc.left) (hkeeps : s₁.LoopKeeps)
      (hsame : s₁.server = s.server ∧ s₁.owner = s.owner ∧ s₁.conns = s.conns) :
      s₁.Ending ∧ s₁.stepsLeft < s.stepsLeft := by
    subst hpc
    obtain ⟨hserver, howner, hconns⟩ := hsame
    refine ⟨⟨hpc', hserver ▸ hi.ends, fun _ _ => hserver ▸ hi.terminate hholds.1 hholds.2, hkeeps⟩, ?_⟩
    unfold Sys.stepsLeft
    rw [howner, hconns]
    omega
  have hterminate {pc : LoopPc} (hpc : s.pc = pc) (hholds : pc.Holds = true ∧ pc ≠ .release) :
      s.server.status = .shouldTerminate := hi.terminate (hpc ▸ hholds.1) (hpc ▸ hholds.2)
  cases hpc : s.pc <;> cases i <;> simp only [loopStep, hpc, reduceCtorEq] at hs
  case setRunning.tick => exact absurd hpc hi.started
  case head.tick | checkTerminate.tick =>
    have hst := hterminate hpc ⟨rfl, by simp⟩
    simp only [hst, ne_eq, not_true_eq_false, if_true, if_false] at hs
    cases hs
    exact hpass hpc ⟨rfl, by simp⟩ (by simp) (by simp [LoopPc.left]) hkeeps ⟨rfl, rfl, rfl⟩
  case didStart.tick =>
    cases hs
    exact hpass hpc ⟨rfl, by simp⟩ (by simp) (by simp [LoopPc.left]) hkeeps ⟨rfl, rfl, rfl⟩
  case checkSuspend.tick | checkGuests.tick =>
    cases hs
    exact hpass hpc ⟨rfl, by simp⟩ (by dsimp only; split <;> simp)
      (by dsimp only; split <;> simp [LoopPc.left]) hkeeps ⟨rfl, rfl, rfl⟩
  case incCount.tick =>
    cases hs
    exact hpass hpc ⟨rfl, by simp⟩ (by simp) (by simp [LoopPc.left]) hkeeps ⟨rfl, rfl, rfl⟩
  case listen.tick | callAccept.tick | acceptFailed.tick | shouldConnect.tick =>
    split at hs <;> cases hs
    exact hpass hpc ⟨rfl, by simp⟩ (by simp) (by simp [LoopPc.left]) hkeeps ⟨rfl, rfl, rfl⟩
  case accept.accept r =>
    split at hs <;> cases hs <;>
      exact hpass hpc ⟨rfl, by simp⟩ (by simp) (by simp [LoopPc.left]) hkeeps ⟨rfl, rfl, rfl⟩
  case shouldConnect.answer yes =>
    split at hs
    · split at hs <;> cases hs <;>
        exact hpass hpc ⟨rfl, by simp⟩ (by simp) (by simp [LoopPc.left]) hkeeps ⟨rfl, rfl, rfl⟩
    · cases hs
  case dispatch.tick =>
    have hst := hterminate hpc ⟨rfl, by simp⟩
    cases hs
    refine ⟨⟨by simp, hi.ends, fun _ _ => hst, hkeeps⟩, ?_⟩
    have hstart : (Conn.start s.sock).stepsLeft = 16 := rfl
    simp only [Sys.stepsLeft, hpc, LoopPc.left, List.map_append, List.sum_append, List.map_cons, List.map_nil,
      List.sum_cons, List.sum_nil, hstart]
    omega
  case setIdle.tick =>
    cases hs
    refine ⟨⟨by simp, .inr rfl, fun _ h => absurd rfl h, hkeeps⟩, ?_⟩
    simp only [Sys.stepsLeft, hpc, LoopPc.left]
    omega
  case release.tick =>
    split at hs
    · cases hs
    · next server freed hrel =>
        cases hs
        refine ⟨⟨by simp, ?_, fun h => (by cases h), hkeeps⟩, ?_⟩
        · rcases sxReleaseServer_cases hrel with ⟨_, _, rfl⟩ | ⟨_, _, obj, rfl, _⟩
          · exact .inr rfl
          · exact hi.ends
        · simp only [Sys.stepsLeft, hpc, LoopPc.left]
          omega
  case didKill.tick =>
    cases hs
    refine ⟨⟨by simp, hi.ends, fun h => (by cases h), hkeeps⟩, ?_⟩
    simp only [Sys.stepsLeft, hpc, LoopPc.left]
    omega

/-- **A step of the owner, the loop or a block.** -/
theorem ending_step (hown : a.Own) (hi : s.Ending) (hs : sysStep calls s a = some (s', es)) :
    s'.Ending ∧ s'.stepsLeft < s.stepsLeft := by
  obtain ⟨hkeeps, hlive⟩ := loopKeeps_step hi.keeps hs
  -- an owner or a block leaves the loop where it is, and the status, unless the loop has gone
  have hstays (hpc : s'.pc = s.pc) (hnot : ∀ i, a ≠ .loop i) (hnot' : ∀ st, a ≠ .setStatus st) : s'.Ending := by
    rcases sysStep_server hs with ⟨hfreed, hserver⟩ | ⟨_, hstatus⟩
    · refine ⟨hpc ▸ hi.started, ?_, fun hholds => absurd hfreed (hlive hholds), hkeeps⟩
      rw [hserver]
      exact .inr rfl
    · have hstatus := hstatus hnot hnot'
      exact ⟨hpc ▸ hi.started, hstatus ▸ hi.ends, fun hholds hne => hstatus ▸ hi.terminate (hpc ▸ hholds) (hpc ▸ hne),
        hkeeps⟩
  cases a with
  | loop i => exact loop_ending hi hs hkeeps
  | setStatus st => cases hown
  | queue k a => cases hown
  | owner =>
      simp only [sysStep] at hs
      split at hs
      · next howner =>
          split at hs
          · cases hs
          · cases hs
            refine ⟨hstays rfl (by simp) (by simp), ?_⟩
            simp only [Sys.stepsLeft, howner]
            simp
      · cases hs
  | conn k i =>
      have hrest : s'.pc = s.pc ∧ s'.owner = s.owner := by
        obtain ⟨c, _, hshare⟩ := conn_share hs
        cases hshare <;> exact ⟨rfl, rfl⟩
      obtain ⟨c, c', ces, freed, hc, hstep, hconns, _⟩ := sysStep_conn hs
      refine ⟨hstays hrest.1 (by simp) (by simp), ?_⟩
      have hless := connMove_left hi.ends (connStep_move hstep)
      have hsum := Parties.sum_set (b := c') Conn.stepsLeft hc
      unfold Sys.stepsLeft
      rw [hrest.1, hrest.2, hconns]
      omega

/-! ## Who cannot take a step -/

/-- `SXKillServer` leaves a server that is to terminate as it is. -/
theorem sxKillServer_shouldTerminate (calls : SocketCalls) {server : Server}
    (hst : server.status = .shouldTerminate) :
    ∃ err, sxKillServer calls (some server) = some (err, some server) := by
  have hnot : server.status ≠ .suspend := by simp [hst]
  have herr : sxCheckIncompatibleStatus server.status [.shouldTerminate] ≠ sxSuccess := by
    rw [hst]
    decide
  unfold sxKillServer
  dsimp only
  by_cases hcount : server.serverRefCount = 0
  · exact ⟨_, by rw [if_pos hcount]⟩
  · refine ⟨sxCheckIncompatibleStatus server.status [.shouldTerminate], ?_⟩
    rw [if_neg hcount, if_neg hnot, if_pos herr]

/-- A server that is to end can be released as long as it has its socket. -/
theorem sxReleaseServer_of_ends (calls : SocketCalls) {server : Server} (hends : server.status.Ends)
    (hsock : server.sock.isSome = true) : (sxReleaseServer calls server).isSome = true := by
  obtain ⟨sock, hsock⟩ := Option.isSome_iff_exists.mp hsock
  have hfree (obj : ObjHeader) : (sxFreeServer calls { server with obj := obj }).isSome = true := by
    unfold sxFreeServer
    rcases hends with hst | hst
    · have hst' : { server with obj := obj }.status = .shouldTerminate := hst
      obtain ⟨err, hkill⟩ := sxKillServer_shouldTerminate calls hst'
      have hnot : server.status ≠ .idle := by simp [hst]
      dsimp only
      rw [if_pos hnot, hkill]
      simp [hsock]
    · simp [hst, hsock]
  unfold sxReleaseServer
  dsimp only
  split
  · rw [Option.isSome_map]
    exact hfree _
  · rfl

/-- The loop has ended, or calls `errHandler` through `NULL`. -/
theorem loop_stuck (hi : s.Ending) (hstuck : ∀ i, loopStep calls s i = none) :
    s.pc = .done ∨ (s.pc = .acceptFailed ∧ s.server.handlers.errHandler = false) := by
  have htick := hstuck .tick
  cases hpc : s.pc
  case setRunning => exact absurd hpc hi.started
  case done => exact .inl rfl
  case acceptFailed =>
    refine .inr ⟨rfl, ?_⟩
    by_contra hset
    simp [loopStep, hpc, hset] at htick
  case listen | callAccept =>
    obtain ⟨sock, hsock⟩ := Option.isSome_iff_exists.mp (hi.keeps.sock (by rw [hpc]; rfl))
    simp [loopStep, hpc, hsock] at htick
  case accept =>
    have haccept := hstuck (.accept none)
    simp [loopStep, hpc] at haccept
  case shouldConnect =>
    have hanswer := hstuck (.answer true)
    cases hset : s.server.shouldConnect <;> simp [loopStep, hpc, hset] at htick hanswer
  case release =>
    have hsome := sxReleaseServer_of_ends calls hi.ends (hi.keeps.sock (by rw [hpc]; rfl))
    obtain ⟨⟨server, freed⟩, hrel⟩ := Option.isSome_iff_exists.mp hsome
    simp [loopStep, hpc, hrel] at htick
  all_goals simp [loopStep, hpc] at htick

/-- The block calls its data handler, and there is none. -/
def Conn.CallsNull (c : Conn) : Prop :=
  (c.pc = .handle ∨ c.pc = .handleSuspended) ∧ c.queue.handlers.dataHandler = false

/-- A block has ended, or calls its data handler through `NULL`. -/
theorem connStep_stuck {srv : Server} {c : Conn} (hstuck : ∀ i, connStep srv c i = none) :
    c.pc = .done ∨ c.CallsNull := by
  have htick := hstuck .tick
  have hrecv := hstuck (.recv none)
  have hhandler := hstuck (.handler 0 c.buf)
  cases hpc : c.pc
  case done => exact .inl rfl
  case handle | handleSuspended =>
    refine .inr ⟨by simp [hpc], ?_⟩
    by_contra hset
    simp [connStep, hpc, hset] at hhandler
  case recv | recvSuspended => simp [connStep, hpc, recvOk] at hrecv
  case create => simp [connStep, hpc, sxCreateQueue] at htick
  all_goals simp [connStep, hpc] at htick

/-- In the system its release of the server may fault too. -/
theorem conn_stuck {k : Nat} {c : Conn} (hc : s.conns[k]? = some c)
    (hstuck : ∀ i, sysStep calls s (.conn k i) = none) :
    c.pc = .done ∨ c.CallsNull ∨ (c.pc = .releaseServer ∧ sxReleaseServer calls s.server = none) := by
  by_cases hblock : ∀ i, connStep s.server c i = none
  · exact (connStep_stuck hblock).imp id .inl
  · obtain ⟨i, hi⟩ := not_forall.mp hblock
    obtain ⟨⟨c', ces⟩, hstep⟩ := Option.ne_none_iff_exists'.mp hi
    have hnone := hstuck i
    have hconn : connSysStep s.server c (.block s.server.status i) = some (c', ces) := hstep
    simp only [sysStep, hc, hconn] at hnone
    refine .inr (.inr ?_)
    cases (connStep_move hstep).role with
    | giveBack hpc _ hes =>
        refine ⟨hpc, ?_⟩
        subst hes
        cases hrel : sxReleaseServer calls s.server with
        | none => rfl
        | some r => simp [Sys.share, hrel] at hnone
    | take _ _ hes | leave _ _ hes =>
        subst hes
        simp [Sys.share] at hnone
    | stay _ _ hes _ =>
        have hshare : s.share calls ces = some (s, false) := by
          unfold Sys.share
          split <;> simp_all
        rw [hshare] at hnone
        cases hnone

end Step

/-! ## Results -/

section Run

variable {calls : SocketCalls} {server : Server} {preprocessQueue operatingQueue : Bool} {s₀ s s' : Sys}
variable {acts₀ acts : List SysAct} {tr₀ tr : List SysEvent}

/-- The loop of a started server keeps the server. -/
theorem loopKeeps_run (hfresh : server.Fresh)
    (hstart : sxServerStart (some server) preprocessQueue operatingQueue = some (sxSuccess, some s₀))
    (hrun : Machine.run (sysStep calls) s₀ acts = some (s, tr)) : s.LoopKeeps := by
  have hsock : server.sock.isSome = true := by
    by_contra hnone
    rw [Bool.not_eq_true, Option.isSome_eq_false_iff, Option.isNone_iff_eq_none] at hnone
    cases preprocessQueue <;> cases operatingQueue <;> simp [sxServerStart, hnone] at hstart
  have h0 : s₀.LoopKeeps := by
    rw [sxServerStart_spec hstart]
    refine ⟨fun _ => .inl ?_, fun _ => hsock⟩
    show (sxRetain server.obj).refCount = 2
    rw [refCount_sxRetain, hfresh.refCount]
    decide
  exact Machine.run_state_invariant (fun _ _ _ _ hi hs => (loopKeeps_step hi hs).1) h0 hrun

/-- **A server that is to terminate winds down.** In every interleaving: from any state of a started server in which
    its block has run and the status is `should_terminate`, the owner, the accept loop and the `n` blocks take at
    most `28 + 17 n` steps between them, in whatever order, as long as nobody writes a status. When neither the loop
    nor any block can take another, whether or not the owner can, they have all ended, but for one that calls a
    handler through `NULL` or whose release of the server faults. -/
theorem server_winds_down (hfresh : server.Fresh)
    (hstart : sxServerStart (some server) preprocessQueue operatingQueue = some (sxSuccess, some s₀))
    (hreach : Machine.run (sysStep calls) s₀ acts₀ = some (s, tr₀)) (hpc : s.pc ≠ .setRunning)
    (hstatus : s.server.status = .shouldTerminate) (hown : ∀ a ∈ acts, a.Own)
    (hrun : Machine.run (sysStep calls) s acts = some (s', tr)) :
    acts.length ≤ 28 + 17 * s.conns.length ∧
      ((∀ i, sysStep calls s' (.loop i) = none) → (∀ k i, sysStep calls s' (.conn k i) = none) →
        (s'.pc = .done ∨ (s'.pc = .acceptFailed ∧ s'.server.handlers.errHandler = false)) ∧
        ∀ c ∈ s'.conns, c.pc = .done ∨ c.CallsNull ∨
          (c.pc = .releaseServer ∧ sxReleaseServer calls s'.server = none)) := by
  have h0 : s.Ending := ⟨hpc, .inl hstatus, fun _ _ => hstatus, loopKeeps_run hfresh hstart hreach⟩
  obtain ⟨hending, hlength⟩ := Machine.run_length_le (fun _ _ _ _ hi ha hs => ending_step ha hi hs) h0 hown hrun
  have hbound := s.stepsLeft_le
  refine ⟨by omega, fun hloop hconns => ⟨loop_stuck hending hloop, ?_⟩⟩
  intro c hc
  obtain ⟨k, hk⟩ := List.mem_iff_getElem?.mp hc
  exact conn_stuck hk (hconns k)

end Run

/-- A server whose connection is waiting for a message when the status is set. -/
def waitsAndIsTold : List SysAct :=
  List.replicate 9 (.loop .tick) ++ [.loop (.accept (some 4)), .loop .tick, .loop .tick] ++
  List.replicate 9 (.conn 0 .tick) ++ [.setStatus .shouldTerminate]

/-- The connection takes the message, and leaves in the iteration after it. -/
def windsDown : List SysAct :=
  [.conn 0 (.recv (some [7])), .conn 0 (.handler 1 (List.replicate 1024 0))] ++ List.replicate 4 (.loop .tick) ++
  List.replicate 11 (.conn 0 .tick)

theorem server_winds_down_oneGuest :
    ∃ s₀ s s' tr₀ tr, sxServerStart (some oneGuest) true true = some (sxSuccess, some s₀) ∧
      Machine.run (sysStep {}) s₀ waitsAndIsTold = some (s, tr₀) ∧
      Machine.run (sysStep {}) s windsDown = some (s', tr) ∧ windsDown.length ≤ 28 + 17 * s.conns.length ∧
      s'.pc = .done ∧ s'.conns.map (·.pc) = [.done] := by
  have hstart : sxServerStart (some oneGuest) true true = some (sxSuccess, some _) := rfl
  have hruns : ((Machine.run (sysStep {}) { server := { oneGuest with obj := sxRetain oneGuest.obj } }
      waitsAndIsTold).bind fun p => (Machine.run (sysStep {}) p.1 windsDown).map fun q =>
        (p.1.pc, p.1.server.status, q.1.pc, q.1.conns.map (·.pc))) =
      some (.head, .shouldTerminate, .done, [.done]) := by decide +kernel
  obtain ⟨⟨s, tr₀⟩, hreach, hmap⟩ := Option.bind_eq_some_iff.mp hruns
  obtain ⟨⟨s', tr⟩, hrun, heq⟩ := Option.map_eq_some_iff.mp hmap
  simp only [Prod.mk.injEq] at heq
  obtain ⟨hhead, hstatus, hdone, hconns⟩ := heq
  have hpc : s.pc ≠ .setRunning := by simp [hhead]
  have hown : ∀ a ∈ windsDown, a.Own := by
    intro a ha
    rcases List.mem_append.mp ha with ha | ha
    · rcases List.mem_append.mp ha with ha | ha
      · rcases List.mem_pair.mp ha with rfl | rfl <;> trivial
      · rw [List.eq_of_mem_replicate ha]
        trivial
    · rw [List.eq_of_mem_replicate ha]
      trivial
  exact ⟨_, s, s', tr₀, tr, hstart, hreach, hrun,
    (server_winds_down oneGuest_fresh hstart hreach hpc hstatus hown hrun).1, hdone, hconns⟩

end SpartanX
