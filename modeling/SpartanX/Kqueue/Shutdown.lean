import SpartanX.Kqueue.Descriptors

/-!
# `Kqueue.Shutdown` — what an event loop that is to terminate leaves behind

`SXServerStart_kqueue` looks at the status of the server in front of each batch. In the rest of the batch in which it
becomes `should_terminate` the status ends every connection that has an event there; then the loop ends, and the block
with it. Nothing goes through the connections that had no event: they stay registered with a queue that is told
nothing, and their sockets stay open (`kq_winds_down`).

## Contents
- **How far it is to the end.** `HandlingPc.left`, `KqPc.left`, `Kq.stepsLeft`.
- **What is still to be closed.** `Kq.toClose`.
- **Every step is a step towards the end.** `Kq.WindsDown`, `kqLoopStep_windsTo`, `kqStep_windsTo`.
- **Who cannot take a step.** `Kq.WindsDown.stuck`.
- **Results.** `kq_winds_down`.
-/

namespace SpartanX

open CInt

/-! ## How far it is to the end -/

/-- The steps of a handling that ends its connection. -/
def HandlingPc.left : HandlingPc → Nat
  | .clear => 9
  | .compare => 8
  | .copy => 7
  | .branch => 6
  | .willKill => 5
  | .close => 4
  | .releaseQueue => 3
  | .didDisconnect => 2
  | .decCount => 1
  | _ => 0

/-- The steps of the loop up to its end, but for those of a handling and of the rest of the batch. -/
def KqPc.left : KqPc → Nat
  | .checkGuests => 6
  | .callAccept => 5
  | .accept => 4
  | .addConn => 3
  | .next | .handling => 2
  | .head => 1
  | _ => 0

/-- The steps of the start function, the owner and the loop. -/
def Kq.stepsLeft (s : Kq) : Nat :=
  (if s.starter then 1 else 0) + (if s.owner then 1 else 0) + s.pc.left +
    (if s.pc = .handling then s.cur.pc.left else 0) + 10 * s.batch.length

/-- The step is one of the start function, the owner or the loop, and not one of somebody who writes a status. -/
def KqAct.Own : KqAct → Prop
  | .starter | .owner | .loop _                => True
  | .setStatus _ | .queue _ _ | .curQueue _ => False

/-! ## What is still to be closed -/

/-- The connections whose events are left, from the one that is being handled on. -/
def Kq.toClose (s : Kq) : List IntT := s.fds.serving.toList ++ s.batch.filter (· ≠ s.listenFd)

/-- The handling ends its connection. -/
structure Handling.Doomed (h : Handling) : Prop where
  left   : 0 < h.pc.left
  status : h.pc = .branch → h.queue.status = .shouldTerminate

/-- A loop on its way through the rest of a batch and to its end. -/
structure Kq.WindsDown (s : Kq) : Prop where
  status : s.server.status = .shouldTerminate
  sock   : s.server.sock.map (·.sockfd) = some s.listenFd
  pc     : s.pc = .done ∨ 0 < s.pc.left
  batch  : s.pc = .head ∨ s.pc = .done → s.batch = []
  cur    : s.pc = .handling → s.cur.Doomed

section Step

variable {calls : SocketCalls} {s s' : Kq} {es : List SysEvent}

/-- A handling under a server that is to terminate goes on to the end of its connection. -/
theorem handlingStep_doomed {srv : Server} {h h' : Handling} {i : Input} {ces : List ConnEvent}
    (hst : srv.status = .shouldTerminate) (hi : h.Doomed) (hs : handlingStep srv h i = some (h', ces)) :
    h'.pc ≠ .kept ∧ h'.pc.left + 1 = h.pc.left ∧ (h'.pc = .closed ∨ h'.Doomed) := by
  have hleft := hi.left
  unfold handlingStep at hs
  cases hpc : h.pc <;> simp only [hpc, HandlingPc.left, Nat.lt_irrefl] at hleft
  all_goals cases i <;> simp only [hpc, reduceCtorEq] at hs
  case compare.tick =>
    cases hs
    have hnot : srv.status ≠ .running := by simp [hst]
    exact ⟨by simp [hnot], by simp [hnot, HandlingPc.left], .inr ⟨by simp [hnot, HandlingPc.left], by simp [hnot]⟩⟩
  case copy.tick =>
    cases hs
    exact ⟨by simp, rfl, .inr ⟨Nat.succ_pos 5, fun _ => hst⟩⟩
  case branch.tick =>
    cases hs
    rw [hi.status hpc]
    exact ⟨by simp [handlingTarget], rfl, .inr ⟨Nat.succ_pos 4, by simp [handlingTarget]⟩⟩
  case decCount.tick =>
    cases hs
    exact ⟨by simp, rfl, .inl rfl⟩
  all_goals
    cases hs
    exact ⟨by simp, rfl, .inr ⟨Nat.succ_pos _, by simp⟩⟩

/-- It can always take a step. -/
theorem Handling.Doomed.isSome {h : Handling} (hi : h.Doomed) (srv : Server) :
    (handlingStep srv h .tick).isSome = true := by
  have hleft := hi.left
  unfold handlingStep
  cases hpc : h.pc <;> simp only [hpc, HandlingPc.left, Nat.lt_irrefl] at hleft
  all_goals rfl

/-- What is to be closed when the loop has no open connection in its hands. -/
theorem Kq.toClose_of_not (h : s.pc = .handling → s.cur.pc.Open = false) :
    s.toClose = s.batch.filter (· ≠ s.listenFd) := by
  have hserving : s.fds.serving = none := if_neg fun hopen => by
    rw [h hopen.1] at hopen
    cases hopen.2
  unfold Kq.toClose
  rw [hserving]
  rfl

/-- And when it has one. -/
theorem Kq.toClose_of_open (hpc : s.pc = .handling) (hopen : s.cur.pc.Open = true) :
    s.toClose = s.cur.sockfd :: s.batch.filter (· ≠ s.listenFd) := by
  have hserving : s.fds.serving = some s.cur.sockfd := if_pos ⟨hpc, hopen⟩
  unfold Kq.toClose
  rw [hserving]
  rfl

/-- The connections that have no event left keep their places. -/
def Kq.Leaves (s s' : Kq) : Prop := ∀ r ∈ s.conns, r.sockfd ∉ s.batch → r ∈ s'.conns ∧ r.sockfd ∉ s'.batch

/-- What a step does to a loop that winds down. -/
structure Kq.WindsTo (s s' : Kq) (es : List SysEvent) : Prop where
  windsDown : s'.WindsDown
  steps     : s'.stepsLeft < s.stepsLeft
  closes    : closedFds es ++ s'.toClose = s.toClose
  leaves    : s.Leaves s'

/-- The next event of the batch. -/
theorem kqNext_windsTo {junk : SizeT} {suspended : Bool} (hi : s.WindsDown) (hpc : s.pc = .next)
    (hs : kqNext s junk suspended = some (s', es)) : s.WindsTo s' es := by
  unfold kqNext at hs
  split at hs
  · next hbatch =>
      cases hs
      refine ⟨⟨hi.status, hi.sock, .inr Nat.zero_lt_one, fun _ => hbatch, by simp⟩, ?_, ?_, ?_⟩
      · simp [Kq.stepsLeft, hpc, hbatch, KqPc.left]
      · rw [Kq.toClose_of_not (by simp), Kq.toClose_of_not (by simp [hpc])]
        rfl
      · exact fun r hr hnot => ⟨hr, hnot⟩
  next ident batch hbatch =>
  have hmem {r : Registered} (hnot : r.sockfd ∉ s.batch) : r.sockfd ≠ ident ∧ r.sockfd ∉ batch := by
    rw [hbatch] at hnot
    exact not_or.mp (mt List.mem_cons.mpr hnot)
  split at hs
  · cases hs
  next sock hsock =>
  have hlisten : sock.sockfd = s.listenFd := by
    have hfd := hi.sock
    rw [hsock] at hfd
    exact Option.some.inj hfd
  split at hs
  · next hident =>
      cases hs
      refine ⟨⟨hi.status, hi.sock, .inr (Nat.succ_pos 5), by simp, by simp⟩, ?_, ?_, ?_⟩
      · simp [Kq.stepsLeft, hpc, hbatch, KqPc.left]
        omega
      · rw [Kq.toClose_of_not (by simp), Kq.toClose_of_not (by simp [hpc]), hbatch]
        simp [hident, hlisten]
      · exact fun r hr hnot => ⟨hr, (hmem hnot).2⟩
  next hident =>
  split at hs
  · cases hs
  next r₀ hr₀ =>
  cases hs
  have hfd : r₀.sockfd = ident := by simpa using List.find?_some hr₀
  refine ⟨⟨hi.status, hi.sock, .inr (Nat.succ_pos 1), by simp, fun _ => ⟨Nat.succ_pos 8, by simp⟩⟩, ?_, ?_, ?_⟩
  · simp [Kq.stepsLeft, hpc, hbatch, KqPc.left, HandlingPc.left]
    omega
  · have hne : ident ≠ s.listenFd := hlisten ▸ hident
    rw [Kq.toClose_of_open rfl rfl, Kq.toClose_of_not (by simp [hpc]), hbatch]
    simp [hne, hfd]
  · intro r hr hnot
    obtain ⟨hne, hrest⟩ := hmem hnot
    refine ⟨(List.mem_erase_of_ne ?_).mpr hr, hrest⟩
    rintro rfl
    exact hne hfd

/-- A step of the handling of an event. -/
theorem kqHandle_windsTo {i : Input} (hi : s.WindsDown) (hpc : s.pc = .handling)
    (hs : kqHandle s i = some (s', es)) : s.WindsTo s' es := by
  unfold kqHandle at hs
  split at hs
  · cases hs
  next h ces hstep =>
  obtain ⟨hkept, hleft, hdoomed⟩ := handlingStep_doomed hi.status (hi.cur hpc) hstep
  obtain ⟨hsockfd, hfd⟩ := (handlingStep_move hstep).fd
  rw [if_neg hkept] at hs
  split at hs
  · next hclosed =>
      cases hs
      -- its descriptor has been closed before
      have hopen : s.cur.pc.Open = false ∧ ∀ e ∈ ces, ∀ fd, e ≠ .close fd := by
        rcases hfd with ⟨_, hpc', _⟩ | ⟨hopen, hces⟩
        · rw [hclosed] at hpc'
          cases hpc'
        · rw [hclosed] at hopen
          exact ⟨hopen.symm, hces⟩
      refine ⟨⟨hi.status, hi.sock, .inr (Nat.succ_pos 1), by simp, by simp⟩, ?_, ?_, fun r hr hnot => ⟨hr, hnot⟩⟩
      · simp [Kq.stepsLeft, hpc, KqPc.left, ← hleft]
      · rw [closedFds_handling hopen.2, Kq.toClose_of_not (by simp), Kq.toClose_of_not fun _ => hopen.1]
        rfl
  · next hclosed =>
      cases hs
      refine ⟨⟨hi.status, hi.sock, .inr ?_, ?_, fun _ => hdoomed.resolve_left hclosed⟩, ?_, ?_,
        fun r hr hnot => ⟨hr, hnot⟩⟩
      · simp [hpc, KqPc.left]
      · simp [hpc]
      · simp [Kq.stepsLeft, hpc, ← hleft]
      · rcases hfd with ⟨hopen, hpc', rfl⟩ | ⟨hopen, hces⟩
        · have hgone : h.pc.Open = false := by rw [hpc']; rfl
          rw [Kq.toClose_of_open hpc hopen, Kq.toClose_of_not fun _ => hgone]
          rfl
        · rw [closedFds_handling hces]
          cases hcur : s.cur.pc.Open with
          | true =>
              have hpc' : { s with cur := h }.pc = .handling := hpc
              rw [Kq.toClose_of_open hpc hcur, Kq.toClose_of_open hpc' (hopen.trans hcur)]
              dsimp only
              rw [hsockfd]
              rfl
          | false =>
              rw [Kq.toClose_of_not fun _ => hcur, Kq.toClose_of_not fun _ => hopen.trans hcur]
              rfl

/-- **A step of the loop brings it nearer to its end.** -/
theorem kqLoopStep_windsTo {i : KqInput} (hi : s.WindsDown) (hs : kqLoopStep s i = some (s', es)) :
    s.WindsTo s' es := by
  have hgo {pc : KqPc} (pc' : KqPc) {s₁ : Kq} {es₁ : List SysEvent} (hpc : s.pc = pc) (hpc' : s₁.pc = pc')
      (hleft : pc'.left < pc.left) (hnext : pc' = .done ∧ s.batch = [] ∨ 0 < pc'.left ∧ pc' ≠ .head)
      (hnot : pc ≠ .handling ∧ pc' ≠ .handling)
      (hsame : s₁.server = s.server ∧ s₁.starter = s.starter ∧ s₁.owner = s.owner ∧ s₁.listenFd = s.listenFd ∧
        s₁.batch = s.batch)
      (hconns : ∀ r ∈ s.conns, r ∈ s₁.conns) (hes : closedFds es₁ = []) : s.WindsTo s₁ es₁ := by
    subst hpc hpc'
    obtain ⟨hne, hne₁⟩ := hnot
    obtain ⟨hserver, hstarter, howner, hlisten, hbatch⟩ := hsame
    refine ⟨⟨hserver ▸ hi.status, hserver ▸ hlisten ▸ hi.sock, hnext.imp And.left And.left, ?_,
      fun h => absurd h hne₁⟩, ?_, ?_, fun r hr hnot => ⟨hconns r hr, hbatch ▸ hnot⟩⟩
    · intro hend
      rcases hnext with ⟨_, hnil⟩ | ⟨hpos, hhead⟩
      · exact hbatch.trans hnil
      · rcases hend with h | h
        · exact absurd h hhead
        · rw [h] at hpos
          cases hpos
    · unfold Kq.stepsLeft
      rw [hstarter, howner, hbatch, if_neg hne, if_neg hne₁]
      omega
    · rw [hes, Kq.toClose_of_not fun h => absurd h hne₁, Kq.toClose_of_not fun h => absurd h hne, hbatch, hlisten]
      rfl
  have hpos := hi.pc
  unfold kqLoopStep at hs
  cases hpc : s.pc <;> simp only [hpc, KqPc.left, reduceCtorEq, false_or, Nat.lt_irrefl] at hpos
  case done => cases i <;> simp only [hpc, reduceCtorEq] at hs
  all_goals cases i <;> simp only [hpc, reduceCtorEq] at hs
  case head.tick =>
    cases hs
    have hst : ¬ s.server.status ≠ .shouldTerminate := not_not.mpr hi.status
    rw [if_neg hst]
    exact hgo .done hpc rfl (by decide) (.inl ⟨rfl, hi.batch (.inl hpc)⟩) (by simp) ⟨rfl, rfl, rfl, rfl, rfl⟩
      (fun _ hr => hr) rfl
  case next.next junk suspended => exact kqNext_windsTo hi hpc hs
  case checkGuests.tick =>
    cases hs
    split
    · exact hgo .callAccept hpc rfl (by decide) (.inr (by decide)) (by simp) ⟨rfl, rfl, rfl, rfl, rfl⟩
        (fun _ hr => hr) rfl
    · exact hgo .next hpc rfl (by decide) (.inr (by decide)) (by simp) ⟨rfl, rfl, rfl, rfl, rfl⟩ (fun _ hr => hr) rfl
  case callAccept.tick =>
    split at hs <;> cases hs
    exact hgo .accept hpc rfl (by decide) (.inr (by decide)) (by simp) ⟨rfl, rfl, rfl, rfl, rfl⟩
          (fun _ hr => hr) rfl
  case accept.accept r =>
    cases r with
    | none =>
        cases hs
        exact hgo .next hpc rfl (by decide) (.inr (by decide)) (by simp) ⟨rfl, rfl, rfl, rfl, rfl⟩
          (fun _ hr => hr) rfl
    | some fd =>
        dsimp only at hs
        split at hs <;> cases hs
        exact hgo .addConn hpc rfl (by decide) (.inr (by decide)) (by simp) ⟨rfl, rfl, rfl, rfl, rfl⟩
          (fun _ hr => hr) rfl
  case addConn.tick =>
    cases hs
    exact hgo .next hpc rfl (by decide) (.inr (by decide)) (by simp) ⟨rfl, rfl, rfl, rfl, rfl⟩
      (fun _ hr => List.mem_append_left _ hr) rfl
  case handling.handling i => exact kqHandle_windsTo hi hpc hs

/-- **Every step brings the server nearer to the end.** -/
theorem kqStep_windsTo {a : KqAct} (ha : a.Own) (hi : s.WindsDown) (hs : kqStep calls s a = some (s', es))
    (hlive : .freed ∉ es) : s.WindsTo s' es := by
  have hsame {server : Server} {freed starter owner : Bool}
      (hrel : sxReleaseServer calls s.server = some (server, freed)) (hlive : .freed ∉ freedIf freed)
      (hleft : (if starter then 1 else 0) + (if owner then 1 else 0) <
        (if s.starter then 1 else 0) + (if s.owner then 1 else 0)) :
      s.WindsTo { s with server := server, starter := starter, owner := owner } (freedIf freed) := by
    rcases sxReleaseServer_cases hrel with ⟨_, rfl, _⟩ | ⟨_, rfl, obj, rfl, _⟩
    · simp [freedIf] at hlive
    · refine ⟨⟨hi.status, hi.sock, hi.pc, hi.batch, hi.cur⟩, ?_, rfl, fun r hr hnot => ⟨hr, hnot⟩⟩
      unfold Kq.stepsLeft
      dsimp only
      omega
  cases a with
  | loop i => exact kqLoopStep_windsTo hi hs
  | starter =>
      simp only [kqStep] at hs
      split at hs
      · next hstarter =>
          split at hs
          · cases hs
          · next server freed hrel =>
              cases hs
              exact hsame hrel hlive (by simp [hstarter])
      · cases hs
  | owner =>
      simp only [kqStep] at hs
      split at hs
      · next howner =>
          rw [Bool.and_eq_true] at howner
          split at hs
          · cases hs
          · next server freed hrel =>
              cases hs
              exact hsame hrel hlive (by simp [howner.1])
      · cases hs
  | setStatus st | queue k act | curQueue act => exact ha.elim

/-- Of a whole run. -/
theorem windsDown_run {acts : List KqAct} {tr : List SysEvent} (hi : s.WindsDown) (hown : ∀ a ∈ acts, a.Own)
    (hrun : Machine.run (kqStep calls) s acts = some (s', tr)) (hlive : .freed ∉ tr) :
    s'.WindsDown ∧ acts.length + s'.stepsLeft ≤ s.stepsLeft ∧ closedFds tr ++ s'.toClose = s.toClose ∧
      s.Leaves s' := by
  induction acts generalizing s tr with
  | nil =>
      cases hrun
      exact ⟨hi, by simp, rfl, fun r hr hnot => ⟨hr, hnot⟩⟩
  | cons a as ih =>
      obtain ⟨s₁, es, es', hs, hr, rfl⟩ := Machine.run_cons_iff.mp hrun
      obtain ⟨hes, hes'⟩ := not_or.mp (mt List.mem_append.mpr hlive)
      have hstep := kqStep_windsTo (hown a List.mem_cons_self) hi hs hes
      obtain ⟨hi', hlength, hcloses, hleaves⟩ :=
        ih hstep.windsDown (fun b hb => hown b (List.mem_cons_of_mem a hb)) hr hes'
      have hlt := hstep.steps
      refine ⟨hi', ?_, ?_, ?_⟩
      · rw [List.length_cons]
        omega
      · rw [closedFds_append, List.append_assoc, hcloses, hstep.closes]
      · intro r hr hnot
        obtain ⟨hr₁, hnot₁⟩ := hstep.leaves r hr hnot
        exact hleaves r hr₁ hnot₁

/-! ## Who cannot take a step -/

/-- A loop that winds down and can take the next event comes to its end. -/
theorem Kq.WindsDown.stuck (hi : s.WindsDown)
    (hnext : ∀ junk suspended, (kqNext s junk suspended).isSome = true) (hstuck : ∀ i, kqLoopStep s i = none) :
    s.pc = .done := by
  have hpos := hi.pc
  have htick := hstuck .tick
  unfold kqLoopStep at htick hstuck
  cases hpc : s.pc <;> simp only [hpc, KqPc.left, reduceCtorEq, false_or, Nat.lt_irrefl] at hpos
  case done => rfl
  case next =>
    have hgone := hstuck (.next 0 false)
    simp only [hpc] at hgone
    have hsome := hnext 0 false
    rw [hgone] at hsome
    cases hsome
  case accept =>
    have haccept := hstuck (.accept none)
    simp [hpc] at haccept
  case callAccept =>
    obtain ⟨sock, hsock, _⟩ := Option.map_eq_some_iff.mp hi.sock
    simp [hpc, hsock] at htick
  case handling =>
    obtain ⟨⟨h, ces⟩, hstep⟩ := Option.isSome_iff_exists.mp ((hi.cur hpc).isSome s.server)
    have hhandling := hstuck (.handling .tick)
    simp only [hpc, kqHandle, hstep] at hhandling
    split at hhandling
    · cases hhandling
    · split at hhandling <;> cases hhandling
  all_goals simp [hpc, sxCreateQueue] at htick

end Step

/-! ## Results -/

section Results

variable {calls : SocketCalls} {server : Server} {s₀ s s' : Kq} {acts₀ acts : List KqAct} {tr₀ tr : List SysEvent}

/-- **What an event loop that is to terminate leaves behind.** A server started by `SXServerStart_kqueue`, whose
    status is `should_terminate` when its loop is between two events of a batch: as long as nobody writes a status and
    the server is not deallocated, the start function, the owner and the loop take at most `4 + 10 n` steps for the
    `n` events that are left, in whatever order. The loop closes the connections of these events, in their order, and
    no other; the connections without an event stay registered as they are. When the loop cannot take another step it
    has ended, and has closed all of these. -/
theorem kq_winds_down (hstart : sxServerStartKqueue server = some (sxSuccess, some s₀))
    (hreach : Machine.run (kqStep calls) s₀ acts₀ = some (s, tr₀)) (hpc : s.pc = .next)
    (hstatus : s.server.status = .shouldTerminate) (hown : ∀ a ∈ acts, a.Own)
    (hrun : Machine.run (kqStep calls) s acts = some (s', tr)) (hlive : .freed ∉ tr₀ ++ tr) :
    acts.length ≤ 4 + 10 * s.batch.length ∧ closedFds tr <+: s.batch.filter (· ≠ s.listenFd) ∧
      (∀ r ∈ s.conns, r.sockfd ∉ s.batch → r ∈ s'.conns) ∧
      ((∀ i, kqLoopStep s' i = none) → s'.pc = .done ∧ closedFds tr = s.batch.filter (· ≠ s.listenFd)) := by
  obtain ⟨hlive₀, hlive₁⟩ := not_or.mp (mt List.mem_append.mpr hlive)
  have hlisten := (listens_run hstart hreach hlive₀).sock hpc
  have hi : s.WindsDown := ⟨hstatus, hlisten, .inr (by simp [hpc, KqPc.left]), by simp [hpc], by simp [hpc]⟩
  obtain ⟨hi', hlength, hcloses, hleaves⟩ := windsDown_run hi hown hrun hlive₁
  have htoClose : s.toClose = s.batch.filter (· ≠ s.listenFd) := Kq.toClose_of_not (by simp [hpc])
  rw [htoClose] at hcloses
  refine ⟨?_, ⟨s'.toClose, hcloses⟩, fun r hr hnot => (hleaves r hr hnot).1, fun hstuck => ?_⟩
  · have hbound : s.stepsLeft ≤ 4 + 10 * s.batch.length := by
      unfold Kq.stepsLeft
      simp only [hpc, KqPc.left, reduceCtorEq, if_false]
      split <;> split <;> omega
    omega
  · obtain ⟨_, hinv⟩ := fds_run hstart (Machine.run_append hreach hrun)
    have hdone := hi'.stuck (kqNext_isSome hinv hi'.sock) hstuck
    refine ⟨hdone, ?_⟩
    have hnone : s'.toClose = [] := by
      rw [Kq.toClose_of_not (by simp [hdone]), hi'.batch (.inr hdone)]
      rfl
    rwa [hnone, List.append_nil] at hcloses

end Results

/-- The second of two connections and the listening socket have events when the status is set. -/
def toldInBatch : List KqAct :=
  List.replicate 3 (KqAct.loop .tick) ++ [KqAct.loop (.kqueue true)] ++ List.replicate 4 (KqAct.loop .tick) ++
  [KqAct.loop (.kevent (some [3])), .loop (.next 0 false), .loop .tick, .loop .tick, .loop (.accept (some 5)),
    .loop .tick, .loop (.next 0 false), .loop .tick, .loop .tick] ++
  [KqAct.loop (.kevent (some [3])), .loop (.next 0 false), .loop .tick, .loop .tick, .loop (.accept (some 6)),
    .loop .tick, .loop (.next 0 false), .loop .tick, .loop .tick] ++
  [KqAct.loop (.kevent (some [6, 3])), .setStatus .shouldTerminate]

/-- The rest of the batch, and the release of the start function. -/
def endsBatch : List KqAct :=
  [KqAct.loop (.next 7 true)] ++ List.replicate 9 (KqAct.loop (.handling .tick)) ++
  [KqAct.loop (.next 0 false), .loop .tick, .starter, .loop .tick, .loop (.accept none), .loop (.next 0 false),
    .loop .tick]

/-- The server, with the reference of its owner. -/
def ownedServer : Server := { twoGuestServer with obj := sxObjInit {} .freeServer }

/-- The first connection is left open. -/
theorem kq_winds_down_toldInBatch :
    ∃ s₀ s s' tr₀ tr, sxServerStartKqueue ownedServer = some (sxSuccess, some s₀) ∧
      Machine.run (kqStep {}) s₀ toldInBatch = some (s, tr₀) ∧ Machine.run (kqStep {}) s endsBatch = some (s', tr) ∧
      closedFds tr = [6] ∧ s'.openFds = [5] ∧ s'.pc = .done ∧ endsBatch.length ≤ 4 + 10 * s.batch.length ∧
      closedFds tr <+: s.batch.filter (· ≠ s.listenFd) := by
  have hstart : sxServerStartKqueue ownedServer = some (sxSuccess, some _) := rfl
  obtain ⟨s, s', tr₀, tr, hreach, hrun, hpc, hstatus, hclosed, hopen, hdone, hlive⟩ : ∃ s s' tr₀ tr,
      Machine.run (kqStep {}) { server := { ownedServer with obj := sxRetain ownedServer.obj } } toldInBatch =
        some (s, tr₀) ∧ Machine.run (kqStep {}) s endsBatch = some (s', tr) ∧ s.pc = .next ∧
      s.server.status = .shouldTerminate ∧ closedFds tr = [6] ∧ s'.openFds = [5] ∧ s'.pc = .done ∧
      .freed ∉ tr₀ ++ tr := ⟨_, _, _, _, rfl, rfl, rfl, rfl, rfl, rfl, rfl, by decide⟩
  have hown : ∀ a ∈ endsBatch, a.Own := by simp [endsBatch, KqAct.Own]
  obtain ⟨hlength, hprefix, _⟩ := kq_winds_down hstart hreach hpc hstatus hown hrun hlive
  exact ⟨_, s, s', tr₀, tr, hstart, hreach, hrun, hclosed, hopen, hdone, hlength, hprefix⟩

end SpartanX
