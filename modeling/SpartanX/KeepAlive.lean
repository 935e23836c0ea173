import SpartanX.Kqueue.Loop
import SpartanX.Rounds

/-!
# `KeepAlive` — after which iterations a running connection is kept

While the statuses stay `running`, an iteration receives and hands what it received to the data handler, also
when that is nothing because the peer has closed. The connection loop ends when `recv` fails or the handler
answers `0`; the event loop also ends when it answers `(size_t)-1`. The number of received bytes decides nothing
in either. So the rule that a connection is kept iff something was received and the handler answered something
positive other than `(size_t)-1` holds of exactly the runs in which no iteration tells the two apart
(`keep_alive_iff`).

## Contents
- **The rule.** `Round.FollowsRule`, `Round.ConnAgrees`, `Round.KqAgrees`.
- **An iteration in the running branch.** `Round.Outcome`, `RoundPhase`, `RoundInv` and its transitions.
- **The two loops.** `keepAlive_move`, `keepAlive_handling`, and their runs.
- **Results.** `keep_alive_iff`, `kept_after_close`.
-/

namespace SpartanX

open CInt

/-! ## The rule -/

/-- The keep-alive rule for a finished iteration: the connection is kept iff `recv` returned bytes and the data
    handler answered a number greater than `0` other than `(size_t)-1`. -/
def Round.FollowsRule (r : Round) : Prop :=
  r.kept = true ↔ (∃ bs, r.recv = some (some bs) ∧ bs ≠ []) ∧ ∃ ret, r.ret = some ret ∧ ret ≠ 0 ∧ ret ≠ minusOne

/-- The iterations in which the connection loop agrees with the rule: `recv` failed, or the handler answered `0`,
    or bytes were received and it did not answer `(size_t)-1`. -/
def Round.ConnAgrees (r : Round) : Prop :=
  r.recv = some none ∨ r.ret = some 0 ∨ (r.recv ≠ some (some []) ∧ r.ret ≠ some minusOne)

/-- The iterations in which the event loop agrees with the rule: `recv` did not return `0`, or the handler
    answered `0` or `(size_t)-1`. -/
def Round.KqAgrees (r : Round) : Prop :=
  r.recv ≠ some (some []) ∨ r.ret = some 0 ∨ r.ret = some minusOne

instance (r : Round) : Decidable r.ConnAgrees := inferInstanceAs (Decidable (_ ∨ _ ∨ _ ∧ _))
instance (r : Round) : Decidable r.KqAgrees := inferInstanceAs (Decidable (_ ∨ _ ∨ _))

/-! ## An iteration in the running branch -/

/-- What a finished iteration of the running branch is in a loop that goes on after the answers `goesOn`: `recv`
    failed and the loop was left, or it returned, the handler was called and its answer decided. -/
def Round.Outcome (goesOn : SizeT → Prop) (r : Round) : Prop :=
  (r.recv = some none ∧ r.ret = none ∧ r.kept = false) ∨
    ∃ bs ret, r.recv = some (some bs) ∧ r.ret = some ret ∧ (r.kept = true ↔ goesOn ret)

/-- The connection loop agrees with the rule where it says so. -/
theorem Round.Outcome.conn_agrees {r : Round} (h : r.Outcome (· ≠ 0)) : r.FollowsRule ↔ r.ConnAgrees := by
  unfold Round.FollowsRule Round.ConnAgrees
  rcases h with ⟨hrecv, hret, hkept⟩ | ⟨bs, ret, hrecv, hret, hkept⟩
  · simp [hrecv, hret, hkept]
  · rw [hkept]
    simp only [hrecv, hret, Option.some.injEq, exists_eq_left', ne_eq]
    tauto

/-- So does the event loop. -/
theorem Round.Outcome.kq_agrees {r : Round} (h : r.Outcome fun ret => ret ≠ 0 ∧ ret ≠ minusOne) :
    r.FollowsRule ↔ r.KqAgrees := by
  unfold Round.FollowsRule Round.KqAgrees
  rcases h with ⟨hrecv, hret, hkept⟩ | ⟨bs, ret, hrecv, hret, hkept⟩
  · simp [hrecv, hret, hkept]
  · rw [hkept]
    simp only [hrecv, hret, Option.some.injEq, exists_eq_left', ne_eq]
    tauto

/-- How far a loop is in its current iteration; `stray` stands for the branches other than the running one. -/
inductive RoundPhase
  | between
  | opened
  | received
  | answered (ret : SizeT)
  | leaving
  | stray

/-- What the current iteration is then. Between two iterations it is one after which the loop goes on, if there
    is one. -/
def RoundPhase.Describes (goesOn : SizeT → Prop) : RoundPhase → Option Round → Prop
  | .between,      cur => ∀ r, cur = some r → ({ r with kept := true } : Round).Outcome goesOn
  | .opened,       cur => ∃ r, cur = some r ∧ r.recv = none ∧ r.ret = none
  | .received,     cur => ∃ r bs, cur = some r ∧ r.recv = some (some bs) ∧ r.ret = none
  | .answered ret, cur => ∃ r bs, cur = some r ∧ r.recv = some (some bs) ∧ r.ret = some ret
  | .leaving,      cur => ∀ r, cur = some r → ({ r with kept := false } : Round).Outcome goesOn
  | .stray,        _   => False

/-- The finished iterations have an outcome, the current one is as far as the loop is. -/
structure RoundInv (goesOn : SizeT → Prop) (ph : RoundPhase) (w : Rounds) : Prop where
  finished : ∀ r ∈ w.finished, r.Outcome goesOn
  current  : ph.Describes goesOn w.current

section Phases

variable {goesOn : SizeT → Prop} {w : Rounds} {ret : SizeT}

/-- One more finished iteration. -/
theorem forall_mem_finish {kept : Bool} (h : ∀ r ∈ w.finished, r.Outcome goesOn)
    (hcur : ∀ r, w.current = some r → ({ r with kept := kept } : Round).Outcome goesOn) :
    ∀ r ∈ w.finished ++ (w.current.map fun r => { r with kept := kept }).toList, r.Outcome goesOn := by
  intro r hr
  rcases List.mem_append.mp hr with hr | hr
  · exact h r hr
  · obtain ⟨r', hr', rfl⟩ := Option.map_eq_some_iff.mp (Option.mem_toList.mp hr)
    exact hcur r' hr'

/-- Before the first iteration. -/
theorem roundInv_empty : RoundInv goesOn .between {} := by
  refine ⟨by simp, ?_⟩
  intro r hr
  cases hr

theorem RoundInv.start (hi : RoundInv goesOn .between w) : RoundInv goesOn .opened (w.note .start) :=
  ⟨forall_mem_finish hi.finished hi.current, {}, rfl, rfl, rfl⟩

theorem RoundInv.leave (hi : RoundInv goesOn .leaving w) : RoundInv goesOn .between (w.note .leave) := by
  refine ⟨forall_mem_finish hi.finished hi.current, ?_⟩
  intro r hr
  cases hr

theorem RoundInv.switch (st : Status) (hi : RoundInv goesOn .opened w) :
    RoundInv goesOn .opened (w.note (.switch st)) := by
  obtain ⟨r, hr, hrecv, hret⟩ := hi.current
  exact ⟨hi.finished, { r with status := some st }, by simp [Rounds.note, hr], hrecv, hret⟩

theorem RoundInv.recvFails (hi : RoundInv goesOn .opened w) : RoundInv goesOn .leaving (w.note (.recv none)) := by
  obtain ⟨r, hr, hrecv, hret⟩ := hi.current
  refine ⟨hi.finished, ?_⟩
  intro r' hr'
  simp only [Rounds.note, hr, Option.map_some, Option.some.injEq] at hr'
  subst hr'
  exact .inl ⟨rfl, hret, rfl⟩

theorem RoundInv.recv (bs : List Byte) (hi : RoundInv goesOn .opened w) :
    RoundInv goesOn .received (w.note (.recv (some bs))) := by
  obtain ⟨r, hr, hrecv, hret⟩ := hi.current
  exact ⟨hi.finished, { r with recv := some (some bs) }, bs, by simp [Rounds.note, hr], rfl, hret⟩

theorem RoundInv.answer (ret : SizeT) (hi : RoundInv goesOn .received w) :
    RoundInv goesOn (.answered ret) (w.note (.answer ret)) := by
  obtain ⟨r, bs, hr, hrecv, hret⟩ := hi.current
  exact ⟨hi.finished, { r with ret := some ret }, bs, by simp [Rounds.note, hr], hrecv, rfl⟩

theorem RoundInv.keeps (hi : RoundInv goesOn (.answered ret) w) (h : goesOn ret) :
    RoundInv goesOn .between w := by
  obtain ⟨r, bs, hr, hrecv, hret⟩ := hi.current
  refine ⟨hi.finished, ?_⟩
  intro r' hr'
  rw [hr] at hr'
  cases hr'
  exact .inr ⟨bs, ret, hrecv, hret, iff_of_true rfl h⟩

theorem RoundInv.ends (hi : RoundInv goesOn (.answered ret) w) (h : ¬ goesOn ret) :
    RoundInv goesOn .leaving w := by
  obtain ⟨r, bs, hr, hrecv, hret⟩ := hi.current
  refine ⟨hi.finished, ?_⟩
  intro r' hr'
  rw [hr] at hr'
  cases hr'
  exact .inr ⟨bs, ret, hrecv, hret, iff_of_false (by simp) h⟩

end Phases

/-! ## The connection loop -/

/-- How far a connection block is in its iteration. -/
def Conn.roundPhase (c : Conn) : RoundPhase :=
  match c.pc with
  | .compare | .copy | .branch | .callRecv | .recv => .opened
  | .handle => .received
  | .test   => .answered c.s
  | .close  => .leaving
  | .setRunning | .didResume | .willSuspend | .callRecvSuspended | .recvSuspended | .reread
  | .handleSuspended | .willKill => .stray
  | _ => .between

/-- The statuses stay `running`: every step of the block finds its queue so. Any other status of the server would
    be copied to it. -/
def StaysRunning (_ : List ConnEvent) (c : Conn) (a : ConnAct) : Prop :=
  a.ByOther = false → c.pc ≠ .create → c.queue.status = .running

instance (tr : List ConnEvent) (c : Conn) (a : ConnAct) : Decidable (StaysRunning tr c a) :=
  inferInstanceAs (Decidable (_ → _ → _))

section Conn

variable {srv : Server} {c c' : Conn} {i : Input} {tr es : List ConnEvent}

/-- The iterations survive every move of a block whose queue is running. -/
theorem keepAlive_move (hm : ConnMove srv c i c' es) (hst : c.pc ≠ .create → c.queue.status = .running)
    (hi : RoundInv (· ≠ 0) c.roundPhase (rounds ConnEvent.round tr)) :
    RoundInv (· ≠ 0) c'.roundPhase (rounds ConnEvent.round (tr ++ es)) := by
  have hpass {pc' : RoundPhase} (hes : ∀ e ∈ es, e.round = none) (hph : pc' = c.roundPhase) :
      RoundInv (· ≠ 0) pc' (rounds ConnEvent.round (tr ++ es)) := by
    rw [rounds_pass tr hes, hph]
    exact hi
  have hstray (h : c.roundPhase = .stray) : False := by
    rw [h] at hi
    exact hi.current
  have hrunning {pc : ConnPc} (hpc : c.pc = pc) (hne : pc ≠ .create) : c.queue.status = .running :=
    hst (by rw [hpc]; exact hne)
  cases hm with
  | create hpc | transfer hpc | retain hpc | alloc hpc | compareRunning hpc _ | compareOther hpc _ | copy hpc
  | callRecv hpc | releaseServer hpc | releaseQueue hpc | decCount hpc =>
      exact hpass (by simp [ConnEvent.round]) (by simp [Conn.roundPhase, hpc])
  | didConnect hpc | didDisconnect hpc =>
      exact hpass (forall_mem_callIf (by rfl) _) (by simp [Conn.roundPhase, hpc])
  | clear hpc =>
      rw [rounds_append]
      rw [Conn.roundPhase, hpc] at hi
      exact hi.start
  | branchRunning hpc _ =>
      rw [rounds_append]
      rw [Conn.roundPhase, hpc] at hi
      exact hi.switch .running
  | recvFails hpc =>
      rw [rounds_append]
      rw [Conn.roundPhase, hpc] at hi
      exact hi.recvFails
  | recv hpc bs _ =>
      rw [rounds_append]
      rw [Conn.roundPhase, hpc] at hi
      exact hi.recv bs
  | handle hpc ret _ _ _ =>
      rw [rounds_append]
      rw [Conn.roundPhase, hpc] at hi
      exact hi.answer ret
  | testKeeps hpc hs =>
      rw [rounds_pass tr (by simp)]
      rw [Conn.roundPhase, hpc] at hi
      exact hi.keeps hs
  | testEnds hpc hs =>
      rw [rounds_pass tr (by simp)]
      rw [Conn.roundPhase, hpc] at hi
      exact hi.ends (not_not.mpr hs)
  | close hpc =>
      rw [rounds_append]
      rw [Conn.roundPhase, hpc] at hi
      exact hi.leave
  | branchResuming hpc h | branchSuspend hpc h =>
      rw [hrunning hpc (by simp)] at h
      cases h
  | branchEnds hpc h =>
      rw [hrunning hpc (by simp)] at h
      rcases h with h | h <;> cases h
  | branchDefault hpc _ h _ => exact absurd (.inr (hrunning hpc (by simp))) h
  | _ hpc => exact (hstray (by simp [Conn.roundPhase, hpc])).elim

/-- The iterations of a connection whose statuses stay `running`. -/
theorem keepAlive_run {sock : Socket} {acts : List ConnAct}
    (hrunning : Machine.Guarded (connSysStep srv) StaysRunning [] (Conn.start sock) acts)
    (hrun : Machine.run (connSysStep srv) (Conn.start sock) acts = some (c, tr)) :
    RoundInv (· ≠ 0) c.roundPhase (rounds ConnEvent.round tr) := by
  have h0 : RoundInv (· ≠ 0) (Conn.start sock).roundPhase (rounds ConnEvent.round []) := roundInv_empty
  have hstep (c₁ : Conn) (tr₁ : List ConnEvent) (a : ConnAct) (c₂ : Conn) (es : List ConnEvent)
      (hi : RoundInv (· ≠ 0) c₁.roundPhase (rounds ConnEvent.round tr₁)) (hst : StaysRunning tr₁ c₁ a)
      (hs : connSysStep srv c₁ a = some (c₂, es)) :
      RoundInv (· ≠ 0) c₂.roundPhase (rounds ConnEvent.round (tr₁ ++ es)) := by
    cases a with
    | block st i => exact keepAlive_move (connStep_move hs) (hst rfl) hi
    | suspend | resume | setStatus _ =>
        obtain ⟨_, st, e, rfl, rfl, he⟩ := connSysStep_other rfl hs
        have hnone : ∀ e' ∈ [e], e'.round = none := by
          intro e' he'
          rw [List.mem_singleton.mp he']
          cases e <;> first | rfl | cases he
        rw [rounds_pass tr₁ hnone]
        exact hi
  have hi := Machine.run_invariant_of_guarded (I := fun c tr =>
    RoundInv (· ≠ 0) c.roundPhase (rounds ConnEvent.round tr)) hstep h0 hrunning hrun
  rwa [List.nil_append] at hi

end Conn

/-! ## The event loop -/

/-- How far the handling of an event is in its iteration. -/
def Handling.roundPhase (h : Handling) : RoundPhase :=
  match h.pc with
  | .compare | .copy | .branch | .callRecv | .recv => .opened
  | .handle => .received
  | .test   => .answered h.s
  | .close  => .leaving
  | .setRunning | .didResume | .willSuspend | .callRecvSuspended | .recvSuspended | .reread
  | .handleSuspended | .willKill => .stray
  | _ => .between

/-- What an event of a started server means for the iterations of its event loop. -/
def SysEvent.round : SysEvent → Option RoundEvent
  | .handling e => e.round
  | _           => none

/-- The answers after which the event loop goes on. -/
def KqGoesOn (ret : SizeT) : Prop := ret ≠ 0 ∧ ret ≠ minusOne

/-- A step of the event loop itself. -/
def KqAct.ByLoop : KqAct → Bool
  | .loop _ => true
  | _       => false

/-- The statuses stay `running`: every step of a handling finds its queue so. Any other status of the server would
    be copied to it. -/
def KqStaysRunning (_ : List SysEvent) (s : Kq) (a : KqAct) : Prop :=
  a.ByLoop = true → s.pc = .handling → s.cur.queue.status = .running

instance (tr : List SysEvent) (s : Kq) (a : KqAct) : Decidable (KqStaysRunning tr s a) :=
  inferInstanceAs (Decidable (_ → _ → _))

/-- The iterations of a handling; a test of the answer comes behind the test for `(size_t)-1`. -/
structure HandlingInv (h : Handling) (w : Rounds) : Prop where
  rounds : RoundInv KqGoesOn h.roundPhase w
  tested : h.pc = .test → h.s ≠ minusOne

section Handling

variable {srv : Server} {h h' : Handling} {i : Input} {es : List ConnEvent} {w : Rounds}

/-- Away from the exit test there is nothing to know about the answer. -/
theorem HandlingInv.elsewhere (hr : RoundInv KqGoesOn h.roundPhase w) (hpc : (h.pc == .test) = false) :
    HandlingInv h w := by
  refine ⟨hr, ?_⟩
  intro ht
  rw [ht] at hpc
  cases hpc

/-- The iterations survive every step of a handling on running statuses. -/
theorem keepAlive_handling (hs : handlingStep srv h i = some (h', es)) (hst : h.queue.status = .running)
    (hi : HandlingInv h w) : HandlingInv h' ((es.filterMap ConnEvent.round).foldl Rounds.note w) := by
  obtain ⟨hr, htested⟩ := hi
  cases hpc : h.pc <;> cases i <;> simp only [handlingStep, hpc, reduceCtorEq] at hs <;>
    rw [Handling.roundPhase, hpc] at hr
  case clear.tick =>
    cases hs
    exact .elsewhere hr.start rfl
  case compare.tick =>
    cases hs
    by_cases hsrv : srv.status = .running
    · rw [if_neg (not_not.mpr hsrv)]
      exact .elsewhere hr rfl
    · rw [if_pos hsrv]
      exact .elsewhere hr rfl
  case copy.tick | callRecv.tick =>
    cases hs
    exact .elsewhere hr rfl
  case branch.tick =>
    cases hs
    rw [hst]
    exact .elsewhere (hr.switch .running) rfl
  case recv.recv r =>
    split at hs
    · rename_i hok
      cases hs
      cases r with
      | none => exact .elsewhere hr.recvFails rfl
      | some bs =>
          rw [if_pos (recvValue_ne_minusOne hok)]
          exact .elsewhere (hr.recv bs) rfl
    · cases hs
  case handle.handler ret buf =>
    split at hs
    · cases hs
      by_cases hm : ret = minusOne
      · rw [if_pos hm]
        exact .elsewhere ((hr.answer ret).ends fun hgo => hgo.2 hm) rfl
      · rw [if_neg hm]
        exact ⟨hr.answer ret, fun _ => hm⟩
    · cases hs
  case test.tick =>
    cases hs
    by_cases hz : h.s = 0
    · rw [if_pos hz]
      exact .elsewhere (hr.ends fun hgo => hgo.1 hz) rfl
    · rw [if_neg hz]
      exact .elsewhere (hr.keeps ⟨hz, htested hpc⟩) rfl
  case close.tick =>
    cases hs
    exact .elsewhere hr.leave rfl
  case releaseQueue.tick | decCount.tick =>
    cases hs
    exact .elsewhere hr rfl
  case didDisconnect.tick =>
    cases hs
    cases hset : srv.handlers.didDisconnect <;> exact .elsewhere hr rfl
  all_goals exact hr.current.elim

end Handling

section Kq

variable {calls : SocketCalls} {s s' : Kq} {i : KqInput} {tr es : List SysEvent} {h : Handling}

/-- Inside a handling a step of the loop is a step of it. -/
theorem kqLoopStep_inside (hs : kqLoopStep s i = some (s', es)) (hpc : s.pc = .handling) :
    ∃ i', kqHandle s i' = some (s', es) := by
  unfold kqLoopStep at hs
  cases i <;> simp only [hpc, reduceCtorEq] at hs
  case handling i' => exact ⟨i', hs⟩

/-- The iterations of the event loop; outside a handling it is between two of them. -/
structure KqRoundInv (s : Kq) (tr : List SysEvent) : Prop where
  handling : HandlingInv s.cur (rounds SysEvent.round tr)
  outside  : s.pc ≠ .handling → s.cur.roundPhase = .between

/-- A step without an event of an iteration that leaves the handling where it is. -/
theorem KqRoundInv.pass (hi : KqRoundInv s tr) (hes : ∀ e ∈ es, e.round = none)
    (hcur : s'.cur.pc = s.cur.pc ∧ s'.cur.s = s.cur.s) (hpc : s'.pc = .handling ↔ s.pc = .handling) :
    KqRoundInv s' (tr ++ es) := by
  have hph : s'.cur.roundPhase = s.cur.roundPhase := by
    unfold Handling.roundPhase
    rw [hcur.1, hcur.2]
  refine ⟨⟨?_, ?_⟩, ?_⟩
  · rw [rounds_pass tr hes, hph]
    exact hi.handling.rounds
  · rw [hcur.1, hcur.2]
    exact hi.handling.tested
  · intro h
    rw [hph]
    exact hi.outside (mt hpc.mpr h)

/-- A step of a handling on running statuses. -/
theorem kqRoundInv_handle {i : Input} (hs : kqHandle s i = some (s', es)) (hpc : s.pc = .handling)
    (hst : s.cur.queue.status = .running) (hi : KqRoundInv s tr) : KqRoundInv s' (tr ++ es) := by
  unfold kqHandle at hs
  split at hs
  · cases hs
  rename_i h ces hstep
  have hview : (ces.map SysEvent.handling).filterMap SysEvent.round = ces.filterMap ConnEvent.round := by
    rw [List.filterMap_map]
    rfl
  have hinv := keepAlive_handling hstep hst hi.handling
  rw [← hview, ← rounds_append] at hinv
  split at hs
  · rename_i hkept
    cases hs
    exact ⟨hinv, fun _ => by simp [Handling.roundPhase, hkept]⟩
  split at hs
  · rename_i hclosed
    cases hs
    exact ⟨hinv, fun _ => by simp [Handling.roundPhase, hclosed]⟩
  · cases hs
    exact ⟨hinv, fun h => absurd hpc h⟩

/-- The invariant survives every step of a started server whose handlings find running statuses. -/
theorem kqRoundInv_step {a : KqAct} (hi : KqRoundInv s tr) (hst : KqStaysRunning tr s a)
    (hs : kqStep calls s a = some (s', es)) : KqRoundInv s' (tr ++ es) := by
  have hfreed (freed : Bool) : ∀ e ∈ freedIf freed, e.round = none := by
    cases freed <;> simp [freedIf, SysEvent.round]
  cases a with
  | starter | owner =>
      simp only [kqStep] at hs
      split at hs
      · split at hs
        · cases hs
        · cases hs
          exact hi.pass (hfreed _) ⟨rfl, rfl⟩ Iff.rfl
      · cases hs
  | loop i =>
      by_cases hpc : s.pc = .handling
      · obtain ⟨i', hhandle⟩ := kqLoopStep_inside hs hpc
        exact kqRoundInv_handle hhandle hpc (hst rfl hpc) hi
      · obtain ⟨hcur, hevents⟩ := (kqLoopStep_move hs).2.2.2 hpc
        have hes : ∀ e ∈ es, e.round = none := by
          intro e he
          cases e with
          | handling ce => exact absurd rfl (hevents _ he ce)
          | _ => rfl
        have hbetween : RoundInv KqGoesOn .between (rounds SysEvent.round (tr ++ es)) := by
          rw [rounds_pass tr hes, ← hi.outside hpc]
          exact hi.handling.rounds
        rcases hcur with ⟨hcur, hpc'⟩ | hclear
        · exact hi.pass hes (by rw [hcur]; exact ⟨rfl, rfl⟩) (iff_of_false hpc' hpc)
        · have hph : s'.cur.roundPhase = .between := by rw [Handling.roundPhase, hclear]
          refine ⟨⟨?_, ?_⟩, fun _ => hph⟩
          · rw [hph]
            exact hbetween
          · intro h
            rw [hclear] at h
            cases h
  | setStatus st =>
      cases hs
      exact hi.pass (by simp) ⟨rfl, rfl⟩ Iff.rfl
  | queue k a =>
      simp only [kqStep] at hs
      split at hs
      · cases hs
      split at hs
      · rename_i hother
        split at hs
        · cases hs
        rename_i hd ces hstep
        cases hs
        refine hi.pass ?_ ⟨rfl, rfl⟩ Iff.rfl
        cases a with
        | block _ _ => cases hother
        | suspend | resume | setStatus _ => cases hstep; simp [SysEvent.round, ConnEvent.round]
      · cases hs
  | curQueue a =>
      simp only [kqStep] at hs
      split at hs
      · rename_i hother
        split at hs
        · cases hs
        rename_i hd ces hstep
        cases hs
        cases a with
        | block _ _ => cases hother.2
        | suspend | resume | setStatus _ =>
            cases hstep
            exact hi.pass (by simp [SysEvent.round, ConnEvent.round]) ⟨rfl, rfl⟩ Iff.rfl
      · cases hs

/-- The iterations of an event loop whose handlings find running statuses. -/
theorem keepAlive_kq_run {server : Server} {s₀ : Kq} {acts : List KqAct}
    (hstart : sxServerStartKqueue server = some (sxSuccess, some s₀))
    (hrunning : Machine.Guarded (kqStep calls) KqStaysRunning [] s₀ acts)
    (hrun : Machine.run (kqStep calls) s₀ acts = some (s, tr)) : KqRoundInv s tr := by
  have h0 : KqRoundInv s₀ [] := by
    rw [sxServerStartKqueue_spec hstart]
    exact ⟨⟨roundInv_empty, by simp⟩, fun _ => rfl⟩
  have hstep (s₁ : Kq) (tr₁ : List SysEvent) (a : KqAct) (s₂ : Kq) (es : List SysEvent) (hi : KqRoundInv s₁ tr₁)
      (hst : KqStaysRunning tr₁ s₁ a) (hs : kqStep calls s₁ a = some (s₂, es)) : KqRoundInv s₂ (tr₁ ++ es) :=
    kqRoundInv_step hi hst hs
  exact Machine.run_invariant_of_guarded hstep h0 hrunning hrun

end Kq

/-! ## Results -/

/-- **The keep-alive rule, where it holds.** In every run of a connection under `SXServerStart` and every run
    of a server under `SXServerStart_kqueue` in which the statuses stay `running`: the finished iterations all
    follow the rule iff all of them are such that the loop agrees with it. -/
theorem keep_alive_iff {srv : Server} {sock : Socket} {acts : List ConnAct} {c : Conn} {tr : List ConnEvent}
    {calls : SocketCalls} {server : Server} {s₀ s : Kq} {kacts : List KqAct} {ktr : List SysEvent}
    (hrunning : Machine.Guarded (connSysStep srv) StaysRunning [] (Conn.start sock) acts)
    (hrun : Machine.run (connSysStep srv) (Conn.start sock) acts = some (c, tr))
    (hstart : sxServerStartKqueue server = some (sxSuccess, some s₀))
    (hkrunning : Machine.Guarded (kqStep calls) KqStaysRunning [] s₀ kacts)
    (hkrun : Machine.run (kqStep calls) s₀ kacts = some (s, ktr)) :
    ((∀ r ∈ (rounds ConnEvent.round tr).finished, r.FollowsRule) ↔
      ∀ r ∈ (rounds ConnEvent.round tr).finished, r.ConnAgrees) ∧
    ((∀ r ∈ (rounds SysEvent.round ktr).finished, r.FollowsRule) ↔
      ∀ r ∈ (rounds SysEvent.round ktr).finished, r.KqAgrees) := by
  have hconn := (keepAlive_run hrunning hrun).finished
  have hkq := (keepAlive_kq_run hstart hkrunning hkrun).handling.rounds.finished
  refine ⟨forall₂_congr ?_, forall₂_congr ?_⟩
  · intro r hr
    exact (hconn r hr).conn_agrees
  · intro r hr
    exact (hkq r hr).kq_agrees

/-- A server for one connection with a buffer of one byte, started in either way. -/
def echoServer : Server :=
  { sock := some { sockfd := 3 }, dataSize := 1, maxGuest := 1, handlers := { dataHandler := true } }

/-- A connection that receives a message, which its handler takes, and then finds its peer closed. -/
def messageThenClose (answer : SizeT) : List ConnAct :=
  List.replicate 9 (ConnAct.block .running .tick) ++
  [.block .running (.recv (some [5])), .block .running (.handler 1 [5])] ++
  List.replicate 5 (ConnAct.block .running .tick) ++
  [.block .running (.recv (some [])), .block .running (.handler answer [0])] ++
  List.replicate 2 (ConnAct.block .running .tick)

/-- The same under the event loop, up to the end of the first event. -/
def oneEvent (bs : List Byte) (answer : SizeT) : List KqAct :=
  List.replicate 3 (KqAct.loop .tick) ++ [.loop (.kqueue true)] ++ List.replicate 4 (KqAct.loop .tick) ++
  [.loop (.kevent (some [3])), .loop (.next 0 false), .loop .tick, .loop .tick, .loop (.accept (some 7)),
    .loop .tick, .loop (.next 0 false), .loop .tick, .loop .tick, .loop (.kevent (some [7])),
    .loop (.next 0 false)] ++
  List.replicate 4 (KqAct.loop (.handling .tick)) ++
  [.loop (.handling (.recv (some bs))), .loop (.handling (.handler answer [0])), .loop (.handling .tick)]

/-- `echoServer` started by `SXServerStart_kqueue`. -/
def echoStarted : Kq := { server := { echoServer with obj := sxRetain echoServer.obj } }

/-- When the handler answers `0` to an empty message, both loops follow the rule. -/
theorem keep_alive_iff_messageThenClose :
    ∃ c tr s ktr, Machine.run (connSysStep echoServer) (Conn.start {}) (messageThenClose 0) = some (c, tr) ∧
      sxServerStartKqueue echoServer = some (sxSuccess, some echoStarted) ∧
      Machine.run (kqStep {}) echoStarted (oneEvent [] 0 ++ [.loop (.handling .tick)]) = some (s, ktr) ∧
      (∀ r ∈ (rounds ConnEvent.round tr).finished, r.FollowsRule) ∧
      ∀ r ∈ (rounds SysEvent.round ktr).finished, r.FollowsRule := by
  have hconn : (Machine.run (connSysStep echoServer) (Conn.start {}) (messageThenClose 0)).map
      (fun p => (rounds ConnEvent.round p.2).finished) =
      some [⟨some .running, some (some [5]), none, some 1, true⟩,
        ⟨some .running, some (some []), none, some 0, false⟩] := by decide +kernel
  have hkq : (Machine.run (kqStep {}) echoStarted (oneEvent [] 0 ++ [.loop (.handling .tick)])).map
      (fun p => (rounds SysEvent.round p.2).finished) =
      some [⟨some .running, some (some []), none, some 0, false⟩] := by decide +kernel
  obtain ⟨⟨c, tr⟩, hrun, hfin⟩ := Option.map_eq_some_iff.mp hconn
  obtain ⟨⟨s, ktr⟩, hkrun, hkfin⟩ := Option.map_eq_some_iff.mp hkq
  have hstart : sxServerStartKqueue echoServer = some (sxSuccess, some echoStarted) := rfl
  have hiff := keep_alive_iff (by decide +kernel) hrun hstart (by decide +kernel) hkrun
  refine ⟨c, tr, s, ktr, hrun, hstart, hkrun, hiff.1.mpr ?_, hiff.2.mpr ?_⟩
  · rw [hfin]
    decide
  · rw [hkfin]
    decide

/-- **A closed peer is kept.** `recv` returns `0`, the handler answers `1`, and both loops keep the connection. -/
theorem kept_after_close :
    (∃ c tr r, Machine.run (connSysStep echoServer) (Conn.start {}) (messageThenClose 1) = some (c, tr) ∧
      r ∈ (rounds ConnEvent.round tr).finished ∧ r.recv = some (some []) ∧ r.kept = true ∧ ¬ r.FollowsRule) ∧
    (∃ s ktr r, sxServerStartKqueue echoServer = some (sxSuccess, some echoStarted) ∧
      Machine.run (kqStep {}) echoStarted (oneEvent [] 1 ++ [.loop (.next 0 false), .loop .tick, .loop .tick,
        .loop (.kevent (some [7])), .loop (.next 0 false), .loop (.handling .tick)]) = some (s, ktr) ∧
      r ∈ (rounds SysEvent.round ktr).finished ∧ r.recv = some (some []) ∧ r.kept = true ∧
        ¬ r.FollowsRule) := by
  have hbad : ¬ Round.FollowsRule ⟨some .running, some (some []), none, some 1, true⟩ := by
    intro h
    obtain ⟨⟨bs, hbs, hne⟩, _⟩ := h.mp rfl
    exact hne (by simpa using hbs.symm)
  have hconn : (Machine.run (connSysStep echoServer) (Conn.start {}) (messageThenClose 1)).map
      (fun p => (rounds ConnEvent.round p.2).finished) =
      some [⟨some .running, some (some [5]), none, some 1, true⟩,
        ⟨some .running, some (some []), none, some 1, true⟩] := by decide +kernel
  have hkq : (Machine.run (kqStep {}) echoStarted (oneEvent [] 1 ++ [.loop (.next 0 false), .loop .tick,
      .loop .tick, .loop (.kevent (some [7])), .loop (.next 0 false), .loop (.handling .tick)])).map
      (fun p => (rounds SysEvent.round p.2).finished) =
      some [⟨some .running, some (some []), none, some 1, true⟩] := by decide +kernel
  obtain ⟨⟨c, tr⟩, hrun, hfin⟩ := Option.map_eq_some_iff.mp hconn
  obtain ⟨⟨s, ktr⟩, hkrun, hkfin⟩ := Option.map_eq_some_iff.mp hkq
  dsimp only at hfin hkfin
  refine ⟨⟨c, tr, _, hrun, ?_, rfl, rfl, hbad⟩, ⟨s, ktr, _, rfl, hkrun, ?_, rfl, rfl, hbad⟩⟩
  · rw [hfin]
    simp
  · rw [hkfin]
    simp

end SpartanX
