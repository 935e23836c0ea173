import Mathlib.Data.List.Count
import SpartanX.Swift.Descriptors

/-!
# `Swift.Shutdown` — what a queue of a Swift server that is to end makes of it

When the status of the server is `SHOULD_TERMINATE` or `IDLE` an iteration of `SXQueue.start` calls `objectWillKill`
and `statusDidChange`, and leaves `s` as it is. So at the `while (s > 0)` it is still the length of the data that the
queue last received: a queue whose handler has accepted some does not leave the loop any more, but keeps its socket
and calls `objectWillKill` again and again. Only a queue that has nothing to go on for completes
(`swift_queue_ends_iff`).

## Contents
- **The steps of others.** `SwiftAct.Keeps`, `swiftLoopStep_keeps`, and what they leave of a queue
  (`swiftStep_guest`).
- **A queue that completes.** `Guest.left`, `Completing` (`completing_step`).
- **A queue that goes on.** `RunPc.turn`, `Spinning` (`spinning_step`).
- **Result.** `swift_queue_ends_iff`.
-/

namespace SpartanX

/-! ## The steps of others -/

/-- Nobody writes a status in the step, to the server or to the `k`-th queue, but for those that end a loop. -/
def SwiftAct.Keeps (k : Nat) : SwiftAct → Prop
  | .setStatus st        => st.Ends
  | .setQueueStatus j st => j = k → st.Ends
  | _                    => True

/-- The step is one of the `k`-th queue. -/
def SwiftAct.OfGuest (k : Nat) : SwiftAct → Bool
  | .guest j _ => j = k
  | _          => false

/-- A server that is to end, past the statement that would set it running. -/
def SwiftSys.Ending (s : SwiftSys) : Prop := s.pc ≠ .setRunning ∧ s.server.status.Ends

/-- Another party has written the status of the queue. -/
def Guest.withStatus (g : Guest) (st : SXStatus) : Guest :=
  { g with loop := { g.loop with object := { g.loop.object with status := st } } }

section Step

variable {s s' : SwiftSys} {a : SwiftAct} {i : SwiftInput} {es : List SwiftEvent} {k : Nat} {g : Guest}

/-- The accept loop writes no status but `IDLE`, does nothing to a queue that is there, and is not heard of as one. -/
theorem swiftLoopStep_keeps (hi : s.Ending) (h : swiftLoopStep s i = some (s', es)) :
    s'.Ending ∧ s.guests <+: s'.guests ∧ ∀ e, .run k e ∉ es := by
  obtain ⟨hpc₀, hst⟩ := hi
  unfold swiftLoopStep at h
  cases i with
  | listen ok =>
      cases hpc : s.pc <;> simp only [hpc, reduceCtorEq] at h
      case listen =>
        cases h
        exact ⟨⟨by dsimp only; split <;> simp, hst⟩, List.prefix_rfl, by simp⟩
  | accept r =>
      cases hpc : s.pc <;> simp only [hpc, reduceCtorEq] at h
      case accept =>
        split at h <;> cases h <;> exact ⟨⟨by simp, hst⟩, List.prefix_rfl, by simp⟩
  | acceptThrows sockfd =>
      cases hpc : s.pc <;> simp only [hpc, reduceCtorEq] at h
      case accept =>
        cases h
        exact ⟨⟨by simp, hst⟩, List.prefix_rfl, by simp⟩
  | answer yes =>
      cases hpc : s.pc <;> simp only [hpc, reduceCtorEq] at h
      case shouldConnect =>
        split at h
        · cases yes <;> cases h <;> exact ⟨⟨by simp, hst⟩, List.prefix_rfl, by simp⟩
        · cases h
  | tick =>
      cases hpc : s.pc <;> simp only [hpc, reduceCtorEq] at h
      case setRunning => exact absurd hpc hpc₀
      case head | checkTerminate | checkSuspended | checkGuests =>
        cases h
        exact ⟨⟨by dsimp only; split <;> simp, hst⟩, List.prefix_rfl, by simp⟩
      case incCount =>
        obtain ⟨count, _, heq⟩ := Option.map_eq_some_iff.mp h
        cases heq
        exact ⟨⟨by simp, hst⟩, List.prefix_rfl, by simp⟩
      case shouldConnect =>
        split at h <;> cases h
        exact ⟨⟨by simp, hst⟩, List.prefix_rfl, by simp⟩
      case dispatch =>
        cases h
        exact ⟨⟨by simp, hst⟩, List.prefix_append .., by simp⟩
      case setIdle =>
        cases h
        exact ⟨⟨by simp, .inr rfl⟩, List.prefix_rfl, by simp⟩
      case acceptFailed | close | listenFailed =>
        cases h
        exact ⟨⟨by simp, hst⟩, List.prefix_rfl, by simp⟩
      case didKill =>
        cases h
        exact ⟨⟨by simp, hst⟩, List.prefix_rfl, by split <;> simp⟩

/-- A queue is heard of as itself. -/
theorem guestStep_run {server : StreamServer} {j : Nat} {g' : Guest} {i : RunInput}
    (h : guestStep server j g i = some (g', es)) (hne : j ≠ k) : ∀ e, .run k e ∉ es := by
  intro e he
  cases hpc : g.pc <;> cases i <;> simp only [guestStep, hpc, reduceCtorEq] at h
  case queue.tick | queue.receive | queue.proceed =>
    obtain ⟨r, _, heq⟩ := Option.map_eq_some_iff.mp h
    cases heq
    obtain ⟨_, _, heq⟩ := List.mem_map.mp he
    cases heq
    exact hne rfl
  case close.tick | decCount.tick =>
    cases h
    simp at he
  case didDisconnect.tick =>
    cases h
    split at he <;> simp at he

/-- **What a step leaves of a queue.** It is the queue's own, or it leaves the queue as it is but for a status that
    ends a loop. -/
theorem swiftStep_guest (hi : s.Ending) (ha : a.Keeps k) (hg : s.guests[k]? = some g)
    (h : swiftStep s a = some (s', es)) : s'.Ending ∧
      ((∃ i g', a = .guest k i ∧ guestStep s.server k g i = some (g', es) ∧ s'.guests[k]? = some g') ∨
        (a.OfGuest k = false ∧ (∀ e, .run k e ∈ es → ∃ st, e = .setStatus st) ∧
          ∃ st, (st = g.loop.object.status ∨ st.Ends) ∧ s'.guests[k]? = some (g.withStatus st))) := by
  have hk : k < s.guests.length := (List.getElem?_eq_some_iff.mp hg).1
  cases a with
  | loop i =>
      obtain ⟨hending, hguests, hnone⟩ := swiftLoopStep_keeps hi h
      obtain ⟨started, hstarted⟩ := hguests
      refine ⟨hending, .inr ⟨rfl, fun e he => absurd he (hnone e), _, .inl rfl, ?_⟩⟩
      rw [← hstarted, List.getElem?_append_left hk]
      exact hg
  | guest j i =>
      simp only [swiftStep] at h
      split at h
      · cases h
      · next g₁ hg₁ =>
          split at h
          · cases h
          · next g' es' hstep =>
              obtain ⟨count, _, heq⟩ := Option.map_eq_some_iff.mp h
              cases heq
              refine ⟨hi, ?_⟩
              by_cases hjk : j = k
              · subst hjk
                obtain rfl := Option.some.inj (hg.symm.trans hg₁)
                exact .inl ⟨i, g', rfl, hstep, List.getElem?_set_self hk⟩
              · refine .inr ⟨decide_eq_false hjk, fun e he => absurd he (guestStep_run hstep hjk e), _, .inl rfl, ?_⟩
                rw [List.getElem?_set_ne hjk]
                exact hg
  | setStatus st =>
      cases h
      exact ⟨⟨hi.1, ha⟩, .inr ⟨rfl, by simp, _, .inl rfl, hg⟩⟩
  | setQueueStatus j st =>
      simp only [swiftStep] at h
      split at h
      · cases h
      · next g₁ hg₁ =>
          cases h
          refine ⟨hi, .inr ⟨rfl, by simp, ?_⟩⟩
          by_cases hjk : j = k
          · subst hjk
            obtain rfl := Option.some.inj (hg.symm.trans hg₁)
            exact ⟨st, .inr (ha rfl), List.getElem?_set_self hk⟩
          · refine ⟨_, .inl rfl, ?_⟩
            rw [List.getElem?_set_ne hjk]
            exact hg

/-- **Rule for one queue.** What holds of a queue, the number of its steps and the trace, and is kept by a step of its
    own under a server that is to end and by what others leave of it, holds after any run. -/
theorem guest_run {J : Nat → List SwiftEvent → Guest → Prop}
    (hown : ∀ {server g i g' es n tr}, server.status.Ends → J n tr g → guestStep server k g i = some (g', es) →
      J (n + 1) (tr ++ es) g')
    (hother : ∀ {g st es n tr}, J n tr g → (∀ e, .run k e ∈ es → ∃ st, e = .setStatus st) →
      (st = g.loop.object.status ∨ st.Ends) → J n (tr ++ es) (g.withStatus st))
    {acts : List SwiftAct} {tr : List SwiftEvent} (hi : s.Ending) (hg : s.guests[k]? = some g) (h0 : J 0 [] g)
    (hkeeps : ∀ a ∈ acts, a.Keeps k) (hrun : Machine.run swiftStep s acts = some (s', tr)) :
    ∃ g', s'.guests[k]? = some g' ∧ J (acts.countP (SwiftAct.OfGuest k)) tr g' := by
  let I (acts : List SwiftAct) (s : SwiftSys) (tr : List SwiftEvent) : Prop :=
    (∀ a ∈ acts, a.Keeps k) → s.Ending ∧ ∃ g, s.guests[k]? = some g ∧ J (acts.countP (SwiftAct.OfGuest k)) tr g
  have hstep (as : List SwiftAct) (s₁ : SwiftSys) (tr₁ : List SwiftEvent) (a : SwiftAct) (s₂ : SwiftSys)
      (es : List SwiftEvent) (h : I as s₁ tr₁) (hs : swiftStep s₁ a = some (s₂, es)) :
      I (as ++ [a]) s₂ (tr₁ ++ es) := by
    intro hkeeps
    obtain ⟨hi₁, g₁, hg₁, hJ⟩ := h fun b hb => hkeeps b (List.mem_append_left _ hb)
    obtain ⟨hi₂, hguest⟩ := swiftStep_guest hi₁ (hkeeps a (by simp)) hg₁ hs
    refine ⟨hi₂, ?_⟩
    rw [List.countP_append, List.countP_singleton]
    rcases hguest with ⟨i, g₂, rfl, hown₂, hg₂⟩ | ⟨hnot, hnone, st, hst, hg₂⟩
    · refine ⟨g₂, hg₂, ?_⟩
      rw [if_pos (show SwiftAct.OfGuest k (.guest k i) = true from decide_eq_true rfl)]
      exact hown hi₁.2 hJ hown₂
    · refine ⟨_, hg₂, ?_⟩
      rw [if_neg (by rw [hnot]; exact Bool.false_ne_true)]
      exact hother hJ hnone hst
  have hI : I ([] ++ acts) s' ([] ++ tr) :=
    Machine.run_history_invariant (I := I) hstep (fun _ => ⟨hi, g, hg, h0⟩) hrun
  exact (hI hkeeps).2

end Step

/-! ## A queue that completes -/

/-- The steps that are left to a queue that is behind its loop, or at the test with nothing to go on for. -/
def Guest.left (g : Guest) : Nat :=
  match g.pc with
  | .queue         => if g.loop.pc = .completion then 4 else 5
  | .close         => 3
  | .didDisconnect => 2
  | .decCount      => 1
  | .done          => 0

/-- The queue is behind its loop, or at the test with nothing to go on for. -/
def Guest.Completing (g : Guest) : Prop :=
  g.pc = .queue → g.loop.pc = .completion ∨ (g.loop.pc = .test ∧ g.loop.s ≤ 0)

section Queue

variable {server : StreamServer} {k : Nat} {g g' : Guest} {i : RunInput} {es : List SwiftEvent}

/-- Such a queue takes one step after the other. -/
theorem completing_step (hi : g.Completing) (h : guestStep server k g i = some (g', es)) :
    g'.Completing ∧ g'.left + 1 = g.left := by
  cases hpc : g.pc with
  | queue =>
      rcases hi hpc with hloop | ⟨hloop, hs⟩
      · cases i <;> simp only [guestStep, runStep, hpc, hloop, Option.map_some, Option.map_none, reduceCtorEq] at h
        cases h
        simp [Guest.Completing, Guest.left, hpc, hloop]
      · cases i <;> simp only [guestStep, runStep, hpc, hloop, Option.map_some, Option.map_none, reduceCtorEq] at h
        cases h
        have hnot : ¬ 0 < g.loop.s := Int.not_lt.mpr hs
        simp [Guest.Completing, Guest.left, hpc, hloop, hnot]
  | close | didDisconnect | decCount =>
      cases i <;> simp only [guestStep, hpc, reduceCtorEq] at h
      cases h
      simp [Guest.Completing, Guest.left, hpc]
  | done => cases i <;> simp only [guestStep, hpc, reduceCtorEq] at h

/-- It can always take the next. -/
theorem Guest.Completing.isSome (hi : g.Completing) (hleft : g.pc ≠ .done) (server : StreamServer) (k : Nat) :
    (guestStep server k g .tick).isSome = true := by
  unfold guestStep
  cases hpc : g.pc with
  | queue => rcases hi hpc with hloop | ⟨hloop, hs⟩ <;> simp [runStep, hloop]
  | close | didDisconnect | decCount => rfl
  | done => exact absurd hpc hleft

/-! ## A queue that goes on -/

/-- How far the loop is in the turn it goes through for a status that ends it, from the test on. -/
def RunPc.turn : RunPc → Nat
  | .test       => 0
  | .readOwner  => 1
  | .takeStatus => 2
  | .takeFlags  => 3
  | .branch     => 4
  | .willKill   => 5
  | .readKilled => 6
  | .tellKilled => 7
  | _           => 8

/-- The queue is in such a turn, with something to go on for. -/
structure Guest.Spinning (g : Guest) : Prop where
  pc     : g.pc = .queue
  turn   : g.loop.pc.turn < 8
  s      : 0 < g.loop.s
  status : g.loop.pc = .takeFlags ∨ g.loop.pc = .branch → g.loop.object.status.Ends

/-- What a step in such a turn does to the queue: it goes one further, and has received nothing. -/
structure Guest.SpinsTo (k : Nat) (g : Guest) (es : List SwiftEvent) (g' : Guest) : Prop where
  spinning : g'.Spinning
  sockfd   : g'.sockfd = g.sockfd
  delegate : g'.loop.object.delegate = g.loop.object.delegate
  turn     : g'.loop.pc.turn = (g.loop.pc.turn + 1) % 8
  nothing  : ∀ flags r, .run k (.receive flags r) ∉ es
  calls    : g.loop.object.delegate = true → es.count (.run k .willKill) = if g.loop.pc.turn = 5 then 1 else 0

/-- Such a queue goes on under a server that is to end. -/
theorem spinning_step (hst : server.status.Ends) (hi : g.Spinning) (h : guestStep server k g i = some (g', es)) :
    g.SpinsTo k es g' := by
  have hnot : server.status ≠ .running := by
    rcases hst with hst | hst <;> simp [hst]
  have hgo {pc : RunPc} {c : RunLoop} {ces : List RunEvent} (hpc : g.loop.pc = pc)
      (hturn : c.pc.turn = (pc.turn + 1) % 8)
      (hsame : c.s = g.loop.s ∧ c.object.delegate = g.loop.object.delegate)
      (hstatus : c.pc = .takeFlags ∨ c.pc = .branch → c.object.status.Ends)
      (hnothing : ∀ flags r, .receive flags r ∉ ces)
      (hcalls : g.loop.object.delegate = true → ces.count .willKill = if pc.turn = 5 then 1 else 0) :
      g.SpinsTo k (ces.map (.run k)) { g with loop := c, pc := if c.pc = .done then .close else .queue } := by
    subst hpc
    have hlt : c.pc.turn < 8 := hturn ▸ Nat.mod_lt _ (by decide)
    have hdone : c.pc ≠ .done := by
      intro hdone
      rw [hdone] at hlt
      exact absurd hlt (by decide)
    refine ⟨⟨if_neg hdone, hlt, hsame.1 ▸ hi.s, hstatus⟩, rfl, hsame.2, hturn, ?_, ?_⟩
    · intro flags r hr
      obtain ⟨e, he, heq⟩ := List.mem_map.mp hr
      cases heq
      exact hnothing flags r he
    · intro hdelegate
      rw [← hcalls hdelegate]
      exact List.count_map_of_injective ces (SwiftEvent.run k) (fun _ _ heq => (SwiftEvent.run.inj heq).2) .willKill
  have hturn := hi.turn
  simp only [guestStep, hi.pc] at h
  obtain ⟨⟨c, ces⟩, hstep, heq⟩ := Option.map_eq_some_iff.mp h
  obtain ⟨rfl, rfl⟩ := Prod.mk.inj heq
  unfold runStep at hstep
  cases hpc : g.loop.pc <;> simp only [hpc, RunPc.turn, Nat.lt_irrefl] at hturn
  all_goals cases i <;> simp only [hpc, reduceCtorEq] at hstep
  case test.tick =>
    cases hstep
    exact hgo hpc (by rw [if_pos hi.s]; rfl) ⟨rfl, rfl⟩ (by simp [hi.s]) (by simp) fun _ => rfl
  case readOwner.tick =>
    cases hstep
    exact hgo hpc (by rw [if_pos hnot]; rfl) ⟨rfl, rfl⟩ (by simp [hnot]) (by simp) fun _ => rfl
  case takeStatus.tick =>
    cases hstep
    exact hgo hpc rfl ⟨rfl, rfl⟩ (fun _ => hst) (by simp) fun _ => rfl
  case takeFlags.tick =>
    cases hstep
    exact hgo hpc rfl ⟨rfl, rfl⟩ (fun _ => hi.status (.inl hpc)) (by simp) fun _ => rfl
  case branch.tick =>
    cases hstep
    have htarget : Runner.queue.branchTarget g.loop.object.status = .willKill := by
      rcases hi.status (.inr hpc) with hst | hst <;> rw [hst] <;> rfl
    exact hgo hpc (by rw [htarget]; rfl) ⟨rfl, rfl⟩ (by simp [htarget]) (by simp) fun _ => rfl
  case willKill.tick =>
    cases hstep
    exact hgo hpc rfl ⟨rfl, rfl⟩ (by simp) (by split <;> simp) fun hdelegate => by rw [if_pos hdelegate]; rfl
  case readKilled.tick =>
    cases hstep
    exact hgo hpc rfl ⟨rfl, rfl⟩ (by simp) (by simp) fun _ => rfl
  case tellKilled.tick =>
    cases hstep
    exact hgo hpc rfl ⟨rfl, rfl⟩ (by simp) (by simp [Runner.statusDidChange]) fun _ => rfl

/-- It can always take a step. -/
theorem Guest.Spinning.isSome (hi : g.Spinning) (server : StreamServer) (k : Nat) :
    (guestStep server k g .tick).isSome = true := by
  have hturn := hi.turn
  simp only [guestStep, hi.pc]
  unfold runStep
  cases hpc : g.loop.pc <;> simp only [hpc, RunPc.turn, Nat.lt_irrefl] at hturn
  all_goals rfl

end Queue

/-! ## Result -/

/-- What holds of a queue that goes on after a number of its steps. -/
structure Guest.SpinsOn (k : Nat) (g₀ : Guest) (n : Nat) (tr : List SwiftEvent) (g : Guest) : Prop where
  spinning : g.Spinning
  sockfd   : g.sockfd = g₀.sockfd
  delegate : g.loop.object.delegate = g₀.loop.object.delegate
  nothing  : ∀ flags r, .run k (.receive flags r) ∉ tr
  calls    : g₀.loop.object.delegate = true →
    8 * tr.count (.run k .willKill) + (g.loop.pc.turn + 2) % 8 = n + 2

section Run

variable {s s' : SwiftSys} {acts : List SwiftAct} {tr : List SwiftEvent} {k : Nat} {g : Guest}

/-- A queue with nothing to go on for, of a server that is to end. -/
theorem completes_run (hi : s.Ending) (hkeeps : ∀ a ∈ acts, a.Keeps k) (hg : s.guests[k]? = some g)
    (hpc : g.pc = .queue) (htest : g.loop.pc = .test) (hs : g.loop.s ≤ 0)
    (hrun : Machine.run swiftStep s acts = some (s', tr)) :
    ∃ g', s'.guests[k]? = some g' ∧ g'.Completing ∧ acts.countP (SwiftAct.OfGuest k) + g'.left = 5 := by
  have h0 : g.Completing ∧ 0 + g.left = 5 := by
    simp [Guest.Completing, Guest.left, hpc, htest, hs]
  exact guest_run (J := fun n _ g => g.Completing ∧ n + g.left = 5)
    (fun _ hJ h => by obtain ⟨hc, hleft⟩ := completing_step hJ.1 h; exact ⟨hc, by omega⟩)
    (fun hJ _ _ => hJ) hi hg h0 hkeeps hrun

/-- One with something to go on for. -/
theorem spins_run (hi : s.Ending) (hkeeps : ∀ a ∈ acts, a.Keeps k) (hg : s.guests[k]? = some g)
    (hpc : g.pc = .queue) (htest : g.loop.pc = .test) (hs : 0 < g.loop.s)
    (hrun : Machine.run swiftStep s acts = some (s', tr)) :
    ∃ g', s'.guests[k]? = some g' ∧ g.SpinsOn k (acts.countP (SwiftAct.OfGuest k)) tr g' := by
  have h0 : g.SpinsOn k 0 [] g := by
    refine ⟨⟨hpc, ?_, hs, ?_⟩, rfl, rfl, by simp, ?_⟩ <;> simp [htest, RunPc.turn]
  refine guest_run (J := g.SpinsOn k) ?_ ?_ hi hg h0 hkeeps hrun
  · intro server g₁ i g₂ es n tr hst hJ h
    have hgo := spinning_step hst hJ.spinning h
    refine ⟨hgo.spinning, hgo.sockfd.trans hJ.sockfd, hgo.delegate.trans hJ.delegate, ?_, ?_⟩
    · exact fun flags r => List.not_mem_append (hJ.nothing flags r) (hgo.nothing flags r)
    · intro hdelegate
      have hcalls := hJ.calls hdelegate
      have hlt := hJ.spinning.turn
      rw [List.count_append, hgo.calls (hJ.delegate.trans hdelegate), hgo.turn]
      split <;> omega
  · intro g₁ st es n tr hJ hnone hst
    have hcount : es.count (.run k .willKill) = 0 := by
      refine List.count_eq_zero.mpr fun hmem => ?_
      obtain ⟨_, heq⟩ := hnone _ hmem
      cases heq
    refine ⟨⟨hJ.spinning.pc, hJ.spinning.turn, hJ.spinning.s, ?_⟩, hJ.sockfd, hJ.delegate, ?_, ?_⟩
    · intro hpc
      rcases hst with rfl | hst
      · exact hJ.spinning.status hpc
      · exact hst
    · intro flags r
      refine List.not_mem_append (hJ.nothing flags r) fun hmem => ?_
      obtain ⟨_, heq⟩ := hnone _ hmem
      cases heq
    · rw [List.count_append, hcount]
      exact hJ.calls

/-- **When a queue of a Swift server that is to end does end.** The status of the server is `SHOULD_TERMINATE` or
    `IDLE`, and a queue is at the test of its `while`. However it and the others go on, as long as nobody writes
    another status: if its `s` is not positive it completes with five more steps, and can always take the next of
    them, unless the `count -= 1` of its completion traps. Else it never completes. It keeps its socket and receives
    nothing, it can always take another step, and if it has a delegate it has called `objectWillKill` once in every
    eight of them. -/
theorem swift_queue_ends_iff (hpc₀ : s.pc ≠ .setRunning) (hstatus : s.server.status.Ends)
    (hkeeps : ∀ a ∈ acts, a.Keeps k) (hg : s.guests[k]? = some g) (hpc : g.pc = .queue) (htest : g.loop.pc = .test)
    (hrun : Machine.run swiftStep s acts = some (s', tr)) :
    ∃ g', s'.guests[k]? = some g' ∧
      (g.loop.s ≤ 0 → acts.countP (SwiftAct.OfGuest k) ≤ 5 ∧
        (g'.pc = .done ↔ acts.countP (SwiftAct.OfGuest k) = 5) ∧
        (g'.pc ≠ .done → (g'.pc = .decCount → SwiftInt.checked (s'.count - 1) ≠ none) →
          (swiftStep s' (.guest k .tick)).isSome = true)) ∧
      (0 < g.loop.s → g'.pc = .queue ∧ g.sockfd ∈ s'.fds ∧ (∀ flags r, .run k (.receive flags r) ∉ tr) ∧
        (swiftStep s' (.guest k .tick)).isSome = true ∧
        (g.loop.object.delegate = true →
          tr.count (.run k .willKill) = (acts.countP (SwiftAct.OfGuest k) + 2) / 8)) := by
  by_cases hs : 0 < g.loop.s
  · obtain ⟨g', hg', hspins⟩ := spins_run ⟨hpc₀, hstatus⟩ hkeeps hg hpc htest hs hrun
    have hqueue := hspins.spinning.pc
    refine ⟨g', hg', fun hle => absurd hle (Int.not_le.mpr hs), fun _ => ⟨hqueue, ?_, hspins.nothing, ?_, ?_⟩⟩
    · refine List.mem_append_right _ (List.mem_flatMap.mpr ⟨g', List.mem_of_getElem? hg', ?_⟩)
      unfold Guest.fds
      rw [hqueue, ← hspins.sockfd]
      exact List.mem_singleton.mpr rfl
    · obtain ⟨⟨g₁, es⟩, hstep⟩ := Option.isSome_iff_exists.mp (hspins.spinning.isSome s'.server k)
      simp [swiftStep, hg', hstep, hqueue]
    · intro hdelegate
      have hcalls := hspins.calls hdelegate
      omega
  · have hle : g.loop.s ≤ 0 := Int.not_lt.mp hs
    obtain ⟨g', hg', hcompleting, hleft⟩ := completes_run ⟨hpc₀, hstatus⟩ hkeeps hg hpc htest hle hrun
    refine ⟨g', hg', fun _ => ⟨by omega, ?_, fun hnot hcount => ?_⟩, fun hlt => absurd hlt hs⟩
    · have hdone : g'.pc = .done ↔ g'.left = 0 := by
        unfold Guest.left
        cases g'.pc <;> simp
        split <;> simp
      rw [hdone]
      omega
    · obtain ⟨⟨g₁, es⟩, hstep⟩ := Option.isSome_iff_exists.mp (hcompleting.isSome hnot s'.server k)
      simp only [swiftStep, hg', hstep, Option.isSome_map]
      split
      · next hdec => exact Option.isSome_iff_ne_none.mpr (hcount hdec)
      · rfl

end Run

/-- A server whose queue has taken its first data when the status is set. -/
def toldAfterData : List SwiftAct :=
  [.loop .tick, .loop .tick, .loop (.listen true), .loop .tick, .loop .tick, .loop (.accept (some 4)), .loop .tick,
    .loop (.answer true), .loop .tick] ++
  List.replicate 4 (.guest 0 .tick) ++ [.guest 0 (.receive (some [7])), .guest 0 (.proceed true [7])] ++
  [.setStatus .shouldTerminate]

/-- The loop and the queue by turns. -/
def endsByTurns : List SwiftAct := List.replicate 4 (.loop .tick) ++ List.replicate 16 (.guest 0 .tick)

/-- The accept loop has ended, and the queue has called `objectWillKill` twice. -/
theorem swift_queue_ends_iff_toldAfterData :
    ∃ s s' tr₀ tr g', Machine.run swiftStep (sxStreamServerStart { maxGuest := 1 }) toldAfterData = some (s, tr₀) ∧
      Machine.run swiftStep s endsByTurns = some (s', tr) ∧ s'.pc = .done ∧ s'.guests[0]? = some g' ∧ g'.pc = .queue ∧
      tr.count (.run 0 .willKill) = 2 := by
  obtain ⟨s, s', tr₀, tr, g, hreach, hrun, hhead, hstatus, hdone, hg, hpc, htest, hs, hdelegate⟩ :
      ∃ s s' tr₀ tr g, Machine.run swiftStep (sxStreamServerStart { maxGuest := 1 }) toldAfterData = some (s, tr₀) ∧
        Machine.run swiftStep s endsByTurns = some (s', tr) ∧ s.pc = .head ∧ s.server.status = .shouldTerminate ∧
        s'.pc = .done ∧ s.guests[0]? = some g ∧ g.pc = .queue ∧ g.loop.pc = .test ∧ g.loop.s = 1 ∧
        g.loop.object.delegate = true :=
    ⟨_, _, _, _, _, rfl, rfl, rfl, rfl, rfl, rfl, rfl, rfl, rfl, rfl⟩
  have hkeeps : ∀ a ∈ endsByTurns, a.Keeps 0 := by
    intro a ha
    rcases List.mem_append.mp ha with ha | ha <;> rw [List.eq_of_mem_replicate ha] <;> trivial
  obtain ⟨g', hg', _, hspins⟩ :=
    swift_queue_ends_iff (by simp [hhead]) (.inl hstatus) hkeeps hg hpc htest hrun
  obtain ⟨hqueue, _, _, _, hcalls⟩ := hspins (by omega)
  exact ⟨s, s', tr₀, tr, g', hreach, hrun, hdone, hg', hqueue, hcalls hdelegate⟩

end SpartanX
