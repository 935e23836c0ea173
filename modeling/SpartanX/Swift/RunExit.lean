import SpartanX.Swift.RunLoop

/-!
# `Swift.RunExit` — after which iterations the Swift loops end

The loops should end for a reason of their last iteration: a status that ends them, a receive that failed or returned
nothing, or a data handler that answers false. The exit test reads `s` instead. It starts as `0`, an iteration may
leave it as the one before left it, a delivery behind a failed receive overwrites its `0`, and what a handler that
answers true leaves of its data decides too. The loops end for the right reasons, and `objectWillKill` is called at
most once, iff no iteration makes the difference visible (`run_loops_exit_iff`).

## Contents
- **The rule.** `RunTurn`, `RunTurn.EndsRightly`, `RunTurn.LoopAgrees`.
- **What a finished iteration is.** `RunTurn.Outcome`, one case per way through the body.
- **Step and run.** `RunPc.TurnIs`, `RunExitInv`, `KillInv`.
- **Results.** `run_loops_exit_iff`, `run_loops_exit_defects`.
-/

namespace SpartanX

open CInt

/-! ## The rule -/

/-- An iteration: the status at its `switch`, what its receives returned, the status read behind the first of them,
    and the answer of the data handler with the data it left, as far as it got to each of them. -/
structure RunTurn where
  status   : Option SXStatus             := none
  received : List (Option (List UInt8))  := []
  reread   : Option SXStatus             := none
  answer   : Option (Bool × List UInt8)  := none
  deriving DecidableEq, Repr

/-- A receive failed or returned no bytes. -/
def RunTurn.Starved (t : RunTurn) : Prop := ∃ r ∈ t.received, r = none ∨ r = some []

/-- The rule for a finished iteration: the loop ended after it iff its status was `SHOULD_TERMINATE` or `IDLE`, at the
    `switch` or when it was read again, or a receive failed or returned no bytes, or the data handler answered
    false. -/
def RunTurn.EndsRightly (t : RunTurn) (kept : Bool) : Prop :=
  kept = false ↔
    (∃ st ∈ t.status, st.Ends) ∨ (∃ st ∈ t.reread, st.Ends) ∨ t.Starved ∨ ∃ a ∈ t.answer, a.1 = false

/-- The iterations that leave `s` alone: they receive nothing, or receive data and find the object suspended still. -/
def RunTurn.PassesBy (t : RunTurn) : Prop := t.received = [] ∨ (t.reread = some .suspended ∧ ¬ t.Starved)

/-- The iterations in which the loops agree with the rule: one that leaves `s` alone finds a status that ends the loop
    iff it is the first one, and a handler that answers true leaves no data iff a receive failed or returned none. -/
def RunTurn.LoopAgrees (first : Bool) (t : RunTurn) : Prop :=
  (t.PassesBy → (first = true ↔ ∃ st ∈ t.status, st.Ends)) ∧
    ∀ a ∈ t.answer, a.1 = true → (a.2 = [] ↔ t.Starved)

instance RunTurn.Starved.decidable (t : RunTurn) : Decidable t.Starved :=
  inferInstanceAs (Decidable (∃ r ∈ t.received, _))
instance RunTurn.EndsRightly.decidable (t : RunTurn) (kept : Bool) : Decidable (t.EndsRightly kept) :=
  inferInstanceAs (Decidable (_ ↔ _))
instance RunTurn.PassesBy.decidable (t : RunTurn) : Decidable t.PassesBy := inferInstanceAs (Decidable (_ ∨ _))
instance RunTurn.LoopAgrees.decidable (first : Bool) (t : RunTurn) : Decidable (t.LoopAgrees first) :=
  inferInstanceAs (Decidable (_ ∧ _))

/-- What an event of a loop means for its iterations. -/
def RunEvent.mark : RunEvent → Option (Mark RunTurn)
  | .iterate               => some (.start {})
  | .branch st             => some (.note fun t => { t with status := some st })
  | .receive _ r           => some (.note fun t => { t with received := t.received ++ [r] })
  | .reread st             => some (.note fun t => { t with reread := some st })
  | .didReceive _ yes left => some (.note fun t => { t with answer := some (yes, left) })
  | .completion            => some .leave
  | _                      => none

/-- The iterations of a trace. -/
def runTurns (tr : List RunEvent) : Iterations RunTurn := Iterations.read RunEvent.mark tr

/-! ## What a finished iteration is -/

/-- An iteration as it is when `handleData` is called. -/
inductive RunTurn.Calls : RunTurn → Prop
  | running : Calls { status := some .running }
  | suspended (r : Option (List UInt8)) (st : SXStatus) (hst : st.Delivers) :
      Calls { status := some .suspended, received := [r], reread := some st }

/-- One more receive. -/
def RunTurn.receive (t : RunTurn) (r : Option (List UInt8)) : RunTurn := { t with received := t.received ++ [r] }

/-- The ways through the body of a loop, with whether it goes on. `first` says whether `s` still has its initial
    value. -/
inductive RunTurn.Outcome (first : Bool) : RunTurn → Bool → Prop
  | passes (st : SXStatus) (hr : st ≠ .running) (hs : st ≠ .suspended) : Outcome first { status := some st } (!first)
  | failed (t : RunTurn) (ht : t.Calls) : Outcome first (t.receive none) false
  | answered (t : RunTurn) (ht : t.Calls) (data : List UInt8) (yes : Bool) (left : List UInt8) :
      Outcome first { t.receive (some data) with answer := some (yes, left) } (yes && decide (left ≠ []))
  | ended (r : Option (List UInt8)) (st : SXStatus) (hst : st.Ends) :
      Outcome first { status := some .suspended, received := [r], reread := some st } false
  | starved (r : Option (List UInt8)) (hr : r = none ∨ r = some []) :
      Outcome first { status := some .suspended, received := [r], reread := some .suspended } false
  | skipped (r : Option (List UInt8)) (hr : ¬ (r = none ∨ r = some [])) :
      Outcome first { status := some .suspended, received := [r], reread := some .suspended } (!first)

theorem SXStatus.Delivers.not_ends {st : SXStatus} (h : st.Delivers) : ¬ st.Ends := by
  rcases h with rfl | rfl <;> decide

theorem SXStatus.Delivers.ne_suspended {st : SXStatus} (h : st.Delivers) : st ≠ .suspended := by
  rcases h with rfl | rfl <;> decide

theorem not_ends_sxRunning : ¬ SXStatus.running.Ends := by decide
theorem not_ends_sxSuspended : ¬ SXStatus.suspended.Ends := by decide

/-- The status an iteration that calls `handleData` found, and the one it read again, end no loop, and it receives. -/
theorem RunTurn.Calls.goes_on {t : RunTurn} (h : t.Calls) :
    (¬ ∃ st ∈ t.status, st.Ends) ∧ (¬ ∃ st ∈ t.reread, st.Ends) ∧ t.reread ≠ some .suspended := by
  cases h with
  | running => simp [not_ends_sxRunning]
  | suspended r st hst => simp [not_ends_sxSuspended, hst.not_ends, hst.ne_suspended]

/-- Behind one more receive an iteration is not one that leaves `s` alone. -/
theorem RunTurn.Calls.not_passesBy {t : RunTurn} (h : t.Calls) (r : Option (List UInt8))
    (a : Option (Bool × List UInt8)) : ¬ ({ t.receive r with answer := a } : RunTurn).PassesBy := by
  rintro (hnone | ⟨hsusp, _⟩)
  · simp [RunTurn.receive] at hnone
  · exact h.goes_on.2.2 hsusp

/-- Where the handler was called, its answer and what it left of the data decide. -/
theorem RunTurn.ends_iff_of_answer {first yes : Bool} {left : List UInt8} {t : RunTurn}
    (hstatus : ¬ ∃ st ∈ t.status, st.Ends) (hreread : ¬ ∃ st ∈ t.reread, st.Ends) (hpass : ¬ t.PassesBy)
    (ha : t.answer = some (yes, left)) :
    t.EndsRightly (yes && decide (left ≠ [])) ↔ t.LoopAgrees first := by
  simp only [Option.mem_def] at hstatus hreread
  unfold RunTurn.EndsRightly RunTurn.LoopAgrees
  cases yes <;> simp [hstatus, hreread, hpass, ha]

/-- **The loops agree with the rule where it says so**, one way through the body at a time. -/
theorem RunTurn.Outcome.ends_iff {first kept : Bool} {t : RunTurn} (h : t.Outcome first kept) :
    t.EndsRightly kept ↔ t.LoopAgrees first := by
  cases h with
  | passes st hr hs =>
      unfold RunTurn.EndsRightly RunTurn.LoopAgrees RunTurn.PassesBy RunTurn.Starved
      cases first <;> simp
  | failed t ht =>
      have hstarved : (t.receive none).Starved := by simp [RunTurn.Starved, RunTurn.receive]
      have hanswer : t.answer = none := by cases ht <;> rfl
      constructor
      · intro _
        refine ⟨fun h => ?_, ?_⟩
        · rcases h with h | ⟨h, hnot⟩
          · simp [RunTurn.receive] at h
          · exact absurd hstarved hnot
        · intro a ha
          rw [RunTurn.receive, hanswer] at ha
          cases ha
      · intro _
        exact ⟨fun _ => .inr (.inr (.inl hstarved)), fun _ => rfl⟩
  | answered t ht data yes left =>
      obtain ⟨hstatus, hreread, _⟩ := ht.goes_on
      exact RunTurn.ends_iff_of_answer hstatus hreread (ht.not_passesBy (some data) (some (yes, left))) rfl
  | ended r st hst =>
      have hpass : st ≠ .suspended := by rcases hst with rfl | rfl <;> decide
      unfold RunTurn.EndsRightly RunTurn.LoopAgrees RunTurn.PassesBy
      simp [hst, hpass]
  | starved r hr =>
      have hstarved : RunTurn.Starved { status := some .suspended, received := [r], reread := some .suspended } :=
        ⟨r, List.mem_singleton_self r, hr⟩
      unfold RunTurn.EndsRightly RunTurn.LoopAgrees RunTurn.PassesBy
      simp [hstarved]
  | skipped r hr =>
      have hstarved :
          ¬ RunTurn.Starved { status := some .suspended, received := [r], reread := some .suspended } := by
        rintro ⟨r', hmem, h⟩
        rw [List.mem_singleton.mp hmem] at h
        exact hr h
      unfold RunTurn.EndsRightly RunTurn.LoopAgrees RunTurn.PassesBy
      cases first <;> simp [hstarved, not_ends_sxSuspended]

/-! ## Step and run -/

/-- What the current iteration is when a loop stands at a program point with the value `s`. At the points that `s`
    reaches from the iterations before, it is positive iff there are any. -/
def RunPc.TurnIs (s : Int) (first : Bool) (cur : Option RunTurn) : RunPc → Prop
  | .setStatus => cur = none ∧ first = true
  | .readOwner => (cur = none ∧ first = true ∧ s = 0) ∨ (0 < s ∧ ∃ t, cur = some t ∧ t.Outcome first true)
  | .takeStatus | .takeFlags | .branch => cur = some {} ∧ decide (0 < s) = !first
  | .receive => ∃ t : RunTurn, cur = some t ∧ t.Calls
  | .didReceive => ∃ (t : RunTurn) (data : List UInt8), cur = some (t.receive (some data)) ∧ t.Calls
  | .didFail => s = 0 ∧ ∃ t : RunTurn, cur = some (t.receive none) ∧ t.Calls
  | .setRunning | .readResumed | .tellResumed => cur = some { status := some .resumming } ∧ decide (0 < s) = !first
  | .readSuspended | .tellSuspended | .receiveSuspended =>
    cur = some { status := some .suspended } ∧ decide (0 < s) = !first
  | .didFailSuspended | .reread =>
    ∃ r, cur = some { status := some .suspended, received := [r] } ∧
      if r = none ∨ r = some [] then s = 0 else decide (0 < s) = !first
  | .willKill | .readKilled | .tellKilled =>
    ∃ st, st.Ends ∧ cur = some { status := some st } ∧ decide (0 < s) = !first
  | .test => ∃ t, cur = some t ∧ t.Outcome first (decide (0 < s))
  | .completion => ∃ t, cur = some t ∧ t.Outcome first false
  | .done => cur = none

/-- The finished iterations have an outcome, the current one is as far as the loop is. -/
structure RunExitInv (c : RunLoop) (w : Iterations RunTurn) : Prop where
  finished : Machine.EachEvent (fun before p => p.1.Outcome before.isEmpty p.2) w.finished
  current  : c.pc.TurnIs c.s w.finished.isEmpty w.current

section Step

variable {runner : Runner} {c c' : RunLoop} {tr es : List RunEvent} {w : Iterations RunTurn}

/-- An iteration begins. -/
theorem RunExitInv.iterate (hi : RunExitInv c w) (hpc : c.pc = .readOwner)
    (hpc' : c'.pc = .takeStatus ∨ c'.pc = .takeFlags ∨ c'.pc = .branch) (hs : c'.s = c.s) :
    RunExitInv c' (w.mark (.start {})) := by
  have hbegun {first : Bool} {cur : Option RunTurn} (h : cur = some {} ∧ decide (0 < c.s) = !first) :
      c'.pc.TurnIs c'.s first cur := by
    rw [hs]
    rcases hpc' with h' | h' | h' <;> rw [h'] <;> exact h
  have hcur := hi.current
  rw [hpc] at hcur
  rcases hcur with ⟨hnone, hfirst, hz⟩ | ⟨hpos, t, ht, hout⟩
  · rw [Iterations.mark_start_of_none hnone]
    refine ⟨hi.finished, hbegun ⟨rfl, ?_⟩⟩
    rw [hfirst, hz]
    rfl
  · rw [Iterations.mark_start_of_some ht]
    refine ⟨hi.finished.concat hout, hbegun ⟨rfl, ?_⟩⟩
    rw [decide_eq_true hpos]
    simp

/-- **The invariant survives every move.** -/
theorem runExitInv_move (hm : RunMove runner c c' es) (hi : RunExitInv c w) :
    RunExitInv c' ((es.filterMap RunEvent.mark).foldl Iterations.mark w) := by
  have hfin := hi.finished
  have hat {pc : RunPc} (hpc : c.pc = pc) : pc.TurnIs c.s w.finished.isEmpty w.current := hpc ▸ hi.current
  have hto {c' : RunLoop} {pc : RunPc} (hpc : c'.pc = pc) (hs : c'.s = c.s)
      (h : pc.TurnIs c.s w.finished.isEmpty w.current) : RunExitInv c' w := by
    refine ⟨hfin, ?_⟩
    rw [hpc, hs]
    exact h
  have htold {st : SXStatus} {es : List RunEvent} (h : ∀ e ∈ es, e = .statusDidChange st) :
      es.filterMap RunEvent.mark = [] := by
    apply List.filterMap_eq_nil_iff.mpr
    intro e he
    rw [h e he]
    rfl
  cases hm with
  | start hpc c' hpc' hs =>
      obtain ⟨hnone, hfirst⟩ := hat hpc
      refine ⟨hfin, ?_⟩
      rw [hpc']
      exact .inl ⟨hnone, hfirst, hs⟩
  | iterate hpc pc' hpc' => exact hi.iterate hpc hpc' rfl
  | takeOver hpc c' hpc' hs =>
      have hbegun : w.current = some {} ∧ decide (0 < c.s) = !w.finished.isEmpty := by
        rcases hpc with hpc | hpc <;> exact hat hpc
      rcases hpc' with hpc' | hpc' <;> exact hto hpc' hs hbegun
  -- the switch
  | branchRunning hpc _ => exact ⟨hfin, _, congrArg (Option.map _) (hat hpc).1, .running⟩
  | branchResumming hpc _ | branchSuspended hpc _ =>
      obtain ⟨hbegun, hleft⟩ := hat hpc
      exact ⟨hfin, congrArg (Option.map _) hbegun, hleft⟩
  | branchEnds hpc hst pc' hpc' =>
      obtain ⟨hbegun, hleft⟩ := hat hpc
      have hkill : ∃ st, st.Ends ∧ w.current.map (fun t => { t with status := some c.object.status }) =
          some { status := some st } ∧ decide (0 < c.s) = !w.finished.isEmpty :=
        ⟨_, hst, congrArg (Option.map _) hbegun, hleft⟩
      rcases hpc' with rfl | rfl <;> exact ⟨hfin, hkill⟩
  -- handleData
  | receiveFails hpc _ =>
      obtain ⟨t, ht, hcalls⟩ := hat hpc
      exact ⟨hfin, rfl, t, congrArg (Option.map _) ht, hcalls⟩
  | receive hpc _ data =>
      obtain ⟨t, ht, hcalls⟩ := hat hpc
      exact ⟨hfin, t, data, congrArg (Option.map _) ht, hcalls⟩
  | didReceive hpc yes left =>
      obtain ⟨t, data, ht, hcalls⟩ := hat hpc
      refine ⟨hfin, _, congrArg (Option.map _) ht, ?_⟩
      have hkept : decide (0 < if yes then (left.length : Int) else 0) = (yes && decide (left ≠ [])) := by
        cases yes
        · rfl
        · simp [List.length_pos_iff]
      dsimp only
      rw [hkept]
      exact .answered t hcalls data yes left
  | didFail hpc =>
      obtain ⟨hs, t, ht, hcalls⟩ := hat hpc
      refine ⟨hfin, _, ht, ?_⟩
      dsimp only
      rw [hs]
      exact .failed t hcalls
  -- the resumed branch
  | resume hpc c' hpc' hs =>
      have hbegun : w.current = some { status := some .resumming } ∧ decide (0 < c.s) = !w.finished.isEmpty := by
        rcases hpc with hpc | hpc <;> exact hat hpc
      rcases hpc' with hpc' | hpc' <;> exact hto hpc' hs hbegun
  | tellResumed hpc object es hes =>
      obtain ⟨ht, hleft⟩ := hat hpc
      rw [htold hes]
      refine ⟨hfin, _, ht, ?_⟩
      dsimp only
      rw [hleft]
      exact .passes .resumming (by decide) (by decide)
  -- the suspended branch
  | readSuspended hpc c' hpc' hs =>
      have hbegun := hat hpc
      rcases hpc' with hpc' | hpc' <;> exact hto hpc' hs hbegun
  | tellSuspended hpc object es hes =>
      have hbegun := hat hpc
      rw [htold hes]
      exact ⟨hfin, hbegun⟩
  | receiveSuspended hpc r pc' hpc' =>
      obtain ⟨ht, hleft⟩ := hat hpc
      have hgot : ∃ r', w.current.map (fun t => { t with received := t.received ++ [r] }) =
          some { status := some .suspended, received := [r'] } ∧
          if r' = none ∨ r' = some [] then (if r = none ∨ r = some [] then 0 else c.s) = 0
          else decide (0 < if r = none ∨ r = some [] then 0 else c.s) = !w.finished.isEmpty := by
        refine ⟨r, congrArg (Option.map _) ht, ?_⟩
        split
        · rfl
        · exact hleft
      rcases hpc' with rfl | rfl <;> exact ⟨hfin, hgot⟩
  | didFailSuspended hpc =>
      have hgot := hat hpc
      exact ⟨hfin, hgot⟩
  | rereadEnds hpc hst =>
      obtain ⟨r, ht, _⟩ := hat hpc
      exact ⟨hfin, _, congrArg (Option.map _) ht, .ended r _ hst⟩
  | rereadDelivers hpc hst =>
      obtain ⟨r, ht, _⟩ := hat hpc
      exact ⟨hfin, _, congrArg (Option.map _) ht, .suspended r _ hst⟩
  | rereadSuspended hpc _ =>
      obtain ⟨r, ht, hleft⟩ := hat hpc
      refine ⟨hfin, _, congrArg (Option.map _) ht, ?_⟩
      dsimp only
      split at hleft
      · next hr =>
          rw [hleft]
          exact .starved r hr
      · next hr =>
          rw [hleft]
          exact .skipped r hr
  -- the killed branch
  | willKill hpc es hes =>
      have hkill := hat hpc
      have hquiet : es.filterMap RunEvent.mark = [] := by rcases hes with rfl | rfl <;> rfl
      rw [hquiet]
      exact ⟨hfin, hkill⟩
  | readKilled hpc _ =>
      have hkill := hat hpc
      exact ⟨hfin, hkill⟩
  | tellKilled hpc object es hes =>
      obtain ⟨st, hst, ht, hleft⟩ := hat hpc
      rw [htold hes]
      refine ⟨hfin, _, ht, ?_⟩
      dsimp only
      rw [hleft]
      refine .passes st ?_ ?_
      · rcases hst with rfl | rfl <;> decide
      · rcases hst with rfl | rfl <;> decide
  -- the exit test
  | testKeeps hpc hs =>
      obtain ⟨t, ht, hout⟩ := hat hpc
      rw [decide_eq_true hs] at hout
      exact ⟨hfin, .inr ⟨hs, t, ht, hout⟩⟩
  | testEnds hpc hs =>
      obtain ⟨t, ht, hout⟩ := hat hpc
      rw [decide_eq_false hs] at hout
      exact ⟨hfin, t, ht, hout⟩
  | completion hpc =>
      obtain ⟨t, ht, hout⟩ := hat hpc
      refine ⟨?_, ?_⟩
      · show Machine.EachEvent _ (w.mark .leave).finished
        rw [Iterations.mark_leave_of_some ht]
        exact hfin.concat hout
      · rfl

/-! ## The calls of `objectWillKill` -/

/-- The iteration found a status that ends the loop. -/
def RunTurn.FindsEnd (t : RunTurn) : Bool := decide (∃ st ∈ t.status, st.Ends)

/-- How many of the iterations did. -/
def endsFound (tr : List RunEvent) : Nat := (runTurns tr).records.countP RunTurn.FindsEnd

/-- The events that neither begin nor end an iteration, give it no status, and are no call of `objectWillKill`. -/
def RunEvent.Quiet : RunEvent → Bool
  | .iterate | .branch _ | .willKill | .completion => false
  | _ => true

/-- At least as many iterations found a status that ends the loop as there are calls of `objectWillKill`, and every
    finished iteration was kept, except the one the loop was left after. -/
structure KillInv (c : RunLoop) (tr : List RunEvent) : Prop where
  kills : tr.count .willKill + (if c.pc = .willKill then 1 else 0) ≤ endsFound tr
  kept  : ∀ p ∈ if c.pc = .done then (runTurns tr).finished.dropLast else (runTurns tr).finished, p.2 = true

theorem turns_quiet (h : ∀ e ∈ es, e.Quiet = true) :
    (runTurns (tr ++ es)).finished = (runTurns tr).finished ∧ endsFound (tr ++ es) = endsFound tr := by
  apply Iterations.read_notes
  intro e he
  have hquiet := h e he
  cases e
  case iterate | branch | willKill | completion => cases hquiet
  case receive | didReceive | reread => exact .inr ⟨_, rfl, fun _ => rfl⟩
  all_goals exact .inl rfl

theorem count_willKill_quiet (h : ∀ e ∈ es, e.Quiet = true) : (tr ++ es).count .willKill = tr.count .willKill := by
  have hnone : es.count .willKill = 0 := by
    apply List.count_eq_zero_of_not_mem
    intro hmem
    cases h _ hmem
  rw [List.count_append, hnone, Nat.add_zero]

/-- A move without such an event keeps the invariant. -/
theorem KillInv.keep (hi : KillInv c tr) (hkill : c'.pc ≠ .willKill) (hdone : c.pc ≠ .done ∧ c'.pc ≠ .done)
    (hes : ∀ e ∈ es, e.Quiet = true) : KillInv c' (tr ++ es) := by
  have hfin : (runTurns (tr ++ es)).finished = (runTurns tr).finished := (turns_quiet hes).1
  have hends : endsFound (tr ++ es) = endsFound tr := (turns_quiet hes).2
  refine ⟨?_, ?_⟩
  · rw [if_neg hkill, count_willKill_quiet hes, hends]
    exact Nat.le_trans (Nat.le_add_right _ _) hi.kills
  · have hkept := hi.kept
    rw [if_neg hdone.1] at hkept
    rw [if_neg hdone.2, hfin]
    exact hkept

/-- A loop at its `switch` has given its iteration no status, and does so now. -/
theorem endsFound_branch {st : SXStatus} (h : (runTurns tr).current = some {}) :
    endsFound (tr ++ [.branch st]) = endsFound tr + if st.Ends then 1 else 0 := by
  unfold endsFound runTurns at *
  rw [Iterations.read_concat tr rfl]
  simp [Iterations.mark, Iterations.records, h, List.countP_append, List.countP_cons, RunTurn.FindsEnd]

/-- The `switch`, to any label. -/
theorem KillInv.branch (hi : KillInv c tr) (hpc : c.pc = .branch) (hbegun : (runTurns tr).current = some {})
    {pc' : RunPc} (hends : pc' = .willKill → c.object.status.Ends) (hdone : pc' ≠ .done) :
    KillInv { c with pc := pc' } (tr ++ [.branch c.object.status]) := by
  have hkills := hi.kills
  have hkept := hi.kept
  simp only [hpc, reduceCtorEq, if_false] at hkills hkept
  refine ⟨?_, ?_⟩
  · rw [endsFound_branch hbegun, List.count_append, List.count_singleton]
    dsimp only
    by_cases hpc' : pc' = .willKill
    · simpa [hpc', hends hpc'] using hkills
    · simp only [hpc', if_false]
      exact Nat.le_add_right_of_le hkills
  · rw [if_neg hdone]
    unfold runTurns at *
    rw [Iterations.read_concat tr rfl]
    exact hkept

/-- An iteration begins, and keeps the one before it. -/
theorem KillInv.iterate (hi : KillInv c tr) (hpc : c.pc = .readOwner) (hkill : c'.pc ≠ .willKill)
    (hdone : c'.pc ≠ .done) : KillInv c' (tr ++ [.iterate]) := by
  have hkills := hi.kills
  have hkept := hi.kept
  simp only [hpc, reduceCtorEq, if_false] at hkills hkept
  refine ⟨?_, ?_⟩
  · unfold endsFound runTurns at *
    rw [if_neg hkill, Iterations.read_concat tr rfl, Iterations.records_start, List.count_append,
      List.countP_append]
    exact Nat.le_add_right_of_le hkills
  · rw [if_neg hdone]
    unfold runTurns at *
    rw [Iterations.read_concat tr rfl]
    exact Iterations.kept_start hkept

/-- `objectWillKill` is called, or there is nobody to call: it was due, and it is nothing to the iterations. -/
theorem KillInv.kill (hi : KillInv c tr) (hpc : c.pc = .willKill) (hes : es = [.willKill] ∨ es = [])
    (hkill : c'.pc ≠ .willKill) (hdone : c'.pc ≠ .done) : KillInv c' (tr ++ es) := by
  have hkills := hi.kills
  have hkept := hi.kept
  simp only [hpc, if_true, reduceCtorEq, if_false] at hkills hkept
  have hsame : runTurns (tr ++ es) = runTurns tr := by
    apply Iterations.read_pass
    intro e he
    rcases hes with rfl | rfl
    · rw [List.mem_singleton.mp he]
      rfl
    · cases he
  have hcount : es.count .willKill ≤ 1 := by rcases hes with rfl | rfl <;> simp
  refine ⟨?_, ?_⟩
  · unfold endsFound at *
    rw [hsame, List.count_append, if_neg hkill]
    omega
  · rw [hsame, if_neg hdone]
    exact hkept

/-- The loop is left, and its last iteration is the one that need not have been kept. -/
theorem KillInv.leave (hi : KillInv c tr) (hpc : c.pc = .completion) (hpc' : c'.pc = .done) {t : RunTurn}
    (ht : (runTurns tr).current = some t) : KillInv c' (tr ++ [.completion]) := by
  have hkills := hi.kills
  have hkept := hi.kept
  simp only [hpc, reduceCtorEq, if_false] at hkills hkept
  refine ⟨?_, ?_⟩
  · unfold endsFound runTurns at *
    rw [Iterations.read_concat tr rfl, Iterations.records_leave, List.count_append, hpc']
    exact hkills
  · unfold runTurns at *
    rw [if_pos hpc', Iterations.read_concat tr rfl, Iterations.mark_leave_of_some ht, List.dropLast_concat]
    exact hkept

/-- **The invariant survives every move.** -/
theorem killInv_move (hm : RunMove runner c c' es) (hexit : RunExitInv c (runTurns tr)) (hi : KillInv c tr) :
    KillInv c' (tr ++ es) := by
  have hat {pc : RunPc} (hpc : c.pc = pc) : pc.TurnIs c.s (runTurns tr).finished.isEmpty (runTurns tr).current :=
    hpc ▸ hexit.current
  have htold {st : SXStatus} {es : List RunEvent} (h : ∀ e ∈ es, e = .statusDidChange st) :
      ∀ e ∈ es, e.Quiet = true := by
    intro e he
    rw [h e he]
    rfl
  cases hm with
  | start hpc c' hpc' hs => exact hi.keep (by simp [hpc']) (by simp [hpc, hpc']) (List.forall_mem_nil _)
  | iterate hpc pc' hpc' =>
      have hnot : pc' ≠ .willKill ∧ pc' ≠ .done := by rcases hpc' with rfl | rfl | rfl <;> simp
      exact hi.iterate hpc hnot.1 hnot.2
  | takeOver hpc c' hpc' hs =>
      apply hi.keep _ _ (List.forall_mem_nil _)
      · rcases hpc' with h | h <;> simp [h]
      · rcases hpc with h | h <;> rcases hpc' with h' | h' <;> simp [h, h']
  | branchRunning hpc hst | branchResumming hpc hst | branchSuspended hpc hst =>
      rw [← hst]
      exact hi.branch hpc (hat hpc).1 nofun nofun
  | branchEnds hpc hst pc' hpc' =>
      exact hi.branch hpc (hat hpc).1 (fun _ => hst) (by rcases hpc' with rfl | rfl <;> simp)
  | receiveFails hpc _ | receive hpc _ _ | didReceive hpc _ _ | didFail hpc | didFailSuspended hpc
  | rereadEnds hpc _ | rereadDelivers hpc _ | rereadSuspended hpc _ | readKilled hpc _ | testKeeps hpc _
  | testEnds hpc _ => exact hi.keep (by simp) (by simp [hpc]) (by simp [RunEvent.Quiet])
  | resume hpc c' hpc' hs =>
      apply hi.keep _ _ (List.forall_mem_nil _)
      · rcases hpc' with h | h <;> simp [h]
      · rcases hpc with h | h <;> rcases hpc' with h' | h' <;> simp [h, h']
  | readSuspended hpc c' hpc' hs =>
      apply hi.keep _ _ (List.forall_mem_nil _)
      · rcases hpc' with h | h <;> simp [h]
      · rcases hpc' with h' | h' <;> simp [hpc, h']
  | receiveSuspended hpc r pc' hpc' =>
      apply hi.keep _ _ (by simp [RunEvent.Quiet])
      · rcases hpc' with rfl | rfl <;> simp
      · rcases hpc' with rfl | rfl <;> simp [hpc]
  | tellResumed hpc _ _ hes | tellSuspended hpc _ _ hes | tellKilled hpc _ _ hes =>
      exact hi.keep (by simp) (by simp [hpc]) (htold hes)
  | willKill hpc es hes => exact hi.kill hpc hes nofun nofun
  | completion hpc =>
      obtain ⟨t, ht, _⟩ := hat hpc
      exact hi.leave hpc rfl ht

/-- Where the finished iterations follow the rule, `objectWillKill` has been called at most once: it would have been
    in an iteration that was not kept, or in the one under way. -/
theorem willKill_le_one (hexit : RunExitInv c (runTurns tr)) (hkill : KillInv c tr)
    (hright : ∀ p ∈ (runTurns tr).finished, p.1.EndsRightly p.2) : tr.count .willKill ≤ 1 := by
  have hfound : endsFound tr ≤ 1 := by
    have hkept := hkill.kept
    have hnone {l : List (RunTurn × Bool)} (hsub : ∀ p ∈ l, p ∈ (runTurns tr).finished) (hl : ∀ p ∈ l, p.2 = true) :
        (l.map (·.1)).countP RunTurn.FindsEnd = 0 := by
      rw [List.countP_map, List.countP_eq_zero]
      intro p hp hends
      have hleft := (hright p (hsub p hp)).mpr (.inl (of_decide_eq_true hends))
      rw [hl p hp] at hleft
      cases hleft
    unfold endsFound Iterations.records
    rw [List.countP_append]
    by_cases hdone : c.pc = .done
    · have hcur := hexit.current
      rw [hdone] at hcur
      have hnocur : (runTurns tr).current = none := hcur
      rw [if_pos hdone] at hkept
      rw [hnocur]
      rcases List.eq_nil_or_concat (runTurns tr).finished with hnil | ⟨kept, last, hlast⟩
      · simp [hnil]
      · rw [List.concat_eq_append] at hlast
        rw [hlast, List.dropLast_concat] at hkept
        have hsub (p : RunTurn × Bool) (hp : p ∈ kept) : p ∈ (runTurns tr).finished := by
          rw [hlast]
          exact List.mem_append_left _ hp
        rw [hlast, List.map_append, List.countP_append, hnone hsub hkept]
        have hle := List.countP_le_length (p := RunTurn.FindsEnd) (l := [last].map (·.1))
        simpa using hle
    · rw [if_neg hdone] at hkept
      rw [hnone (fun p hp => hp) hkept, Nat.zero_add]
      refine Nat.le_trans List.countP_le_length ?_
      cases (runTurns tr).current <;> simp
  exact Nat.le_trans (Nat.le_add_right _ _) (Nat.le_trans hkill.kills hfound)

/-- The iterations of a run, and the calls of `objectWillKill` in it. -/
theorem runExit_run {c₀ : RunLoop} {acts : List RunAct} (h0 : c₀.pc = .setStatus)
    (hrun : Machine.run (runSysStep runner) c₀ acts = some (c, tr)) : RunExitInv c (runTurns tr) ∧ KillInv c tr := by
  apply runLoop_invariant (I := fun c tr => RunExitInv c (runTurns tr) ∧ KillInv c tr) ?_ ?_ ?_ hrun
  · rintro c c' tr es ⟨hexit, hkill⟩ hm
    refine ⟨?_, killInv_move hm hexit hkill⟩
    unfold runTurns
    rw [Iterations.read_append]
    exact runExitInv_move hm hexit
  · rintro c tr st ⟨hexit, hkill⟩
    have hsame : runTurns (tr ++ [.setStatus st]) = runTurns tr :=
      Iterations.read_pass tr (List.forall_mem_singleton.mpr rfl)
    refine ⟨?_, ?_, ?_⟩
    · rw [hsame]
      exact ⟨hexit.finished, hexit.current⟩
    · unfold endsFound
      rw [hsame, List.count_append]
      exact hkill.kills
    · rw [hsame]
      exact hkill.kept
  · refine ⟨⟨Machine.eachEvent_nil _, ?_⟩, ?_, ?_⟩
    · rw [h0]
      exact ⟨rfl, rfl⟩
    · rw [h0]
      exact Nat.le_refl 0
    · rw [h0]
      exact List.forall_mem_nil _

/-- The finished iterations of a run follow the rule iff all of them are such that the loop agrees with it. -/
theorem ends_rightly_iff {c₀ : RunLoop} {acts : List RunAct} (h0 : c₀.pc = .setStatus)
    (hrun : Machine.run (runSysStep runner) c₀ acts = some (c, tr)) :
    (∀ p ∈ (runTurns tr).finished, p.1.EndsRightly p.2) ↔
      Machine.EachEvent (fun before p => p.1.LoopAgrees before.isEmpty) (runTurns tr).finished := by
  have hfin := (runExit_run h0 hrun).1.finished
  rw [← Machine.eachEvent_iff_forall]
  apply Machine.eachEvent_congr
  intro before p after heq
  exact (hfin before p after heq).ends_iff

end Step

/-! ## Results -/

/-- **The Swift loops end for the right reasons, where they do.** In every run of `SXQueue.start`, and of the loop
    `SXStreamClient.start` dispatches, whatever other parties do to the status and to the object above: the finished
    iterations all follow the rule, and a queue calls `objectWillKill` at most once, iff all iterations are such that
    the loops agree with the rule. -/
theorem run_loops_exit_iff (queue client : RunObject) (connected : Bool) (initialPayload : Option (List UInt8))
    (acts : List RunAct) :
    (∀ c tr, Machine.run (runSysStep .queue) (sxQueueStart queue) acts = some (c, tr) →
      ((∀ p ∈ (runTurns tr).finished, p.1.EndsRightly p.2) ∧ tr.count .willKill ≤ 1 ↔
        Machine.EachEvent (fun before p => p.1.LoopAgrees before.isEmpty) (runTurns tr).finished)) ∧
    ∀ es c₀ c tr, sxStreamClientStart connected initialPayload client = (es, some c₀) →
      Machine.run (runSysStep .client) c₀ acts = some (c, tr) →
      ((∀ p ∈ (runTurns tr).finished, p.1.EndsRightly p.2) ↔
        Machine.EachEvent (fun before p => p.1.LoopAgrees before.isEmpty) (runTurns tr).finished) := by
  refine ⟨?_, ?_⟩
  · intro c tr hrun
    have h0 : (sxQueueStart queue).pc = .setStatus := rfl
    rw [← ends_rightly_iff h0 hrun]
    constructor
    · rintro ⟨hright, _⟩
      exact hright
    · intro hright
      obtain ⟨hexit, hkill⟩ := runExit_run h0 hrun
      exact ⟨hright, willKill_le_one hexit hkill hright⟩
  · intro es c₀ c tr hstart hrun
    have h0 : c₀.pc = .setStatus := by
      unfold sxStreamClientStart at hstart
      split at hstart
      · cases hstart
        rfl
      · cases hstart
    exact ends_rightly_iff h0 hrun

/-- Statements that get nothing from outside, under a server or an owner with a status. -/
def runTicks (st : SXStatus) (n : Nat) : List RunAct := List.replicate n (.loop (some { status := st }) .tick)

/-- A receive, and a call of the data handler. -/
def receives (r : Option (List UInt8)) : RunAct := .loop (some { status := .running }) (.receive r)
def answers (yes : Bool) (left : List UInt8) : RunAct := .loop (some { status := .running }) (.proceed yes left)

/-- One message to a queue, from its first statement to the exit test, and the end of the stream. -/
def queueMessage : List RunAct :=
  runTicks .running 4 ++ [receives (some [5]), answers true [5]] ++ runTicks .running 1
def queueClosed : List RunAct :=
  runTicks .running 3 ++ [receives (some []), answers true []] ++ runTicks .running 2

/-- One message to a client, whose handler answers false. -/
def clientRefuses : List RunAct :=
  runTicks .running 3 ++ [receives (some [5]), answers false [5]] ++ runTicks .running 2

/-- A queue that gets a message before the stream ends, and a client whose handler refuses its first message. -/
theorem run_loops_exit_iff_messages :
    (∃ c tr, Machine.run (runSysStep .queue) (sxQueueStart {}) (queueMessage ++ queueClosed) = some (c, tr) ∧
      (∀ p ∈ (runTurns tr).finished, p.1.EndsRightly p.2) ∧ tr.count .willKill ≤ 1) ∧
    ∃ c₀ c tr, sxStreamClientStart true none {} = ([], some c₀) ∧
      Machine.run (runSysStep .client) c₀ clientRefuses = some (c, tr) ∧
      ∀ p ∈ (runTurns tr).finished, p.1.EndsRightly p.2 := by
  have hqueue : (Machine.run (runSysStep .queue) (sxQueueStart {}) (queueMessage ++ queueClosed)).map
      (fun p => (runTurns p.2).finished) =
      some [(⟨some .running, [some [5]], none, some (true, [5])⟩, true),
        (⟨some .running, [some []], none, some (true, [])⟩, false)] := by decide +kernel
  have hclient : (Machine.run (runSysStep .client) { object := {} } clientRefuses).map
      (fun p => (runTurns p.2).finished) =
      some [(⟨some .running, [some [5]], none, some (false, [5])⟩, false)] := by decide +kernel
  obtain ⟨⟨c, tr⟩, hrun, hfin⟩ := Option.map_eq_some_iff.mp hqueue
  obtain ⟨⟨c', tr'⟩, hrun', hfin'⟩ := Option.map_eq_some_iff.mp hclient
  dsimp only at hfin hfin'
  refine ⟨⟨c, tr, hrun, ((run_loops_exit_iff {} {} true none _).1 c tr hrun).mpr ?_⟩, { object := {} }, c', tr', rfl,
    hrun', ((run_loops_exit_iff {} {} true none _).2 [] _ c' tr' rfl hrun').mpr ?_⟩
  · rw [hfin]
    decide
  · rw [hfin']
    decide

/-- A queue whose server is suspended before the first message comes. -/
def queueSuspended : List RunAct := runTicks .suspended 7 ++ [receives (some [5])] ++ runTicks .suspended 3

/-- A queue whose server is told to terminate behind the first message, for two iterations. -/
def queueTerminated : List RunAct := queueMessage ++ runTicks .shouldTerminate 17

/-- A client suspended before its first message, whose receive fails before it is running again. -/
def clientInterrupted : List RunAct :=
  runTicks .running 2 ++ [.setStatus .suspended] ++ runTicks .running 3 ++ [receives none, .setStatus .running] ++
    runTicks .running 1 ++ [receives (some [5]), answers true [5]] ++ runTicks .running 2

/-- A client whose handler takes the data out of its first message. -/
def clientConsumes : List RunAct :=
  runTicks .running 3 ++ [receives (some [5]), answers true []] ++ runTicks .running 2

/-- An iteration of a run, found among the finished ones. -/
theorem turn_of_run {runner : Runner} {c₀ : RunLoop} {acts : List RunAct} {fin : List (RunTurn × Bool)}
    {p : RunTurn × Bool}
    (h : (Machine.run (runSysStep runner) c₀ acts).map (fun q => (runTurns q.2).finished) = some fin) (hp : p ∈ fin) :
    ∃ c tr, Machine.run (runSysStep runner) c₀ acts = some (c, tr) ∧ p ∈ (runTurns tr).finished := by
  obtain ⟨⟨c, tr⟩, hrun, hfin⟩ := Option.map_eq_some_iff.mp h
  refine ⟨c, tr, hrun, ?_⟩
  dsimp only at hfin
  rwa [hfin]

/-- **The wrong reasons.** A queue whose first iteration finds it suspended ends with the first message; one told to
    terminate later goes on and calls `objectWillKill` twice. A client goes on behind a failed receive if the next one
    brings data, and ends if its handler answers true but leaves no data. -/
theorem run_loops_exit_defects :
    sxStreamClientStart true none {} = ([], some { object := {} }) ∧
    (∃ c tr p, Machine.run (runSysStep .queue) (sxQueueStart {}) queueSuspended = some (c, tr) ∧
      p ∈ (runTurns tr).finished ∧ p.2 = false ∧ ¬ p.1.EndsRightly p.2) ∧
    (∃ c tr, Machine.run (runSysStep .queue) (sxQueueStart {}) queueTerminated = some (c, tr) ∧
      tr.count .willKill = 2) ∧
    (∃ c tr p, Machine.run (runSysStep .client) { object := {} } clientInterrupted = some (c, tr) ∧
      p ∈ (runTurns tr).finished ∧ p.2 = true ∧ ¬ p.1.EndsRightly p.2) ∧
    ∃ c tr p, Machine.run (runSysStep .client) { object := {} } clientConsumes = some (c, tr) ∧
      p ∈ (runTurns tr).finished ∧ p.2 = false ∧ ¬ p.1.EndsRightly p.2 := by
  have hsuspended : (Machine.run (runSysStep .queue) (sxQueueStart {}) queueSuspended).map
      (fun q => (runTurns q.2).finished) =
      some [(⟨some .suspended, [some [5]], some .suspended, none⟩, false)] := by decide +kernel
  have hterminated : (Machine.run (runSysStep .queue) (sxQueueStart {}) queueTerminated).map
      (fun q => q.2.count .willKill) = some 2 := by decide +kernel
  have hinterrupted : (Machine.run (runSysStep .client) { object := {} } clientInterrupted).map
      (fun q => (runTurns q.2).finished) =
      some [(⟨some .suspended, [none, some [5]], some .running, some (true, [5])⟩, true)] := by decide +kernel
  have hconsumes : (Machine.run (runSysStep .client) { object := {} } clientConsumes).map
      (fun q => (runTurns q.2).finished) =
      some [(⟨some .running, [some [5]], none, some (true, [])⟩, false)] := by decide +kernel
  obtain ⟨c₁, tr₁, hrun₁, hmem₁⟩ := turn_of_run hsuspended (List.mem_singleton_self _)
  obtain ⟨⟨c₂, tr₂⟩, hrun₂, hcount⟩ := Option.map_eq_some_iff.mp hterminated
  obtain ⟨c₃, tr₃, hrun₃, hmem₃⟩ := turn_of_run hinterrupted (List.mem_singleton_self _)
  obtain ⟨c₄, tr₄, hrun₄, hmem₄⟩ := turn_of_run hconsumes (List.mem_singleton_self _)
  refine ⟨rfl, ⟨c₁, tr₁, _, hrun₁, hmem₁, rfl, ?_⟩, ⟨c₂, tr₂, hrun₂, hcount⟩,
    ⟨c₃, tr₃, _, hrun₃, hmem₃, rfl, ?_⟩, ⟨c₄, tr₄, _, hrun₄, hmem₄, rfl, ?_⟩⟩ <;> decide

end SpartanX
