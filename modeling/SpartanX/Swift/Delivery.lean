import SpartanX.Swift.RunLoop

/-!
# `Swift.Delivery` — what the Swift loops do with what they receive

Both loops receive in two places. `handleData` hands what it received to the data handler; the suspended branch drops
it, looks at the status again, and lets `handleData` receive once more if the object is no longer suspended. So the
handler gets what `handleData` received, in order and each once, and nothing of what was received in suspension, not
even the message whose receive a resume request interrupts. A queue reports every receive that throws; a client keeps
quiet about those in suspension (`run_loops_deliver`).

## Contents
- **Receipts.** `RunReading`, `reading`; `handed`, `RunLoop.pending`, `Runner.Reports`.
- **Step and run.** `RunStreamInv`, `runStream_step`, `run_loops_deliver`.
-/

namespace SpartanX

open CInt

/-! ## Receipts -/

/-- The receives of a trace: whether they were made in the suspended branch, and what they returned. `suspended` tells
    whether the loop is in that branch. -/
structure RunReading where
  suspended : Bool := false
  receipts  : List (Bool × Option (List UInt8)) := []
  deriving DecidableEq, Repr

/-- The receives after one more event: a `switch` enters a branch, and reading the status again leaves the suspended
    one for `handleData` or for the test. -/
def RunReading.note (w : RunReading) : RunEvent → RunReading
  | .branch st   => { w with suspended := st = .suspended }
  | .reread _    => { w with suspended := false }
  | .receive _ r => { w with receipts := w.receipts ++ [(w.suspended, r)] }
  | _            => w

/-- The receives of a trace, in order. -/
def reading (tr : List RunEvent) : RunReading := tr.foldl RunReading.note {}

/-- The data that `handleData` received. -/
def RunReading.taken (w : RunReading) : List (List UInt8) :=
  w.receipts.filterMap fun r => if r.1 then none else r.2

/-- The data given to the handler with an event. -/
def RunEvent.handed : RunEvent → Option (List UInt8)
  | .didReceive data _ _ => some data
  | _                    => none

/-- The data the handler has been given, in order. -/
def handed (tr : List RunEvent) : List (List UInt8) := tr.filterMap RunEvent.handed

/-- The data the loop is about to give to the handler. -/
def RunLoop.pending (c : RunLoop) : List (List UInt8) := if c.pc = .didReceive then [c.data] else []

/-- Whether the loop is about to report a failed receive. -/
def RunLoop.failing (c : RunLoop) : Nat := if c.pc = .didFail ∨ c.pc = .didFailSuspended then 1 else 0

/-- The receives a loop reports as failed: a client none of the suspended branch. -/
def Runner.Reports (runner : Runner) (r : Bool × Option (List UInt8)) : Bool :=
  r.2 = none && (runner = .queue || !r.1)

theorem reading_append (tr es : List RunEvent) : reading (tr ++ es) = es.foldl RunReading.note (reading tr) :=
  List.foldl_append

theorem handed_append (tr es : List RunEvent) : handed (tr ++ es) = handed tr ++ handed es := List.filterMap_append

/-! ## Step and run -/

/-- The statements of the suspended branch up to its receive. -/
def RunPc.InSuspension : RunPc → Bool
  | .readSuspended | .tellSuspended | .receiveSuspended => true
  | _ => false

/-- The statements at which nothing has been received that is still to be handed over or reported, and none is about
    to be. -/
def RunPc.Plain : RunPc → Bool
  | .receive | .didReceive | .didFail | .didFailSuspended => false
  | pc => !pc.InSuspension

/-- The invariant: the loop is in the branch the trace says, the handler has been given what `handleData` received,
    and what was to be reported as failed has been. -/
structure RunStreamInv (runner : Runner) (c : RunLoop) (tr : List RunEvent) : Prop where
  inside   : c.pc.InSuspension = true → (reading tr).suspended = true
  outside  : c.pc = .receive → (reading tr).suspended = false
  handed   : handed tr ++ c.pending = (reading tr).taken
  reported : tr.count .didFail + c.failing = (reading tr).receipts.countP runner.Reports

section Step

variable {runner : Runner} {c c' : RunLoop} {tr es : List RunEvent}

/-- An event that neither receives nor hands over nor reports, and is of no branch. -/
def RunEvent.Neutral (e : RunEvent) : Prop := (∀ w, RunReading.note w e = w) ∧ e.handed = none ∧ e ≠ .didFail

/-- Neutral events. -/
theorem RunStreamInv.pass (hi : RunStreamInv runner c tr) (hes : ∀ e ∈ es, e.Neutral)
    (hinside : c'.pc.InSuspension = true → c.pc.InSuspension = true) (houtside : c'.pc = .receive → c.pc = .receive)
    (hpending : c'.pending = c.pending) (hfailing : c'.failing = c.failing) :
    RunStreamInv runner c' (tr ++ es) := by
  have hreading : reading (tr ++ es) = reading tr := by
    rw [reading_append]
    exact Machine.foldl_unchanged fun e he => (hes e he).1 _
  have hhanded : SpartanX.handed es = [] := List.filterMap_eq_nil_iff.mpr fun e he => (hes e he).2.1
  have hcount : es.count .didFail = 0 := List.count_eq_zero.mpr fun h => (hes _ h).2.2 rfl
  refine ⟨?_, ?_, ?_, ?_⟩
  · rw [hreading]
    exact fun h => hi.inside (hinside h)
  · rw [hreading]
    exact fun h => hi.outside (houtside h)
  · rw [hreading, handed_append, hhanded, List.append_nil, hpending]
    exact hi.handed
  · rw [hreading, List.count_append, hcount, hfailing]
    exact hi.reported

/-- One event that says which branch the loop is in. -/
theorem RunStreamInv.enter {e : RunEvent} (suspended : Bool) (hi : RunStreamInv runner c tr)
    (he : ∀ w, RunReading.note w e = { w with suspended := suspended }) (hother : e.handed = none ∧ e ≠ .didFail)
    (hinside : c'.pc.InSuspension = true → suspended = true) (houtside : c'.pc = .receive → suspended = false)
    (hpending : c'.pending = c.pending) (hfailing : c'.failing = c.failing) :
    RunStreamInv runner c' (tr ++ [e]) := by
  have hreading : reading (tr ++ [e]) = { reading tr with suspended := suspended } := by
    rw [reading_append]
    exact he _
  have hhanded : SpartanX.handed [e] = [] := by simp [SpartanX.handed, hother.1]
  have hcount : [e].count .didFail = 0 := List.count_eq_zero.mpr (by simpa using hother.2.symm)
  refine ⟨?_, ?_, ?_, ?_⟩
  · rw [hreading]
    exact hinside
  · rw [hreading]
    exact houtside
  · rw [hreading, handed_append, hhanded, List.append_nil, hpending]
    exact hi.handed
  · rw [hreading, List.count_append, hcount, hfailing]
    exact hi.reported

/-- A receive. -/
theorem RunStreamInv.receive {flags : IntT} {r : Option (List UInt8)} (hi : RunStreamInv runner c tr)
    (hat : c.pending = [] ∧ c.failing = 0) (hinside : c'.pc.InSuspension = false) (houtside : c'.pc ≠ .receive)
    (hpending : c'.pending = (if (reading tr).suspended then none else r).toList)
    (hfailing : c'.failing = if runner.Reports ((reading tr).suspended, r) then 1 else 0) :
    RunStreamInv runner c' (tr ++ [.receive flags r]) := by
  have hreading : reading (tr ++ [.receive flags r]) =
      { reading tr with receipts := (reading tr).receipts ++ [((reading tr).suspended, r)] } := by
    rw [reading_append]
    rfl
  have hhanded := hi.handed
  have hreported := hi.reported
  rw [hat.1, List.append_nil] at hhanded
  rw [hat.2, Nat.add_zero] at hreported
  refine ⟨?_, fun h => absurd h houtside, ?_, ?_⟩
  · rw [hinside]
    exact nofun
  · have hnone : SpartanX.handed [RunEvent.receive flags r] = [] := rfl
    rw [hreading, handed_append, hnone, List.append_nil, hhanded, hpending]
    unfold RunReading.taken
    rw [List.filterMap_append]
    cases (reading tr).suspended <;> cases r <;> rfl
  · have hnone : [RunEvent.receive flags r].count .didFail = 0 := rfl
    rw [hreading, List.count_append, hnone, Nat.add_zero, hreported, hfailing, List.countP_append]
    simp

/-- What a plain statement says of the loop. -/
theorem RunPc.Plain.spec (h : c.pc.Plain = true) :
    c.pc.InSuspension = false ∧ c.pc ≠ .receive ∧ c.pending = [] ∧ c.failing = 0 := by
  unfold RunLoop.pending RunLoop.failing
  cases hpc : c.pc <;> rw [hpc] at h <;> first | (simp [RunPc.InSuspension]; done) | cases h

/-- Neutral events between plain statements. -/
theorem RunStreamInv.plain (hi : RunStreamInv runner c tr) (hpc : c.pc.Plain = true) (hpc' : c'.pc.Plain = true)
    (hes : ∀ e ∈ es, e.Neutral) : RunStreamInv runner c' (tr ++ es) := by
  obtain ⟨_, _, hpending, hfailing⟩ := RunPc.Plain.spec hpc
  obtain ⟨hinside, houtside, hpending', hfailing'⟩ := RunPc.Plain.spec hpc'
  exact hi.pass hes (fun h => absurd (hinside ▸ h) (by simp)) (fun h => absurd h houtside)
    (hpending'.trans hpending.symm) (hfailing'.trans hfailing.symm)

/-- The handler gets the data. -/
theorem RunStreamInv.hand {yes : Bool} {left : List UInt8} (hi : RunStreamInv runner c tr) (hpc : c.pc = .didReceive)
    (hpc' : c'.pc.Plain = true) : RunStreamInv runner c' (tr ++ [.didReceive c.data yes left]) := by
  obtain ⟨hinside, houtside, hpending, hfailing⟩ := RunPc.Plain.spec hpc'
  have hreading : reading (tr ++ [.didReceive c.data yes left]) = reading tr := by
    rw [reading_append]
    rfl
  have hhanded := hi.handed
  have hreported := hi.reported
  rw [RunLoop.pending, if_pos hpc] at hhanded
  rw [RunLoop.failing, if_neg (by simp [hpc])] at hreported
  refine ⟨fun h => absurd (hinside ▸ h) (by simp), fun h => absurd h houtside, ?_, ?_⟩
  · rw [hreading, handed_append, hpending, List.append_nil]
    exact hhanded
  · rw [hreading, List.count_append, hfailing]
    exact hreported

/-- A failed receive is reported. -/
theorem RunStreamInv.report (hi : RunStreamInv runner c tr) (hpc : c.pc = .didFail ∨ c.pc = .didFailSuspended)
    (hpc' : c'.pc.Plain = true) : RunStreamInv runner c' (tr ++ [.didFail]) := by
  obtain ⟨hinside, houtside, hpending, hfailing⟩ := RunPc.Plain.spec hpc'
  have hreading : reading (tr ++ [.didFail]) = reading tr := by
    rw [reading_append]
    rfl
  have hhanded := hi.handed
  have hreported := hi.reported
  rw [RunLoop.pending, if_neg (by rcases hpc with h | h <;> simp [h])] at hhanded
  rw [RunLoop.failing, if_pos hpc] at hreported
  refine ⟨fun h => absurd (hinside ▸ h) (by simp), fun h => absurd h houtside, ?_, ?_⟩
  · rw [hreading, handed_append, hpending, List.append_nil, ← hhanded, List.append_nil]
    exact List.append_nil _
  · rw [hreading, List.count_append, hfailing]
    exact hreported

/-- Where a suspended receive leads. -/
theorem runStep_receiveSuspended {owner : Option Controller} {i : RunInput} {r : Option (List UInt8)}
    (hpc : c.pc = .receiveSuspended) (hs : runStep runner owner c i = some (c', [.receive 0 r])) :
    c'.pc = if r = none ∧ runner = .queue then .didFailSuspended else .reread := by
  cases i with
  | tick | proceed yes left => simp [runStep, hpc] at hs
  | receive r' =>
      simp only [runStep, hpc] at hs
      split at hs
      · simp only [Option.some.injEq, Prod.mk.injEq, List.cons.injEq, RunEvent.receive.injEq, true_and,
          and_true] at hs
        obtain ⟨rfl, rfl⟩ := hs
        rfl
      · cases hs

/-- **The invariant survives every step of a loop among other parties.** -/
theorem runStream_step {a : RunAct} (hi : RunStreamInv runner c tr) (hs : runSysStep runner c a = some (c', es)) :
    RunStreamInv runner c' (tr ++ es) := by
  have htold {st : SXStatus} {es : List RunEvent} (h : ∀ e ∈ es, e = .statusDidChange st) : ∀ e ∈ es, e.Neutral := by
    intro e he
    rw [h e he]
    exact ⟨fun _ => rfl, rfl, by simp⟩
  have hnone : ∀ e ∈ ([] : List RunEvent), e.Neutral := fun e he => (List.not_mem_nil he).elim
  have hplain {pc : RunPc} (hpc : c.pc = pc) (h : pc.Plain = true) : c.pc.Plain = true := hpc ▸ h
  cases a with
  | setStatus st =>
      cases hs
      exact hi.pass (by simp [RunEvent.Neutral, RunReading.note, RunEvent.handed]) id id rfl rfl
  | loop owner i =>
      have hm := runStep_move hs
      cases hm with
      | start hpc c' hpc' => exact hi.plain (hplain hpc rfl) (by rw [hpc']; rfl) hnone
      | iterate hpc pc' hpc' =>
          refine hi.plain (hplain hpc rfl) (by rcases hpc' with rfl | rfl | rfl <;> rfl) ?_
          simp [RunEvent.Neutral, RunReading.note, RunEvent.handed]
      | takeOver hpc c' hpc' =>
          refine hi.plain ?_ (by rcases hpc' with h | h <;> rw [h] <;> rfl) hnone
          rcases hpc with hpc | hpc <;> exact hplain hpc rfl
      -- the switch
      | branchRunning hpc =>
          exact hi.enter false (fun _ => rfl) ⟨rfl, by simp⟩ nofun (fun _ => rfl)
            (by simp [RunLoop.pending, hpc]) (by simp [RunLoop.failing, hpc])
      | branchResumming hpc =>
          exact hi.enter false (fun _ => rfl) ⟨rfl, by simp⟩ nofun nofun
            (by simp [RunLoop.pending, hpc]) (by simp [RunLoop.failing, hpc])
      | branchSuspended hpc =>
          exact hi.enter true (fun _ => rfl) ⟨rfl, by simp⟩ (fun _ => rfl) nofun
            (by simp [RunLoop.pending, hpc]) (by simp [RunLoop.failing, hpc])
      | branchEnds hpc hst pc' hpc' =>
          refine hi.enter (decide (c.object.status = .suspended)) (fun _ => rfl) ⟨rfl, by simp⟩ ?_ ?_ ?_ ?_ <;>
            rcases hpc' with rfl | rfl <;> simp [RunPc.InSuspension, RunLoop.pending, RunLoop.failing, hpc]
      -- handleData
      | receiveFails hpc flags =>
          have hout := hi.outside hpc
          refine hi.receive (by simp [RunLoop.pending, RunLoop.failing, hpc]) rfl nofun ?_ ?_ <;>
            simp [hout, RunLoop.pending, RunLoop.failing, Runner.Reports]
      | receive hpc flags data =>
          have hout := hi.outside hpc
          refine hi.receive (by simp [RunLoop.pending, RunLoop.failing, hpc]) rfl nofun ?_ ?_ <;>
            simp [hout, RunLoop.pending, RunLoop.failing, Runner.Reports]
      | didReceive hpc yes left => exact hi.hand hpc rfl
      | didFail hpc => exact hi.report (.inl hpc) rfl
      -- the resumed branch
      | resume hpc c' hpc' =>
          refine hi.plain ?_ (by rcases hpc' with h | h <;> rw [h] <;> rfl) hnone
          rcases hpc with hpc | hpc <;> exact hplain hpc rfl
      | tellResumed hpc object es hes => exact hi.plain (hplain hpc rfl) rfl (htold hes)
      -- the suspended branch
      | readSuspended hpc c' hpc' =>
          refine hi.pass hnone (by simp [hpc, RunPc.InSuspension]) ?_ ?_ ?_ <;>
            rcases hpc' with h | h <;> simp [RunLoop.pending, RunLoop.failing, hpc, h]
      | tellSuspended hpc object es hes =>
          exact hi.pass (htold hes) (by simp [hpc, RunPc.InSuspension]) nofun
            (by simp [RunLoop.pending, hpc]) (by simp [RunLoop.failing, hpc])
      | receiveSuspended hpc r pc' hpc' =>
          have hin := hi.inside (by rw [hpc]; rfl)
          have hto := runStep_receiveSuspended hpc hs
          dsimp only at hto
          refine hi.receive (by simp [RunLoop.pending, RunLoop.failing, hpc]) ?_ ?_ ?_ ?_
          · rcases hpc' with rfl | rfl <;> rfl
          · rcases hpc' with rfl | rfl <;> nofun
          · rcases hpc' with rfl | rfl <;> simp [hin, RunLoop.pending]
          · rw [hin]
            unfold RunLoop.failing Runner.Reports
            rw [hto]
            by_cases hrep : r = none ∧ runner = .queue <;> simp [hrep]
      | didFailSuspended hpc => exact hi.report (.inr hpc) rfl
      | rereadEnds hpc hst =>
          exact hi.enter false (fun _ => rfl) ⟨rfl, by simp⟩ nofun nofun
            (by simp [RunLoop.pending, hpc]) (by simp [RunLoop.failing, hpc])
      | rereadDelivers hpc hst =>
          exact hi.enter false (fun _ => rfl) ⟨rfl, by simp⟩ nofun (fun _ => rfl)
            (by simp [RunLoop.pending, hpc]) (by simp [RunLoop.failing, hpc])
      | rereadSuspended hpc hst =>
          exact hi.enter false (fun _ => rfl) ⟨rfl, by simp⟩ nofun nofun
            (by simp [RunLoop.pending, hpc]) (by simp [RunLoop.failing, hpc])
      -- the end
      | willKill hpc es hes =>
          refine hi.plain (hplain hpc rfl) rfl ?_
          rcases hes with rfl | rfl <;> simp [RunEvent.Neutral, RunReading.note, RunEvent.handed]
      | readKilled hpc told => exact hi.plain (hplain hpc rfl) rfl hnone
      | tellKilled hpc object es hes => exact hi.plain (hplain hpc rfl) rfl (htold hes)
      | testKeeps hpc hs => exact hi.plain (hplain hpc rfl) rfl hnone
      | testEnds hpc hs => exact hi.plain (hplain hpc rfl) rfl hnone
      | completion hpc =>
          exact hi.plain (hplain hpc rfl) rfl (by simp [RunEvent.Neutral, RunReading.note, RunEvent.handed])

end Step

/-- **What the Swift loops deliver.** In every run of `SXQueue.start`, and of the loop that `SXStreamClient.start`
    dispatches: what the data handler has been given, and what it is about to be given, is what `handleData` received,
    in order; nothing that was received in the suspended branch is among it; and the failed receives that have been
    reported, with one that is about to be, are all of them under a queue and those of `handleData` under a client. -/
theorem run_loops_deliver {runner : Runner} {object : RunObject} {acts : List RunAct} {c : RunLoop}
    {tr : List RunEvent} (hrun : Machine.run (runSysStep runner) { object := object } acts = some (c, tr)) :
    handed tr ++ c.pending = (reading tr).taken ∧
      tr.count .didFail + c.failing = (reading tr).receipts.countP runner.Reports := by
  have h0 : RunStreamInv runner { object := object } [] := ⟨nofun, nofun, rfl, rfl⟩
  have hstep (c₁ : RunLoop) (tr₁ : List RunEvent) (a : RunAct) (c₂ : RunLoop) (es : List RunEvent)
      (hi : RunStreamInv runner c₁ tr₁) (hs : runSysStep runner c₁ a = some (c₂, es)) :
      RunStreamInv runner c₂ (tr₁ ++ es) := runStream_step hi hs
  have hi : RunStreamInv runner c tr := Machine.run_invariant hstep h0 hrun
  exact ⟨hi.handed, hi.reported⟩

/-- A queue that hands over its first message, is suspended, is resumed while it receives the second, and fails to
    receive another. -/
def interruptedQueue : List RunAct :=
  List.replicate 4 (RunAct.loop (some { status := .running }) .tick) ++
  [RunAct.loop (some { status := .running }) (.receive (some [1, 2])),
    .loop (some { status := .running }) (.proceed true [1]), .setStatus .suspended] ++
  List.replicate 6 (RunAct.loop (some { status := .running }) .tick) ++
  [RunAct.loop (some { status := .running }) (.receive (some [3])), .setStatus .running,
    .loop (some { status := .running }) .tick, .loop (some { status := .running }) (.receive none)]

/-- The second message is not handed over, and the failure is about to be reported. -/
theorem run_loops_deliver_interruptedQueue :
    ∃ c tr, Machine.run (runSysStep .queue) { object := {} } interruptedQueue = some (c, tr) ∧
      handed tr ++ c.pending = [[1, 2]] ∧ tr.count .didFail + c.failing = 1 := by
  have hrun : Machine.run (runSysStep .queue) { object := {} } interruptedQueue = some (_, _) := rfl
  have hreading := run_loops_deliver hrun
  exact ⟨_, _, hrun, hreading.1.trans (by decide +kernel), hreading.2.trans (by decide +kernel)⟩

end SpartanX
