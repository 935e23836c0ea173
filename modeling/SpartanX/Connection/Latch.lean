import SpartanX.Connection.Block

/-!
# `Connection.Latch` — when `willSuspend` is called

A connection block calls `willSuspend` when its `switch` finds `suspend` and its local `suspended` is not set;
it sets the local there and clears it nowhere. So of all iterations executed in the suspend branch only the very
first one makes the call (`Latched`), and each stretch of them begins with exactly one call iff there is
only one stretch (`willSuspend_once_iff`).

## Contents
- **Iterations.** `Turn`, `turns`, `executedTurns`.
- **Stretches.** `OncePerStretch`, `OneStretch`, `Latched` and how they are related.
- **Step and run.** `LatchInv`, `latchInv_move`, `latchInv_step`, `willSuspend_once_iff`.
-/

namespace SpartanX

/-! ## Iterations -/

/-- An iteration: the status its `switch` found, and the calls of `willSuspend` made in it. -/
structure Turn where
  status : Status
  calls  : Nat
  deriving DecidableEq, Repr

/-- The iterations after one more event, the last one first. -/
def noteTurn (ts : List Turn) : ConnEvent → List Turn
  | .branch st    => ⟨st, 0⟩ :: ts
  | .willSuspend  => ts.modifyHead fun t => { t with calls := t.calls + 1 }
  | _             => ts

/-- The iterations of a trace, the last one first. -/
def turns (tr : List ConnEvent) : List Turn := tr.foldl noteTurn []

/-- The iterations of a block that are past the place where `willSuspend` is called. -/
def executedTurns (c : Conn) (tr : List ConnEvent) : List Turn :=
  if c.pc = .willSuspend then (turns tr).tail else turns tr

/-! ## Stretches -/

/-- The statuses found before do not end in `suspend`: a suspended iteration now is the first of its stretch. -/
def StartsStretch (older : List Status) : Prop := older.head? ≠ some .suspend

instance (older : List Status) : Decidable (StartsStretch older) := inferInstanceAs (Decidable (_ ≠ _))

/-- Every maximal stretch of suspended iterations has one call of `willSuspend`, in its first iteration. -/
def OncePerStretch : List Turn → Prop
  | []         => True
  | t :: older =>
    (t.status = .suspend → t.calls = if StartsStretch (older.map (·.status)) then 1 else 0) ∧
      OncePerStretch older

/-- The statuses have at most one maximal stretch of `suspend`. -/
def OneStretch : List Status → Prop
  | []          => True
  | st :: older => (st = .suspend → StartsStretch older → .suspend ∉ older) ∧ OneStretch older

/-- Of all suspended iterations the first one has one call of `willSuspend`, the others none. -/
def Latched : List Turn → Prop
  | []         => True
  | t :: older =>
    (t.status = .suspend → t.calls = if .suspend ∈ older.map (·.status) then 0 else 1) ∧ Latched older

instance OneStretch.decidable : (sts : List Status) → Decidable (OneStretch sts)
  | []         => isTrue trivial
  | _ :: older =>
    have := OneStretch.decidable older
    inferInstanceAs (Decidable ((_ → _ → _) ∧ _))

instance OncePerStretch.decidable : (ts : List Turn) → Decidable (OncePerStretch ts)
  | []         => isTrue trivial
  | _ :: older =>
    have := OncePerStretch.decidable older
    inferInstanceAs (Decidable ((_ → _) ∧ _))

/-- What comes behind `suspend` has it in it. -/
theorem suspend_mem_of_not_startsStretch {older : List Status} (h : ¬ StartsStretch older) :
    .suspend ∈ older :=
  List.mem_of_head? (not_not.mp h)

/-- **A latch that is never cleared serves one stretch.** -/
theorem oncePerStretch_iff {ts : List Turn} (hl : Latched ts) :
    OncePerStretch ts ↔ OneStretch (ts.map (·.status)) := by
  induction ts with
  | nil => exact Iff.rfl
  | cons t older ih =>
      obtain ⟨ht, hl⟩ := hl
      refine and_congr ?_ (ih hl)
      by_cases hst : t.status = .suspend
      · rw [ht hst]
        by_cases hmem : Status.suspend ∈ older.map (·.status)
        · by_cases hs : StartsStretch (older.map (·.status)) <;> simp [hst, hmem, hs]
        · have hs : StartsStretch (older.map (·.status)) := by
            by_contra hs
            exact hmem (suspend_mem_of_not_startsStretch hs)
          simp [hst, hmem, hs]
      · simp [hst]

/-! ## The invariant -/

/-- The program points before the first iteration. -/
def ConnPc.Early : ConnPc → Bool
  | .create | .transfer | .retain => true
  | _ => false

/-- The invariant: no iteration comes before the latch is cleared; the latch is set iff an iteration was executed
    in the suspend branch; and a call that is due is due in a suspended iteration. -/
structure LatchInv (c : Conn) (tr : List ConnEvent) : Prop where
  isSet   : c.pc = .create ∨ c.pc = .transfer ∨ c.queue.handlers.willSuspend = true
  early   : c.pc.Early = true → turns tr = []
  due     : c.pc = .willSuspend → ∃ older, turns tr = ⟨.suspend, 0⟩ :: older
  latch   : c.suspended = true ↔ .suspend ∈ (executedTurns c tr).map (·.status)
  latched : Latched (executedTurns c tr)

/-- An event that neither begins an iteration nor is the call. -/
def ConnEvent.NoTurn (e : ConnEvent) : Prop := ∀ ts : List Turn, noteTurn ts e = ts

section Move

variable {srv : Server} {c c' : Conn} {i : Input} {tr es : List ConnEvent}

theorem turns_append (tr es : List ConnEvent) : turns (tr ++ es) = es.foldl noteTurn (turns tr) :=
  List.foldl_append

theorem turns_pass (tr : List ConnEvent) (hes : ∀ e ∈ es, e.NoTurn) : turns (tr ++ es) = turns tr := by
  rw [turns_append]
  exact Machine.foldl_unchanged fun e he => hes e he _

/-- A step that has nothing to do with the call. -/
theorem LatchInv.pass (hi : LatchInv c tr) (hes : ∀ e ∈ es, e.NoTurn)
    (hset : c'.pc = .create ∨ c'.pc = .transfer ∨ c'.queue.handlers.willSuspend = true)
    (hearly : c'.pc.Early = true → c.pc.Early = true) (hpc : c.pc = .willSuspend ↔ c'.pc = .willSuspend)
    (hsus : c'.suspended = c.suspended) : LatchInv c' (tr ++ es) := by
  have htr := turns_pass tr hes
  have hexec : executedTurns c' (tr ++ es) = executedTurns c tr := by
    unfold executedTurns
    rw [htr]
    simp only [hpc]
  refine ⟨hset, ?_, ?_, ?_, ?_⟩
  · intro h
    rw [htr]
    exact hi.early (hearly h)
  · intro h
    rw [htr]
    exact hi.due (hpc.mpr h)
  · rw [hsus, hexec]
    exact hi.latch
  · rw [hexec]
    exact hi.latched

/-- The `switch` finds a status other than `suspend`. -/
theorem LatchInv.branch {st : Status} (hi : LatchInv c tr) (hpc : c.pc = .branch) (hst : st ≠ .suspend)
    (hset : c'.queue.handlers.willSuspend = c.queue.handlers.willSuspend) (hearly : c'.pc.Early = false)
    (hpc' : c'.pc ≠ .willSuspend) (hsus : c'.suspended = c.suspended) :
    LatchInv c' (tr ++ [ConnEvent.branch st]) := by
  have htr : turns (tr ++ [ConnEvent.branch st]) = ⟨st, 0⟩ :: turns tr := turns_append tr _
  have hold : executedTurns c tr = turns tr := if_neg (by simp [hpc])
  have hnew : executedTurns c' (tr ++ [ConnEvent.branch st]) = ⟨st, 0⟩ :: turns tr := (if_neg hpc').trans htr
  have hlatch := hi.latch
  have hlatched := hi.latched
  rw [hold] at hlatch hlatched
  refine ⟨.inr (.inr ?_), ?_, fun h => absurd h hpc', ?_, ?_⟩
  · rw [hset]
    simpa [hpc] using hi.isSet
  · intro h
    rw [hearly] at h
    cases h
  · rw [hnew, hsus, hlatch, List.map_cons, List.mem_cons]
    exact (or_iff_right (Ne.symm hst)).symm
  · rw [hnew]
    exact ⟨fun h => absurd h hst, hlatched⟩

/-- **The invariant survives every move** of a block whose server has `willSuspend` set. -/
theorem latchInv_move (hset : srv.handlers.willSuspend = true) (hm : ConnMove srv c i c' es)
    (hi : LatchInv c tr) : LatchInv c' (tr ++ es) := by
  have hkept (hpc : c.pc ≠ .create ∧ c.pc ≠ .transfer) : c.queue.handlers.willSuspend = true := by
    rcases hi.isSet with h | h | h
    · exact absurd h hpc.1
    · exact absurd h hpc.2
    · exact h
  cases hm with
  | create hpc =>
      exact hi.pass (by simp [ConnEvent.NoTurn, noteTurn]) (.inr (.inl rfl)) (fun _ => by rw [hpc]; rfl)
        (by simp [hpc]) rfl
  | transfer hpc =>
      exact hi.pass (by simp [ConnEvent.NoTurn, noteTurn]) (.inr (.inr hset)) (fun _ => by rw [hpc]; rfl)
        (by simp [hpc]) rfl
  | retain hpc =>
      have htr : turns (tr ++ [ConnEvent.retainServer]) = [] :=
        (turns_append tr _).trans (hi.early (by rw [hpc]; rfl))
      refine ⟨.inr (.inr (hkept (by simp [hpc]))), fun _ => htr, by simp, ?_, ?_⟩
      · simp [executedTurns, htr]
      · simp [executedTurns, htr, Latched]
  | branchRunning hpc hst | branchResuming hpc hst =>
      exact hi.branch hpc (by simp) rfl rfl (by simp) rfl
  | branchEnds hpc hst =>
      exact hi.branch hpc (by rcases hst with h | h <;> simp [h]) rfl rfl (by simp) rfl
  | branchDefault hpc _ _ hst => exact hi.branch hpc hst rfl rfl (by simp) rfl
  | branchSuspend hpc hst =>
      have htr : turns (tr ++ [ConnEvent.branch .suspend]) = ⟨.suspend, 0⟩ :: turns tr := turns_append tr _
      have hold : executedTurns c tr = turns tr := if_neg (by simp [hpc])
      have hnew {c' : Conn} (hpc' : c'.pc = .willSuspend) :
          executedTurns c' (tr ++ [ConnEvent.branch .suspend]) = turns tr := by
        rw [executedTurns, if_pos hpc', htr]
        rfl
      refine ⟨.inr (.inr (hkept (by simp [hpc]))), fun h => (by cases h), fun _ => ⟨_, htr⟩, ?_, ?_⟩
      · rw [hnew rfl, ← hold]
        exact hi.latch
      · rw [hnew rfl, ← hold]
        exact hi.latched
  | willSuspend hpc =>
      obtain ⟨older, hturns⟩ := hi.due hpc
      have hold : executedTurns c tr = older := by rw [executedTurns, if_pos hpc, hturns]; rfl
      have hlatch := hi.latch
      have hlatched := hi.latched
      rw [hold] at hlatch hlatched
      -- the call is made iff no earlier iteration was suspended
      have htr : turns (tr ++ callIf (!c.suspended && c.queue.handlers.willSuspend) .willSuspend) =
          ⟨.suspend, if .suspend ∈ older.map (·.status) then 0 else 1⟩ :: older := by
        rw [turns_append, hturns, hkept (by simp [hpc])]
        cases hsus : c.suspended with
        | true =>
            rw [if_pos (hlatch.mp hsus)]
            rfl
        | false =>
            rw [if_neg (mt hlatch.mpr (by simp [hsus]))]
            rfl
      refine ⟨.inr (.inr (hkept (by simp [hpc]))), fun h => (by cases h), fun h => (by cases h), ?_, ?_⟩
      · simp [executedTurns, htr]
      · simp [executedTurns, htr, Latched, hlatched]
  | didConnect hpc | didResume hpc | willKill hpc | didDisconnect hpc =>
      exact hi.pass (forall_mem_callIf (fun _ => rfl) _) (.inr (.inr (hkept (by simp [hpc]))))
        (fun h => (by cases h)) (by simp [hpc]) rfl
  | _ hpc =>
      exact hi.pass (by simp [ConnEvent.NoTurn, noteTurn]) (.inr (.inr (hkept (by simp [hpc]))))
        (fun h => (by cases h)) (by simp [hpc]) rfl

end Move

/-! ## Runs -/

/-- The invariant survives every step of a connection among other parties. -/
theorem latchInv_step {srv : Server} (hset : srv.handlers.willSuspend = true) {c c' : Conn}
    {tr es : List ConnEvent} {a : ConnAct} (hi : LatchInv c tr) (hs : connSysStep srv c a = some (c', es)) :
    LatchInv c' (tr ++ es) := by
  cases a with
  | block st i =>
      have hm : ConnMove { srv with status := st } c i c' es := connStep_move hs
      have hset' : ({ srv with status := st } : Server).handlers.willSuspend = true := hset
      exact latchInv_move hset' hm hi
  | suspend | resume | setStatus _ =>
      obtain ⟨_, st, e, rfl, rfl, he⟩ := connSysStep_other rfl hs
      refine hi.pass ?_ hi.isSet id Iff.rfl rfl
      intro e' he'
      rw [List.mem_singleton.mp he']
      cases e <;> first | exact fun _ => rfl | cases he

/-- **One `willSuspend` per stretch, if there is one stretch.** In every run of a connection whose server has
    `willSuspend` set: every maximal stretch of suspended iterations calls it exactly once, in its first
    iteration, iff the statuses found at the `switch` have at most one such stretch. -/
theorem willSuspend_once_iff {srv : Server} {sock : Socket} {acts : List ConnAct} {c : Conn}
    {tr : List ConnEvent} (hset : srv.handlers.willSuspend = true)
    (hrun : Machine.run (connSysStep srv) (Conn.start sock) acts = some (c, tr)) :
    OncePerStretch (executedTurns c tr) ↔ OneStretch ((executedTurns c tr).map (·.status)) := by
  have h0 : LatchInv (Conn.start sock) [] :=
    ⟨.inl rfl, fun _ => rfl, fun h => (by cases h), by simp [executedTurns, turns, Conn.start], trivial⟩
  have hi := Machine.run_invariant (fun _ _ _ _ _ hi hs => latchInv_step hset hi hs) h0 hrun
  rw [List.nil_append] at hi
  exact oncePerStretch_iff hi.latched

/-- A server with `willSuspend` and the data handler set, and a buffer of one byte. -/
def suspendableServer : Server :=
  { dataSize := 1, handlers := { dataHandler := true, willSuspend := true } }

/-- A connection that makes two iterations in suspension, is resumed, and waits for a message. -/
def oneSuspension : List ConnAct :=
  List.replicate 5 (ConnAct.block .running .tick) ++ [.suspend] ++
  List.replicate 5 (ConnAct.block .running .tick) ++ [.block .running (.recv (some [1]))] ++
  List.replicate 7 (ConnAct.block .running .tick) ++
  [.block .running (.recv (some [2])), .block .running .tick, .resume] ++
  List.replicate 11 (ConnAct.block .running .tick)

/-- Its suspension is announced once. -/
theorem willSuspend_once_iff_oneSuspension :
    ∃ c tr, Machine.run (connSysStep suspendableServer) (Conn.start {}) oneSuspension = some (c, tr) ∧
      (executedTurns c tr).map (·.status) = [.running, .resuming, .suspend, .suspend] ∧
      OncePerStretch (executedTurns c tr) := by
  have hrun : Machine.run (connSysStep suspendableServer) (Conn.start {}) oneSuspension = some (_, _) := rfl
  exact ⟨_, _, hrun, by decide +kernel, (willSuspend_once_iff rfl hrun).mpr (by decide +kernel)⟩

/-- **The second suspension is not announced**: the latch is still set from the first one. -/
theorem second_suspension_silent :
    ∃ c tr, Machine.run (connSysStep suspendableServer) (Conn.start {})
        (oneSuspension ++ [.suspend, .block .running (.recv (some [3])), .block .running (.handler 1 [3])] ++
          List.replicate 5 (ConnAct.block .running .tick)) = some (c, tr) ∧
      executedTurns c tr = [⟨.suspend, 0⟩, ⟨.running, 0⟩, ⟨.resuming, 0⟩, ⟨.suspend, 0⟩, ⟨.suspend, 1⟩] ∧
      ¬ OncePerStretch (executedTurns c tr) := by
  have hrun : Machine.run (connSysStep suspendableServer) (Conn.start {})
      (oneSuspension ++ [.suspend, .block .running (.recv (some [3])), .block .running (.handler 1 [3])] ++
        List.replicate 5 (ConnAct.block .running .tick)) = some (_, _) := rfl
  exact ⟨_, _, hrun, by decide +kernel, by decide +kernel⟩

end SpartanX
