import SpartanX.Kqueue.Handling

/-!
# `Agreement` — where the two run loops do the same

The connection loop of `SXServerStart` and the event handling of `SXServerStart_kqueue` are two copies of one
loop. On the same iterations they make the same calls and the same decisions, whatever the uninitialised
variables of the second hold, exactly as long as every iteration reached is one of the running branch whose
data handler does not answer `(size_t)-1`, or one that ends the connection at the `switch`
(`loops_agree_iff`). The suspend case of the second runs on into `willKill`, its other cases test a variable
that nothing has set.
-/

namespace SpartanX

open CInt

/-- The iterations both loops treat alike. -/
def Iteration.Alike (it : Iteration) : Prop :=
  it.switchStatus.Ends ∨
    (it.switchStatus = .running ∧ (recvValue it.recv = minusOne ∨ it.ret ≠ minusOne))

/-- Such an iteration keeps the connection: it received, and the data handler did not answer `0`. -/
def Iteration.GoesOn (it : Iteration) : Prop :=
  it.switchStatus = .running ∧ recvValue it.recv ≠ minusOne ∧ it.ret ≠ 0

instance (it : Iteration) : Decidable it.GoesOn := inferInstanceAs (Decidable (_ ∧ _ ∧ _))

/-- Every iteration up to the one that closes the connection is treated alike. -/
def AlikeUntilClosed : List Iteration → Prop
  | []        => True
  | it :: its => it.Alike ∧ (it.GoesOn → AlikeUntilClosed its)

theorem sizeT_pos {s : SizeT} (hs : s ≠ 0) : s > 0 :=
  Nat.pos_of_ne_zero fun h => hs (BitVec.eq_of_toNat_eq h)

/-- What the first iteration contributes to the connection loop. -/
theorem connLoop_head (n : SizeT) (l : Locals) (it : Iteration) (its : List Iteration) :
    (connLoop n l (it :: its)).head? =
      some ((connIteration n l it).1, (connIteration n l it).2.isSome) := by
  unfold connLoop
  rcases connIteration n l it with ⟨calls, _ | l'⟩ <;> rfl

/-- What the first event contributes to the event loop. -/
theorem kqLoop_head (n : SizeT) (junk : Nat → SizeT × Bool) (it : Iteration) (its : List Iteration) :
    (kqLoop n junk (it :: its)).head? =
      some ((kqIteration n (junk 0).1 (junk 0).2 it).1, (kqIteration n (junk 0).1 (junk 0).2 it).2.isSome) := by
  unfold kqLoop
  rcases kqIteration n (junk 0).1 (junk 0).2 it with ⟨calls, _ | l'⟩ <;> rfl

/-! ## Iterations treated alike -/

/-- An iteration treated alike: one list of calls, one decision, and no use of the old locals or of the
    uninitialised variables. -/
theorem alike_outcome {n : SizeT} {it : Iteration} (h : it.Alike) :
    ∃ calls, (∀ l, connIteration n l it = (calls, if it.GoesOn then some { l with s := it.ret } else none)) ∧
      ∀ s suspended, kqIteration n s suspended it = (calls, if it.GoesOn then some () else none) := by
  rcases h with hst | ⟨hst, hret⟩
  · have hgo : ¬ it.GoesOn := fun hgo => by rcases hst with h | h <;> rw [hgo.1] at h <;> cases h
    refine ⟨[.willKill, .didDisconnect], ?_, ?_⟩
    · intro l
      rw [if_neg hgo]
      rcases hst with h | h <;> simp only [connIteration, h] <;> rfl
    · intro s suspended
      rw [if_neg hgo]
      rcases hst with h | h <;> simp only [kqIteration, h] <;> rfl
  · by_cases hr : recvValue it.recv = minusOne
    · have hgo : ¬ it.GoesOn := fun hgo => hgo.2.1 hr
      refine ⟨[.didDisconnect], ?_, ?_⟩
      · intro l
        simp only [connIteration, hst, if_pos hr, if_neg hgo]
        rfl
      · intro s suspended
        simp only [kqIteration, hst, if_neg (not_not.mpr hr), if_neg hgo]
        rfl
    · have hret' : it.ret ≠ minusOne := hret.resolve_left hr
      by_cases hz : it.ret = 0
      · have hgo : ¬ it.GoesOn := fun hgo => hgo.2.2 hz
        refine ⟨[.dataHandler (recvInto (List.replicate n.toNat 0) it.recv) (recvValue it.recv) it.ret,
          .didDisconnect], ?_, ?_⟩
        · intro l
          simp only [connIteration, hst, if_neg hr, if_neg hgo, connTest, hz]
          rfl
        · intro s suspended
          simp only [kqIteration, hst, if_pos hr, if_neg hret', if_neg hgo, kqTest, if_pos hz]
          rfl
      · have hgo : it.GoesOn := ⟨hst, hr, hz⟩
        refine ⟨[.dataHandler (recvInto (List.replicate n.toNat 0) it.recv) (recvValue it.recv) it.ret],
          ?_, ?_⟩
        · intro l
          simp only [connIteration, hst, if_neg hr, if_pos hgo, connTest, if_pos (sizeT_pos hz)]
        · intro s suspended
          simp only [kqIteration, hst, if_pos hr, if_neg hret', if_pos hgo, kqTest, if_neg hz]

/-! ## The others -/

/-- In a suspended iteration `willSuspend` is called iff the local says it has not been called before. -/
theorem willSuspend_mem_conn {n : SizeT} {l : Locals} {it : Iteration} (hst : it.switchStatus = .suspend) :
    .willSuspend ∈ (connIteration n l it).1 ↔ l.suspended = false := by
  have hrest : .willSuspend ∉ (if recvValue it.recv = 0 ∨ recvValue it.recv = minusOne then exit []
      else afterSuspendedRecv n { l with suspended := true } it : Outcome Locals).1 := by
    unfold afterSuspendedRecv connTest
    split
    · simp [exit]
    · split
      · simp [exit]
      · split <;> split <;> simp [exit]
  rw [connIteration_suspend hst]
  unfold Outcome.after
  rw [List.mem_append, or_iff_left hrest]
  cases l.suspended <;> simp [callIf]

/-- The same for the event loop, where the local is not initialised. -/
theorem willSuspend_mem_kq {n s : SizeT} {suspended : Bool} {it : Iteration}
    (hst : it.switchStatus = .suspend) :
    .willSuspend ∈ (kqIteration n s suspended it).1 ↔ suspended = false := by
  have hrest : .willSuspend ∉ kqAfterSuspendedRecv n it := by
    unfold kqAfterSuspendedRecv
    split
    · simp
    · split <;> simp
  rw [kqIteration_suspend hst]
  split <;> cases suspended <;> simp [exit, callIf, hrest]

/-- Any other iteration is treated differently for some values of the uninitialised variables. -/
theorem differs_of_not_alike {n : SizeT} {l : Locals} {it : Iteration} (hl : l.s ≠ 0) (h : ¬ it.Alike) :
    ∃ s suspended, ((kqIteration n s suspended it).1, (kqIteration n s suspended it).2.isSome) ≠
      ((connIteration n l it).1, (connIteration n l it).2.isSome) := by
  have hkeeps (calls : List ConnEvent) : (connTest l calls).2.isSome = true := by
    rw [connTest, if_pos (sizeT_pos hl)]
    rfl
  cases hst : it.switchStatus with
  | shouldTerminate | idle => exact absurd (.inl (by simp [Status.Ends, hst])) h
  | running =>
      -- the answer `(size_t)-1` keeps the connection here and closes it there
      have hr : recvValue it.recv ≠ minusOne := fun hr => h (.inr ⟨hst, .inl hr⟩)
      have hret : it.ret = minusOne := by
        by_contra hret
        exact h (.inr ⟨hst, .inr hret⟩)
      refine ⟨0, false, ?_⟩
      intro heq
      have hkept := (Prod.mk.inj heq).2
      have hpos : (minusOne : SizeT) > 0 := by decide
      simp only [kqIteration, connIteration, hst, if_neg hr, if_pos hr, connTest, exit, hret, if_pos hpos,
        if_true] at hkept
      cases hkept
  | suspend =>
      -- an uninitialised `suspended` may say the opposite
      refine ⟨0, !l.suspended, ?_⟩
      intro heq
      have hmem := willSuspend_mem_conn (n := n) (l := l) hst
      rw [← (Prod.mk.inj heq).1, willSuspend_mem_kq hst] at hmem
      cases hsus : l.suspended <;> simp [hsus] at hmem
  | resuming | ignored | shouldKill | other n =>
      -- an uninitialised `s` may be `0`
      refine ⟨0, false, ?_⟩
      intro heq
      have hkept := (Prod.mk.inj heq).2
      simp only [kqIteration, connIteration, hst, hkeeps, kqTest, exit, if_true] at hkept
      cases hkept

/-! ## The loops -/

/-- The two loops agree from any locals of a kept connection. -/
theorem loops_agree_iff_from {n : SizeT} (its : List Iteration) {l : Locals} (hl : l.s ≠ 0) :
    (∀ junk, kqLoop n junk its = connLoop n l its) ↔ AlikeUntilClosed its := by
  induction its generalizing l with
  | nil => exact ⟨fun _ => trivial, fun _ _ => rfl⟩
  | cons it its ih =>
      constructor
      · intro hagree
        have halike : it.Alike := by
          by_contra h
          obtain ⟨s, suspended, hne⟩ := differs_of_not_alike (n := n) hl h
          have hhead := congrArg List.head? (hagree fun _ => (s, suspended))
          rw [kqLoop_head, connLoop_head] at hhead
          exact hne (Option.some.inj hhead)
        refine ⟨halike, ?_⟩
        intro hgo
        obtain ⟨calls, hconn, hkq⟩ := alike_outcome (n := n) halike
        have hl' : ({ l with s := it.ret } : Locals).s ≠ 0 := hgo.2.2
        apply (ih hl').mp
        intro junk
        -- the values of the first event play no part
        have htail := congrArg List.tail (hagree fun k => if k = 0 then (0, false) else junk (k - 1))
        unfold kqLoop connLoop at htail
        rw [hconn, hkq] at htail
        simpa [if_pos hgo] using htail
      · rintro ⟨halike, hrest⟩ junk
        obtain ⟨calls, hconn, hkq⟩ := alike_outcome (n := n) halike
        unfold kqLoop connLoop
        rw [hconn, hkq]
        by_cases hgo : it.GoesOn
        · have hl' : ({ l with s := it.ret } : Locals).s ≠ 0 := hgo.2.2
          simp only [if_pos hgo]
          rw [(ih hl').mpr (hrest hgo)]
        · simp only [if_neg hgo]

/-- **Where the two run loops agree.** On a sequence of iterations the event loop makes the same calls and
    decisions as the connection loop, whatever its uninitialised variables hold, iff every iteration reached
    is treated alike. -/
theorem loops_agree_iff (n : SizeT) (its : List Iteration) :
    (∀ junk, kqLoop n junk its = connLoop n {} its) ↔ AlikeUntilClosed its :=
  loops_agree_iff_from its (by decide)

/-- A message that arrives in suspension and finds the connection resumed: one loop delivers it and goes on,
    the other delivers it, calls `willKill` and closes the connection. -/
theorem loops_differ_on_resume :
    ∃ (n : SizeT) (it : Iteration), connLoop n {} [it] = [([.willSuspend, .dataHandler [7] 1 1], true)] ∧
      kqLoop n (fun _ => (1, false)) [it] =
        [([.willSuspend, .dataHandler [7] 1 1, .willKill, .didDisconnect], false)] ∧
      ¬ ∀ junk, kqLoop n junk [it] = connLoop n {} [it] := by
  refine ⟨1, ⟨.running, .suspend, some [7], .resuming, 1⟩, by decide, by decide, ?_⟩
  intro h
  exact absurd (h fun _ => (1, false)) (by decide)

end SpartanX
