import SpartanX.Lib.CInt

/-!
# `Lib.Exec` — executions that may fault or not end

A piece of code ends with a value, faults (it accesses memory it must not access), or, with a loop in it, may
not end. A loop is executed for as many iterations as it has fuel; `loop_ok` is its rule for total correctness:
an invariant, and a number that every iteration makes smaller; `loop_keeps` that for loops that need not end.
`forIntFrom_exits` is the rule for loops that count with an `int`, and `ForReaches` are the iterations of one.
-/

/-- What executing a piece of code comes to. -/
inductive Exec (α : Type)
  | ok (a : α)
  | fault
  | outOfFuel
  deriving DecidableEq, Repr

namespace Exec

variable {α β σ : Type}

instance : Monad Exec where
  pure := .ok
  bind
    | .ok a,      f => f a
    | .fault,     _ => .fault
    | .outOfFuel, _ => .outOfFuel

@[simp] theorem ok_bind (a : α) (f : α → Exec β) : (Exec.ok a >>= f) = f a := rfl
@[simp] theorem pure_eq (a : α) : (pure a : Exec α) = .ok a := rfl

/-- The value of an access, which faults if there is none. -/
def ofOption : Option α → Exec α
  | none   => .fault
  | some a => .ok a

@[simp] theorem ofOption_some (a : α) : ofOption (some a) = .ok a := rfl

/-- The execution ends with a value. -/
def Returns (x : Exec α) : Prop := ∃ a, x = .ok a

instance (x : Exec α) : Decidable x.Returns :=
  match x with
  | .ok a      => isTrue ⟨a, rfl⟩
  | .fault     => isFalse (by rintro ⟨a, h⟩; cases h)
  | .outOfFuel => isFalse (by rintro ⟨a, h⟩; cases h)

/-- What comes of a sequence has come of its first part and of the rest. -/
theorem bind_eq_ok {x : Exec α} {f : α → Exec β} {b : β} :
    (x >>= f) = .ok b ↔ ∃ a, x = .ok a ∧ f a = .ok b := by
  cases x <;> simp

/-- `while (guard) body`, with fuel for the given number of iterations. -/
def loop (guard : σ → Bool) (body : σ → Exec σ) : Nat → σ → Exec σ
  | 0,        s => if guard s then .outOfFuel else .ok s
  | fuel + 1, s => if guard s then body s >>= loop guard body fuel else .ok s

theorem loop_done {guard : σ → Bool} {body : σ → Exec σ} {s : σ} (h : guard s = false) (fuel : Nat) :
    loop guard body fuel s = .ok s := by
  cases fuel <;> simp [loop, h]

/-- **Rule for loops.** If every iteration that starts in the invariant ends, keeps it and makes the variant
    smaller, then the loop, with fuel for the variant, ends in the invariant where the guard fails. -/
theorem loop_ok {guard : σ → Bool} {body : σ → Exec σ} {I : σ → Prop} {variant : σ → Nat}
    (hbody : ∀ s, I s → guard s = true → ∃ s', body s = .ok s' ∧ I s' ∧ variant s' < variant s) :
    ∀ {fuel : Nat} {s : σ}, I s → variant s ≤ fuel →
      ∃ s', loop guard body fuel s = .ok s' ∧ I s' ∧ guard s' = false := by
  intro fuel
  induction fuel with
  | zero =>
      intro s hI hv
      cases hg : guard s with
      | false => exact ⟨s, by simp [loop, hg], hI, hg⟩
      | true =>
          obtain ⟨s', _, _, hlt⟩ := hbody s hI hg
          omega
  | succ fuel ih =>
      intro s hI hv
      cases hg : guard s with
      | false => exact ⟨s, by simp [loop, hg], hI, hg⟩
      | true =>
          obtain ⟨s₁, hs, hI₁, hlt⟩ := hbody s hI hg
          obtain ⟨s', hloop, hI', hg'⟩ := ih hI₁ (by omega)
          refine ⟨s', ?_, hI', hg'⟩
          rw [loop, if_pos hg, hs, ok_bind, hloop]

/-- What every iteration keeps holds where the loop ends, if it does. -/
theorem loop_keeps {guard : σ → Bool} {body : σ → Exec σ} {I : σ → Prop}
    (hbody : ∀ s s', I s → guard s = true → body s = .ok s' → I s') :
    ∀ {fuel : Nat} {s s' : σ}, I s → loop guard body fuel s = .ok s' → I s' ∧ guard s' = false := by
  intro fuel
  induction fuel with
  | zero =>
      intro s s' hI hloop
      unfold loop at hloop
      split at hloop
      · cases hloop
      · next hg =>
          obtain rfl := Exec.ok.inj hloop
          exact ⟨hI, Bool.eq_false_iff.mpr hg⟩
  | succ fuel ih =>
      intro s s' hI hloop
      unfold loop at hloop
      split at hloop
      · next hg =>
          obtain ⟨s₁, hs, hrest⟩ := bind_eq_ok.mp hloop
          exact ih (hbody s s₁ hI hg hs) hrest
      · next hg =>
          obtain rfl := Exec.ok.inj hloop
          exact ⟨hI, Bool.eq_false_iff.mpr hg⟩

/-! ## Counting loops -/

open CInt

/-- `for (int i = start; guard; ++i) body`, with fuel for the given number of iterations. -/
def forIntFrom (start : IntT) (guard : IntT → σ → Bool) (body : IntT → σ → Exec σ) (fuel : Nat) (s : σ) : Exec σ := do
  let st ← loop (fun st : IntT × σ => guard st.1 st.2)
    (fun st => do
      let s ← body st.1 st.2
      pure (st.1 + 1, s)) fuel (start, s)
  pure st.2

/-- `for (int i = 0; guard; ++i) body`, with fuel for the given number of iterations. -/
def forInt (guard : IntT → σ → Bool) (body : IntT → σ → Exec σ) (fuel : Nat) (s : σ) : Exec σ := do
  let st ← loop (fun st : IntT × σ => guard st.1 st.2)
    (fun st => do
      let s ← body st.1 st.2
      pure (st.1 + 1, s)) fuel (0, s)
  pure st.2

/-- What every iteration keeps holds where a counting loop ends, if it does. -/
theorem forIntFrom_keeps {start : IntT} {guard : IntT → σ → Bool} {body : IntT → σ → Exec σ} {I : σ → Prop}
    (hbody : ∀ i s s', I s → body i s = .ok s' → I s') {fuel : Nat} {s s' : σ} (hI : I s)
    (hloop : forIntFrom start guard body fuel s = .ok s') : I s' := by
  obtain ⟨st, hst, hret⟩ := bind_eq_ok.mp hloop
  obtain rfl := Exec.ok.inj hret
  refine (loop_keeps (I := fun st : IntT × σ => I st.2) ?_ hI hst).1
  rintro ⟨i, s₁⟩ st' hI₁ _ hstep
  obtain ⟨s₂, hs, hret⟩ := bind_eq_ok.mp hstep
  obtain rfl := Exec.ok.inj hret
  exact hbody i s₁ s₂ hI₁ hs

theorem forInt_keeps {guard : IntT → σ → Bool} {body : IntT → σ → Exec σ} {I : σ → Prop}
    (hbody : ∀ i s s', I s → body i s = .ok s' → I s') {fuel : Nat} {s s' : σ} (hI : I s)
    (hloop : forInt guard body fuel s = .ok s') : I s' :=
  have hfrom : forIntFrom 0 guard body fuel s = .ok s' := hloop
  forIntFrom_keeps hbody hI hfrom

/-- **Rule for counting loops.** If every iteration below `n` ends and takes the invariant to the next number, and
    the guard fails at `n`, then the loop ends in the invariant at a number where the guard fails. -/
theorem forIntFrom_exits {guard : IntT → σ → Bool} {body : IntT → σ → Exec σ} {I : Nat → σ → Prop}
    {start n fuel : Nat} {s : σ}
    (hbody : ∀ k s, k < n → I k s → guard (BitVec.ofNat 32 k) s = true →
      ∃ s', body (BitVec.ofNat 32 k) s = .ok s' ∧ I (k + 1) s')
    (hend : ∀ s, I n s → guard (BitVec.ofNat 32 n) s = false) (hI : I start s) (hstart : start ≤ n)
    (hfuel : n - start ≤ fuel) :
    ∃ s' k, forIntFrom (BitVec.ofNat 32 start) guard body fuel s = .ok s' ∧ k ≤ n ∧ I k s' ∧
      guard (BitVec.ofNat 32 k) s' = false := by
  have hcount (k : Nat) : ∀ (fuel : Nat) (s : σ), n - k ≤ fuel → k ≤ n → I k s →
      ∃ s' m, loop (fun st : IntT × σ => guard st.1 st.2)
        (fun st => do
          let s ← body st.1 st.2
          pure (st.1 + 1, s)) fuel (BitVec.ofNat 32 k, s) = .ok (BitVec.ofNat 32 m, s') ∧ m ≤ n ∧ I m s' ∧
        guard (BitVec.ofNat 32 m) s' = false := by
    induction hm : n - k generalizing k with
    | zero =>
        intro fuel s _ hk hI
        obtain rfl : k = n := by omega
        refine ⟨s, k, loop_done ?_ fuel, hk, hI, hend s hI⟩
        exact hend s hI
    | succ m ih =>
        intro fuel s hfuel hk hI
        obtain ⟨fuel, rfl⟩ : ∃ f, fuel = f + 1 := ⟨fuel - 1, by omega⟩
        cases hg : guard (BitVec.ofNat 32 k) s with
        | false => exact ⟨s, k, by simp [loop, hg], hk, hI, hg⟩
        | true =>
            obtain ⟨s₁, hs, hI₁⟩ := hbody k s (by omega) hI hg
            obtain ⟨s', j, hloop, hrest⟩ := ih (k + 1) (by omega) fuel s₁ (by omega) (by omega) hI₁
            refine ⟨s', j, ?_, hrest⟩
            rw [loop, if_pos hg, hs, ok_bind, pure_eq, ok_bind, ofNat_add_one, hloop]
  obtain ⟨s', k, hloop, hrest⟩ := hcount start fuel s hfuel hstart hI
  refine ⟨s', k, ?_, hrest⟩
  unfold forIntFrom
  rw [hloop]
  rfl

/-- The rule for a loop that counts from zero. -/
theorem forInt_exits {guard : IntT → σ → Bool} {body : IntT → σ → Exec σ} {I : Nat → σ → Prop} {n fuel : Nat} {s : σ}
    (hbody : ∀ k s, k < n → I k s → guard (BitVec.ofNat 32 k) s = true →
      ∃ s', body (BitVec.ofNat 32 k) s = .ok s' ∧ I (k + 1) s')
    (hend : ∀ s, I n s → guard (BitVec.ofNat 32 n) s = false) (hI : I 0 s) (hfuel : n ≤ fuel) :
    ∃ s' k, forInt guard body fuel s = .ok s' ∧ k ≤ n ∧ I k s' ∧ guard (BitVec.ofNat 32 k) s' = false :=
  forIntFrom_exits hbody hend hI (Nat.zero_le n) hfuel

/-- The same for a loop whose guard holds as long as it counts below `n`: it counts to `n`. -/
theorem forInt_ok {guard : IntT → σ → Bool} {body : IntT → σ → Exec σ} {I : Nat → σ → Prop} {n fuel : Nat} {s : σ}
    (hbody : ∀ k s, k < n → I k s → guard (BitVec.ofNat 32 k) s = true ∧
      ∃ s', body (BitVec.ofNat 32 k) s = .ok s' ∧ I (k + 1) s')
    (hend : ∀ s, I n s → guard (BitVec.ofNat 32 n) s = false) (hI : I 0 s) (hfuel : n ≤ fuel) :
    ∃ s', forInt guard body fuel s = .ok s' ∧ I n s' := by
  obtain ⟨s', k, hloop, hk, hI', hg⟩ := forInt_exits (fun k s hk hI _ => (hbody k s hk hI).2) hend hI hfuel
  rcases Nat.lt_or_eq_of_le hk with hlt | rfl
  · rw [(hbody k s' hlt hI').1] at hg
    cases hg
  · exact ⟨s', hloop, hI'⟩

/-- The iterations that a counting loop comes to: the counter, and the state before the iteration. -/
inductive ForReaches (guard : IntT → σ → Bool) (body : IntT → σ → Exec σ) (s : σ) : IntT → σ → Prop
  | start : ForReaches guard body s 0 s
  | next {i : IntT} {s₁ s₂ : σ} (h : ForReaches guard body s i s₁) (hg : guard i s₁ = true)
      (hbody : body i s₁ = .ok s₂) : ForReaches guard body s (i + 1) s₂

/-- If every iteration below `n` is executed, ends and takes the invariant to the next number, then the loop comes to
    every number up to `n`. -/
theorem ForReaches.upTo {guard : IntT → σ → Bool} {body : IntT → σ → Exec σ} {I : Nat → σ → Prop} {n : Nat} {s : σ}
    (hbody : ∀ k s, k < n → I k s → guard (BitVec.ofNat 32 k) s = true ∧
      ∃ s', body (BitVec.ofNat 32 k) s = .ok s' ∧ I (k + 1) s')
    (hI : I 0 s) : ∀ k ≤ n, ∃ s', ForReaches guard body s (BitVec.ofNat 32 k) s' ∧ I k s' := by
  intro k
  induction k with
  | zero =>
      intro _
      exact ⟨s, .start, hI⟩
  | succ k ih =>
      intro hk
      obtain ⟨s₁, hreach, hI₁⟩ := ih (Nat.le_of_succ_le hk)
      obtain ⟨hg, s₂, hok, hI₂⟩ := hbody k s₁ hk hI₁
      refine ⟨s₂, ?_, hI₂⟩
      rw [← ofNat_add_one]
      exact hreach.next hg hok

end Exec
