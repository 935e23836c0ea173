import Mathlib.Data.List.Count

/-!
# `Lib.Counter` — reference counters with a sentinel, against the ideal count

A reference-counted object starts with some number of references; `retain` takes one more, `release` gives
one back, and the release that gives back the last one deallocates the object. A *sticky* counter has a
sentinel value `weak`: at that value neither call has any effect.

## Contents
- **The ideal count.** `height n ops j`: the references outstanding after the first `j` calls;
  `BalancedAt n ops i`: call `i` is the one that gives back the last reference.
- **Counted objects.** `Interface`, its `frees` flags, and `Sticky`, what the two calls do to the counter
  (`stickyRetain`, `stickyRelease`).
- **Exactness.** `frees_iff`: call `i` deallocates iff it balances *and* no height up to it was `weak`;
  hence `exact_iff`: deallocation is exact iff no balancing sequence passes through the sentinel.
- **Liveness of the counter.** `after_count_pos`: while references are outstanding the counter is positive.
-/

namespace Counter

/-- The two calls on a reference-counted object. -/
inductive Op
  | retain
  | release
  deriving DecidableEq, Repr

/-- What a call adds to the number of references. -/
def Op.delta : Op → Int
  | .retain  => 1
  | .release => -1

/-- The references outstanding after the first `j` of the calls, starting from `n`. -/
def height (n : Int) (ops : List Op) (j : Nat) : Int :=
  n + (ops.take j).count .retain - (ops.take j).count .release

/-- Call number `i` gives back the last reference: none is left after it, and some was before every call
    up to it. -/
def BalancedAt (n : Int) (ops : List Op) (i : Nat) : Prop :=
  i < ops.length ∧ height n ops (i + 1) = 0 ∧ ∀ j ≤ i, 0 < height n ops j

@[simp] theorem height_zero (n : Int) (ops : List Op) : height n ops 0 = n := by
  simp [height]

theorem height_cons (n : Int) (op : Op) (ops : List Op) (j : Nat) :
    height n (op :: ops) (j + 1) = height (n + op.delta) ops j := by
  cases op <;> simp [height, Op.delta] <;> omega

/-- A property of all heights of `op :: ops` up to `k + 1` is the property of `n` and of the heights of
    the rest. -/
theorem forall_height_cons {p : Int → Prop} {n : Int} {op : Op} {ops : List Op} {k : Nat} :
    (∀ j ≤ k + 1, p (height n (op :: ops) j)) ↔ p n ∧ ∀ j ≤ k, p (height (n + op.delta) ops j) := by
  constructor
  · intro h
    refine ⟨by simpa using h 0 (Nat.zero_le _), ?_⟩
    intro j hj
    rw [← height_cons]
    exact h (j + 1) (Nat.succ_le_succ hj)
  · rintro ⟨h0, h⟩ j hj
    cases j with
    | zero => simpa using h0
    | succ j =>
        rw [height_cons]
        exact h j (Nat.le_of_succ_le_succ hj)

theorem balancedAt_cons_succ {n : Int} {op : Op} {ops : List Op} {k : Nat} :
    BalancedAt n (op :: ops) (k + 1) ↔ 0 < n ∧ BalancedAt (n + op.delta) ops k := by
  unfold BalancedAt
  rw [forall_height_cons (p := (0 < ·)), height_cons, List.length_cons, Nat.add_lt_add_iff_right]
  exact ⟨fun h => ⟨h.2.2.1, h.1, h.2.1, h.2.2.2⟩, fun h => ⟨h.2.1, h.2.2.1, h.1, h.2.2.2⟩⟩

theorem balancedAt_cons_zero {n : Int} {op : Op} {ops : List Op} :
    BalancedAt n (op :: ops) 0 ↔ n + op.delta = 0 ∧ 0 < n := by
  unfold BalancedAt
  rw [Nat.zero_add, height_cons, height_zero]
  constructor
  · rintro ⟨_, h1, h2⟩
    exact ⟨h1, by simpa using h2 0 (Nat.le_refl 0)⟩
  · rintro ⟨h1, h2⟩
    refine ⟨by simp, h1, ?_⟩
    intro j hj
    obtain rfl : j = 0 := Nat.le_zero.mp hj
    simpa using h2

/-- Without a reference there is nothing left to give back. -/
theorem not_balancedAt_of_nonpos {n : Int} (hn : n ≤ 0) (ops : List Op) (i : Nat) :
    ¬ BalancedAt n ops i := by
  rintro ⟨_, _, h⟩
  have := h 0 (Nat.zero_le i)
  rw [height_zero] at this
  omega

/-! ## Counted objects -/

/-- A reference-counted type: its counter, and what the two calls do. The flag of `release` says whether
    the call ran the type's free function. -/
structure Interface (σ : Type) where
  count   : σ → Int
  retain  : σ → σ
  release : σ → σ × Bool

/-- For each call in turn, whether the free function ran in it. Once it has run there is no object left
    for a call to act on. -/
def Interface.frees {σ : Type} (I : Interface σ) : Option σ → List Op → List Bool
  | _,      []             => []
  | none,   _ :: ops        => false :: I.frees none ops
  | some s, .retain :: ops  => false :: I.frees (some (I.retain s)) ops
  | some s, .release :: ops =>
    (I.release s).2 :: I.frees (if (I.release s).2 then none else some (I.release s).1) ops

/-- `retain` on a counter that is sticky at `weak`. -/
def stickyRetain (weak n : Int) : Int := if n = weak then n else n + 1

/-- `release` on a counter that is sticky at `weak`: the new count, and whether it dropped to zero. -/
def stickyRelease (weak n : Int) : Int × Bool :=
  if n = weak then (n, false) else (n - 1, decide (n - 1 = 0))

/-- The two calls act on the counter as on one that is sticky at `weak`, and `release` frees when the
    counter drops to zero. -/
structure Interface.Sticky {σ : Type} (I : Interface σ) (weak : Int) : Prop where
  retain_eq  : ∀ s, I.count (I.retain s) = stickyRetain weak (I.count s)
  release_eq : ∀ s, (I.count (I.release s).1, (I.release s).2) = stickyRelease weak (I.count s)

variable {σ : Type} {I : Interface σ} {weak : Int}

/-! ### What one call does, away from the sentinel and at it -/

theorem Interface.Sticky.retain_weak (hI : I.Sticky weak) {s : σ} (hw : I.count s = weak) :
    I.count (I.retain s) = weak := by
  rw [hI.retain_eq, stickyRetain, if_pos hw, hw]

theorem Interface.Sticky.retain_strong (hI : I.Sticky weak) {s : σ} (hw : I.count s ≠ weak) :
    I.count (I.retain s) = I.count s + 1 := by
  rw [hI.retain_eq, stickyRetain, if_neg hw]

theorem Interface.Sticky.release_weak (hI : I.Sticky weak) {s : σ} (hw : I.count s = weak) :
    I.count (I.release s).1 = weak ∧ (I.release s).2 = false := by
  have h := hI.release_eq s
  rw [stickyRelease, if_pos hw, hw] at h
  exact Prod.mk.inj h

theorem Interface.Sticky.release_strong (hI : I.Sticky weak) {s : σ} (hw : I.count s ≠ weak) :
    I.count (I.release s).1 = I.count s - 1 ∧ ((I.release s).2 = true ↔ I.count s = 1) := by
  have h := hI.release_eq s
  rw [stickyRelease, if_neg hw] at h
  obtain ⟨hc, hf⟩ := Prod.mk.inj h
  refine ⟨hc, ?_⟩
  rw [hf, decide_eq_true_eq]
  omega

/-! ### The call that frees -/

theorem frees_none (ops : List Op) (i : Nat) : (I.frees none ops)[i]? ≠ some true := by
  induction ops generalizing i with
  | nil => simp [Interface.frees]
  | cons op ops ih =>
      cases i with
      | zero => simp [Interface.frees]
      | succ i => simpa [Interface.frees] using ih i

/-- **Which call frees.** Call `i` runs the free function iff it gives back the last reference and the
    count was at the sentinel at no moment up to it. -/
theorem frees_iff (hI : I.Sticky weak) (ops : List Op) {s : σ} (hs : 0 < I.count s) (i : Nat) :
    (I.frees (some s) ops)[i]? = some true ↔
      BalancedAt (I.count s) ops i ∧ ∀ j ≤ i, height (I.count s) ops j ≠ weak := by
  induction ops generalizing s i with
  | nil => simp [Interface.frees, BalancedAt]
  | cons op ops ih =>
      by_cases hw : I.count s = weak
      · -- at the sentinel: height `0` is the sentinel, and the counter stays there
        have hno : ¬ ∀ j ≤ i, height (I.count s) (op :: ops) j ≠ weak := by
          intro h
          exact h 0 (Nat.zero_le i) (by rw [height_zero, hw])
        refine iff_of_false ?_ (fun h => hno h.2)
        cases op with
        | retain =>
            have hr := hI.retain_weak hw
            cases i with
            | zero => simp [Interface.frees]
            | succ k =>
                rw [Interface.frees, List.getElem?_cons_succ, ih (by rw [hr, ← hw]; exact hs) k]
                exact fun h => h.2 0 (Nat.zero_le k) (by rw [height_zero, hr])
        | release =>
            obtain ⟨hr, hf⟩ := hI.release_weak hw
            cases i with
            | zero => simp [Interface.frees, hf]
            | succ k =>
                rw [Interface.frees, List.getElem?_cons_succ, hf]
                simp only [Bool.false_eq_true, if_false]
                rw [ih (by rw [hr, ← hw]; exact hs) k]
                exact fun h => h.2 0 (Nat.zero_le k) (by rw [height_zero, hr])
      · cases op with
        | retain =>
            have hr := hI.retain_strong hw
            cases i with
            | zero =>
                rw [balancedAt_cons_zero]
                simp only [Interface.frees, Op.delta, List.getElem?_cons_zero, Option.some.injEq,
                  Bool.false_eq_true, false_iff]
                omega
            | succ k =>
                rw [Interface.frees, List.getElem?_cons_succ, ih (by omega) k, balancedAt_cons_succ,
                  forall_height_cons (p := (· ≠ weak)), hr]
                exact ⟨fun h => ⟨⟨hs, h.1⟩, hw, h.2⟩, fun h => ⟨h.1.2, h.2.2⟩⟩
        | release =>
            obtain ⟨hr, hf⟩ := hI.release_strong hw
            cases i with
            | zero =>
                rw [balancedAt_cons_zero]
                simp only [Interface.frees, List.getElem?_cons_zero, Option.some.injEq, hf, Op.delta]
                constructor
                · intro h
                  refine ⟨⟨by omega, hs⟩, ?_⟩
                  intro j hj
                  obtain rfl : j = 0 := Nat.le_zero.mp hj
                  rwa [height_zero]
                · rintro ⟨⟨h, _⟩, _⟩
                  omega
            | succ k =>
                rw [Interface.frees, List.getElem?_cons_succ, balancedAt_cons_succ,
                  forall_height_cons (p := (· ≠ weak))]
                by_cases h1 : I.count s = 1
                · -- the last reference went with this call: nothing after it can free
                  rw [if_pos (hf.mpr h1)]
                  apply iff_of_false (frees_none ops k)
                  intro h
                  exact not_balancedAt_of_nonpos (by rw [h1]; decide) ops k h.1.2
                · rw [if_neg (fun h => h1 (hf.mp h)), ih (by omega) k, hr]
                  exact ⟨fun h => ⟨⟨hs, h.1⟩, hw, h.2⟩, fun h => ⟨h.1.2, h.2.2⟩⟩

/-- Deallocation is exact: the free function runs in the call that gives back the last reference, and in no
    other. -/
def Interface.Exact (I : Interface σ) (s : σ) (ops : List Op) : Prop :=
  ∀ i, (I.frees (some s) ops)[i]? = some true ↔ BalancedAt (I.count s) ops i

/-- No sequence that gives back the last reference passes through the sentinel on the way. -/
def AvoidsWeak (weak n : Int) (ops : List Op) : Prop :=
  ∀ i, BalancedAt n ops i → ∀ j ≤ i, height n ops j ≠ weak

/-- **Exactness of a sticky counter.** -/
theorem exact_iff (hI : I.Sticky weak) {s : σ} (hs : 0 < I.count s) (ops : List Op) :
    I.Exact s ops ↔ AvoidsWeak weak (I.count s) ops := by
  constructor
  · intro h i hi
    exact ((frees_iff hI ops hs i).mp ((h i).mpr hi)).2
  · intro h i
    rw [frees_iff hI ops hs i]
    exact ⟨fun hi => hi.1, fun hi => ⟨hi, h i hi⟩⟩

/-! ## The counter of a live object -/

/-- The object after some calls, none of which is taken to free it. -/
def Interface.after (I : Interface σ) (s : σ) : List Op → σ
  | []              => s
  | .retain :: ops  => I.after (I.retain s) ops
  | .release :: ops => I.after (I.release s).1 ops

/-- Once at the sentinel, always at the sentinel. -/
theorem after_weak (hI : I.Sticky weak) {s : σ} (hw : I.count s = weak) (ops : List Op) :
    I.count (I.after s ops) = weak := by
  induction ops generalizing s with
  | nil => exact hw
  | cons op ops ih =>
      cases op with
      | retain => exact ih (hI.retain_weak hw)
      | release => exact ih (hI.release_weak hw).1

/-- While references are outstanding the counter is positive. -/
theorem after_count_pos (hI : I.Sticky weak) (hweak : 0 < weak) {ops : List Op} {s : σ}
    (h : ∀ j ≤ ops.length, 0 < height (I.count s) ops j) : 0 < I.count (I.after s ops) := by
  induction ops generalizing s with
  | nil => simpa [Interface.after] using h 0 (Nat.le_refl 0)
  | cons op ops ih =>
      obtain ⟨_, htail⟩ := (forall_height_cons (p := (0 < ·))).mp h
      by_cases hw : I.count s = weak
      · rw [after_weak hI hw]
        exact hweak
      · cases op with
        | retain => exact ih (by rw [hI.retain_strong hw]; exact htail)
        | release => exact ih (by rw [(hI.release_strong hw).1]; exact htail)

end Counter
