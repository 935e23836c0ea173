import Mathlib.Data.List.Basic

/-!
# `Lib.Machine` — partial labelled machines, their runs and their traces

A machine is a partial step function `σ → α → Option (σ × List ε)`: in state `s` the action `a` either is
not possible (`none`) or leads to one state and emits the events others can see of it. Nondeterminism
lives in the choice of the actions, so a run is a list of actions, and every interleaving of several
parties is one such list.

## Contents
- **Runs.** `run` and its decomposition (`run_cons_iff`, `run_append_iff`).
- **Invariants of a run and its trace.** `run_invariant`: what one step preserves holds after any run;
  `run_history_invariant` is the rule for invariants that look at the actions too, `run_length_le` the one for
  measures.
- **Guarded runs.** `Guarded`: every step meets a condition on the trace so far, the state before it and
  the action; `run_invariant_of_guarded` is the invariant rule for such runs.
- **Every state of a run.** `Throughout`; `throughout_of_invariant` is the rule for what an invariant gives,
  `throughout_iff_guarded` the one for a condition on the steps that is exactly what keeps a property up.
- **Runs that lead somewhere.** `Leads`: a run with allowed events and given visible ones to a wanted state.
- **Properties of traces.** `EachEvent`: what every event satisfies, given the events before it; and folds
  over events that change nothing.
-/

namespace Machine

variable {σ α ε : Type}

/-- One step of a machine: the next state and the events the step emits. -/
abbrev Step (σ α ε : Type) := σ → α → Option (σ × List ε)

/-! ## Runs -/

/-- Perform the actions in order, collecting the trace; `none` as soon as one of them is not possible. -/
def run (step : Step σ α ε) : σ → List α → Option (σ × List ε)
  | s, []      => some (s, [])
  | s, a :: as =>
    match step s a with
    | none          => none
    | some (s₁, es) =>
      match run step s₁ as with
      | none           => none
      | some (s₂, es') => some (s₂, es ++ es')

@[simp] theorem run_nil (step : Step σ α ε) (s : σ) : run step s [] = some (s, []) := rfl

/-- A nonempty run is a first step followed by a run. -/
theorem run_cons_iff {step : Step σ α ε} {s s' : σ} {a : α} {as : List α} {tr : List ε} :
    run step s (a :: as) = some (s', tr) ↔
      ∃ s₁ es es', step s a = some (s₁, es) ∧ run step s₁ as = some (s', es') ∧ tr = es ++ es' := by
  constructor
  · intro h
    simp only [run] at h
    cases hs : step s a with
    | none => simp [hs] at h
    | some p =>
        obtain ⟨s₁, es⟩ := p
        cases hr : run step s₁ as with
        | none => simp [hs, hr] at h
        | some q =>
            obtain ⟨s₂, es'⟩ := q
            simp only [hs, hr, Option.some.injEq, Prod.mk.injEq] at h
            obtain ⟨rfl, rfl⟩ := h
            exact ⟨s₁, es, es', rfl, hr, rfl⟩
  · rintro ⟨s₁, es, es', hs, hr, rfl⟩
    simp only [run, hs, hr]

/-- Two runs in sequence are one run. -/
theorem run_append {step : Step σ α ε} {s s₁ s₂ : σ} {as bs : List α} {tr₁ tr₂ : List ε}
    (h₁ : run step s as = some (s₁, tr₁)) (h₂ : run step s₁ bs = some (s₂, tr₂)) :
    run step s (as ++ bs) = some (s₂, tr₁ ++ tr₂) := by
  induction as generalizing s tr₁ with
  | nil =>
      simp only [run_nil, Option.some.injEq, Prod.mk.injEq] at h₁
      obtain ⟨rfl, rfl⟩ := h₁
      simpa using h₂
  | cons a as ih =>
      obtain ⟨m, es, es', hs, hr, rfl⟩ := run_cons_iff.mp h₁
      rw [List.cons_append, List.append_assoc]
      exact run_cons_iff.mpr ⟨m, es, es' ++ tr₂, hs, ih hr, rfl⟩

/-- A run of actions in sequence splits into the two runs. -/
theorem run_append_iff {step : Step σ α ε} {s s₂ : σ} {as bs : List α} {tr : List ε} :
    run step s (as ++ bs) = some (s₂, tr) ↔
      ∃ s₁ tr₁ tr₂, run step s as = some (s₁, tr₁) ∧ run step s₁ bs = some (s₂, tr₂) ∧ tr = tr₁ ++ tr₂ := by
  constructor
  · intro h
    induction as generalizing s tr with
    | nil => exact ⟨s, [], tr, rfl, h, rfl⟩
    | cons a as ih =>
        obtain ⟨m, es, es', hs, hr, rfl⟩ := run_cons_iff.mp h
        obtain ⟨s₁, tr₁, tr₂, hr₁, hr₂, rfl⟩ := ih hr
        exact ⟨s₁, es ++ tr₁, tr₂, run_cons_iff.mpr ⟨m, es, tr₁, hs, hr₁, rfl⟩, hr₂,
          (List.append_assoc es tr₁ tr₂).symm⟩
  · rintro ⟨s₁, tr₁, tr₂, h₁, h₂, rfl⟩
    exact run_append h₁ h₂

/-! ## Guarded runs and the invariant rule -/

/-- Every step of the run meets `C`, a condition on the trace emitted before the step, the state before
    it and the action. -/
def Guarded (step : Step σ α ε) (C : List ε → σ → α → Prop) : List ε → σ → List α → Prop
  | _,  _, []      => True
  | tr, s, a :: as =>
    C tr s a ∧ ∀ s₁ es, step s a = some (s₁, es) → Guarded step C (tr ++ es) s₁ as

/-- The condition that is always met guards every run. -/
theorem guarded_of_forall {step : Step σ α ε} {C : List ε → σ → α → Prop} (hC : ∀ tr s a, C tr s a) :
    ∀ (as : List α) (tr : List ε) (s : σ), Guarded step C tr s as
  | [],      _,  _ => trivial
  | a :: as, tr, s => ⟨hC tr s a, fun s₁ es _ => guarded_of_forall hC as (tr ++ es) s₁⟩

instance Guarded.decidable (step : Step σ α ε) (C : List ε → σ → α → Prop)
    [∀ tr s a, Decidable (C tr s a)] :
    ∀ (tr : List ε) (s : σ) (as : List α), Decidable (Guarded step C tr s as)
  | _,  _, []      => isTrue trivial
  | tr, s, a :: as =>
    match h : step s a with
    | none          => decidable_of_iff (C tr s a) (by simp [Guarded, h])
    | some (s₁, es) =>
      have := Guarded.decidable step C (tr ++ es) s₁ as
      decidable_of_iff (C tr s a ∧ Guarded step C (tr ++ es) s₁ as) (by simp [Guarded, h])

/-- **Invariant rule for guarded runs.** If every step that meets the condition carries the invariant from
    state and trace to the next state and the longer trace, the invariant holds after every guarded run. -/
theorem run_invariant_of_guarded {step : Step σ α ε} {C : List ε → σ → α → Prop}
    {I : σ → List ε → Prop}
    (hstep : ∀ s tr a s' es, I s tr → C tr s a → step s a = some (s', es) → I s' (tr ++ es)) :
    ∀ {as : List α} {s s' : σ} {tr₀ tr : List ε}, I s tr₀ → Guarded step C tr₀ s as →
      run step s as = some (s', tr) → I s' (tr₀ ++ tr) := by
  intro as
  induction as with
  | nil =>
      intro s s' tr₀ tr h₀ _ hrun
      simp only [run_nil, Option.some.injEq, Prod.mk.injEq] at hrun
      obtain ⟨rfl, rfl⟩ := hrun
      simpa using h₀
  | cons a as ih =>
      intro s s' tr₀ tr h₀ hg hrun
      obtain ⟨s₁, es, es', hs, hr, rfl⟩ := run_cons_iff.mp hrun
      rw [← List.append_assoc]
      exact ih (hstep s tr₀ a s₁ es h₀ hg.1 hs) (hg.2 s₁ es hs) hr

/-- **Invariant rule.** What every step preserves holds after every run. -/
theorem run_invariant {step : Step σ α ε} {I : σ → List ε → Prop}
    (hstep : ∀ s tr a s' es, I s tr → step s a = some (s', es) → I s' (tr ++ es))
    {as : List α} {s s' : σ} {tr₀ tr : List ε} (h₀ : I s tr₀)
    (hrun : run step s as = some (s', tr)) : I s' (tr₀ ++ tr) :=
  run_invariant_of_guarded (C := fun _ _ _ => True) (fun s tr a s' es hi _ hs => hstep s tr a s' es hi hs)
    h₀ (guarded_of_forall (fun _ _ _ => trivial) as tr₀ s) hrun

/-- The invariant rule for a property of the state alone. -/
theorem run_state_invariant {step : Step σ α ε} {I : σ → Prop}
    (hstep : ∀ s a s' es, I s → step s a = some (s', es) → I s')
    {as : List α} {s s' : σ} {tr : List ε} (h₀ : I s) (hrun : run step s as = some (s', tr)) : I s' := by
  induction as generalizing s tr with
  | nil =>
      cases hrun
      exact h₀
  | cons a as ih =>
      obtain ⟨s₁, es, es', hs, hr, rfl⟩ := run_cons_iff.mp hrun
      exact ih (hstep s a s₁ es h₀ hs) hr

/-- The invariant rule for a property of the actions taken so far as well. -/
theorem run_history_invariant {step : Step σ α ε} {I : List α → σ → List ε → Prop}
    (hstep : ∀ as s tr a s' es, I as s tr → step s a = some (s', es) → I (as ++ [a]) s' (tr ++ es))
    {as₀ as : List α} {s s' : σ} {tr₀ tr : List ε} (h₀ : I as₀ s tr₀) (hrun : run step s as = some (s', tr)) :
    I (as₀ ++ as) s' (tr₀ ++ tr) := by
  induction as generalizing as₀ s tr₀ tr with
  | nil =>
      cases hrun
      rw [List.append_nil, List.append_nil]
      exact h₀
  | cons a as ih =>
      obtain ⟨s₁, es, es', hs, hr, rfl⟩ := run_cons_iff.mp hrun
      have hi := ih (hstep as₀ s tr₀ a s₁ es h₀ hs) hr
      rwa [List.append_assoc, List.append_assoc] at hi

/-- **Runs end.** If every step that `A` allows keeps the invariant and makes the measure smaller, a run of such steps
    is no longer than the measure. -/
theorem run_length_le {step : Step σ α ε} {I : σ → Prop} {A : α → Prop} {measure : σ → Nat}
    (hstep : ∀ s a s' es, I s → A a → step s a = some (s', es) → I s' ∧ measure s' < measure s)
    {as : List α} {s s' : σ} {tr : List ε} (h₀ : I s) (hA : ∀ a ∈ as, A a) (hrun : run step s as = some (s', tr)) :
    I s' ∧ as.length + measure s' ≤ measure s := by
  induction as generalizing s tr with
  | nil =>
      cases hrun
      exact ⟨h₀, by simp⟩
  | cons a as ih =>
      obtain ⟨s₁, es, es', hs, hr, rfl⟩ := run_cons_iff.mp hrun
      obtain ⟨h₁, hlt⟩ := hstep s a s₁ es h₀ (hA a List.mem_cons_self) hs
      obtain ⟨hI, hle⟩ := ih h₁ (fun b hb => hA b (List.mem_cons_of_mem a hb)) hr
      refine ⟨hI, ?_⟩
      rw [List.length_cons]
      omega

/-! ## Every state of a run -/

/-- `P` holds of every state the run goes through and the trace up to it. -/
def Throughout (step : Step σ α ε) (P : σ → List ε → Prop) : List ε → σ → List α → Prop
  | tr, s, []      => P s tr
  | tr, s, a :: as => P s tr ∧ ∀ s₁ es, step s a = some (s₁, es) → Throughout step P (tr ++ es) s₁ as

instance Throughout.decidable (step : Step σ α ε) (P : σ → List ε → Prop) [∀ s tr, Decidable (P s tr)] :
    ∀ (tr : List ε) (s : σ) (as : List α), Decidable (Throughout step P tr s as)
  | tr, s, []      => inferInstanceAs (Decidable (P s tr))
  | tr, s, a :: as =>
    match h : step s a with
    | none          => decidable_of_iff (P s tr) (by simp [Throughout, h])
    | some (s₁, es) =>
      have := Throughout.decidable step P (tr ++ es) s₁ as
      decidable_of_iff (P s tr ∧ Throughout step P (tr ++ es) s₁ as) (by simp [Throughout, h])

/-- It holds of the state the run starts from. -/
theorem Throughout.here {step : Step σ α ε} {P : σ → List ε → Prop} {tr : List ε} {s : σ} {as : List α}
    (h : Throughout step P tr s as) : P s tr := by
  cases as with
  | nil => exact h
  | cons a as => exact h.1

/-- And of the state it ends in. -/
theorem Throughout.last {step : Step σ α ε} {P : σ → List ε → Prop} {tr₀ tr : List ε} {s s' : σ} {as : List α}
    (h : Throughout step P tr₀ s as) (hrun : run step s as = some (s', tr)) : P s' (tr₀ ++ tr) := by
  induction as generalizing s tr₀ tr with
  | nil =>
      cases hrun
      rw [List.append_nil]
      exact h
  | cons a as ih =>
      obtain ⟨s₁, es, es', hs, hr, rfl⟩ := run_cons_iff.mp hrun
      rw [← List.append_assoc]
      exact ih (h.2 s₁ es hs) hr

/-- **Rule for whole runs.** What an invariant gives holds throughout every run that starts in it. -/
theorem throughout_of_invariant {step : Step σ α ε} {I P : σ → List ε → Prop} (hP : ∀ s tr, I s tr → P s tr)
    (hstep : ∀ s tr a s' es, I s tr → step s a = some (s', es) → I s' (tr ++ es)) :
    ∀ (as : List α) {s : σ} {tr : List ε}, I s tr → Throughout step P tr s as
  | [],      s, tr, h => hP s tr h
  | a :: as, s, tr, h =>
    ⟨hP s tr h, fun s₁ es hs => throughout_of_invariant hP hstep as (hstep s tr a s₁ es h hs)⟩

/-- **Rule for exact conditions.** Let the invariant give `P`, let a step that meets the condition preserve the
    invariant, and let any other step break `P`. Then `P` holds throughout a run iff every step of it meets the
    condition. -/
theorem throughout_iff_guarded {step : Step σ α ε} {C : List ε → σ → α → Prop} {I P : σ → List ε → Prop}
    (hP : ∀ s tr, I s tr → P s tr)
    (hstep : ∀ s tr a s' es, I s tr → C tr s a → step s a = some (s', es) → I s' (tr ++ es))
    (hbreak : ∀ s tr a s' es, I s tr → ¬ C tr s a → step s a = some (s', es) → ¬ P s' (tr ++ es)) :
    ∀ {as : List α} {s s' : σ} {tr₀ tr : List ε}, I s tr₀ → run step s as = some (s', tr) →
      (Throughout step P tr₀ s as ↔ Guarded step C tr₀ s as) := by
  intro as
  induction as with
  | nil => exact fun h₀ _ => ⟨fun _ => trivial, fun _ => hP _ _ h₀⟩
  | cons a as ih =>
      intro s s' tr₀ tr h₀ hrun
      obtain ⟨s₁, es, es', hs, hr, _⟩ := run_cons_iff.mp hrun
      -- the step is the only one possible for the action
      have honly {s₂ : σ} {es₂ : List ε} (h : step s a = some (s₂, es₂)) : s₂ = s₁ ∧ es₂ = es := by
        rw [hs] at h
        cases h
        exact ⟨rfl, rfl⟩
      constructor
      · intro h
        have hC : C tr₀ s a := by
          by_contra hC
          exact hbreak s tr₀ a s₁ es h₀ hC hs (h.2 s₁ es hs).here
        refine ⟨hC, fun s₂ es₂ h₂ => ?_⟩
        obtain ⟨rfl, rfl⟩ := honly h₂
        exact (ih (hstep s tr₀ a _ _ h₀ hC hs) hr).mp (h.2 _ _ hs)
      · intro h
        refine ⟨hP s tr₀ h₀, fun s₂ es₂ h₂ => ?_⟩
        obtain ⟨rfl, rfl⟩ := honly h₂
        exact (ih (hstep s tr₀ a _ _ h₀ h.1 hs) hr).mpr (h.2 _ _ hs)

/-! ## Runs that lead somewhere -/

/-- Some run from `s` whose events are all allowed leads to a state with `P`, and its visible events are
    `vis`. -/
def Leads (step : Step σ α ε) (allowed visible : ε → Bool) (P : σ → Prop) (s : σ) (vis : List ε) : Prop :=
  ∃ as s' tr, run step s as = some (s', tr) ∧ tr.all allowed = true ∧ tr.filter visible = vis ∧ P s'

section Leads

variable {step : Step σ α ε} {allowed visible : ε → Bool} {P : σ → Prop} {s s₁ : σ} {a : α}
  {es vis vis₁ : List ε}

/-- The run that takes no step. -/
theorem Leads.stop (h : P s) : Leads step allowed visible P s [] := ⟨[], s, [], rfl, rfl, rfl, h⟩

/-- One more step in front. -/
theorem Leads.cons (hs : step s a = some (s₁, es)) (hallowed : es.all allowed = true)
    (hvis : es.filter visible = vis₁) (h : Leads step allowed visible P s₁ vis) :
    Leads step allowed visible P s (vis₁ ++ vis) := by
  obtain ⟨as, s₂, tr, hrun, hall, hfilter, hP⟩ := h
  refine ⟨a :: as, s₂, es ++ tr, run_cons_iff.mpr ⟨s₁, es, tr, hs, hrun, rfl⟩, ?_, ?_, hP⟩
  · rw [List.all_append, hallowed, hall]
    rfl
  · rw [List.filter_append, hvis, hfilter]

/-- The last step. -/
theorem Leads.last (hs : step s a = some (s₁, es)) (hallowed : es.all allowed = true)
    (hvis : es.filter visible = vis) (h : P s₁) : Leads step allowed visible P s vis := by
  have hcons := Leads.cons hs hallowed hvis (Leads.stop h)
  rwa [List.append_nil] at hcons

end Leads

/-! ## Properties of traces -/

/-- Every event of the trace satisfies `P`, a condition on the events before it and on itself. -/
def EachEvent (P : List ε → ε → Prop) (tr : List ε) : Prop := ∀ pre e post, tr = pre ++ e :: post → P pre e

theorem eachEvent_nil (P : List ε → ε → Prop) : EachEvent P [] := by
  intro pre e post h
  simp at h

/-- More events extend a trace if each of them satisfies the condition behind it. -/
theorem EachEvent.append {P : List ε → ε → Prop} {tr es : List ε} (h : EachEvent P tr)
    (hes : EachEvent (fun pre e => P (tr ++ pre) e) es) : EachEvent P (tr ++ es) := by
  intro pre e post heq
  rcases List.append_eq_append_iff.mp heq with ⟨mid, rfl, hcons⟩ | ⟨mid, htr, hcons⟩
  · exact hes mid e post hcons
  · cases mid with
    | nil =>
        rw [List.nil_append] at hcons
        rw [List.append_nil] at htr
        rw [← htr, ← List.append_nil tr]
        exact hes [] e post hcons.symm
    | cons b mid =>
        rw [List.cons_append] at hcons
        obtain ⟨rfl, _⟩ := List.cons.inj hcons
        exact h pre e mid htr

/-- One more event. -/
theorem EachEvent.concat {P : List ε → ε → Prop} {tr : List ε} {e : ε} (h : EachEvent P tr) (he : P tr e) :
    EachEvent P (tr ++ [e]) := by
  apply h.append
  intro pre e' post heq
  rcases List.singleton_eq_append_iff.mp heq with ⟨rfl, hcons⟩ | ⟨_, hcons⟩
  · rw [List.append_nil, (List.cons.inj hcons).1]
    exact he
  · cases hcons

/-- The events of a trace before the last ones. -/
theorem EachEvent.left {P : List ε → ε → Prop} {tr es : List ε} (h : EachEvent P (tr ++ es)) :
    EachEvent P tr := by
  intro pre e post heq
  apply h pre e (post ++ es)
  rw [heq, List.append_assoc, List.cons_append]

/-- The condition for a first event and for the ones behind it. -/
theorem eachEvent_cons_iff {P : List ε → ε → Prop} {e : ε} {tr : List ε} :
    EachEvent P (e :: tr) ↔ P [] e ∧ EachEvent (fun pre => P (e :: pre)) tr := by
  constructor
  · intro h
    refine ⟨h [] e tr rfl, ?_⟩
    intro pre e' post heq
    exact h (e :: pre) e' post (by rw [heq, List.cons_append])
  · rintro ⟨he, htr⟩ pre e' post heq
    cases pre with
    | nil =>
        rw [List.nil_append] at heq
        rw [← (List.cons.inj heq).1]
        exact he
    | cons b pre =>
        rw [List.cons_append] at heq
        obtain ⟨rfl, htail⟩ := List.cons.inj heq
        exact htr pre e' post htail

instance EachEvent.decidable : ∀ (P : List ε → ε → Prop) [∀ pre e, Decidable (P pre e)] (tr : List ε),
    Decidable (EachEvent P tr)
  | P, _, []      => isTrue (eachEvent_nil P)
  | P, _, e :: tr =>
    have := EachEvent.decidable (fun pre => P (e :: pre)) tr
    decidable_of_iff _ eachEvent_cons_iff.symm

/-- A condition that every event of a list meets whatever is before it. -/
theorem eachEvent_of_forall {P : List ε → ε → Prop} {es : List ε} (h : ∀ e ∈ es, ∀ pre, P pre e) :
    EachEvent P es := by
  intro pre e post heq
  exact h e (by rw [heq]; simp) pre

/-- Conditions that agree on every event of a trace. -/
theorem eachEvent_congr {P Q : List ε → ε → Prop} {tr : List ε}
    (h : EachEvent (fun pre e => P pre e ↔ Q pre e) tr) : EachEvent P tr ↔ EachEvent Q tr := by
  constructor
  · intro hP pre e post heq
    exact (h pre e post heq).mp (hP pre e post heq)
  · intro hQ pre e post heq
    exact (h pre e post heq).mpr (hQ pre e post heq)

/-- A condition that does not look at the events before. -/
theorem eachEvent_iff_forall {P : ε → Prop} {tr : List ε} : EachEvent (fun _ e => P e) tr ↔ ∀ e ∈ tr, P e := by
  constructor
  · intro h e he
    obtain ⟨pre, post, heq⟩ := List.append_of_mem he
    exact h pre e post heq
  · intro h
    exact eachEvent_of_forall fun e he _ => h e he

/-- A fold over events that change nothing. -/
theorem foldl_unchanged {β : Type} {f : β → ε → β} {b : β} {es : List ε} (h : ∀ e ∈ es, f b e = b) :
    es.foldl f b = b := by
  induction es with
  | nil => rfl
  | cons e es ih =>
      rw [List.foldl_cons, h e List.mem_cons_self]
      exact ih fun e' he => h e' (List.mem_cons_of_mem e he)

end Machine
