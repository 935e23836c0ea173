import Mathlib.Data.List.Basic

/-!
# `Lib.Iterations` — a trace read as the iterations of a loop

A loop leaves a trace of events, and a view says what each of them means for the iteration it belongs to: that one
begins, that something is noted in its record, or that the loop is left. Reading the trace gives the records of the
finished iterations, each with whether the loop went on after it, and the record of the one under way.

The records are of any type; what a loop notes is up to its view.
-/

variable {ρ ε : Type}

/-- What an event means for the iteration it belongs to: a first record, a note in the record, or the end. -/
inductive Mark (ρ : Type)
  | start (r : ρ)
  | note (f : ρ → ρ)
  | leave

/-- The finished iterations, in order, each with whether the loop went on, and the one under way. -/
structure Iterations (ρ : Type) where
  finished : List (ρ × Bool) := []
  current  : Option ρ        := none
  deriving DecidableEq, Repr

namespace Iterations

/-- One more event. An iteration is finished when the next one begins or the loop is left. -/
def mark (w : Iterations ρ) : Mark ρ → Iterations ρ
  | .start r => { finished := w.finished ++ (w.current.map fun t => (t, true)).toList, current := some r }
  | .note f  => { w with current := w.current.map f }
  | .leave   => { finished := w.finished ++ (w.current.map fun t => (t, false)).toList, current := none }

/-- The iterations of a trace, under a view of its events. -/
def read (view : ε → Option (Mark ρ)) (tr : List ε) : Iterations ρ := (tr.filterMap view).foldl mark {}

/-- The records of all iterations that have begun. -/
def records (w : Iterations ρ) : List ρ := w.finished.map (·.1) ++ w.current.toList

variable {view : ε → Option (Mark ρ)} {w : Iterations ρ} {t r : ρ}

theorem read_append (tr es : List ε) : read view (tr ++ es) = (es.filterMap view).foldl mark (read view tr) := by
  unfold read
  rw [List.filterMap_append, List.foldl_append]

/-- One more event with a meaning. -/
theorem read_concat {m : Mark ρ} {e : ε} (tr : List ε) (h : view e = some m) :
    read view (tr ++ [e]) = (read view tr).mark m := by
  rw [read_append, List.filterMap_cons_some h]
  rfl

/-- Events without a meaning. -/
theorem read_pass (tr : List ε) {es : List ε} (h : ∀ e ∈ es, view e = none) :
    read view (tr ++ es) = read view tr := by
  rw [read_append, List.filterMap_eq_nil_iff.mpr h]
  rfl

/-- A first iteration begins, or the next one. -/
theorem mark_start_of_none (h : w.current = none) : w.mark (.start r) = { w with current := some r } := by
  simp [mark, h]

theorem mark_start_of_some (h : w.current = some t) :
    w.mark (.start r) = { finished := w.finished ++ [(t, true)], current := some r } := by
  simp [mark, h]

/-- The loop is left. -/
theorem mark_leave_of_some (h : w.current = some t) :
    w.mark .leave = { finished := w.finished ++ [(t, false)], current := none } := by
  simp [mark, h]

/-- An iteration is kept when the next one begins. -/
theorem kept_start (h : ∀ p ∈ w.finished, p.2 = true) : ∀ p ∈ (w.mark (.start r)).finished, p.2 = true := by
  intro p hp
  rcases List.mem_append.mp hp with hp | hp
  · exact h p hp
  · rw [Option.mem_toList] at hp
    obtain ⟨t, _, rfl⟩ := Option.map_eq_some_iff.mp hp
    rfl

/-- The records begun when an iteration begins, and when the loop is left. -/
theorem records_start : (w.mark (.start r)).records = w.records ++ [r] := by
  cases h : w.current <;> simp [mark, records, h]

theorem records_leave : (w.mark .leave).records = w.records := by
  cases h : w.current <;> simp [mark, records, h]

/-- A note that says nothing about `p` changes no count of `p`. -/
theorem countP_records_note {p : ρ → Bool} {f : ρ → ρ} (hf : ∀ t, p (f t) = p t) :
    (w.mark (.note f)).records.countP p = w.records.countP p := by
  cases h : w.current <;> simp [mark, records, h, List.countP_append, List.countP_cons, hf]

/-- Events that at most note what `p` does not look at finish no iteration and change no count of `p`. -/
theorem read_notes {p : ρ → Bool} (tr : List ε) {es : List ε}
    (h : ∀ e ∈ es, view e = none ∨ ∃ f, view e = some (.note f) ∧ ∀ t, p (f t) = p t) :
    (read view (tr ++ es)).finished = (read view tr).finished ∧
      (read view (tr ++ es)).records.countP p = (read view tr).records.countP p := by
  induction es generalizing tr with
  | nil =>
      rw [List.append_nil]
      exact ⟨rfl, rfl⟩
  | cons e es ih =>
      have hfirst : (read view (tr ++ [e])).finished = (read view tr).finished ∧
          (read view (tr ++ [e])).records.countP p = (read view tr).records.countP p := by
        rcases h e List.mem_cons_self with hnone | ⟨f, hf, hp⟩
        · rw [read_pass tr (List.forall_mem_singleton.mpr hnone)]
          exact ⟨rfl, rfl⟩
        · rw [read_concat tr hf]
          exact ⟨rfl, countP_records_note hp⟩
      obtain ⟨hfin, hcount⟩ := ih (tr ++ [e]) fun e' he' => h e' (List.mem_cons_of_mem e he')
      rw [List.append_cons]
      exact ⟨hfin.trans hfirst.1, hcount.trans hfirst.2⟩

end Iterations
