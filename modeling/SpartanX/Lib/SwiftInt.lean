import Mathlib.Data.Int.Notation

/-!
# `Lib.SwiftInt` — Swift's `Int`

`Int` is 64 bits wide, and an operation whose result is out of its range is a trap: the process ends. Numbers are
unbounded integers here, and `checked` is put where an operation may trap.
-/

namespace SwiftInt

/-- The result of an operation, `none` for the trap. -/
def checked (n : Int) : Option Int :=
  if -9223372036854775808 ≤ n ∧ n < 9223372036854775808 then some n else none

theorem checked_eq_some {n m : Int} (h : checked n = some m) : m = n := by
  unfold checked at h
  split at h
  · cases h
    rfl
  · cases h

/-- A result in the range is no trap. -/
theorem checked_of_range {n : Int} (hlow : -9223372036854775808 ≤ n) (hhigh : n < 9223372036854775808) :
    checked n = some n := if_pos ⟨hlow, hhigh⟩

end SwiftInt
