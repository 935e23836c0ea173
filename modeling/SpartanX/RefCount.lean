import SpartanX.Object

/-!
# `RefCount` — the three reference-counted kinds

Runtime objects and sockets are counted through their header (`SXRetain`, `SXRelease`); strings and vectors
carry a count of their own (`SXRetainString`, `SXReleaseString`, `SXRetainVector`, `SXReleaseVector`). The
three pairs of functions are the same two lines on a counter that is sticky at `sx_weak_object`, so one
theorem of `Lib.Counter` covers them: deallocation is exact as long as the count of a strong object does not
climb to the sentinel.
-/

namespace SpartanX

open Counter

/-- The part of `sx_string_t` that its reference counting touches. -/
structure StringHead where
  refCount : Int := 0
  deriving DecidableEq, Repr

/-- The part of `sx_vector_t` that its reference counting touches. -/
structure VectorHead where
  refCount : Int := 0
  deriving DecidableEq, Repr

/-- `SXRetainString`. -/
def sxRetainString (string : StringHead) : StringHead :=
  { string with refCount := stickyRetain sxWeakObject string.refCount }

/-- `SXReleaseString`: the string after it, and whether it ran `SXFreeString`. -/
def sxReleaseString (string : StringHead) : StringHead × Bool :=
  let r := stickyRelease sxWeakObject string.refCount
  ({ string with refCount := r.1 }, r.2)

/-- `SXRetainVector`. -/
def sxRetainVector (vector : VectorHead) : VectorHead :=
  { vector with refCount := stickyRetain sxWeakObject vector.refCount }

/-- `SXReleaseVector`: the vector after it, and whether it ran `SXFreeVector`. -/
def sxReleaseVector (vector : VectorHead) : VectorHead × Bool :=
  let r := stickyRelease sxWeakObject vector.refCount
  ({ vector with refCount := r.1 }, r.2)

/-! ## The three counted interfaces -/

def objectCounting : Interface ObjHeader  := ⟨ObjHeader.refCount, sxRetain, sxRelease⟩
def stringCounting : Interface StringHead := ⟨StringHead.refCount, sxRetainString, sxReleaseString⟩
def vectorCounting : Interface VectorHead := ⟨VectorHead.refCount, sxRetainVector, sxReleaseVector⟩

theorem objectCounting_sticky : objectCounting.Sticky sxWeakObject := ⟨fun _ => rfl, fun _ => rfl⟩
theorem stringCounting_sticky : stringCounting.Sticky sxWeakObject := ⟨fun _ => rfl, fun _ => rfl⟩
theorem vectorCounting_sticky : vectorCounting.Sticky sxWeakObject := ⟨fun _ => rfl, fun _ => rfl⟩

/-- **Reference counting is exact below the sentinel.** For an object created as a strong one, with one
    reference, and any sequence of retains and releases: the free function runs in the release that gives back
    the last reference and in no other call, iff no sequence up to that release takes the number of
    references to `sx_weak_object`. The same holds of strings and of vectors. -/
theorem refCount_exact_iff (dealloc : Dealloc) (ops : List Op) :
    (objectCounting.Exact (sxObjInit {} dealloc) ops ↔ AvoidsWeak sxWeakObject 1 ops) ∧
    (stringCounting.Exact { refCount := 1 } ops ↔ AvoidsWeak sxWeakObject 1 ops) ∧
    (vectorCounting.Exact { refCount := 1 } ops ↔ AvoidsWeak sxWeakObject 1 ops) :=
  ⟨exact_iff objectCounting_sticky (s := sxObjInit {} dealloc) Int.one_pos ops,
   exact_iff stringCounting_sticky (s := { refCount := 1 }) Int.one_pos ops,
   exact_iff vectorCounting_sticky (s := { refCount := 1 }) Int.one_pos ops⟩

/-- `n` retains of a fresh object, then a release for every reference. -/
def climb (n : Nat) : List Op := List.replicate n .retain ++ List.replicate (n + 1) .release

theorem count_take_climb (n j : Nat) :
    ((climb n).take j).count .retain = min j n ∧
      ((climb n).take j).count .release = min (j - n) (n + 1) := by
  simp [climb, List.take_append, List.count_append, List.take_replicate, List.count_replicate]

theorem height_climb (n j : Nat) :
    height 1 (climb n) j = 1 + (min j n : Nat) - (min (j - n) (n + 1) : Nat) := by
  rw [height, (count_take_climb n j).1, (count_take_climb n j).2]

theorem balancedAt_climb (n : Nat) : BalancedAt 1 (climb n) (2 * n) := by
  refine ⟨by simp [climb]; omega, ?_, fun j hj => ?_⟩ <;> rw [height_climb] <;> omega

/-- A climb to the sentinel or beyond it passes through the sentinel. -/
theorem not_avoidsWeak_climb {n : Nat} (hn : 409 ≤ n) : ¬ AvoidsWeak sxWeakObject 1 (climb n) := by
  intro h
  refine h (2 * n) (balancedAt_climb n) 409 (by omega) ?_
  rw [height_climb, sxWeakObject]
  omega

/-- An object of any of the three kinds that is retained up to the sentinel is never freed, although every
    reference is given back and none that was not held. -/
theorem refCount_sentinel_leak :
    (∀ j, ((climb 409).take j).count .release ≤ ((climb 409).take j).count .retain + 1) ∧
      BalancedAt 1 (climb 409) 818 ∧
      ¬ objectCounting.Exact (sxObjInit {} .freeServer) (climb 409) ∧
      ¬ stringCounting.Exact { refCount := 1 } (climb 409) ∧
      ¬ vectorCounting.Exact { refCount := 1 } (climb 409) := by
  have havoid := not_avoidsWeak_climb (Nat.le_refl 409)
  refine ⟨?_, balancedAt_climb 409, ?_, ?_, ?_⟩
  · intro j
    rw [(count_take_climb 409 j).1, (count_take_climb 409 j).2]; omega
  · exact mt (exact_iff objectCounting_sticky (s := sxObjInit {} .freeServer) Int.one_pos _).mp havoid
  · exact mt (exact_iff stringCounting_sticky (s := { refCount := 1 }) Int.one_pos _).mp havoid
  · exact mt (exact_iff vectorCounting_sticky (s := { refCount := 1 }) Int.one_pos _).mp havoid

end SpartanX
