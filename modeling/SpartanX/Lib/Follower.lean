import Mathlib.Data.List.Basic

/-!
# `Lib.Follower` — a value kept up to date through a cache

A follower has a value of its own and a cache of the value it follows. It takes the followed value over when it sees
that this differs from the cache; its own value it never compares. The cache is always what was seen last
(`cache_after`). The own value is so too iff it was right when the cache was set up, or some value seen since then
differed from the one the cache was set up with (`own_after_iff`).
-/

/-- The cache of a followed value, and the own value that is to follow it. -/
structure Follower (α : Type) where
  cache : α
  own   : α
  deriving DecidableEq, Repr

namespace Follower

variable {α : Type} [DecidableEq α]

/-- The followed value is seen, and taken over if it differs from the cache. -/
def see (f : Follower α) (v : α) : Follower α := if v ≠ f.cache then { cache := v, own := v } else f

theorem see_eq (f : Follower α) (v : α) :
    f.see v = { cache := if v ≠ f.cache then v else f.cache, own := if v ≠ f.cache then v else f.own } := by
  unfold see
  by_cases h : v ≠ f.cache
  · rw [if_pos h, if_pos h, if_pos h]
  · rw [if_neg h, if_neg h, if_neg h]

/-- A follower set up with the value `start` in its cache, after it has seen the given values, the last one first. -/
def after (start own : α) : List α → Follower α
  | []        => { cache := start, own := own }
  | v :: seen => (after start own seen).see v

/-- The cache is what was seen last. -/
theorem cache_after (start own : α) (seen : List α) : (after start own seen).cache = seen.headD start := by
  cases seen with
  | nil => rfl
  | cons v seen =>
      show ((after start own seen).see v).cache = v
      unfold see
      split
      · rfl
      · next h => exact (not_not.mp h).symm

/-- As long as nothing new is seen, the own value stays what it was. -/
theorem own_after_of_unchanged {start own : α} {seen : List α} (h : ∀ v ∈ seen, v = start) :
    (after start own seen).own = own := by
  induction seen with
  | nil => rfl
  | cons v seen ih =>
      have htail : ∀ w ∈ seen, w = start := fun w hw => h w (List.mem_cons_of_mem v hw)
      have hcache : v = (after start own seen).cache := by
        rw [cache_after, h v List.mem_cons_self]
        cases seen with
        | nil => rfl
        | cons w seen => exact (htail w List.mem_cons_self).symm
      show ((after start own seen).see v).own = own
      rw [see, if_neg (not_not.mpr hcache), ih htail]

/-- Once something new has been seen, the own value is what was seen last. -/
theorem own_after_of_changed {start own : α} {seen : List α} (h : ∃ v ∈ seen, v ≠ start) :
    (after start own seen).own = seen.headD start := by
  induction seen with
  | nil =>
      obtain ⟨v, hv, _⟩ := h
      cases hv
  | cons v seen ih =>
      show ((after start own seen).see v).own = v
      unfold see
      split
      · rfl
      · next hsame =>
          have hlast : v = seen.headD start := by rw [← cache_after start own seen, not_not.mp hsame]
          -- what is seen again is new only if something before it was
          have htail : ∃ w ∈ seen, w ≠ start := by
            obtain ⟨w, hw, hne⟩ := h
            rcases List.mem_cons.mp hw with rfl | hw
            · cases seen with
              | nil => exact absurd hlast hne
              | cons u seen => exact ⟨u, List.mem_cons_self, fun hu => hne (hlast.trans hu)⟩
            · exact ⟨w, hw, hne⟩
          rw [ih htail, hlast]

/-- **When a follower has what it follows.** -/
theorem own_after_iff {start own : α} {seen : List α} :
    (after start own seen).own = seen.headD start ↔ own = start ∨ ∃ v ∈ seen, v ≠ start := by
  by_cases h : ∃ v ∈ seen, v ≠ start
  · exact iff_of_true (own_after_of_changed h) (Or.inr h)
  · have hsame : ∀ v ∈ seen, v = start := fun v hv => by_contra fun hne => h ⟨v, hv, hne⟩
    have hlast : seen.headD start = start := by
      cases seen with
      | nil => rfl
      | cons v seen => exact hsame v List.mem_cons_self
    rw [own_after_of_unchanged hsame, hlast, or_iff_left h]

end Follower
