import Mathlib.Data.List.Perm.Basic
import Mathlib.Data.List.Nodup
import SpartanX.Lib.Machine
import SpartanX.Lib.Parties

/-!
# `Lib.DescriptorTable` — a machine and the descriptors its process has open

The system hands a process only descriptors the process does not have open, and a `close` of any other than an open
one goes astray: it fails, or it closes what another part of the process has opened since. `withTable` runs a
machine together with such a table.

Who owes which descriptor is the machine's affair. If every step accounts for the descriptors it gets and closes
(`Accounts`), the table is at all times what is owned, each descriptor once, and no close has gone astray
(`Balanced`, `balanced_step`).
-/

namespace DescriptorTable

open Machine
open scoped List

variable {σ α ε φ : Type}

/-- The open descriptors of a process, and the ones it closed when they were not open. -/
structure Table (φ : Type) where
  opened : List φ := []
  stray  : List φ := []
  deriving DecidableEq, Repr

section Table

variable [DecidableEq φ]

/-- `close(fd)`. -/
def Table.close (t : Table φ) (fd : φ) : Table φ :=
  if fd ∈ t.opened then { t with opened := t.opened.erase fd } else { t with stray := fd :: t.stray }

/-- The system returns the descriptor `fd`, if a call asks for one. -/
def Table.get (t : Table φ) : Option φ → Option (Table φ)
  | none    => some t
  | some fd => if fd ∈ t.opened then none else some { t with opened := fd :: t.opened }

/-- A machine with the table of its process: action `a` gets the descriptor `gets a`, event `e` is a close of
    `closes e`. -/
def withTable (step : Step σ α ε) (gets : α → Option φ) (closes : ε → Option φ) : Step (σ × Table φ) α ε :=
  fun (s, t) a =>
    match step s a, t.get (gets a) with
    | some (s', es), some t' => some ((s', (es.filterMap closes).foldl .close t'), es)
    | _, _                   => none

end Table

/-! ## Accounting for descriptors -/

/-- A step that gets the descriptors `got` and closes `gone` turns those owned into `owned'`. -/
def Accounts (got gone owned owned' : List φ) : Prop := (got ++ owned).Perm (gone ++ owned')

section Accounts

variable {got gone owned owned' : List φ}

/-- Who takes no part in the step keeps what it owns. -/
theorem Accounts.frame (h : Accounts got gone owned owned') (rest : List φ) :
    Accounts got gone (rest ++ owned) (rest ++ owned') :=
  (List.perm_append_comm_assoc got rest owned).trans
    ((List.Perm.append_left rest h).trans (List.perm_append_comm_assoc rest gone owned'))

/-- Who owns which does not depend on the order. -/
theorem Accounts.of_perm {owned₁ owned₁' : List φ} (h : Accounts got gone owned owned') (ho : owned ~ owned₁)
    (ho' : owned' ~ owned₁') : Accounts got gone owned₁ owned₁' :=
  (ho.symm.append_left got).trans (h.trans (ho'.append_left gone))

/-- One of many parties accounts for the descriptors of its step. -/
theorem Accounts.party {κ : Type} {f : κ → List φ} {l : List κ} {i : Nat} {a b : κ} (hi : l[i]? = some a)
    (h : Accounts got gone (f a) (f b)) : Accounts got gone (l.flatMap f) ((l.set i b).flatMap f) := by
  have hset := Parties.flatMap_set (b := b) f hi
  refine (List.perm_append_left_iff (f b)).mp ?_
  calc f b ++ (got ++ l.flatMap f)
      ~ got ++ (f b ++ l.flatMap f) := List.perm_append_comm_assoc ..
    _ ~ got ++ (f a ++ (l.set i b).flatMap f) := hset.append_left got
    _ ~ gone ++ f b ++ (l.set i b).flatMap f := by
        rw [← List.append_assoc]
        exact h.append_right _
    _ ~ f b ++ (gone ++ (l.set i b).flatMap f) := by
        rw [List.append_assoc]
        exact List.perm_append_comm_assoc ..

end Accounts

/-! ## The table -/

/-- The table is what is owned, each descriptor once, and no close has gone astray. -/
structure Balanced (t : Table φ) (owned : List φ) : Prop where
  opened : t.opened.Perm owned
  nodup  : t.opened.Nodup
  stray  : t.stray = []

section Balanced

variable [DecidableEq φ] {step : Step σ α ε} {gets : α → Option φ} {closes : ε → Option φ} {s s' : σ}
variable {t t' : Table φ} {a : α} {es : List ε} {fd : φ} {gone owned owned' : List φ} {got : Option φ}

/-- A step with the table is a step. -/
theorem withTable_eq_some (h : withTable step gets closes (s, t) a = some ((s', t'), es)) :
    step s a = some (s', es) ∧
      ∃ t₁, t.get (gets a) = some t₁ ∧ t' = (es.filterMap closes).foldl .close t₁ := by
  simp only [withTable] at h
  split at h
  · next s₁ es₁ t₁ hs hget =>
      cases h
      exact ⟨hs, t₁, hget, rfl⟩
  · cases h

/-- A run with the table is a run. -/
theorem run_of_withTable {acts : List α} {tr : List ε}
    (h : run (withTable step gets closes) (s, t) acts = some ((s', t'), tr)) : run step s acts = some (s', tr) := by
  induction acts generalizing s t tr with
  | nil =>
      cases h
      rfl
  | cons a acts ih =>
      obtain ⟨⟨s₁, t₁⟩, es, es', hs, hr, rfl⟩ := run_cons_iff.mp h
      exact run_cons_iff.mpr ⟨s₁, es, es', (withTable_eq_some hs).1, ih hr, rfl⟩

/-- The system returns no open descriptor. -/
theorem Balanced.get (hi : Balanced t owned) (h : t.get got = some t') : Balanced t' (got.toList ++ owned) := by
  cases got with
  | none =>
      cases h
      exact hi
  | some fd =>
      simp only [Table.get] at h
      split at h
      · cases h
      · next hfresh =>
          cases h
          exact ⟨hi.opened.cons fd, List.nodup_cons.mpr ⟨hfresh, hi.nodup⟩, hi.stray⟩

/-- Who closes what it owns takes it off the table. -/
theorem Balanced.close (hi : Balanced t (fd :: owned)) : Balanced (t.close fd) owned := by
  have hopen : fd ∈ t.opened := hi.opened.symm.subset List.mem_cons_self
  unfold Table.close
  rw [if_pos hopen]
  refine ⟨?_, hi.nodup.erase fd, hi.stray⟩
  have herase := hi.opened.erase fd
  rwa [List.erase_cons_head] at herase

/-- Closing several. -/
theorem Balanced.closeAll (hi : Balanced t (gone ++ owned)) : Balanced (gone.foldl .close t) owned := by
  induction gone generalizing t with
  | nil => exact hi
  | cons fd gone ih => exact ih hi.close

/-- **A step that accounts for its descriptors keeps the table balanced.** -/
theorem balanced_step (hi : Balanced t owned) (h : withTable step gets closes (s, t) a = some ((s', t'), es))
    (hacc : Accounts (gets a).toList (es.filterMap closes) owned owned') : Balanced t' owned' := by
  obtain ⟨_, t₁, hget, rfl⟩ := withTable_eq_some h
  obtain ⟨hopened, hnodup, hstray⟩ := hi.get hget
  exact Balanced.closeAll ⟨hopened.trans hacc, hnodup, hstray⟩

end Balanced

end DescriptorTable
