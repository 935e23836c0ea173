import Mathlib.Data.List.Perm.Basic
import Mathlib.Data.List.Nodup

/-!
# `Lib.Multiplexer` — descriptors reported in batches and served one at a time

An event loop around `kevent`, `epoll_wait` or `poll` holds descriptors: those it waits for, the one whose event it
is serving, and one it has accepted and not registered yet. The system reports the ready ones in batches, and the
loop works a batch off while descriptors come and go. Whatever the loop does, two things have to hold: what was
accepted is held or was closed, each once (`Inv.ledger`, `Inv.distinct`), and what is left of a batch is still
waited for (`Inv.known`). A loop has both if all it does to its descriptors are the moves of `Move` (`Inv.move`).
-/

namespace Multiplexer

variable {φ : Type}

/-- The descriptors of an event loop: the one it listens on, those it waits for, the open one it serves, the one it
    has accepted last and not registered, and what is left of the batch. -/
structure Table (φ : Type) where
  listening : φ
  waiting   : List φ
  serving   : Option φ
  fresh     : Option φ
  batch     : List φ

/-- The accepted descriptors the loop has not closed. -/
def Table.held (t : Table φ) : List φ := t.waiting ++ (t.serving.toList ++ t.fresh.toList)

/-- What the loop may do to its descriptors, with the ones it accepts and the ones it closes. -/
inductive Move (t : Table φ) : Table φ → List φ → List φ → Prop
  | stay : Move t t [] []
  | listen (fd : φ) (hheld : t.held = []) (hbatch : t.batch = []) : Move t { t with listening := fd } [] []
  | report (batch : List φ) (honce : batch.Nodup) (hknown : ∀ fd ∈ batch, fd = t.listening ∨ fd ∈ t.waiting) :
      Move t { t with batch := batch } [] []
  | skip (fd : φ) (batch : List φ) (hbatch : t.batch = fd :: batch) : Move t { t with batch := batch } [] []
  | accept (fd : φ) (hserving : t.serving = none) (hfresh : t.fresh = none) (hlisten : fd ≠ t.listening)
      (hwaiting : fd ∉ t.waiting) : Move t { t with fresh := some fd } [fd] []
  | register (fd : φ) (hfresh : t.fresh = some fd) :
      Move t { t with waiting := t.waiting ++ [fd], fresh := none } [] []
  | serve (fd : φ) (batch waiting : List φ) (hserving : t.serving = none) (hbatch : t.batch = fd :: batch)
      (hwaiting : t.waiting.Perm (fd :: waiting)) :
      Move t { t with waiting := waiting, serving := some fd, batch := batch } [] []
  | keep (fd : φ) (hserving : t.serving = some fd) :
      Move t { t with waiting := t.waiting ++ [fd], serving := none } [] []
  | close (fd : φ) (hserving : t.serving = some fd) : Move t { t with serving := none } [] [fd]

/-- The invariant: what was accepted was closed or is held, the descriptors in use differ, the batch names each at
    most once, and only ones the loop listens on or waits for. -/
structure Inv (t : Table φ) (accepted closed : List φ) : Prop where
  ledger   : accepted.Perm (closed ++ t.held)
  distinct : (t.listening :: t.held).Nodup
  once     : t.batch.Nodup
  known    : ∀ fd ∈ t.batch, fd = t.listening ∨ fd ∈ t.waiting

section Inv

variable {t t' : Table φ} {accepted closed opened gone : List φ}

/-- The loop that holds nothing. -/
theorem inv_empty (fd : φ) : Inv ⟨fd, [], none, none, []⟩ [] [] :=
  ⟨List.Perm.refl _, List.nodup_singleton fd, List.nodup_nil, by simp⟩

/-- A descriptor of the batch is not being served, and neither is the one the loop listens on. -/
theorem Inv.serving {fd : φ} (hi : Inv t accepted closed) (hserving : t.serving = some fd) :
    fd ∉ t.batch ∧ fd ≠ t.listening ∧ fd ∉ t.waiting := by
  have hmem : fd ∈ t.serving.toList ++ t.fresh.toList := by simp [hserving]
  obtain ⟨hlisten, hheld⟩ := List.nodup_cons.mp hi.distinct
  have hne : fd ≠ t.listening := by
    rintro rfl
    exact hlisten (List.mem_append_right _ hmem)
  have hwaiting : fd ∉ t.waiting := fun h => List.disjoint_of_nodup_append hheld h hmem
  exact ⟨fun h => (hi.known fd h).elim hne hwaiting, hne, hwaiting⟩

/-- A move that neither accepts nor closes, and holds the same descriptors. -/
theorem Inv.reorder (hi : Inv t accepted closed) (hheld : t.held.Perm t'.held)
    (hlisten : t'.listening = t.listening) (honce : t'.batch.Nodup)
    (hknown : ∀ fd ∈ t'.batch, fd = t'.listening ∨ fd ∈ t'.waiting) : Inv t' accepted closed :=
  ⟨hi.ledger.trans (hheld.append_left closed), hlisten ▸ (hheld.cons t.listening).nodup_iff.mp hi.distinct,
    honce, hknown⟩

/-- **The invariant survives every move.** -/
theorem Inv.move (hi : Inv t accepted closed) (hm : Move t t' opened gone) :
    Inv t' (accepted ++ opened) (closed ++ gone) := by
  cases hm with
  | stay => simpa using hi
  | listen fd hheld hbatch =>
      rw [List.append_nil, List.append_nil]
      have hnone : Table.held { t with listening := fd } = [] := hheld
      refine ⟨hi.ledger, ?_, hi.once, ?_⟩
      · rw [hnone]
        exact List.nodup_singleton fd
      · intro fd' h
        rw [show t.batch = [] from hbatch] at h
        cases h
  | report batch honce hknown =>
      rw [List.append_nil, List.append_nil]
      exact hi.reorder (List.Perm.refl _) rfl honce hknown
  | skip fd batch hbatch =>
      rw [List.append_nil, List.append_nil]
      have honce := hi.once
      rw [hbatch] at honce
      refine hi.reorder (List.Perm.refl _) rfl (List.nodup_cons.mp honce).2 ?_
      intro fd' h
      exact hi.known fd' (hbatch ▸ List.mem_cons_of_mem fd h)
  | accept fd hserving hfresh hlisten hwaiting =>
      have hheld : t.held = t.waiting := by simp [Table.held, hserving, hfresh]
      have hheld' : Table.held { t with fresh := some fd } = t.held ++ [fd] := by
        simp [Table.held, hserving, hfresh]
      have hout : fd ∉ t.listening :: t.held := by
        rw [hheld]
        exact List.not_mem_cons_of_ne_of_not_mem hlisten hwaiting
      refine ⟨?_, ?_, hi.once, hi.known⟩
      · rw [List.append_nil, hheld', ← List.append_assoc]
        exact hi.ledger.append_right [fd]
      · rw [hheld', ← List.cons_append]
        exact List.nodup_append.mpr ⟨hi.distinct, List.nodup_singleton fd, by
          rintro a ha b hb rfl
          exact hout (List.mem_singleton.mp hb ▸ ha)⟩
  | register fd hfresh =>
      rw [List.append_nil, List.append_nil]
      refine hi.reorder ?_ rfl hi.once fun fd' h => (hi.known fd' h).imp_right (List.mem_append_left [fd])
      simp only [Table.held, hfresh, Option.toList_some, Option.toList_none, List.append_nil, List.append_assoc]
      exact List.perm_append_comm.append_left t.waiting
  | serve fd batch waiting hserving hbatch hwaiting =>
      rw [List.append_nil, List.append_nil]
      have honce := hi.once
      rw [hbatch] at honce
      obtain ⟨hfd, honce⟩ := List.nodup_cons.mp honce
      refine hi.reorder ?_ rfl honce ?_
      · simp only [Table.held, hserving, Option.toList_some, Option.toList_none, List.nil_append]
        exact (hwaiting.append_right t.fresh.toList).trans List.perm_middle.symm
      · intro fd' h
        refine (hi.known fd' (hbatch ▸ List.mem_cons_of_mem fd h)).imp_right fun hmem => ?_
        refine (List.mem_cons.mp (hwaiting.mem_iff.mp hmem)).resolve_left ?_
        rintro rfl
        exact hfd h
  | keep fd hserving =>
      rw [List.append_nil, List.append_nil]
      refine hi.reorder ?_ rfl hi.once fun fd' h => (hi.known fd' h).imp_right (List.mem_append_left [fd])
      simp [Table.held, hserving]
  | close fd hserving =>
      have hheld : t.held.Perm (fd :: Table.held { t with serving := none }) := by
        simp only [Table.held, hserving, Option.toList_some, Option.toList_none, List.nil_append]
        exact List.perm_middle
      refine ⟨?_, ?_, hi.once, hi.known⟩
      · rw [List.append_nil, List.append_assoc]
        exact hi.ledger.trans (hheld.append_left closed)
      · exact ((List.Perm.swap fd t.listening _).nodup_iff.mp
          ((hheld.cons t.listening).nodup_iff.mp hi.distinct)).of_cons

end Inv

end Multiplexer
