import Mathlib.Algebra.GroupWithZero.Nat
import Mathlib.Data.List.Basic

/-!
# `Lib.Parties` — a list of parties of which one takes a step

The state of many like parties is a list; when party `i` goes from `a` to `b` the list becomes `l.set i b`.
These are the facts an invariant over all of them needs: how a count or a sum changes and when two counts agree, what
becomes of that which the parties own together, and that what holds of all others and of the new state holds of all.
-/

namespace Parties

variable {α : Type} {l : List α} {i : Nat} {a b : α}

/-- A count loses what the party was and gains what it is. -/
theorem countP_set (p : α → Bool) (h : l[i]? = some a) :
    (l.set i b).countP p + (if p a then 1 else 0) = l.countP p + (if p b then 1 else 0) := by
  obtain ⟨hi, rfl⟩ := List.getElem?_eq_some_iff.mp h
  have hle := List.boole_getElem_le_countP (p := p) hi
  rw [List.countP_set hi]
  omega

/-- A party that is like before leaves a count as it is. -/
theorem countP_set_eq {p : α → Bool} (h : l[i]? = some a) (hp : p b = p a) :
    (l.set i b).countP p = l.countP p := by
  have hset := countP_set (b := b) p h
  rw [hp] at hset
  omega

/-- A party that comes to be counted adds one. -/
theorem countP_set_gain {p : α → Bool} (h : l[i]? = some a) (ha : p a = false) (hb : p b = true) :
    (l.set i b).countP p = l.countP p + 1 := by
  have hset := countP_set (b := b) p h
  simpa [ha, hb] using hset

/-- A party that is no longer counted takes one away. -/
theorem countP_set_loss {p : α → Bool} (h : l[i]? = some a) (ha : p a = true) (hb : p b = false) :
    (l.set i b).countP p + 1 = l.countP p := by
  have hset := countP_set (b := b) p h
  simpa [ha, hb] using hset

/-- Two counts of which one covers the other agree iff nothing is counted by the larger one alone. -/
theorem countP_eq_iff {p q : α → Bool} (hpq : ∀ x ∈ l, q x = true → p x = true) :
    l.countP p = l.countP q ↔ ∀ x ∈ l, p x = true → q x = true := by
  constructor
  · intro h
    induction l with
    | nil => simp
    | cons x l ih =>
        have hle : l.countP q ≤ l.countP p :=
          List.countP_mono_left fun y hy => hpq y (List.mem_cons_of_mem x hy)
        have hx := hpq x List.mem_cons_self
        rw [List.countP_cons, List.countP_cons] at h
        have hhead : p x = true → q x = true := by
          intro hp
          by_contra hq
          rw [if_pos hp, if_neg hq] at h
          omega
        have htail : l.countP p = l.countP q := by
          split at h <;> split at h <;> first | omega | simp_all
        intro y hy
        rcases List.mem_cons.mp hy with rfl | hy
        · exact hhead
        · exact ih (fun z hz => hpq z (List.mem_cons_of_mem x hz)) htail y hy
  · intro h
    exact List.countP_congr fun x hx => ⟨h x hx, hpq x hx⟩

/-- A sum over the parties loses what the party had and gains what it has. -/
theorem sum_set (f : α → Nat) (h : l[i]? = some a) : ((l.set i b).map f).sum + f a = (l.map f).sum + f b := by
  obtain ⟨hi, rfl⟩ := List.getElem?_eq_some_iff.mp h
  have hsplit : l.map f = (l.take i).map f ++ f l[i] :: (l.drop (i + 1)).map f := by
    rw [← List.map_cons, ← List.drop_eq_getElem_cons hi, ← List.map_append, List.take_append_drop]
  rw [hsplit, List.set_eq_take_append_cons_drop, if_pos hi, List.map_append, List.map_cons, List.sum_append,
    List.sum_append, List.sum_cons, List.sum_cons]
  omega

/-- What the parties own together loses what the party owned and gains what it owns. -/
theorem flatMap_set {β : Type} (f : α → List β) (h : l[i]? = some a) :
    (f b ++ l.flatMap f).Perm (f a ++ (l.set i b).flatMap f) := by
  obtain ⟨hi, rfl⟩ := List.getElem?_eq_some_iff.mp h
  have hsplit : l.flatMap f = (l.take i).flatMap f ++ (f l[i] ++ (l.drop (i + 1)).flatMap f) := by
    rw [← List.flatMap_cons, ← List.drop_eq_getElem_cons hi, ← List.flatMap_append, List.take_append_drop]
  rw [hsplit, List.set_eq_take_append_cons_drop, if_pos hi, List.flatMap_append, List.flatMap_cons]
  -- both sides are the two parties' shares and those of the others, in another order
  refine (List.perm_append_comm_assoc (f b) _ _).trans (.trans (.append_left _ ?_)
    (List.perm_append_comm_assoc _ (f l[i]) _))
  exact List.perm_append_comm_assoc (f b) (f l[i]) _

/-- What the step of one party and all others have, all have. -/
theorem forall_mem_set {P : α → Prop} (hall : ∀ x ∈ l, P x) (hb : P b) : ∀ x ∈ l.set i b, P x := by
  intro x hx
  rcases List.mem_or_eq_of_mem_set hx with h | rfl
  · exact hall x h
  · exact hb

end Parties
