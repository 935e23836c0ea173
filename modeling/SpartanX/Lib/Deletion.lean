import SpartanX.Lib.Occurrences

/-!
# `Lib.Deletion` — deleting occurrences of a pattern from a list

`deleteAt w ds s` is `s` without the windows of width `w` at the places `ds`. `sweep p n s` goes over `s` once, for
`n` steps: a step deletes the pattern if the rest begins with it, and then passes one element, without looking at what
has moved into the place of the pattern. So the sweep deletes the first occurrence, and then always the first that
begins more than the length of the pattern behind the one before (`picks`, `sweep_eq_deleteAt`). It deletes all of
them iff it comes to each (`picks_eq_occurrences_iff`, if they are so far apart), and what it leaves is without the
pattern iff this is not found across the places of deletion (`not_infix_deleteAt_picks_iff`).

## Contents
- **Deleting windows.** `keptIndices`, `deleteAt`, `length_deleteAt`.
- **Picking places.** `pickFrom`, `picks`, `SpacedOut`, `picks_eq_occurrences_iff`.
- **Sweeping.** `sweep`, `sweep_induction`, `sweep_eq_deleteAt`.
- **What a sweep leaves.** `Settled`, `not_infix_deleteAt_picks_iff`.
-/

namespace Deletion

open Occurrences

variable {α : Type}

/-! ## Deleting windows -/

/-- The indices below `n` outside the windows of width `w` at the places `ds`. -/
def keptIndices (w : Nat) (ds : List Nat) (n : Nat) : List Nat :=
  (List.range n).filter fun i => ∀ d ∈ ds, i < d ∨ d + w ≤ i

/-- The list without these windows. -/
def deleteAt (w : Nat) (ds : List Nat) (s : List α) : List α := (keptIndices w ds s.length).filterMap (s[·]?)

@[simp] theorem keptIndices_nil (w n : Nat) : keptIndices w [] n = List.range n := by simp [keptIndices]

theorem mem_keptIndices {w n i : Nat} {ds : List Nat} :
    i ∈ keptIndices w ds n ↔ i < n ∧ ∀ d ∈ ds, i < d ∨ d + w ≤ i := by
  unfold keptIndices
  rw [List.mem_filter, List.mem_range, decide_eq_true_eq]

/-- The indices from `a` on are kept as those before them, if the windows are in the same places there. -/
theorem keptIndices_add {w a n : Nat} {ds es : List Nat}
    (h : ∀ i, (∀ d ∈ ds, a + i < d ∨ d + w ≤ a + i) ↔ ∀ d ∈ es, i < d ∨ d + w ≤ i) :
    keptIndices w ds (a + n) = keptIndices w ds a ++ (keptIndices w es n).map (· + a) := by
  have hbehind : ((fun i => decide (∀ d ∈ ds, i < d ∨ d + w ≤ i)) ∘ fun i => a + i) =
      fun i => decide (∀ d ∈ es, i < d ∨ d + w ≤ i) := by
    funext i
    rw [Function.comp_apply, decide_eq_decide, h i]
  unfold keptIndices
  rw [List.range_add, List.filter_append, List.filter_map, hbehind]
  simp only [Nat.add_comm a]

/-- Windows behind the first `a` indices. -/
theorem keptIndices_shift (w a n : Nat) (ds : List Nat) :
    keptIndices w (ds.map (· + a)) (a + n) = List.range a ++ (keptIndices w ds n).map (· + a) := by
  have hbefore : keptIndices w (ds.map (· + a)) a = List.range a := by
    apply List.filter_eq_self.mpr
    intro i hi
    have hlt := List.mem_range.mp hi
    rw [decide_eq_true_eq, List.forall_mem_map]
    intro d _
    omega
  rw [keptIndices_add, hbefore]
  intro i
  rw [List.forall_mem_map]
  exact forall₂_congr fun d _ => by omega

/-- A window over the first indices. -/
theorem keptIndices_front (w n : Nat) (ds : List Nat) :
    keptIndices w (0 :: ds.map (· + w)) (w + n) = (keptIndices w ds n).map (· + w) := by
  have hbefore : keptIndices w (0 :: ds.map (· + w)) w = [] := by
    rw [List.eq_nil_iff_forall_not_mem]
    intro i hi
    obtain ⟨hlt, hout⟩ := mem_keptIndices.mp hi
    have hfirst := hout 0 List.mem_cons_self
    omega
  rw [keptIndices_add, hbefore, List.nil_append]
  intro i
  rw [List.forall_mem_cons, List.forall_mem_map, and_iff_right (show w + i < 0 ∨ 0 + w ≤ w + i by omega)]
  exact forall₂_congr fun d _ => by omega

/-- Windows behind the first index. -/
theorem keptIndices_cons (w n : Nat) (ds : List Nat) :
    keptIndices w (ds.map (· + 1)) (n + 1) = 0 :: (keptIndices w ds n).map (· + 1) := by
  rw [Nat.add_comm n, keptIndices_shift]
  rfl

/-- Places further on by `a` and then by `b`. -/
theorem map_add_add (a b : Nat) (ds : List Nat) : (ds.map (· + a)).map (· + b) = ds.map (· + (b + a)) := by
  rw [List.map_map]
  exact List.map_congr_left fun d _ => by
    show d + a + b = d + (b + a)
    omega

/-- A window over the first indices, and windows behind the one that follows. -/
theorem keptIndices_hit (w n : Nat) (ds : List Nat) :
    keptIndices w (0 :: ds.map (· + (w + 1))) (w + (n + 1)) = w :: (keptIndices w ds n).map (· + (w + 1)) := by
  rw [← map_add_add, keptIndices_front, keptIndices_cons, List.map_cons, map_add_add, Nat.zero_add]

/-- The elements at the indices that are kept. -/
theorem map_some_deleteAt (w : Nat) (ds : List Nat) (s : List α) :
    (deleteAt w ds s).map some = (keptIndices w ds s.length).map (s[·]?) := by
  have hall : ∀ is : List Nat, (∀ i ∈ is, i < s.length) → (is.filterMap (s[·]?)).map some = is.map (s[·]?) := by
    intro is
    induction is with
    | nil => exact fun _ => rfl
    | cons i is ih =>
        intro h
        obtain ⟨hi, his⟩ := List.forall_mem_cons.mp h
        have hget : s[i]? = some s[i] := List.getElem?_eq_getElem hi
        rw [List.filterMap_cons_some hget, List.map_cons, ih his, List.map_cons, hget]
  exact hall _ fun i hi => (mem_keptIndices.mp hi).1

theorem eq_deleteAt {w : Nat} {ds : List Nat} {s t : List α}
    (h : t.map some = (keptIndices w ds s.length).map (s[·]?)) : t = deleteAt w ds s :=
  List.map_injective_iff.mpr (fun _ _ h => Option.some.inj h) (h.trans (map_some_deleteAt w ds s).symm)

/-- The elements at the first indices. -/
theorem map_range_getElem? (q s : List α) : (List.range q.length).map ((q ++ s)[·]?) = q.map some := by
  induction q with
  | nil => rfl
  | cons x q ih =>
      rw [List.length_cons, List.range_succ_eq_map, List.map_cons, List.map_map, List.map_cons, ← ih]
      rfl

/-- The elements at indices behind the first ones. -/
theorem map_add_getElem? (q s : List α) (is : List Nat) :
    (is.map (· + q.length)).map ((q ++ s)[·]?) = is.map (s[·]?) := by
  rw [List.map_map]
  exact List.map_congr_left fun i _ => by
    show (q ++ s)[i + q.length]? = s[i]?
    rw [List.getElem?_append_right (Nat.le_add_left ..), Nat.add_sub_cancel]

@[simp] theorem deleteAt_nil (w : Nat) (s : List α) : deleteAt w [] s = s := by
  refine (eq_deleteAt ?_).symm
  have hall := map_range_getElem? s []
  rw [List.append_nil] at hall
  rw [keptIndices_nil, hall]

/-- Windows behind a first part of the list leave that part. -/
theorem deleteAt_append (w : Nat) (ds : List Nat) (q s : List α) :
    deleteAt w (ds.map (· + q.length)) (q ++ s) = q ++ deleteAt w ds s := by
  refine (eq_deleteAt ?_).symm
  rw [List.length_append, keptIndices_shift, List.map_append, List.map_append, map_range_getElem?, map_add_getElem?,
    map_some_deleteAt]

/-- A window over the first part of the list deletes it. -/
theorem deleteAt_front (ds : List Nat) (q s : List α) :
    deleteAt q.length (0 :: ds.map (· + q.length)) (q ++ s) = deleteAt q.length ds s := by
  refine (eq_deleteAt ?_).symm
  rw [List.length_append, keptIndices_front, map_add_getElem?, map_some_deleteAt]

theorem deleteAt_cons (w : Nat) (ds : List Nat) (x : α) (s : List α) :
    deleteAt w (ds.map (· + 1)) (x :: s) = x :: deleteAt w ds s := deleteAt_append w ds [x] s

theorem deleteAt_hit (ds : List Nat) (q : List α) (x : α) (s : List α) :
    deleteAt q.length (0 :: ds.map (· + (q.length + 1))) (q ++ x :: s) = x :: deleteAt q.length ds s := by
  rw [← map_add_add, deleteAt_front, deleteAt_cons]

/-- **What is deleted**: all windows, if they lie in the list one behind the other. -/
theorem length_deleteAt {w : Nat} {ds : List Nat} (hds : ds.Pairwise fun i j => i + w ≤ j) :
    ∀ {s : List α}, (∀ d ∈ ds, d + w ≤ s.length) → (deleteAt w ds s).length + ds.length * w = s.length := by
  induction hn : ds.length generalizing ds with
  | zero =>
      intro s _
      rw [List.length_eq_zero_iff.mp hn, deleteAt_nil, Nat.zero_mul, Nat.add_zero]
  | succ n ih =>
      intro s hin
      obtain ⟨d, ds, rfl⟩ := List.exists_cons_of_length_eq_add_one hn
      obtain ⟨hfirst, hrest⟩ := List.pairwise_cons.mp hds
      obtain ⟨hd, hds'⟩ := List.forall_mem_cons.mp hin
      -- the first window lies between what is before it and the other windows
      obtain ⟨q, t, u, rfl, rfl, rfl⟩ : ∃ q t u : List α, s = q ++ (t ++ u) ∧ d = q.length ∧ w = t.length := by
        refine ⟨s.take d, (s.drop d).take w, (s.drop d).drop w, ?_, ?_, ?_⟩
        · rw [List.take_append_drop, List.take_append_drop]
        · rw [List.length_take]
          omega
        · rw [List.length_take, List.length_drop]
          omega
      obtain ⟨es, rfl⟩ : ∃ es : List Nat, ds = (es.map (· + t.length)).map (· + q.length) := by
        refine ⟨ds.map (· - (q.length + t.length)), ?_⟩
        rw [map_add_add, List.map_map]
        refine (List.map_id ds).symm.trans (List.map_congr_left fun d hd => ?_)
        have hle := hfirst d hd
        show d = d - (q.length + t.length) + (q.length + t.length)
        omega
      have hsplit : q.length :: (es.map (· + t.length)).map (· + q.length) =
          (0 :: es.map (· + t.length)).map (· + q.length) := by rw [List.map_cons, Nat.zero_add]
      rw [List.length_cons, List.length_map, List.length_map] at hn
      rw [map_add_add, List.pairwise_map] at hrest
      rw [map_add_add] at hds'
      have hinner := ih (hrest.imp fun {i j} h => by omega) (by omega) (s := u) (by
        intro e he
        have hle := hds' _ (List.mem_map_of_mem he)
        simp only [List.length_append] at hle
        omega)
      rw [hsplit, deleteAt_append, deleteAt_front]
      simp only [List.length_append, Nat.succ_mul]
      omega

/-! ## Picking places -/

/-- The places picked from a list in ascending order: from `next` on, each more than `w` behind the one picked before.
    The places must be below `limit`, which moves on by `w` with every place picked. -/
def pickFrom (w : Nat) : Nat → Nat → List Nat → List Nat
  | _,     _,    []      => []
  | limit, next, d :: ds =>
    if next ≤ d ∧ d < limit then d :: pickFrom w (limit + w) (d + w + 1) ds else pickFrom w limit next ds

section Pick

variable {w limit next : Nat} {ds es : List Nat}

theorem pickFrom_sublist : ∀ {limit next : Nat}, (pickFrom w limit next ds).Sublist ds := by
  induction ds with
  | nil => exact List.Sublist.refl []
  | cons d ds ih =>
      intro limit next
      unfold pickFrom
      split
      · exact ih.cons_cons d
      · exact ih.cons d

theorem le_of_mem_pickFrom : ∀ {limit next : Nat}, ∀ d ∈ pickFrom w limit next ds, next ≤ d := by
  induction ds with
  | nil => exact fun d hd => absurd hd List.not_mem_nil
  | cons d ds ih =>
      intro limit next
      unfold pickFrom
      split
      · next hpick =>
          refine List.forall_mem_cons.mpr ⟨hpick.1, fun e he => ?_⟩
          have hle := ih e he
          omega
      · exact ih

/-- The places picked are more than `w` apart. -/
theorem pairwise_pickFrom : ∀ {limit next : Nat}, (pickFrom w limit next ds).Pairwise fun i j => i + w < j := by
  induction ds with
  | nil => exact List.Pairwise.nil
  | cons d ds ih =>
      intro limit next
      unfold pickFrom
      split
      · exact List.pairwise_cons.mpr ⟨le_of_mem_pickFrom, ih⟩
      · exact ih

theorem pickFrom_zero : pickFrom w 0 next ds = [] := by
  induction ds with
  | nil => rfl
  | cons d ds ih => rw [pickFrom, if_neg (fun h => Nat.not_lt_zero d h.2), ih]

/-- Places before the first that may be picked. -/
theorem pickFrom_skip (h : ∀ d ∈ ds, d < next) : pickFrom w limit next (ds ++ es) = pickFrom w limit next es := by
  induction ds with
  | nil => rfl
  | cons d ds ih =>
      obtain ⟨hd, hds⟩ := List.forall_mem_cons.mp h
      rw [List.cons_append, pickFrom, if_neg (fun hpick => Nat.not_lt.mpr hpick.1 hd), ih hds]

/-- The first place that may be picked does not matter if no place lies before it. -/
theorem pickFrom_next (h : ∀ d ∈ ds, next ≤ d) : pickFrom w limit 0 ds = pickFrom w limit next ds := by
  induction ds with
  | nil => rfl
  | cons d ds ih =>
      obtain ⟨hd, hds⟩ := List.forall_mem_cons.mp h
      rw [pickFrom, pickFrom, ih hds]
      simp only [hd, Nat.zero_le]

/-- Places further on. -/
theorem pickFrom_map_add (a : Nat) : ∀ {limit next : Nat},
    pickFrom w (limit + a) (next + a) (ds.map (· + a)) = (pickFrom w limit next ds).map (· + a) := by
  induction ds with
  | nil => exact rfl
  | cons d ds ih =>
      intro limit next
      have hlimit : limit + a + w = limit + w + a := by omega
      have hnext : d + a + w + 1 = d + w + 1 + a := by omega
      rw [List.map_cons, pickFrom, pickFrom, hlimit, hnext, ih, ih]
      simp only [Nat.add_le_add_iff_right, Nat.add_lt_add_iff_right]
      split <;> rfl

/-- **All places are picked** iff they come before the limit, if they are more than `w` apart. -/
theorem pickFrom_eq_self_iff : ∀ {limit : Nat}, ds.Pairwise (fun i j => i + w < j) → (∀ d ∈ ds, next ≤ d) →
    (pickFrom w limit next ds = ds ↔ ∀ j (hj : j < ds.length), ds[j] < limit + j * w) := by
  induction ds generalizing next with
  | nil => exact fun _ _ => iff_of_true rfl fun j hj => absurd hj (Nat.not_lt_zero j)
  | cons d ds ih =>
      intro limit hds hnext
      obtain ⟨hfirst, hrest⟩ := List.pairwise_cons.mp hds
      have hd : next ≤ d := hnext d List.mem_cons_self
      unfold pickFrom
      by_cases hlt : d < limit
      · have hrec : pickFrom w (limit + w) (d + w + 1) ds = ds ↔ _ := ih hrest hfirst
        rw [if_pos ⟨hd, hlt⟩, List.cons.injEq, and_iff_right rfl, hrec]
        constructor
        · intro h j hj
          cases j with
          | zero => simpa using hlt
          | succ j =>
              have hj' := h j (Nat.lt_of_succ_lt_succ hj)
              rw [List.getElem_cons_succ, Nat.succ_mul]
              omega
        · intro h j hj
          have hj' := h (j + 1) (Nat.succ_lt_succ hj)
          rw [List.getElem_cons_succ, Nat.succ_mul] at hj'
          omega
      · rw [if_neg (fun hpick => hlt hpick.2)]
        refine iff_of_false ?_ ?_
        · intro heq
          have hle := (pickFrom_sublist : (pickFrom w limit next ds).Sublist ds).length_le
          rw [heq, List.length_cons] at hle
          omega
        · intro h
          have hz := h 0 (Nat.zero_lt_succ _)
          rw [List.getElem_cons_zero, Nat.zero_mul] at hz
          omega

end Pick

variable [DecidableEq α]

/-- The occurrences that are picked: the first, and then always the first that begins more than the length of the
    pattern behind the one before; as far as fewer than `n` elements are kept before them. -/
def picks (p s : List α) (n : Nat) : List Nat := pickFrom p.length n 0 (occurrences p s)

/-- Any two occurrences begin more than the length of the pattern apart. -/
def SpacedOut (p s : List α) : Prop := (occurrences p s).Pairwise fun i j => i + p.length + 1 ≤ j

instance (p s : List α) : Decidable (SpacedOut p s) :=
  inferInstanceAs (Decidable ((occurrences p s).Pairwise fun i j => i + p.length + 1 ≤ j))

section Picks

variable {p q s : List α} {x : α} {n : Nat}

theorem mem_occurrences_of_mem_picks {d : Nat} (h : d ∈ picks p s n) : d ∈ occurrences p s :=
  pickFrom_sublist.subset h

theorem pairwise_picks : (picks p s n).Pairwise fun i j => i + p.length ≤ j :=
  pairwise_pickFrom.imp fun h => Nat.le_of_lt h

/-- All occurrences are picked iff fewer than `n` elements are kept before each, if they are so far apart. -/
theorem picks_eq_occurrences_iff (h : SpacedOut p s) : picks p s n = occurrences p s ↔
    ∀ j (hj : j < (occurrences p s).length), (occurrences p s)[j] < n + j * p.length :=
  pickFrom_eq_self_iff h fun d _ => Nat.zero_le d

/-- The occurrences in a list are some in its first part, and those in the rest. -/
theorem occurrences_append_split (p q s : List α) : ∃ ds, (∀ d ∈ ds, d < q.length) ∧
    occurrences p (q ++ s) = ds ++ (occurrences p s).map (· + q.length) := by
  induction q with
  | nil => exact ⟨[], List.forall_mem_nil _, by simp⟩
  | cons x q ih =>
      obtain ⟨ds, hds, hocc⟩ := ih
      refine ⟨(if p <+: x :: (q ++ s) then [0] else []) ++ ds.map (· + 1), ?_, ?_⟩
      · intro d hd
        rcases List.mem_append.mp hd with hd | hd
        · split at hd
          · rw [List.mem_singleton.mp hd]
            exact Nat.zero_lt_succ _
          · exact absurd hd List.not_mem_nil
        · obtain ⟨e, he, rfl⟩ := List.mem_map.mp hd
          exact Nat.succ_lt_succ (hds e he)
      · rw [List.cons_append, occurrences_cons, hocc, List.map_append, map_add_add, List.append_assoc,
          List.length_cons, Nat.add_comm 1]

@[simp] theorem picks_zero (p s : List α) : picks p s 0 = [] := pickFrom_zero

@[simp] theorem picks_nil (p : List α) (n : Nat) : picks p [] n = [] := rfl

/-- Behind an element at which the pattern does not begin. -/
theorem picks_miss (h : ¬ p <+: x :: s) : picks p (x :: s) (n + 1) = (picks p s n).map (· + 1) := by
  have hnext : ∀ d ∈ (occurrences p s).map (· + 1), 0 + 1 ≤ d :=
    List.forall_mem_map.mpr fun d _ => Nat.add_le_add_right (Nat.zero_le d) 1
  unfold picks
  rw [occurrences_cons_miss h, pickFrom_next hnext, pickFrom_map_add]

/-- Behind the pattern and the element that follows it. -/
theorem picks_hit (hne : p ≠ []) (n : Nat) (x : α) (s : List α) :
    picks p (p ++ x :: s) (n + 1) = 0 :: (picks p s n).map (· + (p.length + 1)) := by
  obtain ⟨y, q, hq⟩ := List.exists_cons_of_ne_nil hne
  have hlist : p ++ x :: s = y :: ((q ++ [x]) ++ s) := by rw [hq, List.append_assoc]; rfl
  have hpre : p <+: y :: ((q ++ [x]) ++ s) := hlist ▸ List.prefix_append p (x :: s)
  have hlen : (q ++ [x]).length = p.length := by rw [hq, List.length_append]; rfl
  obtain ⟨ds, hds, hocc⟩ := occurrences_append_split p (q ++ [x]) s
  have hlimit : n + 1 + p.length = n + (p.length + 1) := by omega
  have hnext : 0 + p.length + 1 = 0 + (p.length + 1) := by omega
  unfold picks
  rw [hlist, occurrences_cons, if_pos hpre, hocc, hlen, List.singleton_append, pickFrom,
    if_pos ⟨Nat.le_refl 0, Nat.zero_lt_succ n⟩, List.map_append, map_add_add, Nat.add_comm 1, pickFrom_skip, hlimit,
    hnext, pickFrom_map_add]
  refine List.forall_mem_map.mpr fun d hd => ?_
  have hlt := hds d hd
  omega

/-- Behind the pattern at the end. -/
theorem picks_last (hne : p ≠ []) (n : Nat) : picks p p (n + 1) = [0] := by
  obtain ⟨y, q, rfl⟩ := List.exists_cons_of_ne_nil hne
  have hskip : ∀ d ∈ (occurrences (y :: q) q).map (· + 1), d < 0 + (y :: q).length + 1 := by
    refine List.forall_mem_map.mpr fun d hd => ?_
    have hlt := (mem_occurrences.mp hd).1
    rw [List.length_cons]
    omega
  unfold picks
  rw [occurrences_cons, if_pos (List.prefix_refl _), List.singleton_append, pickFrom,
    if_pos ⟨Nat.le_refl 0, Nat.zero_lt_succ n⟩, ← List.append_nil ((occurrences (y :: q) q).map _),
    pickFrom_skip hskip]
  rfl

end Picks

/-! ## Sweeping -/

/-- `n` steps over a list: delete the pattern if the rest begins with it, and pass one element. -/
def sweep (p : List α) : Nat → List α → List α
  | 0,     s => s
  | n + 1, s =>
    let rest := if p <+: s then s.drop p.length else s
    rest.take 1 ++ sweep p n (rest.drop 1)

section Sweep

variable {p q s : List α} {x : α} {n : Nat}

/-- **Induction along the sweep**: no step left, the end, the pattern at the end, the pattern and an element behind
    it, an element at which it does not begin. -/
theorem sweep_induction {motive : Nat → List α → Prop} (zero : ∀ s, motive 0 s) (nil : ∀ n, motive (n + 1) [])
    (last : ∀ n, motive (n + 1) p) (hit : ∀ n x s, motive n s → motive (n + 1) (p ++ x :: s))
    (miss : ∀ n x s, ¬ p <+: x :: s → motive n s → motive (n + 1) (x :: s)) : ∀ n s, motive n s := by
  intro n
  induction n with
  | zero => exact zero
  | succ n ih =>
      intro s
      cases s with
      | nil => exact nil n
      | cons x s =>
          by_cases h : p <+: x :: s
          · obtain ⟨rest, hrest⟩ := h
            rw [← hrest]
            cases rest with
            | nil =>
                rw [List.append_nil]
                exact last n
            | cons y rest => exact hit n y rest (ih rest)
          · exact miss n x s h (ih s)

@[simp] theorem sweep_zero (p s : List α) : sweep p 0 s = s := rfl

theorem sweep_nil (p : List α) : ∀ n, sweep p n [] = [] := by
  intro n
  induction n with
  | zero => rfl
  | succ n ih => simp [sweep, ih]

theorem sweep_last (p : List α) (n : Nat) : sweep p (n + 1) p = [] := by simp [sweep, sweep_nil]

theorem sweep_hit (p : List α) (n : Nat) (x : α) (s : List α) : sweep p (n + 1) (p ++ x :: s) = x :: sweep p n s := by
  simp [sweep]

theorem sweep_miss (h : ¬ p <+: x :: s) : sweep p (n + 1) (x :: s) = x :: sweep p n s := by simp [sweep, h]

/-- **A sweep deletes the occurrences that are picked, and nothing else.** -/
theorem sweep_eq_deleteAt (hne : p ≠ []) : ∀ n s, sweep p n s = deleteAt p.length (picks p s n) s := by
  intro n s
  induction n, s using sweep_induction (p := p) with
  | zero s => rw [sweep_zero, picks_zero, deleteAt_nil]
  | nil n => rw [sweep_nil, picks_nil, deleteAt_nil]
  | last n =>
      have hall := deleteAt_front [] p []
      rw [List.map_nil, List.append_nil, deleteAt_nil] at hall
      rw [sweep_last, picks_last hne, hall]
  | hit n x s ih => rw [sweep_hit, picks_hit hne, deleteAt_hit, ih]
  | miss n x s h ih => rw [sweep_miss h, picks_miss h, deleteAt_cons, ih]

end Sweep

/-! ## What a sweep leaves -/

/-- The indices of the elements that are left. -/
def leftIndices (p s : List α) (n : Nat) : List Nat := keptIndices p.length (picks p s n) s.length

/-- Among the elements left, no successive ones spell the pattern if one of them is the element right behind a picked
    occurrence, or if they begin where `n` elements have been left before. -/
def Settled (p s : List α) (n : Nat) : Prop :=
  ∀ k < (leftIndices p s n).length, (((leftIndices p s n).drop k).take p.length).map (s[·]?) = p.map some →
    k < n ∧ ∀ d ∈ picks p s n, d + p.length ∉ ((leftIndices p s n).drop k).take p.length

instance (p s : List α) (n : Nat) : Decidable (Settled p s n) :=
  inferInstanceAs (Decidable (∀ k < (leftIndices p s n).length,
    (((leftIndices p s n).drop k).take p.length).map (s[·]?) = p.map some →
      k < n ∧ ∀ d ∈ picks p s n, d + p.length ∉ ((leftIndices p s n).drop k).take p.length))

section Settled

variable {p q s : List α} {x : α} {n : Nat}

theorem leftIndices_hit (hne : p ≠ []) (n : Nat) (x : α) (s : List α) :
    leftIndices p (p ++ x :: s) (n + 1) = p.length :: (leftIndices p s n).map (· + (p.length + 1)) := by
  unfold leftIndices
  rw [picks_hit hne, List.length_append, List.length_cons, keptIndices_hit]

theorem leftIndices_miss (h : ¬ p <+: x :: s) :
    leftIndices p (x :: s) (n + 1) = 0 :: (leftIndices p s n).map (· + 1) := by
  unfold leftIndices
  rw [picks_miss h, List.length_cons, keptIndices_cons]

theorem map_some_sweep (hne : p ≠ []) (n : Nat) (s : List α) :
    (sweep p n s).map some = (leftIndices p s n).map (s[·]?) := by
  rw [sweep_eq_deleteAt hne, map_some_deleteAt, leftIndices]

/-- What a sweep has come to begin with where it did not includes the element behind a picked occurrence. -/
theorem begins_covers (hne : p ≠ []) : ∀ (n : Nat) (s q : List α), q <+: sweep p n s → ¬ q <+: s →
    ∃ d ∈ picks p s n, d + p.length ∈ (leftIndices p s n).take q.length := by
  intro n s
  induction n, s using sweep_induction (p := p) with
  | zero s => exact fun q hq hnot => absurd hq hnot
  | nil n =>
      intro q hq hnot
      rw [sweep_nil] at hq
      exact absurd hq hnot
  | last n =>
      intro q hq hnot
      rw [sweep_last, List.prefix_nil] at hq
      exact absurd (hq ▸ List.nil_prefix) hnot
  | hit n x s ih =>
      intro q hq hnot
      cases q with
      | nil => exact absurd List.nil_prefix hnot
      | cons y q =>
          rw [picks_hit hne, leftIndices_hit hne, List.length_cons, List.take_succ_cons]
          exact ⟨0, List.mem_cons_self, by rw [Nat.zero_add]; exact List.mem_cons_self⟩
  | miss n x s h ih =>
      intro q hq hnot
      cases q with
      | nil => exact absurd List.nil_prefix hnot
      | cons y q =>
          rw [sweep_miss h, List.cons_prefix_cons] at hq
          obtain ⟨rfl, hq⟩ := hq
          obtain ⟨d, hd, hmem⟩ := ih q hq fun hs => hnot (List.cons_prefix_cons.mpr ⟨rfl, hs⟩)
          rw [picks_miss h, leftIndices_miss h, List.length_cons, List.take_succ_cons, ← List.map_take]
          refine ⟨d + 1, List.mem_map_of_mem hd, List.mem_cons_of_mem 0 ?_⟩
          rw [Nat.add_right_comm]
          exact List.mem_map_of_mem hmem

/-- The pattern where a sweep leaves it: it includes the element behind a picked occurrence, or the sweep has ended
    before it. -/
theorem found_covers (hne : p ≠ []) : ∀ (n : Nat) (s : List α) (k : Nat), p <+: (sweep p n s).drop k →
    n ≤ k ∨ ∃ d ∈ picks p s n, d + p.length ∈ ((leftIndices p s n).drop k).take p.length := by
  have hpos := List.length_pos_of_ne_nil hne
  intro n s
  induction n, s using sweep_induction (p := p) with
  | zero s => exact fun k _ => Or.inl (Nat.zero_le k)
  | nil n =>
      intro k hk
      rw [sweep_nil, List.drop_nil] at hk
      exact absurd (List.prefix_nil.mp hk) hne
  | last n =>
      intro k hk
      rw [sweep_last, List.drop_nil] at hk
      exact absurd (List.prefix_nil.mp hk) hne
  | hit n x s ih =>
      intro k hk
      rw [picks_hit hne, leftIndices_hit hne]
      cases k with
      | zero =>
          refine Or.inr ⟨0, List.mem_cons_self, ?_⟩
          rw [Nat.zero_add, List.drop_zero, List.take_cons hpos]
          exact List.mem_cons_self
      | succ k =>
          rw [sweep_hit, List.drop_succ_cons] at hk
          refine (ih k hk).imp Nat.succ_le_succ ?_
          rintro ⟨d, hd, hmem⟩
          refine ⟨d + (p.length + 1), List.mem_cons_of_mem 0 (List.mem_map_of_mem hd), ?_⟩
          rw [List.drop_succ_cons, ← List.map_drop, ← List.map_take, Nat.add_right_comm]
          exact List.mem_map_of_mem hmem
  | miss n x s h ih =>
      intro k hk
      rw [picks_miss h, leftIndices_miss h]
      cases k with
      | zero =>
          rw [List.drop_zero, ← picks_miss h, ← leftIndices_miss h]
          exact Or.inr (begins_covers hne (n + 1) (x :: s) p hk h)
      | succ k =>
          rw [sweep_miss h, List.drop_succ_cons] at hk
          refine (ih k hk).imp Nat.succ_le_succ ?_
          rintro ⟨d, hd, hmem⟩
          refine ⟨d + 1, List.mem_map_of_mem hd, ?_⟩
          rw [List.drop_succ_cons, ← List.map_drop, ← List.map_take, Nat.add_right_comm]
          exact List.mem_map_of_mem hmem

/-- **A sweep leaves a list without the pattern** iff this is not found across the places of deletion, nor where the
    sweep did not come. -/
theorem not_infix_deleteAt_picks_iff (hne : p ≠ []) :
    ¬ p <:+: deleteAt p.length (picks p s n) s ↔ Settled p s n := by
  rw [← sweep_eq_deleteAt hne]
  have hspells (k : Nat) : (((leftIndices p s n).drop k).take p.length).map (s[·]?) = p.map some ↔
      p <+: (sweep p n s).drop k := by
    rw [List.map_take, List.map_drop, ← map_some_sweep hne, ← List.map_drop, ← List.map_take,
      (List.map_injective_iff.mpr fun _ _ h => Option.some.inj h).eq_iff, List.prefix_iff_eq_take]
    exact eq_comm
  constructor
  · intro h k _ hk
    exact absurd (((hspells k).mp hk).isInfix.trans (List.drop_suffix k _).isInfix) h
  · rintro h ⟨a, b, hab⟩
    have hk : p <+: (sweep p n s).drop a.length := by
      rw [← hab, List.append_assoc, List.drop_left]
      exact List.prefix_append p b
    have hlen := congrArg List.length (map_some_sweep hne n s)
    rw [List.length_map, List.length_map, ← hab, List.length_append, List.length_append] at hlen
    have hpos := List.length_pos_of_ne_nil hne
    obtain ⟨hlt, hout⟩ := h a.length (by omega) ((hspells _).mpr hk)
    rcases found_covers hne n s a.length hk with hle | ⟨d, hd, hmem⟩
    · exact absurd hlt (Nat.not_lt.mpr hle)
    · exact hout d hd hmem

end Settled

end Deletion
