import Mathlib.Data.List.GetD
import Mathlib.Data.List.Infix
import Mathlib.Data.Nat.Find

/-!
# `Lib.Occurrences` — occurrences of a pattern in a list, cutting at them, replacing them

`occurrences p s` are the positions at which `p` occurs in `s`, overlapping ones included. `pieces p s` scans `s`
from the left and cuts it at the occurrences it meets, behind each of which it goes on; `replaceAll` puts another
list where the pattern was. For a pattern without border no two occurrences overlap, so the scan meets all of
them, and the pieces can be read off the positions (`getElem?_pieces`).

## Contents
- **Occurrences.** `occurrences`, `BorderFree`, `occurrences_append`, `FirstAt`.
- **Scanning.** `pieces`, `replaceAll`, and `scan_induction`, the induction along the scan.
- **Cutting and joining.** `replaceAll_self`, `not_infix_of_mem_pieces`.
- **The last piece.** `pieces_of_first`, `pieces_of_absent`, `lastPiece`.
- **Without borders.** `length_pieces`, `length_replaceAll`, `BorderFree.pieces_before`, `replaceAll_back_iff`.
- **Cuts.** `cutStart`, `cutEnd`, `Apart`, `apart_iff_cuts`; without borders `cut_bounds`, `getElem?_pieces`.
-/

namespace Occurrences

variable {α : Type} [DecidableEq α]

/-! ## Occurrences -/

/-- The positions at which the pattern occurs, in order. -/
def occurrences (p s : List α) : List Nat := (List.range s.length).filter fun i => p <+: s.drop i

/-- No proper and nonempty prefix of the pattern is also a suffix of it. -/
def BorderFree (p : List α) : Prop := ∀ q, q ≠ [] → q ≠ p → q <+: p → ¬ q <:+ p

instance (p : List α) : Decidable (BorderFree p) :=
  decidable_of_iff (∀ q ∈ p.inits, q ≠ [] → q ≠ p → ¬ q <:+ p) (by
    constructor
    · intro h q hne hnp hpre
      exact h q ((List.mem_inits q p).mpr hpre) hne hnp
    · intro h q hq hne hnp
      exact h q hne hnp ((List.mem_inits q p).mp hq))

@[simp] theorem occurrences_nil (p : List α) : occurrences p [] = [] := rfl

theorem mem_occurrences {p s : List α} {i : Nat} : i ∈ occurrences p s ↔ i < s.length ∧ p <+: s.drop i := by
  simp [occurrences]

/-- A pattern of at least one element begins only inside the list. -/
theorem mem_occurrences_iff {p s : List α} {i : Nat} (hne : p ≠ []) : i ∈ occurrences p s ↔ p <+: s.drop i := by
  rw [mem_occurrences]
  refine ⟨And.right, fun hpre => ⟨?_, hpre⟩⟩
  have hpos := List.length_pos_of_ne_nil hne
  have hle := hpre.length_le
  rw [List.length_drop] at hle
  omega

theorem length_occurrences_le (p s : List α) : (occurrences p s).length ≤ s.length := by
  simpa [occurrences] using List.length_filter_le (fun i => decide (p <+: s.drop i)) (List.range s.length)

/-- An occurrence ends inside the list. -/
theorem occurrence_fits {p s : List α} {i : Nat} (h : i ∈ occurrences p s) : i + p.length ≤ s.length := by
  obtain ⟨hlt, hpre⟩ := mem_occurrences.mp h
  have hle := hpre.length_le
  rw [List.length_drop] at hle
  omega

/-- There are as many occurrences as elements only for a pattern of one element. -/
theorem length_le_one_of_occurrences {p s : List α} (hs : s ≠ []) (h : (occurrences p s).length = s.length) :
    p.length ≤ 1 := by
  have hpos := List.length_pos_of_ne_nil hs
  have hall : ∀ i ∈ List.range s.length, decide (p <+: s.drop i) = true := by
    apply List.length_filter_eq_length_iff.mp
    rw [List.length_range]
    exact h
  have hlast : s.length - 1 ∈ occurrences p s := by
    have hocc := hall (s.length - 1) (List.mem_range.mpr (by omega))
    exact mem_occurrences.mpr ⟨by omega, of_decide_eq_true hocc⟩
  have hfits := occurrence_fits hlast
  omega

/-- There are occurrences iff the pattern is part of the list. -/
theorem occurrences_ne_nil_iff {p s : List α} (hne : p ≠ []) : occurrences p s ≠ [] ↔ p <:+: s := by
  rw [List.infix_iff_prefix_suffix]
  constructor
  · intro h
    obtain ⟨i, rest, hocc⟩ := List.exists_cons_of_ne_nil h
    have hi : i ∈ occurrences p s := by
      rw [hocc]
      exact List.mem_cons_self
    exact ⟨s.drop i, (mem_occurrences.mp hi).2, List.drop_suffix i s⟩
  · rintro ⟨q, hpre, hsuf⟩
    apply List.ne_nil_of_mem (a := s.length - q.length)
    rw [mem_occurrences_iff hne, ← List.suffix_iff_eq_drop.mp hsuf]
    exact hpre

/-- The pattern begins at this index, and at none before. -/
def FirstAt (p s : List α) (i : Nat) : Prop := p <+: s.drop i ∧ ∀ j < i, ¬ p <+: s.drop j

/-- The first position is the first place where the pattern begins. -/
theorem head?_occurrences {p s : List α} {i : Nat} (hne : p ≠ []) :
    (occurrences p s).head? = some i ↔ FirstAt p s i := by
  unfold occurrences
  rw [List.head?_filter, List.find?_range_eq_some]
  constructor
  · rintro ⟨hfound, _, hfirst⟩
    refine ⟨of_decide_eq_true hfound, fun j hj => ?_⟩
    simpa using hfirst j hj
  · rintro ⟨hfound, hfirst⟩
    have hlt := (mem_occurrences.mp ((mem_occurrences_iff hne).mpr hfound)).1
    refine ⟨decide_eq_true hfound, List.mem_range.mpr hlt, fun j hj => ?_⟩
    simpa using hfirst j hj

theorem FirstAt.lt {p s : List α} {i : Nat} (h : FirstAt p s i) (hne : p ≠ []) : i < s.length :=
  (mem_occurrences.mp ((mem_occurrences_iff hne).mpr h.1)).1

omit [DecidableEq α] in
/-- A pattern does not begin before its first element can be met. -/
theorem length_le_of_begins {x : α} {p a s : List α} {j : Nat} (hx : x ∉ a) (h : x :: p <+: (a ++ s).drop j) :
    a.length ≤ j := by
  by_contra hlt
  obtain ⟨rest, hrest⟩ := h
  have hj : j < a.length := by omega
  rw [List.drop_append_of_le_length hj.le, List.drop_eq_getElem_cons hj, List.cons_append, List.cons_append] at hrest
  have hhead : x = a[j] := List.head_eq_of_cons_eq hrest
  exact hx (hhead ▸ List.getElem_mem hj)

omit [DecidableEq α] in
/-- Behind a part without its first element the pattern is met at once. -/
theorem firstAt_append {x : α} {p a : List α} (hx : x ∉ a) (s : List α) :
    FirstAt (x :: p) (a ++ (x :: p ++ s)) a.length := by
  refine ⟨?_, fun j hj hbegins => absurd (length_le_of_begins hx hbegins) (by omega)⟩
  rw [List.drop_left]
  exact List.prefix_append ..

/-- The occurrences behind the first place are those of the rest. -/
theorem occurrences_cons (p : List α) (x : α) (s : List α) :
    occurrences p (x :: s) = (if p <+: x :: s then [0] else []) ++ (occurrences p s).map (· + 1) := by
  unfold occurrences
  rw [List.length_cons, List.range_succ_eq_map, List.filter_cons, List.filter_map]
  have hrest : ((fun i => decide (p <+: (x :: s).drop i)) ∘ Nat.succ) = fun i => decide (p <+: s.drop i) := rfl
  rw [hrest]
  by_cases h : p <+: x :: s <;> simp [h]

theorem occurrences_cons_miss {p : List α} {x : α} {s : List α} (h : ¬ p <+: x :: s) :
    occurrences p (x :: s) = (occurrences p s).map (· + 1) := by
  rw [occurrences_cons, if_neg h, List.nil_append]

omit [DecidableEq α] in
/-- A border-free pattern does not occur where a proper suffix of it begins. -/
theorem BorderFree.not_begins {p q s : List α} (hp : BorderFree p) (hq : q ≠ []) (hne : q ≠ p) (hsuf : q <:+ p) :
    ¬ p <+: q ++ s := by
  intro h
  have hqp : q <+: p := List.prefix_of_prefix_length_le (List.prefix_append q s) h hsuf.length_le
  exact hp q hq hne hqp hsuf

/-- So the occurrences behind a proper suffix of it are those of the rest. -/
theorem BorderFree.occurrences_suffix {p : List α} (hp : BorderFree p) (s : List α) :
    ∀ q : List α, q <:+ p → q ≠ p → occurrences p (q ++ s) = (occurrences p s).map (· + q.length) := by
  intro q
  induction q with
  | nil =>
      intro _ _
      simp
  | cons x q ih =>
      intro hsuf hne
      have hq : q <:+ p := (List.suffix_cons x q).trans hsuf
      have hqne : q ≠ p := by
        intro h
        have hle := hsuf.length_le
        rw [h, List.length_cons] at hle
        omega
      have hnot : ¬ p <+: x :: (q ++ s) := hp.not_begins (List.cons_ne_nil x q) hne hsuf
      rw [List.cons_append, occurrences_cons_miss hnot, ih hq hqne, List.map_map, List.length_cons]
      rfl

/-- **Two occurrences of a border-free pattern do not overlap**: those in `p ++ s` are the first one and those in
    `s`. -/
theorem BorderFree.occurrences_append {p : List α} (hp : BorderFree p) (hne : p ≠ []) (s : List α) :
    occurrences p (p ++ s) = 0 :: (occurrences p s).map (· + p.length) := by
  obtain ⟨x, q, rfl⟩ := List.exists_cons_of_ne_nil hne
  have hpre : (x :: q) <+: x :: (q ++ s) := List.prefix_append (x :: q) s
  have hrest := hp.occurrences_suffix s q (List.suffix_cons x q) (fun h => by simpa using congrArg List.length h)
  rw [List.cons_append, occurrences_cons, if_pos hpre, hrest, List.map_map, List.length_cons]
  rfl

/-! ## Scanning -/

/-- The pieces of a list whose first `skip` elements belong to an occurrence already met. -/
def piecesFrom (p : List α) : Nat → List α → List (List α)
  | _,        []     => [[]]
  | skip + 1, _ :: s => piecesFrom p skip s
  | 0,        x :: s =>
    if p <+: x :: s then [] :: piecesFrom p (p.length - 1) s else (piecesFrom p 0 s).modifyHead (x :: ·)

/-- The pieces between the occurrences that a scan from the left meets. -/
def pieces (p s : List α) : List (List α) := piecesFrom p 0 s

/-- The list with `r` in place of each occurrence that the scan meets. -/
def replaceAll (p r s : List α) : List α := r.intercalate (pieces p s)

@[simp] theorem pieces_nil (p : List α) : pieces p [] = [[]] := rfl

theorem piecesFrom_append (p q s : List α) : piecesFrom p q.length (q ++ s) = pieces p s := by
  induction q with
  | nil => rfl
  | cons x q ih => exact ih

/-- The scan meets the pattern. -/
theorem pieces_append {p : List α} (hne : p ≠ []) (s : List α) : pieces p (p ++ s) = [] :: pieces p s := by
  obtain ⟨x, q, rfl⟩ := List.exists_cons_of_ne_nil hne
  have hpre : (x :: q) <+: x :: (q ++ s) := List.prefix_append (x :: q) s
  show piecesFrom (x :: q) 0 (x :: (q ++ s)) = _
  rw [piecesFrom, if_pos hpre]
  exact congrArg ([] :: ·) (piecesFrom_append (x :: q) q s)

/-- The scan passes one element. -/
theorem pieces_cons {p : List α} {x : α} {s : List α} (h : ¬ p <+: x :: s) :
    pieces p (x :: s) = (pieces p s).modifyHead (x :: ·) := by
  show piecesFrom p 0 (x :: s) = _
  rw [piecesFrom, if_neg h]
  rfl

/-- **Induction along the scan**: the end, an occurrence, an element at which there is none. -/
theorem scan_induction {p : List α} (hne : p ≠ []) {motive : List α → Prop} (nil : motive [])
    (hit : ∀ s, motive s → motive (p ++ s)) (miss : ∀ x s, ¬ p <+: x :: s → motive s → motive (x :: s)) :
    ∀ s, motive s := by
  have hpos : 0 < p.length := List.length_pos_of_ne_nil hne
  intro s
  induction hn : s.length using Nat.strong_induction_on generalizing s with
  | _ n ih =>
      cases s with
      | nil => exact nil
      | cons x s =>
          by_cases h : p <+: x :: s
          · obtain ⟨rest, hrest⟩ := h
            have hlen : (x :: s).length = p.length + rest.length := by rw [← hrest, List.length_append]
            rw [← hrest]
            exact hit rest (ih rest.length (by omega) rest rfl)
          · refine miss x s h (ih s.length ?_ s rfl)
            rw [List.length_cons] at hn
            omega

theorem pieces_ne_nil {p : List α} (hne : p ≠ []) (s : List α) : pieces p s ≠ [] := by
  induction s using scan_induction hne with
  | nil => simp
  | hit s _ => simp [pieces_append hne]
  | miss x s h ih => rwa [pieces_cons h, Ne, List.modifyHead_eq_nil_iff]

/-! ## Cutting and joining -/

omit [DecidableEq α] in
/-- One more element in front of the first piece. -/
theorem intercalate_modifyHead_cons (r : List α) (x : α) {ps : List (List α)} (h : ps ≠ []) :
    r.intercalate (ps.modifyHead (x :: ·)) = x :: r.intercalate ps := by
  obtain ⟨a, ps, rfl⟩ := List.exists_cons_of_ne_nil h
  cases ps with
  | nil => simp
  | cons b ps => simp [List.intercalate_cons_cons]

@[simp] theorem replaceAll_nil (p r : List α) : replaceAll p r [] = [] := by simp [replaceAll]

/-- An occurrence is replaced. -/
theorem replaceAll_append {p : List α} (hne : p ≠ []) (r s : List α) :
    replaceAll p r (p ++ s) = r ++ replaceAll p r s := by
  unfold replaceAll
  rw [pieces_append hne, List.intercalate_cons_of_ne_nil (pieces_ne_nil hne s), List.nil_append]

/-- Any other element is kept. -/
theorem replaceAll_cons {p : List α} (hne : p ≠ []) (r : List α) {x : α} {s : List α} (h : ¬ p <+: x :: s) :
    replaceAll p r (x :: s) = x :: replaceAll p r s := by
  unfold replaceAll
  rw [pieces_cons h, intercalate_modifyHead_cons r x (pieces_ne_nil hne s)]

/-- **Joining the pieces with the pattern gives the list back.** -/
theorem replaceAll_self {p : List α} (hne : p ≠ []) (s : List α) : replaceAll p p s = s := by
  induction s using scan_induction hne with
  | nil => simp
  | hit s ih => rw [replaceAll_append hne, ih]
  | miss x s h ih => rw [replaceAll_cons hne p h, ih]

/-- What is in the result comes from the list or from what replaces the pattern. -/
theorem mem_of_mem_replaceAll {p : List α} (hne : p ≠ []) {r s : List α} {x : α} (hx : x ∈ replaceAll p r s) :
    x ∈ r ∨ x ∈ s := by
  induction s using scan_induction hne with
  | nil => simp at hx
  | hit s ih =>
      rw [replaceAll_append hne] at hx
      rcases List.mem_append.mp hx with h | h
      · exact Or.inl h
      · exact (ih h).imp_right (List.mem_append_right p)
  | miss y s h ih =>
      rw [replaceAll_cons hne r h] at hx
      rcases List.mem_cons.mp hx with rfl | hx
      · exact Or.inr List.mem_cons_self
      · exact (ih hx).imp_right (List.mem_cons_of_mem y)

/-- The first piece is what comes before the first occurrence. -/
theorem head_pieces_begins {p : List α} (hne : p ≠ []) (s : List α) : ∀ a, (pieces p s).head? = some a → a <+: s := by
  induction s using scan_induction hne with
  | nil => simp
  | hit s _ => simp [pieces_append hne]
  | miss x s h ih =>
      rw [pieces_cons h, List.head?_modifyHead]
      intro a ha
      obtain ⟨b, hb, rfl⟩ := Option.map_eq_some_iff.mp ha
      exact List.cons_prefix_cons.mpr ⟨rfl, ih b hb⟩

/-- **No piece contains the pattern.** -/
theorem not_infix_of_mem_pieces {p : List α} (hne : p ≠ []) (s : List α) : ∀ a ∈ pieces p s, ¬ p <:+: a := by
  induction s using scan_induction hne with
  | nil => simpa using hne
  | hit s ih =>
      rw [pieces_append hne]
      intro a ha
      rcases List.mem_cons.mp ha with rfl | ha
      · simpa using hne
      · exact ih a ha
  | miss x s h ih =>
      have hhead := head_pieces_begins hne s
      rw [pieces_cons h]
      obtain ⟨b, ps, hps⟩ := List.exists_cons_of_ne_nil (pieces_ne_nil hne s)
      rw [hps] at ih hhead ⊢
      intro a ha
      rcases List.mem_cons.mp ha with rfl | ha
      · intro hinf
        rcases List.infix_cons_iff.mp hinf with hpre | hinf
        · -- an occurrence at the front would have been met
          exact h (hpre.trans (List.cons_prefix_cons.mpr ⟨rfl, hhead b rfl⟩))
        · exact ih b List.mem_cons_self hinf
      · exact ih a (List.mem_cons_of_mem b ha)

/-- **A piece is no longer than the list.** -/
theorem length_le_of_mem_pieces {p : List α} (hne : p ≠ []) (s : List α) : ∀ a ∈ pieces p s, a.length ≤ s.length := by
  induction s using scan_induction hne with
  | nil => simp
  | hit s ih =>
      rw [pieces_append hne]
      intro a ha
      rw [List.length_append]
      rcases List.mem_cons.mp ha with rfl | ha
      · exact Nat.zero_le _
      · exact (ih a ha).trans (Nat.le_add_left ..)
  | miss x s h ih =>
      rw [pieces_cons h]
      obtain ⟨b, ps, hps⟩ := List.exists_cons_of_ne_nil (pieces_ne_nil hne s)
      rw [hps] at ih ⊢
      intro a ha
      rcases List.mem_cons.mp ha with rfl | ha
      · exact Nat.succ_le_succ (ih b List.mem_cons_self)
      · exact (ih a (List.mem_cons_of_mem b ha)).trans (Nat.le_succ _)

/-! ## The last piece -/

/-- The scan passes what is before the first occurrence. -/
theorem pieces_of_first {p : List α} (hne : p ≠ []) : ∀ {i : Nat} {s : List α}, p <+: s.drop i →
    (∀ j < i, ¬ p <+: s.drop j) → pieces p s = s.take i :: pieces p (s.drop (i + p.length)) := by
  intro i
  induction i with
  | zero =>
      rintro s ⟨rest, hrest⟩ _
      rw [List.drop_zero] at hrest
      rw [← hrest, pieces_append hne, Nat.zero_add, List.drop_left, List.take_zero]
  | succ i ih =>
      intro s hpre hfirst
      cases s with
      | nil => exact absurd (List.prefix_nil.mp hpre) hne
      | cons x s =>
          have hrest : pieces p s = s.take i :: pieces p (s.drop (i + p.length)) :=
            ih hpre (fun j hj => hfirst (j + 1) (by omega))
          have hsum : i + 1 + p.length = (i + p.length) + 1 := by omega
          rw [pieces_cons (hfirst 0 (by omega)), hrest, List.modifyHead_cons, List.take_succ_cons, hsum,
            List.drop_succ_cons]

/-- Without an occurrence there is one piece. -/
theorem pieces_of_absent {p : List α} {s : List α} (h : ¬ p <:+: s) : pieces p s = [s] := by
  induction s with
  | nil => rfl
  | cons x s ih =>
      obtain ⟨hpre, hinf⟩ := not_or.mp (fun hor => h (List.infix_cons_iff.mpr hor))
      rw [pieces_cons hpre, ih hinf, List.modifyHead_cons]

omit [DecidableEq α] in
/-- An occurrence has a place, and the first of its places. -/
theorem exists_first_of_occurs {p s : List α} (h : p <:+: s) :
    ∃ i, p <+: s.drop i ∧ i + p.length ≤ s.length ∧ ∀ j < i, ¬ p <+: s.drop j := by
  classical
  obtain ⟨t, hpre, hsuf⟩ := List.infix_iff_prefix_suffix.mp h
  have hex : ∃ i, p <+: s.drop i ∧ i + p.length ≤ s.length := by
    have hle := hsuf.length_le
    have hple := hpre.length_le
    refine ⟨s.length - t.length, ?_, by omega⟩
    rwa [← List.suffix_iff_eq_drop.mp hsuf]
  refine ⟨Nat.find hex, (Nat.find_spec hex).1, (Nat.find_spec hex).2, ?_⟩
  intro j hj hpre
  have hle := (Nat.find_spec hex).2
  exact Nat.find_min hex hj ⟨hpre, by omega⟩

/-- The piece behind the last occurrence that the scan meets. -/
def lastPiece (p s : List α) : List α := (pieces p s).getLastD []

theorem lastPiece_of_first {p : List α} (hne : p ≠ []) {i : Nat} {s : List α} (h : p <+: s.drop i)
    (hfirst : ∀ j < i, ¬ p <+: s.drop j) : lastPiece p s = lastPiece p (s.drop (i + p.length)) := by
  unfold lastPiece
  rw [pieces_of_first hne h hfirst, List.getLastD_cons]
  obtain ⟨a, ps, hps⟩ := List.exists_cons_of_ne_nil (pieces_ne_nil hne (s.drop (i + p.length)))
  rw [hps, List.getLastD_cons, List.getLastD_cons]

theorem lastPiece_of_absent {p s : List α} (h : ¬ p <:+: s) : lastPiece p s = s := by
  unfold lastPiece
  rw [pieces_of_absent h]
  rfl

/-- The scan begins with what is before its last piece. -/
theorem pieces_eq_append_lastPiece {p : List α} (hne : p ≠ []) (s : List α) :
    pieces p s = (pieces p s).dropLast ++ [lastPiece p s] := by
  unfold lastPiece
  rw [List.getLastD_eq_getLast?, List.getLast?_eq_some_getLast (pieces_ne_nil hne s), Option.getD_some,
    List.dropLast_append_getLast]

omit [DecidableEq α] in
theorem intercalate_append_singleton (r q : List α) {ps : List (List α)} (h : ps ≠ []) :
    r.intercalate (ps ++ [q]) = r.intercalate ps ++ (r ++ q) := by
  induction ps with
  | nil => exact absurd rfl h
  | cons a ps ih =>
      cases ps with
      | nil => simp [List.intercalate_cons_cons]
      | cons b ps =>
          have hrest := ih (List.cons_ne_nil b ps)
          rw [List.cons_append, List.intercalate_cons_of_ne_nil (by simp), hrest,
            List.intercalate_cons_of_ne_nil (List.cons_ne_nil b ps), List.append_assoc, List.append_assoc,
            List.append_assoc]

/-- The last piece is what is missing when the others are joined, with the pattern in front of it. -/
theorem intercalate_dropLast_pieces {p : List α} (hne : p ≠ []) {s : List α} (h : (pieces p s).dropLast ≠ []) :
    p.intercalate (pieces p s).dropLast ++ (p ++ lastPiece p s) = s := by
  rw [← intercalate_append_singleton p (lastPiece p s) h, ← pieces_eq_append_lastPiece hne s]
  exact replaceAll_self hne s

/-- Without others it is the whole list. -/
theorem lastPiece_of_dropLast_eq_nil {p : List α} (hne : p ≠ []) {s : List α} (h : (pieces p s).dropLast = []) :
    lastPiece p s = s := by
  have hwhole : p.intercalate (pieces p s) = s := replaceAll_self hne s
  rw [pieces_eq_append_lastPiece hne s, h, List.nil_append, List.intercalate_singleton] at hwhole
  exact hwhole

/-! ## Without borders -/

/-- One piece more than there are occurrences. -/
theorem length_pieces {p : List α} (hp : BorderFree p) (hne : p ≠ []) (s : List α) :
    (pieces p s).length = (occurrences p s).length + 1 := by
  induction s using scan_induction hne with
  | nil => simp
  | hit s ih => rw [pieces_append hne, hp.occurrences_append hne, List.length_cons, List.length_cons, ih,
      List.length_map]
  | miss x s h ih => rw [pieces_cons h, occurrences_cons_miss h, List.length_modifyHead, List.length_map, ih]

/-- Each occurrence trades the length of the pattern for that of what replaces it. -/
theorem length_replaceAll {p : List α} (hp : BorderFree p) (hne : p ≠ []) (r s : List α) :
    (replaceAll p r s).length + (occurrences p s).length * p.length =
      s.length + (occurrences p s).length * r.length := by
  induction s using scan_induction hne with
  | nil => simp
  | hit s ih =>
      rw [replaceAll_append hne, hp.occurrences_append hne]
      simp only [List.length_append, List.length_cons, List.length_map, Nat.succ_mul]
      omega
  | miss x s h ih =>
      rw [replaceAll_cons hne r h, occurrences_cons_miss h]
      simp only [List.length_cons, List.length_map]
      omega

omit [DecidableEq α] in
/-- A border-free pattern begins inside a list that does not contain it, only if it ends there. -/
theorem BorderFree.not_begins_before {p a : List α} (hp : BorderFree p) (ha : a ≠ []) (hinf : ¬ p <:+: a)
    (s : List α) : ¬ p <+: a ++ (p ++ s) := by
  intro hpre
  rcases Nat.lt_or_ge a.length p.length with hlt | hle
  · -- what is left of the pattern behind `a` is a suffix of it, and begins it
    obtain ⟨q, rfl⟩ : a <+: p := List.prefix_of_prefix_length_le (List.prefix_append a _) hpre hlt.le
    have hpos := List.length_pos_of_ne_nil ha
    rw [List.length_append] at hlt
    have hq : q <+: a ++ q := by
      have hrest : q <+: a ++ q ++ s := (List.prefix_append_right_inj a).mp hpre
      exact List.prefix_of_prefix_length_le hrest (List.prefix_append _ s) (by simp)
    refine hp q ?_ ?_ hq (List.suffix_append a q)
    · rintro rfl
      simp at hlt
    · intro h
      have hlen := congrArg List.length h
      rw [List.length_append] at hlen
      omega
  · exact hinf (List.prefix_of_prefix_length_le hpre (List.prefix_append a _) hle).isInfix

/-- **The first piece**: what is before an occurrence, if it does not contain the pattern itself. -/
theorem BorderFree.pieces_before {p : List α} (hp : BorderFree p) (hne : p ≠ []) (s : List α) :
    ∀ {a : List α}, ¬ p <:+: a → pieces p (a ++ (p ++ s)) = a :: pieces p s := by
  intro a
  induction a with
  | nil => exact fun _ => pieces_append hne s
  | cons x a ih =>
      intro hinf
      have hrest : ¬ p <:+: a := fun h => hinf (List.infix_cons h)
      have hmiss := hp.not_begins_before (List.cons_ne_nil x a) hinf s
      rw [List.cons_append] at hmiss ⊢
      rw [pieces_cons hmiss, ih hrest, List.modifyHead_cons]

/-- What replaces the pattern occurs at least as often as it. -/
theorem length_occurrences_le_replaceAll {p r : List α} (hp : BorderFree p) (hne : p ≠ []) (hr : BorderFree r)
    (hrne : r ≠ []) (s : List α) : (occurrences p s).length ≤ (occurrences r (replaceAll p r s)).length := by
  induction s using scan_induction hne with
  | nil => simp
  | hit s ih =>
      rw [replaceAll_append hne, hp.occurrences_append hne, hr.occurrences_append hrne]
      simpa using ih
  | miss x s h ih =>
      rw [replaceAll_cons hne r h, occurrences_cons_miss h, occurrences_cons]
      simp only [List.length_append, List.length_map]
      omega

/-- **Replacing back**: what replaced the pattern is replaced by it again. The list is the one before iff no other
    occurrences of the replacement have come up, or had been there. -/
theorem replaceAll_back_iff {p r : List α} (hp : BorderFree p) (hne : p ≠ []) (hr : BorderFree r) (hrne : r ≠ [])
    (s : List α) : replaceAll r p (replaceAll p r s) = s ↔
      (occurrences r (replaceAll p r s)).length = (occurrences p s).length := by
  induction s using scan_induction hne with
  | nil => simp
  | hit s ih =>
      rw [replaceAll_append hne, replaceAll_append hrne, hp.occurrences_append hne, hr.occurrences_append hrne,
        List.append_cancel_left_eq, ih]
      simp
  | miss x s h ih =>
      rw [replaceAll_cons hne r h, occurrences_cons_miss h]
      by_cases hnew : r <+: x :: replaceAll p r s
      · -- a new occurrence becomes the pattern, which did not begin here
        have hle := length_occurrences_le_replaceAll hp hne hr hrne s
        rw [occurrences_cons, if_pos hnew]
        constructor
        · intro hback
          obtain ⟨rest, hrest⟩ := hnew
          rw [← hrest, replaceAll_append hrne] at hback
          exact absurd ⟨_, hback⟩ h
        · simp only [List.length_append, List.length_map, List.length_singleton]
          omega
      · rw [replaceAll_cons hrne p hnew, occurrences_cons_miss hnew, List.cons.injEq, ih]
        simp

/-- A pattern that occurs cuts off two pieces at least. -/
theorem exists_pieces_of_occurs {p s : List α} (hp : BorderFree p) (hne : p ≠ []) (h : p <:+: s) :
    ∃ a b more, pieces p s = a :: b :: more := by
  have hlen := length_pieces hp hne s
  have hpos := List.length_pos_of_ne_nil ((occurrences_ne_nil_iff hne).mpr h)
  match hps : pieces p s with
  | [] => rw [hps, List.length_nil] at hlen; omega
  | [a] => rw [hps, List.length_singleton] at hlen; omega
  | a :: b :: more => exact ⟨a, b, more, rfl⟩

/-- It occurs if there are two. -/
theorem occurs_of_pieces {p s a b : List α} {more : List (List α)} (h : pieces p s = a :: b :: more) : p <:+: s := by
  by_contra habsent
  rw [pieces_of_absent habsent] at h
  cases h

/-! ## Cuts -/

/-- Where a piece begins: behind the occurrence before it. -/
def cutStart (p : List α) (occ : List Nat) : Nat → Nat
  | 0     => 0
  | i + 1 => occ.getD i 0 + p.length

/-- Where a piece ends: at the next occurrence. -/
def cutEnd (s : List α) (occ : List Nat) (i : Nat) : Nat := occ.getD i s.length

theorem cutEnd_of_lt {p s : List α} {i : Nat} (hi : i < (occurrences p s).length) :
    cutEnd s (occurrences p s) i = (occurrences p s)[i] := List.getD_eq_getElem _ _ hi

theorem cutStart_succ_of_lt {p s : List α} {i : Nat} (hi : i < (occurrences p s).length) :
    cutStart p (occurrences p s) (i + 1) = cutEnd s (occurrences p s) i + p.length := by
  rw [cutEnd_of_lt hi]
  show (occurrences p s).getD i 0 + p.length = _
  rw [List.getD_eq_getElem _ _ hi]

/-- The occurrence a piece ends at ends inside the list. -/
theorem cutEnd_fits {p s : List α} {i : Nat} (hi : i < (occurrences p s).length) :
    cutEnd s (occurrences p s) i + p.length ≤ s.length := by
  rw [cutEnd_of_lt hi]
  exact occurrence_fits (List.getElem_mem hi)

theorem cutStart_le (s p : List α) :
    ∀ j ≤ (occurrences p s).length, cutStart p (occurrences p s) j ≤ s.length := by
  intro j hj
  cases j with
  | zero => exact Nat.zero_le _
  | succ j =>
      rw [cutStart_succ_of_lt hj]
      exact cutEnd_fits hj

theorem cutEnd_le (s p : List α) (j : Nat) : cutEnd s (occurrences p s) j ≤ s.length := by
  rcases Nat.lt_or_ge j (occurrences p s).length with hj | hj
  · have hfits := cutEnd_fits hj
    omega
  · exact (List.getD_eq_default _ _ hj).le

/-- No two occurrences overlap. -/
def Apart (p s : List α) : Prop := (occurrences p s).Pairwise fun i j => i + p.length ≤ j

instance (p s : List α) : Decidable (Apart p s) :=
  inferInstanceAs (Decidable ((occurrences p s).Pairwise fun i j => i + p.length ≤ j))

/-- **No two occurrences overlap iff every piece begins before it ends.** -/
theorem apart_iff_cuts {p s : List α} :
    Apart p s ↔ ∀ i < (occurrences p s).length, cutStart p (occurrences p s) i ≤ cutEnd s (occurrences p s) i := by
  unfold Apart
  have htrans : IsTrans Nat fun i j => i + p.length ≤ j := ⟨fun i j k hij hjk => by omega⟩
  rw [← List.isChain_iff_pairwise, List.isChain_iff_getElem]
  constructor
  · intro h i hi
    cases i with
    | zero => exact Nat.zero_le _
    | succ i =>
        rw [cutStart_succ_of_lt (by omega), cutEnd_of_lt hi, cutEnd_of_lt (by omega)]
        exact h i hi
  · intro h i hi
    have hcut := h (i + 1) hi
    rwa [cutStart_succ_of_lt (by omega), cutEnd_of_lt hi, cutEnd_of_lt (by omega)] at hcut

omit [DecidableEq α] in
/-- Cutting behind a shift by `n`: places that were found before are found `n` further. -/
theorem cutStart_map_add (p : List α) {occ : List Nat} {n i : Nat} (hi : i < occ.length) :
    cutStart p (occ.map (· + n)) (i + 1) = cutStart p occ (i + 1) + n := by
  have hlt : i < (occ.map (· + n)).length := by rwa [List.length_map]
  simp only [cutStart, List.getD_eq_getElem _ _ hi, List.getD_eq_getElem _ _ hlt, List.getElem_map]
  omega

omit [DecidableEq α] in
/-- The cut behind an occurrence at the front. -/
theorem cutStart_hit (p : List α) {occ : List Nat} {i : Nat} (hi : i ≤ occ.length) :
    cutStart p (0 :: occ.map (· + p.length)) (i + 1) = cutStart p occ i + p.length := by
  cases i with
  | zero => rfl
  | succ i => exact cutStart_map_add p hi

omit [DecidableEq α] in
theorem cutEnd_map_add (q s : List α) (occ : List Nat) (i : Nat) :
    cutEnd (q ++ s) (occ.map (· + q.length)) i = cutEnd s occ i + q.length := by
  unfold cutEnd
  rcases Nat.lt_or_ge i occ.length with hi | hi
  · have hlt : i < (occ.map (· + q.length)).length := by rwa [List.length_map]
    rw [List.getD_eq_getElem _ _ hi, List.getD_eq_getElem _ _ hlt, List.getElem_map]
  · have hge : (occ.map (· + q.length)).length ≤ i := by rwa [List.length_map]
    rw [List.getD_eq_default _ _ hi, List.getD_eq_default _ _ hge, List.length_append]
    omega

omit [DecidableEq α] in
theorem cutEnd_hit (p s : List α) (occ : List Nat) (i : Nat) :
    cutEnd (p ++ s) (0 :: occ.map (· + p.length)) (i + 1) = cutEnd s occ i + p.length := cutEnd_map_add p s occ i

omit [DecidableEq α] in
theorem cutEnd_miss (x : α) (s : List α) (occ : List Nat) (i : Nat) :
    cutEnd (x :: s) (occ.map (· + 1)) i = cutEnd s occ i + 1 := cutEnd_map_add [x] s occ i

/-! ## Cuts without borders -/

/-- **The cuts are in order and inside the list.** -/
theorem cut_bounds {p : List α} (hp : BorderFree p) (hne : p ≠ []) (s : List α) :
    ∀ i ≤ (occurrences p s).length, cutStart p (occurrences p s) i ≤ cutEnd s (occurrences p s) i ∧
      cutEnd s (occurrences p s) i ≤ s.length := by
  induction s using scan_induction hne with
  | nil => simp [cutStart, cutEnd]
  | hit s ih =>
      rw [hp.occurrences_append hne]
      intro i hi
      cases i with
      | zero => simp [cutStart, cutEnd]
      | succ i =>
          have hi' : i ≤ (occurrences p s).length := by simpa using hi
          have hend := cutEnd_hit p s (occurrences p s) i
          have hstart := cutStart_hit p hi'
          rw [hend, hstart, List.length_append]
          have hb := ih i hi'
          omega
  | miss x s h ih =>
      rw [occurrences_cons_miss h]
      intro i hi
      rw [List.length_map] at hi
      have hend := cutEnd_miss x s (occurrences p s) i
      rw [hend, List.length_cons]
      have hb := ih i hi
      cases i with
      | zero => exact ⟨Nat.zero_le _, by omega⟩
      | succ i =>
          rw [cutStart_map_add p hi]
          omega

/-- **The pieces are what lies between the cuts.** -/
theorem getElem?_pieces {p : List α} (hp : BorderFree p) (hne : p ≠ []) (s : List α) :
    ∀ i ≤ (occurrences p s).length, (pieces p s)[i]? =
      some ((s.drop (cutStart p (occurrences p s) i)).take
        (cutEnd s (occurrences p s) i - cutStart p (occurrences p s) i)) := by
  induction s using scan_induction hne with
  | nil =>
      intro i hi
      have hz : i = 0 := by simpa using hi
      subst hz
      simp [cutStart, cutEnd]
  | hit s ih =>
      rw [hp.occurrences_append hne, pieces_append hne]
      intro i hi
      cases i with
      | zero => simp [cutStart, cutEnd]
      | succ i =>
          have hi' : i ≤ (occurrences p s).length := by simpa using hi
          have hend := cutEnd_hit p s (occurrences p s) i
          have hstart := cutStart_hit p hi'
          rw [List.getElem?_cons_succ, ih i hi', hend, hstart, Nat.add_sub_add_right, Nat.add_comm _ p.length,
            ← List.drop_drop, List.drop_left]
  | miss x s h ih =>
      rw [occurrences_cons_miss h, pieces_cons h]
      intro i hi
      rw [List.length_map] at hi
      have hend := cutEnd_miss x s (occurrences p s) i
      have hpiece := ih i hi
      rw [hend, List.getElem?_modifyHead]
      cases i with
      | zero =>
          rw [if_pos rfl, hpiece]
          simp [cutStart]
      | succ i =>
          rw [if_neg (Nat.succ_ne_zero i), hpiece, cutStart_map_add p hi, Nat.add_sub_add_right]
          rfl

end Occurrences
