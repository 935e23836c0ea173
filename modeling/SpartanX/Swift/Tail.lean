import SpartanX.Swift.Segment

/-!
# `Swift.Tail` — the end of the data that are segmented

Behind the last separator `NSDataSegment.next` searches once more. A rest that is shorter than the separator is not
searched and not handed out (`segments_lose_nothing_iff`). In a longer rest the search finds no occurrence, but near
the end of the data it compares bytes that are not theirs: what it returns is decided by the data iff these do not
end with a proper part of the separator (`segmenting_depends_on_data_iff`).

## Contents
- **Which bytes are lost.** `Quiet`, `Cuts.vals`, `LosesNothing`, `segments_lose_nothing_iff`.
- **What depends on the memory behind the data.** `EndsInside`, `stopsAt_agree`, `exists_memories`, the two directions
  for `findBytes` (`find_agree`, `findDecided_of_agree`) and for the segments.
-/

namespace SpartanX.NSDataSegment

open NSData Occurrences

variable {d d₁ d₂ : NSData} {core sep : List UInt8} {o r r₁ r₂ : Nat} {gs gs₁ gs₂ : List Segment}

/-! ## Which bytes are lost -/

/-- The search stops at the first occurrence, if the separator fits in front of the end of the data there. -/
theorem first_of_stopsAt (hd : d.Holds core) (hne : sep ≠ []) (hr : d.StopsAt sep o r)
    (hfits : r + sep.length ≤ core.length) :
    sep <+: (core.drop o).drop (r - o) ∧ ∀ j < r - o, ¬ sep <+: (core.drop o).drop j := by
  have hpos := List.length_pos_of_ne_nil hne
  have hstart := hr.start
  have hlt : r < d.length := by
    rw [hd.length]
    omega
  constructor
  · rw [List.drop_drop, Nat.add_sub_cancel' hstart]
    exact (matchAt_iff hd hfits).mp (hr.here hlt)
  · intro j hj hpre
    rw [List.drop_drop] at hpre
    exact hr.before (o + j) (by omega) (by omega) ((matchAt_iff hd (by omega)).mpr hpre)

/-- If it does not fit, the separator does not occur any more. -/
theorem not_infix_of_stopsAt (hd : d.Holds core) (hr : d.StopsAt sep o r) (hover : core.length < r + sep.length) :
    ¬ sep <:+: core.drop o := by
  intro hinf
  obtain ⟨i, hpre, hi, _⟩ := exists_first_of_occurs hinf
  have hlen := hr.stop
  have hstart := hr.start
  rw [hd.length] at hlen
  rw [List.length_drop] at hi
  rw [List.drop_drop] at hpre
  exact hr.before (o + i) (by omega) (by omega) ((matchAt_iff hd (by omega)).mpr hpre)

/-- A segment in front of an occurrence is a piece. -/
theorem pieces_of_stopsAt (hd : d.Holds core) (hne : sep ≠ []) (hr : d.StopsAt sep o r)
    (hfits : r + sep.length ≤ core.length) :
    pieces sep (core.drop o) = (core.drop o).take (r - o) :: pieces sep (core.drop (r + sep.length)) ∧
      lastPiece sep (core.drop o) = lastPiece sep (core.drop (r + sep.length)) := by
  obtain ⟨hpre, hfirst⟩ := first_of_stopsAt hd hne hr hfits
  have hstart := hr.start
  have hsum : o + (r - o + sep.length) = r + sep.length := by omega
  rw [pieces_of_first hne hpre hfirst, lastPiece_of_first hne hpre hfirst, List.drop_drop, hsum]
  exact ⟨rfl, rfl⟩

/-- The memory behind the data never completes a separator. -/
def Quiet (d : NSData) (core sep : List UInt8) : Prop :=
  ∀ p, p < core.length → core.length < p + sep.length → ¬ d.MatchAt sep p

/-- **The segments are the pieces**, without the last one if the separator is longer than it. -/
theorem Cuts.vals (hd : d.Holds core) (hne : sep ≠ []) (hquiet : Quiet d core sep) (h : Cuts d core sep o gs)
    (ho : o ≤ core.length) (hcore : 0 < core.length) :
    gs.map (·.val) = if (lastPiece sep (core.drop o)).length < sep.length then (pieces sep (core.drop o)).dropLast
      else pieces sep (core.drop o) := by
  have hpos := List.length_pos_of_ne_nil hne
  induction h with
  | @stop o hstop =>
      have hlen : (core.drop o).length < sep.length := by
        rw [List.length_drop]
        omega
      have hnot : ¬ sep <:+: core.drop o := fun hinf => absurd hinf.length_le (by omega)
      rw [lastPiece_of_absent hnot, if_pos hlen, pieces_of_absent hnot]
      rfl
  | @cut o r gs hfits hr hgs ih =>
      have hstop := hr.stop
      rw [hd.length] at hstop
      rcases Nat.lt_or_ge core.length (r + sep.length) with hover | hfits'
      · have hnot := not_infix_of_stopsAt hd hr hover
        have hend : r = core.length := by
          by_contra hne
          exact hquiet r (by omega) hover (hr.here (by rw [hd.length]; omega))
        have hlen : ¬ (core.drop o).length < sep.length := by
          rw [List.length_drop]
          omega
        cases hgs with
        | stop _ =>
            rw [lastPiece_of_absent hnot, if_neg hlen, pieces_of_absent hnot]
            show [(core.drop o).take (r - o)] = _
            rw [List.take_of_length_le (by rw [List.length_drop]; omega)]
        | cut hfits' _ _ => omega
      · obtain ⟨hpieces, hlast⟩ := pieces_of_stopsAt hd hne hr hfits'
        have hrest := pieces_ne_nil hne (core.drop (r + sep.length))
        rw [hpieces, hlast, List.map_cons, ih hfits', List.dropLast_cons_of_ne_nil hrest]
        show (core.drop o).take (r - o) :: _ = _
        split <;> rfl

/-- The segments joined by the separator are the data, or the data without one separator at the end. -/
def LosesNothing (core sep : List UInt8) (gs : List Segment) : Prop :=
  sep.intercalate (gs.map (·.val)) = core ∨ sep.intercalate (gs.map (·.val)) ++ sep = core

/-- Without the last piece, and the separator before it, nothing is lost iff that piece is empty. -/
theorem losesNothing_dropLast_iff (hcore : core ≠ []) (hne : sep ≠ [])
    (hvals : gs.map (·.val) = (pieces sep core).dropLast) (hshort : (lastPiece sep core).length < sep.length) :
    LosesNothing core sep gs ↔ lastPiece sep core = [] := by
  have hpos := List.length_pos_of_ne_nil hne
  unfold LosesNothing
  rw [hvals]
  rcases eq_or_ne (pieces sep core).dropLast [] with hnil | hsome
  · -- there is no separator, and nothing is handed out
    have hlast := lastPiece_of_dropLast_eq_nil hne hnil
    rw [hlast] at hshort
    rw [hnil, hlast, List.intercalate_nil, List.nil_append]
    constructor
    · rintro (h | h)
      · exact h.symm
      · rw [h] at hshort
        omega
    · intro h
      exact absurd h hcore
  · have hjoin := intercalate_dropLast_pieces hne hsome
    constructor
    · rintro (h | h)
      · rw [h, List.append_right_eq_self, List.append_eq_nil_iff] at hjoin
        exact absurd hjoin.1 hne
      · rw [← List.append_assoc, h, List.append_right_eq_self] at hjoin
        exact hjoin
    · intro h
      rw [h, List.append_nil] at hjoin
      exact Or.inr hjoin

/-- **When segmenting loses no bytes.** If no separator is completed by the memory behind the data, `next` returns
    segments and then nil, and these lose nothing iff the piece behind the last separator is empty, or at least as
    long as a separator. A shorter rest is not handed out, nor are data that are shorter than the separator. -/
theorem segments_lose_nothing_iff (core sep : List UInt8) (hd : d.Holds core) (hcore : core ≠ []) (hne : sep ≠ [])
    (hquiet : Quiet d core sep) :
    ∃ gs, (create d sep).Yields gs ∧
      (LosesNothing core sep gs ↔ lastPiece sep core = [] ∨ sep.length ≤ (lastPiece sep core).length) := by
  obtain ⟨gs, hgs⟩ := exists_cuts d core hd hne 0
  refine ⟨gs, yields_of_cuts hd hgs, ?_⟩
  have hvals := hgs.vals hd hne hquiet (Nat.zero_le _) (List.length_pos_of_ne_nil hcore)
  rw [List.drop_zero] at hvals
  by_cases hshort : (lastPiece sep core).length < sep.length
  · rw [if_pos hshort] at hvals
    rw [losesNothing_dropLast_iff hcore hne hvals hshort]
    constructor
    · exact Or.inl
    · rintro (h | h)
      · exact h
      · omega
  · rw [if_neg hshort] at hvals
    have hwhole : sep.intercalate (pieces sep core) = core := replaceAll_self hne core
    constructor
    · intro _
      exact Or.inr (by omega)
    · intro _
      exact Or.inl (hvals ▸ hwhole)

/-- The rest of the lines is as long as a separator: nothing is lost. -/
theorem segments_lose_nothing_iff_lines :
    ∃ gs, (create (.ofBytes lines fun _ => 0) [13, 10]).Yields gs ∧ LosesNothing lines [13, 10] gs := by
  have hquiet : Quiet (.ofBytes lines fun _ => 0) lines [13, 10] := by
    intro p hp hover h
    have hlen : lines.length = 7 := rfl
    have hlast : p = 6 := by
      rw [hlen] at hp hover
      simp only [List.length_cons, List.length_nil] at hover
      omega
    subst hlast
    exact absurd (h 0 (by decide)) (by decide)
  obtain ⟨gs, hyields, hiff⟩ :=
    segments_lose_nothing_iff lines [13, 10] (holds_ofBytes lines fun _ => 0) (by decide) (by decide) hquiet
  exact ⟨gs, hyields, hiff.mpr (.inr (by decide))⟩

/-- Of the lines `"a\r\nb"` the second one is lost: `next` returns `"a"` and then nil. -/
theorem segments_lose_rest :
    ∃ gs, (create (.ofBytes [97, 13, 10, 98] fun _ => 0) [13, 10]).Yields gs ∧ gs.map (·.val) = [[97]] ∧
      Quiet (.ofBytes [97, 13, 10, 98] fun _ => 0) [97, 13, 10, 98] [13, 10] ∧
      ¬ LosesNothing [97, 13, 10, 98] [13, 10] gs := by
  have hd := holds_ofBytes [97, 13, 10, 98] fun _ => 0
  have hquiet : Quiet (.ofBytes [97, 13, 10, 98] fun _ => 0) [97, 13, 10, 98] [13, 10] := by
    intro p hp hover h
    simp only [List.length_cons, List.length_nil] at hp hover
    obtain rfl : p = 3 := by omega
    exact absurd (h 0 (by decide)) (by decide)
  obtain ⟨gs, hgs⟩ := exists_cuts _ _ hd (by decide : ([13, 10] : List UInt8) ≠ []) 0
  have hvals : gs.map (·.val) = [[97]] := (hgs.vals hd (by decide) hquiet (by decide) (by decide)).trans (by decide)
  refine ⟨gs, yields_of_cuts hd hgs, hvals, hquiet, ?_⟩
  unfold LosesNothing
  rw [hvals]
  decide

/-! ## What depends on the memory behind the data -/

/-- A part of the separator that is neither empty nor all of it begins it, and ends the data. -/
def EndsInside (core sep : List UInt8) : Prop := ∃ q, q ≠ [] ∧ q ≠ sep ∧ q <+: sep ∧ q <:+ core

instance (core sep : List UInt8) : Decidable (EndsInside core sep) :=
  decidable_of_iff (∃ q ∈ sep.inits, q ≠ [] ∧ q ≠ sep ∧ q <:+ core) (by
    simp only [EndsInside, List.mem_inits]
    grind)

/-- The search stops at an occurrence in any memory. -/
theorem stopsAt_of_fits (hd₁ : d₁.Holds core) (hd₂ : d₂.Holds core) (h : d₁.StopsAt sep o r)
    (hfits : r + sep.length ≤ core.length) : d₂.StopsAt sep o r where
  start  := h.start
  stop   := by rw [hd₂.length]; omega
  before := by
    intro p hp hlt hmatch
    have hocc := (matchAt_iff hd₂ (by omega)).mp hmatch
    exact h.before p hp hlt ((matchAt_iff hd₁ (by omega)).mpr hocc)
  here   := by
    intro hlt
    rw [hd₂.length, ← hd₁.length] at hlt
    exact (matchAt_iff hd₂ hfits).mpr ((matchAt_iff hd₁ hfits).mp (h.here hlt))

/-- Where it stops without one, in front of the end of the data, a part of the separator ends the data. -/
theorem endsInside_of_stopsAt (hd : d.Holds core) (h : d.StopsAt sep o r) (hover : core.length < r + sep.length)
    (hlt : r < core.length) : EndsInside core sep := by
  have hmatch := h.here (by rw [hd.length]; exact hlt)
  refine ⟨core.drop r, ?_, ?_, ?_, List.drop_suffix r core⟩
  · intro hnil
    rw [List.drop_eq_nil_iff] at hnil
    omega
  · intro heq
    have hlen := congrArg List.length heq
    rw [List.length_drop] at hlen
    omega
  · rw [List.prefix_iff_getElem]
    refine ⟨by rw [List.length_drop]; omega, ?_⟩
    intro j hj
    rw [List.length_drop] at hj
    rw [List.getElem_drop, ← hd.bytes, hmatch j (by omega)]

/-- **Where the search stops is decided by the data** if the separator occurs, or no part of it ends the data. -/
theorem stopsAt_agree (hd₁ : d₁.Holds core) (hd₂ : d₂.Holds core) (h₁ : d₁.StopsAt sep o r₁)
    (h₂ : d₂.StopsAt sep o r₂) (hdec : sep <:+: core.drop o ∨ ¬ EndsInside core sep) : r₁ = r₂ := by
  rcases Nat.lt_or_ge core.length (r₁ + sep.length) with hover₁ | hfits
  · rcases Nat.lt_or_ge core.length (r₂ + sep.length) with hover₂ | hfits
    · have hno := hdec.resolve_left (not_infix_of_stopsAt hd₁ h₁ hover₁)
      have hend₁ : ¬ r₁ < core.length := fun hlt => hno (endsInside_of_stopsAt hd₁ h₁ hover₁ hlt)
      have hend₂ : ¬ r₂ < core.length := fun hlt => hno (endsInside_of_stopsAt hd₂ h₂ hover₂ hlt)
      have hstop₁ : r₁ ≤ core.length := hd₁.length ▸ h₁.stop
      have hstop₂ : r₂ ≤ core.length := hd₂.length ▸ h₂.stop
      omega
    · exact h₁.unique (stopsAt_of_fits hd₂ hd₁ h₂ hfits)
  · exact (stopsAt_of_fits hd₁ hd₂ h₁ hfits).unique h₂

/-- **Otherwise the memory decides**: where a part of the separator ends the data, one memory completes it, and
    with another one the search stops elsewhere. -/
theorem exists_memories (hend : EndsInside core sep) :
    ∃ d₁ d₂ : NSData, d₁.Holds core ∧ d₂.Holds core ∧ ∀ o r₁ r₂, sep.length + o ≤ core.length →
      ¬ sep <:+: core.drop o → d₁.StopsAt sep o r₁ → d₂.StopsAt sep o r₂ → r₁ ≠ r₂ := by
  obtain ⟨q, hqne, hqsep, ⟨u, rfl⟩, ⟨t, rfl⟩⟩ := hend
  have hqpos := List.length_pos_of_ne_nil hqne
  have hupos : 0 < u.length := by
    apply List.length_pos_of_ne_nil
    rintro rfl
    exact hqsep (List.append_nil q).symm
  have hd₁ := NSData.holds_ofBytes (t ++ q) fun j => u.getD j 0
  have hd₂ := NSData.holds_ofBytes (t ++ q) fun _ => u.getD 0 0 + 1
  refine ⟨_, _, hd₁, hd₂, ?_⟩
  rintro o r _ hfits hnot h₁ h₂ rfl
  rw [List.length_append, List.length_append] at hfits
  -- the first memory completes the separator where the part begins, so the search does not pass that place
  have hmatch : (NSData.ofBytes (t ++ q) fun j => u.getD j 0).MatchAt (q ++ u) t.length := by
    intro j hj
    rw [List.length_append] at hj
    rcases Nat.lt_or_ge j q.length with hin | hout
    · rw [hd₁.bytes _ (by rw [List.length_append]; omega), List.getElem_append_right (Nat.le_add_right _ _),
        List.getElem_append_left hin]
      simp
    · have hbehind : ¬ t.length + j < (t ++ q).length := by
        rw [List.length_append]
        omega
      have hplace : t.length + j - (t ++ q).length = j - q.length := by
        rw [List.length_append]
        omega
      rw [List.getElem_append_right hout]
      show (if h : t.length + j < (t ++ q).length then _ else u.getD (t.length + j - (t ++ q).length) 0) = _
      rw [dif_neg hbehind, hplace, List.getD_eq_getElem _ _ (by omega)]
  have hlt : r < (t ++ q).length := by
    rw [List.length_append]
    by_contra hge
    exact h₁.before t.length (by omega) (by omega) hmatch
  have hover : (t ++ q).length < r + (q ++ u).length := by
    by_contra hle
    have hpre := (first_of_stopsAt hd₁ (by simp [hqne]) h₁ (by omega)).1
    exact hnot (hpre.isInfix.trans (List.drop_suffix _ _).isInfix)
  -- a match there in both memories needs the same byte behind the data
  have hb₁ := h₁.here hlt ((t ++ q).length - r) (by omega)
  have hb₂ := h₂.here hlt ((t ++ q).length - r) (by omega)
  have hplace : r + ((t ++ q).length - r) = (t ++ q).length := by omega
  rw [hplace] at hb₁ hb₂
  have hfirst : (NSData.ofBytes (t ++ q) fun j => u.getD j 0).bytes (t ++ q).length = u.getD 0 0 := by
    simp [NSData.ofBytes]
  have hother : (NSData.ofBytes (t ++ q) fun _ => u.getD 0 0 + 1).bytes (t ++ q).length = u.getD 0 0 + 1 := by
    simp [NSData.ofBytes]
  rw [hfirst] at hb₁
  rw [hother, ← hb₁] at hb₂
  simp at hb₂

/-- `findBytes` with the bytes of the separator. -/
def find (d : NSData) (sep : List UInt8) (offset : Int) : Exec (Option Int) :=
  d.findBytes (fun j => sep.getD j 0) offset sep.length

/-- The guard fails, the separator occurs from the offset on, or no part of it ends the data. -/
def FindDecided (core sep : List UInt8) (offset : Int) : Prop :=
  offset < 0 ∨ core = [] ∨ core.length < sep.length + offset ∨ sep <:+: core.drop offset.toNat ∨ ¬ EndsInside core sep

/-- The rest behind the last separator is shorter than a separator, or no part of a separator ends the data. -/
def SegmentsDecided (core sep : List UInt8) : Prop :=
  (lastPiece sep core).length < sep.length ∨ ¬ EndsInside core sep

theorem find_agree {offset : Int} (hd₁ : d₁.Holds core) (hd₂ : d₂.Holds core) (hdec : FindDecided core sep offset) :
    find d₁ sep offset = find d₂ sep offset := by
  have hlen₁ := hd₁.length
  have hlen₂ := hd₂.length
  by_cases hguard : offset < 0 ∨ (sep.length : Int) < 0 ∨ core.length = 0 ∨ (sep.length : Int) + offset > core.length
  · unfold find
    rw [findBytes_none (hlen₁ ▸ hguard), findBytes_none (hlen₂ ▸ hguard)]
  · obtain ⟨o, rfl⟩ : ∃ o : Nat, offset = o := ⟨offset.toNat, by omega⟩
    obtain ⟨r₁, hfind₁, h₁⟩ := findBytes_ok d₁ sep o (by omega) (by omega)
    obtain ⟨r₂, hfind₂, h₂⟩ := findBytes_ok d₂ sep o (by omega) (by omega)
    have hne : core ≠ [] := by
      rintro rfl
      exact hguard (Or.inr (Or.inr (Or.inl rfl)))
    have hdec' : sep <:+: core.drop o ∨ ¬ EndsInside core sep := by
      rcases hdec with h | h | h | h | h
      · omega
      · exact absurd h hne
      · omega
      · exact Or.inl h
      · exact Or.inr h
    unfold find
    rw [hfind₁, hfind₂, stopsAt_agree hd₁ hd₂ h₁ h₂ hdec']

theorem subdataWithRange_agree (hd₁ : d₁.Holds core) (hd₂ : d₂.Holds core) (loc len : Int) :
    d₁.subdataWithRange loc len = d₂.subdataWithRange loc len := by
  have hlen : d₁.length = d₂.length := hd₁.length.trans hd₂.length.symm
  unfold subdataWithRange
  rw [hlen]
  split
  · next hin =>
      congr 1
      apply List.map_congr_left
      intro j hj
      have hj' := List.mem_range.mp hj
      have hcore := hd₂.length
      rw [hd₁.bytes _ (by omega), hd₂.bytes _ (by omega)]
  · rfl

/-- Where searches agree from every offset, segments do. -/
theorem segments_agree_of_find (hd₁ : d₁.Holds core) (hd₂ : d₂.Holds core)
    (hfind : ∀ offset, find d₁ sep offset = find d₂ sep offset) :
    ∀ k (cur nxt len : Int), segments k ⟨d₁, cur, nxt, len, sep⟩ = segments k ⟨d₂, cur, nxt, len, sep⟩ := by
  intro k
  induction k with
  | zero =>
      intro _ _ _
      rfl
  | succ k ih =>
      intro cur nxt len
      have hsearch := hfind nxt
      unfold find at hsearch
      unfold segments next
      dsimp only
      rw [hsearch]
      cases d₂.findBytes (fun j => sep.getD j 0) nxt sep.length with
      | fault => rfl
      | outOfFuel => rfl
      | ok found =>
          cases found with
          | none => rfl
          | some endpoint =>
              rw [Exec.ok_bind, Exec.ok_bind]
              unfold curVal
              dsimp only
              rw [subdataWithRange_agree hd₁ hd₂]
              cases d₂.subdataWithRange nxt (endpoint - nxt) with
              | fault => rfl
              | outOfFuel => rfl
              | ok val => simp only [Exec.ok_bind, Exec.pure_eq, ih]

/-- The calls of `next` in two memories. -/
theorem cuts_agree (hd₁ : d₁.Holds core) (hd₂ : d₂.Holds core) (hne : sep ≠ []) (h₁ : Cuts d₁ core sep o gs₁)
    (h₂ : Cuts d₂ core sep o gs₂) (ho : o ≤ core.length)
    (hdec : (lastPiece sep (core.drop o)).length < sep.length ∨ ¬ EndsInside core sep) : gs₁ = gs₂ := by
  induction h₁ generalizing gs₂ with
  | @stop o hstop =>
      cases h₂ with
      | stop _ => rfl
      | cut hfits _ _ => omega
  | @cut o r gs hfits hr hgs ih =>
      cases h₂ with
      | stop hstop => omega
      | @cut _ r₂ gs₂ _ hr₂ hgs₂ =>
          have hdec' : sep <:+: core.drop o ∨ ¬ EndsInside core sep := by
            refine hdec.imp_left ?_
            intro hshort
            by_contra hnot
            rw [lastPiece_of_absent hnot, List.length_drop] at hshort
            omega
          obtain rfl := stopsAt_agree hd₁ hd₂ hr hr₂ hdec'
          rcases Nat.lt_or_ge core.length (r + sep.length) with hover | hfits'
          · cases hgs with
            | stop _ =>
                cases hgs₂ with
                | stop _ => rfl
                | cut hfits'' _ _ => omega
            | cut hfits'' _ _ => omega
          · rw [ih hgs₂ hfits' ((pieces_of_stopsAt hd₁ hne hr hfits').2 ▸ hdec)]

/-- In two memories with which the searches behind the last separator stop elsewhere, the segments differ. -/
theorem cuts_differ (hd₁ : d₁.Holds core) (hd₂ : d₂.Holds core) (hne : sep ≠ [])
    (hmem : ∀ o r₁ r₂, sep.length + o ≤ core.length → ¬ sep <:+: core.drop o → d₁.StopsAt sep o r₁ →
      d₂.StopsAt sep o r₂ → r₁ ≠ r₂) (h₁ : Cuts d₁ core sep o gs₁) (h₂ : Cuts d₂ core sep o gs₂)
    (hlong : sep.length ≤ (lastPiece sep (core.drop o)).length) : gs₁ ≠ gs₂ := by
  have hpos := List.length_pos_of_ne_nil hne
  induction h₁ generalizing gs₂ with
  | @stop o hstop =>
      have hnot : ¬ sep <:+: core.drop o := by
        intro hinf
        have hle := hinf.length_le
        rw [List.length_drop] at hle
        omega
      rw [lastPiece_of_absent hnot, List.length_drop] at hlong
      omega
  | @cut o r gs hfits hr hgs ih =>
      cases h₂ with
      | stop hstop => omega
      | @cut _ r₂ gs₂ _ hr₂ hgs₂ =>
          by_cases hinf : sep <:+: core.drop o
          · obtain rfl := stopsAt_agree hd₁ hd₂ hr hr₂ (Or.inl hinf)
            have hfits' : r + sep.length ≤ core.length := by
              by_contra hover
              exact not_infix_of_stopsAt hd₁ hr (by omega) hinf
            rw [(pieces_of_stopsAt hd₁ hne hr hfits').2] at hlong
            intro heq
            exact ih hgs₂ hlong (List.cons_eq_cons.mp heq).2
          · have hdiff := hmem o r r₂ hfits.2 hinf hr hr₂
            intro heq
            have hlen : (r : Int) - o = r₂ - o := congrArg Segment.len (List.cons_eq_cons.mp heq).1
            omega

/-- Segmenting `core` gives the same in every memory. -/
theorem segments_agree (hd₁ : d₁.Holds core) (hd₂ : d₂.Holds core) (hdec : SegmentsDecided core sep) (k : Nat) :
    (create d₁ sep).segments k = (create d₂ sep).segments k := by
  rcases eq_or_ne sep [] with rfl | hne
  · refine segments_agree_of_find hd₁ hd₂ ?_ k 0 0 0
    intro offset
    refine find_agree hd₁ hd₂ (Or.inr (Or.inr (Or.inr (Or.inr ?_))))
    rintro ⟨q, hqne, _, hpre, _⟩
    exact hqne (List.prefix_nil.mp hpre)
  · obtain ⟨gs₁, h₁⟩ := exists_cuts d₁ core hd₁ hne 0
    obtain ⟨gs₂, h₂⟩ := exists_cuts d₂ core hd₂ hne 0
    have hseg₁ : (create d₁ sep).segments k = .ok (gs₁.take k) := segments_of_cuts hd₁ rfl h₁ k
    have hseg₂ : (create d₂ sep).segments k = .ok (gs₂.take k) := segments_of_cuts hd₂ rfl h₂ k
    rw [hseg₁, hseg₂, cuts_agree hd₁ hd₂ hne h₁ h₂ (Nat.zero_le _) hdec]

/-- A search that no memory changes is decided. -/
theorem findDecided_of_agree {offset : Int}
    (h : ∀ d₁ d₂ : NSData, d₁.Holds core → d₂.Holds core → find d₁ sep offset = find d₂ sep offset) :
    FindDecided core sep offset := by
  by_contra hnot
  unfold FindDecided at hnot
  simp only [not_or, not_not] at hnot
  obtain ⟨hoff, hcore, hfits, hinf, hend⟩ := hnot
  have hpos := List.length_pos_of_ne_nil hcore
  obtain ⟨o, rfl⟩ : ∃ o : Nat, offset = o := ⟨offset.toNat, by omega⟩
  obtain ⟨d₁, d₂, hd₁, hd₂, hmem⟩ := exists_memories hend
  have hlen₁ := hd₁.length
  have hlen₂ := hd₂.length
  obtain ⟨r₁, hfind₁, h₁⟩ := findBytes_ok d₁ sep o (by omega) (by omega)
  obtain ⟨r₂, hfind₂, h₂⟩ := findBytes_ok d₂ sep o (by omega) (by omega)
  have heq : find d₁ sep o = find d₂ sep o := h d₁ d₂ hd₁ hd₂
  unfold find at heq
  rw [hfind₁, hfind₂] at heq
  have hr : (r₁ : Int) = r₂ := Option.some.inj (Exec.ok.inj heq)
  exact hmem o r₁ r₂ (by omega) hinf h₁ h₂ (by omega)

/-- So are segments that no memory changes. -/
theorem segmentsDecided_of_agree (h : ∀ d₁ d₂ : NSData, d₁.Holds core → d₂.Holds core →
    ∀ k, (create d₁ sep).segments k = (create d₂ sep).segments k) : SegmentsDecided core sep := by
  by_contra hnot
  unfold SegmentsDecided at hnot
  rw [not_or, not_not] at hnot
  obtain ⟨hlong, hend⟩ := hnot
  have hne : sep ≠ [] := by
    rintro rfl
    obtain ⟨q, hqne, _, hpre, _⟩ := hend
    exact hqne (List.prefix_nil.mp hpre)
  obtain ⟨d₁, d₂, hd₁, hd₂, hmem⟩ := exists_memories hend
  obtain ⟨gs₁, h₁⟩ := exists_cuts d₁ core hd₁ hne 0
  obtain ⟨gs₂, h₂⟩ := exists_cuts d₂ core hd₂ hne 0
  apply cuts_differ hd₁ hd₂ hne hmem h₁ h₂ (by rw [List.drop_zero]; omega)
  have hk := h d₁ d₂ hd₁ hd₂ (max gs₁.length gs₂.length + 1)
  rw [yields_of_cuts hd₁ h₁ _ (by omega), yields_of_cuts hd₂ h₂ _ (by omega)] at hk
  exact Exec.ok.inj hk

/-- **What depends on the data only.** In every two memories that hold the same data, `findBytes` returns the same and
    any number of calls of `next` do, iff the data decide where the searches stop: for `findBytes`, the guard fails,
    the separator occurs from the offset on, or no proper part of it ends the data; for `next`, the rest behind the
    last separator is shorter than a separator, or no proper part of one ends the data. -/
theorem segmenting_depends_on_data_iff (core sep : List UInt8) (offset : Int) :
    (∀ d₁ d₂ : NSData, d₁.Holds core → d₂.Holds core → find d₁ sep offset = find d₂ sep offset ∧
      ∀ k, (create d₁ sep).segments k = (create d₂ sep).segments k) ↔
      FindDecided core sep offset ∧ SegmentsDecided core sep := by
  constructor
  · intro h
    exact ⟨findDecided_of_agree fun d₁ d₂ hd₁ hd₂ => (h d₁ d₂ hd₁ hd₂).1,
      segmentsDecided_of_agree fun d₁ d₂ hd₁ hd₂ => (h d₁ d₂ hd₁ hd₂).2⟩
  · rintro ⟨hfind, hseg⟩ d₁ d₂ hd₁ hd₂
    exact ⟨find_agree hd₁ hd₂ hfind, segments_agree hd₁ hd₂ hseg⟩

/-- The data `"abcd\r"` and the separator `"\r\n"`: with a newline stored behind the data the end of the first
    segment is found at index 4, without it at index 5. -/
theorem segmenting_reads_memory :
    ∃ d₁ d₂ : NSData, d₁.Holds [97, 98, 99, 100, 13] ∧ d₂.Holds [97, 98, 99, 100, 13] ∧
      find d₁ [13, 10] 0 = .ok (some 4) ∧ find d₂ [13, 10] 0 = .ok (some 5) ∧
      (create d₁ [13, 10]).segments 1 = .ok [⟨0, 4, [97, 98, 99, 100]⟩] ∧
      (create d₂ [13, 10]).segments 1 = .ok [⟨0, 5, [97, 98, 99, 100, 13]⟩] := by
  refine ⟨_, _, holds_ofBytes _ (fun _ => 10), holds_ofBytes _ (fun _ => 0), ?_, ?_, ?_, ?_⟩ <;> decide +kernel

end SpartanX.NSDataSegment
