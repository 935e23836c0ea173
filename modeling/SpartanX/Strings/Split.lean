import Mathlib.Data.List.Forall2
import SpartanX.Strings.Search

/-!
# `Strings.Split` — cutting a string at the occurrences of another

`SXStringSubStringsTrimmedByString` searches the separator and makes one string of each of the parts before,
between and behind its occurrences. The ends of a part are computed in `int` from the positions the search
returned, by one formula for the first part, one for the last and one for those between (`trimRange`). They are the
cuts of `Lib.Occurrences` (`trimRange_eq`).

For a separator without border the parts are the pieces, and joining them with the separator gives the string back
(`splitting_undone_by_joining`).
-/

namespace SpartanX

open CInt CMemory Occurrences

/-- The range of the `i`th part. -/
def trimRange (target trimstr : SXString) (loca : SXVector IntT) (i : IntT) : Exec SXRange :=
  if i = 0 then do
    let pos ← Exec.ofOption (sxVectorObjectPtrAtIndex loca i.toSizeT)
    pure { loca := 0, len := pos.toSizeT }
  else if i.toSizeT = loca.count then do
    let before ← Exec.ofOption (sxVectorObjectPtrAtIndex loca (i - 1).toSizeT)
    let len : SizeT := IntT.toSizeT (target.length.setWidth 32 - (before + trimstr.length.setWidth 32))
    pure { loca := IntT.toSizeT (target.length.setWidth 32) - len, len := len }
  else do
    let before ← Exec.ofOption (sxVectorObjectPtrAtIndex loca (i - 1).toSizeT)
    let pos ← Exec.ofOption (sxVectorObjectPtrAtIndex loca i.toSizeT)
    pure { loca := IntT.toSizeT (before + trimstr.length.setWidth 32)
           len  := IntT.toSizeT (pos - before - trimstr.length.setWidth 32) }

/-- The body of the loop: cut out a part, put it into the vector. -/
def trimBody (target trimstr : SXString) (loca : SXVector IntT) (i : IntT) (ret : SXVector SXString) :
    Exec (SXVector SXString) := do
  let range ← trimRange target trimstr loca i
  let sstr ← sxStringGetSubstringInRange target range
  let slots ← setAt ret.slots (ret.place i.toSizeT) (some sstr)
  pure { ret with slots := slots, count := ret.count + 1 }

/-- `SXStringSubStringsTrimmedByString`. -/
def sxStringSubStringsTrimmedByString (target trimstr : SXString) : Exec (SXVector SXString) := do
  let loca ← sxStringSubStringLocations target trimstr
  let loca ← Exec.ofOption loca
  Exec.forInt (fun i _ => i.toSizeT ≤ loca.count) (trimBody target trimstr loca) (loca.count.toNat + 1)
    (sxCreateVector sizeofRef (loca.count + 1) true)

section Split

variable {s p : List UInt8} {target trimstr : SXString} {loca : SXVector IntT} {i : Nat}

/-- The range reaches from one place in the string to another. -/
def SXRange.Cuts (range : SXRange) (start stop : Nat) : Prop :=
  range.loca.toNat = start ∧ range.len.toNat = stop - start

/-- The range that is computed for what is between two cuts, whichever comes first. -/
def cutRange (start stop : Nat) : SXRange where
  loca := BitVec.ofNat 64 start
  len  := BitVec.ofInt 64 (stop - start)

/-- If the cuts are in order the range is what is between them. -/
theorem cutRange_cuts {start stop : Nat} (hle : start ≤ stop) (hlt : stop < 18446744073709551616) :
    (cutRange start stop).Cuts start stop := by
  have hdiff : (stop : Int) - start = (stop - start : Nat) := by omega
  refine ⟨toNat_ofNat_of_lt (by omega), ?_⟩
  show (BitVec.ofInt 64 (stop - start)).toNat = _
  rw [hdiff, BitVec.ofInt_natCast, toNat_ofNat_of_lt (by omega)]

/-- The first part ends at the first position. -/
theorem trimRange_first (hlen : s.length < 2147483648) (hloca : Positions loca (occurrences p s))
    (hsome : 0 < (occurrences p s).length) :
    trimRange target trimstr loca 0 =
      .ok (cutRange (cutStart p (occurrences p s) 0) (cutEnd s (occurrences p s) 0)) := by
  have hend := cutEnd_le s p 0
  have hread : sxVectorObjectPtrAtIndex loca (IntT.toSizeT 0) =
      some (BitVec.ofNat 32 (cutEnd s (occurrences p s) 0)) := hloca.read_getD hsome (by omega) s.length
  unfold trimRange
  rw [if_pos rfl, hread, Exec.ofOption_some, Exec.ok_bind, toSizeT_ofNat (by omega)]
  simp [cutRange, cutStart]

/-- The place behind a position. -/
theorem cutStart_succ (ht : trimstr.Holds p) (occ : List Nat) (j : Nat) :
    BitVec.ofNat 32 (occ.getD j 0) + trimstr.length.setWidth 32 =
      (BitVec.ofNat 32 (cutStart p occ (j + 1)) : IntT) := by
  rw [ht.setWidth_length, ← BitVec.ofNat_add]
  rfl

/-- The last part is as long as what lies behind the last position. -/
theorem trimRange_last (hlen : s.length < 2147483648) (hs : target.Holds s) (ht : trimstr.Holds p)
    (hloca : Positions loca (occurrences p s)) {j : Nat} (hj : j + 1 = (occurrences p s).length) :
    trimRange target trimstr loca (BitVec.ofNat 32 (j + 1)) =
      .ok (cutRange (cutStart p (occurrences p s) (j + 1)) (cutEnd s (occurrences p s) (j + 1))) := by
  have hcount := length_occurrences_le p s
  have hstart := cutStart_le s p (j + 1) hj.le
  have hstop : cutEnd s (occurrences p s) (j + 1) = s.length := List.getD_eq_default _ _ hj.ge
  have hzero : (BitVec.ofNat 32 (j + 1) : IntT) ≠ 0 := ofNat_succ_ne_zero (by omega)
  have hlast : IntT.toSizeT (BitVec.ofNat 32 (j + 1)) = loca.count := by
    rw [← BitVec.toNat_inj, toNat_toSizeT_of_lt (by omega), hloca.count, hj]
  have hread := hloca.read_getD (k := j) (by omega) (by omega) 0
  have hback : s.length - (s.length - cutStart p (occurrences p s) (j + 1)) =
      cutStart p (occurrences p s) (j + 1) := by omega
  have hdiff : (s.length : Int) - cutStart p (occurrences p s) (j + 1) =
      (s.length - cutStart p (occurrences p s) (j + 1) : Nat) := by omega
  unfold trimRange cutRange
  rw [if_neg hzero, if_pos hlast, ofNat_succ_sub_one, hread, Exec.ofOption_some, Exec.ok_bind]
  dsimp only
  rw [cutStart_succ ht, hs.setWidth_length, ofNat_sub_ofNat (by omega), toSizeT_ofNat hlen, toSizeT_ofNat (by omega),
    ofNat_sub_ofNat (by omega), hback, hstop, hdiff, BitVec.ofInt_natCast]
  rfl

/-- Any other part reaches from behind one position to the next. -/
theorem trimRange_middle (hlen : s.length < 2147483648) (ht : trimstr.Holds p)
    (hloca : Positions loca (occurrences p s)) {j : Nat} (hj : j + 1 < (occurrences p s).length) :
    trimRange target trimstr loca (BitVec.ofNat 32 (j + 1)) =
      .ok (cutRange (cutStart p (occurrences p s) (j + 1)) (cutEnd s (occurrences p s) (j + 1))) := by
  have hcount := length_occurrences_le p s
  have hstart := cutStart_le s p (j + 1) hj.le
  have hend := cutEnd_le s p (j + 1)
  have hzero : (BitVec.ofNat 32 (j + 1) : IntT) ≠ 0 := ofNat_succ_ne_zero (by omega)
  have hlast : IntT.toSizeT (BitVec.ofNat 32 (j + 1)) ≠ loca.count := by
    rw [Ne, ← BitVec.toNat_inj, toNat_toSizeT_of_lt (by omega), hloca.count]
    omega
  have hread := hloca.read_getD (k := j) (by omega) (by omega) 0
  have hread' : sxVectorObjectPtrAtIndex loca (IntT.toSizeT (BitVec.ofNat 32 (j + 1))) =
      some (BitVec.ofNat 32 (cutEnd s (occurrences p s) (j + 1))) := hloca.read_getD hj (by omega) s.length
  unfold trimRange cutRange
  rw [if_neg hzero, if_neg hlast, ofNat_succ_sub_one, hread, hread', Exec.ofOption_some, Exec.ok_bind,
    Exec.ofOption_some, Exec.ok_bind, BitVec.sub_sub, cutStart_succ ht, toSizeT_sub (by omega) (by omega),
    toSizeT_ofNat (by omega)]
  rfl

/-- **The range of a part is computed from the two cuts.** -/
theorem trimRange_eq (hlen : s.length < 2147483648) (hs : target.Holds s) (ht : trimstr.Holds p)
    (hloca : Positions loca (occurrences p s)) (hsome : 0 < (occurrences p s).length)
    (hi : i ≤ (occurrences p s).length) :
    trimRange target trimstr loca (BitVec.ofNat 32 i) =
      .ok (cutRange (cutStart p (occurrences p s) i) (cutEnd s (occurrences p s) i)) := by
  cases i with
  | zero => exact trimRange_first hlen hloca hsome
  | succ j =>
      rcases Nat.lt_or_eq_of_le hi with hlt | heq
      · exact trimRange_middle hlen ht hloca hlt
      · exact trimRange_last hlen hs ht hloca heq

/-- The vector after `k` of `n` iterations, which have made these strings. -/
def trimmed (strs : List SXString) (n k : Nat) : SXVector SXString where
  refCount := 1
  count    := BitVec.ofNat 64 k
  osize    := sizeofRef
  slots    := strs.map some ++ List.replicate (n - k) none
  dealloc  := true

/-- An iteration adds what is between two cuts, if they are in order. -/
theorem trimBody_cuts {strs : List SXString} {k : Nat} (hslen : s.length < 2147483648) (hs : target.Holds s)
    (ht : trimstr.Holds p) (hloca : Positions loca (occurrences p s)) (hsome : 0 < (occurrences p s).length)
    (hk : k < (occurrences p s).length + 1) (hstrs : strs.length = k)
    (hle : cutStart p (occurrences p s) k ≤ cutEnd s (occurrences p s) k) :
    ∃ sstr, trimBody target trimstr loca (BitVec.ofNat 32 k) (trimmed strs ((occurrences p s).length + 1) k) =
        .ok (trimmed (strs ++ [sstr]) ((occurrences p s).length + 1) (k + 1)) ∧
      sstr.Holds ((s.drop (cutStart p (occurrences p s) k)).take
        (cutEnd s (occurrences p s) k - cutStart p (occurrences p s) k)) := by
  have hcount := length_occurrences_le p s
  have hend := cutEnd_le s p k
  have hrange := trimRange_eq hslen hs ht hloca hsome (Nat.le_of_lt_succ hk)
  obtain ⟨hstart, hstop⟩ := cutRange_cuts hle (by omega)
  revert hle hend hrange hstart hstop
  generalize cutStart p (occurrences p s) k = start
  generalize cutEnd s (occurrences p s) k = stop
  intro hle hend hrange hstart hstop
  have hsplit : s = s.take start ++ (s.drop start).take (stop - start) ++ (s.drop start).drop (stop - start) := by
    rw [List.append_assoc, List.take_append_drop, List.take_append_drop]
  obtain ⟨sstr, hsub, _, hholds⟩ := sxStringGetSubstringInRange_ok (cutRange start stop) (hsplit ▸ hs)
    (by rw [hstart, List.length_take]; omega)
    (by rw [hstop, List.length_take, List.length_drop]; omega)
  have hlen : (strs.map some).length = k := by rw [List.length_map, hstrs]
  have hplace : placeOf sizeofRef (IntT.toSizeT (BitVec.ofNat 32 k)) = k := by
    have hindex : (IntT.toSizeT (BitVec.ofNat 32 k)).toNat = k := toNat_toSizeT_of_lt (by omega)
    have hsize : sizeofRef.toNat = 8 := rfl
    rw [placeOf_eq (by omega) (by rw [hindex, hsize]; omega), hindex]
  have hset := setAt_append (strs.map some) (List.replicate ((occurrences p s).length + 1 - (k + 1)) none)
    (none : Option SXString) (some sstr)
  rw [hlen] at hset
  have hroom : (occurrences p s).length + 1 - k = ((occurrences p s).length + 1 - (k + 1)) + 1 := by omega
  refine ⟨sstr, ?_, hholds⟩
  unfold trimBody
  rw [hrange, Exec.ok_bind, hsub, Exec.ok_bind]
  show (setAt (strs.map some ++ List.replicate ((occurrences p s).length + 1 - k) none)
    (placeOf sizeofRef (IntT.toSizeT (BitVec.ofNat 32 k))) (some sstr) >>= _) = _
  rw [hplace, hroom, List.replicate_succ, hset, Exec.ok_bind]
  simp [trimmed, BitVec.ofNat_add]

/-- For a separator without border this is the next piece. -/
theorem trimBody_ok {strs : List SXString} {k : Nat} (h : Findable p s) (hs : target.Holds s) (ht : trimstr.Holds p)
    (hloca : Positions loca (occurrences p s)) (hsome : 0 < (occurrences p s).length)
    (hk : k < (occurrences p s).length + 1) (hstrs : List.Forall₂ SXString.Holds strs ((pieces p s).take k)) :
    ∃ sstr, trimBody target trimstr loca (BitVec.ofNat 32 k) (trimmed strs ((occurrences p s).length + 1) k) =
        .ok (trimmed (strs ++ [sstr]) ((occurrences p s).length + 1) (k + 1)) ∧
      List.Forall₂ SXString.Holds (strs ++ [sstr]) ((pieces p s).take (k + 1)) := by
  have hpieces := length_pieces h.borderFree h.nonempty s
  have hlen : strs.length = k := by
    rw [hstrs.length_eq, List.length_take]
    omega
  obtain ⟨sstr, hbody, hholds⟩ := trimBody_cuts h.length hs ht hloca hsome hk hlen
    (cut_bounds h.borderFree h.nonempty s k (Nat.le_of_lt_succ hk)).1
  refine ⟨sstr, hbody, ?_⟩
  rw [List.take_add_one, getElem?_pieces h.borderFree h.nonempty s k (Nat.le_of_lt_succ hk)]
  exact List.rel_append hstrs (List.Forall₂.cons hholds List.Forall₂.nil)

/-- The vector that the parts are put into has a place for each. -/
theorem sxCreateVector_parts (hlen : s.length < 2147483648) (hloca : Positions loca (occurrences p s)) :
    sxCreateVector sizeofRef (loca.count + 1) true = trimmed [] ((occurrences p s).length + 1) 0 := by
  have hcount := length_occurrences_le p s
  have hreserve : (loca.count + 1).toNat = (occurrences p s).length + 1 := by
    rw [BitVec.toNat_add, hloca.count]
    show (_ + 1) % 18446744073709551616 = _
    omega
  have hsize : sizeofRef.toNat = 8 := rfl
  unfold sxCreateVector
  rw [sxMalloc_eq (by omega) (by rw [hreserve, hsize]; omega), hreserve]
  rfl

/-- **The vector has a string for each piece**, cut with the positions that the search returns. -/
theorem splitting_pieces (h : Findable p s) (hs : target.Holds s) (ht : trimstr.Holds p) :
    ∃ loca ret strs, sxStringSubStringLocations target trimstr = .ok (some loca) ∧
      Positions loca (occurrences p s) ∧ 0 < (occurrences p s).length ∧
      sxStringSubStringsTrimmedByString target trimstr = .ok ret ∧ ret.osize = sizeofRef ∧
      ret.Lists strs ∧ List.Forall₂ SXString.Holds strs (pieces p s) := by
  have hslen := h.length
  have hcount := length_occurrences_le p s
  have hpieces := length_pieces h.borderFree h.nonempty s
  obtain ⟨loca, hsearch, hloca, hsome⟩ := h.toSearched.search hs ht
  obtain ⟨ret, hloop, strs, rfl, hstrs⟩ : ∃ ret, Exec.forInt (fun i _ => i.toSizeT ≤ loca.count)
      (trimBody target trimstr loca) (loca.count.toNat + 1) (trimmed [] ((occurrences p s).length + 1) 0) = .ok ret ∧
      ∃ strs, ret = trimmed strs ((occurrences p s).length + 1) ((occurrences p s).length + 1) ∧
        List.Forall₂ SXString.Holds strs ((pieces p s).take ((occurrences p s).length + 1)) := by
    refine Exec.forInt_ok (I := fun k ret => ∃ strs, ret = trimmed strs ((occurrences p s).length + 1) k ∧
      List.Forall₂ SXString.Holds strs ((pieces p s).take k)) ?_ ?_ ⟨[], rfl, List.Forall₂.nil⟩ (by rw [hloca.count])
    · rintro k ret hk ⟨strs, rfl, hstrs⟩
      obtain ⟨sstr, hbody, hstrs'⟩ := trimBody_ok h hs ht hloca hsome hk hstrs
      have hindex : (IntT.toSizeT (BitVec.ofNat 32 k)).toNat = k := toNat_toSizeT_of_lt (by omega)
      refine ⟨?_, _, hbody, _, rfl, hstrs'⟩
      simp only [BitVec.le_def, decide_eq_true_eq, hloca.count, hindex]
      omega
    · rintro ret _
      -- the counter may have wrapped around, and then stands above the count too
      simp only [BitVec.le_def, decide_eq_false_iff_not, hloca.count]
      rw [toNat_toSizeT_ofNat (by omega)]
      split <;> omega
  rw [← hpieces, List.take_length] at hstrs
  have hlen : strs.length = (occurrences p s).length + 1 := hstrs.length_eq.trans hpieces
  refine ⟨loca, trimmed strs ((occurrences p s).length + 1) ((occurrences p s).length + 1), strs, hsearch, hloca,
    hsome, ?_, rfl, ⟨?_, ?_⟩, hstrs⟩
  · unfold sxStringSubStringsTrimmedByString
    rw [hsearch, Exec.ok_bind, Exec.ofOption_some, Exec.ok_bind, sxCreateVector_parts hslen hloca, hloop]
  · rw [hlen]
    exact toNat_ofNat_of_lt (by omega)
  · simp [trimmed]

theorem sxStringSubStringsTrimmedByString_ok (h : Findable p s) (hs : target.Holds s) (ht : trimstr.Holds p) :
    ∃ ret strs, sxStringSubStringsTrimmedByString target trimstr = .ok ret ∧ ret.osize = sizeofRef ∧
      ret.Lists strs ∧ List.Forall₂ SXString.Holds strs (pieces p s) := by
  obtain ⟨_, ret, strs, _, _, _, hrest⟩ := splitting_pieces h hs ht
  exact ⟨ret, strs, hrest⟩

/-- **Splitting is undone by joining.** With `k` occurrences of the separator there are `k + 1` parts: every range
    that is cut lies inside the string, the vector has `k + 1` places and a string in each, putting the separator
    between these gives the string back, and none of them contains the separator. -/
theorem splitting_undone_by_joining (h : Findable p s) (hs : target.Holds s) (ht : trimstr.Holds p) :
    ∃ loca ret strs ps, sxStringSubStringLocations target trimstr = .ok (some loca) ∧
      sxStringSubStringsTrimmedByString target trimstr = .ok ret ∧
      (∀ i ≤ (occurrences p s).length, ∃ range, trimRange target trimstr loca (BitVec.ofNat 32 i) = .ok range ∧
        range.loca.toNat + range.len.toNat ≤ s.length) ∧
      ret.Lists strs ∧ strs.length = (occurrences p s).length + 1 ∧
      List.Forall₂ SXString.Holds strs ps ∧ p.intercalate ps = s ∧ ∀ a ∈ ps, ¬ p <:+: a := by
  have hslen := h.length
  obtain ⟨loca, ret, strs, hsearch, hloca, hsome, hsplit, _, hlists, hstrs⟩ := splitting_pieces h hs ht
  refine ⟨loca, ret, strs, pieces p s, hsearch, hsplit, ?_, hlists,
    hstrs.length_eq.trans (length_pieces h.borderFree h.nonempty s), hstrs, replaceAll_self h.nonempty s,
    not_infix_of_mem_pieces h.nonempty s⟩
  intro i hi
  have hbounds := cut_bounds h.borderFree h.nonempty s i hi
  obtain ⟨hstart, hstop⟩ := cutRange_cuts hbounds.1 (by omega)
  exact ⟨_, trimRange_eq hslen hs ht hloca hsome hi, by omega⟩

end Split

/-- The lines `"a\r\n\r\nb"` and their separator as arguments. -/
def textLines : CString := CString.ofText [97, 13, 10, 13, 10, 98] (by decide) (by decide)
def textCrlf  : CString := CString.ofText [13, 10] (by decide) (by decide)

/-- Splitting lines of which one is empty: three parts. -/
theorem splitting_undone_by_joining_lines :
    ∃ ret strs ps, sxStringSubStringsTrimmedByString (.ofCString textLines) (.ofCString textCrlf) = .ok ret ∧
      ret.Lists strs ∧ strs.length = 3 ∧ List.Forall₂ SXString.Holds strs ps ∧
      ([13, 10] : List UInt8).intercalate ps = [97, 13, 10, 13, 10, 98] ∧ ∀ a ∈ ps, ¬ [13, 10] <:+: a := by
  have h : Findable [13, 10] [97, 13, 10, 13, 10, 98] :=
    { nonempty := by decide, borderFree := by decide, occurs := by decide, length := by decide }
  obtain ⟨_, ret, strs, ps, _, hok, _, hrest⟩ := splitting_undone_by_joining h
    (SXString.holds_ofCString textLines) (SXString.holds_ofCString textCrlf)
  exact ⟨ret, strs, ps, hok, hrest⟩

end SpartanX
