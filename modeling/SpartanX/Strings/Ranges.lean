import SpartanX.Strings.Split

/-!
# `Strings.Ranges` — which ranges splitting cuts, for any separator

The search reports overlapping occurrences too. Between two of them the length of the part is negative, and as a
`size_t` larger than any string. The loop comes to the first such part, since it makes all those before it. So every
range it passes on lies inside the string iff no two occurrences of the separator overlap
(`split_ranges_inside_iff`).
-/

namespace SpartanX

open CInt CMemory Occurrences

/-- The iterations that the loop of `SXStringSubStringsTrimmedByString` comes to. -/
def SplitReaches (target trimstr : SXString) (loca : SXVector IntT) : IntT → SXVector SXString → Prop :=
  Exec.ForReaches (fun i _ => i.toSizeT ≤ loca.count) (trimBody target trimstr loca)
    (sxCreateVector sizeofRef (loca.count + 1) true)

section Ranges

variable {s p : List UInt8} {target trimstr : SXString} {loca : SXVector IntT}

/-- A range whose cuts are in the wrong order is longer than any string. -/
theorem cutRange_outside {start stop : Nat} (hlt : stop < start) (hstart : start < 9223372036854775808) :
    18446744073709551616 ≤ (cutRange start stop).loca.toNat + (cutRange start stop).len.toNat := by
  have hloca : (cutRange start stop).loca.toNat = start := toNat_ofNat_of_lt (by omega)
  have hlen : (cutRange start stop).len.toNat = 18446744073709551616 - (start - stop) := by
    show (BitVec.ofInt 64 (stop - start)).toNat = _
    rw [BitVec.toNat_ofInt]
    omega
  omega

/-- The loop comes to every part as long as the cuts are in order. -/
theorem splitReaches_of_cuts (hlen : s.length < 2147483648) (hs : target.Holds s) (ht : trimstr.Holds p)
    (hloca : Positions loca (occurrences p s)) (hsome : 0 < (occurrences p s).length) {n : Nat}
    (hn : n ≤ (occurrences p s).length)
    (hcuts : ∀ k < n, cutStart p (occurrences p s) k ≤ cutEnd s (occurrences p s) k) :
    ∃ ret, SplitReaches target trimstr loca (BitVec.ofNat 32 n) ret := by
  have hcount := length_occurrences_le p s
  have hreaches : ∃ ret, SplitReaches target trimstr loca (BitVec.ofNat 32 n) ret ∧
      ∃ strs, ret = trimmed strs ((occurrences p s).length + 1) n ∧ strs.length = n := by
    refine Exec.ForReaches.upTo
      (I := fun k ret => ∃ strs, ret = trimmed strs ((occurrences p s).length + 1) k ∧ strs.length = k) ?_
      ⟨[], sxCreateVector_parts hlen hloca, rfl⟩ n (Nat.le_refl n)
    rintro k _ hk ⟨strs, rfl, hstrs⟩
    obtain ⟨sstr, hbody, _⟩ := trimBody_cuts hlen hs ht hloca hsome (by omega) hstrs (hcuts k hk)
    refine ⟨?_, _, hbody, strs ++ [sstr], rfl, by rw [List.length_append, hstrs, List.length_singleton]⟩
    rw [decide_eq_true_eq, BitVec.le_def, hloca.count, toNat_toSizeT_of_lt (by omega)]
    omega
  obtain ⟨ret, hreach, _⟩ := hreaches
  exact ⟨ret, hreach⟩

/-- **When splitting cuts only inside the string.** For a separator that may overlap itself: every range that the loop
    passes to `SXStringGetSubstringInRange` lies inside the string iff no two occurrences overlap. -/
theorem split_ranges_inside_iff (h : Searched s p) (hs : target.Holds s) (ht : trimstr.Holds p) :
    ∃ loca, sxStringSubStringLocations target trimstr = .ok (some loca) ∧
      ((∀ i ret range, SplitReaches target trimstr loca i ret → i.toSizeT ≤ loca.count →
          trimRange target trimstr loca i = .ok range → range.loca.toNat + range.len.toNat ≤ s.length) ↔
        Apart p s) := by
  have hlen := h.length
  have hcount := length_occurrences_le p s
  obtain ⟨loca, hsearch, hloca, hsome⟩ := h.search hs ht
  refine ⟨loca, hsearch, ?_⟩
  rw [apart_iff_cuts]
  constructor
  · intro hinside n
    -- the loop comes to the first part whose cuts are in the wrong order
    induction n using Nat.strong_induction_on with
    | _ n ih =>
        intro hn
        by_contra hover
        obtain ⟨ret, hreach⟩ := splitReaches_of_cuts hlen hs ht hloca hsome hn.le fun k hk => ih k hk (by omega)
        have hstart := cutStart_le s p n hn.le
        have hbound : IntT.toSizeT (BitVec.ofNat 32 n) ≤ loca.count := by
          rw [BitVec.le_def, hloca.count, toNat_toSizeT_of_lt (by omega)]
          omega
        have hle := hinside _ ret _ hreach hbound (trimRange_eq hlen hs ht hloca hsome hn.le)
        have hout := cutRange_outside (Nat.not_le.mp hover) (by omega)
        omega
  · intro hcuts i ret range _ hbound hrange
    have hself : i = BitVec.ofNat 32 i.toNat := by simp
    have hi : i.toNat ≤ (occurrences p s).length := by
      have hlt := i.isLt
      rw [BitVec.le_def, hloca.count, hself, toNat_toSizeT_ofNat hlt] at hbound
      split at hbound <;> omega
    have hend := cutEnd_le s p i.toNat
    have hcut : cutStart p (occurrences p s) i.toNat ≤ cutEnd s (occurrences p s) i.toNat := by
      rcases Nat.lt_or_eq_of_le hi with hlt | heq
      · exact hcuts _ hlt
      · rw [heq]
        exact (cutStart_le s p _ (Nat.le_refl _)).trans (List.getD_eq_default _ _ (Nat.le_refl _)).ge
    rw [hself, trimRange_eq hlen hs ht hloca hsome hi] at hrange
    obtain rfl := Exec.ok.inj hrange
    obtain ⟨hstart, hstop⟩ := cutRange_cuts hcut (by omega)
    omega

end Ranges

/-- The lines `"a\r\n\r\nb"`: all ranges lie inside. -/
theorem split_ranges_inside_iff_lines :
    ∃ loca, sxStringSubStringLocations (.ofCString textLines) (.ofCString textCrlf) = .ok (some loca) ∧
      ∀ i ret range, SplitReaches (.ofCString textLines) (.ofCString textCrlf) loca i ret → i.toSizeT ≤ loca.count →
        trimRange (.ofCString textLines) (.ofCString textCrlf) loca i = .ok range →
        range.loca.toNat + range.len.toNat ≤ 6 := by
  have h : Searched [97, 13, 10, 13, 10, 98] [13, 10] :=
    { nonempty := by decide, occurs := by decide, length := by decide }
  obtain ⟨loca, hsearch, hiff⟩ := split_ranges_inside_iff h (SXString.holds_ofCString textLines)
    (SXString.holds_ofCString textCrlf)
  exact ⟨loca, hsearch, hiff.mpr (by decide)⟩

/-- The strings `"ooo"` and `"oo"` as arguments. -/
def textOoo : CString := CString.ofText [111, 111, 111] (by decide) (by decide)
def textOo  : CString := CString.ofText [111, 111] (by decide) (by decide)

/-- Splitting `"ooo"` at `"oo"`: the part between the two occurrences begins at 2, and its length is -1, as a
    `size_t`. -/
theorem split_cuts_outside :
    ∃ loca ret range, sxStringSubStringLocations (.ofCString textOoo) (.ofCString textOo) = .ok (some loca) ∧
      SplitReaches (.ofCString textOoo) (.ofCString textOo) loca 1 ret ∧ IntT.toSizeT 1 ≤ loca.count ∧
      trimRange (.ofCString textOoo) (.ofCString textOo) loca 1 = .ok range ∧ range.loca = 2 ∧
      range.len.toNat = 18446744073709551615 ∧ ¬ range.loca.toNat + range.len.toNat ≤ 3 := by
  refine ⟨{ refCount := 1, count := 2, osize := sizeofInt, slots := [some 0, some 1], dealloc := false },
    { refCount := 1, count := 1, osize := sizeofRef, dealloc := true,
      slots := [some { refCount := 1, length := 0, chars := ⟨[0], by decide⟩ }, none, none] },
    { loca := 2, len := 18446744073709551615 }, by decide +kernel, ?_, by decide, by decide +kernel, rfl, rfl,
    by decide⟩
  exact Exec.ForReaches.start.next (by decide +kernel) (by decide +kernel)

end SpartanX
