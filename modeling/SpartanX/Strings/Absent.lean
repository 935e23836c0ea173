import SpartanX.Strings.Replace
import SpartanX.Strings.Split

/-!
# `Strings.Absent` — a pattern that does not occur

The search reports a pattern it does not find by a null pointer. Splitting and replacing take the count of the
positions through it: two of the three functions compare the count with `0`, which the search never returns in a
vector, and one does not look. So they all fault on every string without the pattern
(`absent_pattern_dereferences_null`).
-/

namespace SpartanX

open CInt CMemory Occurrences

section Absent

variable {s p : List UInt8} {string target replacement : SXString} {outside : ReplaceVars → IntT} {fuel : Nat}

/-- The search for a pattern that does not occur. -/
theorem sxStringSubStringLocations_absent (hs : string.Holds s) (hp : target.Holds p) (hne : p ≠ [])
    (habsent : ¬ p <:+: s) : sxStringSubStringLocations string target = .ok none := by
  have hnone : occurrences p s = [] := by
    by_contra hsome
    exact habsent ((occurrences_ne_nil_iff hne).mp hsome)
  apply (sxStringSubCStringLocations_none hs hp.chars.shows hp.length).mpr
  rw [List.eq_nil_iff_forall_not_mem]
  intro i hi
  have hocc := (mem_foundBefore_searchSpan.mp hi).1
  rw [hnone] at hocc
  cases hocc

/-- Without positions there is no loop. -/
theorem replaceLoop_null (h : sxStringSubStringLocations string target = .ok none) (buf : Block) :
    replaceLoop outside fuel string target replacement buf = .fault := by
  unfold replaceLoop
  rw [h]
  rfl

/-- An allocation, and what is written into it, succeed or fault. -/
theorem allocate_then_fault {α : Type} {fresh : Nat → UInt8} {n : SizeT} {f : Block → Exec α}
    (h : ∀ buf, f buf = .fault) : (Block.allocate fresh n >>= fun buf => buf.memset 0 0 n >>= f) = .fault := by
  unfold Block.allocate
  split
  · rw [Exec.ok_bind, Block.memset_eq]
    unfold Block.store
    split
    · exact h _
    · rfl
  · rfl

/-- **An absent pattern is dereferenced as a null pointer**, by splitting and by both replacements, for every string
    without the pattern and every replacement. -/
theorem absent_pattern_dereferences_null (fresh : Nat → UInt8) (outside : ReplaceVars → IntT) (fuel : Nat)
    (replacement : SXString) (hs : string.Holds s) (hp : target.Holds p) (hne : p ≠ []) (habsent : ¬ p <:+: s) :
    sxStringSubStringLocations string target = .ok none ∧
      sxStringSubStringsTrimmedByString string target = .fault ∧
      sxStringByReplacingOccurrencesOfString fresh outside fuel string target replacement = .fault ∧
      sxStringReplacingOccurrencesOfString fresh outside fuel string target replacement = .fault := by
  have hnull := sxStringSubStringLocations_absent hs hp hne habsent
  refine ⟨hnull, ?_, ?_, ?_⟩
  · unfold sxStringSubStringsTrimmedByString
    rw [hnull]
    rfl
  · apply allocate_then_fault
    intro buf
    rw [replaceLoop_null hnull]
    rfl
  · apply allocate_then_fault
    intro buf
    rw [replaceLoop_null hnull]
    rfl

end Absent

/-- There is no `"x"` in the lines `"a\r\n\r\nb"`. -/
theorem absent_pattern_dereferences_null_lines :
    sxStringSubStringLocations (.ofCString textLines) (.ofCString textX) = .ok none ∧
      sxStringSubStringsTrimmedByString (.ofCString textLines) (.ofCString textX) = .fault ∧
      sxStringByReplacingOccurrencesOfString (fun _ => 7) (fun v => v.strPos + 1) 6 (.ofCString textLines)
        (.ofCString textX) (.ofCString CString.empty) = .fault ∧
      sxStringReplacingOccurrencesOfString (fun _ => 7) (fun v => v.strPos + 1) 6 (.ofCString textLines)
        (.ofCString textX) (.ofCString CString.empty) = .fault :=
  absent_pattern_dereferences_null (fun _ => 7) (fun v => v.strPos + 1) 6 (.ofCString CString.empty)
    (SXString.holds_ofCString textLines) (SXString.holds_ofCString textX) (by decide) (by decide)

/-- The string `","` as an argument. -/
def textComma : CString := CString.ofText [44] (by decide) (by decide)

/-- Splitting `"x"` at `","` should give one part, `"x"`, and replacing `","` in it by `"x"` should give `"x"`: all
    three functions fault. -/
theorem absent_separator_faults :
    sxStringSubStringsTrimmedByString (.ofCString textX) (.ofCString textComma) = .fault ∧
      sxStringByReplacingOccurrencesOfString (fun _ => 0) (fun v => v.strPos + 1) 1 (.ofCString textX)
        (.ofCString textComma) (.ofCString textX) = .fault ∧
      sxStringReplacingOccurrencesOfString (fun _ => 0) (fun v => v.strPos + 1) 1 (.ofCString textX)
        (.ofCString textComma) (.ofCString textX) = .fault := by
  decide +kernel

end SpartanX
