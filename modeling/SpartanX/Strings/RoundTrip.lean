import SpartanX.Strings.Invariant
import SpartanX.Strings.Replace

/-!
# `Strings.RoundTrip` — replacing, and replacing back

Where a target has been replaced in a string, replacing the replacement by the target should undo it. It does if
every occurrence of the replacement in the result is one that was put there. There may be more of them: some were in
the string before, and some have come up where what was put in meets what was there (`replacing_back_iff`).
-/

namespace SpartanX

open CInt CMemory Occurrences

section RoundTrip

variable {s t r : List UInt8} {string target replacement : SXString} {outside : ReplaceVars → IntT} {fuel : Nat}

/-- In the result of a replacement the replacement can be replaced again. -/
theorem Replaceable.back (h : Replaceable s t r) (hr : BorderFree r) (hne : r ≠ [])
    (hback : (replaceAll r t (replaceAll t r s)).length < 2147483648) : Replaceable (replaceAll t r s) r t := by
  have hocc := (occurrences_ne_nil_iff h.nonempty).mpr h.occurs
  have hle := length_occurrences_le_replaceAll h.borderFree h.nonempty hr hne s
  have hpos := List.length_pos_of_ne_nil hocc
  have hlen := h.length_target
  have hslen := h.length
  exact { nonempty    := hne
          borderFree  := hr
          occurs      := (occurrences_ne_nil_iff hne).mp (List.ne_nil_of_length_pos (by omega))
          length      := h.result
          replacement := by omega
          result      := hback }

/-- **When replacing is undone by replacing back.** For a target that occurs in the string and a replacement, neither
    of them empty and both without border: the target is replaced, and then the replacement by the target. The lengths
    of all the strings are below 2^31, and what is read behind the positions of each search is not the current
    `str_pos`. Both calls return, and the string is the one before iff the replacement occurs in between exactly as
    often as the target did. -/
theorem replacing_back_iff (fresh : Nat → UInt8) (h : Replaceable s t r) (hborder : BorderFree r) (hne : r ≠ [])
    (hback : (replaceAll r t (replaceAll t r s)).length < 2147483648) (hs : string.Holds s) (ht : target.Holds t)
    (hr : replacement.Holds r)
    (houtside : ∀ v, v.n = BitVec.ofNat 32 (occurrences t s).length ∨
      v.n = BitVec.ofNat 32 (occurrences r (replaceAll t r s)).length → outside v ≠ v.strPos)
    (hfuel : s.length ≤ fuel ∧ (replaceAll t r s).length ≤ fuel) :
    ∃ s₁ s₂, sxStringReplacingOccurrencesOfString fresh outside fuel string target replacement = .ok s₁ ∧
      sxStringReplacingOccurrencesOfString fresh outside fuel s₁ replacement target = .ok s₂ ∧
      s₁.Holds (replaceAll t r s) ∧
      (s₂.Holds s ↔ (occurrences r (replaceAll t r s)).length = (occurrences t s).length) := by
  obtain ⟨_, s₁, hthere, hs₁⟩ := replaceOccurrences_ok fresh h hs ht hr (fun v hv => houtside v (Or.inl hv)) hfuel.1
  obtain ⟨_, s₂, hagain, hs₂⟩ := replaceOccurrences_ok fresh (h.back hborder hne hback) hs₁ hr ht
    (fun v hv => houtside v (Or.inr hv)) hfuel.2
  refine ⟨s₁, s₂, hthere, hagain, hs₁, ?_⟩
  rw [← replaceAll_back_iff h.borderFree h.nonempty hborder hne s]
  constructor
  · intro hsame
    exact hs₂.unique hsame
  · intro hsame
    rwa [hsame] at hs₂

end RoundTrip

/-- The string `"-"` as an argument. -/
def textDash : CString := CString.ofText [45] (by decide) (by decide)

/-- In `"axbx"`, `"x"` can be replaced by `"-"` and back; for `"b"`, which is there already, `"axxx"` comes back. -/
theorem replacing_back_iff_axbx :
    (∃ s₁ s₂, sxStringReplacingOccurrencesOfString (fun _ => 7) (fun v => v.strPos + 1) 4 (.ofCString textAxbx)
        (.ofCString textX) (.ofCString textDash) = .ok s₁ ∧
      sxStringReplacingOccurrencesOfString (fun _ => 7) (fun v => v.strPos + 1) 4 s₁ (.ofCString textDash)
        (.ofCString textX) = .ok s₂ ∧ s₂.Holds [97, 120, 98, 120]) ∧
    ∃ s₁ s₂, sxStringReplacingOccurrencesOfString (fun _ => 7) (fun v => v.strPos + 1) 4 (.ofCString textAxbx)
        (.ofCString textX) (.ofCString textB) = .ok s₁ ∧
      sxStringReplacingOccurrencesOfString (fun _ => 7) (fun v => v.strPos + 1) 4 s₁ (.ofCString textB)
        (.ofCString textX) = .ok s₂ ∧ ¬ s₂.Holds [97, 120, 98, 120] := by
  have hnext (v : ReplaceVars) : v.strPos + 1 ≠ v.strPos := by bv_omega
  have h {r : List UInt8} (hr : r.length < 2147483648)
      (hresult : (replaceAll [120] r [97, 120, 98, 120]).length < 2147483648) :
      Replaceable [97, 120, 98, 120] [120] r :=
    { nonempty := by decide, borderFree := by decide, occurs := by decide, length := by decide,
      replacement := hr, result := hresult }
  obtain ⟨s₁, s₂, hthere, hback, _, hiff⟩ := replacing_back_iff (fun _ => 7) (h (r := [45]) (by decide) (by decide))
    (by decide) (by decide) (by decide) (SXString.holds_ofCString textAxbx) (SXString.holds_ofCString textX)
    (SXString.holds_ofCString textDash) (fun v _ => hnext v)
    (show ([97, 120, 98, 120] : List UInt8).length ≤ 4 ∧
      (replaceAll [120] [45] [97, 120, 98, 120]).length ≤ 4 by decide)
  obtain ⟨s₁', s₂', hthere', hback', _, hiff'⟩ := replacing_back_iff (fun _ => 7)
    (h (r := [98]) (by decide) (by decide)) (by decide) (by decide) (by decide) (SXString.holds_ofCString textAxbx)
    (SXString.holds_ofCString textX) (SXString.holds_ofCString textB) (fun v _ => hnext v)
    (show ([97, 120, 98, 120] : List UInt8).length ≤ 4 ∧
      (replaceAll [120] [98] [97, 120, 98, 120]).length ≤ 4 by decide)
  exact ⟨⟨s₁, s₂, hthere, hback, hiff.mpr (by decide)⟩, s₁', s₂', hthere', hback', fun hs => absurd (hiff'.mp hs)
    (by decide)⟩

end SpartanX
