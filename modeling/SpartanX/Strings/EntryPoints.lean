import SpartanX.Strings.Unchanged

/-!
# `Strings.EntryPoints` — the four functions that replace

Two functions change the string and two return a new one; of each pair one takes the target and the replacement as
strings and one as C strings, from which it makes strings. `SXStringReplacingOccurrencesOfCString`, which should
change the string, calls the function that returns a new one and drops what it returns. So the four agree only where
there is nothing to change (`entryPoints_agree_iff`).
-/

namespace SpartanX

open CInt CMemory Occurrences

/-- `SXStringByReplacingOccurrencesOfCString`. -/
def sxStringByReplacingOccurrencesOfCString (fresh : Nat → UInt8) (outside : ReplaceVars → IntT) (fuel : Nat)
    (string : SXString) (ctarget creplacement : Block) : Exec SXString := do
  let targetLen ← ctarget.strlen
  let target ← sxCreateStringWithCString ctarget targetLen
  let replacementLen ← creplacement.strlen
  let replacement ← sxCreateStringWithCString creplacement replacementLen
  sxStringByReplacingOccurrencesOfString fresh outside fuel string target replacement

/-- `SXStringReplacingOccurrencesOfCString`: the string after it. -/
def sxStringReplacingOccurrencesOfCString (fresh : Nat → UInt8) (outside : ReplaceVars → IntT) (fuel : Nat)
    (string : SXString) (ctarget creplacement : Block) : Exec SXString := do
  let targetLen ← ctarget.strlen
  let target ← sxCreateStringWithCString ctarget targetLen
  let replacementLen ← creplacement.strlen
  let replacement ← sxCreateStringWithCString creplacement replacementLen
  -- the new string is dropped
  let _ ← sxStringByReplacingOccurrencesOfString fresh outside fuel string target replacement
  pure string

/-- The functions that replace: in the string or in a new one, with strings or with C strings. -/
inductive EntryPoint
  | replacingString
  | replacingCString
  | byReplacingString
  | byReplacingCString
  deriving DecidableEq

/-- The function returns a new string. -/
def EntryPoint.returnsNew : EntryPoint → Bool
  | .replacingString | .replacingCString     => false
  | .byReplacingString | .byReplacingCString => true

/-- What a call leaves in the string, and where the replacements are made: in the string, or in the new one. -/
def EntryPoint.call (fresh : Nat → UInt8) (outside : ReplaceVars → IntT) (fuel : Nat)
    (string target replacement : SXString) (ctarget creplacement : Block) : EntryPoint → Exec (SXString × SXString)
  | .replacingString => do
    let s ← sxStringReplacingOccurrencesOfString fresh outside fuel string target replacement
    pure (s, s)
  | .replacingCString => do
    let s ← sxStringReplacingOccurrencesOfCString fresh outside fuel string ctarget creplacement
    pure (s, s)
  | .byReplacingString => do
    let s ← sxStringByReplacingOccurrencesOfString fresh outside fuel string target replacement
    pure (string, s)
  | .byReplacingCString => do
    let s ← sxStringByReplacingOccurrencesOfCString fresh outside fuel string ctarget creplacement
    pure (string, s)

/-- The four functions return, with the same content and length where the replacements are made, and those that return
    a new string leave the other unchanged. What the memory holds may be different in the four calls. -/
def EntryPointsAgree (fresh : EntryPoint → Nat → UInt8) (outside : EntryPoint → ReplaceVars → IntT) (fuel : Nat)
    (string target replacement : SXString) (ctarget creplacement : Block) : Prop :=
  ∃ c, ∀ entry : EntryPoint, ∃ after result,
    entry.call (fresh entry) (outside entry) fuel string target replacement ctarget creplacement =
      .ok (after, result) ∧
    result.Holds c ∧ (entry.returnsNew = true → after = string)

section EntryPoints

variable {s t r c : List UInt8} {string target replacement : SXString} {ctarget creplacement : Block}
  {outside : ReplaceVars → IntT} {fresh : Nat → UInt8} {fuel : Nat}

/-- What the new string holds, the loop has left in the buffer. -/
theorem loop_of_new {s' : SXString} (h : Searched s t) (hs : string.Holds s) (ht : target.Holds t)
    (hcall : sxStringByReplacingOccurrencesOfString fresh outside fuel string target replacement = .ok s')
    (hc : s'.Holds c) :
    ∃ buf buf' : Block, buf.bytes = List.replicate (replaceRoom string replacement).toNat 0 ∧
      replaceLoop outside fuel string target replacement buf = .ok (some buf') ∧ buf'.Holds c := by
  obtain ⟨buf, buf', hzero, hrun, hcreate⟩ := ran_of_new h hs ht hcall
  exact ⟨buf, buf', hzero, hrun, holds_of_create hcreate hc⟩

/-- Where there is nothing to change, both functions with strings return the string. -/
theorem replaceOccurrences_unchanged (fresh : Nat → UInt8) (h : Findable t s) (hs : string.Holds s)
    (ht : target.Holds t) (hr : replacement.Holds r)
    (houtside : ∀ v, v.n = BitVec.ofNat 32 (occurrences t s).length → outside v ≠ v.strPos) (hfuel : s.length ≤ fuel)
    (hcond : r = t ∨ Overlong s t r) :
    (∃ s', sxStringByReplacingOccurrencesOfString fresh outside fuel string target replacement = .ok s' ∧
        s'.Holds s) ∧
      ∃ s', sxStringReplacingOccurrencesOfString fresh outside fuel string target replacement = .ok s' ∧
        s'.Holds s := by
  apply replaceOccurrences_of_loop
  · rcases hcond with rfl | hover
    · exact replaceRoom_fits h.replaceable_self hs hr
    · rw [toNat_replaceRoom hs hr]
      exact hover.room
  · intro buf hbuf
    exact (replaceLoop_shows_iff h hs ht hr houtside hfuel hbuf).mpr hcond

/-- The functions with C strings make strings of them, and both call the function that returns a new string. -/
theorem cStrings_eq (hct : ctarget.Holds t) (hcr : creplacement.Holds r) :
    ∃ target replacement : SXString, target.Holds t ∧ replacement.Holds r ∧ ∀ fresh outside fuel string,
      sxStringByReplacingOccurrencesOfCString fresh outside fuel string ctarget creplacement =
          sxStringByReplacingOccurrencesOfString fresh outside fuel string target replacement ∧
        sxStringReplacingOccurrencesOfCString fresh outside fuel string ctarget creplacement = (do
          let _ ← sxStringByReplacingOccurrencesOfString fresh outside fuel string target replacement
          pure string) := by
  obtain ⟨targetLen, target, htlen, htarget, ht⟩ := sxCreateStringWithCString_strlen hct
  obtain ⟨replacementLen, replacement, hrlen, hreplacement, hr⟩ := sxCreateStringWithCString_strlen hcr
  refine ⟨target, replacement, ht, hr, ?_⟩
  intro fresh outside fuel string
  unfold sxStringByReplacingOccurrencesOfCString sxStringReplacingOccurrencesOfCString
  constructor
  · rw [htlen, Exec.ok_bind, htarget, Exec.ok_bind, hrlen, Exec.ok_bind, hreplacement, Exec.ok_bind]
  · rw [htlen, Exec.ok_bind, htarget, Exec.ok_bind, hrlen, Exec.ok_bind, hreplacement, Exec.ok_bind]

/-- **When the four functions agree.** For a target without border that occurs in the string, and any replacement:
    iff the target is replaced by itself, or the replacement is too long for an `int` to see and ends up written over
    by the string. -/
theorem entryPoints_agree_iff (fresh : EntryPoint → Nat → UInt8) {outside : EntryPoint → ReplaceVars → IntT}
    (h : Findable t s) (hs : string.Holds s) (ht : target.Holds t) (hr : replacement.Holds r)
    (hct : ctarget.Holds t) (hcr : creplacement.Holds r)
    (houtside : ∀ entry v, v.n = BitVec.ofNat 32 (occurrences t s).length → outside entry v ≠ v.strPos)
    (hfuel : s.length ≤ fuel) :
    EntryPointsAgree fresh outside fuel string target replacement ctarget creplacement ↔
      r = t ∨ Overlong s t r := by
  obtain ⟨target', replacement', ht', hr', hcstrings⟩ := cStrings_eq hct hcr
  constructor
  · rintro ⟨c, hall⟩
    -- the call with C strings leaves the string as it is, so this is what the others must come to
    obtain ⟨after, result, hcall, hc, _⟩ := hall .replacingCString
    have hself : result = string := by
      obtain ⟨s', hrun, hret⟩ := Exec.bind_eq_ok.mp hcall
      rw [(hcstrings _ _ _ _).2] at hrun
      obtain ⟨_, _, hsame⟩ := Exec.bind_eq_ok.mp hrun
      cases hsame
      cases hret
      rfl
    rw [hself] at hc
    obtain rfl := hc.chars.unique hs.chars
    obtain ⟨_, new, hnew, hholds, _⟩ := hall .byReplacingString
    obtain ⟨s', hrun, hret⟩ := Exec.bind_eq_ok.mp hnew
    cases hret
    obtain ⟨buf, buf', hbuf, hloop, hshown⟩ := loop_of_new h.toSearched hs ht hrun hholds
    exact (replaceLoop_shows_iff h hs ht hr (houtside .byReplacingString) hfuel hbuf).mp ⟨buf', hloop, hshown⟩
  · intro hcond
    refine ⟨s, ?_⟩
    intro entry
    obtain ⟨⟨new, hnew, hholds⟩, changed, hchanged, hholds'⟩ :=
      replaceOccurrences_unchanged (fresh entry) h hs ht hr (houtside entry) hfuel hcond
    obtain ⟨⟨cnew, hcnew, hcholds⟩, _⟩ :=
      replaceOccurrences_unchanged (fresh entry) h hs ht' hr' (houtside entry) hfuel hcond
    cases entry with
    | replacingString =>
        refine ⟨changed, changed, ?_, hholds', fun hfalse => by cases hfalse⟩
        show (sxStringReplacingOccurrencesOfString _ _ _ _ _ _ >>= _) = _
        rw [hchanged]
        rfl
    | replacingCString =>
        refine ⟨string, string, ?_, hs, fun hfalse => by cases hfalse⟩
        show (sxStringReplacingOccurrencesOfCString _ _ _ _ _ _ >>= _) = _
        rw [(hcstrings _ _ _ _).2, hcnew]
        rfl
    | byReplacingString =>
        refine ⟨string, new, ?_, hholds, fun _ => rfl⟩
        show (sxStringByReplacingOccurrencesOfString _ _ _ _ _ _ >>= _) = _
        rw [hnew]
        rfl
    | byReplacingCString =>
        refine ⟨string, cnew, ?_, hcholds, fun _ => rfl⟩
        show (sxStringByReplacingOccurrencesOfCString _ _ _ _ _ _ >>= _) = _
        rw [(hcstrings _ _ _ _).1, hcnew]
        rfl

end EntryPoints

/-- Replacing `"x"` in `"axbx"` by `"x"`. -/
theorem entryPoints_agree_iff_self :
    EntryPointsAgree (fun _ _ => 7) (fun _ v => v.strPos + 1) 4 (.ofCString textAxbx) (.ofCString textX)
      (.ofCString textX) textX.block textX.block := by
  have h : Findable [120] [97, 120, 98, 120] :=
    { nonempty := by decide, borderFree := by decide, occurs := by decide, length := by decide }
  have hnext (_ : EntryPoint) (v : ReplaceVars)
      (_ : v.n = BitVec.ofNat 32 (occurrences [120] [97, 120, 98, 120]).length) : v.strPos + 1 ≠ v.strPos := by
    bv_omega
  exact (entryPoints_agree_iff (fun _ _ => 7) h (SXString.holds_ofCString textAxbx) (SXString.holds_ofCString textX)
    (SXString.holds_ofCString textX) textX.holds textX.holds hnext
    (show ([97, 120, 98, 120] : List UInt8).length ≤ 4 by decide)).mpr (Or.inl rfl)

/-- Replacing it by nothing: one function leaves `"axbx"`, another returns `"ab"`. -/
theorem entryPoints_disagree_blank :
    ¬ EntryPointsAgree (fun _ _ => 7) (fun _ v => v.strPos + 1) 4 (.ofCString textAxbx) (.ofCString textX)
      (.ofCString CString.empty) textX.block CString.empty.block := by
  rintro ⟨c, hall⟩
  obtain ⟨_, left, hleft, hc, _⟩ := hall .replacingCString
  obtain ⟨_, new, hnew, hc', _⟩ := hall .byReplacingString
  have hstays : EntryPoint.call (fun _ => 7) (fun v => v.strPos + 1) 4 (.ofCString textAxbx) (.ofCString textX)
      (.ofCString CString.empty) textX.block CString.empty.block .replacingCString =
        .ok (.ofCString textAxbx, .ofCString textAxbx) := by
    decide +kernel
  have hremoves : EntryPoint.call (fun _ => 7) (fun v => v.strPos + 1) 4 (.ofCString textAxbx) (.ofCString textX)
      (.ofCString CString.empty) textX.block CString.empty.block .byReplacingString =
        .ok (.ofCString textAxbx, { refCount := 1, length := 2, chars := ⟨[97, 98, 0], by decide⟩ }) := by
    decide +kernel
  cases hleft.symm.trans hstays
  cases hnew.symm.trans hremoves
  have hlong := hc.length
  have hshort := hc'.length
  rw [← hlong] at hshort
  exact absurd hshort (by decide)

end SpartanX
