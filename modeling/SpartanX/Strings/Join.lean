import Mathlib.Data.List.Forall2
import SpartanX.Strings.Invariant
import SpartanX.Vector

/-!
# `Strings.Join` — joining the strings of a vector

`SXStringByJoiningSubStrings` appends every string of a vector to the first one. `SXStringJoinCString` leaves the
length as it was, so that each string is written over the one before, and the length of the result is that of the
first. So joining concatenates iff there is nothing to append (`joining_concatenates_iff`).
-/

namespace SpartanX

open CInt CMemory

/-- The body of the loop of `SXStringByJoiningSubStrings`. -/
def joinBody (libc : Libc) (substring : SXVector SXString) (i : IntT) (first : SXString) : Exec SXString := do
  let o ← Exec.ofOption (sxVectorObjectPtrAtIndex substring i.toSizeT)
  sxStringJoinCString libc first o.chars

/-- `SXStringByJoiningSubStrings`: the first string after it, which is the one returned. The strings of the vector are
    different objects, so that appending to the first changes no other. -/
def sxStringByJoiningSubStrings (libc : Libc) (substring : SXVector SXString) : Exec SXString := do
  let first ← Exec.ofOption (sxVectorObjectPtrAtIndex substring 0)
  let first := { first with toStringHead := sxRetainString first.toStringHead }
  Exec.forIntFrom 1 (fun i _ => i.toSizeT < substring.count) (joinBody libc substring) substring.count.toNat first

/-- The vector contains these strings, in memory of a size that an object can have. -/
structure SXVector.HoldsStrings (vector : SXVector SXString) (strs : List SXString) : Prop where
  osize : vector.osize = sizeofRef
  lists : vector.Lists strs
  fits  : strs.length * 8 < 9223372036854775808

section Join

variable {libc : Libc} {vector : SXVector SXString} {strs : List SXString} {s s' : SXString} {c : List UInt8}

/-- The string at an index. -/
theorem SXVector.HoldsStrings.read (h : vector.HoldsStrings strs) (k : Nat) (hk : k < 2147483648) :
    sxVectorObjectPtrAtIndex vector (IntT.toSizeT (BitVec.ofNat 32 k)) = strs[k]? := by
  have hsize : vector.osize.toNat = 8 := by rw [h.osize]; rfl
  have hindex : (IntT.toSizeT (BitVec.ofNat 32 k)).toNat = k := toNat_toSizeT_of_lt hk
  rw [h.lists.read (by omega) (by rw [hindex, hsize]; omega), hindex]

/-- Appending leaves the length as it was. -/
theorem length_sxStringJoinCString {cstring : Block} (h : sxStringJoinCString libc s cstring = .ok s') :
    s'.length = s.length := by
  unfold sxStringJoinCString at h
  obtain ⟨len, _, h⟩ := Exec.bind_eq_ok.mp h
  obtain ⟨chars, _, h⟩ := Exec.bind_eq_ok.mp h
  obtain ⟨chars', _, h⟩ := Exec.bind_eq_ok.mp h
  obtain rfl := Exec.ok.inj h
  rfl

/-- Appending nothing leaves the string as it was. -/
theorem sxStringJoinCString_empty {o : SXString} (hs : s.Holds c) (ho : o.Holds []) :
    ∃ s', sxStringJoinCString libc s o.chars = .ok s' ∧ s'.Holds c := by
  have hmax := hs.chars.length_lt_max
  have hfits : c.length + (CString.mk o.chars [] ho.chars).text.length + 1 < 9223372036854775808 := hmax
  obtain ⟨s', z, hok, hlen, hbytes, hz⟩ := sxStringJoinCString_ok libc hs hfits
  refine ⟨s', hok, by rw [hlen, hs.length], hs.chars.1, [], ?_⟩
  rw [hbytes, hz rfl, List.append_nil]

/-- The strings behind the first are read, and appended in order; the length is that of the first. -/
theorem length_sxStringByJoiningSubStrings (hv : vector.HoldsStrings (s :: strs))
    (h : sxStringByJoiningSubStrings libc vector = .ok s') : s'.length = s.length := by
  unfold sxStringByJoiningSubStrings at h
  have hread : sxVectorObjectPtrAtIndex vector 0 = some s := hv.read 0 (by decide)
  rw [hread, Exec.ofOption_some, Exec.ok_bind] at h
  dsimp only at h
  refine Exec.forIntFrom_keeps (I := fun first : SXString => first.length = s.length) ?_ ?_ h
  · intro i first first' hlen hbody
    obtain ⟨o, _, hjoin⟩ := Exec.bind_eq_ok.mp hbody
    exact (length_sxStringJoinCString hjoin).trans hlen
  · rfl

/-- Where there is nothing to append the first string is returned. -/
theorem sxStringByJoiningSubStrings_empty (hv : vector.HoldsStrings (s :: strs)) (hs : s.Holds c)
    (hempty : ∀ o ∈ strs, o.Holds []) : ∃ s', sxStringByJoiningSubStrings libc vector = .ok s' ∧ s'.Holds c := by
  have hcount : vector.count.toNat = strs.length + 1 := by rw [hv.lists.count, List.length_cons]
  have hfits := hv.fits
  rw [List.length_cons] at hfits
  have hread : sxVectorObjectPtrAtIndex vector 0 = some s := hv.read 0 (by decide)
  obtain ⟨s', _, hloop, _, ⟨_, hs'⟩, _⟩ : ∃ s' k, Exec.forIntFrom (BitVec.ofNat 32 1)
      (fun i _ => i.toSizeT < vector.count) (joinBody libc vector) vector.count.toNat
      { s with toStringHead := sxRetainString s.toStringHead } = .ok s' ∧ k ≤ min (strs.length + 1) 2147483648 ∧
      (1 ≤ k ∧ s'.Holds c) ∧ decide (IntT.toSizeT (BitVec.ofNat 32 k) < vector.count) = false := by
    refine Exec.forIntFrom_exits (I := fun k (first : SXString) => 1 ≤ k ∧ first.Holds c) ?_ ?_
      ⟨Nat.le_refl 1, hs.length, hs.chars⟩ (by omega) (by omega)
    · rintro k first hk ⟨hpos, hfirst⟩ _
      obtain ⟨j, rfl⟩ : ∃ j, k = j + 1 := ⟨k - 1, by omega⟩
      have hj : j < strs.length := by omega
      have ho : sxVectorObjectPtrAtIndex vector (IntT.toSizeT (BitVec.ofNat 32 (j + 1))) = some strs[j] := by
        rw [hv.read (j + 1) (by omega), List.getElem?_cons_succ, List.getElem?_eq_getElem hj]
      obtain ⟨first', hjoin, hfirst'⟩ := sxStringJoinCString_empty hfirst (hempty _ (List.getElem_mem hj))
      refine ⟨first', ?_, by omega, hfirst'⟩
      unfold joinBody
      rw [ho, Exec.ofOption_some, Exec.ok_bind, hjoin]
    · rintro first ⟨_, _⟩
      exact decide_eq_false (not_counter_lt hcount.le (by omega))
  refine ⟨s', ?_, hs'⟩
  unfold sxStringByJoiningSubStrings
  rw [hread, Exec.ofOption_some, Exec.ok_bind]
  exact hloop

theorem holds_nil_of_mem {cs : List (List UInt8)} (hs : List.Forall₂ SXString.Holds strs cs)
    (hempty : ∀ c ∈ cs, c = []) : ∀ o ∈ strs, o.Holds [] := by
  induction hs with
  | nil => exact List.forall_mem_nil _
  | cons hs _ ih =>
      obtain ⟨hfirst, hrest⟩ := List.forall_mem_cons.mp hempty
      exact List.forall_mem_cons.mpr ⟨hfirst ▸ hs, ih hrest⟩

/-- **When joining concatenates.** For a vector of at least one string: the joined string is well formed, and is the
    concatenation of all of them in order, iff all but the first are empty. -/
theorem joining_concatenates_iff (libc : Libc) {cs : List (List UInt8)} (hv : vector.HoldsStrings strs)
    (hs : List.Forall₂ SXString.Holds strs cs) (hne : cs ≠ []) :
    (∃ s', sxStringByJoiningSubStrings libc vector = .ok s' ∧ s'.Holds cs.flatten) ↔ ∀ c ∈ cs.tail, c = [] := by
  cases hs with
  | nil => exact absurd rfl hne
  | @cons s c strs cs hs hrest =>
      rw [List.tail_cons]
      constructor
      · rintro ⟨s', hjoin, hs'⟩
        -- the length is that of the first string
        have hlen := congrArg BitVec.toNat (length_sxStringByJoiningSubStrings hv hjoin)
        rw [hs'.length, hs.length, List.flatten_cons, List.length_append] at hlen
        have hflat : cs.flatten = [] := List.length_eq_zero_iff.mp (by omega)
        exact List.flatten_eq_nil_iff.mp hflat
      · intro hempty
        have hflat : cs.flatten = [] := List.flatten_eq_nil_iff.mpr hempty
        rw [List.flatten_cons, hflat, List.append_nil]
        exact sxStringByJoiningSubStrings_empty hv hs (holds_nil_of_mem hrest hempty)

end Join

/-- A vector of these strings. -/
def vectorOf (strs : List SXString) : SXVector SXString where
  refCount := 1
  count    := BitVec.ofNat 64 strs.length
  osize    := sizeofRef
  slots    := strs.map some
  dealloc  := true

/-- Joining `"ab"`, `""` and `""` gives `"ab"`. -/
theorem joining_concatenates_iff_empty :
    ∃ s', sxStringByJoiningSubStrings plainLibc
        (vectorOf [.ofCString textAb, .ofCString CString.empty, .ofCString CString.empty]) = .ok s' ∧
      s'.Holds [97, 98] := by
  have hs : List.Forall₂ SXString.Holds
      [.ofCString textAb, .ofCString CString.empty, .ofCString CString.empty] [[97, 98], [], []] :=
    .cons (SXString.holds_ofCString textAb) (.cons (SXString.holds_ofCString CString.empty)
      (.cons (SXString.holds_ofCString CString.empty) .nil))
  exact (joining_concatenates_iff plainLibc ⟨rfl, ⟨rfl, rfl⟩, by decide⟩ hs (by decide)).mpr (by decide)

/-- Joining `"ab"` and `"b"`: the result has length 2, and no terminator there. -/
theorem joining_keeps_length :
    ∃ s', sxStringByJoiningSubStrings plainLibc (vectorOf [.ofCString textAb, .ofCString textB]) = .ok s' ∧
      s'.length = 2 ∧ s'.chars.bytes = [97, 98, 98, 0] ∧ ¬ s'.WellFormed ∧ ¬ s'.Holds [97, 98, 98] := by
  refine ⟨{ refCount := 2, length := 2, chars := ⟨[97, 98, 98, 0], by decide⟩ }, by decide +kernel, rfl, rfl, ?_, ?_⟩
  · intro h
    exact absurd h.terminated (by decide)
  · intro h
    exact absurd h.length (by decide)

end SpartanX
