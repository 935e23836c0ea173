import SpartanX.Strings.Search

/-!
# `Strings.Contains` — the containment test of `SXString.c`

`SXStringContainsCString` returns false for every string that is longer than the C string, which should be the case
with something to look for, and otherwise compares the C string with the start of the string over and over. So it
says whether the two are equal (`sxStringContainsCString_ok`), and agrees with the search iff the string is not longer
or the search finds nothing (`contains_agrees_iff`).
-/

namespace SpartanX

open CInt CMemory Occurrences

/-- The loop of `SXStringContainsCString`. The comparison does not move with the index. -/
def containsLoop (string : SXString) (cstr : Block) (t : SizeT) : Nat → SizeT → Exec Bool
  | 0,        i => if i < t then .outOfFuel else pure false
  | fuel + 1, i =>
    if i < t then do
      let len ← cstr.strlen
      let diff ← string.chars.strncmp cstr len
      if diff = 0 then pure true else containsLoop string cstr t fuel (i + 1)
    else pure false

/-- `SXStringContainsCString`. The loop counts up to `t`, so it has at most that many iterations. -/
def sxStringContainsCString (string : SXString) (cstr : Block) : Exec Bool := do
  let len ← cstr.strlen
  if string.length > len then pure false
  else
    let t := string.length - len + 1
    containsLoop string cstr t t.toNat 0

section Contains

variable {string : SXString} {cstr : Block} {s p : List UInt8} {t : SizeT}

/-- What the loop compares. -/
theorem containsLoop_succ (hs : string.Holds s) (hp : cstr.Holds p) {fuel : Nat} {i : SizeT} (hi : i < t) :
    containsLoop string cstr t (fuel + 1) i =
      if p <+: s then .ok true else containsLoop string cstr t fuel (i + 1) := by
  have hmax := hp.length_lt_max
  obtain ⟨d, hcmp, hd⟩ := Block.strncmp_begins (n := BitVec.ofNat 64 p.length) hs.chars hp.shows
    (toNat_ofNat_of_lt (by omega))
  rw [containsLoop, if_pos hi, Block.strlen_of_holds hp, Exec.ok_bind, hcmp, Exec.ok_bind]
  by_cases hbegins : p <+: s
  · rw [if_pos (hd.mpr hbegins), if_pos hbegins]
    rfl
  · rw [if_neg (mt hd.mp hbegins), if_neg hbegins]

/-- A string that does not begin with the C string: the loop counts to its bound. -/
theorem containsLoop_miss (hs : string.Holds s) (hp : cstr.Holds p) (hmiss : ¬ p <+: s) {fuel : Nat} {i : SizeT}
    (hfuel : t.toNat - i.toNat ≤ fuel) : containsLoop string cstr t fuel i = .ok false := by
  induction fuel generalizing i with
  | zero =>
      have hnot : ¬ i < t := by
        rw [BitVec.lt_def]
        omega
      rw [containsLoop, if_neg hnot]
      rfl
  | succ fuel ih =>
      by_cases hi : i < t
      · have hlt : i.toNat < t.toNat := hi
        have hbound := t.isLt
        have hnext : (i + 1).toNat = i.toNat + 1 := by
          rw [BitVec.toNat_add]
          show (_ + 1) % 18446744073709551616 = _
          omega
        rw [containsLoop_succ hs hp hi, if_neg hmiss]
        exact ih (by omega)
      · rw [containsLoop, if_neg hi]
        rfl

/-- **The containment test says whether the two are equal.** -/
theorem sxStringContainsCString_ok (hs : string.Holds s) (hp : cstr.Holds p) :
    sxStringContainsCString string cstr = .ok (decide (s = p)) := by
  have hmax := hp.length_lt_max
  have hplen : (BitVec.ofNat 64 p.length : SizeT).toNat = p.length := toNat_ofNat_of_lt (by omega)
  unfold sxStringContainsCString
  rw [Block.strlen_of_holds hp, Exec.ok_bind]
  by_cases hlong : string.length > BitVec.ofNat 64 p.length
  · have hlt : p.length < s.length := by
      rw [← hplen, ← hs.length]
      exact hlong
    have hne : s ≠ p := by
      rintro rfl
      exact Nat.lt_irrefl _ hlt
    rw [if_pos hlong, decide_eq_false hne]
    rfl
  · have hle : s.length ≤ p.length := by
      rw [← hplen, ← hs.length]
      exact Nat.not_lt.mp hlong
    rw [if_neg hlong]
    dsimp only
    by_cases heq : s = p
    · obtain rfl := heq
      -- one iteration, which compares all of the two
      have hone : string.length - BitVec.ofNat 64 s.length + 1 = 1 := by
        rw [hs.length_eq, BitVec.sub_self, BitVec.zero_add]
      rw [hone, decide_eq_true rfl]
      show containsLoop string cstr 1 (0 + 1) 0 = _
      rw [containsLoop_succ hs hp (by decide), if_pos (List.prefix_refl s)]
    · have hmiss : ¬ p <+: s := fun h => heq (h.eq_of_length_le hle).symm
      rw [containsLoop_miss hs hp hmiss (Nat.sub_le _ _), decide_eq_false heq]

/-- A C string occurs in a string that is not longer iff the two are equal. -/
theorem foundBefore_of_le (hne : p ≠ []) (hle : s.length ≤ p.length) :
    foundBefore p s (searchSpan s) = if s = p then [0] else [] := by
  have honly : ∀ i ∈ foundBefore p s (searchSpan s), i = 0 ∧ s = p := by
    intro i hi
    obtain ⟨hocc, _⟩ := mem_foundBefore_searchSpan.mp hi
    have hfits := occurrence_fits hocc
    obtain rfl : i = 0 := by omega
    obtain ⟨_, hpre⟩ := mem_occurrences.mp hocc
    exact ⟨rfl, (hpre.eq_of_length_le hle).symm⟩
  by_cases heq : s = p
  · obtain rfl := heq
    have hzero : 0 ∈ foundBefore s s (searchSpan s) :=
      mem_foundBefore_searchSpan.mpr ⟨(mem_occurrences_iff hne).mpr (by simp), by omega⟩
    have hnodup : (foundBefore s s (searchSpan s)).Nodup := List.nodup_range.filter _
    rw [if_pos rfl]
    exact List.perm_singleton.mp ((List.perm_ext_iff_of_nodup hnodup (by simp)).mpr fun i =>
      ⟨fun hi => List.mem_singleton.mpr (honly i hi).1, fun hi => List.mem_singleton.mp hi ▸ hzero⟩)
  · rw [if_neg heq, List.eq_nil_iff_forall_not_mem]
    exact fun i hi => heq (honly i hi).2

/-- **When containment agrees with the search.** For a C string of at least one character: the test returns, the
    search with its length returns, and the one says true iff the other returns a vector, iff the string is not longer
    than the C string, or this occurs at no index that an `int` can count. -/
theorem contains_agrees_iff (hs : string.Holds s) (hp : cstr.Holds p) (hne : p ≠ []) :
    (∃ len b found, cstr.strlen = .ok len ∧ sxStringContainsCString string cstr = .ok b ∧
        sxStringSubCStringLocations string cstr len = .ok found ∧ (b = true ↔ found ≠ none)) ↔
      s.length ≤ p.length ∨ ∀ i ∈ occurrences p s, 2147483648 ≤ i := by
  have hmax := hp.length_lt_max
  have hlen : (BitVec.ofNat 64 p.length : SizeT).toNat = p.length := toNat_ofNat_of_lt (by omega)
  have hnone := sxStringSubCStringLocations_none hs hp.shows hlen
  have habsent : foundBefore p s (searchSpan s) = [] ↔ ∀ i ∈ occurrences p s, 2147483648 ≤ i := by
    rw [List.eq_nil_iff_forall_not_mem]
    refine forall_congr' fun i => ?_
    rw [mem_foundBefore_searchSpan, not_and, Nat.not_lt]
  constructor
  · rintro ⟨len, b, found, hstrlen, hcontains, hsearch, hiff⟩
    obtain rfl : len = BitVec.ofNat 64 p.length := Exec.ok.inj (hstrlen.symm.trans (Block.strlen_of_holds hp))
    obtain rfl : b = decide (s = p) := Exec.ok.inj (hcontains.symm.trans (sxStringContainsCString_ok hs hp))
    rcases Nat.lt_or_ge p.length s.length with hlt | hle
    · have hnot : decide (s = p) ≠ true := fun h => by
        rw [of_decide_eq_true h] at hlt
        exact Nat.lt_irrefl _ hlt
      have hfound : found = none := by
        by_contra hsome
        exact hnot (hiff.mpr hsome)
      rw [hfound] at hsearch
      exact Or.inr (habsent.mp (hnone.mp hsearch))
    · exact Or.inl hle
  · intro h
    refine ⟨BitVec.ofNat 64 p.length, decide (s = p), ?_⟩
    by_cases heq : s = p
    · obtain rfl := heq
      have hfound := foundBefore_of_le hne (Nat.le_refl s.length)
      rw [if_pos rfl] at hfound
      obtain ⟨v, hsearch, _⟩ := sxStringSubCStringLocations_some hs hp.shows hlen
        (by rw [hfound]; exact List.cons_ne_nil 0 []) (by rw [hfound]; decide)
      exact ⟨some v, Block.strlen_of_holds hp, sxStringContainsCString_ok hs hp, hsearch, by simp⟩
    · have hempty : foundBefore p s (searchSpan s) = [] := by
        rcases h with hle | habs
        · rw [foundBefore_of_le hne hle, if_neg heq]
        · exact habsent.mpr habs
      exact ⟨none, Block.strlen_of_holds hp, sxStringContainsCString_ok hs hp, hnone.mpr hempty, by simp [heq]⟩

end Contains

/-- The strings `"hi"` and `"h"` as arguments. -/
def textHi : CString := CString.ofText [104, 105] (by decide) (by decide)
def textH  : CString := CString.ofText [104] (by decide) (by decide)

/-- The test and the search agree that `"hi"` contains `"hi"`. -/
theorem contains_agrees_iff_equal :
    ∃ len b found, textHi.block.strlen = .ok len ∧ sxStringContainsCString (.ofCString textHi) textHi.block = .ok b ∧
      sxStringSubCStringLocations (.ofCString textHi) textHi.block len = .ok found ∧ (b = true ↔ found ≠ none) :=
  (contains_agrees_iff (SXString.holds_ofCString textHi) textHi.holds (by decide)).mpr (Or.inl (Nat.le_refl _))

/-- The search finds `"h"` in `"hi"`, at the first index; the test says that it is not there. -/
theorem contains_misses_prefix :
    textH.block.strlen = .ok 1 ∧ sxStringContainsCString (.ofCString textHi) textH.block = .ok false ∧
      sxStringSubCStringLocations (.ofCString textHi) textH.block 1 =
        .ok (some { refCount := 1, count := 1, osize := sizeofInt, slots := [some 0], dealloc := false }) := by
  decide +kernel

end SpartanX
