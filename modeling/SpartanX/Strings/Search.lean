import SpartanX.Lib.Occurrences
import SpartanX.Strings.Create
import SpartanX.Vector

/-!
# `Strings.Search` — the search of `SXString.c`

`SXStringSubCStringLocations` compares the pattern with the string at every index below the length, notes the
indices at which it is found in an array on the stack, and returns them as a vector, or no vector if there are
none. On a well-formed string it finds the occurrences at the indices an `int` can count (`searchLoop_ok`). If these
are all indices, it returns exactly the occurrences of the pattern, overlapping ones included
(`sxStringSubCStringLocations_ok`), and they can be read back (`Positions.read`).
-/

namespace SpartanX

open CInt CMemory Occurrences

/-- The variables of the search: the array `locas`, and the number of places noted in it. -/
structure Search where
  locas : List IntT
  n     : IntT
  deriving DecidableEq

/-- The body of the loop of the search. -/
def searchBody (str : SXString) (trim : Block) (len : SizeT) (i : IntT) (st : Search) : Exec Search := do
  let place ← str.chars.add i.toSizeT.toNat
  let diff ← place.strncmp trim len
  if diff = 0 then
    let locas ← setAt st.locas st.n.toSizeT.toNat i
    pure { locas := locas, n := st.n + 1 }
  else pure st

/-- `SXStringSubCStringLocations`. -/
def sxStringSubCStringLocations (str : SXString) (trim : Block) (len : SizeT) : Exec (Option (SXVector IntT)) := do
  let st ← Exec.forInt (fun i _ => i.toSizeT < str.length) (searchBody str trim len) str.length.toNat
    { locas := List.replicate str.length.toNat 0, n := 0 }
  if st.n = 0 then pure none
  else
    let vLocas ← sxCreateVectorWithArray st.locas sizeofInt st.n.toSizeT false
    pure (some vLocas)

/-- `SXStringSubStringLocations`. -/
def sxStringSubStringLocations (str trim : SXString) : Exec (Option (SXVector IntT)) :=
  sxStringSubCStringLocations str trim.chars trim.length

/-- The vector contains these positions. -/
structure Positions (v : SXVector IntT) (occ : List Nat) : Prop where
  osize : v.osize = sizeofInt
  lists : v.Lists (occ.map (BitVec.ofNat 32))

/-- Reading an element. -/
theorem Positions.element {v : SXVector IntT} {occ : List Nat} {n : SizeT} (h : Positions v occ)
    (hn : n.toNat < 4611686018427387904) :
    sxVectorObjectPtrAtIndex v n = occ[n.toNat]?.map (BitVec.ofNat 32) := by
  have hsize : v.osize.toNat = 4 := by rw [h.osize]; rfl
  rw [h.lists.read (by omega) (by rw [hsize]; omega), List.getElem?_map]

/-- Reading a position with an `int` for its index. -/
theorem Positions.read {v : SXVector IntT} {occ : List Nat} {k : Nat} (h : Positions v occ) (hk : k < 2147483648) :
    sxVectorObjectPtrAtIndex v (IntT.toSizeT (BitVec.ofNat 32 k)) = occ[k]?.map (BitVec.ofNat 32) := by
  have hindex : (IntT.toSizeT (BitVec.ofNat 32 k)).toNat = k := toNat_toSizeT_of_lt hk
  rw [h.element (by omega), hindex]

theorem Positions.read_getD {v : SXVector IntT} {occ : List Nat} {k : Nat} (h : Positions v occ)
    (hk : k < occ.length) (hlt : k < 2147483648) (d : Nat) :
    sxVectorObjectPtrAtIndex v (IntT.toSizeT (BitVec.ofNat 32 k)) = some (BitVec.ofNat 32 (occ.getD k d)) := by
  rw [h.read hlt, List.getD_eq_getElem?_getD, List.getElem?_eq_getElem hk]
  rfl

theorem Positions.count {v : SXVector IntT} {occ : List Nat} (h : Positions v occ) : v.count.toNat = occ.length := by
  rw [h.lists.count, List.length_map]

/-- The occurrences before index `k`. -/
def foundBefore (p c : List UInt8) (k : Nat) : List Nat := (List.range k).filter fun i => p <+: c.drop i

theorem foundBefore_length (p c : List UInt8) : foundBefore p c c.length = occurrences p c := rfl

theorem length_foundBefore_le (p c : List UInt8) (k : Nat) : (foundBefore p c k).length ≤ k := by
  simpa [foundBefore] using List.length_filter_le (fun i => decide (p <+: c.drop i)) (List.range k)

theorem foundBefore_succ (p c : List UInt8) (k : Nat) :
    foundBefore p c (k + 1) = foundBefore p c k ++ if p <+: c.drop k then [k] else [] := by
  unfold foundBefore
  rw [List.range_succ, List.filter_append]
  by_cases h : p <+: c.drop k <;> simp [h]

/-- The variables after `k` iterations. -/
def Search.after (p c : List UInt8) (k : Nat) : Search where
  locas := (foundBefore p c k).map (BitVec.ofNat 32) ++ List.replicate (c.length - (foundBefore p c k).length) 0
  n     := BitVec.ofNat 32 (foundBefore p c k).length

/-- At how many indices the search looks: from 2^31 on its counter is negative, and stands above every length. -/
def searchSpan (c : List UInt8) : Nat := min c.length 2147483648

/-- The indices below that at which the pattern occurs. -/
theorem mem_foundBefore_searchSpan {p c : List UInt8} {i : Nat} :
    i ∈ foundBefore p c (searchSpan c) ↔ i ∈ occurrences p c ∧ i < 2147483648 := by
  unfold foundBefore searchSpan
  rw [List.mem_filter, List.mem_range, decide_eq_true_eq, mem_occurrences, Nat.lt_min]
  exact ⟨fun ⟨⟨hlt, hint⟩, hpre⟩ => ⟨⟨hlt, hpre⟩, hint⟩, fun ⟨⟨hlt, hpre⟩, hint⟩ => ⟨⟨hlt, hint⟩, hpre⟩⟩

theorem foundBefore_searchSpan {p c : List UInt8} (hint : c.length < 2147483648) :
    foundBefore p c (searchSpan c) = occurrences p c := by
  unfold searchSpan
  rw [Nat.min_eq_left hint.le, foundBefore_length]

section Search

variable {str : SXString} {trim : Block} {c p : List UInt8} {len : SizeT}

/-- An iteration notes the index if the pattern is found there. -/
theorem searchBody_ok (hs : str.Holds c) (hp : trim.Shows p) (hlen : len.toNat = p.length) {k : Nat}
    (hk : k < searchSpan c) :
    searchBody str trim len (BitVec.ofNat 32 k) (Search.after p c k) = .ok (Search.after p c (k + 1)) := by
  unfold searchSpan at hk
  have hnat {m : Nat} (hm : m ≤ k) : (IntT.toSizeT (BitVec.ofNat 32 m)).toNat = m :=
    toNat_toSizeT_of_lt (by omega)
  obtain ⟨place, d, hadd, hcmp, hd⟩ := hs.chars.strncmp_at (show k ≤ c.length by omega) hp hlen
  have hcount := length_foundBefore_le p c k
  unfold searchBody
  rw [hnat (Nat.le_refl k), hadd, Exec.ok_bind, hcmp, Exec.ok_bind]
  by_cases hfound : p <+: c.drop k
  · have hroom : c.length - (foundBefore p c k).length = (c.length - ((foundBefore p c k).length + 1)) + 1 := by
      omega
    have hset := setAt_append ((foundBefore p c k).map (BitVec.ofNat 32))
      (List.replicate (c.length - ((foundBefore p c k).length + 1)) 0) (0 : IntT) (BitVec.ofNat 32 k)
    rw [List.length_map] at hset
    have hn : (Search.after p c k).n = BitVec.ofNat 32 (foundBefore p c k).length := rfl
    have hlocas : (Search.after p c k).locas = (foundBefore p c k).map (BitVec.ofNat 32) ++
        0 :: List.replicate (c.length - ((foundBefore p c k).length + 1)) 0 := by
      rw [← List.replicate_succ, ← hroom]
      rfl
    rw [if_pos (hd.mpr hfound), hn, hlocas, hnat hcount, hset, Exec.ok_bind, ofNat_add_one]
    simp [Search.after, foundBefore_succ, hfound]
  · rw [if_neg (mt hd.mp hfound)]
    simp [Search.after, foundBefore_succ, hfound]

/-- The loop notes the occurrences below its last index. -/
theorem searchLoop_ok (hs : str.Holds c) (hp : trim.Shows p) (hlen : len.toNat = p.length) :
    Exec.forInt (fun i _ => i.toSizeT < str.length) (searchBody str trim len) str.length.toNat
      { locas := List.replicate str.length.toNat 0, n := 0 } = .ok (Search.after p c (searchSpan c)) := by
  have hmax := hs.chars.length_lt_max
  have hspan : searchSpan c ≤ c.length := Nat.min_le_left ..
  have hint : searchSpan c ≤ 2147483648 := Nat.min_le_right ..
  obtain ⟨st, hloop, rfl⟩ : ∃ st, Exec.forInt (fun i _ => i.toSizeT < str.length) (searchBody str trim len)
      str.length.toNat { locas := List.replicate str.length.toNat 0, n := 0 } = .ok st ∧
      st = Search.after p c (searchSpan c) := by
    refine Exec.forInt_ok (I := fun k st => st = Search.after p c k) ?_ ?_ ?_ (by rw [hs.length]; exact hspan)
    · rintro k st hk rfl
      refine ⟨?_, _, searchBody_ok hs hp hlen hk, rfl⟩
      simp only [BitVec.lt_def, decide_eq_true_eq, toNat_toSizeT_of_lt (show k < 2147483648 by omega), hs.length]
      omega
    · rintro st rfl
      exact decide_eq_false (not_counter_lt hs.length.le (by rw [hs.length]; omega))
    · simp [Search.after, foundBefore, hs.length]
  exact hloop

/-- **The search returns no vector iff it finds nothing.** -/
theorem sxStringSubCStringLocations_none (hs : str.Holds c) (hp : trim.Shows p) (hlen : len.toNat = p.length) :
    sxStringSubCStringLocations str trim len = .ok none ↔ foundBefore p c (searchSpan c) = [] := by
  have hcount := length_foundBefore_le p c (searchSpan c)
  have hint : searchSpan c ≤ 2147483648 := Nat.min_le_right ..
  have hn : (Search.after p c (searchSpan c)).n = BitVec.ofNat 32 (foundBefore p c (searchSpan c)).length := rfl
  unfold sxStringSubCStringLocations
  rw [searchLoop_ok hs hp hlen, Exec.ok_bind, hn]
  constructor
  · intro h
    split at h
    · next hz =>
        exact List.length_eq_zero_iff.mp ((ofNat_inj_of_lt (by omega) (by omega)).mp hz)
    · obtain ⟨v, _, hv⟩ := Exec.bind_eq_ok.mp h
      cases hv
  · intro h
    rw [h]
    rfl

/-- The search returns what it finds, if its counter can count it. -/
theorem sxStringSubCStringLocations_some (hs : str.Holds c) (hp : trim.Shows p) (hlen : len.toNat = p.length)
    (hsome : foundBefore p c (searchSpan c) ≠ []) (hint : (foundBefore p c (searchSpan c)).length < 2147483648) :
    ∃ v, sxStringSubCStringLocations str trim len = .ok (some v) ∧ Positions v (foundBefore p c (searchSpan c)) := by
  have hafter : Search.after p c (searchSpan c) =
      { locas := (foundBefore p c (searchSpan c)).map (BitVec.ofNat 32) ++
          List.replicate (c.length - (foundBefore p c (searchSpan c)).length) 0
        n     := BitVec.ofNat 32 (foundBefore p c (searchSpan c)).length } := rfl
  have hloop := searchLoop_ok hs hp hlen
  rw [hafter] at hloop
  revert hsome hint hloop
  generalize foundBefore p c (searchSpan c) = found
  intro hsome hint hloop
  have hnat : (IntT.toSizeT (BitVec.ofNat 32 found.length)).toNat = found.length := toNat_toSizeT_of_lt hint
  have hne : (BitVec.ofNat 32 found.length : IntT) ≠ 0 := fun h =>
    hsome (List.length_eq_zero_iff.mp ((ofNat_inj_of_lt (by omega) (by omega)).mp h))
  obtain ⟨v, hv, hosize, hlists⟩ := sxCreateVectorWithArray_ok
    (found.map (BitVec.ofNat 32) ++ List.replicate (c.length - found.length) (0 : IntT)) sizeofInt
    (IntT.toSizeT (BitVec.ofNat 32 found.length)) false (by decide) (by rw [hnat]; simp) (by rw [hnat]; exact hint)
    (by rw [hnat]; show _ * 4 < _; omega)
  have htake : (found.map (BitVec.ofNat 32) ++ List.replicate (c.length - found.length) (0 : IntT)).take
      found.length = found.map (BitVec.ofNat 32) := by
    rw [List.take_append_of_le_length (by rw [List.length_map]), List.take_of_length_le (by rw [List.length_map])]
  refine ⟨v, ?_, hosize, ?_⟩
  · unfold sxStringSubCStringLocations
    rw [hloop, Exec.ok_bind]
    dsimp only
    rw [if_neg hne, hv]
    rfl
  · rwa [hnat, htake] at hlists

/-- **The search returns the occurrences**, or no vector if there are none. -/
theorem sxStringSubCStringLocations_ok (hs : str.Holds c) (hp : trim.Shows p) (hlen : len.toNat = p.length)
    (hint : c.length < 2147483648) :
    (occurrences p c = [] ∧ sxStringSubCStringLocations str trim len = .ok none) ∨
      occurrences p c ≠ [] ∧ ∃ v, sxStringSubCStringLocations str trim len = .ok (some v) ∧
        Positions v (occurrences p c) := by
  have hfound := foundBefore_searchSpan (p := p) hint
  have hcount := length_occurrences_le p c
  by_cases hnone : occurrences p c = []
  · exact Or.inl ⟨hnone, (sxStringSubCStringLocations_none hs hp hlen).mpr (hfound.trans hnone)⟩
  · have hsome := sxStringSubCStringLocations_some hs hp hlen (by rwa [hfound]) (by rw [hfound]; omega)
    rw [hfound] at hsome
    exact Or.inr ⟨hnone, hsome⟩

/-- A pattern that occurs in a string of a length that an `int` can count. -/
structure Searched (s t : List UInt8) : Prop where
  nonempty : t ≠ []
  occurs   : t <:+: s
  length   : s.length < 2147483648

/-- The search for a pattern that occurs returns its positions. -/
theorem Searched.search {trimstr : SXString} (h : Searched c p) (hs : str.Holds c) (ht : trimstr.Holds p) :
    ∃ v, sxStringSubStringLocations str trimstr = .ok (some v) ∧ Positions v (occurrences p c) ∧
      0 < (occurrences p c).length := by
  have hocc : occurrences p c ≠ [] := (occurrences_ne_nil_iff h.nonempty).mpr h.occurs
  rcases sxStringSubCStringLocations_ok hs ht.chars.shows ht.length h.length with ⟨hnone, _⟩ | ⟨_, v, hv, hpos⟩
  · exact absurd hnone hocc
  · exact ⟨v, hv, hpos, List.length_pos_of_ne_nil hocc⟩

/-- A pattern without border that occurs in a string of a length that an `int` can count. -/
structure Findable (p c : List UInt8) : Prop where
  nonempty   : p ≠ []
  borderFree : BorderFree p
  occurs     : p <:+: c
  length     : c.length < 2147483648

theorem Findable.toSearched (h : Findable p c) : Searched c p := ⟨h.nonempty, h.occurs, h.length⟩

/-- **The search finds exactly the occurrences.** In a string that an `int` can count, and for a pattern of at least
    one character: there is no vector iff the pattern does not occur, and otherwise one whose elements are, in
    increasing order, the indices at which it does. No comparison looks at a byte behind the string's terminator. -/
theorem search_finds_occurrences (hs : str.Holds c) (hint : c.length < 2147483648) (hp : trim.Shows p) (hne : p ≠ [])
    (hlen : len.toNat = p.length) :
    (sxStringSubCStringLocations str trim len = .ok none ↔ ¬ p <:+: c) ∧
      (p <:+: c → ∃ v, ∃ locas : List Nat, sxStringSubCStringLocations str trim len = .ok (some v) ∧
        v.count.toNat = locas.length ∧
        (∀ n, n < v.count → sxVectorObjectPtrAtIndex v n = locas[n.toNat]?.map (BitVec.ofNat 32)) ∧
        locas.Pairwise (· < ·) ∧ ∀ i, i ∈ locas ↔ p <+: c.drop i) ∧
      ∀ i : IntT, i.toSizeT < str.length → ∃ place, str.chars.add i.toSizeT.toNat = .ok place ∧
        place.ComparesWithin trim len (c.length - i.toSizeT.toNat + 1) := by
  refine ⟨?_, ?_, ?_⟩
  · rw [sxStringSubCStringLocations_none hs hp hlen, foundBefore_searchSpan hint, ← occurrences_ne_nil_iff hne,
      not_not]
  · intro hoccurs
    have hocc : occurrences p c ≠ [] := (occurrences_ne_nil_iff hne).mpr hoccurs
    rcases sxStringSubCStringLocations_ok hs hp hlen hint with ⟨hnone, _⟩ | ⟨_, v, hv, hpos⟩
    · exact absurd hnone hocc
    · have hcount := length_occurrences_le p c
      refine ⟨v, occurrences p c, hv, hpos.count, fun n hn => ?_, List.pairwise_lt_range.filter _,
        fun i => mem_occurrences_iff hne⟩
      have hlt : n.toNat < (occurrences p c).length := hpos.count ▸ hn
      exact hpos.element (by omega)
  · intro i hi
    have hlt : i.toSizeT.toNat < c.length := hs.length ▸ hi
    obtain ⟨place, hadd, hplace⟩ := hs.chars.add_drop hlt.le
    refine ⟨place, hadd, ?_⟩
    rw [← List.length_drop]
    exact hplace.comparesWithin (by rw [hlen, hp.nulWithin])

end Search

/-- The strings `"popop"` and `"pop"` as arguments. -/
def textPopop : CString := CString.ofText [112, 111, 112, 111, 112] (by decide) (by decide)
def textPop   : CString := CString.ofText [112, 111, 112] (by decide) (by decide)

/-- Both occurrences of `"pop"` in `"popop"`, which overlap. -/
theorem search_finds_occurrences_overlapping :
    ∃ v, ∃ locas : List Nat, sxStringSubCStringLocations (.ofCString textPopop) textPop.block 3 = .ok (some v) ∧
      v.count.toNat = locas.length ∧
      (∀ n, n < v.count → sxVectorObjectPtrAtIndex v n = locas[n.toNat]?.map (BitVec.ofNat 32)) ∧
      locas.Pairwise (· < ·) ∧ ∀ i, i ∈ locas ↔ [112, 111, 112] <+: ([112, 111, 112, 111, 112] : List UInt8).drop i :=
  (search_finds_occurrences (SXString.holds_ofCString textPopop)
    (show ([112, 111, 112, 111, 112] : List UInt8).length < 2147483648 by decide) textPop.holds.shows (by decide)
    rfl).2.1 (by decide)

end SpartanX
