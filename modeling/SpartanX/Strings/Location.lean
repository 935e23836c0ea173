import SpartanX.Strings.Search

/-!
# `Strings.Location` — the search of `SXString.c` for one occurrence

`SXStringSubStringLocation` compares like the search for all occurrences, counts the matches and returns the index of
the one with the given number. Before it has come to that one its counter is the number of positions the other search
has noted so far (`foundBefore`), so it returns the element of the other's vector at that number (`locationLoop_ok`).
-/

namespace SpartanX

open CInt CMemory Occurrences

/-- The loop of `SXStringSubStringLocation`, and the `return` behind it. -/
def locationLoop (oStr : SXString) (trim : Block) (len n : SizeT) : Nat → IntT → IntT → Exec SizeT
  | 0,        i, _ => if i.toSizeT < oStr.length then .outOfFuel else pure (IntT.toSizeT (-1))
  | fuel + 1, i, j =>
    if i.toSizeT < oStr.length then do
      let place ← oStr.chars.add i.toSizeT.toNat
      let diff ← place.strncmp trim len
      if diff = 0 then
        if j.toSizeT = n then pure i.toSizeT else locationLoop oStr trim len n fuel (i + 1) (j + 1)
      else locationLoop oStr trim len n fuel (i + 1) j
    else pure (IntT.toSizeT (-1))

/-- `SXStringSubStringLocation`. The array `locas` is zeroed and not used. -/
def sxStringSubStringLocation (oStr : SXString) (trim : Block) (len n : SizeT) : Exec SizeT :=
  locationLoop oStr trim len n oStr.length.toNat 0 0

section Location

variable {oStr : SXString} {trim : Block} {c p : List UInt8} {len n : SizeT} {fuel k : Nat}

/-- What is found up to an index begins what is found up to a later one. -/
theorem foundBefore_prefix (p c : List UInt8) {k m : Nat} (hkm : k ≤ m) :
    foundBefore p c k <+: foundBefore p c m := by
  obtain ⟨d, rfl⟩ := Nat.exists_eq_add_of_le hkm
  unfold foundBefore
  rw [List.range_add, List.filter_append]
  exact List.prefix_append ..

/-- An occurrence has the number of those before it. -/
theorem occurrence_at_foundBefore (hk : k < c.length) (hfound : p <+: c.drop k) :
    (occurrences p c)[(foundBefore p c k).length]? = some k := by
  obtain ⟨rest, hrest⟩ := foundBefore_prefix p c (show k + 1 ≤ c.length from hk)
  rw [← foundBefore_length, ← hrest, foundBefore_succ, if_pos hfound]
  simp

/-- The loop is over behind the last character. -/
theorem locationLoop_end (hs : oStr.Holds c) (hint : c.length < 2147483648) (j : IntT) :
    locationLoop oStr trim len n fuel (BitVec.ofNat 32 c.length) j = .ok minusOne := by
  have hend : ¬ IntT.toSizeT (BitVec.ofNat 32 c.length) < oStr.length := by
    rw [BitVec.lt_def, toNat_toSizeT_of_lt hint, hs.length]
    exact Nat.lt_irrefl _
  cases fuel with
  | zero =>
      rw [locationLoop, if_neg hend]
      rfl
  | succ fuel =>
      rw [locationLoop, if_neg hend]
      rfl

/-- What an iteration does. -/
theorem locationLoop_succ (hs : oStr.Holds c) (hint : c.length < 2147483648) (hp : trim.Shows p)
    (hlen : len.toNat = p.length) (hk : k < c.length) (j : IntT) :
    locationLoop oStr trim len n (fuel + 1) (BitVec.ofNat 32 k) j =
      if p <+: c.drop k then
        if j.toSizeT = n then .ok (BitVec.ofNat 64 k)
        else locationLoop oStr trim len n fuel (BitVec.ofNat 32 (k + 1)) (j + 1)
      else locationLoop oStr trim len n fuel (BitVec.ofNat 32 (k + 1)) j := by
  have hnat := toNat_toSizeT_of_lt (show k < 2147483648 by omega)
  have hguard : IntT.toSizeT (BitVec.ofNat 32 k) < oStr.length := by
    rw [BitVec.lt_def, hnat, hs.length]
    exact hk
  obtain ⟨place, d, hadd, hcmp, hd⟩ := hs.chars.strncmp_at hk.le hp hlen
  rw [locationLoop, if_pos hguard, hnat, hadd, Exec.ok_bind, hcmp, Exec.ok_bind, toSizeT_ofNat (by omega),
    ofNat_add_one]
  by_cases hfound : p <+: c.drop k
  · rw [if_pos (hd.mpr hfound), if_pos hfound]
    rfl
  · rw [if_neg (mt hd.mp hfound), if_neg hfound]

/-- **The loop looks for the occurrence with the number `n`.** Before index `k` there have been at most `n`. -/
theorem locationLoop_ok (hs : oStr.Holds c) (hint : c.length < 2147483648) (hp : trim.Shows p)
    (hlen : len.toNat = p.length) (hk : k ≤ c.length) (hfuel : c.length - k ≤ fuel)
    (hbefore : (foundBefore p c k).length ≤ n.toNat) :
    locationLoop oStr trim len n fuel (BitVec.ofNat 32 k) (BitVec.ofNat 32 (foundBefore p c k).length) =
      .ok (((occurrences p c)[n.toNat]?.map (BitVec.ofNat 64)).getD minusOne) := by
  induction hm : c.length - k generalizing k fuel with
  | zero =>
      obtain rfl : k = c.length := by omega
      rw [foundBefore_length] at hbefore
      rw [locationLoop_end hs hint, List.getElem?_eq_none hbefore]
      rfl
  | succ m ih =>
      obtain ⟨fuel, rfl⟩ : ∃ f, fuel = f + 1 := ⟨fuel - 1, by omega⟩
      have hcount := length_foundBefore_le p c k
      have hlt : k < c.length := by omega
      have hsucc := foundBefore_succ p c k
      have hj := toNat_toSizeT_of_lt (show (foundBefore p c k).length < 2147483648 by omega)
      rw [locationLoop_succ hs hint hp hlen hlt]
      by_cases hfound : p <+: c.drop k
      · rw [if_pos hfound] at hsucc ⊢
        by_cases hnth : IntT.toSizeT (BitVec.ofNat 32 (foundBefore p c k).length) = n
        · -- this is the one
          have hn : (foundBefore p c k).length = n.toNat := by rw [← hj, hnth]
          rw [if_pos hnth, ← hn, occurrence_at_foundBefore hlt hfound]
          rfl
        · have hne : (foundBefore p c k).length ≠ n.toNat := fun h =>
            hnth (BitVec.eq_of_toNat_eq (hj.trans h))
          have hone : (foundBefore p c (k + 1)).length = (foundBefore p c k).length + 1 := by
            rw [hsucc, List.length_append]
            rfl
          rw [if_neg hnth, ofNat_add_one, ← hone]
          exact ih (by omega) (by omega) (by omega) (by omega)
      · rw [if_neg hfound, List.append_nil] at hsucc
        rw [if_neg hfound, ← hsucc]
        exact ih (by omega) (by omega) (by rwa [hsucc]) (by omega)

/-- The search returns the occurrence with the number `n`, or `(size_t)-1`. -/
theorem sxStringSubStringLocation_ok (hs : oStr.Holds c) (hint : c.length < 2147483648) (hp : trim.Shows p)
    (hlen : len.toNat = p.length) (n : SizeT) : sxStringSubStringLocation oStr trim len n =
      .ok (((occurrences p c)[n.toNat]?.map (BitVec.ofNat 64)).getD minusOne) :=
  locationLoop_ok hs hint hp hlen (Nat.zero_le _) hs.length.ge (Nat.zero_le _)

/-- **The search for one occurrence agrees with the search for all.** In a string that an `int` can count, for a
    pattern of at least one character and any number: the element of the vector with that number is returned if there
    is one, and `(size_t)-1` otherwise, which is no index of an occurrence. -/
theorem nth_location_agrees (hs : oStr.Holds c) (hint : c.length < 2147483648) (hp : trim.Shows p) (hne : p ≠ [])
    (hlen : len.toNat = p.length) (n : SizeT) :
    ∃ found loca, sxStringSubCStringLocations oStr trim len = .ok found ∧
      sxStringSubStringLocation oStr trim len n = .ok loca ∧
      (∀ v, found = some v → n < v.count → (sxVectorObjectPtrAtIndex v n).map IntT.toSizeT = some loca) ∧
      ((∀ v, found = some v → v.count ≤ n) → loca = minusOne) ∧
      ∀ i, p <+: c.drop i → i ≠ minusOne.toNat := by
  have hloca : sxStringSubStringLocation oStr trim len n =
      .ok (((occurrences p c)[n.toNat]?.map (BitVec.ofNat 64)).getD minusOne) :=
    locationLoop_ok hs hint hp hlen (Nat.zero_le _) hs.length.ge (Nat.zero_le _)
  have hindex : ∀ i, p <+: c.drop i → i ≠ minusOne.toNat := by
    rintro i hbegins rfl
    have hfits := occurrence_fits ((mem_occurrences_iff hne).mpr hbegins)
    have hvalue : minusOne.toNat = 18446744073709551615 := rfl
    omega
  have hcount := length_occurrences_le p c
  rcases sxStringSubCStringLocations_ok hs hp hlen hint with ⟨hnone, hsearch⟩ | ⟨_, v, hsearch, hpos⟩
  · refine ⟨none, _, hsearch, hloca, nofun, fun _ => ?_, hindex⟩
    rw [hnone]
    rfl
  · refine ⟨some v, _, hsearch, hloca, ?_, ?_, hindex⟩
    · intro v' heq hn
      obtain rfl := Option.some.inj heq
      have hlt : n.toNat < (occurrences p c).length := hpos.count ▸ hn
      have hfits := occurrence_fits (List.getElem_mem hlt)
      have hplen := List.length_pos_of_ne_nil hne
      rw [hpos.element (by omega), List.getElem?_eq_getElem hlt]
      show some (IntT.toSizeT (BitVec.ofNat 32 _)) = some (BitVec.ofNat 64 _)
      rw [toSizeT_ofNat (by omega)]
    · intro hall
      have hle : (occurrences p c).length ≤ n.toNat := hpos.count ▸ hall v rfl
      rw [List.getElem?_eq_none hle]
      rfl

end Location

/-- The second occurrence of `"pop"` in `"popop"`; there is no third. -/
theorem nth_location_agrees_second :
    (∃ found loca, sxStringSubCStringLocations (.ofCString textPopop) textPop.block 3 = .ok found ∧
      sxStringSubStringLocation (.ofCString textPopop) textPop.block 3 1 = .ok loca ∧
      (∀ v, found = some v → 1 < v.count → (sxVectorObjectPtrAtIndex v 1).map IntT.toSizeT = some loca) ∧
      ((∀ v, found = some v → v.count ≤ 1) → loca = minusOne) ∧
      ∀ i, [112, 111, 112] <+: ([112, 111, 112, 111, 112] : List UInt8).drop i → i ≠ minusOne.toNat) ∧
    sxStringSubStringLocation (.ofCString textPopop) textPop.block 3 1 = .ok 2 ∧
    sxStringSubStringLocation (.ofCString textPopop) textPop.block 3 2 = .ok minusOne :=
  ⟨nth_location_agrees (SXString.holds_ofCString textPopop)
    (show ([112, 111, 112, 111, 112] : List UInt8).length < 2147483648 by decide) textPop.holds.shows (by decide)
    rfl 1, by decide, by decide⟩

end SpartanX
