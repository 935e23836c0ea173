import SpartanX.Lib.Deletion
import SpartanX.Strings.Invariant

/-!
# `Strings.Remove` — taking parts out of the strings of `SXString.c`

`SXStringRemovingRange` moves the characters behind the range down with `memcpy`, though source and target overlap if
there are more of them than are taken out. It takes out the range and nothing else in an order of the copy in which no
character is read after another has been written over it (`sxStringRemovingRange_down`), so in every order iff the
characters behind the range repeat with the period of its length (`removing_range_any_order_iff`).
-/

namespace SpartanX

open CInt CMemory Occurrences Deletion

section Remove

variable {libc : Libc} {s : SXString} {c c₁ c₂ c₃ : List UInt8} {range : SXRange}

/-! ## A range -/

/-- **Taking out a range** in an order in which the copy is right leaves what is before it and what is behind it. -/
theorem sxStringRemovingRange_down (libc : Libc) (range : SXRange) (hs : s.Holds (c₁ ++ c₂ ++ c₃))
    (hloca : range.loca.toNat = c₁.length) (hlen : range.len.toNat = c₂.length)
    (hdown : Block.CopiesDown (libc.order c₃.length) c₂.length c₃) :
    ∃ s', sxStringRemovingRange libc s range = .ok s' ∧ s'.Holds (c₁ ++ c₃) := by
  have hsize : (c₁ ++ c₂ ++ c₃).length = c₁.length + c₂.length + c₃.length := by
    simp only [List.length_append]
  obtain ⟨b₁, b₂, b₃, b₄, m, hsteps, hok⟩ := sxStringRemovingRange_steps libc range hs (by omega)
  have hholds := hsteps.holds hs (by omega)
  obtain ⟨hnul, rest, hbytes⟩ := hs.chars
  have hzeros : (List.replicate c₂.length (0 : UInt8)).length = c₂.length := List.length_replicate
  have hkept : (c₁ ++ c₃).length = c₁.length + c₃.length := List.length_append
  -- the range is cleared
  have hclear := hsteps.clear
  rw [List.append_assoc (c₁ ++ c₂)] at hbytes
  obtain ⟨b, hb, hb₁⟩ := Block.store_append (List.replicate c₂.length 0) hbytes hzeros
  rw [hloca, hlen, hb] at hclear
  obtain rfl := Exec.ok.inj hclear
  rw [← List.append_assoc] at hb₁
  -- what is behind it moves down
  have hrest : (s.length - range.loca - range.len).toNat = c₃.length := by
    rw [hsteps.rest]
    omega
  have hmove := hsteps.move
  have hsrc : range.loca.toNat + range.len.toNat = c₁.length + (List.replicate c₂.length (0 : UInt8)).length := by
    rw [hloca, hlen, hzeros]
  rw [hrest, hsrc, hloca] at hmove
  obtain ⟨w, hw, hb₂⟩ := Block.copyWithin_down (by rwa [hzeros]) (by rw [hrest]; exact libc.perm _) hrest hb₁ hmove
  -- what that leaves is cleared
  have hfinish := hsteps.finish
  have hplace : (c₁ ++ c₂ ++ c₃).length - range.len.toNat = (c₁ ++ c₃).length := by omega
  obtain ⟨b', hb', hb₃⟩ := Block.store_append (List.replicate c₂.length 0) hb₂ hw.symm
  rw [hplace, hlen, hb'] at hfinish
  obtain rfl := Exec.ok.inj hfinish
  -- so that the new end is found
  obtain ⟨rest', hrest'⟩ : ∃ rest', List.replicate c₂.length (0 : UInt8) ++ 0 :: rest = 0 :: rest' := by
    refine ⟨List.replicate c₂.length 0 ++ rest, ?_⟩
    rw [← List.cons_append, ← List.replicate_succ, List.replicate_succ', List.append_assoc]
    rfl
  have hnul' : 0 ∉ c₁ ++ c₃ := by
    intro h
    rcases List.mem_append.mp h with h | h
    · exact hnul (List.mem_append_left c₃ (List.mem_append_left c₂ h))
    · exact hnul (List.mem_append_right (c₁ ++ c₂) h)
  have hscan := hsteps.scan
  rw [hb₃, List.append_assoc, hrest', nulWithin_terminated hnul'] at hscan
  have hm : m = (c₁ ++ c₃).length := by
    have hmin := Exec.ok.inj hscan
    omega
  rw [hb₃, hm, List.append_assoc, List.take_left] at hholds
  exact ⟨_, hok, hm ▸ hholds⟩

/-- A library that copies in descending order, from memory that is all zeros. -/
def descendingLibc : Libc := ⟨fun n => (List.range n).reverse, fun n => List.reverse_perm (List.range n), fun _ => 0⟩

/-- In descending order what is behind the range comes to repeat. -/
theorem sxStringRemovingRange_descending {s' : SXString} (hs : s.Holds (c₁ ++ c₂ ++ c₃))
    (hloca : range.loca.toNat = c₁.length) (hlen : range.len.toNat = c₂.length)
    (h : sxStringRemovingRange descendingLibc s range = .ok s') (hs' : s'.Holds (c₁ ++ c₃)) :
    c₃.drop c₂.length <+: c₃ := by
  have hsize : (c₁ ++ c₂ ++ c₃).length = c₁.length + c₂.length + c₃.length := by
    simp only [List.length_append]
  obtain ⟨b₁, b₂, b₃, b₄, m, hsteps, hok⟩ := sxStringRemovingRange_steps descendingLibc range hs (by omega)
  have hholds := hsteps.holds hs (by omega)
  obtain rfl := Exec.ok.inj (h.symm.trans hok)
  have hrest : (s.length - range.loca - range.len).toNat = c₃.length := by
    rw [hsteps.rest]
    omega
  -- the characters are where the copy has put them
  have hat (k : Nat) (hk : k < c₃.length) : b₂.bytes[c₁.length + k]? = c₃[k]? := by
    have hsame : b₃.bytes.take m = c₁ ++ c₃ := hholds.unique hs'
    have hmlen := congrArg List.length hsame
    rw [List.length_take, List.length_append] at hmlen
    rw [← Block.store_frame hsteps.finish (Or.inl (by omega)), ← List.getElem?_take_of_lt (j := m) (by omega), hsame,
      List.getElem?_append_right (by omega), Nat.add_sub_cancel_left]
  rcases Nat.eq_zero_or_pos c₂.length with hz | hpos
  · rw [hz]
    exact List.prefix_refl c₃
  · rw [List.prefix_iff_getElem?]
    intro k hk
    rw [List.length_drop] at hk
    have hmove := hsteps.move
    rw [hloca, hlen] at hmove
    have hperiod := Block.copyWithin_descending hpos hmove (k := k) (by omega)
    rw [hat k (by omega), hat _ (by omega)] at hperiod
    rw [hperiod, List.getElem_drop, Nat.add_comm, List.getElem?_eq_getElem]

/-- **When taking out a range does not depend on the order of the copy.** In every order the string is well formed
    after it and is the one before without the range, iff the characters behind the range repeat with the period of
    its length. -/
theorem removing_range_any_order_iff (range : SXRange) (hs : s.Holds c)
    (hrange : range.loca.toNat + range.len.toNat ≤ c.length) :
    (∀ libc, ∃ s', sxStringRemovingRange libc s range = .ok s' ∧ s'.length = s.length - range.len ∧
        s'.Holds (c.take range.loca.toNat ++ c.drop (range.loca.toNat + range.len.toNat))) ↔
      (c.drop (range.loca.toNat + range.len.toNat)).drop range.len.toNat <+:
        c.drop (range.loca.toNat + range.len.toNat) := by
  obtain ⟨c₁, c₂, c₃, rfl, hloca, hlen⟩ : ∃ c₁ c₂ c₃, c = c₁ ++ c₂ ++ c₃ ∧ range.loca.toNat = c₁.length ∧
      range.len.toNat = c₂.length := by
    refine ⟨c.take range.loca.toNat, (c.drop range.loca.toNat).take range.len.toNat,
      (c.drop range.loca.toNat).drop range.len.toNat, ?_, ?_, ?_⟩
    · rw [List.append_assoc, List.take_append_drop, List.take_append_drop]
    · rw [List.length_take]
      omega
    · rw [List.length_take, List.length_drop]
      omega
  have hbefore : (c₁ ++ c₂ ++ c₃).take range.loca.toNat = c₁ := by
    rw [hloca, List.append_assoc, List.take_left]
  have hbehind : (c₁ ++ c₂ ++ c₃).drop (range.loca.toNat + range.len.toNat) = c₃ := by
    rw [hloca, hlen, ← List.length_append, List.drop_left]
  rw [hbefore, hbehind, hlen]
  constructor
  · intro h
    obtain ⟨s', hok, _, hs'⟩ := h descendingLibc
    exact sxStringRemovingRange_descending hs hloca hlen hok hs'
  · intro hperiod libc
    have horder : ∀ k ∈ libc.order c₃.length, k < c₃.length := fun k hk => Libc.lt_of_mem_order hk
    obtain ⟨s', hok, hs'⟩ := sxStringRemovingRange_down libc range hs hloca hlen
      (Block.copiesDown_of_period hperiod horder)
    refine ⟨s', hok, ?_, hs'⟩
    have hkept : (c₁ ++ c₃).length + c₂.length = (c₁ ++ c₂ ++ c₃).length := by
      simp only [List.length_append]
      omega
    have hrange' : range.len = BitVec.ofNat 64 c₂.length := by rw [← hlen, BitVec.ofNat_toNat, BitVec.setWidth_eq]
    rw [hs'.length_eq, hs.length_eq, hrange', ofNat_sub_ofNat (by omega), ← hkept, Nat.add_sub_cancel]

end Remove

/-- The strings `"abbb"` and `"abcd"` as arguments. -/
def textAbbb : CString := CString.ofText [97, 98, 98, 98] (by decide) (by decide)
def textAbcd : CString := CString.ofText [97, 98, 99, 100] (by decide) (by decide)

/-- Without its first character `"abbb"` is `"bbb"`, also in descending order. -/
theorem removing_range_any_order_iff_repeats :
    ∃ s', sxStringRemovingRange descendingLibc (.ofCString textAbbb) ⟨0, 1⟩ = .ok s' ∧
      s'.length = (SXString.ofCString textAbbb).length - 1 ∧ s'.Holds [98, 98, 98] :=
  (removing_range_any_order_iff ⟨0, 1⟩ (SXString.holds_ofCString textAbbb) (by decide)).mpr (by decide) descendingLibc

/-- Without its first character `"abcd"` becomes `"ddd"` in descending order. -/
theorem removing_range_descending_repeats :
    ∃ s', sxStringRemovingRange descendingLibc (.ofCString textAbcd) ⟨0, 1⟩ = .ok s' ∧
      s'.Holds [100, 100, 100] ∧ ¬ s'.Holds [98, 99, 100] := by
  have hok : sxStringRemovingRange descendingLibc (.ofCString textAbcd) ⟨0, 1⟩ =
      .ok { refCount := 1, length := 3, chars := ⟨[100, 100, 100, 0], by decide⟩ } := by
    decide +kernel
  have hholds : SXString.Holds { refCount := 1, length := 3, chars := ⟨[100, 100, 100, 0], by decide⟩ }
      [100, 100, 100] := ⟨rfl, by decide, [], rfl⟩
  refine ⟨_, hok, hholds, ?_⟩
  intro h
  exact absurd (hholds.unique h) (by decide)

/-! ## A pass over the occurrences -/

section Pass

variable {libc : Libc} {s s' : SXString} {c d r p : List UInt8} {remove : Block} {len : SizeT}

/-- An iteration deletes the pattern if what is left begins with it. -/
theorem removeBody_sweep (hasc : libc.Ascending) (hs : s.Holds (d ++ r)) (hp : remove.Shows p)
    (hlen : len.toNat = p.length) (hd : d.length < 2147483648) :
    ∃ s', removeBody libc remove len (BitVec.ofNat 32 d.length) s = .ok s' ∧
      s'.Holds (d ++ if p <+: r then r.drop p.length else r) := by
  have hnat : (IntT.toSizeT (BitVec.ofNat 32 d.length)).toNat = d.length := toNat_toSizeT_of_lt hd
  obtain ⟨place, hadd, hplace⟩ := Block.Holds.add d r hs.chars
  obtain ⟨diff, hcmp, hdiff⟩ := Block.strncmp_begins hplace hp hlen
  unfold removeBody
  rw [hnat, hadd, Exec.ok_bind, hcmp, Exec.ok_bind]
  by_cases hfound : p <+: r
  · have hscan : remove.strnlen len = .ok len := by
      unfold Block.strnlen
      rw [hlen, hp.nulWithin, ← hlen]
      simp
    obtain ⟨rest, rfl⟩ := hfound
    rw [← List.append_assoc] at hs
    rw [if_pos (hdiff.mpr (List.prefix_append p rest)), hscan, Exec.ok_bind, if_pos (List.prefix_append p rest),
      List.drop_left]
    exact sxStringRemovingRange_down libc ⟨_, _⟩ hs hnat hlen (hasc.copiesDown _ _ _)
  · rw [if_neg (mt hdiff.mp hfound), if_neg hfound]
    exact ⟨s, rfl, hs⟩

/-- **A pass deletes the occurrences that a sweep picks**: a sweep of at most 2^31 steps, since then the counter is
    negative, and stands above every length. -/
theorem sxStringRemoveOcurrenceOfCString_picks (hasc : libc.Ascending) (hs : s.Holds c) (hp : remove.Shows p)
    (hlen : len.toNat = p.length) (hne : p ≠ []) :
    ∃ s', sxStringRemoveOcurrenceOfCString libc s remove len = .ok s' ∧
      s'.Holds (deleteAt p.length (picks p c 2147483648) c) := by
  obtain ⟨n, hn⟩ : ∃ n, n = 2147483648 := ⟨_, rfl⟩
  rw [← hn, ← sweep_eq_deleteAt hne]
  have hmax := hs.chars.length_lt_max
  have hfuel : min c.length n ≤ s.length.toNat := hs.length ▸ Nat.min_le_left ..
  obtain ⟨s', k, hloop, hk, ⟨d, r, hs', hle, hplace, hswept⟩, hg⟩ :
      ∃ s' k, sxStringRemoveOcurrenceOfCString libc s remove len = .ok s' ∧ k ≤ min c.length n ∧
      (∃ d r, s'.Holds (d ++ r) ∧ (d ++ r).length ≤ c.length ∧ (d.length = k ∨ d.length ≤ k ∧ r = []) ∧
        d ++ sweep p (n - k) r = sweep p n c) ∧
      decide (IntT.toSizeT (BitVec.ofNat 32 k) < s'.length) = false := by
    -- `d` is what the pass has left behind, `r` what it has not looked at
    refine Exec.forInt_exits (I := fun k (s₁ : SXString) => ∃ d r, s₁.Holds (d ++ r) ∧ (d ++ r).length ≤ c.length ∧
      (d.length = k ∨ d.length ≤ k ∧ r = []) ∧ d ++ sweep p (n - k) r = sweep p n c) ?_ ?_
      ⟨[], c, hs, Nat.le_refl _, Or.inl rfl, by rw [Nat.sub_zero, List.nil_append]⟩ hfuel
    · rintro k s₁ hk ⟨d, r, hs₁, hle, hplace, hswept⟩ hg
      have hlt : k < (d ++ r).length := by
        have hlt := of_decide_eq_true hg
        rwa [BitVec.lt_def, toNat_toSizeT_of_lt (by omega), hs₁.length] at hlt
      obtain rfl : d.length = k := by
        rcases hplace with h | ⟨h, rfl⟩
        · exact h
        · rw [List.append_nil] at hlt
          omega
      obtain ⟨s₂, hok, hs₂⟩ := removeBody_sweep hasc hs₁ hp hlen (by omega)
      have hsteps : n - d.length = (n - (d.length + 1)) + 1 := by omega
      rw [hsteps, sweep] at hswept
      have hshort : (if p <+: r then r.drop p.length else r).length ≤ r.length := by
        split
        · rw [List.length_drop]
          omega
        · exact Nat.le_refl _
      revert hs₂ hswept hshort
      generalize (if p <+: r then r.drop p.length else r) = r'
      intro hs₂ hswept hshort
      rw [List.length_append] at hle
      refine ⟨s₂, hok, d ++ r'.take 1, r'.drop 1, ?_, ?_, ?_, ?_⟩
      · rwa [List.append_assoc, List.take_append_drop]
      · rw [List.append_assoc, List.take_append_drop, List.length_append]
        omega
      · cases r' with
        | nil => exact Or.inr ⟨by simp, rfl⟩
        | cons x r' => exact Or.inl (by simp)
      · rwa [List.append_assoc]
    · rintro s₁ ⟨d, r, hs₁, hle, _⟩
      rw [hn]
      rw [← hs₁.length] at hle
      exact decide_eq_false (not_counter_lt hle (by omega))
  refine ⟨s', hloop, ?_⟩
  -- nothing is left to look at, or the counter is negative
  have hdone : sweep p (n - k) r = r := by
    rcases Nat.lt_or_eq_of_le (hk.trans (Nat.min_le_right ..)) with hlt | rfl
    · have hend := of_decide_eq_false hg
      rw [BitVec.lt_def, toNat_toSizeT_of_lt (hn ▸ hlt), hs'.length, List.length_append] at hend
      have hnil : r = [] := by
        rcases hplace with h | ⟨_, h⟩
        · exact List.length_eq_zero_iff.mp (by omega)
        · exact h
      rw [hnil, sweep_nil]
    · rw [Nat.sub_self, sweep_zero]
  rwa [← hswept, hdone]

/-- **When a pass deletes occurrences and nothing else, and all of them if it should.** The pass ends; the string is
    well formed after it, and is the one before without some of the occurrences, no two of which overlap, and without
    all if any two begin more than the length of the pattern apart: iff in this case fewer than 2^31 characters are
    left before each occurrence. -/
theorem removal_deletes_occurrences_iff (hasc : libc.Ascending) (hs : s.Holds c) (hp : remove.Shows p)
    (hlen : len.toNat = p.length) (hne : p ≠ []) :
    (∃ s' ds, sxStringRemoveOcurrenceOfCString libc s remove len = .ok s' ∧ s'.Holds (deleteAt p.length ds c) ∧
        (∀ d ∈ ds, d ∈ occurrences p c) ∧ (ds.Pairwise fun i j => i + p.length ≤ j) ∧
        (SpacedOut p c → ∀ d ∈ occurrences p c, d ∈ ds)) ↔
      (SpacedOut p c → ∀ j (hj : j < (occurrences p c).length),
        (occurrences p c)[j] < 2147483648 + j * p.length) := by
  have hpos := List.length_pos_of_ne_nil hne
  obtain ⟨s₁, hpass, hs₁⟩ := sxStringRemoveOcurrenceOfCString_picks hasc hs hp hlen hne
  constructor
  · rintro ⟨s', ds, hok, hs', hocc, hapart, hall⟩ hspaced
    obtain rfl : s' = s₁ := Exec.ok.inj (hok.symm.trans hpass)
    -- as many are deleted as there are, so they are the ones picked
    have hsame := length_deleteAt hapart (s := c) fun d hd => occurrence_fits (hocc d hd)
    have hpicked := length_deleteAt (pairwise_picks (p := p) (s := c) (n := 2147483648)) (s := c) fun d hd =>
      occurrence_fits (mem_occurrences_of_mem_picks hd)
    rw [hs'.unique hs₁] at hsame
    have hcount : ds.length = (picks p c 2147483648).length :=
      Nat.eq_of_mul_eq_mul_right hpos (by omega)
    have hnodup : (occurrences p c).Nodup := List.nodup_range.filter _
    have hle := hnodup.length_le_of_subset (hall hspaced)
    have hsub : (picks p c 2147483648).Sublist (occurrences p c) := pickFrom_sublist
    exact (picks_eq_occurrences_iff hspaced).mp (hsub.eq_of_length_le (by omega))
  · intro h
    refine ⟨s₁, picks p c 2147483648, hpass, hs₁, fun d hd => mem_occurrences_of_mem_picks hd, pairwise_picks, ?_⟩
    intro hspaced d hd
    rwa [(picks_eq_occurrences_iff hspaced).mpr (h hspaced)]

end Pass

/-- A pass deletes `"b"` from `"abcd"`. -/
theorem removal_deletes_occurrences_iff_once :
    ∃ s' ds, sxStringRemoveOcurrenceOfCString plainLibc (.ofCString textAbcd) textB.block 1 = .ok s' ∧
      s'.Holds (deleteAt 1 ds [97, 98, 99, 100]) ∧ (∀ d ∈ ds, d ∈ occurrences [98] [97, 98, 99, 100]) ∧
      (ds.Pairwise fun i j => i + 1 ≤ j) ∧
      (SpacedOut [98] [97, 98, 99, 100] → ∀ d ∈ occurrences [98] [97, 98, 99, 100], d ∈ ds) :=
  (removal_deletes_occurrences_iff (fun _ => rfl) (SXString.holds_ofCString textAbcd) textB.holds.shows rfl
    (by decide)).mpr (by decide)

/-- The string of `n` characters `'a'` and a `'b'`. -/
theorem occurrences_far (n : Nat) : occurrences [98] (List.replicate n (97 : UInt8) ++ [98]) = [n] := by
  induction n with
  | zero => decide
  | succ n ih =>
      have hmiss : ¬ [98] <+: (97 : UInt8) :: (List.replicate n 97 ++ [98]) := by
        rw [List.cons_prefix_cons]
        rintro ⟨h, _⟩
        exact absurd h (by decide)
      rw [List.replicate_succ, List.cons_append, occurrences_cons_miss hmiss, ih, List.map_singleton]

theorem length_far (n : Nat) : (List.replicate n (97 : UInt8) ++ [98]).length = n + 1 := by simp

theorem noNul_far (n : Nat) : 0 ∉ List.replicate n (97 : UInt8) ++ [98] := by simp [List.mem_replicate]

/-- 2^31 characters `'a'` and a `'b'`, as an argument. -/
def textFar : CString := CString.ofText (List.replicate 2147483648 97 ++ [98]) (noNul_far _) (by
  rw [length_far]
  decide)

/-- A pass for `"b"` does not come to the only one there is, behind 2^31 characters `'a'`. -/
theorem removal_misses_far :
    SpacedOut [98] textFar.text ∧ 2147483648 ∈ occurrences [98] textFar.text ∧
      ∃ s', sxStringRemoveOcurrenceOfCString plainLibc (.ofCString textFar) textB.block 1 = .ok s' ∧
        s'.Holds textFar.text := by
  have hocc : occurrences [98] textFar.text = [2147483648] := occurrences_far 2147483648
  have hpicks : picks [98] textFar.text 2147483648 = [] := by
    unfold picks
    rw [hocc]
    decide
  have hasc : plainLibc.Ascending := fun _ => rfl
  have hlen : (1 : SizeT).toNat = textB.text.length := rfl
  obtain ⟨s', hok, hs'⟩ := sxStringRemoveOcurrenceOfCString_picks hasc (SXString.holds_ofCString textFar)
    textB.holds.shows hlen (by decide)
  refine ⟨?_, ?_, s', hok, ?_⟩
  · unfold SpacedOut
    rw [hocc]
    exact List.pairwise_singleton _ _
  · rw [hocc]
    exact List.mem_singleton_self _
  · have hnone : picks textB.text textFar.text 2147483648 = [] := hpicks
    rwa [hnone, deleteAt_nil] at hs'

/-! ## Passes until nothing changes -/

/-- The body of the loop of `SXStringRemoveOcurrencesOfCStrings`: a pass, and the length after it. -/
def removeAllBody (libc : Libc) (remove : Block) (len : SizeT) (st : SXString × SizeT) : Exec (SXString × SizeT) := do
  let string ← sxStringRemoveOcurrenceOfCString libc st.1 remove len
  pure (string, string.length)

/-- `SXStringRemoveOcurrencesOfCStrings`: the string after it. Each pass that is followed by another makes the string
    shorter, so there are at most as many of them as it has characters. -/
def sxStringRemoveOcurrencesOfCStrings (libc : Libc) (string : SXString) (remove : Block) (len : SizeT) :
    Exec SXString := do
  let st ← removeAllBody libc remove len (string, string.length)
  let st ← Exec.loop (fun st => st.1.length ≠ st.2) (removeAllBody libc remove len) string.length.toNat st
  pure st.1

section RemoveAll

variable {libc : Libc} {s : SXString} {c p : List UInt8} {remove : Block} {len : SizeT}

/-- The length is compared with itself, so there is one pass. -/
theorem sxStringRemoveOcurrencesOfCStrings_eq {s' : SXString}
    (h : sxStringRemoveOcurrenceOfCString libc s remove len = .ok s') :
    sxStringRemoveOcurrencesOfCStrings libc s remove len = .ok s' := by
  unfold sxStringRemoveOcurrencesOfCStrings
  have hbody : removeAllBody libc remove len (s, s.length) = .ok (s', s'.length) := by
    unfold removeAllBody
    rw [h]
    rfl
  rw [hbody, Exec.ok_bind, Exec.loop_done (by simp), Exec.ok_bind]
  rfl

/-- A pass over a string without the pattern leaves it as it is. -/
theorem sxStringRemoveOcurrenceOfCString_absent (hs : s.Holds c) (hp : remove.Shows p) (hlen : len.toNat = p.length)
    (h : ¬ p <:+: c) : sxStringRemoveOcurrenceOfCString libc s remove len = .ok s := by
  have hmax := hs.chars.length_lt_max
  have hfuel : min c.length 2147483648 ≤ s.length.toNat := hs.length ▸ Nat.min_le_left ..
  obtain ⟨s', _, hloop, _, rfl, _⟩ : ∃ s' k, sxStringRemoveOcurrenceOfCString libc s remove len = .ok s' ∧
      k ≤ min c.length 2147483648 ∧ s' = s ∧ decide (IntT.toSizeT (BitVec.ofNat 32 k) < s'.length) = false := by
    refine Exec.forInt_exits (I := fun _ s₁ => s₁ = s) ?_ ?_ rfl hfuel
    · rintro k s₁ hk rfl _
      obtain ⟨place, diff, hadd, hcmp, hdiff⟩ := hs.chars.strncmp_at (show k ≤ c.length by omega) hp hlen
      have hmiss : diff ≠ 0 := fun hz => h ((hdiff.mp hz).isInfix.trans (List.drop_suffix k c).isInfix)
      refine ⟨s₁, ?_, rfl⟩
      unfold removeBody
      rw [toNat_toSizeT_of_lt (by omega), hadd, Exec.ok_bind, hcmp, Exec.ok_bind, if_neg hmiss]
      rfl
    · rintro s₁ rfl
      exact decide_eq_false (not_counter_lt hs.length.le (by rw [hs.length]; omega))
  exact hloop

/-- **When removing all occurrences reaches a fixed point.** The pattern is nowhere in the string after the call, and
    another call would leave it as it is, iff the characters outside the occurrences that are picked do not spell the
    pattern, neither across the end of a picked one nor behind 2^31 of them. -/
theorem removing_all_settles_iff (hasc : libc.Ascending) (hs : s.Holds c) (hp : remove.Shows p)
    (hlen : len.toNat = p.length) (hne : p ≠ []) :
    (∃ s' c', sxStringRemoveOcurrencesOfCStrings libc s remove len = .ok s' ∧ s'.Holds c' ∧ ¬ p <:+: c' ∧
        sxStringRemoveOcurrencesOfCStrings libc s' remove len = .ok s') ↔ Settled p c 2147483648 := by
  obtain ⟨s₁, hpass, hs₁⟩ := sxStringRemoveOcurrenceOfCString_picks hasc hs hp hlen hne
  have hall := sxStringRemoveOcurrencesOfCStrings_eq hpass
  rw [← not_infix_deleteAt_picks_iff hne]
  constructor
  · rintro ⟨s', c', hok, hs', habsent, _⟩
    obtain rfl : s' = s₁ := Exec.ok.inj (hok.symm.trans hall)
    rwa [← hs'.unique hs₁]
  · intro habsent
    exact ⟨s₁, _, hall, hs₁, habsent,
      sxStringRemoveOcurrencesOfCStrings_eq (sxStringRemoveOcurrenceOfCString_absent hs₁ hp hlen habsent)⟩

end RemoveAll

/-- The strings `"a"`, `"aba"` and `"bb"` as arguments. -/
def textA   : CString := CString.ofText [97] (by decide) (by decide)
def textAba : CString := CString.ofText [97, 98, 97] (by decide) (by decide)
def textBb  : CString := CString.ofText [98, 98] (by decide) (by decide)

/-- From `"aba"` all `"a"` are removed. -/
theorem removing_all_settles_iff_apart :
    ∃ s' c', sxStringRemoveOcurrencesOfCStrings plainLibc (.ofCString textAba) textA.block 1 = .ok s' ∧ s'.Holds c' ∧
      ¬ [97] <:+: c' ∧ sxStringRemoveOcurrencesOfCStrings plainLibc s' textA.block 1 = .ok s' :=
  (removing_all_settles_iff (fun _ => rfl) (SXString.holds_ofCString textAba) textA.holds.shows rfl (by decide)).mpr
    (by decide)

/-- Of `"bb"` one `"b"` remains, which another call would remove. -/
theorem removing_all_leaves_adjacent :
    ∃ s' s'', sxStringRemoveOcurrencesOfCStrings plainLibc (.ofCString textBb) textB.block 1 = .ok s' ∧
      s'.Holds [98] ∧ sxStringRemoveOcurrencesOfCStrings plainLibc s' textB.block 1 = .ok s'' ∧ s''.Holds [] := by
  refine ⟨{ refCount := 1, length := 1, chars := ⟨[98, 0], by decide⟩ },
    { refCount := 1, length := 0, chars := ⟨[0], by decide⟩ }, by decide +kernel, ?_, by decide +kernel, ?_⟩
  · exact ⟨rfl, by decide, [], rfl⟩
  · exact ⟨rfl, by decide, [], rfl⟩

end SpartanX
