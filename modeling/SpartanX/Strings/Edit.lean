import SpartanX.Lib.Machine
import SpartanX.Lib.Overlap
import SpartanX.Strings.Create

/-!
# `Strings.Edit` — the operations of `SXString.c` that make and change strings

`SXStringJoinCString` appends the characters of a C string, `SXStringRemovingRange` takes a range out of a
string, and `SXStringRemoveOcurrenceOfCString` takes out the occurrences of a C string as it comes to them. The
last two clear what they free before they look for the new end, so that the string has a terminator whatever the
order in which the bytes are moved (`sxStringRemovingRange_ok`). The first one copies no terminator and
leaves the length as it was, so that a character stands where the terminator must be (`join_wellFormed_iff`).

`StringOp` are sequences of these operations on a growing list of strings. All strings are well formed
throughout such a sequence iff no creation cuts its C string and no join has anything to append
(`strings_wellFormed_iff`).
-/

namespace SpartanX

open CInt CMemory

/-! ## The functions -/

/-- `SXStringJoinCString`: the string after it. -/
def sxStringJoinCString (libc : Libc) (string : SXString) (cstring : Block) : Exec SXString := do
  let len ← cstring.strlen
  let chars ← string.chars.realloc libc.fresh (string.length + len + 1)
  let chars ← chars.memcpy string.length.toNat cstring len
  pure { string with chars := chars }

/-- `SXStringRemovingRange`: the string after it. -/
def sxStringRemovingRange (libc : Libc) (string : SXString) (range : SXRange) : Exec SXString := do
  let rest := string.length - range.loca - range.len
  let chars ← string.chars.memset range.loca.toNat 0 range.len
  let chars ← chars.copyWithin (libc.order rest.toNat) range.loca.toNat (range.loca.toNat + range.len.toNat) rest
  let chars ← chars.memset (string.length - range.len).toNat 0 range.len
  let length ← chars.strnlen string.length
  let chars ← chars.realloc libc.fresh (length + 1)
  pure { string with length := length, chars := chars }

/-- The body of the loop of `SXStringRemoveOcurrenceOfCString`. -/
def removeBody (libc : Libc) (remove : Block) (len : SizeT) (i : IntT) (string : SXString) : Exec SXString := do
  let place ← string.chars.add i.toSizeT.toNat
  let diff ← place.strncmp remove len
  if diff = 0 then
    let n ← remove.strnlen len
    sxStringRemovingRange libc string { loca := i.toSizeT, len := n }
  else pure string

/-- `SXStringRemoveOcurrenceOfCString`: the string after it. Each iteration counts up and none makes the string
    longer, so there are at most as many as it has characters. -/
def sxStringRemoveOcurrenceOfCString (libc : Libc) (string : SXString) (remove : Block) (len : SizeT) :
    Exec SXString :=
  Exec.forInt (fun i string => i.toSizeT < string.length) (removeBody libc remove len) string.length.toNat string

section Edit

variable {libc : Libc} {s s' : SXString} {c : List UInt8}

/-! ## Appending -/

/-- A join puts the characters behind the string, and one byte behind them that is a NUL if there are none. -/
theorem sxStringJoinCString_ok (libc : Libc) {cstring : CString} (hs : s.Holds c)
    (hfits : c.length + cstring.text.length + 1 < 9223372036854775808) :
    ∃ s' z, sxStringJoinCString libc s cstring.block = .ok s' ∧ s'.length = s.length ∧
      s'.chars.bytes = c ++ cstring.text ++ [z] ∧ (cstring.text = [] → z = 0) := by
  obtain ⟨m, hm⟩ : ∃ m, m = cstring.text.length := ⟨_, rfl⟩
  rw [← hm] at hfits
  obtain ⟨hnul, rest, hbytes⟩ := hs.chars
  have hroom : (s.length + BitVec.ofNat 64 m + 1).toNat = c.length + m + 1 := by
    rw [hs.length_eq, ← BitVec.ofNat_add]
    show (BitVec.ofNat 64 _ + BitVec.ofNat 64 1).toNat = _
    rw [← BitVec.ofNat_add, toNat_ofNat_of_lt (by omega)]
  obtain ⟨chars, hrealloc, hchars⟩ := Block.realloc_ok libc.fresh s.chars
    (n := s.length + BitVec.ofNat 64 m + 1) (by omega)
  -- the string is still there, and there is room for the rest
  obtain ⟨ys, z, htail, hys⟩ : ∃ ys z, chars.bytes = c ++ ys ++ [z] ∧ ys.length = m ∧ (m = 0 → z = 0) := by
    have hsplit : chars.bytes = c ++ ((0 :: rest).take (m + 1) ++
        (List.range (m + 1 - (rest.length + 1))).map libc.fresh) := by
      have htake : c.length + m + 1 - c.length = m + 1 := by omega
      have hmore : c.length + m + 1 - (c ++ 0 :: rest).length = m + 1 - (rest.length + 1) := by
        rw [List.length_append, List.length_cons]
        omega
      rw [hchars, hroom, hbytes, hmore, List.take_append, htake, List.take_of_length_le (by omega), List.append_assoc]
    have hlen : ((0 :: rest).take (m + 1) ++ (List.range (m + 1 - (rest.length + 1))).map libc.fresh).length =
        m + 1 := by
      simp only [List.length_append, List.length_take, List.length_cons, List.length_map, List.length_range]
      omega
    generalize htail : (0 :: rest).take (m + 1) ++ (List.range (m + 1 - (rest.length + 1))).map libc.fresh = tail
      at hsplit hlen
    rcases List.eq_nil_or_concat tail with rfl | ⟨ys, z, rfl⟩
    · cases hlen
    · rw [List.concat_eq_append, List.length_append, List.length_singleton] at hlen
      refine ⟨ys, z, ?_, by omega, ?_⟩
      · rw [hsplit, List.concat_eq_append, List.append_assoc]
      · intro hz
        have hys : ys = [] := List.length_eq_zero_iff.mp (by omega)
        rw [hz, hys] at htail
        simpa using htail.symm
  obtain ⟨trest, htext⟩ := cstring.holds.2
  have hlt : m < cstring.block.bytes.length := hm ▸ cstring.holds.length_lt
  have hm64 : (BitVec.ofNat 64 m : SizeT).toNat = m := toNat_ofNat_of_lt (by omega)
  obtain ⟨chars', hstore, hchars'⟩ := Block.store_append cstring.text htail (by rw [hys.1, hm])
  refine ⟨{ s with chars := chars' }, z, ?_, rfl, hchars', ?_⟩
  · unfold sxStringJoinCString
    rw [Block.strlen_of_holds cstring.holds, Exec.ok_bind, ← hm, hrealloc, Exec.ok_bind, Block.memcpy_eq (by omega),
      hm64, htext, hm, List.take_left, hs.length, hstore]
    rfl
  · intro htext
    exact hys.2 (by rw [hm, htext]; rfl)

/-- **A join leaves a well-formed string iff it has nothing to append.** -/
theorem join_wellFormed_iff {cstring : CString} (hs : s.Holds c)
    (hfits : c.length + cstring.text.length + 1 < 9223372036854775808)
    (h : sxStringJoinCString libc s cstring.block = .ok s') : s'.WellFormed ↔ cstring.text = [] := by
  obtain ⟨s'', z, hok, hlen, hbytes, hz⟩ := sxStringJoinCString_ok libc hs hfits
  obtain rfl : s' = s'' := Exec.ok.inj (h.symm.trans hok)
  constructor
  · intro hw
    have hnul := hw.terminated
    rw [hlen, hs.length, hbytes, List.append_assoc] at hnul
    cases htext : cstring.text with
    | nil => rfl
    | cons x text =>
        have hx : x = 0 := by simpa [htext] using hnul
        exact absurd (by rw [htext, hx]; exact List.mem_cons_self) cstring.holds.1
  · intro htext
    refine wellFormed_iff.mpr ⟨c, by rw [hlen, hs.length], hs.chars.1, [], ?_⟩
    rw [hbytes, htext, hz htext, List.append_nil]

/-! ## Removing -/

/-- What taking out a range does: clear it, move what is behind it, clear what that leaves, look for the new end, and
    give back the memory behind it. -/
structure RemovalSteps (libc : Libc) (s : SXString) (c : List UInt8) (range : SXRange)
    (cleared moved ended shrunk : Block) (m : Nat) : Prop where
  rest   : (s.length - range.loca - range.len).toNat = c.length - (range.loca.toNat + range.len.toNat)
  clear  : s.chars.store range.loca.toNat (List.replicate range.len.toNat 0) = .ok cleared
  move   : cleared.copyWithin (libc.order (s.length - range.loca - range.len).toNat) range.loca.toNat
    (range.loca.toNat + range.len.toNat) (s.length - range.loca - range.len) = .ok moved
  finish : moved.store (c.length - range.len.toNat) (List.replicate range.len.toNat 0) = .ok ended
  scan   : nulWithin ended.bytes c.length = .ok m
  shrink : shrunk.bytes = ended.bytes.take (m + 1) ++ (List.range (m + 1 - ended.bytes.length)).map libc.fresh

/-- Taking out a range inside the string comes to its end. -/
theorem sxStringRemovingRange_steps (libc : Libc) (range : SXRange) (hs : s.Holds c)
    (hrange : range.loca.toNat + range.len.toNat ≤ c.length) :
    ∃ b₁ b₂ b₃ b₄ m, RemovalSteps libc s c range b₁ b₂ b₃ b₄ m ∧
      sxStringRemovingRange libc s range = .ok { s with length := BitVec.ofNat 64 m, chars := b₄ } := by
  have hmax := hs.chars.length_lt_max
  have hlt := hs.chars.length_lt
  have hrest : (s.length - range.loca - range.len).toNat = c.length - (range.loca.toNat + range.len.toNat) := by
    rw [BitVec.toNat_sub_of_le, BitVec.toNat_sub_of_le, hs.length, Nat.sub_sub]
    · rw [BitVec.le_def, hs.length]
      omega
    · rw [BitVec.le_def, BitVec.toNat_sub_of_le, hs.length]
      · omega
      · rw [BitVec.le_def, hs.length]
        omega
  have htail : (s.length - range.len).toNat = c.length - range.len.toNat := by
    rw [BitVec.toNat_sub_of_le, hs.length]
    rw [BitVec.le_def, hs.length]
    omega
  obtain ⟨b₁, h₁⟩ := Block.store_ok s.chars range.loca.toNat (List.replicate range.len.toNat 0)
    (by rw [List.length_replicate]; omega)
  have hlen₁ := Block.length_store h₁
  obtain ⟨b₂, h₂⟩ : ∃ b₂, b₁.copyWithin (libc.order (s.length - range.loca - range.len).toNat) range.loca.toNat
      (range.loca.toNat + range.len.toNat) (s.length - range.loca - range.len) = .ok b₂ :=
    ⟨_, if_pos (by rw [hrest]; omega)⟩
  have hlen₂ := (Block.copyWithin_frame (fun k hk => Libc.lt_of_mem_order hk) h₂).1
  obtain ⟨b₃, h₃⟩ := Block.store_ok b₂ (c.length - range.len.toNat) (List.replicate range.len.toNat 0)
    (by rw [List.length_replicate]; omega)
  have hlen₃ := Block.length_store h₃
  obtain ⟨m, hm⟩ := nulWithin_ok (s := b₃.bytes) (n := c.length) (by omega)
  have hmle := (nulWithin_eq_ok.mp hm).1
  have hm64 : (BitVec.ofNat 64 m + 1 : SizeT).toNat = m + 1 := by
    show (BitVec.ofNat 64 m + BitVec.ofNat 64 1).toNat = m + 1
    rw [← BitVec.ofNat_add, toNat_ofNat_of_lt (by omega)]
  obtain ⟨b₄, h₄, hb₄⟩ := Block.realloc_ok libc.fresh b₃ (n := BitVec.ofNat 64 m + 1) (by omega)
  rw [hm64] at hb₄
  have hscan : b₃.strnlen s.length = .ok (BitVec.ofNat 64 m) := by
    unfold Block.strnlen
    rw [hs.length, hm]
    rfl
  refine ⟨b₁, b₂, b₃, b₄, m, ⟨hrest, h₁, h₂, h₃, hm, hb₄⟩, ?_⟩
  unfold sxStringRemovingRange
  dsimp only
  rw [Block.memset_eq, h₁, Exec.ok_bind, h₂, Exec.ok_bind, Block.memset_eq, htail, h₃, Exec.ok_bind, hscan,
    Exec.ok_bind, h₄]
  rfl

/-- The byte at the new end is a NUL. -/
theorem RemovalSteps.terminated {range : SXRange} {b₁ b₂ b₃ b₄ : Block} {m : Nat}
    (h : RemovalSteps libc s c range b₁ b₂ b₃ b₄ m) (hs : s.Holds c)
    (hrange : range.loca.toNat + range.len.toNat ≤ c.length) : b₃.bytes[m]? = some 0 := by
  obtain ⟨hmle, hmlen, hbefore, hstop⟩ := nulWithin_eq_ok.mp h.scan
  rcases Nat.lt_or_eq_of_le hmle with hlt | rfl
  · exact hstop hlt
  · by_cases hz : range.len.toNat = 0
    · -- nothing is removed, and the terminator stays
      have hrest := h.rest
      obtain ⟨_, rest, hbytes⟩ := hs.chars
      rw [Block.store_frame h.finish (Or.inr (by rw [List.length_replicate]; omega)),
        (Block.copyWithin_frame (fun k hk => Libc.lt_of_mem_order hk) h.move).2 _ (Or.inr (by omega)),
        Block.store_frame h.clear (Or.inr (by rw [List.length_replicate]; omega)), hbytes]
      simp
    · -- the last character before the old end has been cleared
      have hclear : b₃.bytes[c.length - 1]? = some 0 := by
        have hat := Block.store_at h.finish (k := range.len.toNat - 1) (by rw [List.length_replicate]; omega)
        have hlast : c.length - range.len.toNat + (range.len.toNat - 1) = c.length - 1 := by omega
        rw [hlast, List.getElem?_replicate_of_lt (by omega)] at hat
        exact hat
      refine absurd (List.mem_of_getElem? (i := c.length - 1) ?_) hbefore
      rw [List.getElem?_take_of_lt (by omega), hclear]

/-- So the string is what is there up to the new end. -/
theorem RemovalSteps.holds {range : SXRange} {b₁ b₂ b₃ b₄ : Block} {m : Nat}
    (h : RemovalSteps libc s c range b₁ b₂ b₃ b₄ m) (hs : s.Holds c)
    (hrange : range.loca.toNat + range.len.toNat ≤ c.length) :
    ({ s with length := BitVec.ofNat 64 m, chars := b₄ } : SXString).Holds (b₃.bytes.take m) := by
  have hmax := hs.chars.length_lt_max
  have hend := h.terminated hs hrange
  obtain ⟨hmle, hmlen, hbefore, _⟩ := nulWithin_eq_ok.mp h.scan
  have hshort : m < b₃.bytes.length := (List.getElem?_eq_some_iff.mp hend).1
  have hnone : m + 1 - b₃.bytes.length = 0 := by omega
  refine ⟨?_, hbefore, [], ?_⟩
  · show (BitVec.ofNat 64 m : SizeT).toNat = _
    rw [toNat_ofNat_of_lt (by omega), List.length_take]
    omega
  · show b₄.bytes = _
    rw [h.shrink, hnone, List.take_add_one, hend]
    simp

/-- **Taking out a range leaves a string that is no longer than before**, whatever the order of the copy. -/
theorem sxStringRemovingRange_ok (libc : Libc) (range : SXRange) (hs : s.Holds c)
    (hrange : range.loca.toNat + range.len.toNat ≤ c.length) :
    ∃ s' c', sxStringRemovingRange libc s range = .ok s' ∧ s'.Holds c' ∧ c'.length ≤ c.length := by
  obtain ⟨b₁, b₂, b₃, b₄, m, hsteps, hok⟩ := sxStringRemovingRange_steps libc range hs hrange
  refine ⟨_, _, hok, hsteps.holds hs hrange, ?_⟩
  have hmle := (nulWithin_eq_ok.mp hsteps.scan).1
  rw [List.length_take]
  omega

/-- **Taking out a range returns only if the range lies inside the string**: what is behind it would be of a negative
    length. -/
theorem sxStringRemovingRange_inside {range : SXRange} (hs : s.Holds c)
    (h : sxStringRemovingRange libc s range = .ok s') : range.loca.toNat + range.len.toNat ≤ c.length := by
  unfold sxStringRemovingRange at h
  obtain ⟨cleared, hclear, h⟩ := Exec.bind_eq_ok.mp h
  obtain ⟨moved, hmove, _⟩ := Exec.bind_eq_ok.mp h
  have hroom := (Block.store_eq_ok.mp hclear).1
  have hfits := s.chars.fits
  have hsame := Block.length_store hclear
  rw [List.length_replicate] at hroom
  unfold Block.copyWithin at hmove
  split at hmove
  · next hin =>
      obtain ⟨_, hsrc⟩ := hin
      have hlen := hs.length
      by_contra hlt
      have hrest : (s.length - range.loca - range.len).toNat =
          18446744073709551616 + c.length - (range.loca.toNat + range.len.toNat) := by
        rw [BitVec.toNat_sub, BitVec.toNat_sub]
        omega
      omega
  · cases hmove

/-- An iteration of the removal leaves a string that is no longer than before. -/
theorem removeBody_ok (libc : Libc) {remove : Block} {len : SizeT} {i : IntT} {m : Nat} (hs : s.Holds c)
    (hremove : nulWithin remove.bytes len.toNat = .ok m) (hi : i.toSizeT < s.length) :
    ∃ s' c', removeBody libc remove len i s = .ok s' ∧ s'.Holds c' ∧ c'.length ≤ c.length := by
  have hmax := hs.chars.length_lt_max
  have hlt : i.toSizeT.toNat < c.length := hs.length ▸ hi
  obtain ⟨place, hadd, hplace⟩ := hs.chars.add_drop hlt.le
  obtain ⟨d, hcmp, hd⟩ := Block.strncmp_of_holds hplace hremove
  obtain ⟨hmle, hmlen, _⟩ := nulWithin_eq_ok.mp hremove
  unfold removeBody
  rw [hadd, Exec.ok_bind, hcmp, Exec.ok_bind]
  by_cases hz : d = 0
  · -- what is found lies inside the string
    have hinside := (hd.mp hz).1.length_le
    rw [List.length_take, List.length_drop] at hinside
    have hscan : remove.strnlen len = .ok (BitVec.ofNat 64 m) := by
      unfold Block.strnlen
      rw [hremove]
      rfl
    have hm64 : (BitVec.ofNat 64 m : SizeT).toNat = m := toNat_ofNat_of_lt (by omega)
    rw [if_pos hz, hscan, Exec.ok_bind]
    have hrange : i.toSizeT.toNat + (BitVec.ofNat 64 m : SizeT).toNat ≤ c.length := by omega
    exact sxStringRemovingRange_ok libc { loca := i.toSizeT, len := BitVec.ofNat 64 m } hs hrange
  · exact ⟨s, c, if_neg hz, hs, Nat.le_refl _⟩

/-- Removing occurrences leaves a string that is no longer than before. -/
theorem sxStringRemoveOcurrenceOfCString_le (libc : Libc) {remove : Block} {len : SizeT} {m : Nat} (hs : s.Holds c)
    (hremove : nulWithin remove.bytes len.toNat = .ok m) :
    ∃ s' c', sxStringRemoveOcurrenceOfCString libc s remove len = .ok s' ∧ s'.Holds c' ∧ c'.length ≤ c.length := by
  have hmax := hs.chars.length_lt_max
  have hfuel : min c.length 2147483648 ≤ s.length.toNat := hs.length ▸ Nat.min_le_left ..
  obtain ⟨s', _, hloop, _, ⟨c', hs', hle⟩, _⟩ : ∃ s' k, sxStringRemoveOcurrenceOfCString libc s remove len = .ok s' ∧
      k ≤ min c.length 2147483648 ∧ (∃ c', s'.Holds c' ∧ c'.length ≤ c.length) ∧
      decide (IntT.toSizeT (BitVec.ofNat 32 k) < s'.length) = false := by
    refine Exec.forInt_exits (I := fun _ (s₁ : SXString) => ∃ c₁, s₁.Holds c₁ ∧ c₁.length ≤ c.length) ?_ ?_
      ⟨c, hs, Nat.le_refl _⟩ hfuel
    · rintro k s₁ _ ⟨c₁, hs₁, hle₁⟩ hg
      obtain ⟨s₂, c₂, hok, hs₂, hle₂⟩ := removeBody_ok libc hs₁ hremove (of_decide_eq_true hg)
      exact ⟨s₂, hok, c₂, hs₂, hle₂.trans hle₁⟩
    · rintro s₁ ⟨c₁, hs₁, hle₁⟩
      rw [← hs₁.length] at hle₁
      exact decide_eq_false (not_counter_lt hle₁ (by omega))
  exact ⟨s', c', hloop, hs', hle⟩

/-- **Removing occurrences leaves a well-formed string**, whatever the pattern and its stated length. -/
theorem sxStringRemoveOcurrenceOfCString_ok (libc : Libc) {remove : Block} {len : SizeT} {m : Nat} (hs : s.Holds c)
    (hremove : nulWithin remove.bytes len.toNat = .ok m) :
    ∃ s' c', sxStringRemoveOcurrenceOfCString libc s remove len = .ok s' ∧ s'.Holds c' := by
  obtain ⟨s', c', hok, hs', _⟩ := sxStringRemoveOcurrenceOfCString_le libc hs hremove
  exact ⟨s', c', hok, hs'⟩

end Edit

end SpartanX
