import SpartanX.Lib.CMemory
import SpartanX.RefCount

/-!
# `Strings.Create` — strings of `SXString.c`, and how they are made

A string is a stated length and a piece of memory. It is well formed if the length is that of the C string in
the memory (`SXString.WellFormed`), that is, if it holds some sequence of bytes other than NUL
(`SXString.Holds`, `wellFormed_iff`).

`SXCreateStringWithCString` copies one byte more than the characters it keeps, which is the terminator only if
it keeps them all (`sxCreateStringWithCString_ok`, `SXString.Created.wellFormed_iff`);
`SXStringGetSubstringInRange` copies the characters behind zeros of its own, so that a range inside the string
always gives the part it names (`sxStringGetSubstringInRange_ok`).
-/

namespace SpartanX

open CInt CMemory

/-- `sx_string_t`. -/
structure SXString extends StringHead where
  length : SizeT
  chars  : Block
  deriving DecidableEq

/-- `sx_range_t`. -/
structure SXRange where
  loca : SizeT
  len  : SizeT
  deriving DecidableEq

/-- `SXCreateStringWithCString`. -/
def sxCreateStringWithCString (cstr : Block) (length : SizeT) : Exec SXString := do
  let len ← cstr.strnlen length
  let chars ← Block.calloc (len + 1)
  let chars ← chars.memcpy 0 cstr (len + 1)
  let length ← chars.strnlen len
  pure { refCount := 1, length := length, chars := chars }

/-- `SXStringGetSubstringInRange`. -/
def sxStringGetSubstringInRange (str : SXString) (range : SXRange) : Exec SXString := do
  let buf ← Block.calloc (range.len + 1)
  let buf ← buf.memset 0 0 (range.len + 1)
  let src ← str.chars.add range.loca.toNat
  let buf ← buf.memcpy 0 src range.len
  sxCreateStringWithCString buf range.len

/-! ## Well-formed strings -/

/-- The string is the sequence of bytes `c`, none of them NUL. -/
structure SXString.Holds (s : SXString) (c : List UInt8) : Prop where
  length : s.length.toNat = c.length
  chars  : s.chars.Holds c

/-- There is room for the characters and a terminator, none of the characters is NUL, and the terminator is. -/
structure SXString.WellFormed (s : SXString) : Prop where
  room       : s.length.toNat + 1 ≤ s.chars.bytes.length
  noNul      : ∀ i < s.length.toNat, s.chars.bytes[i]? ≠ some 0
  terminated : s.chars.bytes[s.length.toNat]? = some 0

/-- **A string is well formed iff it is some sequence of bytes without NUL.** -/
theorem wellFormed_iff {s : SXString} : s.WellFormed ↔ ∃ c, s.Holds c := by
  constructor
  · intro h
    have hlt : s.length.toNat < s.chars.bytes.length := h.room
    have hnul : s.chars.bytes[s.length.toNat] = 0 := by
      simpa [List.getElem?_eq_getElem hlt] using h.terminated
    refine ⟨s.chars.bytes.take s.length.toNat, ?_, ?_, s.chars.bytes.drop (s.length.toNat + 1), ?_⟩
    · rw [List.length_take]
      omega
    · intro hm
      obtain ⟨i, hi, hget⟩ := List.getElem_of_mem hm
      rw [List.length_take] at hi
      rw [List.getElem_take] at hget
      exact h.noNul i (by omega) (by rw [List.getElem?_eq_getElem (by omega), hget])
    · conv_lhs => rw [← List.take_append_drop s.length.toNat s.chars.bytes, List.drop_eq_getElem_cons hlt, hnul]
  · rintro ⟨c, hlen, hc, rest, hb⟩
    refine ⟨?_, ?_, ?_⟩
    · rw [hb, hlen]
      simp
    · intro i hi
      rw [hlen] at hi
      rw [hb, List.getElem?_append_left hi]
      exact fun hget => hc (List.mem_of_getElem? hget)
    · rw [hb, hlen]
      simp

/-- A string is one sequence of bytes. -/
theorem SXString.Holds.unique {s : SXString} {c c' : List UInt8} (h : s.Holds c) (h' : s.Holds c') : c = c' :=
  h.chars.unique h'.chars

/-- The stated length, as a number. -/
theorem SXString.Holds.length_eq {s : SXString} {c : List UInt8} (h : s.Holds c) :
    s.length = BitVec.ofNat 64 c.length := by
  have hmax := h.chars.length_lt_max
  apply BitVec.eq_of_toNat_eq
  rw [h.length, toNat_ofNat_of_lt (by omega)]

/-- The stated length, converted to `int`. -/
theorem SXString.Holds.setWidth_length {s : SXString} {c : List UInt8} (h : s.Holds c) :
    s.length.setWidth 32 = BitVec.ofNat 32 c.length := by
  apply BitVec.eq_of_toNat_eq
  rw [BitVec.toNat_setWidth, h.length, BitVec.toNat_ofNat]

/-- A string of its own for a C string. -/
def SXString.ofCString (cstr : CString) : SXString where
  refCount := 1
  length   := BitVec.ofNat 64 cstr.text.length
  chars    := cstr.block

theorem SXString.holds_ofCString (cstr : CString) : (SXString.ofCString cstr).Holds cstr.text := by
  have hmax := cstr.holds.length_lt_max
  exact ⟨toNat_ofNat_of_lt (by omega), cstr.holds⟩

/-! ## Creating -/

/-- What comes of creating a string from the C string `c` with a length argument: the first characters of `c` up
    to that length, and the byte that comes behind them in `c`. -/
structure SXString.Created (s : SXString) (c : List UInt8) (n : SizeT) : Prop where
  refCount : s.refCount = 1
  length   : s.length.toNat = min n.toNat c.length
  bytes    : s.chars.bytes = (c ++ [0]).take (min n.toNat c.length + 1)

/-- **Creating a string from a C string succeeds**, whatever the length argument. -/
theorem sxCreateStringWithCString_ok {cstr : Block} {c : List UInt8} (hc : cstr.Holds c) (n : SizeT) :
    ∃ s, sxCreateStringWithCString cstr n = .ok s ∧ s.Created c n := by
  have hmax := hc.length_lt_max
  have hlt := hc.length_lt
  have hfound := Block.strnlen_of_holds (n := n) hc
  obtain ⟨hnul, rest, hb⟩ := hc
  obtain ⟨m, hm⟩ : ∃ m, m = min n.toNat c.length := ⟨_, rfl⟩
  have hle : m ≤ c.length := hm ▸ Nat.min_le_right ..
  have hlen : (BitVec.ofNat 64 m : SizeT).toNat = m := toNat_ofNat_of_lt (by omega)
  have hlen' : (BitVec.ofNat 64 m + 1 : SizeT).toNat = m + 1 := by
    rw [BitVec.toNat_add, hlen]
    show (m + 1) % 18446744073709551616 = m + 1
    omega
  have htake : cstr.bytes.take (m + 1) = (c ++ [0]).take (m + 1) := by
    rw [hb, ← List.singleton_append, ← List.append_assoc, List.take_append_of_le_length]
    rw [List.length_append, List.length_singleton]
    omega
  obtain ⟨chars, hcalloc, hzero⟩ := Block.calloc_ok (n := BitVec.ofNat 64 m + 1) (by omega)
  rw [hlen'] at hzero
  rw [← List.append_nil (List.replicate (m + 1) 0)] at hzero
  obtain ⟨chars', hstore, hbytes⟩ := chars.store_zero (cstr.bytes.take (m + 1)) hzero (by
    rw [List.length_take, List.length_replicate]
    omega)
  rw [List.append_nil, htake] at hbytes
  have hcopy : chars.memcpy 0 cstr (BitVec.ofNat 64 m + 1) = .ok chars' := by
    rw [Block.memcpy_eq (by omega), hlen', hstore]
  have hscan : chars'.strnlen (BitVec.ofNat 64 m) = .ok (BitVec.ofNat 64 m) := by
    have hwithin : nulWithin chars'.bytes m = .ok m := by
      rw [nulWithin_eq_ok, hbytes]
      refine ⟨Nat.le_refl _, ?_, ?_, by omega⟩
      · rw [List.length_take, List.length_append, List.length_singleton]
        omega
      · rw [List.take_take, List.take_append_of_le_length (by omega)]
        exact fun h => hnul (List.mem_of_mem_take h)
    unfold Block.strnlen
    rw [hlen, hwithin]
    rfl
  refine ⟨{ refCount := 1, length := BitVec.ofNat 64 m, chars := chars' }, ?_, rfl, ?_, ?_⟩
  · unfold sxCreateStringWithCString
    rw [hfound, ← hm, Exec.ok_bind, hcalloc, Exec.ok_bind, hcopy, Exec.ok_bind, hscan]
    rfl
  · rw [← hm]
    exact hlen
  · rw [← hm]
    exact hbytes

/-- What the created string holds, the object holds. -/
theorem holds_of_create {cstr : Block} {n : SizeT} {s : SXString} {c : List UInt8}
    (h : sxCreateStringWithCString cstr n = .ok s) (hs : s.Holds c) : cstr.Holds c := by
  unfold sxCreateStringWithCString at h
  obtain ⟨len, _, h⟩ := Exec.bind_eq_ok.mp h
  obtain ⟨chars, hcalloc, h⟩ := Exec.bind_eq_ok.mp h
  obtain ⟨chars', hcopy, h⟩ := Exec.bind_eq_ok.mp h
  obtain ⟨length, _, hret⟩ := Exec.bind_eq_ok.mp h
  obtain rfl := Exec.ok.inj hret
  have hlen := Block.length_allocate hcalloc
  have hbytes : chars'.bytes = cstr.bytes.take (len + 1).toNat := by
    unfold Block.memcpy at hcopy
    split at hcopy
    · next hle =>
        obtain ⟨_, hbytes⟩ := Block.store_eq_ok.mp hcopy
        rw [hbytes, List.take_zero, List.nil_append, List.drop_of_length_le, List.append_nil]
        rw [List.length_take]
        omega
    · cases hcopy
  obtain ⟨hnul, rest, hrest⟩ := hs.chars
  refine ⟨hnul, rest ++ cstr.bytes.drop (len + 1).toNat, ?_⟩
  conv_lhs => rw [← List.take_append_drop (len + 1).toNat cstr.bytes, ← hbytes, hrest]
  simp

/-- The created string is the C string, if the length argument does not cut it. -/
theorem SXString.Created.holds {s : SXString} {c : List UInt8} {n : SizeT} (h : s.Created c n) (hc : 0 ∉ c)
    (hle : c.length ≤ n.toNat) : s.Holds c := by
  have hmin : min n.toNat c.length = c.length := by omega
  refine ⟨by rw [h.length, hmin], hc, [], ?_⟩
  rw [h.bytes, hmin, List.take_of_length_le (by simp)]

/-- Creating a string from a C string and its length. -/
theorem sxCreateStringWithCString_strlen {cstr : Block} {c : List UInt8} (hc : cstr.Holds c) :
    ∃ len s, cstr.strlen = .ok len ∧ sxCreateStringWithCString cstr len = .ok s ∧ s.Holds c := by
  have hmax := hc.length_lt_max
  obtain ⟨s, hcreate, hcreated⟩ := sxCreateStringWithCString_ok hc (BitVec.ofNat 64 c.length)
  refine ⟨_, s, Block.strlen_of_holds hc, hcreate, hcreated.holds hc.1 ?_⟩
  rw [toNat_ofNat_of_lt (by omega)]

/-- **The created string is well formed iff the length argument does not cut the C string.** -/
theorem SXString.Created.wellFormed_iff {s : SXString} {c : List UInt8} {n : SizeT} (h : s.Created c n)
    (hc : 0 ∉ c) : s.WellFormed ↔ c.length ≤ n.toNat := by
  constructor
  · intro hw
    -- the byte behind a cut is a character
    by_contra hlt
    have hnul := hw.terminated
    have hmin : min n.toNat c.length = n.toNat := by omega
    rw [h.length, h.bytes, hmin, List.getElem?_take_of_lt (by omega), List.getElem?_append_left (by omega)] at hnul
    exact hc (List.mem_of_getElem? hnul)
  · intro hle
    exact SpartanX.wellFormed_iff.mpr ⟨c, h.holds hc hle⟩

/-! ## Substrings -/

/-- **A range inside a string gives the part of it that it names.** -/
theorem sxStringGetSubstringInRange_ok {s : SXString} {c₁ c₂ c₃ : List UInt8} (range : SXRange)
    (hs : s.Holds (c₁ ++ c₂ ++ c₃)) (hloca : range.loca.toNat = c₁.length) (hlen : range.len.toNat = c₂.length) :
    ∃ s', sxStringGetSubstringInRange s range = .ok s' ∧ s'.refCount = 1 ∧ s'.Holds c₂ := by
  have hmax := hs.chars.length_lt_max
  simp only [List.length_append] at hmax
  have hroom : (range.len + 1).toNat = c₂.length + 1 := by
    rw [BitVec.toNat_add, hlen]
    show (_ + 1) % _ = _
    omega
  obtain ⟨buf, hcalloc, hzero⟩ := Block.calloc_ok (n := range.len + 1) (by rw [hroom]; omega)
  obtain ⟨buf₁, hset, hzero₁⟩ := Block.memset_all (b := buf) 0 (n := range.len + 1) (by
    rw [hzero, List.length_replicate])
  rw [hroom, List.replicate_succ'] at hzero₁
  obtain ⟨src, hadd, hsrc⟩ := Block.Holds.add c₁ (c₂ ++ c₃) (by simpa using hs.chars)
  obtain ⟨hnul, rest, hb⟩ := hsrc
  have htake : src.bytes.take c₂.length = c₂ := by
    rw [hb, List.append_assoc, List.take_left]
  have hle : range.len.toNat ≤ src.bytes.length := by
    rw [hlen, hb]
    simp only [List.length_append]
    omega
  obtain ⟨buf₂, hcopy, hbytes⟩ := buf₁.store_zero c₂ hzero₁ (by simp)
  have hholds : buf₂.Holds c₂ := ⟨fun h => hnul (List.mem_append_left c₃ h), [], hbytes⟩
  obtain ⟨s', hcreate, hcreated⟩ := sxCreateStringWithCString_ok hholds range.len
  refine ⟨s', ?_, hcreated.refCount, hcreated.holds hholds.1 (by omega)⟩
  unfold sxStringGetSubstringInRange
  rw [hcalloc, Exec.ok_bind, hset, Exec.ok_bind, hloca, hadd, Exec.ok_bind, Block.memcpy_eq hle,
    hlen, htake, hcopy, Exec.ok_bind, hcreate]

end SpartanX
