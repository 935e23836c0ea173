import SpartanX.Strings.Absent
import SpartanX.Strings.Location
import SpartanX.Strings.Remove

/-!
# `Proxy.Request` — the request parser of the HTTP proxy

`parseRequest` turns a request to the proxy into one to the server that it names: from the first line it takes the
scheme and the host name out, and the host name itself is the second word of the second line. `trimURLProtocol` gets
the number of characters up to the scheme as `offset`, and takes a range out that begins `offset` characters *before*
`"://"`. So it takes out the scheme and nothing else where the verb and a space are as long as the scheme
(`trimming_keeps_target_iff`), and reads and writes outside the line where there is less of that in front, or more
behind (`trimURLProtocol_returns_iff`).
-/

namespace SpartanX

open CInt CMemory Occurrences Deletion

/-- The strings `"://"` and `" "` as arguments. -/
def textScheme : CString := CString.ofText [58, 47, 47] (by decide) (by decide)
def textSpace  : CString := CString.ofText [32] (by decide) (by decide)

/-! ## The functions -/

/-- `SXStringSubStringsTrimmedByCString`. -/
def sxStringSubStringsTrimmedByCString (target : SXString) (trimcstr : Block) (trimstrLen : SizeT) :
    Exec (SXVector SXString) := do
  let s ← sxCreateStringWithCString trimcstr trimstrLen
  sxStringSubStringsTrimmedByString target s

/-- `trimURLProtocol`: the string after it. -/
def trimURLProtocol (libc : Libc) (string : SXString) (offset : SizeT) : Exec SXString := do
  let loca ← sxStringSubStringLocation string textScheme.block 3 0
  sxStringRemovingRange libc string { loca := loca - offset, len := loca - offset + 3 }

/-- `parseRequest`: the host name that it returns, and the string after it. -/
def parseRequest (libc : Libc) (outside : ReplaceVars → IntT) (fuel : Nat) (string : SXString) :
    Exec (SXString × SXString) := do
  let lines ← sxStringSubStringsTrimmedByCString string textCrlf.block 2
  let firstline ← Exec.ofOption (sxVectorObjectPtrAtIndex lines 0)
  let originalFirstline ← sxCreateStringWithCString firstline.chars firstline.length
  let is ← sxStringSubCStringLocations firstline textSpace.block 1
  let is ← Exec.ofOption is
  let loca ← Exec.ofOption (sxVectorObjectPtrAtIndex is 0)
  let firstline ← trimURLProtocol libc firstline (loca.toSizeT + 1)
  let secline ← Exec.ofOption (sxVectorObjectPtrAtIndex lines 1)
  let a ← sxStringSubStringsTrimmedByCString secline textSpace.block 1
  let hostname ← Exec.ofOption (sxVectorObjectPtrAtIndex a 1)
  let domain ← sxCreateStringWithCString hostname.chars hostname.length
  let firstline ← sxStringRemoveOcurrenceOfCString libc firstline hostname.chars hostname.length
  let string ← sxStringReplacingOccurrencesOfString libc.fresh outside fuel string originalFirstline firstline
  pure (domain, string)

/-! ## The scheme -/

section Scheme

variable {libc : Libc} {string : SXString} {c verb scheme target : List UInt8} {co o : Nat}

/-- The search for `"://"` returns the first, or `(size_t)-1`. -/
theorem schemeLocation_eq (hs : string.Holds c) (hint : c.length < 2147483648) :
    sxStringSubStringLocation string textScheme.block 3 0 =
      .ok (((occurrences textScheme.text c).head?.map (BitVec.ofNat 64)).getD minusOne) := by
  rw [List.head?_eq_getElem?]
  exact sxStringSubStringLocation_ok hs hint textScheme.holds.shows rfl 0

/-- With a scheme in the string, this is the range that is taken out. -/
theorem trimURLProtocol_eq (hs : string.Holds c) (hint : c.length < 2147483648)
    (hfirst : FirstAt textScheme.text c co) (offset : SizeT) : trimURLProtocol libc string offset =
      sxStringRemovingRange libc string ⟨BitVec.ofNat 64 co - offset, BitVec.ofNat 64 co - offset + 3⟩ := by
  unfold trimURLProtocol
  rw [schemeLocation_eq hs hint, (head?_occurrences (by decide)).mpr hfirst]
  rfl

/-- Its place and length, if `"://"` does not come before the offset. -/
theorem trimRange_toNat (hco : co < 2147483648) (ho : o ≤ co) :
    (BitVec.ofNat 64 co - BitVec.ofNat 64 o : SizeT).toNat = co - o ∧
      (BitVec.ofNat 64 co - BitVec.ofNat 64 o + 3 : SizeT).toNat = co - o + 3 := by
  have hloca : (BitVec.ofNat 64 co - BitVec.ofNat 64 o : SizeT).toNat = co - o := by
    rw [ofNat_sub_ofNat ho, toNat_ofNat_of_lt (by omega)]
  refine ⟨hloca, ?_⟩
  have hthree : (3 : SizeT).toNat = 3 := rfl
  rw [BitVec.toNat_add, hloca, hthree]
  exact Nat.mod_eq_of_lt (by omega)

/-- **When trimming the scheme returns**, whatever the order of the copy: iff there is one, not before the offset, and
    as many characters again behind the range as it is taken out too far in front. -/
theorem trimURLProtocol_returns_iff (libc : Libc) (hs : string.Holds c) (hint : c.length < 2147483648)
    (ho : o ≤ c.length) :
    (trimURLProtocol libc string (BitVec.ofNat 64 o)).Returns ↔
      ∃ co, FirstAt textScheme.text c co ∧ o ≤ co ∧ co - o + (co - o + 3) ≤ c.length := by
  constructor
  · rintro ⟨s', hok⟩
    rcases hhead : (occurrences textScheme.text c).head? with _ | co
    · -- the range begins behind every string
      unfold trimURLProtocol at hok
      rw [schemeLocation_eq hs hint, hhead] at hok
      have hinside := sxStringRemovingRange_inside hs hok
      have hloca : (minusOne - BitVec.ofNat 64 o : SizeT).toNat = 18446744073709551615 - o := by
        unfold minusOne
        rw [BitVec.toNat_sub, toNat_ofNat_of_lt (by omega)]
        have hone : (-1 : SizeT).toNat = 18446744073709551615 := rfl
        omega
      simp only [Option.map_none, Option.getD_none, hloca] at hinside
      omega
    · have hfirst := (head?_occurrences (by decide)).mp hhead
      have hlt := hfirst.lt (by decide)
      rw [trimURLProtocol_eq hs hint hfirst] at hok
      have hinside := sxStringRemovingRange_inside hs hok
      have hle : o ≤ co := by
        by_contra hgt
        have hloca : (BitVec.ofNat 64 co - BitVec.ofNat 64 o : SizeT).toNat = 18446744073709551616 + co - o := by
          rw [BitVec.toNat_sub, toNat_ofNat_of_lt (by omega), toNat_ofNat_of_lt (by omega)]
          omega
        simp only [hloca] at hinside
        omega
      obtain ⟨hloca, hlen⟩ := trimRange_toNat (show co < 2147483648 by omega) hle
      simp only [hloca, hlen] at hinside
      exact ⟨co, hfirst, hle, hinside⟩
  · rintro ⟨co, hfirst, hle, hroom⟩
    have hlt := hfirst.lt (by decide)
    obtain ⟨hloca, hlen⟩ := trimRange_toNat (show co < 2147483648 by omega) hle
    rw [trimURLProtocol_eq hs hint hfirst]
    obtain ⟨s', _, hok, _⟩ := sxStringRemovingRange_ok libc
      ⟨BitVec.ofNat 64 co - BitVec.ofNat 64 o, BitVec.ofNat 64 co - BitVec.ofNat 64 o + 3⟩ hs (by rwa [hloca, hlen])
    exact ⟨s', hok⟩

/-- What is left then, if the copy is in ascending order. -/
theorem trimURLProtocol_ok (hasc : libc.Ascending) (hs : string.Holds c) (hint : c.length < 2147483648)
    (hfirst : FirstAt textScheme.text c co) (ho : o ≤ co) (hroom : co - o + (co - o + 3) ≤ c.length) :
    ∃ s', trimURLProtocol libc string (BitVec.ofNat 64 o) = .ok s' ∧
      s'.Holds (c.take (co - o) ++ c.drop (co - o + (co - o + 3))) := by
  have hlt := hfirst.lt (by decide)
  obtain ⟨hloca, hlen⟩ := trimRange_toNat (show co < 2147483648 by omega) ho
  have hparts : c = c.take (co - o) ++ (c.drop (co - o)).take (co - o + 3) ++ c.drop (co - o + (co - o + 3)) := by
    rw [List.append_assoc, ← List.drop_drop, List.take_append_drop, List.take_append_drop]
  have hsrc : (c.take (co - o)).length = co - o := by
    rw [List.length_take]
    omega
  have hcut : ((c.drop (co - o)).take (co - o + 3)).length = co - o + 3 := by
    rw [List.length_take, List.length_drop]
    omega
  rw [trimURLProtocol_eq hs hint hfirst]
  rw [hparts] at hs
  exact sxStringRemovingRange_down libc ⟨_, _⟩ hs (hloca.trans hsrc.symm) (hlen.trans hcut.symm)
    (hasc.copiesDown _ _ _)

/-- The first line of a request to the proxy. -/
def requestLine (verb scheme target : List UInt8) : List UInt8 :=
  verb ++ [32] ++ (scheme ++ (textScheme.text ++ target))

theorem firstAt_requestLine (hscheme : 58 ∉ verb ++ [32] ++ scheme) :
    FirstAt textScheme.text (requestLine verb scheme target) (verb.length + 1 + scheme.length) := by
  have hlen : verb.length + 1 + scheme.length = (verb ++ [32] ++ scheme).length := by
    simp only [List.length_append, List.length_singleton]
  unfold requestLine
  rw [hlen, ← List.append_assoc]
  exact firstAt_append hscheme target

/-- What trimming leaves of the line, if the scheme is at least as long as the verb and a space. -/
theorem trimmed_requestLine {d : Nat} (hd : scheme.length = verb.length + 1 + d) :
    (requestLine verb scheme target).take scheme.length ++
      (requestLine verb scheme target).drop (scheme.length + (scheme.length + 3)) =
        verb ++ [32] ++ (scheme.take d ++ target.drop d) := by
  have hfront : (requestLine verb scheme target).take scheme.length = verb ++ [32] ++ scheme.take d := by
    have hk : scheme.length = (verb ++ [32]).length + d := by
      rw [hd, List.length_append, List.length_singleton]
    unfold requestLine
    rw [hk, List.take_length_add_append, List.take_append_of_le_length (by omega)]
  have hback : (requestLine verb scheme target).drop (scheme.length + (scheme.length + 3)) = target.drop d := by
    have hk : scheme.length + (scheme.length + 3) = (verb ++ [32] ++ scheme ++ textScheme.text).length + d := by
      have hthree : textScheme.text.length = 3 := rfl
      simp only [List.length_append, List.length_singleton, hthree]
      omega
    have hline : requestLine verb scheme target = verb ++ [32] ++ scheme ++ textScheme.text ++ target := by
      unfold requestLine
      simp only [List.append_assoc]
    rw [hk, hline, List.drop_length_add_append]
  rw [hfront, hback, List.append_assoc]

/-- A shorter scheme leaves the last `'/'` of `"://"` where the space should be. -/
theorem trimmed_short (hshort : scheme.length < verb.length + 1) :
    (requestLine verb scheme target).take scheme.length ++
      (requestLine verb scheme target).drop (scheme.length + (scheme.length + 3)) ≠ verb ++ [32] ++ target := by
  intro hsame
  have hthree : textScheme.text.length = 3 := rfl
  have hspace : (verb ++ [32] ++ target)[verb.length]? = some 32 := by simp
  have hslash : (requestLine verb scheme target)[verb.length + (scheme.length + 3)]? = some 47 := by
    have hplace : verb.length + (scheme.length + 3) = (verb ++ [32] ++ scheme).length + 2 := by
      simp only [List.length_append, List.length_singleton]
      omega
    unfold requestLine
    rw [hplace, ← List.append_assoc, List.getElem?_append_right (by omega), Nat.add_sub_cancel_left]
    rfl
  have htake : ((requestLine verb scheme target).take scheme.length).length = scheme.length := by
    rw [List.length_take]
    unfold requestLine
    simp only [List.length_append]
    omega
  rw [← hsame, List.getElem?_append_right (by omega), htake, List.getElem?_drop] at hspace
  have hplace : scheme.length + (scheme.length + 3) + (verb.length - scheme.length) =
      verb.length + (scheme.length + 3) := by omega
  rw [hplace, hslash] at hspace
  exact absurd hspace (by decide)

theorem length_requestLine (verb scheme target : List UInt8) :
    (requestLine verb scheme target).length = verb.length + 1 + scheme.length + 3 + target.length := by
  have hthree : textScheme.text.length = 3 := rfl
  unfold requestLine
  simp only [List.length_append, List.length_singleton, hthree]
  omega

/-- Trimming a line with a scheme. -/
theorem trimURLProtocol_requestLine (hasc : libc.Ascending) (hscheme : 58 ∉ verb ++ [32] ++ scheme)
    (hs : string.Holds (requestLine verb scheme target))
    (hint : (requestLine verb scheme target).length < 2147483648)
    (hroom : scheme.length + (scheme.length + 3) ≤ (requestLine verb scheme target).length) :
    ∃ s', trimURLProtocol libc string (BitVec.ofNat 64 (verb.length + 1)) = .ok s' ∧
      s'.Holds ((requestLine verb scheme target).take scheme.length ++
        (requestLine verb scheme target).drop (scheme.length + (scheme.length + 3))) := by
  have hplace : verb.length + 1 + scheme.length - (verb.length + 1) = scheme.length := by omega
  have htrim := trimURLProtocol_ok (o := verb.length + 1) hasc hs hint (firstAt_requestLine hscheme) (by omega)
    (by rwa [hplace])
  rwa [hplace] at htrim

/-- The target is left if it begins with what the scheme is longer by. -/
theorem trimURLProtocol_keeps (hasc : libc.Ascending) (hscheme : 58 ∉ verb ++ [32] ++ scheme)
    (hs : string.Holds (requestLine verb scheme target))
    (hint : (requestLine verb scheme target).length < 2147483648) (hlong : verb.length + 1 ≤ scheme.length)
    (hbegins : scheme.take (scheme.length - (verb.length + 1)) <+: target) :
    ∃ s', trimURLProtocol libc string (BitVec.ofNat 64 (verb.length + 1)) = .ok s' ∧
      s'.Holds (verb ++ [32] ++ target) := by
  have hd : (scheme.take (scheme.length - (verb.length + 1))).length = scheme.length - (verb.length + 1) := by
    rw [List.length_take]
    omega
  have hle := hbegins.length_le
  have hlen := length_requestLine verb scheme target
  obtain ⟨s', hok, hs'⟩ := trimURLProtocol_requestLine hasc hscheme hs hint (by omega)
  rw [trimmed_requestLine (d := scheme.length - (verb.length + 1)) (by omega)] at hs'
  obtain ⟨rest, hrest⟩ := hbegins
  have htail : target.drop (scheme.length - (verb.length + 1)) = rest := by
    rw [← hrest]
    exact List.drop_left' hd
  rw [htail, hrest] at hs'
  exact ⟨s', hok, hs'⟩

/-- **When trimming takes out the scheme and nothing else**, if `memcpy` copies in ascending order. For a line
    shorter than 2^31 with a verb, a space, a scheme and a target behind `"://"`, without a colon in the verb or the
    scheme: the verb, the space and the target are left, iff the scheme is at least as long as the verb and the
    space, and what it is longer by, from its beginning, the target begins with too. -/
theorem trimming_keeps_target_iff (hasc : libc.Ascending) (hscheme : 58 ∉ verb ++ [32] ++ scheme)
    (hs : string.Holds (requestLine verb scheme target))
    (hint : (requestLine verb scheme target).length < 2147483648) :
    (∃ s', trimURLProtocol libc string (BitVec.ofNat 64 (verb.length + 1)) = .ok s' ∧
        s'.Holds (verb ++ [32] ++ target)) ↔
      verb.length + 1 ≤ scheme.length ∧ scheme.take (scheme.length - (verb.length + 1)) <+: target := by
  have hfirst : FirstAt textScheme.text (requestLine verb scheme target) (verb.length + 1 + scheme.length) :=
    firstAt_requestLine hscheme
  have hlen := length_requestLine verb scheme target
  constructor
  · rintro ⟨s', hok, hs'⟩
    obtain ⟨co, hco, _, hroom⟩ := (trimURLProtocol_returns_iff libc hs hint (by omega)).mp ⟨s', hok⟩
    obtain rfl : co = verb.length + 1 + scheme.length :=
      Option.some.inj (((head?_occurrences (by decide)).mpr hco).symm.trans
        ((head?_occurrences (by decide)).mpr hfirst))
    obtain ⟨s'', hok', hs''⟩ := trimURLProtocol_requestLine hasc hscheme hs hint (by omega)
    obtain rfl := Exec.ok.inj (hok.symm.trans hok')
    have hsame := hs''.unique hs'
    have hlong : verb.length + 1 ≤ scheme.length := by
      by_contra hshort
      exact trimmed_short (by omega) hsame
    rw [trimmed_requestLine (d := scheme.length - (verb.length + 1)) (by omega)] at hsame
    exact ⟨hlong, _, List.append_cancel_left hsame⟩
  · rintro ⟨hlong, hbegins⟩
    exact trimURLProtocol_keeps hasc hscheme hs hint hlong hbegins

/-- Trimming leaves a string that is no longer than before, if it returns. -/
theorem trimURLProtocol_holds {s' : SXString} {offset : SizeT} (hs : string.Holds c)
    (h : trimURLProtocol libc string offset = .ok s') : ∃ c', s'.Holds c' ∧ c'.length ≤ c.length := by
  unfold trimURLProtocol at h
  obtain ⟨loca, _, hremove⟩ := Exec.bind_eq_ok.mp h
  obtain ⟨s'', c', hok, hs'', hle⟩ := sxStringRemovingRange_ok libc _ hs (sxStringRemovingRange_inside hs hremove)
  obtain rfl := Exec.ok.inj (hremove.symm.trans hok)
  exact ⟨c', hs'', hle⟩

end Scheme

/-- The lines `"GET http://a"` and `"POST http://a"` as arguments. -/
def lineGet : CString :=
  CString.ofText (requestLine [71, 69, 84] [104, 116, 116, 112] [97]) (by decide) (by decide)
def linePost : CString :=
  CString.ofText (requestLine [80, 79, 83, 84] [104, 116, 116, 112] [97]) (by decide) (by decide)

/-- From `"GET http://a"` the scheme is trimmed, from `"POST http://a"` it is not. -/
theorem trimming_keeps_target_iff_http :
    (∃ s', trimURLProtocol plainLibc (.ofCString lineGet) 4 = .ok s' ∧ s'.Holds [71, 69, 84, 32, 97]) ∧
      ¬ ∃ s', trimURLProtocol plainLibc (.ofCString linePost) 5 = .ok s' ∧ s'.Holds [80, 79, 83, 84, 32, 97] := by
  have hasc : plainLibc.Ascending := fun _ => rfl
  have hget := trimming_keeps_target_iff hasc
    (show 58 ∉ ([71, 69, 84] : List UInt8) ++ [32] ++ [104, 116, 116, 112] by decide)
    (SXString.holds_ofCString lineGet) (by decide)
  have hpost := trimming_keeps_target_iff hasc
    (show 58 ∉ ([80, 79, 83, 84] : List UInt8) ++ [32] ++ [104, 116, 116, 112] by decide)
    (SXString.holds_ofCString linePost) (by decide)
  exact ⟨hget.mpr (by decide), fun h => absurd (hpost.mp h) (by decide)⟩

/-! ## The parts of a request -/

section Parts

variable {s p a : List UInt8} {target : SXString} {ret : SXVector SXString} {strs : List SXString}
variable {ps : List (List UInt8)}

/-- Splitting at a C string that occurs. -/
theorem trimmedByCString_ok {cstr : CString} (len : SizeT) (h : Findable cstr.text s)
    (hlen : cstr.text.length ≤ len.toNat) (hs : target.Holds s) :
    ∃ ret strs, sxStringSubStringsTrimmedByCString target cstr.block len = .ok ret ∧ ret.osize = sizeofRef ∧
      ret.Lists strs ∧ List.Forall₂ SXString.Holds strs (pieces cstr.text s) := by
  obtain ⟨trimstr, hcreate, hcreated⟩ := sxCreateStringWithCString_ok cstr.holds len
  unfold sxStringSubStringsTrimmedByCString
  rw [hcreate, Exec.ok_bind]
  exact sxStringSubStringsTrimmedByString_ok h hs (hcreated.holds cstr.holds.1 hlen)

/-- Splitting returns only if the C string occurs. -/
theorem trimmedByCString_occurs {cstr : CString} {len : SizeT} (hne : cstr.text ≠ [])
    (hlen : cstr.text.length ≤ len.toNat) (hs : target.Holds s)
    (h : sxStringSubStringsTrimmedByCString target cstr.block len = .ok ret) : cstr.text <:+: s := by
  by_contra habsent
  obtain ⟨trimstr, hcreate, hcreated⟩ := sxCreateStringWithCString_ok cstr.holds len
  have hnone := sxStringSubStringLocations_absent hs (hcreated.holds cstr.holds.1 hlen) hne habsent
  unfold sxStringSubStringsTrimmedByCString at h
  rw [hcreate, Exec.ok_bind] at h
  unfold sxStringSubStringsTrimmedByString at h
  rw [hnone, Exec.ok_bind] at h
  cases h

/-- A part can be read from the vector. -/
theorem read_part {i : SizeT} (hosize : ret.osize = sizeofRef) (hlists : ret.Lists strs)
    (hparts : List.Forall₂ SXString.Holds strs ps) (hi : i.toNat < 2147483648) (ha : ps[i.toNat]? = some a) :
    ∃ str, sxVectorObjectPtrAtIndex ret i = some str ∧ str.Holds a := by
  have hsize : ret.osize.toNat = 8 := by
    rw [hosize]
    rfl
  obtain ⟨hlt, hget⟩ := List.getElem?_eq_some_iff.mp ha
  have hlt' : i.toNat < strs.length := hparts.length_eq ▸ hlt
  refine ⟨strs[i.toNat], ?_, ?_⟩
  · rw [hlists.read (by omega) (by rw [hsize]; omega), List.getElem?_eq_getElem hlt']
  · rw [← hget]
    exact hparts.get hlt' hlt

end Parts

/-- The first line of a request. -/
def firstLine (s : List UInt8) : List UInt8 := (pieces textCrlf.text s).headD []

/-- The parts of a request that the parser looks at: the first line, in which `sp` is the place of the first space,
    and the second line with `host` for its second word. -/
structure RequestParts (s first second host : List UInt8) (sp : Nat) : Prop where
  lines : ∃ more, pieces textCrlf.text s = first :: second :: more
  space : FirstAt textSpace.text first sp
  words : ∃ word more, pieces textSpace.text second = word :: host :: more

section Parse

variable {s first second host : List UInt8} {sp co : Nat} {libc : Libc} {string : SXString}
  {outside : ReplaceVars → IntT} {fuel : Nat}

theorem RequestParts.firstLine_eq (h : RequestParts s first second host sp) : firstLine s = first := by
  obtain ⟨more, hlines⟩ := h.lines
  unfold firstLine
  rw [hlines]
  rfl

theorem RequestParts.length_first (h : RequestParts s first second host sp) : first.length ≤ s.length := by
  obtain ⟨more, hlines⟩ := h.lines
  exact length_le_of_mem_pieces (by decide) s first (hlines ▸ List.mem_cons_self)

theorem RequestParts.length_second (h : RequestParts s first second host sp) : second.length ≤ s.length := by
  obtain ⟨more, hlines⟩ := h.lines
  exact length_le_of_mem_pieces (by decide) s second (hlines ▸ List.mem_cons_of_mem _ List.mem_cons_self)

/-- The search for the first space. -/
theorem firstSpace_ok {c : List UInt8} (hs : string.Holds c) (hint : c.length < 2147483648)
    (hsp : FirstAt textSpace.text c sp) :
    ∃ v, sxStringSubCStringLocations string textSpace.block 1 = .ok (some v) ∧
      sxVectorObjectPtrAtIndex v 0 = some (BitVec.ofNat 32 sp) := by
  have hlen : (1 : SizeT).toNat = textSpace.text.length := rfl
  have hhead := (head?_occurrences (by decide)).mpr hsp
  rcases sxStringSubCStringLocations_ok hs textSpace.holds.shows hlen hint with ⟨hnone, _⟩ | ⟨_, v, hsearch, hpos⟩
  · rw [hnone] at hhead
    cases hhead
  · rw [List.head?_eq_getElem?] at hhead
    refine ⟨v, hsearch, ?_⟩
    rw [hpos.element (by decide)]
    exact congrArg (Option.map (BitVec.ofNat 32)) hhead

/-- If it finds one, there is a first. -/
theorem exists_firstSpace {c : List UInt8} {v : SXVector IntT} (hs : string.Holds c) (hint : c.length < 2147483648)
    (h : sxStringSubCStringLocations string textSpace.block 1 = .ok (some v)) :
    ∃ sp, FirstAt textSpace.text c sp := by
  have hlen : (1 : SizeT).toNat = textSpace.text.length := rfl
  rcases sxStringSubCStringLocations_ok hs textSpace.holds.shows hlen hint with ⟨_, hsearch⟩ | ⟨hne, _⟩
  · cases hsearch.symm.trans h
  · obtain ⟨i, more, hocc⟩ := List.exists_cons_of_ne_nil hne
    exact ⟨i, (head?_occurrences (by decide)).mp (hocc ▸ rfl)⟩

/-- **What the parser does with the parts of a request**: it trims the first line, takes the host name out of it, and
    puts it where the first line was. -/
theorem parseRequest_eq (libc : Libc) (outside : ReplaceVars → IntT) (fuel : Nat)
    (h : RequestParts s first second host sp) (hs : string.Holds s) (hint : s.length < 2147483648) :
    ∃ firstline original hostname domain : SXString, firstline.Holds first ∧ original.Holds first ∧
      hostname.Holds host ∧ domain.Holds host ∧
      parseRequest libc outside fuel string =
        (trimURLProtocol libc firstline (BitVec.ofNat 64 (sp + 1)) >>= fun trimmed =>
          sxStringRemoveOcurrenceOfCString libc trimmed hostname.chars hostname.length >>= fun line =>
            sxStringReplacingOccurrencesOfString libc.fresh outside fuel string original line >>= fun string =>
              pure (domain, string)) := by
  have hfirst := h.length_first
  have hsecond := h.length_second
  obtain ⟨more, hmore⟩ := h.lines
  obtain ⟨word, words, hwords⟩ := h.words
  have hcrlf : Findable textCrlf.text s :=
    ⟨by decide, by decide, occurs_of_pieces hmore, hint⟩
  have hspace : Findable textSpace.text second :=
    ⟨by decide, by decide, occurs_of_pieces hwords, by omega⟩
  -- the lines
  obtain ⟨lines, strs, hlines, hosize, hlists, hparts⟩ := trimmedByCString_ok 2 hcrlf (by decide) hs
  rw [hmore] at hparts
  obtain ⟨firstline, hread₁, hline₁⟩ := read_part (i := 0) hosize hlists hparts (by decide) rfl
  obtain ⟨secline, hread₂, hline₂⟩ := read_part (i := 1) hosize hlists hparts (by decide) rfl
  obtain ⟨original, horiginal, hcopy⟩ := sxCreateStringWithCString_ok hline₁.chars firstline.length
  -- the first space of the first line
  obtain ⟨v, hsearch, hloca⟩ := firstSpace_ok hline₁ (by omega) h.space
  have hoff : IntT.toSizeT (BitVec.ofNat 32 sp) + 1 = BitVec.ofNat 64 (sp + 1) := by
    have hlt := h.space.lt (by decide)
    rw [toSizeT_ofNat (by omega), BitVec.ofNat_add]
    rfl
  -- the second word of the second line
  obtain ⟨a, strs', ha, hosize', hlists', hparts'⟩ := trimmedByCString_ok 1 hspace (by decide) hline₂
  rw [hwords] at hparts'
  obtain ⟨hostname, hread₃, hhost⟩ := read_part (i := 1) hosize' hlists' hparts' (by decide) rfl
  obtain ⟨domain, hdomain, hcopy'⟩ := sxCreateStringWithCString_ok hhost.chars hostname.length
  refine ⟨firstline, original, hostname, domain, hline₁, hcopy.holds hline₁.chars.1 hline₁.length.ge, hhost,
    hcopy'.holds hhost.chars.1 hhost.length.ge, ?_⟩
  unfold parseRequest
  simp only [hlines, hread₁, horiginal, hsearch, hloca, hoff, hread₂, ha, hread₃, hdomain, Exec.ok_bind,
    Exec.ofOption_some]

/-- The first line can be replaced by one that is no longer. -/
theorem RequestParts.replaceable {line : List UInt8} (h : RequestParts s first second host sp)
    (hborder : BorderFree first) (hint : s.length < 2147483648) (hle : line.length ≤ first.length) :
    Replaceable s first line := by
  have hne : first ≠ [] := List.ne_nil_of_length_pos (Nat.zero_lt_of_lt (h.space.lt (by decide)))
  have hfirst := h.length_first
  obtain ⟨more, hlines⟩ := h.lines
  have hhead : (pieces textCrlf.text s).head? = some first := by
    rw [hlines, List.head?_cons]
  have hbegins : first <+: s := head_pieces_begins (by decide) s first hhead
  have hresult := length_replaceAll hborder hne line s
  have hshrinks := Nat.mul_le_mul_left (occurrences first s).length hle
  exact { nonempty    := hne
          borderFree  := hborder
          occurs      := hbegins.isInfix
          length      := hint
          replacement := by omega
          result      := by omega }

/-- A parser that comes to its end has met the parts. -/
theorem exists_requestParts (hs : string.Holds s) (hint : s.length < 2147483648)
    (h : (parseRequest libc outside fuel string).Returns) :
    ∃ first second host sp, RequestParts s first second host sp := by
  obtain ⟨_, h⟩ := h
  unfold parseRequest at h
  obtain ⟨lines, hlines, h⟩ := Exec.bind_eq_ok.mp h
  obtain ⟨firstline, hread₁, h⟩ := Exec.bind_eq_ok.mp h
  obtain ⟨original, _, h⟩ := Exec.bind_eq_ok.mp h
  obtain ⟨found, hsearch, h⟩ := Exec.bind_eq_ok.mp h
  obtain ⟨v, hv, h⟩ := Exec.bind_eq_ok.mp h
  obtain ⟨loca, _, h⟩ := Exec.bind_eq_ok.mp h
  obtain ⟨trimmed, _, h⟩ := Exec.bind_eq_ok.mp h
  obtain ⟨secline, hread₂, h⟩ := Exec.bind_eq_ok.mp h
  obtain ⟨a, ha, _⟩ := Exec.bind_eq_ok.mp h
  -- there are two lines
  have hcrlf : textCrlf.text <:+: s := trimmedByCString_occurs (by decide) (by decide) hs hlines
  obtain ⟨first, second, more, hmore⟩ := exists_pieces_of_occurs (p := textCrlf.text) (by decide) (by decide) hcrlf
  obtain ⟨lines', strs, hlines', hosize, hlists, hparts⟩ :=
    trimmedByCString_ok 2 ⟨by decide, by decide, hcrlf, hint⟩ (by decide) hs
  obtain rfl := Exec.ok.inj (hlines.symm.trans hlines')
  have hlen := length_le_of_mem_pieces (p := textCrlf.text) (by decide) s
  rw [hmore] at hparts hlen
  obtain ⟨firstline', hread₁', hline₁⟩ := read_part (i := 0) hosize hlists hparts (by decide) rfl
  obtain ⟨secline', hread₂', hline₂⟩ := read_part (i := 1) hosize hlists hparts (by decide) rfl
  rw [hread₁'] at hread₁
  rw [hread₂'] at hread₂
  obtain rfl := Exec.ok.inj hread₁
  obtain rfl := Exec.ok.inj hread₂
  have hlen₁ := hlen first List.mem_cons_self
  have hlen₂ := hlen second (List.mem_cons_of_mem _ List.mem_cons_self)
  -- a space in the first, and two words in the second
  obtain rfl : found = some v := by
    cases found with
    | none => cases hv
    | some v' => exact congrArg some (Exec.ok.inj hv)
  obtain ⟨sp, hsp⟩ := exists_firstSpace hline₁ (by omega) hsearch
  have hspace : textSpace.text <:+: second := trimmedByCString_occurs (by decide) (by decide) hline₂ ha
  obtain ⟨word, host, words, hwords⟩ := exists_pieces_of_occurs (p := textSpace.text) (by decide) (by decide) hspace
  exact ⟨first, second, host, sp, ⟨more, hmore⟩, hsp, word, words, hwords⟩

/-- **When the parser comes to its end**, whatever the order of the copies. For a request shorter than 2^31 whose
    first line is without border, if what is read behind the positions of the first line is not the current
    `str_pos`: iff it has two lines, there is a space in each, in the first line `"://"` behind the space, and the
    range that is taken out there, which begins as far behind the start of the line as `"://"` is behind the space,
    ends inside the line. -/
theorem parseRequest_returns_iff (hborder : BorderFree (firstLine s)) (hs : string.Holds s)
    (hint : s.length < 2147483648)
    (houtside : ∀ v, v.n = BitVec.ofNat 32 (occurrences (firstLine s) s).length → outside v ≠ v.strPos)
    (hfuel : s.length ≤ fuel) :
    (parseRequest libc outside fuel string).Returns ↔
      ∃ first second host sp co, RequestParts s first second host sp ∧ FirstAt textScheme.text first co ∧
        sp + 1 ≤ co ∧ co - (sp + 1) + (co - (sp + 1) + 3) ≤ first.length := by
  have hparts {first second host : List UInt8} {sp : Nat} (h : RequestParts s first second host sp) :
      (parseRequest libc outside fuel string).Returns ↔
        ∃ co, FirstAt textScheme.text first co ∧ sp + 1 ≤ co ∧
          co - (sp + 1) + (co - (sp + 1) + 3) ≤ first.length := by
    have hfirst := h.length_first
    obtain ⟨firstline, original, hostname, domain, hline, horiginal, hhost, _, heq⟩ :=
      parseRequest_eq libc outside fuel h hs hint
    rw [heq, ← trimURLProtocol_returns_iff libc hline (by omega) (h.space.lt (by decide))]
    constructor
    · rintro ⟨_, hok⟩
      obtain ⟨trimmed, htrim, _⟩ := Exec.bind_eq_ok.mp hok
      exact ⟨trimmed, htrim⟩
    · rintro ⟨trimmed, htrim⟩
      obtain ⟨c₁, htrimmed, hle₁⟩ := trimURLProtocol_holds hline htrim
      have hscan : nulWithin hostname.chars.bytes hostname.length.toNat = .ok host.length := by
        rw [hhost.length]
        exact hhost.chars.shows.nulWithin
      obtain ⟨line, c₂, hremove, hline₂, hle₂⟩ := sxStringRemoveOcurrenceOfCString_le libc htrimmed hscan
      rw [h.firstLine_eq] at hborder houtside
      obtain ⟨_, s', hreplace, _⟩ := replaceOccurrences_ok libc.fresh
        (h.replaceable hborder hint (hle₂.trans hle₁)) hs horiginal hline₂ houtside hfuel
      exact ⟨(domain, s'), by rw [htrim, Exec.ok_bind, hremove, Exec.ok_bind, hreplace]; rfl⟩
  constructor
  · intro h
    obtain ⟨first, second, host, sp, hreq⟩ := exists_requestParts hs hint h
    obtain ⟨co, hco, hle, hroom⟩ := (hparts hreq).mp h
    exact ⟨first, second, host, sp, co, hreq, hco, hle, hroom⟩
  · rintro ⟨first, second, host, sp, co, hreq, hco, hle, hroom⟩
    exact (hparts hreq).mpr ⟨co, hco, hle, hroom⟩

end Parse

/-! ## The request that is passed on -/

/-- A request to the proxy: the host is named behind the scheme in the first line, and in the second line behind a
    key. -/
structure ProxyRequest where
  verb   : List UInt8
  scheme : List UInt8
  host   : List UInt8
  path   : List UInt8
  key    : List UInt8
  tail   : List UInt8

namespace ProxyRequest

def first (r : ProxyRequest) : List UInt8 := requestLine r.verb r.scheme (r.host ++ r.path)

def second (r : ProxyRequest) : List UInt8 := r.key ++ (textSpace.text ++ r.host)

/-- What comes behind the first line. -/
def rest (r : ProxyRequest) : List UInt8 := textCrlf.text ++ (r.second ++ r.tail)

def text (r : ProxyRequest) : List UInt8 := r.first ++ r.rest

/-- The request is cut where it should be: the lines by their ends, the words by spaces, the scheme by its colon. The
    scheme is of the length that is trimmed right, the host is found in the first line once, and the first line in
    the request. -/
structure Proper (r : ProxyRequest) : Prop where
  verb      : 32 ∉ r.verb
  scheme    : 58 ∉ r.verb ++ [32] ++ r.scheme
  long      : r.verb.length + 1 ≤ r.scheme.length
  trims     : r.scheme.take (r.scheme.length - (r.verb.length + 1)) <+: r.host ++ r.path
  host      : 32 ∉ r.host
  named     : r.host ≠ []
  once      : occurrences r.host (r.verb ++ [32] ++ (r.host ++ r.path)) = [r.verb.length + 1]
  key       : 32 ∉ r.key
  line      : ¬ textCrlf.text <:+: r.first
  nextLine  : ¬ textCrlf.text <:+: r.second
  ends      : r.tail = [] ∨ textCrlf.text <+: r.tail
  border    : BorderFree r.first
  firstOnly : ¬ r.first <:+: r.rest

variable {r : ProxyRequest}

theorem Proper.lines (h : r.Proper) : ∃ more, pieces textCrlf.text r.text = r.first :: r.second :: more := by
  have hborder : BorderFree textCrlf.text := by decide
  unfold text rest
  rw [hborder.pieces_before (by decide) _ h.line]
  rcases h.ends with htail | ⟨more, htail⟩
  · rw [htail, List.append_nil, pieces_of_absent h.nextLine]
    exact ⟨_, rfl⟩
  · rw [← htail, hborder.pieces_before (by decide) _ h.nextLine]
    exact ⟨_, rfl⟩

theorem space_not_within {c : List UInt8} (h : 32 ∉ c) : ¬ textSpace.text <:+: c := fun hinf =>
  h (hinf.subset List.mem_cons_self)

/-- Its parts. -/
theorem Proper.parts (h : r.Proper) : RequestParts r.text r.first r.second r.host r.verb.length := by
  refine ⟨h.lines, ?_, r.key, [], ?_⟩
  · unfold first requestLine
    rw [List.append_assoc]
    exact firstAt_append h.verb _
  · have hborder : BorderFree textSpace.text := by decide
    unfold second
    rw [hborder.pieces_before (by decide) _ (space_not_within h.key), pieces_of_absent (space_not_within h.host)]

end ProxyRequest

/-- `"GET http://a/x"`, with `"Host: a"` in the second line, and nothing behind it. -/
def requestGet : ProxyRequest where
  verb   := [71, 69, 84]
  scheme := [104, 116, 116, 112]
  host   := [97]
  path   := [47, 120]
  key    := [72, 111, 115, 116, 58]
  tail   := []

theorem requestGet_proper : requestGet.Proper where
  verb      := by decide
  scheme    := by decide
  long      := by decide
  trims     := by decide
  host      := by decide
  named     := by decide
  once      := by decide
  key       := by decide
  line      := by decide
  nextLine  := by decide
  ends      := by decide
  border    := by decide
  firstOnly := by decide

def textGet : CString := CString.ofText requestGet.text (by decide) (by decide)

/-- The parser comes to the end of it, and of no request without a line end. -/
theorem parseRequest_returns_iff_get :
    (parseRequest plainLibc (fun v => v.strPos + 1) 25 (.ofCString textGet)).Returns ∧
      ¬ (parseRequest plainLibc (fun v => v.strPos + 1) 25 (.ofCString lineGet)).Returns := by
  have hnext (v : ReplaceVars) : v.strPos + 1 ≠ v.strPos := by bv_omega
  have hget : (parseRequest plainLibc (fun v => v.strPos + 1) 25 (.ofCString textGet)).Returns ↔ _ :=
    parseRequest_returns_iff (by decide) (SXString.holds_ofCString textGet) (by decide) (fun v _ => hnext v)
      (by decide)
  have hline : (parseRequest plainLibc (fun v => v.strPos + 1) 25 (.ofCString lineGet)).Returns ↔ _ :=
    parseRequest_returns_iff (by decide) (SXString.holds_ofCString lineGet) (by decide) (fun v _ => hnext v)
      (by decide)
  refine ⟨hget.mpr ⟨_, _, _, _, 8, requestGet_proper.parts, ?_, by decide, by decide⟩, ?_⟩
  · exact firstAt_requestLine requestGet_proper.scheme
  · intro h
    obtain ⟨first, second, host, sp, co, hparts, _⟩ := hline.mp h
    obtain ⟨more, hlines⟩ := hparts.lines
    have hone : pieces textCrlf.text lineGet.text = [lineGet.text] := by decide
    rw [hone] at hlines
    cases hlines

end SpartanX
