import SpartanX.Strings.Search

/-!
# `Strings.Replace` — replacing the occurrences of a string in another

`SXStringByReplacingOccurrencesOfString` and `SXStringReplacingOccurrencesOfString` run one loop over a buffer of
zeros (`replaceLoop`). It keeps the next place in the buffer, the next place in the string and the index of the
next position in the vector the search returned, and ends at the length the result must have. Behind the last
position it reads beyond the vector; what it finds there is a parameter (`outside`).

For a target without border the positions not yet used are the occurrences in the rest of the string (`Reading`). As
long as an `int` can count the result, the buffer holds it for what has been read (`Replacing`). So both functions
produce the string with every occurrence replaced, and no write leaves the buffer (`replaceOccurrences_correct`).
-/

namespace SpartanX

open CInt CMemory Occurrences

/-! ## The functions -/

/-- The variables of the loop: the counters, and the buffer. -/
structure ReplaceVars where
  i      : IntT
  strPos : IntT
  n      : IntT
  buf    : Block
  deriving DecidableEq

/-- The position at index `n`, or what the memory behind the vector holds. -/
def positionAt (outside : ReplaceVars → IntT) (positions : SXVector IntT) (v : ReplaceVars) : IntT :=
  (sxVectorObjectPtrAtIndex positions v.n.toSizeT).getD (outside v)

/-- The body of the loop, with the `++i` of its head. -/
def replaceBody (outside : ReplaceVars → IntT) (string target replacement : SXString) (positions : SXVector IntT)
    (v : ReplaceVars) : Exec ReplaceVars :=
  if v.strPos = positionAt outside positions v then do
    let buf ← v.buf.memcpy v.i.toSizeT.toNat replacement.chars replacement.length
    pure { i      := (v.i.toSizeT + (replacement.length - 1)).setWidth 32 + 1
           strPos := (v.strPos.toSizeT + target.length).setWidth 32
           n      := v.n + 1
           buf    := buf }
  else do
    let ch ← string.chars.load v.strPos.toSizeT.toNat
    let buf ← v.buf.store v.i.toSizeT.toNat [ch, 0]
    pure { v with i := v.i + 1, strPos := v.strPos + 1, buf := buf }

/-- The variables behind a match, and behind a character, with what the buffer is then. -/
def ReplaceVars.pastMatch (target replacement : SXString) (v : ReplaceVars) (buf : Block) : ReplaceVars where
  i      := (v.i.toSizeT + (replacement.length - 1)).setWidth 32 + 1
  strPos := (v.strPos.toSizeT + target.length).setWidth 32
  n      := v.n + 1
  buf    := buf

def ReplaceVars.pastChar (v : ReplaceVars) (buf : Block) : ReplaceVars where
  i      := v.i + 1
  strPos := v.strPos + 1
  n      := v.n
  buf    := buf

/-- `string->length + delta * positions->count`. -/
def replaceBound (string target replacement : SXString) (positions : SXVector IntT) : SizeT :=
  let delta : IntT := replacement.length.setWidth 32 - target.length.setWidth 32
  string.length + delta.toSizeT * positions.count

/-- `string->length + replacement->length * string->length + 1`. -/
def replaceRoom (string replacement : SXString) : SizeT :=
  string.length + replacement.length * string.length + 1

/-- The search and the loop, with fuel for the loop: the buffer after it, or none if there are no positions. -/
def replaceLoop (outside : ReplaceVars → IntT) (fuel : Nat) (string target replacement : SXString) (buf : Block) :
    Exec (Option Block) := do
  let positions ← sxStringSubStringLocations string target
  let positions ← Exec.ofOption positions
  if positions.count = 0 then pure none
  else
    let v ← Exec.loop (fun v => v.i.toSizeT < replaceBound string target replacement positions)
      (replaceBody outside string target replacement positions) fuel { i := 0, strPos := 0, n := 0, buf := buf }
    pure (some v.buf)

/-- `SXStringByReplacingOccurrencesOfString`. The buffer is on the stack, where `fresh` is left in it. -/
def sxStringByReplacingOccurrencesOfString (fresh : Nat → UInt8) (outside : ReplaceVars → IntT) (fuel : Nat)
    (string target replacement : SXString) : Exec SXString := do
  let len := replaceRoom string replacement
  let buf ← Block.allocate fresh len
  let buf ← buf.memset 0 0 len
  match ← replaceLoop outside fuel string target replacement buf with
  | none     => sxCreateStringWithCString string.chars string.length
  | some buf => sxCreateStringWithCString buf len

/-- `SXStringReplacingOccurrencesOfString`: the string after it. `fresh` is what `realloc` leaves in new memory. -/
def sxStringReplacingOccurrencesOfString (fresh : Nat → UInt8) (outside : ReplaceVars → IntT) (fuel : Nat)
    (string target replacement : SXString) : Exec SXString := do
  let len := replaceRoom string replacement
  let buf ← Block.calloc len
  let buf ← buf.memset 0 0 len
  match ← replaceLoop outside fuel string target replacement buf with
  | none     => pure string
  | some buf =>
    let chars ← string.chars.realloc fresh len
    let chars ← chars.memset 0 0 len
    let chars ← chars.memcpy 0 buf len
    let length ← chars.strlen
    pure { string with length := length, chars := chars }

/-! ## The loop -/

/-- `a₁` of the string has been read and `a₂` has not, and `n` positions have been used. -/
structure Reading (s t : List UInt8) (v : ReplaceVars) (a₁ a₂ : List UInt8) (n : Nat) : Prop where
  string : s = a₁ ++ a₂
  found  : (occurrences t s).drop n = (occurrences t a₂).map (· + a₁.length)
  used   : n ≤ (occurrences t s).length
  strPos : v.strPos = BitVec.ofNat 32 a₁.length
  n      : v.n = BitVec.ofNat 32 n

/-- The invariant: `a₁` of the string has been read and `a₂` has not, `out` has been written into a buffer of
    `len` zeros, and `n` positions have been used. -/
structure Replacing (s t r : List UInt8) (len : Nat) (v : ReplaceVars) (a₁ a₂ out : List UInt8) (n : Nat) : Prop where
  string : s = a₁ ++ a₂
  result : replaceAll t r s = out ++ replaceAll t r a₂
  found  : (occurrences t s).drop n = (occurrences t a₂).map (· + a₁.length)
  used   : n ≤ (occurrences t s).length
  i      : v.i = BitVec.ofNat 32 out.length
  strPos : v.strPos = BitVec.ofNat 32 a₁.length
  n      : v.n = BitVec.ofNat 32 n
  buf    : v.buf.bytes = out ++ List.replicate (len - out.length) 0

/-- What the three strings are assumed to be. -/
structure Replaceable (s t r : List UInt8) : Prop extends Findable t s where
  replacement : r.length < 2147483648
  result      : (replaceAll t r s).length < 2147483648

section Replace

variable {s t r a₁ a₂ out : List UInt8} {string target replacement : SXString} {positions : SXVector IntT}
  {outside : ReplaceVars → IntT} {v : ReplaceVars} {n len fuel : Nat}

/-- A target that occurs is not longer than the string. -/
theorem Replaceable.length_target (h : Replaceable s t r) : t.length ≤ s.length := h.occurs.length_le

/-- The size of the buffer, which is computed in `size_t`, -/
theorem toNat_replaceRoom (hs : string.Holds s) (hr : replacement.Holds r) :
    (replaceRoom string replacement).toNat = (s.length + r.length * s.length + 1) % 18446744073709551616 := by
  have hone : (1 : SizeT).toNat = 1 := rfl
  unfold replaceRoom
  rw [BitVec.toNat_add, BitVec.toNat_add, BitVec.toNat_mul, hs.length, hr.length, hone]
  omega

/-- and for lengths that an `int` can count. -/
theorem replaceRoom_of_short (hs : string.Holds s) (hr : replacement.Holds r) (hslen : s.length < 2147483648)
    (hrlen : r.length < 2147483648) :
    (replaceRoom string replacement).toNat = s.length + r.length * s.length + 1 := by
  have hmul : r.length * s.length ≤ 2147483647 * 2147483647 :=
    Nat.mul_le_mul (Nat.le_of_lt_succ hrlen) (Nat.le_of_lt_succ hslen)
  rw [toNat_replaceRoom hs hr]
  omega

/-- The bound of the loop, if it is not negative: an `int` takes the replacement to be `R` characters long. -/
theorem replaceBound_of_nonneg {bound R : Nat} (hs : string.Holds s) (ht : target.Holds t) (hr : replacement.Holds r)
    (hpos : Positions positions (occurrences t s)) (hslen : s.length < 2147483648) (htlen : t.length < 2147483648)
    (hR : (BitVec.ofNat 32 r.length : IntT) = BitVec.ofNat 32 R) (hRlt : R < 2147483648)
    (hbound : (bound : Int) = s.length + ((R : Int) - t.length) * (occurrences t s).length)
    (hlt : bound < 18446744073709551616) :
    (replaceBound string target replacement positions).toNat = bound := by
  have hcount : positions.count = BitVec.ofNat 64 (occurrences t s).length := by
    apply BitVec.eq_of_toNat_eq
    rw [hpos.count, toNat_ofNat_of_lt (by have := length_occurrences_le t s; omega)]
  show (string.length + IntT.toSizeT (replacement.length.setWidth 32 - target.length.setWidth 32) *
    positions.count).toNat = _
  rw [hr.setWidth_length, ht.setWidth_length, hR, toSizeT_sub hRlt htlen, hcount, hs.length_eq,
    ofNat_add_ofInt_mul hbound, toNat_ofNat_of_lt hlt]

/-- The bound of the loop is the length of the result. -/
theorem replaceBound_eq (h : Replaceable s t r) (hs : string.Holds s) (ht : target.Holds t)
    (hr : replacement.Holds r) (hpos : Positions positions (occurrences t s)) :
    (replaceBound string target replacement positions).toNat = (replaceAll t r s).length := by
  have hlen := length_replaceAll h.borderFree h.nonempty r s
  have htlen := h.length_target
  have hslen := h.length
  have hresultlt := h.result
  apply replaceBound_of_nonneg hs ht hr hpos hslen (by omega) rfl h.replacement _ (by omega)
  rw [Int.sub_mul, Int.mul_comm (r.length : Int), Int.mul_comm (t.length : Int)]
  omega

/-- There is room for the result and a terminator. -/
theorem replaceRoom_eq (h : Replaceable s t r) (hs : string.Holds s) (hr : replacement.Holds r) :
    (replaceRoom string replacement).toNat = s.length + r.length * s.length + 1 :=
  replaceRoom_of_short hs hr h.length h.replacement

theorem length_replaceAll_lt (h : Replaceable s t r) :
    (replaceAll t r s).length < s.length + r.length * s.length + 1 := by
  have hlen := length_replaceAll h.borderFree h.nonempty r s
  have hcount : (occurrences t s).length * r.length ≤ s.length * r.length :=
    Nat.mul_le_mul_right _ (length_occurrences_le t s)
  rw [Nat.mul_comm s.length] at hcount
  omega

/-- At a position the body writes the replacement, -/
theorem replaceBody_replace (hr : replacement.Holds r) (hat : v.strPos = positionAt outside positions v) :
    replaceBody outside string target replacement positions v = (do
      let buf ← v.buf.store v.i.toSizeT.toNat r
      pure (v.pastMatch target replacement buf)) := by
  obtain ⟨rest, hbytes⟩ := hr.chars.2
  unfold replaceBody
  rw [if_pos hat, Block.memcpy_eq (by rw [hr.length, hbytes]; simp), hr.length, hbytes, List.take_left]
  rfl

/-- elsewhere the character and a terminator. -/
theorem replaceBody_copy {x : UInt8} (hload : string.chars.load v.strPos.toSizeT.toNat = .ok x)
    (hnot : v.strPos ≠ positionAt outside positions v) :
    replaceBody outside string target replacement positions v = (do
      let buf ← v.buf.store v.i.toSizeT.toNat [x, 0]
      pure (v.pastChar buf)) := by
  unfold replaceBody
  rw [if_neg hnot, hload]
  rfl

/-- The counter behind a match, and behind a character. -/
theorem pastMatch_i {c : Nat} (hr : replacement.Holds r) (hi : v.i = BitVec.ofNat 32 c) (hc : c < 2147483648)
    (buf : Block) : (v.pastMatch target replacement buf).i = BitVec.ofNat 32 (c + r.length) := by
  show (v.i.toSizeT + (replacement.length - 1)).setWidth 32 + 1 = _
  rw [hi, hr.length_eq, toSizeT_ofNat hc, setWidth_add_sub_one]

theorem pastChar_i {c : Nat} (hi : v.i = BitVec.ofNat 32 c) (buf : Block) :
    (v.pastChar buf).i = BitVec.ofNat 32 (c + 1) := by
  show v.i + 1 = _
  rw [hi, ofNat_add_one]

/-- The loop starts with nothing read. -/
theorem Reading.start (s t : List UInt8) (buf : Block) :
    Reading s t { i := 0, strPos := 0, n := 0, buf := buf } [] s 0 :=
  ⟨rfl, by simp, Nat.zero_le _, rfl, rfl⟩

theorem Reading.length_eq (hi : Reading s t v a₁ a₂ n) : s.length = a₁.length + a₂.length := by
  rw [hi.string, List.length_append]

/-- What is left of the string. -/
theorem Reading.unread (hi : Reading s t v a₁ a₂ n) (hlen : s.length < 2147483648) :
    s.length - v.strPos.toNat = a₂.length := by
  have hsum := hi.length_eq
  rw [hi.strPos, BitVec.toNat_ofNat]
  omega

/-- The character that is next, or the terminator. -/
theorem Reading.load (hs : string.Holds s) (hlen : s.length < 2147483648) (hi : Reading s t v a₁ a₂ n) :
    string.chars.load v.strPos.toSizeT.toNat = .ok (a₂.headD 0) := by
  obtain ⟨rest, hbytes⟩ := hs.chars.2
  have hread := hi.length_eq
  rw [hi.strPos, toNat_toSizeT_of_lt (by omega)]
  rw [hi.string, List.append_assoc] at hbytes
  cases a₂ with
  | nil         => exact Block.load_ok hbytes
  | cons x rest => exact Block.load_ok hbytes

/-- **The place in the string is the next position iff the target is found there.** -/
theorem Reading.at_position_iff (h : Findable t s) (hpos : Positions positions (occurrences t s))
    (houtside : v.n = BitVec.ofNat 32 (occurrences t s).length → outside v ≠ v.strPos)
    (hi : Reading s t v a₁ a₂ n) : v.strPos = positionAt outside positions v ↔ t <+: a₂ := by
  have hslen := h.length
  have hcount := length_occurrences_le t s
  have hused := hi.used
  have hread := hi.length_eq
  have hhead : (occurrences t s)[n]? = (occurrences t a₂).head?.map (· + a₁.length) := by
    rw [← List.head?_drop, hi.found, List.head?_map]
  unfold positionAt
  rw [hi.n, hpos.read (by omega), hhead]
  cases hrest : occurrences t a₂ with
  | nil =>
      -- all positions are used: the memory behind the vector is read
      have hn : n = (occurrences t s).length := by
        have hdrop := congrArg List.length hi.found
        rw [hrest] at hdrop
        simp only [List.length_drop, List.map_nil, List.length_nil] at hdrop
        omega
      constructor
      · intro hat
        exact absurd hat.symm (houtside (by rw [hi.n, hn]))
      · intro hpre
        exact absurd hrest ((occurrences_ne_nil_iff h.nonempty).mpr hpre.isInfix)
  | cons i rest =>
      have hmem : i ∈ occurrences t a₂ := by
        rw [hrest]
        exact List.mem_cons_self
      obtain ⟨hlt, hpre⟩ := mem_occurrences.mp hmem
      show v.strPos = BitVec.ofNat 32 (i + a₁.length) ↔ _
      rw [hi.strPos, ofNat_inj_of_lt (by omega) (by omega)]
      constructor
      · intro heq
        obtain rfl : i = 0 := by omega
        exact hpre
      · rintro ⟨a₂, rfl⟩
        rw [h.borderFree.occurrences_append h.nonempty] at hrest
        have hzero := (List.cons.inj hrest).1
        omega

/-- Behind a match, -/
theorem Reading.pastMatch (replacement : SXString) (h : Findable t s) (ht : target.Holds t)
    (hi : Reading s t v a₁ (t ++ a₂) n) (buf : Block) :
    Reading s t (v.pastMatch target replacement buf) (a₁ ++ t) a₂ (n + 1) := by
  have hocc : occurrences t (t ++ a₂) = 0 :: (occurrences t a₂).map (· + t.length) :=
    h.borderFree.occurrences_append h.nonempty a₂
  have hslen := h.length
  have hread := hi.length_eq
  rw [List.length_append] at hread
  refine ⟨?_, ?_, ?_, ?_, ?_⟩
  · rw [hi.string, List.append_assoc]
  · rw [← List.drop_drop, hi.found, hocc, List.map_cons, List.drop_one, List.tail_cons, List.map_map]
    apply List.map_congr_left
    intro i _
    simp only [Function.comp_apply, List.length_append]
    omega
  · have hdrop := congrArg List.length hi.found
    rw [hocc] at hdrop
    simp only [List.length_drop, List.length_map, List.length_cons] at hdrop
    omega
  · show (v.strPos.toSizeT + target.length).setWidth 32 = _
    rw [hi.strPos, ht.length_eq, toSizeT_ofNat (by omega), setWidth_add, List.length_append]
  · show v.n + 1 = _
    rw [hi.n, ofNat_add_one]

/-- and behind a character. -/
theorem Reading.pastChar {x : UInt8} (hmiss : ¬ t <+: x :: a₂) (hi : Reading s t v a₁ (x :: a₂) n) (buf : Block) :
    Reading s t (v.pastChar buf) (a₁ ++ [x]) a₂ n := by
  refine ⟨?_, ?_, hi.used, ?_, hi.n⟩
  · rw [hi.string, List.append_assoc, List.singleton_append]
  · rw [hi.found, occurrences_cons_miss hmiss, List.map_map]
    apply List.map_congr_left
    intro i _
    simp only [Function.comp_apply, List.length_append, List.length_singleton]
    omega
  · show v.strPos + 1 = _
    rw [hi.strPos, ofNat_add_one, List.length_append, List.length_singleton]

theorem Replacing.reading (hi : Replacing s t r len v a₁ a₂ out n) : Reading s t v a₁ a₂ n :=
  ⟨hi.string, hi.found, hi.used, hi.strPos, hi.n⟩

/-- At an occurrence the loop writes the replacement. -/
theorem replaceBody_hit (h : Replaceable s t r) (ht : target.Holds t) (hr : replacement.Holds r)
    (hpos : Positions positions (occurrences t s))
    (houtside : v.n = BitVec.ofNat 32 (occurrences t s).length → outside v ≠ v.strPos)
    (hroom : (replaceAll t r s).length < len) (hi : Replacing s t r len v a₁ (t ++ a₂) out n) :
    ∃ v', replaceBody outside string target replacement positions v = .ok v' ∧
      Replacing s t r len v' (a₁ ++ t) a₂ (out ++ r) (n + 1) := by
  have hat := (hi.reading.at_position_iff h.toFindable hpos houtside).mpr (List.prefix_append t a₂)
  have hresult : replaceAll t r s = (out ++ r) ++ replaceAll t r a₂ := by
    rw [hi.result, replaceAll_append h.nonempty, List.append_assoc]
  have hout : out.length + r.length ≤ (replaceAll t r s).length := by
    rw [hresult, List.length_append, List.length_append]
    omega
  have hresultlt := h.result
  have hsplit : v.buf.bytes = out ++ List.replicate r.length 0 ++ List.replicate (len - (out ++ r).length) 0 := by
    rw [hi.buf, List.append_assoc, List.replicate_append_replicate, List.length_append]
    congr 2
    omega
  obtain ⟨buf, hstore, hbuf⟩ := Block.store_append r hsplit (by simp)
  obtain ⟨hstring, hfound, hused, hstrPos, hn⟩ :=
    hi.reading.pastMatch replacement h.toFindable ht buf
  refine ⟨v.pastMatch target replacement buf, ?_, hstring, hresult, hfound, hused, ?_, hstrPos, hn, hbuf⟩
  · rw [replaceBody_replace hr hat, hi.i, toNat_toSizeT_of_lt (by omega), hstore]
    rfl
  · rw [pastMatch_i hr hi.i (by omega), List.length_append]

/-- Elsewhere it copies the character. -/
theorem replaceBody_miss {x : UInt8} (h : Replaceable s t r) (hs : string.Holds s)
    (hpos : Positions positions (occurrences t s))
    (houtside : v.n = BitVec.ofNat 32 (occurrences t s).length → outside v ≠ v.strPos)
    (hroom : (replaceAll t r s).length < len) (hmiss : ¬ t <+: x :: a₂)
    (hi : Replacing s t r len v a₁ (x :: a₂) out n) :
    ∃ v', replaceBody outside string target replacement positions v = .ok v' ∧
      Replacing s t r len v' (a₁ ++ [x]) a₂ (out ++ [x]) n := by
  have hresultlt := h.result
  have hnot := mt (hi.reading.at_position_iff h.toFindable hpos houtside).mp hmiss
  have hload := hi.reading.load hs h.length
  have hresult : replaceAll t r s = (out ++ [x]) ++ replaceAll t r a₂ := by
    rw [hi.result, replaceAll_cons h.nonempty r hmiss, List.append_assoc, List.singleton_append]
  have hout : out.length + 1 ≤ (replaceAll t r s).length := by
    rw [hresult, List.length_append, List.length_append, List.length_singleton]
    omega
  have hsplit : v.buf.bytes = out ++ [0, 0] ++ List.replicate (len - (out.length + 2)) 0 := by
    have hzeros : len - out.length = (len - (out.length + 2)) + 1 + 1 := by omega
    rw [hi.buf, hzeros, List.replicate_succ, List.replicate_succ]
    simp
  obtain ⟨buf, hstore, hbuf⟩ := Block.store_append [x, 0] hsplit rfl
  obtain ⟨hstring, hfound, hused, hstrPos, hn⟩ := hi.reading.pastChar hmiss buf
  refine ⟨v.pastChar buf, ?_, hstring, hresult, hfound, hused, ?_, hstrPos, hn, ?_⟩
  · rw [replaceBody_copy hload hnot, hi.i, toNat_toSizeT_of_lt (by omega), List.headD_cons, hstore]
    rfl
  · rw [pastChar_i hi.i, List.length_append, List.length_singleton]
  · have hzeros : len - (out ++ [x]).length = (len - (out.length + 2)) + 1 := by
      rw [List.length_append, List.length_singleton]
      omega
    show buf.bytes = _
    rw [hbuf, hzeros, List.replicate_succ]
    simp

/-- The loop goes on iff there is something left to write. -/
theorem replace_guard_iff (h : Replaceable s t r) (hs : string.Holds s) (ht : target.Holds t)
    (hr : replacement.Holds r) (hpos : Positions positions (occurrences t s))
    (hi : Replacing s t r len v a₁ a₂ out n) :
    decide (v.i.toSizeT < replaceBound string target replacement positions) = true ↔ replaceAll t r a₂ ≠ [] := by
  have hresult := h.result
  have hsum := congrArg List.length hi.result
  rw [List.length_append] at hsum
  rw [decide_eq_true_eq, BitVec.lt_def, replaceBound_eq h hs ht hr hpos, hi.i, toNat_toSizeT_of_lt (by omega),
    ← List.length_pos_iff]
  omega

/-- Every iteration keeps the invariant and reads some of the string. -/
theorem replaceBody_ok (h : Replaceable s t r) (hs : string.Holds s) (ht : target.Holds t) (hr : replacement.Holds r)
    (hpos : Positions positions (occurrences t s))
    (houtside : ∀ v, v.n = BitVec.ofNat 32 (occurrences t s).length → outside v ≠ v.strPos)
    (hroom : (replaceAll t r s).length < len) (v : ReplaceVars)
    (hi : ∃ a₁ a₂ out n, Replacing s t r len v a₁ a₂ out n)
    (hg : decide (v.i.toSizeT < replaceBound string target replacement positions) = true) :
    ∃ v', replaceBody outside string target replacement positions v = .ok v' ∧
      (∃ a₁ a₂ out n, Replacing s t r len v' a₁ a₂ out n) ∧
      s.length - v'.strPos.toNat < s.length - v.strPos.toNat := by
  obtain ⟨a₁, a₂, out, n, hi⟩ := hi
  cases a₂ with
  | nil => exact absurd (replaceAll_nil t r) ((replace_guard_iff h hs ht hr hpos hi).mp hg)
  | cons x a₂ =>
      by_cases hhit : t <+: x :: a₂
      · obtain ⟨rest, hrest⟩ := hhit
        rw [← hrest] at hi
        obtain ⟨v', hbody, hi'⟩ := replaceBody_hit h ht hr hpos (houtside v) hroom hi
        refine ⟨v', hbody, ⟨_, _, _, _, hi'⟩, ?_⟩
        have htpos := List.length_pos_of_ne_nil h.nonempty
        rw [hi.reading.unread h.length, hi'.reading.unread h.length, List.length_append]
        omega
      · obtain ⟨v', hbody, hi'⟩ := replaceBody_miss h hs hpos (houtside v) hroom hhit hi
        refine ⟨v', hbody, ⟨_, _, _, _, hi'⟩, ?_⟩
        rw [hi.reading.unread h.length, hi'.reading.unread h.length, List.length_cons]
        omega

/-- The buffer stays as large as it is. -/
theorem length_of_replaceLoop {buf buf' : Block}
    (h : replaceLoop outside fuel string target replacement buf = .ok (some buf')) :
    buf'.bytes.length = buf.bytes.length := by
  unfold replaceLoop at h
  obtain ⟨_, _, h⟩ := Exec.bind_eq_ok.mp h
  obtain ⟨positions, _, h⟩ := Exec.bind_eq_ok.mp h
  split at h
  · cases h
  · obtain ⟨v, hv, hret⟩ := Exec.bind_eq_ok.mp h
    obtain rfl := Option.some.inj (Exec.ok.inj hret)
    refine (Exec.loop_keeps (I := fun v => v.buf.bytes.length = buf.bytes.length) ?_ rfl hv).1
    intro v v' hlen _ hbody
    rw [← hlen]
    unfold replaceBody at hbody
    split at hbody
    · obtain ⟨buf₁, hcopy, hret⟩ := Exec.bind_eq_ok.mp hbody
      obtain rfl := Exec.ok.inj hret
      exact Block.length_memcpy hcopy
    · obtain ⟨ch, _, hrest⟩ := Exec.bind_eq_ok.mp hbody
      obtain ⟨buf₁, hstore, hret⟩ := Exec.bind_eq_ok.mp hrest
      obtain rfl := Exec.ok.inj hret
      exact Block.length_store hstore

/-- Behind a search that finds positions, what is left is the loop. -/
theorem replaceLoop_of_search (hsearch : sxStringSubStringLocations string target = .ok (some positions))
    (hpos : Positions positions (occurrences t s)) (hsome : 0 < (occurrences t s).length) (replacement : SXString)
    (outside : ReplaceVars → IntT) (fuel : Nat) (buf : Block) :
    replaceLoop outside fuel string target replacement buf = (do
      let v ← Exec.loop (fun v => v.i.toSizeT < replaceBound string target replacement positions)
        (replaceBody outside string target replacement positions) fuel { i := 0, strPos := 0, n := 0, buf := buf }
      pure (some v.buf)) := by
  have hcount : positions.count ≠ 0 := by
    intro hzero
    have hlists := hpos.count
    rw [hzero] at hlists
    exact absurd hlists hsome.ne
  unfold replaceLoop
  rw [hsearch, Exec.ok_bind, Exec.ofOption_some, Exec.ok_bind, if_neg hcount]

/-- The search finds the target. -/
theorem replaceLoop_eq (h : Searched s t) (hs : string.Holds s) (ht : target.Holds t) :
    ∃ positions, Positions positions (occurrences t s) ∧ ∀ replacement outside fuel buf,
      replaceLoop outside fuel string target replacement buf = (do
        let v ← Exec.loop (fun v => v.i.toSizeT < replaceBound string target replacement positions)
          (replaceBody outside string target replacement positions) fuel { i := 0, strPos := 0, n := 0, buf := buf }
        pure (some v.buf)) := by
  obtain ⟨positions, hsearch, hpos, hsome⟩ := h.search hs ht
  exact ⟨positions, hpos, replaceLoop_of_search hsearch hpos hsome⟩

/-- What the loop has left in a buffer of zeros, the function that returns a new string makes it of. -/
theorem ran_of_new {fresh : Nat → UInt8} {s' : SXString} (h : Searched s t) (hs : string.Holds s)
    (ht : target.Holds t)
    (hcall : sxStringByReplacingOccurrencesOfString fresh outside fuel string target replacement = .ok s') :
    ∃ buf buf' : Block, buf.bytes = List.replicate (replaceRoom string replacement).toNat 0 ∧
      replaceLoop outside fuel string target replacement buf = .ok (some buf') ∧
      sxCreateStringWithCString buf' (replaceRoom string replacement) = .ok s' := by
  unfold sxStringByReplacingOccurrencesOfString at hcall
  dsimp only at hcall
  obtain ⟨buf, halloc, hcall⟩ := Exec.bind_eq_ok.mp hcall
  obtain ⟨buf₁, hset, hzero⟩ := Block.memset_all 0 (Block.length_allocate halloc)
  rw [hset, Exec.ok_bind] at hcall
  obtain ⟨found, hrun, hcreate⟩ := Exec.bind_eq_ok.mp hcall
  cases found with
  | none =>
      obtain ⟨positions, _, hloop⟩ := replaceLoop_eq h hs ht
      rw [hloop] at hrun
      obtain ⟨v, _, hret⟩ := Exec.bind_eq_ok.mp hrun
      cases hret
  | some buf₂ => exact ⟨buf₁, buf₂, hzero, hrun, hcreate⟩

/-- **The loop ends with the result in the buffer**, followed by zeros. -/
theorem replaceLoop_ok {buf : Block} (h : Replaceable s t r) (hs : string.Holds s) (ht : target.Holds t)
    (hr : replacement.Holds r)
    (houtside : ∀ v, v.n = BitVec.ofNat 32 (occurrences t s).length → outside v ≠ v.strPos)
    (hroom : (replaceAll t r s).length < len) (hbuf : buf.bytes = List.replicate len 0) (hfuel : s.length ≤ fuel) :
    ∃ buf', replaceLoop outside fuel string target replacement buf = .ok (some buf') ∧
      buf'.bytes = replaceAll t r s ++ List.replicate (len - (replaceAll t r s).length) 0 := by
  obtain ⟨positions, hpos, hloop⟩ := replaceLoop_eq h.toSearched hs ht
  have hstart : Replacing s t r len { i := 0, strPos := 0, n := 0, buf := buf } [] s [] 0 :=
    ⟨rfl, rfl, by simp, Nat.zero_le _, rfl, rfl, rfl, hbuf⟩
  obtain ⟨v, hv, ⟨a₁, a₂, out, n, hi⟩, hend⟩ :=
    Exec.loop_ok (replaceBody_ok h hs ht hr hpos houtside hroom) ⟨[], s, [], 0, hstart⟩
      (show s.length - _ ≤ fuel by omega)
  have hdone : replaceAll t r a₂ = [] := by
    by_contra hne
    rw [(replace_guard_iff h hs ht hr hpos hi).mpr hne] at hend
    cases hend
  have hout : out = replaceAll t r s := by rw [hi.result, hdone, List.append_nil]
  refine ⟨v.buf, ?_, ?_⟩
  · rw [hloop, hv]
    rfl
  · rw [hi.buf, hout]

/-- The buffer then holds the result. -/
theorem holds_replaceAll {buf : Block} (h : Replaceable s t r) (hs : string.Holds s) (hr : replacement.Holds r)
    (hroom : (replaceAll t r s).length < len)
    (hbuf : buf.bytes = replaceAll t r s ++ List.replicate (len - (replaceAll t r s).length) 0) :
    buf.Holds (replaceAll t r s) := by
  have hzeros : len - (replaceAll t r s).length = (len - (replaceAll t r s).length - 1) + 1 := by omega
  refine ⟨?_, List.replicate (len - (replaceAll t r s).length - 1) 0, ?_⟩
  · intro hnul
    rcases mem_of_mem_replaceAll h.nonempty hnul with hmem | hmem
    · exact hr.chars.1 hmem
    · exact hs.chars.1 hmem
  · rw [hbuf, hzeros, List.replicate_succ]
    simp

/-! ## Results -/

/-- The size of the buffer is one that an object can have. -/
theorem replaceRoom_fits (h : Replaceable s t r) (hs : string.Holds s) (hr : replacement.Holds r) :
    (replaceRoom string replacement).toNat < 9223372036854775808 := by
  have hmul : r.length * s.length ≤ 2147483647 * 2147483647 :=
    Nat.mul_le_mul (Nat.le_of_lt_succ h.replacement) (Nat.le_of_lt_succ h.length)
  have hslen := h.length
  rw [replaceRoom_eq h hs hr]
  omega

/-- **Both functions return what the loop leaves in the buffer.** -/
theorem replaceOccurrences_of_loop {c : List UInt8} {fresh : Nat → UInt8}
    (hfits : (replaceRoom string replacement).toNat < 9223372036854775808)
    (hloop : ∀ buf : Block, buf.bytes = List.replicate (replaceRoom string replacement).toNat 0 →
      ∃ buf', replaceLoop outside fuel string target replacement buf = .ok (some buf') ∧ buf'.Holds c) :
    (∃ s', sxStringByReplacingOccurrencesOfString fresh outside fuel string target replacement = .ok s' ∧
        s'.Holds c) ∧
      ∃ s', sxStringReplacingOccurrencesOfString fresh outside fuel string target replacement = .ok s' ∧
        s'.Holds c := by
  constructor
  · obtain ⟨buf, halloc, hbytes⟩ := Block.allocate_ok fresh hfits
    obtain ⟨buf₁, hset, hzero⟩ := Block.memset_all (b := buf) 0 (n := replaceRoom string replacement)
      (by simp [hbytes])
    obtain ⟨buf₂, hrun, hholds⟩ := hloop buf₁ hzero
    have hlen : buf₂.bytes.length = (replaceRoom string replacement).toNat := by
      rw [length_of_replaceLoop hrun, hzero, List.length_replicate]
    obtain ⟨s', hcreate, hcreated⟩ := sxCreateStringWithCString_ok hholds (replaceRoom string replacement)
    have hle := hholds.length_lt
    refine ⟨s', ?_, hcreated.holds hholds.1 (by omega)⟩
    unfold sxStringByReplacingOccurrencesOfString
    dsimp only
    rw [halloc, Exec.ok_bind, hset, Exec.ok_bind, hrun, Exec.ok_bind]
    exact hcreate
  · obtain ⟨buf, halloc, hbytes⟩ := Block.calloc_ok hfits
    obtain ⟨buf₁, hset, hzero⟩ := Block.memset_all (b := buf) 0 (n := replaceRoom string replacement)
      (by simp [hbytes])
    obtain ⟨buf₂, hrun, hholds⟩ := hloop buf₁ hzero
    have hlen : buf₂.bytes.length = (replaceRoom string replacement).toNat := by
      rw [length_of_replaceLoop hrun, hzero, List.length_replicate]
    obtain ⟨chars, hrealloc, hchars⟩ := Block.realloc_ok fresh string.chars hfits
    obtain ⟨chars₁, hset₁, hzero₁⟩ := Block.memset_all (b := chars) 0 (n := replaceRoom string replacement) (by
      rw [hchars]
      simp only [List.length_append, List.length_take, List.length_map, List.length_range]
      omega)
    obtain ⟨chars₂, hcopy, hchars₂⟩ := Block.memcpy_all (b := chars₁) buf₂ (n := replaceRoom string replacement)
      (by rw [hzero₁, List.length_replicate]) hlen
    have hholds₂ : chars₂.Holds c := by
      obtain ⟨hnul, rest, hrest⟩ := hholds
      exact ⟨hnul, rest, hchars₂.trans hrest⟩
    have hmax := hholds.length_lt_max
    refine ⟨{ string with length := BitVec.ofNat 64 c.length, chars := chars₂ }, ?_, ?_, hholds₂⟩
    · unfold sxStringReplacingOccurrencesOfString
      dsimp only
      rw [halloc, Exec.ok_bind, hset, Exec.ok_bind, hrun, Exec.ok_bind]
      dsimp only
      rw [hrealloc, Exec.ok_bind, hset₁, Exec.ok_bind, hcopy, Exec.ok_bind, Block.strlen_of_holds hholds₂]
      rfl
    · exact toNat_ofNat_of_lt (by omega)

/-- For a result that an `int` can count they return the result. -/
theorem replaceOccurrences_ok (fresh : Nat → UInt8) (h : Replaceable s t r) (hs : string.Holds s)
    (ht : target.Holds t) (hr : replacement.Holds r)
    (houtside : ∀ v, v.n = BitVec.ofNat 32 (occurrences t s).length → outside v ≠ v.strPos)
    (hfuel : s.length ≤ fuel) :
    (∃ s', sxStringByReplacingOccurrencesOfString fresh outside fuel string target replacement = .ok s' ∧
        s'.Holds (replaceAll t r s)) ∧
      ∃ s', sxStringReplacingOccurrencesOfString fresh outside fuel string target replacement = .ok s' ∧
        s'.Holds (replaceAll t r s) := by
  have hlt := length_replaceAll_lt h
  rw [← replaceRoom_eq h hs hr] at hlt
  apply replaceOccurrences_of_loop (replaceRoom_fits h hs hr)
  intro buf hzero
  obtain ⟨buf', hrun, hbuf⟩ := replaceLoop_ok h hs ht hr houtside hlt hzero hfuel
  exact ⟨buf', hrun, holds_replaceAll h hs hr hlt hbuf⟩

/-- **Replacement is right for targets without border.** Both functions return, one with a new string and one
    with the string changed, which is the string with each of the `k` occurrences of the target replaced; its
    length is that of the string plus `k` times that of the replacement minus `k` times that of the target. The
    buffer, outside of which no write falls, has `|s| + |r| * |s| + 1` bytes. -/
theorem replaceOccurrences_correct (fresh : Nat → UInt8) (h : Replaceable s t r) (hs : string.Holds s)
    (ht : target.Holds t) (hr : replacement.Holds r)
    (houtside : ∀ v, v.n = BitVec.ofNat 32 (occurrences t s).length → outside v ≠ v.strPos)
    (hfuel : s.length ≤ fuel) :
    (∃ s', sxStringByReplacingOccurrencesOfString fresh outside fuel string target replacement = .ok s' ∧
        s'.Holds (replaceAll t r s)) ∧
      (∃ s', sxStringReplacingOccurrencesOfString fresh outside fuel string target replacement = .ok s' ∧
        s'.Holds (replaceAll t r s)) ∧
      (pieces t s).length = (occurrences t s).length + 1 ∧
      ((replaceAll t r s).length : Int) =
        s.length + (occurrences t s).length * r.length - (occurrences t s).length * t.length ∧
      (replaceRoom string replacement).toNat = s.length + r.length * s.length + 1 := by
  have hlen := length_replaceAll h.borderFree h.nonempty r s
  obtain ⟨hnew, hchanged⟩ := replaceOccurrences_ok fresh h hs ht hr houtside hfuel
  exact ⟨hnew, hchanged, length_pieces h.borderFree h.nonempty s, by omega, replaceRoom_eq h hs hr⟩

end Replace

/-- The strings `"axbx"` and `"x"` as arguments. -/
def textAxbx : CString := CString.ofText [97, 120, 98, 120] (by decide) (by decide)
def textX    : CString := CString.ofText [120] (by decide) (by decide)

/-- Replacing `"x"` in `"axbx"` by nothing, an occurrence at the end included. -/
theorem replaceOccurrences_correct_blank :
    (∃ s, sxStringByReplacingOccurrencesOfString (fun _ => 7) (fun v => v.strPos + 1) 4 (.ofCString textAxbx)
        (.ofCString textX) (.ofCString CString.empty) = .ok s ∧ s.Holds [97, 98]) ∧
      ∃ s, sxStringReplacingOccurrencesOfString (fun _ => 7) (fun v => v.strPos + 1) 4 (.ofCString textAxbx)
        (.ofCString textX) (.ofCString CString.empty) = .ok s ∧ s.Holds [97, 98] := by
  have h : Replaceable [97, 120, 98, 120] [120] [] :=
    { nonempty := by decide, borderFree := by decide, occurs := by decide, length := by decide,
      replacement := by decide, result := by decide }
  have hnext (v : ReplaceVars) (_ : v.n = BitVec.ofNat 32 (occurrences [120] [97, 120, 98, 120]).length) :
      v.strPos + 1 ≠ v.strPos := by
    bv_omega
  obtain ⟨hnew, hchanged, _⟩ := replaceOccurrences_correct (fun _ => 7) h (SXString.holds_ofCString textAxbx)
    (SXString.holds_ofCString textX) (SXString.holds_ofCString CString.empty) hnext
    (show ([97, 120, 98, 120] : List UInt8).length ≤ 4 by decide)
  exact ⟨hnew, hchanged⟩

end SpartanX
