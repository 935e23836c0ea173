import SpartanX.Strings.Replace

/-!
# `Strings.Course` — how the replacement loop goes through the string, for any target

A target that overlaps itself has more positions than the loop takes for matches: behind the first overlap the index
of the next position stands still, and whatever comes next is copied. Without an overlap the loop gets to the end of
the positions. It goes on behind them until its guard fails, and what it does there depends on what the memory behind
the vector holds.

So the loop is before a position that it takes, has passed over one, or is behind the last match (`Phase`), and what
it has written and where it is in the string comes from the numbers of characters and of matches (`Tracks`). Both say
nothing of the string's memory: `Tracks.load_lt` tells where an iteration that succeeds has read it.

## Contents
- **The loop.** `replaceGuard`, `positionAt_lt`, `positionAt_ge`, `replaceBody_cases`.
- **Overlaps.** `taken`, `lastEnd`; `mul_le_cutStart`.
- **Where the loop is.** `Tracks`, `Phase`; `Phase.pastMatch`, `Phase.pastChar`.
-/

namespace SpartanX

open CInt CMemory Occurrences

/-! ## The loop -/

/-- The guard of the loop. -/
def replaceGuard (string target replacement : SXString) (positions : SXVector IntT) (v : ReplaceVars) : Bool :=
  v.i.toSizeT < replaceBound string target replacement positions

/-- The variables before the first iteration. -/
def ReplaceVars.start (buf : Block) : ReplaceVars := { i := 0, strPos := 0, n := 0, buf := buf }

/-- A target that occurs, and a replacement whose length an `int` can count. -/
structure Counted (s t r : List UInt8) : Prop extends Searched s t where
  replacement : r.length < 2147483648

section Loop

variable {s t r : List UInt8} {string target replacement : SXString} {positions : SXVector IntT}
  {outside : ReplaceVars → IntT} {v v' : ReplaceVars} {n : Nat}

/-- The position that is read while there are positions left. -/
theorem positionAt_lt (outside : ReplaceVars → IntT) (hpos : Positions positions (occurrences t s))
    (hint : s.length < 2147483648) (hn : v.n = BitVec.ofNat 32 n) (hlt : n < (occurrences t s).length) :
    positionAt outside positions v = BitVec.ofNat 32 ((occurrences t s)[n]) := by
  have hcount := length_occurrences_le t s
  unfold positionAt
  rw [hn, hpos.read (by omega), List.getElem?_eq_getElem hlt]
  rfl

/-- What is read when there are none left, also where the index has overflowed. -/
theorem positionAt_ge (outside : ReplaceVars → IntT) (hpos : Positions positions (occurrences t s))
    (hn : v.n = BitVec.ofNat 32 n) (hge : (occurrences t s).length ≤ n) (hlt : n < 4294967296) :
    positionAt outside positions v = outside v := by
  have hslots : positions.slots.length = (occurrences t s).length := by
    rw [hpos.lists.slots, List.length_map, List.length_map]
  have hplace : (occurrences t s).length ≤ positions.place v.n.toSizeT := by
    have hfour : sizeofInt.toNat = 4 := rfl
    unfold SXVector.place placeOf
    rw [hpos.osize, BitVec.toNat_mul, hfour, hn, toNat_toSizeT_ofNat hlt]
    split <;> omega
  unfold positionAt sxVectorObjectPtrAtIndex
  rw [List.getElem?_eq_none (hslots ▸ hplace)]
  rfl

/-- The character that is read at a place inside the memory of the string. -/
theorem load_of_place (string : SXString) {x : Nat} (hplace : v.strPos = BitVec.ofNat 32 x) (hint : x < 2147483648)
    (hlt : x < string.chars.bytes.length) : ∃ ch, string.chars.load v.strPos.toSizeT.toNat = .ok ch := by
  unfold Block.load
  rw [hplace, toNat_toSizeT_of_lt hint, List.getElem?_eq_getElem hlt]
  exact ⟨_, rfl⟩

/-- What an iteration has done where it has succeeded. -/
theorem replaceBody_cases (hr : replacement.Holds r)
    (h : replaceBody outside string target replacement positions v = .ok v') :
    (v.strPos = positionAt outside positions v ∧
        ∃ buf, v.buf.store v.i.toSizeT.toNat r = .ok buf ∧ v' = v.pastMatch target replacement buf) ∨
      (v.strPos ≠ positionAt outside positions v ∧
        ∃ x buf, string.chars.load v.strPos.toSizeT.toNat = .ok x ∧
          v.buf.store v.i.toSizeT.toNat [x, 0] = .ok buf ∧ v' = v.pastChar buf) := by
  by_cases hat : v.strPos = positionAt outside positions v
  · rw [replaceBody_replace hr hat] at h
    obtain ⟨buf, hstore, hret⟩ := Exec.bind_eq_ok.mp h
    exact .inl ⟨hat, buf, hstore, (Exec.ok.inj hret).symm⟩
  · unfold replaceBody at h
    rw [if_neg hat] at h
    obtain ⟨x, hload, hrest⟩ := Exec.bind_eq_ok.mp h
    obtain ⟨buf, hstore, hret⟩ := Exec.bind_eq_ok.mp hrest
    exact .inr ⟨hat, x, buf, hload, hstore, (Exec.ok.inj hret).symm⟩

end Loop

/-! ## Overlaps -/

/-- How many positions are taken for matches: those before the first that lies inside the match in front of it. -/
def taken (s t : List UInt8) : Nat :=
  (List.range (occurrences t s).length).findIdx fun i =>
    cutEnd s (occurrences t s) i < cutStart t (occurrences t s) i

/-- Where the last match ends. -/
def lastEnd (s t : List UInt8) : Nat := cutStart t (occurrences t s) (occurrences t s).length

section Overlaps

variable {s t : List UInt8} {i : Nat}

theorem taken_le (s t : List UInt8) : taken s t ≤ (occurrences t s).length := by
  have hle : taken s t ≤ (List.range (occurrences t s).length).length := List.findIdx_le_length
  rwa [List.length_range] at hle

/-- The positions that are taken lie behind the matches in front of them, -/
theorem apart_of_lt_taken (hi : i < taken s t) :
    cutStart t (occurrences t s) i ≤ cutEnd s (occurrences t s) i := by
  have hnot := List.not_of_lt_findIdx hi
  rw [List.getElem_range] at hnot
  exact Nat.not_lt.mp (of_decide_eq_false hnot)

/-- and the first that is not does not. -/
theorem overlap_of_taken_lt (h : taken s t < (occurrences t s).length) :
    cutEnd s (occurrences t s) (taken s t) < cutStart t (occurrences t s) (taken s t) := by
  have hindex : taken s t < (List.range (occurrences t s).length).length := by rwa [List.length_range]
  unfold taken at hindex
  have hover := List.findIdx_getElem (w := hindex)
  rw [List.getElem_range] at hover
  exact of_decide_eq_true hover

/-- The first position is taken. -/
theorem taken_pos (h : Searched s t) : 0 < taken s t := by
  rcases Nat.eq_zero_or_pos (taken s t) with hzero | hpos
  · have hsome := List.length_pos_of_ne_nil ((occurrences_ne_nil_iff h.nonempty).mpr h.occurs)
    have hover := overlap_of_taken_lt (s := s) (t := t) (by omega)
    rw [hzero] at hover
    exact absurd hover (Nat.not_lt_zero _)
  · exact hpos

/-- Matches that do not overlap lie behind each other. -/
theorem cutStart_add_mul_le (j : Nat) : ∀ d, j + d ≤ (occurrences t s).length →
    (∀ i < j + d, cutStart t (occurrences t s) i ≤ cutEnd s (occurrences t s) i) →
      cutStart t (occurrences t s) j + t.length * d ≤ cutStart t (occurrences t s) (j + d) := by
  intro d
  induction d with
  | zero =>
      intro _ _
      exact Nat.le_refl _
  | succ d ih =>
      intro hj hapart
      have hbefore := ih (by omega) fun i hi => hapart i (by omega)
      have hnext := hapart (j + d) (Nat.lt_succ_self _)
      rw [← Nat.add_assoc, cutStart_succ_of_lt (i := j + d) hj, Nat.mul_succ]
      omega

/-- The first `j` of them end at least `j` lengths of the target into the string, -/
theorem mul_le_cutStart (j : Nat) (hj : j ≤ (occurrences t s).length)
    (hapart : ∀ i < j, cutStart t (occurrences t s) i ≤ cutEnd s (occurrences t s) i) :
    t.length * j ≤ cutStart t (occurrences t s) j := by
  have hcuts := cutStart_add_mul_le (s := s) (t := t) 0 j (by omega) (by rwa [Nat.zero_add])
  rw [Nat.zero_add] at hcuts
  omega

/-- and all of them end at least as many lengths behind where one begins as there are from that one on. -/
theorem cutEnd_add_mul_le {n : Nat} (hn : n < (occurrences t s).length)
    (hall : taken s t = (occurrences t s).length) :
    cutEnd s (occurrences t s) n + t.length * ((occurrences t s).length - n) ≤ lastEnd s t := by
  have hbehind := cutStart_add_mul_le (s := s) (t := t) (n + 1) ((occurrences t s).length - (n + 1)) (by omega)
    fun i hi => apart_of_lt_taken (by omega)
  have hsplit : (occurrences t s).length - n = (occurrences t s).length - (n + 1) + 1 := by omega
  rw [cutStart_succ_of_lt hn, Nat.add_sub_cancel' hn] at hbehind
  rw [hsplit, Nat.mul_succ]
  unfold lastEnd
  omega

end Overlaps

/-! ## Where the loop is -/

/-- `m` characters have been copied, and `n` replacements written. -/
structure Tracks (t r : List UInt8) (len : Nat) (v : ReplaceVars) (m n : Nat) : Prop where
  i      : v.i = BitVec.ofNat 32 (m + r.length * n)
  strPos : v.strPos = BitVec.ofNat 32 (m + t.length * n)
  n      : v.n = BitVec.ofNat 32 n
  buf    : v.buf.bytes.length = len

/-- What the loop is at then: it comes to the next position that it takes, or has passed over one that it does not, or
    is behind the last match. What it may have made of the memory behind the positions is a parameter. -/
inductive Phase (s t : List UInt8) (Made : Nat → Nat → Prop) (m n : Nat) : Prop
  | before (hn : n < taken s t) (hstart : cutStart t (occurrences t s) n ≤ m + t.length * n)
      (hend : m + t.length * n ≤ cutEnd s (occurrences t s) n)
  | past (hn : n = taken s t) (hlt : n < (occurrences t s).length)
      (hpast : cutEnd s (occurrences t s) n < m + t.length * n)
  | behind (hall : taken s t = (occurrences t s).length) (hn : (occurrences t s).length ≤ n) (hmade : Made m n)

section Phase

variable {s t r : List UInt8} {string target replacement : SXString} {positions : SXVector IntT}
  {outside : ReplaceVars → IntT} {v : ReplaceVars} {m n len : Nat} {Made : Nat → Nat → Prop}

theorem Tracks.start {buf : Block} (hbuf : buf.bytes.length = len) : Tracks t r len (.start buf) 0 0 :=
  ⟨rfl, rfl, rfl, hbuf⟩

theorem Phase.start (h : Searched s t) : Phase s t Made 0 0 := by
  refine .before (taken_pos h) (Nat.le_refl _) ?_
  rw [Nat.mul_zero]
  exact Nat.zero_le _

/-- A replacement has been written. -/
theorem Tracks.pastMatch {buf : Block} (ht : target.Holds t) (hr : replacement.Holds r)
    (hi : Tracks t r len v m n) (hcount : m + r.length * n < 2147483648) (hplace : m + t.length * n < 2147483648)
    (hbuf : buf.bytes.length = len) : Tracks t r len (v.pastMatch target replacement buf) m (n + 1) := by
  refine ⟨?_, ?_, ?_, hbuf⟩
  · rw [pastMatch_i hr hi.i hcount, Nat.mul_succ, Nat.add_assoc]
  · show (v.strPos.toSizeT + target.length).setWidth 32 = _
    rw [hi.strPos, ht.length_eq, toSizeT_ofNat hplace, setWidth_add, Nat.mul_succ, Nat.add_assoc]
  · show v.n + 1 = _
    rw [hi.n, ofNat_add_one]

/-- A character has been copied. -/
theorem Tracks.pastChar {buf : Block} (hi : Tracks t r len v m n) (hbuf : buf.bytes.length = len) :
    Tracks t r len (v.pastChar buf) (m + 1) n := by
  have hsum (k : Nat) : m + 1 + k = m + k + 1 := by omega
  refine ⟨?_, ?_, hi.n, hbuf⟩
  · rw [pastChar_i hi.i, hsum]
  · show v.strPos + 1 = _
    rw [hi.strPos, ofNat_add_one, hsum]

/-- There is a position left, and the loop is at a match iff it has come to it. -/
theorem Tracks.match_iff (outside : ReplaceVars → IntT) (h : Searched s t)
    (hpos : Positions positions (occurrences t s)) (hi : Tracks t r len v m n)
    (hplace : m + t.length * n < 4294967296) (hn : n < (occurrences t s).length) :
    v.strPos = positionAt outside positions v ↔ m + t.length * n = cutEnd s (occurrences t s) n := by
  have hslen := h.length
  have hfits := cutEnd_fits hn
  rw [positionAt_lt outside hpos h.length hi.n hn, hi.strPos, ← cutEnd_of_lt hn,
    ofNat_inj_of_lt hplace (by omega)]

/-- There is none left, and it is at a match iff the memory behind them says so. -/
theorem Tracks.match_behind_iff (h : Searched s t) (hpos : Positions positions (occurrences t s))
    (hi : Tracks t r len v m n) (hplace : m + t.length * n < 4294967296) (hn : (occurrences t s).length ≤ n) :
    v.strPos = positionAt outside positions v ↔ v.strPos = outside v := by
  have hle : 1 * n ≤ t.length * n := Nat.mul_le_mul_right n (List.length_pos_of_ne_nil h.nonempty)
  rw [positionAt_ge outside hpos hi.n hn (by omega)]

/-- **Behind a match.** -/
theorem Phase.pastMatch (h : Searched s t) (hpos : Positions positions (occurrences t s))
    (hphase : Phase s t Made m n) (hi : Tracks t r len v m n) (hplace : m + t.length * n < 4294967296)
    (hat : v.strPos = positionAt outside positions v)
    (hlast : taken s t = (occurrences t s).length → m + t.length * (occurrences t s).length = lastEnd s t →
      Made m (occurrences t s).length)
    (hmore : (occurrences t s).length ≤ n → Made m n → v.strPos = outside v → Made m (n + 1)) :
    Phase s t Made m (n + 1) := by
  have hle := taken_le s t
  cases hphase with
  | before hn hstart hend =>
      have hlt : n < (occurrences t s).length := by omega
      have hcome := (hi.match_iff outside h hpos hplace hlt).mp hat
      have hnext : cutStart t (occurrences t s) (n + 1) = m + t.length * (n + 1) := by
        rw [cutStart_succ_of_lt hlt, ← hcome, Nat.mul_succ, Nat.add_assoc]
      rcases Nat.lt_or_eq_of_le (Nat.succ_le_of_lt hn) with hless | heq
      · exact .before hless hnext.le (hnext ▸ apart_of_lt_taken hless)
      · rcases Nat.lt_or_eq_of_le hle with hover | hall
        · have hpast := overlap_of_taken_lt hover
          rw [← heq] at hpast hover
          exact .past heq hover (hnext ▸ hpast)
        · have hlen : n + 1 = (occurrences t s).length := heq.trans hall
          refine .behind hall hlen.ge ?_
          rw [hlen]
          apply hlast hall
          rw [← hlen, ← hnext, hlen]
          rfl
  | past hn hlt hpast =>
      have hcome := (hi.match_iff outside h hpos hplace hlt).mp hat
      omega
  | behind hall hn hmade =>
      exact .behind hall (by omega) (hmore hn hmade ((hi.match_behind_iff h hpos hplace hn).mp hat))

/-- **Behind a character.** -/
theorem Phase.pastChar (h : Searched s t) (hpos : Positions positions (occurrences t s))
    (hphase : Phase s t Made m n) (hi : Tracks t r len v m n) (hplace : m + t.length * n < 4294967296)
    (hnot : v.strPos ≠ positionAt outside positions v)
    (hmore : (occurrences t s).length ≤ n → Made m n → v.strPos ≠ outside v → Made (m + 1) n) :
    Phase s t Made (m + 1) n := by
  have hle := taken_le s t
  cases hphase with
  | before hn hstart hend =>
      have hmiss := mt (hi.match_iff outside h hpos hplace (by omega)).mpr hnot
      exact .before hn (by omega) (by omega)
  | past hn hlt hpast => exact .past hn hlt (by omega)
  | behind hall hn hmade =>
      exact .behind hall hn (hmore hn hmade (mt (hi.match_behind_iff h hpos hplace hn).mpr hnot))

/-- The character that is copied lies inside the memory of the string. -/
theorem Tracks.load_lt {x : UInt8} (hi : Tracks t r len v m n) (hplace : m + t.length * n < 4294967296)
    (hload : string.chars.load v.strPos.toSizeT.toNat = .ok x) :
    m + t.length * n < string.chars.bytes.length ∧ m + t.length * n < 2147483648 := by
  have hfits := string.chars.fits
  have hlt : v.strPos.toSizeT.toNat < string.chars.bytes.length := by
    unfold Block.load at hload
    by_contra hge
    rw [List.getElem?_eq_none (Nat.not_lt.mp hge)] at hload
    cases hload
  rw [hi.strPos, toNat_toSizeT_ofNat hplace] at hlt
  split at hlt <;> omega

end Phase

end SpartanX
