import SpartanX.Strings.Course

/-!
# `Strings.Bounds` — where replacement writes and reads, for any target

The bound of the loop counts all positions, also those that the loop does not take for matches. So it may be negative,
which in `size_t` is a huge number; and if the replacement is longer than the target, what is copied behind an overlap
comes to lie behind the string. Without an overlap the loop may find what looks like more positions in the memory
behind them, and with each it gets further.

Both functions return, with all writes inside the buffer and all reads of the string inside its memory, iff the bound
is not negative, what is copied behind an overlap lies inside that memory, and, without one, so does what is copied
behind the last match (`replace_writes_inside_iff`).

## Contents
- **The condition.** `BoundNonneg`, `CopiesInside`, `StraysInside`; `straysInside_iff`.
- **The loop ends.** `Safe`, `replaceBody_ends`, `loop_ends`.
- **The loop leaves the string.** `Straying`, `not_ends`; `straying_of_copies`, `straying_of_strays`.
- **Result.** `WritesInside`, `replace_writes_inside_iff`.
-/

namespace SpartanX

open CInt CMemory Occurrences

/-! ## The condition -/

/-- The bound of the loop is not negative: the occurrences, overlaps counted twice, are not longer than the string and
    as many replacements. -/
def BoundNonneg (s t r : List UInt8) : Prop :=
  t.length * (occurrences t s).length ≤ s.length + r.length * (occurrences t s).length

/-- With as many matches as it takes positions for, the loop is at most `size` bytes into the string where it ends. -/
def CopiesInside (s t r : List UInt8) (size : Nat) : Prop :=
  min (s.length + r.length * (occurrences t s).length - t.length * (occurrences t s).length) 2147483648 +
    t.length * taken s t ≤ size + r.length * taken s t

/-- Behind the last match either nothing is left, or a further match moves the place in the string no further than the
    counter, or as many of them as the string has room for leave the place inside. -/
def StraysInside (s t r : List UInt8) (size : Nat) : Prop :=
  lastEnd s t = s.length ∨ t.length ≤ r.length ∨
    r ≠ [] ∧ s.length + (s.length - lastEnd s t - 1) / r.length * (t.length - r.length) ≤ min size 2147483648

instance (s t r : List UInt8) : Decidable (BoundNonneg s t r) := inferInstanceAs (Decidable (_ ≤ _))
instance (s t r : List UInt8) (size : Nat) : Decidable (CopiesInside s t r size) :=
  inferInstanceAs (Decidable (_ ≤ _))
instance (s t r : List UInt8) (size : Nat) : Decidable (StraysInside s t r size) :=
  inferInstanceAs (Decidable (_ ∨ _))

section Condition

variable {s t r : List UInt8} {size bound : Nat}

theorem lastEnd_le (s t : List UInt8) : lastEnd s t ≤ s.length := cutStart_le s t _ (Nat.le_refl _)

/-- However many replacements and characters are written behind the last match. -/
theorem straysInside_iff (hlen : s.length < 2147483648) (hsize : s.length < size) :
    StraysInside s t r size ↔ ∀ m n, r.length * n + m < s.length - lastEnd s t →
      lastEnd s t + t.length * n + m < min size 2147483648 := by
  have hlast := lastEnd_le s t
  unfold StraysInside
  generalize lastEnd s t = last at hlast ⊢
  constructor
  · rintro (hend | hle | ⟨hne, hroom⟩) m n hlt
    · omega
    · have hmul : t.length * n ≤ r.length * n := Nat.mul_le_mul_right n hle
      omega
    · have hn : n ≤ (s.length - last - 1) / r.length := by
        rw [Nat.le_div_iff_mul_le (List.length_pos_of_ne_nil hne), Nat.mul_comm]
        omega
      have hmul : n * (t.length - r.length) ≤ (s.length - last - 1) / r.length * (t.length - r.length) :=
        Nat.mul_le_mul_right _ hn
      have hsplit : t.length * n ≤ r.length * n + n * (t.length - r.length) := by
        rw [Nat.mul_comm n, ← Nat.add_mul]
        exact Nat.mul_le_mul_right n (by omega)
      omega
  · intro hall
    by_contra hnot
    simp only [not_or, not_and, Nat.not_le] at hnot
    obtain ⟨hend, hless, hroom⟩ := hnot
    rcases eq_or_ne r [] with rfl | hne
    · -- nothing is written, so the target is found as often as one likes
      have hfar := hall 0 2147483648 (by rw [List.length_nil, Nat.zero_mul]; omega)
      have hmul : 1 * 2147483648 ≤ t.length * 2147483648 := Nat.mul_le_mul_right _ (by omega)
      omega
    · have hover := hroom hne
      have hdiv := Nat.div_mul_le_self (s.length - last - 1) r.length
      have hfar := hall (s.length - last - 1 - (s.length - last - 1) / r.length * r.length)
        ((s.length - last - 1) / r.length) (by rw [Nat.mul_comm r.length]; omega)
      rw [Nat.mul_sub, Nat.mul_comm _ t.length] at hover
      omega

/-- Without an overlap what is copied lies inside the string. -/
theorem copiesInside_of_all (hsize : s.length < size) (hbound : BoundNonneg s t r)
    (hall : taken s t = (occurrences t s).length) : CopiesInside s t r size := by
  unfold CopiesInside
  unfold BoundNonneg at hbound
  rw [hall]
  omega

/-- With a replacement that is not longer than the target it does too. -/
theorem length_le_of_not_copiesInside (hsize : s.length < size) (hbound : BoundNonneg s t r)
    (hnot : ¬ CopiesInside s t r size) : t.length ≤ r.length := by
  unfold CopiesInside at hnot
  unfold BoundNonneg at hbound
  by_contra hless
  have hle := taken_le s t
  obtain ⟨d, hd⟩ := Nat.exists_eq_add_of_le hle
  have hmul : r.length * d ≤ t.length * d := Nat.mul_le_mul_right d (by omega)
  rw [hd, Nat.mul_add, Nat.mul_add] at hnot hbound
  omega

end Condition

/-! ## The loop ends -/

/-- What the memory behind the positions makes of the loop (`Made`) keeps it inside the memory of the string. -/
structure Safe (s t r : List UInt8) (outside : ReplaceVars → IntT) (bound size : Nat) (Made : Nat → Nat → Prop) :
    Prop where
  last   : ∀ m, taken s t = (occurrences t s).length →
    m + t.length * (occurrences t s).length = lastEnd s t → Made m (occurrences t s).length
  found  : ∀ v m n, v.n = BitVec.ofNat 32 n → (occurrences t s).length ≤ n → Made m n → v.strPos = outside v →
    Made m (n + 1)
  copied : ∀ m n, (occurrences t s).length ≤ n → Made m n → Made (m + 1) n
  inside : ∀ m n, (occurrences t s).length ≤ n → Made m n → m + r.length * n < min bound 2147483648 →
    m + t.length * n < min size 2147483648

/-- The invariant: neither counter has overflowed, and nothing has been written over the last byte of the buffer. -/
structure Ending (s t r : List UInt8) (Made : Nat → Nat → Prop) (v : ReplaceVars) (m n : Nat) : Prop where
  tracks : Tracks t r (s.length + r.length * s.length + 1) v m n
  phase  : Phase s t Made m n
  small  : m + r.length * n < 4294967296
  index  : n ≤ 2147483648
  last   : v.buf.bytes[s.length + r.length * s.length]? = some 0

section Ends

variable {s t r : List UInt8} {string target replacement : SXString} {positions : SXVector IntT}
  {outside : ReplaceVars → IntT} {v : ReplaceVars} {m n len bound size : Nat} {Made : Nat → Nat → Prop}

/-- The guard holds iff the counter is below the bound and has not overflowed. -/
theorem Tracks.guard_iff (hi : Tracks t r len v m n) (hsmall : m + r.length * n < 4294967296)
    (hB : (replaceBound string target replacement positions).toNat = bound) (hfin : bound < 9223372036854775808) :
    replaceGuard string target replacement positions v = true ↔ m + r.length * n < min bound 2147483648 := by
  unfold replaceGuard
  rw [decide_eq_true_eq, BitVec.lt_def, hi.i, hB, toNat_toSizeT_ofNat hsmall]
  split <;> omega

/-- **A replacement fits.** At a match it ends where the matches up to there would have all been at the end of the
    string; at a match that is found behind the positions, the bound leaves room for it. -/
theorem replacement_fits (h : Counted s t r)
    (hbound : bound + t.length * (occurrences t s).length = s.length + r.length * (occurrences t s).length)
    (hsmall : m + r.length * n < bound) (hm : n < (occurrences t s).length → m ≤ s.length) :
    m + r.length * n + r.length ≤ s.length + r.length * s.length := by
  have hcount := length_occurrences_le t s
  rcases Nat.lt_or_ge n (occurrences t s).length with hlt | hge
  · have hmul : r.length * (n + 1) ≤ r.length * s.length := Nat.mul_le_mul_left _ (by omega)
    rw [Nat.mul_succ] at hmul
    have hle := hm hlt
    omega
  · rcases Nat.lt_or_eq_of_le hcount with hless | hall
    · have hmul : r.length * ((occurrences t s).length + 1) ≤ r.length * s.length :=
        Nat.mul_le_mul_left _ hless
      rw [Nat.mul_succ] at hmul
      omega
    · -- every character is a match: with as many replacements the bound is reached
      exfalso
      have hs : s ≠ [] := by
        rintro rfl
        exact h.nonempty (List.infix_nil.mp h.occurs)
      have hone := length_le_one_of_occurrences hs hall
      have hpos := List.length_pos_of_ne_nil h.nonempty
      have ht : t.length = 1 := by omega
      have hmul : r.length * s.length ≤ r.length * n := Nat.mul_le_mul_left _ (by omega)
      rw [ht, hall, Nat.one_mul] at hbound
      omega

/-- The place in the string lies inside its memory where the guard holds. -/
theorem Ending.place (h : Searched s t) (hsize : s.length < size)
    (hbound : bound + t.length * (occurrences t s).length = s.length + r.length * (occurrences t s).length)
    (hcopies : CopiesInside s t r size) (hsafe : Safe s t r outside bound size Made) (hi : Ending s t r Made v m n)
    (hlt : m + r.length * n < min bound 2147483648) : m + t.length * n < min size 2147483648 := by
  have hslen := h.length
  have hle := taken_le s t
  cases hi.phase with
  | before hn hstart hend =>
      have hfits := cutEnd_fits (show n < (occurrences t s).length by omega)
      have htlen := List.length_pos_of_ne_nil h.nonempty
      omega
  | past hn hless hpast =>
      unfold CopiesInside at hcopies
      obtain ⟨d, hd⟩ := Nat.exists_eq_add_of_le hle
      rw [← hn] at hcopies hd
      rw [hd, Nat.mul_add, Nat.mul_add] at hbound hcopies
      rcases Nat.le_total t.length r.length with htr | htr
      · have hmul : t.length * n ≤ r.length * n := Nat.mul_le_mul_right n htr
        omega
      · have hmul : r.length * d ≤ t.length * d := Nat.mul_le_mul_right d htr
        omega
  | behind hall hn hmade => exact hsafe.inside m n hn hmade hlt

/-- The variant: the distance of the counter from the bound, and that of the index from its overflow. -/
def endingLeft (bound : Nat) (v : ReplaceVars) : Nat := bound - v.i.toNat + (2147483648 - v.n.toNat)

theorem Ending.left_eq (hi : Ending s t r Made v m n) :
    endingLeft bound v = bound - (m + r.length * n) + (2147483648 - n) := by
  have hsmall := hi.small
  have hindex := hi.index
  unfold endingLeft
  rw [hi.tracks.i, hi.tracks.n, BitVec.toNat_ofNat, BitVec.toNat_ofNat, Nat.mod_eq_of_lt hsmall,
    Nat.mod_eq_of_lt (by omega)]

/-- An iteration at a match. -/
theorem Ending.pastMatch (h : Counted s t r) (ht : target.Holds t) (hr : replacement.Holds r)
    (hpos : Positions positions (occurrences t s)) (string : SXString)
    (hbound : bound + t.length * (occurrences t s).length = s.length + r.length * (occurrences t s).length)
    (hsafe : Safe s t r outside bound size Made) (hi : Ending s t r Made v m n)
    (hlt : m + r.length * n < min bound 2147483648) (hplace : m + t.length * n < 2147483648)
    (hat : v.strPos = positionAt outside positions v) :
    ∃ v', replaceBody outside string target replacement positions v = .ok v' ∧ Ending s t r Made v' m (n + 1) := by
  have hrlen := h.replacement
  have hfits := replacement_fits h hbound (show m + r.length * n < bound by omega) fun hless => by
    have hcome := (hi.tracks.match_iff outside h.toSearched hpos (by omega) hless).mp hat
    have hend := cutEnd_fits hless
    omega
  have hindex : 1 * n ≤ t.length * n := Nat.mul_le_mul_right n (List.length_pos_of_ne_nil h.nonempty)
  have hwhere : v.i.toSizeT.toNat = m + r.length * n := by
    rw [hi.tracks.i, toNat_toSizeT_of_lt (by omega)]
  obtain ⟨buf, hstore⟩ := Block.store_ok v.buf v.i.toSizeT.toNat r (by
    rw [hwhere, hi.tracks.buf]
    omega)
  refine ⟨v.pastMatch target replacement buf, ?_, ?_, ?_, ?_, by omega, ?_⟩
  · rw [replaceBody_replace hr hat, hstore]
    rfl
  · exact hi.tracks.pastMatch ht hr (by omega) hplace (by rw [Block.length_store hstore, hi.tracks.buf])
  · exact hi.phase.pastMatch h.toSearched hpos hi.tracks (by omega) hat (hsafe.last m)
      (hsafe.found v m n hi.tracks.n)
  · rw [Nat.mul_succ]
    omega
  · show buf.bytes[s.length + r.length * s.length]? = _
    rw [Block.store_frame hstore (Or.inr (by omega)), hi.last]

/-- An iteration elsewhere. -/
theorem Ending.pastChar (h : Searched s t) (hpos : Positions positions (occurrences t s))
    (target replacement : SXString)
    (hbound : bound + t.length * (occurrences t s).length = s.length + r.length * (occurrences t s).length)
    (hsafe : Safe s t r outside bound string.chars.bytes.length Made) (hi : Ending s t r Made v m n)
    (hlt : m + r.length * n < min bound 2147483648)
    (hplace : m + t.length * n < min string.chars.bytes.length 2147483648)
    (hnot : v.strPos ≠ positionAt outside positions v) :
    ∃ v', replaceBody outside string target replacement positions v = .ok v' ∧ Ending s t r Made v' (m + 1) n := by
  have hmul : r.length * (occurrences t s).length ≤ r.length * s.length :=
    Nat.mul_le_mul_left _ (length_occurrences_le t s)
  have hle : 1 * (occurrences t s).length ≤ t.length * (occurrences t s).length :=
    Nat.mul_le_mul_right _ (List.length_pos_of_ne_nil h.nonempty)
  have hwhere : v.i.toSizeT.toNat = m + r.length * n := by
    rw [hi.tracks.i, toNat_toSizeT_of_lt (by omega)]
  obtain ⟨x, hload⟩ := load_of_place string hi.tracks.strPos (by omega) (by omega)
  obtain ⟨buf, hstore⟩ := Block.store_ok v.buf v.i.toSizeT.toNat [x, 0] (by
    rw [hwhere, hi.tracks.buf, List.length_cons, List.length_singleton]
    omega)
  refine ⟨v.pastChar buf, ?_, ?_, ?_, by omega, hi.index, ?_⟩
  · rw [replaceBody_copy hload hnot, hstore]
    rfl
  · exact hi.tracks.pastChar (by rw [Block.length_store hstore, hi.tracks.buf])
  · exact hi.phase.pastChar h hpos hi.tracks (by omega) hnot fun hn hmade _ => hsafe.copied m n hn hmade
  · -- the terminator behind the character may be the last byte
    show buf.bytes[s.length + r.length * s.length]? = _
    rcases Nat.lt_or_eq_of_le (show m + r.length * n + 1 ≤ s.length + r.length * s.length by omega) with hless | heq
    · rw [Block.store_frame hstore (Or.inr (by rw [hwhere]; exact hless)), hi.last]
    · rw [← heq, ← hwhere, Block.store_at hstore (by simp)]
      rfl

/-- **Every iteration writes into the buffer** and comes nearer to the end. -/
theorem replaceBody_ends (h : Counted s t r) (hs : string.Holds s) (ht : target.Holds t) (hr : replacement.Holds r)
    (hpos : Positions positions (occurrences t s))
    (hbound : bound + t.length * (occurrences t s).length = s.length + r.length * (occurrences t s).length)
    (hB : (replaceBound string target replacement positions).toNat = bound) (hfin : bound < 9223372036854775808)
    (hcopies : CopiesInside s t r string.chars.bytes.length)
    (hsafe : Safe s t r outside bound string.chars.bytes.length Made) (v : ReplaceVars)
    (hi : ∃ m n, Ending s t r Made v m n) (hg : replaceGuard string target replacement positions v = true) :
    ∃ v', replaceBody outside string target replacement positions v = .ok v' ∧
      (∃ m n, Ending s t r Made v' m n) ∧ endingLeft bound v' < endingLeft bound v := by
  obtain ⟨m, n, hi⟩ := hi
  have hlt := (hi.tracks.guard_iff hi.small hB hfin).mp hg
  have hplace := hi.place h.toSearched hs.chars.length_lt hbound hcopies hsafe hlt
  have hindex : 1 * n ≤ t.length * n := Nat.mul_le_mul_right n (List.length_pos_of_ne_nil h.nonempty)
  by_cases hat : v.strPos = positionAt outside positions v
  · obtain ⟨v', hbody, hi'⟩ := hi.pastMatch h ht hr hpos string hbound hsafe hlt (by omega) hat
    refine ⟨v', hbody, ⟨m, n + 1, hi'⟩, ?_⟩
    rw [hi.left_eq, hi'.left_eq, Nat.mul_succ]
    omega
  · obtain ⟨v', hbody, hi'⟩ := hi.pastChar h.toSearched hpos target replacement hbound hsafe hlt hplace hat
    refine ⟨v', hbody, ⟨m + 1, n, hi'⟩, ?_⟩
    rw [hi.left_eq, hi'.left_eq]
    omega

/-- **The loop ends** with a string in the buffer. -/
theorem loop_ends (h : Counted s t r) (hs : string.Holds s) (ht : target.Holds t) (hr : replacement.Holds r)
    (hpos : Positions positions (occurrences t s))
    (hbound : bound + t.length * (occurrences t s).length = s.length + r.length * (occurrences t s).length)
    (hB : (replaceBound string target replacement positions).toNat = bound) (hfin : bound < 9223372036854775808)
    (hcopies : CopiesInside s t r string.chars.bytes.length)
    (hsafe : Safe s t r outside bound string.chars.bytes.length Made) {buf : Block}
    (hbuf : buf.bytes = List.replicate (s.length + r.length * s.length + 1) 0) :
    ∃ fuel v c, Exec.loop (replaceGuard string target replacement positions)
      (replaceBody outside string target replacement positions) fuel (.start buf) = .ok v ∧ v.buf.Holds c := by
  have hstart : Ending s t r Made (.start buf) 0 0 := by
    refine ⟨.start (by rw [hbuf, List.length_replicate]), .start h.toSearched, by omega, by omega, ?_⟩
    show buf.bytes[s.length + r.length * s.length]? = _
    rw [hbuf, List.getElem?_replicate, if_pos (Nat.lt_succ_self _)]
  obtain ⟨v, hloop, ⟨m, n, hi⟩, _⟩ := Exec.loop_ok
    (replaceBody_ends h hs ht hr hpos hbound hB hfin hcopies hsafe) ⟨0, 0, hstart⟩ (Nat.le_refl _)
  obtain ⟨c, hc⟩ := Block.exists_holds (List.mem_of_getElem? hi.last)
  exact ⟨_, v, c, hloop, hc⟩

/-- The loop stays inside where it passes over a position, -/
theorem safe_of_overlap (outside : ReplaceVars → IntT) (bound size : Nat)
    (hless : taken s t ≠ (occurrences t s).length) : Safe s t r outside bound size fun _ _ => False :=
  ⟨fun _ hall _ => hless hall, fun _ _ _ _ _ hmade _ => hmade, fun _ _ _ hmade => hmade,
    fun _ _ _ hmade => hmade.elim⟩

/-- where it copies not too far behind the last match, -/
theorem safe_of_strays (outside : ReplaceVars → IntT)
    (hbound : bound + t.length * (occurrences t s).length = s.length + r.length * (occurrences t s).length)
    (hlen : s.length < 2147483648) (hsize : s.length < size) (hstrays : StraysInside s t r size) :
    Safe s t r outside bound size fun m _ => lastEnd s t ≤ m + t.length * (occurrences t s).length := by
  refine ⟨fun m _ hlast => hlast.ge, fun v m n _ _ hmade _ => hmade, fun m n _ hmade => by omega, ?_⟩
  intro m n hn hmade hlt
  obtain ⟨e, rfl⟩ := Nat.exists_eq_add_of_le hn
  obtain ⟨c, hc⟩ := Nat.exists_eq_add_of_le hmade
  rw [Nat.mul_add] at hlt
  have hinside := (straysInside_iff hlen hsize).mp hstrays c e (by omega)
  rw [Nat.mul_add]
  omega

/-- and where the memory behind the positions is no place in the string. -/
theorem safe_of_outside
    (hbound : bound + t.length * (occurrences t s).length = s.length + r.length * (occurrences t s).length)
    (hlen : s.length < 2147483648) (hsize : s.length < size)
    (houtside : ∀ v, v.n = BitVec.ofNat 32 (occurrences t s).length → outside v ≠ v.strPos) :
    Safe s t r outside bound size fun _ n => n = (occurrences t s).length := by
  refine ⟨fun m _ _ => rfl, ?_, fun m n _ hmade => hmade, ?_⟩
  · rintro v m n hn _ rfl hfound
    exact absurd hfound.symm (houtside v hn)
  · rintro m n _ rfl hlt
    omega

end Ends

/-! ## The loop leaves the string -/

/-- What the memory behind the positions makes of the loop (`Made`) lets its guard hold wherever it comes to. -/
structure Straying (s t r : List UInt8) (outside : ReplaceVars → IntT) (bound size : Nat) (Made : Nat → Nat → Prop) :
    Prop where
  goesOn : ∀ m n, Phase s t Made m n →
    (n ≤ (occurrences t s).length → m + t.length * n ≤ min size 2147483648) → m + r.length * n < min bound 2147483648
  last   : ∀ m, taken s t = (occurrences t s).length →
    m + t.length * (occurrences t s).length = lastEnd s t → Made m (occurrences t s).length
  found  : ∀ v m n, v.n = BitVec.ofNat 32 n → (occurrences t s).length ≤ n → Made m n → v.strPos = outside v →
    m + t.length * n < 2147483648 ∧ Made m (n + 1)
  copied : ∀ v m n, v.n = BitVec.ofNat 32 n → (occurrences t s).length ≤ n → Made m n → v.strPos ≠ outside v →
    m + t.length * n < min size 2147483648 → Made (m + 1) n

/-- The invariant: up to the last match the place in the string lies inside its memory, or right behind it. -/
structure Leaving (s t r : List UInt8) (len size : Nat) (Made : Nat → Nat → Prop) (v : ReplaceVars) (m n : Nat) :
    Prop where
  tracks : Tracks t r len v m n
  phase  : Phase s t Made m n
  small  : m + t.length * n < 4294967296
  inside : n ≤ (occurrences t s).length → m + t.length * n ≤ min size 2147483648

section Leaves

variable {s t r : List UInt8} {string target replacement : SXString} {positions : SXVector IntT}
  {outside : ReplaceVars → IntT} {v v' : ReplaceVars} {m n len bound size : Nat} {Made : Nat → Nat → Prop}

/-- The guard holds. -/
theorem Leaving.guard (hB : (replaceBound string target replacement positions).toNat = bound)
    (hfin : bound < 9223372036854775808) (hstray : Straying s t r outside bound size Made)
    (hi : Leaving s t r len size Made v m n) : replaceGuard string target replacement positions v = true := by
  have hlt := hstray.goesOn m n hi.phase hi.inside
  exact (hi.tracks.guard_iff (by omega) hB hfin).mpr hlt

/-- An iteration that succeeds keeps the invariant: it reads the string inside its memory. -/
theorem Leaving.step (h : Counted s t r) (hs : string.Holds s) (ht : target.Holds t) (hr : replacement.Holds r)
    (hpos : Positions positions (occurrences t s))
    (hstray : Straying s t r outside bound string.chars.bytes.length Made)
    (hi : Leaving s t r len string.chars.bytes.length Made v m n)
    (hbody : replaceBody outside string target replacement positions v = .ok v') :
    ∃ m n, Leaving s t r len string.chars.bytes.length Made v' m n := by
  have hslen := h.length
  have htlen := h.occurs.length_le
  have hsize := hs.chars.length_lt
  have hlt := hstray.goesOn m n hi.phase hi.inside
  have hsmall := hi.small
  obtain ⟨hat, buf, hstore, rfl⟩ | ⟨hnot, x, buf, hload, hstore, rfl⟩ := replaceBody_cases hr hbody
  · have hbuf : buf.bytes.length = len := by rw [Block.length_store hstore, hi.tracks.buf]
    -- before the last match it is at a position, and behind it the memory there has allowed for this
    have hplace : m + t.length * n < 2147483648 ∧
        (n + 1 ≤ (occurrences t s).length → m + t.length * n + t.length ≤ s.length) := by
      rcases Nat.lt_or_ge n (occurrences t s).length with hless | hge
      · have hcome := (hi.tracks.match_iff outside h.toSearched hpos hi.small hless).mp hat
        have hend := cutEnd_fits hless
        omega
      · have hbehind := (hi.tracks.match_behind_iff h.toSearched hpos hi.small hge).mp hat
        have hmade : Made m n := by
          cases hi.phase with
          | before hn _ _ => exact absurd (taken_le s t) (by omega)
          | past _ hless _ => omega
          | behind _ _ hmade => exact hmade
        exact ⟨(hstray.found v m n hi.tracks.n hge hmade hbehind).1, fun hle => by omega⟩
    refine ⟨m, n + 1, hi.tracks.pastMatch ht hr (by omega) hplace.1 hbuf, ?_, ?_, ?_⟩
    · exact hi.phase.pastMatch h.toSearched hpos hi.tracks hi.small hat (hstray.last m)
        fun hn hmade hbehind => (hstray.found v m n hi.tracks.n hn hmade hbehind).2
    · rw [Nat.mul_succ]
      omega
    · intro hle
      have hend := hplace.2 hle
      rw [Nat.mul_succ]
      omega
  · have hbuf : buf.bytes.length = len := by rw [Block.length_store hstore, hi.tracks.buf]
    have hread := hi.tracks.load_lt hi.small hload
    refine ⟨m + 1, n, hi.tracks.pastChar hbuf, ?_, by omega, fun _ => by omega⟩
    exact hi.phase.pastChar h.toSearched hpos hi.tracks hi.small hnot
      fun hn hmade hbehind => hstray.copied v m n hi.tracks.n hn hmade hbehind (by omega)

/-- **The loop does not end inside the memory of the string.** -/
theorem not_ends (h : Counted s t r) (hs : string.Holds s) (ht : target.Holds t) (hr : replacement.Holds r)
    (hpos : Positions positions (occurrences t s))
    (hB : (replaceBound string target replacement positions).toNat = bound) (hfin : bound < 9223372036854775808)
    (hstray : Straying s t r outside bound string.chars.bytes.length Made) {buf : Block} {fuel : Nat} :
    Exec.loop (replaceGuard string target replacement positions)
      (replaceBody outside string target replacement positions) fuel (.start buf) ≠ .ok v := by
  intro hloop
  have hstart : Leaving s t r buf.bytes.length string.chars.bytes.length Made (.start buf) 0 0 :=
    ⟨.start rfl, .start h.toSearched, by omega, fun _ => by omega⟩
  have hstep (v v' : ReplaceVars) (hi : ∃ m n, Leaving s t r buf.bytes.length string.chars.bytes.length Made v m n)
      (_ : replaceGuard string target replacement positions v = true)
      (hbody : replaceBody outside string target replacement positions v = .ok v') :
      ∃ m n, Leaving s t r buf.bytes.length string.chars.bytes.length Made v' m n := by
    obtain ⟨m, n, hi⟩ := hi
    exact hi.step h hs ht hr hpos hstray hbody
  obtain ⟨⟨m, n, hi⟩, hdone⟩ := Exec.loop_keeps hstep ⟨0, 0, hstart⟩ hloop
  rw [hi.guard hB hfin hstray] at hdone
  cases hdone

/-- If it gets too far behind the last match at all, then with some least number of matches there, which an `int` can
    count with those before it. -/
theorem exists_least_strays (hlen : s.length < 2147483648) (hsize : s.length < size) (ht : t ≠ [])
    (hall : taken s t = (occurrences t s).length) (hnot : ¬ StraysInside s t r size) :
    ∃ q, lastEnd s t + r.length * q < s.length ∧ (occurrences t s).length + q ≤ 2147483648 ∧
      min size 2147483648 + r.length * q < s.length + t.length * q ∧
      ∀ e < q, lastEnd s t + t.length * e < min size 2147483648 := by
  have hfar : ∃ q, lastEnd s t + r.length * q < s.length ∧
      min size 2147483648 + r.length * q < s.length + t.length * q := by
    rw [straysInside_iff hlen hsize] at hnot
    push Not at hnot
    obtain ⟨m, q, hroom, hover⟩ := hnot
    exact ⟨q, by omega, by omega⟩
  obtain ⟨hroom, hover⟩ := Nat.find_spec hfar
  have hleast : ∀ e < Nat.find hfar, lastEnd s t + t.length * e < min size 2147483648 := by
    intro e he
    have hmul : r.length * e ≤ r.length * Nat.find hfar := Nat.mul_le_mul_left _ he.le
    have hmin := Nat.find_min hfar he
    omega
  generalize Nat.find hfar = q at hroom hover hleast
  refine ⟨q, hroom, ?_, hover, hleast⟩
  have hcuts := mul_le_cutStart (s := s) (t := t) _ (Nat.le_refl _) fun i hi => apart_of_lt_taken (by omega)
  have hcount : 1 * (occurrences t s).length ≤ t.length * (occurrences t s).length :=
    Nat.mul_le_mul_right _ (List.length_pos_of_ne_nil ht)
  rcases Nat.eq_zero_or_pos q with hzero | hpos
  · have hle := length_occurrences_le t s
    omega
  · have hone : 1 * (q - 1) ≤ t.length * (q - 1) :=
      Nat.mul_le_mul_right _ (List.length_pos_of_ne_nil ht)
    have hbefore := hleast (q - 1) (by omega)
    unfold lastEnd at hbefore
    omega

/-- Memory behind the positions that holds the place in the string up to an index, and not from there on. -/
def findsUpTo (stop : Nat) (v : ReplaceVars) : IntT := if v.n.toNat < stop then v.strPos else v.strPos + 1

/-- What it makes of the loop: `q` matches right behind the last, and then characters as long as there is room. -/
structure MakesStrays (s t r : List UInt8) (q m n : Nat) : Prop where
  count : n ≤ (occurrences t s).length + q
  place : n < (occurrences t s).length + q → m + t.length * (occurrences t s).length = lastEnd s t
  room  : m + t.length * (occurrences t s).length + r.length * q < s.length

theorem findsUpTo_iff {stop : Nat} (hn : v.n = BitVec.ofNat 32 n) (hlt : n < 4294967296) :
    v.strPos = findsUpTo stop v ↔ n < stop := by
  have hoff : v.strPos ≠ v.strPos + 1 := by bv_omega
  have hindex : v.n.toNat = n := by rw [hn, BitVec.toNat_ofNat, Nat.mod_eq_of_lt hlt]
  unfold findsUpTo
  rw [hindex]
  split
  · next hless => exact iff_of_true rfl hless
  · next hnot => exact iff_of_false hoff hnot

/-- The guard holds wherever the loop comes to if it copies too far behind an overlap, -/
theorem straying_of_copies (outside : ReplaceVars → IntT)
    (hbound : bound + t.length * (occurrences t s).length = s.length + r.length * (occurrences t s).length)
    (hsize : s.length < size) (hnot : ¬ CopiesInside s t r size) :
    Straying s t r outside bound size fun _ _ => False := by
  have hnonneg : BoundNonneg s t r := by
    unfold BoundNonneg
    omega
  have hle := taken_le s t
  have hless : taken s t ≠ (occurrences t s).length :=
    fun hall => hnot (copiesInside_of_all hsize hnonneg hall)
  refine ⟨?_, fun m hall _ => hless hall, fun v m n _ _ hmade _ => hmade.elim, fun v m n _ _ hmade _ _ => hmade⟩
  intro m n hphase hinside
  have htr := length_le_of_not_copiesInside hsize hnonneg hnot
  have hn : n ≤ taken s t := by
    cases hphase with
    | before hn _ _   => exact hn.le
    | past hn _ _     => exact hn.le
    | behind hall _ _ => exact absurd hall hless
  have hplace := hinside (by omega)
  obtain ⟨d, hd⟩ := Nat.exists_eq_add_of_le hn
  have hmul : t.length * d ≤ r.length * d := Nat.mul_le_mul_right d htr
  unfold CopiesInside at hnot
  rw [hd, Nat.mul_add, Nat.mul_add] at hnot
  omega

/-- and, for some memory behind the positions, if it copies too far behind the last match. -/
theorem straying_of_strays (ht : t ≠ [])
    (hbound : bound + t.length * (occurrences t s).length = s.length + r.length * (occurrences t s).length)
    (hlen : s.length < 2147483648) (hsize : s.length < size) (hall : taken s t = (occurrences t s).length)
    (hnot : ¬ StraysInside s t r size) :
    ∃ q, Straying s t r (findsUpTo ((occurrences t s).length + q)) bound size (MakesStrays s t r q) := by
  have hless : r.length < t.length := by
    unfold StraysInside at hnot
    omega
  have hmul : r.length * (occurrences t s).length ≤ t.length * (occurrences t s).length :=
    Nat.mul_le_mul_right _ hless.le
  obtain ⟨q, hroom, hcount, hover, hleast⟩ := exists_least_strays hlen hsize ht hall hnot
  refine ⟨q, ?_, ?_, ?_, ?_⟩
  · intro m n hphase _
    cases hphase with
    | before hn hstart hend =>
        have hbehind := cutEnd_add_mul_le (show n < (occurrences t s).length by omega) hall
        obtain ⟨d, hd⟩ := Nat.exists_eq_add_of_le (show n ≤ (occurrences t s).length by omega)
        rw [hd, Nat.add_sub_cancel_left] at hbehind
        rw [hd, Nat.mul_add, Nat.mul_add] at hbound hmul
        omega
    | past hn hlt _ => omega
    | behind _ hn hmade =>
        have hle := hmade.count
        have hwrites := hmade.room
        obtain ⟨e, rfl⟩ := Nat.exists_eq_add_of_le hn
        have hmore : r.length * e ≤ r.length * q := Nat.mul_le_mul_left _ (by omega)
        rw [Nat.mul_add]
        omega
  · intro m _ hlast
    exact ⟨by omega, fun _ => hlast, by omega⟩
  · intro v m n hn hge hmade hfound
    have hle := hmade.count
    have hlt := (findsUpTo_iff hn (by omega)).mp hfound
    have hlast := hmade.place hlt
    obtain ⟨e, rfl⟩ := Nat.exists_eq_add_of_le hge
    have hplace := hleast e (by omega)
    rw [Nat.mul_add]
    exact ⟨by omega, by omega, fun _ => hlast, hmade.room⟩
  · intro v m n hn hge hmade hnone hread
    have hle := hmade.count
    have hwrites := hmade.room
    have hstop := mt (findsUpTo_iff hn (by omega)).mpr hnone
    obtain rfl : n = (occurrences t s).length + q := by omega
    rw [Nat.mul_add] at hread
    exact ⟨hle, fun hlt => by omega, by omega⟩

end Leaves

/-! ## Result -/

/-- The bound of the loop is the number that it stands for, and both functions return. A write outside the buffer is a
    fault, and so is a read outside the memory of the string. -/
structure WritesInside (fresh : Nat → UInt8) (outside : ReplaceVars → IntT) (string target replacement : SXString)
    (positions : SXVector IntT) : Prop where
  bound       : ((replaceBound string target replacement positions).toNat : Int) =
    string.length.toNat + ((replacement.length.toNat : Int) - target.length.toNat) * positions.count.toNat
  byReplacing : ∃ fuel s',
    sxStringByReplacingOccurrencesOfString fresh outside fuel string target replacement = .ok s'
  replacing   : ∃ fuel s',
    sxStringReplacingOccurrencesOfString fresh outside fuel string target replacement = .ok s'

section Result

variable {s t r : List UInt8} {string target replacement : SXString} {positions : SXVector IntT}
  {outside : ReplaceVars → IntT} {bound : Nat} {Made : Nat → Nat → Prop}

/-- A bound that is not negative is the number it stands for, which is below half of all `size_t`, -/
theorem bound_eq (h : Counted s t r) (hs : string.Holds s) (ht : target.Holds t) (hr : replacement.Holds r)
    (hpos : Positions positions (occurrences t s)) (hnonneg : BoundNonneg s t r) :
    ∃ bound, bound + t.length * (occurrences t s).length = s.length + r.length * (occurrences t s).length ∧
      (replaceBound string target replacement positions).toNat = bound ∧ bound < 9223372036854775808 := by
  have hslen := h.length
  have htlen := h.occurs.length_le
  have hcount := length_occurrences_le t s
  have hmul : r.length * (occurrences t s).length ≤ 2147483647 * 2147483647 :=
    Nat.mul_le_mul (Nat.le_of_lt_succ h.replacement) (by omega)
  refine ⟨_, Nat.sub_add_cancel hnonneg, ?_, by omega⟩
  apply replaceBound_of_nonneg hs ht hr hpos hslen (by omega) rfl h.replacement _ (by omega)
  unfold BoundNonneg at hnonneg
  rw [Int.sub_mul]
  omega

/-- and no other is. -/
theorem bound_iff (h : Counted s t r) (hs : string.Holds s) (ht : target.Holds t) (hr : replacement.Holds r)
    (hpos : Positions positions (occurrences t s)) :
    ((replaceBound string target replacement positions).toNat : Int) =
      string.length.toNat + ((replacement.length.toNat : Int) - target.length.toNat) * positions.count.toNat ↔
      BoundNonneg s t r := by
  rw [hs.length, ht.length, hr.length, hpos.count, Int.sub_mul]
  constructor
  · intro heq
    unfold BoundNonneg
    omega
  · intro hnonneg
    obtain ⟨bound, hbound, hB, _⟩ := bound_eq h hs ht hr hpos hnonneg
    omega

/-- Both functions return where the loop stays inside. -/
theorem writesInside_of_safe (fresh : Nat → UInt8) (h : Counted s t r) (hs : string.Holds s) (ht : target.Holds t)
    (hr : replacement.Holds r) (hsearch : sxStringSubStringLocations string target = .ok (some positions))
    (hpos : Positions positions (occurrences t s)) (hsome : 0 < (occurrences t s).length)
    (hnonneg : BoundNonneg s t r) (hcopies : CopiesInside s t r string.chars.bytes.length)
    (hsafe : ∀ bound, bound + t.length * (occurrences t s).length =
        s.length + r.length * (occurrences t s).length →
      ∃ Made, Safe s t r outside bound string.chars.bytes.length Made) :
    WritesInside fresh outside string target replacement positions := by
  have hmul : r.length * s.length ≤ 2147483647 * 2147483647 :=
    Nat.mul_le_mul (Nat.le_of_lt_succ h.replacement) (Nat.le_of_lt_succ h.length)
  have hslen := h.length
  have hroom := replaceRoom_of_short hs hr h.length h.replacement
  obtain ⟨bound, hbound, hB, hfin⟩ := bound_eq h hs ht hr hpos hnonneg
  obtain ⟨Made, hsafe⟩ := hsafe bound hbound
  have hsize : (List.replicate (s.length + r.length * s.length + 1) (0 : UInt8)).length < 9223372036854775808 := by
    rw [List.length_replicate]
    omega
  obtain ⟨zeros, hzeros⟩ : ∃ zeros : Block,
      zeros.bytes = List.replicate (s.length + r.length * s.length + 1) 0 := ⟨⟨_, hsize⟩, rfl⟩
  obtain ⟨fuel, v, c, hloop, hc⟩ := loop_ends h hs ht hr hpos hbound hB hfin hcopies hsafe hzeros
  have hrun (buf : Block) (hbuf : buf.bytes = List.replicate (replaceRoom string replacement).toNat 0) :
      ∃ buf', replaceLoop outside fuel string target replacement buf = .ok (some buf') ∧ buf'.Holds c := by
    obtain rfl : buf = zeros := Block.ext (by rw [hbuf, hzeros, hroom])
    refine ⟨v.buf, ?_, hc⟩
    rw [replaceLoop_of_search hsearch hpos hsome]
    exact Exec.bind_eq_ok.mpr ⟨v, hloop, rfl⟩
  have hfits : (replaceRoom string replacement).toNat < 9223372036854775808 := by omega
  obtain ⟨⟨s₁, hnew, _⟩, ⟨s₂, hchanged, _⟩⟩ := replaceOccurrences_of_loop hfits hrun
  exact ⟨(bound_iff h hs ht hr hpos).mpr hnonneg, ⟨fuel, s₁, hnew⟩, ⟨fuel, s₂, hchanged⟩⟩

/-- Where they return the loop does not leave the string. -/
theorem not_straying_of_writesInside {fresh : Nat → UInt8} (h : Counted s t r) (hs : string.Holds s)
    (ht : target.Holds t) (hr : replacement.Holds r)
    (hsearch : sxStringSubStringLocations string target = .ok (some positions))
    (hpos : Positions positions (occurrences t s)) (hsome : 0 < (occurrences t s).length)
    (hbound : bound + t.length * (occurrences t s).length = s.length + r.length * (occurrences t s).length)
    (hinside : WritesInside fresh outside string target replacement positions) :
    ¬ Straying s t r outside bound string.chars.bytes.length Made := by
  intro hstray
  have hnonneg : BoundNonneg s t r := by
    unfold BoundNonneg
    omega
  obtain ⟨bound', hbound', hB, hfin⟩ := bound_eq h hs ht hr hpos hnonneg
  obtain rfl : bound = bound' := by omega
  obtain ⟨fuel, s', hcall⟩ := hinside.byReplacing
  obtain ⟨buf, buf', _, hrun, _⟩ := ran_of_new h.toSearched hs ht hcall
  rw [replaceLoop_of_search hsearch hpos hsome] at hrun
  obtain ⟨v, hloop, _⟩ := Exec.bind_eq_ok.mp hrun
  exact not_ends h hs ht hr hpos hB hfin hstray hloop

/-- **When replacement writes inside its buffer.** For a target that may overlap itself: the bound of the loop is the
    number it stands for and both functions return, whatever the memory behind the positions holds, iff that number is
    not negative, what is copied behind an overlap lies inside the memory of the string, and without an overlap what
    is copied behind the last match does. Where the memory behind the positions is no place in the string, the last
    condition is not needed. -/
theorem replace_writes_inside_iff (fresh : Nat → UInt8) (h : Counted s t r) (hs : string.Holds s)
    (ht : target.Holds t) (hr : replacement.Holds r) :
    ∃ positions, sxStringSubStringLocations string target = .ok (some positions) ∧
      positions.count.toNat = (occurrences t s).length ∧
      ((∀ outside, WritesInside fresh outside string target replacement positions) ↔
        BoundNonneg s t r ∧ CopiesInside s t r string.chars.bytes.length ∧
          (taken s t = (occurrences t s).length → StraysInside s t r string.chars.bytes.length)) ∧
      ∀ outside, (∀ v, v.n = BitVec.ofNat 32 (occurrences t s).length → outside v ≠ v.strPos) →
        (WritesInside fresh outside string target replacement positions ↔
          BoundNonneg s t r ∧ CopiesInside s t r string.chars.bytes.length) := by
  have hlen := h.length
  have hsize := hs.chars.length_lt
  obtain ⟨positions, hsearch, hpos, hsome⟩ := h.toSearched.search hs ht
  -- what the functions do for one memory behind the positions
  have hmust {outside : ReplaceVars → IntT}
      (hinside : WritesInside fresh outside string target replacement positions) :
      BoundNonneg s t r ∧ CopiesInside s t r string.chars.bytes.length := by
    have hnonneg := (bound_iff h hs ht hr hpos).mp hinside.bound
    refine ⟨hnonneg, ?_⟩
    by_contra hnot
    have hbound := Nat.sub_add_cancel hnonneg
    exact not_straying_of_writesInside h hs ht hr hsearch hpos hsome hbound hinside
      (straying_of_copies outside hbound hsize hnot)
  refine ⟨positions, hsearch, hpos.count, ⟨?_, ?_⟩, ?_⟩
  · intro hinside
    obtain ⟨hnonneg, hcopies⟩ := hmust (hinside fun _ => 0)
    refine ⟨hnonneg, hcopies, fun hall => ?_⟩
    by_contra hnot
    have hbound := Nat.sub_add_cancel hnonneg
    obtain ⟨q, hstray⟩ := straying_of_strays h.nonempty hbound hlen hsize hall hnot
    exact not_straying_of_writesInside h hs ht hr hsearch hpos hsome hbound (hinside _) hstray
  · rintro ⟨hnonneg, hcopies, hstrays⟩ outside
    refine writesInside_of_safe fresh h hs ht hr hsearch hpos hsome hnonneg hcopies fun bound hbound => ?_
    by_cases hall : taken s t = (occurrences t s).length
    · exact ⟨_, safe_of_strays outside hbound hlen hsize (hstrays hall)⟩
    · exact ⟨_, safe_of_overlap outside bound _ hall⟩
  · intro outside houtside
    refine ⟨hmust, ?_⟩
    rintro ⟨hnonneg, hcopies⟩
    exact writesInside_of_safe fresh h hs ht hr hsearch hpos hsome hnonneg hcopies
      fun bound hbound => ⟨_, safe_of_outside hbound hlen hsize houtside⟩

end Result

/-- The strings `"aaaa"`, `"aa"` and `"bbb"` as arguments. -/
def textAaaa : CString := CString.ofText [97, 97, 97, 97] (by decide) (by decide)
def textAa   : CString := CString.ofText [97, 97] (by decide) (by decide)
def textBbb  : CString := CString.ofText [98, 98, 98] (by decide) (by decide)

/-- Replacing `"aa"` in `"aaaa"`, where it has three occurrences. By a string of one character: the bound is one, and
    nothing is copied. By one of three: the bound is seven, and behind the first match four characters are copied, of
    which the string has two and its terminator. -/
theorem replace_writes_inside_iff_overlap :
    ∃ positions, sxStringSubStringLocations (.ofCString textAaaa) (.ofCString textAa) = .ok (some positions) ∧
      (∀ outside, WritesInside (fun _ => 7) outside (.ofCString textAaaa) (.ofCString textAa) (.ofCString textX)
        positions) ∧
      ¬ ∀ outside, WritesInside (fun _ => 7) outside (.ofCString textAaaa) (.ofCString textAa)
        (.ofCString textBbb) positions := by
  have hx : Counted [97, 97, 97, 97] [97, 97] [120] :=
    { nonempty := by decide, occurs := by decide, length := by decide, replacement := by decide }
  have hbbb : Counted [97, 97, 97, 97] [97, 97] [98, 98, 98] :=
    { nonempty := by decide, occurs := by decide, length := by decide, replacement := by decide }
  obtain ⟨positions, hsearch, _, hiff, _⟩ := replace_writes_inside_iff (fun _ => 7) hx
    (SXString.holds_ofCString textAaaa) (SXString.holds_ofCString textAa) (SXString.holds_ofCString textX)
  obtain ⟨positions', hsearch', _, hiff', _⟩ := replace_writes_inside_iff (fun _ => 7) hbbb
    (SXString.holds_ofCString textAaaa) (SXString.holds_ofCString textAa) (SXString.holds_ofCString textBbb)
  obtain rfl : positions = positions' := Option.some.inj (Exec.ok.inj (hsearch.symm.trans hsearch'))
  refine ⟨positions, hsearch, hiff.mpr (by decide), fun hinside => ?_⟩
  exact absurd (hiff'.mp hinside).2.1 (by decide)

/-- Replacing it by nothing: the bound is `4 - 2 * 3 = -2`, which wraps around. -/
theorem replace_bound_wraps :
    ∃ positions, sxStringSubStringLocations (.ofCString textAaaa) (.ofCString textAa) = .ok (some positions) ∧
      positions.count = 3 ∧
      (replaceBound (.ofCString textAaaa) (.ofCString textAa) (.ofCString CString.empty) positions).toNat =
        18446744073709551614 ∧
      (18446744073709551614 : Int) ≠ 4 + ((0 : Int) - 2) * 3 := by
  refine ⟨{ refCount := 1, count := 3, osize := sizeofInt, slots := [some 0, some 1, some 2], dealloc := false }, ?_⟩
  decide +kernel

end SpartanX
