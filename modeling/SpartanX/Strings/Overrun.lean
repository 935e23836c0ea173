import SpartanX.Strings.Course

/-!
# `Strings.Overrun` — which positions the replacement loop reads

The loop reads the vector of positions in every iteration, at the index of the next position. Behind the last match
this index is the count. The loop gets there if no two successive matches overlap and its guard holds at every place
it comes to on the way, and it reads there if the guard holds once more (`PassesLast`). An overlap stops the index
for good: its position lies behind the place in the string (`Stuck`).

This is so whatever the loop may read behind the string. What it finds there and behind the vector is a parameter
(`Behind`), and an iteration faults only if it writes outside the buffer (`replaceStep`). Up to the last match the
loop of the two functions does the same (`Runs`).

## Contents
- **The loop.** `replaceStep`, `Reached`; `Runs`, `Runs.reached`.
- **The way through the string.** `counterAt`, `PassesLast`; `At`, `At.copy`, `At.replace`.
- **The loop gets there.** `runs_past_matches`, `reads_behind_of_passesLast`.
- **Where else it can be.** `OnPath`, `Stuck`, `place_of_reached`, `reads_inside_of_reached`.
- **Results.** `replace_reads_positions_iff`, `replaceBody_reads_positions_iff`.
- **Short replacements.** `written`, `passesLast_iff_of_short`.
-/

namespace SpartanX

open CInt CMemory Occurrences

/-! ## The loop -/

/-- What the loop finds behind the positions and behind the string. -/
structure Behind where
  vector : ReplaceVars → IntT
  string : ReplaceVars → UInt8

/-- The character at an index of the string, or what the memory behind it holds. -/
def charAt (mem : Behind) (string : SXString) (v : ReplaceVars) : UInt8 :=
  (string.chars.bytes[v.strPos.toSizeT.toNat]?).getD (mem.string v)

/-- The body of the loop, with the `++i` of its head, which may read anywhere. -/
def replaceStep (mem : Behind) (string target replacement : SXString) (positions : SXVector IntT) (v : ReplaceVars) :
    Exec ReplaceVars :=
  if v.strPos = positionAt mem.vector positions v then do
    let buf ← v.buf.memcpy v.i.toSizeT.toNat replacement.chars replacement.length
    pure { i      := (v.i.toSizeT + (replacement.length - 1)).setWidth 32 + 1
           strPos := (v.strPos.toSizeT + target.length).setWidth 32
           n      := v.n + 1
           buf    := buf }
  else do
    let buf ← v.buf.store v.i.toSizeT.toNat [charAt mem string v, 0]
    pure { v with i := v.i + 1, strPos := v.strPos + 1, buf := buf }

/-- The states that the loop reaches. -/
inductive Reached (mem : Behind) (string target replacement : SXString) (positions : SXVector IntT) (buf : Block) :
    ReplaceVars → Prop
  | start : Reached mem string target replacement positions buf (.start buf)
  | next {v v' : ReplaceVars} (h : Reached mem string target replacement positions buf v)
      (hg : replaceGuard string target replacement positions v = true)
      (hstep : replaceStep mem string target replacement positions v = .ok v') :
      Reached mem string target replacement positions buf v'

/-- The states that the loop of the two functions reaches. -/
inductive Runs (outside : ReplaceVars → IntT) (string target replacement : SXString) (positions : SXVector IntT)
    (buf : Block) : ReplaceVars → Prop
  | start : Runs outside string target replacement positions buf (.start buf)
  | next {v v' : ReplaceVars} (h : Runs outside string target replacement positions buf v)
      (hg : replaceGuard string target replacement positions v = true)
      (hbody : replaceBody outside string target replacement positions v = .ok v') :
      Runs outside string target replacement positions buf v'

section Loop

variable {mem : Behind} {string target replacement : SXString} {positions : SXVector IntT} {v v' : ReplaceVars}
  {buf : Block}

/-- An iteration that reads inside the string. -/
theorem replaceStep_of_body (h : replaceBody mem.vector string target replacement positions v = .ok v') :
    replaceStep mem string target replacement positions v = .ok v' := by
  unfold replaceBody at h
  unfold replaceStep
  split at h
  · next hat => rwa [if_pos hat]
  · next hat =>
      obtain ⟨ch, hload, hrest⟩ := Exec.bind_eq_ok.mp h
      have hch : charAt mem string v = ch := by
        unfold Block.load at hload
        unfold charAt
        cases hbyte : string.chars.bytes[v.strPos.toSizeT.toNat]? with
        | none =>
            rw [hbyte] at hload
            cases hload
        | some x =>
            rw [hbyte] at hload
            exact Exec.ok.inj hload
      rw [if_neg hat, hch]
      exact hrest

/-- What an iteration does where it succeeds. -/
theorem replaceStep_cases (h : replaceStep mem string target replacement positions v = .ok v') :
    v'.buf.bytes.length = v.buf.bytes.length ∧
    ((v.strPos = positionAt mem.vector positions v ∧
        v.i.toSizeT.toNat + min replacement.length.toNat replacement.chars.bytes.length ≤ v.buf.bytes.length ∧
        v'.i = (v.i.toSizeT + (replacement.length - 1)).setWidth 32 + 1 ∧
        v'.strPos = (v.strPos.toSizeT + target.length).setWidth 32 ∧ v'.n = v.n + 1) ∨
      (v.strPos ≠ positionAt mem.vector positions v ∧ v.i.toSizeT.toNat + 2 ≤ v.buf.bytes.length ∧
        v'.i = v.i + 1 ∧ v'.strPos = v.strPos + 1 ∧ v'.n = v.n)) := by
  unfold replaceStep at h
  split at h
  · next hat =>
      obtain ⟨buf, hcopy, hrest⟩ := Exec.bind_eq_ok.mp h
      obtain rfl := Exec.ok.inj hrest
      unfold Block.memcpy at hcopy
      split at hcopy
      · have hfits := (Block.store_eq_ok.mp hcopy).1
        rw [List.length_take] at hfits
        exact ⟨Block.length_store hcopy, Or.inl ⟨hat, hfits, rfl, rfl, rfl⟩⟩
      · cases hcopy
  · next hat =>
      obtain ⟨buf, hstore, hrest⟩ := Exec.bind_eq_ok.mp h
      obtain rfl := Exec.ok.inj hrest
      exact ⟨Block.length_store hstore, Or.inr ⟨hat, (Block.store_eq_ok.mp hstore).1, rfl, rfl, rfl⟩⟩

/-- The loop of the two functions gets to no other states. -/
theorem Runs.reached (h : Runs mem.vector string target replacement positions buf v) :
    Reached mem string target replacement positions buf v := by
  induction h with
  | start => exact .start
  | next _ hg hbody ih => exact ih.next hg (replaceStep_of_body hbody)

end Loop

/-! ## The way through the string -/

/-- The counter when `x` characters have been read, among them `j` matches. -/
def counterAt (t r : List UInt8) (x j : Nat) : IntT := BitVec.ofInt 32 (x + ((r.length : Int) - t.length) * j)

/-- The loop is executed there, and what it writes lies inside the buffer. -/
def GoesOn (t r : List UInt8) (bound : SizeT) (len x j size : Nat) : Prop :=
  (counterAt t r x j).toSizeT < bound ∧ (counterAt t r x j).toSizeT.toNat + size ≤ len

/-- The loop gets past the first `j` matches: none overlaps the one before it, and the loop goes on at each character
    between them and at each of them. -/
structure PassesMatches (s t r : List UInt8) (bound : SizeT) (len j : Nat) : Prop where
  apart    : ∀ i < j, cutStart t (occurrences t s) i ≤ cutEnd s (occurrences t s) i
  copies   : ∀ i < j, ∀ x, cutStart t (occurrences t s) i ≤ x → x < cutEnd s (occurrences t s) i →
    GoesOn t r bound len x i 2
  replaces : ∀ i < j, GoesOn t r bound len (cutEnd s (occurrences t s) i) i r.length

/-- It gets past all of them, and its guard still holds. -/
structure PassesLast (s t r : List UInt8) (bound : SizeT) (len : Nat) : Prop
    extends PassesMatches s t r bound len (occurrences t s).length where
  last : (counterAt t r (cutStart t (occurrences t s) (occurrences t s).length)
    (occurrences t s).length).toSizeT < bound

section Overrun

variable {mem : Behind} {outside : ReplaceVars → IntT} {s t r : List UInt8} {string target replacement : SXString}
  {positions : SXVector IntT} {v v' : ReplaceVars} {x j len : Nat} {buf : Block}

theorem counterAt_copy (t r : List UInt8) (x j : Nat) : counterAt t r x j + 1 = counterAt t r (x + 1) j := by
  have hone : (1 : IntT) = BitVec.ofInt 32 1 := rfl
  have hsum : ((x + 1 : Nat) : Int) + ((r.length : Int) - t.length) * j =
      x + ((r.length : Int) - t.length) * j + 1 := by omega
  unfold counterAt
  rw [hone, ← BitVec.ofInt_add, hsum]

theorem counterAt_match (t r : List UInt8) (x j : Nat) (h : (counterAt t r x j).toNat < 2147483648) :
    ((counterAt t r x j).toSizeT + (BitVec.ofNat 64 r.length - 1)).setWidth 32 + 1 =
      counterAt t r (x + t.length) (j + 1) := by
  have hself : counterAt t r x j = BitVec.ofNat 32 (counterAt t r x j).toNat := by simp
  have hsum : ((x + t.length : Nat) : Int) + ((r.length : Int) - t.length) * (j + 1 : Nat) =
      x + ((r.length : Int) - t.length) * j + r.length := by
    rw [Int.natCast_succ, Int.mul_add, Int.mul_one]
    omega
  rw [hself, toSizeT_ofNat h, setWidth_add_sub_one, BitVec.ofNat_add, ← hself]
  unfold counterAt
  rw [hsum, ← BitVec.ofInt_natCast, ← BitVec.ofInt_add]

/-- The loop has read `x` characters, among them `j` matches. -/
structure At (t r : List UInt8) (len : Nat) (v : ReplaceVars) (x j : Nat) : Prop where
  i      : v.i = counterAt t r x j
  strPos : v.strPos = BitVec.ofNat 32 x
  n      : v.n = BitVec.ofNat 32 j
  buf    : v.buf.bytes.length = len

/-- The loop is at a match iff it has come to the next position. -/
theorem At.match_iff (outside : ReplaceVars → IntT) (h : Searched s t) (hpos : Positions positions (occurrences t s))
    (hv : At t r len v x j) (hj : j < (occurrences t s).length) (hx : x < 4294967296) :
    v.strPos = positionAt outside positions v ↔ x = cutEnd s (occurrences t s) j := by
  have hslen := h.length
  have hfits := cutEnd_fits hj
  rw [positionAt_lt outside hpos h.length hv.n hj, hv.strPos, ← cutEnd_of_lt hj, ofNat_inj_of_lt hx (by omega)]

/-- The iteration at a character. -/
theorem At.copy (outside : ReplaceVars → IntT) (h : Searched s t) (hs : string.Holds s)
    (hpos : Positions positions (occurrences t s)) (hv : At t r len v x j) (hj : j < (occurrences t s).length)
    (hx : x < cutEnd s (occurrences t s) j)
    (hgo : GoesOn t r (replaceBound string target replacement positions) len x j 2) :
    replaceGuard string target replacement positions v = true ∧
      ∃ v', replaceBody outside string target replacement positions v = .ok v' ∧ At t r len v' (x + 1) j := by
  obtain ⟨hguard, hroom⟩ := hgo
  have hslen := h.length
  have hsize := hs.chars.length_lt
  have hend := cutEnd_fits hj
  have hnot : v.strPos ≠ positionAt outside positions v := fun hat =>
    hx.ne ((hv.match_iff outside h hpos hj (by omega)).mp hat)
  obtain ⟨ch, hload⟩ := load_of_place string hv.strPos (by omega) (by omega)
  have hfits : v.i.toSizeT.toNat + [ch, 0].length ≤ v.buf.bytes.length := by
    rw [hv.i, hv.buf]
    exact hroom
  obtain ⟨buf, hstore⟩ := Block.store_ok v.buf v.i.toSizeT.toNat [ch, 0] hfits
  constructor
  · unfold replaceGuard
    rw [hv.i]
    exact decide_eq_true hguard
  · refine ⟨v.pastChar buf, ?_, ?_, ?_, hv.n, ?_⟩
    · rw [replaceBody_copy hload hnot, hstore]
      rfl
    · show v.i + 1 = _
      rw [hv.i, counterAt_copy]
    · show v.strPos + 1 = _
      rw [hv.strPos, ofNat_add_one]
    · show buf.bytes.length = _
      rw [Block.length_store hstore, hv.buf]

/-- The iteration at a match. -/
theorem At.replace (outside : ReplaceVars → IntT) (h : Searched s t) (ht : target.Holds t) (hr : replacement.Holds r)
    (hpos : Positions positions (occurrences t s)) (hv : At t r len v (cutEnd s (occurrences t s) j) j)
    (hj : j < (occurrences t s).length)
    (hgo : GoesOn t r (replaceBound string target replacement positions) len (cutEnd s (occurrences t s) j) j
      r.length) :
    replaceGuard string target replacement positions v = true ∧
      ∃ v', replaceBody outside string target replacement positions v = .ok v' ∧
        At t r len v' (cutStart t (occurrences t s) (j + 1)) (j + 1) := by
  obtain ⟨hguard, hroom⟩ := hgo
  have hslen := h.length
  have hend := cutEnd_fits hj
  have hat := (hv.match_iff outside h hpos hj (by omega)).mpr rfl
  have hfits : v.i.toSizeT.toNat + r.length ≤ v.buf.bytes.length := by
    rw [hv.i, hv.buf]
    exact hroom
  have hcounter : (counterAt t r (cutEnd s (occurrences t s) j) j).toNat < 2147483648 := by
    apply toNat_lt_of_toSizeT
    have hlen := v.buf.fits
    rw [hv.i] at hfits
    omega
  obtain ⟨buf, hstore⟩ := Block.store_ok v.buf v.i.toSizeT.toNat r hfits
  constructor
  · unfold replaceGuard
    rw [hv.i]
    exact decide_eq_true hguard
  · refine ⟨v.pastMatch target replacement buf, ?_, ?_, ?_, ?_, ?_⟩
    · rw [replaceBody_replace hr hat, hstore]
      rfl
    · show (v.i.toSizeT + (replacement.length - 1)).setWidth 32 + 1 = _
      rw [hv.i, hr.length_eq, counterAt_match t r _ j hcounter, cutStart_succ_of_lt hj]
    · show (v.strPos.toSizeT + target.length).setWidth 32 = _
      rw [hv.strPos, ht.length_eq, toSizeT_ofNat (by omega), setWidth_add, cutStart_succ_of_lt hj]
    · show v.n + 1 = _
      rw [hv.n, ofNat_add_one]
    · show buf.bytes.length = _
      rw [Block.length_store hstore, hv.buf]

/-! ## The loop gets there -/

theorem PassesMatches.mono {bound : SizeT} {i : Nat} (h : PassesMatches s t r bound len j) (hi : i ≤ j) :
    PassesMatches s t r bound len i where
  apart    := fun k hk => h.apart k (Nat.lt_of_lt_of_le hk hi)
  copies   := fun k hk => h.copies k (Nat.lt_of_lt_of_le hk hi)
  replaces := fun k hk => h.replaces k (Nat.lt_of_lt_of_le hk hi)

/-- The loop copies the characters up to the next match. -/
theorem runs_to_next_match (h : Searched s t) (hs : string.Holds s) (hpos : Positions positions (occurrences t s))
    (hj : j < (occurrences t s).length)
    (hcopies : ∀ x, cutStart t (occurrences t s) j ≤ x → x < cutEnd s (occurrences t s) j →
      GoesOn t r (replaceBound string target replacement positions) len x j 2)
    (hv : ∃ v, Runs outside string target replacement positions buf v ∧
      At t r len v (cutStart t (occurrences t s) j) j) :
    ∀ d, cutStart t (occurrences t s) j + d ≤ cutEnd s (occurrences t s) j →
      ∃ v, Runs outside string target replacement positions buf v ∧
        At t r len v (cutStart t (occurrences t s) j + d) j := by
  intro d
  induction d with
  | zero =>
      intro _
      exact hv
  | succ d ih =>
      intro hd
      obtain ⟨v, hruns, hat⟩ := ih (by omega)
      obtain ⟨hg, v', hbody, hat'⟩ := hat.copy outside h hs hpos hj hd (hcopies _ (by omega) hd)
      exact ⟨v', hruns.next hg hbody, hat'⟩

/-- **The loop gets past the first `j` matches.** -/
theorem runs_past_matches (outside : ReplaceVars → IntT) (h : Searched s t) (hs : string.Holds s)
    (ht : target.Holds t) (hr : replacement.Holds r) (hpos : Positions positions (occurrences t s))
    (hbuf : buf.bytes.length = len) :
    ∀ j ≤ (occurrences t s).length, PassesMatches s t r (replaceBound string target replacement positions) len j →
      ∃ v, Runs outside string target replacement positions buf v ∧
        At t r len v (cutStart t (occurrences t s) j) j := by
  intro j
  induction j with
  | zero =>
      intro _ _
      exact ⟨.start buf, .start, by simp [ReplaceVars.start, counterAt, cutStart], rfl, rfl, hbuf⟩
  | succ j ih =>
      intro hle hpass
      have hj : j < (occurrences t s).length := hle
      have hapart := hpass.apart j (Nat.lt_succ_self j)
      obtain ⟨v, hruns, hat⟩ := runs_to_next_match h hs hpos hj (hpass.copies j (Nat.lt_succ_self j))
        (ih hj.le (hpass.mono (Nat.le_succ j)))
        (cutEnd s (occurrences t s) j - cutStart t (occurrences t s) j) (by omega)
      rw [Nat.add_sub_cancel' hapart] at hat
      obtain ⟨hg, v', hbody, hat'⟩ := hat.replace outside h ht hr hpos hj (hpass.replaces j (Nat.lt_succ_self j))
      exact ⟨v', hruns.next hg hbody, hat'⟩

/-- The index of a position as the loop reads it. -/
theorem index_lt_iff (h : Searched s t) (hpos : Positions positions (occurrences t s))
    (hn : j ≤ (occurrences t s).length) :
    IntT.toSizeT (BitVec.ofNat 32 j) < positions.count ↔ j < (occurrences t s).length := by
  have hslen := h.length
  have hcount := length_occurrences_le t s
  rw [BitVec.lt_def, hpos.count, toNat_toSizeT_of_lt (by omega)]

/-- There it reads behind the positions. -/
theorem reads_behind_of_passesLast (outside : ReplaceVars → IntT) (h : Searched s t) (hs : string.Holds s)
    (ht : target.Holds t) (hr : replacement.Holds r) (hpos : Positions positions (occurrences t s))
    (hbuf : buf.bytes.length = len)
    (hpass : PassesLast s t r (replaceBound string target replacement positions) len) :
    ∃ v, Runs outside string target replacement positions buf v ∧
      replaceGuard string target replacement positions v = true ∧ ¬ v.n.toSizeT < positions.count := by
  obtain ⟨v, hruns, hat⟩ := runs_past_matches outside h hs ht hr hpos hbuf _ (Nat.le_refl _) hpass.toPassesMatches
  refine ⟨v, hruns, ?_, ?_⟩
  · unfold replaceGuard
    rw [hat.i]
    exact decide_eq_true hpass.last
  · rw [hat.n, index_lt_iff h hpos (Nat.le_refl _)]
    exact Nat.lt_irrefl _

/-! ## Where else it can be -/

/-- On its way to the next match: past those before it, and past the characters read since. -/
def OnPath (s t r : List UInt8) (bound : SizeT) (len : Nat) (v : ReplaceVars) : Prop :=
  ∃ j x, At t r len v x j ∧ j < (occurrences t s).length ∧ PassesMatches s t r bound len j ∧
    cutStart t (occurrences t s) j ≤ x ∧ x ≤ cutEnd s (occurrences t s) j ∧
    ∀ y, cutStart t (occurrences t s) j ≤ y → y < x → GoesOn t r bound len y j 2

/-- Past the next position without a match there. -/
def Stuck (s t : List UInt8) (len : Nat) (v : ReplaceVars) : Prop :=
  v.buf.bytes.length = len ∧ v.strPos.toNat ≤ v.i.toNat + s.length ∧
    ∃ j, j < (occurrences t s).length ∧ v.n = BitVec.ofNat 32 j ∧ cutEnd s (occurrences t s) j < v.strPos.toNat

/-- Behind the last match. -/
def AtLast (s t r : List UInt8) (bound : SizeT) (len : Nat) (v : ReplaceVars) : Prop :=
  At t r len v (cutStart t (occurrences t s) (occurrences t s).length) (occurrences t s).length ∧
    PassesMatches s t r bound len (occurrences t s).length

theorem PassesMatches.succ {bound : SizeT} (h : PassesMatches s t r bound len j)
    (hapart : cutStart t (occurrences t s) j ≤ cutEnd s (occurrences t s) j)
    (hcopies : ∀ y, cutStart t (occurrences t s) j ≤ y → y < cutEnd s (occurrences t s) j →
      GoesOn t r bound len y j 2)
    (hreplace : GoesOn t r bound len (cutEnd s (occurrences t s) j) j r.length) :
    PassesMatches s t r bound len (j + 1) where
  apart := by
    intro i hi
    rcases Nat.lt_succ_iff_lt_or_eq.mp hi with hlt | rfl
    · exact h.apart i hlt
    · exact hapart
  copies := by
    intro i hi
    rcases Nat.lt_succ_iff_lt_or_eq.mp hi with hlt | rfl
    · exact h.copies i hlt
    · exact hcopies
  replaces := by
    intro i hi
    rcases Nat.lt_succ_iff_lt_or_eq.mp hi with hlt | rfl
    · exact h.replaces i hlt
    · exact hreplace

/-- Where the loop is when it has got past a match. -/
theorem place_after_match {bound : SizeT} (h : Searched s t)
    (hv : At t r len v (cutStart t (occurrences t s) (j + 1)) (j + 1)) (hj : j < (occurrences t s).length)
    (hpass : PassesMatches s t r bound len (j + 1)) :
    OnPath s t r bound len v ∨ Stuck s t len v ∨ AtLast s t r bound len v := by
  have hslen := h.length
  rcases Nat.lt_or_eq_of_le (Nat.succ_le_of_lt hj) with hlt | heq
  · rcases Nat.lt_or_ge (cutEnd s (occurrences t s) (j + 1)) (cutStart t (occurrences t s) (j + 1)) with
      hover | hapart
    · have hend := cutEnd_fits hj
      have hstart := cutStart_succ_of_lt (p := t) hj
      have hplace : v.strPos.toNat = cutStart t (occurrences t s) (j + 1) := by
        rw [hv.strPos, BitVec.toNat_ofNat]
        omega
      exact Or.inr (Or.inl ⟨hv.buf, by omega, j + 1, hlt, hv.n, by omega⟩)
    · exact Or.inl ⟨j + 1, _, hv, hlt, hpass, Nat.le_refl _, hapart, fun y hy hlt => by omega⟩
  · obtain heq : j + 1 = (occurrences t s).length := heq
    unfold AtLast
    rw [← heq]
    exact Or.inr (Or.inr ⟨hv, hpass⟩)

/-- An iteration of a loop that is stuck: it copies a character. -/
theorem Stuck.step (h : Searched s t) (hpos : Positions positions (occurrences t s)) (hv : Stuck s t len v)
    (hstep : replaceStep mem string target replacement positions v = .ok v') : Stuck s t len v' := by
  obtain ⟨hbuf, hnear, j, hj, hn, hpast⟩ := hv
  have hslen := h.length
  have hfits := cutEnd_fits hj
  have hroom := v.buf.fits
  obtain ⟨hbuf', ⟨hat, _⟩ | ⟨_, hwrite, hi, hplace, hn'⟩⟩ := replaceStep_cases hstep
  · rw [positionAt_lt mem.vector hpos h.length hn hj, ← cutEnd_of_lt hj] at hat
    rw [hat, BitVec.toNat_ofNat] at hpast
    omega
  · -- the counter is not negative, so neither it nor the place overflows
    have hint : v.i.toNat < 2147483648 := toNat_lt_of_toSizeT (by omega)
    have hcounter : v'.i.toNat = v.i.toNat + 1 := by
      rw [hi, BitVec.toNat_add]
      show (_ + 1) % 4294967296 = _
      omega
    have hstr : v'.strPos.toNat = v.strPos.toNat + 1 := by
      rw [hplace, BitVec.toNat_add]
      show (_ + 1) % 4294967296 = _
      omega
    exact ⟨by omega, by omega, j, hj, hn'.trans hn, by omega⟩

/-- An iteration on the way to the next match. -/
theorem OnPath.step (h : Searched s t) (hs : string.Holds s) (ht : target.Holds t) (hr : replacement.Holds r)
    (hpos : Positions positions (occurrences t s))
    (hv : OnPath s t r (replaceBound string target replacement positions) len v)
    (hg : replaceGuard string target replacement positions v = true)
    (hstep : replaceStep mem string target replacement positions v = .ok v') :
    OnPath s t r (replaceBound string target replacement positions) len v' ∨ Stuck s t len v' ∨
      AtLast s t r (replaceBound string target replacement positions) len v' := by
  obtain ⟨j, x, hat, hj, hpass, hstart, hend, hcopies⟩ := hv
  have hslen := h.length
  have hfits := cutEnd_fits hj
  have hguard : (counterAt t r x j).toSizeT < replaceBound string target replacement positions := by
    rw [← hat.i]
    exact of_decide_eq_true hg
  obtain ⟨_, ⟨hmatch, hwrite, _⟩ | ⟨hmiss, hwrite, _⟩⟩ := replaceStep_cases hstep
  · obtain rfl := (hat.match_iff mem.vector h hpos hj (by omega)).mp hmatch
    obtain ⟨rest, hbytes⟩ := hr.chars.2
    have hlen : min replacement.length.toNat replacement.chars.bytes.length = r.length := by
      rw [hr.length, hbytes, List.length_append]
      omega
    rw [hat.i, hat.buf, hlen] at hwrite
    have hgo : GoesOn t r (replaceBound string target replacement positions) len (cutEnd s (occurrences t s) j) j
        r.length := ⟨hguard, hwrite⟩
    obtain ⟨_, w, hbody, hat'⟩ := hat.replace mem.vector h ht hr hpos hj hgo
    rw [replaceStep_of_body hbody] at hstep
    obtain rfl := Exec.ok.inj hstep
    exact place_after_match h hat' hj (hpass.succ hstart hcopies hgo)
  · have hne : x ≠ cutEnd s (occurrences t s) j := fun heq =>
      hmiss ((hat.match_iff mem.vector h hpos hj (by omega)).mpr heq)
    rw [hat.i, hat.buf] at hwrite
    have hgo : GoesOn t r (replaceBound string target replacement positions) len x j 2 := ⟨hguard, hwrite⟩
    obtain ⟨_, w, hbody, hat'⟩ := hat.copy mem.vector h hs hpos hj (by omega) hgo
    rw [replaceStep_of_body hbody] at hstep
    obtain rfl := Exec.ok.inj hstep
    refine Or.inl ⟨j, x + 1, hat', hj, hpass, by omega, by omega, ?_⟩
    intro y hy hlt
    rcases Nat.lt_succ_iff_lt_or_eq.mp hlt with hless | rfl
    · exact hcopies y hy hless
    · exact hgo

/-- Where the loop can be, unless it gets past the last match with its guard holding. -/
theorem place_of_reached (h : Searched s t) (hs : string.Holds s) (ht : target.Holds t) (hr : replacement.Holds r)
    (hpos : Positions positions (occurrences t s)) (hbuf : buf.bytes.length = len)
    (hnot : ¬ PassesLast s t r (replaceBound string target replacement positions) len)
    (hv : Reached mem string target replacement positions buf v) :
    OnPath s t r (replaceBound string target replacement positions) len v ∨ Stuck s t len v ∨
      AtLast s t r (replaceBound string target replacement positions) len v := by
  induction hv with
  | start =>
      have hpos' : 0 < (occurrences t s).length :=
        List.length_pos_of_ne_nil ((occurrences_ne_nil_iff h.nonempty).mpr h.occurs)
      have hat : At t r len (.start buf) 0 0 := ⟨by simp [ReplaceVars.start, counterAt], rfl, rfl, hbuf⟩
      refine Or.inl ⟨0, 0, hat, hpos', ⟨?_, ?_, ?_⟩, Nat.le_refl _, Nat.zero_le _, ?_⟩
      · intro i hi
        exact absurd hi (Nat.not_lt_zero i)
      · intro i hi
        exact absurd hi (Nat.not_lt_zero i)
      · intro i hi
        exact absurd hi (Nat.not_lt_zero i)
      · intro y _ hy
        exact absurd hy (Nat.not_lt_zero y)
  | next _ hg hstep ih =>
      rcases ih with hpath | hstuck | ⟨hat, hpass⟩
      · exact hpath.step h hs ht hr hpos hg hstep
      · exact Or.inr (Or.inl (hstuck.step h hpos hstep))
      · have hguard := of_decide_eq_true hg
        rw [hat.i] at hguard
        exact absurd ⟨hpass, hguard⟩ hnot

/-- Then it reads only positions. -/
theorem reads_inside_of_reached (h : Searched s t) (hs : string.Holds s) (ht : target.Holds t)
    (hr : replacement.Holds r) (hpos : Positions positions (occurrences t s)) (hbuf : buf.bytes.length = len)
    (hnot : ¬ PassesLast s t r (replaceBound string target replacement positions) len)
    (hv : Reached mem string target replacement positions buf v)
    (hguard : replaceGuard string target replacement positions v = true) : v.n.toSizeT < positions.count := by
  rcases place_of_reached h hs ht hr hpos hbuf hnot hv with
    ⟨j, x, hat, hj, _⟩ | ⟨_, _, j, hj, hn, _⟩ | ⟨hat, hpass⟩
  · rw [hat.n]
    exact (index_lt_iff h hpos hj.le).mpr hj
  · rw [hn]
    exact (index_lt_iff h hpos hj.le).mpr hj
  · have hlast := of_decide_eq_true hguard
    rw [hat.i] at hlast
    exact absurd ⟨hpass, hlast⟩ hnot

/-! ## Results -/

/-- **When replacement reads only real positions.** In every iteration the index at which the vector is read is below
    the count, iff the loop does not get past the last match with its guard holding: two successive matches overlap,
    or the guard fails or a write leaves the buffer on the way there, or the guard fails behind the last match. -/
theorem replace_reads_positions_iff (mem : Behind) (h : Searched s t) (hs : string.Holds s) (ht : target.Holds t)
    (hr : replacement.Holds r) :
    ∃ positions, sxStringSubStringLocations string target = .ok (some positions) ∧
      ∀ buf : Block, buf.bytes.length = (replaceRoom string replacement).toNat →
        ((∀ v, Reached mem string target replacement positions buf v →
            replaceGuard string target replacement positions v = true → v.n.toSizeT < positions.count) ↔
          ¬ PassesLast s t r (replaceBound string target replacement positions)
            (replaceRoom string replacement).toNat) := by
  obtain ⟨positions, hsearch, hpos, _⟩ := h.search hs ht
  refine ⟨positions, hsearch, ?_⟩
  intro buf hbuf
  constructor
  · intro hall hpass
    obtain ⟨v, hruns, hguard, hnot⟩ := reads_behind_of_passesLast mem.vector h hs ht hr hpos hbuf hpass
    exact hnot (hall v hruns.reached hguard)
  · intro hnot v hreach hguard
    exact reads_inside_of_reached h hs ht hr hpos hbuf hnot hreach hguard

/-- The same of the loop of the two functions, which does not read behind the memory of the string. -/
theorem replaceBody_reads_positions_iff (outside : ReplaceVars → IntT) (h : Searched s t) (hs : string.Holds s)
    (ht : target.Holds t) (hr : replacement.Holds r) :
    ∃ positions, sxStringSubStringLocations string target = .ok (some positions) ∧
      ∀ buf : Block, buf.bytes.length = (replaceRoom string replacement).toNat →
        ((∀ v, Runs outside string target replacement positions buf v →
            replaceGuard string target replacement positions v = true → v.n.toSizeT < positions.count) ↔
          ¬ PassesLast s t r (replaceBound string target replacement positions)
            (replaceRoom string replacement).toNat) := by
  obtain ⟨positions, hsearch, hpos, _⟩ := h.search hs ht
  refine ⟨positions, hsearch, ?_⟩
  intro buf hbuf
  constructor
  · intro hall hpass
    obtain ⟨v, hruns, hguard, hnot⟩ := reads_behind_of_passesLast outside h hs ht hr hpos hbuf hpass
    exact hnot (hall v hruns hguard)
  · intro hnot v hruns hguard
    have hreached : Reached ⟨outside, fun _ => 0⟩ string target replacement positions buf v := hruns.reached
    exact reads_inside_of_reached h hs ht hr hpos hbuf hnot hreached hguard

/-! ## Short replacements -/

/-- The counter as a number: `c` characters written. -/
theorem counterAt_eq {c : Nat} (hc : (c : Int) = x + ((r.length : Int) - t.length) * j) :
    counterAt t r x j = BitVec.ofNat 32 c := by
  unfold counterAt
  rw [← hc, BitVec.ofInt_natCast]

/-- The guard on that number. -/
theorem counter_lt_iff {c : Nat} {bound : SizeT} (hc : c < 4294967296) (hfin : bound.toNat < 9223372036854775808) :
    IntT.toSizeT (BitVec.ofNat 32 c) < bound ↔ c < 2147483648 ∧ c < bound.toNat := by
  rw [BitVec.lt_def, toNat_toSizeT_ofNat hc]
  split <;> omega

/-- How many characters have been written when `x` have been read, among them `j` matches. -/
def written (t r : List UInt8) (x j : Nat) : Nat := x - t.length * j + r.length * j

theorem counterAt_written (h : t.length * j ≤ x) : counterAt t r x j = BitVec.ofNat 32 (written t r x j) := by
  apply counterAt_eq
  unfold written
  rw [Int.sub_mul]
  have hcast : ((t.length * j : Nat) : Int) = t.length * j := Int.natCast_mul _ _
  have hcast' : ((r.length * j : Nat) : Int) = r.length * j := Int.natCast_mul _ _
  omega

/-- Behind a match the replacement has been written. -/
theorem written_match (h : t.length * j ≤ x) :
    written t r (x + t.length) (j + 1) = written t r x j + r.length := by
  unfold written
  rw [Nat.mul_succ, Nat.mul_succ]
  omega

/-- What is written only grows. -/
theorem written_le_last (r : List UInt8) (hapart : ∀ i < (occurrences t s).length,
    cutStart t (occurrences t s) i ≤ cutEnd s (occurrences t s) i) :
    ∀ d j, j + d = (occurrences t s).length → written t r (cutStart t (occurrences t s) j) j ≤
      written t r (cutStart t (occurrences t s) (occurrences t s).length) (occurrences t s).length := by
  intro d
  induction d with
  | zero =>
      intro j hj
      obtain rfl : j = (occurrences t s).length := hj
      exact Nat.le_refl _
  | succ d ih =>
      intro j hj
      have hlt : j < (occurrences t s).length := by omega
      have hstart := mul_le_cutStart j hlt.le fun i hi => hapart i (by omega)
      have hgap := hapart j hlt
      have hnext := ih (j + 1) (by omega)
      rw [cutStart_succ_of_lt hlt, written_match (by omega)] at hnext
      refine Nat.le_trans ?_ hnext
      unfold written
      omega

/-- As long as the loop goes on, the counter has not overflowed. -/
theorem written_lt_of_passes {bound : SizeT} (hrlen : r.length < 2147483648)
    (hfin : bound.toNat < 9223372036854775808) :
    ∀ j ≤ (occurrences t s).length, PassesMatches s t r bound len j →
      t.length * j ≤ cutStart t (occurrences t s) j ∧
        written t r (cutStart t (occurrences t s) j) j < 4294967296 := by
  intro j
  induction j with
  | zero =>
      intro _ _
      exact ⟨Nat.le_refl _, by simp [written, cutStart]⟩
  | succ j ih =>
      intro hj hpass
      obtain ⟨hstart, hsmall⟩ := ih (by omega) (hpass.mono (Nat.le_succ j))
      have hgap := hpass.apart j (Nat.lt_succ_self j)
      have hcopied : ∀ d, cutStart t (occurrences t s) j + d ≤ cutEnd s (occurrences t s) j →
          written t r (cutStart t (occurrences t s) j + d) j < 4294967296 := by
        intro d
        induction d with
        | zero =>
            intro _
            exact hsmall
        | succ d ihd =>
            intro hd
            have hbefore := ihd (by omega)
            have hgo := (hpass.copies j (Nat.lt_succ_self j) (cutStart t (occurrences t s) j + d) (by omega)
              (by omega)).1
            rw [counterAt_written (by omega), counter_lt_iff hbefore hfin] at hgo
            unfold written at hgo ⊢
            omega
      have hmatch := hcopied (cutEnd s (occurrences t s) j - cutStart t (occurrences t s) j) (by omega)
      rw [Nat.add_sub_cancel' hgap] at hmatch
      have hgo := (hpass.replaces j (Nat.lt_succ_self j)).1
      rw [counterAt_written (by omega), counter_lt_iff hmatch hfin] at hgo
      rw [cutStart_succ_of_lt hj, Nat.mul_succ, written_match (by omega)]
      omega

/-- **For a replacement whose length an `int` can count**, the loop gets past the last match with its guard holding
    iff no two successive matches overlap, the last one is not the end of the string, and the result up to there is
    not too long for the counter. -/
theorem passesLast_iff_of_short (h : Counted s t r) (hs : string.Holds s) (ht : target.Holds t)
    (hr : replacement.Holds r) (hpos : Positions positions (occurrences t s)) :
    PassesLast s t r (replaceBound string target replacement positions) (replaceRoom string replacement).toNat ↔
      (∀ i < (occurrences t s).length, cutStart t (occurrences t s) i ≤ cutEnd s (occurrences t s) i) ∧
        cutStart t (occurrences t s) (occurrences t s).length < s.length ∧
        written t r (cutStart t (occurrences t s) (occurrences t s).length) (occurrences t s).length <
          2147483648 := by
  have hslen := h.length
  have hrlen := h.replacement
  have htlen := h.occurs.length_le
  have hcount := length_occurrences_le t s
  have hmul : r.length * (occurrences t s).length ≤ 2147483647 * 2147483647 :=
    Nat.mul_le_mul (Nat.le_of_lt_succ hrlen) (by omega)
  have hroom : r.length * (occurrences t s).length ≤ r.length * s.length := Nat.mul_le_mul_left _ hcount
  have hbound (hle : t.length * (occurrences t s).length ≤ s.length) :
      (replaceBound string target replacement positions).toNat = written t r s.length (occurrences t s).length := by
    apply replaceBound_of_nonneg hs ht hr hpos hslen (by omega) rfl hrlen
    · unfold written
      rw [Int.sub_mul]
      have hcast : ((t.length * (occurrences t s).length : Nat) : Int) = t.length * (occurrences t s).length :=
        Int.natCast_mul _ _
      have hcast' : ((r.length * (occurrences t s).length : Nat) : Int) = r.length * (occurrences t s).length :=
        Int.natCast_mul _ _
      omega
    · unfold written
      omega
  have hlast := cutStart_le s t _ (Nat.le_refl _)
  rw [replaceRoom_of_short hs hr hslen hrlen]
  constructor
  · intro hpass
    have hstart := mul_le_cutStart _ (Nat.le_refl _) hpass.apart
    have hB := hbound (by omega)
    have hfin : (replaceBound string target replacement positions).toNat < 9223372036854775808 := by
      rw [hB]
      unfold written
      omega
    obtain ⟨_, hsmall⟩ := written_lt_of_passes hrlen hfin _ (Nat.le_refl _) hpass.toPassesMatches
    have hguard := hpass.last
    rw [counterAt_written hstart, counter_lt_iff hsmall hfin, hB] at hguard
    refine ⟨hpass.apart, ?_, hguard.1⟩
    unfold written at hguard
    omega
  · rintro ⟨hapart, hend, hint⟩
    have hstart := mul_le_cutStart _ (Nat.le_refl _) hapart
    have hB := hbound (by omega)
    have hfin : (replaceBound string target replacement positions).toNat < 9223372036854775808 := by
      rw [hB]
      unfold written
      omega
    have hlt : written t r (cutStart t (occurrences t s) (occurrences t s).length) (occurrences t s).length <
        (replaceBound string target replacement positions).toNat := by
      rw [hB]
      unfold written
      omega
    have hfits : (replaceBound string target replacement positions).toNat + 1 ≤
        s.length + r.length * s.length + 1 := by
      rw [hB]
      unfold written
      omega
    -- what is written anywhere is part of what is written up to the last match
    have hgo {i x size : Nat} (hi : i < (occurrences t s).length) (hx : cutStart t (occurrences t s) i ≤ x)
        (hle : x ≤ cutEnd s (occurrences t s) i)
        (hsize : size ≤ 2 ∨ x = cutEnd s (occurrences t s) i ∧ size = r.length) :
        GoesOn t r (replaceBound string target replacement positions) (s.length + r.length * s.length + 1) x i
          size := by
      have hbefore := mul_le_cutStart i hi.le fun l hl => hapart l (by omega)
      have hnext := written_le_last r hapart ((occurrences t s).length - (i + 1)) (i + 1) (by omega)
      rw [cutStart_succ_of_lt hi, written_match (by omega)] at hnext
      have hmono : written t r x i ≤ written t r (cutEnd s (occurrences t s) i) i := by
        unfold written
        omega
      unfold GoesOn
      rw [counterAt_written (by omega), counter_lt_iff (by omega) hfin, toNat_toSizeT_of_lt (by omega)]
      refine ⟨by omega, ?_⟩
      rcases hsize with hsize | ⟨rfl, rfl⟩ <;> omega
    refine ⟨⟨hapart, ?_, ?_⟩, ?_⟩
    · intro i hi x hx hlt'
      exact hgo hi hx hlt'.le (Or.inl (Nat.le_refl _))
    · intro i hi
      exact hgo hi (hapart i hi) (Nat.le_refl _) (Or.inr ⟨rfl, rfl⟩)
    · rw [counterAt_written hstart, counter_lt_iff (by omega) hfin]
      exact ⟨hint, hlt⟩

end Overrun

/-- Nothing is found behind the vector or the string. -/
def Behind.blank : Behind where
  vector := fun v => v.strPos + 1
  string := fun _ => 0

/-- Replacing `"x"` in `"axbx"` by a character: the last match is the end of the string, and only the two positions
    are read. -/
theorem replace_reads_positions_iff_end :
    ∃ positions, sxStringSubStringLocations (.ofCString textAxbx) (.ofCString textX) = .ok (some positions) ∧
      positions.count = 2 ∧
      ∀ v, Reached .blank (.ofCString textAxbx) (.ofCString textX) (.ofCString textX) positions
          ⟨List.replicate 9 0, by decide⟩ v →
        replaceGuard (.ofCString textAxbx) (.ofCString textX) (.ofCString textX) positions v = true →
        v.n.toSizeT < positions.count := by
  have h : Searched [97, 120, 98, 120] [120] := { nonempty := by decide, occurs := by decide, length := by decide }
  obtain ⟨positions, hsearch, hiff⟩ := replace_reads_positions_iff .blank h (SXString.holds_ofCString textAxbx)
    (SXString.holds_ofCString textX) (SXString.holds_ofCString textX)
  obtain rfl : positions =
      { refCount := 1, count := 2, osize := sizeofInt, slots := [some 1, some 3], dealloc := false } :=
    Option.some.inj (Exec.ok.inj (hsearch.symm.trans (by decide +kernel)))
  refine ⟨_, hsearch, rfl, (hiff ⟨List.replicate 9 0, by decide⟩ (by decide +kernel)).mpr ?_⟩
  intro hpass
  exact absurd hpass.last (by decide +kernel)

/-- The strings `"axb"` and `"y"` as arguments. -/
def textAxb : CString := CString.ofText [97, 120, 98] (by decide) (by decide)
def textY   : CString := CString.ofText [121] (by decide) (by decide)

/-- Replacing `"x"` in `"axb"` by `"y"`: in the third iteration the vector of one position is read at index 1. -/
theorem replace_reads_behind_vector :
    ∃ positions v, sxStringSubStringLocations (.ofCString textAxb) (.ofCString textX) = .ok (some positions) ∧
      Reached .blank (.ofCString textAxb) (.ofCString textX) (.ofCString textY) positions
        ⟨List.replicate 7 0, by decide⟩ v ∧
      replaceGuard (.ofCString textAxb) (.ofCString textX) (.ofCString textY) positions v = true ∧
      positions.count = 1 ∧ v.n.toSizeT = 1 := by
  refine ⟨{ refCount := 1, count := 1, osize := sizeofInt, slots := [some 1], dealloc := false },
    { i := 2, strPos := 2, n := 1, buf := ⟨[97, 121, 0, 0, 0, 0, 0], by decide⟩ }, by decide +kernel, ?_,
    by decide +kernel, rfl, by decide⟩
  have hfirst : Reached .blank (.ofCString textAxb) (.ofCString textX) (.ofCString textY)
      { refCount := 1, count := 1, osize := sizeofInt, slots := [some 1], dealloc := false }
      ⟨List.replicate 7 0, by decide⟩
      { i := 1, strPos := 1, n := 0, buf := ⟨[97, 0, 0, 0, 0, 0, 0], by decide⟩ } :=
    Reached.start.next (by decide +kernel) (by decide +kernel)
  exact hfirst.next (by decide +kernel) (by decide +kernel)

end SpartanX
