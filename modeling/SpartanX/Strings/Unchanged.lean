import SpartanX.Strings.Replace

/-!
# `Strings.Unchanged` — when the loop of the replacement ends with the string itself

This concerns every replacement, also one whose length an `int` cannot count. While the buffer shows the string, the
counter stands at its end (`Tracking`); so the counter takes the replacement to be as long as the target
(`wraps_of_shown`). It then runs along with the place in the string (`InStep`), and the end of a longer replacement
is either still in the buffer or has been written over by the characters behind the match (`Replaced`).

## Contents
- **The length that the counter sees.** `stride`, `replaceBound_of_stride`.
- **Any replacement.** `Tracking`, `Overshot`, and the run lemma `wraps_of_shown`.
- **A replacement that seems as long as the target.** `InStep`, `Replaced`, `overlong_of_shown`, `shown_of_overlong`.
- **The loop.** `replaceLoop_shows_iff`.
-/

namespace SpartanX

open CInt CMemory Occurrences

/-! ## The length that the counter sees -/

/-- What an `int` takes the length of the replacement to be. -/
def stride (r : List UInt8) : Int := (BitVec.ofNat 32 r.length : IntT).toInt

section Unchanged

variable {s t r a₁ a₂ : List UInt8} {string target replacement : SXString} {positions : SXVector IntT}
  {outside : ReplaceVars → IntT} {v v' : ReplaceVars} {n len fuel : Nat} {buf : Block}

theorem stride_eq (r : List UInt8) :
    stride r = ((r.length : Int) % 4294967296 + 2147483648) % 4294967296 - 2147483648 := by
  unfold stride
  simp only [BitVec.toInt_eq_toNat_bmod, BitVec.toNat_ofNat, Int.bmod_def]
  omega

/-- The counter behind a match, as long as it is not negative. -/
theorem add_stride {c : Nat} (hc : c < 2147483648) (h : (c + r.length) % 4294967296 < 2147483648) :
    (((c + r.length) % 4294967296 : Nat) : Int) = c + stride r := by
  rw [stride_eq]
  omega

/-- A replacement that the counter takes to be as long as the target. -/
theorem stride_eq_iff (ht : t.length < 2147483648) : stride r = t.length ↔ r.length % 4294967296 = t.length := by
  rw [stride_eq]
  omega

/-- The bound of the loop for one that it takes to be `d` longer. -/
theorem replaceBound_of_stride {d : Nat} (h : Findable t s) (hs : string.Holds s) (ht : target.Holds t)
    (hr : replacement.Holds r) (hpos : Positions positions (occurrences t s)) (hd : stride r = t.length + d) :
    (replaceBound string target replacement positions).toNat = s.length + d * (occurrences t s).length := by
  have hslen := h.length
  have htlen := h.occurs.length_le
  have hcount := length_occurrences_le t s
  have hR : (BitVec.ofNat 32 r.length : IntT) = BitVec.ofNat 32 (t.length + d) := by
    have hself := BitVec.ofInt_toInt (x := (BitVec.ofNat 32 r.length : IntT))
    have hcast : (t.length : Int) + d = ((t.length + d : Nat) : Int) := by omega
    unfold stride at hd
    rw [← hself, hd, hcast, BitVec.ofInt_natCast]
  have hlt : t.length + d < 2147483648 := by
    rw [stride_eq] at hd
    omega
  have hmul : d * (occurrences t s).length ≤ 2147483647 * 2147483647 := Nat.mul_le_mul (by omega) (by omega)
  apply replaceBound_of_nonneg hs ht hr hpos hslen (by omega) hR hlt
  · have hdiff : ((t.length + d : Nat) : Int) - t.length = d := by omega
    rw [hdiff, Int.natCast_add, Int.natCast_mul]
  · omega

/-- If the matches have not made the counter smaller, the replacement does not seem shorter than the target. -/
theorem exists_stride {k : Nat} (hk : 0 < k) (h : 0 ≤ (stride r - t.length) * k) :
    ∃ d : Nat, stride r = t.length + d := by
  have hnonneg : 0 ≤ stride r - t.length := by
    by_contra hneg
    have hprod := Int.mul_neg_of_neg_of_pos (show stride r - t.length < 0 by omega) (show (0 : Int) < k by omega)
    omega
  exact ⟨(stride r - t.length).toNat, by omega⟩

/-- All positions are used when nothing is left to read. -/
theorem Reading.done (hi : Reading s t v a₁ [] n) : n = (occurrences t s).length := by
  have hdrop := congrArg List.length hi.found
  have hused := hi.used
  simp only [List.length_drop, occurrences_nil, List.map_nil, List.length_nil] at hdrop
  omega

/-- Something is used by then. -/
theorem Reading.pos_of_done (h : Findable t s) (hi : Reading s t v a₁ [] n) : 0 < n := by
  rw [hi.done]
  exact List.length_pos_of_ne_nil ((occurrences_ne_nil_iff h.nonempty).mpr h.occurs)

/-! ## Any replacement -/

/-- The invariant of every run: the counter counts what has been read, with matches as long as it takes them to be;
    for a replacement whose length it can count, nothing has been written behind it; and while the buffer shows the
    string, it stands at the end of it. -/
structure Tracking (s t r : List UInt8) (v : ReplaceVars) (a₁ a₂ : List UInt8) (j : Nat) : Prop
    extends Reading s t v a₁ a₂ j where
  exact : v.i.toNat < 2147483648 → (v.i.toNat : Int) = a₁.length + (stride r - t.length) * j
  blank : r.length < 2147483648 → ∀ m, v.i.toNat ≤ m → ∀ x, v.buf.bytes[m]? = some x → x = 0
  shown : v.buf.Holds s → v.i.toNat = s.length

/-- Behind the end of the string, whose terminator has been written inside it. -/
structure Overshot (s t : List UInt8) (v : ReplaceVars) : Prop where
  n   : v.n = BitVec.ofNat 32 (occurrences t s).length
  cut : ∃ m < s.length, m < v.i.toNat ∧ v.buf.bytes[m]? = some 0

/-- A write that succeeds begins at a counter that is not negative. -/
theorem store_counter {data : List UInt8} (hstore : v.buf.store v.i.toSizeT.toNat data = .ok buf) :
    v.i.toNat < 2147483648 ∧ v.buf.store v.i.toNat data = .ok buf := by
  have hle := (Block.store_eq_ok.mp hstore).1
  have hfits := v.buf.fits
  have hlt : v.i.toNat < 2147483648 := toNat_lt_of_toSizeT (by omega)
  rw [toNat_toSizeT_of_nonneg hlt] at hstore
  exact ⟨hlt, hstore⟩

theorem toNat_pastMatch_i (hr : replacement.Holds r) (hi : v.i.toNat < 2147483648) :
    (v.pastMatch target replacement buf).i.toNat = (v.i.toNat + r.length) % 4294967296 := by
  rw [pastMatch_i hr (show v.i = BitVec.ofNat 32 v.i.toNat by simp) hi, BitVec.toNat_ofNat]

theorem toNat_pastChar_i (hi : v.i.toNat < 2147483648) : (v.pastChar buf).i.toNat = v.i.toNat + 1 := by
  rw [pastChar_i (show v.i = BitVec.ofNat 32 v.i.toNat by simp), BitVec.toNat_ofNat]
  omega

/-- A match keeps the invariant: what is written covers the end of the string, or stays before it, and then the
    byte behind it is blank. -/
theorem Tracking.pastMatch (h : Findable t s) (ht : target.Holds t) (hr : replacement.Holds r)
    (hi : Tracking s t r v a₁ (t ++ a₂) n) (hstore : v.buf.store v.i.toSizeT.toNat r = .ok buf) :
    Tracking s t r (v.pastMatch target replacement buf) (a₁ ++ t) a₂ (n + 1) := by
  obtain ⟨hint, hstore⟩ := store_counter hstore
  have hslen := h.length
  have hcounter : (v.pastMatch target replacement buf).i.toNat = (v.i.toNat + r.length) % 4294967296 :=
    toNat_pastMatch_i hr hint
  have hexact := hi.exact hint
  refine { toReading := hi.toReading.pastMatch replacement h ht buf, exact := ?_, blank := ?_, shown := ?_ }
  · intro hlt
    rw [hcounter] at hlt ⊢
    rw [add_stride hint hlt, hexact, List.length_append, Int.natCast_add, Int.natCast_succ, Int.mul_add]
    omega
  · intro hrlen m hm x hx
    rw [hcounter] at hm
    replace hx : buf.bytes[m]? = some x := hx
    rw [Block.store_frame hstore (Or.inr (by omega))] at hx
    exact hi.blank hrlen m (by omega) x hx
  · intro hholds
    replace hholds : buf.Holds s := hholds
    rw [hcounter]
    rcases Nat.lt_or_ge s.length v.i.toNat with hbehind | hbefore
    · -- the write begins behind the end
      have hold : v.buf.Holds s := hholds.congr fun m hm => (Block.store_frame hstore (Or.inl (by omega))).symm
      have hat := hi.shown hold
      omega
    · rcases Nat.lt_or_ge s.length (v.i.toNat + r.length) with hover | hshort
      · -- it covers the end
        have hbyte := Block.store_at (k := s.length - v.i.toNat) hstore (by omega)
        rw [Nat.add_sub_cancel' hbefore, hholds.terminated] at hbyte
        exact absurd (List.mem_of_getElem? hbyte.symm) hr.chars.1
      · -- it ends before the end, or there
        rw [Nat.mod_eq_of_lt (by omega)]
        by_contra hne
        have hlt := hholds.length_lt
        have hget := hi.blank (by omega) (v.i.toNat + r.length) (by omega)
        rw [← Block.store_frame hstore (Or.inr (Nat.le_refl _)), hholds.getElem? (by omega)] at hget
        have hzero := hget _ (List.getElem?_eq_getElem (by omega))
        exact hholds.1 (hzero ▸ List.getElem_mem _)

/-- So does a character: its terminator lies inside the string, or at its end, where the counter then is. -/
theorem Tracking.pastChar {x : UInt8} (hs : string.Holds s) (hmiss : ¬ t <+: x :: a₂)
    (hi : Tracking s t r v a₁ (x :: a₂) n) (hstore : v.buf.store v.i.toSizeT.toNat [x, 0] = .ok buf) :
    Tracking s t r (v.pastChar buf) (a₁ ++ [x]) a₂ n := by
  obtain ⟨hint, hstore⟩ := store_counter hstore
  have hcounter : (v.pastChar buf).i.toNat = v.i.toNat + 1 := toNat_pastChar_i hint
  have hexact := hi.exact hint
  have hchar : buf.bytes[v.i.toNat]? = some x := Block.store_at (k := 0) hstore (by simp)
  have hnul : buf.bytes[v.i.toNat + 1]? = some 0 := Block.store_at (k := 1) hstore (by simp)
  refine { toReading := hi.toReading.pastChar hmiss buf, exact := ?_, blank := ?_, shown := ?_ }
  · intro _
    rw [hcounter, List.length_append, List.length_singleton]
    omega
  · intro hrlen m hm y hy
    rw [hcounter] at hm
    replace hy : buf.bytes[m]? = some y := hy
    rcases Nat.lt_or_eq_of_le hm with hlt | rfl
    · rw [Block.store_frame hstore (Or.inr (show v.i.toNat + 2 ≤ m from hlt))] at hy
      exact hi.blank hrlen m (by omega) y hy
    · exact Option.some.inj (hy.symm.trans hnul)
  · intro hholds
    replace hholds : buf.Holds s := hholds
    rw [hcounter]
    rcases Nat.lt_trichotomy v.i.toNat s.length with hbefore | hat | hbehind
    · -- the terminator of the character is not inside the string
      by_contra hne
      exact hholds.getElem?_ne_nul (show v.i.toNat + 1 < s.length by omega) hnul
    · -- the character is not NUL
      rw [hat, hholds.terminated] at hchar
      obtain rfl := Option.some.inj hchar
      have hmem : (0 : UInt8) ∈ s := by
        rw [hi.string]
        simp
      exact absurd hmem hs.chars.1
    · have hold : v.buf.Holds s := hholds.congr fun m hm => (Block.store_frame hstore (Or.inl (by omega))).symm
      have hat := hi.shown hold
      omega

/-- At the end of the string the guard holds only if the counter is inside it. -/
theorem Tracking.pastEnd (h : Findable t s) (hs : string.Holds s) (ht : target.Holds t) (hr : replacement.Holds r)
    (hpos : Positions positions (occurrences t s)) (hi : Tracking s t r v a₁ [] n)
    (hg : v.i.toSizeT < replaceBound string target replacement positions)
    (hstore : v.buf.store v.i.toSizeT.toNat [0, 0] = .ok buf) : Overshot s t (v.pastChar buf) := by
  obtain ⟨hint, hstore⟩ := store_counter hstore
  have hexact := hi.exact hint
  have hread := hi.string
  rw [List.append_nil] at hread
  rw [← hread] at hexact
  refine ⟨by rw [← hi.done]; exact hi.n, v.i.toNat, ?_, ?_, Block.store_at (k := 0) hstore (by simp)⟩
  · by_contra hge
    obtain ⟨d, hd⟩ := exists_stride (r := r) (t := t) (hi.pos_of_done h) (by omega)
    have hB := replaceBound_of_stride h hs ht hr hpos hd
    have hdiff : stride r - t.length = d := by omega
    rw [hdiff, hi.done] at hexact
    rw [BitVec.lt_def, toNat_toSizeT_of_nonneg hint, hB] at hg
    have hcast : ((d * (occurrences t s).length : Nat) : Int) = d * (occurrences t s).length := Int.natCast_mul _ _
    omega
  · rw [toNat_pastChar_i hint]
    omega

/-- From there on characters are copied, behind that terminator. -/
theorem Overshot.step (h : Findable t s) (hpos : Positions positions (occurrences t s))
    (houtside : v.n = BitVec.ofNat 32 (occurrences t s).length → outside v ≠ v.strPos) (hi : Overshot s t v)
    (hbody : replaceBody outside string target replacement positions v = .ok v') : Overshot s t v' := by
  have hslen := h.length
  have hcount := length_occurrences_le t s
  have hnot : v.strPos ≠ positionAt outside positions v := by
    unfold positionAt
    rw [hi.n, hpos.read (by omega), List.getElem?_eq_none (Nat.le_refl _)]
    exact (houtside hi.n).symm
  obtain ⟨m, hm, hmi, hnul⟩ := hi.cut
  unfold replaceBody at hbody
  rw [if_neg hnot] at hbody
  obtain ⟨ch, hload, hrest⟩ := Exec.bind_eq_ok.mp hbody
  obtain ⟨buf, hstore, hret⟩ := Exec.bind_eq_ok.mp hrest
  obtain rfl := Exec.ok.inj hret
  obtain ⟨hint, hstore⟩ := store_counter hstore
  have hcounter : (v.pastChar buf).i.toNat = v.i.toNat + 1 := toNat_pastChar_i hint
  refine ⟨hi.n, m, hm, ?_, (Block.store_frame hstore (Or.inl hmi)).trans hnul⟩
  show m < (v.pastChar buf).i.toNat
  omega

/-- **The step lemma.** -/
theorem tracking_step (h : Findable t s) (hs : string.Holds s) (ht : target.Holds t) (hr : replacement.Holds r)
    (hpos : Positions positions (occurrences t s))
    (houtside : ∀ v, v.n = BitVec.ofNat 32 (occurrences t s).length → outside v ≠ v.strPos) (v v' : ReplaceVars)
    (hi : (∃ a₁ a₂ n, Tracking s t r v a₁ a₂ n) ∨ Overshot s t v)
    (hg : decide (v.i.toSizeT < replaceBound string target replacement positions) = true)
    (hbody : replaceBody outside string target replacement positions v = .ok v') :
    (∃ a₁ a₂ n, Tracking s t r v' a₁ a₂ n) ∨ Overshot s t v' := by
  rcases hi with ⟨a₁, a₂, n, hi⟩ | hi
  · have hiff := hi.at_position_iff h hpos (houtside v)
    have hload := hi.load hs h.length
    cases a₂ with
    | nil =>
        have hnot : ¬ t <+: [] := fun hpre => h.nonempty (List.prefix_nil.mp hpre)
        rw [replaceBody_copy hload (mt hiff.mp hnot)] at hbody
        obtain ⟨buf, hstore, hret⟩ := Exec.bind_eq_ok.mp hbody
        obtain rfl := Exec.ok.inj hret
        exact Or.inr (hi.pastEnd h hs ht hr hpos (of_decide_eq_true hg) hstore)
    | cons x a₂ =>
        by_cases hhit : t <+: x :: a₂
        · rw [replaceBody_replace hr (hiff.mpr hhit)] at hbody
          obtain ⟨buf, hstore, hret⟩ := Exec.bind_eq_ok.mp hbody
          obtain rfl := Exec.ok.inj hret
          obtain ⟨rest, hrest⟩ := hhit
          rw [← hrest] at hi
          exact Or.inl ⟨_, _, _, hi.pastMatch h ht hr hstore⟩
        · rw [replaceBody_copy hload (mt hiff.mp hhit)] at hbody
          obtain ⟨buf, hstore, hret⟩ := Exec.bind_eq_ok.mp hbody
          obtain rfl := Exec.ok.inj hret
          exact Or.inl ⟨_, _, _, hi.pastChar hs hhit hstore⟩
  · exact Or.inr (hi.step h hpos (houtside v) hbody)

/-- At the start the buffer shows nothing. -/
theorem Tracking.start (h : Findable t s) (r : List UInt8) (hbuf : buf.bytes = List.replicate len 0) :
    Tracking s t r { i := 0, strPos := 0, n := 0, buf := buf } [] s 0 := by
  have hblank (m : Nat) (x : UInt8) (hx : buf.bytes[m]? = some x) : x = 0 := by
    rw [hbuf] at hx
    exact List.eq_of_mem_replicate (List.mem_of_getElem? hx)
  refine { toReading := .start s t buf, exact := fun _ => by simp, blank := fun _ m _ => hblank m, shown := ?_ }
  intro hholds
  replace hholds : buf.Holds s := hholds
  have hslen : 0 < s.length := Nat.lt_of_lt_of_le (List.length_pos_of_ne_nil h.nonempty) h.occurs.length_le
  have hfirst := hholds.getElem? hslen
  rw [List.getElem?_eq_getElem hslen] at hfirst
  exact absurd (hblank 0 _ hfirst ▸ List.getElem_mem hslen) hholds.1

/-- **If the loop ends with the string in the buffer**, then the replacement is as long as the target, as far as an
    `int` can tell. -/
theorem wraps_of_shown (h : Findable t s) (hs : string.Holds s) (ht : target.Holds t) (hr : replacement.Holds r)
    (hpos : Positions positions (occurrences t s))
    (houtside : ∀ v, v.n = BitVec.ofNat 32 (occurrences t s).length → outside v ≠ v.strPos)
    (hbuf : buf.bytes = List.replicate len 0)
    (hloop : Exec.loop (fun v => v.i.toSizeT < replaceBound string target replacement positions)
      (replaceBody outside string target replacement positions) fuel { i := 0, strPos := 0, n := 0, buf := buf } =
        .ok v) (hholds : v.buf.Holds s) : r.length % 4294967296 = t.length := by
  have hslen := h.length
  have htlen := h.occurs.length_le
  obtain ⟨hi, hend⟩ := Exec.loop_keeps (tracking_step h hs ht hr hpos houtside)
    (Or.inl ⟨[], s, 0, .start h r hbuf⟩) hloop
  rcases hi with ⟨a₁, a₂, n, hi⟩ | ⟨_, m, hm, _, hnul⟩
  · have hat := hi.shown hholds
    have hread := hi.length_eq
    have hexact := hi.exact (by omega)
    have hn : 0 < n := by
      -- without a match the counter is at the end only when all has been read
      by_contra hzero
      obtain rfl : n = 0 := by omega
      rw [Int.natCast_zero, Int.mul_zero] at hexact
      obtain rfl : a₂ = [] := List.length_eq_zero_iff.mp (by omega)
      exact absurd (hi.pos_of_done h) (Nat.lt_irrefl 0)
    obtain ⟨d, hd⟩ := exists_stride (r := r) (t := t) hn (by omega)
    have hguard := of_decide_eq_false hend
    rw [BitVec.lt_def, toNat_toSizeT_of_nonneg (by omega), replaceBound_of_stride h hs ht hr hpos hd, hat] at hguard
    have hzero : d * (occurrences t s).length = 0 := by omega
    rcases Nat.mul_eq_zero.mp hzero with rfl | hnone
    · exact (stride_eq_iff (by omega)).mp (by omega)
    · have hused := hi.used
      omega
  · exact absurd hnul (hholds.getElem?_ne_nul hm)

/-! ## A replacement that seems as long as the target -/

/-- The counter is the place in the string. -/
structure InStep (s t : List UInt8) (len : Nat) (v : ReplaceVars) (a₁ a₂ : List UInt8) (j : Nat) : Prop
    extends Reading s t v a₁ a₂ j where
  i    : v.i = BitVec.ofNat 32 a₁.length
  room : v.buf.bytes.length = len

/-- A replacement that begins with the target and is longer by a multiple of 2^32 characters. Wherever the target is
    found it fits into the buffer, the size of which is computed in `size_t`; and the target is not the end of the
    string, so that the characters behind it are written over the rest of each replacement. -/
structure Overlong (s t r : List UInt8) : Prop where
  begins : t <+: r
  wraps  : r.length % 4294967296 = t.length
  room   : (s.length + r.length * s.length + 1) % 18446744073709551616 < 9223372036854775808
  fits   : ∀ e ∈ occurrences t s, e + r.length ≤ (s.length + r.length * s.length + 1) % 18446744073709551616
  inside : ¬ t <:+ s

/-- A match that has been replaced: the place of the target shows the beginning of the replacement, and if that is
    longer, the byte behind the string is not NUL until a character has been copied. -/
structure Replaced (s t r : List UInt8) (len : Nat) (v : ReplaceVars) (a₁ : List UInt8) (e : Nat) : Prop where
  passed : e + t.length ≤ a₁.length
  fits   : e + r.length ≤ len
  begins : ∀ m < t.length, v.buf.bytes[e + m]? = r[m]?
  behind : r.length = t.length ∨ v.buf.bytes[s.length]? ≠ some 0 ∨ e + t.length < a₁.length

theorem InStep.toNat_i (hlen : s.length < 2147483648) (hi : InStep s t len v a₁ a₂ n) :
    v.i.toSizeT.toNat = a₁.length := by
  have hread := hi.length_eq
  rw [hi.i, toNat_toSizeT_of_lt (by omega)]

/-- Its loop goes on until everything is read. -/
theorem InStep.guard_iff (h : Findable t s) (hs : string.Holds s) (ht : target.Holds t) (hr : replacement.Holds r)
    (hpos : Positions positions (occurrences t s)) (hwraps : r.length % 4294967296 = t.length)
    (hi : InStep s t len v a₁ a₂ n) :
    decide (v.i.toSizeT < replaceBound string target replacement positions) = true ↔ a₂ ≠ [] := by
  have hslen := h.length
  have htlen := h.occurs.length_le
  have hread := hi.length_eq
  have hd : stride r = t.length + (0 : Nat) := by
    rw [Int.natCast_zero, Int.add_zero]
    exact (stride_eq_iff (by omega)).mpr hwraps
  rw [decide_eq_true_eq, BitVec.lt_def, replaceBound_of_stride h hs ht hr hpos hd, hi.toNat_i hslen, Nat.zero_mul,
    Nat.add_zero, ← List.length_pos_iff]
  omega

theorem InStep.pastMatch (h : Findable t s) (ht : target.Holds t) (hr : replacement.Holds r)
    (hwraps : r.length % 4294967296 = t.length) (hi : InStep s t len v a₁ (t ++ a₂) n)
    (hstore : v.buf.store a₁.length r = .ok buf) :
    InStep s t len (v.pastMatch target replacement buf) (a₁ ++ t) a₂ (n + 1) := by
  have hslen := h.length
  have hread := hi.length_eq
  refine { toReading := hi.toReading.pastMatch replacement h ht buf, i := ?_, room := ?_ }
  · apply BitVec.eq_of_toNat_eq
    rw [pastMatch_i hr hi.i (by omega), BitVec.toNat_ofNat, BitVec.toNat_ofNat, List.length_append]
    omega
  · show buf.bytes.length = _
    rw [Block.length_store hstore, hi.room]

theorem InStep.pastChar {x : UInt8} (hmiss : ¬ t <+: x :: a₂) (hi : InStep s t len v a₁ (x :: a₂) n)
    (hstore : v.buf.store a₁.length [x, 0] = .ok buf) : InStep s t len (v.pastChar buf) (a₁ ++ [x]) a₂ n := by
  refine { toReading := hi.toReading.pastChar hmiss buf, i := ?_, room := ?_ }
  · rw [pastChar_i hi.i, List.length_append, List.length_singleton]
  · show buf.bytes.length = _
    rw [Block.length_store hstore, hi.room]

/-- The body at a match, -/
theorem InStep.body_match (h : Findable t s) (hr : replacement.Holds r) (hpos : Positions positions (occurrences t s))
    (houtside : v.n = BitVec.ofNat 32 (occurrences t s).length → outside v ≠ v.strPos)
    (hi : InStep s t len v a₁ (t ++ a₂) n) :
    replaceBody outside string target replacement positions v = (do
      let buf ← v.buf.store a₁.length r
      pure (v.pastMatch target replacement buf)) := by
  have hat := (hi.at_position_iff h hpos houtside).mpr (List.prefix_append t a₂)
  rw [replaceBody_replace hr hat, hi.toNat_i h.length]

/-- and at a character. -/
theorem InStep.body_char {x : UInt8} (h : Findable t s) (hs : string.Holds s)
    (hpos : Positions positions (occurrences t s))
    (houtside : v.n = BitVec.ofNat 32 (occurrences t s).length → outside v ≠ v.strPos) (hmiss : ¬ t <+: x :: a₂)
    (hi : InStep s t len v a₁ (x :: a₂) n) :
    replaceBody outside string target replacement positions v = (do
      let buf ← v.buf.store a₁.length [x, 0]
      pure (v.pastChar buf)) := by
  have hnot := mt (hi.at_position_iff h hpos houtside).mp hmiss
  rw [replaceBody_copy (hi.load hs h.length) hnot, hi.toNat_i h.length, List.headD_cons]

/-- The positions used after a match are those before it and the match. -/
theorem Reading.used_succ (h : Findable t s) (hi : Reading s t v a₁ (t ++ a₂) n) :
    (occurrences t s).take (n + 1) = (occurrences t s).take n ++ [a₁.length] := by
  have hhead : (occurrences t s)[n]? = some a₁.length := by
    rw [← List.head?_drop, hi.found, h.borderFree.occurrences_append h.nonempty a₂]
    simp
  rw [List.take_add_one, hhead]
  rfl

/-- A later write leaves a replaced match as it is. -/
theorem Replaced.later {data a : List UInt8} {e : Nat} (hstore : v.buf.store a₁.length data = .ok v'.buf)
    (hle : a₁.length < a.length) (hi : Replaced s t r len v a₁ e) : Replaced s t r len v' a e where
  passed := Nat.le_trans hi.passed hle.le
  fits   := hi.fits
  begins := by
    intro m hm
    have hpassed := hi.passed
    rw [Block.store_frame hstore (Or.inl (by omega)), hi.begins m hm]
  behind := Or.inr (Or.inr (Nat.lt_of_le_of_lt hi.passed hle))

/-- The match that has just been replaced. -/
theorem Replaced.new (h : Findable t s) (hr : replacement.Holds r) (hwraps : r.length % 4294967296 = t.length)
    (hi : InStep s t len v a₁ (t ++ a₂) n) (hstore : v.buf.store a₁.length r = .ok v'.buf) :
    Replaced s t r len v' (a₁ ++ t) a₁.length := by
  have hslen := h.length
  have hread := hi.length_eq
  have hfits := (Block.store_eq_ok.mp hstore).1
  refine ⟨by rw [List.length_append], by rw [← hi.room]; exact hfits, ?_, ?_⟩
  · intro m hm
    exact Block.store_at hstore (by omega)
  · rcases Nat.lt_or_ge r.length 4294967296 with hshort | hlong
    · exact Or.inl (by omega)
    · -- the end of the string lies under the replacement
      have hbyte := Block.store_at (k := s.length - a₁.length) hstore (by omega)
      rw [Nat.add_sub_cancel' (by omega)] at hbyte
      refine Or.inr (Or.inl ?_)
      rw [hbyte]
      exact fun hnul => hr.chars.1 (List.mem_of_getElem? hnul)

/-- **The step lemma**: what has been replaced stays so. -/
theorem replaced_step (h : Findable t s) (hs : string.Holds s) (ht : target.Holds t) (hr : replacement.Holds r)
    (hpos : Positions positions (occurrences t s)) (hwraps : r.length % 4294967296 = t.length)
    (houtside : ∀ v, v.n = BitVec.ofNat 32 (occurrences t s).length → outside v ≠ v.strPos) (v v' : ReplaceVars)
    (hi : ∃ a₁ a₂ n, InStep s t len v a₁ a₂ n ∧ ∀ e ∈ (occurrences t s).take n, Replaced s t r len v a₁ e)
    (hg : decide (v.i.toSizeT < replaceBound string target replacement positions) = true)
    (hbody : replaceBody outside string target replacement positions v = .ok v') :
    ∃ a₁ a₂ n, InStep s t len v' a₁ a₂ n ∧ ∀ e ∈ (occurrences t s).take n, Replaced s t r len v' a₁ e := by
  obtain ⟨a₁, a₂, n, hi, hall⟩ := hi
  cases a₂ with
  | nil => exact absurd rfl ((hi.guard_iff h hs ht hr hpos hwraps).mp hg)
  | cons x a₂ =>
      by_cases hhit : t <+: x :: a₂
      · obtain ⟨rest, hrest⟩ := hhit
        rw [← hrest] at hi
        rw [hi.body_match h hr hpos (houtside v)] at hbody
        obtain ⟨buf, hstore, hret⟩ := Exec.bind_eq_ok.mp hbody
        obtain rfl := Exec.ok.inj hret
        have htpos := List.length_pos_of_ne_nil h.nonempty
        refine ⟨_, _, _, hi.pastMatch h ht hr hwraps hstore, ?_⟩
        intro e he
        rw [hi.used_succ h] at he
        rcases List.mem_append.mp he with hold | hnew
        · exact (hall e hold).later hstore (by rw [List.length_append]; omega)
        · obtain rfl := List.mem_singleton.mp hnew
          exact .new h hr hwraps hi hstore
      · rw [hi.body_char h hs hpos (houtside v) hhit] at hbody
        obtain ⟨buf, hstore, hret⟩ := Exec.bind_eq_ok.mp hbody
        obtain rfl := Exec.ok.inj hret
        refine ⟨_, _, _, hi.pastChar hhit hstore, ?_⟩
        intro e he
        exact (hall e he).later hstore (by rw [List.length_append, List.length_singleton]; omega)

/-- What the end of a run tells of the replacement, if the string is in the buffer then. -/
theorem overlong_of_replaced (h : Findable t s)
    (hroom : (s.length + r.length * s.length + 1) % 18446744073709551616 = len) (hfits : len < 9223372036854775808)
    (hwraps : r.length % 4294967296 = t.length) (hholds : v.buf.Holds s)
    (hall : ∀ e ∈ occurrences t s, Replaced s t r len v s e) : r = t ∨ Overlong s t r := by
  have hslen := h.length
  have htlen := h.occurs.length_le
  have hbegins : t <+: r := by
    obtain ⟨e, he⟩ := List.exists_mem_of_ne_nil _ ((occurrences_ne_nil_iff h.nonempty).mpr h.occurs)
    obtain ⟨_, rest, hrest⟩ := mem_occurrences.mp he
    have hend := occurrence_fits he
    rw [List.prefix_iff_eq_take]
    apply List.ext_getElem?
    intro m
    rcases Nat.lt_or_ge m t.length with hm | hm
    · have hchar := (hall e he).begins m hm
      rw [hholds.getElem? (by omega), ← List.getElem?_drop, ← hrest, List.getElem?_append_left hm] at hchar
      rw [List.getElem?_take_of_lt hm, hchar]
    · rw [List.getElem?_take_eq_none hm, List.getElem?_eq_none hm]
  by_cases hsuf : t <:+ s
  · -- nothing is copied behind the last match
    left
    obtain ⟨rest, hrest⟩ := hsuf
    have hsum : s.length = rest.length + t.length := by rw [← hrest, List.length_append]
    have he : rest.length ∈ occurrences t s := by
      rw [mem_occurrences_iff h.nonempty, ← hrest, List.drop_left]
    rcases (hall _ he).behind with hlen | hbyte | hcopied
    · exact (hbegins.eq_of_length hlen.symm).symm
    · exact absurd hholds.terminated hbyte
    · omega
  · right
    exact { begins := hbegins
            wraps  := hwraps
            room   := by omega
            fits   := fun e he => by rw [hroom]; exact (hall e he).fits
            inside := hsuf }

/-- The loop ends with the string in the buffer only for such replacements. -/
theorem overlong_of_shown (h : Findable t s) (hs : string.Holds s) (ht : target.Holds t) (hr : replacement.Holds r)
    (hpos : Positions positions (occurrences t s))
    (houtside : ∀ v, v.n = BitVec.ofNat 32 (occurrences t s).length → outside v ≠ v.strPos)
    (hbuf : buf.bytes = List.replicate (replaceRoom string replacement).toNat 0)
    (hloop : Exec.loop (fun v => v.i.toSizeT < replaceBound string target replacement positions)
      (replaceBody outside string target replacement positions) fuel { i := 0, strPos := 0, n := 0, buf := buf } =
        .ok v) (hholds : v.buf.Holds s) : r = t ∨ Overlong s t r := by
  have hwraps := wraps_of_shown h hs ht hr hpos houtside hbuf hloop hholds
  have hlen : buf.bytes.length = (replaceRoom string replacement).toNat := by rw [hbuf, List.length_replicate]
  have hstart : InStep s t (replaceRoom string replacement).toNat { i := 0, strPos := 0, n := 0, buf := buf }
      [] s 0 :=
    { toReading := .start s t buf, i := rfl, room := hlen }
  obtain ⟨⟨a₁, a₂, n, hi, hall⟩, hend⟩ := Exec.loop_keeps (replaced_step h hs ht hr hpos hwraps houtside)
    ⟨[], s, 0, hstart, fun e he => by simp at he⟩ hloop
  have hdone : a₂ = [] := by
    by_contra hne
    rw [(hi.guard_iff h hs ht hr hpos hwraps).mpr hne] at hend
    cases hend
  subst hdone
  have hread := hi.string
  rw [List.append_nil] at hread
  subst hread
  rw [hi.done, List.take_length] at hall
  have hfits := buf.fits
  exact overlong_of_replaced h (toNat_replaceRoom hs hr).symm (by omega) hwraps hholds hall

/-- The string is in the buffer as far as it has been read. The byte behind that is NUL, unless the last thing that
    has been read is a match. -/
structure Restored (s t : List UInt8) (len : Nat) (v : ReplaceVars) (a₁ a₂ : List UInt8) (j : Nat) : Prop
    extends InStep s t len v a₁ a₂ j where
  read : v.buf.bytes.take a₁.length = a₁
  next : a₁ = [] ∨ t <:+ a₁ ∨ v.buf.bytes[a₁.length]? = some 0

/-- Writing behind what has been read. -/
theorem take_of_store {data : List UInt8} (hread : v.buf.bytes.take a₁.length = a₁)
    (hstore : v.buf.store a₁.length data = .ok buf) : ∃ rest, buf.bytes = a₁ ++ data ++ rest := by
  obtain ⟨_, hbytes⟩ := Block.store_eq_ok.mp hstore
  rw [hread] at hbytes
  exact ⟨_, hbytes⟩

theorem Restored.pastMatch (h : Findable t s) (ht : target.Holds t) (hr : replacement.Holds r)
    (hwraps : r.length % 4294967296 = t.length) (hbegins : t <+: r) (hi : Restored s t len v a₁ (t ++ a₂) n)
    (hstore : v.buf.store a₁.length r = .ok buf) :
    Restored s t len (v.pastMatch target replacement buf) (a₁ ++ t) a₂ (n + 1) := by
  obtain ⟨rest, hbytes⟩ := take_of_store hi.read hstore
  obtain ⟨more, rfl⟩ := hbegins
  refine { toInStep := hi.toInStep.pastMatch h ht hr hwraps hstore, read := ?_
           next := Or.inr (Or.inl (List.suffix_append a₁ t)) }
  show buf.bytes.take _ = _
  rw [hbytes, ← List.append_assoc, List.append_assoc, List.take_left]

theorem Restored.pastChar {x : UInt8} (hmiss : ¬ t <+: x :: a₂) (hi : Restored s t len v a₁ (x :: a₂) n)
    (hstore : v.buf.store a₁.length [x, 0] = .ok buf) : Restored s t len (v.pastChar buf) (a₁ ++ [x]) a₂ n := by
  obtain ⟨rest, hbytes⟩ := take_of_store hi.read hstore
  have hsplit : buf.bytes = (a₁ ++ [x]) ++ 0 :: rest := by
    rw [hbytes]
    simp
  refine { toInStep := hi.toInStep.pastChar hmiss hstore, read := ?_, next := Or.inr (Or.inr ?_) }
  · show buf.bytes.take _ = _
    rw [hsplit, List.take_left]
  · show buf.bytes[_]? = _
    rw [hsplit]
    simp

/-- **Every iteration succeeds** with a replacement that is too long. -/
theorem restored_step (h : Findable t s) (hs : string.Holds s) (ht : target.Holds t) (hr : replacement.Holds r)
    (hpos : Positions positions (occurrences t s))
    (houtside : ∀ v, v.n = BitVec.ofNat 32 (occurrences t s).length → outside v ≠ v.strPos) (hne : r ≠ t)
    (hover : Overlong s t r) (hlen : (s.length + r.length * s.length + 1) % 18446744073709551616 = len)
    (v : ReplaceVars) (hi : ∃ a₁ a₂ n, Restored s t len v a₁ a₂ n)
    (hg : decide (v.i.toSizeT < replaceBound string target replacement positions) = true) :
    ∃ v', replaceBody outside string target replacement positions v = .ok v' ∧
      (∃ a₁ a₂ n, Restored s t len v' a₁ a₂ n) ∧ s.length - v'.strPos.toNat < s.length - v.strPos.toNat := by
  have hslen := h.length
  have htpos := List.length_pos_of_ne_nil h.nonempty
  obtain ⟨a₁, a₂, n, hi⟩ := hi
  have hread := hi.length_eq
  cases a₂ with
  | nil => exact absurd rfl ((hi.guard_iff h hs ht hr hpos hover.wraps).mp hg)
  | cons x a₂ =>
      by_cases hhit : t <+: x :: a₂
      · obtain ⟨rest, hrest⟩ := hhit
        rw [← hrest] at hi
        have he : a₁.length ∈ occurrences t s := by
          apply List.mem_of_mem_take (i := n + 1)
          rw [hi.used_succ h]
          exact List.mem_append_right _ List.mem_cons_self
        have hfits := hover.fits _ he
        obtain ⟨buf, hstore⟩ := Block.store_ok v.buf a₁.length r (by rw [hi.room]; omega)
        have hi' := hi.pastMatch h ht hr hover.wraps hover.begins hstore
        refine ⟨v.pastMatch target replacement buf, ?_, ⟨_, _, _, hi'⟩, ?_⟩
        · rw [hi.body_match h hr hpos (houtside v), hstore]
          rfl
        · rw [hi.unread hslen, hi'.unread hslen, List.length_append]
          omega
      · have hroom : a₁.length + 2 ≤ len := by
          -- a replacement fits, and is longer than the string
          obtain ⟨e, he⟩ := List.exists_mem_of_ne_nil _ ((occurrences_ne_nil_iff h.nonempty).mpr h.occurs)
          have hfits := hover.fits e he
          have hwraps := hover.wraps
          have hdiff : r.length ≠ t.length := fun heq => hne (hover.begins.eq_of_length heq.symm).symm
          rw [List.length_cons] at hread
          omega
        obtain ⟨buf, hstore⟩ := Block.store_ok v.buf a₁.length [x, 0] (by rw [hi.room]; exact hroom)
        have hi' := hi.pastChar hhit hstore
        refine ⟨v.pastChar buf, ?_, ⟨_, _, _, hi'⟩, ?_⟩
        · rw [hi.body_char h hs hpos (houtside v) hhit, hstore]
          rfl
        · rw [hi.unread hslen, hi'.unread hslen, List.length_cons]
          omega

/-- So the loop ends with the string in the buffer. -/
theorem shown_of_overlong (h : Findable t s) (hs : string.Holds s) (ht : target.Holds t) (hr : replacement.Holds r)
    (hpos : Positions positions (occurrences t s))
    (houtside : ∀ v, v.n = BitVec.ofNat 32 (occurrences t s).length → outside v ≠ v.strPos) (hfuel : s.length ≤ fuel)
    (hne : r ≠ t) (hover : Overlong s t r)
    (hlen : (s.length + r.length * s.length + 1) % 18446744073709551616 = buf.bytes.length) :
    ∃ v, Exec.loop (fun v => v.i.toSizeT < replaceBound string target replacement positions)
      (replaceBody outside string target replacement positions) fuel { i := 0, strPos := 0, n := 0, buf := buf } =
        .ok v ∧ v.buf.Holds s := by
  have hstart : Restored s t buf.bytes.length { i := 0, strPos := 0, n := 0, buf := buf } [] s 0 :=
    { toReading := .start s t buf, i := rfl, room := rfl, read := by simp, next := Or.inl rfl }
  obtain ⟨v, hloop, ⟨a₁, a₂, n, hi⟩, hend⟩ :=
    Exec.loop_ok (restored_step h hs ht hr hpos houtside hne hover hlen) ⟨[], s, 0, hstart⟩
      (show s.length - _ ≤ fuel by omega)
  refine ⟨v, hloop, ?_⟩
  have hdone : a₂ = [] := by
    by_contra hmore
    rw [(hi.guard_iff h hs ht hr hpos hover.wraps).mpr hmore] at hend
    cases hend
  subst hdone
  have hread := hi.string
  rw [List.append_nil] at hread
  subst hread
  rcases hi.next with hnil | hsuf | hnul
  · exact absurd hnil (List.ne_nil_of_length_pos (Nat.lt_of_lt_of_le (List.length_pos_of_ne_nil h.nonempty)
      h.occurs.length_le))
  · exact absurd hsuf hover.inside
  · exact .of_getElem? hs.chars.1 hi.read hnul

/-! ## The loop -/

/-- Replacing the target by itself is a replacement whose result an `int` can count. -/
theorem Findable.replaceable_self (h : Findable t s) : Replaceable s t t where
  toFindable  := h
  replacement := Nat.lt_of_le_of_lt h.occurs.length_le h.length
  result      := by rw [replaceAll_self h.nonempty]; exact h.length

/-- **When the loop ends with the string itself in the buffer.** -/
theorem replaceLoop_shows_iff (h : Findable t s) (hs : string.Holds s) (ht : target.Holds t)
    (hr : replacement.Holds r)
    (houtside : ∀ v, v.n = BitVec.ofNat 32 (occurrences t s).length → outside v ≠ v.strPos) (hfuel : s.length ≤ fuel)
    (hbuf : buf.bytes = List.replicate (replaceRoom string replacement).toNat 0) :
    (∃ buf', replaceLoop outside fuel string target replacement buf = .ok (some buf') ∧ buf'.Holds s) ↔
      r = t ∨ Overlong s t r := by
  obtain ⟨positions, hpos, hrun⟩ := replaceLoop_eq h.toSearched hs ht
  constructor
  · rintro ⟨buf', hloop, hholds⟩
    rw [hrun] at hloop
    obtain ⟨v, hv, hret⟩ := Exec.bind_eq_ok.mp hloop
    obtain rfl := Option.some.inj (Exec.ok.inj hret)
    exact overlong_of_shown h hs ht hr hpos houtside hbuf hv hholds
  · intro hcond
    by_cases heq : r = t
    · subst heq
      have hself := h.replaceable_self
      have hlt := length_replaceAll_lt hself
      rw [← replaceRoom_eq hself hs hr] at hlt
      obtain ⟨buf', hloop, hbytes⟩ := replaceLoop_ok hself hs ht hr houtside hlt hbuf hfuel
      have hholds := holds_replaceAll hself hs hr hlt hbytes
      rw [replaceAll_self h.nonempty] at hholds
      exact ⟨buf', hloop, hholds⟩
    · have hlen : (s.length + r.length * s.length + 1) % 18446744073709551616 = buf.bytes.length := by
        rw [hbuf, List.length_replicate, toNat_replaceRoom hs hr]
      obtain ⟨v, hv, hholds⟩ := shown_of_overlong h hs ht hr hpos houtside hfuel heq (hcond.resolve_left heq) hlen
      refine ⟨v.buf, ?_, hholds⟩
      rw [hrun, hv]
      rfl

end Unchanged

end SpartanX
