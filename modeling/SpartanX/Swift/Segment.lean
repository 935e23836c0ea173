import SpartanX.Lib.Exec
import SpartanX.Lib.Occurrences
import SpartanX.Lib.SwiftInt

/-!
# `Swift.Segment` — cutting data at a separator

`NSData.findBytes` compares the separator with the memory at each place from an offset on and stops at the first
place where they agree, or at the end of the data. The last places it looks at are so near the end that the
comparison goes on into the memory behind the data. `NSDataSegment.next` cuts the segment in front of the place
found, and goes on behind the separator it takes to be there.

`StopsAt` says where `findBytes` stops, `Cuts` what the calls of `next` return until they return nil. Whatever the
memory behind the data holds, the segments are finitely many and well formed (`segments_well_formed`).

## Contents
- **The code.** `memcmp`, `NSData.findBytes`, `NSDataSegment.next`, and `segments`, what a number of calls returns.
- **Where the search stops.** `StopsAt`, `findBytes_ok`.
- **What the calls of `next` return.** `Cuts`, `next_cut`, `segments_of_cuts`.
- **Result.** `segments_well_formed`.

Offsets are unbounded integers here; in Swift a sum that overflows is a trap. Whether `len + offset` does depends on
nothing that is stored, and no call of `next` comes to such a sum if the data and two separators are shorter than
2^63 bytes (`Cuts.checked`).
-/

namespace SpartanX

/-! ## The code -/

/-- `memcmp`: how the first bytes differ that do, zero if none of the `n` do. -/
def memcmp : Nat → (Nat → UInt8) → (Nat → UInt8) → Int
  | 0,     _, _ => 0
  | n + 1, p, q => if p 0 = q 0 then memcmp n (fun j => p (j + 1)) (fun j => q (j + 1)) else (p 0).toNat - (q 0).toNat

/-- Data of a length, and what is stored in memory from its first byte on: the data's own bytes, then others. -/
structure NSData where
  length : Nat
  bytes  : Nat → UInt8

/-- The variables of the search: `i`, and whether the loop was left by `break`. -/
structure FindBytes where
  i    : Int
  left : Bool := false
  deriving DecidableEq

/-- `while (mcmp() != 0)`. -/
def NSData.mcmpDiffers (self : NSData) (b : Nat → UInt8) (offset len : Int) (st : FindBytes) : Bool :=
  !st.left && memcmp len.toNat b (fun j => self.bytes ((offset + st.i).toNat + j)) != 0

/-- The body of the loop. -/
def NSData.findBody (self : NSData) (offset : Int) (st : FindBytes) : Exec FindBytes :=
  if st.i + offset = self.length then pure { st with left := true }
  else pure { st with i := st.i + 1 }

/-- `NSData.findBytes`. -/
def NSData.findBytes (self : NSData) (b : Nat → UInt8) (offset len : Int) : Exec (Option Int) :=
  if offset < 0 ∨ len < 0 ∨ self.length = 0 ∨ len + offset > self.length then pure none
  else do
    let st ← Exec.loop (self.mcmpDiffers b offset len) (self.findBody offset) (self.length + 1) { i := 0 }
    pure (some (st.i + offset))

/-- `subdataWithRange(NSMakeRange(loc, len))`: a copy of the range, an exception if it is not inside the data. -/
def NSData.subdataWithRange (self : NSData) (loc len : Int) : Exec (List UInt8) :=
  if 0 ≤ loc ∧ 0 ≤ len ∧ loc + len ≤ self.length then
    pure ((List.range len.toNat).map fun j => self.bytes (loc.toNat + j))
  else .fault

/-- `NSDataSegment`. -/
structure NSDataSegment where
  core       : NSData
  curOffset  : Int := 0
  nextOffset : Int := 0
  curlen     : Int := 0
  sepearator : List UInt8

namespace NSDataSegment

/-- `NSDataSegment.curVal`. -/
def curVal (seg : NSDataSegment) : Exec (List UInt8) := seg.core.subdataWithRange seg.curOffset seg.curlen

/-- `NSDataSegment.next`. -/
def next (seg : NSDataSegment) : Exec (Option (List UInt8) × NSDataSegment) := do
  let found ← seg.core.findBytes (fun j => seg.sepearator.getD j 0) seg.nextOffset seg.sepearator.length
  match found with
  | some endpoint =>
    let seg := { seg with
      curlen     := endpoint - seg.nextOffset
      curOffset  := seg.nextOffset
      nextOffset := seg.sepearator.length + endpoint }
    let val ← seg.curVal
    pure (some val, seg)
  | none => pure (none, seg)

end NSDataSegment

/-- A segment: where it was cut from, and the bytes handed out. -/
structure Segment where
  offset : Int
  len    : Int
  val    : List UInt8
  deriving DecidableEq, Repr

/-- The segment is a range inside the data, and hands out the bytes there. -/
structure Segment.Inside (core : List UInt8) (g : Segment) : Prop where
  offset : 0 ≤ g.offset
  len    : 0 ≤ g.len
  stop   : g.offset + g.len ≤ core.length
  val    : g.val = (core.drop g.offset.toNat).take g.len.toNat

/-- What the first `k` calls of `next` return, up to the first nil. -/
def NSDataSegment.segments : Nat → NSDataSegment → Exec (List Segment)
  | 0,     _   => pure []
  | k + 1, seg => do
    let (val, seg) ← seg.next
    match val with
    | none     => pure []
    | some val => do
      let rest ← segments k seg
      pure ({ offset := seg.curOffset, len := seg.curlen, val := val } :: rest)

/-- The calls of `next` return these segments, then nil. -/
def NSDataSegment.Yields (seg : NSDataSegment) (gs : List Segment) : Prop :=
  ∀ k, gs.length < k → seg.segments k = .ok gs

/-! ## Where the search stops -/

theorem memcmp_eq_zero {n : Nat} : ∀ {p q : Nat → UInt8}, memcmp n p q = 0 ↔ ∀ j < n, p j = q j := by
  induction n with
  | zero =>
      intro p q
      simp [memcmp]
  | succ n ih =>
      intro p q
      unfold memcmp
      constructor
      · intro h j hj
        split at h
        · next heq =>
            cases j with
            | zero => exact heq
            | succ j => exact ih.mp h j (by omega)
        · next hne =>
            have hnat : (p 0).toNat = (q 0).toNat := by omega
            exact absurd (UInt8.toNat_inj.mp hnat) hne
      · intro h
        rw [if_pos (h 0 (by omega))]
        apply ih.mpr
        intro j hj
        exact h (j + 1) (by omega)

namespace NSData

/-- The data are these bytes. -/
structure Holds (d : NSData) (core : List UInt8) : Prop where
  length : d.length = core.length
  bytes  : ∀ j (h : j < core.length), d.bytes j = core[j]

/-- Data with other bytes stored behind them. -/
def ofBytes (core : List UInt8) (behind : Nat → UInt8) : NSData where
  length := core.length
  bytes  := fun j => if h : j < core.length then core[j] else behind (j - core.length)

theorem holds_ofBytes (core : List UInt8) (behind : Nat → UInt8) : (ofBytes core behind).Holds core where
  length := rfl
  bytes  := fun _ h => dif_pos h

/-- The separator stands at place `p` of the memory. -/
def MatchAt (d : NSData) (sep : List UInt8) (p : Nat) : Prop := ∀ j (h : j < sep.length), d.bytes (p + j) = sep[j]

/-- The search for the separator from `o` on stops at `r`: at the first match, or at the end of the data. -/
structure StopsAt (d : NSData) (sep : List UInt8) (o r : Nat) : Prop where
  start  : o ≤ r
  stop   : r ≤ d.length
  before : ∀ p, o ≤ p → p < r → ¬ d.MatchAt sep p
  here   : r < d.length → d.MatchAt sep r

variable {d d₁ d₂ : NSData} {core sep : List UInt8} {o r r₁ r₂ p : Nat}

theorem mcmpDiffers_iff {i : Nat} (left : Bool) :
    d.mcmpDiffers (fun j => sep.getD j 0) o sep.length ⟨i, left⟩ = true ↔ left = false ∧ ¬ d.MatchAt sep (o + i) := by
  have hmem :
      memcmp sep.length (fun j => sep.getD j 0) (fun j => d.bytes (o + i + j)) = 0 ↔ d.MatchAt sep (o + i) := by
    rw [memcmp_eq_zero]
    constructor
    · intro h j hj
      have hb := h j hj
      rw [List.getD_eq_getElem _ _ hj] at hb
      exact hb.symm
    · intro h j hj
      rw [List.getD_eq_getElem _ _ hj]
      exact (h j hj).symm
  have hplace : ((o : Int) + i).toNat = o + i := by omega
  simp only [mcmpDiffers, Int.toNat_natCast, hplace, Bool.and_eq_true, Bool.not_eq_true', bne_iff_ne, ne_eq, hmem]

/-- There is one such place. -/
theorem StopsAt.unique (h₁ : d.StopsAt sep o r₁) (h₂ : d.StopsAt sep o r₂) : r₁ = r₂ := by
  have hstop₁ := h₁.stop
  have hstop₂ := h₂.stop
  rcases Nat.lt_trichotomy r₁ r₂ with hlt | heq | hgt
  · exact absurd (h₁.here (by omega)) (h₂.before r₁ h₁.start hlt)
  · exact heq
  · exact absurd (h₂.here (by omega)) (h₁.before r₂ h₂.start hgt)

/-- The invariant of the loop: it has passed the places before `o + i`, and is left at the end of the data. -/
def Scans (d : NSData) (sep : List UInt8) (o : Nat) (st : FindBytes) : Prop :=
  ∃ i : Nat, st.i = i ∧ o + i ≤ d.length ∧ (∀ p, o ≤ p → p < o + i → ¬ d.MatchAt sep p) ∧
    (st.left = true → o + i = d.length)

/-- An iteration leaves the loop at the end of the data, and passes a place otherwise. -/
theorem findBody_ok {st : FindBytes} (hI : d.Scans sep o st)
    (hg : d.mcmpDiffers (fun j => sep.getD j 0) o sep.length st = true) :
    ∃ st', d.findBody o st = .ok st' ∧ d.Scans sep o st' ∧
      (d.length - o - st'.i.toNat + if st'.left then 0 else 1) <
        d.length - o - st.i.toNat + if st.left then 0 else 1 := by
  obtain ⟨i', left⟩ := st
  obtain ⟨i, hi, hstop, hbefore, hleft⟩ := hI
  simp only at hi
  subst hi
  obtain ⟨rfl, hne⟩ := (mcmpDiffers_iff left).mp hg
  unfold findBody
  by_cases hend : ((i : Nat) : Int) + o = d.length
  · rw [if_pos hend]
    exact ⟨_, rfl, ⟨i, rfl, hstop, hbefore, fun _ => by omega⟩, by simp⟩
  · rw [if_neg hend]
    refine ⟨_, rfl, ⟨i + 1, rfl, by omega, ?_, by simp⟩, by simp; omega⟩
    intro p hp hlt
    rcases Nat.lt_or_ge p (o + i) with h | h
    · exact hbefore p hp h
    · obtain rfl : p = o + i := by omega
      exact hne

/-- **Where `findBytes` stops.** -/
theorem findBytes_ok (d : NSData) (sep : List UInt8) (o : Nat) (hlen : 0 < d.length)
    (hfits : sep.length + o ≤ d.length) :
    ∃ r : Nat, d.findBytes (fun j => sep.getD j 0) o sep.length = .ok (some (r : Int)) ∧ d.StopsAt sep o r := by
  have hguard : ¬ ((o : Int) < 0 ∨ (sep.length : Int) < 0 ∨ d.length = 0 ∨ (sep.length : Int) + o > d.length) := by
    omega
  have hstart : d.Scans sep o { i := 0 } := ⟨0, rfl, by omega, fun p hp hlt => by omega, by simp⟩
  have hvariant : (d.length - o - ({ i := 0 } : FindBytes).i.toNat + if false then 0 else 1) ≤ d.length + 1 := by simp
  obtain ⟨⟨i', left⟩, hloop, ⟨i, rfl, hstop, hbefore, hleft⟩, hg⟩ :=
    Exec.loop_ok (fun _ hI hg => findBody_ok hI hg) hstart hvariant
  have hhere : left = false → d.MatchAt sep (o + i) := by
    intro hl
    by_contra hne
    rw [(mcmpDiffers_iff left).mpr ⟨hl, hne⟩] at hg
    cases hg
  refine ⟨o + i, ?_, Nat.le_add_right o i, hstop, hbefore, ?_⟩
  · unfold findBytes
    rw [if_neg hguard, hloop]
    simp [Int.add_comm]
  · intro hlt
    cases left with
    | false => exact hhere rfl
    | true => exact absurd (hleft rfl) (by omega)

/-- The guard of `findBytes`. -/
theorem findBytes_none {b : Nat → UInt8} {offset len : Int}
    (h : offset < 0 ∨ len < 0 ∨ d.length = 0 ∨ len + offset > d.length) : d.findBytes b offset len = .ok none := by
  unfold findBytes
  rw [if_pos h, Exec.pure_eq]

end NSData

namespace NSDataSegment

open NSData Occurrences

variable {d d₁ d₂ : NSData} {core sep : List UInt8} {o r : Nat} {gs gs₁ gs₂ : List Segment}

/-- `NSDataSegment(core:, sepearatorBytes:)`. -/
def create (core : NSData) (sepearatorBytes : List UInt8) : NSDataSegment where
  core       := core
  sepearator := sepearatorBytes

/-! ## What the calls of `next` return -/

/-- The segment from `o` to `r`. -/
def segmentAt (core : List UInt8) (o r : Nat) : Segment where
  offset := o
  len    := r - o
  val    := (core.drop o).take (r - o)

/-- What the calls return from offset `o` on: nothing if no separator fits any more, otherwise the segment up to
    where the search stops, and what they return behind the separator. -/
inductive Cuts (d : NSData) (core sep : List UInt8) : Nat → List Segment → Prop
  | stop {o : Nat} (h : core.length = 0 ∨ core.length < sep.length + o) : Cuts d core sep o []
  | cut {o r : Nat} {gs : List Segment} (hfits : 0 < core.length ∧ sep.length + o ≤ core.length)
      (hr : d.StopsAt sep o r) (hgs : Cuts d core sep (r + sep.length) gs) :
      Cuts d core sep o (segmentAt core o r :: gs)

/-- A range inside the data. -/
theorem subdataWithRange_ok (hd : d.Holds core) (hor : o ≤ r) (hr : r ≤ core.length) :
    d.subdataWithRange o (r - o) = .ok ((core.drop o).take (r - o)) := by
  have hlen : ((r : Int) - o).toNat = r - o := by omega
  have hdlen := hd.length
  unfold subdataWithRange
  rw [if_pos (by omega), hlen, Int.toNat_natCast, Exec.pure_eq]
  congr 1
  apply List.ext_getElem
  · rw [List.length_map, List.length_range, List.length_take, List.length_drop]
    omega
  · intro j hj _
    rw [List.length_map, List.length_range] at hj
    rw [List.getElem_map, List.getElem_range, List.getElem_take, List.getElem_drop, hd.bytes]

/-- **What one call returns.** -/
theorem next_cut {seg : NSDataSegment} (hd : seg.core.Holds core) (ho : seg.nextOffset = o)
    (hfits : 0 < core.length ∧ seg.sepearator.length + o ≤ core.length) :
    ∃ r : Nat, seg.core.StopsAt seg.sepearator o r ∧
      seg.next = .ok (some ((core.drop o).take (r - o)),
        { seg with curlen := r - o, curOffset := o, nextOffset := seg.sepearator.length + r }) := by
  have hdlen := hd.length
  obtain ⟨r, hfind, hr⟩ := findBytes_ok seg.core seg.sepearator o (by omega) (by omega)
  refine ⟨r, hr, ?_⟩
  have hsub := subdataWithRange_ok hd hr.start (hd.length ▸ hr.stop)
  unfold next
  rw [ho, hfind, Exec.ok_bind]
  show (seg.core.subdataWithRange o (r - o) >>= _) = _
  rw [hsub]
  rfl

theorem next_stop {seg : NSDataSegment} (hd : seg.core.Holds core) (ho : seg.nextOffset = o)
    (hstop : core.length = 0 ∨ core.length < seg.sepearator.length + o) : seg.next = .ok (none, seg) := by
  have hdlen := hd.length
  unfold next
  rw [ho, findBytes_none (by omega)]
  rfl

/-- There is one list of segments, for a separator that is not empty. -/
theorem exists_cuts (d : NSData) (core : List UInt8) (hd : d.Holds core) (hne : sep ≠ []) :
    ∀ o, ∃ gs, Cuts d core sep o gs := by
  have hpos : 0 < sep.length := List.length_pos_of_ne_nil hne
  have hdlen := hd.length
  intro o
  induction hn : core.length + 1 - o using Nat.strong_induction_on generalizing o with
  | _ n ih =>
      by_cases hfits : 0 < core.length ∧ sep.length + o ≤ core.length
      · obtain ⟨r, _, hr⟩ := findBytes_ok d sep o (by omega) (by omega)
        have hstart := hr.start
        obtain ⟨gs, hgs⟩ := ih (core.length + 1 - (r + sep.length)) (by omega) (r + sep.length) rfl
        exact ⟨_, .cut hfits hr hgs⟩
      · exact ⟨[], .stop (by omega)⟩

/-- **What any number of calls returns.** -/
theorem segments_of_cuts {seg : NSDataSegment} (hd : seg.core.Holds core) (ho : seg.nextOffset = o)
    (h : Cuts seg.core core seg.sepearator o gs) : ∀ k, seg.segments k = .ok (gs.take k) := by
  intro k
  induction k generalizing seg o gs with
  | zero => rfl
  | succ k ih =>
      unfold segments
      cases h with
      | stop hstop =>
          rw [next_stop hd ho hstop, Exec.ok_bind]
          rfl
      | @cut _ r gs hfits hr hgs =>
          obtain ⟨r', hr', hnext⟩ := next_cut hd ho hfits
          obtain rfl := hr.unique hr'
          have hrest : segments k { seg with
              curlen := r - o, curOffset := o, nextOffset := seg.sepearator.length + r } = .ok (gs.take k) :=
            ih hd (Int.add_comm _ _) hgs
          rw [hnext, Exec.ok_bind]
          dsimp only
          rw [hrest]
          rfl

/-- Until they return nil. -/
theorem yields_of_cuts (hd : d.Holds core) (h : Cuts d core sep 0 gs) : (create d sep).Yields gs := by
  intro k hk
  have hall : (create d sep).segments k = .ok (gs.take k) := segments_of_cuts hd rfl h k
  rw [hall, List.take_of_length_le hk.le]

/-- No sum traps: neither that of `findBytes` in the first call, nor the next offset and that of `findBytes` in the
    call behind a segment. -/
theorem Cuts.checked (h : Cuts d core sep o gs) (hd : d.Holds core) (ho : o ≤ core.length + sep.length)
    (hlen : core.length + 2 * sep.length < 9223372036854775808) :
    SwiftInt.checked (sep.length + o) = some (sep.length + o : Int) ∧ ∀ g ∈ gs,
      SwiftInt.checked (sep.length + (g.offset + g.len)) = some (sep.length + (g.offset + g.len)) ∧
      SwiftInt.checked (sep.length + (sep.length + (g.offset + g.len))) =
        some (sep.length + (sep.length + (g.offset + g.len))) := by
  refine ⟨SwiftInt.checked_of_range (by omega) (by omega), ?_⟩
  induction h with
  | stop _ => simp
  | @cut o r gs hfits hr hgs ih =>
      have hstop := hr.stop
      rw [hd.length] at hstop
      intro g hg
      rcases List.mem_cons.mp hg with rfl | hg
      · have hend : (segmentAt core o r).offset + (segmentAt core o r).len = r := by
          show (o : Int) + (r - o) = r
          omega
        rw [hend]
        exact ⟨SwiftInt.checked_of_range (by omega) (by omega), SwiftInt.checked_of_range (by omega) (by omega)⟩
      · exact ih (by omega) g hg

/-! ## Segments are well formed -/

/-- Inside the data a match is an occurrence. -/
theorem matchAt_iff (hd : d.Holds core) {p : Nat} (hfits : p + sep.length ≤ core.length) :
    d.MatchAt sep p ↔ sep <+: core.drop p := by
  rw [List.prefix_iff_getElem]
  constructor
  · intro h
    refine ⟨by rw [List.length_drop]; omega, ?_⟩
    intro j hj
    rw [List.getElem_drop, ← hd.bytes, h j hj]
  · rintro ⟨_, h⟩ j hj
    rw [hd.bytes (p + j) (by omega), h j hj, List.getElem_drop]

/-- Before the place where the search stops there is no occurrence. -/
theorem not_infix_before (hd : d.Holds core) (hne : sep ≠ []) (hr : d.StopsAt sep o r) :
    ¬ sep <:+: (core.drop o).take (r - o) := by
  intro hinf
  have hpos := List.length_pos_of_ne_nil hne
  obtain ⟨i, hpre, hi, _⟩ := exists_first_of_occurs hinf
  rw [List.length_take, List.length_drop] at hi
  have hocc : sep <+: core.drop (o + i) := by
    rw [List.drop_take, List.drop_drop] at hpre
    exact hpre.trans (List.take_prefix _ _)
  exact hr.before (o + i) (by omega) (by omega) ((matchAt_iff hd (by omega)).mpr hocc)

/-- There are not more segments than separators fit, and one. -/
theorem Cuts.length_bound (h : Cuts d core sep o gs) (hsome : gs ≠ []) :
    o + (gs.length - 1) * sep.length ≤ core.length := by
  induction h with
  | stop _ => exact absurd rfl hsome
  | @cut o r gs hfits hr hgs ih =>
      have hstart := hr.start
      cases gs with
      | nil =>
          simp only [List.length_singleton, Nat.sub_self, Nat.zero_mul]
          omega
      | cons g gs =>
          have hrest := ih (List.cons_ne_nil g gs)
          simp only [List.length_cons, Nat.add_sub_cancel, Nat.succ_mul] at hrest ⊢
          omega

/-- Each segment lies inside the data behind the offset, and does not contain the separator. -/
theorem Cuts.inside (hd : d.Holds core) (hne : sep ≠ []) (h : Cuts d core sep o gs) :
    ∀ g ∈ gs, (o : Int) ≤ g.offset ∧ g.Inside core ∧ ¬ sep <:+: g.val := by
  induction h with
  | stop _ => simp
  | @cut o r gs hfits hr hgs ih =>
      intro g hg
      have hstart := hr.start
      have hstop := hr.stop
      rw [hd.length] at hstop
      rcases List.mem_cons.mp hg with rfl | hg
      · refine ⟨Int.le_refl o, ⟨?_, ?_, ?_, ?_⟩, not_infix_before hd hne hr⟩
        · exact Int.natCast_nonneg o
        · show (0 : Int) ≤ r - o
          omega
        · show (o : Int) + (r - o) ≤ core.length
          omega
        · show (core.drop o).take (r - o) = (core.drop (o : Int).toNat).take ((r : Int) - o).toNat
          congr 1
          omega
      · obtain ⟨hle, hrest⟩ := ih g hg
        exact ⟨by omega, hrest⟩

/-- Of two segments the later one begins behind the end of the earlier one. -/
theorem Cuts.ordered (hd : d.Holds core) (hne : sep ≠ []) (h : Cuts d core sep o gs) :
    gs.Pairwise (fun g g' => g.offset + g.len < g'.offset) := by
  induction h with
  | stop _ => exact List.Pairwise.nil
  | @cut o r gs hfits hr hgs ih =>
      refine List.Pairwise.cons ?_ ih
      intro g hg
      have hle := (hgs.inside hd hne g hg).1
      have hpos := List.length_pos_of_ne_nil hne
      show (o : Int) + (r - o) < g.offset
      omega

/-- A segment that is not the last one is followed by the separator, and this by the next segment. -/
theorem Cuts.followed (hd : d.Holds core) (hne : sep ≠ []) (h : Cuts d core sep o gs) :
    gs.IsChain (fun g g' =>
      sep <+: core.drop (g.offset + g.len).toNat ∧ g'.offset = g.offset + g.len + (sep.length : Int)) := by
  induction h with
  | stop _ => exact List.IsChain.nil
  | @cut o r gs hfits hr hgs ih =>
      cases hgs with
      | stop _ => exact List.IsChain.singleton _
      | @cut _ r' gs hfits' hr' hgs =>
          have hpos := List.length_pos_of_ne_nil hne
          have hplace : ((segmentAt core o r).offset + (segmentAt core o r).len).toNat = r := by
            show ((o : Int) + (r - o)).toNat = r
            omega
          refine List.IsChain.cons_cons ⟨?_, ?_⟩ ih
          · rw [hplace]
            have hlt : r < d.length := by
              rw [hd.length]
              omega
            exact (matchAt_iff hd (by omega)).mp (hr.here hlt)
          · show ((r + sep.length : Nat) : Int) = o + (r - o) + sep.length
            omega

/-- **Segments are well formed.** Whatever is stored behind the data, for a separator that is not empty `next`
    returns finitely many segments and then nil, at most one more than separators fit into the data. Each is a range
    inside the data without the separator in it, they are in order without overlap, and each but the last is followed
    by the separator, behind which the next one begins. -/
theorem segments_well_formed (core sep : List UInt8) (hd : d.Holds core) (hne : sep ≠ []) :
    ∃ gs, (create d sep).Yields gs ∧ gs.length ≤ core.length / sep.length + 1 ∧
      (∀ g ∈ gs, g.Inside core ∧ ¬ sep <:+: g.val) ∧
      gs.Pairwise (fun g g' => g.offset + g.len < g'.offset) ∧
      gs.IsChain (fun g g' =>
        sep <+: core.drop (g.offset + g.len).toNat ∧ g'.offset = g.offset + g.len + (sep.length : Int)) := by
  have hpos := List.length_pos_of_ne_nil hne
  obtain ⟨gs, hgs⟩ := exists_cuts d core hd hne 0
  refine ⟨gs, yields_of_cuts hd hgs, ?_, fun g hg => (hgs.inside hd hne g hg).2, hgs.ordered hd hne,
    hgs.followed hd hne⟩
  rcases eq_or_ne gs [] with rfl | hsome
  · exact Nat.zero_le _
  · have hbound := hgs.length_bound hsome
    have hdiv : gs.length - 1 ≤ core.length / sep.length := (Nat.le_div_iff_mul_le hpos).mpr (by omega)
    omega

/-- Text of three lines with an empty one among them. -/
def lines : List UInt8 := [97, 13, 10, 13, 10, 98, 99]

/-- Behind the lines a separator is stored. -/
theorem segments_well_formed_lines :
    ∃ gs, (create (.ofBytes lines fun j => if j = 0 then 13 else 10) [13, 10]).Yields gs ∧ gs.length ≤ 4 ∧
      ∀ g ∈ gs, g.Inside lines ∧ ¬ [13, 10] <:+: g.val := by
  obtain ⟨gs, hyields, hbound, hinside, _, _⟩ :=
    segments_well_formed lines [13, 10] (holds_ofBytes lines fun j => if j = 0 then 13 else 10) (by decide)
  exact ⟨gs, hyields, hbound, hinside⟩

end NSDataSegment

end SpartanX
