import SpartanX.Swift.Segment

/-!
# `Swift.FindAll` — handing all segments to a handler

`NSDataSegment.findall` calls `next` until it returns nil or the handler has had enough. A handler may keep a state
in what it captures. It is handed what the calls of `next` return, in order, up to the first segment after which it
wants no other, and the calls of `next` after that go on behind it (`findall_hands_segments`). With an empty
separator `next` stays where it is, so then `findall` ends only if the handler, offered the empty segment again and
again, refuses it at last (`findall_returns_iff`).
-/

namespace SpartanX

variable {σ : Type}

/-- The variables of `findall`: the segment, what the handler has captured, and whether the loop has been left. -/
structure FindAll (σ : Type) where
  seg   : NSDataSegment
  state : σ
  left  : Bool := false

/-- What a handler makes of these segments, and the ones it is not handed: those behind the first after which it
    wants no other. -/
def offered (handler : σ → List UInt8 → σ × Bool) : σ → List Segment → σ × List Segment
  | s, []      => (s, [])
  | s, g :: gs => if (handler s g.val).2 then offered handler (handler s g.val).1 gs else ((handler s g.val).1, gs)

/-- What a handler has captured when it has been handed the empty segment a number of times. -/
def afterEmpty (handler : σ → List UInt8 → σ × Bool) (s : σ) : Nat → σ
  | 0     => s
  | k + 1 => afterEmpty handler (handler s []).1 k

namespace NSDataSegment

/-- One iteration of `while next() != nil { if !handler(curVal) { break } }`. -/
def findallBody (handler : σ → List UInt8 → σ × Bool) (st : FindAll σ) : Exec (FindAll σ) := do
  let (val, seg) ← st.seg.next
  match val with
  | none   => pure { st with seg := seg, left := true }
  | some _ => do
    let val ← seg.curVal
    let (state, more) := handler st.state val
    pure { seg := seg, state := state, left := !more }

/-- `NSDataSegment.findall`, with fuel for the given number of iterations. -/
def findall (handler : σ → List UInt8 → σ × Bool) (fuel : Nat) (seg : NSDataSegment) (s : σ) : Exec (FindAll σ) :=
  Exec.loop (fun st => !st.left) (findallBody handler) fuel { seg := seg, state := s }

variable {handler : σ → List UInt8 → σ × Bool} {d : NSData} {core sep : List UInt8} {o fuel : Nat} {gs : List Segment}

/-! ## Iterations -/

/-- The segment from `o` to `r` has been cut. -/
def past (seg : NSDataSegment) (o r : Nat) : NSDataSegment :=
  { seg with curlen := r - o, curOffset := o, nextOffset := seg.sepearator.length + r }

theorem past_nextOffset (seg : NSDataSegment) (o r : Nat) :
    (seg.past o r).nextOffset = (r + seg.sepearator.length : Nat) := by
  rw [Nat.add_comm]
  rfl

theorem findall_succ (handler : σ → List UInt8 → σ × Bool) (fuel : Nat) (seg : NSDataSegment) (s : σ) :
    findall handler (fuel + 1) seg s =
      findallBody handler { seg := seg, state := s } >>=
        Exec.loop (fun st => !st.left) (findallBody handler) fuel := rfl

/-- An iteration in which `next` returns nil. -/
theorem findallBody_stop {seg : NSDataSegment} (hd : seg.core.Holds core) (ho : seg.nextOffset = o)
    (hstop : core.length = 0 ∨ core.length < seg.sepearator.length + o) (s : σ) :
    findallBody handler { seg := seg, state := s } = .ok { seg := seg, state := s, left := true } := by
  unfold findallBody
  dsimp only
  rw [next_stop hd ho hstop, Exec.ok_bind]
  rfl

/-- An iteration in which it returns a segment. -/
theorem findallBody_cut (handler : σ → List UInt8 → σ × Bool) {seg : NSDataSegment} (hd : seg.core.Holds core)
    (ho : seg.nextOffset = o) (hfits : 0 < core.length ∧ seg.sepearator.length + o ≤ core.length) (s : σ) :
    ∃ r : Nat, seg.core.StopsAt seg.sepearator o r ∧
      findallBody handler { seg := seg, state := s } = .ok
        { seg   := seg.past o r
          state := (handler s (segmentAt core o r).val).1
          left  := !(handler s (segmentAt core o r).val).2 } := by
  obtain ⟨r, hr, hnext⟩ := next_cut hd ho hfits
  refine ⟨r, hr, ?_⟩
  have hval : seg.core.subdataWithRange o (r - o) = .ok (segmentAt core o r).val :=
    subdataWithRange_ok hd hr.start (hd.length ▸ hr.stop)
  unfold findallBody
  dsimp only
  rw [hnext, Exec.ok_bind]
  dsimp only
  unfold curVal
  dsimp only
  rw [hval, Exec.ok_bind]
  rfl

/-! ## What the handler is handed -/

/-- What the calls of `next` return from here on. -/
theorem yields_from {seg : NSDataSegment} (hd : seg.core.Holds core) (ho : seg.nextOffset = o)
    (h : Cuts seg.core core seg.sepearator o gs) : seg.Yields gs := by
  intro k hk
  rw [segments_of_cuts hd ho h k, List.take_of_length_le hk.le]

/-- From any place on, the induction being on the segments that are left. -/
theorem findall_from (handler : σ → List UInt8 → σ × Bool) {seg : NSDataSegment} (hd : seg.core.Holds core)
    (ho : seg.nextOffset = o) (h : Cuts seg.core core seg.sepearator o gs) (s : σ) (hfuel : gs.length < fuel) :
    ∃ st rest, findall handler fuel seg s = .ok st ∧ offered handler s gs = (st.state, rest) ∧
      rest <:+ gs ∧ st.seg.Yields rest := by
  induction gs generalizing seg o s fuel with
  | nil =>
      obtain ⟨fuel, rfl⟩ : ∃ n, fuel = n + 1 := ⟨fuel - 1, by omega⟩
      cases h with
      | stop hstop =>
          refine ⟨{ seg := seg, state := s, left := true }, [], ?_, rfl, List.suffix_refl _,
            yields_from hd ho (.stop hstop)⟩
          rw [findall_succ, findallBody_stop hd ho hstop, Exec.ok_bind]
          exact Exec.loop_done rfl fuel
  | cons g gs ih =>
      obtain ⟨fuel, rfl⟩ : ∃ n, fuel = n + 1 := ⟨fuel - 1, by omega⟩
      cases h with
      | @cut _ r _ hfits hr hgs =>
          obtain ⟨r', hr', hbody⟩ := findallBody_cut handler hd ho hfits s
          obtain rfl := hr.unique hr'
          rw [findall_succ, hbody, Exec.ok_bind]
          cases hmore : (handler s (segmentAt core o r).val).2 with
          | true =>
              have hrest : (seg.past o r).core.Holds core := hd
              obtain ⟨st, rest, hfind, hoffered, hsuffix, hyields⟩ := ih hrest (seg.past_nextOffset o r) hgs
                (handler s (segmentAt core o r).val).1 (Nat.lt_of_succ_lt_succ hfuel)
              refine ⟨st, rest, hfind, ?_, hsuffix.trans (List.suffix_cons ..), hyields⟩
              rw [offered, if_pos hmore, hoffered]
          | false =>
              refine ⟨_, gs, Exec.loop_done rfl fuel, ?_, List.suffix_cons ..,
                yields_from hd (seg.past_nextOffset o r) hgs⟩
              rw [offered, if_neg (by simp [hmore])]

/-- **`findall` hands its handler the segments.** Whatever the memory behind the data holds, and whatever the handler
    makes of what it is handed: `findall` returns, the handler has been handed what the calls of `next` return, in
    order, up to the first segment after which it wants no other, and the calls of `next` after that return the
    rest. -/
theorem findall_hands_segments (hd : d.Holds core) (hne : sep ≠ []) (handler : σ → List UInt8 → σ × Bool) (s : σ) :
    ∃ gs, (create d sep).Yields gs ∧ ∀ fuel, gs.length < fuel →
      ∃ st rest, findall handler fuel (create d sep) s = .ok st ∧ offered handler s gs = (st.state, rest) ∧
        rest <:+ gs ∧ st.seg.Yields rest := by
  obtain ⟨gs, hgs⟩ := exists_cuts d core hd hne 0
  exact ⟨gs, yields_of_cuts hd hgs, fun fuel hfuel => findall_from handler hd rfl hgs s hfuel⟩

/-! ## When `findall` returns -/

/-- With an empty separator `next` returns the empty segment in front of all, and stays there. -/
theorem findallBody_empty (handler : σ → List UInt8 → σ × Bool) {seg : NSDataSegment} (hd : seg.core.Holds core)
    (hcore : core ≠ []) (hsep : seg.sepearator = []) (ho : seg.nextOffset = (0 : Nat)) (s : σ) :
    ∃ seg', findallBody handler { seg := seg, state := s } =
        .ok { seg := seg', state := (handler s []).1, left := !(handler s []).2 } ∧
      seg'.core = seg.core ∧ seg'.sepearator = [] ∧ seg'.nextOffset = (0 : Nat) := by
  have hpos := List.length_pos_of_ne_nil hcore
  obtain ⟨r, hr, hbody⟩ := findallBody_cut handler hd ho (by rw [hsep]; simpa using hpos) s
  have hzero : r = 0 := by
    by_contra hne
    refine hr.before 0 (Nat.le_refl 0) (Nat.pos_of_ne_zero hne) ?_
    rw [hsep]
    exact fun j hj => absurd hj (Nat.not_lt_zero j)
  subst hzero
  have hval : (segmentAt core 0 0).val = [] := by
    show (core.drop 0).take 0 = []
    exact List.take_zero
  rw [hval] at hbody
  refine ⟨seg.past 0 0, hbody, rfl, hsep, ?_⟩
  rw [past_nextOffset, hsep]
  rfl

/-- So `findall` returns if the handler refuses it in time. -/
theorem findall_empty_returns_iff (handler : σ → List UInt8 → σ × Bool) (fuel : Nat) {seg : NSDataSegment}
    (hd : seg.core.Holds core) (hcore : core ≠ []) (hsep : seg.sepearator = []) (ho : seg.nextOffset = (0 : Nat))
    (s : σ) :
    (findall handler fuel seg s).Returns ↔ ∃ k < fuel, (handler (afterEmpty handler s k) []).2 = false := by
  induction fuel generalizing seg s with
  | zero =>
      constructor
      · rintro ⟨_, h⟩
        cases h
      · rintro ⟨k, hk, _⟩
        exact absurd hk (Nat.not_lt_zero k)
  | succ fuel ih =>
      obtain ⟨seg', hbody, hcore', hsep', ho'⟩ := findallBody_empty handler hd hcore hsep ho s
      rw [findall_succ, hbody, Exec.ok_bind]
      cases hmore : (handler s []).2 with
      | false =>
          constructor
          · intro _
            exact ⟨0, Nat.succ_pos fuel, hmore⟩
          · intro _
            exact ⟨_, Exec.loop_done rfl fuel⟩
      | true =>
          have hd' : seg'.core.Holds core := hcore' ▸ hd
          refine Iff.trans (ih hd' hsep' ho' (handler s []).1) ?_
          constructor
          · rintro ⟨k, hk, hrefuses⟩
            exact ⟨k + 1, Nat.succ_lt_succ hk, hrefuses⟩
          · rintro ⟨k, hk, hrefuses⟩
            cases k with
            | zero =>
                rw [afterEmpty, hmore] at hrefuses
                cases hrefuses
            | succ k => exact ⟨k, Nat.lt_of_succ_lt_succ hk, hrefuses⟩

/-- **When `findall` returns.** With a separator, or on empty data, always; with an empty separator on other data only
    if the handler, handed the empty segment again and again, refuses it at last. -/
theorem findall_returns_iff (hd : d.Holds core) (handler : σ → List UInt8 → σ × Bool) (s : σ) :
    (∃ fuel, (findall handler fuel (create d sep) s).Returns) ↔
      sep ≠ [] ∨ core = [] ∨ ∃ k, (handler (afterEmpty handler s k) []).2 = false := by
  have hstart : (create d sep).core.Holds core := hd
  by_cases hne : sep ≠ []
  · obtain ⟨gs, hgs⟩ := exists_cuts d core hd hne 0
    obtain ⟨st, _, hok, _⟩ := findall_from handler hstart rfl hgs s (Nat.lt_succ_self gs.length)
    exact ⟨fun _ => .inl hne, fun _ => ⟨gs.length + 1, st, hok⟩⟩
  · by_cases hcore : core = []
    · have hstop : Cuts d core sep 0 [] := .stop (.inl (by rw [hcore]; rfl))
      obtain ⟨st, _, hok, _⟩ := findall_from handler hstart rfl hstop s Nat.zero_lt_one
      exact ⟨fun _ => .inr (.inl hcore), fun _ => ⟨1, st, hok⟩⟩
    · have hsep : sep = [] := not_not.mp hne
      have hreturns (fuel : Nat) := findall_empty_returns_iff handler fuel hstart hcore hsep rfl s
      constructor
      · rintro ⟨fuel, h⟩
        obtain ⟨k, _, hrefuses⟩ := (hreturns fuel).mp h
        exact .inr (.inr ⟨k, hrefuses⟩)
      · rintro (h | h | ⟨k, hrefuses⟩)
        · exact absurd h hne
        · exact absurd h hcore
        · exact ⟨k + 1, (hreturns (k + 1)).mpr ⟨k, Nat.lt_succ_self k, hrefuses⟩⟩

/-- A handler that counts the segments, up to the first empty one. -/
def countToEmpty (n : Nat) (val : List UInt8) : Nat × Bool := (n + 1, !val.isEmpty)

example : FindAll.state <$> findall countToEmpty 4 (create (.ofBytes lines fun _ => 0) [13, 10]) 0 = .ok 2 := rfl

/-- It is handed two of them, and the third is left for `next`. -/
theorem findall_hands_segments_lines :
    ∃ gs, (create (.ofBytes lines fun _ => 0) [13, 10]).Yields gs ∧ ∀ fuel, gs.length < fuel →
      ∃ st rest, findall countToEmpty fuel (create (.ofBytes lines fun _ => 0) [13, 10]) 0 = .ok st ∧
        offered countToEmpty 0 gs = (st.state, rest) ∧ rest <:+ gs ∧ st.seg.Yields rest :=
  findall_hands_segments (NSData.holds_ofBytes lines fun _ => 0) (by decide) countToEmpty 0

/-- A handler that always wants another segment never gets done with the empty separator. -/
theorem findall_returns_iff_empty :
    ¬ ∃ fuel, (findall (fun n _ => (n + 1, true)) fuel (create (.ofBytes lines fun _ => 0) []) 0).Returns := by
  rw [findall_returns_iff (NSData.holds_ofBytes lines fun _ => 0)]
  rintro (h | h | ⟨k, h⟩)
  · exact h rfl
  · cases h
  · cases h

end NSDataSegment

end SpartanX
