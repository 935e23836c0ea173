import SpartanX.Strings.Edit

/-!
# `Strings.Invariant` — sequences of string operations

A program holds a list of strings, to which it adds by creating strings and taking substrings, and which it
changes by the operations of `Strings.Edit` (`StringOp`). An operation whose arguments are in range always
returns on well-formed strings, and it leaves well-formed strings only iff it is neither a creation that cuts its
C string nor a join with something to append (`perform_ok`). So this is what decides whether all strings are well
formed throughout a sequence of operations (`strings_wellFormed_iff`).
-/

namespace SpartanX

open CInt CMemory

/-- An operation; a number is the index of a string in the list. -/
inductive StringOp
  | create (cstr : CString) (length : SizeT)
  | substring (k : Nat) (range : SXRange)
  | join (k : Nat) (cstring : CString)
  | removeRange (k : Nat) (range : SXRange)
  | removeOcurrence (k : Nat) (remove : Block) (len : SizeT)

/-- The list after an operation. -/
def StringOp.perform (libc : Libc) (strs : List SXString) : StringOp → Exec (List SXString)
  | .create cstr length => do
    let s ← sxCreateStringWithCString cstr.block length
    pure (strs ++ [s])
  | .substring k range => do
    let str ← getAt strs k
    let s ← sxStringGetSubstringInRange str range
    pure (strs ++ [s])
  | .join k cstring => do
    let str ← getAt strs k
    let s ← sxStringJoinCString libc str cstring.block
    pure (strs.set k s)
  | .removeRange k range => do
    let str ← getAt strs k
    let s ← sxStringRemovingRange libc str range
    pure (strs.set k s)
  | .removeOcurrence k remove len => do
    let str ← getAt strs k
    let s ← sxStringRemoveOcurrenceOfCString libc str remove len
    pure (strs.set k s)

/-- The arguments are in range: there is a string of this index, a range lies inside it, an appended C string
    fits into an object with it, and a pattern can be read up to its stated length. -/
def StringOp.InRange (strs : List SXString) : StringOp → Prop
  | .create _ _                  => True
  | .substring k range           => ∃ s ∈ strs[k]?, range.loca.toNat + range.len.toNat ≤ s.length.toNat
  | .join k cstring              => ∃ s ∈ strs[k]?, s.length.toNat + cstring.text.length + 1 < 9223372036854775808
  | .removeRange k range         => ∃ s ∈ strs[k]?, range.loca.toNat + range.len.toNat ≤ s.length.toNat
  | .removeOcurrence k remove len => ∃ _s ∈ strs[k]?, (nulWithin remove.bytes len.toNat).Returns

instance (strs : List SXString) : (op : StringOp) → Decidable (op.InRange strs)
  | .create _ _            => inferInstanceAs (Decidable True)
  | .substring k range     =>
    inferInstanceAs (Decidable (∃ s ∈ strs[k]?, range.loca.toNat + range.len.toNat ≤ s.length.toNat))
  | .join k cstring        =>
    inferInstanceAs (Decidable (∃ s ∈ strs[k]?, s.length.toNat + cstring.text.length + 1 < 9223372036854775808))
  | .removeRange k range   =>
    inferInstanceAs (Decidable (∃ s ∈ strs[k]?, range.loca.toNat + range.len.toNat ≤ s.length.toNat))
  | .removeOcurrence k remove len =>
    inferInstanceAs (Decidable (∃ _s ∈ strs[k]?, (nulWithin remove.bytes len.toNat).Returns))

/-- The operation does not cut a C string, and appends nothing. -/
def StringOp.Keeps : StringOp → Prop
  | .create cstr length => cstr.text.length ≤ length.toNat
  | .join _ cstring     => cstring.text = []
  | _                   => True

instance : (op : StringOp) → Decidable op.Keeps
  | .create cstr length      => inferInstanceAs (Decidable (cstr.text.length ≤ length.toNat))
  | .join _ cstring          => inferInstanceAs (Decidable (cstring.text = []))
  | .substring _ _ | .removeRange _ _ | .removeOcurrence _ _ _ => inferInstanceAs (Decidable True)

/-- An operation with arguments in range, as a step of a machine without events. -/
def stringStep (libc : Libc) : Machine.Step (List SXString) StringOp Unit := fun strs op =>
  if op.InRange strs then
    match op.perform libc strs with
    | .ok strs' => some (strs', [])
    | _         => none
  else none

section Invariant

variable {libc : Libc} {strs strs' : List SXString} {op : StringOp}

/-- With one more string all are well formed iff the new one is. -/
theorem forall_wellFormed_append {s : SXString} (hw : ∀ s ∈ strs, s.WellFormed) :
    (∀ t ∈ strs ++ [s], t.WellFormed) ↔ s.WellFormed := by
  constructor
  · intro h
    exact h s (List.mem_append_right strs (List.mem_singleton_self s))
  · intro h t ht
    rcases List.mem_append.mp ht with ht | ht
    · exact hw t ht
    · rw [List.mem_singleton.mp ht]
      exact h

/-- With another string at one index all are well formed iff that one is. -/
theorem forall_wellFormed_set {s : SXString} {k : Nat} (hw : ∀ s ∈ strs, s.WellFormed) (hk : k < strs.length) :
    (∀ t ∈ strs.set k s, t.WellFormed) ↔ s.WellFormed := by
  constructor
  · intro h
    exact h s (List.mem_set hk s)
  · intro h t ht
    rcases List.mem_or_eq_of_mem_set ht with ht | rfl
    · exact hw t ht
    · exact h

/-- **An operation in range returns**, and all strings are well formed after it iff it meets the condition. -/
theorem perform_ok (libc : Libc) (hw : ∀ s ∈ strs, s.WellFormed) (hr : op.InRange strs) :
    ∃ strs', op.perform libc strs = .ok strs' ∧ ((∀ s ∈ strs', s.WellFormed) ↔ op.Keeps) := by
  have hget {k : Nat} {s : SXString} (hs : s ∈ strs[k]?) : getAt strs k = .ok s ∧ k < strs.length := by
    have hsome : strs[k]? = some s := hs
    exact ⟨by rw [getAt, hsome]; rfl, (List.getElem?_eq_some_iff.mp hsome).1⟩
  have hholds {k : Nat} {s : SXString} (hs : s ∈ strs[k]?) : ∃ c, s.Holds c :=
    wellFormed_iff.mp (hw s (List.mem_of_getElem? hs))
  cases op with
  | create cstr length =>
      obtain ⟨s, hok, hcreated⟩ := sxCreateStringWithCString_ok cstr.holds length
      refine ⟨strs ++ [s], by simp [StringOp.perform, hok], ?_⟩
      rw [forall_wellFormed_append hw, hcreated.wellFormed_iff cstr.holds.1]
      exact Iff.rfl
  | substring k range =>
      obtain ⟨str, hstr, hrange⟩ := hr
      obtain ⟨c, hc⟩ := hholds hstr
      rw [hc.length] at hrange
      have hsplit : c = c.take range.loca.toNat ++ (c.drop range.loca.toNat).take range.len.toNat ++
          (c.drop range.loca.toNat).drop range.len.toNat := by
        rw [List.append_assoc, List.take_append_drop, List.take_append_drop]
      obtain ⟨s, hok, _, hs⟩ := sxStringGetSubstringInRange_ok range (hsplit ▸ hc)
        (by rw [List.length_take]; omega) (by rw [List.length_take, List.length_drop]; omega)
      refine ⟨strs ++ [s], by simp [StringOp.perform, (hget hstr).1, hok], ?_⟩
      rw [forall_wellFormed_append hw]
      exact iff_of_true (wellFormed_iff.mpr ⟨_, hs⟩) trivial
  | join k cstring =>
      obtain ⟨str, hstr, hfits⟩ := hr
      obtain ⟨c, hc⟩ := hholds hstr
      rw [hc.length] at hfits
      obtain ⟨s, _, hok, _⟩ := sxStringJoinCString_ok libc hc hfits
      refine ⟨strs.set k s, by simp [StringOp.perform, (hget hstr).1, hok], ?_⟩
      rw [forall_wellFormed_set hw (hget hstr).2, join_wellFormed_iff hc hfits hok]
      exact Iff.rfl
  | removeRange k range =>
      obtain ⟨str, hstr, hrange⟩ := hr
      obtain ⟨c, hc⟩ := hholds hstr
      rw [hc.length] at hrange
      obtain ⟨s, c', hok, hs, _⟩ := sxStringRemovingRange_ok libc range hc hrange
      refine ⟨strs.set k s, by simp [StringOp.perform, (hget hstr).1, hok], ?_⟩
      rw [forall_wellFormed_set hw (hget hstr).2]
      exact iff_of_true (wellFormed_iff.mpr ⟨c', hs⟩) trivial
  | removeOcurrence k remove len =>
      obtain ⟨str, hstr, m, hm⟩ := hr
      obtain ⟨c, hc⟩ := hholds hstr
      obtain ⟨s, c', hok, hs⟩ := sxStringRemoveOcurrenceOfCString_ok libc hc hm
      refine ⟨strs.set k s, by simp [StringOp.perform, (hget hstr).1, hok], ?_⟩
      rw [forall_wellFormed_set hw (hget hstr).2]
      exact iff_of_true (wellFormed_iff.mpr ⟨c', hs⟩) trivial

/-- A step is an operation in range. -/
theorem stringStep_eq_some {es : List Unit} :
    stringStep libc strs op = some (strs', es) ↔ op.InRange strs ∧ op.perform libc strs = .ok strs' ∧ es = [] := by
  unfold stringStep
  split
  · rename_i hr
    cases hp : op.perform libc strs <;> simp [hr, eq_comm]
  · rename_i hr
    simp [hr]

end Invariant

/-- **Strings stay well formed exactly as long as no creation cuts its C string and no join has anything to
    append.** From any well-formed strings, every operation in range returns; and all strings are well formed
    throughout a sequence of operations iff each of them meets this condition. -/
theorem strings_wellFormed_iff (libc : Libc) {strs₀ strs : List SXString} {ops : List StringOp} {tr : List Unit}
    (h₀ : ∀ s ∈ strs₀, s.WellFormed) (hrun : Machine.run (stringStep libc) strs₀ ops = some (strs, tr)) :
    (Machine.Throughout (stringStep libc) (fun strs _ => (∀ s ∈ strs, s.WellFormed) ∧
        ∀ op : StringOp, op.InRange strs → (op.perform libc strs).Returns) [] strs₀ ops ↔
      Machine.Guarded (stringStep libc) (fun _ _ op => op.Keeps) [] strs₀ ops) := by
  refine Machine.throughout_iff_guarded (I := fun strs _ => ∀ s ∈ strs, s.WellFormed) ?_ ?_ ?_ h₀ hrun
  · intro strs _ hw
    refine ⟨hw, ?_⟩
    intro op hr
    obtain ⟨strs', hok, _⟩ := perform_ok libc hw hr
    exact ⟨strs', hok⟩
  · intro strs _ op strs' es hw hk hs
    obtain ⟨hr, hp, _⟩ := stringStep_eq_some.mp hs
    obtain ⟨strs'', hok, hiff⟩ := perform_ok libc hw hr
    obtain rfl : strs' = strs'' := Exec.ok.inj (hp.symm.trans hok)
    exact hiff.mpr hk
  · intro strs _ op strs' es hw hk hs h
    obtain ⟨hr, hp, _⟩ := stringStep_eq_some.mp hs
    obtain ⟨strs'', hok, hiff⟩ := perform_ok libc hw hr
    obtain rfl : strs' = strs'' := Exec.ok.inj (hp.symm.trans hok)
    exact hk (hiff.mp h.1)

/-- The strings `"b"` and `"ab"` as arguments. -/
def textB  : CString := CString.ofText [98] (by decide) (by decide)
def textAb : CString := CString.ofText [97, 98] (by decide) (by decide)

/-- A library that copies in ascending order, from memory that is all zeros. -/
def plainLibc : Libc := ⟨List.range, fun _ => List.Perm.refl _, fun _ => 0⟩

/-- A sequence in which every kind of operation meets the condition. -/
def keepingOps : List StringOp :=
  [.create textAb 7, .substring 0 ⟨0, 1⟩, .join 0 .empty, .removeOcurrence 0 textB.block 1, .removeRange 1 ⟨0, 1⟩]

/-- All strings are well formed throughout it, and two of them are there in the end. -/
theorem strings_wellFormed_iff_keeping :
    ∃ strs tr, Machine.run (stringStep plainLibc) [] keepingOps = some (strs, tr) ∧ strs.length = 2 ∧
      Machine.Throughout (stringStep plainLibc) (fun strs _ => (∀ s ∈ strs, s.WellFormed) ∧
        ∀ op : StringOp, op.InRange strs → (op.perform plainLibc strs).Returns) [] [] keepingOps := by
  have hlen : (Machine.run (stringStep plainLibc) [] keepingOps).map (·.1.length) = some 2 := by decide +kernel
  obtain ⟨⟨strs, tr⟩, hrun, hstrs⟩ := Option.map_eq_some_iff.mp hlen
  exact ⟨strs, tr, hrun, hstrs, (strings_wellFormed_iff plainLibc (by simp) hrun).mpr (by decide +kernel)⟩

/-- Creating a string from `"ab"` with length `1` gives one without terminator, and so does appending `"b"` to the
    string made from `"b"`. -/
theorem create_cut_join_not_wellFormed :
    (∃ s, sxCreateStringWithCString textAb.block 1 = .ok s ∧ s.chars.bytes = [97, 98] ∧ ¬ s.WellFormed) ∧
      ∃ s s', sxCreateStringWithCString textB.block 1 = .ok s ∧ s.WellFormed ∧
        sxStringJoinCString plainLibc s textB.block = .ok s' ∧ s'.length = 1 ∧ s'.chars.bytes.take 2 = [98, 98] ∧
        ¬ s'.WellFormed := by
  obtain ⟨s, hs, hcut⟩ := sxCreateStringWithCString_ok textAb.holds 1
  obtain ⟨t, ht, hkept⟩ := sxCreateStringWithCString_ok textB.holds 1
  have hheld : t.Holds textB.text := hkept.holds textB.holds.1 (by decide)
  have hfits : textB.text.length + textB.text.length + 1 < 9223372036854775808 := by decide
  obtain ⟨t', z, ht', hlen, hbytes, _⟩ := sxStringJoinCString_ok plainLibc hheld hfits
  refine ⟨⟨s, hs, hcut.bytes, ?_⟩, t, t', ht, ?_, ht', ?_, ?_, ?_⟩
  · rw [hcut.wellFormed_iff textAb.holds.1]
    decide
  · exact wellFormed_iff.mpr ⟨_, hheld⟩
  · rw [hlen, hheld.length_eq]
    rfl
  · rw [hbytes]
    rfl
  · rw [join_wellFormed_iff hheld hfits ht']
    decide

end SpartanX
