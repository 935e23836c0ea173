import SpartanX.Lib.CMemory

/-!
# `Lib.Overlap` — copying within an object of C's memory

Bytes are copied down, from `gap` bytes behind their target. A byte is read after another has been written over it iff
the index `gap` further on comes earlier in the order of the copy. So the copy is right in an order in which this
never happens, such as the ascending one, and in every order if the bytes repeat with period `gap`
(`copyWithin_down`); in the descending order, what is copied repeats with that period whatever the bytes were
(`copyWithin_descending`).
-/

namespace CMemory

namespace Block

variable {b b' : Block} {dst gap : Nat} {n : CInt.SizeT} {order : List Nat}

theorem fits_copyByte (b : Block) (dst src k : Nat) :
    (b.bytes.set (dst + k) (b.bytes.getD (src + k) 0)).length < 9223372036854775808 := by
  simpa using b.fits

/-- Copy one byte. -/
def copyByte (dst src : Nat) (b : Block) (k : Nat) : Block :=
  ⟨b.bytes.set (dst + k) (b.bytes.getD (src + k) 0), fits_copyByte b dst src k⟩

theorem copyWithin_eq_ok {src : Nat} : b.copyWithin order dst src n = .ok b' ↔
    (dst + n.toNat ≤ b.bytes.length ∧ src + n.toNat ≤ b.bytes.length) ∧ order.foldl (copyByte dst src) b = b' := by
  unfold copyWithin
  split
  · next h =>
      rw [Exec.ok.injEq, and_iff_right h]
      exact Iff.rfl
  · next h => simp [h]

theorem length_foldl_copyByte {src : Nat} (order : List Nat) (b : Block) :
    (order.foldl (copyByte dst src) b).bytes.length = b.bytes.length := by
  induction order generalizing b with
  | nil => rfl
  | cons k order ih => rw [List.foldl_cons, ih, copyByte, List.length_set]

/-- A byte that is not among those copied to stays. -/
theorem foldl_copyByte_frame {src i : Nat} (hi : ∀ k ∈ order, dst + k ≠ i) (b : Block) :
    (order.foldl (copyByte dst src) b).bytes[i]? = b.bytes[i]? := by
  induction order generalizing b with
  | nil => rfl
  | cons k order ih =>
      obtain ⟨hne, hrest⟩ := List.forall_mem_cons.mp hi
      rw [List.foldl_cons, ih hrest]
      exact List.getElem?_set_ne hne

/-- A copy within an object changes nothing outside its target, in whatever order it proceeds. -/
theorem copyWithin_frame {src : Nat} (horder : ∀ k ∈ order, k < n.toNat)
    (h : b.copyWithin order dst src n = .ok b') :
    b'.bytes.length = b.bytes.length ∧
      ∀ i, i < dst ∨ dst + n.toNat ≤ i → b'.bytes[i]? = b.bytes[i]? := by
  obtain ⟨_, rfl⟩ := copyWithin_eq_ok.mp h
  refine ⟨length_foldl_copyByte order b, ?_⟩
  intro i hi
  apply foldl_copyByte_frame
  intro k hk
  have hlt := horder k hk
  omega

/-- The byte that is copied to. -/
theorem copyByte_at {src k : Nat} (hdst : dst + k < b.bytes.length) (hsrc : src + k < b.bytes.length) :
    (copyByte dst src b k).bytes[dst + k]? = b.bytes[src + k]? := by
  show (b.bytes.set (dst + k) _)[dst + k]? = _
  rw [List.getElem?_set_self hdst, List.getD_eq_getElem?_getD, List.getElem?_eq_getElem hsrc, Option.getD_some]

/-- No byte is read after another has been written over it, or the other is the same. -/
def CopiesDown (order : List Nat) (gap : Nat) (u : List UInt8) : Prop :=
  ∀ as k bs, order = as ++ k :: bs → k + gap ∈ as → u[k + gap]? = u[k]?

/-- In ascending order no byte is read after another has been written over it. -/
theorem copiesDown_range (m gap : Nat) (u : List UInt8) : CopiesDown (List.range m) gap u := by
  intro as k bs heq hmem
  have hsorted : (as ++ k :: bs).Pairwise (· < ·) := heq ▸ List.pairwise_lt_range
  have hlt := (List.pairwise_append.mp hsorted).2.2 (k + gap) hmem k List.mem_cons_self
  omega

/-- Bytes that repeat with the period of the gap are copied in any order. -/
theorem copiesDown_of_period {u : List UInt8} (hu : u.drop gap <+: u) (horder : ∀ k ∈ order, k < u.length) :
    CopiesDown order gap u := by
  intro as k bs heq hmem
  have hlt : k + gap < u.length := horder _ (by rw [heq]; exact List.mem_append_left _ hmem)
  have hdrop : k < (u.drop gap).length := by
    rw [List.length_drop]
    omega
  have hget : (u.drop gap)[k]? = u[k]? := List.prefix_iff_getElem?.mp hu k hdrop ▸ (List.getElem?_eq_getElem hdrop)
  rw [← hget, List.getElem?_drop, Nat.add_comm]

/-- What has been copied when the copy is right. -/
theorem foldl_copyByte_down {u : List UInt8} (hdown : CopiesDown order gap u)
    (hu : ∀ k < u.length, b.bytes[dst + gap + k]? = u[k]?) (horder : ∀ k ∈ order, k < u.length)
    (hroom : dst + gap + u.length ≤ b.bytes.length) :
    ∀ k ∈ order, (order.foldl (copyByte dst (dst + gap)) b).bytes[dst + k]? = u[k]? := by
  -- the bytes copied to so far hold what they should, the others what they did
  have hsplit : ∀ bs as (b₁ : Block), order = as ++ bs → b₁.bytes.length = b.bytes.length →
      (∀ q, b₁.bytes[dst + q]? = if q ∈ as then u[q]? else b.bytes[dst + q]?) →
      ∀ q ∈ order, (bs.foldl (copyByte dst (dst + gap)) b₁).bytes[dst + q]? = u[q]? := by
    intro bs
    induction bs with
    | nil =>
        intro as b₁ heq _ hinv q hq
        rw [heq, List.append_nil] at hq
        rw [List.foldl_nil, hinv q, if_pos hq]
    | cons k bs ih =>
        intro as b₁ heq hlen hinv
        have hk : k < u.length := horder k (by rw [heq]; exact List.mem_append_right _ List.mem_cons_self)
        rw [List.foldl_cons]
        apply ih (as ++ [k]) (copyByte dst (dst + gap) b₁ k)
        · rw [heq, List.append_assoc, List.singleton_append]
        · rw [← hlen]
          exact List.length_set ..
        · intro q
          by_cases hqk : q = k
          · subst hqk
            have hread : b₁.bytes[dst + gap + q]? = u[q]? := by
              have hat := hinv (gap + q)
              rw [← Nat.add_assoc] at hat
              rw [hat]
              split
              · next hmem =>
                  rw [Nat.add_comm gap q] at hmem ⊢
                  exact hdown as q bs heq hmem
              · exact hu q hk
            rw [copyByte_at (by omega) (by omega), hread,
              if_pos (List.mem_append_right as (List.mem_singleton_self q))]
          · have hsame : (copyByte dst (dst + gap) b₁ k).bytes[dst + q]? = b₁.bytes[dst + q]? :=
              List.getElem?_set_ne (by omega)
            have hmem : q ∈ as ++ [k] ↔ q ∈ as := by simp [hqk]
            rw [hsame, hinv q]
            simp only [hmem]
  exact hsplit order [] b rfl rfl (by simp)

/-- **A copy down** in an order in which it is right: the bytes have moved to the target. -/
theorem copyWithin_down {xs z u rest : List UInt8} (hdown : CopiesDown order z.length u)
    (hperm : order.Perm (List.range n.toNat)) (hn : n.toNat = u.length) (hb : b.bytes = xs ++ z ++ u ++ rest)
    (h : b.copyWithin order xs.length (xs.length + z.length) n = .ok b') :
    ∃ w, w.length = z.length ∧ b'.bytes = xs ++ u ++ w ++ rest := by
  have horder (k : Nat) : k ∈ order ↔ k < u.length := by rw [hperm.mem_iff, List.mem_range, hn]
  obtain ⟨hlen, hframe⟩ := copyWithin_frame (fun k hk => hn ▸ (horder k).mp hk) h
  obtain ⟨⟨_, hsrc⟩, rfl⟩ := copyWithin_eq_ok.mp h
  have hsize : b.bytes.length = xs.length + z.length + u.length + rest.length := by
    rw [hb]
    simp only [List.length_append]
  have hsource (k : Nat) (hk : k < u.length) : b.bytes[xs.length + z.length + k]? = u[k]? := by
    rw [hb, ← List.length_append, List.append_assoc, List.getElem?_append_right (by omega), Nat.add_sub_cancel_left,
      List.getElem?_append_left hk]
  have hmoved := foldl_copyByte_down hdown hsource (fun k hk => (horder k).mp hk) (by omega)
  revert hlen hframe hmoved
  generalize order.foldl (copyByte xs.length (xs.length + z.length)) b = b'
  intro hlen hframe hmoved
  have hfront : b'.bytes.take xs.length = xs := by
    apply List.ext_getElem?
    intro i
    rw [List.getElem?_take]
    split
    · next hi =>
        rw [hframe i (Or.inl hi), hb, List.append_assoc, List.append_assoc, List.getElem?_append_left hi]
    · next hi => rw [List.getElem?_eq_none (by omega)]
  have hmid : (b'.bytes.drop xs.length).take u.length = u := by
    apply List.ext_getElem?
    intro k
    rw [List.getElem?_take]
    split
    · next hk => rw [List.getElem?_drop, hmoved k ((horder k).mpr hk)]
    · next hk => rw [List.getElem?_eq_none (by omega)]
  have hback : b'.bytes.drop (xs.length + u.length + z.length) = rest := by
    apply List.ext_getElem?
    intro i
    have hfar : (xs ++ z ++ u).length = xs.length + u.length + z.length := by
      simp only [List.length_append]
      omega
    rw [List.getElem?_drop, hframe _ (Or.inr (by omega)), hb, ← hfar, List.getElem?_append_right (by omega),
      Nat.add_sub_cancel_left]
  refine ⟨(b'.bytes.drop (xs.length + u.length)).take z.length, ?_, ?_⟩
  · rw [List.length_take, List.length_drop]
    omega
  · conv_lhs => rw [← List.take_append_drop xs.length b'.bytes, hfront,
      ← List.take_append_drop u.length (b'.bytes.drop xs.length), hmid, List.drop_drop,
      ← List.take_append_drop z.length (b'.bytes.drop (xs.length + u.length)), List.drop_drop, hback]
    simp only [List.append_assoc]

/-- **A copy down in descending order** repeats with the period of the gap. -/
theorem copyWithin_descending (hgap : 0 < gap)
    (h : b.copyWithin (List.range n.toNat).reverse dst (dst + gap) n = .ok b') {k : Nat} (hk : k + gap < n.toNat) :
    b'.bytes[dst + k]? = b'.bytes[dst + (k + gap)]? := by
  obtain ⟨⟨hdst, hsrc⟩, rfl⟩ := copyWithin_eq_ok.mp h
  obtain ⟨m, hm⟩ : ∃ m, n.toNat = k + (m + 1) := ⟨n.toNat - k - 1, by omega⟩
  -- the bytes behind this one first, then it, then those before it
  have horder : (List.range n.toNat).reverse =
      ((List.range m).map fun j => k + (j + 1)).reverse ++ k :: (List.range k).reverse := by
    rw [hm, List.range_add, List.range_succ_eq_map, List.map_cons, List.map_map, List.reverse_append,
      List.reverse_cons, List.append_assoc]
    rfl
  rw [horder, List.foldl_append, List.foldl_cons]
  generalize hmid : ((List.range m).map fun j => k + (j + 1)).reverse.foldl (copyByte dst (dst + gap)) b = mid
  have hlen : mid.bytes.length = b.bytes.length := by rw [← hmid, length_foldl_copyByte]
  have hrest : mid.bytes[dst + (k + gap)]? = (copyByte dst (dst + gap) mid k).bytes[dst + (k + gap)]? :=
    (List.getElem?_set_ne (by omega)).symm
  have hbefore (i : Nat) (hi : dst + k ≤ i) : ∀ j ∈ (List.range k).reverse, dst + j ≠ i := by
    intro j hj
    have hlt := List.mem_range.mp (List.mem_reverse.mp hj)
    omega
  rw [foldl_copyByte_frame (hbefore _ (Nat.le_refl _)), foldl_copyByte_frame (hbefore _ (by omega)),
    copyByte_at (by omega) (by omega), ← hrest, Nat.add_assoc, Nat.add_comm gap k]

end Block

/-- `memcpy` copies from the first byte to the last. -/
def Libc.Ascending (libc : Libc) : Prop := ∀ n, libc.order n = List.range n

theorem Libc.Ascending.copiesDown {libc : Libc} (h : libc.Ascending) (n gap : Nat) (u : List UInt8) :
    Block.CopiesDown (libc.order n) gap u := by
  rw [h n]
  exact Block.copiesDown_range n gap u

end CMemory
