import SpartanX.VectorStorage

/-!
# `VectorElements` — what becomes of the elements of a vector of `SXVector.c`

As long as `realloc` leaves the block where it is, a vector is a stack: `SXVectorPushBack` puts an element behind the
others, `SXVectorPopback` deallocates the last one, and `SXFreeVector` those that are left, from the first to the last
(`Elements.after`, `StoredVector.Stores`). So every element that is put in is deallocated exactly once
(`elements_deallocated_once`).
-/

namespace SpartanX

open CInt CMemory StoredVector

/-! ## The elements -/

/-- The elements that a vector has, and those that have been deallocated, in order. -/
structure Elements where
  left : List (List UInt8)
  gone : List (List UInt8)
  deriving DecidableEq

/-- The elements after an operation on a vector with elements of `osize` bytes. -/
def Elements.after (osize : Nat) (es : Elements) : VectorOp → Elements
  | .pushBack _ item => { es with left := es.left ++ [item.bytes.take osize] }
  | .popback         => { left := es.left.dropLast, gone := es.gone ++ es.left.getLast?.toList }
  | .resize _ _      => es

/-- The elements that operations put in. -/
def putIn (osize : Nat) (ops : List VectorOp) : List (List UInt8) :=
  ops.filterMap fun op =>
    match op with
    | .pushBack _ item => some (item.bytes.take osize)
    | _                => none

/-- The elements that a vector is made with. -/
def VectorMaking.elements : VectorMaking → List (List UInt8)
  | .create _ _ _ _                      => []
  | .createWithArray _ array objSize nItems _ =>
    (List.range nItems.toNat).map fun i => (array.bytes.drop (i * objSize.toNat)).take objSize.toNat

/-- The size of an element. -/
def VectorMaking.objSize : VectorMaking → SizeT
  | .create _ objSize _ _            => objSize
  | .createWithArray _ _ objSize _ _ => objSize

/-- If a vector is made with elements, then there is memory for them, and the array has as many as it should. -/
def VectorMaking.Proper : VectorMaking → Prop
  | .create _ _ _ _                           => True
  | .createWithArray r array objSize nItems _ =>
    (r.Returns ∨ nItems = 0) ∧ nItems.toNat * objSize.toNat ≤ array.bytes.length

instance : (m : VectorMaking) → Decidable m.Proper
  | .create _ _ _ _                           => inferInstanceAs (Decidable True)
  | .createWithArray r array objSize nItems _ =>
    inferInstanceAs (Decidable ((r.Returns ∨ nItems = 0) ∧ nItems.toNat * objSize.toNat ≤ array.bytes.length))

/-- An element is added where `realloc` leaves the block where it is, or the last one is taken off. -/
def VectorOp.InPlace : VectorOp → Prop
  | .pushBack r _ => r = .inPlace
  | .popback      => True
  | .resize _ _   => False

instance : (op : VectorOp) → Decidable op.InPlace
  | .pushBack r _ => inferInstanceAs (Decidable (r = .inPlace))
  | .popback      => inferInstanceAs (Decidable True)
  | .resize _ _   => inferInstanceAs (Decidable False)

/-- The elements after a vector has been made and operations performed on it. -/
def elementsAfter (making : VectorMaking) (ops : List VectorOp) : Elements :=
  ops.foldl (Elements.after making.objSize.toNat) { left := making.elements, gone := [] }

/-- **Nothing is lost and nothing comes twice**: the elements that are gone and those that are left are those that
    were there and those that have been put in. -/
theorem elements_conserved (osize : Nat) (ops : List VectorOp) : ∀ es : Elements,
    ((ops.foldl (Elements.after osize) es).gone ++ (ops.foldl (Elements.after osize) es).left).Perm
      (es.gone ++ es.left ++ putIn osize ops) := by
  induction ops with
  | nil =>
      intro es
      rw [List.foldl_nil, putIn, List.filterMap_nil, List.append_nil]
  | cons op ops ih =>
      intro es
      refine (ih (es.after osize op)).trans ?_
      cases op with
      | pushBack r item =>
          show (es.gone ++ (es.left ++ [_]) ++ putIn osize ops).Perm (es.gone ++ es.left ++ _ :: putIn osize ops)
          rw [← List.append_assoc, List.append_assoc _ [_]]
          exact List.Perm.refl _
      | popback =>
          show (es.gone ++ es.left.getLast?.toList ++ es.left.dropLast ++ putIn osize ops).Perm
            (es.gone ++ es.left ++ putIn osize ops)
          refine List.Perm.append_right _ ?_
          rw [List.append_assoc]
          refine List.Perm.append_left _ ?_
          rcases List.eq_nil_or_concat es.left with hnil | ⟨xs, x, hlast⟩
          · rw [hnil]
            exact List.Perm.refl _
          · rw [hlast, List.concat_eq_append, List.getLast?_concat, List.dropLast_concat]
            exact List.perm_append_comm
      | resize r count => exact List.Perm.refl _

/-! ## The memory -/

/-- The vector has these elements, one behind the other, at the start of its block; or it has none, and no block. -/
structure StoredVector.Stores (vector : StoredVector) (xs : List (List UInt8)) : Prop where
  count  : vector.count.toNat = xs.length
  sizes  : ∀ x ∈ xs, x.length = vector.osize.toNat
  memory : (xs = [] ∧ vector.memLoca = none) ∨
    ∃ b rest, vector.allocated = some b ∧ vector.memLoca = some b.addr ∧ b.block.bytes = xs.flatten ++ rest

section Stores

variable {fresh : Nat → UInt8} {vector vector' : StoredVector} {xs ys zs : List (List UInt8)} {x : List UInt8}
  {index : SizeT} {item : Block}

theorem length_flatten_of_sizes {k : Nat} : ∀ {xs : List (List UInt8)}, (∀ x ∈ xs, x.length = k) →
    xs.flatten.length = xs.length * k := by
  intro xs
  induction xs with
  | nil => intro _; simp
  | cons x xs ih =>
      intro h
      obtain ⟨hx, hxs⟩ := List.forall_mem_cons.mp h
      rw [List.flatten_cons, List.length_append, hx, ih hxs, List.length_cons, Nat.succ_mul, Nat.add_comm]

/-- The address of an index is that many elements further, if this does not wrap around. -/
theorem toNat_index_mul {osize : SizeT} {m : Nat} (h : index.toNat * osize.toNat = m)
    (hlt : m < 18446744073709551616) : (index * osize).toNat = m := by
  rw [BitVec.toNat_mul, h, Nat.mod_eq_of_lt hlt]

/-- Reading an element. -/
theorem StoredVector.Stores.elementAt (h : vector.Stores (ys ++ x :: zs)) (hindex : index.toNat = ys.length) :
    vector.elementAt index = some x := by
  obtain ⟨b, rest, hb, hmem, hbytes⟩ := h.memory.resolve_left fun hnone => List.append_ne_nil_of_right_ne_nil ys
    (List.cons_ne_nil x zs) hnone.1
  have hfits := b.block.fits
  have hx : x.length = vector.osize.toNat := h.sizes x (List.mem_append_right ys List.mem_cons_self)
  have hbefore := length_flatten_of_sizes fun y hy => h.sizes y (List.mem_append_left _ hy)
  have hsplit : b.block.bytes = ys.flatten ++ (x ++ (zs.flatten ++ rest)) := by
    rw [hbytes, List.flatten_append, List.flatten_cons, List.append_assoc, List.append_assoc]
  have hsize := congrArg List.length hsplit
  rw [List.length_append, List.length_append] at hsize
  have hoff : (index * vector.osize).toNat = ys.flatten.length :=
    toNat_index_mul (by rw [hindex, hbefore]) (by omega)
  unfold StoredVector.elementAt
  rw [hb]
  dsimp only
  rw [if_pos ⟨hmem, by omega⟩, hoff, hsplit, List.drop_left, ← hx, List.take_left]

theorem StoredVector.Stores.split (h : vector.Stores xs) {k : Nat} (hk : k < xs.length) :
    vector.Stores (xs.take k ++ xs[k] :: xs.drop (k + 1)) := by
  rwa [← List.drop_eq_getElem_cons hk, List.take_append_drop]

/-- **The places of an `SXVector` are the memory read as elements**: a vector of the same elements has the same one at
    every index below its count. -/
theorem StoredVector.Stores.agrees {places : SXVector (List UInt8)} (h : vector.Stores xs) (hlists : places.Lists xs)
    (hosize : places.osize = vector.osize) (hpos : 0 < places.osize.toNat) (hindex : index.toNat < xs.length) :
    sxVectorObjectPtrAtIndex places index = vector.elementAt index := by
  obtain ⟨b, rest, _, _, hbytes⟩ := h.memory.resolve_left fun hnone => by simp [hnone.1] at hindex
  have hfits := b.block.fits
  have hsize := congrArg List.length hbytes
  rw [List.length_append, length_flatten_of_sizes h.sizes] at hsize
  have hle : index.toNat * places.osize.toNat ≤ xs.length * vector.osize.toNat := by
    rw [hosize]
    exact Nat.mul_le_mul_right _ hindex.le
  have hread : vector.elementAt index = some xs[index.toNat] := by
    refine (h.split hindex).elementAt ?_
    rw [List.length_take]
    omega
  rw [hlists.read hpos (by omega), hread, List.getElem?_eq_getElem hindex]

/-- Writing to the block. -/
theorem StoredVector.write_inside {b : Allocation} {vs data : List UInt8} (vector : StoredVector) (index : SizeT)
    (us ws : List UInt8) (hb : vector.allocated = some b) (hmem : vector.memLoca = some b.addr)
    (hoff : (index * vector.osize).toNat = us.length)
    (hbytes : b.block.bytes = us ++ vs ++ ws) (hlen : data.length = vs.length) :
    ∃ block, vector.write index data = { vector with allocated := some ⟨b.addr, block⟩ } ∧
      block.bytes = us ++ data ++ ws := by
  obtain ⟨block, hstore, hblock⟩ := Block.store_append data hbytes hlen
  refine ⟨block, ?_, hblock⟩
  unfold StoredVector.write
  rw [hb]
  dsimp only
  rw [if_pos hmem, hoff, hstore]

theorem readBytes_eq_ok {b : Block} {off : Nat} {n : SizeT} {data : List UInt8} :
    readBytes b off n = .ok data ↔ off + n.toNat ≤ b.bytes.length ∧ (b.bytes.drop off).take n.toNat = data := by
  unfold readBytes
  split
  · next h => simp [h]
  · next h => simp [h]

/-- **Adding an element** where the block stays. -/
theorem StoredVector.Stores.pushBack (h : vector.Stores xs) (hcount : xs.length + 1 < 18446744073709551616)
    (hok : sxVectorPushBack fresh .inPlace vector item = .ok vector') :
    vector'.Stores (xs ++ [item.bytes.take vector.osize.toNat]) ∧ vector'.osize = vector.osize ∧
      vector'.dealloc = vector.dealloc := by
  obtain ⟨⟨q, allocated⟩, hrealloc, hrest⟩ := Exec.bind_eq_ok.mp hok
  obtain ⟨b, rest, hb, hmem, hbytes⟩ := h.memory.resolve_left fun hnone => by
    -- there is no block to leave where it is
    rw [hnone.2] at hrealloc
    cases hrealloc
  have hfits := b.block.fits
  have hsize := congrArg List.length hbytes
  have hflat := length_flatten_of_sizes h.sizes
  rw [List.length_append] at hsize
  have hsucc : (vector.count + 1).toNat = xs.length + 1 := by
    rw [BitVec.toNat_add, h.count]
    exact Nat.mod_eq_of_lt hcount
  obtain ⟨data, hdata, hret⟩ := Exec.bind_eq_ok.mp hrest
  obtain ⟨hitem, rfl⟩ := readBytes_eq_ok.mp hdata
  rw [hmem, hb] at hrealloc
  rcases reallocate_some rfl hrealloc with ⟨block, _, hblock, rfl, rfl⟩ | ⟨_, _, hr, _⟩ | ⟨hr, _⟩ | ⟨hr, _⟩
  · have hroom : ((vector.count + 1) * vector.osize).toNat = xs.flatten.length + vector.osize.toNat := by
      have hlt : (vector.count + 1).toNat * vector.osize.toNat < 18446744073709551616 :=
        succ_mul_lt (by rw [h.count, ← hflat]; omega)
      refine toNat_index_mul ?_ ?_
      · rw [hsucc, Nat.succ_mul, hflat]
      · rwa [hsucc, Nat.succ_mul, ← hflat] at hlt
    obtain ⟨tail, hnew, htail⟩ := Block.realloc_keeps hbytes (by omega) hblock
    have hlen : ((item.bytes.drop 0).take vector.osize.toNat).length = tail.length := by
      rw [List.length_take, List.length_drop]
      omega
    obtain ⟨block', hwrite, hbytes'⟩ := StoredVector.write_inside
      { vector with allocated := some ⟨b.addr, block⟩ } vector.count xs.flatten [] rfl hmem
      (toNat_index_mul (by rw [h.count, ← hflat]) (by omega)) (by rw [hnew, List.append_nil]) hlen
    rw [hwrite] at hret
    cases hret
    refine ⟨⟨?_, ?_, Or.inr ⟨⟨b.addr, block'⟩, [], rfl, hmem, ?_⟩⟩, rfl, rfl⟩
    · rw [List.length_append]
      exact hsucc
    · intro y hy
      rcases List.mem_append.mp hy with hy | hy
      · exact h.sizes y hy
      · rw [List.mem_singleton.mp hy, List.length_take]
        show min vector.osize.toNat _ = vector.osize.toNat
        omega
    · show block'.bytes = _
      rw [hbytes', List.drop_zero, List.flatten_append, List.flatten_singleton]
  all_goals cases hr

/-- **Taking off an element**: the last one, if there is one, is deallocated. -/
theorem StoredVector.Stores.popback (h : vector.Stores xs) :
    vector.sxVectorPopback.1.Stores xs.dropLast ∧ vector.sxVectorPopback.1.osize = vector.osize ∧
      vector.sxVectorPopback.1.dealloc = vector.dealloc ∧
      (vector.dealloc = true → vector.sxVectorPopback.2 = xs.getLast?.toList.map fun x => .dealloc (some x)) := by
  have hcount := h.count
  unfold sxVectorPopback
  rcases List.eq_nil_or_concat xs with rfl | ⟨ys, x, rfl⟩
  · have hzero : vector.count ≤ 0 := by
      rw [BitVec.le_def, hcount]
      exact Nat.le_refl 0
    rw [if_pos hzero]
    exact ⟨h, rfl, rfl, fun _ => rfl⟩
  · rw [List.concat_eq_append] at h hcount ⊢
    rw [List.length_append, List.length_singleton] at hcount
    have hpos : ¬ vector.count ≤ 0 := by
      rw [BitVec.le_def, hcount]
      exact Nat.not_succ_le_zero _
    have hlast : (vector.count - 1).toNat = ys.length := by
      rw [BitVec.toNat_sub_of_le (BitVec.not_le.mp hpos), hcount]
      rfl
    rw [if_neg hpos, List.dropLast_concat, List.getLast?_concat]
    refine ⟨⟨hlast, fun y hy => h.sizes y (List.mem_append_left _ hy), ?_⟩, rfl, rfl, ?_⟩
    · obtain ⟨b, rest, hb, hmem, hbytes⟩ := h.memory.resolve_left fun hnone => by simp at hnone
      refine Or.inr ⟨b, x ++ rest, hb, hmem, ?_⟩
      rw [hbytes, List.flatten_append, List.flatten_singleton, List.append_assoc]
    · intro hdealloc
      show (if vector.dealloc then _ else _) = _
      rw [if_pos hdealloc, StoredVector.Stores.elementAt h hlast]
      rfl

/-- **Freeing the vector**: what is left is deallocated in order. -/
theorem StoredVector.Stores.free (h : vector.Stores xs) (hdealloc : vector.dealloc = true)
    (hint : xs.length < 2147483648) : sxFreeVector vector = .ok (xs.map fun x => .dealloc (some x)) := by
  have hnat {k : Nat} (hk : k ≤ xs.length) : (IntT.toSizeT (BitVec.ofNat 32 k)).toNat = k :=
    toNat_toSizeT_of_lt (by omega)
  obtain ⟨calls, hloop, hcalls⟩ : ∃ calls, Exec.forInt (fun i _ => i.toSizeT < vector.count)
      (fun i calls => pure (calls ++ [VectorEvent.dealloc (vector.elementAt i.toSizeT)])) vector.count.toNat [] =
        .ok calls ∧ calls = (xs.take xs.length).map fun x => VectorEvent.dealloc (some x) := by
    refine Exec.forInt_ok (I := fun k calls => calls = (xs.take k).map fun x => VectorEvent.dealloc (some x)) ?_ ?_
      rfl h.count.ge
    · rintro k calls hk rfl
      refine ⟨?_, _, rfl, ?_⟩
      · rw [decide_eq_true_eq, BitVec.lt_def, hnat hk.le, h.count]
        exact hk
      · have hread : vector.elementAt (IntT.toSizeT (BitVec.ofNat 32 k)) = some xs[k] := by
          refine (h.split hk).elementAt ?_
          rw [hnat hk.le, List.length_take]
          omega
        rw [hread, ← List.take_concat_get' xs k hk, List.map_append]
        rfl
    · rintro calls _
      rw [decide_eq_false_iff_not, BitVec.lt_def, hnat (Nat.le_refl _), h.count]
      exact Nat.lt_irrefl _
  unfold sxFreeVector
  rw [if_pos hdealloc, hloop, hcalls, List.take_length]

/-- A new vector without elements. -/
theorem create_stores {r : Realloc} {objSize reserveCapacity : SizeT} {dealloc : Bool}
    (h : StoredVector.sxCreateVector fresh r objSize reserveCapacity dealloc = .ok vector) :
    vector.Stores [] ∧ vector.osize = objSize := by
  obtain ⟨⟨q, allocated⟩, hmem, hret⟩ := Exec.bind_eq_ok.mp h
  cases hret
  rcases reallocate_null hmem with ⟨a, block, rfl, _, rfl, rfl⟩ | ⟨rfl, rfl, rfl⟩
  · exact ⟨⟨rfl, List.forall_mem_nil _, Or.inr ⟨⟨a, block⟩, block.bytes, rfl, rfl, rfl⟩⟩, rfl⟩
  · exact ⟨⟨rfl, List.forall_mem_nil _, Or.inl ⟨rfl, rfl⟩⟩, rfl⟩

/-- The loop of `SXCreateVectorWithArray` fills the block with the elements. -/
theorem copyLoop_ok {array block₀ : Block} {objSize nItems : SizeT} {a : Nat}
    (h : Exec.forInt (fun i _ => i.toSizeT < nItems) (copyBody array objSize) nItems.toNat vector = .ok vector')
    (hosize : vector.osize = objSize) (hb : vector.allocated = some ⟨a, block₀⟩) (hmem : vector.memLoca = some a)
    (hn : nItems.toNat = xs.length) (hint : xs.length < 2147483648) (hsizes : ∀ x ∈ xs, x.length = objSize.toNat)
    (hroom : block₀.bytes.length = xs.length * objSize.toNat)
    (hread : ∀ (k : Nat) (hk : k < xs.length), readBytes array (k * objSize.toNat) objSize = .ok xs[k]) :
    ∃ block, vector' = { vector with allocated := some ⟨a, block⟩ } ∧ block.bytes = xs.flatten := by
  have hnat {k : Nat} (hk : k ≤ xs.length) : (IntT.toSizeT (BitVec.ofNat 32 k)).toNat = k :=
    toNat_toSizeT_of_lt (by omega)
  have hfits := block₀.fits
  obtain ⟨v, hloop, block, rest, rfl, hbytes, hrest⟩ : ∃ v, Exec.forInt (fun i _ => i.toSizeT < nItems)
      (copyBody array objSize) nItems.toNat vector = .ok v ∧
      ∃ block rest, v = { vector with allocated := some ⟨a, block⟩ } ∧
        block.bytes = (xs.take xs.length).flatten ++ rest ∧
        rest.length = (xs.length - xs.length) * objSize.toNat := by
    -- after `k` iterations the first `k` elements are there
    refine Exec.forInt_ok (I := fun k v => ∃ block rest, v = { vector with allocated := some ⟨a, block⟩ } ∧
      block.bytes = (xs.take k).flatten ++ rest ∧ rest.length = (xs.length - k) * objSize.toNat) ?_ ?_ ?_ hn.ge
    · rintro k v hk ⟨block, rest, rfl, hbytes, hrest⟩
      refine ⟨by rw [decide_eq_true_eq, BitVec.lt_def, hnat hk.le, hn]; exact hk, ?_⟩
      have hleft : (xs.length - k) * objSize.toNat = (xs.length - (k + 1)) * objSize.toNat + objSize.toNat := by
        rw [← Nat.succ_mul]
        congr 1
        omega
      have hle : k * objSize.toNat ≤ xs.length * objSize.toNat := Nat.mul_le_mul_right _ hk.le
      have hoff : (IntT.toSizeT (BitVec.ofNat 32 k) * objSize).toNat = k * objSize.toNat :=
        toNat_index_mul (by rw [hnat hk.le]) (by omega)
      have hbefore : (xs.take k).flatten.length = k * objSize.toNat := by
        rw [length_flatten_of_sizes fun x hx => hsizes x (List.mem_of_mem_take hx), List.length_take]
        congr 1
        omega
      have hplace : xs[k].length = (rest.take objSize.toNat).length := by
        rw [hsizes _ (List.getElem_mem _), List.length_take]
        omega
      obtain ⟨block', hwrite, hbytes'⟩ := StoredVector.write_inside
        { vector with allocated := some ⟨a, block⟩ } (IntT.toSizeT (BitVec.ofNat 32 k)) (xs.take k).flatten
        (rest.drop objSize.toNat) rfl hmem (by rw [hbefore, hosize]; exact hoff)
        (by rw [List.append_assoc, List.take_append_drop, hbytes]) hplace
      refine ⟨_, ?_, block', rest.drop objSize.toNat, hwrite, ?_, ?_⟩
      · unfold copyBody
        rw [BitVec.mul_comm, hoff, hread k hk]
        rfl
      · rw [hbytes', ← List.take_concat_get' xs k hk, List.flatten_append, List.flatten_singleton]
      · rw [List.length_drop]
        omega
    · rintro v _
      rw [decide_eq_false_iff_not, BitVec.lt_def, hnat (Nat.le_refl _), hn]
      exact Nat.lt_irrefl _
    · exact ⟨block₀, block₀.bytes, by rw [← hb], rfl, hroom⟩
  have hnil : rest = [] := by
    rw [Nat.sub_self, Nat.zero_mul] at hrest
    exact List.length_eq_zero_iff.mp hrest
  exact ⟨block, Exec.ok.inj (h.symm.trans hloop), by rw [hbytes, hnil, List.append_nil, List.take_length]⟩

/-- A new vector with the elements of an array. -/
theorem createWithArray_stores {r : Realloc} {array : Block} {objSize nItems : SizeT} {dealloc : Bool}
    (hr : r.Returns ∨ nItems = 0) (harray : nItems.toNat * objSize.toNat ≤ array.bytes.length)
    (hint : nItems.toNat < 2147483648)
    (h : StoredVector.sxCreateVectorWithArray fresh r array objSize nItems dealloc = .ok vector) :
    vector.Stores (VectorMaking.createWithArray r array objSize nItems dealloc).elements ∧
      vector.osize = objSize := by
  have hfits := array.fits
  have hroom {k : Nat} (hk : k < nItems.toNat) : k * objSize.toNat + objSize.toNat ≤ array.bytes.length := by
    rw [← Nat.succ_mul]
    exact (Nat.mul_le_mul_right _ hk).trans harray
  obtain ⟨xs, hxs⟩ : ∃ xs, xs = (VectorMaking.createWithArray r array objSize nItems dealloc).elements := ⟨_, rfl⟩
  have hlen : xs.length = nItems.toNat := by simp [hxs, VectorMaking.elements]
  have hget {k : Nat} (hk : k < xs.length) :
      xs[k] = (array.bytes.drop (k * objSize.toNat)).take objSize.toNat := by simp [hxs, VectorMaking.elements]
  have hsizes : ∀ x ∈ xs, x.length = objSize.toNat := by
    intro x hx
    obtain ⟨k, hk, rfl⟩ := List.getElem_of_mem hx
    have hle := hroom (hlen ▸ hk)
    rw [hget hk, List.length_take, List.length_drop]
    omega
  rw [← hxs]
  obtain ⟨⟨q, allocated⟩, hmem, hloop⟩ := Exec.bind_eq_ok.mp h
  rcases reallocate_null hmem with ⟨a, block₀, rfl, hblock, rfl, rfl⟩ | ⟨rfl, rfl, _⟩
  · have hsize : block₀.bytes.length = xs.length * objSize.toNat := by
      rw [Block.length_allocate hblock, BitVec.mul_comm, hlen]
      exact toNat_index_mul rfl (by omega)
    obtain ⟨block, rfl, hbytes⟩ := copyLoop_ok hloop rfl rfl rfl hlen.symm (by omega) hsizes hsize
      fun k hk => readBytes_eq_ok.mpr ⟨hroom (by omega), (hget hk).symm⟩
    exact ⟨⟨hlen.symm, hsizes, Or.inr ⟨⟨a, block⟩, [], rfl, rfl, by rw [hbytes, List.append_nil]⟩⟩, rfl⟩
  · obtain ⟨mem, hmem', hcount, hosize, hmemLoca, _⟩ := createWithArray_keeps h
    obtain rfl := Exec.ok.inj (hmem'.symm.trans hmem)
    have hnone : xs = [] := by
      rw [hr.resolve_left id] at hlen
      exact List.length_eq_zero_iff.mp hlen
    exact ⟨⟨by rw [hcount, hlen], hosize ▸ hsizes, Or.inl ⟨hnone, hmemLoca⟩⟩, hosize⟩

/-- **A new vector has the elements that it is made with.** -/
theorem making_stores {making : VectorMaking} (hproper : making.Proper) (h : making.perform fresh = .ok vector)
    (hint : vector.count.toNat < 2147483648) : vector.Stores making.elements ∧ vector.osize = making.objSize := by
  cases making with
  | create r objSize reserveCapacity dealloc => exact create_stores h
  | createWithArray r array objSize nItems dealloc =>
      obtain ⟨_, _, hcount, _⟩ := createWithArray_keeps h
      exact createWithArray_stores hproper.1 hproper.2 (hcount ▸ hint) h

/-- What an operation does to the elements, and what it deallocates. -/
theorem StoredVector.Stores.perform {es : Elements} {op : VectorOp} {calls : List VectorEvent}
    (h : vector.Stores es.left) (hdealloc : vector.dealloc = true) (hop : op.InPlace)
    (hint : es.left.length < 2147483648) (hok : op.perform fresh vector = .ok (vector', calls)) :
    vector'.Stores (es.after vector.osize.toNat op).left ∧ vector'.osize = vector.osize ∧ vector'.dealloc = true ∧
      (es.after vector.osize.toNat op).gone.map (fun x => VectorEvent.dealloc (some x)) =
        es.gone.map (fun x => VectorEvent.dealloc (some x)) ++ calls := by
  cases op with
  | pushBack r item =>
      obtain ⟨v, hpush, hret⟩ := Exec.bind_eq_ok.mp hok
      cases hret
      obtain rfl : r = .inPlace := hop
      obtain ⟨hstores, hosize, hsame⟩ := h.pushBack (by omega) hpush
      exact ⟨hstores, hosize, hsame.trans hdealloc, (List.append_nil _).symm⟩
  | popback =>
      obtain ⟨hstores, hosize, hsame, hcalls⟩ := h.popback
      have hpop : vector.sxVectorPopback = (vector', calls) := Exec.ok.inj hok
      rw [hpop] at hstores hosize hsame hcalls
      refine ⟨hstores, hosize, hsame.trans hdealloc, ?_⟩
      show (es.gone ++ es.left.getLast?.toList).map _ = _
      rw [List.map_append, ← hcalls hdealloc]
  | resize r count => exact hop.elim

/-- What a sequence of operations does to the elements, and what it deallocates. -/
theorem StoredVector.Stores.run {osize : Nat} : ∀ {ops : List VectorOp} {es : Elements} {tr : List VectorEvent}
    {vector : StoredVector}, vector.Stores es.left → vector.osize.toNat = osize → vector.dealloc = true →
    (∀ op ∈ ops, op.InPlace) → ∀ tr₀ : List VectorEvent,
    Machine.Throughout (vectorStep fresh) (fun v _ => v.count.toNat < 2147483648) tr₀ vector ops →
    Machine.run (vectorStep fresh) vector ops = some (vector', tr) →
    vector'.Stores (ops.foldl (Elements.after osize) es).left ∧ vector'.dealloc = true ∧
      (ops.foldl (Elements.after osize) es).gone.map (fun x => VectorEvent.dealloc (some x)) =
        es.gone.map (fun x => VectorEvent.dealloc (some x)) ++ tr := by
  intro ops
  induction ops with
  | nil =>
      intro es tr vector h _ hdealloc _ tr₀ _ hrun
      cases hrun
      exact ⟨h, hdealloc, (List.append_nil _).symm⟩
  | cons op ops ih =>
      intro es tr vector h hosize hdealloc hops tr₀ hcounts hrun
      obtain ⟨hop, hrest⟩ := List.forall_mem_cons.mp hops
      obtain ⟨v₁, calls, tr₁, hs, hr, rfl⟩ := Machine.run_cons_iff.mp hrun
      obtain ⟨hstores, hsame, hdealloc₁, hgone⟩ := h.perform hdealloc hop (h.count ▸ hcounts.here)
        (vectorStep_eq_some.mp hs)
      rw [hosize] at hstores hgone
      obtain ⟨hstores', hdealloc', hgone'⟩ :=
        ih hstores (by rw [hsame, hosize]) hdealloc₁ hrest _ (hcounts.2 v₁ calls hs) hr
      refine ⟨hstores', hdealloc', ?_⟩
      rw [List.foldl_cons, hgone', hgone, List.append_assoc]

end Stores

/-- **Every element is deallocated exactly once.** A vector is made, elements are added where `realloc` leaves the
    block where it is, and taken off, and the vector is freed, with fewer than 2^31 elements throughout. The
    operations deallocate the elements that are taken off, each time the last one there is; freeing the vector
    deallocates those that are left, in order; and all these are the elements that have ever been put in. -/
theorem elements_deallocated_once {fresh : Nat → UInt8} {making : VectorMaking} {v₀ v : StoredVector}
    {ops : List VectorOp} {tr : List VectorEvent} (hproper : making.Proper) (hmade : making.perform fresh = .ok v₀)
    (hdealloc : v₀.dealloc = true) (hops : ∀ op ∈ ops, op.InPlace)
    (hrun : Machine.run (vectorStep fresh) v₀ ops = some (v, tr))
    (hcounts : Machine.Throughout (vectorStep fresh) (fun v _ => v.count.toNat < 2147483648) [] v₀ ops) :
    tr = (elementsAfter making ops).gone.map (fun x => .dealloc (some x)) ∧
      sxFreeVector v = .ok ((elementsAfter making ops).left.map fun x => .dealloc (some x)) ∧
      ((elementsAfter making ops).gone ++ (elementsAfter making ops).left).Perm
        (making.elements ++ putIn making.objSize.toNat ops) := by
  obtain ⟨hstores₀, hosize⟩ := making_stores hproper hmade hcounts.here
  have hstores₀' : v₀.Stores (Elements.mk making.elements []).left := hstores₀
  obtain ⟨hstores, hdealloc', hgone⟩ := hstores₀'.run (congrArg BitVec.toNat hosize) hdealloc hops [] hcounts hrun
  have hlast := hcounts.last hrun
  rw [hstores.count] at hlast
  exact ⟨hgone.symm, hstores.free hdealloc' hlast, elements_conserved _ ops { left := making.elements, gone := [] }⟩

/-- Another element of four bytes, and an array of two. -/
def itemTwo  : Block := ⟨[2, 0, 0, 0], by decide⟩
def arrayTwo : Block := ⟨[7, 0, 0, 0, 8, 0, 0, 0], by decide⟩

/-- A vector made with the two elements of an array. -/
def madeWithTwo : VectorMaking := .createWithArray (.elsewhere 4096) arrayTwo 4 2 true

def vectorTwo : StoredVector where
  refCount  := 1
  count     := 2
  osize     := 4
  memLoca   := some 4096
  dealloc   := true
  allocated := some ⟨4096, arrayTwo⟩

/-- An element is added, two are taken off, and another is added, in the place of the first that was taken off. -/
def reusingOps : List VectorOp := [.pushBack .inPlace itemOne, .popback, .popback, .pushBack .inPlace itemTwo]

/-- These operations deallocate the element added first and the second of the array, freeing the vector the first of
    the array and the element added last. -/
theorem elements_deallocated_once_reusing :
    ∃ v₀ v tr, madeWithTwo.perform (fun _ => 0) = .ok v₀ ∧
      Machine.run (vectorStep fun _ => 0) v₀ reusingOps = some (v, tr) ∧
      tr = [.dealloc (some [1, 0, 0, 0]), .dealloc (some [8, 0, 0, 0])] ∧
      sxFreeVector v = .ok [.dealloc (some [7, 0, 0, 0]), .dealloc (some [2, 0, 0, 0])] ∧
      ((elementsAfter madeWithTwo reusingOps).gone ++ (elementsAfter madeWithTwo reusingOps).left).Perm
        (madeWithTwo.elements ++ putIn 4 reusingOps) := by
  have hmade : madeWithTwo.perform (fun _ => 0) = .ok vectorTwo := by decide +kernel
  have hruns : (Machine.run (vectorStep fun _ => 0) vectorTwo reusingOps).isSome = true := by decide +kernel
  obtain ⟨⟨v, tr⟩, hrun⟩ := Option.isSome_iff_exists.mp hruns
  obtain ⟨htr, hfree, hperm⟩ := elements_deallocated_once (by decide) hmade rfl (by decide) hrun (by decide +kernel)
  exact ⟨vectorTwo, v, tr, hmade, hrun, htr, hfree, hperm⟩

end SpartanX
