import SpartanX.Lib.Machine
import SpartanX.Vector

/-!
# `VectorStorage` — the memory of the vectors of `SXVector.c`

A vector points to memory from an allocation, and `realloc` may leave the block where it is, move it, fail, or free it
(`Realloc`). `SXVectorPushBack` reallocates for one element more, but drops the pointer that `realloc` returns;
`SXVectorResize` takes it over without looking at it, and does not change the count. So `mem_loca` designates the
latest block, and this covers the elements, throughout a sequence of operations iff the allocator and the sizes asked
for happen to make up for that (`storage_covers_iff`).
-/

namespace SpartanX

open CInt CMemory

/-- A block that an allocation has returned: where it is, and what is in it. -/
structure Allocation where
  addr  : Nat
  block : Block
  deriving DecidableEq

/-- What `realloc` does: it leaves the block where it is, returns one elsewhere, or returns a null pointer; with this
    it leaves the block alone or, for a size of zero, frees it. -/
inductive Realloc
  | inPlace
  | elsewhere (addr : Nat)
  | fails
  | frees
  deriving DecidableEq

/-- `sx_vector_t`. `memLoca` is a pointer, which may be null or designate memory that is no longer there; `allocated`
    is the block that the latest allocation or reallocation has returned, as long as it is there. -/
structure StoredVector extends VectorHead where
  count     : SizeT := 0
  osize     : SizeT
  memLoca   : Option Nat
  dealloc   : Bool
  allocated : Option Allocation
  deriving DecidableEq

/-- A call of `vector->dealloc`, with the bytes of the element that it is given, if there are any there. -/
inductive VectorEvent
  | dealloc (element : Option (List UInt8))
  deriving DecidableEq

/-- `sx_realloc(p, n)`, which is `sx_malloc(n)` for a null pointer: the pointer it returns, and the latest block after
    it. It faults on a pointer that is not valid, and on what `realloc` does not do. -/
def reallocate (fresh : Nat → UInt8) (r : Realloc) (p : Option Nat) (n : SizeT) (allocated : Option Allocation) :
    Exec (Option Nat × Option Allocation) :=
  match p, allocated with
  | none, allocated =>
    match r with
    | .elsewhere a => do
      let block ← Block.allocate fresh n
      pure (some a, some ⟨a, block⟩)
    | .fails => pure (none, allocated)
    | _      => .fault
  | some a, some old =>
    if a ≠ old.addr then .fault
    else
      match r with
      | .inPlace => do
        let block ← Block.realloc fresh old.block n
        pure (some a, some ⟨a, block⟩)
      | .elsewhere a' =>
        if a' = a then .fault
        else do
          let block ← Block.realloc fresh old.block n
          pure (some a', some ⟨a', block⟩)
      | .fails => pure (none, some old)
      | .frees => if n = 0 then pure (none, none) else .fault
  | some _, none => .fault

namespace StoredVector

/-- The bytes of the element at `SXVectorObjectPtrAtIndex`, if the pointer designates memory of the latest block. -/
def elementAt (vector : StoredVector) (index : SizeT) : Option (List UInt8) :=
  match vector.allocated with
  | none   => none
  | some b =>
    let off := (index * vector.osize).toNat
    if vector.memLoca = some b.addr ∧ off + vector.osize.toNat ≤ b.block.bytes.length then
      some ((b.block.bytes.drop off).take vector.osize.toNat)
    else none

/-- `memcpy((char *)vector->mem_loca + index * vector->osize, data, ...)`. What is written to memory outside the
    latest block changes nothing in it. -/
def write (vector : StoredVector) (index : SizeT) (data : List UInt8) : StoredVector :=
  match vector.allocated with
  | none   => vector
  | some b =>
    if vector.memLoca = some b.addr then
      match b.block.store (index * vector.osize).toNat data with
      | .ok block => { vector with allocated := some { b with block := block } }
      | _         => vector
    else vector

/-- `n` bytes of an object, from an offset on. -/
def readBytes (b : Block) (off : Nat) (n : SizeT) : Exec (List UInt8) :=
  if off + n.toNat ≤ b.bytes.length then pure ((b.bytes.drop off).take n.toNat) else .fault

/-- `SXCreateVector`. -/
def sxCreateVector (fresh : Nat → UInt8) (r : Realloc) (objSize reserveCapacity : SizeT) (dealloc : Bool) :
    Exec StoredVector := do
  let mem ← reallocate fresh r none (reserveCapacity * objSize) none
  pure { refCount := 1, osize := objSize, memLoca := mem.1, dealloc := dealloc, allocated := mem.2 }

/-- `SXVectorPushBack`: the vector after it, whose count it returns. -/
def sxVectorPushBack (fresh : Nat → UInt8) (r : Realloc) (vector : StoredVector) (item : Block) :
    Exec StoredVector := do
  let mem ← reallocate fresh r vector.memLoca ((vector.count + 1) * vector.osize) vector.allocated
  let data ← readBytes item 0 vector.osize
  let vector := { vector with allocated := mem.2 }.write vector.count data
  pure { vector with count := vector.count + 1 }

/-- The body of the loop of `SXCreateVectorWithArray`. -/
def copyBody (array : Block) (objSize : SizeT) (i : IntT) (vector : StoredVector) : Exec StoredVector := do
  let data ← readBytes array (objSize * i.toSizeT).toNat objSize
  pure (vector.write i.toSizeT data)

/-- `SXCreateVectorWithArray`. -/
def sxCreateVectorWithArray (fresh : Nat → UInt8) (r : Realloc) (array : Block) (objSize nItems : SizeT)
    (dealloc : Bool) : Exec StoredVector := do
  let mem ← reallocate fresh r none (objSize * nItems) none
  Exec.forInt (fun i _ => i.toSizeT < nItems) (copyBody array objSize) nItems.toNat
    { refCount := 1, osize := objSize, count := nItems, memLoca := mem.1, dealloc := dealloc, allocated := mem.2 }

/-- `SXVectorResize`: the vector after it, and the calls of `dealloc`. -/
def sxVectorResize (fresh : Nat → UInt8) (r : Realloc) (vector : StoredVector) (count : SizeT) :
    Exec (StoredVector × List VectorEvent) :=
  if count = vector.count then pure (vector, [])
  else do
    -- the loop counts from the larger number to the smaller one
    let calls := if count < vector.count then
        (List.range' vector.count.toNat (count.toNat - vector.count.toNat)).flatMap fun i =>
          if vector.dealloc then [.dealloc (vector.elementAt (BitVec.ofNat 64 i))] else []
      else []
    let mem ← reallocate fresh r vector.memLoca (count * vector.osize) vector.allocated
    pure ({ vector with memLoca := mem.1, allocated := mem.2 }, calls)

/-- `SXVectorPopback`: the vector after it, and the calls of `dealloc`. -/
def sxVectorPopback (vector : StoredVector) : StoredVector × List VectorEvent :=
  if vector.count ≤ 0 then (vector, [])
  else
    ({ vector with count := vector.count - 1 },
      if vector.dealloc then [.dealloc (vector.elementAt (vector.count - 1))] else [])

/-- `SXFreeVector`: the calls of `dealloc` before the memory is given back. -/
def sxFreeVector (vector : StoredVector) : Exec (List VectorEvent) :=
  if vector.dealloc then
    Exec.forInt (fun i _ => i.toSizeT < vector.count)
      (fun i calls => pure (calls ++ [.dealloc (vector.elementAt i.toSizeT)])) vector.count.toNat []
  else pure []

/-- Where the latest block is, and how many bytes it has. -/
def extent (vector : StoredVector) : Option (Nat × Nat) :=
  vector.allocated.map fun b => (b.addr, b.block.bytes.length)

/-- `mem_loca` designates the latest block, and this has the bytes of `count` elements. -/
def Covers (vector : StoredVector) : Prop :=
  ∃ e ∈ vector.extent, vector.memLoca = some e.1 ∧ vector.count.toNat * vector.osize.toNat ≤ e.2

instance (vector : StoredVector) : Decidable vector.Covers :=
  inferInstanceAs (Decidable (∃ e ∈ vector.extent, vector.memLoca = some e.1 ∧
    vector.count.toNat * vector.osize.toNat ≤ e.2))

end StoredVector

/-- An operation on a vector. -/
inductive VectorOp
  | pushBack (r : Realloc) (item : Block)
  | popback
  | resize (r : Realloc) (count : SizeT)

/-- The vector after an operation, and the calls of `dealloc`. -/
def VectorOp.perform (fresh : Nat → UInt8) (vector : StoredVector) : VectorOp → Exec (StoredVector × List VectorEvent)
  | .pushBack r item => do
    let vector ← StoredVector.sxVectorPushBack fresh r vector item
    pure (vector, [])
  | .popback         => pure vector.sxVectorPopback
  | .resize r count  => StoredVector.sxVectorResize fresh r vector count

/-- An operation, as a step of a machine. -/
def vectorStep (fresh : Nat → UInt8) : Machine.Step StoredVector VectorOp VectorEvent := fun vector op =>
  match op.perform fresh vector with
  | .ok after => some after
  | _         => none

/-- How a vector is made. -/
inductive VectorMaking
  | create (r : Realloc) (objSize reserveCapacity : SizeT) (dealloc : Bool)
  | createWithArray (r : Realloc) (array : Block) (objSize nItems : SizeT) (dealloc : Bool)

def VectorMaking.perform (fresh : Nat → UInt8) : VectorMaking → Exec StoredVector
  | .create r objSize reserveCapacity dealloc =>
    StoredVector.sxCreateVector fresh r objSize reserveCapacity dealloc
  | .createWithArray r array objSize nItems dealloc =>
    StoredVector.sxCreateVectorWithArray fresh r array objSize nItems dealloc

/-- A block is returned. -/
def Realloc.Returns : Realloc → Prop
  | .inPlace | .elsewhere _ => True
  | .fails | .frees         => False

instance : (r : Realloc) → Decidable r.Returns
  | .inPlace | .elsewhere _ => inferInstanceAs (Decidable True)
  | .fails | .frees         => inferInstanceAs (Decidable False)

/-- The allocation returns a block, and the number of bytes asked for is that of the elements. -/
def VectorMaking.Suffices : VectorMaking → Prop
  | .create r _ _ _                     => r.Returns
  | .createWithArray r _ objSize nItems _ => r.Returns ∧ nItems.toNat * objSize.toNat < 18446744073709551616

instance : (m : VectorMaking) → Decidable m.Suffices
  | .create r _ _ _                     => inferInstanceAs (Decidable r.Returns)
  | .createWithArray r _ objSize nItems _ =>
    inferInstanceAs (Decidable (r.Returns ∧ nItems.toNat * objSize.toNat < 18446744073709551616))

/-- The operation leaves the elements covered: `realloc` leaves the block where it is when an element is added, or
    fails when there is room for it; and a vector is resized, to another count, by a `realloc` that returns a block,
    for as many bytes as the elements have. -/
def VectorOp.KeepsCovered (vector : StoredVector) : VectorOp → Prop
  | .pushBack r _   => r = .inPlace ∨
    r = .fails ∧ ∃ e ∈ vector.extent, (vector.count + 1).toNat * vector.osize.toNat ≤ e.2
  | .popback        => True
  | .resize r count => count = vector.count ∨
    r.Returns ∧ vector.count.toNat * vector.osize.toNat ≤ (count * vector.osize).toNat

instance (vector : StoredVector) : (op : VectorOp) → Decidable (op.KeepsCovered vector)
  | .pushBack r _   => inferInstanceAs (Decidable (r = .inPlace ∨
      r = .fails ∧ ∃ e ∈ vector.extent, (vector.count + 1).toNat * vector.osize.toNat ≤ e.2))
  | .popback        => inferInstanceAs (Decidable True)
  | .resize r count => inferInstanceAs (Decidable (count = vector.count ∨
      r.Returns ∧ vector.count.toNat * vector.osize.toNat ≤ (count * vector.osize).toNat))

section Storage

variable {fresh : Nat → UInt8} {r : Realloc} {vector vector' : StoredVector} {n : SizeT} {p q : Option Nat}
  {allocated allocated' : Option Allocation}

/-! ## Allocating -/

/-- An allocation returns a block of the size asked for, or nothing. -/
theorem reallocate_null (h : reallocate fresh r none n allocated = .ok (q, allocated')) :
    (∃ a block, r = .elsewhere a ∧ Block.allocate fresh n = .ok block ∧ q = some a ∧ allocated' = some ⟨a, block⟩) ∨
      r = .fails ∧ q = none ∧ allocated' = allocated := by
  unfold reallocate at h
  cases r with
  | elsewhere a =>
      obtain ⟨block, hblock, hret⟩ := Exec.bind_eq_ok.mp h
      cases hret
      exact Or.inl ⟨a, block, rfl, hblock, rfl, rfl⟩
  | fails =>
      cases h
      exact Or.inr ⟨rfl, rfl, rfl⟩
  | inPlace | frees => cases h

/-- A reallocation returns a block of the size asked for, where the old one is or elsewhere, or nothing. -/
theorem reallocate_some {a : Nat} {old : Allocation} (ha : a = old.addr)
    (h : reallocate fresh r (some a) n (some old) = .ok (q, allocated')) :
    (∃ block, r = .inPlace ∧ Block.realloc fresh old.block n = .ok block ∧ q = some a ∧
        allocated' = some ⟨a, block⟩) ∨
      (∃ a' block, r = .elsewhere a' ∧ a' ≠ a ∧ Block.realloc fresh old.block n = .ok block ∧ q = some a' ∧
        allocated' = some ⟨a', block⟩) ∨
      (r = .fails ∧ q = none ∧ allocated' = some old) ∨ r = .frees ∧ q = none ∧ allocated' = none := by
  unfold reallocate at h
  dsimp only at h
  rw [if_neg (not_not.mpr ha)] at h
  cases r with
  | inPlace =>
      obtain ⟨block, hblock, hret⟩ := Exec.bind_eq_ok.mp h
      cases hret
      exact Or.inl ⟨block, rfl, hblock, rfl, rfl⟩
  | elsewhere a' =>
      dsimp only at h
      split at h
      · cases h
      · next hne =>
          obtain ⟨block, hblock, hret⟩ := Exec.bind_eq_ok.mp h
          cases hret
          exact Or.inr (Or.inl ⟨a', block, rfl, hne, hblock, rfl, rfl⟩)
  | fails =>
      cases h
      exact Or.inr (Or.inr (Or.inl ⟨rfl, rfl, rfl⟩))
  | frees =>
      dsimp only at h
      split at h
      · cases h
        exact Or.inr (Or.inr (Or.inr ⟨rfl, rfl, rfl⟩))
      · cases h

/-! ## Writing -/

/-- A write changes no more than what is in the block. -/
theorem StoredVector.write_eq (vector : StoredVector) (index : SizeT) (data : List UInt8) :
    ∃ allocated, vector.write index data = { vector with allocated := allocated } ∧
      allocated.map (fun b => (b.addr, b.block.bytes.length)) = vector.extent := by
  obtain ⟨head, count, osize, memLoca, dealloc, allocated⟩ := vector
  unfold StoredVector.write StoredVector.extent
  cases allocated with
  | none => exact ⟨none, rfl, rfl⟩
  | some b =>
      dsimp only
      split
      · split
        · next block hstore =>
            refine ⟨_, rfl, ?_⟩
            rw [Option.map_some, Option.map_some, Block.length_store hstore]
        · exact ⟨some b, rfl, rfl⟩
      · exact ⟨some b, rfl, rfl⟩

/-! ## What keeps the elements covered -/

open StoredVector

/-- The copies into a new vector change nothing but what is in its block. -/
theorem createWithArray_keeps {array : Block} {objSize nItems : SizeT} {dealloc : Bool}
    (h : StoredVector.sxCreateVectorWithArray fresh r array objSize nItems dealloc = .ok vector) :
    ∃ mem, reallocate fresh r none (objSize * nItems) none = .ok mem ∧ vector.count = nItems ∧
      vector.osize = objSize ∧ vector.memLoca = mem.1 ∧
      vector.extent = mem.2.map fun b => (b.addr, b.block.bytes.length) := by
  obtain ⟨mem, hmem, hloop⟩ := Exec.bind_eq_ok.mp h
  refine ⟨mem, hmem, ?_⟩
  refine Exec.forInt_keeps (I := fun v : StoredVector => v.count = nItems ∧ v.osize = objSize ∧
    v.memLoca = mem.1 ∧ v.extent = mem.2.map fun b => (b.addr, b.block.bytes.length)) ?_ ⟨rfl, rfl, rfl, rfl⟩ hloop
  rintro i v v' ⟨hcount, hosize, hmemLoca, hextent⟩ hbody
  obtain ⟨data, _, hret⟩ := Exec.bind_eq_ok.mp hbody
  obtain ⟨allocated, hwrite, hsame⟩ := v.write_eq i.toSizeT data
  rw [hwrite] at hret
  cases hret
  exact ⟨hcount, hosize, hmemLoca, hsame.trans hextent⟩

/-- **A new vector covers its elements** iff the allocation suffices. -/
theorem making_covers_iff {making : VectorMaking} (h : making.perform fresh = .ok vector) :
    vector.Covers ↔ making.Suffices := by
  cases making with
  | create r objSize reserveCapacity dealloc =>
      obtain ⟨⟨q, allocated⟩, hmem, hret⟩ := Exec.bind_eq_ok.mp h
      cases hret
      rcases reallocate_null hmem with ⟨a, block, rfl, hblock, rfl, rfl⟩ | ⟨rfl, rfl, rfl⟩
      · exact iff_of_true ⟨_, rfl, rfl, by simp⟩ trivial
      · exact iff_of_false (by rintro ⟨e, he, _⟩; cases he) id
  | createWithArray r array objSize nItems dealloc =>
      obtain ⟨⟨q, allocated⟩, hmem, hcount, hosize, hmemLoca, hextent⟩ := createWithArray_keeps h
      unfold Covers
      rw [hcount, hosize, hmemLoca, hextent]
      rcases reallocate_null hmem with ⟨a, block, rfl, hblock, rfl, rfl⟩ | ⟨rfl, rfl, rfl⟩
      · have hbytes : block.bytes.length = nItems.toNat * objSize.toNat % 18446744073709551616 := by
          rw [Block.length_allocate hblock, BitVec.toNat_mul, Nat.mul_comm]
        have hfits := block.fits
        constructor
        · rintro ⟨e, he, _, hle⟩
          cases he
          dsimp only at hle
          rw [hbytes] at hle
          refine ⟨trivial, ?_⟩
          omega
        · rintro ⟨_, hlt⟩
          refine ⟨_, rfl, rfl, ?_⟩
          show _ ≤ block.bytes.length
          rw [hbytes, Nat.mod_eq_of_lt hlt]
      · exact iff_of_false (by rintro ⟨e, he, _⟩; cases he) And.left

/-- One element more than a block can have does not overflow a `size_t`. -/
theorem succ_mul_lt {count osize : SizeT} (h : count.toNat * osize.toNat < 9223372036854775808) :
    (count + 1).toNat * osize.toNat < 18446744073709551616 := by
  have hcount : (count + 1).toNat ≤ count.toNat + 1 := by
    rw [BitVec.toNat_add]
    exact Nat.mod_le _ _
  have hle := Nat.mul_le_mul_right osize.toNat hcount
  rw [Nat.succ_mul] at hle
  rcases Nat.eq_zero_or_pos count.toNat with hz | hpos
  · rw [hz] at hle
    have hosize := osize.isLt
    omega
  · have hone := Nat.le_mul_of_pos_left osize.toNat hpos
    omega

/-- The latest block of a vector that covers its elements. -/
theorem StoredVector.Covers.latest (h : vector.Covers) :
    ∃ old, vector.allocated = some old ∧ vector.memLoca = some old.addr ∧
      vector.count.toNat * vector.osize.toNat ≤ old.block.bytes.length := by
  obtain ⟨e, he, hmem, hle⟩ := h
  obtain ⟨old, hold, rfl⟩ := Option.map_eq_some_iff.mp he
  exact ⟨old, hold, hmem, hle⟩

/-- **Adding an element** leaves the elements covered iff the block stays where it is, or has room for it. -/
theorem pushBack_covers_iff {item : Block} (hc : vector.Covers)
    (h : sxVectorPushBack fresh r vector item = .ok vector') :
    vector'.Covers ↔ (VectorOp.pushBack r item).KeepsCovered vector := by
  obtain ⟨old, hold, hmemLoca, hle⟩ := hc.latest
  have hfits := old.block.fits
  obtain ⟨⟨q, allocated⟩, hmem, hrest⟩ := Exec.bind_eq_ok.mp h
  obtain ⟨data, _, hret⟩ := Exec.bind_eq_ok.mp hrest
  obtain ⟨written, hwrite, hsame⟩ := { vector with allocated := allocated }.write_eq vector.count data
  rw [hwrite] at hret
  cases hret
  unfold Covers
  show (∃ e ∈ written.map fun b => (b.addr, b.block.bytes.length), vector.memLoca = some e.1 ∧
    (vector.count + 1).toNat * vector.osize.toNat ≤ e.2) ↔ _
  have hextent : vector.extent = some (old.addr, old.block.bytes.length) := by
    unfold extent
    rw [hold]
    rfl
  rw [hmemLoca, hold] at hmem
  rw [hsame, hmemLoca]
  show _ ↔ r = .inPlace ∨ r = .fails ∧ ∃ e ∈ vector.extent, (vector.count + 1).toNat * vector.osize.toNat ≤ e.2
  rw [hextent]
  rcases reallocate_some rfl hmem with ⟨block, rfl, hblock, rfl, rfl⟩ | ⟨a, block, rfl, hne, hblock, rfl, rfl⟩ |
    ⟨rfl, rfl, rfl⟩ | ⟨rfl, rfl, rfl⟩
  · refine iff_of_true ⟨_, rfl, rfl, ?_⟩ (Or.inl rfl)
    show _ ≤ block.bytes.length
    rw [Block.length_realloc hblock, BitVec.toNat_mul, Nat.mod_eq_of_lt (succ_mul_lt (by omega))]
  · -- the pointer is still that of the old block
    refine iff_of_false ?_ (by simp)
    rintro ⟨e, he, haddr, _⟩
    cases he
    exact hne (Option.some.inj haddr).symm
  · simp [extent]
  · exact iff_of_false (by rintro ⟨e, he, _⟩; cases he) (by simp)

/-- **Resizing** leaves the elements covered iff nothing changes, or a block is returned that has room for them. -/
theorem resize_covers_iff {count : SizeT} {calls : List VectorEvent} (hc : vector.Covers)
    (h : sxVectorResize fresh r vector count = .ok (vector', calls)) :
    vector'.Covers ↔ (VectorOp.resize r count).KeepsCovered vector := by
  obtain ⟨old, hold, hmemLoca, hle⟩ := hc.latest
  unfold sxVectorResize at h
  show _ ↔ count = vector.count ∨
    r.Returns ∧ vector.count.toNat * vector.osize.toNat ≤ (count * vector.osize).toNat
  split at h
  · next heq =>
      cases h
      exact iff_of_true hc (Or.inl heq)
  · next hne =>
      obtain ⟨⟨q, allocated⟩, hmem, hret⟩ := Exec.bind_eq_ok.mp h
      cases hret
      rw [hmemLoca, hold] at hmem
      rw [or_iff_right hne]
      rcases reallocate_some rfl hmem with ⟨block, rfl, hblock, rfl, rfl⟩ | ⟨a, block, rfl, _, hblock, rfl, rfl⟩ |
        ⟨rfl, rfl, rfl⟩ | ⟨rfl, rfl, rfl⟩
      · rw [← Block.length_realloc hblock]
        simp [Covers, extent, Realloc.Returns]
      · rw [← Block.length_realloc hblock]
        simp [Covers, extent, Realloc.Returns]
      · exact iff_of_false (by rintro ⟨e, _, hnull, _⟩; cases hnull) And.left
      · exact iff_of_false (by rintro ⟨e, he, _⟩; cases he) And.left

/-- Taking off the last element leaves the others covered. -/
theorem popback_covers (hc : vector.Covers) : vector.sxVectorPopback.1.Covers := by
  unfold sxVectorPopback
  split
  · exact hc
  · next hne =>
      obtain ⟨e, he, hmem, hle⟩ := hc
      have hcount : (vector.count - 1).toNat ≤ vector.count.toNat := by
        have hpos : 0 < vector.count := BitVec.not_le.mp hne
        rw [BitVec.toNat_sub_of_le hpos]
        exact Nat.sub_le _ _
      exact ⟨e, he, hmem, (Nat.mul_le_mul_right _ hcount).trans hle⟩

/-- An operation leaves the elements covered iff it meets the condition. -/
theorem perform_covers_iff {op : VectorOp} {calls : List VectorEvent} (hc : vector.Covers)
    (h : op.perform fresh vector = .ok (vector', calls)) : vector'.Covers ↔ op.KeepsCovered vector := by
  cases op with
  | pushBack r item =>
      obtain ⟨v, hpush, hret⟩ := Exec.bind_eq_ok.mp h
      cases hret
      exact pushBack_covers_iff hc hpush
  | popback =>
      have hpop : vector.sxVectorPopback.1 = vector' := congrArg Prod.fst (Exec.ok.inj h)
      exact iff_of_true (hpop ▸ popback_covers hc) trivial
  | resize r count => exact resize_covers_iff hc h

/-- A step is an operation that comes to its end. -/
theorem vectorStep_eq_some {op : VectorOp} {calls : List VectorEvent} :
    vectorStep fresh vector op = some (vector', calls) ↔ op.perform fresh vector = .ok (vector', calls) := by
  unfold vectorStep
  cases op.perform fresh vector <;> simp

/-- **When the storage of a vector covers its elements.** From the creation on, and after every operation of a
    sequence, `mem_loca` designates the latest block, and this has the bytes of `count` elements: iff the first
    allocation suffices, and every operation meets the condition. -/
theorem storage_covers_iff {making : VectorMaking} {v₀ v : StoredVector} {ops : List VectorOp}
    {tr : List VectorEvent} (hmade : making.perform fresh = .ok v₀)
    (hrun : Machine.run (vectorStep fresh) v₀ ops = some (v, tr)) :
    Machine.Throughout (vectorStep fresh) (fun v _ => v.Covers) [] v₀ ops ↔
      making.Suffices ∧ Machine.Guarded (vectorStep fresh) (fun _ v op => op.KeepsCovered v) [] v₀ ops := by
  rw [← making_covers_iff hmade]
  have hexact (hc : v₀.Covers) : Machine.Throughout (vectorStep fresh) (fun v _ => v.Covers) [] v₀ ops ↔
      Machine.Guarded (vectorStep fresh) (fun _ v op => op.KeepsCovered v) [] v₀ ops := by
    refine Machine.throughout_iff_guarded (I := fun v _ => v.Covers) ?_ ?_ ?_ hc hrun
    · exact fun _ _ hv => hv
    · intro v _ op v' es hv hkeeps hs
      exact (perform_covers_iff hv (vectorStep_eq_some.mp hs)).mpr hkeeps
    · intro v _ op v' es hv hbreaks hs hv'
      exact hbreaks ((perform_covers_iff hv (vectorStep_eq_some.mp hs)).mp hv')
  constructor
  · intro h
    exact ⟨h.here, (hexact h.here).mp h⟩
  · rintro ⟨hc, h⟩
    exact (hexact hc).mpr h

end Storage

/-- Four bytes, as an element. -/
def itemOne : Block := ⟨[1, 0, 0, 0], by decide⟩

/-- A vector made with room for two elements of four bytes, at address 4096. -/
def roomForTwo : VectorMaking := .create (.elsewhere 4096) 4 2 true

def vectorForTwo : StoredVector where
  refCount  := 1
  osize     := 4
  memLoca   := some 4096
  dealloc   := true
  allocated := some ⟨4096, ⟨List.replicate 8 0, by decide⟩⟩

/-- Operations of every kind that leave the elements covered: an element for which there is room, one for which the
    block is resized, one element less, and a larger block elsewhere. -/
def coveringOps : List VectorOp :=
  [.pushBack .fails itemOne, .pushBack .inPlace itemOne, .popback, .resize (.elsewhere 8192) 3]

/-- The elements are covered throughout them. -/
theorem storage_covers_iff_covering :
    ∃ v tr, roomForTwo.perform (fun _ => 0) = .ok vectorForTwo ∧
      Machine.run (vectorStep fun _ => 0) vectorForTwo coveringOps = some (v, tr) ∧ v.extent = some (8192, 12) ∧
      Machine.Throughout (vectorStep fun _ => 0) (fun v _ => v.Covers) [] vectorForTwo coveringOps := by
  have hmade : roomForTwo.perform (fun _ => 0) = .ok vectorForTwo := by decide +kernel
  have hextent : ((Machine.run (vectorStep fun _ => 0) vectorForTwo coveringOps).map fun res => res.1.extent) =
      some (some (8192, 12)) := by
    decide +kernel
  obtain ⟨⟨v, tr⟩, hrun, hv⟩ := Option.map_eq_some_iff.mp hextent
  exact ⟨v, tr, hmade, hrun, hv, (storage_covers_iff hmade hrun).mpr (by decide +kernel)⟩

/-- An element is added and `realloc` moves the block: the pointer stays where the block was. And a vector of two
    elements is resized to one: its count stays, and its block is cut. -/
theorem storage_left_behind :
    roomForTwo.perform (fun _ => 0) = .ok vectorForTwo ∧
    (∃ v tr, Machine.run (vectorStep fun _ => 0) vectorForTwo [.pushBack (.elsewhere 8192) itemOne] = some (v, tr) ∧
      v.memLoca = some 4096 ∧ v.extent = some (8192, 4) ∧ ¬ v.Covers) ∧
    ∃ v tr, Machine.run (vectorStep fun _ => 0) vectorForTwo
        [.pushBack .inPlace itemOne, .pushBack .inPlace itemOne, .resize .inPlace 1] = some (v, tr) ∧
      v.count = 2 ∧ v.extent = some (4096, 4) ∧ ¬ v.Covers :=
  ⟨by decide +kernel, ⟨_, _, rfl, by decide, by decide, by decide⟩, ⟨_, _, rfl, by decide, by decide, by decide⟩⟩

end SpartanX
