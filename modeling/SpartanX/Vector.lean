import SpartanX.Lib.CMemory
import SpartanX.RefCount

/-!
# `Vector` — `SXVector.c`

A vector (`SXVector`) is a count, an element size and a piece of memory, here the list of the places it has room
for, each with the element last written to it. An index is turned into an address by a multiplication in `size_t`
(`SXVector.place`); a place that is not there, or was never written, designates no element.

`SXVector.Lists` says what a vector contains; a vector made from an array contains that array
(`sxCreateVectorWithArray_ok`), and can be read at the indices below its count (`SXVector.Lists.read`).
-/

namespace SpartanX

open CInt CMemory

/-- `sizeof(int)`. -/
def sizeofInt : SizeT := 4

/-- `sizeof(SXStringRef)`. -/
def sizeofRef : SizeT := 8

/-- `sx_vector_t`, with elements of one type. `slots` are the places in `mem_loca`, `dealloc` tells whether the
    function of this name is set. -/
structure SXVector (α : Type) extends VectorHead where
  count   : SizeT := 0
  osize   : SizeT
  slots   : List (Option α)
  dealloc : Bool
  deriving DecidableEq

/-- `sx_malloc(bytes)`, as places for elements of `osize` bytes; the null pointer it returns if there is not that
    much memory has none. -/
def sxMalloc (α : Type) (bytes osize : SizeT) : List (Option α) :=
  if bytes.toNat < 9223372036854775808 then List.replicate (bytes.toNat / osize.toNat) none else []

/-- Which place `mem_loca + index * osize` is. -/
def placeOf (osize index : SizeT) : Nat := (index * osize).toNat / osize.toNat

section Vector

variable {α : Type}

/-- The place of an index of the vector. -/
def SXVector.place (vector : SXVector α) (index : SizeT) : Nat := placeOf vector.osize index

/-- `SXCreateVector`. -/
def sxCreateVector (objSize reserveCapacity : SizeT) (dealloc : Bool) : SXVector α :=
  { refCount := 1, osize := objSize, slots := sxMalloc α (reserveCapacity * objSize) objSize, dealloc := dealloc }

/-- `SXCreateVectorWithArray`. -/
def sxCreateVectorWithArray (array : List α) (objSize nItems : SizeT) (dealloc : Bool) : Exec (SXVector α) := do
  let slots ← Exec.forInt (fun i _ => i.toSizeT < nItems)
    (fun i slots => do
      let x ← getAt array (placeOf objSize i.toSizeT)
      setAt slots (placeOf objSize i.toSizeT) (some x))
    nItems.toNat (sxMalloc α (objSize * nItems) objSize)
  pure { refCount := 1, osize := objSize, count := nItems, slots := slots, dealloc := dealloc }

/-- The element at `SXVectorObjectPtrAtIndex`, if there is one. -/
def sxVectorObjectPtrAtIndex (vector : SXVector α) (index : SizeT) : Option α :=
  (vector.slots[vector.place index]?).join

/-- The vector contains these elements, in memory that has room for nothing else. -/
structure SXVector.Lists (vector : SXVector α) (xs : List α) : Prop where
  count : vector.count.toNat = xs.length
  slots : vector.slots = xs.map some

/-- As long as the address does not wrap around, the place of an index is the index. -/
theorem placeOf_eq {osize index : SizeT} (hpos : 0 < osize.toNat)
    (hlt : index.toNat * osize.toNat < 18446744073709551616) : placeOf osize index = index.toNat := by
  unfold placeOf
  rw [BitVec.toNat_mul, Nat.mod_eq_of_lt hlt, Nat.mul_div_cancel _ hpos]

/-- There is memory for as many elements as a pointer difference can count. -/
theorem sxMalloc_eq {osize n : SizeT} (hpos : 0 < osize.toNat)
    (hfits : n.toNat * osize.toNat < 9223372036854775808) :
    sxMalloc α (n * osize) osize = List.replicate n.toNat none := by
  unfold sxMalloc
  rw [BitVec.toNat_mul, Nat.mod_eq_of_lt (by omega), if_pos hfits, Nat.mul_div_cancel _ hpos]

/-- The first `k` of `n` places are filled from the array. -/
def filled (array : List α) (n k : Nat) : List (Option α) := (array.take k).map some ++ List.replicate (n - k) none

/-- The copy of the next element fills the next place. -/
theorem fill_next {array : List α} {n k : Nat} (hk : k < n) (hn : n ≤ array.length) :
    (getAt array k >>= fun x => setAt (filled array n k) k (some x)) = .ok (filled array n (k + 1)) := by
  have hlt : k < array.length := by omega
  have hlen : ((array.take k).map some).length = k := by
    rw [List.length_map, List.length_take]
    omega
  have hroom : n - k = (n - (k + 1)) + 1 := by omega
  have hset := setAt_append ((array.take k).map some) (List.replicate (n - (k + 1)) none) none (some array[k])
  rw [hlen] at hset
  unfold filled getAt
  rw [List.getElem?_eq_getElem hlt, Exec.ofOption_some, Exec.ok_bind, hroom, List.replicate_succ, hset,
    ← List.take_concat_get' array k hlt, List.map_append, List.append_assoc]
  rfl

/-- **A vector made from an array contains its first elements.** -/
theorem sxCreateVectorWithArray_ok (array : List α) (osize n : SizeT) (dealloc : Bool) (hpos : 0 < osize.toNat)
    (hn : n.toNat ≤ array.length) (hint : n.toNat < 2147483648)
    (hfits : n.toNat * osize.toNat < 9223372036854775808) :
    ∃ v, sxCreateVectorWithArray array osize n dealloc = .ok v ∧ v.osize = osize ∧
      v.Lists (array.take n.toNat) := by
  have hnat {k : Nat} (hk : k ≤ n.toNat) : (IntT.toSizeT (BitVec.ofNat 32 k)).toNat = k := by
    rw [toSizeT_ofNat (by omega), toNat_ofNat_of_lt (by omega)]
  have hplace {k : Nat} (hk : k < n.toNat) : placeOf osize (IntT.toSizeT (BitVec.ofNat 32 k)) = k := by
    have hmul : k * osize.toNat ≤ n.toNat * osize.toNat := Nat.mul_le_mul_right _ (by omega)
    rw [placeOf_eq hpos (by rw [hnat (by omega)]; omega), hnat (by omega)]
  obtain ⟨slots, hloop, hslots⟩ : ∃ slots, Exec.forInt (fun i _ => i.toSizeT < n)
      (fun i slots => do
        let x ← getAt array (placeOf osize i.toSizeT)
        setAt slots (placeOf osize i.toSizeT) (some x))
      n.toNat (List.replicate n.toNat none) = .ok slots ∧ slots = filled array n.toNat n.toNat := by
    -- after `k` iterations the first `k` places are filled
    refine Exec.forInt_ok (I := fun k slots => slots = filled array n.toNat k) ?_ ?_ ?_ (Nat.le_refl _)
    · rintro k slots hk rfl
      refine ⟨?_, _, ?_, rfl⟩
      · simp only [BitVec.lt_def, decide_eq_true_eq, hnat hk.le]
        exact hk
      · rw [hplace hk]
        exact fill_next hk hn
    · rintro slots rfl
      simp only [BitVec.lt_def, decide_eq_false_iff_not, hnat (Nat.le_refl _)]
      exact Nat.lt_irrefl _
    · simp [filled]
  refine ⟨{ refCount := 1, osize := osize, count := n, slots := slots, dealloc := dealloc }, ?_, rfl, ?_, ?_⟩
  · unfold sxCreateVectorWithArray
    rw [BitVec.mul_comm, sxMalloc_eq hpos hfits, hloop]
    rfl
  · show n.toNat = _
    rw [List.length_take]
    omega
  · simp [hslots, filled]

variable {vector : SXVector α} {xs : List α} {index : SizeT}

/-- Reading a vector: the element at an index below its count, and none at any other. -/
theorem SXVector.Lists.read (h : vector.Lists xs) (hpos : 0 < vector.osize.toNat)
    (hlt : index.toNat * vector.osize.toNat < 18446744073709551616) :
    sxVectorObjectPtrAtIndex vector index = xs[index.toNat]? := by
  unfold sxVectorObjectPtrAtIndex SXVector.place
  rw [placeOf_eq hpos hlt, h.slots, List.getElem?_map]
  cases xs[index.toNat]? <;> rfl

end Vector

end SpartanX
