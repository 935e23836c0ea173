import Mathlib.Data.List.Infix
import SpartanX.Lib.CInt
import SpartanX.Lib.Exec

/-!
# `Lib.CMemory` — objects of C's memory and the string functions of its library

An object (`Block`) is a sequence of bytes; a pointer into it is the object from there on. An access outside
the object is a fault, and so is the use of the null pointer an allocation returns that cannot be satisfied.
`strlen`, `strnlen` and `strncmp` walk over the bytes to a NUL, and fault if they meet the end of the object
before.

## Contents
- **Objects.** `Block`, `allocate`, `realloc`, `memset`, `memcpy`, `copyWithin`; `store_append`, `store_eq_ok`;
  `Libc`.
- **Arrays.** `getAt`, `setAt`.
- **C strings.** `Block.Holds`, `Block.Shows`, `strnlen`, `strlen`, `strncmp`; `nulWithin_eq_ok`,
  `compareBytes_terminated`.
-/

namespace CMemory

open CInt

/-! ## Objects -/

/-- An object of memory. The difference of two pointers into it is a `ptrdiff_t`, which bounds its size. -/
@[ext] structure Block where
  bytes : List UInt8
  fits  : bytes.length < 9223372036854775808
  deriving DecidableEq

namespace Block

/-- A fresh object of `n` bytes, which hold what `fresh` says. -/
def allocate (fresh : Nat → UInt8) (n : SizeT) : Exec Block :=
  if h : n.toNat < 9223372036854775808 then .ok ⟨(List.range n.toNat).map fresh, by simpa using h⟩ else .fault

/-- `calloc(n, 1)`. -/
def calloc (n : SizeT) : Exec Block := allocate (fun _ => 0) n

/-- `realloc`: the object keeps the bytes there is room for, and gets others behind them. -/
def realloc (fresh : Nat → UInt8) (b : Block) (n : SizeT) : Exec Block :=
  if h : n.toNat < 9223372036854775808 then
    .ok ⟨b.bytes.take n.toNat ++ (List.range (n.toNat - b.bytes.length)).map fresh, by simp; omega⟩
  else .fault

/-- The pointer `b + off`. -/
def add (b : Block) (off : Nat) : Exec Block :=
  if off ≤ b.bytes.length then .ok ⟨b.bytes.drop off, by have := b.fits; simp; omega⟩ else .fault

/-- `b[off]`. -/
def load (b : Block) (off : Nat) : Exec UInt8 := Exec.ofOption b.bytes[off]?

/-- Write bytes from an offset on. -/
def store (b : Block) (off : Nat) (data : List UInt8) : Exec Block :=
  if h : off + data.length ≤ b.bytes.length then
    .ok ⟨b.bytes.take off ++ data ++ b.bytes.drop (off + data.length), by have := b.fits; simp; omega⟩
  else .fault

/-- `memset(b + off, v, n)`. -/
def memset (b : Block) (off : Nat) (v : UInt8) (n : SizeT) : Exec Block := b.store off (List.replicate n.toNat v)

/-- `memcpy(b + off, src, n)` from another object. -/
def memcpy (b : Block) (off : Nat) (src : Block) (n : SizeT) : Exec Block :=
  if n.toNat ≤ src.bytes.length then b.store off (src.bytes.take n.toNat) else .fault

/-- `memcpy(b + dst, b + src, n)` within one object, byte by byte in the given order. -/
def copyWithin (order : List Nat) (b : Block) (dst src : Nat) (n : SizeT) : Exec Block :=
  if dst + n.toNat ≤ b.bytes.length ∧ src + n.toNat ≤ b.bytes.length then
    .ok (order.foldl (fun b k => ⟨b.bytes.set (dst + k) (b.bytes.getD (src + k) 0), by simpa using b.fits⟩) b)
  else .fault

variable {b b' : Block} {off : Nat} {data : List UInt8} {n : SizeT}

theorem store_ok (b : Block) (off : Nat) (data : List UInt8) (h : off + data.length ≤ b.bytes.length) :
    ∃ b', b.store off data = .ok b' := ⟨_, dif_pos h⟩

/-- A write succeeds inside the object, and changes the bytes it covers. -/
theorem store_eq_ok : b.store off data = .ok b' ↔
    off + data.length ≤ b.bytes.length ∧
      b'.bytes = b.bytes.take off ++ data ++ b.bytes.drop (off + data.length) := by
  unfold store
  split
  · rename_i h
    rw [Exec.ok.injEq, Block.ext_iff, and_iff_right h]
    exact eq_comm
  · rename_i h
    simp [h]

theorem length_store (h : b.store off data = .ok b') : b'.bytes.length = b.bytes.length := by
  obtain ⟨hle, hbytes⟩ := store_eq_ok.mp h
  rw [hbytes]
  simp only [List.length_append, List.length_take, List.length_drop]
  omega

/-- The bytes outside a write stay. -/
theorem store_frame {i : Nat} (h : b.store off data = .ok b') (hi : i < off ∨ off + data.length ≤ i) :
    b'.bytes[i]? = b.bytes[i]? := by
  obtain ⟨hle, hbytes⟩ := store_eq_ok.mp h
  have htake : (b.bytes.take off).length = off := by
    rw [List.length_take]
    omega
  rw [hbytes, List.append_assoc]
  rcases hi with hi | hi
  · rw [List.getElem?_append_left (by omega), List.getElem?_take_of_lt hi]
  · rw [List.getElem?_append_right (by omega), List.getElem?_append_right (by omega), List.getElem?_drop, htake]
    congr 1
    omega

/-- The bytes a write covers are those written. -/
theorem store_at {k : Nat} (h : b.store off data = .ok b') (hk : k < data.length) :
    b'.bytes[off + k]? = data[k]? := by
  obtain ⟨hle, hbytes⟩ := store_eq_ok.mp h
  have htake : (b.bytes.take off).length = off := by
    rw [List.length_take]
    omega
  rw [hbytes, List.append_assoc, List.getElem?_append_right (by omega), htake, Nat.add_sub_cancel_left,
    List.getElem?_append_left hk]

/-- A write over the middle part of an object. -/
theorem store_append {xs ys zs : List UInt8} (data : List UInt8) (hb : b.bytes = xs ++ ys ++ zs)
    (hlen : data.length = ys.length) :
    ∃ b', b.store xs.length data = .ok b' ∧ b'.bytes = xs ++ data ++ zs := by
  have hfits : (xs ++ data ++ zs).length < 9223372036854775808 := by
    have hfit := b.fits
    rw [hb] at hfit
    simpa [hlen] using hfit
  refine ⟨⟨xs ++ data ++ zs, hfits⟩, store_eq_ok.mpr ⟨?_, ?_⟩, rfl⟩
  · rw [hb]
    simp only [List.length_append]
    omega
  · have hdrop : xs.length + data.length = (xs ++ ys).length := by rw [List.length_append, hlen]
    rw [hdrop, hb, List.drop_left, List.append_assoc xs ys zs, List.take_left]

/-- A write at the start of an object. -/
theorem store_zero {ys zs : List UInt8} (data : List UInt8) (hb : b.bytes = ys ++ zs)
    (hlen : data.length = ys.length) : ∃ b', b.store 0 data = .ok b' ∧ b'.bytes = data ++ zs :=
  store_append data (show b.bytes = [] ++ ys ++ zs from hb) hlen

theorem allocate_ok (fresh : Nat → UInt8) (h : n.toNat < 9223372036854775808) :
    ∃ b, allocate fresh n = .ok b ∧ b.bytes = (List.range n.toNat).map fresh :=
  ⟨_, dif_pos h, rfl⟩

theorem calloc_ok (h : n.toNat < 9223372036854775808) :
    ∃ b, calloc n = .ok b ∧ b.bytes = List.replicate n.toNat 0 := by
  obtain ⟨b, hok, hb⟩ := allocate_ok (fun _ => 0) h
  exact ⟨b, hok, by simp [hb]⟩

theorem realloc_ok (fresh : Nat → UInt8) (b : Block) (h : n.toNat < 9223372036854775808) :
    ∃ b', realloc fresh b n = .ok b' ∧
      b'.bytes = b.bytes.take n.toNat ++ (List.range (n.toNat - b.bytes.length)).map fresh :=
  ⟨_, dif_pos h, rfl⟩

/-- An object has the size that was asked for. -/
theorem length_allocate {fresh : Nat → UInt8} (h : allocate fresh n = .ok b) : b.bytes.length = n.toNat := by
  unfold allocate at h
  split at h
  · cases h
    simp
  · cases h

theorem length_realloc {fresh : Nat → UInt8} (h : realloc fresh b n = .ok b') : b'.bytes.length = n.toNat := by
  unfold realloc at h
  split at h
  · cases h
    simp only [List.length_append, List.length_take, List.length_map, List.length_range]
    omega
  · cases h

/-- It keeps the bytes at its start, as far as there is room for them. -/
theorem realloc_keeps {fresh : Nat → UInt8} {xs ys : List UInt8} (hb : b.bytes = xs ++ ys) (hle : xs.length ≤ n.toNat)
    (h : realloc fresh b n = .ok b') : ∃ zs, b'.bytes = xs ++ zs ∧ zs.length = n.toNat - xs.length := by
  have hlen := length_realloc h
  have hbytes : b'.bytes = b.bytes.take n.toNat ++ (List.range (n.toNat - b.bytes.length)).map fresh := by
    unfold realloc at h
    split at h
    · cases h
      rfl
    · cases h
  rw [hb, List.take_append, List.take_of_length_le hle, List.append_assoc] at hbytes
  refine ⟨_, hbytes, ?_⟩
  rw [hbytes, List.length_append] at hlen
  omega

theorem add_ok {xs ys : List UInt8} (hb : b.bytes = xs ++ ys) :
    ∃ b', b.add xs.length = .ok b' ∧ b'.bytes = ys := by
  have hle : xs.length ≤ b.bytes.length := by simp [hb]
  refine ⟨_, if_pos hle, ?_⟩
  show b.bytes.drop xs.length = ys
  rw [hb, List.drop_left]

theorem load_ok {xs ys : List UInt8} {x : UInt8} (hb : b.bytes = xs ++ x :: ys) : b.load xs.length = .ok x := by
  simp [load, hb]

theorem memset_eq {v : UInt8} : b.memset off v n = b.store off (List.replicate n.toNat v) := rfl

theorem memcpy_eq {src : Block} (h : n.toNat ≤ src.bytes.length) :
    b.memcpy off src n = b.store off (src.bytes.take n.toNat) := if_pos h

theorem length_memcpy {src : Block} (h : b.memcpy off src n = .ok b') : b'.bytes.length = b.bytes.length := by
  unfold memcpy at h
  split at h
  · exact length_store h
  · cases h

/-- Filling a whole object. -/
theorem memset_all (v : UInt8) (h : b.bytes.length = n.toNat) :
    ∃ b', b.memset 0 v n = .ok b' ∧ b'.bytes = List.replicate n.toNat v := by
  obtain ⟨b', hok, hb'⟩ := store_zero (List.replicate n.toNat v) (List.append_nil b.bytes).symm
    (by rw [List.length_replicate, h])
  exact ⟨b', hok, by rw [hb', List.append_nil]⟩

/-- Copying a whole object onto another. -/
theorem memcpy_all (src : Block) (h : b.bytes.length = n.toNat) (hsrc : src.bytes.length = n.toNat) :
    ∃ b', b.memcpy 0 src n = .ok b' ∧ b'.bytes = src.bytes := by
  obtain ⟨b', hok, hb'⟩ := store_zero src.bytes (List.append_nil b.bytes).symm (by rw [hsrc, h])
  refine ⟨b', ?_, by rw [hb', List.append_nil]⟩
  rw [memcpy_eq hsrc.ge, ← hsrc, List.take_length, hok]

end Block

/-- What the standard leaves open: the order in which `memcpy` copies the bytes of overlapping ranges, and what
    is in memory that nothing has been written to. -/
structure Libc where
  order : Nat → List Nat
  perm  : ∀ n, (order n).Perm (List.range n)
  fresh : Nat → UInt8

theorem Libc.lt_of_mem_order {libc : Libc} {n k : Nat} (h : k ∈ libc.order n) : k < n :=
  List.mem_range.mp ((libc.perm n).mem_iff.mp h)

/-! ## Arrays -/

/-- `xs[i]`. -/
def getAt {α : Type} (xs : List α) (i : Nat) : Exec α := Exec.ofOption xs[i]?

/-- `xs[i] = x`. -/
def setAt {α : Type} (xs : List α) (i : Nat) (x : α) : Exec (List α) :=
  if i < xs.length then .ok (xs.set i x) else .fault

section Arrays

variable {α : Type}

theorem setAt_append (xs ys : List α) (y x : α) : setAt (xs ++ y :: ys) xs.length x = .ok (xs ++ x :: ys) := by
  simp [setAt]

end Arrays

/-! ## C strings -/

/-- The number of bytes before the first NUL, looked for in at most `n` bytes. -/
def nulWithin : List UInt8 → Nat → Exec Nat
  | _,      0     => .ok 0
  | [],     _ + 1 => .fault
  | x :: s, n + 1 => if x = 0 then .ok 0 else nulWithin s n >>= fun m => .ok (m + 1)

/-- The difference of the first bytes that differ, looked for in at most `n` bytes and up to a NUL. -/
def compareBytes : List UInt8 → List UInt8 → Nat → Exec Int
  | _,      _,      0     => .ok 0
  | x :: s, y :: t, n + 1 =>
    if x ≠ y then .ok (x.toNat - y.toNat) else if x = 0 then .ok 0 else compareBytes s t n
  | [],     _,      _ + 1 => .fault
  | _,      [],     _ + 1 => .fault

namespace Block

/-- `strnlen`. -/
def strnlen (b : Block) (n : SizeT) : Exec SizeT := do
  let m ← nulWithin b.bytes n.toNat
  pure (BitVec.ofNat 64 m)

/-- `strlen`. -/
def strlen (b : Block) : Exec SizeT := do
  let m ← nulWithin b.bytes (b.bytes.length + 1)
  pure (BitVec.ofNat 64 m)

/-- `strncmp`. -/
def strncmp (a b : Block) (n : SizeT) : Exec Int := compareBytes a.bytes b.bytes n.toNat

/-- The object holds the C string `c`: `c` has no NUL, and one follows. -/
def Holds (b : Block) (c : List UInt8) : Prop := 0 ∉ c ∧ ∃ rest, b.bytes = c ++ 0 :: rest

/-- `strncmp` looks at none of the bytes of the first object from index `k` on: it comes to the same where there are
    none, and a look at one would fault. -/
def ComparesWithin (a b : Block) (n : SizeT) (k : Nat) : Prop :=
  ∃ d, a.strncmp b n = .ok d ∧ compareBytes (a.bytes.take k) b.bytes n.toNat = .ok d

/-- The object begins with the characters `c`, none of them NUL. -/
def Shows (b : Block) (c : List UInt8) : Prop := 0 ∉ c ∧ c <+: b.bytes

end Block

/-- A `const char *` argument that is a C string. -/
structure CString where
  block : Block
  text  : List UInt8
  holds : block.Holds text

/-- A C string literal. -/
def CString.ofText (text : List UInt8) (hnul : 0 ∉ text) (hfits : text.length + 1 < 9223372036854775808) :
    CString where
  block := ⟨text ++ [0], by simpa using hfits⟩
  text  := text
  holds := ⟨hnul, [], rfl⟩

/-- The C string literal `""`. -/
def CString.empty : CString := .ofText [] List.not_mem_nil (by decide)

@[simp] theorem nulWithin_zero (s : List UInt8) : nulWithin s 0 = .ok 0 := by cases s <;> rfl

@[simp] theorem compareBytes_zero (s t : List UInt8) : compareBytes s t 0 = .ok 0 := by
  cases s <;> cases t <;> rfl

/-- What is found: no NUL before it, and a NUL there unless the limit is reached. -/
theorem nulWithin_eq_ok {s : List UInt8} {n m : Nat} :
    nulWithin s n = .ok m ↔ m ≤ n ∧ m ≤ s.length ∧ 0 ∉ s.take m ∧ (m < n → s[m]? = some 0) := by
  induction s generalizing n m with
  | nil =>
      cases n with
      | zero => simp [nulWithin, eq_comm]
      | succ n => simp only [nulWithin, reduceCtorEq, false_iff]; simp; omega
  | cons x s ih =>
      cases n with
      | zero => simp [nulWithin, eq_comm]; rintro rfl; simp
      | succ n =>
          unfold nulWithin
          by_cases hx : x = 0
          · rw [if_pos hx, Exec.ok.injEq]
            cases m with
            | zero => simp [hx]
            | succ m => simp [hx]
          · rw [if_neg hx, Exec.bind_eq_ok]
            cases m with
            | zero => simp [hx]
            | succ m => simp [ih, Ne.symm hx]

/-- The search ends if there are as many bytes as the limit. -/
theorem nulWithin_ok {s : List UInt8} {n : Nat} (h : n ≤ s.length) : ∃ m, nulWithin s n = .ok m := by
  induction s generalizing n with
  | nil => exact ⟨0, by rw [Nat.le_zero.mp h, nulWithin_zero]⟩
  | cons x s ih =>
      cases n with
      | zero => exact ⟨0, rfl⟩
      | succ n =>
          obtain ⟨m, hm⟩ := ih (Nat.le_of_succ_le_succ h)
          by_cases hx : x = 0
          · exact ⟨0, by simp [nulWithin, hx]⟩
          · exact ⟨m + 1, by simp [nulWithin, hx, hm]⟩

/-- Found inside a C string, or at its end. -/
theorem nulWithin_terminated {c : List UInt8} (hc : 0 ∉ c) (rest : List UInt8) (n : Nat) :
    nulWithin (c ++ 0 :: rest) n = .ok (min n c.length) := by
  rw [nulWithin_eq_ok]
  refine ⟨Nat.min_le_left .., ?_, ?_, ?_⟩
  · rw [List.length_append]
    omega
  · rw [List.take_append_of_le_length (Nat.min_le_right ..)]
    exact fun h => hc (List.mem_of_mem_take h)
  · intro h
    have hmin : min n c.length = c.length := by omega
    rw [hmin]
    simp

/-- What is behind a NUL makes no difference to a comparison. -/
theorem compareBytes_nul (c rest rest' r : List UInt8) (n : Nat) :
    compareBytes (c ++ 0 :: rest) r n = compareBytes (c ++ 0 :: rest') r n := by
  induction c generalizing r n with
  | nil =>
      cases n with
      | zero => rw [compareBytes_zero, compareBytes_zero]
      | succ n =>
          cases r with
          | nil => rfl
          | cons y r => simp [compareBytes]
  | cons x c ih =>
      cases n with
      | zero => rw [compareBytes_zero, compareBytes_zero]
      | succ n =>
          cases r with
          | nil => rfl
          | cons y r => simp only [List.cons_append, compareBytes, ih]

/-- **Comparing with a C string.** If `m` bytes of `r` precede its NUL or the limit, then the comparison with a
    C string ends, and finds no difference iff those bytes begin the string and it ends where `r` does. -/
theorem compareBytes_terminated {c rest r : List UInt8} (hc : 0 ∉ c) {n m : Nat} (hr : nulWithin r n = .ok m) :
    ∃ d, compareBytes (c ++ 0 :: rest) r n = .ok d ∧
      (d = 0 ↔ r.take m <+: c ∧ (m < n → m = c.length)) := by
  have hdiff {x y : UInt8} (h : x ≠ y) : (x.toNat : Int) - y.toNat ≠ 0 := fun hz => by
    exact h (UInt8.toNat_inj.mp (by omega))
  induction c generalizing r n m with
  | nil =>
      cases n with
      | zero =>
          obtain rfl : 0 = m := by simpa using hr
          exact ⟨0, compareBytes_zero .., by simp⟩
      | succ n =>
          cases r with
          | nil => cases hr
          | cons y r =>
              by_cases hy : y = 0
              · obtain rfl : 0 = m := by simpa [nulWithin, hy] using hr
                exact ⟨0, by simp [compareBytes, hy], by simp⟩
              · rw [nulWithin, if_neg hy, Exec.bind_eq_ok] at hr
                obtain ⟨k, _, hk⟩ := hr
                cases hk
                exact ⟨_, by simp [compareBytes, Ne.symm hy], iff_of_false (hdiff (Ne.symm hy)) (by simp)⟩
  | cons x c ih =>
      have hx : x ≠ 0 := fun h => hc (h ▸ List.mem_cons_self)
      cases n with
      | zero =>
          obtain rfl : 0 = m := by simpa using hr
          exact ⟨0, compareBytes_zero .., by simp⟩
      | succ n =>
          cases r with
          | nil => cases hr
          | cons y r =>
              by_cases hy : y = 0
              · obtain rfl : 0 = m := by simpa [nulWithin, hy] using hr
                have hne : x ≠ y := hy ▸ hx
                exact ⟨_, by simp [compareBytes, hne], iff_of_false (hdiff hne) (by simp)⟩
              · rw [nulWithin, if_neg hy, Exec.bind_eq_ok] at hr
                obtain ⟨k, hk, hkm⟩ := hr
                cases hkm
                by_cases hxy : x = y
                · obtain ⟨d, hd, hiff⟩ := ih (fun h => hc (List.mem_cons_of_mem x h)) hk
                  refine ⟨d, by simp [compareBytes, hxy, hy, hd], ?_⟩
                  simp [hiff, hxy]
                · refine ⟨_, by simp [compareBytes, hxy], iff_of_false (hdiff hxy) ?_⟩
                  simp [Ne.symm hxy]

namespace Block

variable {b b' : Block} {c c' : List UInt8} {n : SizeT}

/-- An object with a NUL in it holds a C string. -/
theorem exists_holds (h : 0 ∈ b.bytes) : ∃ c, b.Holds c := by
  obtain ⟨xs, ys, hsplit, hnot⟩ := List.eq_append_cons_of_mem h
  exact ⟨xs, hnot, ys, hsplit⟩

/-- A C string is shorter than the object that holds it. -/
theorem Holds.length_lt (h : b.Holds c) : c.length < b.bytes.length := by
  obtain ⟨_, rest, hb⟩ := h
  rw [hb]
  simp

/-- Its length is a `size_t` with room to spare. -/
theorem Holds.length_lt_max (h : b.Holds c) : c.length + 1 < 9223372036854775808 := by
  have hlt := h.length_lt
  have hfits := b.fits
  omega

theorem Holds.getElem? {xs : List UInt8} {m : Nat} (h : b.Holds xs) (hm : m < xs.length) :
    b.bytes[m]? = xs[m]? := by
  obtain ⟨_, rest, hbytes⟩ := h
  rw [hbytes, List.getElem?_append_left hm]

theorem Holds.terminated (h : b.Holds c) : b.bytes[c.length]? = some 0 := by
  obtain ⟨_, rest, hbytes⟩ := h
  rw [hbytes]
  simp

/-- None of the characters is NUL. -/
theorem Holds.getElem?_ne_nul {m : Nat} (h : b.Holds c) (hm : m < c.length) : b.bytes[m]? ≠ some 0 := by
  rw [h.getElem? hm]
  exact fun hnul => h.1 (List.mem_of_getElem? hnul)

/-- The characters and the terminator are all that counts. -/
theorem Holds.of_getElem? (hc : 0 ∉ c) (hchars : b.bytes.take c.length = c) (hnul : b.bytes[c.length]? = some 0) :
    b.Holds c := by
  obtain ⟨hlt, hget⟩ := List.getElem?_eq_some_iff.mp hnul
  refine ⟨hc, b.bytes.drop (c.length + 1), ?_⟩
  conv_lhs => rw [← List.take_append_drop c.length b.bytes, hchars, List.drop_eq_getElem_cons hlt, hget]

theorem Holds.congr (h : b.Holds c) (heq : ∀ m ≤ c.length, b'.bytes[m]? = b.bytes[m]?) : b'.Holds c := by
  refine .of_getElem? h.1 ?_ (by rw [heq _ (Nat.le_refl _), h.terminated])
  apply List.ext_getElem?
  intro m
  rcases Nat.lt_or_ge m c.length with hm | hm
  · rw [List.getElem?_take_of_lt hm, heq m hm.le, h.getElem? hm]
  · rw [List.getElem?_take_eq_none hm, List.getElem?_eq_none hm]

/-- An object holds one C string. -/
theorem Holds.unique (h : b.Holds c) (h' : b.Holds c') : c = c' := by
  obtain ⟨hc, rest, hb⟩ := h
  obtain ⟨hc', rest', hb'⟩ := h'
  have h₁ := nulWithin_terminated hc rest (c.length + c'.length)
  have h₂ := nulWithin_terminated hc' rest' (c.length + c'.length)
  rw [← hb] at h₁
  rw [← hb', h₁, Exec.ok.injEq] at h₂
  have hlen : c.length = c'.length := by omega
  rw [hb] at hb'
  exact (List.append_inj hb' hlen).1

/-- The string at an offset inside a C string. -/
theorem Holds.add (c₁ c₂ : List UInt8) (h : b.Holds (c₁ ++ c₂)) :
    ∃ b', b.add c₁.length = .ok b' ∧ b'.Holds c₂ := by
  obtain ⟨hc, rest, hb⟩ := h
  rw [List.append_assoc] at hb
  obtain ⟨b', hok, hb'⟩ := add_ok hb
  exact ⟨b', hok, fun hm => hc (List.mem_append_right c₁ hm), rest, hb'⟩

/-- The string from an index on. -/
theorem Holds.add_drop {k : Nat} (h : b.Holds c) (hk : k ≤ c.length) :
    ∃ b', b.add k = .ok b' ∧ b'.Holds (c.drop k) := by
  rw [← List.take_append_drop k c] at h
  obtain ⟨b', hok, hb'⟩ := h.add
  rw [List.length_take_of_le hk] at hok
  exact ⟨b', hok, hb'⟩

theorem strnlen_of_holds (h : b.Holds c) : b.strnlen n = .ok (BitVec.ofNat 64 (min n.toNat c.length)) := by
  obtain ⟨hc, rest, hb⟩ := h
  unfold strnlen
  rw [hb, nulWithin_terminated hc]
  rfl

theorem strlen_of_holds (h : b.Holds c) : b.strlen = .ok (BitVec.ofNat 64 c.length) := by
  have hlt := h.length_lt
  obtain ⟨hc, rest, hb⟩ := h
  unfold strlen
  rw [hb, nulWithin_terminated hc, ← hb]
  have hmin : min (b.bytes.length + 1) c.length = c.length := by omega
  rw [hmin]
  rfl

/-- Comparing at most `n` bytes of a C string with those of an object that shows `m` of them. -/
theorem strncmp_of_holds (h : b.Holds c) {m : Nat} (hm : nulWithin b'.bytes n.toNat = .ok m) :
    ∃ d, b.strncmp b' n = .ok d ∧ (d = 0 ↔ b'.bytes.take m <+: c ∧ (m < n.toNat → m = c.length)) := by
  obtain ⟨hc, rest, hb⟩ := h
  unfold strncmp
  rw [hb]
  exact compareBytes_terminated hc hm

/-- It looks at no byte behind the terminator. -/
theorem Holds.comparesWithin (h : b.Holds c) {m : Nat} (hm : CMemory.nulWithin b'.bytes n.toNat = .ok m) :
    b.ComparesWithin b' n (c.length + 1) := by
  obtain ⟨d, hd, _⟩ := strncmp_of_holds h hm
  obtain ⟨_, rest, hb⟩ := h
  have htake : b.bytes.take (c.length + 1) = c ++ 0 :: [] := by
    rw [hb, List.take_append]
    simp
  refine ⟨d, hd, ?_⟩
  rw [htake, compareBytes_nul c [] rest, ← hb]
  exact hd

/-- A C string shows its characters. -/
theorem Holds.shows (h : b.Holds c) : b.Shows c := by
  obtain ⟨hnul, rest, hb⟩ := h
  exact ⟨hnul, 0 :: rest, hb.symm⟩

/-- A search for a NUL in what an object shows comes to its end. -/
theorem Shows.nulWithin {p : List UInt8} (h : b.Shows p) : nulWithin b.bytes p.length = .ok p.length := by
  obtain ⟨hnul, rest, hb⟩ := h
  rw [nulWithin_eq_ok, ← hb, List.take_left]
  exact ⟨Nat.le_refl _, by simp, hnul, fun hlt => absurd hlt (Nat.lt_irrefl _)⟩

/-- Comparing a C string with what an object shows. -/
theorem strncmp_begins {p : List UInt8} (h : b.Holds c) (hp : b'.Shows p) (hn : n.toNat = p.length) :
    ∃ d, b.strncmp b' n = .ok d ∧ (d = 0 ↔ p <+: c) := by
  have hm : CMemory.nulWithin b'.bytes n.toNat = .ok p.length := by rw [hn, hp.nulWithin]
  obtain ⟨d, hd, hiff⟩ := strncmp_of_holds h hm
  obtain ⟨_, rest, hb'⟩ := hp
  refine ⟨d, hd, ?_⟩
  rw [hiff, ← hb', List.take_left, hn]
  simp

/-- Comparing from an index of the C string on. -/
theorem Holds.strncmp_at {p : List UInt8} {k : Nat} (h : b.Holds c) (hk : k ≤ c.length) (hp : b'.Shows p)
    (hn : n.toNat = p.length) :
    ∃ place d, b.add k = .ok place ∧ place.strncmp b' n = .ok d ∧ (d = 0 ↔ p <+: c.drop k) := by
  obtain ⟨place, hadd, hplace⟩ := h.add_drop hk
  obtain ⟨d, hcmp, hd⟩ := strncmp_begins hplace hp hn
  exact ⟨place, d, hadd, hcmp, hd⟩

end Block

end CMemory
