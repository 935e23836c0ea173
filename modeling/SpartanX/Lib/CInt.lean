import Mathlib.Data.Nat.Notation

/-!
# `Lib.CInt` — C's machine integers

`int` and `unsigned int` are 32 bits wide, `size_t` is 64 bits wide; arithmetic wraps around, an `int` that
meets a `size_t` in a comparison is first sign-extended to it, and the comparison is then unsigned.
-/

namespace CInt

/-- `int`. -/
abbrev IntT := BitVec 32

/-- `unsigned int`. -/
abbrev UIntT := BitVec 32

/-- `size_t`. -/
abbrev SizeT := BitVec 64

/-- `(size_t)-1`, the value a failed `ssize_t` call leaves in a `size_t`. -/
def minusOne : SizeT := -1

/-- The conversion of an `int` operand to `size_t`. -/
def IntT.toSizeT (x : IntT) : SizeT := x.signExtend 64

/-- A number below `2^64 - 1` is not `(size_t)-1`. -/
theorem ofNat_ne_minusOne {n : Nat} (h : n < 18446744073709551615) :
    BitVec.ofNat 64 n ≠ minusOne := by
  intro he
  have := congrArg BitVec.toNat he
  simp only [minusOne, BitVec.toNat_ofNat, BitVec.reduceNeg] at this
  omega

/-- A number below `2^64` survives the conversion to `size_t`. -/
theorem toNat_ofNat_of_lt {n : Nat} (h : n < 18446744073709551616) : (BitVec.ofNat 64 n).toNat = n := by
  simp only [BitVec.toNat_ofNat]
  omega

/-- `int` to `size_t`, as numbers: the lower half is kept, the negative half moves to the top. -/
theorem toNat_toSizeT_ofNat {n : Nat} (h : n < 4294967296) :
    (IntT.toSizeT (BitVec.ofNat 32 n)).toNat =
      if n < 2147483648 then n else n + 18446744069414584320 := by
  have hmsb : (BitVec.ofNat 32 n).msb = decide (2147483648 ≤ n) := by
    rw [BitVec.msb_eq_decide]
    simp [Nat.mod_eq_of_lt h]
  unfold IntT.toSizeT
  rw [BitVec.toNat_signExtend, hmsb]
  simp only [BitVec.toNat_setWidth, BitVec.toNat_ofNat]
  by_cases hn : n < 2147483648
  · simp [hn, Nat.not_le.mpr hn]
    omega
  · simp [hn, Nat.not_lt.mp hn]
    omega

/-- An `int` that is not negative keeps its value. -/
theorem toSizeT_ofNat {n : Nat} (h : n < 2147483648) : IntT.toSizeT (BitVec.ofNat 32 n) = BitVec.ofNat 64 n := by
  apply BitVec.eq_of_toNat_eq
  rw [toNat_toSizeT_ofNat (by omega), if_pos h, toNat_ofNat_of_lt (by omega)]

theorem toNat_toSizeT_of_lt {n : Nat} (h : n < 2147483648) : (IntT.toSizeT (BitVec.ofNat 32 n)).toNat = n := by
  rw [toSizeT_ofNat h, toNat_ofNat_of_lt (by omega)]

/-- An `int` below half of all `size_t` is not negative, -/
theorem toNat_lt_of_toSizeT {x : IntT} (h : x.toSizeT.toNat < 9223372036854775808) : x.toNat < 2147483648 := by
  have hself : x = BitVec.ofNat 32 x.toNat := by simp
  have hlt := x.isLt
  rw [hself, toNat_toSizeT_ofNat hlt] at h
  split at h <;> omega

/-- and one that is not negative is the same number. -/
theorem toNat_toSizeT_of_nonneg {x : IntT} (h : x.toNat < 2147483648) : x.toSizeT.toNat = x.toNat := by
  have hself : x = BitVec.ofNat 32 x.toNat := by simp
  rw [hself, toNat_toSizeT_of_lt h, ← hself]

/-- A counter that has come to a bound, or to the number from which on it is negative, is not below the bound. -/
theorem not_counter_lt {n : Nat} {bound : SizeT} (hle : bound.toNat ≤ n) (hfits : bound.toNat < 9223372036854775808) :
    ¬ IntT.toSizeT (BitVec.ofNat 32 (min n 2147483648)) < bound := by
  rw [BitVec.lt_def, toNat_toSizeT_ofNat (by omega)]
  split <;> omega

/-- A difference that is not negative is that of the numbers. -/
theorem ofNat_sub_ofNat {w a b : Nat} (h : b ≤ a) :
    BitVec.ofNat w a - BitVec.ofNat w b = BitVec.ofNat w (a - b) := by
  rw [BitVec.sub_eq_iff_eq_add, ← BitVec.ofNat_add, Nat.sub_add_cancel h]

/-- The difference of two `int`s that are not negative, as a `size_t`. -/
theorem toSizeT_sub {a b : Nat} (ha : a < 2147483648) (hb : b < 2147483648) :
    IntT.toSizeT (BitVec.ofNat 32 a - BitVec.ofNat 32 b) = BitVec.ofInt 64 (a - b) := by
  have hdiff : (BitVec.ofNat 32 a - BitVec.ofNat 32 b : IntT).toInt = a - b := by
    rw [BitVec.toInt_sub]
    simp only [BitVec.toInt_eq_toNat_bmod, BitVec.toNat_ofNat, Int.bmod_def]
    omega
  show BitVec.ofInt 64 _ = _
  rw [hdiff]

/-- **Unsigned arithmetic with a negative factor** wraps around to the true value, if that is not negative. -/
theorem ofNat_add_ofInt_mul {a c k : Nat} {d : Int} (h : (c : Int) = a + d * k) :
    BitVec.ofNat 64 a + BitVec.ofInt 64 d * BitVec.ofNat 64 k = BitVec.ofNat 64 c := by
  rw [← BitVec.ofInt_natCast, ← BitVec.ofInt_natCast, ← BitVec.ofInt_mul, ← BitVec.ofInt_add, ← h,
    BitVec.ofInt_natCast]

/-- `i += n - 1` and `++i` on an `int`, the sum taken in `size_t`: together they add `n`, also if it is `0`. -/
theorem setWidth_add_sub_one (i n : Nat) :
    (BitVec.ofNat 64 i + (BitVec.ofNat 64 n - 1) : SizeT).setWidth 32 + 1 = BitVec.ofNat 32 (i + n) := by
  have hone : (1 : SizeT) = BitVec.ofNat 64 1 := rfl
  have hone' : (1 : IntT) = BitVec.ofNat 32 1 := rfl
  apply BitVec.eq_of_toNat_eq
  simp only [hone, hone', BitVec.toNat_add, BitVec.toNat_setWidth, BitVec.toNat_sub, BitVec.toNat_ofNat]
  omega

/-- `i += n` on an `int`, the sum taken in `size_t`. -/
theorem setWidth_add (i n : Nat) :
    (BitVec.ofNat 64 i + BitVec.ofNat 64 n : SizeT).setWidth 32 = BitVec.ofNat 32 (i + n) := by
  apply BitVec.eq_of_toNat_eq
  simp only [BitVec.toNat_add, BitVec.toNat_setWidth, BitVec.toNat_ofNat]
  omega

/-- **A bound check that compares a wrapping `int` counter with a `size_t` bound is sound.** If the counter
    holds `n` modulo `2^32` and is found below the bound, then `n + 1` is within the bound and the next
    increment does not wrap around. -/
theorem succ_le_of_toSizeT_lt {n : Nat} {bound : SizeT} (hn : n < 4294967296)
    (h : IntT.toSizeT (BitVec.ofNat 32 n) < bound) : n + 1 ≤ bound.toNat ∧ n + 1 < 4294967296 := by
  have hlt : (IntT.toSizeT (BitVec.ofNat 32 n)).toNat < bound.toNat := h
  rw [toNat_toSizeT_ofNat hn] at hlt
  have hb := bound.isLt
  split at hlt <;> omega

/-- `++` on a counter that holds `n`. -/
theorem ofNat_add_one (n : Nat) : (BitVec.ofNat 32 n : IntT) + 1 = BitVec.ofNat 32 (n + 1) := by
  rw [BitVec.ofNat_add]
  rfl

/-- `--` on a counter that holds `n + 1`. -/
theorem ofNat_succ_sub_one (n : Nat) : (BitVec.ofNat 32 (n + 1) : IntT) - 1 = BitVec.ofNat 32 n := by
  rw [← ofNat_add_one, BitVec.add_sub_cancel]

/-- A counter tells small numbers apart. -/
theorem ofNat_inj_of_lt {m n : Nat} (hm : m < 4294967296) (hn : n < 4294967296) :
    (BitVec.ofNat 32 m : IntT) = BitVec.ofNat 32 n ↔ m = n := by
  rw [← BitVec.toNat_inj, BitVec.toNat_ofNat, BitVec.toNat_ofNat, Nat.mod_eq_of_lt hm, Nat.mod_eq_of_lt hn]

/-- A counter that has been counted up is not zero before it wraps around. -/
theorem ofNat_succ_ne_zero {n : Nat} (h : n + 1 < 4294967296) : (BitVec.ofNat 32 (n + 1) : IntT) ≠ 0 :=
  fun hz => Nat.succ_ne_zero n ((ofNat_inj_of_lt h (by omega)).mp hz)

end CInt
