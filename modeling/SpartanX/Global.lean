import Mathlib.Logic.Function.Basic
import SpartanX.Lib.CInt

/-!
# `Global` — the constants of `sx_global.h` and the error codes of `SXError.h`

A status is an `unsigned int` (`sx_status_t`) of which `enum sx_status` names the values `0` to `6`. The
model keeps the names as constructors and every unnamed value as `other`, so that a `switch` of the source
is a case split and its `default` branch covers what it covers in C (`Status.bits_bijective`).

An `SXError` is an `int`: besides the enumerators the code returns negated status numbers
(`Status.negated`), so the codes are integers here too.
-/

namespace SpartanX

open CInt

/-! ## Statuses -/

/-- `sx_status_t`. `other n` is the value `7 + n`, which no enumerator names. -/
inductive Status
  | idle
  | running
  | resuming
  | suspend
  | shouldTerminate
  | ignored
  | shouldKill
  | other (n : Fin 4294967289)
  deriving DecidableEq, Repr

/-- The number of a status. -/
def Status.number : Status → Nat
  | .idle            => 0
  | .running         => 1
  | .resuming        => 2
  | .suspend         => 3
  | .shouldTerminate => 4
  | .ignored         => 5
  | .shouldKill      => 6
  | .other n         => 7 + n.val

/-- The `unsigned int` a status is. -/
def Status.bits (st : Status) : UIntT := BitVec.ofNat 32 st.number

theorem Status.number_lt (st : Status) : st.number < 4294967296 := by
  cases st with
  | other n => have := n.isLt; simp only [Status.number]; omega
  | _ => decide

theorem Status.number_injective : Function.Injective Status.number := by
  intro a b h
  cases a <;> cases b <;> simp only [Status.number] at h <;> first | rfl | omega | skip
  exact congrArg Status.other (Fin.ext (by omega))

theorem Status.toNat_bits (st : Status) : st.bits.toNat = st.number := by
  rw [Status.bits, BitVec.toNat_ofNat, Nat.mod_eq_of_lt st.number_lt]

/-- The statuses are exactly the `unsigned int`s. -/
theorem Status.bits_bijective : Function.Bijective Status.bits := by
  constructor
  · intro a b h
    exact Status.number_injective (by rw [← Status.toNat_bits, h, Status.toNat_bits])
  · intro b
    by_cases h : b.toNat < 7
    · have hb : b = 0 ∨ b = 1 ∨ b = 2 ∨ b = 3 ∨ b = 4 ∨ b = 5 ∨ b = 6 := by bv_omega
      rcases hb with rfl | rfl | rfl | rfl | rfl | rfl | rfl
      exacts [⟨.idle, rfl⟩, ⟨.running, rfl⟩, ⟨.resuming, rfl⟩, ⟨.suspend, rfl⟩,
        ⟨.shouldTerminate, rfl⟩, ⟨.ignored, rfl⟩, ⟨.shouldKill, rfl⟩]
    · have hb := b.isLt
      refine ⟨.other ⟨b.toNat - 7, by omega⟩, BitVec.eq_of_toNat_eq ?_⟩
      rw [Status.toNat_bits]
      show 7 + (b.toNat - 7) = b.toNat
      omega

/-! ## Error codes -/

/-- `SXError`. -/
abbrev SXError := Int

def sxSuccess                   : SXError := 0
def sxErrorInvalidServer        : SXError := -2
def sxErrorMemAlloc             : SXError := -6
def sxErrorInvalidIpaddr        : SXError := -7
def sxErrorServerCannotBeDgram  : SXError := -8
def sxErrorSysSocket            : SXError := -10
def sxErrorSysBind              : SXError := -11
def sxErrorSysConnect           : SXError := -13
def sxErrorSysAccept            : SXError := -16
def sxErrorSysSetsockopt        : SXError := -17
def sxErrorSysGetAddrInfo       : SXError := -24
def sxErrorCreateThread         : SXError := -40

/-- `current * -1`: the product of an `unsigned int` with `-1`, read back as an `int`. -/
def Status.negated (current : Status) : SXError := (current.bits * (-1)).toInt

/-- The negated number of a status is the success code for one status only: `idle`, whose number is `0`. -/
theorem Status.negated_eq_sxSuccess {st : Status} : st.negated = sxSuccess ↔ st = .idle := by
  have hz : st.negated = sxSuccess ↔ st.bits = 0 := by
    have hneg : st.bits * (-1) = -st.bits := by
      rw [BitVec.mul_neg]
      exact congrArg (- ·) (BitVec.mul_one st.bits)
    unfold Status.negated sxSuccess
    rw [hneg, ← BitVec.toInt_zero (w := 32), BitVec.toInt_inj, BitVec.neg_eq_zero_iff]
    rfl
  rw [hz, ← Status.bits_bijective.injective.eq_iff (a := st) (b := .idle)]
  rfl

/-! ## Reference counts -/

/-- `sx_weak_object`: an object whose count has this value is not counted. -/
def sxWeakObject : Int := 410

end SpartanX
