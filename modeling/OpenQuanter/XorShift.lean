/-
# Words shifted into themselves

`x ^^^ (x >>> k)` and `x ^^^ (x <<< k)` lose nothing.  These are the steps of
shift generators.

Nothing here names the program under verification.
-/
import Mathlib

namespace XorShift

variable {w k : Nat}

/-- A word that is its own shift has no bit set. -/
theorem eq_zero_of_ushiftRight {d : BitVec w} (hk : 0 < k) (h : d = d >>> k) : d = 0#w := by
  have hdiv : d.toNat = d.toNat / 2 ^ k := by
    have hshift := congrArg BitVec.toNat h
    rwa [BitVec.toNat_ushiftRight, Nat.shiftRight_eq_div_pow] at hshift
  refine BitVec.eq_of_toNat_eq ?_
  rw [BitVec.toNat_zero]
  by_contra hpos
  have hlt : d.toNat / 2 ^ k < d.toNat :=
    Nat.div_lt_self (Nat.pos_of_ne_zero hpos) (Nat.one_lt_two_pow hk.ne')
  omega

theorem eq_zero_of_shiftLeft {d : BitVec w} (hk : 0 < k) (h : d = d <<< k) : d = 0#w := by
  have hbit : ∀ i, d.getLsbD i = false := by
    intro i
    induction i using Nat.strong_induction_on with
    | _ i ih =>
      rw [h, BitVec.getLsbD_shiftLeft]
      by_cases hlow : i < k
      · simp [hlow]
      · rw [ih (i - k) (by omega), Bool.and_false]
  exact BitVec.eq_of_getLsbD_eq fun i _ => by rw [hbit i, BitVec.getLsbD_zero]

theorem eq_of_xor_eq_zero {x y : BitVec w} (h : x ^^^ y = 0#w) : x = y :=
  BitVec.xor_eq_zero_iff.mp h

theorem xor_exchange {a b c d : BitVec w} (h : a ^^^ b = c ^^^ d) : a ^^^ c = b ^^^ d := by
  calc a ^^^ c = a ^^^ b ^^^ (b ^^^ c) := by
        rw [BitVec.xor_assoc, ← BitVec.xor_assoc b, BitVec.xor_self, BitVec.zero_xor]
    _ = b ^^^ d := by
        rw [h, BitVec.xor_comm c d, BitVec.xor_comm b c, BitVec.xor_assoc, ← BitVec.xor_assoc c,
          BitVec.xor_self, BitVec.zero_xor, BitVec.xor_comm]

/-- Shifting down into itself keeps words apart. -/
theorem right_injective (hk : 0 < k) : Function.Injective fun x : BitVec w => x ^^^ (x >>> k) := by
  intro x y hxy
  have hsame : x ^^^ (x >>> k) = y ^^^ (y >>> k) := hxy
  apply eq_of_xor_eq_zero
  apply eq_zero_of_ushiftRight hk
  rw [BitVec.ushiftRight_xor_distrib]
  exact xor_exchange hsame

theorem left_injective (hk : 0 < k) : Function.Injective fun x : BitVec w => x ^^^ (x <<< k) := by
  intro x y hxy
  have hsame : x ^^^ (x <<< k) = y ^^^ (y <<< k) := hxy
  apply eq_of_xor_eq_zero
  apply eq_zero_of_shiftLeft hk
  rw [BitVec.shiftLeft_xor_distrib]
  exact xor_exchange hsame

/-! ## On 64-bit words -/

theorem uint64_right_injective {k : UInt64} (hk : 0 < (k.toBitVec % 64).toNat) :
    Function.Injective fun x : UInt64 => x ^^^ (x >>> k) := by
  intro x y hxy
  have hbits := congrArg UInt64.toBitVec hxy
  simp only [UInt64.toBitVec_xor, UInt64.toBitVec_shiftRight, BitVec.ushiftRight_eq'] at hbits
  exact UInt64.toBitVec_inj.mp (right_injective hk hbits)

theorem uint64_left_injective {k : UInt64} (hk : 0 < (k.toBitVec % 64).toNat) :
    Function.Injective fun x : UInt64 => x ^^^ (x <<< k) := by
  intro x y hxy
  have hbits := congrArg UInt64.toBitVec hxy
  simp only [UInt64.toBitVec_xor, UInt64.toBitVec_shiftLeft, BitVec.shiftLeft_eq'] at hbits
  exact UInt64.toBitVec_inj.mp (left_injective hk hbits)

end XorShift
