import Mathlib
import PropertyGraph.Proofs.Number.Packing

/-!
# Rounding

A result of the machine is a mantissa of any length.  It is shifted to the exponent at which 53
binary digits are left, together with two bits that say what was lost, and then rounded to the
nearest, a tie to even.  Mantissa and both bits are one number, the weight: shifting and rounding
are monotone in it.

    Double.roundedMantissa_mono    a greater weight is not rounded to less
    Double.round_eq                the rounded number, with a carry into the next exponent
-/

namespace PropertyGraph

namespace Double

open Float.Model
open Float.Model.UnpackedFloat hiding pack unpack

/-! ## Shifting a mantissa -/

/-- A mantissa with what was shifted out of it, as one number. -/
def weight (em : ExtendedMantissa) : Nat :=
  4 * em.mantissa + 2 * em.roundBit.toNat + em.stickyBit.toNat

theorem weight_shiftRightOne (em : ExtendedMantissa) :
    weight em.shiftRightOne = 2 * (weight em / 4) + min 1 (weight em % 4) := by
  obtain ⟨m, round, sticky⟩ := em
  have hmod : (m % 2 != 0).toNat = m % 2 := by
    obtain h | h := Nat.mod_two_eq_zero_or_one m <;> rw [h] <;> rfl
  unfold weight ExtendedMantissa.shiftRightOne
  dsimp only
  rw [hmod]
  cases round <;> cases sticky <;>
    simp only [Bool.toNat_false, Bool.toNat_true, Bool.or_false, Bool.or_true] <;> omega

theorem shift_succ (em : ExtendedMantissa) (k : Nat) : em >>> (k + 1) = (em >>> k).shiftRightOne :=
  rfl

theorem mantissa_shift (em : ExtendedMantissa) (k : Nat) :
    (em >>> k).mantissa = em.mantissa / 2 ^ k := by
  induction k with
  | zero => exact (Nat.div_one _).symm
  | succ k ih =>
    rw [shift_succ, Nat.pow_succ, ← Nat.div_div_eq_div_mul, ← ih]
    rfl

theorem weight_shift_mono {a b : ExtendedMantissa} (h : weight a ≤ weight b) (k : Nat) :
    weight (a >>> k) ≤ weight (b >>> k) := by
  induction k with
  | zero => exact h
  | succ k ih =>
    rw [shift_succ, shift_succ, weight_shiftRightOne, weight_shiftRightOne]
    omega

theorem weight_div (em : ExtendedMantissa) : weight em / 4 = em.mantissa := by
  have := em.roundBit.toNat_le
  have := em.stickyBit.toNat_le
  unfold weight
  omega

/-- A tie goes to the even neighbour. -/
theorem roundedMantissa_eq (em : ExtendedMantissa) :
    em.roundedMantissa = (weight em + 1 + em.mantissa % 2) / 4 := by
  obtain ⟨m, round, sticky⟩ := em
  cases round <;> cases sticky <;>
    simp only [weight, ExtendedMantissa.roundedMantissa, ExtendedMantissa.accuracy,
      Accuracy.roundToNearestEven, Bool.toNat_false, Bool.toNat_true] <;> omega

theorem roundedMantissa_mono {a b : ExtendedMantissa} (h : weight a ≤ weight b) :
    a.roundedMantissa ≤ b.roundedMantissa := by
  have ha := weight_div a
  have hb := weight_div b
  rw [roundedMantissa_eq, roundedMantissa_eq]
  obtain hlt | heq : a.mantissa < b.mantissa ∨ a.mantissa = b.mantissa := by omega
  · omega
  · rw [heq]
    omega

/-- Rounding adds at most one. -/
theorem roundedMantissa_bounds (em : ExtendedMantissa) :
    em.mantissa ≤ em.roundedMantissa ∧ em.roundedMantissa ≤ em.mantissa + 1 := by
  have hdiv := weight_div em
  rw [roundedMantissa_eq]
  omega

/-! ## Rounding to a double -/

/-- The exponent at which a number has 53 binary digits, or that of the least numbers. -/
def target (m : Nat) (e : Int) : Int :=
  max (m.log2 + e - 52) (-1074)

/-- The mantissa shifted to the exponent where it is rounded. -/
def shifted (m : Nat) (e : Int) (a : Accuracy) : ExtendedMantissa :=
  ExtendedMantissa.ofMantissaAndAccuracy m a >>> (target m e - e).toNat

theorem targetExponent_eq (t : Int) : Format.binary64.targetExponent t = max (t - 53) (-1074) :=
  rfl

theorem mantissa_ofAccuracy (m : Nat) (a : Accuracy) :
    (ExtendedMantissa.ofMantissaAndAccuracy m a).mantissa = m := by
  cases a with
  | exact => rfl
  | inexact o => cases o <;> rfl

theorem mantissa_shifted (m : Nat) (e : Int) (a : Accuracy) :
    (shifted m e a).mantissa = m / 2 ^ (target m e - e).toNat := by
  rw [shifted, mantissa_shift, mantissa_ofAccuracy]

theorem shiftToTarget_eq (m : Nat) (e : Int) (a : Accuracy) :
    shiftToTargetExponent .binary64 m e a = (shifted m e a, max e (target m e)) := by
  have htarget : Format.binary64.targetExponent (totalExponent m e) = target m e := by
    rw [targetExponent_eq]
    unfold totalExponent target
    congr 1
    omega
  unfold shiftToTargetExponent shiftToExponent
  rw [htarget]
  show (shifted m e a, e + ((target m e - e).toNat : Int)) = _
  congr 1
  omega

theorem shifted_lt (m : Nat) (e : Int) (a : Accuracy) : (shifted m e a).mantissa < 2 ^ 53 := by
  have hdigits : m.log2 + 1 ≤ 53 + (target m e - e).toNat := by
    unfold target
    omega
  rw [mantissa_shifted, Nat.div_lt_iff_lt_mul (Nat.two_pow_pos _), ← Nat.pow_add]
  exact Nat.lt_of_lt_of_le Nat.lt_log2_self (Nat.pow_le_pow_right (by decide) hdigits)

/-- A mantissa of at most 53 digits stays as it is. -/
theorem shiftToTarget_small {m : Nat} {e : Int} (hm : m < 2 ^ 53) (he : -1074 ≤ e) :
    shiftToTargetExponent .binary64 m e .exact = (⟨m, false, false⟩, e) := by
  have hlog : m.log2 ≤ 52 := by
    by_cases hzero : m = 0
    · rw [hzero]
      decide
    · exact Nat.lt_succ_iff.1 ((Nat.log2_lt hzero).2 hm)
  have htarget : target m e ≤ e := by
    unfold target
    omega
  rw [shiftToTarget_eq, shifted, Int.toNat_of_nonpos (by omega), Int.max_eq_left htarget]
  rfl

/-- One digit too many is shifted out. -/
theorem shiftToTarget_carry {e : Int} (he : -1074 ≤ e) :
    shiftToTargetExponent .binary64 (2 ^ 53) e .exact = (⟨2 ^ 52, false, false⟩, e + 1) := by
  have htarget : target (2 ^ 53) e = e + 1 := by
    unfold target
    rw [Nat.log2_two_pow]
    omega
  rw [shiftToTarget_eq, shifted, htarget, show (e + 1 - e).toNat = 1 by omega,
    Int.max_eq_right (by omega)]
  rfl

/-- The rounded mantissa at its exponent; if it has become a power of two with 54 digits, half of it
at the next exponent. -/
theorem round_eq (s : Sign) (m : Nat) (e : Int) (a : Accuracy) :
    roundWithAccuracy .binary64 s m e a =
      if h : (shifted m e a).roundedMantissa = 0 then .zero s
      else if (shifted m e a).roundedMantissa < 2 ^ 53 then
        .finite s (shifted m e a).roundedMantissa (max e (target m e)) (Nat.pos_of_ne_zero h)
      else .finite s (2 ^ 52) (max e (target m e) + 1) (by decide) := by
  have hbound := (roundedMantissa_bounds (shifted m e a)).2
  have hlt := shifted_lt m e a
  have he : -1074 ≤ max e (target m e) := by
    unfold target
    omega
  unfold roundWithAccuracy
  rw [shiftToTarget_eq]
  dsimp only
  by_cases hsmall : (shifted m e a).roundedMantissa < 2 ^ 53
  · rw [shiftToTarget_small hsmall he]
    simp only [if_pos hsmall]
  · have hcarry : (shifted m e a).roundedMantissa = 2 ^ 53 := by omega
    rw [hcarry, shiftToTarget_carry he]
    rfl

end Double

end PropertyGraph
