import Mathlib.Algebra.Order.Field.Power
import Mathlib.Data.Rat.Cast.Order
import Mathlib.Tactic.FieldSimp
import Mathlib.Tactic.Linarith
import Mathlib.Tactic.Positivity
import Mathlib.Tactic.Ring
import PropertyGraph.Proofs.Calendar.Date

/-!
# Doubles as rational numbers

A finite double stands for a rational number, and the arithmetic on doubles rounds: to a multiple of
a power of two that leaves 53 binary digits, at most one half of that power away.  What is less than
a power of two is rounded in the 54th digit behind it or later, and integers of up to 53 digits are
not rounded at all.  A number in a text is the decimal of its digits, and is rounded once.

    value?                   the number that a finite double stands for
    Rounds                   how far a rounded number is from the exact one
    value?_nearest           the nearest double is rounded
    Rounds.abs_sub_le        by how much a number below a power of two is changed
    Rounds.eq_of_int         integers of up to 53 digits are not changed
    value?_times, value?_plus, value?_ofDecimal
                             products, sums and decimals are rounded
    value?_fraction          a double is its whole part and its fraction
    clamp_roundedMagnitude   the whole number nearest to a double
    value?_readDouble?_int   an integer read as a double
    value?_readDouble?_nine  a number with up to nine digits behind its point
-/

namespace PropertyGraph.Number

/-! ## Values -/

/-- The number that the parts of a finite double stand for. -/
def Parts.value? : Parts → Option ℚ
  | .finite negative m e => some (withSign negative m * (2 : ℚ) ^ e)
  | _ => none

/-- The number that a finite double stands for. -/
def value? (x : Double) : Option ℚ :=
  (parts x).value?

theorem scaleUp_div (n : Nat) (k : Int) :
    (scaleUp n k : ℚ) / (Nat.pow 2 (-k).toNat : ℕ) = n * (2 : ℚ) ^ k := by
  unfold scaleUp
  rcases Int.le_total 0 k with hk | hk
  · obtain ⟨j, rfl⟩ := Int.eq_ofNat_of_zero_le hk
    simp
  · obtain ⟨j, hj⟩ := Int.eq_ofNat_of_zero_le (Int.neg_nonneg.2 hk)
    obtain rfl : k = -(j : Int) := by omega
    simp [div_eq_mul_inv]

theorem scaleUp_pos {n : Nat} (hn : 0 < n) (k : Int) : 0 < scaleUp n k :=
  Nat.mul_pos hn (Nat.pow_pos (by decide))

/-- A quotient with a power of two moved from one side to the other. -/
theorem scaleUp_div_scaleUp (m n : Nat) (k : Int) :
    (scaleUp m (-k) : ℚ) / scaleUp n k = (m : ℚ) / n * (2 : ℚ) ^ (-k) := by
  unfold scaleUp
  rcases Int.le_total 0 k with hk | hk
  · obtain ⟨j, rfl⟩ := Int.eq_ofNat_of_zero_le hk
    simp [div_eq_mul_inv, mul_comm, mul_assoc]
  · obtain ⟨j, hj⟩ := Int.eq_ofNat_of_zero_le (Int.neg_nonneg.2 hk)
    obtain rfl : k = -(j : Int) := by omega
    simp [div_eq_mul_inv, mul_right_comm]

/-! ## Rounding -/

theorem roundDiv_bounds (num : Nat) {den : Nat} (hden : 0 < den) :
    2 * (den * roundDiv num den) ≤ 2 * num + den ∧
      2 * num ≤ 2 * (den * roundDiv num den) + den := by
  have hdiv : den * (num / den) + num % den = num := Nat.div_add_mod num den
  have hmod : num % den < den := Nat.mod_lt num hden
  unfold roundDiv
  dsimp only
  split
  · omega
  split
  · rw [Nat.mul_add]
    omega
  split
  · omega
  · rw [Nat.mul_add]
    omega

/-- A natural number is one half away from a quotient at most. -/
theorem abs_sub_div_le_half {q num den : Nat} (hden : 0 < den)
    (hlow : 2 * (den * q) ≤ 2 * num + den) (hhigh : 2 * num ≤ 2 * (den * q) + den) :
    |(q : ℚ) - num / den| ≤ 1 / 2 := by
  have hpos : (0 : ℚ) < den := by exact_mod_cast hden
  have hlow' : 2 * ((den : ℚ) * q) ≤ 2 * num + den := by exact_mod_cast hlow
  have hhigh' : 2 * (num : ℚ) ≤ 2 * (den * q) + den := by exact_mod_cast hhigh
  have hnum : (den : ℚ) * (num / den) = num := mul_div_cancel₀ _ hpos.ne'
  rw [abs_le]
  constructor <;> refine le_of_mul_le_mul_left ?_ hpos <;> rw [mul_sub] <;> linarith

/-- A rounded quotient is at most one half away. -/
theorem abs_roundDiv_sub_le (num : Nat) {den : Nat} (hden : 0 < den) :
    |(roundDiv num den : ℚ) - num / den| ≤ 1 / 2 :=
  abs_sub_div_le_half hden (roundDiv_bounds num hden).1 (roundDiv_bounds num hden).2

/-! ## The nearest double -/

section Nearest

variable {num den : Nat}

/-- The exponent of the leading binary digit of a quotient. -/
def top (num den : Nat) : Int :=
  let gap : Int := (Nat.log2 num : Int) - Nat.log2 den
  if scaleUp den gap ≤ scaleUp num (-gap) then gap else gap - 1

theorem zpow_log2_bounds {n : Nat} (hn : 0 < n) :
    (2 : ℚ) ^ (Nat.log2 n : Int) ≤ n ∧ (n : ℚ) < (2 : ℚ) ^ ((Nat.log2 n : Int) + 1) := by
  have hlow := Nat.log2_self_le hn.ne'
  have hhigh := Nat.lt_log2_self (n := n)
  constructor
  · exact_mod_cast hlow
  · exact_mod_cast hhigh

theorem top_bounds (hnum : 0 < num) (hden : 0 < den) :
    (2 : ℚ) ^ top num den ≤ num / den ∧ (num : ℚ) / den < (2 : ℚ) ^ (top num den + 1) := by
  obtain ⟨hnumLow, hnumHigh⟩ := zpow_log2_bounds hnum
  obtain ⟨hdenLow, hdenHigh⟩ := zpow_log2_bounds hden
  have hpos : (0 : ℚ) < den := by exact_mod_cast hden
  unfold top
  dsimp only
  generalize hgap : (Nat.log2 num : Int) - Nat.log2 den = gap
  have hscaled : scaleUp den gap ≤ scaleUp num (-gap) ↔ (2 : ℚ) ^ gap ≤ num / den := by
    have hquotient := scaleUp_div_scaleUp num den gap
    have hscale : (0 : ℚ) < scaleUp den gap := by exact_mod_cast scaleUp_pos hden gap
    rw [← Nat.cast_le (α := ℚ), ← one_le_div hscale, hquotient, zpow_neg, ← div_eq_mul_inv,
      one_le_div (by positivity)]
  split
  · next h =>
    refine ⟨hscaled.1 h, ?_⟩
    rw [div_lt_iff₀ hpos]
    calc (num : ℚ) < 2 ^ ((Nat.log2 num : Int) + 1) := hnumHigh
      _ = 2 ^ (gap + 1) * 2 ^ (Nat.log2 den : Int) := by
        rw [← zpow_add₀ (by norm_num)]
        congr 1
        omega
      _ ≤ 2 ^ (gap + 1) * den := by gcongr
  · next h =>
    refine ⟨?_, ?_⟩
    · rw [le_div_iff₀ hpos]
      calc (2 : ℚ) ^ (gap - 1) * den ≤ 2 ^ (gap - 1) * 2 ^ ((Nat.log2 den : Int) + 1) := by gcongr
        _ = 2 ^ (Nat.log2 num : Int) := by
          rw [← zpow_add₀ (by norm_num)]
          congr 1
          omega
        _ ≤ num := hnumLow
    · rw [sub_add_cancel]
      exact lt_of_not_ge (mt hscaled.2 h)

/-- The exponent of the last binary digit that a quotient keeps. -/
def lastPlace (num den : Nat) : Int := max (top num den - 52) (-1074)

/-- The quotient as a multiple of that power of two. -/
def mantissa (num den : Nat) : Nat :=
  roundDiv (scaleUp num (-lastPlace num den)) (scaleUp den (lastPlace num den))

theorem nearestBits_eq (num den : Nat) : nearestBits num den =
    min ((lastPlace num den + 1074).toNat * Nat.pow 2 52 + mantissa num den)
      (2047 * Nat.pow 2 52) := rfl

theorem abs_mantissa_sub_le (num : Nat) (hden : 0 < den) :
    |(mantissa num den : ℚ) - num / den * (2 : ℚ) ^ (-lastPlace num den)| ≤ 1 / 2 := by
  rw [← scaleUp_div_scaleUp]
  exact abs_roundDiv_sub_le _ (scaleUp_pos hden _)

/-- The mantissa has 53 digits at most, and no fewer where the quotient is not very small. -/
theorem mantissa_bounds (hnum : 0 < num) (hden : 0 < den) : mantissa num den ≤ 2 ^ 53 ∧
    (lastPlace num den = -1074 ∨ 2 ^ 52 ≤ mantissa num den ∧
      (2 : ℚ) ^ (lastPlace num den + 52) ≤ num / den) := by
  obtain ⟨hlow, hhigh⟩ := top_bounds hnum hden
  obtain ⟨hbelow, habove⟩ := abs_le.1 (abs_mantissa_sub_le num hden)
  have hplace : top num den - 52 ≤ lastPlace num den := Int.le_max_left _ _
  have hscaled : (num : ℚ) / den * 2 ^ (-lastPlace num den) ≤ 2 ^ 53 := by
    calc (num : ℚ) / den * 2 ^ (-lastPlace num den)
        ≤ 2 ^ (top num den + 1) * 2 ^ (-lastPlace num den) := by gcongr
      _ = 2 ^ (top num den + 1 - lastPlace num den) := by
        rw [← zpow_add₀ (by norm_num), ← sub_eq_add_neg]
      _ ≤ 2 ^ (53 : ℤ) := zpow_le_zpow_right₀ (by norm_num) (by omega)
  constructor
  · have hlt : (mantissa num den : ℚ) < 2 ^ 53 + 1 := by linarith
    exact Nat.lt_succ_iff.1 (by exact_mod_cast hlt)
  · by_cases hsmall : lastPlace num den = -1074
    · exact .inl hsmall
    have hlast : lastPlace num den = top num den - 52 := by
      unfold lastPlace at hsmall ⊢
      omega
    have hfull : (2 : ℚ) ^ (lastPlace num den + 52) ≤ num / den := by
      rwa [hlast, sub_add_cancel]
    refine .inr ⟨?_, hfull⟩
    have hscaled : (2 : ℚ) ^ 52 ≤ num / den * 2 ^ (-lastPlace num den) := by
      calc (2 : ℚ) ^ 52 = 2 ^ (52 : ℤ) := rfl
        _ = 2 ^ (lastPlace num den + 52) * 2 ^ (-lastPlace num den) := by
            rw [← zpow_add₀ (by norm_num)]
            congr 1
            omega
        _ ≤ num / den * 2 ^ (-lastPlace num den) := by gcongr
    have hlt : (2 : ℚ) ^ 52 < mantissa num den + 1 := by linarith
    exact Nat.lt_succ_iff.1 (by exact_mod_cast hlt)

end Nearest

/-- The bits of a sign, an exponent and a mantissa of up to 53 digits. -/
theorem value?_partsOfBits {j m : Nat} (negative : Bool) (hj : j < 2044) (hm : m ≤ 2 ^ 53)
    (hfull : j = 0 ∨ 2 ^ 52 ≤ m) :
    (partsOfBits ((if negative then Nat.pow 2 63 else 0) + (j * Nat.pow 2 52 + m))).value? =
      some (withSign negative m * (2 : ℚ) ^ ((j : Int) - 1074)) := by
  have hsign : ∀ n < 2 ^ 63, ∀ k : Bool,
      decide (Nat.pow 2 63 ≤ (if k then Nat.pow 2 63 else 0) + n) = k ∧
      ((if k then Nat.pow 2 63 else 0) + n) / Nat.pow 2 52 % Nat.pow 2 11 = n / 2 ^ 52 ∧
      ((if k then Nat.pow 2 63 else 0) + n) % Nat.pow 2 52 = n % 2 ^ 52 := by
    intro n hn k
    simp only [Nat.pow_eq] at hn ⊢
    cases k <;> simp <;> omega
  obtain ⟨hnegative, hbiased, hfraction⟩ := hsign (j * 2 ^ 52 + m) (by omega) negative
  unfold partsOfBits
  simp only [Nat.pow_eq] at hnegative hbiased hfraction ⊢
  rw [hnegative, hbiased, hfraction]
  rcases Nat.lt_or_ge m (2 ^ 52) with hsmall | hlarge
  · have hzero : (j * 2 ^ 52 + m) / 2 ^ 52 = 0 := by omega
    have hrest : (j * 2 ^ 52 + m) % 2 ^ 52 = m := by omega
    have hexponent : (j : Int) - 1074 = -1074 := by omega
    rw [hzero, hrest, hexponent, if_neg (by decide), if_pos rfl]
    rfl
  · rcases Nat.lt_or_eq_of_le hm with hless | rfl
    · have hnext : (j * 2 ^ 52 + m) / 2 ^ 52 = j + 1 := by omega
      have hrest : 2 ^ 52 + (j * 2 ^ 52 + m) % 2 ^ 52 = m := by omega
      rw [hnext, hrest, if_neg (by omega), if_neg (by omega)]
      have hexponent : ((j + 1 : ℕ) : Int) - 1075 = (j : Int) - 1074 := by omega
      rw [hexponent]
      rfl
    · -- a mantissa that is rounded up to the next power of two
      have hnext : (j * 2 ^ 52 + 2 ^ 53) / 2 ^ 52 = j + 2 := by omega
      have hrest : 2 ^ 52 + (j * 2 ^ 52 + 2 ^ 53) % 2 ^ 52 = 2 ^ 52 := by omega
      rw [hnext, hrest, if_neg (by omega), if_neg (by omega)]
      have hexponent : ((j + 2 : ℕ) : Int) - 1075 = ((j : Int) - 1074) + 1 := by omega
      rw [hexponent]
      show some _ = some _
      rw [zpow_add_one₀ (by norm_num)]
      cases negative <;> simp [withSign] <;> ring

/-- A number is rounded to a multiple of a power of two, of which it has 53 binary digits or, where
that power is the least one, fewer. -/
def Rounds (p r : ℚ) : Prop :=
  ∃ m e : ℤ, r = m * (2 : ℚ) ^ e ∧ |r - p| ≤ (2 : ℚ) ^ e / 2 ∧ -1074 ≤ e ∧
    (e = -1074 ∨ (2 : ℚ) ^ (e + 52) ≤ |p|)

theorem rounds_zero : Rounds 0 0 :=
  ⟨0, -1074, by simp, by simp; positivity, le_rfl, .inl rfl⟩

theorem parts_ofBits (negative : Bool) {bits : Nat} (h : bits < 2 ^ 63) :
    parts ⟨.ofNat (if negative then Nat.pow 2 63 + bits else bits)⟩ =
      partsOfBits ((if negative then Nat.pow 2 63 else 0) + bits) := by
  have hsum : (if negative then Nat.pow 2 63 + bits else bits) =
      (if negative then Nat.pow 2 63 else 0) + bits := by
    cases negative <;> simp
  have hsize : (if negative then Nat.pow 2 63 else 0) + bits < 2 ^ 64 := by
    simp only [Nat.pow_eq]
    cases negative <;> simp <;> omega
  unfold parts
  rw [hsum, UInt64.toNat_ofNat_of_lt' hsize]

theorem abs_withSign_sub (negative : Bool) (m n : Nat) (a b : ℚ) :
    |(withSign negative m : ℚ) * a - (withSign negative n : ℚ) / b| = |m * a - n / b| := by
  cases negative with
  | false => rfl
  | true =>
    have hneg : ((withSign true m : ℤ) : ℚ) * a - ((withSign true n : ℤ) : ℚ) / b =
        -(m * a - n / b) := by
      simp only [withSign, if_true, Int.cast_neg, Int.cast_natCast]
      ring
    rw [hneg, abs_neg]

theorem abs_withSign_div (negative : Bool) (n : Nat) (b : ℚ) :
    |(withSign negative n : ℚ) / b| = |(n : ℚ) / b| := by
  have h := abs_withSign_sub negative 0 n 0 b
  simpa using h

/-- The nearest double is rounded as it has to be, unless the number is too large. -/
theorem value?_nearest {p : ℚ} {negative : Bool} {num den : Nat} (hden : 0 < den)
    (hp : (withSign negative num : ℚ) / den = p) (hsize : |p| < (2 : ℚ) ^ (128 : ℤ)) :
    ∃ r, value? (nearest negative num den) = some r ∧ Rounds p r := by
  subst hp
  rw [abs_withSign_div, abs_of_nonneg (by positivity)] at hsize
  unfold value? nearest
  rcases Nat.eq_zero_or_pos num with rfl | hnum
  · have hvalue := value?_partsOfBits (m := 0) (j := 0) negative (by decide) (by decide) (.inl rfl)
    refine ⟨0, ?_, ?_⟩
    · rw [if_pos (.inl rfl), parts_ofBits negative (by decide)]
      refine hvalue.trans (congrArg some ?_)
      cases negative <;> simp [withSign]
    · have hzero : (withSign negative 0 : ℚ) / den = 0 := by cases negative <;> simp [withSign]
      rw [hzero]
      exact rounds_zero
  · obtain ⟨hmantissa, hfull⟩ := mantissa_bounds hnum hden
    have herror := abs_mantissa_sub_le num hden
    have hleast : -1074 ≤ lastPlace num den := Int.le_max_right _ _
    rw [if_neg (by omega), nearestBits_eq]
    generalize lastPlace num den = e at hfull herror hleast ⊢
    generalize mantissa num den = m at hmantissa hfull herror ⊢
    have hplace : e < 76 := by
      rcases hfull with rfl | ⟨-, hfull⟩
      · decide
      · have := (zpow_lt_zpow_iff_right₀ (by norm_num)).1 (hfull.trans_lt hsize)
        omega
    have hbits : min ((e + 1074).toNat * Nat.pow 2 52 + m) (2047 * Nat.pow 2 52) =
        (e + 1074).toNat * Nat.pow 2 52 + m := by
      simp only [Nat.pow_eq]
      omega
    have hvalue := value?_partsOfBits (j := (e + 1074).toNat) (m := m) negative (by omega) hmantissa
      (hfull.imp (by omega) And.left)
    have hexponent : ((e + 1074).toNat : Int) - 1074 = e := by omega
    rw [hexponent] at hvalue
    refine ⟨withSign negative m * 2 ^ e, ?_, withSign negative m, e, rfl, ?_, hleast, ?_⟩
    · rw [hbits, parts_ofBits negative (by simp only [Nat.pow_eq]; omega)]
      exact hvalue
    · have hscaled : (m : ℚ) * 2 ^ e - num / den = (m - num / den * 2 ^ (-e)) * 2 ^ e := by
        rw [sub_mul, mul_assoc, ← zpow_add₀ (by norm_num), neg_add_cancel, zpow_zero, mul_one]
      have hpos : (0 : ℚ) < 2 ^ e := by positivity
      rw [abs_withSign_sub, hscaled, abs_mul, abs_of_pos hpos]
      calc |(m : ℚ) - num / den * 2 ^ (-e)| * 2 ^ e ≤ 1 / 2 * 2 ^ e := by gcongr
        _ = 2 ^ e / 2 := by ring
    · rw [abs_withSign_div, abs_of_nonneg (by positivity)]
      exact hfull.imp id And.right

/-! ## What rounding means -/

/-- The magnitude of an integer, as a rational number. -/
theorem abs_cast_le_iff {n : ℤ} {k : ℕ} : |(n : ℚ)| ≤ k ↔ n.natAbs ≤ k := by
  rw [← Int.cast_abs, Int.abs_eq_natAbs, Int.cast_natCast, Nat.cast_le]

/-- Integers less than one apart are the same. -/
theorem int_eq_of_abs_sub_lt_one {m n : ℤ} (h : |(m : ℚ) - n| < 1) : m = n := by
  have hint : |m - n| < 1 := by exact_mod_cast h
  exact Int.sub_eq_zero.1 (Int.abs_lt_one_iff.1 hint)

namespace Rounds

variable {p r : ℚ}

/-- A number below a power of two is rounded by at most the 54th binary digit. -/
theorem abs_sub_le (h : Rounds p r) {k : ℤ} (hp : |p| < (2 : ℚ) ^ k) (hk : -1021 ≤ k) :
    |r - p| ≤ (2 : ℚ) ^ (k - 54) := by
  obtain ⟨m, e, -, herror, hleast, hfull⟩ := h
  have hplace : e ≤ k - 53 := by
    rcases hfull with rfl | hfull
    · omega
    · have := (zpow_lt_zpow_iff_right₀ (by norm_num)).1 (hfull.trans_lt hp)
      omega
  calc |r - p| ≤ 2 ^ e / 2 := herror
    _ ≤ 2 ^ (k - 53) / 2 := by gcongr; norm_num
    _ = 2 ^ (k - 54) := by
      rw [show k - 53 = (k - 54) + 1 by ring, zpow_add_one₀ (by norm_num)]
      ring

/-- Two multiples of a power of two at most half of it apart are the same. -/
theorem eq_of_abs_sub_le {m k e : ℤ} (h : |m * (2 : ℚ) ^ e - k * (2 : ℚ) ^ e| ≤ (2 : ℚ) ^ e / 2) :
    m = k := by
  have hpos : (0 : ℚ) < 2 ^ e := by positivity
  rw [← sub_mul, abs_mul, abs_of_pos hpos, div_eq_mul_inv, mul_comm] at h
  exact int_eq_of_abs_sub_lt_one ((le_of_mul_le_mul_left h hpos).trans_lt (by norm_num))

/-- An integer of up to 53 binary digits is not rounded. -/
theorem eq_of_int {n : ℤ} (h : Rounds n r) (hn : n.natAbs ≤ 2 ^ 53) : r = n := by
  replace hn : |n| ≤ 2 ^ 53 := by
    rw [Int.abs_eq_natAbs]
    exact_mod_cast hn
  obtain ⟨m, e, rfl, herror, hleast, hfull⟩ := h
  have hmultiple : ∃ k : ℤ, (n : ℚ) = k * 2 ^ e := by
    rcases le_or_gt e 0 with he | he
    · obtain ⟨j, hj⟩ := Int.eq_ofNat_of_zero_le (Int.neg_nonneg.2 he)
      obtain rfl : e = -(j : ℤ) := by omega
      refine ⟨n * 2 ^ j, ?_⟩
      rw [zpow_neg, zpow_natCast, Int.cast_mul, Int.cast_pow, Int.cast_ofNat,
        mul_inv_cancel_right₀ (by positivity)]
    · -- the one number of 54 digits
      have hfull := hfull.resolve_left (by omega)
      have hsize : |(n : ℚ)| ≤ 2 ^ (53 : ℤ) := by exact_mod_cast hn
      have hle := (zpow_le_zpow_iff_right₀ (by norm_num)).1 (hfull.trans hsize)
      obtain rfl : e = 1 := by omega
      have heq : |n| = 2 ^ 53 := by
        refine le_antisymm hn ?_
        have hfull : (2 : ℚ) ^ (53 : ℤ) ≤ |(n : ℚ)| := hfull
        exact_mod_cast hfull
      rcases (abs_eq (by norm_num)).1 heq with rfl | rfl
      · exact ⟨2 ^ 52, by norm_num⟩
      · exact ⟨-2 ^ 52, by norm_num⟩
  obtain ⟨k, hk⟩ := hmultiple
  rw [hk] at herror ⊢
  rw [eq_of_abs_sub_le herror]

end Rounds

/-! ## Sums and multiples -/

section Arithmetic

variable {x y : Double} {a b : ℚ}

theorem value?_eq_some (h : value? x = some a) : ∃ negative m e, parts x = .finite negative m e ∧
    a = withSign negative m * (2 : ℚ) ^ e := by
  unfold value? at h
  cases hparts : parts x with
  | nan => rw [hparts] at h; cases h
  | infinite negative => rw [hparts] at h; cases h
  | finite negative m e => rw [hparts] at h; cases h; exact ⟨negative, m, e, rfl, rfl⟩

theorem withSign_scaleUp (negative : Bool) (m : Nat) (k : Int) :
    ((withSign negative (scaleUp m k) : ℤ) : ℚ) / (Nat.pow 2 (-k).toNat : ℕ) =
      withSign negative m * (2 : ℚ) ^ k := by
  have h := scaleUp_div m k
  cases negative with
  | false => exact h
  | true =>
    simp only [withSign, if_true, Int.cast_neg, Int.cast_natCast, neg_div, neg_mul]
    rw [h]

theorem withSign_natAbs (n : Int) (zero : Bool) :
    withSign (n < 0 || n == 0 && zero) n.natAbs = n := by
  unfold withSign
  rcases lt_trichotomy n 0 with hn | rfl | hn
  · rw [decide_eq_true hn, Bool.true_or, if_pos rfl]
    omega
  · simp
  · rw [decide_eq_false (by omega), beq_false_of_ne (by omega), Bool.false_and, Bool.false_or,
      if_neg Bool.false_ne_true]
    omega

/-- A multiple of a double is rounded. -/
theorem value?_times (h : value? x = some a) (k : Nat) (hsize : |a * k| < (2 : ℚ) ^ (128 : ℤ)) :
    ∃ r, value? (times x k) = some r ∧ Rounds (a * k) r := by
  obtain ⟨negative, m, e, hparts, rfl⟩ := value?_eq_some h
  have hproduct : ((withSign negative (scaleUp (m * k) e) : ℤ) : ℚ) / (Nat.pow 2 (-e).toNat : ℕ) =
      withSign negative m * 2 ^ e * k := by
    rw [withSign_scaleUp]
    cases negative <;> simp [withSign] <;> ring
  unfold times
  rw [hparts]
  exact value?_nearest (Nat.pow_pos (by decide)) hproduct hsize

/-- A sum of doubles is rounded. -/
theorem value?_plus (hx : value? x = some a) (hy : value? y = some b)
    (hsize : |a + b| < (2 : ℚ) ^ (128 : ℤ)) :
    ∃ r, value? (plus x y) = some r ∧ Rounds (a + b) r := by
  obtain ⟨negative, m, e, hpartsx, rfl⟩ := value?_eq_some hx
  obtain ⟨negative', m', e', hpartsy, rfl⟩ := value?_eq_some hy
  -- the two mantissas on the lower of the two exponents
  have hscaled : ∀ (s : Bool) (n : Nat) (k : Int), min e e' ≤ k →
      ((withSign s (scaleUp n (k - min e e')) : ℤ) : ℚ) * 2 ^ min e e' = withSign s n * 2 ^ k := by
    intro s n k hk
    have h := withSign_scaleUp s n (k - min e e')
    have hnone : (-(k - min e e')).toNat = 0 := by omega
    rw [hnone] at h
    rw [show ((withSign s (scaleUp n (k - min e e')) : ℤ) : ℚ) = _ by simpa using h, mul_assoc,
      ← zpow_add₀ (by norm_num), sub_add_cancel]
  unfold plus
  rw [hpartsx, hpartsy]
  dsimp only
  generalize htotal : withSign negative (scaleUp m (e - min e e')) +
    withSign negative' (scaleUp m' (e' - min e e')) = total
  refine value?_nearest (Nat.pow_pos (by decide)) ?_ hsize
  rw [withSign_scaleUp, Bool.and_assoc, withSign_natAbs, ← htotal, Int.cast_add, add_mul,
    hscaled _ _ _ (Int.min_le_left _ _), hscaled _ _ _ (Int.min_le_right _ _)]

/-! ## Whole parts and fractions -/

/-- A double is its whole part and its fraction, each with its sign. -/
theorem value?_fraction (h : value? x = some a) : ∃ w : ℤ, |a - w| < 1 ∧ |(w : ℚ)| ≤ |a| ∧
    (∃ r, value? (fraction x) = some r ∧ Rounds (a - w) r) ∧
    ∀ low high, low ≤ w → w ≤ high → (parts x).clamp low high (parts x).wholeMagnitude = w := by
  obtain ⟨negative, m, e, hparts, rfl⟩ := value?_eq_some h
  have hden : 0 < Nat.pow 2 (-e).toNat := Nat.pow_pos (by decide)
  rw [← withSign_scaleUp]
  unfold fraction
  rw [hparts]
  dsimp only [Parts.wholeMagnitude, Parts.clamp]
  generalize scaleUp m e = num
  generalize Nat.pow 2 (-e).toNat = den at *
  have hpos : (0 : ℚ) < den := by exact_mod_cast hden
  have hdiv : (num : ℚ) / den = (num / den : ℕ) + (num % den : ℕ) / (den : ℚ) := by
    rw [eq_comm, ← mul_left_inj' hpos.ne', add_mul, div_mul_cancel₀ _ hpos.ne',
      div_mul_cancel₀ _ hpos.ne']
    exact_mod_cast Nat.div_add_mod' num den
  have hrest : ((withSign negative num : ℤ) : ℚ) / den - (withSign negative (num / den) : ℤ) =
      ((withSign negative (num % den) : ℤ) : ℚ) / den := by
    cases negative with
    | false =>
      show (num : ℚ) / den - (num / den : ℕ) = (num % den : ℕ) / (den : ℚ)
      rw [hdiv, add_sub_cancel_left]
    | true =>
      simp only [withSign, if_true, Int.cast_neg, Int.cast_natCast, neg_div]
      rw [hdiv]
      ring
  have hless : |((withSign negative (num % den) : ℤ) : ℚ) / den| < 1 := by
    rw [abs_withSign_div, abs_of_nonneg (by positivity), div_lt_one hpos]
    exact_mod_cast Nat.mod_lt num hden
  refine ⟨withSign negative (num / den), hrest ▸ hless, ?_, ?_, fun low high hlow hhigh => by omega⟩
  · have hwhole := abs_withSign_div negative (num / den) 1
    rw [div_one, div_one] at hwhole
    rw [hwhole, abs_withSign_div, hdiv, abs_of_nonneg (by positivity),
      abs_of_nonneg (by positivity)]
    exact le_add_of_nonneg_right (by positivity)
  · rw [hrest]
    exact value?_nearest hden rfl (hless.trans (by norm_num))

/-- A double is rounded to a whole number at most one half away. -/
theorem clamp_roundedMagnitude (h : value? x = some a) : ∃ n : ℤ, |(n : ℚ) - a| ≤ 1 / 2 ∧
    ∀ low high, low ≤ n → n ≤ high → (parts x).clamp low high (parts x).roundedMagnitude = n := by
  obtain ⟨negative, m, e, hparts, rfl⟩ := value?_eq_some h
  have hden : 0 < Nat.pow 2 (-e).toNat := Nat.pow_pos (by decide)
  rw [← withSign_scaleUp, hparts]
  dsimp only [Parts.roundedMagnitude, Parts.clamp]
  generalize scaleUp m e = num
  generalize Nat.pow 2 (-e).toNat = den at *
  have hpos : (0 : ℚ) < den := by exact_mod_cast hden
  generalize hq : (2 * num + den) / (2 * den) = q
  refine ⟨withSign negative q, ?_, fun low high hlow hhigh => by omega⟩
  have hdiv : 2 * den * q + (2 * num + den) % (2 * den) = 2 * num + den := hq ▸ Nat.div_add_mod _ _
  have hmod : (2 * num + den) % (2 * den) < 2 * den := Nat.mod_lt _ (by omega)
  have hlow : 2 * (den * q) ≤ 2 * num + den := by rw [← Nat.mul_assoc]; omega
  have hhigh : 2 * num ≤ 2 * (den * q) + den := by rw [← Nat.mul_assoc]; omega
  have hsign := abs_withSign_sub negative q num 1 den
  rw [mul_one, mul_one] at hsign
  rw [hsign]
  exact abs_sub_div_le_half hden hlow hhigh

end Arithmetic

/-! ## Decimals -/

theorem ofDigits_dropWhile_zero (digits : List Char) :
    ofDigits (digits.dropWhile (· == '0')) = ofDigits digits := by
  induction digits with
  | nil => rfl
  | cons c rest ih =>
    rw [List.dropWhile_cons]
    split
    · next hc =>
      rw [ih, beq_iff_eq.1 hc]
      rfl
    · rfl

/-- A decimal with at most so many digits behind its point is rounded. -/
theorem value?_ofDecimal (negative : Bool) {digits : List Char} {k : Nat}
    (hlength : digits.length ≤ 400) (hk : k ≤ 400)
    (hsize : (ofDigits digits : ℚ) / 10 ^ k < (2 : ℚ) ^ (128 : ℤ)) :
    ∃ r, value? (ofDecimal negative digits (-(k : Int))) = some r ∧
      Rounds ((withSign negative (ofDigits digits) : ℚ) / 10 ^ k) r := by
  have hdropped := (digits.dropWhile_suffix (· == '0')).length_le
  unfold ofDecimal
  dsimp only
  rw [ofDigits_dropWhile_zero]
  generalize (digits.dropWhile (· == '0')).length = significant at hdropped ⊢
  by_cases hzero : ofDigits digits = 0
  · rw [if_pos (.inl hzero), hzero]
    have hvalue : (withSign negative 0 : ℚ) / (1 : ℕ) = withSign negative 0 / 10 ^ k := by
      cases negative <;> simp [withSign]
    exact value?_nearest (by decide) hvalue (by cases negative <;> simp [withSign])
  · rw [if_neg (by omega), if_neg (by omega)]
    have hwhole : (-(k : Int)).toNat = 0 := by omega
    have hplaces : (-(-(k : Int))).toNat = k := by omega
    rw [hwhole, hplaces]
    simp only [Nat.pow_eq, Nat.pow_zero, Nat.mul_one]
    refine value?_nearest (Nat.pow_pos (by decide)) (by push_cast; rfl) ?_
    rw [abs_withSign_div, abs_of_nonneg (by positivity)]
    exact hsize

/-! ## Numbers read -/

/-- A number without a point. -/
theorem readDouble?_whole (negative : Bool) {whole : List Char} (hne : whole ≠ [])
    (hwhole : ∀ c ∈ whole, c.isDigit = true) :
    readDouble? (String.ofList (signChars negative ++ whole)) =
      some (ofDecimal negative whole (-((0 : ℕ) : Int))) := by
  have hsign := takeSign_append negative hne hwhole []
  obtain ⟨htake, hdrop⟩ := span_digits hwhole [] nofun
  rw [List.append_nil] at hsign htake hdrop
  have hmagnitude : readMagnitude? negative whole =
      some (ofDecimal negative whole (-((0 : ℕ) : Int))) := by
    unfold readMagnitude?
    simp only [htake, hdrop, List.append_nil]
    rw [if_neg (by simpa using hne)]
    rfl
  unfold readDouble?
  rw [String.toList_ofList, hsign]
  dsimp only
  rw [hmagnitude]
  rfl

/-- A number with a point. -/
theorem readDouble?_point (negative : Bool) {whole fraction : List Char} (hne : whole ≠ [])
    (hwhole : ∀ c ∈ whole, c.isDigit = true) (hfraction : ∀ c ∈ fraction, c.isDigit = true) :
    readDouble? (String.ofList (signChars negative ++ (whole ++ '.' :: fraction))) =
      some (ofDecimal negative (whole ++ fraction) (-(fraction.length : Int))) := by
  obtain ⟨htake, hdrop⟩ := span_digits hwhole ('.' :: fraction)
    fun c hc => Option.some.inj hc ▸ rfl
  obtain ⟨htakeRest, hdropRest⟩ := span_digits hfraction [] nofun
  rw [List.append_nil] at htakeRest hdropRest
  have hmagnitude : readMagnitude? negative (whole ++ '.' :: fraction) =
      some (ofDecimal negative (whole ++ fraction) (-(fraction.length : Int))) := by
    unfold readMagnitude?
    simp only [htake, hdrop, htakeRest, hdropRest]
    rw [if_neg (by simp [hne])]
    show some (ofDecimal negative (whole ++ fraction) (0 - (fraction.length : Int))) = _
    rw [Int.zero_sub]
  unfold readDouble?
  rw [String.toList_ofList, takeSign_append negative hne hwhole ('.' :: fraction)]
  dsimp only
  rw [hmagnitude]
  rfl

theorem abs_int_lt {n : Int} (hn : n.natAbs ≤ 2 ^ 53) : |(n : ℚ)| < (2 : ℚ) ^ (128 : ℤ) :=
  (abs_cast_le_iff.2 hn).trans_lt (by norm_num)

/-- An integer of up to 53 binary digits is read as it is. -/
theorem value?_readDouble?_int {n : Int} (hn : n.natAbs ≤ 2 ^ 53) :
    ∃ x, readDouble? (toString n) = some x ∧ value? x = some (n : ℚ) := by
  have htext : toString n = String.ofList (signChars (n < 0) ++ Nat.toDigits 10 n.natAbs) := by
    rw [← toList_toString_int, String.ofList_toList]
  have hread := readDouble?_whole (n < 0) (Nat.toDigits_ne_nil (b := 10) (n := n.natAbs))
    fun c => isDigit_of_mem_toDigits
  have hlength : (Nat.toDigits 10 n.natAbs).length ≤ 16 :=
    length_toDigits_le (by decide) (by omega)
  have hsmall : (ofDigits (Nat.toDigits 10 n.natAbs) : ℚ) / 10 ^ 0 < (2 : ℚ) ^ (128 : ℤ) := by
    have hle : (n.natAbs : ℚ) ≤ 2 ^ 53 := by exact_mod_cast hn
    rw [ofDigits_toDigits, pow_zero, div_one]
    exact hle.trans_lt (by norm_num)
  obtain ⟨r, hvalue, hrounds⟩ :=
    value?_ofDecimal (n < 0) (hlength.trans (by decide)) (by decide) hsmall
  have hself : (withSign (n < 0) (ofDigits (Nat.toDigits 10 n.natAbs)) : ℚ) / 10 ^ 0 = n := by
    have := withSign_natAbs n false
    simp only [Bool.and_false, Bool.or_false] at this
    rw [ofDigits_toDigits, this, pow_zero, div_one]
  rw [hself] at hrounds
  exact ⟨_, htext ▸ hread, hrounds.eq_of_int hn ▸ hvalue⟩

theorem withSign_div_congr (negative : Bool) {m n : Nat} {a b : ℚ} (h : (m : ℚ) / a = n / b) :
    (withSign negative m : ℚ) / a = withSign negative n / b := by
  cases negative with
  | false => exact h
  | true =>
    show ((-(m : ℤ) : ℤ) : ℚ) / a = ((-(n : ℤ) : ℤ) : ℚ) / b
    rw [Int.cast_neg, Int.cast_neg, neg_div, neg_div]
    exact congrArg Neg.neg h

/-- A number with a sign and nine digits behind the point, some of which may be dropped. -/
def nineChars (negative : Bool) (m n : Nat) : List Char :=
  signChars negative ++ (Nat.toDigits 10 m ++ '.' :: dropZeros (Date.paddedDigits 9 n))

theorem mem_nineChars {negative : Bool} {m n : Nat} {c : Char} (hc : c ∈ nineChars negative m n) :
    (c.isDigit || c == '-' || c == '.') = true := by
  rcases List.mem_append.1 hc with hc | hc
  · rw [mem_signChars hc]
    rfl
  rcases List.mem_append.1 hc with hc | hc
  · rw [isDigit_of_mem_toDigits hc]
    rfl
  rcases List.mem_cons.1 hc with rfl | hc
  · rfl
  · rw [Date.isDigit_of_mem_paddedDigits (mem_of_mem_dropZeros hc)]
    rfl

/-- Such a number is read and rounded. -/
theorem value?_readDouble?_nine (negative : Bool) {m n : Nat} (hm : m < 10 ^ 9) (hn : n < 10 ^ 9) :
    ∃ x r, readDouble? (String.ofList (nineChars negative m n)) = some x ∧ value? x = some r ∧
      Rounds ((withSign negative (m * 10 ^ 9 + n) : ℚ) / 10 ^ 9) r := by
  obtain ⟨k, hlength, hdigits⟩ := ofDigits_dropZeros (Date.paddedDigits 9 n)
  have hnine := Date.length_paddedDigits (w := 9) (by decide) hn
  have hwhole : (Nat.toDigits 10 m).length ≤ 9 := length_toDigits_le (by decide) hm
  have hfraction : ∀ c ∈ dropZeros (Date.paddedDigits 9 n), c.isDigit = true := fun c hc =>
    Date.isDigit_of_mem_paddedDigits (mem_of_mem_dropZeros hc)
  have hread := readDouble?_point negative (Nat.toDigits_ne_nil (b := 10) (n := m))
    (fun c => isDigit_of_mem_toDigits) hfraction
  rw [Date.ofDigits_paddedDigits] at hdigits
  unfold nineChars
  generalize dropZeros (Date.paddedDigits 9 n) = fraction at *
  have hquotient : (ofDigits (Nat.toDigits 10 m ++ fraction) : ℚ) / 10 ^ fraction.length =
      (m * 10 ^ 9 + n : ℕ) / 10 ^ 9 := by
    have hplaces : 10 ^ 9 = 10 ^ fraction.length * 10 ^ k := by
      rw [← Nat.pow_add, ← hlength, hnine]
    rw [ofDigits_append, ofDigits_toDigits, hdigits, hplaces, ← Nat.mul_assoc, ← Nat.add_mul,
      show (10 : ℚ) ^ 9 = 10 ^ fraction.length * 10 ^ k by exact_mod_cast hplaces]
    push_cast
    rw [mul_div_mul_right _ _ (by positivity)]
  have hsmall : (ofDigits (Nat.toDigits 10 m ++ fraction) : ℚ) / 10 ^ fraction.length <
      (2 : ℚ) ^ (128 : ℤ) := by
    have hle : ((m * 10 ^ 9 + n : ℕ) : ℚ) ≤ (10 ^ 18 : ℕ) := Nat.cast_le.2 (by omega)
    rw [hquotient]
    calc ((m * 10 ^ 9 + n : ℕ) : ℚ) / 10 ^ 9 ≤ (10 ^ 18 : ℕ) / 10 ^ 9 := by gcongr
      _ < 2 ^ (128 : ℤ) := by norm_num
  obtain ⟨r, hvalue, hrounds⟩ := value?_ofDecimal negative
    (by rw [List.length_append]; omega) (by omega) hsmall
  exact ⟨_, r, hread, hvalue, withSign_div_congr negative hquotient ▸ hrounds⟩

end PropertyGraph.Number
