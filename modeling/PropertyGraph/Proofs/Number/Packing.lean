import Mathlib.Algebra.Group.Nat.Defs
import PropertyGraph.Number.Double

/-!
# The bits of a double

The bits of a double are a sign, an exponent of 11 bits and a mantissa of 52.  The machine computes
with the number that they stand for, and packs its results again.

    Double.unpack_eq           the number of some bits, by the three parts
    Double.pack_unpack         a number read from bits is packed to these bits
    Double.isNaN_iff           the bits beyond those of the infinities are no number
    Double.unpacked_ofFloat    a result of the machine is kept
    Double.unpacked_neg        changing the sign bit changes the sign
-/

namespace PropertyGraph

namespace Double

open Float.Model
open Float.Model.UnpackedFloat hiding pack unpack

/-! ## The three parts of the bits -/

theorem mantissa_toNat (b : BitVec 64) :
    (@unpackMantissa .binary64 b).toNat = b.toNat % 2 ^ 52 := by
  simp [unpackMantissa]

theorem exponent_toNat (b : BitVec 64) :
    (@unpackExponent .binary64 b).toNat = b.toNat / 2 ^ 52 % 2 ^ 11 := by
  simp [unpackExponent, Nat.shiftRight_eq_div_pow]

theorem sign_toNat (b : BitVec 64) :
    (@unpackSign .binary64 b).toNat = b.toNat / 2 ^ 63 := by
  have hb : b.toNat < 2 ^ 64 := b.isLt
  show b.toNat >>> 63 % 2 ^ 1 = b.toNat / 2 ^ 63
  rw [Nat.shiftRight_eq_div_pow]
  omega

theorem components_toNat (s : Sign) (e : BitVec 11) (m : BitVec 52) :
    (packComponents .binary64 s e m).toNat =
      s.toBitVec.toNat * 2 ^ 63 + e.toNat * 2 ^ 52 + m.toNat := by
  unfold packComponents
  rw [BitVec.toNat_append, ← Nat.shiftLeft_add_eq_or_of_lt m.isLt, BitVec.toNat_append,
    ← Nat.shiftLeft_add_eq_or_of_lt e.isLt]
  simp only [Nat.shiftLeft_eq]
  omega

theorem sign_ofBitVec (b : BitVec 1) : (Sign.ofBitVec b).toBitVec = b := by
  revert b
  decide

/-- The parts of some bits make up the bits again. -/
theorem components_unpack (b : BitVec 64) :
    packComponents .binary64 (.ofBitVec (@unpackSign .binary64 b))
      (@unpackExponent .binary64 b) (@unpackMantissa .binary64 b) = b := by
  have hb : b.toNat < 2 ^ 64 := b.isLt
  apply BitVec.eq_of_toNat_eq
  rw [components_toNat, sign_ofBitVec, sign_toNat, exponent_toNat, mantissa_toNat]
  omega

/-! ## Packing -/

/-- The number that a sign, an exponent and a mantissa stand for. -/
def ofParts (s : Sign) (e : BitVec 11) (m : BitVec 52) : UnpackedFloat :=
  if e = -1#11 then
    if m = 0#52 then .infinity s else .notANumber
  else if e = 0#11 then
    if h : 0 < m.toNat then .finite s m.toNat (-1074) h else .zero s
  else
    .finite s (2 ^ 52 + m.toNat) (e.toNat - 1075) (by omega)

theorem append_one (m : BitVec 52) : (1#1 ++ m).toNat = 2 ^ 52 + m.toNat := by
  rw [BitVec.toNat_append, ← Nat.shiftLeft_add_eq_or_of_lt m.isLt]
  rfl

theorem toNat_pos_of_ne {m : BitVec 52} (h : m ≠ 0#52) : 0 < m.toNat :=
  Nat.pos_of_ne_zero fun hzero => h (BitVec.eq_of_toNat_eq hzero)

theorem finite_congr {s : Sign} {m m' : Nat} {e e' : Int} {hm : 0 < m} {hm' : 0 < m'}
    (h : m = m') (h' : e = e') : UnpackedFloat.finite s m e hm = .finite s m' e' hm' := by
  subst h h'
  rfl

theorem unpack_eq (b : BitVec 64) :
    UnpackedFloat.unpack .binary64 b =
      ofParts (.ofBitVec (@unpackSign .binary64 b))
        (@unpackExponent .binary64 b) (@unpackMantissa .binary64 b) := by
  unfold UnpackedFloat.unpack ofParts
  by_cases hlast : @unpackExponent .binary64 b = -1#11
  · rw [if_pos hlast, if_pos hlast]
  · rw [if_neg hlast, if_neg hlast]
    by_cases hlow : @unpackExponent .binary64 b = 0#11
    · rw [if_pos hlow, if_pos hlow]
      by_cases hzero : @unpackMantissa .binary64 b = 0#52
      · rw [dif_pos hzero, dif_neg (by rw [hzero]; decide)]
      · rw [dif_neg hzero, dif_pos (toNat_pos_of_ne hzero)]
        exact finite_congr rfl (by rw [hlow]; rfl)
    · rw [if_neg hlow, if_neg hlow]
      exact finite_congr (append_one _) rfl

theorem log2_normal {m : Nat} (h : m < 2 ^ 52) : (2 ^ 52 + m).log2 = 52 :=
  (Nat.log2_eq_iff (by omega)).2 ⟨by omega, by omega⟩

theorem pack_ofParts (s : Sign) (e : BitVec 11) (m : BitVec 52) (h : ofParts s e m ≠ .notANumber) :
    UnpackedFloat.pack .binary64 (ofParts s e m) = packComponents .binary64 s e m := by
  have he := e.isLt
  have hm := m.isLt
  unfold ofParts at h ⊢
  by_cases hlast : e = -1#11
  · rw [if_pos hlast] at h ⊢
    by_cases hzero : m = 0#52
    · rw [if_pos hzero, hlast, hzero]
      rfl
    · rw [if_neg hzero] at h
      exact absurd rfl h
  · rw [if_neg hlast]
    by_cases hlow : e = 0#11
    · rw [if_pos hlow]
      by_cases hpos : 0 < m.toNat
      · have hlog : m.toNat.log2 < 52 := (Nat.log2_lt (Nat.ne_of_gt hpos)).2 hm
        rw [dif_pos hpos]
        unfold UnpackedFloat.pack
        rw [if_neg (by decide), if_neg (by show m.toNat.log2 + 1 ≠ 53; omega), hlow,
          BitVec.ofNat_toNat, BitVec.setWidth_eq]
      · have hzero : m = 0#52 := BitVec.eq_of_toNat_eq (Nat.eq_zero_of_not_pos hpos)
        rw [dif_neg hpos, hlow, hzero]
        rfl
    · have hbiased : ((e.toNat : Int) - 1075 + 1023 + 52).toNat = e.toNat := by omega
      have hlt : e.toNat < 2047 := by
        have : e.toNat ≠ 2047 := fun h => hlast (BitVec.eq_of_toNat_eq h)
        omega
      have hmant : BitVec.ofNat 52 (2 ^ 52 + m.toNat) = m := by
        apply BitVec.eq_of_toNat_eq
        rw [BitVec.toNat_ofNat]
        omega
      rw [if_neg hlow]
      unfold UnpackedFloat.pack
      show (if 2 ^ 11 ≤ ((e.toNat : Int) - 1075 + 1023 + 52).toNat + 1 then _ else _) = _
      rw [if_neg (by omega), if_pos (by rw [log2_normal hm]; rfl)]
      show packComponents .binary64 s (.ofNat 11 ((e.toNat : Int) - 1075 + 1023 + 52).toNat)
        (.ofNat 52 (2 ^ 52 + m.toNat)) = _
      rw [hbiased, BitVec.ofNat_toNat, BitVec.setWidth_eq, hmant]

/-- What is unpacked from some bits packs to these bits, unless it is no number. -/
theorem pack_unpack (b : BitVec 64) (h : UnpackedFloat.unpack .binary64 b ≠ .notANumber) :
    UnpackedFloat.pack .binary64 (UnpackedFloat.unpack .binary64 b) = b := by
  rw [unpack_eq] at h ⊢
  rw [pack_ofParts _ _ _ h, components_unpack]

/-! ## Doubles -/

/-- The number that a double is, for the machine to compute with. -/
def unpacked (x : Double) : UnpackedFloat :=
  x.toFloat.toModel.unpack

theorem unpacked_eq (x : Double) :
    x.unpacked = UnpackedFloat.unpack .binary64 x.bits.toBitVec := by
  show UnpackedFloat.unpack .binary64
    (UnpackedFloat.pack .binary64 (UnpackedFloat.unpack .binary64 x.bits.toBitVec)) = _
  by_cases h : UnpackedFloat.unpack .binary64 x.bits.toBitVec = .notANumber
  · rw [h]
    rfl
  · rw [pack_unpack _ h]

theorem ofParts_eq_notANumber {s : Sign} {e : BitVec 11} {m : BitVec 52} :
    ofParts s e m = .notANumber ↔ e = -1#11 ∧ m ≠ 0#52 := by
  unfold ofParts
  by_cases he : e = -1#11
  · rw [if_pos he]
    by_cases hm : m = 0#52
    · rw [if_pos hm]
      exact iff_of_false (by rintro ⟨⟩) fun h => h.2 hm
    · rw [if_neg hm]
      exact iff_of_true rfl ⟨he, hm⟩
  · rw [if_neg he]
    refine iff_of_false ?_ fun h => he h.1
    by_cases hlow : e = 0#11
    · rw [if_pos hlow]
      by_cases hpos : 0 < m.toNat
      · rw [dif_pos hpos]
        rintro ⟨⟩
      · rw [dif_neg hpos]
        rintro ⟨⟩
    · rw [if_neg hlow]
      rintro ⟨⟩

theorem isNaN_iff (x : Double) : x.isNaN = true ↔ x.unpacked = .notANumber := by
  rw [unpacked_eq, unpack_eq, ofParts_eq_notANumber, Ne, ← BitVec.toNat_inj, ← BitVec.toNat_inj,
    exponent_toNat, mantissa_toNat]
  have hbits : x.bits.toBitVec.toNat < 2 ^ 64 := x.bits.toBitVec.isLt
  have habs : x.abs.bits.toNat = x.bits.toBitVec.toNat % 2 ^ 63 := by
    show (x.bits &&& 0x7fffffffffffffff).toNat = _
    rw [UInt64.toNat_and]
    exact Nat.and_two_pow_sub_one_eq_mod _ 63
  show decide (infinity.bits < x.abs.bits) = true ↔ _
  rw [decide_eq_true_iff, UInt64.lt_iff_toNat_lt, habs]
  show 2047 * 2 ^ 52 < _ ↔ _ = 2047 ∧ ¬ _ = 0
  omega

theorem unpacked_ofFloat (f : Float) : (ofFloat f).unpacked = f.toModel.unpack := by
  unfold ofFloat
  split
  · next h =>
    have hnan : f.toModel.unpack = .notANumber := by
      revert h
      show f.toModel.unpack.isNaN = true → _
      cases f.toModel.unpack <;> first | (intro _; rfl) | (intro h; cases h)
    rw [hnan]
    rfl
  · exact unpacked_eq _

theorem ofBitVec_flip (b : BitVec 1) : Sign.ofBitVec (b ^^^ 1#1) = -Sign.ofBitVec b := by
  obtain rfl | rfl : b = 0#1 ∨ b = 1#1 := by
    revert b
    decide
  · rfl
  · rfl

theorem ofParts_neg (s : Sign) (e : BitVec 11) (m : BitVec 52) :
    ofParts (-s) e m = (ofParts s e m).neg := by
  unfold ofParts
  rw [apply_ite UnpackedFloat.neg, apply_ite UnpackedFloat.neg, apply_ite UnpackedFloat.neg,
    apply_dite UnpackedFloat.neg]
  rfl

theorem unpacked_neg (x : Double) : (-x).unpacked = x.unpacked.neg := by
  have hsign : @unpackSign .binary64 (x.bits.toBitVec ^^^ signBit.toBitVec) =
      @unpackSign .binary64 x.bits.toBitVec ^^^ 1#1 := by
    apply BitVec.eq_of_toNat_eq
    rw [BitVec.toNat_xor, sign_toNat, sign_toNat, BitVec.toNat_xor, Nat.xor_div_two_pow]
    rfl
  have hexponent : @unpackExponent .binary64 (x.bits.toBitVec ^^^ signBit.toBitVec) =
      @unpackExponent .binary64 x.bits.toBitVec := by
    apply BitVec.eq_of_toNat_eq
    rw [exponent_toNat, exponent_toNat, BitVec.toNat_xor, Nat.xor_div_two_pow, Nat.xor_mod_two_pow]
    exact Nat.xor_zero _
  have hmantissa : @unpackMantissa .binary64 (x.bits.toBitVec ^^^ signBit.toBitVec) =
      @unpackMantissa .binary64 x.bits.toBitVec := by
    apply BitVec.eq_of_toNat_eq
    rw [mantissa_toNat, mantissa_toNat, BitVec.toNat_xor, Nat.xor_mod_two_pow]
    exact Nat.xor_zero _
  rw [unpacked_eq, unpacked_eq, unpack_eq, unpack_eq, ← ofParts_neg, ← ofBitVec_flip, ← hsign]
  show ofParts _ (@unpackExponent .binary64 (x.bits.toBitVec ^^^ signBit.toBitVec))
    (@unpackMantissa .binary64 (x.bits.toBitVec ^^^ signBit.toBitVec)) = _
  rw [hexponent, hmantissa]
  rfl

end Double

end PropertyGraph
