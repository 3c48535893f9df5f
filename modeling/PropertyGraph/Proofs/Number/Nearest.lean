import PropertyGraph.Proofs.Number.Place

/-!
# The double nearest to an integer

An integer with more than 53 binary digits has no double of its own.  Rounding keeps the order, so
of two integers the greater one never has the lesser double; but they may have the same.

    Double.nearest                the exponent and the mantissa of the double of a natural number
    Double.place_ofInt64          the place of the double nearest to an integer
    Double.place_ofInt64_mono     a greater integer has no lesser double
-/

namespace PropertyGraph

namespace Double

open Float.Model
open Float.Model.UnpackedFloat hiding pack unpack

/-! ## Rounding a natural number -/

/-- A natural number brought to 53 binary digits, before it is rounded. -/
def leading (n : Nat) : ExtendedMantissa :=
  ExtendedMantissa.ofMantissaAndAccuracy (n <<< (52 - n.log2)) .exact >>> (n.log2 - 52)

/-- Exponent and mantissa of the double nearest to a positive number. -/
def nearest (n : Nat) : Int × Nat :=
  if (leading n).roundedMantissa < 2 ^ 53 then
    ((n.log2 : Int) - 52, (leading n).roundedMantissa)
  else ((n.log2 : Int) - 51, 2 ^ 52)

theorem leading_bounds {n : Nat} (hn : n ≠ 0) :
    2 ^ 52 ≤ (leading n).mantissa ∧ (leading n).mantissa < 2 ^ 53 := by
  have hlow := Nat.log2_self_le hn
  have hhigh := Nat.lt_log2_self (n := n)
  rw [leading, mantissa_shift, mantissa_ofAccuracy, Nat.shiftLeft_eq]
  obtain hsmall | hlarge := Nat.le_total n.log2 52
  · obtain ⟨d, hd⟩ := Nat.exists_eq_add_of_le hsmall
    rw [Nat.sub_eq_zero_of_le hsmall, Nat.pow_zero, Nat.div_one, show 52 - n.log2 = d by omega]
    constructor
    · rw [hd, Nat.pow_add]
      exact Nat.mul_le_mul_right _ hlow
    · rw [show 53 = n.log2 + 1 + d by omega, Nat.pow_add]
      exact Nat.mul_lt_mul_of_pos_right hhigh (Nat.two_pow_pos d)
  · obtain ⟨d, hd⟩ := Nat.exists_eq_add_of_le hlarge
    rw [Nat.sub_eq_zero_of_le hlarge, Nat.pow_zero, Nat.mul_one, show n.log2 - 52 = d by omega]
    constructor
    · rw [Nat.le_div_iff_mul_le (Nat.two_pow_pos d), ← Nat.pow_add, ← hd]
      exact hlow
    · rw [Nat.div_lt_iff_lt_mul (Nat.two_pow_pos d), ← Nat.pow_add,
        show 53 + d = n.log2 + 1 by omega]
      exact hhigh

theorem nearest_bounds {n : Nat} (hn : n ≠ 0) :
    2 ^ 52 ≤ (nearest n).2 ∧ (nearest n).2 < 2 ^ 53 ∧
      ((nearest n).1 = n.log2 - 52 ∨ (nearest n).1 = n.log2 - 51 ∧ (nearest n).2 = 2 ^ 52) := by
  have hround := (roundedMantissa_bounds (leading n)).1
  have hlow := (leading_bounds hn).1
  unfold nearest
  split
  · next hlt => exact ⟨by omega, hlt, .inl rfl⟩
  · exact ⟨Nat.le_refl _, Nat.pow_lt_pow_right (by decide) (by decide), .inr ⟨rfl, rfl⟩⟩

theorem round_natural {n : Nat} (hn : n ≠ 0) (s : Sign) (h : 0 < (nearest n).2) :
    UnpackedFloat.round .binary64 s n 0 = .finite s (nearest n).2 (nearest n).1 h := by
  have htarget : Format.binary64.targetExponent (totalExponent n 0) = n.log2 - 52 := by
    rw [targetExponent_eq]
    unfold totalExponent
    omega
  have hshift : (0 - ((n.log2 : Int) - 52)).toNat = 52 - n.log2 := by omega
  have htarget' : target (n <<< (52 - n.log2)) (0 - (52 - n.log2 : Nat)) = n.log2 - 52 := by
    unfold target
    rw [log2_shiftLeft hn]
    omega
  have hleading : shifted (n <<< (52 - n.log2)) (0 - (52 - n.log2 : Nat)) .exact = leading n := by
    unfold shifted leading
    rw [htarget']
    congr 1
    omega
  have hpos : (leading n).roundedMantissa ≠ 0 := by
    have := (roundedMantissa_bounds (leading n)).1
    have := (leading_bounds hn).1
    omega
  unfold UnpackedFloat.round decreaseExponent
  dsimp only
  rw [htarget, hshift, round_eq]
  simp only [hleading, htarget']
  rw [dif_neg hpos]
  have hmax : max (0 - (52 - n.log2 : Nat) : Int) (n.log2 - 52) = n.log2 - 52 := by omega
  unfold nearest
  split
  · simp only [hmax]
  · exact finite_congr rfl (by omega)

/-! ## Packing -/

/-- A double of 53 digits is packed without loss. -/
theorem repack_normal {s : Sign} {m : Nat} {e : Int} {hm : 0 < m} (hlow : 2 ^ 52 ≤ m)
    (hhigh : m < 2 ^ 53) (he : -1074 ≤ e) (he' : e ≤ 971) :
    UnpackedFloat.unpack .binary64 (UnpackedFloat.pack .binary64 (.finite s m e hm)) =
      .finite s m e hm := by
  have hexponent : (BitVec.ofNat 11 (e + 1075).toNat).toNat = (e + 1075).toNat := by
    rw [BitVec.toNat_ofNat]
    omega
  have hmantissa : (BitVec.ofNat 52 (m - 2 ^ 52)).toNat = m - 2 ^ 52 := by
    rw [BitVec.toNat_ofNat]
    omega
  have hparts : ofParts s (.ofNat 11 (e + 1075).toNat) (.ofNat 52 (m - 2 ^ 52)) =
      .finite s m e hm := by
    unfold ofParts
    rw [if_neg fun h => ?_, if_neg fun h => ?_]
    · exact finite_congr (by omega) (by omega)
    · have hzero : (e + 1075).toNat = 0 := hexponent.symm.trans (congrArg BitVec.toNat h)
      omega
    · have hlast : (e + 1075).toNat = 2047 := hexponent.symm.trans (congrArg BitVec.toNat h)
      omega
  rw [← hparts, pack_ofParts _ _ _ (by rw [hparts]; exact nofun), unpack_components]

/-- The double nearest to a natural number of 64 bits. -/
def ofMagnitude (n : Nat) : Double :=
  ofFloat (UInt64.ofNat n).toFloat

theorem unpacked_ofMagnitude {n : Nat} (hn : n ≠ 0) (hn' : n < 2 ^ 64) :
    ∃ h, (ofMagnitude n).unpacked = .finite .positive (nearest n).2 (nearest n).1 h := by
  obtain ⟨hlow, hhigh, hexponent⟩ := nearest_bounds hn
  have hlog : n.log2 ≤ 63 := log2_le_of_lt hn'
  have hnormal : UnpackedFloat.normalize .binary64 ((UInt64.ofNat n).toNat : Int) 0 .positive =
      .finite .positive (nearest n).2 (nearest n).1 (by omega) := by
    rw [UInt64.toNat_ofNat', Nat.mod_eq_of_lt hn', ← round_natural hn]
    unfold UnpackedFloat.normalize
    rw [Int.compare_eq_gt.2 (by omega)]
    rfl
  refine ⟨by omega, ?_⟩
  unfold ofMagnitude
  rw [unpacked_ofFloat]
  show UnpackedFloat.unpack .binary64
    (UnpackedFloat.pack .binary64 (UnpackedFloat.normalize .binary64 _ 0 _)) = _
  rw [hnormal]
  exact repack_normal hlow hhigh (by omega) (by omega)

/-! ## Order -/

theorem leading_mono {m n : Nat} (h : m ≤ n) (hlog : m.log2 = n.log2) :
    (leading m).roundedMantissa ≤ (leading n).roundedMantissa := by
  unfold leading
  rw [hlog]
  refine roundedMantissa_mono (weight_shift_mono ?_ _)
  show 4 * m <<< (52 - n.log2) ≤ 4 * n <<< (52 - n.log2)
  rw [Nat.shiftLeft_eq, Nat.shiftLeft_eq]
  exact Nat.mul_le_mul_left 4 (Nat.mul_le_mul_right _ h)

/-- Rounding keeps the order. -/
theorem nearest_mono {m n : Nat} (hm : m ≠ 0) (h : m ≤ n) :
    (nearest m).1 < (nearest n).1 ∨
      (nearest m).1 = (nearest n).1 ∧ (nearest m).2 ≤ (nearest n).2 := by
  have hn : n ≠ 0 := by omega
  obtain ⟨hlow, hhigh, hexponent⟩ := nearest_bounds hm
  obtain ⟨hlow', hhigh', hexponent'⟩ := nearest_bounds hn
  have hlog : m.log2 ≤ n.log2 := (Nat.le_log2 hn).2 (Nat.le_trans (Nat.log2_self_le hm) h)
  obtain heq | hlt : m.log2 = n.log2 ∨ m.log2 < n.log2 := by omega
  · have hround := leading_mono h heq
    unfold nearest
    rw [heq]
    split
    · split
      · exact .inr ⟨rfl, hround⟩
      · exact .inl (by dsimp only; omega)
    · rw [if_neg (by omega)]
      exact .inr ⟨rfl, Nat.le_refl _⟩
  · omega

/-- The place of the double nearest to an integer. -/
def integerPlace (n : Int) : List Int :=
  if n < 0 then [-1, -(nearest n.natAbs).1, -(nearest n.natAbs).2]
  else if n = 0 then [0]
  else [1, (nearest n.natAbs).1, (nearest n.natAbs).2]

theorem place_ofInt64 (n : Int64) : (ofInt64 n).place = integerPlace n.toInt := by
  have hbound : n.toInt.natAbs < 2 ^ 64 := by
    have := n.toInt_lt
    have := n.le_toInt
    omega
  show placeOf (if n < 0 then -ofMagnitude n.toInt.natAbs
    else ofMagnitude n.toInt.natAbs).unpacked = _
  unfold integerPlace
  simp only [Int64.lt_iff_toInt_lt, Int64.toInt_zero]
  by_cases hneg : n.toInt < 0
  · obtain ⟨h, hunpacked⟩ := unpacked_ofMagnitude (Int.natAbs_ne_zero.2 (by omega)) hbound
    rw [if_pos hneg, if_pos hneg, unpacked_neg, hunpacked]
    rfl
  · rw [if_neg hneg, if_neg hneg]
    by_cases hzero : n.toInt = 0
    · rw [if_pos hzero, hzero]
      rfl
    · obtain ⟨h, hunpacked⟩ := unpacked_ofMagnitude (Int.natAbs_ne_zero.2 hzero) hbound
      rw [if_neg hzero, hunpacked]
      rfl

theorem isLE_compare_pair {e e' m m' : Int} (h : e < e' ∨ e = e' ∧ m ≤ m') :
    (compare [e, m] [e', m']).isLE = true := by
  rw [compare_pair]
  obtain hlt | ⟨rfl, hle⟩ := h
  · rw [Int.compare_eq_lt.2 hlt]
    rfl
  · rw [Std.ReflOrd.compare_self, Ordering.eq_then]
    exact Int.isLE_compare.2 hle

theorem integerPlace_mono {m n : Int} (h : m ≤ n) :
    (compare (integerPlace m) (integerPlace n)).isLE = true := by
  unfold integerPlace
  by_cases hm : m < 0
  · rw [if_pos hm]
    by_cases hn : n < 0
    · rw [if_pos hn, compare_self_cons]
      have hmono := nearest_mono (m := n.natAbs) (n := m.natAbs) (by omega) (by omega)
      exact isLE_compare_pair (by omega)
    · rw [if_neg hn]
      split <;> rfl
  · rw [if_neg hm, if_neg (show ¬ n < 0 by omega)]
    by_cases hzero : m = 0
    · rw [if_pos hzero]
      split <;> rfl
    · rw [if_neg hzero, if_neg (show ¬ n = 0 by omega), compare_self_cons]
      have hmono := nearest_mono (m := m.natAbs) (n := n.natAbs) (by omega) (by omega)
      exact isLE_compare_pair (by omega)

/-- A greater integer has no lesser double. -/
theorem place_ofInt64_mono {m n : Int64} (h : m.toInt ≤ n.toInt) :
    (compare (ofInt64 m).place (ofInt64 n).place).isLE = true := by
  rw [place_ofInt64, place_ofInt64]
  exact integerPlace_mono h

end Double

end PropertyGraph
