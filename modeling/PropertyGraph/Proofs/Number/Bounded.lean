import PropertyGraph.Proofs.Number.Rounding

/-!
# Bounded doubles

A sum or a product of numbers that are not too large is a number: no infinity comes up, and no
operation without a result.  The bound is a power of two, and each operation raises its exponent by
a constant.

    Double.Within           a number below a power of two
    Double.Within.add, Double.Within.mul, Double.Within.div
    Double.within_ofInt64   every integer of 64 bits is one
-/

namespace PropertyGraph

namespace Double

open Float.Model
open Float.Model.UnpackedFloat hiding pack unpack

/-! ## Numbers below a power of two -/

/-- A number less than the given power of two in magnitude, with at most 53 binary digits. -/
def Bounded (k : Int) : UnpackedFloat → Prop
  | .zero _ => True
  | .finite _ m e _ => m < 2 ^ 53 ∧ e + 53 ≤ k
  | _ => False

theorem Bounded.mono {k l : Int} (hkl : k ≤ l) {f : UnpackedFloat} (h : Bounded k f) :
    Bounded l f := by
  cases f with
  | zero s => trivial
  | finite s m e hm => exact ⟨h.1, Int.le_trans h.2 hkl⟩
  | notANumber => exact h
  | infinity s => exact h

theorem Bounded.neg {k : Int} {f : UnpackedFloat} (h : Bounded k f) : Bounded k f.neg := by
  cases f <;> exact h

/-- Rounding keeps a bound that leaves room for a carry. -/
theorem bounded_round {k : Int} {m : Nat} {e : Int} (s : Sign) (a : Accuracy)
    (hk : -1020 ≤ k) (he : e + 54 ≤ k) (hm : m.log2 + e + 2 ≤ k) :
    Bounded k (roundWithAccuracy .binary64 s m e a) := by
  have hexponent : max e (target m e) + 54 ≤ k := by
    unfold target
    omega
  rw [round_eq]
  split
  · trivial
  · split
    · next hlt => exact ⟨hlt, by omega⟩
    · exact ⟨by decide, by omega⟩

theorem log2_shiftLeft {m : Nat} (hm : m ≠ 0) (k : Nat) : (m <<< k).log2 = m.log2 + k := by
  have hpos : m <<< k ≠ 0 := by
    rw [Nat.shiftLeft_eq]
    exact Nat.mul_ne_zero hm (Nat.ne_of_gt (Nat.two_pow_pos k))
  rw [Nat.log2_eq_iff hpos, Nat.shiftLeft_eq, Nat.pow_add, Nat.add_right_comm, Nat.pow_add]
  exact ⟨Nat.mul_le_mul_right _ (Nat.log2_self_le hm),
    Nat.mul_lt_mul_of_pos_right Nat.lt_log2_self (Nat.two_pow_pos k)⟩

theorem log2_le_of_lt {m k : Nat} (h : m < 2 ^ (k + 1)) : m.log2 ≤ k := by
  by_cases hzero : m = 0
  · rw [hzero]
    exact Nat.zero_le k
  · exact Nat.lt_succ_iff.1 ((Nat.log2_lt hzero).2 h)

theorem bounded_normalize {k : Int} {n : Int} {e : Int} (s : Sign) (hk : -1020 ≤ k)
    (he : e + 54 ≤ k) (hn : n.natAbs.log2 + e + 2 ≤ k) :
    Bounded k (UnpackedFloat.normalize .binary64 n e s) := by
  have hround : ∀ s', n ≠ 0 → Bounded k (UnpackedFloat.round .binary64 s' n.natAbs e) := by
    intro s' hzero
    unfold UnpackedFloat.round decreaseExponent
    refine bounded_round s' .exact hk (by omega) ?_
    rw [log2_shiftLeft (Int.natAbs_ne_zero.2 hzero)]
    omega
  unfold UnpackedFloat.normalize
  split
  · next hlt =>
    have hneg : n < 0 := Int.compare_eq_lt.1 hlt
    rw [show (-n).toNat = n.natAbs by omega]
    exact hround _ (by omega)
  · trivial
  · next hgt =>
    have hpos : 0 < n := Int.compare_eq_gt.1 hgt
    rw [show n.toNat = n.natAbs by omega]
    exact hround _ (by omega)

/-! ## The operations -/

theorem natAbs_apply (s : Sign) (n : Nat) : (s.apply n).natAbs = n := by
  cases s
  · exact Int.natAbs_neg _
  · rfl

theorem shiftLeft_lt {m d D : Nat} (hm : m < 2 ^ 53) (hd : d ≤ D) : m <<< d < 2 ^ (53 + D) := by
  rw [Nat.shiftLeft_eq, Nat.pow_add]
  exact Nat.mul_lt_mul_of_lt_of_le hm (Nat.pow_le_pow_right (by decide) hd) (Nat.two_pow_pos _)

theorem bounded_mul {k l : Int} {f g : UnpackedFloat} (hf : Bounded k f) (hg : Bounded l g)
    (h : -1021 ≤ k + l) : Bounded (k + l + 1) (UnpackedFloat.mul .binary64 f g) := by
  cases f with
  | notANumber => exact hf.elim
  | infinity s => exact hf.elim
  | zero s =>
    cases g with
    | notANumber => exact hg.elim
    | infinity t => exact hg.elim
    | zero t => trivial
    | finite t m e hm => trivial
  | finite s m e hm =>
    cases g with
    | notANumber => exact hg.elim
    | infinity t => exact hg.elim
    | zero t => trivial
    | finite t m' e' hm' =>
      obtain ⟨hlt, hle⟩ := hf
      obtain ⟨hlt', hle'⟩ := hg
      have hlog : (m * m').log2 ≤ 105 :=
        log2_le_of_lt (Nat.lt_of_lt_of_le (Nat.mul_lt_mul'' hlt hlt') (by decide))
      exact bounded_round _ _ (by omega) (by omega) (by omega)

theorem bounded_add {k : Int} {f g : UnpackedFloat} (hf : Bounded k f) (hg : Bounded k g)
    (h : -1021 ≤ k) : Bounded (k + 2) (UnpackedFloat.add .binary64 f g) := by
  cases f with
  | notANumber => exact hf.elim
  | infinity s => exact hf.elim
  | zero s =>
    cases g with
    | notANumber => exact hg.elim
    | infinity t => exact hg.elim
    | zero t =>
      show Bounded _ (if (s == t) = true then .zero s else .zero .positive)
      split <;> trivial
    | finite t m e hm => exact hg.mono (by omega)
  | finite s m e hm =>
    cases g with
    | notANumber => exact hg.elim
    | infinity t => exact hg.elim
    | zero t => exact hf.mono (by omega)
    | finite t m' e' hm' =>
      obtain ⟨hlt, hle⟩ := hf
      obtain ⟨hlt', hle'⟩ := hg
      -- both mantissas are brought to the smaller exponent
      obtain ⟨D, hD⟩ : ∃ D : Nat, max e e' = min e e' + D :=
        ⟨(max e e' - min e e').toNat, by omega⟩
      have hshift := shiftLeft_lt hlt (show (e - min e e').toNat ≤ D by omega)
      have hshift' := shiftLeft_lt hlt' (show (e' - min e e').toNat ≤ D by omega)
      have hsum := Int.natAbs_add_le (s.apply (m <<< (e - min e e').toNat : Nat))
        (t.apply (m' <<< (e' - min e e').toNat : Nat))
      rw [natAbs_apply, natAbs_apply] at hsum
      have hlog := log2_le_of_lt (k := 53 + D) (Nat.lt_of_le_of_lt hsum (by
        rw [Nat.pow_succ]
        omega))
      exact bounded_normalize _ (by omega) (by omega) (by omega)

theorem bounded_div {k l : Int} {f : UnpackedFloat} (hf : Bounded k f) {t : Sign} {m' : Nat}
    {e' : Int} (hm' : 0 < m') (hl : k + 1 ≤ e' + l) (hl' : -1020 ≤ l) :
    Bounded l (UnpackedFloat.div .binary64 f (.finite t m' e' hm')) := by
  cases f with
  | notANumber => exact hf.elim
  | infinity s => exact hf.elim
  | zero s => trivial
  | finite s m e hm =>
    obtain ⟨hlt, hle⟩ := hf
    show Bounded l (roundWithAccuracy .binary64 _ (m <<< _ / m') (min _ _) _)
    generalize Format.binary64.targetExponent _ = p
    have hquotient : (m <<< (e - e' - min (e - e') p).toNat / m').log2 ≤
        52 + (e - e' - min (e - e') p).toNat :=
      log2_le_of_lt (Nat.lt_of_le_of_lt (Nat.div_le_self _ _) (by
        rw [Nat.add_right_comm]
        exact shiftLeft_lt hlt (Nat.le_refl _)))
    exact bounded_round _ _ hl' (by omega) (by omega)

/-! ## Packing -/

theorem unpack_components (s : Sign) (e : BitVec 11) (m : BitVec 52) :
    UnpackedFloat.unpack .binary64 (packComponents .binary64 s e m) = ofParts s e m := by
  have hsign : unpackSign (packComponents .binary64 s e m) = s.toBitVec := by
    have he := e.isLt
    have hm := m.isLt
    apply BitVec.eq_of_toNat_eq
    rw [sign_toNat, components_toNat]
    omega
  rw [unpack_eq, hsign, unpackExponent_packComponents, unpackMantissa_packComponents]
  cases s <;> rfl

theorem bounded_ofParts {k : Int} {s : Sign} {e : BitVec 11} {m : BitVec 52} (hk : -1021 ≤ k)
    (he : e.toNat ≠ 2047) (hle : (e.toNat : Int) ≤ k + 1022) : Bounded k (ofParts s e m) := by
  have hm := m.isLt
  unfold ofParts
  rw [if_neg fun h => he (congrArg BitVec.toNat h)]
  split
  · split
    · exact ⟨by omega, by omega⟩
    · trivial
  · exact ⟨by omega, by omega⟩

/-- Packing keeps a bound below the infinities. -/
theorem bounded_repack {k : Int} {f : UnpackedFloat} (h : Bounded k f) (hk : -1021 ≤ k)
    (hk' : k ≤ 1024) :
    Bounded k (UnpackedFloat.unpack .binary64 (UnpackedFloat.pack .binary64 f)) := by
  cases f with
  | notANumber => exact h.elim
  | infinity s => exact h.elim
  | zero s =>
    show Bounded k (UnpackedFloat.unpack .binary64 (packComponents .binary64 s 0#11 0#52))
    rw [unpack_components]
    exact bounded_ofParts hk (by decide) (by show (0 : Int) ≤ _; omega)
  | finite s m e hm =>
    obtain ⟨hlt, hle⟩ := h
    unfold UnpackedFloat.pack
    rw [if_neg (by show ¬ 2 ^ 11 ≤ (e + 1023 + 52).toNat + 1; omega)]
    split
    · show Bounded k (UnpackedFloat.unpack .binary64 (packComponents .binary64 s
        (.ofNat 11 (e + 1023 + 52).toNat) (.ofNat 52 m)))
      have hbiased : (BitVec.ofNat 11 (e + 1023 + 52).toNat).toNat = (e + 1023 + 52).toNat := by
        rw [BitVec.toNat_ofNat]
        omega
      rw [unpack_components]
      exact bounded_ofParts hk (by omega) (by omega)
    · rw [unpack_components]
      exact bounded_ofParts hk (by decide) (by show (0 : Int) ≤ _; omega)

/-! ## Doubles -/

/-- A finite double below a power of two. -/
def Within (k : Int) (x : Double) : Prop :=
  Bounded k x.unpacked

variable {k l : Int} {x y : Double}

theorem Within.isNaN (h : x.Within k) : x.isNaN = false := by
  rw [Bool.eq_false_iff]
  intro hnan
  unfold Within at h
  rw [(isNaN_iff x).1 hnan] at h
  exact h

theorem Within.mono (h : x.Within k) (hkl : k ≤ l) : x.Within l :=
  Bounded.mono hkl h

theorem Within.neg (h : x.Within k) : (-x).Within k := by
  unfold Within
  rw [unpacked_neg]
  exact Bounded.neg h

/-- An operation on two numbers is that of the machine. -/
theorem unpacked_map₂ (f : Float → Float → Float) (hx : x.isNaN = false) (hy : y.isNaN = false) :
    (map₂ f x y).unpacked = (f x.toFloat y.toFloat).toModel.unpack := by
  unfold map₂
  rw [if_neg (by rw [hx]; exact nofun), if_neg (by rw [hy]; exact nofun), unpacked_ofFloat]

theorem Within.mul (hx : x.Within k) (hy : y.Within l) (h : -1021 ≤ k + l) (h' : k + l < 1024) :
    (x * y).Within (k + l + 1) := by
  show Bounded _ (map₂ (· * ·) x y).unpacked
  rw [unpacked_map₂ _ hx.isNaN hy.isNaN]
  exact bounded_repack (bounded_mul hx hy h) (by omega) (by omega)

theorem Within.add (hx : x.Within k) (hy : y.Within k) (h : -1021 ≤ k) (h' : k ≤ 1022) :
    (x + y).Within (k + 2) := by
  show Bounded _ (map₂ (· + ·) x y).unpacked
  rw [unpacked_map₂ _ hx.isNaN hy.isNaN]
  exact bounded_repack (bounded_add hx hy h) (by omega) (by omega)

theorem Within.div (hx : x.Within k) {t : Sign} {m : Nat} {e : Int} {hm : 0 < m}
    (hy : y.unpacked = .finite t m e hm) (hl : k + 1 ≤ e + l) (h : -1020 ≤ l) (h' : l ≤ 1024) :
    (x / y).Within l := by
  have hnan : y.isNaN = false := by
    rw [Bool.eq_false_iff, Ne, isNaN_iff, hy]
    exact nofun
  show Bounded _ (map₂ (· / ·) x y).unpacked
  rw [unpacked_map₂ _ hx.isNaN hnan]
  refine bounded_repack ?_ (by omega) h'
  show Bounded l (UnpackedFloat.div .binary64 x.unpacked y.unpacked)
  rw [hy]
  exact bounded_div hx hm hl h

/-- The double nearest to an integer of 64 bits. -/
theorem within_ofInt64 (n : Int64) : (ofInt64 n).Within 65 := by
  have hmagnitude : (ofFloat (UInt64.ofNat n.toInt.natAbs).toFloat).Within 65 := by
    show Bounded _ (ofFloat _).unpacked
    rw [unpacked_ofFloat]
    have hlog : ((UInt64.ofNat n.toInt.natAbs).toNat : Int).natAbs.log2 ≤ 63 :=
      log2_le_of_lt (UInt64.toNat_lt _)
    exact bounded_repack (bounded_normalize _ (by decide) (by decide) (by omega)) (by decide)
      (by decide)
  unfold ofInt64
  split
  · exact hmagnitude.neg
  · exact hmagnitude

end Double

end PropertyGraph
