import PropertyGraph.Proofs.Number.Bounded
import PropertyGraph.Value.Order

/-!
# The place of a double

The order of doubles is that of short words: sign and size class, exponent, mantissa.  What is no
number has a word of its own behind all others.  So the order that sorts doubles is total, although
the comparison of the machine is not.

    Double.orderDouble_eq    doubles are sorted by their places
-/

namespace PropertyGraph

namespace Double

open Float.Model
open Float.Model.UnpackedFloat hiding pack unpack

/-! ## Places -/

/-- The place of a number in the line of all numbers, with what is no number last; places are
compared like words. -/
def placeOf : UnpackedFloat → List Int
  | .notANumber => [3]
  | .infinity .positive => [2]
  | .finite .positive m e _ => [1, e, m]
  | .zero _ => [0]
  | .finite .negative m e _ => [-1, -e, -m]
  | .infinity .negative => [-2]

/-- The place of a double. -/
def place (x : Double) : List Int :=
  placeOf x.unpacked

theorem compare_cons (a b : Int) (as bs : List Int) :
    compare (a :: as) (b :: bs) = (compare a b).then (compare as bs) :=
  List.compareLex_cons_cons

theorem compare_self_cons (a : Int) (as bs : List Int) :
    compare (a :: as) (a :: bs) = compare as bs := by
  rw [compare_cons, Std.ReflOrd.compare_self, Ordering.eq_then]

theorem compare_pair (e e' m m' : Int) :
    compare [e, m] [e', m'] = (compare e e').then (compare m m') := by
  rw [compare_cons, compare_cons, Std.ReflOrd.compare_self, Ordering.then_eq]

theorem compare_cast (m n : Nat) : compare (m : Int) (n : Int) = compare m n := by
  rw [Int.compare_eq_ite_lt, Nat.compare_eq_ite_lt]
  simp only [Int.ofNat_lt]

theorem compare_neg (a b : Int) : compare (-a) (-b) = compare b a := by
  rw [Int.compare_eq_ite_lt, Int.compare_eq_ite_lt]
  simp only [Int.neg_lt_neg_iff]

theorem compare_placeOf {f g : UnpackedFloat} (hf : f ≠ .notANumber) (hg : g ≠ .notANumber) :
    f.compare g = some (compare (placeOf f) (placeOf g)) := by
  cases f with
  | notANumber => exact absurd rfl hf
  | infinity s =>
    cases g with
    | notANumber => exact absurd rfl hg
    | infinity t => cases s <;> cases t <;> rfl
    | zero t => cases s <;> rfl
    | finite t m e hm => cases s <;> cases t <;> rfl
  | zero s =>
    cases g with
    | notANumber => exact absurd rfl hg
    | infinity t => cases t <;> rfl
    | zero t => rfl
    | finite t m e hm => cases t <;> rfl
  | finite s m e hm =>
    cases g with
    | notANumber => exact absurd rfl hg
    | infinity t => cases s <;> cases t <;> rfl
    | zero t => cases s <;> rfl
    | finite t m' e' hm' =>
      cases s with
      | positive =>
        cases t with
        | negative => rfl
        | positive =>
          show some ((compare e e').then (compare m m')) =
            some (compare [1, e, (m : Int)] [1, e', (m' : Int)])
          rw [compare_self_cons, compare_pair, compare_cast]
      | negative =>
        cases t with
        | positive => rfl
        | negative =>
          show some ((compare e e').then (compare m m')).swap =
            some (compare [-1, -e, -(m : Int)] [-1, -e', -(m' : Int)])
          rw [compare_self_cons, compare_pair, compare_neg, compare_neg, compare_cast,
            Ordering.swap_then, Int.compare_swap, Nat.compare_swap]

/-! ## The order of doubles -/

variable {x y : Double}

theorem beq_iff_compare_place (hx : x.isNaN = false) (hy : y.isNaN = false) :
    (x == y) = true ↔ compare x.place y.place = .eq := by
  have hx' : x.unpacked ≠ .notANumber := fun h => by rw [(isNaN_iff x).2 h] at hx; cases hx
  have hy' : y.unpacked ≠ .notANumber := fun h => by rw [(isNaN_iff y).2 h] at hy; cases hy
  show (x.unpacked.compare y.unpacked == some .eq) = true ↔ _
  rw [compare_placeOf hx' hy', beq_iff_eq, Option.some_inj]
  rfl

theorem compareDouble?_eq (hx : x.isNaN = false) (hy : y.isNaN = false) :
    compareDouble? x y = some (compare x.place y.place) := by
  have hx' : x.unpacked ≠ .notANumber := fun h => by rw [(isNaN_iff x).2 h] at hx; cases hx
  have hy' : y.unpacked ≠ .notANumber := fun h => by rw [(isNaN_iff y).2 h] at hy; cases hy
  have hlt : x < y ↔ compare x.place y.place = .lt := by
    refine (decide_eq_true_iff (p := (x.unpacked.compare y.unpacked == some .lt) = true)).trans ?_
    rw [compare_placeOf hx' hy', beq_iff_eq, Option.some_inj]
    rfl
  have hgt : y < x ↔ compare x.place y.place = .gt := by
    refine (decide_eq_true_iff (p := (y.unpacked.compare x.unpacked == some .lt) = true)).trans ?_
    rw [compare_placeOf hy' hx', beq_iff_eq, Option.some_inj, Std.OrientedCmp.gt_iff_lt]
    rfl
  unfold compareDouble?
  simp only [hlt, hgt, beq_iff_compare_place hx hy]
  cases compare x.place y.place <;> rfl

theorem place_of_isNaN (h : x.isNaN = true) : x.place = [3] := by
  unfold place
  rw [(isNaN_iff x).1 h]
  rfl

theorem place_lt (h : x.isNaN = false) : compare x.place [3] = .lt := by
  unfold place
  cases hx : x.unpacked with
  | notANumber =>
    rw [(isNaN_iff x).2 hx] at h
    cases h
  | infinity s => cases s <;> rfl
  | zero s => rfl
  | finite s m e hm => cases s <;> rfl

/-- Doubles are sorted by their places. -/
theorem orderDouble_eq (x y : Double) : Value.orderDouble x y = compare x.place y.place := by
  unfold Value.orderDouble
  cases hx : x.isNaN <;> cases hy : y.isNaN
  · dsimp only
    rw [compareDouble?_eq hx hy]
    rfl
  · rw [place_of_isNaN hy, place_lt hx]
  · rw [place_of_isNaN hx, Std.OrientedOrd.eq_swap, place_lt hy]
    rfl
  · rw [place_of_isNaN hx, place_of_isNaN hy]
    rfl

end Double

end PropertyGraph
