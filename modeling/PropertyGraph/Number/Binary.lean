import PropertyGraph.Number.Double

/-!
# Doubles as exact numbers

A finite double is `± mantissa · 2 ^ exponent`.  `parts` takes a double apart, `nearest` rounds a
quotient of natural numbers to the nearest double, ties to the even mantissa.  `plus`, `times` and
`fraction` do arithmetic that way: the exact result, rounded once.
-/

namespace PropertyGraph.Number

/-- What a double stands for. -/
inductive Parts where
  | nan
  | infinite (negative : Bool)
  | finite (negative : Bool) (mantissa : Nat) (exponent : Int)
deriving DecidableEq, Repr

/-- The parts of the double with these 64 bits. -/
def partsOfBits (bits : Nat) : Parts :=
  let negative := decide (Nat.pow 2 63 ≤ bits)
  let biased : Nat := bits / Nat.pow 2 52 % Nat.pow 2 11
  let fraction : Nat := bits % Nat.pow 2 52
  if biased = 2047 then
    if fraction = 0 then .infinite negative else .nan
  else if biased = 0 then .finite negative fraction (-1074)
  else .finite negative (Nat.pow 2 52 + fraction) ((biased : Int) - 1075)

/-- The parts of a double. -/
def parts (x : Double) : Parts :=
  partsOfBits x.bits.toNat

/-- The quotient rounded to the nearest natural number, a half to the even one. -/
def roundDiv (num den : Nat) : Nat :=
  let q := num / den
  let twice := 2 * (num % den)
  if twice < den then q
  else if den < twice then q + 1
  else if q % 2 = 0 then q else q + 1

/-- `n · 2 ^ k` for a non-negative `k`, and `n` for a negative one. -/
def scaleUp (n : Nat) (k : Int) : Nat :=
  n * Nat.pow 2 k.toNat

/-- The bits of the double nearest to a positive quotient, without the sign. -/
def nearestBits (num den : Nat) : Nat :=
  let gap : Int := (Nat.log2 num : Int) - Nat.log2 den
  let top := if scaleUp den gap ≤ scaleUp num (-gap) then gap else gap - 1
  let exponent := max (top - 52) (-1074)
  let mantissa := roundDiv (scaleUp num (-exponent)) (scaleUp den exponent)
  min ((exponent + 1074).toNat * Nat.pow 2 52 + mantissa) (2047 * Nat.pow 2 52)

/-- The double nearest to `± num / den`; a quotient past the largest double is infinite. -/
def nearest (negative : Bool) (num den : Nat) : Double :=
  let bits := if num = 0 ∨ den = 0 then 0 else nearestBits num den
  ⟨.ofNat (if negative then Nat.pow 2 63 + bits else bits)⟩

/-- Has the double no fractional part?  An infinity or a NaN has no answer but `false`. -/
def Parts.isIntegral : Parts → Bool
  | .finite _ m e => 0 ≤ e || m % Nat.pow 2 (-e).toNat == 0
  | _ => false

/-- The whole part of the magnitude of a finite double. -/
def Parts.wholeMagnitude : Parts → Nat
  | .finite _ m e => scaleUp m e / Nat.pow 2 (-e).toNat
  | _ => 0

/-- The natural number nearest to the magnitude of a finite double, a half rounded up. -/
def Parts.roundedMagnitude : Parts → Nat
  | .finite _ m e =>
    (2 * scaleUp m e + Nat.pow 2 (-e).toNat) / (2 * Nat.pow 2 (-e).toNat)
  | _ => 0

/-- A magnitude with a sign. -/
def withSign (negative : Bool) (n : Nat) : Int := if negative then -n else n

/-- A magnitude with the sign of a double, brought between two bounds; no number becomes zero. -/
def Parts.clamp (low high : Int) (magnitude : Nat) : Parts → Int
  | .nan => 0
  | .infinite negative => if negative then low else high
  | .finite negative _ _ => max low (min high (withSign negative magnitude))

/-! ## Remainder -/

/-- The remainder of a division that rounds toward zero, exact, with the sign of the dividend. -/
def remainder (x y : Double) : Double :=
  match parts x, parts y with
  | .finite negative m e, .finite _ m' e' =>
    if m' = 0 then .invalid
    else
      let low := min e e'
      nearest negative (scaleUp (scaleUp m (e - low) % scaleUp m' (e' - low)) low)
        (Nat.pow 2 (-low).toNat)
  | .finite _ _ _, .infinite _ => x
  | .nan, _ => x.quiet
  | _, .nan => y.quiet
  | .infinite _, _ => .invalid

/-! ## Sums and multiples -/

/-- The sum of two doubles, rounded. -/
def plus (x y : Double) : Double :=
  match parts x, parts y with
  | .finite negative m e, .finite negative' m' e' =>
    let low := min e e'
    let total :=
      withSign negative (scaleUp m (e - low)) + withSign negative' (scaleUp m' (e' - low))
    nearest (total < 0 || total == 0 && negative && negative') (scaleUp total.natAbs low)
      (Nat.pow 2 (-low).toNat)
  | .nan, _ => x.quiet
  | _, .nan => y.quiet
  | .infinite negative, .infinite negative' => if negative = negative' then x else .invalid
  | .infinite _, _ => x
  | _, .infinite _ => y

/-- The product of a double and a positive integer, rounded. -/
def times (x : Double) (k : Nat) : Double :=
  match parts x with
  | .finite negative m e => nearest negative (scaleUp (m * k) e) (Nat.pow 2 (-e).toNat)
  | .infinite _ => x
  | .nan => x.quiet

/-- What a double has behind its point. -/
def fraction (x : Double) : Double :=
  match parts x with
  | .finite negative m e =>
    nearest negative (scaleUp m e % Nat.pow 2 (-e).toNat) (Nat.pow 2 (-e).toNat)
  | .infinite _ => .invalid
  | .nan => x.quiet

end PropertyGraph.Number
