import PropertyGraph.Number.Binary

/-!
# Written numbers

`shortest m e` is the decimal `digits · 10 ^ exponent` with the fewest digits among those that
round to the double `m · 2 ^ e`, and of these the nearest to it; between two equally near ones the
larger is taken.  The reals that round to a double form an interval around it, whose ends belong to
it when the mantissa is even.

Three texts of a double.  `plain` is its shortest decimal in positional notation, `oneDecimal`
writes a whole number exactly and with one decimal, and `compact` writes shortest digits with at
least one decimal, in exponent notation below `10 ^ -4` and from `10 ^ 16` on.
-/

namespace PropertyGraph.Number

/-! ## Shortest decimal -/

/-- A decimal `digits · 10 ^ exponent`. -/
structure Decimal where
  digits : Nat
  exponent : Int
deriving DecidableEq, Repr

/-- Removes zeros at the end of the digits. -/
def stripZeros : Nat → Decimal → Decimal
  | 0, d => d
  | fuel + 1, d =>
    if d.digits ≠ 0 ∧ d.digits % 10 = 0 then stripZeros fuel ⟨d.digits / 10, d.exponent + 1⟩ else d

/-- The interval of the reals that round to a double, all over one denominator. -/
structure Interval where
  low : Nat
  value : Nat
  high : Nat
  denominator : Nat
  closed : Bool

/-- The interval of the double `m · 2 ^ e`.  Below a power of two the next double is half as far. -/
def Interval.around (m : Nat) (e : Int) : Interval :=
  let below := if m = Nat.pow 2 52 ∧ -1074 < e then 1 else 2
  let scale := Nat.pow 2 (e - 2).toNat
  ⟨(4 * m - below) * scale, 4 * m * scale, (4 * m + 2) * scale, Nat.pow 2 (2 - e).toNat, m % 2 = 0⟩

/-- Does `c · 10 ^ k` lie in the interval? -/
def Interval.holds (i : Interval) (c : Nat) (k : Int) : Bool :=
  let x := c * Nat.pow 10 k.toNat * i.denominator
  let unit := Nat.pow 10 (-k).toNat
  if i.closed then decide (i.low * unit ≤ x ∧ x ≤ i.high * unit)
  else decide (i.low * unit < x ∧ x < i.high * unit)

/-- The two neighbours of the value on the grid `10 ^ k`, the lower one and whether the upper one
is at least as near. -/
def Interval.neighbours (i : Interval) (k : Int) : Nat × Bool :=
  let num := i.value * Nat.pow 10 (-k).toNat
  let den := i.denominator * Nat.pow 10 k.toNat
  (num / den, den ≤ 2 * (num % den))

/-- The first grid from `10 ^ k` downwards with a point in the interval gives the decimal. -/
def Interval.search (i : Interval) : Nat → Int → Decimal
  | 0, k => ⟨(i.neighbours k).1, k⟩
  | fuel + 1, k =>
    let (c, upperNearer) := i.neighbours k
    match i.holds c k, i.holds (c + 1) k with
    | true, true => ⟨if upperNearer then c + 1 else c, k⟩
    | true, false => ⟨c, k⟩
    | false, true => ⟨c + 1, k⟩
    | false, false => i.search fuel (k - 1)

/-- The shortest decimal that rounds to `m · 2 ^ e`. -/
def shortest (m : Nat) (e : Int) : Decimal :=
  if m = 0 then ⟨0, 0⟩
  else
    let start := Int.fdiv (((Nat.log2 m : Int) + 1 + e) * 30103) 100000 + 1
    stripZeros 20 ((Interval.around m e).search 24 start)

/-! ## Texts -/

/-- A run of zeros. -/
def zeros (n : Nat) : String :=
  String.ofList (List.replicate n '0')

/-- The text after a sign. -/
def signed (negative : Bool) (text : String) : String :=
  if negative then "-" ++ text else text

/-- Positional notation of a decimal. -/
def Decimal.positional (d : Decimal) : String :=
  let text := toString d.digits
  if 0 ≤ d.exponent then text ++ zeros d.exponent.toNat
  else
    let places := (-d.exponent).toNat
    let cs := text.toList
    if places < cs.length then
      String.ofList (cs.take (cs.length - places)) ++ "." ++
        String.ofList (cs.drop (cs.length - places))
    else "0." ++ zeros (places - cs.length) ++ text

/-- Exponent notation of a decimal: one digit, the others behind a point, the power of ten. -/
def Decimal.scientific (d : Decimal) : String :=
  match (toString d.digits).toList with
  | [] => ""
  | c :: [] => String.ofList [c] ++ "e" ++ toString d.exponent
  | c :: cs =>
    String.ofList (c :: '.' :: cs) ++ "e" ++ toString (d.exponent + (cs.length : Int))

/-- Texts of the doubles that are not finite. -/
def nonFinite (negative : Bool) : String :=
  signed negative "inf"

/-- The shortest decimal of a double in positional notation. -/
def plain (x : Double) : String :=
  match parts x with
  | .nan => "NaN"
  | .infinite negative => nonFinite negative
  | .finite negative m e => signed negative (shortest m e).positional

/-- A whole number with all its digits and one decimal; any other double as `plain` has it. -/
def oneDecimal (x : Double) : String :=
  match parts x with
  | .finite negative m e =>
    let p := Parts.finite negative m e
    if p.isIntegral then signed negative (toString p.wholeMagnitude ++ ".0") else plain x
  | _ => plain x

/-- The order of magnitude of a decimal: the power of ten of its first digit. -/
def Decimal.magnitude (d : Decimal) : Int :=
  d.exponent + ((toString d.digits).length : Int) - 1

/-- Shortest digits with at least one decimal; exponents below -4 and from 16 on are written. -/
def compact (x : Double) : String :=
  match parts x with
  | .finite negative m e =>
    let d := shortest m e
    if d.digits = 0 then signed negative "0.0"
    else if -4 ≤ d.magnitude ∧ d.magnitude < 16 then
      signed negative (d.positional ++ if 0 ≤ d.exponent then ".0" else "")
    else signed negative d.scientific
  | _ => plain x

end PropertyGraph.Number
