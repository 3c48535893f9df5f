import PropertyGraph.Number.Binary

/-!
# Reading numbers

`readInt64?` reads a decimal integer that fits 64 bits, `readDouble?` a decimal with optional point
and exponent, or a word for an infinity or for no number.  Both read the whole text and skip no
blanks.
-/

namespace PropertyGraph.Number

/-- The number that decimal digits stand for. -/
def ofDigits (cs : List Char) : Nat :=
  cs.foldl (fun n c => 10 * n + (c.toNat - 48)) 0

/-- An optional sign, and what follows it. -/
def takeSign : List Char → Bool × List Char
  | '-' :: cs => (true, cs)
  | '+' :: cs => (false, cs)
  | cs => (false, cs)

/-- An integer with an optional sign. -/
def readInt? (cs : List Char) : Option Int :=
  let (negative, digits) := takeSign cs
  if !digits.isEmpty && digits.all Char.isDigit then
    let n : Int := ofDigits digits
    some (if negative then -n else n)
  else none

/-- Does the integer fit 64 bits with sign? -/
def fitsInt64 (n : Int) : Bool :=
  decide (-0x8000000000000000 ≤ n ∧ n < 0x8000000000000000)

/-- The integer as a 64-bit word, if it fits. -/
def int64? (n : Int) : Option Int64 :=
  if fitsInt64 n then some (Int64.ofInt n) else none

/-- A decimal integer that fits 64 bits. -/
def readInt64? (s : String) : Option Int64 :=
  (readInt? s.toList).bind int64?

/-- The double nearest to `± digits · 10 ^ exponent`.  Exponents far outside the range of doubles
are settled by the number of digits. -/
def ofDecimal (negative : Bool) (digits : List Char) (exponent : Int) : Double :=
  let significant := digits.dropWhile (· == '0')
  let n := ofDigits significant
  let top := exponent + (significant.length : Int)
  if n = 0 ∨ top < -400 then nearest negative 0 1
  else if 400 < top then nearest negative (Nat.pow 10 400) 1
  else nearest negative (n * Nat.pow 10 exponent.toNat) (Nat.pow 10 (-exponent).toNat)

/-- The exponent part of a decimal: absent, or `e` with a signed run of digits. -/
def readExponent? : List Char → Option Int
  | [] => some 0
  | c :: cs => if c == 'e' || c == 'E' then readInt? cs else none

/-- A decimal without sign. -/
def readMagnitude? (negative : Bool) (cs : List Char) : Option Double :=
  let whole := cs.takeWhile Char.isDigit
  let rest := cs.dropWhile Char.isDigit
  let (fraction, rest) := match rest with
    | '.' :: rest => (rest.takeWhile Char.isDigit, rest.dropWhile Char.isDigit)
    | rest => ([], rest)
  if whole.isEmpty && fraction.isEmpty then none
  else (readExponent? rest).map fun e =>
    ofDecimal negative (whole ++ fraction) (e - (fraction.length : Int))

/-- The words for numbers that have no digits, in any case. -/
def readWord? (negative : Bool) (cs : List Char) : Option Double :=
  match String.ofList (cs.map Char.toLower) with
  | "inf" | "infinity" => some (signed .infinity)
  | "nan" => some (signed .nan)
  | _ => none
where
  /-- The number with the sign. -/
  signed (x : Double) : Double := if negative then -x else x

/-- A decimal with an optional sign, or a word for a number without digits. -/
def readDouble? (s : String) : Option Double :=
  let (negative, cs) := takeSign s.toList
  (readMagnitude? negative cs).or (readWord? negative cs)

end PropertyGraph.Number
