import PropertyGraph.Error
import PropertyGraph.Number.Reader
import PropertyGraph.Value.Text

/-!
# Arithmetic on values

Integers compute exactly and fail where the result leaves 64 bits; an integer and a double compute
as doubles.  `+` also joins texts and lists and shifts dates.  A null operand makes the result null.
-/

namespace PropertyGraph

/-- The error of a value that is not of the wanted kind. -/
def Error.mismatch (wanted : String) (actual : Value) : Error :=
  .typeMismatch wanted actual.typeName

namespace Value

/-! ## Numbers -/

/-- The integer as a value, if it fits 64 bits. -/
def ofInt (n : Int) : Except Error Value :=
  match Number.int64? n with
  | some m => .ok (.int m)
  | none => .error (.invalidArgument .integerOverflow)

/-- Both values as doubles, or the error of the first that is no number. -/
def numbers (a b : Value) : Except Error (Double × Double) :=
  match a.toDouble?, b.toDouble? with
  | some x, some y => .ok (x, y)
  | none, _ => .error (.mismatch "a number" a)
  | _, none => .error (.mismatch "a number" b)

/-- The result of an operation on doubles. -/
def onDoubles (f : Double → Double → Double) (a b : Value) : Except Error Value :=
  (numbers a b).map fun (x, y) => .float (f x y)

/-- The date shifted by a duration. -/
def shiftDate (date : Date) (d : Duration) : Except Error Value :=
  match d.addToDate? date with
  | some shifted => .ok (.date shifted)
  | none => .error (.invalidArgument .dateOutOfRange)

/-- Does the value join texts as its own text? -/
def joinsText : Value → Bool
  | .int _ | .float _ | .bool _ => true
  | _ => false

/-! ## Operations -/

/-- Addition; texts and lists are joined. -/
def add (a b : Value) : Except Error Value :=
  match a, b with
  | .null, _ => .ok .null
  | _, .null => .ok .null
  | .int x, .int y => ofInt (x.toInt + y.toInt)
  | .text x, .text y => .ok (.text (x ++ y))
  | .list xs, .list ys => .ok (.list (xs ++ ys))
  | .list xs, y => .ok (.list (xs ++ [y]))
  | x, .list ys => .ok (.list (x :: ys))
  | .duration x, .duration y => .ok (.duration (x.add y))
  | .date x, .duration d => shiftDate x d
  | .duration d, .date x => shiftDate x d
  | .text x, y =>
    if y.joinsText then .ok (.text (x ++ y.toText)) else onDoubles (· + ·) a b
  | x, .text y =>
    if x.joinsText then .ok (.text (x.toText ++ y)) else onDoubles (· + ·) a b
  | _, _ => onDoubles (· + ·) a b

/-- Subtraction. -/
def sub (a b : Value) : Except Error Value :=
  match a, b with
  | .null, _ => .ok .null
  | _, .null => .ok .null
  | .int x, .int y => ofInt (x.toInt - y.toInt)
  | .duration x, .duration y => .ok (.duration (x.add y.negate))
  | .date x, .duration d => shiftDate x d.negate
  | _, _ => onDoubles (· - ·) a b

/-- Multiplication. -/
def mul (a b : Value) : Except Error Value :=
  match a, b with
  | .null, _ => .ok .null
  | _, .null => .ok .null
  | .int x, .int y => ofInt (x.toInt * y.toInt)
  | _, _ => onDoubles (· * ·) a b

/-- Division; that of integers rounds toward zero. -/
def div (a b : Value) : Except Error Value :=
  match a, b with
  | .null, _ => .ok .null
  | _, .null => .ok .null
  | .int x, .int y =>
    if y = 0 then .error (.invalidArgument (.divisionByZero "/"))
    else ofInt (x.toInt.tdiv y.toInt)
  | _, _ => onDoubles (· / ·) a b

/-- The remainder of a division; integers whose quotient does not fit fail like the quotient. -/
def mod (a b : Value) : Except Error Value :=
  match a, b with
  | .null, _ => .ok .null
  | _, .null => .ok .null
  | .int x, .int y =>
    if y = 0 then .error (.invalidArgument (.divisionByZero "%"))
    else (ofInt (x.toInt.tdiv y.toInt)).bind fun _ => ofInt (x.toInt.tmod y.toInt)
  | _, _ => onDoubles Number.remainder a b

/-- Powers, always of doubles. -/
def pow (a b : Value) : Except Error Value :=
  match a, b with
  | .null, _ => .ok .null
  | _, .null => .ok .null
  | _, _ => onDoubles Double.pow a b

/-- The negative of a number or a duration. -/
def negate : Value → Except Error Value
  | .null => .ok .null
  | .int x => ofInt (-x.toInt)
  | .float x => .ok (.float (-x))
  | .duration d => .ok (.duration d.negate)
  | v => .error (.mismatch "a number" v)

end Value

end PropertyGraph
