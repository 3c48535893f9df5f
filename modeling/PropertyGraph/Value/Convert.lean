import PropertyGraph.Text.Case
import PropertyGraph.Value.Arithmetic

/-!
# Conversions

Conversions between the scalar kinds.  A text that does not read as the wanted kind becomes null, a
value of a kind that does not convert is an error, and null stays null.
-/

namespace PropertyGraph.Value

/-- Conversion to an integer; doubles lose their fraction and are clamped to 64 bits. -/
def toInteger : Value → Except Error Value
  | .null => .ok .null
  | .int n => .ok (.int n)
  | .float x => .ok (.int x.toFloat.toInt64)
  | .text s =>
    let s := Text.trim s
    match Number.readInt64? s, Number.readDouble? s with
    | some n, _ => .ok (.int n)
    | none, some x => .ok (.int x.toFloat.toInt64)
    | none, none => .ok .null
  | .bool b => .ok (.int (if b then 1 else 0))
  | v => .error (.mismatch "INTEGER, FLOAT, STRING or BOOLEAN" v)

/-- Conversion to a double. -/
def toFloat : Value → Except Error Value
  | .null => .ok .null
  | .float x => .ok (.float x)
  | .int n => .ok (.float (.ofInt64 n))
  | .text s => .ok (((Number.readDouble? (Text.trim s)).map Value.float).getD .null)
  | v => .error (.mismatch "INTEGER, FLOAT or STRING" v)

/-- Conversion to a truth value. -/
def toBoolean : Value → Except Error Value
  | .null => .ok .null
  | .bool b => .ok (.bool b)
  | .int n => .ok (.bool (n != 0))
  | .text s =>
    match Text.lower (Text.trim s) with
    | "true" => .ok (.bool true)
    | "false" => .ok (.bool false)
    | _ => .ok .null
  | v => .error (.mismatch "BOOLEAN, INTEGER or STRING" v)

/-- Conversion of a scalar to its text. -/
def toTextValue : Value → Except Error Value
  | .null => .ok .null
  | .text s => .ok (.text s)
  | .int n => .ok (.text (Value.int n).toText)
  | .float x => .ok (.text (Value.float x).toText)
  | .bool b => .ok (.text (Value.bool b).toText)
  | .date d => .ok (.text d.text)
  | .duration d => .ok (.text d.text)
  | v => .error (.mismatch "a scalar value" v)

end PropertyGraph.Value
