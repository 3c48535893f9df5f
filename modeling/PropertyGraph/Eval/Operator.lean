import PropertyGraph.Query.Expr
import PropertyGraph.Text.Basic
import PropertyGraph.Value.Arithmetic
import PropertyGraph.Value.Order

/-!
# Operators and access to parts

The operators of expressions on values: logic with an unknown, comparisons, membership, texts, and
the parts of containers and elements.
-/

namespace PropertyGraph

namespace Value

/-! ## Truth values -/

/-- The truth value that a value is; null is the unknown. -/
def toTruth : Value → Except Error Truth
  | .null => .ok none
  | .bool b => .ok (some b)
  | v => .error (.mismatch "BOOLEAN" v)

/-- A truth value as a value. -/
def ofTruth : Truth → Value
  | some b => .bool b
  | none => .null

/-! ## Binary operators -/

/-- Does an ordering satisfy a comparison? -/
def satisfies (op : BinaryOp) (o : Ordering) : Bool :=
  match op with
  | .less => o == .lt
  | .lessEqual => o != .gt
  | .greater => o == .gt
  | _ => o != .lt

/-- An ordered comparison: null with a null, false between values that have no order. -/
def compareBy (op : BinaryOp) (a b : Value) : Value :=
  if a.isNull || b.isNull then .null
  else .bool (((compare? a b).map (satisfies op)).getD false)

/-- Is the value one of the items?  Unknown where only a null could be it. -/
def oneOf (v : Value) (items : List Value) : Truth :=
  items.foldr (fun item rest => Truth.or (equal? v item) rest) (some false)

/-- Membership in a list. -/
def isIn (v list : Value) : Except Error Value :=
  match list with
  | .null => .ok .null
  | .list items => .ok (ofTruth (oneOf v items))
  | other => .error (.mismatch "LIST" other)

/-- A test of two texts; null for any other pair. -/
def onTexts (test : List Char → List Char → Bool) (a b : Value) : Value :=
  match a, b with
  | .text s, .text t => .bool (test s.toList t.toList)
  | _, _ => .null

/-- A logical operator, both of whose sides have been computed. -/
def logical (f : Truth → Truth → Truth) (a b : Value) : Except Error Value := do
  let x ← a.toTruth
  let y ← b.toTruth
  return ofTruth (f x y)

/-- A binary operator on two values. -/
def applyBinary (op : BinaryOp) (a b : Value) : Except Error Value :=
  match op with
  | .add => a.add b
  | .subtract => a.sub b
  | .multiply => a.mul b
  | .divide => a.div b
  | .modulo => a.mod b
  | .power => a.pow b
  | .and => logical Truth.and a b
  | .or => logical Truth.or a b
  | .xor => logical Truth.xor a b
  | .equal => .ok (ofTruth (equal? a b))
  | .notEqual => .ok (ofTruth (equal? a b).not)
  | .less | .lessEqual | .greater | .greaterEqual => .ok (compareBy op a b)
  | .isIn => a.isIn b
  | .startsWith => .ok (onTexts (fun s t => t.isPrefixOf s) a b)
  | .endsWith => .ok (onTexts (fun s t => t.isSuffixOf s) a b)
  | .contains => .ok (onTexts (fun s t => Text.occursIn t s) a b)
  | .matches => .error (.notImplemented "regular expression match (=~)")

/-! ## Unary operators -/

/-- An operator before its operand. -/
def applyUnary (op : UnaryOp) (v : Value) : Except Error Value :=
  match op with
  | .not => return ofTruth (← v.toTruth).not
  | .negate => v.negate
  | .plus => if v.isNull || v.isNumber then .ok v else .error (.mismatch "a number" v)

/-! ## Parts -/

/-- A part of a date. -/
def datePart? (d : Date) : String → Option Value
  | "year" => some (.int (.ofInt d.year))
  | "month" => some (.int (.ofNat d.month))
  | "day" => some (.int (.ofNat d.day))
  | _ => none

/-- A part of a duration. -/
def durationPart? (d : Duration) : String → Option Value
  | "months" => some (.int d.months)
  | "days" => some (.int d.days)
  | "seconds" => some (.int d.seconds)
  | "nanoseconds" => some (.int (.ofInt d.nanos.toInt))
  | _ => none

/-- The part of a value under a key, null if it has none.  `stored` gives the form in which the
store holds the name of a property. -/
def part (stored : String → String) (v : Value) (key : String) : Except Error Value :=
  match v with
  | .null => .ok .null
  | .node v => .ok ((v.property? (stored key)).getD .null)
  | .relationship e => .ok ((e.property? (stored key)).getD .null)
  | .map entries => .ok ((Entries.get? key entries).getD .null)
  | .date d => .ok ((datePart? d key).getD .null)
  | .duration d => .ok ((durationPart? d key).getD .null)
  | v => .error (.mismatch "NODE, RELATIONSHIP or MAP" v)

/-- The item of a list at a position; a negative position counts from the end. -/
def itemAt (items : List Value) (position : Int) : Value :=
  let i := if position < 0 then (items.length : Int) + position else position
  if i < 0 then .null else (items[i.toNat]?).getD .null

/-- What stands in a container at an index. -/
def index (stored : String → String) (v i : Value) : Except Error Value :=
  match v, i with
  | .null, _ => .ok .null
  | _, .null => .ok .null
  | .list items, .int n => .ok (itemAt items n.toInt)
  | .list _, i => .error (.mismatch "INTEGER" i)
  | .map _, .text key | .node _, .text key | .relationship _, .text key => v.part stored key
  | .map _, i | .node _, i | .relationship _, i => .error (.mismatch "STRING" i)
  | v, _ => .error (.mismatch "LIST or MAP" v)

/-- A bound of a slice of a list of some length: a default where there is none, unknown for null,
and counted from the end where it is negative. -/
def sliceBound (length : Nat) (default : Int) : Option Value → Except Error (Option Int)
  | none => .ok (some default)
  | some .null => .ok none
  | some (.int n) =>
    .ok (some (if n < 0 then max (length + n.toInt) 0 else min n.toInt length))
  | some v => .error (.mismatch "INTEGER" v)

/-- The items of a list from a lower bound up to an upper one. -/
def slice (v : Value) (lower upper : Option Value) : Except Error Value :=
  match v with
  | .null => .ok .null
  | .list items => do
    let low ← sliceBound items.length 0 lower
    let high ← sliceBound items.length items.length upper
    match low, high with
    | some low, some high =>
      return .list ((items.drop low.toNat).take (high - low).toNat)
    | _, _ => return .null
  | v => .error (.mismatch "LIST" v)

/-- Does a vertex carry all the labels?  `stored` gives the form in which the store holds them. -/
def carries (stored : String → String) (labels : List String) : Value → Except Error Value
  | .null => .ok .null
  | .node v => .ok (.bool (labels.all fun l => v.hasLabel (stored l)))
  | v => .error (.mismatch "NODE" v)

end Value

/-! ## Quantifiers -/

/-- What a quantifier says of a list on which a predicate is so often true, false and unknown. -/
def Quantifier.decide (kind : Quantifier) (trues falses unknowns : Nat) : Truth :=
  match kind with
  | .all => if 0 < falses then some false else if 0 < unknowns then Option.none else some true
  | .any => if 0 < trues then some true else if 0 < unknowns then Option.none else some false
  | .none => if 0 < trues then some false else if 0 < unknowns then Option.none else some true
  | .single =>
    if 1 < trues then some false else if 0 < unknowns then Option.none else some (trues == 1)

end PropertyGraph
