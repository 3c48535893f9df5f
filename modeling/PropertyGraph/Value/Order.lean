import PropertyGraph.Text.Case
import PropertyGraph.Value.Basic

/-!
# Comparison of values

Three relations beside `Value.same`.  `equal?` is the `=` of the language, unknown where a null is
compared; `compare?` is its `<`, defined between values of one kind; `order` puts all values in one
line for sorting, numbers first and null last, texts regardless of case.

Truth values have an unknown, `none`.  A conjunction is false as soon as one side is, a disjunction
true as soon as one side is, and otherwise an unknown side makes the whole unknown.
-/

namespace PropertyGraph

/-! ## Three-valued truth -/

/-- True, false, or unknown. -/
abbrev Truth := Option Bool

namespace Truth

/-- Conjunction. -/
def and : Truth → Truth → Truth
  | some false, _ => some false
  | _, some false => some false
  | some true, some true => some true
  | _, _ => none

/-- Disjunction. -/
def or : Truth → Truth → Truth
  | some true, _ => some true
  | _, some true => some true
  | some false, some false => some false
  | _, _ => none

/-- Exclusive disjunction. -/
def xor : Truth → Truth → Truth
  | some a, some b => some (a != b)
  | _, _ => none

/-- Negation. -/
def not : Truth → Truth
  | some b => some !b
  | none => none

end Truth

/-! ## Numbers and booleans -/

/-- The order of two doubles, unless one is no number. -/
def compareDouble? (x y : Double) : Option Ordering :=
  if x < y then some .lt else if x == y then some .eq else if y < x then some .gt else none

/-- The order of two words. -/
def compareInt64 (a b : Int64) : Ordering :=
  compare a.toInt b.toInt

/-- False before true. -/
def compareBool (a b : Bool) : Ordering :=
  compare a.toNat b.toNat

namespace Value

/-- The order of two values as numbers, if both are. -/
def compareNumbers? (a b : Value) : Option Ordering :=
  match a.toDouble?, b.toDouble? with
  | some x, some y => compareDouble? x y
  | _, _ => none

/-! ## The comparisons of the language -/

mutual

/-- The order of two values of one kind; none for other pairs, and for any null. -/
def compare? : Value → Value → Option Ordering
  | .int a, .int b => some (compareInt64 a b)
  | .text a, .text b => some (Ord.compare a b)
  | .bool a, .bool b => some (compareBool a b)
  | .date a, .date b => some (a.compare b)
  | .duration a, .duration b => compareDouble? a.approxSeconds b.approxSeconds
  | .list as, .list bs => compareItems? as bs
  | a, b => compareNumbers? a b

/-- The order of two lists: that of the first items that differ, else that of the lengths. -/
def compareItems? : List Value → List Value → Option Ordering
  | [], [] => some .eq
  | [], _ :: _ => some .lt
  | _ :: _, [] => some .gt
  | a :: as, b :: bs =>
    match compare? a b with
    | none => none
    | some .eq => compareItems? as bs
    | some o => some o

end

mutual

/-- Equality with an unknown: a null equals nothing and differs from nothing. -/
def equal? : Value → Value → Truth
  | .null, _ => none
  | _, .null => none
  | .int a, .int b => some (a == b)
  | .list as, .list bs => equalItems? as bs
  | .map as, .map bs => equalEntries? as bs
  | a, b =>
    match a.toDouble?, b.toDouble? with
    | some x, some y => some (x == y)
    | _, _ => some (a.same b)

/-- Equality of lists: false if the lengths or two items differ. -/
def equalItems? : List Value → List Value → Truth
  | [], [] => some true
  | a :: as, b :: bs => Truth.and (equal? a b) (equalItems? as bs)
  | _, _ => some false

/-- Equality of maps: false if the names or two values of a name differ. -/
def equalEntries? : List (String × Value) → List (String × Value) → Truth
  | [], [] => some true
  | (k, a) :: as, (l, b) :: bs =>
    if k = l then Truth.and (equal? a b) (equalEntries? as bs) else some false
  | _, _ => some false

end

/-! ## The order of sorting -/

/-- The place of a kind of value in the line. -/
def rank : Value → Nat
  | .int _ | .float _ => 0
  | .text _ => 1
  | .bool _ => 2
  | .date _ => 3
  | .duration _ => 4
  | .list _ => 5
  | .map _ => 6
  | .node _ => 7
  | .relationship _ => 8
  | .path _ => 9
  | .null => 10

/-- The order of two numbers, with what is no number last. -/
def orderDouble (x y : Double) : Ordering :=
  match x.isNaN, y.isNaN with
  | true, true => .eq
  | true, false => .gt
  | false, true => .lt
  | false, false => (compareDouble? x y).getD .eq

/-- Shorter paths first, then by the ids of the vertices. -/
def orderPaths (p q : Path) : Ordering :=
  (Ord.compare p.length q.length).then
    (Ord.compare (p.vertices.map (·.id)) (q.vertices.map (·.id)))

/-- The order of two values that are no containers, within one rank. -/
def orderPlain (a b : Value) : Ordering :=
  match a, b with
  | .int x, .int y => compareInt64 x y
  | .text x, .text y => Ord.compare (Text.foldKey x) (Text.foldKey y)
  | .bool x, .bool y => compareBool x y
  | .date x, .date y => x.compare y
  | .duration x, .duration y => (compareDouble? x.approxSeconds y.approxSeconds).getD .eq
  | .node x, .node y => Ord.compare x.id y.id
  | .relationship x, .relationship y => Ord.compare x.id y.id
  | .path x, .path y => orderPaths x y
  | a, b =>
    match a.toDouble?, b.toDouble? with
    | some x, some y => orderDouble x y
    | _, _ => .eq

mutual

/-- The place of a value relative to another. -/
def order : Value → Value → Ordering
  | .list as, .list bs => orderItems as bs
  | .map as, .map bs => orderEntries as bs
  | a, b => (Ord.compare a.rank b.rank).then (orderPlain a b)

/-- Lists by their first items that differ in place, else by length. -/
def orderItems : List Value → List Value → Ordering
  | [], [] => .eq
  | [], _ :: _ => .lt
  | _ :: _, [] => .gt
  | a :: as, b :: bs => (order a b).then (orderItems as bs)

/-- Maps by their first entries that differ in name or place, else by size. -/
def orderEntries : List (String × Value) → List (String × Value) → Ordering
  | [], [] => .eq
  | [], _ :: _ => .lt
  | _ :: _, [] => .gt
  | (k, a) :: as, (l, b) :: bs =>
    (Ord.compare k l).then ((order a b).then (orderEntries as bs))

end

end Value

end PropertyGraph
