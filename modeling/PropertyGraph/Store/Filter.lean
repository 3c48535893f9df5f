import PropertyGraph.Value.Basic

/-!
# Tests of a property

What a query to the store demands of one property.  The store compares an integer and a double by
value; a property that is absent or null passes no test.
-/

namespace PropertyGraph

/-- Equality in the store: that of grouping, and by value between an integer and a double. -/
def Value.storedSame : Value → Value → Bool
  | .int n, .float x => .ofInt64 n == x
  | .float x, .int n => .ofInt64 n == x
  | a, b => a.same b

/-- What is demanded of a property. -/
inductive PropertyTest where
  | equal (v : Value)
  | notEqual (v : Value)
  | oneOf (vs : List Value)
  | present

/-- Does a property, if there is one, pass the test? -/
def PropertyTest.passes (test : PropertyTest) : Option Value → Bool
  | none | some .null => false
  | some v =>
    match test with
    | .equal w => v.storedSame w
    | .notEqual w => !v.storedSame w
    | .oneOf ws => ws.any v.storedSame
    | .present => true

end PropertyGraph
