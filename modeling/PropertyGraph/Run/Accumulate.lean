import PropertyGraph.Plan.Aggregate
import PropertyGraph.Value.Arithmetic
import PropertyGraph.Value.Order

/-!
# Accumulators

An accumulator takes in the values of one group one after the other and gives the aggregate of them.
Null values do not count, except where rows are counted; a distinct aggregate takes each value once.
-/

namespace PropertyGraph

/-- What is known of the values so far. -/
inductive Tally where
  | count (n : Nat)
  | integerSum (n : Int64)
  | floatSum (x : Double)
  | average (total : Double) (n : Nat)
  | extreme (v : Option Value)
  /-- The values, the last one first. -/
  | items (vs : List Value)
  /-- The numbers, the last one first. -/
  | samples (xs : List Double)

/-- The computation of one aggregate. -/
structure Accumulator where
  kind : AggregateKind
  distinct : Bool
  /-- The values that a distinct aggregate has taken. -/
  seen : List Value
  tally : Tally

/-- What is known before any value. -/
def AggregateKind.start : AggregateKind → Tally
  | .rows | .count => .count 0
  | .sum => .integerSum 0
  | .average => .average 0.0 0
  | .least | .greatest => .extreme none
  | .collect => .items []
  | .sampleDeviation | .deviation => .samples []

/-- Does a value take the place of the extreme one so far?  Only if it lies strictly beyond it. -/
def AggregateKind.replaces (kind : AggregateKind) (v : Value) : Option Value → Bool
  | none => true
  | some w =>
    let wanted := if kind = .least then Ordering.lt else Ordering.gt
    Value.order v w == wanted

/-- A number as a double. -/
def Value.sample (v : Value) : Except Error Double :=
  match v.toDouble? with
  | some x => .ok x
  | none => .error (.mismatch "NUMBER" v)

namespace Tally

/-- The tally with one more value, which is not null. -/
def add (kind : AggregateKind) (v : Value) : Tally → Except Error Tally
  | .count n => .ok (.count (n + 1))
  | .integerSum n =>
    match v with
    | .int m =>
      match Number.int64? (n.toInt + m.toInt) with
      | some total => .ok (.integerSum total)
      | none => .error (.invalidArgument .integerOverflowInSum)
    | .float x => .ok (.floatSum (Double.ofInt64 n + x))
    | v => .error (.mismatch "NUMBER" v)
  | .floatSum x => v.sample.map fun y => .floatSum (x + y)
  | .average total n => v.sample.map fun x => .average (total + x) (n + 1)
  | .extreme w => .ok (.extreme (if kind.replaces v w then some v else w))
  | .items vs => .ok (.items (v :: vs))
  | .samples xs => v.sample.map fun x => .samples (x :: xs)

/-- The standard deviation of some numbers: of all of a population, or of a sample of one. -/
def deviation (whole : Bool) (xs : List Double) : Double :=
  let n := if whole then xs.length else xs.length - 1
  if n = 0 then 0.0
  else
    let mean := xs.foldl (· + ·) 0.0 / Double.ofNat xs.length
    let squares := xs.foldl (fun total x => total + (x - mean) * (x - mean)) 0.0
    (squares / Double.ofNat n).sqrt

/-- The aggregate of the values. -/
def result (kind : AggregateKind) : Tally → Value
  | .count n => .int (.ofNat n)
  | .integerSum n => .int n
  | .floatSum x => .float x
  | .average total n => if n = 0 then .null else .float (total / Double.ofNat n)
  | .extreme v => v.getD .null
  | .items vs => .list vs.reverse
  | .samples xs => .float (deviation (kind = .deviation) xs.reverse)

end Tally

namespace Accumulator

/-- An accumulator without values. -/
def start (a : Aggregate) : Accumulator :=
  ⟨a.kind, a.distinct, [], a.kind.start⟩

/-- Takes in a value; where rows are counted it is of no account. -/
def add (acc : Accumulator) (v : Value) : Except Error Accumulator :=
  if acc.kind = .rows then (acc.tally.add acc.kind v).map fun tally => { acc with tally }
  else if v.isNull || (acc.distinct && acc.seen.contains v) then .ok acc
  else (acc.tally.add acc.kind v).map fun tally =>
    { acc with tally, seen := if acc.distinct then v :: acc.seen else acc.seen }

/-- The aggregate of the values taken in. -/
def result (acc : Accumulator) : Value :=
  acc.tally.result acc.kind

end Accumulator

end PropertyGraph
