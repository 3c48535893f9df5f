import PropertyGraph.Error
import PropertyGraph.Query.Expr.Same
import PropertyGraph.Query.Expr.Text

/-!
# Lifting of aggregates

Aggregates are computed for a group of rows before the expressions that contain them.  So every
aggregate of an expression is lifted out: a hidden name stands in its place, and the aggregate is
noted with that name.  Aggregates that are written alike share one name.
-/

namespace PropertyGraph

/-- What an aggregate computes from the values of a group. -/
inductive AggregateKind where
  | rows | count | sum | average | least | greatest | collect
  /-- The deviation within a sample of a population. -/
  | sampleDeviation
  /-- The deviation within a whole population. -/
  | deviation
deriving DecidableEq, Repr

/-- The aggregate that a function, named in any case, stands for. -/
def AggregateKind.ofName? (name : String) : Option AggregateKind :=
  match Text.lower name with
  | "count" => some .count
  | "sum" => some .sum
  | "avg" => some .average
  | "min" => some .least
  | "max" => some .greatest
  | "collect" => some .collect
  | "stdev" => some .sampleDeviation
  | "stdevp" => some .deviation
  | _ => none

/-- An aggregate of a projection. -/
structure Aggregate where
  kind : AggregateKind
  /-- What is computed in each row; nothing where rows are counted. -/
  argument : Option Expr
  distinct : Bool
  /-- The hidden name of the result. -/
  slot : String
  /-- The expression that it was lifted from. -/
  source : Expr

/-- A computation that notes aggregates, or fails. -/
abbrev Lift (α : Type) := StateT (List Aggregate) (Except Error) α

namespace Lift

/-- Fails for a cause in the query's text. -/
def fail {α : Type} (cause : SyntaxError) : Lift α :=
  fun _ => .error (.syntaxError cause)

/-- The hidden name of an aggregate: that of one written alike, or a new one. -/
def note (kind : AggregateKind) (argument : Option Expr) (distinct : Bool) (source : Expr) :
    Lift Expr := fun noted =>
  match noted.find? (·.source == source) with
  | some a => .ok (.var a.slot, noted)
  | none =>
    let slot := "  agg" ++ toString noted.length
    .ok (.var slot, noted ++ [⟨kind, argument, distinct, slot, source⟩])

/-- Lifts the call of an aggregate function, which takes one argument without aggregates. -/
def call (function : String) (args : List Expr) (distinct : Bool) (source : Expr) : Lift Expr :=
  match AggregateKind.ofName? function, args with
  | none, _ => fun _ => .error (.unknownFunction function)
  | some kind, [argument] =>
    if argument.hasAggregate then fail (.nestedAggregate source.text)
    else note kind (some argument) distinct source
  | some _, args => fun _ => .error (.invalidArgument (.aggregateArity function args.length))

end Lift

namespace Expr

mutual

/-- The expression with hidden names in the place of its aggregates. -/
def liftAggregates : Expr → Lift Expr
  | .countAll => Lift.note .rows none false .countAll
  | .call f args d =>
    if isAggregateName f then Lift.call f args d (.call f args d)
    else return .call f (← liftList args) d
  | .property e key => return .property (← e.liftAggregates) key
  | .hasLabels e labels => return .hasLabels (← e.liftAggregates) labels
  | .unary op e => return .unary op (← e.liftAggregates)
  | .isNull e => return .isNull (← e.liftAggregates)
  | .isNotNull e => return .isNotNull (← e.liftAggregates)
  | .index a b => return .index (← a.liftAggregates) (← b.liftAggregates)
  | .binary op a b => return .binary op (← a.liftAggregates) (← b.liftAggregates)
  | .slice e lower upper =>
    return .slice (← e.liftAggregates) (← liftOption lower) (← liftOption upper)
  | .list items => return .list (← liftList items)
  | .map entries => return .map (← liftFields entries)
  | .case operand branches default =>
    return .case (← liftOption operand) (← liftBranches branches) (← liftOption default)
  | .comprehension x source filter result =>
    if (Expr.comprehension x source filter result).hasAggregate && !source.hasAggregate then
      Lift.fail (.aggregateOverIteration (Expr.comprehension x source filter result).text)
    else return .comprehension x (← source.liftAggregates) filter result
  | .quantified kind x source predicate =>
    if predicate.hasAggregate && !source.hasAggregate then
      Lift.fail (.aggregateOverIteration (Expr.quantified kind x source predicate).text)
    else return .quantified kind x (← source.liftAggregates) predicate
  | .literal v => return .literal v
  | .parameter x => return .parameter x
  | .var x => return .var x
  | .pattern p => return .pattern p

/-- Lifts from some expressions in turn. -/
def liftList : List Expr → Lift (List Expr)
  | [] => return []
  | e :: rest => do
    let e ← e.liftAggregates
    return e :: (← liftList rest)

/-- Lifts from the values of some fields in turn. -/
def liftFields : List (String × Expr) → Lift (List (String × Expr))
  | [] => return []
  | (key, e) :: rest => do
    let e ← e.liftAggregates
    return (key, e) :: (← liftFields rest)

/-- Lifts from the conditions and results of some branches in turn. -/
def liftBranches : List (Expr × Expr) → Lift (List (Expr × Expr))
  | [] => return []
  | (a, b) :: rest => do
    let a ← a.liftAggregates
    let b ← b.liftAggregates
    return (a, b) :: (← liftBranches rest)

/-- Lifts from an expression, if there is one. -/
def liftOption : Option Expr → Lift (Option Expr)
  | none => return none
  | some e => return some (← e.liftAggregates)

end

end Expr

end PropertyGraph
