import PropertyGraph.Pattern.Constraint
import PropertyGraph.Plan.Aggregate
import PropertyGraph.Query.Clause

/-!
# Plans

A plan is what a query is carried out by: for every query of a union a list of stages, each of which
turns rows into rows.  A clause gives one stage, and a `WITH` that has a condition two.
-/

namespace PropertyGraph

/-! ## Projections -/

/-- A column of a projection, its aggregates lifted.  The columns without aggregates are the keys by
which rows are grouped where there are aggregates at all. -/
structure Column where
  expr : Expr
  name : String
  isKey : Bool

/-- What a projection does with its rows. -/
structure Projection where
  columns : List Column
  distinct : Bool
  order : List SortKey
  skip : Option Expr
  limit : Option Expr
  aggregates : List Aggregate

namespace Projection

/-- The names of the columns. -/
def names (p : Projection) : List String :=
  p.columns.map (·.name)

/-- Lifts the aggregates out of the columns. -/
def liftColumns : List (Expr × String) → Lift (List Column)
  | [] => return []
  | (e, name) :: rest => do
    let lifted ← e.liftAggregates
    return ⟨lifted, name, !e.hasAggregate⟩ :: (← liftColumns rest)

/-- Lifts the aggregates out of the sort keys; there may be some only if the columns have some. -/
def liftOrder (aggregating : Bool) : List SortKey → Lift (List SortKey)
  | [] => return []
  | key :: rest => do
    if key.expr.hasAggregate && !aggregating then
      Lift.fail (.aggregateInOrderOnly key.expr.text)
    let lifted ← key.expr.liftAggregates
    return { key with expr := lifted } :: (← liftOrder aggregating rest)

/-- The projection onto columns given by expression and name. -/
def make (columns : List (Expr × String)) (body : ProjectionBody) : Except Error Projection := do
  let (columns, noted) ← liftColumns columns []
  let (order, aggregates) ← liftOrder (!noted.isEmpty) body.order noted
  if (body.skip.toList ++ body.limit.toList).any (·.hasAggregate) then
    throw (.syntaxError .aggregateInCut)
  return ⟨columns, body.distinct, order, body.skip, body.limit, aggregates⟩

/-- Are the rows needed all at once, before the first is given? -/
def isBarrier (p : Projection) : Bool :=
  !p.aggregates.isEmpty || !p.order.isEmpty

end Projection

/-! ## Stages -/

/-- One stage of a plan. -/
inductive Stage where
  | matching (pattern : Constraints Expr) (condition : Option Expr)
  | filter (condition : Expr)
  | unwind (source : Expr) (name : String)
  | project (p : Projection)
  | create (parts : List PatternPart)
  /-- Creates each part from the same row, and joins the rows that result. -/
  | createApart (parts : List PatternPart)
  | merge (pattern : Constraints Expr) (part : PatternPart) (onCreate onMatch : List SetItem)
  | set (items : List SetItem)
  | remove (items : List RemoveItem)
  | delete (detach : Bool) (targets : List Expr)

/-- The stages of a query, or of every query of a union. -/
inductive PlanBody where
  | series (stages : List Stage)
  | union (all : Bool) (branches : List (List Stage))

/-- A plan with the columns of its result; a query without `RETURN` has none. -/
structure Plan where
  body : PlanBody
  columns : List String

namespace Stage

/-- The name of the stage. -/
def title : Stage → String
  | .matching g _ => if g.optional then "OptionalMatch" else "Match"
  | .filter _ => "Filter"
  | .unwind _ _ => "Unwind"
  | .project _ => "Projection"
  | .create _ => "Create"
  | .createApart _ => "Parallel"
  | .merge _ _ _ _ => "Merge"
  | .set _ => "Set"
  | .remove _ => "Remove"
  | .delete _ _ => "Delete"

/-- Does the stage change the graph? -/
def isWrite : Stage → Bool
  | .create _ | .createApart _ | .merge _ _ _ _ | .set _ | .remove _ | .delete _ _ => true
  | .matching _ _ | .filter _ | .unwind _ _ | .project _ => false

end Stage

/-- The name of the whole plan. -/
def PlanBody.title : PlanBody → String
  | .series _ => "Series"
  | .union _ _ => "Union"

/-- Does the plan change the graph? -/
def PlanBody.isWrite : PlanBody → Bool
  | .series stages => stages.any Stage.isWrite
  | .union _ branches => branches.any fun stages => stages.any Stage.isWrite

end PropertyGraph
