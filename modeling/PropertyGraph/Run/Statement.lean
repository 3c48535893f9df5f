import PropertyGraph.Plan.Compile
import PropertyGraph.Run.Projecting
import PropertyGraph.Run.Writing
import PropertyGraph.Value.Json

/-!
# Statements

Carrying out a plan.  Its stages are put one behind the other as flows, so that a row is computed
only when the rows of the result are asked for.  A statement that writes is carried out to its end
before it gives any row.  `Plan.explain` describes a plan with estimates from the store.
-/

namespace PropertyGraph

/-! ## Stages as flows -/

/-- The rows that `UNWIND` makes of a row: one for each item of a list, one for any other value but
null. -/
def RunContext.unwind (ctx : RunContext) (source : Expr) (name : String) (row : Row) :
    Run (List Row) := do
  let items := match ← ctx.value source row with
    | .list items => items
    | .null => []
    | v => [v]
  return items.map fun v => row.bound [(name, v)]

namespace Stage

/-- The rows that a stage other than a projection makes of the rows of a source. -/
def flow (ctx : RunContext) (source : Source Row) : Stage → Source Row
  | .matching g condition => fun s => (source s).flatMap (ctx.matchRow g condition)
  | .filter e => fun s => (source s).flatMap fun row => Flow.ofOption do
      return if ← ctx.holds e row then some row else none
  | .unwind e name => fun s => (source s).flatMap fun row => Flow.ofRun (ctx.unwind e name row)
  | .project p => p.flow ctx ⟨0, none⟩ source
  | .create parts => fun s => (source s).flatMap fun row => Flow.ofRun do
      return [← ctx.create parts row]
  | .createApart parts => fun s => (source s).flatMap fun row => Flow.ofRun do
      return [← ctx.createApart parts row]
  | .merge g part onCreate onMatch => fun s => (source s).flatMap fun row =>
      Flow.ofRun (ctx.merge g part onCreate onMatch row)
  | .set items => fun s => (source s).flatMap fun row => Flow.ofRun do
      return [← ctx.set items row]
  | .remove items => fun s => (source s).flatMap fun row => Flow.ofRun do
      return [← ctx.remove items row]
  | .delete detach targets => Flow.ofRun do
      let rows ← Flow.toList source
      ctx.delete detach targets rows
      return rows

/-- A stage put behind a source.  The numbers of rows that a projection passes over and keeps are
computed at once. -/
def attach (ctx : RunContext) (source : Source Row) (stage : Stage) : Run (Source Row) := do
  let rows ← match stage with
    | .project p => do
      let cut ← ctx.cut p
      pure (p.flow ctx cut source)
    | stage => pure (stage.flow ctx source)
  return fun s => (rows s).counted stage.title

/-- Stages one behind the other, from a row without names on. -/
def attachAll (ctx : RunContext) (stages : List Stage) : Run (Source Row) :=
  stages.foldlM (attach ctx) (Flow.single .empty)

end Stage

namespace PlanBody

/-- The values of all columns of a row. -/
def rowValues (row : Row) : List Value :=
  row.names.map fun x => (row.lookup? x).getD .null

/-- The plan as a flow of rows. -/
def flow (ctx : RunContext) : PlanBody → Run (Source Row)
  | .series stages => Stage.attachAll ctx stages
  | .union all branches => do
    let sources ← branches.mapM (Stage.attachAll ctx)
    return fun s =>
      let rows := Flow.inTurn (fun source s => source s) sources s
      let rows := if all then rows else rows.distinct rowValues []
      rows.counted "Union"

end PlanBody

/-! ## Results -/

/-- Where the rows of a result come from: rows in store, or a flow that holds cursors while it
waits; nothing when the flow is closed. -/
inductive Supply where
  | ready (rows : List Row)
  | waiting (held : Nat) (source : Source Row)
  | closed

/-- The result of a running statement. -/
structure ResultStream where
  columns : List String
  supply : Supply

namespace ResultStream

/-- The values of the result's columns in a row. -/
def project (r : ResultStream) (row : Row) : List Value :=
  r.columns.map fun x => (row.lookup? x).getD .null

/-- Closes the flow; rows in store stay. -/
def close (r : ResultStream) : StateM RunState ResultStream := fun s =>
  match r.supply with
  | .waiting held _ => ({ r with supply := .closed }, s.closeCursors held)
  | _ => (r, s)

/-- The next row, or a failure, or the end.  A statement without `RETURN` has no rows. -/
def next (r : ResultStream) :
    StateM RunState (Option (Except Error (List Value)) × ResultStream) := fun s =>
  if r.columns.isEmpty then
    let (r, s) := r.close s
    ((none, { r with supply := .closed }), s)
  else match r.supply with
    | .closed => ((none, r), s)
    | .ready [] => ((none, r), s)
    | .ready (row :: rest) => ((some (.ok (r.project row)), { r with supply := .ready rest }), s)
    | .waiting _ source =>
      match source s with
      | .done s => ((none, { r with supply := .closed }), s)
      | .fail e s => ((some (.error e), { r with supply := .closed }), s)
      | .emit row held s rest =>
        ((some (.ok (r.project row)), { r with supply := .waiting held rest }), s)

/-- All rows that are left. -/
def collect (r : ResultStream) : Run (List (List Value)) := do
  if r.columns.isEmpty then
    let _ ← (r.close : StateM RunState ResultStream)
    return []
  else match r.supply with
    | .closed => return []
    | .ready rows => return rows.map r.project
    | .waiting _ source => return (← Flow.toList source).map r.project

end ResultStream

/-! ## Plans -/

namespace Plan

/-- Starts to carry out a plan.  If it writes, everything is done here. -/
def start (plan : Plan) (ctx : RunContext) : Run ResultStream := do
  Run.update .begin
  let source ← plan.body.flow ctx
  if plan.body.isWrite then return ⟨plan.columns, .ready (← Flow.toList source)⟩
  else return ⟨plan.columns, .waiting 0 source⟩

/-! ## Descriptions -/

/-- The least number of vertices that carry the labels of a node, over the nodes with labels. -/
def leastEstimate (ctx : RunContext) (g : Constraints Expr) : StateM RunState (Option Nat) := do
  let estimates ← (g.nodes.filter (!·.labels.isEmpty)).mapM fun n =>
    Search.labelEstimate ctx n.labels
  return estimates.min?

/-- A sort key as it is written. -/
def orderText (key : SortKey) : String :=
  key.expr.text ++ if key.ascending then "" else " DESC"

/-- What a projection does, in words. -/
def projectionText (p : Projection) : String :=
  let number := p.aggregates.length
  (if p.distinct then "DISTINCT " else "") ++ ", ".intercalate p.names ++
    (if number = 0 then "" else " (" ++ toString number ++ " aggregate(s))") ++
    (if p.order.isEmpty then "" else " ORDER BY " ++ ", ".intercalate (p.order.map orderText)) ++
    ((p.skip.map fun e => " SKIP " ++ e.text).getD "") ++
    ((p.limit.map fun e => " LIMIT " ++ e.text).getD "")

/-- The names of some parts one after the other. -/
def partsText (parts : List PatternPart) : String :=
  ", ".intercalate (parts.flatMap (·.names))

/-- What a stage works on, in words. -/
def stageText (ctx : RunContext) : Stage → StateM RunState String
  | .matching g condition => do
    let estimate ← leastEstimate ctx g
    return g.text Expr.text ++ ((condition.map fun e => " WHERE " ++ e.text).getD "") ++
      ((estimate.map fun n => " est. " ++ toString n).getD "")
  | .filter e => return e.text
  | .unwind e name => return e.text ++ " AS " ++ name
  | .project p => return projectionText p
  | .create parts => return partsText parts
  | .createApart _ => return ""
  | .merge g _ _ _ => return g.text Expr.text
  | .set items => return toString items.length ++ " item(s)"
  | .remove items => return toString items.length ++ " item(s)"
  | .delete detach targets =>
    return (if detach then "DETACH " else "") ++ ", ".intercalate (targets.map Expr.text)

/-- A line of a description, after two blanks for each level. -/
def line (depth : Nat) (title details : String) : String :=
  "".pushn ' ' (2 * depth) ++ title ++ (if details.isEmpty then "" else " " ++ details) ++ "\n"

/-- A stage, and under it the parts that it creates apart. -/
def stageLines (ctx : RunContext) (depth : Nat) (stage : Stage) : StateM RunState String := do
  let own := line depth stage.title (← stageText ctx stage)
  match stage with
  | .createApart parts =>
    return own ++ String.join (parts.map fun p => line (depth + 1) "Create" (partsText [p]))
  | _ => return own

/-- Stages one behind the other. -/
def seriesLines (ctx : RunContext) (depth : Nat) (stages : List Stage) :
    StateM RunState String := do
  let lines ← stages.mapM (stageLines ctx (depth + 1))
  return line depth "Series" "" ++ String.join lines

/-- The description of a plan. -/
def explain (plan : Plan) (ctx : RunContext) : StateM RunState String := do
  match plan.body with
  | .series stages => seriesLines ctx 0 stages
  | .union all branches =>
    let lines ← branches.mapM (seriesLines ctx 1)
    return line 0 "Union" (if all then "ALL" else "") ++ String.join lines

end Plan

/-! ## Results as documents -/

/-- The counts of writes as a document. -/
def WriteCounts.toJson (c : WriteCounts) : Json :=
  .object [("nodes_created", .int c.nodesCreated),
    ("relationships_created", .int c.relationshipsCreated),
    ("properties_set", .int c.propertiesSet), ("properties_removed", .int c.propertiesRemoved),
    ("labels_added", .int c.labelsAdded), ("labels_removed", .int c.labelsRemoved),
    ("nodes_deleted", .int c.nodesDeleted),
    ("relationships_deleted", .int c.relationshipsDeleted)]

/-- The counters of a statement as a document. -/
def Stats.toJson (s : Stats) : Json :=
  .object [("mutations", s.writes.toJson), ("storage_queries", .int s.requests),
    ("cursors_opened", .int s.cursorsOpened), ("cursors_closed", .int s.cursorsClosed),
    ("rows", .object (s.rows.map fun (name, n) => (name, .int n)))]

/-- A whole result as a document. -/
def resultToJson (columns : List String) (rows : List (List Value)) (stats : Stats) : Json :=
  .object [("columns", .array (columns.map .text)),
    ("rows", .array (rows.map fun row => .array (row.map Value.toJson))),
    ("stats", stats.toJson)]

end PropertyGraph
