import PropertyGraph.Plan.Stage
import PropertyGraph.Run.Accumulate
import PropertyGraph.Run.Flow

/-!
# Projecting rows

A projection gives for each row, or for each group of rows, a new row of its columns.  Without
aggregates and without an order it does so row by row as rows are asked for; otherwise it takes in
all rows before it gives the first.  Then come, in this order, the removal of equal rows, the order,
the rows passed over and the limit.

`Sorting.sorted` puts the items of a list one after the other in front of those at the end of the
sorted ones that they come before.  Items of which neither comes before the other keep their order.
The result holds the items of the list (`sorted_perm`), whatever `before` is.
-/

namespace PropertyGraph

/-! ## Sorting by insertion -/

namespace Sorting

variable {α : Type}

/-- Puts an item into a list whose last item is written first: behind those that it comes before. -/
def place (before : α → α → Bool) (a : α) : List α → List α
  | [] => [a]
  | b :: bs => if before a b then b :: place before a bs else a :: b :: bs

/-- The items of a list in order. -/
def sorted (before : α → α → Bool) (as : List α) : List α :=
  (as.foldl (fun placed a => place before a placed) []).reverse

theorem place_perm (before : α → α → Bool) (a : α) (bs : List α) :
    (place before a bs).Perm (a :: bs) := by
  induction bs with
  | nil => exact .refl _
  | cons b bs ih =>
    unfold place
    split
    · exact (ih.cons b).trans (.swap a b bs)
    · exact .refl _

theorem foldl_place_perm (before : α → α → Bool) (as placed : List α) :
    (as.foldl (fun placed a => place before a placed) placed).Perm (as ++ placed) := by
  induction as generalizing placed with
  | nil => exact .refl _
  | cons a as ih =>
    exact (ih (place before a placed)).trans
      (((place_perm before a placed).append_left as).trans List.perm_middle)

theorem sorted_perm (before : α → α → Bool) (as : List α) : (sorted before as).Perm as := by
  have h := foldl_place_perm before as []
  rw [List.append_nil] at h
  exact (List.reverse_perm _).trans h

end Sorting

/-! ## Projections -/

/-- A row of a projection's columns, with its values and the values it is sorted by. -/
structure ProjectedRow where
  row : Row
  values : List Value
  keys : List Value

/-- The rows that are passed over and the rows that are kept after them. -/
structure Cut where
  skip : Nat
  limit : Option Nat

/-- A group of rows: the values of its keys, its first row, and its aggregates so far. -/
structure Group where
  keys : List Value
  first : Row
  accumulators : List Accumulator

namespace RunContext

/-- A number of rows; a number below zero counts as zero. -/
def rowCount (ctx : RunContext) (clause : String) (e : Expr) : Run Nat := do
  match ← ctx.value e .empty with
  | .int n => return n.toInt.toNat
  | .float x =>
    if (Number.parts x).isIntegral then return x.toFloat.toUInt64.toNat
    else Run.fail (.mismatch ("INTEGER for " ++ clause) (.float x))
  | v => Run.fail (.mismatch ("INTEGER for " ++ clause) v)

/-- The rows to pass over and to keep, which do not depend on any row. -/
def cut (ctx : RunContext) (p : Projection) : Run Cut := do
  let skip ← p.skip.mapM (ctx.rowCount "SKIP")
  let limit ← p.limit.mapM (ctx.rowCount "LIMIT")
  return ⟨skip.getD 0, limit⟩

/-- The values of some expressions in a row. -/
def valuesOf (ctx : RunContext) (es : List Expr) (row : Row) : Run (List Value) :=
  es.mapM fun e => ctx.value e row

end RunContext

namespace Projection

/-- The row of the columns with some values. -/
def rowOf (p : Projection) (values : List Value) : Row :=
  (p.names.zip values).foldl (fun row (name, v) => row.set name v) .empty

/-- The values to sort by, computed in a row where the columns hide other names. -/
def sortKeys (p : Projection) (ctx : RunContext) (row : Row) (values : List Value) :
    Run (List Value) :=
  let inner := (p.names.zip values).foldl (fun row (name, v) => row.push name v) row
  ctx.valuesOf (p.order.map (·.expr)) inner

/-- The projection of a row. -/
def ofRow (p : Projection) (ctx : RunContext) (row : Row) : Run ProjectedRow := do
  let values ← ctx.valuesOf (p.columns.map (·.expr)) row
  return ⟨p.rowOf values, values, ← p.sortKeys ctx row values⟩

/-! ## Groups -/

/-- The expressions of the columns by which rows are grouped. -/
def keyExprs (p : Projection) : List Expr :=
  (p.columns.filter (·.isKey)).map (·.expr)

/-- A group without rows. -/
def newGroup (p : Projection) (keys : List Value) (first : Row) : Group :=
  ⟨keys, first, p.aggregates.map .start⟩

/-- Takes a row into some accumulators, one for each aggregate. -/
def accumulate (ctx : RunContext) (row : Row) :
    List (Aggregate × Accumulator) → Run (List Accumulator)
  | [] => return []
  | (a, acc) :: rest => do
    let v ← match a.argument with
      | some e => ctx.value e row
      | none => pure .null
    let acc ← Run.lift (acc.add v)
    return acc :: (← accumulate ctx row rest)

/-- Takes a row into the group of its keys, which is a new last one if there is none yet. -/
def addToGroup (p : Projection) (ctx : RunContext) (keys : List Value) (row : Row) :
    List Group → Run (List Group)
  | [] => do
    let group := p.newGroup keys row
    let accumulators ← accumulate ctx row (p.aggregates.zip group.accumulators)
    return [{ group with accumulators }]
  | group :: rest => do
    if group.keys == keys then
      let accumulators ← accumulate ctx row (p.aggregates.zip group.accumulators)
      return { group with accumulators } :: rest
    else return group :: (← p.addToGroup ctx keys row rest)

/-- Takes a row into its group. -/
def addRow (p : Projection) (ctx : RunContext) (groups : List Group) (row : Row) :
    Run (List Group) := do
  let keys ← ctx.valuesOf p.keyExprs row
  p.addToGroup ctx keys row groups

/-- The groups of all rows; where no columns are keys there is one group even without rows. -/
def closeGroups (p : Projection) (groups : List Group) : List Group :=
  if groups.isEmpty && p.keyExprs.isEmpty then [p.newGroup [] .empty] else groups

/-- The values of a group's columns: its keys in turn, and expressions of the aggregates. -/
def groupValues (ctx : RunContext) (row : Row) :
    List Column → List Value → Run (List Value)
  | [], _ => return []
  | c :: rest, keys => do
    if c.isKey then return keys.headD .null :: (← groupValues ctx row rest keys.tail)
    else
      let v ← ctx.value c.expr row
      return v :: (← groupValues ctx row rest keys)

/-- The projection of a group, whose aggregates are bound to their hidden names. -/
def ofGroup (p : Projection) (ctx : RunContext) (group : Group) : Run ProjectedRow := do
  let results := (p.aggregates.map (·.slot)).zip (group.accumulators.map (·.result))
  let row := results.foldl (fun row (slot, v) => row.push slot v) group.first
  let values ← groupValues ctx row p.columns group.keys
  return ⟨p.rowOf values, values, ← p.sortKeys ctx row values⟩

/-! ## Order -/

/-- The order of two rows by their keys, the first key that tells them apart being decisive. -/
def compareKeys : List SortKey → List Value → List Value → Ordering
  | key :: rest, v :: vs, w :: ws =>
    let found := if key.ascending then Value.order v w else (Value.order v w).swap
    if found = .eq then compareKeys rest vs ws else found
  | _, _, _ => .eq

/-- Rows without those that have the same values as an earlier one. -/
def distinctRows (rows : List ProjectedRow) : List ProjectedRow :=
  (rows.foldl (fun (seen, kept) r =>
    if seen.contains r.values then (seen, kept) else (r.values :: seen, r :: kept))
    (([] : List (List Value)), [])).2.reverse

/-- The rows that are given of all projected ones. -/
def arrange (p : Projection) (cut : Cut) (rows : List ProjectedRow) : List Row :=
  let rows := if p.distinct then distinctRows rows else rows
  let rows := if p.order.isEmpty then rows
    else Sorting.sorted (fun a b => compareKeys p.order a.keys b.keys == .lt) rows
  let rows := rows.drop cut.skip
  let rows := match cut.limit with
    | some n => rows.take n
    | none => rows
  rows.map (·.row)

/-! ## Flows -/

/-- All projected rows of a source. -/
def gatherRows (p : Projection) (ctx : RunContext) (source : Source Row) :
    Run (List ProjectedRow) := fun s =>
  if p.aggregates.isEmpty then
    match (source s).foldRun (fun rows row => return (← p.ofRow ctx row) :: rows) [] with
    | (.ok rows, s) => (.ok rows.reverse, s)
    | (.error e, s) => (.error e, s)
  else
    match (source s).foldRun (p.addRow ctx) [] with
    | (.ok groups, s) => (p.closeGroups groups).mapM (p.ofGroup ctx) s
    | (.error e, s) => (.error e, s)

/-- The projection of a source row by row. -/
def lazily (p : Projection) (ctx : RunContext) (cut : Cut) (source : Source Row) : Source Row :=
  Flow.take cut.limit fun s =>
    let rows := (source s).flatMap fun row => Flow.ofOption do return some (← p.ofRow ctx row)
    let rows := if p.distinct then rows.distinct (·.values) [] else rows
    (rows.drop cut.skip).map (·.row)

/-- The projection of a source. -/
def flow (p : Projection) (ctx : RunContext) (cut : Cut) (source : Source Row) : Source Row :=
  if p.isBarrier then
    Flow.ofRun do return p.arrange cut (← p.gatherRows ctx source)
  else p.lazily ctx cut source

end Projection

end PropertyGraph
