import PropertyGraph.Pattern.Search

/-!
# Matching rows

For each row a `MATCH` gives the rows that its matches make of it, and an `OPTIONAL MATCH` a row of
nulls where there are none.  A match of an optional pattern counts only if nothing in it is
unmatched.
-/

namespace PropertyGraph

namespace Row

/-- A child row with some names bound. -/
def bound (row : Row) (bindings : List (String × Value)) : Row :=
  bindings.foldl (fun row (name, v) => row.set name v) row.child

/-- A child row in which those of some names that are free become null. -/
def nulls (row : Row) (names : List String) : Row :=
  row.bound ((names.filter (!row.has ·)).map (·, .null))

end Row

namespace RunContext

/-- The row that a match makes of a row, if it counts and the condition is true in it. -/
def matchedRow (ctx : RunContext) (pattern : Constraints Value) (condition : Option Expr)
    (row : Row) (m : Match) : Run (Option Row) := do
  if pattern.optional && m.hasNull then return none
  let out := row.bound (m.bindings pattern)
  match condition with
  | none => return some out
  | some e => return if ← ctx.holds e out then some out else none

/-- The rows that a pattern makes of a row, with a condition that they must meet. -/
def matchRow (ctx : RunContext) (pattern : Constraints Expr) (condition : Option Expr) (row : Row) :
    Source Row := fun s =>
  match pattern.mapM (fun e => ctx.value e row) s with
  | (.error e, s) => .fail e s
  | (.ok resolved, s) =>
    let found := (Search.of ctx resolved).flow row s
    let rows := found.flatMap fun m => Flow.ofOption (ctx.matchedRow resolved condition row m)
    if pattern.optional then rows.orElse (Flow.single (row.nulls pattern.names)) else rows

end RunContext

end PropertyGraph
