import PropertyGraph.Plan.Scope
import PropertyGraph.Plan.Stage
import PropertyGraph.Query.Clause.Grammar

/-!
# Planning

`Plan.ofQuery` plans a query clause by clause, with the scope that each clause leaves to the next,
and refuses queries that cannot be carried out.  Of the condition of a `MATCH`, comparisons of a
property with a constant and demands of labels become part of the pattern; the rest stays a
condition.
-/

namespace PropertyGraph

/-! ## Conditions of patterns -/

namespace Expr

/-- The parts of a conjunction from left to right. -/
def conjuncts : Expr → List Expr
  | .binary .and a b => a.conjuncts ++ b.conjuncts
  | e => [e]

/-- The conjunction of some expressions. -/
def conjunction : List Expr → Option Expr
  | [] => none
  | e :: rest => some (rest.foldl (.binary .and) e)

/-- Is it a literal or a parameter? -/
def isConstant : Expr → Bool
  | .literal _ | .parameter _ => true
  | _ => false

/-- The name, the property and the constant of a comparison of a name's property with a constant;
of two constants the right one counts. -/
def comparison? : Expr → Option (String × String × Expr)
  | .binary .equal (.property target key) b =>
    if b.isConstant then
      match target with
      | .var x => some (x, key, b)
      | _ => none
    else none
  | .binary .equal a (.property target key) =>
    if a.isConstant then
      match target with
      | .var x => some (x, key, a)
      | _ => none
    else none
  | _ => none

end Expr

namespace Constraints

/-- The constraints with demands of some labels of a name. -/
def addLabels? (g : Constraints Expr) (name : String) (labels : List String) :
    Option (Constraints Expr) :=
  if g.isNode name then labels.foldlM (fun g l => g.addLabel? name l) g else none

/-- The constraints that include a condition, if it is one that they can include. -/
def absorb? (g : Constraints Expr) (condition : Expr) : Option (Constraints Expr) :=
  match condition with
  | .hasLabels (.var x) labels => g.addLabels? x labels
  | e => e.comparison?.bind fun (x, key, constant) => g.addProperty? x key constant

/-- Includes what can be included of some conditions, and gives the others. -/
def absorbAll (g : Constraints Expr) : List Expr → Constraints Expr × List Expr
  | [] => (g, [])
  | e :: rest =>
    match g.absorb? e with
    | some g => g.absorbAll rest
    | none =>
      let (g, left) := g.absorbAll rest
      (g, e :: left)

end Constraints

/-- Refuses patterns in the properties of the nodes of a pattern. -/
def PatternPart.refusePatterns (part : PatternPart) : Except Error Unit :=
  part.nodes.forM fun n => n.properties.forM fun (_, e) => e.refusePattern

namespace Plan

/-- The stage of a `MATCH`, and the scope after it. -/
def planMatch (scope : Scope) (optional : Bool) (parts : List PatternPart)
    (condition : Option Expr) : Except Error (Stage × Scope) := do
  let pattern ← Constraints.ofParts parts optional
  parts.forM PatternPart.refusePatterns
  let scope := scope.declare pattern.names
  match condition with
  | none => return (.matching pattern none, scope)
  | some e =>
    scope.check e
    let (pattern, left) := pattern.absorbAll e.conjuncts
    return (.matching pattern (Expr.conjunction left), scope)

/-! ## Projections -/

/-- The columns that `*` stands for, in the order of their names. -/
def starColumns (scope : Scope) (body : ProjectionBody) : Except Error (List (Expr × String)) :=
  if body.star then
    let names := Names.ofList scope.names
    if names.isEmpty && body.items.isEmpty then .error (.syntaxError .starWithoutVariables)
    else .ok (names.map fun x => (.var x, x))
  else .ok []

/-- The columns with one more, whose name must be new. -/
def addColumn (scope : Scope) (columns : List (Expr × String)) (item : ProjectionItem) :
    Except Error (List (Expr × String)) := do
  scope.check item.expr
  if columns.any (·.2 == item.column) then throw (.syntaxError (.duplicateColumn item.column))
  return columns ++ [(item.expr, item.column)]

/-- The projection of a `WITH` or a `RETURN`.  Sort keys see the columns besides the scope, and the
numbers of rows to pass over and to keep see no names. -/
def planProjection (scope : Scope) (body : ProjectionBody) : Except Error Projection := do
  let columns ← body.items.foldlM (addColumn scope) (← starColumns scope body)
  (scope.declare (columns.map Prod.snd)).checkAll (body.order.map (·.expr))
  Scope.empty.checkAll (body.skip.toList ++ body.limit.toList)
  Projection.make columns body

/-! ## Writes -/

/-- Refuses relationships that cannot be created. -/
def checkCreation (parts : List PatternPart) : Except Error Unit :=
  parts.forM fun part => part.relationships.forM fun r => do
    if r.types.length ≠ 1 then throw (.syntaxError .untypedCreation)
    if r.range.isSome then throw (.syntaxError .variableLengthCreation)
    if r.heading = .undirected then throw (.syntaxError .undirectedCreation)

/-- The names that the property expressions of a part refer to. -/
def namesRead (part : PatternPart) : List String :=
  let properties := part.nodes.flatMap (·.properties) ++ part.relationships.flatMap (·.properties)
  properties.flatMap fun (_, e) => e.freeNames

/-- Are no two of some lists of names, each with the names read beside it, in each other's way? -/
def areApart (parts : List (List String × List String)) : Bool :=
  let indexed := parts.zipIdx
  indexed.all fun ((new, read), i) => indexed.all fun ((other, _), j) =>
    i == j || (new ++ read).all (!other.contains ·)

/-- The stage of a `CREATE`, and the scope after it.  Several parts are created apart from each
other if none introduces a name that another introduces or reads. -/
def planCreate (scope : Scope) (parts : List PatternPart) : Except Error (Stage × Scope) := do
  parts.forM PatternPart.refusePatterns
  let new := parts.map fun p => p.names.filter (!scope.has ·)
  let apart := parts.length > 1 && areApart (new.zip (parts.map namesRead))
  checkCreation parts
  let scope := new.foldl Scope.declare scope
  return (if apart then .createApart parts else .create parts, scope)

/-- Refuses an item of `SET` that cannot be used in the scope. -/
def checkSetItem (scope : Scope) : SetItem → Except Error Unit
  | .property target _ e => scope.checkAll [target, e]
  | .replace x e | .merge x e => scope.checkAll [.var x, e]
  | .labels x _ => scope.check (.var x)

/-- Refuses an item of `REMOVE` that cannot be used in the scope. -/
def checkRemoveItem (scope : Scope) : RemoveItem → Except Error Unit
  | .property target _ => scope.check target
  | .labels x _ => scope.check (.var x)

/-- The part with its undirected relationships pointing along the walk. -/
def directed (part : PatternPart) : PatternPart :=
  { part with chain := part.chain.map fun (r, n) =>
      ({ r with heading := if r.heading = .undirected then .outgoing else r.heading }, n) }

/-- The stage of a `MERGE`, and the scope after it. -/
def planMerge (scope : Scope) (part : PatternPart) (onCreate onMatch : List SetItem) :
    Except Error (Stage × Scope) := do
  let inner := scope.declare part.names
  (onCreate ++ onMatch).forM (checkSetItem inner)
  let pattern ← Constraints.ofParts [part] false
  checkCreation [directed part]
  return (.merge pattern (directed part) onCreate onMatch, inner)

/-! ## Queries -/

/-- What planning has come to: the stages so far, the scope, and the columns of a `RETURN`. -/
structure Progress where
  stages : List Stage
  scope : Scope
  returned : Option (List String)

/-- The progress with one more stage. -/
def Progress.add (p : Progress) (stage : Stage) (scope : Scope) : Progress :=
  { p with stages := p.stages ++ [stage], scope }

/-- Plans one clause. -/
def planClause (p : Progress) (clause : Clause) : Except Error Progress := do
  if p.returned.isSome then throw (.syntaxError (.clauseAfterReturn clause.title))
  match clause with
  | .matching optional parts condition =>
    let (stage, scope) ← planMatch p.scope optional parts condition
    return p.add stage scope
  | .unwind source x =>
    p.scope.check source
    return p.add (.unwind source x) (p.scope.declare [x])
  | .projectWith body condition =>
    let projection ← planProjection p.scope body
    let scope : Scope := ⟨projection.names⟩
    let p := p.add (.project projection) scope
    match condition with
    | none => return p
    | some e =>
      scope.check e
      return p.add (.filter e) scope
  | .projectReturn body =>
    let projection ← planProjection p.scope body
    return { p.add (.project projection) p.scope with returned := some projection.names }
  | .create parts =>
    let (stage, scope) ← planCreate p.scope parts
    return p.add stage scope
  | .merge part onCreate onMatch =>
    let (stage, scope) ← planMerge p.scope part onCreate onMatch
    return p.add stage scope
  | .set items =>
    items.forM (checkSetItem p.scope)
    return p.add (.set items) p.scope
  | .remove items =>
    items.forM (checkRemoveItem p.scope)
    return p.add (.remove items) p.scope
  | .delete detach targets =>
    p.scope.checkAll targets
    return p.add (.delete detach targets) p.scope
  | .union _ _ => throw (.syntaxError .unexpectedUnion)
  | .call procedure => throw (.notImplemented ("CALL " ++ procedure))

/-- Plans the clauses of one query, which must end with `RETURN` or with a write. -/
def planBranch (clauses : List Clause) : Except Error (List Stage × List String) := do
  match clauses.getLast? with
  | none => throw (.syntaxError .emptyQuery)
  | some last =>
    let p ← clauses.foldlM planClause ⟨[], .empty, none⟩
    if p.returned.isNone && !last.isWrite then
      throw (.syntaxError (.unfinishedQuery last.title))
    return (p.stages, p.returned.getD [])

/-- The clauses before a union, and the union's own if there is one. -/
def splitUnion : List Clause → List Clause × Option (Bool × List Clause × List Clause)
  | [] => ([], none)
  | .union all clauses :: rest => ([], some (all, clauses, rest))
  | c :: rest =>
    let (before, union) := splitUnion rest
    (c :: before, union)

/-- A query taken apart at its unions, at most `depth` of them; all must be of one kind. -/
def branches (kind : Option Bool) (query : List Clause) :
    (depth : Nat) → Except Error (List (List Clause) × Option Bool)
  | 0 => .ok ([query], kind)
  | depth + 1 =>
    match splitUnion query with
    | (before, none) => .ok ([before], kind)
    | (before, some (all, clauses, rest)) =>
      if !rest.isEmpty then .error (.syntaxError .clauseAfterUnion)
      else if kind.any (· != all) then .error (.syntaxError .mixedUnions)
      else do
        let (others, kind) ← branches (some all) clauses depth
        return (before :: others, kind)

mutual

/-- How deep unions are nested in a clause. -/
def clauseDepth : Clause → Nat
  | .union _ clauses => unionDepth clauses + 1
  | _ => 0

/-- How deep unions are nested in a query. -/
def unionDepth : List Clause → Nat
  | [] => 0
  | c :: rest => max (clauseDepth c) (unionDepth rest)

end

/-- The plan of a query. -/
def ofQuery (query : Query) : Except Error Plan := do
  let (queries, kind) ← branches none query (unionDepth query + 1)
  let planned ← queries.mapM planBranch
  match kind, planned with
  | some all, (stages, columns) :: rest =>
    if columns.isEmpty then throw (.syntaxError .unionWithoutReturn)
    if rest.any (·.2 != columns) then throw (.syntaxError .unionColumnsDiffer)
    return ⟨.union all (stages :: rest.map Prod.fst), columns⟩
  | _, (stages, columns) :: _ => return ⟨.series stages, columns⟩
  | _, [] => throw (.syntaxError .emptyQuery)

/-- The plan of a query's text. -/
def ofText (text : String) : Except Error Plan := do
  ofQuery (← Query.parse text)

end Plan

end PropertyGraph
