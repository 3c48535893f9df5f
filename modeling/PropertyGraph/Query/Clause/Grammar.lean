import PropertyGraph.Query.Clause
import PropertyGraph.Query.Expr.Grammar
import PropertyGraph.Query.Token.Lexer

/-!
# Grammar of clauses

A query is read clause by clause; semicolons between clauses are dropped, and `UNION` makes what is
left a query of its own, so a union can only be the last clause of its list.  `Query.parse` reads a
text.
-/

namespace PropertyGraph

open Reader

namespace Clause

/-! ## Projections -/

/-- One column and its alias. -/
def projectionItem : Reader ProjectionItem := do
  let e ← Expr.read
  return ⟨e, ← after? .as (name "alias name after AS")⟩

/-- One key of an order; ascending unless it says otherwise. -/
def sortKey : Reader SortKey := do
  let e ← Expr.read
  if ← eatKeyword .asc then return ⟨e, true⟩
  else return ⟨e, !(← eatKeyword .desc)⟩

/-- The columns of a projection; there may be none after a star. -/
def projectionItems (star : Bool) : Reader (List ProjectionItem) := do
  if star then
    if ← eatSymbol .comma then commaList projectionItem else return []
  else commaList projectionItem

/-- What follows `RETURN` or `WITH`. -/
def projectionBody : Reader ProjectionBody := do
  let distinct ← eatKeyword .distinct
  let star ← eatSymbol .star
  let items ← projectionItems star
  let order ←
    if ← eatKeyword .order then do
      keyword .by_
      commaList sortKey
    else pure []
  let skip ← after? .skip Expr.read
  let limit ← after? .limit Expr.read
  return ⟨distinct, star, items, order, skip, limit⟩

/-! ## Changes -/

/-- One change of `SET`. -/
def setItem : Reader SetItem := do
  match ← Expr.readPostfixed with
  | .property target key =>
    symbol .equals
    return .property target key (← Expr.read)
  | .hasLabels (.var name) labels => return .labels name labels
  | .hasLabels target _ => fail (.setLabelsOf target.text)
  | .var name =>
    if ← eatSymbol .equals then return .replace name (← Expr.read)
    else if ← eatSymbol .plusEquals then return .merge name (← Expr.read)
    else fail (.setWithoutOperator name)
  | target => fail (.badSetTarget target.text)

/-- One change of `REMOVE`. -/
def removeItem : Reader RemoveItem := do
  match ← Expr.readPostfixed with
  | .property target key => return .property target key
  | .hasLabels (.var name) labels => return .labels name labels
  | .hasLabels target _ => fail (.removeLabelsOf target.text)
  | target => fail (.badRemoveTarget target.text)

/-- The actions of `MERGE`, first those on creation and then those on a match; at most `steps`. -/
def mergeActions : Nat → Reader (List SetItem × List SetItem)
  | 0 => pure ([], [])
  | steps + 1 => do
    if ← eatKeyword .on then
      let onCreate ← match ← next with
        | some (.keyword .create) => pure true
        | some (.keyword .match_) => pure false
        | found => fail (.badMergeAction found)
      keyword .set
      let items ← commaList setItem
      let (created, matched) ← mergeActions steps
      return if onCreate then (items ++ created, matched) else (created, items ++ matched)
    else return ([], [])

/-! ## Procedures -/

/-- Can the tokens start a clause? -/
def startsClause : List Token → Bool
  | .keyword .optional :: second :: _ => second.isKeyword .match_
  | .keyword k :: _ =>
    [.match_, .return_, .with_, .unwind, .union, .create, .merge, .set, .remove, .delete, .detach,
      .call, .foreach].contains k
  | .symbol .semicolon :: _ => true
  | [] => true
  | _ => false

/-- What follows the arguments of a procedure; `depth` counts the open parentheses. -/
def afterCall (depth : Int) : List Token → List Token
  | [] => []
  | .symbol .leftParen :: rest => afterCall (depth + 1) rest
  | .symbol .rightParen :: rest => afterCall (depth - 1) rest
  | t :: rest => if depth = 0 ∧ startsClause (t :: rest) then t :: rest else afterCall depth rest

/-- The further parts of a procedure's name, each after a dot; at most `steps`. -/
def procedureParts : Nat → Reader String
  | 0 => pure ""
  | steps + 1 => do
    if ← eatSymbol .dot then
      let part ← name "procedure name"
      return "." ++ part ++ (← procedureParts steps)
    else return ""

/-! ## Clauses -/

/-- Patterns and their condition. -/
def matchBody (optional : Bool) : Reader Clause := do
  keyword .match_
  let parts ← commaList Expr.readPattern
  return .matching optional parts (← after? .where_ Expr.read)

/-- One clause that is no union, recognised by its first token. -/
def read : Reader Clause := do
  match ← peek with
  | some (.keyword .match_) => matchBody false
  | some (.keyword .optional) =>
    if (← peekSecond).any (·.isKeyword .match_) then
      drop 1
      matchBody true
    else fail .notMatchAfterOptional
  | some (.keyword .unwind) =>
    drop 1
    let source ← Expr.read
    keyword .as
    return .unwind source (← ident "alias after UNWIND ... AS")
  | some (.keyword .with_) =>
    drop 1
    let body ← projectionBody
    return .projectWith body (← after? .where_ Expr.read)
  | some (.keyword .return_) =>
    drop 1
    return .projectReturn (← projectionBody)
  | some (.keyword .create) =>
    drop 1
    return .create (← commaList Expr.readPattern)
  | some (.keyword .merge) =>
    drop 1
    let part ← Expr.readPattern
    let (onCreate, onMatch) ← mergeActions (← remaining)
    return .merge part onCreate onMatch
  | some (.keyword .set) =>
    drop 1
    return .set (← commaList setItem)
  | some (.keyword .remove) =>
    drop 1
    return .remove (← commaList removeItem)
  | some (.keyword .delete) | some (.keyword .detach) =>
    let detach ← eatKeyword .detach
    keyword .delete
    return .delete detach (← commaList Expr.read)
  | some (.keyword .call) =>
    drop 1
    let first ← name "procedure name"
    let parts ← procedureParts (← remaining)
    modify (afterCall 0)
    return .call (first ++ parts)
  | some (.keyword .foreach) => throw (.notImplemented "FOREACH")
  | some (.keyword .where_) => fail .strayWhere
  | some found => fail (.notClause found)
  | none => fail .emptyQuery

/-- The clauses up to the end of the tokens, in at most `steps` steps. -/
def readAll : Nat → Reader (List Clause)
  | 0 => pure []
  | steps + 1 => do
    if ← eatSymbol .semicolon then readAll steps
    else if ← eatKeyword .union then
      let all ← eatKeyword .all
      let clauses ← readAll steps
      if clauses.isEmpty then fail .emptyQuery
      return [.union all clauses]
    else if (← peek).isNone then return []
    else
      let clause ← read
      return clause :: (← readAll steps)

end Clause

/-- A query: one clause or more, up to the end of the tokens. -/
def Query.read : Reader Query := do
  let clauses ← Clause.readAll (← remaining)
  if clauses.isEmpty then fail .emptyQuery
  return clauses

/-- The query of some tokens. -/
def Query.ofTokens (tokens : List Token) : Except Error Query :=
  (Query.read tokens).map Prod.fst

/-- The query of a text. -/
def Query.parse (text : String) : Except Error Query := do
  Query.ofTokens (← Token.scan text)

end PropertyGraph
