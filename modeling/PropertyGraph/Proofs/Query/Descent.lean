import PropertyGraph.Query.Clause.Grammar

/-!
# Reading within a limit

The grammar once more, with one limit for everything: how deep expressions and unions nest, and how
often a list, a chain or the clauses go on.  A reading asks for the parts as they come, and puts the
tokens back where a parenthesis begins no pattern; it never looks at how many tokens there are.
Where it comes to the limit, it has no outcome.  So an outcome is one that a reading without a limit
comes to as well, and if there is none within any limit, that reading goes on for ever.

The definitions have the names of the bounded readers that they are compared with.

    Descent                  reads tokens within a limit, or has no outcome
    Descent.beyond           what the limit cuts off
    Descent.expression       a complete expression
    Descent.query            a query, with the queries after its unions
-/

namespace PropertyGraph

/-- Reads tokens within a limit, or has no outcome. -/
abbrev Descent (α : Type) := ReaderT Nat (StateT (List Token) (ExceptT Error Option)) α

namespace Descent

open Reader (eatKeyword eatSymbol atKeyword atSymbol keyword symbol ident name peek peekSecond next
  drop fail)

/-- An elementary reader is a step of a descent. -/
instance : MonadLift Reader Descent := ⟨fun r _ tokens => some (r tokens)⟩

/-- The limit. -/
def limit : Descent Nat :=
  fun limit tokens => some (.ok (limit, tokens))

/-- The limit has been reached. -/
def beyond {α : Type} : Descent α :=
  fun _ _ => none

/-! ## Lists -/

/-- Items with commas between them. -/
def separated {α : Type} (item : Descent α) : Nat → Descent (List α)
  | 0 => beyond
  | rounds + 1 => do
    let first ← item
    if ← eatSymbol .comma then return first :: (← separated item rounds)
    else return [first]

/-- One or more items with commas between them. -/
def commaList {α : Type} (item : Descent α) : Descent (List α) := do
  separated item (← limit)

/-- The item after a keyword, if the keyword comes next. -/
def after? {α : Type} (k : Keyword) (item : Descent α) : Descent (Option α) := do
  if ← eatKeyword k then return some (← item) else return none

/-- Labels, each after a colon. -/
def labelList : Nat → Descent (List String)
  | 0 => beyond
  | rounds + 1 => do
    if ← eatSymbol .colon then return (← name "label name") :: (← labelList rounds)
    else return []

/-- Further types of a relationship, each after a bar. -/
def moreTypes : Nat → Descent (List String)
  | 0 => beyond
  | rounds + 1 => do
    if ← eatSymbol .pipe then
      let _ ← eatSymbol .colon
      return (← name "relationship type") :: (← moreTypes rounds)
    else return []

/-! ## Patterns -/

/-- One key and its value in a map. -/
def entry (sub : Descent Expr) : Descent (String × Expr) := do
  let key ← match ← peek with
    | some (.text s) => do drop 1; pure s
    | _ => name "property key"
  symbol .colon
  return (key, ← sub)

/-- A map between braces. -/
def entries (sub : Descent Expr) : Descent (List (String × Expr)) := do
  symbol .leftBrace
  let items ← if ← atSymbol .rightBrace then pure [] else commaList (entry sub)
  symbol .rightBrace
  return items

/-- The properties of a pattern element, if a map comes next. -/
def patternProperties (sub : Descent Expr) : Descent (List (String × Expr)) := do
  if ← atSymbol .leftBrace then entries sub else return []

/-- A node between parentheses. -/
def nodePattern (sub : Descent Expr) : Descent NodePattern := do
  symbol .leftParen
  let name ← Expr.optionalIdent
  let labels ← labelList (← limit)
  let properties ← patternProperties sub
  symbol .rightParen
  return ⟨name, labels, properties⟩

/-- The inside of a relationship's brackets. -/
def relationshipBody (sub : Descent Expr) (heading : Heading) : Descent RelationshipPattern := do
  let name ← Expr.optionalIdent
  let types ← if ← eatSymbol .colon then
      pure ((← Reader.name "relationship type") :: (← moreTypes (← limit)))
    else pure []
  let range ← if ← eatSymbol .star then pure (some (← Expr.lengthRange)) else pure none
  let properties ← patternProperties sub
  symbol .rightBracket
  return ⟨name, types, heading, properties, range⟩

/-- A relationship between two nodes of a pattern. -/
def relationshipPattern (sub : Descent Expr) : Descent RelationshipPattern := do
  let left ← eatSymbol .less
  symbol .dash
  let body ← if ← eatSymbol .leftBracket then relationshipBody sub .undirected
    else pure ⟨none, [], .undirected, [], none⟩
  symbol .dash
  let right ← eatSymbol .greater
  return { body with heading := ← Expr.heading left right }

/-- The further relationships and nodes of a walk. -/
def patternChain (sub : Descent Expr) : Nat → Descent (List (RelationshipPattern × NodePattern))
  | 0 => beyond
  | rounds + 1 => do
    if ← Expr.atRelationship then
      let relationship ← relationshipPattern sub
      let node ← nodePattern sub
      return (relationship, node) :: (← patternChain sub rounds)
    else return []

/-- One walk of a pattern. -/
def patternPart (sub : Descent Expr) : Descent PatternPart := do
  let path ← Expr.pathName
  if let some (.ident name) := ← peek then
    if ["shortestpath", "allshortestpaths"].contains (Text.lower name) then
      throw (.notImplemented name)
  let start ← nodePattern sub
  let chain ← patternChain sub (← limit)
  return ⟨path, start, chain⟩

/-! ## Primary expressions -/

/-- A pattern with at least one relationship, if one comes next; else the tokens are put back.  A
walk without an outcome is not given up. -/
def patternPredicate? (sub : Descent Expr) : Descent (Option Expr) := fun limit tokens =>
  match patternPart sub limit tokens with
  | some (.ok (part, rest)) =>
    if part.chain.isEmpty then some (.ok (none, tokens))
    else some (.ok (some (.pattern part), rest))
  | some (.error _) => some (.ok (none, tokens))
  | none => none

/-- What stands between brackets: a comprehension or the items of a list. -/
def listBody (sub : Descent Expr) : Descent Expr := do
  match ← peek, ← peekSecond with
  | some (.ident name), some (.keyword .in_) => do
    drop 2
    let source ← sub
    let filter ← after? .where_ sub
    let result ← if ← eatSymbol .pipe then pure (some (← sub)) else pure none
    symbol .rightBracket
    return .comprehension name source filter result
  | _, _ => do
    let items ← if ← atSymbol .rightBracket then pure [] else commaList sub
    symbol .rightBracket
    return .list items

/-- The call of a function whose name has been taken. -/
def callBody (sub : Descent Expr) (function : String) : Descent Expr := do
  symbol .leftParen
  if Text.lower function == "count" && (← atSymbol .star) then
    drop 1
    symbol .rightParen
    return .countAll
  match Expr.quantifier? function with
  | some kind =>
    let name ← ident "variable in quantifier"
    keyword .in_
    let source ← sub
    keyword .where_
    let predicate ← sub
    symbol .rightParen
    return .quantified kind name source predicate
  | none =>
    let distinct ← eatKeyword .distinct
    let args ← if ← atSymbol .rightParen then pure [] else commaList sub
    symbol .rightParen
    return .call function args distinct

/-- The branches of a `CASE`. -/
def caseBranches (sub : Descent Expr) : Nat → Descent (List (Expr × Expr))
  | 0 => beyond
  | rounds + 1 => do
    if ← eatKeyword .when then
      let condition ← sub
      keyword .then_
      let result ← sub
      return (condition, result) :: (← caseBranches sub rounds)
    else return []

/-- What follows `CASE`. -/
def caseBody (sub : Descent Expr) : Descent Expr := do
  let operand ← if ← atKeyword .when then pure none else pure (some (← sub))
  let branches ← caseBranches sub (← limit)
  if branches.isEmpty then fail .caseWithoutBranch
  let default ← after? .else_ sub
  keyword .end_
  return .case operand branches default

/-- An expression without operators around it. -/
def primary (sub : Descent Expr) : Descent Expr := do
  let token ← peek
  if let some v := token.bind Expr.literal? then
    drop 1
    return .literal v
  match token with
  | some (.parameter name) => do drop 1; return .parameter name
  | some (.symbol .leftParen) =>
    if let some predicate ← patternPredicate? sub then return predicate
    drop 1
    let inner ← sub
    symbol .rightParen
    return inner
  | some (.symbol .leftBracket) => do drop 1; listBody sub
  | some (.symbol .leftBrace) => return .map (← entries sub)
  | some (.keyword .case) => do drop 1; caseBody sub
  | some (.ident name) =>
    drop 1
    if ← atSymbol .leftParen then callBody sub name else return .var name
  | some (.keyword .all) =>
    if (← peekSecond).any (·.isSymbol .leftParen) then
      drop 1
      callBody sub "all"
    else fail (.notExpression token)
  | _ => fail (.notExpression token)

/-! ## Access to parts -/

/-- The end of a slice and its closing bracket. -/
def sliceEnd (sub : Descent Expr) (target : Expr) (lower : Option Expr) : Descent Expr := do
  let upper ← if ← atSymbol .rightBracket then pure none else pure (some (← sub))
  symbol .rightBracket
  return .slice target lower upper

/-- An index or a slice whose opening bracket has been taken. -/
def indexBody (sub : Descent Expr) (target : Expr) : Descent Expr := do
  if ← eatSymbol .dotDot then sliceEnd sub target none
  else
    let position ← sub
    if ← eatSymbol .dotDot then sliceEnd sub target (some position)
    else
      symbol .rightBracket
      return .index target position

/-- Accesses after an expression. -/
def accessesFrom (sub : Descent Expr) : Nat → Expr → Descent Expr
  | 0, _ => beyond
  | rounds + 1, e => do
    if ← eatSymbol .dot then
      let key ← name "property name after '.'"
      accessesFrom sub rounds (.property e key)
    else if ← eatSymbol .leftBracket then
      let e ← indexBody sub e
      accessesFrom sub rounds e
    else if (← atSymbol .colon) && (← peekSecond).any (fun t => t matches .ident _) then
      let labels ← labelList (← limit)
      accessesFrom sub rounds (.hasLabels e labels)
    else pure e

/-- A primary expression and the accesses to its parts. -/
def postfixed (sub : Descent Expr) : Descent Expr := do
  let e ← primary sub
  accessesFrom sub (← limit) e

/-! ## Operators -/

/-- Operators of one level and their operands, from the left. -/
def chainFrom (op? : Token → Option BinaryOp) (operand : Descent Expr) :
    Nat → Expr → Descent Expr
  | 0, _ => beyond
  | rounds + 1, left => do
    match (← peek).bind op? with
    | some op => do
      drop 1
      let right ← operand
      chainFrom op? operand rounds (.binary op left right)
    | none => pure left

/-- One level of operators that associate to the left. -/
def chain (op? : Token → Option BinaryOp) (operand : Descent Expr) : Descent Expr := do
  let left ← operand
  chainFrom op? operand (← limit) left

/-- Comparisons and tests for null, from the left. -/
def comparisonsFrom (operand : Descent Expr) : Nat → Expr → Descent Expr
  | 0, _ => beyond
  | rounds + 1, left => do
    let token ← peek
    if let some op := token.bind Expr.comparisonOp? then
      drop 1
      let right ← operand
      comparisonsFrom operand rounds (.binary op left right)
    else if let some op := token.bind Expr.affixOp? then
      drop 1
      keyword .with_
      let right ← operand
      comparisonsFrom operand rounds (.binary op left right)
    else if ← eatKeyword .is then
      let negated ← eatKeyword .not
      keyword .null
      comparisonsFrom operand rounds (if negated then .isNotNull left else .isNull left)
    else pure left

/-- Negations before an operand. -/
def negations (operand : Descent Expr) : Nat → Descent Expr
  | 0 => beyond
  | rounds + 1 => do
    if ← eatKeyword .not then return .unary .not (← negations operand rounds)
    else operand

/-- Signs before an operand. -/
def signs (operand : Descent Expr) : Nat → Descent Expr
  | 0 => beyond
  | rounds + 1 => do
    if ← eatSymbol .dash then return Expr.negative (← signs operand rounds)
    else if ← eatSymbol .plus then return .unary .plus (← signs operand rounds)
    else operand

/-- An operand of a comparison. -/
def sum (sub : Descent Expr) : Descent Expr :=
  chain Expr.sumOp? (chain Expr.productOp? (chain Expr.powerOp? do
    signs (postfixed sub) (← limit)))

/-- An operand of a logical operator. -/
def comparison (sub : Descent Expr) : Descent Expr := do
  let left ← sum sub
  comparisonsFrom (sum sub) (← limit) left

/-- A complete expression over a reading of the expressions inside it. -/
def level (sub : Descent Expr) : Descent Expr :=
  chain Expr.orOp? (chain Expr.xorOp? (chain Expr.andOp? do
    negations (comparison sub) (← limit)))

/-- An expression that nests less than `depth` deep. -/
def nested : Nat → Descent Expr
  | 0 => beyond
  | depth + 1 => level (nested depth)

/-- A complete expression. -/
def expression : Descent Expr := do
  nested (← limit)

/-- The target of a change. -/
def target : Descent Expr := do
  postfixed (nested (← limit))

/-- One walk of the pattern of a clause. -/
def pattern : Descent PatternPart := do
  patternPart (nested (← limit))

/-! ## Clauses -/

/-- One column and its alias. -/
def projectionItem : Descent ProjectionItem := do
  let e ← expression
  return ⟨e, ← after? .as (name "alias name after AS")⟩

/-- One key of an order; ascending unless it says otherwise. -/
def sortKey : Descent SortKey := do
  let e ← expression
  if ← eatKeyword .asc then return ⟨e, true⟩
  else return ⟨e, !(← eatKeyword .desc)⟩

/-- The columns of a projection; there may be none after a star. -/
def projectionItems (star : Bool) : Descent (List ProjectionItem) := do
  if star then
    if ← eatSymbol .comma then commaList projectionItem else return []
  else commaList projectionItem

/-- What follows `RETURN` or `WITH`. -/
def projectionBody : Descent ProjectionBody := do
  let distinct ← eatKeyword .distinct
  let star ← eatSymbol .star
  let items ← projectionItems star
  let order ←
    if ← eatKeyword .order then do
      keyword .by_
      commaList sortKey
    else pure []
  let skip ← after? .skip expression
  let limit ← after? .limit expression
  return ⟨distinct, star, items, order, skip, limit⟩

/-- One change of `SET`. -/
def setItem : Descent SetItem := do
  match ← target with
  | .property target key =>
    symbol .equals
    return .property target key (← expression)
  | .hasLabels (.var name) labels => return .labels name labels
  | .hasLabels target _ => fail (.setLabelsOf target.text)
  | .var name =>
    if ← eatSymbol .equals then return .replace name (← expression)
    else if ← eatSymbol .plusEquals then return .merge name (← expression)
    else fail (.setWithoutOperator name)
  | target => fail (.badSetTarget target.text)

/-- One change of `REMOVE`. -/
def removeItem : Descent RemoveItem := do
  match ← target with
  | .property target key => return .property target key
  | .hasLabels (.var name) labels => return .labels name labels
  | .hasLabels target _ => fail (.removeLabelsOf target.text)
  | target => fail (.badRemoveTarget target.text)

/-- The actions of `MERGE`, first those on creation and then those on a match. -/
def mergeActions : Nat → Descent (List SetItem × List SetItem)
  | 0 => beyond
  | rounds + 1 => do
    if ← eatKeyword .on then
      let onCreate ← match ← next with
        | some (.keyword .create) => pure true
        | some (.keyword .match_) => pure false
        | found => fail (.badMergeAction found)
      keyword .set
      let items ← commaList setItem
      let (created, matched) ← mergeActions rounds
      return if onCreate then (items ++ created, matched) else (created, items ++ matched)
    else return ([], [])

/-- The further parts of a procedure's name, each after a dot. -/
def procedureParts : Nat → Descent String
  | 0 => beyond
  | rounds + 1 => do
    if ← eatSymbol .dot then
      let part ← name "procedure name"
      return "." ++ part ++ (← procedureParts rounds)
    else return ""

/-- Patterns and their condition. -/
def matchBody (optional : Bool) : Descent Clause := do
  keyword .match_
  let parts ← commaList pattern
  return .matching optional parts (← after? .where_ expression)

/-- One clause that is no union, recognised by its first token. -/
def clause : Descent Clause := do
  match ← peek with
  | some (.keyword .match_) => matchBody false
  | some (.keyword .optional) =>
    if (← peekSecond).any (·.isKeyword .match_) then
      drop 1
      matchBody true
    else fail .notMatchAfterOptional
  | some (.keyword .unwind) =>
    drop 1
    let source ← expression
    keyword .as
    return .unwind source (← ident "alias after UNWIND ... AS")
  | some (.keyword .with_) =>
    drop 1
    let body ← projectionBody
    return .projectWith body (← after? .where_ expression)
  | some (.keyword .return_) =>
    drop 1
    return .projectReturn (← projectionBody)
  | some (.keyword .create) =>
    drop 1
    return .create (← commaList pattern)
  | some (.keyword .merge) =>
    drop 1
    let part ← pattern
    let (onCreate, onMatch) ← mergeActions (← limit)
    return .merge part onCreate onMatch
  | some (.keyword .set) =>
    drop 1
    return .set (← commaList setItem)
  | some (.keyword .remove) =>
    drop 1
    return .remove (← commaList removeItem)
  | some (.keyword .delete) | some (.keyword .detach) =>
    let detach ← eatKeyword .detach
    keyword .delete
    return .delete detach (← commaList expression)
  | some (.keyword .call) =>
    drop 1
    let first ← name "procedure name"
    let parts ← procedureParts (← limit)
    modify (Clause.afterCall 0)
    return .call (first ++ parts)
  | some (.keyword .foreach) => throw (.notImplemented "FOREACH")
  | some (.keyword .where_) => fail .strayWhere
  | some found => fail (.notClause found)
  | none => fail .emptyQuery

/-- A query of these clauses; there has to be one. -/
def nonEmpty (clauses : Descent (List Clause)) : Descent Query := do
  let found ← clauses
  if found.isEmpty then fail .emptyQuery
  return found

/-- The clauses up to the end of the tokens.  What follows `UNION` is a query of its own. -/
def clauses : Nat → Descent (List Clause)
  | 0 => beyond
  | rounds + 1 => do
    if ← eatSymbol .semicolon then clauses rounds
    else if ← eatKeyword .union then
      let all ← eatKeyword .all
      return [.union all (← nonEmpty (clauses rounds))]
    else if (← peek).isNone then return []
    else
      let c ← clause
      return c :: (← clauses rounds)

/-- A query: one clause or more, up to the end of the tokens. -/
def query : Descent Query := do
  nonEmpty (clauses (← limit))

end Descent

end PropertyGraph
