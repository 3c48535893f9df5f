import PropertyGraph.Query.Expr
import PropertyGraph.Query.Grammar

/-!
# Grammar of expressions and patterns

From the weakest to the strongest binding: `OR`, `XOR`, `AND`, `NOT`, comparisons, sums, products,
powers, signs, and what follows a primary expression.  Operators of one level associate to the left.

Each level is built over a reader `sub` of complete expressions, which it uses only after it has
taken a token; so `Expr.reader n`, which nests at most `n` deep, reads any text of `n` tokens.
-/

namespace PropertyGraph.Expr

open Reader

/-! ## Operators -/

/-- Operators of one level and their operands, from the left; at most `steps` operators. -/
def chainFrom (op? : Token → Option BinaryOp) (operand : Reader Expr) :
    Nat → Expr → Reader Expr
  | 0, left => pure left
  | steps + 1, left => do
    match (← peek).bind op? with
    | some op => do
      drop 1
      let right ← operand
      chainFrom op? operand steps (.binary op left right)
    | none => pure left

/-- One level of operators that associate to the left. -/
def chain (op? : Token → Option BinaryOp) (operand : Reader Expr) : Reader Expr := do
  let left ← operand
  chainFrom op? operand (← remaining) left

/-- The disjunction operator. -/
def orOp? : Token → Option BinaryOp
  | .keyword .or => some .or
  | _ => none

/-- The exclusive disjunction operator. -/
def xorOp? : Token → Option BinaryOp
  | .keyword .xor => some .xor
  | _ => none

/-- The conjunction operator. -/
def andOp? : Token → Option BinaryOp
  | .keyword .and => some .and
  | _ => none

/-- Sums and differences. -/
def sumOp? : Token → Option BinaryOp
  | .symbol .plus => some .add
  | .symbol .dash => some .subtract
  | _ => none

/-- Products, quotients and remainders. -/
def productOp? : Token → Option BinaryOp
  | .symbol .star => some .multiply
  | .symbol .slash => some .divide
  | .symbol .percent => some .modulo
  | _ => none

/-- Powers. -/
def powerOp? : Token → Option BinaryOp
  | .symbol .caret => some .power
  | _ => none

/-- Comparisons of one token. -/
def comparisonOp? : Token → Option BinaryOp
  | .symbol .equals => some .equal
  | .symbol .notEquals => some .notEqual
  | .symbol .less => some .less
  | .symbol .lessEquals => some .lessEqual
  | .symbol .greater => some .greater
  | .symbol .greaterEquals => some .greaterEqual
  | .symbol .matches => some .matches
  | .keyword .in_ => some .isIn
  | .keyword .contains => some .contains
  | _ => none

/-- Comparisons that `WITH` completes. -/
def affixOp? : Token → Option BinaryOp
  | .keyword .startsWith => some .startsWith
  | .keyword .endsWith => some .endsWith
  | _ => none

/-- Comparisons and tests for null, from the left; at most `steps` of them. -/
def comparisonsFrom (operand : Reader Expr) : Nat → Expr → Reader Expr
  | 0, left => pure left
  | steps + 1, left => do
    let token ← peek
    if let some op := token.bind comparisonOp? then
      drop 1
      let right ← operand
      comparisonsFrom operand steps (.binary op left right)
    else if let some op := token.bind affixOp? then
      drop 1
      keyword .with_
      let right ← operand
      comparisonsFrom operand steps (.binary op left right)
    else if ← eatKeyword .is then
      let negated ← eatKeyword .not
      keyword .null
      comparisonsFrom operand steps (if negated then .isNotNull left else .isNull left)
    else pure left

/-- Negations before an operand, at most `steps` of them. -/
def negations (operand : Reader Expr) : Nat → Reader Expr
  | 0 => operand
  | steps + 1 => do
    if ← eatKeyword .not then return .unary .not (← negations operand steps)
    else operand

/-- The negative of an expression; of a number literal, the literal of the negative. -/
def negative : Expr → Expr
  | .literal (.int n) => .literal (.int (-n))
  | .literal (.float x) => .literal (.float (-x))
  | e => .unary .negate e

/-- Signs before an operand, at most `steps` of them. -/
def signs (operand : Reader Expr) : Nat → Reader Expr
  | 0 => operand
  | steps + 1 => do
    if ← eatSymbol .dash then return negative (← signs operand steps)
    else if ← eatSymbol .plus then return .unary .plus (← signs operand steps)
    else operand

/-! ## Patterns -/

/-- One key and its value in a map. -/
def entry (sub : Reader Expr) : Reader (String × Expr) := do
  let key ← match ← peek with
    | some (.text s) => do drop 1; pure s
    | _ => name "property key"
  symbol .colon
  return (key, ← sub)

/-- A map between braces. -/
def entries (sub : Reader Expr) : Reader (List (String × Expr)) := do
  symbol .leftBrace
  let items ← if ← atSymbol .rightBrace then pure [] else commaList (entry sub)
  symbol .rightBrace
  return items

/-- The properties of a pattern element, if a map comes next. -/
def patternProperties (sub : Reader Expr) : Reader (List (String × Expr)) := do
  if ← atSymbol .leftBrace then entries sub else return []

/-- A name, if one comes next. -/
def optionalIdent : Reader (Option String) := do
  match ← peek with
  | some (.ident name) => do drop 1; return some name
  | _ => return none

/-- Labels, each after a colon; at most `steps` of them. -/
def labelList : Nat → Reader (List String)
  | 0 => pure []
  | steps + 1 => do
    if ← eatSymbol .colon then return (← name "label name") :: (← labelList steps)
    else return []

/-- A node between parentheses. -/
def nodePattern (sub : Reader Expr) : Reader NodePattern := do
  symbol .leftParen
  let name ← optionalIdent
  let labels ← labelList (← remaining)
  let properties ← patternProperties sub
  symbol .rightParen
  return ⟨name, labels, properties⟩

/-- Further types of a relationship, each after a bar; at most `steps` of them. -/
def moreTypes : Nat → Reader (List String)
  | 0 => pure []
  | steps + 1 => do
    if ← eatSymbol .pipe then
      let _ ← eatSymbol .colon
      return (← name "relationship type") :: (← moreTypes steps)
    else return []

/-- A bound of a length, if a number comes next. -/
def lengthBound : Reader (Option Nat) := do
  match ← peek with
  | some (.int n) =>
    if 0 ≤ n.toInt ∧ n.toInt < 0x100000000 then do
      drop 1
      return some n.toInt.toNat
    else fail (.badPathLength n)
  | _ => return none

/-- The lengths after a star. -/
def lengthRange : Reader LengthRange := do
  let min ← lengthBound
  if ← eatSymbol .dotDot then return ⟨min, ← lengthBound⟩ else return ⟨min, min⟩

/-- The inside of a relationship's brackets. -/
def relationshipBody (sub : Reader Expr) (heading : Heading) : Reader RelationshipPattern := do
  let name ← optionalIdent
  let types ← if ← eatSymbol .colon then
      pure ((← Reader.name "relationship type") :: (← moreTypes (← remaining)))
    else pure []
  let range ← if ← eatSymbol .star then pure (some (← lengthRange)) else pure none
  let properties ← patternProperties sub
  symbol .rightBracket
  return ⟨name, types, heading, properties, range⟩

/-- The heading of a relationship from the arrow heads at its two ends. -/
def heading (left right : Bool) : Reader Heading :=
  match left, right with
  | false, true => pure .outgoing
  | true, false => pure .incoming
  | false, false => pure .undirected
  | true, true => fail .twoWayRelationship

/-- A relationship between two nodes of a pattern. -/
def relationshipPattern (sub : Reader Expr) : Reader RelationshipPattern := do
  let left ← eatSymbol .less
  symbol .dash
  let body ← if ← eatSymbol .leftBracket then relationshipBody sub .undirected
    else pure ⟨none, [], .undirected, [], none⟩
  symbol .dash
  let right ← eatSymbol .greater
  return { body with heading := ← heading left right }

/-- Does a relationship come next? -/
def atRelationship : Reader Bool := do
  if ← atSymbol .dash then return true
  else return (← atSymbol .less) && (← peekSecond).any (·.isSymbol .dash)

/-- The further relationships and nodes of a walk, at most `steps` of them. -/
def patternChain (sub : Reader Expr) : Nat → Reader (List (RelationshipPattern × NodePattern))
  | 0 => pure []
  | steps + 1 => do
    if ← atRelationship then
      let relationship ← relationshipPattern sub
      let node ← nodePattern sub
      return (relationship, node) :: (← patternChain sub steps)
    else return []

/-- The name that a walk's path is given, if one comes next. -/
def pathName : Reader (Option String) := do
  match ← peek, ← peekSecond with
  | some (.ident name), some (.symbol .equals) => do drop 2; return some name
  | _, _ => return none

/-- One walk of a pattern. -/
def patternPart (sub : Reader Expr) : Reader PatternPart := do
  let path ← pathName
  if let some (.ident name) := ← peek then
    if ["shortestpath", "allshortestpaths"].contains (Text.lower name) then
      throw (.notImplemented name)
  let start ← nodePattern sub
  let chain ← patternChain sub (← remaining)
  return ⟨path, start, chain⟩

/-! ## Primary expressions -/

/-- A pattern with at least one relationship, if one comes next; else nothing is taken. -/
def patternPredicate? (sub : Reader Expr) : Reader (Option Expr) := fun tokens =>
  match patternPart sub tokens with
  | .ok (part, rest) =>
    if part.chain.isEmpty then .ok (none, tokens) else .ok (some (.pattern part), rest)
  | .error _ => .ok (none, tokens)

/-- What stands between brackets: a comprehension or the items of a list. -/
def listBody (sub : Reader Expr) : Reader Expr := do
  match ← peek, ← peekSecond with
  | some (.ident name), some (.keyword .in_) => do
    drop 2
    let source ← sub
    let filter ← after? .where_ sub
    let result ← if ← eatSymbol .pipe then pure (some (← sub)) else pure none
    symbol .rightBracket
    return .comprehension name source filter result
  | _, _ => do
    let items ← if ← atSymbol .rightBracket then pure [] else commaList sub
    symbol .rightBracket
    return .list items

/-- The quantifier that a function name spells, in any case. -/
def quantifier? (function : String) : Option Quantifier :=
  match Text.lower function with
  | "all" => some .all
  | "any" => some .any
  | "none" => some .none
  | "single" => some .single
  | _ => none

/-- The call of a function whose name has been taken. -/
def callBody (sub : Reader Expr) (function : String) : Reader Expr := do
  symbol .leftParen
  if Text.lower function == "count" && (← atSymbol .star) then
    drop 1
    symbol .rightParen
    return .countAll
  match quantifier? function with
  | some kind =>
    let name ← ident "variable in quantifier"
    keyword .in_
    let source ← sub
    keyword .where_
    let predicate ← sub
    symbol .rightParen
    return .quantified kind name source predicate
  | none =>
    let distinct ← eatKeyword .distinct
    let args ← if ← atSymbol .rightParen then pure [] else commaList sub
    symbol .rightParen
    return .call function args distinct

/-- The branches of a `CASE`, at most `steps` of them. -/
def caseBranches (sub : Reader Expr) : Nat → Reader (List (Expr × Expr))
  | 0 => pure []
  | steps + 1 => do
    if ← eatKeyword .when then
      let condition ← sub
      keyword .then_
      let result ← sub
      return (condition, result) :: (← caseBranches sub steps)
    else return []

/-- What follows `CASE`. -/
def caseBody (sub : Reader Expr) : Reader Expr := do
  let operand ← if ← atKeyword .when then pure none else pure (some (← sub))
  let branches ← caseBranches sub (← remaining)
  if branches.isEmpty then fail .caseWithoutBranch
  let default ← after? .else_ sub
  keyword .end_
  return .case operand branches default

/-- The value of a token that is a literal. -/
def literal? : Token → Option Value
  | .int n => some (.int n)
  | .float x => some (.float x)
  | .text s => some (.text s)
  | .keyword .true_ => some (.bool true)
  | .keyword .false_ => some (.bool false)
  | .keyword .null => some .null
  | _ => none

/-- An expression without operators around it. -/
def primary (sub : Reader Expr) : Reader Expr := do
  let token ← peek
  if let some v := token.bind literal? then
    drop 1
    return .literal v
  match token with
  | some (.parameter name) => do drop 1; return .parameter name
  | some (.symbol .leftParen) =>
    if let some predicate ← patternPredicate? sub then return predicate
    drop 1
    let inner ← sub
    symbol .rightParen
    return inner
  | some (.symbol .leftBracket) => do drop 1; listBody sub
  | some (.symbol .leftBrace) => return .map (← entries sub)
  | some (.keyword .case) => do drop 1; caseBody sub
  | some (.ident name) =>
    drop 1
    if ← atSymbol .leftParen then callBody sub name else return .var name
  | some (.keyword .all) =>
    if (← peekSecond).any (·.isSymbol .leftParen) then
      drop 1
      callBody sub "all"
    else fail (.notExpression token)
  | _ => fail (.notExpression token)

/-! ## Access to parts -/

/-- The end of a slice and its closing bracket. -/
def sliceEnd (sub : Reader Expr) (target : Expr) (lower : Option Expr) : Reader Expr := do
  let upper ← if ← atSymbol .rightBracket then pure none else pure (some (← sub))
  symbol .rightBracket
  return .slice target lower upper

/-- An index or a slice whose opening bracket has been taken. -/
def indexBody (sub : Reader Expr) (target : Expr) : Reader Expr := do
  if ← eatSymbol .dotDot then sliceEnd sub target none
  else
    let position ← sub
    if ← eatSymbol .dotDot then sliceEnd sub target (some position)
    else
      symbol .rightBracket
      return .index target position

/-- Accesses after an expression, at most `steps` of them. -/
def accessesFrom (sub : Reader Expr) : Nat → Expr → Reader Expr
  | 0, e => pure e
  | steps + 1, e => do
    if ← eatSymbol .dot then
      let key ← name "property name after '.'"
      accessesFrom sub steps (.property e key)
    else if ← eatSymbol .leftBracket then
      let e ← indexBody sub e
      accessesFrom sub steps e
    else if (← atSymbol .colon) && (← peekSecond).any (fun t => t matches .ident _) then
      let labels ← labelList (← remaining)
      accessesFrom sub steps (.hasLabels e labels)
    else pure e

/-- A primary expression and the accesses to its parts. -/
def postfixed (sub : Reader Expr) : Reader Expr := do
  let e ← primary sub
  accessesFrom sub (← remaining) e

/-! ## All levels -/

/-- An operand of a comparison. -/
def sum (sub : Reader Expr) : Reader Expr :=
  chain sumOp? (chain productOp? (chain powerOp? do signs (postfixed sub) (← remaining)))

/-- An operand of a logical operator. -/
def comparison (sub : Reader Expr) : Reader Expr := do
  let left ← sum sub
  comparisonsFrom (sum sub) (← remaining) left

/-- A complete expression over a reader of the expressions inside it. -/
def level (sub : Reader Expr) : Reader Expr :=
  chain orOp? (chain xorOp? (chain andOp? do negations (comparison sub) (← remaining)))

/-- An expression that nests at most `depth` deep. -/
def reader : Nat → Reader Expr
  | 0 => fail (.notExpression none)
  | depth + 1 => level (reader depth)

/-- Reads one expression from the front of the tokens. -/
def read : Reader Expr := do
  reader (← remaining)

/-- Reads the target of a change: an expression without operators around it. -/
def readPostfixed : Reader Expr := do
  postfixed (reader (← remaining))

/-- Reads one walk of a pattern. -/
def readPattern : Reader PatternPart := do
  patternPart (reader (← remaining))

end PropertyGraph.Expr
