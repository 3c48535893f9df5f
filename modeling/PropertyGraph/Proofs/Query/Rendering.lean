import PropertyGraph.Query.Expr.Grammar

/-!
# Expressions as tokens

Every expression that can be read has tokens that it is read from.  An operand stands between
parentheses where its own operator binds too weakly for its place.  Elsewhere there are none, apart
from those of a pattern: it would go on with whatever looks like a further relationship.

    Expr.binding    how strongly the outermost operator of an expression binds
    Expr.tokens     the tokens of an expression
    Expr.tokensAt   the same for a place that wants a level, in parentheses where needed
    Expr.writable   the expressions that the grammar can give
-/

namespace PropertyGraph

/-! ## Levels -/

/-- How strongly an operator binds, from the weakest on.  Labels are told from other accesses,
because two lists of labels in a row would be one. -/
inductive Precedence where
  | or | xor | and | not | comparison | sum | product | power | sign | label | access | atom
deriving DecidableEq, Repr

namespace Precedence

/-- The position of the level; the stronger the greater. -/
def rank : Precedence → Nat
  | .or => 1
  | .xor => 2
  | .and => 3
  | .not => 4
  | .comparison => 5
  | .sum => 6
  | .product => 7
  | .power => 8
  | .sign => 9
  | .label => 10
  | .access => 11
  | .atom => 12

/-- The level of operands on the right, where operators associate to the left. -/
def next : Precedence → Precedence
  | .or => .xor
  | .xor => .and
  | .and => .not
  | .not => .comparison
  | .comparison => .sum
  | .sum => .product
  | .product => .power
  | .power => .sign
  | .sign => .label
  | .label => .access
  | .access => .atom
  | .atom => .atom

instance : LE Precedence := ⟨fun k l => k.rank ≤ l.rank⟩

instance : LT Precedence := ⟨fun k l => k.rank < l.rank⟩

instance : DecidableLE Precedence := fun k l => inferInstanceAs (Decidable (k.rank ≤ l.rank))

instance : DecidableLT Precedence := fun k l => inferInstanceAs (Decidable (k.rank < l.rank))

end Precedence

/-! ## Operators -/

/-- The level of an operator between its operands. -/
def BinaryOp.level : BinaryOp → Precedence
  | .or => .or
  | .xor => .xor
  | .and => .and
  | .add | .subtract => .sum
  | .multiply | .divide | .modulo => .product
  | .power => .power
  | .equal | .notEqual | .less | .lessEqual | .greater | .greaterEqual | .isIn | .startsWith
  | .endsWith | .contains | .matches => .comparison

/-- The tokens of an operator between its operands. -/
def BinaryOp.tokens : BinaryOp → List Token
  | .add => [.symbol .plus]
  | .subtract => [.symbol .dash]
  | .multiply => [.symbol .star]
  | .divide => [.symbol .slash]
  | .modulo => [.symbol .percent]
  | .power => [.symbol .caret]
  | .and => [.keyword .and]
  | .or => [.keyword .or]
  | .xor => [.keyword .xor]
  | .equal => [.symbol .equals]
  | .notEqual => [.symbol .notEquals]
  | .less => [.symbol .less]
  | .lessEqual => [.symbol .lessEquals]
  | .greater => [.symbol .greater]
  | .greaterEqual => [.symbol .greaterEquals]
  | .isIn => [.keyword .in_]
  | .startsWith => [.keyword .startsWith, .keyword .with_]
  | .endsWith => [.keyword .endsWith, .keyword .with_]
  | .contains => [.keyword .contains]
  | .matches => [.symbol .matches]

/-- The level of an operator before its operand. -/
def UnaryOp.level : UnaryOp → Precedence
  | .not => .not
  | .negate | .plus => .sign

/-- The token of an operator before its operand. -/
def UnaryOp.token : UnaryOp → Token
  | .not => .keyword .not
  | .negate => .symbol .dash
  | .plus => .symbol .plus

/-- The token of a quantifier. -/
def Quantifier.token : Quantifier → Token
  | .all => .keyword .all
  | .any => .ident "any"
  | .none => .ident "none"
  | .single => .ident "single"

namespace Expr

/-! ## Literals -/

/-- Is the double below zero or the negative zero? -/
def isSigned (x : Double) : Bool :=
  x.bits &&& Double.signBit != 0

/-- Is the value a number with a sign before it? -/
def isNegative : Value → Bool
  | .int n => n < 0
  | .float x => isSigned x
  | _ => false

/-- The token of a literal without a sign. -/
def literalToken : Value → Token
  | .int n => .int n
  | .float x => .float x
  | .text s => .text s
  | .bool true => .keyword .true_
  | .bool false => .keyword .false_
  | _ => .keyword .null

/-- The tokens of a literal; a sign before a number is a token of its own. -/
def literalTokens : Value → List Token
  | .int n => if n < 0 then [.symbol .dash, .int (-n)] else [.int n]
  | .float x => if isSigned x then [.symbol .dash, .float (-x)] else [.float x]
  | v => [literalToken v]

/-- Can a token be the literal of the value, with a sign before it for a negative number? -/
def isLiteral : Value → Bool
  | .int n => n ≠ Int64.minValue
  | .float x => !x.isNaN
  | .text _ | .bool _ | .null => true
  | _ => false

/-- Is the expression the literal of a number? -/
def isNumber : Expr → Bool
  | .literal (.int _) | .literal (.float _) => true
  | _ => false

/-! ## The level of an expression -/

/-- How strongly the outermost operator of the expression binds. -/
def binding : Expr → Precedence
  | .literal v => if isNegative v then .sign else .atom
  | .hasLabels _ _ => .label
  | .property _ _ | .index _ _ | .slice _ _ _ => .access
  | .unary op _ => op.level
  | .binary op _ _ => op.level
  | .isNull _ | .isNotNull _ => .comparison
  | .pattern _ => .or
  | _ => .atom

/-- Is the expression a pattern? -/
def isPattern : Expr → Bool
  | .pattern _ => true
  | _ => false

/-! ## Tokens -/

/-- Tokens between parentheses. -/
def parenthesized (ts : List Token) : List Token :=
  .symbol .leftParen :: (ts ++ [.symbol .rightParen])

/-- Does the expression need parentheses in a place that wants a level? -/
def needsParens (l : Precedence) (e : Expr) : Bool :=
  e.isPattern || e.binding < l

/-- The tokens of an expression in a place that wants a level. -/
def placed (l : Precedence) (e : Expr) (ts : List Token) : List Token :=
  if e.needsParens l then parenthesized ts else ts

/-- Lists of tokens with commas between them. -/
def commas (tss : List (List Token)) : List Token :=
  [.symbol .comma].intercalate tss

/-- Entries between braces. -/
def braced (tss : List (List Token)) : List Token :=
  .symbol .leftBrace :: (commas tss ++ [.symbol .rightBrace])

/-- The properties of a part of a pattern, or nothing where there are none. -/
def bracedUnlessEmpty (tss : List (List Token)) : List Token :=
  if tss.isEmpty then [] else braced tss

/-- Labels, each after a colon. -/
def labelTokens (labels : List String) : List Token :=
  labels.flatMap fun l => [.symbol .colon, .ident l]

/-- A name, or nothing. -/
def nameTokens (name : Option String) : List Token :=
  name.toList.map .ident

/-- The types of a relationship. -/
def typeTokens : List String → List Token
  | [] => []
  | t :: rest =>
    .symbol .colon :: .ident t :: rest.flatMap fun t => [.symbol .pipe, .ident t]

/-- A bound of a length, or nothing. -/
def boundTokens (bound : Option Nat) : List Token :=
  bound.toList.map fun n => .int (.ofNat n)

/-- The lengths of a relationship. -/
def rangeTokens : Option LengthRange → List Token
  | none => []
  | some range =>
    .symbol .star :: (boundTokens range.min ++ .symbol .dotDot :: boundTokens range.max)

mutual

/-- The tokens of an expression. -/
def tokens : Expr → List Token
  | .literal v => literalTokens v
  | .parameter name => [.parameter name]
  | .var name => [.ident name]
  | .property target key => placed .label target target.tokens ++ [.symbol .dot, .ident key]
  | .hasLabels target labels => placed .access target target.tokens ++ labelTokens labels
  | .list items =>
    .symbol .leftBracket :: (commas (itemTokens .atom items) ++ [.symbol .rightBracket])
  | .map entries => braced (entryTokens entries)
  | .index target position =>
    placed .label target target.tokens ++
      .symbol .leftBracket :: (placed .or position position.tokens ++ [.symbol .rightBracket])
  | .slice target lower upper =>
    placed .label target target.tokens ++ .symbol .leftBracket ::
      (optionTokens [] lower ++ .symbol .dotDot ::
        (optionTokens [] upper ++ [.symbol .rightBracket]))
  | .unary op operand => op.token :: placed op.level operand operand.tokens
  | .binary op left right =>
    placed op.level left left.tokens ++ op.tokens ++ placed op.level.next right right.tokens
  | .isNull operand =>
    placed .comparison operand operand.tokens ++ [.keyword .is, .keyword .null]
  | .isNotNull operand =>
    placed .comparison operand operand.tokens ++ [.keyword .is, .keyword .not, .keyword .null]
  | .call function args distinct =>
    .ident function :: .symbol .leftParen ::
      ((if distinct then [.keyword .distinct] else []) ++ commas (itemTokens .or args) ++
        [.symbol .rightParen])
  | .countAll => [.ident "count", .symbol .leftParen, .symbol .star, .symbol .rightParen]
  | .case operand branches default =>
    .keyword .case :: (optionTokens [] operand ++ branchTokens branches ++
      optionTokens [.keyword .else_] default ++ [.keyword .end_])
  | .comprehension name source filter result =>
    .symbol .leftBracket :: .ident name :: .keyword .in_ :: (placed .or source source.tokens ++
      optionTokens [.keyword .where_] filter ++ optionTokens [.symbol .pipe] result ++
        [.symbol .rightBracket])
  | .quantified kind name source predicate =>
    kind.token :: .symbol .leftParen :: .ident name :: .keyword .in_ ::
      (placed .or source source.tokens ++ .keyword .where_ ::
        (placed .or predicate predicate.tokens ++ [.symbol .rightParen]))
  | .pattern part => partTokens part

/-- The tokens of some expressions, each in a place that wants a level. -/
def itemTokens (l : Precedence) : List Expr → List (List Token)
  | [] => []
  | e :: rest => placed l e e.tokens :: itemTokens l rest

/-- The tokens of some entries. -/
def entryTokens : List (String × Expr) → List (List Token)
  | [] => []
  | (key, e) :: rest =>
    (.ident key :: .symbol .colon :: placed .or e e.tokens) :: entryTokens rest

/-- The tokens of the branches of a `CASE`. -/
def branchTokens : List (Expr × Expr) → List Token
  | [] => []
  | (condition, result) :: rest =>
    .keyword .when :: (placed .or condition condition.tokens ++ .keyword .then_ ::
      (placed .or result result.tokens ++ branchTokens rest))

/-- The tokens of an expression after some others, or nothing where there is none. -/
def optionTokens (before : List Token) : Option Expr → List Token
  | none => []
  | some e => before ++ placed .or e e.tokens

/-- The tokens of a node of a pattern. -/
def nodeTokens : NodePattern → List Token
  | ⟨name, labels, properties⟩ => .symbol .leftParen :: (nameTokens name ++ labelTokens labels ++
      bracedUnlessEmpty (entryTokens properties) ++ [.symbol .rightParen])

/-- The tokens of a relationship of a pattern. -/
def relationshipTokens : RelationshipPattern → List Token
  | ⟨name, types, heading, properties, range⟩ =>
    (if heading = .incoming then [.symbol .less] else []) ++
      .symbol .dash :: .symbol .leftBracket :: (nameTokens name ++ typeTokens types ++
        rangeTokens range ++ bracedUnlessEmpty (entryTokens properties) ++
          .symbol .rightBracket :: .symbol .dash ::
            if heading = .outgoing then [.symbol .greater] else [])

/-- The tokens of further relationships and nodes of a walk. -/
def chainTokens : List (RelationshipPattern × NodePattern) → List Token
  | [] => []
  | (r, n) :: rest => relationshipTokens r ++ nodeTokens n ++ chainTokens rest

/-- The tokens of a walk without a name. -/
def partTokens : PatternPart → List Token
  | ⟨_, start, chain⟩ => nodeTokens start ++ chainTokens chain

end

/-- The tokens of an expression in a place that wants a level. -/
def tokensAt (l : Precedence) (e : Expr) : List Token :=
  placed l e e.tokens

/-! ## What can be read -/

/-- Are the bounds of the lengths such as can be read? -/
def isRange (range : LengthRange) : Bool :=
  range.min.all (· < 0x100000000) && range.max.all (· < 0x100000000)

mutual

/-- Can the expression be read?  A sign before the literal of a number makes it another literal, and
a quantifier is no function. -/
def writable : Expr → Bool
  | .literal v => isLiteral v
  | .parameter _ | .var _ | .countAll => true
  | .property e _ | .isNull e | .isNotNull e => e.writable
  | .hasLabels e labels => !labels.isEmpty && e.writable
  | .list items => allWritable items
  | .map entries => entriesWritable entries
  | .index a b | .binary _ a b => a.writable && b.writable
  | .slice target lower upper => target.writable && optionWritable lower && optionWritable upper
  | .unary op e => !(op == .negate && e.isNumber) && e.writable
  | .call function args _ => (quantifier? function).isNone && allWritable args
  | .case operand branches default =>
    !branches.isEmpty && optionWritable operand && branchesWritable branches &&
      optionWritable default
  | .comprehension _ source filter result =>
    source.writable && optionWritable filter && optionWritable result
  | .quantified _ _ source predicate => source.writable && predicate.writable
  | .pattern part => partWritable part

/-- Can all of the expressions be read? -/
def allWritable : List Expr → Bool
  | [] => true
  | e :: rest => e.writable && allWritable rest

/-- Can the values of all entries be read? -/
def entriesWritable : List (String × Expr) → Bool
  | [] => true
  | (_, e) :: rest => e.writable && entriesWritable rest

/-- Can the conditions and results of all branches be read? -/
def branchesWritable : List (Expr × Expr) → Bool
  | [] => true
  | (a, b) :: rest => a.writable && b.writable && branchesWritable rest

/-- Can the expression be read, if there is one? -/
def optionWritable : Option Expr → Bool
  | none => true
  | some e => e.writable

/-- Can the node be read? -/
def nodeWritable : NodePattern → Bool
  | ⟨_, _, properties⟩ => entriesWritable properties

/-- Can the relationship be read? -/
def relationshipWritable : RelationshipPattern → Bool
  | ⟨_, _, _, properties, range⟩ => entriesWritable properties && range.all isRange

/-- Can the further relationships and nodes of a walk be read? -/
def chainWritable : List (RelationshipPattern × NodePattern) → Bool
  | [] => true
  | (r, n) :: rest => relationshipWritable r && nodeWritable n && chainWritable rest

/-- Can the walk be read as a predicate?  It has no name for its path and at least one
relationship. -/
def partWritable : PatternPart → Bool
  | ⟨pathName, start, chain⟩ =>
    pathName.isNone && !chain.isEmpty && nodeWritable start && chainWritable chain

end

/-! ## Lemmas -/

theorem placed_tokens (l : Precedence) (e : Expr) : placed l e e.tokens = e.tokensAt l :=
  rfl

theorem itemTokens_eq (l : Precedence) (items : List Expr) :
    itemTokens l items = items.map (tokensAt l) := by
  induction items with
  | nil => rfl
  | cons e rest ih => rw [itemTokens, ih]; rfl

/-- The tokens of one entry. -/
def entryToken (entry : String × Expr) : List Token :=
  .ident entry.1 :: .symbol .colon :: entry.2.tokensAt .or

theorem entryTokens_eq (entries : List (String × Expr)) :
    entryTokens entries = entries.map entryToken := by
  induction entries with
  | nil => rfl
  | cons entry rest ih => rw [entryTokens, ih]; rfl

theorem allWritable_iff {items : List Expr} :
    allWritable items = true ↔ ∀ e ∈ items, e.writable = true := by
  induction items with
  | nil => simp [allWritable]
  | cons e rest ih => simp [allWritable, ih]

theorem entriesWritable_iff {entries : List (String × Expr)} :
    entriesWritable entries = true ↔ ∀ entry ∈ entries, entry.2.writable = true := by
  induction entries with
  | nil => simp [entriesWritable]
  | cons entry rest ih => simp [entriesWritable, ih]

end Expr

end PropertyGraph
