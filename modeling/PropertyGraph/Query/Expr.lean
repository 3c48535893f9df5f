import PropertyGraph.Text.Case
import PropertyGraph.Value.Text

/-!
# Expressions and patterns

The expressions of the query language, and the patterns that clauses match or create.  A pattern
part is a walk of node and relationship patterns; the two types refer to each other, because
patterns hold property expressions and a pattern may stand as a predicate.
-/

namespace PropertyGraph

/-! ## Operators -/

/-- Operators before their operand. -/
inductive UnaryOp where
  | not | negate | plus
deriving DecidableEq, Repr

/-- Operators between their operands. -/
inductive BinaryOp where
  | add | subtract | multiply | divide | modulo | power
  | and | or | xor
  | equal | notEqual | less | lessEqual | greater | greaterEqual
  | isIn | startsWith | endsWith | contains | matches
deriving DecidableEq, Repr

/-- The operator as it is written. -/
def BinaryOp.symbol : BinaryOp → String
  | .add => "+"
  | .subtract => "-"
  | .multiply => "*"
  | .divide => "/"
  | .modulo => "%"
  | .power => "^"
  | .and => "AND"
  | .or => "OR"
  | .xor => "XOR"
  | .equal => "="
  | .notEqual => "<>"
  | .less => "<"
  | .lessEqual => "<="
  | .greater => ">"
  | .greaterEqual => ">="
  | .isIn => "IN"
  | .startsWith => "STARTS WITH"
  | .endsWith => "ENDS WITH"
  | .contains => "CONTAINS"
  | .matches => "=~"

/-- What a quantifier demands of the items of a list. -/
inductive Quantifier where
  | all | any | none | single
deriving DecidableEq, Repr

/-- The quantifier as it is written. -/
def Quantifier.text : Quantifier → String
  | .all => "all"
  | .any => "any"
  | .none => "none"
  | .single => "single"

/-- The direction in which a relationship pattern points along its walk. -/
inductive Heading where
  | outgoing | incoming | undirected
deriving DecidableEq, Repr

/-- The direction seen from the other end. -/
def Heading.reverse : Heading → Heading
  | .outgoing => .incoming
  | .incoming => .outgoing
  | .undirected => .undirected

/-- The bounds of a variable-length relationship; an absent bound is open. -/
structure LengthRange where
  min : Option Nat
  max : Option Nat
deriving DecidableEq, Repr

/-! ## Trees -/

mutual

/-- An expression. -/
inductive Expr where
  | literal (v : Value)
  | parameter (name : String)
  | var (name : String)
  | property (target : Expr) (key : String)
  | hasLabels (target : Expr) (labels : List String)
  | list (items : List Expr)
  | map (entries : List (String × Expr))
  | index (target position : Expr)
  | slice (target : Expr) (lower upper : Option Expr)
  | unary (op : UnaryOp) (operand : Expr)
  | binary (op : BinaryOp) (left right : Expr)
  | isNull (operand : Expr)
  | isNotNull (operand : Expr)
  | call (function : String) (args : List Expr) (distinct : Bool)
  | countAll
  | case (operand : Option Expr) (branches : List (Expr × Expr)) (default : Option Expr)
  | comprehension (name : String) (source : Expr) (filter result : Option Expr)
  | quantified (kind : Quantifier) (name : String) (source predicate : Expr)
  | pattern (part : PatternPart)

/-- A node of a pattern. -/
structure NodePattern where
  name : Option String
  labels : List String
  properties : List (String × Expr)

/-- A relationship of a pattern; one with a range stands for a walk of several edges. -/
structure RelationshipPattern where
  name : Option String
  types : List String
  heading : Heading
  properties : List (String × Expr)
  range : Option LengthRange

/-- One walk of a pattern, with a name for its path if it has one. -/
structure PatternPart where
  pathName : Option String
  start : NodePattern
  chain : List (RelationshipPattern × NodePattern)

end

instance : Inhabited Expr := ⟨.countAll⟩

namespace PatternPart

/-- The node patterns in order. -/
def nodes (p : PatternPart) : List NodePattern :=
  p.start :: p.chain.map Prod.snd

/-- The relationship patterns in order. -/
def relationships (p : PatternPart) : List RelationshipPattern :=
  p.chain.map Prod.fst

/-- The names that the pattern gives: the path, then the nodes, then the relationships. -/
def names (p : PatternPart) : List String :=
  let bound := p.nodes.filterMap (·.name) ++ p.relationships.filterMap (·.name)
  bound.foldl (fun names x => if names.contains x then names else names ++ [x]) p.pathName.toList

end PatternPart

/-! ## Aggregates -/

/-- Is the function, named in any case, one that takes a group of rows together? -/
def isAggregateName (name : String) : Bool :=
  ["count", "sum", "avg", "min", "max", "collect", "stdev", "stdevp"].contains (Text.lower name)

namespace Expr

/-- Is the expression itself the call of an aggregate? -/
def isAggregate : Expr → Bool
  | .countAll => true
  | .call function _ _ => isAggregateName function
  | _ => false

mutual

/-- Does an aggregate occur anywhere in the expression, patterns apart? -/
def hasAggregate : Expr → Bool
  | .literal _ | .parameter _ | .var _ | .pattern _ => false
  | .countAll => true
  | .property e _ | .hasLabels e _ | .unary _ e | .isNull e | .isNotNull e => e.hasAggregate
  | .list items => anyAggregate items
  | .map entries => anyEntryAggregate entries
  | .index a b | .binary _ a b => a.hasAggregate || b.hasAggregate
  | .slice target lower upper =>
    target.hasAggregate || optionAggregate lower || optionAggregate upper
  | .call function args _ => isAggregateName function || anyAggregate args
  | .case operand branches default =>
    optionAggregate operand || anyBranchAggregate branches || optionAggregate default
  | .comprehension _ source filter result =>
    source.hasAggregate || optionAggregate filter || optionAggregate result
  | .quantified _ _ source predicate => source.hasAggregate || predicate.hasAggregate

/-- Does an aggregate occur in one of the expressions? -/
def anyAggregate : List Expr → Bool
  | [] => false
  | e :: rest => e.hasAggregate || anyAggregate rest

/-- Does an aggregate occur in one of the entries? -/
def anyEntryAggregate : List (String × Expr) → Bool
  | [] => false
  | (_, e) :: rest => e.hasAggregate || anyEntryAggregate rest

/-- Does an aggregate occur in a condition or a result? -/
def anyBranchAggregate : List (Expr × Expr) → Bool
  | [] => false
  | (a, b) :: rest => a.hasAggregate || b.hasAggregate || anyBranchAggregate rest

/-- Does an aggregate occur in the expression, if there is one? -/
def optionAggregate : Option Expr → Bool
  | none => false
  | some e => e.hasAggregate

end

end Expr

end PropertyGraph
