import PropertyGraph.Error
import PropertyGraph.Query.Expr.Names

/-!
# Scopes

The names that are visible at a point of a query.  An expression may be used there if it refers to
visible names only and contains no pattern.
-/

namespace PropertyGraph

namespace Expr

mutual

/-- Does a pattern stand somewhere in the expression? -/
def hasPattern : Expr → Bool
  | .literal _ | .parameter _ | .var _ | .countAll => false
  | .pattern _ => true
  | .property e _ | .hasLabels e _ | .unary _ e | .isNull e | .isNotNull e => e.hasPattern
  | .list items | .call _ items _ => anyPattern items
  | .map entries => anyFieldPattern entries
  | .index a b | .binary _ a b => a.hasPattern || b.hasPattern
  | .slice e lower upper => e.hasPattern || optionPattern lower || optionPattern upper
  | .case operand branches default =>
    optionPattern operand || anyBranchPattern branches || optionPattern default
  | .comprehension _ source filter result =>
    source.hasPattern || optionPattern filter || optionPattern result
  | .quantified _ _ source predicate => source.hasPattern || predicate.hasPattern

/-- Does a pattern stand in one of the expressions? -/
def anyPattern : List Expr → Bool
  | [] => false
  | e :: rest => e.hasPattern || anyPattern rest

/-- Does a pattern stand in one of the fields? -/
def anyFieldPattern : List (String × Expr) → Bool
  | [] => false
  | (_, e) :: rest => e.hasPattern || anyFieldPattern rest

/-- Does a pattern stand in a condition or a result? -/
def anyBranchPattern : List (Expr × Expr) → Bool
  | [] => false
  | (a, b) :: rest => a.hasPattern || b.hasPattern || anyBranchPattern rest

/-- Does a pattern stand in the expression, if there is one? -/
def optionPattern : Option Expr → Bool
  | none => false
  | some e => e.hasPattern

end

/-- Refuses an expression that contains a pattern. -/
def refusePattern (e : Expr) : Except Error Unit :=
  if e.hasPattern then .error (.notImplemented "pattern expressions") else .ok ()

end Expr

/-- Visible names in the order of their introduction. -/
structure Scope where
  names : List String
deriving DecidableEq, Repr

namespace Scope

/-- Nothing is visible. -/
def empty : Scope := ⟨[]⟩

/-- The scope with more names. -/
def declare (scope : Scope) (names : List String) : Scope :=
  ⟨names.foldl (fun seen x => if seen.contains x then seen else seen ++ [x]) scope.names⟩

/-- Is the name visible? -/
def has (scope : Scope) (name : String) : Bool :=
  scope.names.contains name

/-- Refuses an expression that cannot be used in the scope. -/
def check (scope : Scope) (e : Expr) : Except Error Unit := do
  e.refusePattern
  match e.freeNames.find? (!scope.has ·) with
  | some x => throw (.syntaxError (.undefinedVariable x))
  | none => return ()

/-- Refuses the first of some expressions that cannot be used in the scope. -/
def checkAll (scope : Scope) (es : List Expr) : Except Error Unit :=
  es.forM scope.check

end Scope

end PropertyGraph
