import PropertyGraph.Query.Expr.Text

/-!
# Clauses

A query is a list of clauses.  Everything after `UNION` is a query of its own, held by the union
clause.  `Clause.title` is the form in which messages name a clause.
-/

namespace PropertyGraph

/-- One column of a projection. -/
structure ProjectionItem where
  expr : Expr
  alias? : Option String

/-- The name of the column: its alias, or else the text of its expression. -/
def ProjectionItem.column (item : ProjectionItem) : String :=
  item.alias?.getD item.expr.text

/-- One key of an order. -/
structure SortKey where
  expr : Expr
  ascending : Bool

/-- What `RETURN` and `WITH` share; `star` keeps every name in scope before the items. -/
structure ProjectionBody where
  distinct : Bool
  star : Bool
  items : List ProjectionItem
  order : List SortKey
  skip : Option Expr
  limit : Option Expr

/-- One change that `SET` makes. -/
inductive SetItem where
  | property (target : Expr) (key : String) (value : Expr)
  | replace (name : String) (source : Expr)
  | merge (name : String) (source : Expr)
  | labels (name : String) (labels : List String)

/-- One change that `REMOVE` makes. -/
inductive RemoveItem where
  | property (target : Expr) (key : String)
  | labels (name : String) (labels : List String)

/-- One clause of a query. -/
inductive Clause where
  | matching (optional : Bool) (parts : List PatternPart) (condition : Option Expr)
  | unwind (source : Expr) (name : String)
  | projectWith (body : ProjectionBody) (condition : Option Expr)
  | projectReturn (body : ProjectionBody)
  | create (parts : List PatternPart)
  | merge (part : PatternPart) (onCreate onMatch : List SetItem)
  | set (items : List SetItem)
  | remove (items : List RemoveItem)
  | delete (detach : Bool) (targets : List Expr)
  | union (all : Bool) (clauses : List Clause)
  | call (procedure : String)

/-- A query is a list of clauses. -/
abbrev Query := List Clause

namespace Clause

/-- The name of the clause in messages. -/
def title : Clause → String
  | .matching false _ _ => "MATCH"
  | .matching true _ _ => "OPTIONAL MATCH"
  | .unwind _ _ => "UNWIND"
  | .projectWith _ _ => "WITH"
  | .projectReturn _ => "RETURN"
  | .create _ => "CREATE"
  | .merge _ _ _ => "MERGE"
  | .set _ => "SET"
  | .remove _ => "REMOVE"
  | .delete _ _ => "DELETE"
  | .union _ _ => "UNION"
  | .call _ => "CALL"

/-- Does the clause change the graph? -/
def isWrite : Clause → Bool
  | .create _ | .merge _ _ _ | .set _ | .remove _ | .delete _ _ => true
  | _ => false

end Clause

end PropertyGraph
