import PropertyGraph.Query.Expr

/-!
# Free names

`Expr.freeNames` lists the names that an expression refers to, each once and in the order of their
first occurrence.  The name that a comprehension or a quantifier gives to the items of its list is
not free in its other parts.  Of a pattern only its own names count.
-/

namespace PropertyGraph.Expr

/-- Adds a name unless it is bound or already there. -/
def noteName (bound found : List String) (name : String) : List String :=
  if bound.contains name || found.contains name then found else found ++ [name]

mutual

/-- The names `found` so far and those of an expression, under the names `bound` around it. -/
def addNames (bound found : List String) : Expr → List String
  | .literal _ | .parameter _ | .countAll => found
  | .var name => noteName bound found name
  | .property e _ | .hasLabels e _ | .unary _ e | .isNull e | .isNotNull e =>
    addNames bound found e
  | .list items | .call _ items _ => addListNames bound found items
  | .map entries => addEntryNames bound found entries
  | .index a b | .binary _ a b => addNames bound (addNames bound found a) b
  | .slice target lower upper =>
    addOptionNames bound (addOptionNames bound (addNames bound found target) lower) upper
  | .case operand branches default =>
    addOptionNames bound (addBranchNames bound (addOptionNames bound found operand) branches)
      default
  | .comprehension name source filter result =>
    addOptionNames (name :: bound)
      (addOptionNames (name :: bound) (addNames bound found source) filter) result
  | .quantified _ name source predicate =>
    addNames (name :: bound) (addNames bound found source) predicate
  | .pattern part => part.names.foldl (noteName bound) found

/-- The names of some expressions in turn. -/
def addListNames (bound found : List String) : List Expr → List String
  | [] => found
  | e :: rest => addListNames bound (addNames bound found e) rest

/-- The names of the values of some entries in turn. -/
def addEntryNames (bound found : List String) : List (String × Expr) → List String
  | [] => found
  | (_, e) :: rest => addEntryNames bound (addNames bound found e) rest

/-- The names of the conditions and results of some branches in turn. -/
def addBranchNames (bound found : List String) : List (Expr × Expr) → List String
  | [] => found
  | (a, b) :: rest => addBranchNames bound (addNames bound (addNames bound found a) b) rest

/-- The names of an expression, if there is one. -/
def addOptionNames (bound found : List String) : Option Expr → List String
  | none => found
  | some e => addNames bound found e

end

/-- The names that the expression refers to. -/
def freeNames (e : Expr) : List String :=
  addNames [] [] e

end PropertyGraph.Expr
