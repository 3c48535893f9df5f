import PropertyGraph.Config
import PropertyGraph.Eval.Function
import PropertyGraph.Eval.Operator
import PropertyGraph.Row

/-!
# Evaluation of expressions

`Expr.eval` computes the value of an expression in a row.  A comprehension or a quantifier binds the
items of its list one after the other in a temporary scope of the row, and closes that scope whether
or not an error has come up inside; so evaluation is a transformation of the row beside its value.
-/

namespace PropertyGraph

/-- What evaluation reads besides the row. -/
structure EvalEnv where
  params : Entries Value
  config : Config
  world : Function.World

/-- A computation on a row that may fail; the row is there after a failure, too. -/
abbrev RowM (α : Type) := ExceptT Error (StateM Row) α

namespace RowM

variable {α : Type}

/-- Fails. -/
def fail (e : Error) : RowM α :=
  fun row => (.error e, row)

/-- A result that does not concern the row. -/
def lift (r : Except Error α) : RowM α :=
  fun row => (r, row)

/-- A computation inside a temporary scope, which is closed in the end. -/
def within (name : String) (v : Value) (inner : RowM α) : RowM α := fun row =>
  let (result, row) := inner (row.push name v)
  match row.pop 1 with
  | .ok row => (result, row)
  | .error e => (.error e, row)

/-- Is the value true?  Null is not. -/
def isTrue (v : Value) : RowM Bool := do
  return (← lift v.toTruth) == some true

/-- The items of a list; none for null. -/
def listItems (v : Value) : RowM (Option (List Value)) :=
  match v with
  | .null => pure none
  | .list items => pure (some items)
  | v => fail (.mismatch "LIST" v)

/-- What a comprehension keeps of one item: nothing where the filter is not true, else the result
computed from it or the item itself. -/
def keepItem (filter result : RowM (Option Value)) (item : Value) : RowM (List Value) := do
  let kept ← match ← filter with
    | none => pure true
    | some v => isTrue v
  if kept then return [(← result).getD item] else return []

/-- What a comprehension keeps of the items in turn. -/
def comprehend (name : String) (filter result : RowM (Option Value)) :
    List Value → RowM (List Value)
  | [] => pure []
  | item :: rest => do
    let kept ← within name item (keepItem filter result item)
    return kept ++ (← comprehend name filter result rest)

/-- The outcomes of a predicate on the items in turn. -/
def outcomes (name : String) (predicate : RowM Value) : List Value → RowM (List Truth)
  | [] => pure []
  | item :: rest => do
    let outcome ← within name item (do lift (← predicate).toTruth)
    return outcome :: (← outcomes name predicate rest)

end RowM

namespace Expr

open RowM

mutual

/-- The value of an expression. -/
def eval (env : EvalEnv) : Expr → RowM Value
  | .literal v => pure v
  | .parameter name =>
    match Entries.get? name env.params with
    | some v => pure v
    | none => fail (.missingParameter name)
  | .var name => fun row => (row.get name, row)
  | .property target key => do
    lift ((← eval env target).part env.config.property key)
  | .hasLabels target labels => do
    lift ((← eval env target).carries env.config.label labels)
  | .list items => return .list (← evalList env items)
  | .map entries => return .map (Entries.ofList (← evalEntries env entries))
  | .index target position => do
    let v ← eval env target
    let i ← eval env position
    lift (v.index env.config.property i)
  | .slice target lower upper => do
    let v ← eval env target
    let low ← evalOption env lower
    let high ← evalOption env upper
    lift (v.slice low high)
  | .unary op operand => do
    lift ((← eval env operand).applyUnary op)
  | .binary .and left right => do
    match ← lift (← eval env left).toTruth with
    | some false => return .bool false
    | l => return .ofTruth (Truth.and l (← lift (← eval env right).toTruth))
  | .binary .or left right => do
    match ← lift (← eval env left).toTruth with
    | some true => return .bool true
    | l => return .ofTruth (Truth.or l (← lift (← eval env right).toTruth))
  | .binary .xor left right => do
    let l ← lift (← eval env left).toTruth
    let r ← lift (← eval env right).toTruth
    return .ofTruth (Truth.xor l r)
  | .binary op left right => do
    let l ← eval env left
    let r ← eval env right
    lift (l.applyBinary op r)
  | .isNull operand => return .bool (← eval env operand).isNull
  | .isNotNull operand => return .bool !(← eval env operand).isNull
  | .call function args _ =>
    if isAggregateName function then fail (.invalidArgument (.misplacedAggregate function))
    else do
      lift (Function.call env.world function (← evalList env args))
  | .countAll => fail (.invalidArgument .misplacedCount)
  | .case operand branches default => do
    match ← evalBranches env (← evalOption env operand) branches with
    | some v => return v
    | none => return (← evalOption env default).getD .null
  | .comprehension name source filter result => do
    match ← listItems (← eval env source) with
    | none => return .null
    | some items =>
      return .list (← comprehend name (evalOption env filter) (evalOption env result) items)
  | .quantified kind name source predicate => do
    match ← listItems (← eval env source) with
    | none => return .null
    | some items =>
      let results ← outcomes name (eval env predicate) items
      return .ofTruth (kind.decide (results.count (some true)) (results.count (some false))
        (results.count none))
  | .pattern _ => fail (.notImplemented "pattern expressions")

/-- The values of some expressions in turn. -/
def evalList (env : EvalEnv) : List Expr → RowM (List Value)
  | [] => pure []
  | e :: rest => do
    let v ← eval env e
    return v :: (← evalList env rest)

/-- The values of some entries in turn. -/
def evalEntries (env : EvalEnv) : List (String × Expr) → RowM (List (String × Value))
  | [] => pure []
  | (key, e) :: rest => do
    let v ← eval env e
    return (key, v) :: (← evalEntries env rest)

/-- The value of an expression, if there is one. -/
def evalOption (env : EvalEnv) : Option Expr → RowM (Option Value)
  | none => pure none
  | some e => return some (← eval env e)

/-- The result of the first branch that applies: whose condition is true or, where there is an
operand, equal to it. -/
def evalBranches (env : EvalEnv) (operand : Option Value) :
    List (Expr × Expr) → RowM (Option Value)
  | [] => pure none
  | (condition, result) :: rest => do
    let v ← eval env condition
    let applies ← match operand with
      | some w => pure (Value.equal? w v == some true)
      | none => isTrue v
    if applies then return some (← eval env result) else evalBranches env operand rest

end

/-- Does the expression evaluate to true? -/
def holds (env : EvalEnv) (e : Expr) : RowM Bool := do
  isTrue (← eval env e)

/-- The value of an expression in a row, which stays as it is. -/
def value (env : EvalEnv) (e : Expr) (row : Row) : Except Error Value :=
  (eval env e row).1

end Expr

end PropertyGraph
