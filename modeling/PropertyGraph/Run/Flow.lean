import PropertyGraph.Run.State

/-!
# Flows

A flow gives items one by one, each only when it is asked for: with every item comes what to do
with the state at the time the next one is asked for.  Between two items others may change the
state, so that a flow that reads the store and one that writes it take turns.  An item says how many
cursors the flow holds open while it waits; who stops there has to close them.

Every flow is finite, and all operations here are recursions on it.
-/

namespace PropertyGraph

/-- Items that are computed on demand, up to an end or a failure. -/
inductive Flow (α : Type) where
  | done (s : RunState)
  | fail (e : Error) (s : RunState)
  | emit (a : α) (held : Nat) (s : RunState) (rest : RunState → Flow α)

/-- A flow that has not been asked for anything yet. -/
abbrev Source (α : Type) := RunState → Flow α

namespace Flow

variable {α β : Type}

/-! ## Making flows -/

/-- A flow of one item. -/
def single (a : α) : Source α :=
  fun s => .emit a 0 s .done

/-- The items of a list. -/
def ofList : List α → Source α
  | [], s => .done s
  | a :: rest, s => .emit a 0 s (ofList rest)

/-- The items that a computation results in. -/
def ofRun (r : Run (List α)) : Source α := fun s =>
  match r s with
  | (.ok items, s) => ofList items s
  | (.error e, s) => .fail e s

/-- The item that a computation results in, if it results in one. -/
def ofOption (r : Run (Option α)) : Source α := fun s =>
  match r s with
  | (.ok (some a), s) => single a s
  | (.ok none, s) => .done s
  | (.error e, s) => .fail e s

/-! ## Putting flows together -/

/-- A flow inside another one that waits and holds cursors: at its end the other one goes on, and
at a failure the held cursors are closed. -/
def before (held : Nat) (next : Source α) : Flow α → Flow α
  | .done s => next s
  | .fail e s => .fail e (s.closeCursors held)
  | .emit a inner s rest => .emit a (held + inner) s fun s => (rest s).before held next

/-- The flows of all items, one after the other. -/
def flatMap (f : α → Source β) : Flow α → Flow β
  | .done s => .done s
  | .fail e s => .fail e s
  | .emit a held s rest => (f a s).before held fun s => (rest s).flatMap f

/-- The flow with every item replaced. -/
def map (f : α → β) : Flow α → Flow β
  | .done s => .done s
  | .fail e s => .fail e s
  | .emit a held s rest => .emit (f a) held s fun s => (rest s).map f

/-- The flows of the items of a list, one after the other. -/
def inTurn (f : α → Source β) : List α → Source β
  | [], s => .done s
  | a :: rest, s => (f a s).before 0 (inTurn f rest)

/-- The flow, or another one if it gives no items. -/
def orElse (other : Source α) : Flow α → Flow α
  | .done s => other s
  | f => f

/-! ## Choosing items -/

/-- The items without those the same as an earlier one in what `key` gives; `seen` are the keys so
far. -/
def distinct {κ : Type} [BEq κ] (key : α → κ) (seen : List κ) : Flow α → Flow α
  | .done s => .done s
  | .fail e s => .fail e s
  | .emit a held s rest =>
    if seen.contains (key a) then (rest s).distinct key seen
    else .emit a held s fun s => (rest s).distinct key (key a :: seen)

/-- The items after the first `n`. -/
def drop : Nat → Flow α → Flow α
  | n, .emit a held s rest =>
    match n with
    | 0 => .emit a held s rest
    | n + 1 => (rest s).drop n
  | _, f => f

/-- The first items, `n` of them after the next one; then the flow stops. -/
def takeSucc : Nat → Flow α → Flow α
  | n, .emit a held s rest => .emit a held s fun s =>
    match n with
    | 0 => .done (s.closeCursors held)
    | n + 1 => (rest s).takeSucc n
  | _, f => f

/-- The first items; for none the flow does not start. -/
def take (limit : Option Nat) (source : Source α) : Source α := fun s =>
  match limit with
  | none => source s
  | some 0 => .done s
  | some (n + 1) => (source s).takeSucc n

/-- Counts the items as rows that a step of a name gives. -/
def counted (name : String) : Flow α → Flow α
  | .done s => .done s
  | .fail e s => .fail e s
  | .emit a held s rest => .emit a held (s.countRow name) fun s => (rest s).counted name

/-! ## Consuming flows -/

/-- All items, each put into a result by a computation; a failure closes the cursors held. -/
def foldRun (f : β → α → Run β) (b : β) : Flow α → Except Error β × RunState
  | .done s => (.ok b, s)
  | .fail e s => (.error e, s)
  | .emit a held s rest =>
    match f b a s with
    | (.ok b, s) => (rest s).foldRun f b
    | (.error e, s) => (.error e, s.closeCursors held)

/-- All items in reverse. -/
def gather (f : Flow α) : Except Error (List α) × RunState :=
  f.foldRun (fun items a => pure (a :: items)) []

/-- The items of a flow in a list. -/
def toList (source : Source α) : Run (List α) := fun s =>
  match (source s).gather with
  | (.ok items, s) => (.ok items.reverse, s)
  | (.error e, s) => (.error e, s)

end Flow

end PropertyGraph
