import PropertyGraph.Eval
import PropertyGraph.Store.Select

/-!
# The state of a run

A statement runs in a context that it only reads: who reads, the parameters, the settings.  What it
changes is the store, the numbers of the ids given out, and the counters that belong to the
statement alone.  `Run` is a computation in a context's state that may fail; what it has changed
before a failure stays changed.

Where new elements get their ids and their visibility from is open to whoever runs a statement.
Here ids are given out in sequence, apart for vertices and edges, and all new elements get one
visibility, so that a run is a function of its state.  Random ids, and visibilities that depend on
labels or types, are left out.
-/

namespace PropertyGraph

/-! ## Counters -/

/-- How much a statement has written. -/
structure WriteCounts where
  nodesCreated : Nat
  relationshipsCreated : Nat
  propertiesSet : Nat
  propertiesRemoved : Nat
  labelsAdded : Nat
  labelsRemoved : Nat
  nodesDeleted : Nat
  relationshipsDeleted : Nat
deriving DecidableEq, Repr

/-- No writes. -/
def WriteCounts.zero : WriteCounts := ⟨0, 0, 0, 0, 0, 0, 0, 0⟩

/-- Has the statement written anything? -/
def WriteCounts.any (c : WriteCounts) : Bool :=
  c ≠ zero

/-- What a statement has done so far. -/
structure Stats where
  writes : WriteCounts
  /-- Requests to the store. -/
  requests : Nat
  cursorsOpened : Nat
  cursorsClosed : Nat
  /-- The rows that the steps of a name have given. -/
  rows : Entries Nat
deriving DecidableEq

/-- Nothing done. -/
def Stats.zero : Stats := ⟨.zero, 0, 0, 0, []⟩

/-- The number of cursors that are open. -/
def Stats.openCursors (s : Stats) : Nat :=
  s.cursorsOpened - s.cursorsClosed

/-! ## Context and state -/

/-- What a statement reads and never changes. -/
structure RunContext where
  reader : Authorizations
  params : Entries Value
  config : Config
  /-- The visibility that new elements get, all of them the same, whatever their labels or type. -/
  visibility : String
  today : Date

/-- What a statement changes. -/
structure RunState where
  store : Store
  /-- How many ids of vertices have been given out. -/
  vertexIds : Nat
  /-- How many ids of edges have been given out. -/
  edgeIds : Nat
  stats : Stats
  /-- Estimated numbers of elements by what is demanded of them. -/
  estimates : Entries Nat

namespace RunState

/-- An empty store before any statement. -/
def initial : RunState := ⟨.empty, 0, 0, .zero, []⟩

instance : Inhabited RunState := ⟨initial⟩

/-- The state at the start of a statement: nothing done, nothing estimated. -/
def begin (s : RunState) : RunState :=
  { s with stats := .zero, estimates := [] }

/-- Counts requests to the store. -/
def request (s : RunState) (n : Nat) : RunState :=
  { s with stats := { s.stats with requests := s.stats.requests + n } }

/-- Counts an opened cursor. -/
def openCursor (s : RunState) : RunState :=
  { s with stats := { s.stats with cursorsOpened := s.stats.cursorsOpened + 1 } }

/-- Counts closed cursors. -/
def closeCursors (s : RunState) (n : Nat) : RunState :=
  { s with stats := { s.stats with cursorsClosed := s.stats.cursorsClosed + n } }

/-- Counts a row that a step of a name has given. -/
def countRow (s : RunState) (name : String) : RunState :=
  let n := (Entries.get? name s.stats.rows).getD 0
  { s with stats := { s.stats with rows := Entries.insert name (n + 1) s.stats.rows } }

/-- Counts writes. -/
def countWrites (s : RunState) (f : WriteCounts → WriteCounts) : RunState :=
  { s with stats := { s.stats with writes := f s.stats.writes } }

end RunState

/-! ## Computations -/

/-- A computation that may change the state and may fail. -/
abbrev Run (α : Type) := ExceptT Error (StateM RunState) α

namespace Run

variable {α : Type}

/-- Fails. -/
def fail (e : Error) : Run α :=
  fun s => (.error e, s)

/-- A result that does not concern the state. -/
def lift (r : Except Error α) : Run α :=
  fun s => (r, s)

/-- Changes the state. -/
def update (f : RunState → RunState) : Run Unit :=
  fun s => (.ok (), f s)

/-- The store as it is. -/
def store : Run Store :=
  fun s => (.ok s.store, s)

/-- A write to the store that changes nothing when it fails. -/
def write (f : Store → Except StoreError Store) : Run Unit := fun s =>
  match f s.store with
  | .ok store => (.ok (), { s with store })
  | .error e => (.error (.store e), s)

/-- Counts writes. -/
def countWrites (f : WriteCounts → WriteCounts) : Run Unit :=
  update (·.countWrites f)

/-- The next id of a vertex: `v1`, `v2` and so on. -/
def nextVertexId : Run String := fun s =>
  (.ok ("v" ++ toString (s.vertexIds + 1)), { s with vertexIds := s.vertexIds + 1 })

/-- The next id of an edge: `e1`, `e2` and so on. -/
def nextEdgeId : Run String := fun s =>
  (.ok ("e" ++ toString (s.edgeIds + 1)), { s with edgeIds := s.edgeIds + 1 })

end Run

namespace RunContext

/-- What expressions are evaluated with, over a store. -/
def env (ctx : RunContext) (store : Store) : EvalEnv :=
  ⟨ctx.params, ctx.config, ⟨store.getVertex? ctx.reader, ctx.today⟩⟩

/-- The value of an expression in a row. -/
def value (ctx : RunContext) (e : Expr) (row : Row) : Run Value := fun s =>
  (e.value (ctx.env s.store) row, s)

/-- Is the expression true in a row? -/
def holds (ctx : RunContext) (e : Expr) (row : Row) : Run Bool := fun s =>
  ((e.holds (ctx.env s.store) row).1, s)

end RunContext

end PropertyGraph
