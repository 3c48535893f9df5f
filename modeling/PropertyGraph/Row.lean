import PropertyGraph.Error
import PropertyGraph.Value.Basic

/-!
# Rows

A row binds names to values.  Its columns lie in frames: a child row starts with an empty frame and
sees the frames of the rows it descends from.  Above the columns there may be temporary scopes,
which hide columns of the same name and are no columns themselves.
-/

namespace PropertyGraph

/-! ## Bindings -/

/-- Names with values in the order in which the names came. -/
abbrev Bindings (α : Type) := List (String × α)

namespace Bindings

variable {α : Type}

/-- The value of a name. -/
def get? (name : String) : Bindings α → Option α
  | [] => none
  | (key, a) :: rest => if key = name then some a else get? name rest

/-- Is the name bound? -/
def has (name : String) (bindings : Bindings α) : Bool :=
  bindings.any fun (key, _) => key == name

/-- Binds a name: in its place if it is bound already, else at the end. -/
def set (name : String) (a : α) : Bindings α → Bindings α
  | [] => [(name, a)]
  | (key, b) :: rest => if key = name then (key, a) :: rest else (key, b) :: set name a rest

/-- The names in order. -/
def names (bindings : Bindings α) : List String :=
  bindings.map Prod.fst

/-! ## Lemmas -/

theorem get?_set_self (name : String) (a : α) (bindings : Bindings α) :
    get? name (set name a bindings) = some a := by
  induction bindings with
  | nil => simp [set, get?]
  | cons e rest ih =>
    obtain ⟨key, b⟩ := e
    by_cases h : key = name <;> simp [set, get?, h, ih]

theorem get?_set_of_ne {name other : String} (h : other ≠ name) (a : α) (bindings : Bindings α) :
    get? other (set name a bindings) = get? other bindings := by
  induction bindings with
  | nil => simp [set, get?, h.symm]
  | cons e rest ih =>
    obtain ⟨key, b⟩ := e
    by_cases hk : key = name
    · subst hk; simp [set, get?, h.symm]
    · simp [set, get?, hk, ih]

end Bindings

/-! ## Rows -/

/-- An environment of names: its own columns, the frames of its ancestors from the nearest on, and
the temporary scopes from the innermost on. -/
structure Row where
  columns : Bindings Value
  ancestors : List (Bindings Value)
  scopes : List (String × Value)

namespace Row

/-- The row without names. -/
def empty : Row := ⟨[], [], []⟩

instance : Inhabited Row := ⟨empty⟩

/-- The same frames and scopes, compared as values are for grouping. -/
def same (a b : Row) : Bool :=
  a.columns == b.columns && a.ancestors == b.ancestors && a.scopes == b.scopes

instance : BEq Row := ⟨same⟩

/-- A row that sees the columns of this one, but not its temporary scopes. -/
def child (row : Row) : Row :=
  ⟨[], row.columns :: row.ancestors, []⟩

/-- The value of a name among some frames, the nearest first. -/
def lookupFrames (name : String) (frames : List (Bindings Value)) : Option Value :=
  frames.findSome? (Bindings.get? name)

/-- The value of a name: of its innermost scope, or of its nearest column. -/
def lookup? (row : Row) (name : String) : Option Value :=
  (Bindings.get? name row.scopes).or (lookupFrames name (row.columns :: row.ancestors))

/-- The value of a name, which must be bound. -/
def get (row : Row) (name : String) : Except Error Value :=
  match row.lookup? name with
  | some v => .ok v
  | none => .error (.unboundVariable name)

/-- Is the name bound? -/
def has (row : Row) (name : String) : Bool :=
  (row.lookup? name).isSome

/-- Binds a column. -/
def set (row : Row) (name : String) (v : Value) : Row :=
  { row with columns := Bindings.set name v row.columns }

/-- Opens a temporary scope that binds a name. -/
def push (row : Row) (name : String) (v : Value) : Row :=
  { row with scopes := (name, v) :: row.scopes }

/-- The number of temporary scopes. -/
def depth (row : Row) : Nat :=
  row.scopes.length

/-- Closes the `n` innermost temporary scopes, which must be open. -/
def pop (row : Row) (n : Nat) : Except Error Row :=
  if n ≤ row.depth then .ok { row with scopes := row.scopes.drop n }
  else .error (.invalidArgument (.tooFewScopes n row.depth))

/-- The names of all columns, those of the outermost frame first, each once. -/
def names (row : Row) : List String :=
  let all := (row.columns :: row.ancestors).reverse.flatMap Bindings.names
  all.foldl (fun names x => if names.contains x then names else names ++ [x]) []

/-- The row with every column of another set to the value that the other sees. -/
def absorb (row other : Row) : Row :=
  other.names.foldl (fun row name => match other.lookup? name with
    | some v => row.set name v
    | none => row) row

end Row

end PropertyGraph
