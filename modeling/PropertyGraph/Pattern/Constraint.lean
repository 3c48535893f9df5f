import PropertyGraph.Error
import PropertyGraph.Query.Expr.Text

/-!
# Constraint graphs

All parts of a pattern together form one graph of constraints: a node constraint for every node
name and for every node pattern without a name, and a relationship constraint, between two of
those, for every relationship pattern.  A name stands for one constraint however often it occurs,
and a constraint is referred to by its position, which it has as its index as well.  `P` is what a
property is compared with: an expression at first, its value when the search begins.
-/

namespace PropertyGraph

/-! ## Types -/

/-- What is demanded of a vertex. -/
structure NodeConstraint (P : Type) where
  index : Nat
  name : Option String
  labels : List String
  properties : List (String × P)
  optional : Bool
  /-- The relationship constraints that have this node as an end, each once. -/
  incident : List Nat

/-- The lengths of the walks that one relationship constraint stands for; without a maximum the
engine's limit applies. -/
structure HopRange where
  min : Nat
  max : Option Nat
deriving DecidableEq, Repr

/-- What is demanded of an edge, or of a walk if there is a range.  `first` and `second` are the
nodes on the left and on the right of the pattern's text. -/
structure RelationshipConstraint (P : Type) where
  index : Nat
  name : Option String
  types : List String
  properties : List (String × P)
  heading : Heading
  range : Option HopRange
  optional : Bool
  first : Nat
  second : Nat

/-- A named walk over constraints: its first node, and then a relationship and a node in turn. -/
structure PathConstraint where
  name : String
  start : Nat
  steps : List (Nat × Nat)
deriving DecidableEq, Repr

/-- The constraints of a pattern.  Those of an optional pattern may be left unmatched, which each of
them says as well. -/
structure Constraints (P : Type) where
  optional : Bool
  nodes : List (NodeConstraint P)
  relationships : List (RelationshipConstraint P)
  paths : List PathConstraint

namespace RelationshipConstraint

variable {P : Type}

/-- Does the constraint stand for walks? -/
def isWalk (r : RelationshipConstraint P) : Bool :=
  r.range.isSome

/-- The end opposite to a node. -/
def otherEnd (r : RelationshipConstraint P) (node : Nat) : Nat :=
  if r.first = node then r.second else r.first

/-- The nodes at the ends, once if they are the same. -/
def ends (r : RelationshipConstraint P) : List Nat :=
  if r.second = r.first then [r.first] else [r.first, r.second]

end RelationshipConstraint

namespace Constraints

variable {P Q : Type}

/-- No constraints. -/
def empty (optional : Bool) : Constraints P := ⟨optional, [], [], []⟩

/-- The position of the node of a name. -/
def node? (g : Constraints P) (name : String) : Option Nat :=
  g.nodes.findIdx? (·.name == some name)

/-- The position of the relationship of a name. -/
def relationship? (g : Constraints P) (name : String) : Option Nat :=
  g.relationships.findIdx? (·.name == some name)

/-- Is the name that of a node? -/
def isNode (g : Constraints P) (name : String) : Bool :=
  (g.node? name).isSome

/-- Is the name that of a relationship? -/
def isRelationship (g : Constraints P) (name : String) : Bool :=
  (g.relationship? name).isSome

/-- All names: of the nodes, of the relationships, of the paths. -/
def names (g : Constraints P) : List String :=
  g.nodes.filterMap (·.name) ++ g.relationships.filterMap (·.name) ++ g.paths.map (·.name)

/-! ## Building -/

/-- Labels with those of another list that are not among them yet. -/
def mergeLabels (labels new : List String) : List String :=
  new.foldl (fun labels l => if labels.contains l then labels else labels ++ [l]) labels

/-- One more node, which is the end of no relationship yet. -/
def newNode (g : Constraints P) (name : Option String) (labels : List String)
    (properties : List (String × P)) : Constraints P :=
  { g with nodes := g.nodes ++ [⟨g.nodes.length, name, labels, properties, g.optional, []⟩] }

/-- The constraint of a node pattern: the one of its name, which is extended, or a new one. -/
def addNode (g : Constraints P) (name : Option String) (labels : List String)
    (properties : List (String × P)) : Except Error (Constraints P × Nat) :=
  match name with
  | none => .ok (g.newNode none labels properties, g.nodes.length)
  | some x =>
    if g.isRelationship x then .error (.syntaxError (.boundToRelationship x))
    else match g.node? x with
      | some i => .ok ({ g with nodes := g.nodes.modify i fun n =>
          { n with labels := mergeLabels n.labels labels,
                   properties := n.properties ++ properties } }, i)
      | none => .ok (g.newNode (some x) labels properties, g.nodes.length)

/-- May the name be given to a new relationship? -/
def checkFresh (g : Constraints P) : Option String → Except Error Unit
  | none => .ok ()
  | some x =>
    if g.isRelationship x then .error (.syntaxError (.relationshipUsedTwice x))
    else if g.isNode x then .error (.syntaxError (.boundToNode x))
    else .ok ()

/-- The bounds of a range, the lower one being 1 where it is open. -/
def hopRange : Option LengthRange → Except Error (Option HopRange)
  | none => .ok none
  | some r =>
    let min := r.min.getD 1
    match r.max with
    | none => .ok (some ⟨min, none⟩)
    | some max =>
      if max < min then .error (.syntaxError (.badRange min max)) else .ok (some ⟨min, some max⟩)

/-- A new relationship between two nodes. -/
def connect (g : Constraints P) (r : RelationshipConstraint P) : Constraints P :=
  let i := g.relationships.length
  let note (n : NodeConstraint P) : NodeConstraint P := { n with incident := n.incident ++ [i] }
  let nodes := g.nodes.modify r.first note
  { g with
    nodes := if r.second = r.first then nodes else nodes.modify r.second note
    relationships := g.relationships ++ [r] }

/-- The constraint of a relationship pattern between two nodes, which becomes the next one. -/
def between (g : Constraints Expr) (rel : RelationshipPattern) (range : Option HopRange)
    (first second : Nat) : RelationshipConstraint Expr :=
  ⟨g.relationships.length, rel.name, rel.types, rel.properties, rel.heading, range, g.optional,
    first, second⟩

/-- The constraints of the rest of a walk that has come to a node, and the steps of that rest. -/
def addChain (g : Constraints Expr) (last : Nat) :
    List (RelationshipPattern × NodePattern) → Except Error (Constraints Expr × List (Nat × Nat))
  | [] => .ok (g, [])
  | (rel, node) :: rest => do
    let (g, next) ← g.addNode node.name node.labels node.properties
    g.checkFresh rel.name
    let range ← hopRange rel.range
    let i := g.relationships.length
    let g := g.connect (g.between rel range last next)
    let (g, steps) ← g.addChain next rest
    return (g, (i, next) :: steps)

/-- The constraints of one more part of the pattern. -/
def addPart (g : Constraints Expr) (part : PatternPart) : Except Error (Constraints Expr) := do
  let (g, start) ← g.addNode part.start.name part.start.labels part.start.properties
  let (g, steps) ← g.addChain start part.chain
  match part.pathName with
  | none => return g
  | some x =>
    if g.isNode x || g.isRelationship x then throw (.syntaxError (.pathAlreadyBound x))
    else return { g with paths := g.paths ++ [⟨x, start, steps⟩] }

/-- The constraints of all parts of a pattern. -/
def ofParts (parts : List PatternPart) (optional : Bool) : Except Error (Constraints Expr) :=
  parts.foldlM addPart (empty optional)

/-! ## Further demands -/

/-- Demands a label of the node of a name, if there is such a node. -/
def addLabel? (g : Constraints P) (name label : String) : Option (Constraints P) :=
  (g.node? name).map fun i =>
    { g with nodes := g.nodes.modify i fun n => { n with labels := mergeLabels n.labels [label] } }

/-- Demands a property of the node or of the single relationship of a name, if there is one. -/
def addProperty? (g : Constraints P) (name key : String) (p : P) : Option (Constraints P) :=
  match g.node? name, g.relationship? name with
  | some i, _ => some { g with nodes := g.nodes.modify i fun n =>
      { n with properties := n.properties ++ [(key, p)] } }
  | none, some i =>
    if g.relationships[i]?.any (·.isWalk) then none
    else some { g with relationships := g.relationships.modify i fun r =>
      { r with properties := r.properties ++ [(key, p)] } }
  | none, none => none

/-! ## Values for the properties -/

/-- Properties with a computation done on each value in turn. -/
def mapProperties {m : Type → Type} [Monad m] (f : P → m Q) :
    List (String × P) → m (List (String × Q))
  | [] => pure []
  | (key, p) :: rest => do
    let q ← f p
    return (key, q) :: (← mapProperties f rest)

/-- The constraints with a computation done on each property in turn: of the nodes first. -/
def mapM {m : Type → Type} [Monad m] (f : P → m Q) (g : Constraints P) : m (Constraints Q) := do
  let nodes ← g.nodes.mapM fun n => do
    return { n with properties := ← mapProperties f n.properties }
  let relationships ← g.relationships.mapM fun r => do
    return { r with properties := ← mapProperties f r.properties }
  return ⟨g.optional, nodes, relationships, g.paths⟩

/-! ## Text -/

/-- Properties between braces after a blank, or nothing. -/
def propertiesText (write : P → String) : List (String × P) → String
  | [] => ""
  | properties =>
    " \x7b" ++ ", ".intercalate (properties.map fun (k, p) => k ++ ": " ++ write p) ++ "\x7d"

/-- A node as it is written in a pattern. -/
def nodeText (write : P → String) (n : NodeConstraint P) : String :=
  "(" ++ n.name.getD "" ++ String.join (n.labels.map (":" ++ ·)) ++
    propertiesText write n.properties ++ ")"

/-- A range as it is written in a pattern. -/
def rangeText : Option HopRange → String
  | none => ""
  | some ⟨min, max⟩ => "*" ++ toString min ++ ".." ++ (max.map toString).getD ""

/-- A relationship as it is written in a pattern, with the positions of its nodes. -/
def relationshipText (write : P → String) (r : RelationshipConstraint P) : String :=
  let types := if r.types.isEmpty then "" else ":" ++ "|".intercalate r.types
  let left := if r.heading = .incoming then "<-" else "-"
  let right := if r.heading = .outgoing then "->" else "-"
  "#" ++ toString r.first ++ left ++ "[" ++ r.name.getD "" ++ types ++ rangeText r.range ++
    propertiesText write r.properties ++ "]" ++ right ++ "#" ++ toString r.second

/-- All nodes and then all relationships. -/
def text (write : P → String) (g : Constraints P) : String :=
  ", ".intercalate (g.nodes.map (nodeText write) ++ g.relationships.map (relationshipText write))

end Constraints

end PropertyGraph
