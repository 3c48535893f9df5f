import PropertyGraph.Pattern.Constraint
import PropertyGraph.Row

/-!
# Matches

A match assigns vertices, edges and walks to the constraints of a pattern, or null to constraints of
an optional pattern that stay unmatched.  During a search it is partial.  A complete match gives
values for the names of its pattern.
-/

namespace PropertyGraph

/-! ## Assignments -/

/-- What is assigned to a node constraint. -/
inductive NodeBinding where
  | vertex (v : Vertex)
  | null

/-- What is assigned to a relationship constraint: an edge with the ids at its first and second
node, or a walk from the first to the second node. -/
inductive RelationshipBinding where
  | edge (e : Edge) (first second : String)
  | walk (p : Path)
  | null

/-- Assignments by position; a constraint without one is still open. -/
structure Match where
  nodes : List (Option NodeBinding)
  relationships : List (Option RelationshipBinding)

namespace RelationshipBinding

/-- The ids at the first and at the second node. -/
def ends : RelationshipBinding → Option (String × String)
  | .edge _ first second => some (first, second)
  | .walk p => some (p.start.id, p.finish.id)
  | .null => none

/-- Does the assignment use the edge? -/
def uses (id : String) : RelationshipBinding → Bool
  | .edge e _ _ => e.id == id
  | .walk p => p.hasEdge id
  | .null => false

/-- The assignment as a value; a walk is the list of its edges. -/
def value : RelationshipBinding → Value
  | .edge e _ _ => .relationship e
  | .walk p => .list (p.edges.map .relationship)
  | .null => .null

/-- The ways in which an edge can lie along a relationship of a pattern. -/
def orientations (heading : Heading) (e : Edge) : List RelationshipBinding :=
  let forward := edge e e.source e.target
  let backward := edge e e.target e.source
  match heading with
  | .outgoing => [forward]
  | .incoming => [backward]
  | .undirected => if e.isLoop then [forward] else [forward, backward]

end RelationshipBinding

namespace Match

/-- The match in which everything is open. -/
def blank {P : Type} (g : Constraints P) : Match :=
  ⟨g.nodes.map fun _ => none, g.relationships.map fun _ => none⟩

/-- The assignment of a node. -/
def node? (m : Match) (i : Nat) : Option NodeBinding :=
  m.nodes[i]?.join

/-- The assignment of a relationship. -/
def relationship? (m : Match) (i : Nat) : Option RelationshipBinding :=
  m.relationships[i]?.join

/-- The vertex that is assigned to a node. -/
def vertex? (m : Match) (i : Nat) : Option Vertex :=
  match m.node? i with
  | some (.vertex v) => some v
  | _ => none

/-- Does a node stay unmatched? -/
def isNullNode (m : Match) (i : Nat) : Bool :=
  match m.node? i with
  | some .null => true
  | _ => false

/-- The match with a node assigned. -/
def setNode (m : Match) (i : Nat) (b : NodeBinding) : Match :=
  { m with nodes := m.nodes.set i (some b) }

/-- The match with a relationship assigned. -/
def setRelationship (m : Match) (i : Nat) (b : RelationshipBinding) : Match :=
  { m with relationships := m.relationships.set i (some b) }

/-- The number of open constraints. -/
def openCount (m : Match) : Nat :=
  m.nodes.countP Option.isNone + m.relationships.countP Option.isNone

/-- Does some constraint stay unmatched? -/
def hasNull (m : Match) : Bool :=
  let nullNode := fun b => match b with
    | some NodeBinding.null => true
    | _ => false
  let nullRelationship := fun b => match b with
    | some RelationshipBinding.null => true
    | _ => false
  m.nodes.any nullNode || m.relationships.any nullRelationship

/-- Is the edge used by some assignment? -/
def uses (m : Match) (id : String) : Bool :=
  m.relationships.any fun b => b.any (·.uses id)

/-! ## Values of names -/

/-- The walk of a named path from a path that has come so far. -/
def walkFrom (m : Match) (p : Path) : List (Nat × Nat) → Option Path
  | [] => some p
  | (r, n) :: rest =>
    match m.vertex? n, m.relationship? r with
    | some v, some (.edge e _ _) => m.walkFrom (p.extend e v) rest
    | some _, some (.walk hops) => (p.append? hops).bind fun joined => m.walkFrom joined rest
    | _, _ => none

/-- The value of a named path: null where a part of it is unmatched. -/
def pathValue (m : Match) (p : PathConstraint) : Value :=
  match (m.vertex? p.start).bind fun v => m.walkFrom (.single v) p.steps with
  | some path => .path path
  | none => .null

/-- The value of a node's name. -/
def nodeValue (m : Match) (i : Nat) : Value :=
  ((m.vertex? i).map Value.node).getD .null

/-- The value of a relationship's name. -/
def relationshipValue (m : Match) (i : Nat) : Value :=
  ((m.relationship? i).map RelationshipBinding.value).getD .null

/-- The names of a pattern with their values: nodes, relationships, paths. -/
def bindings {P : Type} (m : Match) (g : Constraints P) : List (String × Value) :=
  let nodes := g.nodes.zipIdx.filterMap fun (n, i) => n.name.map (·, m.nodeValue i)
  let relationships := g.relationships.zipIdx.filterMap fun (r, i) =>
    r.name.map (·, m.relationshipValue i)
  nodes ++ relationships ++ g.paths.map fun p => (p.name, m.pathValue p)

end Match

end PropertyGraph
