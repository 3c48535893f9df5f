import PropertyGraph.Error
import PropertyGraph.Store.Links
import PropertyGraph.Store.Slots
import PropertyGraph.Value.Basic

/-!
# The store

The vertices and edges of a property graph in numbered slots, with what finds them quickly: their
slots by id, the slots of the vertices that carry a label, and those of the edges of a type.  Every
vertex has its outgoing and its incoming edges, the newest first.  A property name becomes defined
when a value is first stored under it, and stays so.

Every write keeps these parts in step with one another.  Where a snapshot attached an edge to an
empty slot, the links between the slots decide which edges a vertex has and which slot is free.
-/

namespace PropertyGraph

/-! ## Types -/

/-- A stored vertex with the slots of its edges, the newest first. -/
structure VertexCell where
  vertex : Vertex
  outgoing : List Nat
  incoming : List Nat

/-- A stored edge with the slots of the vertices it joins. -/
structure EdgeCell where
  edge : Edge
  source : Nat
  target : Nat

/-- Slots in ascending order under each of some names. -/
abbrev SlotIndex := Entries (List Nat)

/-- A property graph. -/
structure Store where
  vertices : Slots VertexCell
  edges : Slots EdgeCell
  /-- The defined property names, with the type of the first value of each. -/
  definitions : Entries String
  vertexSlots : Entries Nat
  edgeSlots : Entries Nat
  labelSlots : SlotIndex
  typeSlots : SlotIndex
  /-- The links between the slots, of a graph that was read with an edge at an empty slot. -/
  links : Option Links := none

instance : Inhabited Store := ⟨⟨.empty, .empty, [], [], [], [], [], none⟩⟩

/-- A vertex or an edge, by id. -/
inductive ElementId where
  | vertex (id : String)
  | edge (id : String)
deriving DecidableEq, Repr

/-- A change of one element. -/
inductive Change where
  | setProperty (name : String) (v : Value)
  | removeProperty (name : String)
  | addLabel (label : String)
  | removeLabel (label : String)

/-! ## Indices -/

namespace SlotIndex

/-- The set of slots with one more. -/
def insertSlot (i : Nat) : List Nat → List Nat
  | [] => [i]
  | j :: rest =>
    if i = j then j :: rest else if i < j then i :: j :: rest else j :: insertSlot i rest

/-- The slots of a name. -/
def slots (name : String) (index : SlotIndex) : List Nat :=
  (Entries.get? name index).getD []

/-- Adds a slot under a name. -/
def add (i : Nat) (index : SlotIndex) (name : String) : SlotIndex :=
  Entries.insert name (insertSlot i (slots name index)) index

/-- Removes a slot under a name. -/
def remove (i : Nat) (index : SlotIndex) (name : String) : SlotIndex :=
  Entries.insert name ((slots name index).erase i) index

end SlotIndex

namespace Store

/-- The graph without elements. -/
def empty : Store := default

/-! ## Look-up -/

/-- The slot of a vertex. -/
def vertexSlot? (s : Store) (id : String) : Option Nat :=
  Entries.get? id s.vertexSlots

/-- The slot of an edge. -/
def edgeSlot? (s : Store) (id : String) : Option Nat :=
  Entries.get? id s.edgeSlots

/-- The vertex in a slot. -/
def vertexAt? (s : Store) (i : Nat) : Option Vertex :=
  (s.vertices.get? i).map (·.vertex)

/-- The edge in a slot. -/
def edgeAt? (s : Store) (i : Nat) : Option Edge :=
  (s.edges.get? i).map (·.edge)

/-- The vertex of an id. -/
def vertex? (s : Store) (id : String) : Option Vertex :=
  (s.vertexSlot? id).bind s.vertexAt?

/-- The edge of an id. -/
def edge? (s : Store) (id : String) : Option Edge :=
  (s.edgeSlot? id).bind s.edgeAt?

/-- All vertices in the order of their slots. -/
def allVertices (s : Store) : List Vertex :=
  s.vertices.values.map (·.vertex)

/-- All edges in the order of their slots. -/
def allEdges (s : Store) : List Edge :=
  s.edges.values.map (·.edge)

/-- Is the property name defined? -/
def isDefined (s : Store) (name : String) : Bool :=
  Entries.has name s.definitions

/-! ## Definitions -/

/-- Defines a property name by a value; null defines nothing, and the first definition stays. -/
def define (s : Store) (name : String) (sample : Value) : Store :=
  if sample.isNull || s.isDefined name then s
  else { s with definitions := Entries.insert name sample.typeName s.definitions }

/-- Defines the names of some properties. -/
def defineAll (s : Store) (properties : List (String × Value)) : Store :=
  properties.foldl (fun s (name, v) => s.define name v) s

/-! ## Links -/

/-- Is there a vertex in the slot? -/
def hasVertexAt (s : Store) (i : Nat) : Bool :=
  (s.vertices.get? i).isSome

/-- Is there an edge in the slot? -/
def hasEdgeAt (s : Store) (i : Nat) : Bool :=
  (s.edges.get? i).isSome

/-- The vertices with the edges that the links give them, as far as there are edges, and the free
slots of the links, as far as they are empty. -/
def linkedVertices (s : Store) (links : Links) : Slots VertexCell where
  cells := s.vertices.cells.mapIdx fun i cell => cell.map fun c =>
    { c with
      outgoing := (links.chain .outgoing i).takeWhile s.hasEdgeAt
      incoming := (links.chain .incoming i).takeWhile s.hasEdgeAt }
  free := links.freeChain.takeWhile (!s.hasVertexAt ·)

/-- Changes the links, if the graph keeps any, and makes the lists follow them. -/
def relink (s : Store) (f : Links → Links) : Store :=
  match s.links with
  | none => s
  | some links =>
    let links := f links
    { s with vertices := s.linkedVertices links, links := some links }

/-- A graph without links keeps its lists as they are. -/
theorem relink_of_links_eq_none {s : Store} (h : s.links = none) (f : Links → Links) :
    s.relink f = s := by
  simp [relink, h]

/-! ## Insertion -/

/-- Adds a vertex, whose id must be new. -/
def addVertex (s : Store) (v : Vertex) : Except StoreError Store :=
  if (s.vertexSlot? v.id).isSome then .error (.duplicate v.id)
  else
    let i := s.vertices.next
    let s := s.defineAll v.properties
    let s := { s with
      vertices := s.vertices.insert ⟨v, [], []⟩
      vertexSlots := Entries.insert v.id i s.vertexSlots
      labelSlots := v.labels.foldl (SlotIndex.add i) s.labelSlots }
    .ok (s.relink (Links.occupy i))

/-- Adds an edge, whose id must be new and whose ends must be there. -/
def addEdge (s : Store) (e : Edge) : Except StoreError Store :=
  if (s.edgeSlot? e.id).isSome then .error (.duplicate e.id)
  else match s.vertexSlot? e.source, s.vertexSlot? e.target with
    | none, _ => .error (.notFound e.source)
    | some _, none => .error (.notFound e.target)
    | some source, some target =>
      let i := s.edges.next
      let s := s.defineAll e.properties
      let vertices := s.vertices.modify source fun c => { c with outgoing := i :: c.outgoing }
      let vertices := vertices.modify target fun c => { c with incoming := i :: c.incoming }
      let s := { s with
        vertices
        edges := s.edges.insert ⟨e, source, target⟩
        edgeSlots := Entries.insert e.id i s.edgeSlots
        typeSlots := SlotIndex.add i s.typeSlots e.type }
      .ok (s.relink (Links.attach i source target))

/-! ## Change -/

/-- A change of properties; changes of labels leave them alone. -/
def changeProperties (properties : Properties) : Change → Properties
  | .setProperty name .null | .removeProperty name => Entries.erase name properties
  | .setProperty name v => Entries.insert name v properties
  | .addLabel _ | .removeLabel _ => properties

/-- A change of labels; changes of properties leave them alone. -/
def changeLabels (labels : Names) : Change → Names
  | .addLabel l => Names.insert l labels
  | .removeLabel l => Names.erase l labels
  | .setProperty _ _ | .removeProperty _ => labels

/-- What the change of a vertex does to the index of labels. -/
def changeIndex (i : Nat) (index : SlotIndex) : Change → SlotIndex
  | .addLabel l => SlotIndex.add i index l
  | .removeLabel l => SlotIndex.remove i index l
  | .setProperty _ _ | .removeProperty _ => index

/-- Is it a change of labels? -/
def isLabelChange : Change → Bool
  | .addLabel _ | .removeLabel _ => true
  | .setProperty _ _ | .removeProperty _ => false

/-- Defines the names of the properties that some changes set. -/
def defineChanged (s : Store) (changes : List Change) : Store :=
  changes.foldl (fun s c => match c with
    | .setProperty name v => s.define name v
    | _ => s) s

/-- Makes changes of a vertex in turn. -/
def changeVertex (s : Store) (i : Nat) (changes : List Change) : Store :=
  { s with
    vertices := s.vertices.modify i fun c => { c with vertex := { c.vertex with
      properties := changes.foldl changeProperties c.vertex.properties
      labels := changes.foldl changeLabels c.vertex.labels } }
    labelSlots := changes.foldl (changeIndex i) s.labelSlots }

/-- Makes changes of an edge's properties in turn. -/
def changeEdge (s : Store) (i : Nat) (changes : List Change) : Store :=
  { s with edges := s.edges.modify i fun c => { c with edge := { c.edge with
      properties := changes.foldl changeProperties c.edge.properties } } }

/-- Makes changes of one element in turn, and gives the element that results.  The names set are
defined in any case, and a change of an edge's labels fails after the changes before it are made. -/
def change (s : Store) (target : ElementId) (changes : List Change) :
    Except StoreError Value × Store :=
  let s := s.defineChanged changes
  match target with
  | .vertex id =>
    match s.vertexSlot? id with
    | none => (.error (.notFound id), s)
    | some i =>
      let changed := s.changeVertex i changes
      match changed.vertexAt? i with
      | none => (.error (.notFound id), s)
      | some v => (.ok (.node v), changed)
  | .edge id =>
    match s.edgeSlot? id with
    | none => (.error (.notFound id), s)
    | some i =>
      let changed := s.changeEdge i (changes.takeWhile (!isLabelChange ·))
      match changed.edgeAt? i with
      | none => (.error (.notFound id), s)
      | some e =>
        if changes.any isLabelChange then (.error .labelOnRelationship, changed)
        else (.ok (.relationship e), changed)

/-! ## Removal -/

/-- Removes the edge in a slot. -/
def removeEdgeAt (s : Store) (i : Nat) : Store :=
  match s.edges.get? i with
  | none => s
  | some cell =>
    let vertices := s.vertices.modify cell.source fun c =>
      { c with outgoing := c.outgoing.erase i }
    let vertices := vertices.modify cell.target fun c => { c with incoming := c.incoming.erase i }
    let s := { s with
      vertices
      edges := s.edges.erase i
      edgeSlots := Entries.erase cell.edge.id s.edgeSlots
      typeSlots := SlotIndex.remove i s.typeSlots cell.edge.type }
    s.relink (Links.detach i cell.source cell.target)

/-- Removes an edge. -/
def removeEdge (s : Store) (id : String) : Except StoreError Store :=
  match s.edgeSlot? id with
  | none => .error (.notFound id)
  | some i => .ok (s.removeEdgeAt i)

/-- Removes the vertex in a slot: its outgoing edges from the newest on, then its incoming ones
that are left, and then the vertex itself. -/
def removeVertexAt (s : Store) (i : Nat) : Store :=
  let s := match s.vertices.get? i with
    | some cell => cell.outgoing.foldl removeEdgeAt s
    | none => s
  let s := match s.vertices.get? i with
    | some cell => cell.incoming.foldl removeEdgeAt s
    | none => s
  match s.vertices.get? i with
  | none => s
  | some cell =>
    let s := { s with
      vertices := s.vertices.erase i
      vertexSlots := Entries.erase cell.vertex.id s.vertexSlots
      labelSlots := cell.vertex.labels.foldl (SlotIndex.remove i) s.labelSlots }
    s.relink (Links.vacate i)

/-- Removes a vertex with all edges that touch it. -/
def removeVertex (s : Store) (id : String) : Except StoreError Store :=
  match s.vertexSlot? id with
  | none => .error (.notFound id)
  | some i => .ok (s.removeVertexAt i)

/-! ## Indices from the elements -/

/-- The same graph with every index made anew. -/
def reindex (s : Store) : Store :=
  { s with
    vertexSlots := s.vertices.toList.foldl (fun index (i, c) =>
      Entries.insert c.vertex.id i index) []
    edgeSlots := s.edges.toList.foldl (fun index (i, c) => Entries.insert c.edge.id i index) []
    labelSlots := s.vertices.toList.foldl (fun index (i, c) =>
      c.vertex.labels.foldl (SlotIndex.add i) index) []
    typeSlots := s.edges.toList.foldl (fun index (i, c) => SlotIndex.add i index c.edge.type) [] }

end Store

end PropertyGraph
