import PropertyGraph.Query.Expr
import PropertyGraph.Store.Basic
import PropertyGraph.Store.Filter
import PropertyGraph.Visibility

/-!
# Reading the store

What a reader gets from the store: elements by id, the edges of a vertex, and the results of a
selection.  A selection is answered from the smallest index that applies.  Its results are a cursor
over the ids found, which fetches the elements one by one and passes over those that have gone.
-/

namespace PropertyGraph

/-- What is demanded of the elements to be found; labels concern vertices and types edges. -/
structure Selection where
  labels : List String
  types : List String
  tests : List (String × PropertyTest)
  limit : Option Nat

instance : Inhabited Selection := ⟨⟨[], [], [], none⟩⟩

/-- Does a vertex meet the demands? -/
def Selection.admitsVertex (sel : Selection) (v : Vertex) : Bool :=
  sel.labels.all v.hasLabel && sel.tests.all fun (name, test) => test.passes (v.property? name)

/-- Is a type among those demanded?  No demand admits all. -/
def admitsType (types : List String) (type : String) : Bool :=
  types.isEmpty || types.contains type

/-- Does an edge meet the demands? -/
def Selection.admitsEdge (sel : Selection) (e : Edge) : Bool :=
  admitsType sel.types e.type && sel.tests.all fun (name, test) => test.passes (e.property? name)

/-! ## Cursors -/

/-- The results of a selection: how many there are without the limit, and the ids still to be
fetched unless the cursor is closed. -/
structure Cursor where
  total : Nat
  pending : Option (List String)

namespace Cursor

/-- A cursor without results, which is closed from the start. -/
def none : Cursor := ⟨0, Option.none⟩

/-- A cursor over the ids found, at most as many as the limit says. -/
def ofIds (ids : List String) (limit : Option Nat) : Cursor :=
  ⟨ids.length, some (match limit with
    | some n => ids.take n
    | Option.none => ids)⟩

/-- Is the cursor closed? -/
def isClosed (c : Cursor) : Bool :=
  c.pending.isNone

/-- Closes the cursor. -/
def close (c : Cursor) : Cursor :=
  { c with pending := Option.none }

/-- The first of some ids that can be fetched, with the ids after it. -/
def fetch {α : Type} (get : String → Option α) : List String → Option (α × List String)
  | [] => Option.none
  | id :: rest =>
    match get id with
    | some a => some (a, rest)
    | Option.none => fetch get rest

/-- The next element; the cursor closes where there is none. -/
def next {α : Type} (get : String → Option α) (c : Cursor) : Option α × Cursor :=
  match c.pending.bind (fetch get) with
  | some (a, rest) => (some a, { c with pending := some rest })
  | Option.none => (Option.none, c.close)

/-- All elements that are left to fetch. -/
def remaining {α : Type} (get : String → Option α) (c : Cursor) : List α :=
  (c.pending.getD []).filterMap get

end Cursor

namespace Store

/-! ## Elements -/

/-- The vertex of an id, if the reader may see it. -/
def getVertex? (s : Store) (reader : Authorizations) (id : String) : Option Vertex :=
  (s.vertex? id).filter fun v => reader.canRead v.visibility

/-- The edge of an id, if the reader may see it. -/
def getEdge? (s : Store) (reader : Authorizations) (id : String) : Option Edge :=
  (s.edge? id).filter fun e => reader.canRead e.visibility

/-- The edges of some ids that the reader may see. -/
def getEdges (s : Store) (reader : Authorizations) (ids : List String) : List Edge :=
  ids.filterMap (s.getEdge? reader)

/-! ## Neighbourhoods -/

/-- The slots of a vertex's edges in a direction: the outgoing ones first. -/
def incidentSlots (cell : VertexCell) : Heading → List Nat
  | .outgoing => cell.outgoing
  | .incoming => cell.incoming
  | .undirected => cell.outgoing ++ cell.incoming

/-- The ids of a vertex's edges in a direction, each once. -/
def incidentIds (s : Store) (reader : Authorizations) (id : String) (direction : Heading)
    (types : List String) : List String :=
  match (s.vertexSlot? id).bind s.vertices.get? with
  | none => []
  | some cell =>
    let edges := (incidentSlots cell direction).filterMap s.edgeAt?
    let seen := edges.filter fun e => admitsType types e.type && reader.canRead e.visibility
    (seen.map (·.id)).eraseDups

/-- The edges of a vertex in a direction. -/
def incidentEdges (s : Store) (reader : Authorizations) (id : String) (direction : Heading)
    (types : List String) : List Edge :=
  s.getEdges reader (s.incidentIds reader id direction types)

/-! ## Selections -/

/-- The shortest of some lists, the first of several. -/
def shortest {α : Type} (first : List α) (rest : List (List α)) : List α :=
  rest.foldl (fun best xs => if xs.length < best.length then xs else best) first

/-- The slots of the vertices that have to be looked at: those under the rarest of the labels. -/
def vertexCandidates (s : Store) (sel : Selection) : List Nat :=
  match sel.labels.map (SlotIndex.slots · s.labelSlots) with
  | [] => s.vertices.toList.map Prod.fst
  | first :: rest => shortest first rest

/-- The slots of the edges that have to be looked at: type by type as they are demanded. -/
def edgeCandidates (s : Store) (sel : Selection) : List Nat :=
  if sel.types.isEmpty then s.edges.toList.map Prod.fst
  else sel.types.flatMap (SlotIndex.slots · s.typeSlots)

/-- Does the selection test a property of which no value was ever stored? -/
def testsUndefined (s : Store) (sel : Selection) : Bool :=
  sel.tests.any fun (name, _) => !s.isDefined name

/-- The vertices that a selection finds for a reader. -/
def selectVertices (s : Store) (reader : Authorizations) (sel : Selection) : Cursor :=
  if s.testsUndefined sel then .none
  else
    let found := ((s.vertexCandidates sel).filterMap s.vertexAt?).filter fun v =>
      reader.canRead v.visibility && sel.admitsVertex v
    .ofIds (found.map (·.id)) sel.limit

/-- The edges that a selection finds for a reader. -/
def selectEdges (s : Store) (reader : Authorizations) (sel : Selection) : Cursor :=
  if s.testsUndefined sel then .none
  else
    let found := ((s.edgeCandidates sel).filterMap s.edgeAt?).filter fun e =>
      reader.canRead e.visibility && sel.admitsEdge e
    .ofIds (found.map (·.id)) sel.limit

/-- The vertices of a selection, each as its id finds it. -/
def fetchVertices (s : Store) (reader : Authorizations) (sel : Selection) : List Vertex :=
  (s.selectVertices reader sel).remaining (s.getVertex? reader)

/-- The edges of a selection, each as its id finds it. -/
def fetchEdges (s : Store) (reader : Authorizations) (sel : Selection) : List Edge :=
  (s.selectEdges reader sel).remaining (s.getEdge? reader)

end Store

end PropertyGraph
