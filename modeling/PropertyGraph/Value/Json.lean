import PropertyGraph.Json.Basic
import PropertyGraph.Number.Reader
import PropertyGraph.Value.Text

/-!
# Values and JSON

A value is written as a JSON document, elements as objects of their identity and properties and
doubles that are not finite as null.  A document is read as a value, objects as maps in which the
later of two members of one name counts, and integers past 64 bits as doubles.
-/

namespace PropertyGraph

namespace Value

mutual

/-- The document of a value. -/
def toJson : Value → Json
  | .null => .null
  | .bool b => .bool b
  | .int n => .int n.toInt
  | .float x => if x.isFinite then .float x else .null
  | .text s => .text s
  | .list items => .array (itemsToJson items)
  | .map entries => .object (entriesToJson entries)
  | .node v => vertexToJson v
  | .relationship e => edgeToJson e
  | .path ⟨start, hops⟩ =>
    .object [("nodes", .array (vertexToJson start :: hopVertices hops)),
      ("relationships", .array (hopEdges hops))]
  | .duration d => .text d.text
  | .date d => .text d.text

/-- A vertex as its id, labels and properties. -/
def vertexToJson : Vertex → Json
  | ⟨id, labels, properties, _⟩ =>
    .object [("id", .text id), ("labels", .array (labels.map .text)),
      ("properties", .object (entriesToJson properties))]

/-- An edge as its id, type, ends and properties. -/
def edgeToJson : Edge → Json
  | ⟨id, type, source, target, properties, _⟩ =>
    .object [("id", .text id), ("type", .text type), ("start", .text source),
      ("end", .text target), ("properties", .object (entriesToJson properties))]

/-- The documents of list items. -/
def itemsToJson : List Value → List Json
  | [] => []
  | v :: rest => v.toJson :: itemsToJson rest

/-- The members of map entries. -/
def entriesToJson : List (String × Value) → List (String × Json)
  | [] => []
  | (k, v) :: rest => (k, v.toJson) :: entriesToJson rest

/-- The vertices that hops lead to. -/
def hopVertices : List (Edge × Vertex) → List Json
  | [] => []
  | (_, v) :: rest => vertexToJson v :: hopVertices rest

/-- The edges that hops take. -/
def hopEdges : List (Edge × Vertex) → List Json
  | [] => []
  | (e, _) :: rest => edgeToJson e :: hopEdges rest

end

mutual

/-- The value of a document. -/
def ofJson : Json → Value
  | .null => .null
  | .bool b => .bool b
  | .int n =>
    match Number.int64? n with
    | some m => .int m
    | none => .float (Number.nearest (n < 0) n.natAbs 1)
  | .float x => .float x
  | .text s => .text s
  | .array items => .list (itemsOfJson items)
  | .object members => .map (Entries.ofList (membersOfJson members))

/-- The values of array items. -/
def itemsOfJson : List Json → List Value
  | [] => []
  | j :: rest => ofJson j :: itemsOfJson rest

/-- The values of object members. -/
def membersOfJson : List (String × Json) → List (String × Value)
  | [] => []
  | (k, j) :: rest => (k, ofJson j) :: membersOfJson rest

end

end Value

end PropertyGraph
