import PropertyGraph.Snapshot.Bytes
import PropertyGraph.Value.Basic

/-!
# Values, vertices and edges as bytes

A value is the number of its kind and then its content; vertices and edges are their fields in
order.  Reading keeps maps, properties and labels in ascending order whatever the order of the
bytes.
-/

namespace PropertyGraph

namespace Bytes

/-- An integer of 64 bits. -/
def int64 (n : Int64) : List UInt8 :=
  natural 8 n.toUInt64.toNat

/-- A duration, field by field. -/
def duration (d : Duration) : List UInt8 :=
  int64 d.months ++ int64 d.days ++ int64 d.seconds ++ natural 4 d.nanos.toUInt32.toNat

mutual

/-- A value. -/
def value : Value → List UInt8
  | .null => natural 4 0
  | .bool b => natural 4 1 ++ bool b
  | .int n => natural 4 2 ++ int64 n
  | .float x => natural 4 3 ++ natural 8 x.bits.toNat
  | .text s => natural 4 4 ++ text s
  | .list items => natural 4 5 ++ natural 8 items.length ++ values items
  | .map entries => natural 4 6 ++ natural 8 entries.length ++ properties entries
  | .node v => natural 4 7 ++ vertex v
  | .relationship e => natural 4 8 ++ edge e
  | .path p => natural 4 9 ++ path p
  | .duration d => natural 4 10 ++ duration d
  | .date d => natural 4 11 ++ text d.text

/-- Values one after the other. -/
def values : List Value → List UInt8
  | [] => []
  | v :: rest => value v ++ values rest

/-- Names with values one after the other. -/
def properties : List (String × Value) → List UInt8
  | [] => []
  | (name, v) :: rest => text name ++ value v ++ properties rest

/-- A vertex. -/
def vertex : Vertex → List UInt8
  | ⟨id, labels, props, visibility⟩ =>
    text id ++ sequence text labels ++ natural 8 props.length ++ properties props ++
      text visibility

/-- An edge. -/
def edge : Edge → List UInt8
  | ⟨id, type, source, target, props, visibility⟩ =>
    text id ++ text type ++ text source ++ text target ++ natural 8 props.length ++
      properties props ++ text visibility

/-- A path: its vertices, and then its edges. -/
def path : Path → List UInt8
  | ⟨start, hops⟩ =>
    natural 8 (hops.length + 1) ++ vertex start ++ hopVertices hops ++ natural 8 hops.length ++
      hopEdges hops

/-- The vertices of some hops. -/
def hopVertices : List (Edge × Vertex) → List UInt8
  | [] => []
  | (_, v) :: rest => vertex v ++ hopVertices rest

/-- The edges of some hops. -/
def hopEdges : List (Edge × Vertex) → List UInt8
  | [] => []
  | (e, _) :: rest => edge e ++ hopEdges rest

end

end Bytes

namespace ByteReader

/-- An integer of 64 bits. -/
def int64 : ByteReader Int64 :=
  return (UInt64.ofNat (← natural 8)).toInt64

/-- A duration, field by field, as it stands. -/
def duration : ByteReader Duration := do
  let months ← int64
  let days ← int64
  let seconds ← int64
  let nanos ← natural 4
  return ⟨months, days, seconds, (UInt32.ofNat nanos).toInt32⟩

/-- Properties, whose values are read as given. -/
def properties (value : ByteReader Value) : ByteReader Properties :=
  return Entries.ofList (← sequence (named value))

/-- A vertex. -/
def vertex (value : ByteReader Value) : ByteReader Vertex := do
  let id ← text
  let labels ← sequence text
  let properties ← properties value
  return ⟨id, Names.ofList labels, properties, ← text⟩

/-- An edge. -/
def edge (value : ByteReader Value) : ByteReader Edge := do
  let id ← text
  let type ← text
  let source ← text
  let target ← text
  let properties ← properties value
  return ⟨id, type, source, target, properties, ← text⟩

/-- A path, whose numbers of vertices and edges must fit. -/
def path (value : ByteReader Value) : ByteReader Path := do
  let vertices ← sequence (vertex value)
  let edges ← sequence (edge value)
  lift (Path.ofParts? vertices edges)

/-- A value that is nested at most `depth` deep. -/
def valueWithin : (depth : Nat) → ByteReader Value
  | 0 => failure
  | depth + 1 => do
    match ← natural 4 with
    | 0 => return .null
    | 1 => return .bool (← bool)
    | 2 => return .int (← int64)
    | 3 => return .float ⟨.ofNat (← natural 8)⟩
    | 4 => return .text (← text)
    | 5 => return .list (← sequence (valueWithin depth))
    | 6 => return .map (← properties (valueWithin depth))
    | 7 => return .node (← vertex (valueWithin depth))
    | 8 => return .relationship (← edge (valueWithin depth))
    | 9 => return .path (← path (valueWithin depth))
    | 10 => return .duration (← duration)
    | 11 => return .date (← lift (Date.readStored? (← text)))
    | _ => failure

/-- A value; every level of nesting takes bytes of its own. -/
def value : ByteReader Value := fun bytes =>
  valueWithin bytes.length bytes

end ByteReader

end PropertyGraph
