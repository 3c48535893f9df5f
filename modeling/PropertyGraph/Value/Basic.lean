import PropertyGraph.Calendar.Duration
import PropertyGraph.Value.Entries

/-!
# Values

What a query computes with: scalars, lists, maps, and the elements of the graph.  Vertices and
edges are the same when their ids are; `Value.same` extends that to the equality under which rows
are grouped and made distinct, and under which two values that are no number are the same.
-/

namespace PropertyGraph

/-! ## Types -/

mutual

/-- A value of the query language. -/
inductive Value where
  | null
  | bool (b : Bool)
  | int (n : Int64)
  | float (x : Double)
  | text (s : String)
  | list (items : List Value)
  | map (entries : List (String × Value))
  | node (v : Vertex)
  | relationship (e : Edge)
  | path (p : Path)
  | duration (d : Duration)
  | date (d : Date)

/-- A vertex with its labels and properties, both in ascending order, and the expression that says
who may see it. -/
structure Vertex where
  id : String
  labels : List String
  properties : List (String × Value)
  visibility : String

/-- An edge from its source vertex to its target vertex. -/
structure Edge where
  id : String
  type : String
  source : String
  target : String
  properties : List (String × Value)
  visibility : String

/-- A walk: a vertex, and hops that each take an edge to a further vertex. -/
structure Path where
  start : Vertex
  hops : List (Edge × Vertex)

end

instance : Inhabited Value := ⟨.null⟩

instance : Inhabited Vertex := ⟨⟨"", [], [], ""⟩⟩

instance : Inhabited Edge := ⟨⟨"", "", "", "", [], ""⟩⟩

/-- Properties of an element by name. -/
abbrev Properties := Entries Value

/-! ## Vertices and edges -/

namespace Vertex

/-- Does the vertex carry the label? -/
def hasLabel (v : Vertex) (label : String) : Bool :=
  v.labels.contains label

/-- The value of a property. -/
def property? (v : Vertex) (name : String) : Option Value :=
  Entries.get? name v.properties

/-- Same vertex: same id. -/
instance : BEq Vertex := ⟨fun a b => a.id == b.id⟩

end Vertex

namespace Edge

/-- The value of a property. -/
def property? (e : Edge) (name : String) : Option Value :=
  Entries.get? name e.properties

/-- The end opposite to a vertex; of a vertex that is no end, the source. -/
def otherEnd (e : Edge) (id : String) : String :=
  if e.source == id then e.target else e.source

/-- Do both ends lie on one vertex? -/
def isLoop (e : Edge) : Bool :=
  e.source == e.target

/-- Is the vertex an end of the edge? -/
def touches (e : Edge) (id : String) : Bool :=
  e.source == id || e.target == id

/-- Same edge: same id. -/
instance : BEq Edge := ⟨fun a b => a.id == b.id⟩

end Edge

/-! ## Paths -/

namespace Path

/-- The path of no hops. -/
def single (v : Vertex) : Path := ⟨v, []⟩

/-- The vertices in order. -/
def vertices (p : Path) : List Vertex :=
  p.start :: p.hops.map Prod.snd

/-- The edges in order. -/
def edges (p : Path) : List Edge :=
  p.hops.map Prod.fst

/-- The last vertex. -/
def finish (p : Path) : Vertex :=
  p.hops.getLast?.elim p.start Prod.snd

/-- The number of edges. -/
def length (p : Path) : Nat :=
  p.hops.length

/-- The path with these vertices and edges in turn, if their numbers fit. -/
def ofParts? (vertices : List Vertex) (edges : List Edge) : Option Path :=
  match vertices with
  | [] => none
  | start :: rest => if rest.length = edges.length then some ⟨start, edges.zip rest⟩ else none

/-- Does the path pass the vertex? -/
def hasVertex (p : Path) (id : String) : Bool :=
  p.vertices.any (·.id == id)

/-- Does the path use the edge? -/
def hasEdge (p : Path) (id : String) : Bool :=
  p.edges.any (·.id == id)

/-- Does the path end at the vertex? -/
def endsAt (p : Path) (id : String) : Bool :=
  p.finish.id == id

/-- The path with one more hop. -/
def extend (p : Path) (e : Edge) (v : Vertex) : Path :=
  ⟨p.start, p.hops ++ [(e, v)]⟩

/-- Both paths one after the other, if the second starts where the first ends. -/
def append? (p q : Path) : Option Path :=
  if p.finish.id == q.start.id then some ⟨p.start, p.hops ++ q.hops⟩ else none

/-- The hops of a walk backwards, `last` being the vertex that the walk so far has reached. -/
def reverseOnto (last : Vertex) (done : List (Edge × Vertex)) : List (Edge × Vertex) → Path
  | [] => ⟨last, done⟩
  | (e, v) :: rest => reverseOnto v ((e, last) :: done) rest

/-- The walk in the opposite direction. -/
def reverse (p : Path) : Path :=
  reverseOnto p.start [] p.hops

/-- Same path: the same vertices and edges in the same order. -/
def same (p q : Path) : Bool :=
  p.start == q.start && p.hops == q.hops

instance : BEq Path := ⟨same⟩

end Path

/-! ## Equality of values -/

/-- Equal numbers, or both no number. -/
def sameDouble (x y : Double) : Bool :=
  x == y || (x.isNaN && y.isNaN)

mutual

/-- The equality of grouping and of distinct rows. -/
def Value.same : Value → Value → Bool
  | .null, .null => true
  | .bool a, .bool b => a == b
  | .int a, .int b => a == b
  | .float a, .float b => sameDouble a b
  | .text a, .text b => a == b
  | .list as, .list bs => sameItems as bs
  | .map as, .map bs => sameEntries as bs
  | .node a, .node b => a.id == b.id
  | .relationship a, .relationship b => a.id == b.id
  | .path p, .path q => p == q
  | .duration a, .duration b => a == b
  | .date a, .date b => a == b
  | _, _ => false

/-- Lists of the same values. -/
def sameItems : List Value → List Value → Bool
  | [], [] => true
  | a :: as, b :: bs => a.same b && sameItems as bs
  | _, _ => false

/-- Maps of the same values under the same names. -/
def sameEntries : List (String × Value) → List (String × Value) → Bool
  | [], [] => true
  | (k, a) :: as, (l, b) :: bs => k == l && a.same b && sameEntries as bs
  | _, _ => false

end

instance : BEq Value := ⟨Value.same⟩

namespace Value

/-! ## Kinds -/

/-- Is it null? -/
def isNull : Value → Bool
  | .null => true
  | _ => false

/-- Is it a vertex, an edge or a path? -/
def isElement : Value → Bool
  | .node _ | .relationship _ | .path _ => true
  | _ => false

/-- Is it an integer or a double? -/
def isNumber : Value → Bool
  | .int _ | .float _ => true
  | _ => false

/-- The name of the value's type in messages. -/
def typeName : Value → String
  | .null => "NULL"
  | .bool _ => "BOOLEAN"
  | .int _ => "INTEGER"
  | .float _ => "FLOAT"
  | .text _ => "STRING"
  | .list _ => "LIST"
  | .map _ => "MAP"
  | .node _ => "NODE"
  | .relationship _ => "RELATIONSHIP"
  | .path _ => "PATH"
  | .duration _ => "DURATION"
  | .date _ => "DATE"

/-- The number as a double. -/
def toDouble? : Value → Option Double
  | .int n => some (.ofInt64 n)
  | .float x => some x
  | _ => none

/-! ## Selectors -/

/-- The text, if it is one. -/
def asText? : Value → Option String
  | .text s => some s
  | _ => none

/-- The truth value, if it is one. -/
def asBool? : Value → Option Bool
  | .bool b => some b
  | _ => none

/-- The integer, if it is one. -/
def asInt? : Value → Option Int64
  | .int n => some n
  | _ => none

/-- The vertex, if it is one. -/
def asVertex? : Value → Option Vertex
  | .node v => some v
  | _ => none

/-- The edge, if it is one. -/
def asEdge? : Value → Option Edge
  | .relationship e => some e
  | _ => none

end Value

end PropertyGraph
