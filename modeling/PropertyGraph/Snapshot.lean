import PropertyGraph.Snapshot.Element
import PropertyGraph.Store.Basic

/-!
# Snapshots

A snapshot is a store as bytes: a header, the vertices with the numbers of the empty slots among
them, the edges slot by slot, and the definitions of properties.  The indices are not part of it;
reading makes them anew.  Empty slots after the last vertex or edge are dropped, and of those that
stay the highest is used first.  An edge may have an empty slot as an end; the store then keeps the
links between its slots.
-/

namespace PropertyGraph

/-- Why bytes are no snapshot. -/
inductive SnapshotError where
  | shortHeader
  | notSnapshot
  | unknownVersion (version : Nat)
  | corrupt
deriving DecidableEq

/-- What is wrong with the header, in words; a fault behind it has no wording of its own. -/
def SnapshotError.message? : SnapshotError → Option String
  | .shortHeader => some "snapshot is truncated: header incomplete"
  | .notSnapshot => some "unrecognized snapshot format"
  | .unknownVersion version =>
    some ("snapshot core data version " ++ toString version ++
      " is not supported (expected 1)")
  | .corrupt => none

namespace Snapshot

/-- The bytes by which a snapshot is known. -/
def mark : List UInt8 := [0x43, 0x45, 0x47, 0x01]

/-- The version of the form of elements and values. -/
def version : Nat := 1

/-! ## Writing -/

/-- The contents of the slots up to the last element. -/
def trimmed {α : Type} (slots : Slots α) : List (Option α) :=
  (slots.cells.toList.reverse.dropWhile Option.isNone).reverse

/-- The numbers of the empty slots among some. -/
def holes {α : Type} (cells : List (Option α)) : List Nat :=
  cells.zipIdx.filterMap fun (cell, i) => if cell.isNone then some i else none

/-- A slot of an edge: empty, or the slots of its ends and the edge. -/
def edgeCell : Option EdgeCell → List UInt8
  | none => [0]
  | some c => 1 :: Bytes.natural 4 c.source ++ Bytes.natural 4 c.target ++ Bytes.edge c.edge

/-- The bytes of a store. -/
def write (s : Store) : List UInt8 :=
  let cells := trimmed s.vertices
  mark ++ Bytes.natural 4 version ++
    Bytes.sequence (fun c : VertexCell => Bytes.vertex c.vertex) (cells.filterMap id) ++
    Bytes.sequence (Bytes.natural 4) (holes cells) ++ Bytes.natural 4 1 ++
    Bytes.sequence edgeCell (trimmed s.edges) ++
    Bytes.sequence (fun (name, type) => Bytes.text name ++ Bytes.text type) s.definitions

/-! ## Reading -/

/-- The contents of slots from `position` on, given the numbers of the empty ones in ascending
order and the elements in the others. -/
def spread {α : Type} (bound position : Nat) : List Nat → List α → Option (List (Option α))
  | [], rest => some (rest.map some)
  | hole :: holes, rest =>
    let n := hole - position
    if position ≤ hole ∧ hole < bound ∧ n ≤ rest.length then
      (spread bound (hole + 1) holes (rest.drop n)).map fun cells =>
        (rest.take n).map some ++ none :: cells
    else none

/-- A slot of an edge whose ends lie among the first `bound` vertex slots. -/
def readEdgeCell (bound : Nat) : ByteReader (Option EdgeCell) := do
  if ← ByteReader.bool then
    let source ← ByteReader.natural 4
    let target ← ByteReader.natural 4
    let edge ← ByteReader.edge ByteReader.value
    if source < bound ∧ target < bound then return some ⟨edge, source, target⟩ else failure
  else return none

/-- The vertices with the edge in a slot attached as the newest to its ends. -/
def attach (vertices : Slots VertexCell) : Nat × EdgeCell → Slots VertexCell
  | (i, cell) =>
    let vertices := vertices.modify cell.source fun c => { c with outgoing := i :: c.outgoing }
    vertices.modify cell.target fun c => { c with incoming := i :: c.incoming }

/-- The links between slots with these contents, if there is an edge at an empty vertex slot. -/
def links? (cells : List (Option VertexCell)) (edges : Slots EdgeCell) : Option Links :=
  let occupied := cells.map Option.isSome
  let isEmpty (v : Nat) := !occupied.getD v false
  if edges.values.any fun c => isEmpty c.source || isEmpty c.target then
    some (Links.ofSlots occupied
      (edges.cells.toList.map (Option.map fun c => (c.source, c.target))))
  else none

/-- What follows the header. -/
def body : ByteReader Store := do
  let vertices ← ByteReader.sequence (ByteReader.vertex ByteReader.value)
  let holes ← ByteReader.sequence (ByteReader.natural 4)
  let bound := vertices.length + holes.length
  let cells ← ByteReader.lift (spread bound 0 holes (vertices.map fun v => ⟨v, [], []⟩))
  unless (← ByteReader.natural 4) = 1 do failure
  let edges := Slots.ofCells (← ByteReader.sequence (readEdgeCell bound))
  let definitions ← ByteReader.sequence (ByteReader.named ByteReader.text)
  return Store.reindex { Store.empty with
    vertices := edges.toList.foldl attach (Slots.ofCells cells)
    edges
    definitions := Entries.ofList definitions
    links := links? cells edges }

/-- The store of some bytes; what follows it is passed over. -/
def read (bytes : List UInt8) : Except SnapshotError Store :=
  if bytes.length < 8 then .error .shortHeader
  else if bytes.take 4 ≠ mark then .error .notSnapshot
  else
    let found := Bytes.toNat ((bytes.drop 4).take 4)
    if found ≠ version then .error (.unknownVersion found)
    else match body (bytes.drop 8) with
      | some (s, _) => .ok s
      | none => .error .corrupt

end Snapshot

end PropertyGraph
