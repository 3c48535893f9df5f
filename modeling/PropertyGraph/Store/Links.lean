/-!
# Links

The edges of a graph can be told by links between numbered slots.  A vertex slot names the newest
edge that leaves it and the newest that enters it; an edge slot names the next older edge that
leaves the same vertex and the next older one that enters the same vertex.  An empty vertex slot
needs no edges and uses its two links for the chain of the empty slots: the outgoing one names the
empty slot that is used after it, the incoming one the slot that is used before it.

For a graph grown by its own writes these links say nothing that its lists of edges and of free
slots do not say.  A snapshot, however, may attach an edge to an empty slot.  The number of the
edge then stands where the number of a slot is expected, and it is read as one when a vertex takes
the slot: the slot of that number loses its link to its edges.  Such a graph keeps its links, and
its lists follow them.
-/

namespace PropertyGraph

/-- The two sides of a vertex: the edges that leave it and those that enter it. -/
inductive Side where
  | outgoing | incoming
deriving DecidableEq

/-- What a slot names on each side. -/
structure Link where
  outgoing : Option Nat
  incoming : Option Nat

namespace Link

/-- The link that names nothing. -/
def loose : Link := ⟨none, none⟩

/-- What is named on a side. -/
def get (l : Link) : Side → Option Nat
  | .outgoing => l.outgoing
  | .incoming => l.incoming

/-- Names something else on a side. -/
def set (l : Link) (name : Option Nat) : Side → Link
  | .outgoing => { l with outgoing := name }
  | .incoming => { l with incoming := name }

end Link

/-- The links of all vertex slots and edge slots, and the empty vertex slot that is used next. -/
structure Links where
  vertices : Array Link
  edges : Array Link
  free : Option Nat

namespace Links

/-- The graph without slots. -/
def empty : Links := ⟨#[], #[], none⟩

/-- What a vertex slot names on a side. -/
def first (l : Links) (side : Side) (v : Nat) : Option Nat :=
  (l.vertices.getD v .loose).get side

/-- What an edge slot names on a side. -/
def next (l : Links) (side : Side) (e : Nat) : Option Nat :=
  (l.edges.getD e .loose).get side

/-- Lets a vertex slot name something else on a side. -/
def setFirst (l : Links) (side : Side) (v : Nat) (name : Option Nat) : Links :=
  { l with vertices := l.vertices.modify v (·.set name side) }

/-- Lets an edge slot name something else on a side. -/
def setNext (l : Links) (side : Side) (e : Nat) (name : Option Nat) : Links :=
  { l with edges := l.edges.modify e (·.set name side) }

/-- The link of a slot written anew; the slot after the last one is added. -/
def put (links : Array Link) (i : Nat) (link : Link) : Array Link :=
  if i < links.size then links.setIfInBounds i link else links.push link

/-! ## Chains -/

/-- The numbers met from one on, at most `bound` of them, where each names the one after it. -/
def follow (name : Nat → Option Nat) : (bound : Nat) → Option Nat → List Nat
  | 0, _ => []
  | _ + 1, none => []
  | bound + 1, some i => i :: follow name bound (name i)

/-- The edge slots met on a side of a vertex slot. -/
def chain (l : Links) (side : Side) (v : Nat) : List Nat :=
  follow (l.next side) (l.edges.size + 1) (l.first side v)

/-- The vertex slots met from the one that is used next on. -/
def freeChain (l : Links) : List Nat :=
  follow (l.first .outgoing) (l.vertices.size + 1) l.free

/-! ## Writes -/

/-- Attaches the edge in slot `e` as the newest to its ends. -/
def attach (e source target : Nat) (l : Links) : Links :=
  let link := ⟨l.first .outgoing source, l.first .incoming target⟩
  let l := { l with edges := put l.edges e link }
  (l.setFirst .outgoing source (some e)).setFirst .incoming target (some e)

/-- Takes the edge in slot `e` out of the chain on a side of a vertex slot: what named the edge
names what the edge named. -/
def bypass (e : Nat) (name : Option Nat) (side : Side) (v : Nat) (l : Links) : Links :=
  if l.first side v = some e then l.setFirst side v name
  else match (l.chain side v).find? fun newer => l.next side newer = some e with
    | some newer => l.setNext side newer name
    | none => l

/-- Detaches the edge in slot `e` from its ends. -/
def detach (e source target : Nat) (l : Links) : Links :=
  let link := l.edges.getD e .loose
  let l := bypass e link.outgoing .outgoing source l
  let l := bypass e link.incoming .incoming target l
  { l with edges := put l.edges e .loose }

/-- Puts a vertex into slot `v`, which is the next one or a new one at the end.  The slots that an
empty slot names become neighbours in the chain. -/
def occupy (v : Nat) (l : Links) : Links :=
  let link := l.vertices.getD v .loose
  let l := { l with vertices := put l.vertices v .loose, free := link.outgoing }
  let l := match link.incoming with
    | some before => l.setFirst .outgoing before link.outgoing
    | none => l
  match link.outgoing with
  | some after => l.setFirst .incoming after link.incoming
  | none => l

/-- Empties slot `v`, or adds it as an empty one; it is used next. -/
def vacate (v : Nat) (l : Links) : Links :=
  let before := l.free
  let l := { l with vertices := put l.vertices v ⟨before, none⟩, free := some v }
  match before with
  | some w => l.setFirst .incoming w (some v)
  | none => l

/-- The links of vertex slots, each occupied or not, and of edge slots, each empty or with the
slots of its ends; the edges are attached in the order of their slots. -/
def ofSlots (occupied : List Bool) (ends : List (Option (Nat × Nat))) : Links :=
  let l := occupied.zipIdx.foldl (fun l (full, v) =>
    if full then { l with vertices := put l.vertices v .loose } else vacate v l) empty
  ends.zipIdx.foldl (fun l (pair, e) => match pair with
    | some (source, target) => attach e source target l
    | none => { l with edges := put l.edges e .loose }) l

end Links

end PropertyGraph
