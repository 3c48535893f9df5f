import PropertyGraph.Hash.Sip
import PropertyGraph.Pattern.Match
import PropertyGraph.Run.Flow

/-!
# The search for matches

The matches of a pattern are found by assigning one open constraint after the other.  Which one is
next depends on how many constraints around it are assigned already and on the estimated number of
elements that qualify; a hash decides what is still equal.  A node without an assigned relationship
takes its vertices from a cursor of the store, one whenever the search comes back to it; all other
constraints are assigned from what the store holds around their assigned neighbours.

The names of a row that the pattern mentions are assigned from the start.
-/

namespace PropertyGraph

/-! ## What qualifies -/

/-- Does a property, if there is one, equal the value? -/
def equalsProperty (found : Option Value) (v : Value) : Bool :=
  found.any fun w => Value.equal? w v == some true

/-- Does a vertex meet the demands of a node? -/
def NodeConstraint.admits (n : NodeConstraint Value) (config : Config) (v : Vertex) : Bool :=
  n.labels.all (fun l => v.hasLabel (config.label l)) &&
    n.properties.all fun (k, p) => equalsProperty (v.property? (config.property k)) p

/-- Does an edge meet the demands of a relationship? -/
def RelationshipConstraint.admits (r : RelationshipConstraint Value) (config : Config) (e : Edge) :
    Bool :=
  admitsType r.types e.type &&
    r.properties.all fun (k, p) => equalsProperty (e.property? (config.property k)) p

/-! ## A search -/

/-- A node or a relationship of a pattern. -/
inductive ConstraintId where
  | node (i : Nat)
  | relationship (i : Nat)
deriving DecidableEq, Repr

/-- The hash that a seed gives to a constraint. -/
def tieBreak (seed : UInt64) : ConstraintId → UInt64
  | .node i => Sip.hash [seed, 0, .ofNat i]
  | .relationship i => Sip.hash [seed, 1, .ofNat i]

/-- A pattern whose matches are sought, and what decides between constraints which are equal
otherwise, the one with the lesser `tie` being assigned first. -/
structure Search where
  ctx : RunContext
  pattern : Constraints Value
  tie : ConstraintId → UInt64

namespace Search

/-- The search for a pattern with ties broken as the configuration says. -/
def of (ctx : RunContext) (pattern : Constraints Value) : Search :=
  ⟨ctx, pattern, tieBreak ctx.config.tieBreakSeed⟩

/-- The demands on properties as tests of the stored properties. -/
def propertyTests (config : Config) (properties : List (String × Value)) :
    List (String × PropertyTest) :=
  properties.map fun (k, p) => (config.property k, .equal p)

/-- The demands of a node as the store understands them. -/
def nodeSelection (config : Config) (n : NodeConstraint Value) : Selection :=
  ⟨n.labels.map config.label, [], propertyTests config n.properties, none⟩

/-- The demands of a relationship as the store understands them. -/
def relationshipSelection (config : Config) (r : RelationshipConstraint Value) : Selection :=
  ⟨[], r.types, propertyTests config r.properties, none⟩

/-- Is one of the demands such that nothing meets it: a comparison with null or of a property of
which no value was ever stored? -/
def hopeless (config : Config) (store : Store) (properties : List (String × Value)) : Bool :=
  properties.any fun (k, p) => p.isNull || !store.isDefined (config.property k)

/-! ## The names of the row -/

/-- Assigns the nodes whose names the row binds; nothing if one of the vertices does not qualify. -/
def startNodes (q : Search) (row : Row) :
    List (NodeConstraint Value × Nat) → Match → Except Error (Option Match)
  | [], m => .ok (some m)
  | (n, i) :: rest, m =>
    match n.name.bind row.lookup? with
    | none => q.startNodes row rest m
    | some (.node v) =>
      if n.admits q.ctx.config v then q.startNodes row rest (m.setNode i (.vertex v)) else .ok none
    | some .null =>
      if q.pattern.optional then q.startNodes row rest (m.setNode i .null) else .ok none
    | some v => .error (.mismatch "NODE" v)

/-- The assignments that a value of the row allows for a relationship. -/
def startBindings (q : Search) (r : RelationshipConstraint Value) :
    Value → Except Error (List RelationshipBinding)
  | v =>
    if r.isWalk then .error (.notImplemented "rebinding a variable-length relationship")
    else match v with
      | .relationship e =>
        .ok (if r.admits q.ctx.config e then RelationshipBinding.orientations r.heading e else [])
      | .null => .ok (if q.pattern.optional then [.null] else [])
      | v => .error (.mismatch "RELATIONSHIP" v)

/-- Assigns the relationships whose names the row binds, in every way that they allow. -/
def startRelationships (q : Search) (row : Row) :
    List (RelationshipConstraint Value × Nat) → List Match → Except Error (List Match)
  | [], ms => .ok ms
  | (r, i) :: rest, ms =>
    match r.name.bind row.lookup? with
    | none => q.startRelationships row rest ms
    | some v => do
      let bindings ← q.startBindings r v
      q.startRelationships row rest (ms.flatMap fun m => bindings.map (m.setRelationship i))

/-- Do the ends of an assigned relationship agree with each other and with the assigned nodes? -/
def endsAgree (m : Match) (r : RelationshipConstraint Value) (i : Nat) : Bool :=
  match (m.relationship? i).bind RelationshipBinding.ends with
  | none => true
  | some (first, second) =>
    (r.first ≠ r.second || first == second) &&
      (m.vertex? r.first).all (·.id == first) && (m.vertex? r.second).all (·.id == second)

/-- The id of the edge assigned to a relationship. -/
def edgeId? : Option RelationshipBinding → Option String
  | some (.edge e _ _) => some e.id
  | _ => none

/-- Do the assignments from the row fit together, no edge being used twice? -/
def consistent (q : Search) (m : Match) : Bool :=
  let ids := m.relationships.filterMap edgeId?
  ids.eraseDups.length == ids.length &&
    q.pattern.relationships.zipIdx.all fun (r, i) => endsAgree m r i

/-- The partial matches that the row gives rise to. -/
def start (q : Search) (row : Row) : Except Error (List Match) := do
  match q.pattern.paths.find? fun p => row.has p.name with
  | some p => throw (.notImplemented ("rebinding path variable \x60" ++ p.name ++ "\x60"))
  | none =>
    match ← q.startNodes row q.pattern.nodes.zipIdx (.blank q.pattern) with
    | none => return []
    | some m =>
      return (← q.startRelationships row q.pattern.relationships.zipIdx [m]).filter q.consistent

/-! ## Estimates -/

/-- The demands on properties as a part of a key. -/
def propertiesKey (properties : List (String × Value)) : String :=
  String.join (properties.map fun (k, p) => "|" ++ k ++ "=" ++ p.toText)

/-- An estimate that is made only once in a statement. -/
def remembered (key : String) (make : StateM RunState Nat) : StateM RunState Nat := fun s =>
  match Entries.get? key s.estimates with
  | some n => (n, s)
  | none =>
    let (n, s) := make s
    (n, { s with estimates := Entries.insert key n s.estimates })

/-- The number of results of a cursor, which is closed again. -/
def total (find : Store → Cursor) : StateM RunState Nat := fun s =>
  let s := s.request 1
  let cursor := find s.store
  (cursor.total, if cursor.isClosed then s else s.openCursor.closeCursors 1)

/-- How many vertices meet the demands of a node, as the store estimates it. -/
def nodeEstimate (q : Search) (n : NodeConstraint Value) : StateM RunState Nat :=
  let key := "v" ++ String.join (n.labels.map (":" ++ ·)) ++ propertiesKey n.properties
  remembered key fun s =>
    if hopeless q.ctx.config s.store n.properties then (0, s)
    else total (·.selectVertices q.ctx.reader (nodeSelection q.ctx.config n)) s

/-- How many edges meet the demands of a relationship, as the store estimates it. -/
def relationshipEstimate (q : Search) (r : RelationshipConstraint Value) : StateM RunState Nat :=
  let key := "e:" ++ "|".intercalate r.types ++ propertiesKey r.properties
  remembered key fun s =>
    if hopeless q.ctx.config s.store r.properties then (0, s)
    else total (·.selectEdges q.ctx.reader (relationshipSelection q.ctx.config r)) s

/-- How many vertices carry all of some labels. -/
def labelEstimate (ctx : RunContext) (labels : List String) : StateM RunState Nat :=
  remembered ("v:" ++ ":".intercalate labels)
    (total (·.selectVertices ctx.reader ⟨labels.map ctx.config.label, [], [], none⟩))

/-! ## The next constraint -/

/-- What the constraints are ordered by; the least is next.  First come those with most assigned
neighbours, then those with fewest open ones, those that must be matched, single edges, those with
the lowest estimate, those with most demands. -/
def priority (assigned left : Nat) (optional walk : Bool) (estimate demands : Nat) (tie : UInt64) :
    List Int :=
  [-assigned, left, optional.toNat, walk.toNat, estimate, -demands, tie.toNat]

/-- The priority of a node. -/
def nodePriority (q : Search) (m : Match) (n : NodeConstraint Value) (i : Nat) :
    StateM RunState (List Int) := do
  let assigned := n.incident.countP fun r => (m.relationship? r).isSome
  let estimate ← q.nodeEstimate n
  return priority assigned (n.incident.length - assigned) q.pattern.optional false estimate
    (n.labels.length + n.properties.length) (q.tie (.node i))

/-- The priority of a relationship with so many assigned ends. -/
def relationshipPriority (q : Search) (r : RelationshipConstraint Value) (i assigned : Nat) :
    StateM RunState (List Int) := do
  let estimate ← q.relationshipEstimate r
  return priority assigned (r.ends.length - assigned) q.pattern.optional r.isWalk estimate
    ((!r.types.isEmpty).toNat + r.properties.length) (q.tie (.relationship i))

/-- The open nodes with their priorities. -/
def openNodes (q : Search) (m : Match) : StateM RunState (List (List Int × ConstraintId)) :=
  q.pattern.nodes.zipIdx.filterMapM fun (n, i) => do
    if (m.node? i).isSome then return none
    else return some (← q.nodePriority m n i, .node i)

/-- The open relationships with an assigned end, with their priorities. -/
def openRelationships (q : Search) (m : Match) :
    StateM RunState (List (List Int × ConstraintId)) :=
  q.pattern.relationships.zipIdx.filterMapM fun (r, i) => do
    let assigned := r.ends.countP fun n => (m.node? n).isSome
    if (m.relationship? i).isSome || assigned == 0 then return none
    else return some (← q.relationshipPriority r i assigned, .relationship i)

/-- The first of the least. -/
def least (candidates : List (List Int × ConstraintId)) : Option ConstraintId :=
  (candidates.foldl (fun best c => match best with
    | some b => if c.1 < b.1 then some c else some b
    | none => some c) none).map Prod.snd

/-- The constraint to be assigned next. -/
def choose (q : Search) (m : Match) : StateM RunState (Option ConstraintId) := do
  let nodes ← q.openNodes m
  let relationships ← q.openRelationships m
  return least (nodes ++ relationships)

/-! ## Candidates -/

/-- A vertex fetched from the store. -/
def fetchVertex (q : Search) (id : String) : StateM RunState (Option Vertex) := fun s =>
  (s.store.getVertex? q.ctx.reader id, s.request 1)

/-- The edges around a vertex. -/
def neighbourhood (q : Search) (id : String) (direction : Heading) (types : List String) :
    StateM RunState (List Edge) := fun s =>
  (s.store.incidentEdges q.ctx.reader id direction types, s.request 1)

/-- The id of the vertex that the assigned relationships of a node demand, each its own. -/
def demandedIds (q : Search) (m : Match) (n : NodeConstraint Value) (i : Nat) : List String :=
  n.incident.filterMap fun r =>
    match (m.relationship? r).bind RelationshipBinding.ends, q.pattern.relationships[r]? with
    | some (first, second), some rel => some (if rel.first = i then first else second)
    | _, _ => none

/-- The vertices for a node with an assigned relationship: the one on which all agree. -/
def nodeCandidates (q : Search) (m : Match) (n : NodeConstraint Value) (i : Nat) :
    StateM RunState (List Vertex) := do
  match q.demandedIds m n i with
  | [] => return []
  | id :: rest =>
    if rest.all (· == id) then
      match ← q.fetchVertex id with
      | some v => return if n.admits q.ctx.config v then [v] else []
      | none => return []
    else return []

/-- Where a relationship is expanded from: the vertex, whether that is its first node, and the id
of the vertex at its other end if that is assigned. -/
structure Origin where
  vertex : Vertex
  fromFirst : Bool
  goal : Option String

/-- The assigned end of a relationship; the first node comes first. -/
def origin? (m : Match) (r : RelationshipConstraint Value) : Option Origin :=
  if m.isNullNode r.first || m.isNullNode r.second then none
  else match m.vertex? r.first, m.vertex? r.second with
    | some v, w =>
      some ⟨v, true, if r.first = r.second then some v.id else w.map (·.id)⟩
    | none, some w => some ⟨w, false, none⟩
    | none, none => none

/-- The direction in which the edges leave the origin. -/
def Origin.direction (o : Origin) (r : RelationshipConstraint Value) : Heading :=
  if o.fromFirst then r.heading else r.heading.reverse

/-- May the edge be used for the relationship, so far as the match goes? -/
def usable (q : Search) (m : Match) (r : RelationshipConstraint Value) (e : Edge) : Bool :=
  !m.uses e.id && r.admits q.ctx.config e

/-- The single edges for a relationship. -/
def hops (q : Search) (m : Match) (r : RelationshipConstraint Value) (o : Origin) :
    StateM RunState (List RelationshipBinding) := do
  let edges ← q.neighbourhood o.vertex.id (o.direction r) r.types
  return (edges.filter (q.usable m r)).filterMap fun e =>
    let other := e.otherEnd o.vertex.id
    if o.goal.all (· == other) then
      some (if o.fromFirst then .edge e o.vertex.id other else .edge e other o.vertex.id)
    else none

/-- The paths one hop longer than a path, without a vertex or an edge twice. -/
def longer (q : Search) (m : Match) (r : RelationshipConstraint Value) (direction : Heading)
    (p : Path) : StateM RunState (List Path) := do
  let tip := p.finish.id
  let edges ← q.neighbourhood tip direction r.types
  edges.filterMapM fun e => do
    let other := e.otherEnd tip
    if p.hasEdge e.id || !q.usable m r e || p.hasVertex other then return none
    else return (← q.fetchVertex other).map (p.extend e)

/-- A path and its extensions by at most `left` hops, each before its own extensions. -/
def walks (q : Search) (m : Match) (r : RelationshipConstraint Value) (direction : Heading)
    (left : Nat) (p : Path) : StateM RunState (List Path) := do
  match left with
  | 0 => return [p]
  | left + 1 =>
    let next ← q.longer m r direction p
    let further ← next.mapM (q.walks m r direction left)
    return p :: further.flatten

/-- The walks for a relationship with a range. -/
def walksWithin (q : Search) (m : Match) (r : RelationshipConstraint Value) (o : Origin)
    (range : HopRange) : StateM RunState (List RelationshipBinding) := do
  let max := range.max.getD q.ctx.config.maxDepth
  if max < range.min then return []
  else
    let paths ← q.walks m r (o.direction r) max (.single o.vertex)
    let fitting := paths.filter fun p => range.min ≤ p.length && o.goal.all p.endsAt
    return fitting.map fun p => .walk (if o.fromFirst then p else p.reverse)

/-- The assignments for a relationship with an assigned end. -/
def relationshipCandidates (q : Search) (m : Match) (r : RelationshipConstraint Value) :
    StateM RunState (List RelationshipBinding) := fun s =>
  match origin? m r with
  | none => ([], s)
  | some o =>
    if hopeless q.ctx.config s.store r.properties then ([], s)
    else match r.range with
      | none => q.hops m r o s
      | some range => q.walksWithin m r o range s

/-! ## The search itself -/

/-- Goes on with each of some extended matches, or with `unmatched` where there are none and the
pattern is optional. -/
def proceed (q : Search) (next : Match → Source Match) (unmatched : Match) (ms : List Match) :
    Source Match :=
  if ms.isEmpty && q.pattern.optional then next unmatched else Flow.inTurn next ms

/-- Goes on with each vertex of an open cursor in turn, which is fetched only then.  The cursor is
closed at the end, and `matched` says whether some vertex has qualified. -/
def seeds (q : Search) (next : Match → Source Match) (m : Match) (n : NodeConstraint Value)
    (i : Nat) (matched : Bool) : List String → Source Match
  | [], s =>
    let s := s.closeCursors 1
    if !matched && q.pattern.optional then next (m.setNode i .null) s else .done s
  | id :: rest, s =>
    match (s.store.getVertex? q.ctx.reader id).filter (n.admits q.ctx.config) with
    | some v =>
      (next (m.setNode i (.vertex v)) s).before 1 (q.seeds next m n i true rest)
    | none => q.seeds next m n i matched rest s

/-- Assigns a node without assigned relationships: from a cursor over the store. -/
def seedNode (q : Search) (next : Match → Source Match) (m : Match) (n : NodeConstraint Value)
    (i : Nat) : Source Match := fun s =>
  if hopeless q.ctx.config s.store n.properties then q.proceed next (m.setNode i .null) [] s
  else
    let s := s.request 1
    match (s.store.selectVertices q.ctx.reader (nodeSelection q.ctx.config n)).pending with
    | none => q.proceed next (m.setNode i .null) [] s
    | some ids => q.seeds next m n i false ids s.openCursor

/-- Assigns one constraint. -/
def expand (q : Search) (next : Match → Source Match) (m : Match) (t : ConstraintId) :
    Source Match := fun s =>
  match t with
  | .node i =>
    match q.pattern.nodes[i]? with
    | none => .done s
    | some n =>
      if n.incident.any fun r => (m.relationship? r).isSome then
        let (vertices, s) := q.nodeCandidates m n i s
        q.proceed next (m.setNode i .null) (vertices.map fun v => m.setNode i (.vertex v)) s
      else q.seedNode next m n i s
  | .relationship i =>
    match q.pattern.relationships[i]? with
    | none => .done s
    | some r =>
      let (bindings, s) := q.relationshipCandidates m r s
      q.proceed next (m.setRelationship i .null) (bindings.map (m.setRelationship i)) s

/-- The complete matches that extend a partial one with `left` open constraints. -/
def complete (q : Search) : (left : Nat) → Match → Source Match
  | 0, m, s => Flow.single m s
  | left + 1, m, s =>
    match q.choose m s with
    | (none, s) => .done s
    | (some t, s) => q.expand (q.complete left) m t s

/-- The complete matches under the names of a row. -/
def flow (q : Search) (row : Row) : Source Match := fun s =>
  match q.start row with
  | .error e => .fail e s
  | .ok ms => Flow.inTurn (fun m => q.complete m.openCount m) ms s

end Search

end PropertyGraph
