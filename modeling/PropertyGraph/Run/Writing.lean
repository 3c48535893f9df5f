import PropertyGraph.Plan.Stage
import PropertyGraph.Query.Expr.Names
import PropertyGraph.Run.Matching

/-!
# Writing

What `CREATE`, `MERGE`, `SET`, `REMOVE` and `DELETE` do with a row.  Every write goes to the store
at once and is counted; a row that binds the element written is brought up to date, and before an
element is changed its newest state is fetched.  `DELETE` alone takes all rows together, and checks
everything before it removes anything.
-/

namespace PropertyGraph

/-! ## Property values -/

namespace Value

mutual

/-- The value that keeps a value from being stored: a map or an element, also inside a list. -/
def unstorable? : Value → Option Value
  | .map entries => some (.map entries)
  | .node v => some (.node v)
  | .relationship e => some (.relationship e)
  | .path p => some (.path p)
  | .list items => firstUnstorable? items
  | _ => none

/-- The first value in a list that keeps it from being stored. -/
def firstUnstorable? : List Value → Option Value
  | [] => none
  | v :: rest => v.unstorable?.or (firstUnstorable? rest)

end

end Value

/-- A property of a new or changed element, by its stored name. -/
abbrev StoredProperty := String × Value

namespace RunContext

/-- Makes sure that a value can be stored under a name. -/
def prepare (name : String) (v : Value) : Run Unit := fun s =>
  match v.unstorable? with
  | some w => (.error (.mismatch ("property value for \x60" ++ name ++ "\x60") w), s)
  | none => (.ok (), { s with store := s.store.define name v })

/-- The properties that expressions give an element; null gives none. -/
def storedProperties (ctx : RunContext) (row : Row) :
    List (String × Expr) → Run (List StoredProperty)
  | [] => return []
  | (key, e) :: rest => do
    let v ← ctx.value e row
    if v.isNull then ctx.storedProperties row rest
    else
      let name := ctx.config.property key
      prepare name v
      return (name, v) :: (← ctx.storedProperties row rest)

/-! ## Creation -/

/-- A new vertex for a node pattern. -/
def createVertex (ctx : RunContext) (n : NodePattern) (row : Row) : Run Vertex := do
  let labels := Names.ofList (n.labels.map ctx.config.label)
  let properties ← ctx.storedProperties row n.properties
  let v : Vertex := ⟨← Run.nextVertexId, labels, Entries.ofList properties, ctx.visibility⟩
  Run.write (·.addVertex v)
  Run.countWrites fun c => { c with
    nodesCreated := c.nodesCreated + 1
    labelsAdded := c.labelsAdded + labels.length
    propertiesSet := c.propertiesSet + properties.length }
  return v

/-- The vertex of a node pattern, with the row that binds it: the one that the row binds already,
which may be null and must not be described again, or a new one. -/
def createNode (ctx : RunContext) (n : NodePattern) (row : Row) : Run (Option Vertex × Row) := do
  match n.name with
  | none => return (some (← ctx.createVertex n row), row)
  | some x =>
    match row.lookup? x with
    | some v =>
      if !n.labels.isEmpty || !n.properties.isEmpty then
        Run.fail (.syntaxError (.alreadyDeclared x))
      else match v with
        | .node v => return (some v, row)
        | .null => return (none, row)
        | v => Run.fail (.mismatch "NODE" v)
    | none =>
      let v ← ctx.createVertex n row
      return (some v, row.set x (.node v))

/-- The vertices of some node patterns in turn. -/
def createNodes (ctx : RunContext) (row : Row) :
    List NodePattern → Run (List (Option Vertex) × Row)
  | [] => return ([], row)
  | n :: rest => do
    let (v, row) ← ctx.createNode n row
    let (vs, row) ← ctx.createNodes row rest
    return (v :: vs, row)

/-- A new edge for a relationship pattern between two vertices, with the row that binds it. -/
def createEdge (ctx : RunContext) (r : RelationshipPattern) (left right : Option Vertex)
    (row : Row) : Run (Edge × Row) := do
  match r.name.filter row.has with
  | some x => Run.fail (.syntaxError (.alreadyDeclared x))
  | none => pure ()
  match left, right, r.types with
  | some v, some w, type :: _ =>
    let (source, target) := if r.heading = .incoming then (w.id, v.id) else (v.id, w.id)
    let properties ← ctx.storedProperties row r.properties
    let e : Edge :=
      ⟨← Run.nextEdgeId, type, source, target, Entries.ofList properties, ctx.visibility⟩
    Run.write (·.addEdge e)
    Run.countWrites fun c => { c with
      relationshipsCreated := c.relationshipsCreated + 1
      propertiesSet := c.propertiesSet + properties.length }
    return (e, match r.name with
      | some x => row.set x (.relationship e)
      | none => row)
  | some _, some _, [] => Run.fail (.syntaxError .untypedCreation)
  | _, _, _ => Run.fail (.invalidArgument .nullEndpoint)

/-- The edges of some relationship patterns along a walk of vertices. -/
def createEdges (ctx : RunContext) (row : Row) :
    List RelationshipPattern → List (Option Vertex) → Run (List Edge × Row)
  | r :: rest, left :: right :: vertices => do
    let (e, row) ← ctx.createEdge r left right row
    let (es, row) ← ctx.createEdges row rest (right :: vertices)
    return (e :: es, row)
  | _, _ => return ([], row)

/-- The edges of a part between its vertices, and its path. -/
def finishPart (ctx : RunContext) (part : PatternPart) (vertices : List (Option Vertex))
    (row : Row) : Run Row := do
  let (edges, row) ← ctx.createEdges row part.relationships vertices
  match part.pathName with
  | none => return row
  | some x =>
    match Path.ofParts? (vertices.filterMap id) edges with
    | some p => return row.set x (.path p)
    | none => Run.fail (.invalidArgument (.unconnectedPath x))

/-- The vertices of some parts in turn. -/
def startParts (ctx : RunContext) (row : Row) :
    List PatternPart → Run (List (List (Option Vertex)) × Row)
  | [] => return ([], row)
  | part :: rest => do
    let (vertices, row) ← ctx.createNodes row part.nodes
    let (others, row) ← ctx.startParts row rest
    return (vertices :: others, row)

/-- Creates all parts of a pattern, first the vertices and then the edges. -/
def create (ctx : RunContext) (parts : List PatternPart) (row : Row) : Run Row := do
  let (vertices, row) ← ctx.startParts row.child parts
  (parts.zip vertices).foldlM (fun row (part, vs) => ctx.finishPart part vs row) row

/-- Creates each part from the same row, and joins the rows. -/
def createApart (ctx : RunContext) (parts : List PatternPart) (row : Row) : Run Row :=
  parts.foldlM (fun joined part => do
    let out ← ctx.create [part] row
    Run.update (·.countRow "Create")
    return joined.absorb out) row.child

/-! ## Change -/

/-- The row with every column that binds the same element bound to its new state. -/
def rebind (row : Row) (saved : Value) : Row :=
  row.names.foldl (fun row name =>
    match row.lookup? name, saved with
    | some (.node v), .node w => if v.id == w.id then row.set name saved else row
    | some (.relationship e), .relationship f => if e.id == f.id then row.set name saved else row
    | _, _ => row) row

/-- The newest state of an element that is visible to the reader, and otherwise nothing; `none` in
place of it for a value that is no element. -/
def newest? (ctx : RunContext) (store : Store) : Value → Option (Option Value)
  | .node v => some ((store.getVertex? ctx.reader v.id).map .node)
  | .relationship e => some ((store.getEdge? ctx.reader e.id).map .relationship)
  | _ => none

/-- The row with the elements of some names in their newest state. -/
def refresh (ctx : RunContext) (names : List String) (row : Row) : Run Row := fun s =>
  let (row, s) := names.foldl (fun (row, s) name =>
    match (row.lookup? name).bind (ctx.newest? s.store) with
    | none => (row, s)
    | some fresh => ((fresh.map (row.set name)).getD row, s.request 1)) (row, s)
  (.ok row, s)

/-- An element that is to be changed. -/
structure Subject where
  id : ElementId
  properties : Properties

/-- The element that a value stands for; null stands for none. -/
def subject : Value → Run (Option Subject)
  | .null => return none
  | .node v => return some ⟨.vertex v.id, v.properties⟩
  | .relationship e => return some ⟨.edge e.id, e.properties⟩
  | v => Run.fail (.mismatch "NODE or RELATIONSHIP" v)

/-- Makes changes of an element, if there are any, and brings the row up to date. -/
def save (target : ElementId) (changes : List Change) (row : Row) : Run Row := fun s =>
  if changes.isEmpty then (.ok row, s)
  else match s.store.change target changes with
    | (.ok saved, store) => (.ok (rebind row saved), { s with store })
    | (.error e, store) => (.error (.store e), { s with store })

/-- Sets a property of an element, or removes it for null. -/
def setProperty (ctx : RunContext) (target : Expr) (key : String) (e : Expr) (row : Row) :
    Run Row := do
  let v ← ctx.value e row
  match ← subject (← ctx.value target row) with
  | none => return row
  | some t =>
    let name := ctx.config.property key
    if v.isNull then
      if Entries.has name t.properties then
        Run.countWrites fun c => { c with propertiesRemoved := c.propertiesRemoved + 1 }
        save t.id [.removeProperty name] row
      else return row
    else
      prepare name v
      Run.countWrites fun c => { c with propertiesSet := c.propertiesSet + 1 }
      save t.id [.setProperty name v] row

/-- The properties that a value holds: the entries of a map, or the properties of an element. -/
def entriesOf : Value → Run (List (String × Value))
  | .map entries => return entries
  | .node v => return v.properties
  | .relationship e => return e.properties
  | v => Run.fail (.mismatch "MAP" v)

/-- The properties of an element that some entries do not set. -/
def notSet (ctx : RunContext) (entries : List (String × Value)) (properties : Properties) :
    List String :=
  (Entries.names properties).filter fun name =>
    !entries.any fun (key, v) => !v.isNull && ctx.config.property key == name

/-- The changes that set the properties of an element to some entries.  Null removes a property
that is there, unless `replace` says that those are removed anyway. -/
def entryChanges (ctx : RunContext) (replace : Bool) (properties : Properties) :
    List (String × Value) → Run (List Change)
  | [] => return []
  | (key, v) :: rest => do
    let name := ctx.config.property key
    if v.isNull then
      let changes ← ctx.entryChanges replace properties rest
      return if !replace && Entries.has name properties then .removeProperty name :: changes
        else changes
    else
      prepare name v
      return .setProperty name v :: (← ctx.entryChanges replace properties rest)

/-- Is it the setting of a property? -/
def setsProperty : Change → Bool
  | .setProperty _ _ => true
  | _ => false

/-- Sets all properties of an element at once: in the place of those it has, or beside them. -/
def setProperties (ctx : RunContext) (replace : Bool) (x : String) (e : Expr) (row : Row) :
    Run Row := do
  match ← subject (← Run.lift (row.get x)) with
  | none => return row
  | some t =>
    let entries ← entriesOf (← ctx.value e row)
    let dropped := if replace then ctx.notSet entries t.properties else []
    let changes := dropped.map Change.removeProperty ++
      (← ctx.entryChanges replace t.properties entries)
    let set := changes.countP setsProperty
    Run.countWrites fun c => { c with
      propertiesSet := c.propertiesSet + set
      propertiesRemoved := c.propertiesRemoved + (changes.length - set) }
    save t.id changes row

/-- The vertex that a name is bound to; null stands for none. -/
def labelled (x : String) (row : Row) : Run (Option Vertex) := do
  match ← Run.lift (row.get x) with
  | .null => return none
  | .node v => return some v
  | v => Run.fail (.mismatch "NODE" v)

/-- Adds those labels to a vertex that it does not carry. -/
def addLabels (ctx : RunContext) (x : String) (labels : List String) (row : Row) : Run Row := do
  match ← labelled x row with
  | none => return row
  | some v =>
    let new := (labels.map ctx.config.label).filter (!v.hasLabel ·)
    Run.countWrites fun c => { c with labelsAdded := c.labelsAdded + new.length }
    save (.vertex v.id) (new.map .addLabel) row

/-- Removes those labels from a vertex that it carries. -/
def removeLabels (ctx : RunContext) (x : String) (labels : List String) (row : Row) : Run Row := do
  match ← labelled x row with
  | none => return row
  | some v =>
    let old := (labels.map ctx.config.label).filter v.hasLabel
    Run.countWrites fun c => { c with labelsRemoved := c.labelsRemoved + old.length }
    save (.vertex v.id) (old.map .removeLabel) row

/-- Removes a property from an element that has it. -/
def removeProperty (ctx : RunContext) (target : Expr) (key : String) (row : Row) : Run Row := do
  match ← subject (← ctx.value target row) with
  | none => return row
  | some t =>
    let name := ctx.config.property key
    if Entries.has name t.properties then
      Run.countWrites fun c => { c with propertiesRemoved := c.propertiesRemoved + 1 }
      save t.id [.removeProperty name] row
    else return row

end RunContext

/-- The names whose elements an item of `SET` reads or changes. -/
def SetItem.names : SetItem → List String
  | .property target _ e =>
    target.freeNames ++ e.freeNames.filter (!target.freeNames.contains ·)
  | .replace x e | .merge x e => x :: e.freeNames.filter (· ≠ x)
  | .labels x _ => [x]

namespace RunContext

/-- Carries out one item of `SET`. -/
def setItem (ctx : RunContext) (row : Row) (item : SetItem) : Run Row := do
  let row ← ctx.refresh item.names row
  match item with
  | .property target key e => ctx.setProperty target key e row
  | .replace x e => ctx.setProperties true x e row
  | .merge x e => ctx.setProperties false x e row
  | .labels x labels => ctx.addLabels x labels row

/-- Carries out items of `SET` in turn. -/
def set (ctx : RunContext) (items : List SetItem) (row : Row) : Run Row :=
  items.foldlM ctx.setItem row

/-- Carries out one item of `REMOVE`. -/
def removeItem (ctx : RunContext) (row : Row) : RemoveItem → Run Row
  | .property target key => do
    ctx.removeProperty target key (← ctx.refresh target.freeNames row)
  | .labels x labels => do ctx.removeLabels x labels (← ctx.refresh [x] row)

/-- Carries out items of `REMOVE` in turn. -/
def remove (ctx : RunContext) (items : List RemoveItem) (row : Row) : Run Row :=
  items.foldlM ctx.removeItem row

/-! ## Merging -/

/-- The rows that the matches of a pattern make of a row, all found before any is used. -/
def mergeMatches (ctx : RunContext) (pattern : Constraints Expr) (row : Row) : Run (List Row) := do
  let resolved ← pattern.mapM fun e => do
    let v ← ctx.value e row
    if v.isNull then Run.fail (.invalidArgument (.nullMergeProperty e.text)) else return v
  let found ← Flow.toList ((Search.of ctx resolved).flow row)
  return found.map fun m => row.bound (m.bindings resolved)

/-- The rows of a `MERGE`: of all matches, or of the pattern created where there are none. -/
def merge (ctx : RunContext) (pattern : Constraints Expr) (part : PatternPart)
    (onCreate onMatch : List SetItem) (row : Row) : Run (List Row) := do
  match ← ctx.mergeMatches pattern row with
  | [] => return [← ctx.set onCreate (← ctx.create [part] row)]
  | rows => rows.mapM (ctx.set onMatch)

end RunContext

/-! ## Deletion -/

/-- The ids of elements to be removed, each once and in the order in which they came. -/
structure Doomed where
  vertices : List String
  edges : List String

namespace Doomed

/-- Nothing to be removed. -/
def none : Doomed := ⟨[], []⟩

/-- Ids with one more, unless it is there. -/
def note (ids : List String) (id : String) : List String :=
  if ids.contains id then ids else ids ++ [id]

/-- With one more vertex. -/
def addVertex (d : Doomed) (id : String) : Doomed :=
  { d with vertices := note d.vertices id }

/-- With one more edge. -/
def addEdge (d : Doomed) (id : String) : Doomed :=
  { d with edges := note d.edges id }

mutual

/-- With the elements of a value: an element, the parts of a path, or the items of a list. -/
def add (d : Doomed) : Value → Except Error Doomed
  | .null => .ok d
  | .node v => .ok (d.addVertex v.id)
  | .relationship e => .ok (d.addEdge e.id)
  | .path p =>
    .ok ((p.vertices.map (·.id)).foldl addVertex ((p.edges.map (·.id)).foldl addEdge d))
  | .list items => d.addItems items
  | .bool b => .error (.mismatch "NODE, RELATIONSHIP or PATH" (.bool b))
  | .int n => .error (.mismatch "NODE, RELATIONSHIP or PATH" (.int n))
  | .float x => .error (.mismatch "NODE, RELATIONSHIP or PATH" (.float x))
  | .text s => .error (.mismatch "NODE, RELATIONSHIP or PATH" (.text s))
  | .map entries => .error (.mismatch "NODE, RELATIONSHIP or PATH" (.map entries))
  | .duration x => .error (.mismatch "NODE, RELATIONSHIP or PATH" (.duration x))
  | .date x => .error (.mismatch "NODE, RELATIONSHIP or PATH" (.date x))

/-- With the elements of some values in turn. -/
def addItems (d : Doomed) : List Value → Except Error Doomed
  | [] => .ok d
  | v :: rest =>
    match d.add v with
    | .ok d => d.addItems rest
    | .error e => .error e

end

/-- With the edges of a vertex, which must be among those to be removed unless `detach` says that
they go with the vertex. -/
def addIncident (detach : Bool) (vertex : String) (d : Doomed) (ids : List String) :
    Except Error Doomed :=
  let new := ids.filter (!d.edges.contains ·)
  if !detach && !new.isEmpty then .error (.stillConnected vertex)
  else .ok (new.foldl addEdge d)

end Doomed

namespace RunContext

/-- The elements that some targets name in all rows. -/
def doomed (ctx : RunContext) (targets : List Expr) (rows : List Row) : Run Doomed :=
  rows.foldlM (fun d row => targets.foldlM (fun d e => do
    Run.lift (d.add (← ctx.value e row))) d) .none

/-- The elements to be removed with the edges that have to go with the vertices. -/
def withIncident (ctx : RunContext) (detach : Bool) (d : Doomed) : Run Doomed :=
  d.vertices.foldlM (fun d id => do
    let ids := (← Run.store).incidentIds ctx.reader id .undirected []
    Run.update (·.request 1)
    Run.lift (d.addIncident detach id ids)) d

/-- Removes edges and then vertices. -/
def removeAll (d : Doomed) : Run Unit := do
  d.edges.forM fun id => do
    Run.write (·.removeEdge id)
    Run.countWrites fun c => { c with relationshipsDeleted := c.relationshipsDeleted + 1 }
  d.vertices.forM fun id => do
    Run.write (·.removeVertex id)
    Run.countWrites fun c => { c with nodesDeleted := c.nodesDeleted + 1 }

/-- Removes what some targets name in all rows. -/
def delete (ctx : RunContext) (detach : Bool) (targets : List Expr) (rows : List Row) :
    Run Unit := do
  removeAll (← ctx.withIncident detach (← ctx.doomed targets rows))

end RunContext

end PropertyGraph
