import PropertyGraph.Proofs.Collections
import PropertyGraph.Proofs.Store.Slots

/-!
# Consistent stores

What all writes keep: every index says exactly what the elements say, every edge lies between two
vertices that are there and stands in the lists of both, and a property that is stored is defined.

    Store.Consistent s            the parts of the store are in step with one another
    Consistent.addVertex, ...     every write keeps them so

The two sides of a vertex are treated alike: an edge leaves the vertex in its source slot on the
outgoing side and enters the one in its target slot on the incoming side.
-/

namespace PropertyGraph

/-! ## Sides -/

/-- The edges of a vertex on a side. -/
def VertexCell.edges (c : VertexCell) : Side → List Nat
  | .outgoing => c.outgoing
  | .incoming => c.incoming

/-- The slot of the vertex on whose side an edge lies. -/
def EdgeCell.slot (c : EdgeCell) : Side → Nat
  | .outgoing => c.source
  | .incoming => c.target

/-- The id that an edge gives for the vertex on whose side it lies. -/
def Edge.endId (e : Edge) : Side → String
  | .outgoing => e.source
  | .incoming => e.target

namespace Store

/-- The vertices with the lists at both ends of an edge changed. -/
def relist (vertices : Slots VertexCell) (e : EdgeCell) (f : List Nat → List Nat) :
    Slots VertexCell :=
  (vertices.modify e.source fun c => { c with outgoing := f c.outgoing }).modify e.target fun c =>
    { c with incoming := f c.incoming }

theorem sound_relist {vertices : Slots VertexCell} (h : vertices.Sound) (e : EdgeCell)
    (f : List Nat → List Nat) : (relist vertices e f).Sound :=
  (h.modify _ _).modify _ _

theorem get?_relist (vertices : Slots VertexCell) (e : EdgeCell) (f : List Nat → List Nat)
    (k : Nat) :
    (relist vertices e f).get? k = (vertices.get? k).map fun c =>
      ⟨c.vertex, if e.source = k then f c.outgoing else c.outgoing,
        if e.target = k then f c.incoming else c.incoming⟩ := by
  unfold relist
  rw [Slots.get?_modify, Slots.get?_modify]
  cases vertices.get? k with
  | none => simp
  | some c => by_cases hs : e.source = k <;> by_cases ht : e.target = k <;> simp [hs, ht]

theorem vertex_relist (vertices : Slots VertexCell) (e : EdgeCell) (f : List Nat → List Nat)
    (k : Nat) :
    ((relist vertices e f).get? k).map (·.vertex) = (vertices.get? k).map (·.vertex) := by
  rw [get?_relist]
  cases vertices.get? k <;> rfl

theorem edges_relist {vertices : Slots VertexCell} {e : EdgeCell} {f : List Nat → List Nat}
    {k : Nat} {c' : VertexCell} (h : (relist vertices e f).get? k = some c') (side : Side) :
    ∃ c, vertices.get? k = some c ∧
      c'.edges side = if e.slot side = k then f (c.edges side) else c.edges side := by
  rw [get?_relist] at h
  obtain ⟨c, hc, rfl⟩ := Option.map_eq_some_iff.1 h
  refine ⟨c, hc, ?_⟩
  cases side <;> rfl

/-! ## The invariant -/

/-- All properties but those that are null are defined. -/
def Defines (s : Store) (properties : List (String × Value)) : Prop :=
  ∀ p ∈ properties, p.2.isNull = false → s.isDefined p.1 = true

/-- The parts of a store are in step with one another. -/
structure Consistent (s : Store) : Prop where
  vertices : s.vertices.Sound
  edges : s.edges.Sound
  vertexSlots : s.vertexSlots.Locates fun i id => ∃ v, s.vertexAt? i = some v ∧ v.id = id
  edgeSlots : s.edgeSlots.Locates fun i id => ∃ e, s.edgeAt? i = some e ∧ e.id = id
  labelSlots : s.labelSlots.Exact fun i l => ∃ v, s.vertexAt? i = some v ∧ l ∈ v.labels
  typeSlots : s.typeSlots.Exact fun i t => ∃ e, s.edgeAt? i = some e ∧ e.type = t
  ends : ∀ i c side, s.edges.get? i = some c →
    ∃ v, s.vertexAt? (c.slot side) = some v ∧ v.id = c.edge.endId side
  attached : ∀ i c side, s.vertices.get? i = some c → (c.edges side).Nodup ∧
    ∀ j, j ∈ c.edges side ↔ ∃ e, s.edges.get? j = some e ∧ e.slot side = i
  vertexParts : ∀ i v, s.vertexAt? i = some v →
    v.labels.Pairwise (· < ·) ∧ Entries.Sorted v.properties ∧ s.Defines v.properties
  edgeParts : ∀ i e, s.edgeAt? i = some e →
    Entries.Sorted e.properties ∧ s.Defines e.properties
  links : s.links = none

theorem vertexAt?_eq_some {s : Store} {i : Nat} {v : Vertex} :
    s.vertexAt? i = some v ↔ ∃ c, s.vertices.get? i = some c ∧ c.vertex = v := by
  simp [vertexAt?]

theorem edgeAt?_eq_some {s : Store} {i : Nat} {e : Edge} :
    s.edgeAt? i = some e ↔ ∃ c, s.edges.get? i = some c ∧ c.edge = e := by
  simp [edgeAt?]

theorem consistent_empty : empty.Consistent := by
  have hv : ∀ i, empty.vertices.get? i = none := fun i => by
    simp [empty, default, Slots.empty, Slots.get?]
  have he : ∀ i, empty.edges.get? i = none := fun i => by
    simp [empty, default, Slots.empty, Slots.get?]
  exact {
    vertices := Slots.sound_empty
    edges := Slots.sound_empty
    vertexSlots := Entries.locates_nil.congr (by simp [vertexAt?, hv])
    edgeSlots := Entries.locates_nil.congr (by simp [edgeAt?, he])
    labelSlots := SlotIndex.exact_nil.congr (by simp [vertexAt?, hv])
    typeSlots := SlotIndex.exact_nil.congr (by simp [edgeAt?, he])
    ends := by simp [he]
    attached := by simp [hv]
    vertexParts := by simp [vertexAt?, hv]
    edgeParts := by simp [edgeAt?, he]
    links := rfl }

/-! ## Definitions -/

theorem isDefined_define (s : Store) (name other : String) (v : Value) :
    (s.define name v).isDefined other = (s.isDefined other || (other == name && !v.isNull)) := by
  unfold define
  split
  · next h =>
    by_cases ho : other = name
    · subst ho
      cases hv : v.isNull
      · rw [hv, Bool.false_or] at h; simp [h]
      · simp
    · simp [ho]
  · next h =>
    simp only [Bool.or_eq_true, not_or, Bool.not_eq_true] at h
    simp only [isDefined, Entries.has_insert, h.1]
    simp [Bool.or_comm]

theorem define_eq (s : Store) (name : String) (v : Value) :
    ∃ d, s.define name v = { s with definitions := d } := by
  unfold define
  split
  · exact ⟨s.definitions, rfl⟩
  · exact ⟨_, rfl⟩

theorem defineAll_eq (s : Store) (properties : List (String × Value)) :
    ∃ d, s.defineAll properties = { s with definitions := d } := by
  induction properties generalizing s with
  | nil => exact ⟨s.definitions, rfl⟩
  | cons p rest ih =>
    obtain ⟨d, hd⟩ := define_eq s p.1 p.2
    obtain ⟨d', hd'⟩ := ih { s with definitions := d }
    refine ⟨d', ?_⟩
    change (s.define p.1 p.2).defineAll rest = _
    rw [hd, hd']

theorem isDefined_defineAll (s : Store) (properties : List (String × Value)) (name : String) :
    (s.defineAll properties).isDefined name =
      (s.isDefined name || properties.any fun p => name == p.1 && !p.2.isNull) := by
  induction properties generalizing s with
  | nil => simp [defineAll]
  | cons p rest ih =>
    change ((s.define p.1 p.2).defineAll rest).isDefined name = _
    rw [ih, isDefined_define, List.any_cons, Bool.or_assoc]

theorem defines_defineAll (s : Store) (properties : List (String × Value)) :
    (s.defineAll properties).Defines properties := by
  intro p hp hv
  rw [isDefined_defineAll, Bool.or_eq_true, List.any_eq_true]
  exact Or.inr ⟨p, hp, by simp [hv]⟩

/-- The property that a change sets. -/
def setting? : Change → Option (String × Value)
  | .setProperty name v => some (name, v)
  | _ => none

theorem defineChanged_eq (s : Store) (changes : List Change) :
    s.defineChanged changes = s.defineAll (changes.filterMap setting?) := by
  induction changes generalizing s with
  | nil => rfl
  | cons c rest ih =>
    cases c with
    | setProperty name v => exact ih (s.define name v)
    | removeProperty name => exact ih s
    | addLabel l => exact ih s
    | removeLabel l => exact ih s

theorem Defines.mono {s s' : Store} {properties : List (String × Value)}
    (h : s.Defines properties) (hs : ∀ name, s.isDefined name = true → s'.isDefined name = true) :
    s'.Defines properties :=
  fun p hp hv => hs p.1 (h p hp hv)

/-- More definitions do no harm. -/
theorem Consistent.defineAll {s : Store} (h : s.Consistent) (properties : List (String × Value)) :
    (s.defineAll properties).Consistent := by
  have hmono : ∀ name, s.isDefined name = true →
      (s.defineAll properties).isDefined name = true := by
    intro name hname
    rw [isDefined_defineAll, hname, Bool.true_or]
  obtain ⟨d, hd⟩ := defineAll_eq s properties
  rw [hd] at hmono ⊢
  exact {
    vertices := h.vertices
    edges := h.edges
    vertexSlots := h.vertexSlots
    edgeSlots := h.edgeSlots
    labelSlots := h.labelSlots
    typeSlots := h.typeSlots
    ends := h.ends
    attached := h.attached
    vertexParts := fun i v hv =>
      let ⟨hl, hp, hd⟩ := h.vertexParts i v hv
      ⟨hl, hp, hd.mono hmono⟩
    edgeParts := fun i e he =>
      let ⟨hp, hd⟩ := h.edgeParts i e he
      ⟨hp, hd.mono hmono⟩
    links := h.links }

end Store

end PropertyGraph
