import Mathlib.Data.List.Basic
import PropertyGraph.Pattern.Search

/-!
# Solutions of a pattern

What the matches of a pattern are, said without a word about how they are found.  A solution gives
every node a vertex and every relationship an edge or a walk:

    NodeFits           the vertex of the row, or a visible one, that meets the demands of the node
    RelationshipFits   the edge of the row, or a visible one, or a walk without repetition, that
                       meets the demands of the relationship and joins the vertices at its ends
    Solution           all of them at once, no edge being used twice

Below stand the laws of partial matches: what an assignment changes, and what it leaves alone.
-/

namespace PropertyGraph

/-! ## Joined vertices -/

/-- Does the edge lead from the first vertex to the second along a relationship of the heading? -/
def Edge.Joins (e : Edge) (heading : Heading) (first second : String) : Prop :=
  match heading with
  | .outgoing => e.source = first ∧ e.target = second
  | .incoming => e.source = second ∧ e.target = first
  | .undirected => (e.source = first ∧ e.target = second) ∨ (e.source = second ∧ e.target = first)

/-- Each hop leads on from the vertex before it. -/
def hopsAlong (step : Vertex → Edge → Vertex → Prop) : Vertex → List (Edge × Vertex) → Prop
  | _, [] => True
  | u, (e, v) :: rest => step u e v ∧ hopsAlong step v rest

/-- Each edge of the path joins the vertices beside it. -/
def Path.Along (heading : Heading) (p : Path) : Prop :=
  hopsAlong (fun u e v => e.Joins heading u.id v.id) p.start p.hops

/-- No vertex and no edge comes twice. -/
def Path.Simple (p : Path) : Prop :=
  (p.vertices.map (·.id)).Nodup ∧ (p.edges.map (·.id)).Nodup

namespace Search

/-! ## What fits a constraint -/

/-- The vertex fits the node: it is the one that the row binds, or one that the reader sees. -/
def NodeFits (q : Search) (σ : Store) (row : Row) (n : NodeConstraint Value) (v : Vertex) : Prop :=
  n.admits q.ctx.config v = true ∧
    match n.name.bind row.lookup? with
    | some bound => bound = .node v
    | none => σ.getVertex? q.ctx.reader v.id = some v

/-- The edge fits the relationship. -/
def EdgeFits (q : Search) (σ : Store) (row : Row) (r : RelationshipConstraint Value) (e : Edge) :
    Prop :=
  r.admits q.ctx.config e = true ∧
    match r.name.bind row.lookup? with
    | some bound => bound = .relationship e
    | none => σ.getEdge? q.ctx.reader e.id = some e

/-- The walk fits the relationship: it passes through what the reader sees, and nothing twice. -/
structure WalkFits (q : Search) (σ : Store) (r : RelationshipConstraint Value) (p : Path) :
    Prop where
  vertices : ∀ v ∈ p.vertices, σ.getVertex? q.ctx.reader v.id = some v
  edges : ∀ e ∈ p.edges,
    σ.getEdge? q.ctx.reader e.id = some e ∧ r.admits q.ctx.config e = true
  along : p.Along r.heading
  simple : p.Simple

/-- The assignment fits the relationship between vertices of these ids. -/
inductive RelationshipFits (q : Search) (σ : Store) (row : Row) (r : RelationshipConstraint Value) :
    RelationshipBinding → String → String → Prop
  | edge (e : Edge) (first second : String) (hr : r.range = none) (he : q.EdgeFits σ row r e)
      (hj : e.Joins r.heading first second) :
      RelationshipFits q σ row r (.edge e first second) first second
  | walk (p : Path) (range : HopRange) (hr : r.range = some range) (hmin : range.min ≤ p.length)
      (hmax : p.length ≤ range.max.getD q.ctx.config.maxDepth) (hp : q.WalkFits σ r p) :
      RelationshipFits q σ row r (.walk p) p.start.id p.finish.id

/-! ## Solutions -/

/-- An assignment for every node and every relationship of the pattern. -/
structure Solution (q : Search) (σ : Store) (row : Row) (m : Match) : Prop where
  nodeCount : m.nodes.length = q.pattern.nodes.length
  relationshipCount : m.relationships.length = q.pattern.relationships.length
  node : ∀ (i : Nat) n, q.pattern.nodes[i]? = some n →
    ∃ v, m.node? i = some (.vertex v) ∧ q.NodeFits σ row n v
  relationship : ∀ (i : Nat) r, q.pattern.relationships[i]? = some r → ∃ b v w,
    m.relationship? i = some b ∧ m.vertex? r.first = some v ∧ m.vertex? r.second = some w ∧
      q.RelationshipFits σ row r b v.id w.id
  distinct : ∀ i j b c id, m.relationship? i = some b → m.relationship? j = some c →
    b.uses id = true → c.uses id = true → i = j

end Search

/-! ## Partial matches -/

namespace Match

/-- The second match assigns all that the first one does, and the same. -/
def Extends (m m' : Match) : Prop :=
  (∀ i b, m.node? i = some b → m'.node? i = some b) ∧
    ∀ i b, m.relationship? i = some b → m'.relationship? i = some b

theorem Extends.refl (m : Match) : m.Extends m := ⟨fun _ _ h => h, fun _ _ h => h⟩

theorem Extends.trans {m m' m'' : Match} (h : m.Extends m') (h' : m'.Extends m'') :
    m.Extends m'' :=
  ⟨fun i b hb => h'.1 i b (h.1 i b hb), fun i b hb => h'.2 i b (h.2 i b hb)⟩

theorem vertex?_eq_some {m : Match} {i : Nat} {v : Vertex} :
    m.vertex? i = some v ↔ m.node? i = some (.vertex v) := by
  unfold vertex?
  split
  · next h => simp [h]
  · next h =>
    constructor
    · intro hv
      cases hv
    · intro hv
      exact absurd hv (h v)

theorem Extends.vertex {m m' : Match} (h : m.Extends m') {i : Nat} {v : Vertex}
    (hv : m.vertex? i = some v) : m'.vertex? i = some v :=
  vertex?_eq_some.2 (h.1 i _ (vertex?_eq_some.1 hv))

theorem isNullNode_eq_true {m : Match} {i : Nat} :
    m.isNullNode i = true ↔ m.node? i = some .null := by
  unfold isNullNode
  split
  · next h => simp [h]
  · next h =>
    constructor
    · intro hn
      cases hn
    · intro hn
      exact absurd hn h

theorem lt_of_node? {m : Match} {i : Nat} {b : NodeBinding} (h : m.node? i = some b) :
    i < m.nodes.length :=
  (List.getElem?_eq_some_iff.1 (Option.join_eq_some_iff.1 h)).1

theorem lt_of_relationship? {m : Match} {i : Nat} {b : RelationshipBinding}
    (h : m.relationship? i = some b) : i < m.relationships.length :=
  (List.getElem?_eq_some_iff.1 (Option.join_eq_some_iff.1 h)).1

theorem eq_of_join_getElem? {α : Type} {as bs : List (Option α)} (hlen : as.length = bs.length)
    (h : ∀ i : Nat, as[i]?.join = bs[i]?.join) : as = bs := by
  refine List.ext_getElem? fun i => ?_
  rcases Nat.lt_or_ge i as.length with hlt | hge
  · have := h i
    rw [List.getElem?_eq_getElem hlt, List.getElem?_eq_getElem (hlen ▸ hlt)] at this ⊢
    rw [Option.join_some, Option.join_some] at this
    rw [this]
  · rw [List.getElem?_eq_none hge, List.getElem?_eq_none (hlen ▸ hge)]

/-- Matches of the same constraints that assign the same are the same. -/
theorem eq_of_assignments {m m' : Match} (hn : m.nodes.length = m'.nodes.length)
    (hr : m.relationships.length = m'.relationships.length) (hnode : ∀ i, m.node? i = m'.node? i)
    (hrel : ∀ i, m.relationship? i = m'.relationship? i) : m = m' := by
  have hnodes := eq_of_join_getElem? hn hnode
  have hrels := eq_of_join_getElem? hr hrel
  cases m
  cases m'
  cases hnodes
  cases hrels
  rfl

/-! ### Assigning -/

section Assigning

variable (m : Match) (i j : Nat)

theorem node?_setNode (b : NodeBinding) (hi : i < m.nodes.length) :
    (m.setNode i b).node? j = if i = j then some b else m.node? j := by
  unfold node? setNode
  rw [List.getElem?_set, if_pos hi]
  split <;> rfl

theorem relationship?_setRelationship (b : RelationshipBinding)
    (hi : i < m.relationships.length) :
    (m.setRelationship i b).relationship? j = if i = j then some b else m.relationship? j := by
  unfold relationship? setRelationship
  rw [List.getElem?_set, if_pos hi]
  split <;> rfl

theorem vertex?_setNode (b : NodeBinding) (hi : i < m.nodes.length) :
    (m.setNode i b).vertex? j =
      if i = j then (match b with | .vertex v => some v | .null => none) else m.vertex? j := by
  simp only [vertex?, node?_setNode m i j b hi]
  by_cases h : i = j
  · cases b <;> simp [h]
  · simp [h]

end Assigning

theorem extends_setNode {m : Match} {i : Nat} (hi : i < m.nodes.length) (ho : m.node? i = none)
    (b : NodeBinding) : m.Extends (m.setNode i b) := by
  refine ⟨fun j c hc => ?_, fun j c hc => hc⟩
  rw [node?_setNode m i j b hi]
  split
  · next h =>
    rw [← h, ho] at hc
    cases hc
  · exact hc

theorem extends_setRelationship {m : Match} {i : Nat} (hi : i < m.relationships.length)
    (ho : m.relationship? i = none) (b : RelationshipBinding) :
    m.Extends (m.setRelationship i b) := by
  refine ⟨fun j c hc => hc, fun j c hc => ?_⟩
  rw [relationship?_setRelationship m i j b hi]
  split
  · next h =>
    rw [← h, ho] at hc
    cases hc
  · exact hc

/-- The assignment of a relationship that was open can be taken back. -/
theorem eq_of_setRelationship {m m' : Match} {i : Nat} (ho : m.relationship? i = none)
    (ho' : m'.relationship? i = none) (hi : i < m.relationships.length)
    (hi' : i < m'.relationships.length) {b c : RelationshipBinding}
    (h : m.setRelationship i b = m'.setRelationship i c) : m = m' := by
  have hrestore : ∀ (n : Match) (d : RelationshipBinding), n.relationship? i = none →
      i < n.relationships.length → (n.setRelationship i d).relationships.set i none =
        n.relationships := by
    intro n d hn hlt
    unfold setRelationship
    rw [List.set_set]
    unfold relationship? at hn
    rw [List.getElem?_eq_getElem hlt, Option.join_some] at hn
    rw [← hn]
    exact List.set_getElem_self hlt
  have hnodes : (m.setRelationship i b).nodes = (m'.setRelationship i c).nodes := by rw [h]
  have hrels : m.relationships = m'.relationships := by
    rw [← hrestore m b ho hi, ← hrestore m' c ho' hi', h]
  cases m
  cases m'
  cases hnodes
  cases hrels
  rfl

/-- A match that assigns the same and more extends the one with the assignment made. -/
theorem Extends.setNode {m m' : Match} (h : m.Extends m') {i : Nat} (hi : i < m.nodes.length)
    {b : NodeBinding} (hb : m'.node? i = some b) : (m.setNode i b).Extends m' := by
  refine ⟨fun j c hc => ?_, fun j c hc => h.2 j c hc⟩
  rw [node?_setNode m i j b hi] at hc
  split at hc
  · next hij => cases hc; rw [← hij]; exact hb
  · exact h.1 j c hc

theorem Extends.setRelationship {m m' : Match} (h : m.Extends m') {i : Nat}
    (hi : i < m.relationships.length) {b : RelationshipBinding} (hb : m'.relationship? i = some b) :
    (m.setRelationship i b).Extends m' := by
  refine ⟨fun j c hc => h.1 j c hc, fun j c hc => ?_⟩
  rw [relationship?_setRelationship m i j b hi] at hc
  split at hc
  · next hij => cases hc; rw [← hij]; exact hb
  · exact h.2 j c hc

/-! ### Open constraints -/

theorem countP_set_some {α : Type} {l : List (Option α)} {i : Nat} (hi : i < l.length)
    (ho : l[i]?.join = none) (a : α) :
    (l.set i (some a)).countP Option.isNone + 1 = l.countP Option.isNone := by
  have hnone : l[i] = none := by
    rw [List.getElem?_eq_getElem hi] at ho
    exact ho
  have hpos : 0 < l.countP Option.isNone :=
    List.countP_pos_iff.2 ⟨l[i], List.getElem_mem hi, by rw [hnone]; rfl⟩
  rw [List.countP_set hi, hnone]
  simp only [Option.isNone_none, if_true, Option.isNone_some, Bool.false_eq_true, if_false]
  omega

theorem openCount_setNode {m : Match} {i : Nat} (hi : i < m.nodes.length) (ho : m.node? i = none)
    (b : NodeBinding) : (m.setNode i b).openCount + 1 = m.openCount := by
  have := countP_set_some hi ho b
  unfold openCount setNode
  simp only
  omega

theorem openCount_setRelationship {m : Match} {i : Nat} (hi : i < m.relationships.length)
    (ho : m.relationship? i = none) (b : RelationshipBinding) :
    (m.setRelationship i b).openCount + 1 = m.openCount := by
  have := countP_set_some hi ho b
  unfold openCount setRelationship
  simp only
  omega

theorem isSome_of_countP_eq_zero {α : Type} {l : List (Option α)}
    (h : l.countP Option.isNone = 0) {i : Nat} (hi : i < l.length) : ∃ a, l[i]?.join = some a := by
  have hi' := List.countP_eq_zero.1 h l[i] (List.getElem_mem hi)
  rw [List.getElem?_eq_getElem hi]
  cases hl : l[i] with
  | none => rw [hl] at hi'; exact absurd rfl hi'
  | some a => exact ⟨a, rfl⟩

/-- Where nothing is open, everything is assigned. -/
theorem assigned_of_openCount {m : Match} (h : m.openCount = 0) :
    (∀ i < m.nodes.length, ∃ b, m.node? i = some b) ∧
      ∀ i < m.relationships.length, ∃ b, m.relationship? i = some b := by
  unfold openCount at h
  exact ⟨fun i hi => isSome_of_countP_eq_zero (by omega) hi,
    fun i hi => isSome_of_countP_eq_zero (by omega) hi⟩

theorem exists_open {α : Type} {l : List (Option α)} (h : 0 < l.countP Option.isNone) :
    ∃ i < l.length, l[i]?.join = none := by
  obtain ⟨o, ho, hnone⟩ := List.countP_pos_iff.1 h
  obtain ⟨i, hi, rfl⟩ := List.getElem_of_mem ho
  refine ⟨i, hi, ?_⟩
  rw [List.getElem?_eq_getElem hi]
  cases hl : l[i] with
  | none => rfl
  | some a => rw [hl] at hnone; cases hnone

/-! ### Unmatched constraints -/

theorem hasNull_eq_false {m : Match} : m.hasNull = false ↔
    (∀ i, m.node? i ≠ some .null) ∧ ∀ i, m.relationship? i ≠ some .null := by
  have hmem : ∀ {α : Type} (l : List (Option α)) (a : α), (∃ i : Nat, l[i]?.join = some a) ↔
      some a ∈ l := by
    intro α l a
    rw [List.mem_iff_getElem?]
    exact exists_congr fun i => Option.join_eq_some_iff
  constructor
  · intro h
    unfold hasNull at h
    simp only [Bool.or_eq_false_iff, List.any_eq_false] at h
    constructor
    · intro i hi
      exact h.1 _ ((hmem m.nodes .null).1 ⟨i, hi⟩) rfl
    · intro i hi
      exact h.2 _ ((hmem m.relationships .null).1 ⟨i, hi⟩) rfl
  · rintro ⟨hn, hr⟩
    unfold hasNull
    simp only [Bool.or_eq_false_iff, List.any_eq_false]
    constructor
    · intro b hb hnull
      split at hnull
      · obtain ⟨i, hi⟩ := (hmem m.nodes .null).2 hb
        exact hn i hi
      · cases hnull
    · intro b hb hnull
      split at hnull
      · obtain ⟨i, hi⟩ := (hmem m.relationships .null).2 hb
        exact hr i hi
      · cases hnull

theorem uses_eq_true {m : Match} {id : String} :
    m.uses id = true ↔ ∃ i b, m.relationship? i = some b ∧ b.uses id = true := by
  unfold uses relationship?
  rw [List.any_eq_true]
  constructor
  · rintro ⟨o, ho, hid⟩
    obtain ⟨b, rfl, hb⟩ := (Option.any_eq_true _ _).1 hid
    obtain ⟨i, hi⟩ := List.mem_iff_getElem?.1 ho
    exact ⟨i, b, by rw [hi]; rfl, hb⟩
  · rintro ⟨i, b, hi, hb⟩
    exact ⟨some b, List.mem_iff_getElem?.2 ⟨i, Option.join_eq_some_iff.1 hi⟩, by simpa using hb⟩

end Match

end PropertyGraph
