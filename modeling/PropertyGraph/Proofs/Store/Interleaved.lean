import PropertyGraph.Proofs.Store.Growth

/-!
# New vertices beside new edges

A vertex that is added and an edge between vertices that are there already do not get in each
other's way, so that the two can be added in either order.  The definitions of property names are
left aside, as the first value of a name decides on its definition.

    Store.bare                 the elements of a store, without its definitions
    foldl_putVertex_putEdge    new vertices and an edge in either order
    grows_of_bare              a store with more vertices holds all that the other one does
    vertex?_of_bare            the vertices of a store to which some were added
-/

namespace PropertyGraph

/-! ## Slots -/

namespace Slots

variable {α : Type}

/-- A change of a slot that is taken, and a new element elsewhere. -/
theorem modify_insert {s : Slots α} (hs : s.Sound) {i : Nat} (hi : (s.get? i).isSome = true) (a : α)
    (f : α → α) : (s.insert a).modify i f = (s.modify i f).insert a := by
  have hne : i ≠ s.next := by
    rintro rfl
    rw [get?_next hs] at hi
    cases hi
  unfold insert modify
  unfold next at hne
  cases hfree : s.free with
  | nil =>
    rw [hfree, List.headD_nil] at hne
    simp only [mk.injEq, and_true]
    refine Array.ext_getElem? fun j => ?_
    rw [Array.getElem?_modify, Array.getElem?_push, Array.getElem?_push, Array.getElem?_modify,
      Array.size_modify]
    grind
  | cons k free =>
    rw [hfree, List.headD_cons] at hne
    simp only [mk.injEq, and_true]
    refine Array.ext_getElem? fun j => ?_
    rw [Array.getElem?_modify, Array.getElem?_setIfInBounds, Array.getElem?_setIfInBounds,
      Array.getElem?_modify, Array.size_modify]
    grind

theorem next_modify (s : Slots α) (i : Nat) (f : α → α) : (s.modify i f).next = s.next := by
  unfold next
  rw [size_modify]
  rfl

theorem isSome_get?_modify (s : Slots α) (i j : Nat) (f : α → α) :
    ((s.modify i f).get? j).isSome = (s.get? j).isSome := by
  rw [get?_modify]
  split
  · exact Option.isSome_map
  · rfl

end Slots

namespace Store

variable {s t : Store}

/-! ## Bare stores -/

/-- The store without its definitions. -/
def bare (s : Store) : Store :=
  { s with definitions := [] }

theorem bare_defineAll (s : Store) (properties : List (String × Value)) :
    (s.defineAll properties).bare = s.bare := by
  obtain ⟨d, hd⟩ := defineAll_eq s properties
  rw [hd]
  rfl

theorem bare_putVertex (s : Store) (v : Vertex) : (s.putVertex v).bare = s.bare.putVertex v := rfl

theorem bare_putEdge (s : Store) (c : EdgeCell) : (s.putEdge c).bare = s.bare.putEdge c := rfl

/-! ## Some new vertices -/

theorem get?_foldl_putVertex (vs : List Vertex) (hs : s.vertices.Sound) {i : Nat} {c : VertexCell}
    (hc : s.vertices.get? i = some c) : (vs.foldl putVertex s).vertices.get? i = some c := by
  induction vs generalizing s with
  | nil => exact hc
  | cons v rest ih => exact ih (hs.insert _) (get?_putVertex hs hc v)

theorem edges_foldl_putVertex (vs : List Vertex) (s : Store) :
    (vs.foldl putVertex s).edges = s.edges ∧ (vs.foldl putVertex s).edgeSlots = s.edgeSlots := by
  induction vs generalizing s with
  | nil => exact ⟨rfl, rfl⟩
  | cons v rest ih => exact ih (s.putVertex v)

theorem exists_vertexAt?_foldl (vs : List Vertex) (hs : s.vertices.Sound) (w : Vertex) :
    (∃ i, (vs.foldl putVertex s).vertexAt? i = some w) ↔
      w ∈ vs ∨ ∃ i, s.vertexAt? i = some w := by
  induction vs generalizing s with
  | nil => exact (or_iff_right List.not_mem_nil).symm
  | cons v rest ih =>
    rw [List.foldl_cons, ih (hs.insert _), List.mem_cons, or_comm (a := w = v), or_assoc]
    refine or_congr_right ?_
    have hnext : s.vertexAt? s.vertices.next = none := by
      rw [vertexAt?, Slots.get?_next hs]
      rfl
    simp only [vertexAt?_putVertex hs]
    constructor
    · rintro ⟨i, hi⟩
      split at hi
      · exact Or.inl (Option.some.inj hi).symm
      · exact Or.inr ⟨i, hi⟩
    · rintro (rfl | ⟨i, hi⟩)
      · exact ⟨s.vertices.next, if_pos rfl⟩
      · refine ⟨i, ?_⟩
        rw [if_neg (by rintro rfl; rw [hnext] at hi; cases hi), hi]

/-! ## Either order -/

theorem relist_insert {vertices : Slots VertexCell} (h : vertices.Sound) {c : EdgeCell}
    (hsource : (vertices.get? c.source).isSome = true)
    (htarget : (vertices.get? c.target).isSome = true) (v : VertexCell)
    (f : List Nat → List Nat) :
    relist (vertices.insert v) c f = (relist vertices c f).insert v := by
  unfold relist
  rw [Slots.modify_insert h hsource, Slots.modify_insert (h.modify _ _)]
  rw [Slots.isSome_get?_modify]
  exact htarget

theorem putVertex_putEdge (h : s.vertices.Sound) {c : EdgeCell}
    (hsource : s.hasVertexAt c.source = true) (htarget : s.hasVertexAt c.target = true)
    (v : Vertex) : (s.putVertex v).putEdge c = (s.putEdge c).putVertex v := by
  have hnext : (relist s.vertices c (s.edges.next :: ·)).next = s.vertices.next := by
    unfold relist
    rw [Slots.next_modify, Slots.next_modify]
  unfold putVertex putEdge
  simp only [hnext]
  rw [relist_insert h hsource htarget]

/-- An edge between vertices that are there, before or after others are added. -/
theorem foldl_putVertex_putEdge (vs : List Vertex) (h : s.vertices.Sound) {c : EdgeCell}
    (hsource : s.hasVertexAt c.source = true) (htarget : s.hasVertexAt c.target = true) :
    (vs.foldl putVertex s).putEdge c = vs.foldl putVertex (s.putEdge c) := by
  induction vs generalizing s with
  | nil => rfl
  | cons v rest ih =>
    have hkept : ∀ {i}, s.hasVertexAt i = true → (s.putVertex v).hasVertexAt i = true := by
      intro i hi
      obtain ⟨d, hd⟩ := Option.isSome_iff_exists.1 hi
      exact Option.isSome_iff_exists.2 ⟨d, get?_putVertex h hd v⟩
    rw [List.foldl_cons, List.foldl_cons, ih (h.insert _) (hkept hsource) (hkept htarget),
      putVertex_putEdge h hsource htarget]

/-! ## Stores with more vertices -/

section More

variable {vs : List Vertex} (ht : t.Consistent) (hbare : s.bare = vs.foldl putVertex t.bare)

include hbare

omit ht in
theorem edges_of_bare : s.edges = t.edges ∧ s.edgeSlots = t.edgeSlots := by
  have h := edges_foldl_putVertex vs t.bare
  rw [← hbare] at h
  exact h

include ht

/-- A store to which vertices were added holds all that was there. -/
theorem grows_of_bare (hdefined : ∀ name, t.isDefined name = true → s.isDefined name = true) :
    t.Grows s where
  defined := hdefined
  vertices i c hc := by
    have hs := get?_foldl_putVertex vs (s := t.bare) ht.vertices hc
    rw [← hbare] at hs
    exact ⟨c, hs, rfl, ht.filter_hasEdgeAt hc⟩
  edges i c hc := by
    rw [(edges_of_bare hbare).1]
    exact hc

/-- The vertices of the store are the ones that were there and those that were added. -/
theorem vertex?_of_bare (hs : s.Consistent) (id : String) (w : Vertex) :
    s.vertex? id = some w ↔ (w.id = id ∧ w ∈ vs) ∨ t.vertex? id = some w := by
  have hat := exists_vertexAt?_foldl vs (s := t.bare) ht.vertices w
  rw [← hbare] at hat
  rw [vertex?_eq_some hs, vertex?_eq_some ht, ← and_or_left]
  exact and_congr_right fun _ => hat

end More

end Store

end PropertyGraph
