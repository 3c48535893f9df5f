import Mathlib.Data.List.Nodup
import PropertyGraph.Pattern.Search
import PropertyGraph.Proofs.Store.Consistent

/-!
# What a reader gets from a consistent store

Every way of reading is told by the elements themselves: an id finds the one element that has it,
the edges around a vertex are those that have it as an end, and a selection finds what it admits.

    mem_incidentEdges       the edges around a vertex
    selectVertices_pending  the ids that a selection of vertices finds
    admits_of_hopeless      a demand that the search gives up on is met by no stored element
-/

namespace PropertyGraph

theorem nodup_eraseDups {α : Type} [BEq α] [LawfulBEq α] (items : List α) :
    items.eraseDups.Nodup := by
  cases items with
  | nil => exact List.nodup_nil
  | cons a rest =>
    rw [List.eraseDups_cons, List.nodup_cons, List.mem_eraseDups]
    refine ⟨by simp, nodup_eraseDups _⟩
termination_by items.length
decreasing_by
  have := List.length_filter_le (fun b => !b == a) rest
  rw [List.length_cons]
  omega

/-- The edge leads away from the vertex when it is followed in a direction. -/
def Edge.LeadsFrom (e : Edge) (direction : Heading) (id : String) : Prop :=
  match direction with
  | .outgoing => e.source = id
  | .incoming => e.target = id
  | .undirected => e.source = id ∨ e.target = id

theorem Entries.Locates.bind_eq_some {α : Type} {index : Entries Nat} {at? : Nat → Option α}
    {idOf : α → String} (h : index.Locates fun i id => ∃ a, at? i = some a ∧ idOf a = id)
    {id : String} {a : α} :
    (Entries.get? id index).bind at? = some a ↔ idOf a = id ∧ ∃ i, at? i = some a := by
  rw [Option.bind_eq_some_iff]
  constructor
  · rintro ⟨i, hi, ha⟩
    obtain ⟨b, hb, hid⟩ := (h.2 id i).1 hi
    rw [ha] at hb
    cases hb
    exact ⟨hid, i, ha⟩
  · rintro ⟨hid, i, ha⟩
    exact ⟨i, (h.2 id i).2 ⟨a, ha, hid⟩, ha⟩

namespace Store

variable {s : Store} {reader : Authorizations}

/-! ## Elements -/

theorem vertex?_eq_some (h : s.Consistent) {id : String} {v : Vertex} :
    s.vertex? id = some v ↔ v.id = id ∧ ∃ i, s.vertexAt? i = some v :=
  h.vertexSlots.bind_eq_some

theorem edge?_eq_some (h : s.Consistent) {id : String} {e : Edge} :
    s.edge? id = some e ↔ e.id = id ∧ ∃ i, s.edgeAt? i = some e :=
  h.edgeSlots.bind_eq_some

theorem getVertex?_eq_some (h : s.Consistent) {id : String} {v : Vertex} :
    s.getVertex? reader id = some v ↔
      v.id = id ∧ (∃ i, s.vertexAt? i = some v) ∧ reader.canRead v.visibility = true := by
  unfold getVertex?
  rw [Option.filter_eq_some_iff, vertex?_eq_some h, and_assoc]

theorem getEdge?_eq_some (h : s.Consistent) {id : String} {e : Edge} :
    s.getEdge? reader id = some e ↔
      e.id = id ∧ (∃ i, s.edgeAt? i = some e) ∧ reader.canRead e.visibility = true := by
  unfold getEdge?
  rw [Option.filter_eq_some_iff, edge?_eq_some h, and_assoc]

theorem getVertex?_id (h : s.Consistent) {id : String} {v : Vertex}
    (hv : s.getVertex? reader id = some v) : v.id = id :=
  ((getVertex?_eq_some h).1 hv).1

theorem getEdge?_id (h : s.Consistent) {id : String} {e : Edge}
    (he : s.getEdge? reader id = some e) : e.id = id :=
  ((getEdge?_eq_some h).1 he).1

/-! ## Neighbourhoods -/

theorem Consistent.slot_eq_iff (h : s.Consistent) {i j : Nat} {v : Vertex} {c : EdgeCell}
    (hv : s.vertexAt? i = some v) (hc : s.edges.get? j = some c) (side : Side) :
    c.slot side = i ↔ c.edge.endId side = v.id := by
  obtain ⟨w, hw, hid⟩ := h.ends j c side hc
  constructor
  · rintro rfl
    rw [hv] at hw
    cases hw
    exact hid.symm
  · intro hend
    exact h.vertexSlots.unique ⟨w, hw, hid.trans hend⟩ ⟨v, hv, rfl⟩

theorem mem_incidentSlots (h : s.Consistent) {i : Nat} {cell : VertexCell}
    (hcell : s.vertices.get? i = some cell) (direction : Heading) (j : Nat) :
    j ∈ incidentSlots cell direction ↔
      ∃ e, s.edgeAt? j = some e ∧ e.LeadsFrom direction cell.vertex.id := by
  have hv : s.vertexAt? i = some cell.vertex := vertexAt?_eq_some.2 ⟨cell, hcell, rfl⟩
  have hside : ∀ side, j ∈ cell.edges side ↔
      ∃ e, s.edgeAt? j = some e ∧ e.endId side = cell.vertex.id := by
    intro side
    rw [(h.attached i cell side hcell).2 j]
    constructor
    · rintro ⟨c, hc, hslot⟩
      exact ⟨c.edge, edgeAt?_eq_some.2 ⟨c, hc, rfl⟩, (h.slot_eq_iff hv hc side).1 hslot⟩
    · rintro ⟨e, he, hend⟩
      obtain ⟨c, hc, rfl⟩ := edgeAt?_eq_some.1 he
      exact ⟨c, hc, (h.slot_eq_iff hv hc side).2 hend⟩
  cases direction with
  | outgoing => exact hside .outgoing
  | incoming => exact hside .incoming
  | undirected =>
    rw [show incidentSlots cell .undirected = cell.edges .outgoing ++ cell.edges .incoming from rfl,
      List.mem_append, hside, hside]
    constructor
    · rintro (⟨e, he, hend⟩ | ⟨e, he, hend⟩)
      · exact ⟨e, he, Or.inl hend⟩
      · exact ⟨e, he, Or.inr hend⟩
    · rintro ⟨e, he, hend | hend⟩
      · exact Or.inl ⟨e, he, hend⟩
      · exact Or.inr ⟨e, he, hend⟩

/-- An end of a stored edge is the id of a stored vertex. -/
theorem Consistent.exists_cell (h : s.Consistent) {j : Nat} {e : Edge} {direction : Heading}
    {id : String} (he : s.edgeAt? j = some e) (hid : e.LeadsFrom direction id) :
    ∃ cell, (s.vertexSlot? id).bind s.vertices.get? = some cell := by
  obtain ⟨c, hc, rfl⟩ := edgeAt?_eq_some.1 he
  obtain ⟨side, hside⟩ : ∃ side, c.edge.endId side = id := by
    cases direction with
    | outgoing => exact ⟨.outgoing, hid⟩
    | incoming => exact ⟨.incoming, hid⟩
    | undirected => exact hid.elim (fun h => ⟨.outgoing, h⟩) fun h => ⟨.incoming, h⟩
  obtain ⟨v, hv, hvid⟩ := h.ends j c side hc
  have hslot := (h.vertexSlots.2 id (c.slot side)).2 ⟨v, hv, hvid.trans hside⟩
  obtain ⟨cell, hcell, -⟩ := vertexAt?_eq_some.1 hv
  refine ⟨cell, ?_⟩
  rw [vertexSlot?, hslot]
  exact hcell

theorem mem_incidentIds (h : s.Consistent) {id : String} {direction : Heading}
    {types : List String} {other : String} :
    other ∈ s.incidentIds reader id direction types ↔ ∃ e, s.getEdge? reader other = some e ∧
      admitsType types e.type = true ∧ e.LeadsFrom direction id := by
  unfold incidentIds
  cases hcell : (s.vertexSlot? id).bind s.vertices.get? with
  | none =>
    simp only [List.not_mem_nil, false_iff]
    rintro ⟨e, he, -, hlead⟩
    obtain ⟨-, ⟨j, hj⟩, -⟩ := (getEdge?_eq_some h).1 he
    obtain ⟨cell, hc⟩ := h.exists_cell hj hlead
    rw [hcell] at hc
    cases hc
  | some cell =>
    obtain ⟨i, hi, hget⟩ := Option.bind_eq_some_iff.1 hcell
    obtain ⟨v, hv, hid⟩ := (h.vertexSlots.2 id i).1 hi
    obtain ⟨cell', hget', rfl⟩ := vertexAt?_eq_some.1 hv
    rw [hget] at hget'
    cases hget'
    subst hid
    simp only [List.mem_eraseDups, List.mem_map, List.mem_filter, List.mem_filterMap,
      Bool.and_eq_true]
    constructor
    · rintro ⟨e, ⟨⟨j, hj, he⟩, htype, hread⟩, rfl⟩
      obtain ⟨e', he', hlead⟩ := (mem_incidentSlots h hget direction j).1 hj
      rw [he] at he'
      cases he'
      exact ⟨e, (getEdge?_eq_some h).2 ⟨rfl, ⟨j, he⟩, hread⟩, htype, hlead⟩
    · rintro ⟨e, he, htype, hlead⟩
      obtain ⟨hid, ⟨j, hj⟩, hread⟩ := (getEdge?_eq_some h).1 he
      exact ⟨e, ⟨⟨j, (mem_incidentSlots h hget direction j).2 ⟨e, hj, hlead⟩, hj⟩, htype, hread⟩,
        hid⟩

/-- The edges around a vertex are the visible ones of the types that lead away from it. -/
theorem mem_incidentEdges (h : s.Consistent) {id : String} {direction : Heading}
    {types : List String} {e : Edge} :
    e ∈ s.incidentEdges reader id direction types ↔ s.getEdge? reader e.id = some e ∧
      admitsType types e.type = true ∧ e.LeadsFrom direction id := by
  unfold incidentEdges getEdges
  rw [List.mem_filterMap]
  constructor
  · rintro ⟨other, hmem, he⟩
    have hid := getEdge?_id h he
    subst hid
    obtain ⟨e', he', hrest⟩ := (mem_incidentIds h).1 hmem
    rw [he] at he'
    cases he'
    exact ⟨he, hrest⟩
  · rintro ⟨he, hrest⟩
    exact ⟨e.id, (mem_incidentIds h).2 ⟨e, he, hrest⟩, he⟩

theorem nodup_incidentIds (s : Store) {id : String} {direction : Heading} {types : List String} :
    (s.incidentIds reader id direction types).Nodup := by
  unfold incidentIds
  split
  · exact List.nodup_nil
  · exact nodup_eraseDups _

theorem nodup_incidentEdges (h : s.Consistent) (id : String) (direction : Heading)
    (types : List String) : (s.incidentEdges reader id direction types).Nodup := by
  refine List.Nodup.filterMap (fun a b e ha hb => ?_) (nodup_incidentIds s)
  rw [← getEdge?_id h ha, ← getEdge?_id h hb]

/-! ## Selections -/

theorem shortest_mem {α : Type} (first : List α) (rest : List (List α)) :
    shortest first rest ∈ first :: rest := by
  unfold shortest
  induction rest generalizing first with
  | nil => exact List.mem_cons_self
  | cons xs rest ih =>
    rw [List.foldl_cons]
    rcases List.mem_cons.1 (ih (if xs.length < first.length then xs else first)) with h | h
    · rw [h]
      split <;> simp
    · exact List.mem_cons_of_mem _ (List.mem_cons_of_mem _ h)

theorem vertexCandidates_spec (h : s.Consistent) (sel : Selection) :
    (s.vertexCandidates sel).Pairwise (· < ·) ∧ ∀ i v, s.vertexAt? i = some v →
      sel.admitsVertex v = true → i ∈ s.vertexCandidates sel := by
  unfold vertexCandidates
  cases hl : sel.labels with
  | nil =>
    refine ⟨Slots.pairwise_toList _, fun i v hv _ => ?_⟩
    obtain ⟨c, hc, -⟩ := vertexAt?_eq_some.1 hv
    exact List.mem_map.2 ⟨(i, c), (Slots.mem_toList _ i c).2 hc, rfl⟩
  | cons label labels =>
    simp only [List.map_cons]
    have hmem := shortest_mem (SlotIndex.slots label s.labelSlots)
      (labels.map (SlotIndex.slots · s.labelSlots))
    rw [← List.map_cons (f := (SlotIndex.slots · s.labelSlots)), List.mem_map] at hmem
    obtain ⟨l, hlmem, heq⟩ := hmem
    rw [← heq]
    refine ⟨(h.labelSlots l).1, fun i v hv hmeets => ?_⟩
    refine ((h.labelSlots l).2 i).2 ⟨v, hv, ?_⟩
    unfold Selection.admitsVertex at hmeets
    rw [Bool.and_eq_true, hl, List.all_eq_true] at hmeets
    simpa [Vertex.hasLabel] using hmeets.1 l hlmem

/-- The ids that a selection without a limit finds, unless it tests an undefined property. -/
theorem selectVertices_pending (h : s.Consistent) {sel : Selection} (hlimit : sel.limit = none)
    (hdefined : s.testsUndefined sel = false) :
    ∃ ids, (s.selectVertices reader sel).pending = some ids ∧ ids.Nodup ∧
      ∀ id, id ∈ ids ↔ ∃ v, s.getVertex? reader id = some v ∧ sel.admitsVertex v = true := by
  obtain ⟨hascending, hmem⟩ := vertexCandidates_spec h sel
  have hnodup : (s.vertexCandidates sel).Nodup := hascending.imp Nat.ne_of_lt
  unfold selectVertices
  rw [hdefined, if_neg Bool.false_ne_true, hlimit]
  refine ⟨_, rfl, ?_, fun id => ?_⟩
  · -- different slots hold vertices of different ids
    refine List.Nodup.map_on (fun v hv w hw hid => ?_)
      ((hnodup.filterMap fun i j v hi hj => ?_).filter _)
    · obtain ⟨i, -, hi⟩ := List.mem_filterMap.1 (List.mem_filter.1 hv).1
      obtain ⟨j, -, hj⟩ := List.mem_filterMap.1 (List.mem_filter.1 hw).1
      have hij := h.vertexSlots.unique ⟨v, hi, rfl⟩ ⟨w, hj, hid.symm⟩
      rw [hij, hj] at hi
      exact (Option.some.inj hi).symm
    · exact h.vertexSlots.unique ⟨v, hi, rfl⟩ ⟨v, hj, rfl⟩
  · simp only [List.mem_map, List.mem_filter, List.mem_filterMap, Bool.and_eq_true]
    constructor
    · rintro ⟨v, ⟨⟨i, -, hv⟩, hread, hmeets⟩, rfl⟩
      exact ⟨v, (getVertex?_eq_some h).2 ⟨rfl, ⟨i, hv⟩, hread⟩, hmeets⟩
    · rintro ⟨v, hv, hmeets⟩
      obtain ⟨hid, ⟨i, hi⟩, hread⟩ := (getVertex?_eq_some h).1 hv
      exact ⟨v, ⟨⟨i, hmem i v hi hmeets, hi⟩, hread, hmeets⟩, hid⟩

end Store

end PropertyGraph
