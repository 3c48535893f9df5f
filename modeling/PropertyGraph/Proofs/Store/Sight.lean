import PropertyGraph.Proofs.Store.Growth

/-!
# What a reader sees of a store

What a reader gets from a store is made of the elements that he may see.  Two stores that show him
the same elements in the same order, and around every vertex the same edges in the same order, answer
him the same, whatever else they hold: other elements, other slots, other indices.  Only whether a
property name is defined is told to every reader alike.

    Store.SeenAlike             the stores show a reader the same
    selectVertices_eq           a selection of vertices, by those that are seen
    SeenAlike.getVertex?        the vertex of an id
    SeenAlike.incidentEdges     the edges around a vertex, in every direction and of every type
-/

namespace PropertyGraph

theorem eraseDups_eq_self {α : Type} [BEq α] [LawfulBEq α] {l : List α} (h : l.Nodup) :
    l.eraseDups = l := by
  induction h with
  | nil => rfl
  | @cons a rest hne _ ih =>
    rw [List.eraseDups_cons, List.filter_eq_self.2 fun b hb => ?_, ih]
    simpa using (hne b hb).symm

/-! ## Slots in order -/

theorem Slots.map_snd_toList {α : Type} (s : Slots α) : s.toList.map Prod.snd = s.values := by
  have hcells : ∀ (cells : List (Option α)) (k : Nat),
      ((cells.zipIdx k).filterMap fun p => p.1.map (p.2, ·)).map Prod.snd =
        cells.filterMap id := by
    intro cells
    induction cells with
    | nil => exact fun _ => rfl
    | cons cell rest ih =>
      intro k
      rw [List.zipIdx_cons, List.filterMap_cons]
      cases cell with
      | none => exact ih (k + 1)
      | some a => exact congrArg (a :: ·) (ih (k + 1))
  exact hcells s.cells.toList 0

/-- Of the elements in ascending slots those that qualify do not depend on which other slots are
looked at. -/
theorem filter_ascending {α : Type} {at? : Nat → Option α} {p : α → Bool} {l l' : List Nat}
    (hl : l.Pairwise (· < ·)) (hl' : l'.Pairwise (· < ·))
    (h : ∀ i a, at? i = some a → p a = true → (i ∈ l ↔ i ∈ l')) :
    (l.filterMap at?).filter p = (l'.filterMap at?).filter p := by
  rw [filter_slots, filter_slots]
  refine congrArg (List.filterMap at?) ?_
  refine (List.Pairwise.filter _ hl).eq_of_mem_iff (List.Pairwise.filter _ hl') fun i => ?_
  rw [List.mem_filter, List.mem_filter]
  refine and_congr_left fun hany => ?_
  obtain ⟨a, ha, hpa⟩ := (Option.any_eq_true _ _).1 hany
  exact h i a ha hpa

namespace Store

variable {s σ τ : Store} {reader : Authorizations}

/-! ## Elements -/

/-- The vertices that a reader sees, in the order of their slots. -/
def seenVertices (s : Store) (reader : Authorizations) : List Vertex :=
  s.allVertices.filter fun v => reader.canRead v.visibility

/-- The edges that a reader sees, in the order of their slots. -/
def seenEdges (s : Store) (reader : Authorizations) : List Edge :=
  s.allEdges.filter fun e => reader.canRead e.visibility

theorem allVertices_eq (s : Store) :
    s.allVertices = (s.vertices.toList.map Prod.fst).filterMap s.vertexAt? := by
  rw [List.filterMap_map, allVertices, ← Slots.map_snd_toList, List.map_map,
    ← List.filterMap_eq_map]
  refine List.filterMap_congr fun p hp => ?_
  have hget := (Slots.mem_toList s.vertices p.1 p.2).1 hp
  simp [vertexAt?, hget]

theorem allEdges_eq (s : Store) :
    s.allEdges = (s.edges.toList.map Prod.fst).filterMap s.edgeAt? := by
  rw [List.filterMap_map, allEdges, ← Slots.map_snd_toList, List.map_map, ← List.filterMap_eq_map]
  refine List.filterMap_congr fun p hp => ?_
  have hget := (Slots.mem_toList s.edges p.1 p.2).1 hp
  simp [edgeAt?, hget]

theorem mem_seenVertices {v : Vertex} : v ∈ s.seenVertices reader ↔
    (∃ i, s.vertexAt? i = some v) ∧ reader.canRead v.visibility = true := by
  rw [seenVertices, List.mem_filter, allVertices_eq, List.mem_filterMap]
  refine and_congr_left fun _ => ⟨fun ⟨i, _, hi⟩ => ⟨i, hi⟩, fun ⟨i, hi⟩ => ⟨i, ?_, hi⟩⟩
  obtain ⟨c, hc, -⟩ := vertexAt?_eq_some.1 hi
  exact List.mem_map.2 ⟨(i, c), (Slots.mem_toList _ i c).2 hc, rfl⟩

theorem mem_seenEdges {e : Edge} : e ∈ s.seenEdges reader ↔
    (∃ i, s.edgeAt? i = some e) ∧ reader.canRead e.visibility = true := by
  rw [seenEdges, List.mem_filter, allEdges_eq, List.mem_filterMap]
  refine and_congr_left fun _ => ⟨fun ⟨i, _, hi⟩ => ⟨i, hi⟩, fun ⟨i, hi⟩ => ⟨i, ?_, hi⟩⟩
  obtain ⟨c, hc, -⟩ := edgeAt?_eq_some.1 hi
  exact List.mem_map.2 ⟨(i, c), (Slots.mem_toList _ i c).2 hc, rfl⟩

theorem getVertex?_eq_some_iff_seen (h : s.Consistent) {id : String} {v : Vertex} :
    s.getVertex? reader id = some v ↔ v.id = id ∧ v ∈ s.seenVertices reader := by
  rw [getVertex?_eq_some h, mem_seenVertices]

theorem getEdge?_eq_some_iff_seen (h : s.Consistent) {id : String} {e : Edge} :
    s.getEdge? reader id = some e ↔ e.id = id ∧ e ∈ s.seenEdges reader := by
  rw [getEdge?_eq_some h, mem_seenEdges]

/-! ## Selections -/

/-- A property that is not defined passes no test. -/
theorem not_passes_of_undefined (test : PropertyTest) {properties : Properties}
    (hdefines : s.Defines properties) {name : String} (hno : s.isDefined name = false) :
    test.passes (Entries.get? name properties) = false := by
  cases hget : Entries.get? name properties with
  | none => rfl
  | some v =>
    cases hnull : v.isNull with
    | true => cases v <;> first | rfl | cases hnull
    | false =>
      rw [hdefines (name, v) (Entries.mem_of_get? hget) hnull] at hno
      cases hno

theorem admitsVertex_of_undefined (h : s.Consistent) {sel : Selection} {v : Vertex}
    (hsel : s.testsUndefined sel = true) (hv : v ∈ s.seenVertices reader) :
    sel.admitsVertex v = false := by
  obtain ⟨⟨i, hi⟩, -⟩ := mem_seenVertices.1 hv
  obtain ⟨⟨name, test⟩, htest, hno⟩ := List.any_eq_true.1 hsel
  have hfails : test.passes (v.property? name) = false :=
    not_passes_of_undefined test (h.vertexParts i v hi).2.2 (by simpa using hno)
  unfold Selection.admitsVertex
  rw [Bool.and_eq_false_iff]
  exact Or.inr (List.all_eq_false.2 ⟨_, htest, by simpa using hfails⟩)

theorem admitsEdge_of_undefined (h : s.Consistent) {sel : Selection} {e : Edge}
    (hsel : s.testsUndefined sel = true) (he : e ∈ s.seenEdges reader) :
    sel.admitsEdge e = false := by
  obtain ⟨⟨i, hi⟩, -⟩ := mem_seenEdges.1 he
  obtain ⟨⟨name, test⟩, htest, hno⟩ := List.any_eq_true.1 hsel
  have hfails : test.passes (e.property? name) = false :=
    not_passes_of_undefined test (h.edgeParts i e hi).2 (by simpa using hno)
  unfold Selection.admitsEdge
  rw [Bool.and_eq_false_iff]
  exact Or.inr (List.all_eq_false.2 ⟨_, htest, by simpa using hfails⟩)

/-- The vertices that a selection finds, by those that the reader sees. -/
theorem selectVertices_eq (h : s.Consistent) (reader : Authorizations) (sel : Selection) :
    s.selectVertices reader sel = if s.testsUndefined sel then .none else
      .ofIds (((s.seenVertices reader).filter sel.admitsVertex).map (·.id)) sel.limit := by
  obtain ⟨hascending, hmem⟩ := vertexCandidates_spec h sel
  unfold selectVertices
  split
  · rfl
  · rw [seenVertices, allVertices_eq, List.filter_filter]
    dsimp only
    simp only [Bool.and_comm (reader.canRead _)]
    rw [filter_ascending hascending (Slots.pairwise_toList s.vertices) fun i v hi hp => ?_]
    obtain ⟨c, hc, -⟩ := vertexAt?_eq_some.1 hi
    rw [Bool.and_eq_true] at hp
    exact iff_of_true (hmem i v hi hp.1)
      (List.mem_map.2 ⟨(i, c), (Slots.mem_toList _ i c).2 hc, rfl⟩)

/-- The edges that a reader sees, of some types in turn where types are demanded. -/
def seenOfTypes (s : Store) (reader : Authorizations) (types : List String) : List Edge :=
  if types.isEmpty then s.seenEdges reader
  else types.flatMap fun type => (s.seenEdges reader).filter fun e => e.type == type

theorem seen_of_seenOfTypes {types : List String} {e : Edge}
    (he : e ∈ s.seenOfTypes reader types) : e ∈ s.seenEdges reader := by
  unfold seenOfTypes at he
  split at he
  · exact he
  · obtain ⟨type, -, he⟩ := List.mem_flatMap.1 he
    exact (List.mem_filter.1 he).1

/-- The edges that a selection finds, by those that the reader sees. -/
theorem selectEdges_eq (h : s.Consistent) (reader : Authorizations) (sel : Selection) :
    s.selectEdges reader sel = if s.testsUndefined sel then .none else
      .ofIds (((s.seenOfTypes reader sel.types).filter sel.admitsEdge).map (·.id)) sel.limit := by
  have hcandidates : ((s.edgeCandidates sel).filterMap s.edgeAt?).filter
      (fun e => reader.canRead e.visibility) = s.seenOfTypes reader sel.types := by
    unfold edgeCandidates seenOfTypes
    split
    · rw [seenEdges, allEdges_eq]
    · rw [List.filterMap_flatMap, List.filter_flatMap]
      refine congrArg (List.flatMap · sel.types) (funext fun type => ?_)
      obtain ⟨hascending, hmem⟩ := h.typeSlots type
      have htyped : ((SlotIndex.slots type s.typeSlots).filterMap s.edgeAt?).filter
          (fun e => reader.canRead e.visibility) =
          ((SlotIndex.slots type s.typeSlots).filterMap s.edgeAt?).filter
            fun e => e.type == type && reader.canRead e.visibility := by
        refine List.filter_congr fun e he => ?_
        obtain ⟨j, hj, he⟩ := List.mem_filterMap.1 he
        obtain ⟨f, hf, htype⟩ := (hmem j).1 hj
        rw [he] at hf
        cases hf
        simp [htype]
      rw [htyped, seenEdges, allEdges_eq, List.filter_filter]
      refine filter_ascending hascending (Slots.pairwise_toList s.edges) fun j e he hp => ?_
      obtain ⟨c, hc, -⟩ := edgeAt?_eq_some.1 he
      rw [Bool.and_eq_true, beq_iff_eq] at hp
      exact iff_of_true ((hmem j).2 ⟨e, he, hp.1⟩)
        (List.mem_map.2 ⟨(j, c), (Slots.mem_toList _ j c).2 hc, rfl⟩)
  unfold selectEdges
  split
  · rfl
  · rw [← hcandidates, List.filter_filter]
    dsimp only
    simp only [Bool.and_comm (reader.canRead _)]

/-! ## Neighbourhoods -/

theorem incidentEdges_of_vertex?_eq_none {id : String} (hid : s.vertex? id = none)
    (direction : Heading) (types : List String) :
    s.incidentEdges reader id direction types = [] := by
  have hcell : (s.vertexSlot? id).bind s.vertices.get? = none := by
    unfold vertex? vertexAt? at hid
    cases hslot : s.vertexSlot? id with
    | none => rfl
    | some i =>
      rw [hslot] at hid
      exact Option.map_eq_none_iff.1 hid
  unfold incidentEdges incidentIds
  rw [hcell]
  rfl

/-- The edges of some types around a vertex. -/
theorem incidentEdges_types (h : s.Consistent) (id : String) (direction : Heading)
    (types : List String) : s.incidentEdges reader id direction types =
      (s.incidentEdges reader id direction []).filter fun e => admitsType types e.type := by
  cases hid : s.vertex? id with
  | none => rw [incidentEdges_of_vertex?_eq_none hid, incidentEdges_of_vertex?_eq_none hid]; rfl
  | some v =>
    obtain ⟨rfl, i, hi⟩ := (vertex?_eq_some h).1 hid
    obtain ⟨cell, hcell, rfl⟩ := vertexAt?_eq_some.1 hi
    rw [incidentEdges_eq h hcell, incidentEdges_eq h hcell, List.filter_filterMap]
    refine List.filterMap_congr fun j _ => ?_
    rw [Option.filter_filter]
    simp [admitsType]

/-- The edges around a vertex in either direction: those that leave it, and then the other ones
that come in. -/
theorem incidentEdges_undirected (h : s.Consistent) (id : String) :
    s.incidentEdges reader id .undirected [] =
      s.getEdges reader ((s.incidentEdges reader id .outgoing [] ++
        s.incidentEdges reader id .incoming []).map (·.id)).eraseDups := by
  cases hid : s.vertex? id with
  | none =>
    simp only [incidentEdges_of_vertex?_eq_none hid]
    rfl
  | some v =>
    obtain ⟨rfl, i, hi⟩ := (vertex?_eq_some h).1 hid
    obtain ⟨cell, hcell, rfl⟩ := vertexAt?_eq_some.1 hi
    have hslot : s.vertexSlot? cell.vertex.id = some i :=
      (h.vertexSlots.2 _ _).2 ⟨cell.vertex, hi, rfl⟩
    have hside : ∀ slots : List Nat, slots.Nodup →
        slots.eraseDups.filterMap (fun j => (s.edgeAt? j).filter fun e =>
          reader.canRead e.visibility && admitsType [] e.type) =
        (slots.filterMap s.edgeAt?).filter
          fun e => admitsType [] e.type && reader.canRead e.visibility := by
      intro slots hslots
      rw [eraseDups_eq_self hslots, List.filter_filterMap]
      simp only [Bool.and_comm (reader.canRead _)]
    have hout := hside (incidentSlots cell .outgoing) (h.attached i cell .outgoing hcell).1
    have hin := hside (incidentSlots cell .incoming) (h.attached i cell .incoming hcell).1
    rw [incidentEdges_eq h hcell .outgoing, incidentEdges_eq h hcell .incoming, hout, hin]
    unfold incidentEdges incidentIds
    rw [hslot, Option.bind_some, hcell, ← List.filter_append, ← List.filterMap_append]
    rfl

/-! ## Stores that look alike -/

/-- The stores show a reader the same vertices and the same edges in the same order, and around
every vertex the same edges in the same order. -/
structure SeenAlike (reader : Authorizations) (σ τ : Store) : Prop where
  vertices : σ.seenVertices reader = τ.seenVertices reader
  edges : σ.seenEdges reader = τ.seenEdges reader
  outgoing : ∀ id, σ.incidentEdges reader id .outgoing [] = τ.incidentEdges reader id .outgoing []
  incoming : ∀ id, σ.incidentEdges reader id .incoming [] = τ.incidentEdges reader id .incoming []

namespace SeenAlike

variable (h : SeenAlike reader σ τ) (hσ : σ.Consistent) (hτ : τ.Consistent)

include h hσ hτ

theorem getVertex? : σ.getVertex? reader = τ.getVertex? reader := by
  funext id
  refine Option.ext fun v => ?_
  rw [getVertex?_eq_some_iff_seen hσ, getVertex?_eq_some_iff_seen hτ, h.vertices]

theorem getEdge? : σ.getEdge? reader = τ.getEdge? reader := by
  funext id
  refine Option.ext fun e => ?_
  rw [getEdge?_eq_some_iff_seen hσ, getEdge?_eq_some_iff_seen hτ, h.edges]

theorem incidentEdges (id : String) (direction : Heading) (types : List String) :
    σ.incidentEdges reader id direction types = τ.incidentEdges reader id direction types := by
  rw [incidentEdges_types hσ, incidentEdges_types hτ]
  refine congrArg (List.filter _) ?_
  cases direction with
  | outgoing => exact h.outgoing id
  | incoming => exact h.incoming id
  | undirected =>
    rw [incidentEdges_undirected hσ, incidentEdges_undirected hτ, h.outgoing, h.incoming]
    unfold getEdges
    rw [h.getEdge? hσ hτ]

omit h in
/-- Where no edges are seen, stores with the same vertices look alike. -/
theorem of_no_edges (hvertices : σ.seenVertices reader = τ.seenVertices reader)
    (hfirst : σ.seenEdges reader = []) (hsecond : τ.seenEdges reader = []) :
    SeenAlike reader σ τ := by
  have hnone : ∀ {ρ : Store} (_ : ρ.Consistent) (_ : ρ.seenEdges reader = []) (id : String)
      (direction : Heading), ρ.incidentEdges reader id direction [] = [] := by
    refine fun hρ hempty id direction => List.eq_nil_iff_forall_not_mem.2 fun e he => ?_
    obtain ⟨hget, -⟩ := (mem_incidentEdges hρ).1 he
    have hseen := ((getEdge?_eq_some_iff_seen hρ).1 hget).2
    rw [hempty] at hseen
    exact List.not_mem_nil hseen
  refine ⟨hvertices, hfirst.trans hsecond.symm, fun id => ?_, fun id => ?_⟩ <;>
    rw [hnone hσ hfirst, hnone hτ hsecond]

end SeenAlike

end Store

end PropertyGraph
