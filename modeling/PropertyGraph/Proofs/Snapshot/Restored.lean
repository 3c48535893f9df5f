import Mathlib.Data.List.Sort
import PropertyGraph.Proofs.Snapshot.Cells
import PropertyGraph.Proofs.Store.Orderly
import PropertyGraph.Proofs.Store.Reading

/-!
# Stores read back

The bytes of a store are read as a store with the same elements in the same slots and the same
definitions.  Its indices are made anew, and so are the lists of edges, in which the order may be
another one; but for that order it gives every answer that the first store gives.

    read_write          the bytes of a consistent store are read as `restored s`, in whatever order
                        the definitions are written
    restores_restored   the elements of `restored s` are those of `s`
    Restores.answers    a consistent store with the same elements gives the same answers
    read_write_grown    the round trip for every store that has grown by calls and snapshots
-/

namespace PropertyGraph

/-! ## The same occupied slots -/

namespace Slots

variable {α β : Type}

theorem occupied_eq {s : Slots α} {t : Slots β} (h : ∀ i, (s.get? i).isSome = (t.get? i).isSome) :
    s.toList.map Prod.fst = t.toList.map Prod.fst := by
  have hmem : ∀ {γ : Type} (u : Slots γ) (i : Nat),
      i ∈ u.toList.map Prod.fst ↔ (u.get? i).isSome = true := by
    intro γ u i
    rw [List.mem_map, Option.isSome_iff_exists]
    constructor
    · rintro ⟨⟨j, a⟩, hj, rfl⟩
      exact ⟨a, (mem_toList u j a).1 hj⟩
    · rintro ⟨a, ha⟩
      exact ⟨(i, a), (mem_toList u i a).2 ha, rfl⟩
  refine (pairwise_toList s).eq_of_mem_iff (pairwise_toList t) fun i => ?_
  rw [hmem, hmem, h]

theorem values_eq_filterMap (s : Slots α) : s.values = (s.toList.map Prod.fst).filterMap s.get? := by
  have hsnd : s.values = s.toList.map Prod.snd := by
    unfold values toList
    rw [List.map_filterMap]
    conv_lhs => rw [← List.zipIdx_map_fst 0 s.cells.toList, List.filterMap_map]
    refine List.filterMap_congr fun p _ => ?_
    cases h : p.1 <;> simp [h]
  rw [hsnd, List.filterMap_map, ← List.filterMap_eq_map]
  refine List.filterMap_congr fun p hp => ?_
  exact ((mem_toList s p.1 p.2).1 hp).symm

end Slots

namespace Snapshot

open Store

/-! ## Edges attached anew -/

theorem sound_foldl_attach {vertices : Slots VertexCell} (h : vertices.Sound)
    (edges : List (Nat × EdgeCell)) : (edges.foldl attach vertices).Sound := by
  induction edges generalizing vertices with
  | nil => exact h
  | cons p rest ih => exact ih (sound_relist h p.2 (p.1 :: ·))

theorem vertex_foldl_attach (vertices : Slots VertexCell) (edges : List (Nat × EdgeCell))
    (i : Nat) :
    ((edges.foldl attach vertices).get? i).map (·.vertex) = (vertices.get? i).map (·.vertex) := by
  induction edges generalizing vertices with
  | nil => rfl
  | cons p rest ih => exact (ih _).trans (vertex_relist vertices p.2 (p.1 :: ·) i)

/-- A vertex gets the edges that have it as an end, each once. -/
theorem edges_foldl_attach {vertices : Slots VertexCell} {edges : List (Nat × EdgeCell)}
    (hnodup : (edges.map Prod.fst).Nodup) {i : Nat} {c' : VertexCell}
    (h : (edges.foldl attach vertices).get? i = some c') (side : Side) :
    ∃ c, vertices.get? i = some c ∧
      (∀ j, j ∈ c'.edges side ↔ j ∈ c.edges side ∨ ∃ e, (j, e) ∈ edges ∧ e.slot side = i) ∧
      ((c.edges side).Nodup → (∀ j ∈ edges.map Prod.fst, j ∉ c.edges side) →
        (c'.edges side).Nodup) := by
  induction edges generalizing vertices with
  | nil => exact ⟨c', h, by simp, fun hc _ => hc⟩
  | cons p rest ih =>
    obtain ⟨hp, hrest⟩ := List.nodup_cons.1 hnodup
    obtain ⟨c₁, hc₁, hmem, hnodup₁⟩ := ih hrest h
    obtain ⟨c, hc, hedges⟩ := edges_relist hc₁ side
    refine ⟨c, hc, fun j => ?_, fun hcnodup hfresh => ?_⟩
    · rw [hmem, hedges]
      constructor
      · rintro (hj | ⟨e, he, hslot⟩)
        · split at hj
          · next hslot =>
            rcases List.mem_cons.1 hj with rfl | hj
            · exact Or.inr ⟨p.2, List.mem_cons_self, hslot⟩
            · exact Or.inl hj
          · exact Or.inl hj
        · exact Or.inr ⟨e, List.mem_cons_of_mem _ he, hslot⟩
      · rintro (hj | ⟨e, he, hslot⟩)
        · left
          split
          · exact List.mem_cons_of_mem _ hj
          · exact hj
        · rcases List.mem_cons.1 he with rfl | he
          · exact Or.inl (by rw [if_pos hslot]; exact List.mem_cons_self)
          · exact Or.inr ⟨e, he, hslot⟩
    · obtain ⟨hpfresh, hrestfresh⟩ := List.forall_mem_cons.1 hfresh
      refine hnodup₁ ?_ fun j hj => ?_
      · rw [hedges]
        split
        · exact List.nodup_cons.2 ⟨hpfresh, hcnodup⟩
        · exact hcnodup
      · rw [hedges]
        split
        · rw [List.mem_cons, not_or]
          exact ⟨fun heq => hp (heq ▸ hj), hrestfresh j hj⟩
        · exact hrestfresh j hj

/-! ## The store that is read -/

/-- The vertex slots of a snapshot before the edges are attached. -/
def bareCells (s : Store) : List (Option VertexCell) :=
  (trimmed s.vertices).map (Option.map fun c => ⟨c.vertex, [], []⟩)

/-- What a snapshot of the store is read as. -/
def restored (s : Store) : Store :=
  let edges := Slots.ofCells (trimmed s.edges)
  Store.reindex { Store.empty with
    vertices := edges.toList.foldl attach (Slots.ofCells (bareCells s))
    edges
    definitions := s.definitions }

variable {s t : Store}

theorem get?_bareCells (s : Store) (i : Nat) :
    (Slots.ofCells (bareCells s)).get? i =
      (s.vertices.get? i).map fun c => ⟨c.vertex, [], []⟩ := by
  rw [Slots.get?_ofCells, bareCells, List.getElem?_map, ← getElem?_trimmed]
  cases (trimmed s.vertices)[i]? <;> rfl

theorem vertexAt?_restored (s : Store) (i : Nat) : (restored s).vertexAt? i = s.vertexAt? i := by
  refine (vertex_foldl_attach _ _ i).trans ?_
  rw [get?_bareCells, Option.map_map]
  rfl

theorem get?_edges_restored (s : Store) (i : Nat) :
    (restored s).edges.get? i = s.edges.get? i :=
  (Slots.get?_ofCells _ i).trans (getElem?_trimmed s.edges i)

theorem consistent_restored (h : s.Consistent) : (restored s).Consistent := by
  refine h.reindex_of_same (sound_foldl_attach (Slots.sound_ofCells _) _) (Slots.sound_ofCells _)
    (vertexAt?_restored s) (get?_edges_restored s) (fun i c side hc => ?_) (fun _ hd => hd) rfl
  have hnodup : ((Slots.ofCells (trimmed s.edges)).toList.map Prod.fst).Nodup :=
    (Slots.pairwise_toList _).imp Nat.ne_of_lt
  obtain ⟨c₀, hc₀, hmem, hkept⟩ := edges_foldl_attach hnodup hc side
  rw [get?_bareCells] at hc₀
  obtain ⟨v, -, rfl⟩ := Option.map_eq_some_iff.1 hc₀
  have hnil : VertexCell.edges ⟨v.vertex, [], []⟩ side = [] := by cases side <;> rfl
  rw [hnil] at hkept
  refine ⟨hkept List.nodup_nil fun _ _ => List.not_mem_nil, fun j => ?_⟩
  rw [hmem, hnil]
  simp only [List.not_mem_nil, false_or, Slots.mem_toList]

/-! ## The same elements -/

/-- The second store has the elements of the first in the same slots, and the definitions. -/
structure Restores (s t : Store) : Prop where
  vertices : ∀ i, t.vertexAt? i = s.vertexAt? i
  edges : ∀ i, t.edges.get? i = s.edges.get? i
  definitions : t.definitions = s.definitions

theorem restores_restored (s : Store) : Restores s (restored s) :=
  ⟨vertexAt?_restored s, get?_edges_restored s, rfl⟩

namespace Restores

variable (h : Restores s t)

include h

theorem edgeAt? (i : Nat) : t.edgeAt? i = s.edgeAt? i := by
  rw [Store.edgeAt?, Store.edgeAt?, h.edges]

theorem isDefined (name : String) : t.isDefined name = s.isDefined name := by
  rw [Store.isDefined, Store.isDefined, h.definitions]

theorem orderly (hs : s.Orderly) : t.Orderly :=
  hs.of_less h.definitions (fun i v hv => by rwa [h.vertices] at hv)
    fun i e he => by rwa [h.edgeAt?] at he

theorem occupied_vertices :
    t.vertices.toList.map Prod.fst = s.vertices.toList.map Prod.fst :=
  Slots.occupied_eq fun i => by
    have := congrArg Option.isSome (h.vertices i)
    rwa [vertexAt?, vertexAt?, Option.isSome_map, Option.isSome_map] at this

theorem occupied_edges : t.edges.toList.map Prod.fst = s.edges.toList.map Prod.fst :=
  Slots.occupied_eq fun i => by rw [h.edges]

/-- The vertices come in the same order. -/
theorem allVertices : t.allVertices = s.allVertices := by
  unfold Store.allVertices
  rw [Slots.values_eq_filterMap, Slots.values_eq_filterMap, List.map_filterMap,
    List.map_filterMap, h.occupied_vertices]
  exact List.filterMap_congr fun i _ => h.vertices i

/-- The edges come in the same order. -/
theorem allEdges : t.allEdges = s.allEdges := by
  unfold Store.allEdges
  rw [Slots.values_eq_filterMap, Slots.values_eq_filterMap, h.occupied_edges, funext h.edges]

theorem vertex?_eq (hs : s.Consistent) (ht : t.Consistent) (id : String) :
    t.vertex? id = s.vertex? id :=
  Option.ext fun v => by simp only [vertex?_eq_some hs, vertex?_eq_some ht, h.vertices]

theorem edge?_eq (hs : s.Consistent) (ht : t.Consistent) (id : String) : t.edge? id = s.edge? id :=
  Option.ext fun e => by simp only [edge?_eq_some hs, edge?_eq_some ht, h.edgeAt?]

theorem labelSlots_eq (hs : s.Consistent) (ht : t.Consistent) (label : String) :
    SlotIndex.slots label t.labelSlots = SlotIndex.slots label s.labelSlots :=
  (ht.labelSlots label).1.eq_of_mem_iff (hs.labelSlots label).1 fun i => by
    simp only [(ht.labelSlots label).2, (hs.labelSlots label).2, h.vertices]

theorem typeSlots_eq (hs : s.Consistent) (ht : t.Consistent) (type : String) :
    SlotIndex.slots type t.typeSlots = SlotIndex.slots type s.typeSlots :=
  (ht.typeSlots type).1.eq_of_mem_iff (hs.typeSlots type).1 fun i => by
    simp only [(ht.typeSlots type).2, (hs.typeSlots type).2, h.edgeAt?]

theorem testsUndefined_eq (sel : Selection) : t.testsUndefined sel = s.testsUndefined sel := by
  unfold testsUndefined
  simp only [h.isDefined]

theorem selectVertices_eq (hs : s.Consistent) (ht : t.Consistent) (reader : Authorizations)
    (sel : Selection) : t.selectVertices reader sel = s.selectVertices reader sel := by
  unfold selectVertices vertexCandidates
  rw [h.testsUndefined_eq, h.occupied_vertices, funext h.vertices,
    funext (h.labelSlots_eq hs ht)]

theorem selectEdges_eq (hs : s.Consistent) (ht : t.Consistent) (reader : Authorizations)
    (sel : Selection) : t.selectEdges reader sel = s.selectEdges reader sel := by
  unfold selectEdges edgeCandidates
  rw [h.testsUndefined_eq, h.occupied_edges, funext h.edgeAt?, funext (h.typeSlots_eq hs ht)]

theorem incidentIds_perm (hs : s.Consistent) (ht : t.Consistent) (reader : Authorizations)
    (id : String) (direction : Heading) (types : List String) :
    (t.incidentIds reader id direction types).Perm (s.incidentIds reader id direction types) := by
  rw [List.perm_ext_iff_of_nodup (nodup_incidentIds t) (nodup_incidentIds s)]
  intro other
  simp only [mem_incidentIds hs, mem_incidentIds ht, getEdge?, h.edge?_eq hs ht]

end Restores

/-- The second store gives the answers of the first; the edges of a vertex may come in another
order. -/
structure SameAnswers (s t : Store) : Prop where
  vertex? : ∀ id, t.vertex? id = s.vertex? id
  edge? : ∀ id, t.edge? id = s.edge? id
  isDefined : ∀ name, t.isDefined name = s.isDefined name
  selectVertices : ∀ reader sel, t.selectVertices reader sel = s.selectVertices reader sel
  selectEdges : ∀ reader sel, t.selectEdges reader sel = s.selectEdges reader sel
  incidentIds : ∀ reader id direction types,
    (t.incidentIds reader id direction types).Perm (s.incidentIds reader id direction types)

theorem Restores.answers (h : Restores s t) (hs : s.Consistent) (ht : t.Consistent) :
    SameAnswers s t where
  vertex? := h.vertex?_eq hs ht
  edge? := h.edge?_eq hs ht
  isDefined := h.isDefined
  selectVertices := h.selectVertices_eq hs ht
  selectEdges := h.selectEdges_eq hs ht
  incidentIds := h.incidentIds_perm hs ht

/-! ## Reading -/

/-- The numbers in a snapshot fit their bytes: eight for a length and four for a slot. -/
structure Fits (s : Store) : Prop where
  lengths : (write s).length < 2 ^ 64
  slots : s.vertices.cells.size ≤ 2 ^ 32

/-- The bytes of a store after the header. -/
def bodyBytes (s : Store) : List UInt8 :=
  Bytes.sequence Bytes.vertex s.allVertices ++
    (Bytes.sequence (Bytes.natural 4) (holesFrom 0 (bareCells s)) ++ (Bytes.natural 4 1 ++
      (Bytes.sequence edgeCell (trimmed s.edges) ++
        Bytes.sequence (fun p => Bytes.text p.1 ++ Bytes.text p.2) s.definitions)))

theorem write_eq (s : Store) : write s = mark ++ (Bytes.natural 4 version ++ bodyBytes s) := by
  have hholes : holesFrom 0 (bareCells s) = holes (trimmed s.vertices) := holesFrom_map _ 0 _
  have hvertices : Bytes.sequence Bytes.vertex s.allVertices =
      Bytes.sequence (fun c => Bytes.vertex c.vertex) ((trimmed s.vertices).filterMap id) := by
    rw [Store.allVertices, Bytes.sequence_map, filterMap_trimmed]
  unfold write bodyBytes
  rw [hvertices, hholes]
  simp only [List.append_assoc]

/-- Only the last part of the bytes is made of the definitions. -/
theorem bodyBytes_with (s : Store) (definitions : Entries String) :
    bodyBytes { s with definitions } = Bytes.sequence Bytes.vertex s.allVertices ++
      (Bytes.sequence (Bytes.natural 4) (holesFrom 0 (bareCells s)) ++ (Bytes.natural 4 1 ++
        (Bytes.sequence edgeCell (trimmed s.edges) ++
          Bytes.sequence (fun p => Bytes.text p.1 ++ Bytes.text p.2) definitions))) := rfl

/-- The order in which the definitions are written does not change the number of bytes. -/
theorem length_write_of_perm {definitions : Entries String}
    (horder : definitions.Perm s.definitions) :
    (write { s with definitions }).length = (write s).length := by
  have hitems := (horder.flatMap_right fun p => Bytes.text p.1 ++ Bytes.text p.2).length_eq
  rw [write_eq, write_eq, bodyBytes_with, bodyBytes]
  simp only [Bytes.sequence, List.length_append, Bytes.length_natural, hitems]

theorem filterMap_bareCells (s : Store) :
    (bareCells s).filterMap id = s.allVertices.map fun v => ⟨v, [], []⟩ := by
  rw [Store.allVertices, ← filterMap_trimmed, bareCells, List.filterMap_map, List.map_map,
    List.map_filterMap]
  rfl

theorem length_allVertices_add_holes (s : Store) :
    s.allVertices.length + (holesFrom 0 (bareCells s)).length = (bareCells s).length := by
  have hlength := length_values_add_holes 0 (bareCells s)
  rwa [filterMap_bareCells, List.length_map] at hlength

/-- The vertices and the numbers of the empty slots give the vertex slots. -/
theorem spread_allVertices (s : Store) :
    spread (bareCells s).length 0 (holesFrom 0 (bareCells s))
      (s.allVertices.map fun v => ⟨v, [], []⟩) = some (bareCells s) := by
  rw [← filterMap_bareCells]
  exact spread_holes _ (by omega)

/-- There is no edge at an empty vertex slot. -/
theorem links?_restored (h : s.Consistent) :
    links? (bareCells s) (Slots.ofCells (trimmed s.edges)) = none := by
  have hfull : ∀ c ∈ (Slots.ofCells (trimmed s.edges)).values, ∀ side,
      ((bareCells s).map Option.isSome).getD (c.slot side) false = true := by
    intro c hc side
    obtain ⟨i, hi⟩ := (Slots.mem_values _ c).1 hc
    rw [Slots.get?_ofCells, getElem?_trimmed] at hi
    obtain ⟨v, hv, -⟩ := h.ends i c side hi
    obtain ⟨d, hd, -⟩ := vertexAt?_eq_some.1 hv
    have hbare := get?_bareCells s (c.slot side)
    rw [hd, Slots.get?_ofCells] at hbare
    have hcell := Option.join_eq_some_iff.1 hbare
    simp [List.getD_eq_getElem?_getD, hcell]
  unfold links?
  refine if_neg ?_
  rw [Bool.not_eq_true, List.any_eq_false]
  intro c hc
  simp only [Bool.or_eq_true, Bool.not_eq_true', not_or, Bool.not_eq_false]
  exact ⟨hfull c hc .outgoing, hfull c hc .incoming⟩

theorem length_bareCells_le (s : Store) : (bareCells s).length ≤ s.vertices.cells.size := by
  rw [bareCells, List.length_map]
  exact length_trimmed_le s.vertices

section Parts

open ByteReader Bytes

theorem reads_allVertices (ho : s.Orderly) (hcount : Countable (Bytes.sequence vertex s.allVertices)) :
    ByteReader.Reads (ByteReader.sequence (ByteReader.vertex ByteReader.value))
      (Bytes.sequence vertex s.allVertices) s.allVertices := by
  refine reads_sequence hcount (fun v _ => length_vertex_pos v) fun v hv => ?_
  obtain ⟨c, hc, rfl⟩ := List.mem_map.1 hv
  obtain ⟨i, hi⟩ := (Slots.mem_values s.vertices c).1 hc
  have horderly := ho.vertices i c.vertex (vertexAt?_eq_some.2 ⟨c, hi, rfl⟩)
  have hvertex := hcount.mono (length_le_length_sequence_of_mem (f := vertex) hv)
  exact reads_vertex (readsWithin_value hvertex) horderly hvertex (Nat.le_refl _)

theorem reads_holes {cells : List (Option VertexCell)} (hsize : cells.length ≤ 2 ^ 32)
    (hcount : Countable (Bytes.sequence (Bytes.natural 4) (holesFrom 0 cells))) :
    ByteReader.Reads (ByteReader.sequence (ByteReader.natural 4))
      (Bytes.sequence (Bytes.natural 4) (holesFrom 0 cells)) (holesFrom 0 cells) := by
  refine reads_sequence hcount (fun i _ => ?_) fun i hi => reads_slot ?_
  · rw [length_natural]
    decide
  · have hlt := (List.getElem?_eq_some_iff.1 (mem_holesFrom.1 hi).2).1
    omega

theorem reads_edgeCells (hs : s.Consistent) (ho : s.Orderly) (hsize : (bareCells s).length ≤ 2 ^ 32)
    (hcount : Countable (Bytes.sequence edgeCell (trimmed s.edges))) :
    ByteReader.Reads (ByteReader.sequence (readEdgeCell (bareCells s).length))
      (Bytes.sequence edgeCell (trimmed s.edges)) (trimmed s.edges) := by
  refine reads_sequence hcount (fun cell _ => length_edgeCell_pos cell) fun cell hcell => ?_
  have hform := hcount.mono (length_le_length_sequence_of_mem (f := edgeCell) hcell)
  refine reads_edgeCell hform hsize fun c hc => ?_
  rw [Option.mem_def] at hc
  subst hc
  obtain ⟨i, hi⟩ := List.mem_iff_getElem?.1 hcell
  have hget : s.edges.get? i = some c := by rw [← getElem?_trimmed, hi]; rfl
  refine ⟨ho.edges i c.edge (edgeAt?_eq_some.2 ⟨c, hget, rfl⟩), fun side => ?_⟩
  obtain ⟨v, hv, -⟩ := hs.ends i c side hget
  obtain ⟨d, hd, -⟩ := vertexAt?_eq_some.1 hv
  rw [bareCells, List.length_map]
  exact lt_length_trimmed hd

theorem reads_definitions {definitions : Entries String}
    (hcount : Countable
      (Bytes.sequence (fun p => Bytes.text p.1 ++ Bytes.text p.2) definitions)) :
    ByteReader.Reads (ByteReader.sequence (named ByteReader.text))
      (Bytes.sequence (fun p => Bytes.text p.1 ++ Bytes.text p.2) definitions) definitions := by
  refine reads_sequence hcount (fun p _ => ?_) fun p hp => ?_
  · have := length_text_pos p.1
    rw [List.length_append]
    omega
  · have hform := length_le_length_sequence_of_mem
      (f := fun p : String × String => Bytes.text p.1 ++ Bytes.text p.2) hp
    simp only [List.length_append] at hform
    exact reads_named (hcount.mono (by omega)) (reads_text (hcount.mono (by omega)))

theorem reads_body (hs : s.Consistent) (ho : s.Orderly) (hfits : Fits s)
    {definitions : Entries String} (horder : definitions.Perm s.definitions) :
    ByteReader.Reads body (bodyBytes { s with definitions }) (restored s) := by
  have hcount : Countable (bodyBytes { s with definitions }) := by
    refine Countable.mono hfits.lengths ?_
    rw [← length_write_of_perm horder, write_eq, List.length_append, List.length_append]
    omega
  have hsize := Nat.le_trans (length_bareCells_le s) hfits.slots
  have hspread : ByteReader.Reads (lift (spread (bareCells s).length 0 (holesFrom 0 (bareCells s))
      (s.allVertices.map fun v => ⟨v, [], []⟩))) [] (bareCells s) := by
    intro rest
    rw [spread_allVertices]
    rfl
  rw [bodyBytes_with] at hcount ⊢
  have hlength : ∀ part : List UInt8, part.length ≤ _ → Countable part := fun _ => hcount.mono
  simp only [List.length_append] at hlength
  unfold body
  refine (reads_allVertices ho (hlength _ (by omega))).bind ?_
  refine (reads_holes hsize (hlength _ (by omega))).bind ?_
  simp only [length_allVertices_add_holes]
  refine (hspread.bind ?_ : ByteReader.Reads _ ([] ++ (Bytes.natural 4 1 ++ _)) _)
  refine (reads_natural (by decide)).bind ?_
  rw [if_pos rfl]
  refine (reads_edgeCells hs ho hsize (hlength _ (by omega))).bind ?_
  rw [links?_restored hs]
  have hlast := (reads_definitions (hlength (Bytes.sequence _ definitions) (by omega))).map
    fun definitions => Store.reindex { Store.empty with
      vertices := (Slots.ofCells (trimmed s.edges)).toList.foldl attach
        (Slots.ofCells (bareCells s))
      edges := Slots.ofCells (trimmed s.edges)
      definitions := Entries.ofList definitions
      links := none }
  rw [Entries.ofList_eq_of_perm ho.definitions horder] at hlast
  exact hlast

end Parts

/-- Behind the mark and the version, the reading is that of the body. -/
theorem read_header {bytes rest : List UInt8} (h : body bytes = some (s, rest)) :
    read (mark ++ (Bytes.natural 4 version ++ bytes)) = .ok s := by
  have hversion := Bytes.length_natural 4 version
  have hmark : (mark ++ (Bytes.natural 4 version ++ bytes)).take 4 = mark := List.take_left' rfl
  have hdrop : (mark ++ (Bytes.natural 4 version ++ bytes)).drop 4 =
      Bytes.natural 4 version ++ bytes := List.drop_left' rfl
  have hfound : (Bytes.natural 4 version ++ bytes).take 4 = Bytes.natural 4 version :=
    List.take_left' hversion
  have hbody : (mark ++ (Bytes.natural 4 version ++ bytes)).drop 8 = bytes := by
    rw [show 8 = 4 + 4 from rfl, ← List.drop_drop, hdrop]
    exact List.drop_left' hversion
  unfold read
  rw [if_neg, if_neg (not_not.2 hmark), hdrop, hfound, hbody, h]
  · rfl
  · rw [List.length_append, List.length_append, hversion]
    exact Nat.not_lt.2 (by simp [mark]; omega)

/-- The bytes of a store are read, whatever the order of the definitions in them and whatever
follows them. -/
theorem read_write (hs : s.Consistent) (ho : s.Orderly) (hfits : Fits s)
    {definitions : Entries String} (horder : definitions.Perm s.definitions) (rest : List UInt8) :
    read (write { s with definitions } ++ rest) = .ok (restored s) := by
  rw [write_eq, List.append_assoc, List.append_assoc]
  exact read_header (reads_body hs ho hfits horder rest)

/-! ## Stores that have grown -/

/-- A store that has grown by calls with orderly values, starting empty, and may have been read from
its own snapshot in between, with the definitions written in any order. -/
inductive Grown : Store → Prop
  | empty : Grown Store.empty
  | call {s : Store} (h : Grown s) {call : Call} (hcall : call.Orderly) : Grown (s.after call)
  | read {s t : Store} (h : Grown s) (hfits : Fits s) {definitions : Entries String}
    (horder : definitions.Perm s.definitions) {rest : List UInt8}
    (hread : read (write { s with definitions } ++ rest) = .ok t) : Grown t

theorem Grown.sound (h : Grown s) : s.Consistent ∧ s.Orderly := by
  induction h with
  | empty => exact ⟨consistent_empty, orderly_empty⟩
  | call h hcall ih => exact ⟨ih.1.after _, ih.2.after ih.1 hcall⟩
  | read h hfits horder hread ih =>
    rw [read_write ih.1 ih.2 hfits horder] at hread
    cases hread
    exact ⟨consistent_restored ih.1, (restores_restored _).orderly ih.2⟩

theorem Grown.foldl_after (h : Grown s) {calls : List Call}
    (hcalls : ∀ call ∈ calls, call.Orderly) : Grown (calls.foldl after s) := by
  induction calls generalizing s with
  | nil => exact h
  | cons call rest ih =>
    obtain ⟨hcall, hrest⟩ := List.forall_mem_cons.1 hcalls
    exact ih (h.call hcall) hrest

/-- The bytes of a store that has grown, with the definitions written in any order, are read as a
consistent store with the same elements in the same slots and order, the same definitions, and the
same answers. -/
theorem read_write_grown (h : Grown s) (hfits : Fits s) {definitions : Entries String}
    (horder : definitions.Perm s.definitions) (rest : List UInt8) :
    ∃ t, read (write { s with definitions } ++ rest) = .ok t ∧ t.Consistent ∧ Restores s t ∧
      t.allVertices = s.allVertices ∧ t.allEdges = s.allEdges ∧ SameAnswers s t := by
  obtain ⟨hs, ho⟩ := h.sound
  have hrestores := restores_restored s
  have ht := consistent_restored hs
  exact ⟨restored s, read_write hs ho hfits horder rest, ht, hrestores, hrestores.allVertices,
    hrestores.allEdges, hrestores.answers hs ht⟩

/-- Calls that make a vertex with a nested value, an edge and an empty slot before its source; the
properties `k` and `w` are defined by them. -/
def gapCalls : List Call :=
  [.addVertex "a" ["L"] [("k", .list [.map [("x", .int 1)], .duration ⟨0, 1, 0, 0⟩])] "",
    .addVertex "b" [] [] "",
    .addVertex "c" ["M", "L"] [] "x",
    .removeVertex "b",
    .addEdge "e" "R" "c" "a" [("w", .date ⟨2024, 2, 29, by decide⟩)] ""]

theorem read_write_gap :
    ∃ s, Grown s ∧ Fits s ∧ s.vertexAt? 1 = none ∧ s.allVertices.length = 2 ∧
      s.definitions = [("k", "LIST"), ("w", "DATE")] ∧
      ∃ t, read (write { s with definitions := s.definitions.reverse } ++ [7]) = .ok t ∧
        t.Consistent ∧ Restores s t ∧
        t.allVertices = s.allVertices ∧ t.allEdges = s.allEdges ∧ SameAnswers s t := by
  have hcalls : ∀ call ∈ gapCalls, call.Orderly := by
    simp [gapCalls, Call.Orderly, Value.Orderly, OrderlyItems, OrderlyEntries, Entries.Sorted,
      Entries.names]
  have hgrown := Grown.empty.foldl_after hcalls
  have hfits : Fits (gapCalls.foldl after Store.empty) := ⟨by decide +kernel, by decide +kernel⟩
  exact ⟨_, hgrown, hfits, by decide +kernel, by decide +kernel, by decide +kernel,
    read_write_grown hgrown hfits (List.reverse_perm _) [7]⟩

end Snapshot

end PropertyGraph
