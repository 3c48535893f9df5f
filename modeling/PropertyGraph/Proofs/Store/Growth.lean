import Mathlib.Data.List.Sort
import PropertyGraph.Proofs.Store.Reachable
import PropertyGraph.Proofs.Store.Reading

/-!
# What growth leaves as it is

A store to which elements are added keeps those that it has, each in its slot.  So a reader gets for
the ids that were there what he got before, and new elements show in the edges around a vertex and
in the results of a selection only where they qualify themselves.

    Store.Grows                 one store holds what another one holds, and maybe more
    incidentEdges_of_grows      the edges around a vertex, the new ones passed over
    selectEdges_of_grows        a selection that no new edge meets
    selectVertices_of_grows     a selection that no new vertex meets
-/

namespace PropertyGraph

/-- Where different items come to different results, it does not matter whether those that come
twice are dropped before or after. -/
theorem eraseDups_filterMap {α β : Type} [BEq α] [LawfulBEq α] [BEq β] [LawfulBEq β]
    {g : α → Option β} (hg : ∀ a a' b, g a = some b → g a' = some b → a = a') (as : List α) :
    (as.filterMap g).eraseDups = as.eraseDups.filterMap g := by
  cases as with
  | nil => rfl
  | cons a rest =>
    have ih := eraseDups_filterMap hg (rest.filter fun x => !x == a)
    rw [List.eraseDups_cons, List.filterMap_cons, List.filterMap_cons, ← ih, List.filterMap_filter]
    cases ha : g a with
    | none =>
      refine congrArg List.eraseDups (List.filterMap_congr fun x _ => ?_)
      by_cases hx : x = a
      · simp [hx, ha]
      · simp [hx]
    | some b =>
      rw [List.eraseDups_cons, List.filter_filterMap]
      refine congrArg (fun l => b :: List.eraseDups l) (List.filterMap_congr fun x _ => ?_)
      by_cases hx : x = a
      · simp [hx, ha]
      · cases hgx : g x with
        | none => simp
        | some c =>
          have hcb : c ≠ b := fun h => hx (hg x a b (h ▸ hgx) ha)
          simp [hx, hcb]
termination_by as.length
decreasing_by
  have := List.length_filter_le (fun x => !x == a) rest
  rw [List.length_cons]
  omega

/-- The elements of some slots that qualify, by the slots that hold such an element. -/
theorem filter_slots {α : Type} (at? : Nat → Option α) (p : α → Bool) (l : List Nat) :
    (l.filterMap at?).filter p = (l.filter fun i => (at? i).any p).filterMap at? := by
  rw [List.filter_filterMap, List.filterMap_filter]
  refine List.filterMap_congr fun i _ => ?_
  cases at? i <;> rfl

namespace Store

/-- The second store holds all that the first one holds, each element in its slot, and in the lists
of a vertex only new edges have been put. -/
structure Grows (s t : Store) : Prop where
  defined : ∀ name, s.isDefined name = true → t.isDefined name = true
  vertices : ∀ i c, s.vertices.get? i = some c → ∃ c', t.vertices.get? i = some c' ∧
    c'.vertex = c.vertex ∧ ∀ side, (c'.edges side).filter s.hasEdgeAt = c.edges side
  edges : ∀ i c, s.edges.get? i = some c → t.edges.get? i = some c

variable {s t u : Store} {reader : Authorizations}

/-! ## Growth by writes -/

theorem Consistent.filter_hasEdgeAt (h : s.Consistent) {i : Nat} {c : VertexCell}
    (hc : s.vertices.get? i = some c) (side : Side) :
    (c.edges side).filter s.hasEdgeAt = c.edges side := by
  rw [List.filter_eq_self]
  intro j hj
  obtain ⟨e, he, -⟩ := ((h.attached i c side hc).2 j).1 hj
  rw [hasEdgeAt, he]
  rfl

theorem Grows.refl (h : s.Consistent) : s.Grows s :=
  ⟨fun _ hd => hd, fun _ c hc => ⟨c, hc, rfl, h.filter_hasEdgeAt hc⟩, fun _ _ hc => hc⟩

theorem Grows.hasEdgeAt (h : s.Grows t) {j : Nat} (hj : s.hasEdgeAt j = true) :
    t.hasEdgeAt j = true := by
  obtain ⟨c, hc⟩ := Option.isSome_iff_exists.1 hj
  exact Option.isSome_iff_exists.2 ⟨c, h.edges j c hc⟩

theorem Grows.trans (h : s.Grows t) (h' : t.Grows u) : s.Grows u where
  defined name hd := h'.defined name (h.defined name hd)
  vertices i c hc := by
    obtain ⟨c', hc', hv', hedges'⟩ := h.vertices i c hc
    obtain ⟨c'', hc'', hv'', hedges''⟩ := h'.vertices i c' hc'
    refine ⟨c'', hc'', hv''.trans hv', fun side => ?_⟩
    rw [← hedges' side, ← hedges'' side, List.filter_filter]
    refine List.filter_congr fun j _ => ?_
    cases hj : s.hasEdgeAt j with
    | true => rw [h.hasEdgeAt hj]; rfl
    | false => rfl
  edges i c hc := h'.edges i c (h.edges i c hc)

theorem Consistent.grows_defineAll (h : s.Consistent) (properties : List (String × Value)) :
    s.Grows (s.defineAll properties) := by
  have hmono : ∀ name, s.isDefined name = true →
      (s.defineAll properties).isDefined name = true := by
    intro name hname
    rw [isDefined_defineAll, hname, Bool.true_or]
  obtain ⟨d, hd⟩ := defineAll_eq s properties
  rw [hd] at hmono ⊢
  exact ⟨hmono, fun _ c hc => ⟨c, hc, rfl, h.filter_hasEdgeAt hc⟩, fun _ _ hc => hc⟩

/-- A vertex that is put into the next slot leaves the others where they are. -/
theorem get?_putVertex (hs : s.vertices.Sound) {i : Nat} {c : VertexCell}
    (hc : s.vertices.get? i = some c) (v : Vertex) : (s.putVertex v).vertices.get? i = some c := by
  have hi : i ≠ s.vertices.next := by
    rintro rfl
    rw [Slots.get?_next hs] at hc
    cases hc
  rw [putVertex, Slots.get?_insert hs, if_neg hi, hc]

theorem Consistent.grows_putVertex (h : s.Consistent) (v : Vertex) : s.Grows (s.putVertex v) where
  defined _ hd := hd
  vertices _ c hc := ⟨c, get?_putVertex h.vertices hc v, rfl, h.filter_hasEdgeAt hc⟩
  edges _ _ hc := hc

theorem Consistent.grows_putEdge (h : s.Consistent) (c : EdgeCell) : s.Grows (s.putEdge c) where
  defined _ hd := hd
  vertices i v hv := by
    have hget := get?_relist s.vertices c (s.edges.next :: ·) i
    rw [hv] at hget
    refine ⟨_, hget, rfl, fun side => ?_⟩
    obtain ⟨w, hw, hedges⟩ := edges_relist hget side
    rw [hv] at hw
    cases hw
    rw [hedges]
    split
    · have hnext : s.hasEdgeAt s.edges.next = false := by
        rw [hasEdgeAt, Slots.get?_next h.edges]
        rfl
      rw [List.filter_cons_of_neg (by rw [hnext]; exact Bool.false_ne_true)]
      exact h.filter_hasEdgeAt hv side
    · exact h.filter_hasEdgeAt hv side
  edges i d hd := by
    have hi : i ≠ s.edges.next := by
      rintro rfl
      rw [Slots.get?_next h.edges] at hd
      cases hd
    rw [Store.putEdge, Slots.get?_insert h.edges, if_neg hi, hd]

theorem Consistent.grows_addVertex (h : s.Consistent) {v : Vertex} (hs : s.addVertex v = .ok t) :
    s.Grows t := by
  rw [addVertex_eq h.links] at hs
  split at hs
  · cases hs
  · cases hs
    exact (h.grows_defineAll v.properties).trans ((h.defineAll v.properties).grows_putVertex v)

theorem Consistent.grows_addEdge (h : s.Consistent) {e : Edge} (hs : s.addEdge e = .ok t) :
    s.Grows t := by
  rw [addEdge_eq h.links] at hs
  split at hs
  · cases hs
  · split at hs
    · cases hs
    · cases hs
    · cases hs
      exact (h.grows_defineAll e.properties).trans ((h.defineAll e.properties).grows_putEdge _)

/-! ## Elements -/

theorem vertex?_defineAll (s : Store) (properties : List (String × Value)) (id : String) :
    (s.defineAll properties).vertex? id = s.vertex? id := by
  obtain ⟨d, hd⟩ := defineAll_eq s properties
  rw [hd]
  rfl

theorem vertex?_putEdge (s : Store) (c : EdgeCell) (id : String) :
    (s.putEdge c).vertex? id = s.vertex? id := by
  unfold vertex?
  rw [funext (vertexAt?_putEdge s c)]
  rfl

/-- An id has a slot where there is a vertex of the id. -/
theorem isSome_vertexSlot? (hs : s.Consistent) (id : String) :
    (s.vertexSlot? id).isSome = (s.vertex? id).isSome := by
  unfold vertex?
  cases hslot : s.vertexSlot? id with
  | none => rfl
  | some i =>
    obtain ⟨v, hv, -⟩ := (hs.vertexSlots.2 _ _).1 hslot
    rw [Option.bind_some, hv]
    rfl

section Read

variable (hs : s.Consistent) (ht : t.Consistent) (hgrows : s.Grows t)

include hgrows

omit hs ht in
theorem Grows.vertexAt? {i : Nat} {v : Vertex} (hv : s.vertexAt? i = some v) :
    t.vertexAt? i = some v := by
  obtain ⟨c, hc, rfl⟩ := vertexAt?_eq_some.1 hv
  obtain ⟨c', hc', hvertex, -⟩ := hgrows.vertices i c hc
  exact vertexAt?_eq_some.2 ⟨c', hc', hvertex⟩

omit hs ht in
theorem Grows.edgeAt? {i : Nat} {e : Edge} (he : s.edgeAt? i = some e) :
    t.edgeAt? i = some e := by
  obtain ⟨c, hc, rfl⟩ := edgeAt?_eq_some.1 he
  exact edgeAt?_eq_some.2 ⟨c, hgrows.edges i c hc, rfl⟩

include hs ht

theorem vertex?_of_grows {id : String} {v : Vertex} (hv : s.vertex? id = some v) :
    t.vertex? id = some v := by
  obtain ⟨hid, i, hi⟩ := (vertex?_eq_some hs).1 hv
  exact (vertex?_eq_some ht).2 ⟨hid, i, hgrows.vertexAt? hi⟩

theorem isSome_vertex?_of_grows {id : String} (hid : (s.vertex? id).isSome = true) :
    (t.vertex? id).isSome = true := by
  obtain ⟨v, hv⟩ := Option.isSome_iff_exists.1 hid
  exact Option.isSome_iff_exists.2 ⟨v, vertex?_of_grows hs ht hgrows hv⟩

/-- A vertex that was there has its slot. -/
theorem vertexSlot?_of_grows {id : String} (hid : (s.vertex? id).isSome = true) :
    t.vertexSlot? id = s.vertexSlot? id := by
  rw [← isSome_vertexSlot? hs] at hid
  obtain ⟨i, hi⟩ := Option.isSome_iff_exists.1 hid
  obtain ⟨v, hv, hvid⟩ := (hs.vertexSlots.2 _ _).1 hi
  rw [hi]
  exact (ht.vertexSlots.2 _ _).2 ⟨v, hgrows.vertexAt? hv, hvid⟩

theorem edge?_of_grows {id : String} {e : Edge} (he : s.edge? id = some e) :
    t.edge? id = some e := by
  obtain ⟨hid, i, hi⟩ := (edge?_eq_some hs).1 he
  exact (edge?_eq_some ht).2 ⟨hid, i, hgrows.edgeAt? hi⟩

/-- An id that is free is free in a store that holds less. -/
theorem edge?_none_of_grows {id : String} (hid : t.edge? id = none) : s.edge? id = none := by
  refine Option.eq_none_iff_forall_ne_some.2 fun e he => ?_
  rw [edge?_of_grows hs ht hgrows he] at hid
  cases hid

theorem getVertex?_of_grows {id : String} (hid : (s.vertex? id).isSome = true) :
    t.getVertex? reader id = s.getVertex? reader id := by
  obtain ⟨v, hv⟩ := Option.isSome_iff_exists.1 hid
  rw [getVertex?, getVertex?, hv, vertex?_of_grows hs ht hgrows hv]

/-- A reader still sees what he saw. -/
theorem seenVertex_of_grows {id : String} {v : Vertex} (hv : s.getVertex? reader id = some v) :
    t.getVertex? reader id = some v := by
  obtain ⟨hstored, hread⟩ := Option.filter_eq_some_iff.1 hv
  exact Option.filter_eq_some_iff.2 ⟨vertex?_of_grows hs ht hgrows hstored, hread⟩

theorem seenEdge_of_grows {id : String} {e : Edge} (he : s.getEdge? reader id = some e) :
    t.getEdge? reader id = some e := by
  obtain ⟨hstored, hread⟩ := Option.filter_eq_some_iff.1 he
  exact Option.filter_eq_some_iff.2 ⟨edge?_of_grows hs ht hgrows hstored, hread⟩

/-- A vertex in a slot that was empty has a new id. -/
theorem vertex?_eq_none_of_grows {j : Nat} {v : Vertex} (hj : s.vertexAt? j = none)
    (hv : t.vertexAt? j = some v) : s.vertex? v.id = none := by
  rw [Option.eq_none_iff_forall_ne_some]
  intro w hw
  obtain ⟨hid, i, hi⟩ := (vertex?_eq_some hs).1 hw
  have hij := ht.vertexSlots.unique ⟨w, hgrows.vertexAt? hi, hid⟩ ⟨v, hv, rfl⟩
  rw [hij, hj] at hi
  cases hi

/-- An edge in a slot that was empty has a new id. -/
theorem edge?_eq_none_of_grows {j : Nat} {e : Edge} (hj : s.hasEdgeAt j = false)
    (he : t.edgeAt? j = some e) : s.edge? e.id = none := by
  rw [Option.eq_none_iff_forall_ne_some]
  intro f hf
  obtain ⟨hid, i, hi⟩ := (edge?_eq_some hs).1 hf
  have hij := ht.edgeSlots.unique ⟨f, hgrows.edgeAt? hi, hid⟩ ⟨e, he, rfl⟩
  obtain ⟨c, hc, -⟩ := edgeAt?_eq_some.1 hi
  rw [hasEdgeAt, ← hij, hc] at hj
  cases hj

/-- Edges in slots of which the old ones are given, as far as no new one qualifies. -/
theorem filterMap_edgeAt?_of_grows {l l' : List Nat} (hl : l'.filter s.hasEdgeAt = l)
    {p : Edge → Bool} (hnew : ∀ id e, s.edge? id = none → t.getEdge? reader id = some e →
      p e = false) :
    (l'.filterMap fun j => (t.edgeAt? j).filter fun e => reader.canRead e.visibility && p e) =
      l.filterMap fun j => (s.edgeAt? j).filter fun e => reader.canRead e.visibility && p e := by
  rw [← hl, List.filterMap_filter]
  refine List.filterMap_congr fun j _ => ?_
  cases hj : s.hasEdgeAt j with
  | true =>
    obtain ⟨c, hc⟩ := Option.isSome_iff_exists.1 hj
    have he : s.edgeAt? j = some c.edge := edgeAt?_eq_some.2 ⟨c, hc, rfl⟩
    rw [he, hgrows.edgeAt? he, if_pos rfl]
  | false =>
    rw [if_neg Bool.false_ne_true, Option.filter_eq_none_iff]
    intro e he hqualifies
    rw [Bool.and_eq_true] at hqualifies
    have hget := (getEdge?_eq_some ht).2 ⟨rfl, ⟨j, he⟩, hqualifies.1⟩
    have hno := hnew e.id e (edge?_eq_none_of_grows hs ht hgrows hj he) hget
    rw [hqualifies.2] at hno
    cases hno

end Read

/-! ## Elements that are added -/

theorem vertex?_putVertex {v : Vertex} (hs : s.vertices.Sound) (ht : (s.putVertex v).Consistent) :
    (s.putVertex v).vertex? v.id = some v := by
  refine (vertex?_eq_some ht).2 ⟨rfl, s.vertices.next, ?_⟩
  rw [vertexAt?_putVertex hs, if_pos rfl]

theorem edge?_putEdge {c : EdgeCell} (hs : s.edges.Sound) (ht : (s.putEdge c).Consistent) :
    (s.putEdge c).edge? c.edge.id = some c.edge := by
  refine (edge?_eq_some ht).2 ⟨rfl, s.edges.next, ?_⟩
  rw [edgeAt?_putEdge hs, if_pos rfl]

/-! ## Neighbourhoods -/

theorem incidentEdges_eq (h : s.Consistent) {i : Nat} {cell : VertexCell}
    (hcell : s.vertices.get? i = some cell) (direction : Heading) (types : List String) :
    s.incidentEdges reader cell.vertex.id direction types =
      (incidentSlots cell direction).eraseDups.filterMap fun j => (s.edgeAt? j).filter fun e =>
        reader.canRead e.visibility && admitsType types e.type := by
  have hslot : s.vertexSlot? cell.vertex.id = some i :=
    (h.vertexSlots.2 _ _).2 ⟨cell.vertex, vertexAt?_eq_some.2 ⟨cell, hcell, rfl⟩, rfl⟩
  unfold incidentEdges getEdges incidentIds
  rw [hslot, Option.bind_some, hcell]
  simp only
  rw [List.filter_filterMap, List.map_filterMap, eraseDups_filterMap fun j j' id hj hj' => ?_,
    List.filterMap_filterMap]
  · refine List.filterMap_congr fun j _ => ?_
    cases he : s.edgeAt? j with
    | none => rfl
    | some e =>
      rw [Option.filter_some, Option.filter_some, Bool.and_comm]
      split
      · next hseen =>
        rw [Bool.and_eq_true] at hseen
        exact (getEdge?_eq_some h).2 ⟨rfl, ⟨j, he⟩, hseen.1⟩
      · rfl
  · -- different slots hold edges of different ids
    obtain ⟨e, he, rfl⟩ := Option.map_eq_some_iff.1 hj
    obtain ⟨f, hf, hid⟩ := Option.map_eq_some_iff.1 hj'
    exact h.edgeSlots.unique ⟨e, (Option.filter_eq_some_iff.1 he).1, rfl⟩
      ⟨f, (Option.filter_eq_some_iff.1 hf).1, hid⟩

/-- The edges around a vertex that was there are those that were around it, besides new ones. -/
theorem incidentEdges_of_grows (hs : s.Consistent) (ht : t.Consistent) (hgrows : s.Grows t)
    {id : String} (hid : (s.vertex? id).isSome = true) (direction : Heading)
    (types : List String) {p : Edge → Bool}
    (hnew : ∀ id e, s.edge? id = none → t.getEdge? reader id = some e → p e = false) :
    (t.incidentEdges reader id direction types).filter p =
      (s.incidentEdges reader id direction types).filter p := by
  obtain ⟨v, hv⟩ := Option.isSome_iff_exists.1 hid
  obtain ⟨rfl, i, hi⟩ := (vertex?_eq_some hs).1 hv
  obtain ⟨cell, hcell, rfl⟩ := vertexAt?_eq_some.1 hi
  obtain ⟨cell', hcell', hvertex, hedges⟩ := hgrows.vertices i cell hcell
  have hslots : (incidentSlots cell' direction).filter s.hasEdgeAt =
      incidentSlots cell direction := by
    cases direction with
    | outgoing => exact hedges .outgoing
    | incoming => exact hedges .incoming
    | undirected =>
      show (cell'.edges .outgoing ++ cell'.edges .incoming).filter _ = _
      rw [List.filter_append, hedges, hedges]
      rfl
  have hdups : (incidentSlots cell' direction).eraseDups.filter s.hasEdgeAt =
      (incidentSlots cell direction).eraseDups := by
    rw [← hslots, ← List.filterMap_eq_filter]
    refine (eraseDups_filterMap (fun j j' k hj hj' => ?_) _).symm
    rw [Option.guard_eq_some_iff] at hj hj'
    exact hj.1.trans hj'.1.symm
  have hat : t.incidentEdges reader _ _ _ = _ := incidentEdges_eq ht hcell' direction types
  rw [hvertex] at hat
  rw [hat, incidentEdges_eq hs hcell, List.filter_filterMap, List.filter_filterMap]
  simp only [Option.filter_filter, Bool.and_assoc]
  refine filterMap_edgeAt?_of_grows hs ht hgrows hdups fun id e hnone he => ?_
  rw [hnew id e hnone he, Bool.and_false]

/-! ## Selections -/

theorem testsUndefined_of_grows (hgrows : s.Grows t) {sel : Selection}
    (hdefined : s.testsUndefined sel = false) : t.testsUndefined sel = false := by
  unfold testsUndefined at hdefined ⊢
  rw [List.any_eq_false] at hdefined ⊢
  intro test htest hno
  refine hdefined test htest ?_
  rw [Bool.not_eq_true'] at hno ⊢
  by_contra hsome
  rw [hgrows.defined _ (Bool.eq_true_of_not_eq_false hsome)] at hno
  cases hno

/-- The slots of edges to be looked at, without those of new ones. -/
theorem edgeCandidates_of_grows (hs : s.Consistent) (ht : t.Consistent) (hgrows : s.Grows t)
    (sel : Selection) : (t.edgeCandidates sel).filter s.hasEdgeAt = s.edgeCandidates sel := by
  unfold edgeCandidates
  split
  · refine (List.Pairwise.filter _ (Slots.pairwise_toList _)).eq_of_mem_iff
      (Slots.pairwise_toList _) fun j => ?_
    simp only [List.mem_filter, List.mem_map, Prod.exists, Slots.mem_toList, exists_and_right,
      exists_eq_right]
    constructor
    · rintro ⟨-, hj⟩
      exact Option.isSome_iff_exists.1 hj
    · rintro ⟨c, hc⟩
      exact ⟨⟨c, hgrows.edges j c hc⟩, Option.isSome_iff_exists.2 ⟨c, hc⟩⟩
  · rw [List.filter_flatMap]
    refine congrArg (List.flatMap · sel.types) (funext fun type => ?_)
    obtain ⟨hascending, hmem⟩ := hs.typeSlots type
    obtain ⟨hascending', hmem'⟩ := ht.typeSlots type
    refine (List.Pairwise.filter _ hascending').eq_of_mem_iff hascending fun j => ?_
    rw [List.mem_filter, hmem, hmem']
    constructor
    · rintro ⟨⟨e, he, htype⟩, hj⟩
      obtain ⟨c, hc⟩ := Option.isSome_iff_exists.1 hj
      have hc' := hgrows.edgeAt? (edgeAt?_eq_some.2 ⟨c, hc, rfl⟩)
      rw [he] at hc'
      cases hc'
      exact ⟨c.edge, edgeAt?_eq_some.2 ⟨c, hc, rfl⟩, htype⟩
    · rintro ⟨e, he, htype⟩
      obtain ⟨c, hc, -⟩ := edgeAt?_eq_some.1 he
      exact ⟨⟨e, hgrows.edgeAt? he, htype⟩, Option.isSome_iff_exists.2 ⟨c, hc⟩⟩

/-- A selection that no new edge meets finds the edges that it found. -/
theorem selectEdges_of_grows (hs : s.Consistent) (ht : t.Consistent) (hgrows : s.Grows t)
    {sel : Selection} (hdefined : s.testsUndefined sel = false)
    (hnew : ∀ id e, s.edge? id = none → t.getEdge? reader id = some e →
      sel.admitsEdge e = false) :
    t.selectEdges reader sel = s.selectEdges reader sel := by
  unfold selectEdges
  rw [hdefined, testsUndefined_of_grows hgrows hdefined, List.filter_filterMap,
    List.filter_filterMap, filterMap_edgeAt?_of_grows hs ht hgrows
      (edgeCandidates_of_grows hs ht hgrows sel) hnew]

/-- The slots of the vertices that a selection finds are the same if no new vertex meets it. -/
theorem vertexCandidates_of_grows (hs : s.Consistent) (ht : t.Consistent) (hgrows : s.Grows t)
    {sel : Selection} (hnew : ∀ id v, s.vertex? id = none → t.getVertex? reader id = some v →
      sel.admitsVertex v = false) :
    ((t.vertexCandidates sel).filter fun i => (t.vertexAt? i).any fun v =>
        reader.canRead v.visibility && sel.admitsVertex v) =
      (s.vertexCandidates sel).filter fun i => (s.vertexAt? i).any fun v =>
        reader.canRead v.visibility && sel.admitsVertex v := by
  obtain ⟨hascending, hmem⟩ := vertexCandidates_spec hs sel
  obtain ⟨hascending', hmem'⟩ := vertexCandidates_spec ht sel
  refine (List.Pairwise.filter _ hascending').eq_of_mem_iff (List.Pairwise.filter _ hascending)
    fun i => ?_
  simp only [List.mem_filter, Option.any_eq_true, Bool.and_eq_true]
  constructor
  · rintro ⟨-, v, hv, hread, hmeets⟩
    cases hi : s.vertexAt? i with
    | none =>
      have hno := hnew v.id v (vertex?_eq_none_of_grows hs ht hgrows hi hv)
        ((getVertex?_eq_some ht).2 ⟨rfl, ⟨i, hv⟩, hread⟩)
      rw [hmeets] at hno
      cases hno
    | some w =>
      have hw := hgrows.vertexAt? hi
      rw [hv] at hw
      cases hw
      exact ⟨hmem i v hi hmeets, v, rfl, hread, hmeets⟩
  · rintro ⟨-, v, hv, hread, hmeets⟩
    have hv' := hgrows.vertexAt? hv
    exact ⟨hmem' i v hv' hmeets, v, hv', hread, hmeets⟩

/-- A selection that no new vertex meets finds the vertices that it found. -/
theorem selectVertices_of_grows (hs : s.Consistent) (ht : t.Consistent) (hgrows : s.Grows t)
    {sel : Selection} (hdefined : s.testsUndefined sel = false)
    (hnew : ∀ id v, s.vertex? id = none → t.getVertex? reader id = some v →
      sel.admitsVertex v = false) :
    t.selectVertices reader sel = s.selectVertices reader sel := by
  unfold selectVertices
  rw [hdefined, testsUndefined_of_grows hgrows hdefined, filter_slots, filter_slots,
    vertexCandidates_of_grows hs ht hgrows hnew, List.filterMap_congr (g := s.vertexAt?)]
  intro i hi
  obtain ⟨v, hv, -⟩ := (Option.any_eq_true _ _).1 (List.mem_filter.1 hi).2
  rw [hv, hgrows.vertexAt? hv]

end Store

end PropertyGraph
