import PropertyGraph.Proofs.Store.Consistent

/-!
# Writes keep a store consistent

A write is told by what it does to look-up: which element stands in a slot afterwards, and which
edges in the lists of a vertex.  From that follows, part by part, that the store stays consistent.
The removal of a vertex is the removal of its edges one by one and then of a vertex that has none.
-/

namespace PropertyGraph

namespace Store

/-! ## Look-up with one slot changed -/

theorem exists_ite_some {α : Type} {f : Nat → Option α} {i : Nat} (hi : f i = none) (a : α)
    (j : Nat) (P : α → Prop) :
    (∃ b, (if j = i then some a else f j) = some b ∧ P b) ↔
      (j = i ∧ P a) ∨ ∃ b, f j = some b ∧ P b := by
  by_cases h : j = i
  · subst h; simp [hi]
  · simp [h]

theorem exists_ite_none {α : Type} (f : Nat → Option α) (i j : Nat) (P : α → Prop) :
    (∃ b, (if j = i then none else f j) = some b ∧ P b) ↔ j ≠ i ∧ ∃ b, f j = some b ∧ P b := by
  by_cases h : j = i <;> simp [h]

/-! ## A new vertex -/

/-- A vertex without edges in the next slot. -/
def putVertex (s : Store) (v : Vertex) : Store :=
  { s with
    vertices := s.vertices.insert ⟨v, [], []⟩
    vertexSlots := Entries.insert v.id s.vertices.next s.vertexSlots
    labelSlots := v.labels.foldl (SlotIndex.add s.vertices.next) s.labelSlots }

theorem vertexAt?_putVertex {s : Store} (hs : s.vertices.Sound) (v : Vertex) (j : Nat) :
    (s.putVertex v).vertexAt? j = if j = s.vertices.next then some v else s.vertexAt? j := by
  unfold vertexAt? putVertex
  rw [Slots.get?_insert hs]
  split <;> rfl

theorem Consistent.putVertex {s : Store} (h : s.Consistent) {v : Vertex}
    (hnew : ∀ i w, s.vertexAt? i = some w → w.id ≠ v.id) (hl : v.labels.Pairwise (· < ·))
    (hp : Entries.Sorted v.properties) (hd : s.Defines v.properties) :
    (s.putVertex v).Consistent := by
  have hat := vertexAt?_putVertex h.vertices v
  have hnone : s.vertexAt? s.vertices.next = none := by
    rw [vertexAt?, Slots.get?_next h.vertices]; rfl
  -- no edge lies at the slot that was empty
  have hends : ∀ j c side, s.edges.get? j = some c → c.slot side ≠ s.vertices.next := by
    intro j c side hc hslot
    obtain ⟨w, hw, -⟩ := h.ends j c side hc
    rw [hslot, hnone] at hw
    cases hw
  exact {
    vertices := h.vertices.insert _
    edges := h.edges
    vertexSlots := (h.vertexSlots.insert s.vertices.next
      fun j hj => by
        obtain ⟨w, hw, hid⟩ := hj
        exact hnew j w hw hid).congr fun j id => by
        simp only [hat]
        rw [exists_ite_some hnone]
        simp only [eq_comm]
    edgeSlots := h.edgeSlots
    labelSlots := (h.labelSlots.addAll s.vertices.next v.labels).congr fun j l => by
      simp only [hat]
      rw [exists_ite_some hnone]
    typeSlots := h.typeSlots
    ends := fun j c side hc => by
      rw [hat, if_neg (hends j c side hc)]
      exact h.ends j c side hc
    attached := fun j c side hc => by
      have hget := Slots.get?_insert h.vertices ⟨v, [], []⟩ j
      rw [show (s.putVertex v).vertices = s.vertices.insert ⟨v, [], []⟩ from rfl, hget] at hc
      split at hc
      · next hj =>
        cases hc
        have hnil : VertexCell.edges ⟨v, [], []⟩ side = [] := by cases side <;> rfl
        rw [hnil, hj]
        refine ⟨List.nodup_nil, fun k => ?_⟩
        constructor
        · intro hk
          cases hk
        · rintro ⟨e, he, hslot⟩
          exact absurd hslot (hends k e side he)
      · exact h.attached j c side hc
    vertexParts := fun j w hw => by
      rw [hat] at hw
      split at hw
      · cases hw; exact ⟨hl, hp, hd⟩
      · exact h.vertexParts j w hw
    edgeParts := h.edgeParts
    links := h.links }

/-! ## A new edge -/

/-- An edge in the next slot, as the newest of its ends. -/
def putEdge (s : Store) (c : EdgeCell) : Store :=
  { s with
    vertices := relist s.vertices c (s.edges.next :: ·)
    edges := s.edges.insert c
    edgeSlots := Entries.insert c.edge.id s.edges.next s.edgeSlots
    typeSlots := SlotIndex.add s.edges.next s.typeSlots c.edge.type }

theorem edgeAt?_putEdge {s : Store} (hs : s.edges.Sound) (c : EdgeCell) (j : Nat) :
    (s.putEdge c).edgeAt? j = if j = s.edges.next then some c.edge else s.edgeAt? j := by
  unfold edgeAt? putEdge
  rw [Slots.get?_insert hs]
  split <;> rfl

theorem vertexAt?_putEdge (s : Store) (c : EdgeCell) (j : Nat) :
    (s.putEdge c).vertexAt? j = s.vertexAt? j :=
  vertex_relist s.vertices c _ j

theorem Consistent.putEdge {s : Store} (h : s.Consistent) {c : EdgeCell}
    (hnew : ∀ i e, s.edgeAt? i = some e → e.id ≠ c.edge.id)
    (hends : ∀ side, ∃ v, s.vertexAt? (c.slot side) = some v ∧ v.id = c.edge.endId side)
    (hp : Entries.Sorted c.edge.properties) (hd : s.Defines c.edge.properties) :
    (s.putEdge c).Consistent := by
  have hvertex := vertexAt?_putEdge s c
  have hat := edgeAt?_putEdge h.edges c
  have hget : ∀ j, (s.putEdge c).edges.get? j = if j = s.edges.next then some c else s.edges.get? j :=
    Slots.get?_insert h.edges c
  have hfree := Slots.get?_next h.edges
  have hnone : s.edgeAt? s.edges.next = none := by rw [edgeAt?, hfree]; rfl
  exact {
    vertices := sound_relist h.vertices _ _
    edges := h.edges.insert _
    vertexSlots := h.vertexSlots.congr fun j id => by simp only [hvertex]
    edgeSlots := (h.edgeSlots.insert s.edges.next
      fun j hj => by
        obtain ⟨e, he, hid⟩ := hj
        exact hnew j e he hid).congr fun j id => by
        simp only [hat]
        rw [exists_ite_some hnone]
        simp only [eq_comm]
    labelSlots := h.labelSlots.congr fun j l => by simp only [hvertex]
    typeSlots := (h.typeSlots.add s.edges.next c.edge.type).congr fun j t => by
      simp only [hat]
      rw [exists_ite_some hnone]
      simp only [eq_comm]
    ends := fun j d side hj => by
      rw [hvertex]
      rw [hget] at hj
      split at hj
      · cases hj; exact hends side
      · exact h.ends j d side hj
    attached := fun k v' side hv' => by
      obtain ⟨v, hv, hedges⟩ := edges_relist hv' side
      obtain ⟨hnodup, hmem⟩ := h.attached k v side hv
      have hnext : s.edges.next ∉ v.edges side := by
        rw [hmem, hfree]
        simp
      rw [hedges]
      constructor
      · split
        · exact List.nodup_cons.2 ⟨hnext, hnodup⟩
        · exact hnodup
      · intro j
        simp only [hget]
        rw [exists_ite_some hfree, ← hmem]
        split <;> simp [*]
    vertexParts := fun j v hv => h.vertexParts j v (by rw [← hvertex]; exact hv)
    edgeParts := fun j e he => by
      rw [hat] at he
      split at he
      · cases he; exact ⟨hp, hd⟩
      · exact h.edgeParts j e he
    links := h.links }

/-! ## A changed element -/

theorem changeLabels_pairwise {labels : Names} (h : labels.Pairwise (· < ·)) (c : Change) :
    (changeLabels labels c).Pairwise (· < ·) := by
  cases c with
  | addLabel l => exact Names.pairwise_insert h l
  | removeLabel l => exact Names.pairwise_erase h l
  | setProperty name v => exact h
  | removeProperty name => exact h

theorem changeProperties_sorted {properties : Properties} (h : Entries.Sorted properties)
    (c : Change) : Entries.Sorted (changeProperties properties c) := by
  cases c with
  | setProperty name v => cases v <;> first | exact h.erase name | exact h.insert name _
  | removeProperty name => exact h.erase name
  | addLabel l => exact h
  | removeLabel l => exact h

theorem foldl_changeLabels_pairwise {labels : Names} (h : labels.Pairwise (· < ·))
    (changes : List Change) : (changes.foldl changeLabels labels).Pairwise (· < ·) := by
  induction changes generalizing labels with
  | nil => exact h
  | cons c rest ih => exact ih (changeLabels_pairwise h c)

theorem foldl_changeProperties_sorted {properties : Properties} (h : Entries.Sorted properties)
    (changes : List Change) : Entries.Sorted (changes.foldl changeProperties properties) := by
  induction changes generalizing properties with
  | nil => exact h
  | cons c rest ih => exact ih (changeProperties_sorted h c)

/-- A property after some changes was there before them or has been set by one of them. -/
theorem mem_foldl_changeProperties {properties : Properties} {changes : List Change}
    {p : String × Value} (h : p ∈ changes.foldl changeProperties properties) :
    p ∈ properties ∨ p ∈ changes.filterMap setting? := by
  induction changes generalizing properties with
  | nil => exact Or.inl h
  | cons c rest ih =>
    have hstep : p ∈ changeProperties properties c → p ∈ properties ∨ setting? c = some p := by
      intro hp
      cases c with
      | setProperty name v =>
        cases v with
        | null => exact Or.inl ((Entries.erase_sublist name properties).subset hp)
        | _ => exact (Entries.mem_insert hp).symm.imp_right fun h => by rw [h]; rfl
      | removeProperty name => exact Or.inl ((Entries.erase_sublist name properties).subset hp)
      | addLabel l => exact Or.inl hp
      | removeLabel l => exact Or.inl hp
    rw [List.mem_filterMap]
    rcases ih h with hp | hp
    · rcases hstep hp with hp | hp
      · exact Or.inl hp
      · exact Or.inr ⟨c, List.mem_cons_self, hp⟩
    · obtain ⟨d, hd, hs⟩ := List.mem_filterMap.1 hp
      exact Or.inr ⟨d, List.mem_cons_of_mem _ hd, hs⟩

/-- The index of labels follows the labels of the vertex that is changed. -/
theorem foldl_changeIndex {index : SlotIndex} {marked : Nat → String → Prop}
    (h : index.Exact marked) (i : Nat) {labels : Names} (hl : labels.Pairwise (· < ·))
    (hi : ∀ l, marked i l ↔ l ∈ labels) (changes : List Change) :
    (changes.foldl (changeIndex i) index).Exact fun j l =>
      if j = i then l ∈ changes.foldl changeLabels labels else marked j l := by
  induction changes generalizing index marked labels with
  | nil =>
    refine h.congr fun j l => ?_
    by_cases hj : j = i
    · subst hj; simp [hi]
    · simp [hj]
  | cons c rest ih =>
    have hl' := changeLabels_pairwise hl c
    -- what the index is exact for after one change
    have hstep : (changeIndex i index c).Exact fun j l =>
        if j = i then l ∈ changeLabels labels c else marked j l := by
      cases c with
      | addLabel name =>
        refine (h.add i name).congr fun j l => ?_
        by_cases hj : j = i
        · subst hj; simp [hi, changeLabels, Names.mem_insert]
        · simp [hj]
      | removeLabel name =>
        refine (h.remove i name).congr fun j l => ?_
        by_cases hj : j = i
        · subst hj; simp [hi, changeLabels, Names.mem_erase hl]
        · simp [hj]
      | setProperty name v =>
        refine h.congr fun j l => ?_
        by_cases hj : j = i
        · subst hj; simp [hi, changeLabels]
        · simp [hj]
      | removeProperty name =>
        refine h.congr fun j l => ?_
        by_cases hj : j = i
        · subst hj; simp [hi, changeLabels]
        · simp [hj]
    refine (ih hstep hl' fun l => by simp).congr fun j l => ?_
    by_cases hj : j = i <;> simp [hj]

theorem vertexAt?_changeVertex (s : Store) (i : Nat) (changes : List Change) (j : Nat) :
    (s.changeVertex i changes).vertexAt? j = if i = j then (s.vertexAt? j).map fun v =>
      { v with properties := changes.foldl changeProperties v.properties
               labels := changes.foldl changeLabels v.labels } else s.vertexAt? j := by
  unfold vertexAt? changeVertex
  rw [Slots.get?_modify]
  split
  · rw [Option.map_map, Option.map_map]; rfl
  · rfl

theorem Consistent.changeVertex {s : Store} (h : s.Consistent) {i : Nat} {v : Vertex}
    (hv : s.vertexAt? i = some v) {changes : List Change}
    (hd : s.Defines (changes.filterMap setting?)) : (s.changeVertex i changes).Consistent := by
  have hat := vertexAt?_changeVertex s i changes
  obtain ⟨hl, hp, hdef⟩ := h.vertexParts i v hv
  have hids : ∀ j id, (∃ w, (s.changeVertex i changes).vertexAt? j = some w ∧ w.id = id) ↔
      ∃ w, s.vertexAt? j = some w ∧ w.id = id := by
    intro j id
    rw [hat]
    split
    · simp
    · rfl
  exact {
    vertices := h.vertices.modify _ _
    edges := h.edges
    vertexSlots := h.vertexSlots.congr fun j id => (hids j id).symm
    edgeSlots := h.edgeSlots
    labelSlots := (foldl_changeIndex h.labelSlots i hl (fun l => by simp [hv]) changes).congr
      fun j l => by
        rw [hat]
        by_cases hj : j = i
        · subst hj; simp [hv]
        · simp [hj, Ne.symm hj]
    typeSlots := h.typeSlots
    ends := fun j c side hc => (hids _ _).2 (h.ends j c side hc)
    attached := fun j c side hc => by
      have hget := Slots.get?_modify s.vertices i j fun c => { c with vertex := { c.vertex with
        properties := changes.foldl changeProperties c.vertex.properties
        labels := changes.foldl changeLabels c.vertex.labels } }
      rw [show (s.changeVertex i changes).vertices = s.vertices.modify i _ from rfl, hget] at hc
      split at hc
      · obtain ⟨d, hd, rfl⟩ := Option.map_eq_some_iff.1 hc
        have := h.attached j d side hd
        cases side <;> exact this
      · exact h.attached j c side hc
    vertexParts := fun j w hw => by
      rw [hat] at hw
      split at hw
      · next hj =>
        subst hj
        rw [hv] at hw
        cases hw
        refine ⟨foldl_changeLabels_pairwise hl changes, foldl_changeProperties_sorted hp changes, ?_⟩
        intro p hp hnull
        rcases mem_foldl_changeProperties hp with hp | hp
        · exact hdef p hp hnull
        · exact hd p hp hnull
      · exact h.vertexParts j w hw
    edgeParts := h.edgeParts
    links := h.links }

theorem get?_changeEdge (s : Store) (i : Nat) (changes : List Change) (j : Nat) :
    (s.changeEdge i changes).edges.get? j = if i = j then (s.edges.get? j).map fun c =>
      { c with edge := { c.edge with
        properties := changes.foldl changeProperties c.edge.properties } } else s.edges.get? j := by
  unfold changeEdge
  rw [Slots.get?_modify]

theorem edgeAt?_changeEdge (s : Store) (i : Nat) (changes : List Change) (j : Nat) :
    (s.changeEdge i changes).edgeAt? j = if i = j then (s.edgeAt? j).map fun e =>
      { e with properties := changes.foldl changeProperties e.properties } else s.edgeAt? j := by
  unfold edgeAt?
  rw [get?_changeEdge]
  split
  · rw [Option.map_map, Option.map_map]; rfl
  · rfl

theorem Consistent.changeEdge {s : Store} (h : s.Consistent) (i : Nat) {changes : List Change}
    (hd : s.Defines (changes.filterMap setting?)) : (s.changeEdge i changes).Consistent := by
  have hget := get?_changeEdge s i changes
  have hat := edgeAt?_changeEdge s i changes
  exact {
    vertices := h.vertices
    edges := h.edges.modify _ _
    vertexSlots := h.vertexSlots
    edgeSlots := h.edgeSlots.congr fun j id => by
      rw [hat]
      split <;> simp
    labelSlots := h.labelSlots
    typeSlots := h.typeSlots.congr fun j t => by
      rw [hat]
      split <;> simp
    ends := fun j c side hc => by
      rw [hget] at hc
      split at hc
      · obtain ⟨d, hd, rfl⟩ := Option.map_eq_some_iff.1 hc
        have := h.ends j d side hd
        cases side <;> exact this
      · exact h.ends j c side hc
    attached := fun j c side hc => by
      obtain ⟨hnodup, hmem⟩ := h.attached j c side hc
      refine ⟨hnodup, fun k => (hmem k).trans ?_⟩
      rw [hget]
      split
      · cases side <;> simp [EdgeCell.slot]
      · rfl
    vertexParts := h.vertexParts
    edgeParts := fun j e he => by
      rw [hat] at he
      split at he
      · obtain ⟨old, hold, rfl⟩ := Option.map_eq_some_iff.1 he
        obtain ⟨hp, hdef⟩ := h.edgeParts j old hold
        refine ⟨foldl_changeProperties_sorted hp changes, ?_⟩
        intro p hp hnull
        rcases mem_foldl_changeProperties hp with hp | hp
        · exact hdef p hp hnull
        · exact hd p hp hnull
      · exact h.edgeParts j e he
    links := h.links }

/-! ## A removed edge -/

/-- The graph without the edge in a slot. -/
def dropEdge (s : Store) (i : Nat) (c : EdgeCell) : Store :=
  { s with
    vertices := relist s.vertices c (·.erase i)
    edges := s.edges.erase i
    edgeSlots := Entries.erase c.edge.id s.edgeSlots
    typeSlots := SlotIndex.remove i s.typeSlots c.edge.type }

theorem removeEdgeAt_eq {s : Store} (hs : s.links = none) (i : Nat) :
    s.removeEdgeAt i = match s.edges.get? i with
      | none => s
      | some c => s.dropEdge i c := by
  unfold removeEdgeAt
  cases s.edges.get? i with
  | none => rfl
  | some c => exact relink_of_links_eq_none (s := s.dropEdge i c) hs _

theorem edgeAt?_dropEdge (s : Store) (i : Nat) (c : EdgeCell) (j : Nat) :
    (s.dropEdge i c).edgeAt? j = if j = i then none else s.edgeAt? j := by
  unfold edgeAt? dropEdge
  rw [Slots.get?_erase]
  split <;> rfl

theorem Consistent.dropEdge {s : Store} (h : s.Consistent) {i : Nat} {c : EdgeCell}
    (hc : s.edges.get? i = some c) : (s.dropEdge i c).Consistent := by
  have hvertex : ∀ j, (s.dropEdge i c).vertexAt? j = s.vertexAt? j :=
    vertex_relist s.vertices c _
  have hat := edgeAt?_dropEdge s i c
  have hget : ∀ j, (s.dropEdge i c).edges.get? j = if j = i then none else s.edges.get? j :=
    Slots.get?_erase s.edges i
  have hedge : s.edgeAt? i = some c.edge := edgeAt?_eq_some.2 ⟨c, hc, rfl⟩
  exact {
    vertices := sound_relist h.vertices c (·.erase i)
    edges := h.edges.erase i
    vertexSlots := h.vertexSlots.congr fun j id => by simp only [hvertex]
    edgeSlots := (h.edgeSlots.erase ⟨c.edge, hedge, rfl⟩).congr fun j id => by
      rw [hat, exists_ite_none]
      by_cases hj : j = i
      · subst hj; simp [hedge, eq_comm]
      · simp [hj]
    labelSlots := h.labelSlots.congr fun j l => by simp only [hvertex]
    typeSlots := (h.typeSlots.remove i c.edge.type).congr fun j t => by
      rw [hat, exists_ite_none]
      by_cases hj : j = i
      · subst hj; simp [hedge, eq_comm]
      · simp [hj]
    ends := fun j d side hd => by
      rw [hvertex]
      rw [hget] at hd
      split at hd
      · cases hd
      · exact h.ends j d side hd
    attached := fun k v' side hv' => by
      obtain ⟨v, hv, hedges⟩ := edges_relist hv' side
      obtain ⟨hnodup, hmem⟩ := h.attached k v side hv
      rw [hedges]
      constructor
      · split
        · exact hnodup.erase i
        · exact hnodup
      · intro j
        rw [hget, exists_ite_none, ← hmem]
        split
        · rw [hnodup.mem_erase_iff]
        · next hk =>
          -- the edge does not stand in the list of another vertex
          refine ⟨fun hj => ⟨?_, hj⟩, And.right⟩
          rintro rfl
          obtain ⟨d, hd, hslot⟩ := (hmem j).1 hj
          rw [hc] at hd
          cases hd
          exact hk hslot
    vertexParts := fun j v hv => h.vertexParts j v (by rw [← hvertex]; exact hv)
    edgeParts := fun j e he => by
      rw [hat] at he
      split at he
      · cases he
      · exact h.edgeParts j e he
    links := h.links }

theorem Consistent.removeEdgeAt {s : Store} (h : s.Consistent) (i : Nat) :
    (s.removeEdgeAt i).Consistent := by
  rw [removeEdgeAt_eq h.links]
  split
  · exact h
  · next c hc => exact h.dropEdge hc

theorem vertexAt?_removeEdgeAt {s : Store} (hs : s.links = none) (i j : Nat) :
    (s.removeEdgeAt i).vertexAt? j = s.vertexAt? j := by
  rw [removeEdgeAt_eq hs]
  split
  · rfl
  · exact vertex_relist s.vertices _ _ j

theorem get?_removeEdgeAt {s : Store} (hs : s.links = none) (i j : Nat) :
    (s.removeEdgeAt i).edges.get? j = if j = i then none else s.edges.get? j := by
  rw [removeEdgeAt_eq hs]
  split
  · next hi =>
    by_cases hj : j = i
    · subst hj; simp [hi]
    · simp [hj]
  · exact Slots.get?_erase s.edges i j

/-- Several edges are removed, and nothing else happens to vertices and edges. -/
theorem Consistent.foldl_removeEdgeAt {s : Store} (h : s.Consistent) (slots : List Nat) :
    (slots.foldl Store.removeEdgeAt s).Consistent ∧
      (∀ j, (slots.foldl Store.removeEdgeAt s).vertexAt? j = s.vertexAt? j) ∧
      ∀ j, (slots.foldl Store.removeEdgeAt s).edges.get? j =
        if j ∈ slots then none else s.edges.get? j := by
  induction slots generalizing s with
  | nil => exact ⟨h, fun _ => rfl, fun _ => by simp⟩
  | cons i rest ih =>
    obtain ⟨hc, hv, he⟩ := ih (h.removeEdgeAt i)
    refine ⟨hc, fun j => (hv j).trans (vertexAt?_removeEdgeAt h.links i j), fun j => ?_⟩
    rw [List.foldl_cons, he, get?_removeEdgeAt h.links]
    by_cases hj : j = i <;> by_cases hr : j ∈ rest <;> simp [hj, hr]

/-! ## A removed vertex -/

/-- The graph without the vertex in a slot, which has no edges. -/
def dropVertex (s : Store) (i : Nat) (v : Vertex) : Store :=
  { s with
    vertices := s.vertices.erase i
    vertexSlots := Entries.erase v.id s.vertexSlots
    labelSlots := v.labels.foldl (SlotIndex.remove i) s.labelSlots }

theorem vertexAt?_dropVertex (s : Store) (i : Nat) (v : Vertex) (j : Nat) :
    (s.dropVertex i v).vertexAt? j = if j = i then none else s.vertexAt? j := by
  unfold vertexAt? dropVertex
  rw [Slots.get?_erase]
  split <;> rfl

theorem Consistent.dropVertex {s : Store} (h : s.Consistent) {i : Nat} {v : Vertex}
    (hv : s.vertexAt? i = some v)
    (hbare : ∀ j c side, s.edges.get? j = some c → c.slot side ≠ i) :
    (s.dropVertex i v).Consistent := by
  have hat := vertexAt?_dropVertex s i v
  exact {
    vertices := h.vertices.erase i
    edges := h.edges
    vertexSlots := (h.vertexSlots.erase ⟨v, hv, rfl⟩).congr fun j id => by
      rw [hat, exists_ite_none]
      by_cases hj : j = i
      · subst hj; simp [hv, eq_comm]
      · simp [hj]
    edgeSlots := h.edgeSlots
    labelSlots := (h.labelSlots.removeAll i v.labels).congr fun j l => by
      rw [hat, exists_ite_none]
      by_cases hj : j = i
      · subst hj; simp [hv]
      · simp [hj]
    typeSlots := h.typeSlots
    ends := fun j c side hc => by
      rw [hat, if_neg (hbare j c side hc)]
      exact h.ends j c side hc
    attached := fun j c side hc => by
      have hget := Slots.get?_erase s.vertices i j
      rw [show (s.dropVertex i v).vertices = s.vertices.erase i from rfl, hget] at hc
      split at hc
      · cases hc
      · exact h.attached j c side hc
    vertexParts := fun j w hw => by
      rw [hat] at hw
      split at hw
      · cases hw
      · exact h.vertexParts j w hw
    edgeParts := h.edgeParts
    links := h.links }

/-- The edges of a vertex on one side, removed. -/
def clearSide (s : Store) (i : Nat) (side : Side) : Store :=
  match s.vertices.get? i with
  | some c => (c.edges side).foldl Store.removeEdgeAt s
  | none => s

theorem Consistent.clearSide {s : Store} (h : s.Consistent) (i : Nat) (side : Side) :
    (s.clearSide i side).Consistent ∧
      (∀ j, (s.clearSide i side).vertexAt? j = s.vertexAt? j) ∧
      ∀ j c, (s.clearSide i side).edges.get? j = some c →
        s.edges.get? j = some c ∧ c.slot side ≠ i := by
  unfold Store.clearSide
  split
  · next v hv =>
    obtain ⟨hc, hvertex, hget⟩ := h.foldl_removeEdgeAt (v.edges side)
    refine ⟨hc, hvertex, fun j c hj => ?_⟩
    rw [hget] at hj
    split at hj
    · cases hj
    · next hmem =>
      refine ⟨hj, fun hslot => hmem ?_⟩
      exact ((h.attached i v side hv).2 j).2 ⟨c, hj, hslot⟩
  · next hv =>
    refine ⟨h, fun _ => rfl, fun j c hj => ⟨hj, ?_⟩⟩
    rintro rfl
    obtain ⟨w, hw, -⟩ := h.ends j c side hj
    rw [vertexAt?, hv] at hw
    cases hw

/-- The vertex in a slot, which has no edges, is taken out. -/
def vacate (s : Store) (i : Nat) : Store :=
  match s.vertices.get? i with
  | none => s
  | some c => (s.dropVertex i c.vertex).relink (Links.vacate i)

theorem Consistent.removeVertexAt {s : Store} (h : s.Consistent) (i : Nat) :
    (s.removeVertexAt i).Consistent := by
  obtain ⟨h1, hv1, he1⟩ := h.clearSide i .outgoing
  obtain ⟨h2, hv2, he2⟩ := h1.clearSide i .incoming
  rw [show s.removeVertexAt i = ((s.clearSide i .outgoing).clearSide i .incoming).vacate i from rfl]
  unfold vacate
  split
  · exact h2
  · next c hc =>
    have hdrop := h2.dropVertex (vertexAt?_eq_some.2 ⟨c, hc, rfl⟩) ?_
    · rw [relink_of_links_eq_none hdrop.links]
      exact hdrop
    · intro j d side hd
      obtain ⟨hd1, hin⟩ := he2 j d hd
      obtain ⟨-, hout⟩ := he1 j d hd1
      cases side
      · exact hout
      · exact hin

end Store

end PropertyGraph
