import Mathlib.Algebra.BigOperators.Group.Finset.Basic
import Mathlib.Algebra.GroupWithZero.Nat
import PropertyGraph.Proofs.Store.Reachable
import PropertyGraph.Proofs.Store.Removal

/-!
# How much a store holds

The numbers of vertices and of edges, and of the labels that all vertices carry together.  They are
sums over the slots, so that a write changes them by what it changes in one slot.

    Slots.sum_update              a total where one slot differs
    Store.ReplacesVertex          in one slot there is another vertex than before, or none
    Consistent.replaces_change, ...
                                  what every write replaces
    length_foldl_addLabel, ...    by how many labels a change differs
-/

namespace PropertyGraph

/-! ## Sums over slots -/

/-- Two functions that agree everywhere but in one place. -/
theorem sum_range_update {f g : Nat → Nat} {i n : Nat} (hi : i < n)
    (h : ∀ j, j ≠ i → g j = f j) :
    (∑ j ∈ Finset.range n, g j) + f i = (∑ j ∈ Finset.range n, f j) + g i := by
  have hmem : i ∈ Finset.range n := Finset.mem_range.2 hi
  have hrest : ∑ j ∈ (Finset.range n).erase i, g j = ∑ j ∈ (Finset.range n).erase i, f j :=
    Finset.sum_congr rfl fun j hj => h j (Finset.ne_of_mem_erase hj)
  rw [← Finset.add_sum_erase _ g hmem, ← Finset.add_sum_erase _ f hmem, hrest]
  omega

/-- The weights of all elements are those of the slots; an empty slot weighs nothing. -/
theorem Slots.sum_values {α : Type} (s : Slots α) (w : α → Nat) {n : Nat}
    (hn : s.cells.size ≤ n) :
    (s.values.map w).sum = ∑ i ∈ Finset.range n, ((s.get? i).map w).getD 0 := by
  have hcells : ∀ (cells : List (Option α)) (n : Nat), cells.length ≤ n →
      ((cells.filterMap id).map w).sum =
        ∑ i ∈ Finset.range n, ((cells[i]?.join).map w).getD 0 := by
    intro cells
    induction cells with
    | nil => exact fun n _ => (Finset.sum_eq_zero fun _ _ => rfl).symm
    | cons cell rest ih =>
      intro n hn
      obtain ⟨m, rfl⟩ : ∃ m, n = m + 1 := ⟨n - 1, by rw [List.length_cons] at hn; omega⟩
      rw [Finset.sum_range_succ']
      have hrest := ih m (Nat.le_of_succ_le_succ hn)
      simp only [List.getElem?_cons_succ, List.getElem?_cons_zero, Option.join_some]
      rw [← hrest]
      cases cell with
      | none => rfl
      | some a => exact Nat.add_comm (w a) _
  have hs := hcells s.cells.toList n (by rwa [Array.length_toList])
  unfold Slots.values Slots.get?
  simpa only [Array.getElem?_toList] using hs

/-- Two collections that show the same everywhere but in one slot. -/
theorem Slots.sum_update {α β : Type} (look : α → β) (w : β → Nat) {s t : Slots α} (i : Nat)
    (h : ∀ j, j ≠ i → (t.get? j).map look = (s.get? j).map look) :
    ((t.values.map look).map w).sum + (((s.get? i).map look).map w).getD 0 =
      ((s.values.map look).map w).sum + (((t.get? i).map look).map w).getD 0 := by
  have hsum : ∀ {r : Slots α} {n : Nat}, r.cells.size ≤ n → ((r.values.map look).map w).sum =
      ∑ j ∈ Finset.range n, (((r.get? j).map look).map w).getD 0 := by
    intro r n hn
    rw [List.map_map, r.sum_values _ hn]
    simp only [Option.map_map]
  -- a bound for the slots of both
  obtain ⟨n, hs, ht, hi⟩ : ∃ n, s.cells.size ≤ n ∧ t.cells.size ≤ n ∧ i < n :=
    ⟨s.cells.size + t.cells.size + i + 1, by omega, by omega, by omega⟩
  rw [hsum hs, hsum ht]
  exact sum_range_update (f := fun j => (((s.get? j).map look).map w).getD 0) hi
    fun j hj => by rw [h j hj]

theorem Slots.length_update {α β : Type} (look : α → β) {s t : Slots α} (i : Nat)
    (h : ∀ j, j ≠ i → (t.get? j).map look = (s.get? j).map look) :
    t.values.length + ((s.get? i).map look).toList.length =
      s.values.length + ((t.get? i).map look).toList.length := by
  have hone : ∀ o : Option β, (o.map fun _ => 1).getD 0 = o.toList.length := fun o => by
    cases o <;> rfl
  have hsum := Slots.sum_update look (fun _ => 1) i h
  simpa only [List.map_const', List.sum_replicate_nat, Nat.mul_one, hone,
    List.length_map] using hsum

theorem Names.length_insert {name : String} {names : Names} (h : name ∉ names) :
    (insert name names).length = names.length + 1 := by
  induction names with
  | nil => rfl
  | cons first rest ih =>
    obtain ⟨hne, hrest⟩ := not_or.1 (List.mem_cons.not.1 h)
    unfold insert
    rw [if_neg (Ne.symm hne)]
    split
    · rfl
    · exact congrArg Nat.succ (ih hrest)

namespace Store

/-! ## Totals -/

/-- The number of vertices. -/
def vertexCount (s : Store) : Nat :=
  s.allVertices.length

/-- The number of edges. -/
def edgeCount (s : Store) : Nat :=
  s.allEdges.length

/-- The number of labels that the vertices carry, each vertex for itself. -/
def labelPairs (s : Store) : Nat :=
  (s.allVertices.map (·.labels.length)).sum

variable {s t u : Store}

theorem vertexCount_update (i : Nat) (h : ∀ j, j ≠ i → t.vertexAt? j = s.vertexAt? j) :
    t.vertexCount + (s.vertexAt? i).toList.length =
      s.vertexCount + (t.vertexAt? i).toList.length := by
  unfold vertexCount allVertices
  rw [List.length_map, List.length_map]
  exact Slots.length_update VertexCell.vertex i h

theorem edgeCount_update (i : Nat) (h : ∀ j, j ≠ i → t.edgeAt? j = s.edgeAt? j) :
    t.edgeCount + (s.edgeAt? i).toList.length = s.edgeCount + (t.edgeAt? i).toList.length := by
  unfold edgeCount allEdges
  rw [List.length_map, List.length_map]
  exact Slots.length_update EdgeCell.edge i h

theorem labelPairs_update (i : Nat) (h : ∀ j, j ≠ i → t.vertexAt? j = s.vertexAt? j) :
    t.labelPairs + ((s.vertexAt? i).map (·.labels.length)).getD 0 =
      s.labelPairs + ((t.vertexAt? i).map (·.labels.length)).getD 0 :=
  Slots.sum_update VertexCell.vertex (·.labels.length) i h

/-! ## Elements replaced -/

/-- All elements can be seen by the reader. -/
structure Visible (reader : Authorizations) (s : Store) : Prop where
  vertices : ∀ i v, s.vertexAt? i = some v → reader.canRead v.visibility = true
  edges : ∀ i e, s.edgeAt? i = some e → reader.canRead e.visibility = true

/-- In one slot there is another vertex, or none before or afterwards; all else stands as before. -/
def ReplacesVertex (s t : Store) (o o' : Option Vertex) : Prop :=
  ∃ i, s.vertexAt? i = o ∧ t.vertexAt? i = o' ∧ (∀ j, j ≠ i → t.vertexAt? j = s.vertexAt? j) ∧
    ∀ j, t.edgeAt? j = s.edgeAt? j

/-- In one slot there is another edge, or none before or afterwards; all else stands as before. -/
def ReplacesEdge (s t : Store) (o o' : Option Edge) : Prop :=
  ∃ i, s.edgeAt? i = o ∧ t.edgeAt? i = o' ∧ (∀ j, j ≠ i → t.edgeAt? j = s.edgeAt? j) ∧
    ∀ j, t.vertexAt? j = s.vertexAt? j

theorem ReplacesVertex.totals {o o' : Option Vertex} (h : s.ReplacesVertex t o o') :
    t.vertexCount + o.toList.length = s.vertexCount + o'.toList.length ∧
      t.edgeCount = s.edgeCount ∧
        t.labelPairs + (o.map (·.labels.length)).getD 0 =
          s.labelPairs + (o'.map (·.labels.length)).getD 0 := by
  obtain ⟨i, rfl, rfl, hv, he⟩ := h
  have hedges := edgeCount_update 0 fun j _ => he j
  rw [he] at hedges
  exact ⟨vertexCount_update i hv, Nat.add_right_cancel hedges, labelPairs_update i hv⟩

theorem ReplacesEdge.totals {o o' : Option Edge} (h : s.ReplacesEdge t o o') :
    t.vertexCount = s.vertexCount ∧
      t.edgeCount + o.toList.length = s.edgeCount + o'.toList.length ∧
        t.labelPairs = s.labelPairs := by
  obtain ⟨i, rfl, rfl, he, hv⟩ := h
  have hvertices := vertexCount_update 0 fun j _ => hv j
  have hlabels := labelPairs_update 0 fun j _ => hv j
  rw [hv] at hvertices hlabels
  exact ⟨Nat.add_right_cancel hvertices, edgeCount_update i he, Nat.add_right_cancel hlabels⟩

theorem ReplacesVertex.visible {reader : Authorizations} {o o' : Option Vertex}
    (h : s.ReplacesVertex t o o') (hs : s.Visible reader)
    (ho : ∀ v ∈ o', reader.canRead v.visibility = true) : t.Visible reader := by
  obtain ⟨i, rfl, rfl, hv, he⟩ := h
  refine ⟨fun j v hj => ?_, fun j e hj => hs.edges j e (by rwa [← he])⟩
  by_cases hji : j = i
  · subst hji; exact ho v hj
  · exact hs.vertices j v (by rwa [← hv j hji])

theorem ReplacesEdge.visible {reader : Authorizations} {o o' : Option Edge}
    (h : s.ReplacesEdge t o o') (hs : s.Visible reader)
    (ho : ∀ e ∈ o', reader.canRead e.visibility = true) : t.Visible reader := by
  obtain ⟨i, rfl, rfl, he, hv⟩ := h
  refine ⟨fun j v hj => hs.vertices j v (by rwa [← hv]), fun j e hj => ?_⟩
  by_cases hji : j = i
  · subst hji; exact ho e hj
  · exact hs.edges j e (by rwa [← he j hji])

/-! ## Writes -/

theorem vertexAt?_removeVertexAt (h : s.Consistent) (i j : Nat) :
    (s.removeVertexAt i).vertexAt? j = if j = i then none else s.vertexAt? j := by
  obtain ⟨h₁, hv₁, -⟩ := h.clearSide i .outgoing
  obtain ⟨h₂, hv₂, -⟩ := h₁.clearSide i .incoming
  rw [← hv₁ j, ← hv₂ j]
  rw [show s.removeVertexAt i = ((s.clearSide i .outgoing).clearSide i .incoming).vacate i from rfl]
  generalize (s.clearSide i .outgoing).clearSide i .incoming = r at h₂
  unfold vacate
  split
  · next hi =>
    by_cases hj : j = i
    · subst hj; rw [if_pos rfl, vertexAt?, hi]; rfl
    · rw [if_neg hj]
  · next c hc =>
    rw [relink_of_links_eq_none (s := r.dropVertex i c.vertex) h₂.links]
    exact vertexAt?_dropVertex r i c.vertex j

theorem Consistent.replaces_addVertex (h : s.Consistent) {v : Vertex}
    (hs : s.addVertex v = .ok t) : s.ReplacesVertex t none (some v) := by
  rw [addVertex_eq h.links] at hs
  split at hs
  · cases hs
  · cases hs
    obtain ⟨d, hd⟩ := defineAll_eq s v.properties
    rw [hd]
    have hat := vertexAt?_putVertex (s := { s with definitions := d }) h.vertices v
    refine ⟨s.vertices.next, ?_, (hat _).trans (if_pos rfl), fun j hj => (hat j).trans (if_neg hj),
      fun _ => rfl⟩
    rw [vertexAt?, Slots.get?_next h.vertices]
    rfl

theorem Consistent.replaces_addEdge (h : s.Consistent) {e : Edge} (hs : s.addEdge e = .ok t) :
    s.ReplacesEdge t none (some e) := by
  rw [addEdge_eq h.links] at hs
  split at hs
  · cases hs
  · split at hs
    · cases hs
    · cases hs
    · next source target _ _ =>
      cases hs
      obtain ⟨d, hd⟩ := defineAll_eq s e.properties
      rw [hd]
      have hat := edgeAt?_putEdge (s := { s with definitions := d }) h.edges ⟨e, source, target⟩
      refine ⟨s.edges.next, ?_, (hat _).trans (if_pos rfl), fun j hj => (hat j).trans (if_neg hj),
        vertexAt?_putEdge (s := { s with definitions := d }) _⟩
      rw [edgeAt?, Slots.get?_next h.edges]
      rfl

/-- A change that succeeds replaces one vertex or one edge. -/
theorem Consistent.replaces_change (h : s.Consistent) {target : ElementId} {changes : List Change}
    {saved : Value} (hs : s.change target changes = (.ok saved, t)) :
    (∃ id v, target = .vertex id ∧ s.vertex? id = some v ∧
      s.ReplacesVertex t (some v) (some { v with
        properties := changes.foldl changeProperties v.properties
        labels := changes.foldl changeLabels v.labels })) ∨
    ∃ id e e', target = .edge id ∧ e'.visibility = e.visibility ∧
      s.ReplacesEdge t (some e) (some e') := by
  obtain ⟨d, hd⟩ := defineAll_eq s (changes.filterMap setting?)
  unfold Store.change at hs
  rw [defineChanged_eq, hd] at hs
  cases target with
  | vertex id =>
    simp only at hs
    split at hs
    · cases hs
    · next i hi =>
      obtain ⟨v, hv, -⟩ := (h.vertexSlots.2 id i).1 hi
      have hat := vertexAt?_changeVertex { s with definitions := d } i changes
      split at hs
      · cases hs
      · cases hs
        refine Or.inl ⟨id, v, rfl, Option.bind_eq_some_iff.2 ⟨i, hi, hv⟩, i, hv, ?_,
          fun j hj => (hat j).trans (if_neg (Ne.symm hj)), fun _ => rfl⟩
        rw [hat, if_pos rfl]
        exact congrArg (Option.map _) hv
  | edge id =>
    simp only at hs
    split at hs
    · cases hs
    · next i hi =>
      obtain ⟨e, he, -⟩ := (h.edgeSlots.2 id i).1 hi
      have hat := edgeAt?_changeEdge { s with definitions := d } i
        (changes.takeWhile (!isLabelChange ·))
      split at hs
      · cases hs
      · split at hs
        · cases hs
        · cases hs
          refine Or.inr ⟨id, e, _, rfl, ?_, i, he,
            (hat i).trans ((if_pos rfl).trans (congrArg (Option.map _) he)),
            fun j hj => (hat j).trans (if_neg (Ne.symm hj)), fun _ => rfl⟩
          rfl

theorem Consistent.replaces_removeEdge (h : s.Consistent) {id : String}
    (hs : s.removeEdge id = .ok t) : ∃ e, s.ReplacesEdge t (some e) none := by
  unfold removeEdge at hs
  split at hs
  · cases hs
  · next i hi =>
    cases hs
    obtain ⟨e, he, -⟩ := (h.edgeSlots.2 id i).1 hi
    have hat : ∀ j, (s.removeEdgeAt i).edgeAt? j = if j = i then none else s.edgeAt? j := by
      intro j
      unfold edgeAt?
      rw [get?_removeEdgeAt h.links]
      split <;> rfl
    exact ⟨e, i, he, (hat i).trans (if_pos rfl), fun j hj => (hat j).trans (if_neg hj),
      vertexAt?_removeEdgeAt h.links i⟩

/-- A vertex without edges is removed alone. -/
theorem Consistent.replaces_removeVertex (h : s.Consistent) {id : String}
    (hbare : ∀ other e, s.edge? other = some e → ¬ e.LeadsFrom .undirected id)
    (hs : s.removeVertex id = .ok t) : ∃ v, s.ReplacesVertex t (some v) none := by
  unfold removeVertex at hs
  split at hs
  · cases hs
  · next i hi =>
    cases hs
    obtain ⟨v, hv, hid⟩ := (h.vertexSlots.2 id i).1 hi
    -- no edge lies at the slot
    have hfree : ∀ j c side, s.edges.get? j = some c → c.slot side ≠ i := by
      intro j c side hc hslot
      have hend := (h.slot_eq_iff hv hc side).1 hslot
      refine hbare c.edge.id c.edge
        ((edge?_eq_some h).2 ⟨rfl, j, edgeAt?_eq_some.2 ⟨c, hc, rfl⟩⟩) ?_
      rw [hid] at hend
      cases side with
      | outgoing => exact Or.inl hend
      | incoming => exact Or.inr hend
    have hedges : ∀ j, (s.removeVertexAt i).edgeAt? j = s.edgeAt? j := by
      intro j
      refine congrArg (Option.map EdgeCell.edge) (Option.ext fun c => ?_)
      rw [get?_removeVertexAt h]
      exact and_iff_left_of_imp fun hc side => hfree j c side hc
    have hat := vertexAt?_removeVertexAt h i
    exact ⟨v, i, hv, (hat i).trans (if_pos rfl), fun j hj => (hat j).trans (if_neg hj), hedges⟩

/-! ## Changed labels -/

/-- Changes of properties only. -/
theorem foldl_changeLabels_of_none {changes : List Change}
    (h : ∀ c ∈ changes, isLabelChange c = false) (labels : Names) :
    changes.foldl changeLabels labels = labels := by
  induction changes with
  | nil => rfl
  | cons c rest ih =>
    obtain ⟨hc, hrest⟩ := List.forall_mem_cons.1 h
    have hsame : changeLabels labels c = labels := by
      cases c with
      | setProperty name v => rfl
      | removeProperty name => rfl
      | addLabel l => cases hc
      | removeLabel l => cases hc
    rw [List.foldl_cons, hsame]
    exact ih hrest

/-- Different labels that are all new. -/
theorem length_foldl_addLabel {new : List String} {labels : Names} (hnodup : new.Nodup)
    (hnew : ∀ l ∈ new, l ∉ labels) :
    ((new.map Change.addLabel).foldl changeLabels labels).length = labels.length + new.length := by
  induction new generalizing labels with
  | nil => rfl
  | cons l rest ih =>
    obtain ⟨hl, hrest⟩ := List.nodup_cons.1 hnodup
    obtain ⟨hfirst, hothers⟩ := List.forall_mem_cons.1 hnew
    have hleft : ∀ l' ∈ rest, l' ∉ Names.insert l labels := by
      intro l' hl' hmem
      rcases (Names.mem_insert l l' labels).1 hmem with rfl | hmem
      · exact hl hl'
      · exact hothers l' hl' hmem
    rw [List.map_cons, List.foldl_cons, List.length_cons, ← Nat.add_assoc, Nat.add_right_comm,
      ← Names.length_insert hfirst]
    exact ih hrest hleft

/-- Different labels that are all there. -/
theorem length_foldl_removeLabel {old : List String} {labels : Names}
    (hlabels : labels.Pairwise (· < ·)) (hnodup : old.Nodup) (hold : ∀ l ∈ old, l ∈ labels) :
    ((old.map Change.removeLabel).foldl changeLabels labels).length + old.length =
      labels.length := by
  induction old generalizing labels with
  | nil => rfl
  | cons l rest ih =>
    obtain ⟨hl, hrest⟩ := List.nodup_cons.1 hnodup
    obtain ⟨hfirst, hothers⟩ := List.forall_mem_cons.1 hold
    have hleft : ∀ l' ∈ rest, l' ∈ Names.erase l labels := fun l' hl' =>
      (Names.mem_erase hlabels l l').2 ⟨fun heq => hl (heq ▸ hl'), hothers l' hl'⟩
    have hlength : (Names.erase l labels).length + 1 = labels.length := by
      rw [Names.erase_eq, List.length_erase_of_mem hfirst]
      have := List.length_pos_of_mem hfirst
      omega
    rw [List.map_cons, List.foldl_cons, List.length_cons, ← Nat.add_assoc, ← hlength]
    exact congrArg Nat.succ (ih (Names.pairwise_erase hlabels l) hrest hleft)

end Store

end PropertyGraph
