import PropertyGraph.Proofs.Store.Reading
import PropertyGraph.Proofs.Store.Writes

/-!
# What a removal leaves

The edges that are left when an edge or a vertex has been removed from a consistent store, told by
their ids: a removed edge takes no other edge with it, and a removed vertex takes all edges that
have it as an end, whoever may see them.

    edge?_removeEdge      the edges left by the removal of an edge
    edge?_removeVertex    the edges left by the removal of a vertex
-/

namespace PropertyGraph.Store

variable {s s' : Store} {id : String}

theorem edge?_removeEdge (h : s.Consistent) (hs : s.removeEdge id = .ok s') :
    s'.Consistent ∧ ∀ other e, s'.edge? other = some e ↔ s.edge? other = some e ∧ other ≠ id := by
  unfold removeEdge at hs
  split at hs
  · cases hs
  · next i hi =>
    cases hs
    have hleft := h.removeEdgeAt i
    refine ⟨hleft, fun other e => ?_⟩
    have hat : ∀ j, (s.removeEdgeAt i).edgeAt? j = if j = i then none else s.edgeAt? j := by
      intro j
      unfold edgeAt?
      rw [get?_removeEdgeAt h.links]
      split <;> rfl
    obtain ⟨e₀, he₀, hid⟩ := (h.edgeSlots.2 id i).1 hi
    rw [edge?_eq_some hleft, edge?_eq_some h]
    constructor
    · rintro ⟨rfl, j, hj⟩
      rw [hat] at hj
      split at hj
      · cases hj
      · next hne =>
        exact ⟨⟨rfl, j, hj⟩, fun heq => hne (h.edgeSlots.unique ⟨e, hj, heq⟩ ⟨e₀, he₀, hid⟩)⟩
    · rintro ⟨⟨rfl, j, hj⟩, hne⟩
      refine ⟨rfl, j, ?_⟩
      rw [hat, if_neg, hj]
      rintro rfl
      rw [he₀] at hj
      cases hj
      exact hne hid

/-! ## A vertex with its edges -/

theorem get?_clearSide (h : s.Consistent) (i : Nat) (side : Side) (j : Nat) (c : EdgeCell) :
    (s.clearSide i side).edges.get? j = some c ↔ s.edges.get? j = some c ∧ c.slot side ≠ i := by
  refine ⟨(h.clearSide i side).2.2 j c, fun ⟨hc, hne⟩ => ?_⟩
  unfold clearSide
  split
  · next v hv =>
    rw [(h.foldl_removeEdgeAt (v.edges side)).2.2, if_neg, hc]
    intro hmem
    obtain ⟨c', hc', hslot⟩ := ((h.attached i v side hv).2 j).1 hmem
    rw [hc] at hc'
    cases hc'
    exact hne hslot
  · exact hc

theorem edges_vacate (s : Store) (i : Nat) : (s.vacate i).edges = s.edges := by
  unfold vacate
  split
  · rfl
  · unfold relink
    split <;> rfl

theorem get?_removeVertexAt (h : s.Consistent) (i j : Nat) (c : EdgeCell) :
    (s.removeVertexAt i).edges.get? j = some c ↔
      s.edges.get? j = some c ∧ ∀ side, c.slot side ≠ i := by
  rw [show s.removeVertexAt i = ((s.clearSide i .outgoing).clearSide i .incoming).vacate i from rfl,
    edges_vacate, get?_clearSide (h.clearSide i .outgoing).1, get?_clearSide h, and_assoc]
  refine and_congr_right fun _ => ⟨fun ⟨hout, hin⟩ side => ?_, fun hall => ⟨hall _, hall _⟩⟩
  cases side with
  | outgoing => exact hout
  | incoming => exact hin

theorem edge?_removeVertex (h : s.Consistent) (hs : s.removeVertex id = .ok s') :
    s'.Consistent ∧ ∀ other e, s'.edge? other = some e ↔
      s.edge? other = some e ∧ ¬ e.LeadsFrom .undirected id := by
  unfold removeVertex at hs
  split at hs
  · cases hs
  · next i hi =>
    cases hs
    have hleft := h.removeVertexAt i
    refine ⟨hleft, fun other e => ?_⟩
    obtain ⟨v, hv, hid⟩ := (h.vertexSlots.2 id i).1 hi
    have hends : ∀ j c, s.edges.get? j = some c →
        ((∀ side, c.slot side ≠ i) ↔ ¬ c.edge.LeadsFrom .undirected id) := by
      intro j c hc
      have hslot := fun side => h.slot_eq_iff hv hc side
      rw [hid] at hslot
      constructor
      · rintro hall (hend | hend)
        · exact hall .outgoing ((hslot .outgoing).2 hend)
        · exact hall .incoming ((hslot .incoming).2 hend)
      · intro hnot side hi
        have hend := (hslot side).1 hi
        cases side with
        | outgoing => exact hnot (Or.inl hend)
        | incoming => exact hnot (Or.inr hend)
    rw [edge?_eq_some hleft, edge?_eq_some h, and_assoc]
    refine and_congr_right fun _ => ?_
    constructor
    · rintro ⟨j, hj⟩
      obtain ⟨c, hc, rfl⟩ := edgeAt?_eq_some.1 hj
      obtain ⟨hc, hall⟩ := (get?_removeVertexAt h i j c).1 hc
      exact ⟨⟨j, edgeAt?_eq_some.2 ⟨c, hc, rfl⟩⟩, (hends j c hc).1 hall⟩
    · rintro ⟨⟨j, hj⟩, hnot⟩
      obtain ⟨c, hc, rfl⟩ := edgeAt?_eq_some.1 hj
      have hc' := (get?_removeVertexAt h i j c).2 ⟨hc, (hends j c hc).2 hnot⟩
      exact ⟨j, edgeAt?_eq_some.2 ⟨c, hc', rfl⟩⟩

end PropertyGraph.Store
