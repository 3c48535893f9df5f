import PropertyGraph.Proofs.Pattern.Blind
import PropertyGraph.Proofs.Pattern.Demands
import PropertyGraph.Proofs.Store.Sight

/-!
# Searches in stores that look alike

A search is told nothing but what the reader sees, except where it gives a constraint up because one
of the property names in it is not defined.  A node that is given up would not find a vertex anyway,
and a relationship that needs an edge would not find one; so it is of no account which names other
elements have defined.  Only a relationship that a walk without edges can be assigned to is given
up although there may be one.

    Search.seedIds_eq           the vertices that a node is tried with, by those that are seen
    Search.AlikeDefined         names in relationships without a least number of edges
    Search.sees_alike           two stores that look alike tell a search the same
-/

namespace PropertyGraph

namespace Search

variable {q : Search} {σ τ : Store} {reader : Authorizations} {config : Config}

/-! ## What is given up would not be found -/

theorem not_passes_null (found : Option Value) : (PropertyTest.equal .null).passes found = false := by
  cases found with
  | none => rfl
  | some v => cases v <;> rfl

/-- Demands are given up for a null or for a property name that is not defined. -/
theorem cause_of_hopeless {properties : List (String × Value)} (labels types : List String)
    (h : hopeless config σ properties = true) :
    (∃ p ∈ properties, p.2 = .null) ∨
      σ.testsUndefined ⟨labels, types, propertyTests config properties, none⟩ = true := by
  obtain ⟨p, hp, hcause⟩ := List.any_eq_true.1 h
  rw [Bool.or_eq_true] at hcause
  refine hcause.imp (fun hnull => ⟨p, hp, ?_⟩) fun hno => ?_
  · cases hv : p.2 <;> rw [hv] at hnull <;> first | rfl | cases hnull
  · exact List.any_eq_true.2 ⟨_, List.mem_map.2 ⟨p, hp, rfl⟩, hno⟩

theorem admitsVertex_of_hopeless (hσ : σ.Consistent) {n : NodeConstraint Value}
    (h : hopeless config σ n.properties = true) {v : Vertex} (hv : v ∈ σ.seenVertices reader) :
    (nodeSelection config n).admitsVertex v = false := by
  rcases cause_of_hopeless (n.labels.map config.label) [] h with ⟨p, hp, hnull⟩ | hundefined
  · unfold Selection.admitsVertex
    rw [Bool.and_eq_false_iff]
    refine Or.inr (List.all_eq_false.2 ⟨_, List.mem_map.2 ⟨p, hp, rfl⟩, ?_⟩)
    simp only [hnull, not_passes_null, Bool.false_eq_true, not_false_eq_true]
  · exact Store.admitsVertex_of_undefined hσ hundefined hv

theorem admitsEdge_of_hopeless (hσ : σ.Consistent) {r : RelationshipConstraint Value}
    (h : hopeless config σ r.properties = true) {e : Edge} (he : e ∈ σ.seenEdges reader) :
    (relationshipSelection config r).admitsEdge e = false := by
  rcases cause_of_hopeless [] r.types h with ⟨p, hp, hnull⟩ | hundefined
  · unfold Selection.admitsEdge
    rw [Bool.and_eq_false_iff]
    refine Or.inr (List.all_eq_false.2 ⟨_, List.mem_map.2 ⟨p, hp, rfl⟩, ?_⟩)
    simp only [hnull, not_passes_null, Bool.false_eq_true, not_false_eq_true]
  · exact Store.admitsEdge_of_undefined hσ hundefined he

/-! ## Cursors and estimates -/

/-- The vertices that a node is tried with are those that the reader sees and the store admits. -/
theorem seedIds_eq (hσ : σ.Consistent) (q : Search) (n : NodeConstraint Value) :
    q.seedIds n σ = ((σ.seenVertices q.ctx.reader).filter
      (nodeSelection q.ctx.config n).admitsVertex).map (·.id) := by
  unfold seedIds
  split
  · next h =>
    rw [List.filter_eq_nil_iff.2 fun v hv => ?_]
    · rfl
    · rw [admitsVertex_of_hopeless hσ h hv]
      exact Bool.false_ne_true
  · next h =>
    have hdefined : σ.testsUndefined (nodeSelection q.ctx.config n) = false :=
      testsUndefined_of_hopeful (Bool.eq_false_iff.2 h)
    rw [Store.selectVertices_eq hσ, hdefined]
    rfl

/-- The estimate for a node is the number of the vertices that it is tried with. -/
theorem nodeNumber_eq (q : Search) (σ : Store) (n : NodeConstraint Value) :
    q.nodeNumber σ n = (q.seedIds n σ).length := by
  unfold nodeNumber seedIds
  split
  · rfl
  · unfold Store.selectVertices
    split <;> rfl

theorem relationshipNumber_eq (hσ : σ.Consistent) (q : Search) (r : RelationshipConstraint Value) :
    q.relationshipNumber σ r = ((σ.seenOfTypes q.ctx.reader r.types).filter
      (relationshipSelection q.ctx.config r).admitsEdge).length := by
  unfold relationshipNumber
  split
  · next h =>
    rw [List.filter_eq_nil_iff.2 fun e he => ?_]
    · rfl
    · rw [admitsEdge_of_hopeless hσ h (Store.seen_of_seenOfTypes he)]
      exact Bool.false_ne_true
  · next h =>
    have hdefined : σ.testsUndefined (relationshipSelection q.ctx.config r) = false :=
      testsUndefined_of_hopeful (Bool.eq_false_iff.2 h)
    rw [Store.selectEdges_eq hσ, hdefined]
    exact List.length_map _

/-! ## Two stores -/

/-- The property names demanded of a relationship are defined in both stores or in none. -/
def AlikeDefined (config : Config) (σ τ : Store) {α : Type} (properties : List (String × α)) :
    Prop :=
  ∀ p ∈ properties, σ.isDefined (config.property p.1) = τ.isDefined (config.property p.1)

theorem hopeless_of_alikeDefined {properties : List (String × Value)}
    (h : AlikeDefined config σ τ properties) :
    hopeless config σ properties = hopeless config τ properties := by
  unfold hopeless
  rw [Bool.eq_iff_iff, List.any_eq_true, List.any_eq_true]
  refine exists_congr fun p => and_congr_right fun hp => ?_
  simp only [h p hp]

/-- The states hold two stores, and the same estimates. -/
structure Holding (σ τ : Store) (s t : RunState) : Prop where
  first : s.store = σ
  second : t.store = τ
  estimates : s.estimates = t.estimates

theorem Holding.uncounted : Uncounted (Holding σ τ) :=
  fun _ _ h _ _ => ⟨h.first, h.second, h.estimates⟩

section Sight

variable (hσ : σ.Consistent) (hτ : τ.Consistent) (halike : σ.SeenAlike q.ctx.reader τ)

include hσ hτ halike

theorem seedIds_alike (n : NodeConstraint Value) : q.seedIds n σ = q.seedIds n τ := by
  rw [seedIds_eq hσ, seedIds_eq hτ, halike.vertices]

theorem relationshipNumber_alike (r : RelationshipConstraint Value) :
    q.relationshipNumber σ r = q.relationshipNumber τ r := by
  rw [relationshipNumber_eq hσ, relationshipNumber_eq hτ]
  unfold Store.seenOfTypes
  rw [halike.edges]

/-- What a relationship gives up, or would not find anyway. -/
theorem givenUp_alike {r : RelationshipConstraint Value}
    (hdefined : (∃ range, r.range = some range ∧ range.min = 0) →
      AlikeDefined q.ctx.config σ τ r.properties) :
    q.GivenUpAlike (fun _ => True) r σ τ := by
  by_cases hsame : hopeless q.ctx.config σ r.properties = hopeless q.ctx.config τ r.properties
  · exact Or.inl hsame
  · refine Or.inr ⟨fun range hrange => ?_, fun id _ direction => ?_⟩
    · by_contra hmin
      exact hsame (hopeless_of_alikeDefined
        (hdefined ⟨range, hrange, Nat.eq_zero_of_not_pos hmin⟩))
    · rw [List.filter_eq_nil_iff]
      intro e he
      rw [Bool.not_eq_true]
      -- in one of the stores the demands are given up, and the edge is seen in both
      obtain ⟨hseen, -⟩ := (Store.mem_incidentEdges hσ).1 he
      cases hgiven : hopeless q.ctx.config σ r.properties with
      | true => exact edge_of_hopeless hσ hgiven hseen
      | false =>
        have hother : hopeless q.ctx.config τ r.properties = true := by
          rw [hgiven] at hsame
          exact Bool.eq_true_of_not_eq_false fun h => hsame h.symm
        rw [halike.getEdge? hσ hτ] at hseen
        exact edge_of_hopeless hτ hother hseen

/-- Stores that look alike tell a search the same. -/
theorem sees_alike (hdefined : ∀ r ∈ q.pattern.relationships,
    (∃ range, r.range = some range ∧ range.min = 0) →
      AlikeDefined q.ctx.config σ τ r.properties) :
    q.Sees (Holding σ τ) (fun _ => True) (fun _ => True) where
  uncounted := Holding.uncounted
  nodeEstimate n _ := by
    refine blind_nodeEstimate Holding.uncounted (fun _ _ h => h.estimates)
      (fun _ _ h _ => ⟨h.first, h.second, rfl⟩) fun s t h => ?_
    rw [h.first, h.second, nodeNumber_eq, nodeNumber_eq, seedIds_alike hσ hτ halike]
  relationshipEstimate r _ := by
    refine blind_relationshipEstimate Holding.uncounted (fun _ _ h => h.estimates)
      (fun _ _ h _ => ⟨h.first, h.second, rfl⟩) fun s t h => ?_
    rw [h.first, h.second, relationshipNumber_alike hσ hτ halike]
  givenUp r hr s t h := by
    rw [h.first, h.second]
    exact givenUp_alike hσ hτ halike (hdefined r hr)
  vertex s t h id _ := by
    rw [h.first, h.second, halike.getVertex? hσ hτ]
    exact ⟨rfl, fun _ _ => trivial⟩
  edges s t h id _ r _ direction := by
    rw [h.first, h.second, halike.incidentEdges hσ hτ]
    exact ⟨rfl, fun _ _ _ => trivial⟩
  setNode _ _ _ _ := trivial
  setRelationship _ _ _ _ := trivial
  seed _ _ n _ _ _ _ _ s t h := by
    rw [h.first, h.second]
    exact ⟨seedIds_alike hσ hτ halike n, fun _ _ => trivial⟩

end Sight

end Search

end PropertyGraph
