import PropertyGraph.Proofs.Store.Reachable
import PropertyGraph.Proofs.Value.Orderly

/-!
# Orderly stores

A store that only ever got orderly values holds orderly elements, and its definitions stand in the
order of their names.

    Store.Orderly        the elements and the definitions are in order
    Orderly.after        a call with orderly values keeps a store orderly
-/

namespace PropertyGraph

namespace Store

/-- The elements of a store are orderly, and its definitions are in order. -/
structure Orderly (s : Store) : Prop where
  definitions : Entries.Sorted s.definitions
  vertices : ∀ i v, s.vertexAt? i = some v → v.Orderly
  edges : ∀ i e, s.edgeAt? i = some e → e.Orderly

variable {s t : Store}

theorem orderly_empty : empty.Orderly where
  definitions := Entries.sorted_nil
  vertices i v h := by simp [empty, default, vertexAt?, Slots.empty, Slots.get?] at h
  edges i e h := by simp [empty, default, edgeAt?, Slots.empty, Slots.get?] at h

/-- A store with less in it. -/
theorem Orderly.of_less (h : s.Orderly) (hd : t.definitions = s.definitions)
    (hv : ∀ i v, t.vertexAt? i = some v → s.vertexAt? i = some v)
    (he : ∀ i e, t.edgeAt? i = some e → s.edgeAt? i = some e) : t.Orderly where
  definitions := by rw [hd]; exact h.definitions
  vertices i v hi := h.vertices i v (hv i v hi)
  edges i e hi := h.edges i e (he i e hi)

/-! ## Definitions and insertion -/

theorem sorted_define (h : Entries.Sorted s.definitions) (name : String) (v : Value) :
    Entries.Sorted (s.define name v).definitions := by
  unfold define
  split
  · exact h
  · exact h.insert name _

theorem Orderly.define (h : s.Orderly) (name : String) (v : Value) : (s.define name v).Orderly := by
  have hsorted := sorted_define h.definitions name v
  obtain ⟨d, hd⟩ := define_eq s name v
  rw [hd] at hsorted ⊢
  exact ⟨hsorted, h.vertices, h.edges⟩

theorem Orderly.defineAll (h : s.Orderly) (properties : List (String × Value)) :
    (s.defineAll properties).Orderly := by
  induction properties generalizing s with
  | nil => exact h
  | cons p rest ih => exact ih (h.define p.1 p.2)

theorem Orderly.addVertex (h : s.Orderly) (hs : s.Consistent) {v : Vertex} (hv : v.Orderly)
    (hadd : s.addVertex v = .ok t) : t.Orderly := by
  rw [addVertex_eq hs.links] at hadd
  split at hadd
  · cases hadd
  · cases hadd
    have hdefined := h.defineAll v.properties
    refine ⟨hdefined.definitions, fun i w hw => ?_, hdefined.edges⟩
    rw [vertexAt?_putVertex (hs.defineAll v.properties).vertices] at hw
    split at hw
    · cases hw; exact hv
    · exact hdefined.vertices i w hw

theorem Orderly.addEdge (h : s.Orderly) (hs : s.Consistent) {e : Edge} (he : e.Orderly)
    (hadd : s.addEdge e = .ok t) : t.Orderly := by
  rw [addEdge_eq hs.links] at hadd
  split at hadd
  · cases hadd
  · split at hadd
    · cases hadd
    · cases hadd
    · cases hadd
      have hdefined := h.defineAll e.properties
      refine ⟨hdefined.definitions, fun i v hv => ?_, fun i f hf => ?_⟩
      · rw [vertexAt?_putEdge] at hv
        exact hdefined.vertices i v hv
      · rw [edgeAt?_putEdge (hs.defineAll e.properties).edges] at hf
        split at hf
        · cases hf; exact he
        · exact hdefined.edges i f hf

/-! ## Change -/

/-- The values that some changes set are orderly. -/
def OrderlyChanges (changes : List Change) : Prop :=
  ∀ p ∈ changes.filterMap setting?, p.2.Orderly

theorem orderlyEntries_changed {properties : Properties} (h : OrderlyEntries properties)
    {changes : List Change} (hchanges : OrderlyChanges changes) :
    OrderlyEntries (changes.foldl changeProperties properties) := by
  rw [orderlyEntries_iff] at h ⊢
  intro p hp
  rcases mem_foldl_changeProperties hp with hp | hp
  · exact h p hp
  · exact hchanges p hp

theorem Orderly.changeVertex (h : s.Orderly) (i : Nat) {changes : List Change}
    (hchanges : OrderlyChanges changes) : (s.changeVertex i changes).Orderly := by
  refine ⟨h.definitions, fun j v hv => ?_, h.edges⟩
  rw [vertexAt?_changeVertex] at hv
  split at hv
  · obtain ⟨w, hw, rfl⟩ := Option.map_eq_some_iff.1 hv
    obtain ⟨hlabels, hsorted, hvalues⟩ := Vertex.orderly_iff.1 (h.vertices j w hw)
    exact Vertex.orderly_iff.2 ⟨foldl_changeLabels_pairwise hlabels changes,
      foldl_changeProperties_sorted hsorted changes, orderlyEntries_changed hvalues hchanges⟩
  · exact h.vertices j v hv

theorem Orderly.changeEdge (h : s.Orderly) (i : Nat) {changes : List Change}
    (hchanges : OrderlyChanges changes) : (s.changeEdge i changes).Orderly := by
  refine ⟨h.definitions, h.vertices, fun j e he => ?_⟩
  rw [edgeAt?_changeEdge] at he
  split at he
  · obtain ⟨f, hf, rfl⟩ := Option.map_eq_some_iff.1 he
    obtain ⟨hsorted, hvalues⟩ := Edge.orderly_iff.1 (h.edges j f hf)
    exact Edge.orderly_iff.2 ⟨foldl_changeProperties_sorted hsorted changes, orderlyEntries_changed hvalues hchanges⟩
  · exact h.edges j e he

theorem Orderly.change (h : s.Orderly) (target : ElementId) {changes : List Change}
    (hchanges : OrderlyChanges changes) : (s.change target changes).2.Orderly := by
  have hdefined := h.defineAll (changes.filterMap setting?)
  rw [← defineChanged_eq] at hdefined
  unfold Store.change
  generalize s.defineChanged changes = s at *
  cases target with
  | vertex id =>
    simp only
    split
    · exact hdefined
    · next i hi =>
      split
      · exact hdefined
      · exact hdefined.changeVertex i hchanges
  | edge id =>
    have hkept : OrderlyChanges (changes.takeWhile (!isLabelChange ·)) := fun p hp =>
      hchanges p (((List.takeWhile_sublist _).filterMap _).subset hp)
    simp only
    split
    · exact hdefined
    · next i hi =>
      split
      · exact hdefined
      · split <;> exact hdefined.changeEdge i hkept

/-! ## Removal -/

theorem definitions_removeEdgeAt (hs : s.links = none) (i : Nat) :
    (s.removeEdgeAt i).definitions = s.definitions := by
  rw [removeEdgeAt_eq hs]
  split <;> rfl

theorem Orderly.removeEdgeAt (h : s.Orderly) (hs : s.Consistent) (i : Nat) :
    (s.removeEdgeAt i).Orderly := by
  refine h.of_less (definitions_removeEdgeAt hs.links i) (fun j v hv => ?_) fun j e he => ?_
  · rwa [vertexAt?_removeEdgeAt hs.links] at hv
  · obtain ⟨c, hc, rfl⟩ := edgeAt?_eq_some.1 he
    rw [get?_removeEdgeAt hs.links] at hc
    split at hc
    · cases hc
    · exact edgeAt?_eq_some.2 ⟨c, hc, rfl⟩

theorem Orderly.clearSide (h : s.Orderly) (hs : s.Consistent) (i : Nat) (side : Side) :
    (s.clearSide i side).Orderly := by
  have hfold : ∀ (slots : List Nat) (s : Store), s.Orderly → s.Consistent →
      (slots.foldl Store.removeEdgeAt s).Orderly := by
    intro slots
    induction slots with
    | nil => exact fun _ h _ => h
    | cons j rest ih => exact fun s h hs => ih _ (h.removeEdgeAt hs j) (hs.removeEdgeAt j)
  unfold Store.clearSide
  split
  · exact hfold _ s h hs
  · exact h

theorem Orderly.vacate (h : s.Orderly) (hs : s.links = none) (i : Nat) : (s.vacate i).Orderly := by
  unfold Store.vacate
  split
  · exact h
  · next c hc =>
    rw [relink_of_links_eq_none (s := s.dropVertex i c.vertex) hs]
    refine h.of_less rfl (fun j v hv => ?_) fun _ _ he => he
    rw [vertexAt?_dropVertex] at hv
    split at hv
    · cases hv
    · exact hv

theorem Orderly.removeVertexAt (h : s.Orderly) (hs : s.Consistent) (i : Nat) :
    (s.removeVertexAt i).Orderly := by
  have hs1 := (hs.clearSide i .outgoing).1
  have hs2 := (hs1.clearSide i .incoming).1
  exact ((h.clearSide hs i .outgoing).clearSide hs1 i .incoming).vacate hs2.links i

/-! ## Calls -/

/-- The values that come with a call are orderly. -/
def Call.Orderly : Call → Prop
  | .addVertex _ _ properties _ => ∀ p ∈ properties, p.2.Orderly
  | .addEdge _ _ _ _ properties _ => ∀ p ∈ properties, p.2.Orderly
  | .change _ changes => OrderlyChanges changes
  | .removeVertex _ | .removeEdge _ | .define _ _ | .reindex => True

theorem orderlyEntries_ofList {properties : List (String × Value)}
    (h : ∀ p ∈ properties, p.2.Orderly) : OrderlyEntries (Entries.ofList properties) := by
  have key : ∀ entries : List (String × Value), OrderlyEntries entries →
      OrderlyEntries
        (properties.foldl (fun entries p => Entries.insert p.1 p.2 entries) entries) := by
    induction properties with
    | nil => exact fun _ h => h
    | cons p rest ih =>
      obtain ⟨hp, hrest⟩ := List.forall_mem_cons.1 h
      refine fun entries hentries => ih hrest _ (orderlyEntries_iff.2 fun q hq => ?_)
      rcases Entries.mem_insert hq with rfl | hq
      · exact hp
      · exact orderlyEntries_iff.1 hentries q hq
  exact key [] trivial

theorem Orderly.orSame (h : s.Orderly) {r : Except StoreError Store}
    (hr : ∀ t, r = .ok t → t.Orderly) : (s.orSame r).Orderly := by
  cases r with
  | ok t => exact hr t rfl
  | error e => exact h

theorem Orderly.after (h : s.Orderly) (hs : s.Consistent) {call : Call} (hcall : call.Orderly) :
    (s.after call).Orderly := by
  cases call with
  | addVertex id labels properties visibility =>
    exact h.orSame fun t ht => h.addVertex hs (Vertex.orderly_iff.2
      ⟨Names.pairwise_ofList labels, Entries.sorted_ofList properties,
        orderlyEntries_ofList hcall⟩) ht
  | addEdge id type source target properties visibility =>
    exact h.orSame fun t ht => h.addEdge hs (Edge.orderly_iff.2
      ⟨Entries.sorted_ofList properties, orderlyEntries_ofList hcall⟩) ht
  | change target changes => exact h.change target hcall
  | removeVertex id =>
    refine h.orSame fun t ht => ?_
    unfold Store.removeVertex at ht
    split at ht
    · cases ht
    · cases ht; exact h.removeVertexAt hs _
  | removeEdge id =>
    refine h.orSame fun t ht => ?_
    unfold Store.removeEdge at ht
    split at ht
    · cases ht
    · cases ht; exact h.removeEdgeAt hs _
  | define name sample => exact h.define name sample
  | reindex => exact ⟨h.definitions, h.vertices, h.edges⟩

end Store

end PropertyGraph
