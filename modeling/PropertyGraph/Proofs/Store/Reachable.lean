import Mathlib.Data.List.Nodup
import PropertyGraph.Proofs.Store.Writes

/-!
# Stores grown by calls

A store that starts empty and only changes by the calls below stays consistent, whatever the calls
are, in whatever order, and whether or not some of them fail:

    Consistent.after        one call keeps a store consistent
    consistent_of_calls     any number of calls makes a consistent store of the empty one
-/

namespace PropertyGraph

namespace Store

/-! ## Indices made anew -/

theorem locates_toList {α : Type} {slots : Slots α} {idOf : α → String} {index : Entries Nat}
    (h : index.Locates fun i id => ∃ a, slots.get? i = some a ∧ idOf a = id) :
    Entries.Locates (slots.toList.foldl (fun index (i, a) => Entries.insert (idOf a) i index) [])
      fun i id => ∃ a, slots.get? i = some a ∧ idOf a = id := by
  have hnodup : ((slots.toList.map fun p => (p.1, idOf p.2)).map Prod.snd).Nodup := by
    rw [List.map_map]
    refine List.Nodup.map_on ?_ (List.Nodup.of_map Prod.fst
      ((Slots.pairwise_toList slots).imp fun hlt => Nat.ne_of_lt hlt))
    rintro ⟨i, a⟩ ha ⟨j, b⟩ hb hid
    rw [Slots.mem_toList] at ha hb
    have hij := h.unique ⟨a, ha, hid⟩ ⟨b, hb, rfl⟩
    subst hij
    rw [ha] at hb
    rw [Option.some.inj hb]
  have hfold := Entries.locates_nil.insertAll _ hnodup (by simp)
  rw [List.foldl_map] at hfold
  refine hfold.congr fun i id => ?_
  rw [or_false, List.mem_map]
  constructor
  · rintro ⟨⟨j, a⟩, hmem, heq⟩
    obtain ⟨rfl, rfl⟩ := Prod.mk.inj heq
    exact ⟨a, (Slots.mem_toList slots j a).1 hmem, rfl⟩
  · rintro ⟨a, ha, rfl⟩
    exact ⟨(i, a), (Slots.mem_toList slots i a).2 ha, rfl⟩

theorem exact_toList {α : Type} (slots : Slots α) (namesOf : α → List String) :
    SlotIndex.Exact
      (slots.toList.foldl (fun index (i, a) => (namesOf a).foldl (SlotIndex.add i) index) [])
      fun i name => ∃ a, slots.get? i = some a ∧ name ∈ namesOf a := by
  have hfold := SlotIndex.exact_nil.addEach (slots.toList.map fun p => (p.1, namesOf p.2))
  rw [List.foldl_map] at hfold
  refine hfold.congr fun i name => ?_
  simp only [or_false, List.mem_map]
  constructor
  · rintro ⟨names, ⟨⟨j, a⟩, hmem, heq⟩, hname⟩
    obtain ⟨rfl, rfl⟩ := Prod.mk.inj heq
    exact ⟨a, (Slots.mem_toList slots j a).1 hmem, hname⟩
  · rintro ⟨a, ha, hname⟩
    exact ⟨namesOf a, ⟨(i, a), (Slots.mem_toList slots i a).2 ha, rfl⟩, hname⟩

theorem exists_vertexAt? (s : Store) (i : Nat) (P : Vertex → Prop) :
    (∃ v, s.vertexAt? i = some v ∧ P v) ↔ ∃ c, s.vertices.get? i = some c ∧ P c.vertex := by
  unfold vertexAt?
  cases s.vertices.get? i <;> simp

theorem exists_edgeAt? (s : Store) (i : Nat) (P : Edge → Prop) :
    (∃ e, s.edgeAt? i = some e ∧ P e) ↔ ∃ c, s.edges.get? i = some c ∧ P c.edge := by
  unfold edgeAt?
  cases s.edges.get? i <;> simp

/-- Indices made anew suit a graph with the vertices and edges of a consistent one. -/
theorem Consistent.reindex_of_same {s t : Store} (h : s.Consistent) (hvertices : t.vertices.Sound)
    (hedges : t.edges.Sound) (hv : ∀ i, t.vertexAt? i = s.vertexAt? i)
    (he : ∀ i, t.edges.get? i = s.edges.get? i)
    (hattached : ∀ i c side, t.vertices.get? i = some c → (c.edges side).Nodup ∧
      ∀ j, j ∈ c.edges side ↔ ∃ e, t.edges.get? j = some e ∧ e.slot side = i)
    (hdefined : ∀ name, s.isDefined name = true → t.isDefined name = true)
    (hlinks : t.links = none) : t.reindex.Consistent := by
  have hat : ∀ i, t.edgeAt? i = s.edgeAt? i := fun i => by rw [edgeAt?, edgeAt?, he]
  exact {
    vertices := hvertices
    edges := hedges
    vertexSlots := (locates_toList (h.vertexSlots.congr fun i id => by
      rw [← hv]; exact t.exists_vertexAt? i (·.id = id))).congr
      fun i id => (t.exists_vertexAt? i (·.id = id)).symm
    edgeSlots := (locates_toList (h.edgeSlots.congr fun i id => by
      rw [← hat]; exact t.exists_edgeAt? i (·.id = id))).congr
      fun i id => (t.exists_edgeAt? i (·.id = id)).symm
    labelSlots := (exact_toList t.vertices (·.vertex.labels)).congr
      fun i l => (t.exists_vertexAt? i (l ∈ ·.labels)).symm
    typeSlots := (exact_toList t.edges fun c => [c.edge.type]).congr fun i name => by
      simp only [List.mem_singleton]
      rw [← t.exists_edgeAt? i (name = ·.type)]
      exact exists_congr fun e => and_congr_right' eq_comm
    ends := fun i c side hc => by
      obtain ⟨v, hslot, hid⟩ := h.ends i c side ((he i).symm.trans hc)
      exact ⟨v, (hv _).trans hslot, hid⟩
    attached := hattached
    vertexParts := fun i v hi => by
      obtain ⟨hl, hp, hd⟩ := h.vertexParts i v ((hv i).symm.trans hi)
      exact ⟨hl, hp, hd.mono hdefined⟩
    edgeParts := fun i e hi => by
      obtain ⟨hp, hd⟩ := h.edgeParts i e ((hat i).symm.trans hi)
      exact ⟨hp, hd.mono hdefined⟩
    links := hlinks }

theorem Consistent.reindex {s : Store} (h : s.Consistent) : s.reindex.Consistent :=
  h.reindex_of_same h.vertices h.edges (fun _ => rfl) (fun _ => rfl) h.attached (fun _ hd => hd)
    h.links

/-! ## Insertion -/

theorem addVertex_eq {s : Store} (hs : s.links = none) (v : Vertex) :
    s.addVertex v = if (s.vertexSlot? v.id).isSome then .error (.duplicate v.id)
      else .ok ((s.defineAll v.properties).putVertex v) := by
  obtain ⟨d, hd⟩ := defineAll_eq s v.properties
  unfold addVertex
  rw [hd]
  refine if_congr Iff.rfl rfl (congrArg Except.ok ?_)
  exact relink_of_links_eq_none (s := Store.putVertex { s with definitions := d } v) hs _

theorem Consistent.addVertex {s s' : Store} (h : s.Consistent) {v : Vertex}
    (hl : v.labels.Pairwise (· < ·)) (hp : Entries.Sorted v.properties)
    (hs : s.addVertex v = .ok s') : s'.Consistent := by
  rw [addVertex_eq h.links] at hs
  split at hs
  · cases hs
  · next hfree =>
    cases hs
    refine (h.defineAll v.properties).putVertex (fun i w hw hid => ?_) hl hp
      (defines_defineAll s v.properties)
    obtain ⟨d, hd⟩ := defineAll_eq s v.properties
    rw [hd] at hw
    have : s.vertexSlot? v.id = some i := (h.vertexSlots.2 v.id i).2 ⟨w, hw, hid⟩
    rw [this] at hfree
    exact hfree rfl

theorem addEdge_eq {s : Store} (hs : s.links = none) (e : Edge) :
    s.addEdge e = if (s.edgeSlot? e.id).isSome then .error (.duplicate e.id)
      else match s.vertexSlot? e.source, s.vertexSlot? e.target with
        | none, _ => .error (.notFound e.source)
        | some _, none => .error (.notFound e.target)
        | some source, some target =>
          .ok ((s.defineAll e.properties).putEdge ⟨e, source, target⟩) := by
  obtain ⟨d, hd⟩ := defineAll_eq s e.properties
  unfold addEdge
  rw [hd]
  refine if_congr Iff.rfl rfl ?_
  cases s.vertexSlot? e.source with
  | none => rfl
  | some source =>
    cases s.vertexSlot? e.target with
    | none => rfl
    | some target =>
      refine congrArg Except.ok ?_
      exact relink_of_links_eq_none
        (s := Store.putEdge { s with definitions := d } ⟨e, source, target⟩) hs _

theorem Consistent.addEdge {s s' : Store} (h : s.Consistent) {e : Edge}
    (hp : Entries.Sorted e.properties) (hs : s.addEdge e = .ok s') : s'.Consistent := by
  rw [addEdge_eq h.links] at hs
  split at hs
  · cases hs
  · next hfree =>
    split at hs
    · cases hs
    · cases hs
    · next source target hsource htarget =>
      cases hs
      obtain ⟨d, hd⟩ := defineAll_eq s e.properties
      refine (h.defineAll e.properties).putEdge (fun i f hf hid => ?_) (fun side => ?_) hp
        (defines_defineAll s e.properties)
      · rw [hd] at hf
        have : s.edgeSlot? e.id = some i := (h.edgeSlots.2 e.id i).2 ⟨f, hf, hid⟩
        rw [this] at hfree
        exact hfree rfl
      · rw [hd]
        cases side
        · exact (h.vertexSlots.2 e.source source).1 hsource
        · exact (h.vertexSlots.2 e.target target).1 htarget

/-! ## Change -/

theorem Consistent.change {s : Store} (h : s.Consistent) (target : ElementId)
    (changes : List Change) : (s.change target changes).2.Consistent := by
  have hdefined := h.defineAll (changes.filterMap setting?)
  have hd := defines_defineAll s (changes.filterMap setting?)
  rw [← defineChanged_eq] at hdefined hd
  unfold Store.change
  generalize s.defineChanged changes = s at *
  cases target with
  | vertex id =>
    simp only
    split
    · exact hdefined
    · next i hi =>
      obtain ⟨v, hv, -⟩ := (hdefined.vertexSlots.2 id i).1 hi
      split
      · exact hdefined
      · exact hdefined.changeVertex hv hd
  | edge id =>
    simp only
    split
    · exact hdefined
    · next i hi =>
      have hkept : s.Defines ((changes.takeWhile (!isLabelChange ·)).filterMap setting?) :=
        fun p hp => hd p (((List.takeWhile_sublist _).filterMap _).subset hp)
      split
      · exact hdefined
      · split <;> exact hdefined.changeEdge i hkept

/-! ## Calls -/

/-- A call that changes a store.  Labels and properties of a new element may come in any order. -/
inductive Call where
  | addVertex (id : String) (labels : List String) (properties : List (String × Value))
      (visibility : String)
  | addEdge (id type source target : String) (properties : List (String × Value))
      (visibility : String)
  | change (target : ElementId) (changes : List Change)
  | removeVertex (id : String)
  | removeEdge (id : String)
  | define (name : String) (sample : Value)
  | reindex

/-- The store that a write results in, and the same store where it fails. -/
def orSame (s : Store) : Except StoreError Store → Store
  | .ok s' => s'
  | .error _ => s

/-- The store after a call.  A change that fails half-way leaves what it has done. -/
def after (s : Store) : Call → Store
  | .addVertex id labels properties visibility =>
    s.orSame (s.addVertex ⟨id, Names.ofList labels, Entries.ofList properties, visibility⟩)
  | .addEdge id type source target properties visibility =>
    s.orSame (s.addEdge ⟨id, type, source, target, Entries.ofList properties, visibility⟩)
  | .change target changes => (s.change target changes).2
  | .removeVertex id => s.orSame (s.removeVertex id)
  | .removeEdge id => s.orSame (s.removeEdge id)
  | .define name sample => s.define name sample
  | .reindex => s.reindex

theorem Consistent.orSame {s : Store} (h : s.Consistent) {r : Except StoreError Store}
    (hr : ∀ s', r = .ok s' → s'.Consistent) : (s.orSame r).Consistent := by
  cases r with
  | ok s' => exact hr s' rfl
  | error e => exact h

theorem Consistent.after {s : Store} (h : s.Consistent) (call : Call) :
    (s.after call).Consistent := by
  cases call with
  | addVertex id labels properties visibility =>
    exact h.orSame fun s' hs =>
      h.addVertex (Names.pairwise_ofList labels) (Entries.sorted_ofList properties) hs
  | addEdge id type source target properties visibility =>
    exact h.orSame fun s' hs => h.addEdge (Entries.sorted_ofList properties) hs
  | change target changes => exact h.change target changes
  | removeVertex id =>
    refine h.orSame fun s' hs => ?_
    unfold Store.removeVertex at hs
    split at hs
    · cases hs
    · cases hs; exact h.removeVertexAt _
  | removeEdge id =>
    refine h.orSame fun s' hs => ?_
    unfold Store.removeEdge at hs
    split at hs
    · cases hs
    · cases hs; exact h.removeEdgeAt _
  | define name sample => exact h.defineAll [(name, sample)]
  | reindex => exact h.reindex

theorem Consistent.foldl_after {s : Store} (h : s.Consistent) (calls : List Call) :
    (calls.foldl Store.after s).Consistent := by
  induction calls generalizing s with
  | nil => exact h
  | cons call rest ih => exact ih (h.after call)

/-- Whatever calls a store has gone through since it was empty, it is consistent. -/
theorem consistent_of_calls (calls : List Call) : (calls.foldl after empty).Consistent :=
  consistent_empty.foldl_after calls

end Store

end PropertyGraph
