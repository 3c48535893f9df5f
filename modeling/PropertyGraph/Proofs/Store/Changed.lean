import Mathlib.Data.List.TakeWhile
import PropertyGraph.Proofs.Store.Failed
import PropertyGraph.Proofs.Store.Reading
import PropertyGraph.Proofs.Store.Totals

/-!
# Changed properties

Changes of properties alone turn one element into the same element with other properties, and no
other element is touched.  Where they fail, no element is.

    Store.element?                the element of an id
    element?_of_change            the elements after changes of properties
    element?_of_failed_change     the elements after changes that failed
    get?_foldl_removeProperty     what is left of the properties when some of them are dropped
-/

namespace PropertyGraph

theorem Entries.has_iff_mem_names {α : Type} {name : String} {entries : Entries α} :
    has name entries = true ↔ name ∈ names entries := by
  unfold has
  induction entries with
  | nil => exact iff_of_false nofun List.not_mem_nil
  | cons e rest ih =>
    obtain ⟨key, a⟩ := e
    rw [get?, names, List.map_cons, List.mem_cons]
    split
    · next heq => exact iff_of_true rfl (Or.inl heq.symm)
    · next hne =>
      rw [ih]
      exact (or_iff_right (Ne.symm hne)).symm

/-! ## Elements -/

namespace Value

/-- The id of an element. -/
def elementId? : Value → Option ElementId
  | .node v => some (.vertex v.id)
  | .relationship e => some (.edge e.id)
  | _ => none

/-- The entries of a map, or the properties of an element. -/
def entries? : Value → Option (List (String × Value))
  | .map entries => some entries
  | .node v => some v.properties
  | .relationship e => some e.properties
  | _ => none

/-- An element with other properties, and all else of it as it is. -/
def withProperties (properties : Properties) : Value → Value
  | .node v => .node { v with properties }
  | .relationship e => .relationship { e with properties }
  | v => v

end Value

namespace Store

variable {s t : Store} {changes : List Change}

/-- The element of an id. -/
def element? (s : Store) : ElementId → Option Value
  | .vertex id => (s.vertex? id).map .node
  | .edge id => (s.edge? id).map .relationship

theorem element?_vertex (s : Store) (id : String) :
    s.element? (.vertex id) = (s.vertex? id).map .node := rfl

theorem element?_edge (s : Store) (id : String) :
    s.element? (.edge id) = (s.edge? id).map .relationship := rfl

/-- Definitions are no elements. -/
theorem element?_defineAll (s : Store) (properties : List (String × Value)) (id : ElementId) :
    (s.defineAll properties).element? id = s.element? id := by
  obtain ⟨d, hd⟩ := defineAll_eq s properties
  rw [hd]
  cases id <;> rfl

theorem element?_defineChanged (s : Store) (changes : List Change) (id : ElementId) :
    (s.defineChanged changes).element? id = s.element? id := by
  rw [defineChanged_eq]
  exact element?_defineAll s _ id

/-! ## Changes of properties -/

theorem takeWhile_of_none (h : ∀ c ∈ changes, isLabelChange c = false) :
    changes.takeWhile (!isLabelChange ·) = changes := by
  apply List.takeWhile_eq_self_iff.2
  intro c hc
  rw [h c hc]
  rfl

theorem any_of_none (h : ∀ c ∈ changes, isLabelChange c = false) :
    changes.any isLabelChange = false := by
  rw [List.any_eq_false]
  intro c hc
  rw [h c hc]
  exact Bool.false_ne_true

theorem element?_of_changeVertex (hs : s.Consistent) {id : String} {v : Vertex}
    (hv : s.vertex? id = some v) (h : ∀ c ∈ changes, isLabelChange c = false) :
    let w : Value := .node { v with properties := changes.foldl changeProperties v.properties }
    (s.change (.vertex id) changes).1 = .ok w ∧ ∀ other,
      (s.change (.vertex id) changes).2.element? other =
        if other = .vertex id then some w else s.element? other := by
  intro w
  obtain ⟨i, hslot, hi⟩ := Option.bind_eq_some_iff.1 hv
  have hid : v.id = id := ((vertex?_eq_some hs).1 hv).1
  have hat : ∀ j, ((s.defineChanged changes).changeVertex i changes).vertexAt? j =
      if i = j then some { v with properties := changes.foldl changeProperties v.properties }
      else s.vertexAt? j := by
    intro j
    rw [vertexAt?_changeVertex, vertexAt?_defineChanged]
    split
    · next hij =>
      rw [← hij, hi, Option.map_some, foldl_changeLabels_of_none h]
    · rfl
  have hrun : s.change (.vertex id) changes =
      (.ok w, (s.defineChanged changes).changeVertex i changes) := by
    unfold change
    simp only [vertexSlot?_defineChanged, hslot, hat, if_true]
    rfl
  rw [hrun]
  refine ⟨rfl, fun other => ?_⟩
  have hedge := element?_defineChanged s changes
  cases other with
  | edge other =>
    rw [if_neg nofun, ← hedge (.edge other)]
    rfl
  | vertex other =>
    have hslots : ((s.defineChanged changes).changeVertex i changes).vertexSlot? other =
        s.vertexSlot? other := vertexSlot?_defineChanged s changes other
    rw [element?_vertex, vertex?, hslots]
    by_cases hother : other = id
    · subst hother
      rw [if_pos rfl, hslot, Option.bind_some, hat, if_pos rfl]
      rfl
    · rw [if_neg (fun heq => hother (ElementId.vertex.inj heq)), element?_vertex, vertex?]
      congr 1
      apply Option.bind_congr
      intro j hj
      rw [hat, if_neg]
      rintro rfl
      -- the slot of another id holds another vertex
      obtain ⟨u, hu, huid⟩ := (hs.vertexSlots.2 other i).1 hj
      rw [hi] at hu
      cases hu
      exact hother (huid.symm.trans hid)

theorem element?_of_changeEdge (hs : s.Consistent) {id : String} {e : Edge}
    (he : s.edge? id = some e) (h : ∀ c ∈ changes, isLabelChange c = false) :
    let f : Value :=
      .relationship { e with properties := changes.foldl changeProperties e.properties }
    (s.change (.edge id) changes).1 = .ok f ∧ ∀ other,
      (s.change (.edge id) changes).2.element? other =
        if other = .edge id then some f else s.element? other := by
  intro f
  obtain ⟨i, hslot, hi⟩ := Option.bind_eq_some_iff.1 he
  have hid : e.id = id := ((edge?_eq_some hs).1 he).1
  have hat : ∀ j, ((s.defineChanged changes).changeEdge i changes).edgeAt? j =
      if i = j then some { e with properties := changes.foldl changeProperties e.properties }
      else s.edgeAt? j := by
    intro j
    rw [edgeAt?_changeEdge, edgeAt?_defineChanged]
    split
    · next hij => rw [← hij, hi, Option.map_some]
    · rfl
  have hrun : s.change (.edge id) changes =
      (.ok f, (s.defineChanged changes).changeEdge i changes) := by
    rw [changeEdge_of_slot hslot, hi]
    simp only [takeWhile_of_none h, any_of_none h, Bool.false_eq_true, if_false]
    rfl
  rw [hrun]
  refine ⟨rfl, fun other => ?_⟩
  have hvertex := element?_defineChanged s changes
  cases other with
  | vertex other =>
    rw [if_neg nofun, ← hvertex (.vertex other)]
    rfl
  | edge other =>
    have hslots : ((s.defineChanged changes).changeEdge i changes).edgeSlot? other =
        s.edgeSlot? other := edgeSlot?_defineChanged s changes other
    rw [element?_edge, edge?, hslots]
    by_cases hother : other = id
    · subst hother
      rw [if_pos rfl, hslot, Option.bind_some, hat, if_pos rfl]
      rfl
    · rw [if_neg (fun heq => hother (ElementId.edge.inj heq)), element?_edge, edge?]
      congr 1
      apply Option.bind_congr
      intro j hj
      rw [hat, if_neg]
      rintro rfl
      -- the slot of another id holds another edge
      obtain ⟨u, hu, huid⟩ := (hs.edgeSlots.2 other i).1 hj
      rw [hi] at hu
      cases hu
      exact hother (huid.symm.trans hid)

/-- Changes of the properties of a stored element succeed, and give that element with the changed
properties; the others stay as they are. -/
theorem element?_of_change (hs : s.Consistent) {id : ElementId} {v : Value} {old : Properties}
    (hv : s.element? id = some v) (hold : v.entries? = some old)
    (h : ∀ c ∈ changes, isLabelChange c = false) :
    let w := v.withProperties (changes.foldl changeProperties old)
    (s.change id changes).1 = .ok w ∧ ∀ other, (s.change id changes).2.element? other =
      if other = id then some w else s.element? other := by
  cases id with
  | vertex id =>
    obtain ⟨v, hstored, rfl⟩ := Option.map_eq_some_iff.1 hv
    cases hold
    exact element?_of_changeVertex hs hstored h
  | edge id =>
    obtain ⟨e, hstored, rfl⟩ := Option.map_eq_some_iff.1 hv
    cases hold
    exact element?_of_changeEdge hs hstored h

/-- Changes of properties that fail have changed no element. -/
theorem element?_of_failed_change {id : ElementId} {e : StoreError}
    (h : ∀ c ∈ changes, isLabelChange c = false) (hfail : (s.change id changes).1 = .error e)
    (other : ElementId) : (s.change id changes).2.element? other = s.element? other := by
  have hdefined : (s.change id changes).2 = s.defineChanged changes →
      (s.change id changes).2.element? other = s.element? other := by
    intro hleft
    rw [hleft]
    exact element?_defineChanged s changes other
  cases id with
  | vertex id => exact hdefined (changeVertex_of_error hfail).2
  | edge id =>
    rcases changeEdge_of_error hfail with ⟨-, -, hleft⟩ | ⟨i, c, -, hslot, hc, -⟩
    · exact hdefined hleft
    · -- an edge that is there can only fail at a label
      have hi : s.edgeAt? i = some c.edge := edgeAt?_eq_some.2 ⟨c, hc, rfl⟩
      rw [changeEdge_of_slot hslot, hi] at hfail
      simp only [any_of_none h, Bool.false_eq_true, if_false] at hfail
      cases hfail

/-! ## Properties -/

theorem changeProperties_setProperty {v : Value} (h : v.isNull = false) (name : String)
    (properties : Properties) :
    changeProperties properties (.setProperty name v) = Entries.insert name v properties := by
  cases v with
  | null => cases h
  | _ => rfl

/-- Dropped properties are gone, and the others are what they were. -/
theorem get?_foldl_removeProperty {properties : Properties} (hsorted : Entries.Sorted properties)
    (dropped : List String) (name : String) :
    Entries.get? name ((dropped.map Change.removeProperty).foldl changeProperties properties) =
      if name ∈ dropped then none else Entries.get? name properties := by
  induction dropped generalizing properties with
  | nil => rfl
  | cons d rest ih =>
    rw [List.map_cons, List.foldl_cons, ih (changeProperties_sorted hsorted _)]
    show (if name ∈ rest then none else Entries.get? name (Entries.erase d properties)) = _
    by_cases hd : name = d
    · subst hd
      rw [Entries.get?_erase_self hsorted, if_pos List.mem_cons_self, ite_self]
    · rw [Entries.get?_erase_of_ne hd]
      simp [hd]

end Store

end PropertyGraph
