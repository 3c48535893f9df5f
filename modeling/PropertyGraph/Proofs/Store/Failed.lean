import PropertyGraph.Proofs.Store.Reachable

/-!
# What failed writes leave behind

A write that adds or removes an element looks for everything it needs before it touches the store.
A change does not: it defines the names that it sets before it looks for its element, and it makes
the changes of an edge that stand before one of a label.

    Store.failure?            the error of a call
    changeEdge_of_error       what a failed change of an edge has done
    Store.Traceless           the calls whose failure leaves no trace
    after_of_failure          a failed call leaves no trace exactly if it is one of these
-/

namespace PropertyGraph

/-! ## Slots and definitions that stay -/

/-- A change of a slot that leaves its element as it is leaves all slots as they are. -/
theorem Slots.modify_eq_self {α : Type} {slots : Slots α} {i : Nat} {f : α → α}
    (h : ∀ a, slots.get? i = some a → f a = a) : slots.modify i f = slots := by
  have hcells : slots.cells.modify i (Option.map f) = slots.cells := by
    apply Array.ext_getElem?
    intro j
    rw [Array.getElem?_modify]
    split
    · next hij =>
      subst hij
      cases hcell : slots.cells[i]? with
      | none => rfl
      | some cell =>
        cases cell with
        | none => rfl
        | some a =>
          have hfa : f a = a := h a (by rw [get?, hcell]; rfl)
          simp [hfa]
    · rfl
  unfold modify
  rw [hcells]

namespace Store

variable {s : Store} {e : StoreError}

/-- Definitions stay as they are exactly if there is nothing to define. -/
theorem defineAll_eq_self_iff {properties : List (String × Value)} :
    s.defineAll properties = s ↔ s.Defines properties := by
  constructor
  · intro h
    have hdefines := defines_defineAll s properties
    rw [h] at hdefines
    exact hdefines
  · intro h
    induction properties with
    | nil => rfl
    | cons p rest ih =>
      have hfirst : s.define p.1 p.2 = s := by
        unfold define
        cases hnull : p.2.isNull with
        | true => rfl
        | false => simp [h p List.mem_cons_self hnull]
      change (s.define p.1 p.2).defineAll rest = s
      rw [hfirst]
      exact ih fun q hq => h q (List.mem_cons_of_mem _ hq)

/-! ## Failures -/

/-- The error of a result, if it is none. -/
def error? {α : Type} : Except StoreError α → Option StoreError
  | .ok _ => none
  | .error e => some e

theorem error?_eq_some {α : Type} {r : Except StoreError α} : error? r = some e ↔ r = .error e := by
  cases r <;> simp [error?]

/-- The error that a call ends with, if it fails. -/
def failure? (s : Store) : Call → Option StoreError
  | .addVertex id labels properties visibility =>
    error? (s.addVertex ⟨id, Names.ofList labels, Entries.ofList properties, visibility⟩)
  | .addEdge id type source target properties visibility =>
    error? (s.addEdge ⟨id, type, source, target, Entries.ofList properties, visibility⟩)
  | .change target changes => error? (s.change target changes).1
  | .removeVertex id => error? (s.removeVertex id)
  | .removeEdge id => error? (s.removeEdge id)
  | .define _ _ | .reindex => none

theorem orSame_of_error {r : Except StoreError Store} (h : error? r = some e) : s.orSame r = s := by
  rw [error?_eq_some.1 h]
  rfl

/-! ### Changes -/

@[simp] theorem vertexSlot?_defineChanged (s : Store) (changes : List Change) (id : String) :
    (s.defineChanged changes).vertexSlot? id = s.vertexSlot? id := by
  obtain ⟨d, hd⟩ := defineAll_eq s (changes.filterMap setting?)
  rw [defineChanged_eq, hd]
  rfl

@[simp] theorem edgeSlot?_defineChanged (s : Store) (changes : List Change) (id : String) :
    (s.defineChanged changes).edgeSlot? id = s.edgeSlot? id := by
  obtain ⟨d, hd⟩ := defineAll_eq s (changes.filterMap setting?)
  rw [defineChanged_eq, hd]
  rfl

@[simp] theorem vertexAt?_defineChanged (s : Store) (changes : List Change) (i : Nat) :
    (s.defineChanged changes).vertexAt? i = s.vertexAt? i := by
  obtain ⟨d, hd⟩ := defineAll_eq s (changes.filterMap setting?)
  rw [defineChanged_eq, hd]
  rfl

@[simp] theorem edgeAt?_defineChanged (s : Store) (changes : List Change) (i : Nat) :
    (s.defineChanged changes).edgeAt? i = s.edgeAt? i := by
  obtain ⟨d, hd⟩ := defineAll_eq s (changes.filterMap setting?)
  rw [defineChanged_eq, hd]
  rfl

/-- A change of a vertex fails only where there is none, and then it has defined names. -/
theorem changeVertex_of_error {id : String} {changes : List Change}
    (h : (s.change (.vertex id) changes).1 = .error e) :
    e = .notFound id ∧ (s.change (.vertex id) changes).2 = s.defineChanged changes := by
  unfold change at h ⊢
  simp only [vertexSlot?_defineChanged] at h ⊢
  cases hslot : s.vertexSlot? id with
  | none =>
    rw [hslot] at h
    cases h
    exact ⟨rfl, rfl⟩
  | some i =>
    rw [hslot] at h
    simp only at h ⊢
    cases hv : ((s.defineChanged changes).changeVertex i changes).vertexAt? i with
    | none =>
      rw [hv] at h
      cases h
      exact ⟨rfl, rfl⟩
    | some v =>
      rw [hv] at h
      cases h

theorem changeEdge_of_slot {id : String} {i : Nat} (hslot : s.edgeSlot? id = some i)
    (changes : List Change) : s.change (.edge id) changes = match s.edgeAt? i with
      | none => (.error (.notFound id), s.defineChanged changes)
      | some e =>
        let kept := changes.takeWhile (!isLabelChange ·)
        let changed := (s.defineChanged changes).changeEdge i kept
        if changes.any isLabelChange then (.error .labelOnRelationship, changed)
        else (.ok (.relationship { e with
          properties := kept.foldl changeProperties e.properties }), changed) := by
  unfold change
  simp only [edgeSlot?_defineChanged, hslot, edgeAt?_changeEdge, edgeAt?_defineChanged, if_true]
  cases s.edgeAt? i <;> rfl

/-- A change of an edge fails where there is none, and then it has defined names, or at the first
label, and then it has also made the changes before that one. -/
theorem changeEdge_of_error {id : String} {changes : List Change}
    (h : (s.change (.edge id) changes).1 = .error e) :
    (e = .notFound id ∧ s.edge? id = none ∧
      (s.change (.edge id) changes).2 = s.defineChanged changes) ∨
    ∃ i c, e = .labelOnRelationship ∧ s.edgeSlot? id = some i ∧ s.edges.get? i = some c ∧
      (s.change (.edge id) changes).2 =
        (s.defineChanged changes).changeEdge i (changes.takeWhile (!isLabelChange ·)) := by
  cases hslot : s.edgeSlot? id with
  | none =>
    have hchange : s.change (.edge id) changes =
        (.error (.notFound id), s.defineChanged changes) := by
      unfold change
      simp only [edgeSlot?_defineChanged, hslot]
    rw [hchange] at h ⊢
    cases h
    exact Or.inl ⟨rfl, by rw [edge?, hslot]; rfl, rfl⟩
  | some i =>
    rw [changeEdge_of_slot hslot] at h ⊢
    cases hcell : s.edges.get? i with
    | none =>
      have hnone : s.edgeAt? i = none := by rw [edgeAt?, hcell]; rfl
      rw [hnone] at h ⊢
      cases h
      exact Or.inl ⟨rfl, by rw [edge?, hslot]; exact hnone, rfl⟩
    | some c =>
      have hsome : s.edgeAt? i = some c.edge := by rw [edgeAt?, hcell]; rfl
      rw [hsome] at h ⊢
      simp only at h ⊢
      split at h
      · next hlabel =>
        cases h
        exact Or.inr ⟨i, c, rfl, rfl, hcell, by rw [if_pos hlabel]⟩
      · cases h

/-! ## What stays behind -/

/-- The calls that leave a store as it is where they fail.  A change must set only names that are
defined, and as far as it changes the properties of an edge before it comes to a label, it must set
them to the values that they have. -/
def Traceless (s : Store) : Call → Prop
  | .change target changes =>
    s.Defines (changes.filterMap setting?) ∧ ∀ id e, target = .edge id → s.edge? id = some e →
      (changes.takeWhile (!isLabelChange ·)).foldl changeProperties e.properties = e.properties
  | _ => True

/-- A failed write that is no change leaves the store as it is. -/
theorem after_eq_self {call : Call} (h : s.failure? call = some e)
    (hcall : ∀ target changes, call ≠ .change target changes) : s.after call = s := by
  cases call with
  | addVertex id labels properties visibility => exact orSame_of_error (s := s) h
  | addEdge id type source target properties visibility => exact orSame_of_error (s := s) h
  | change target changes => exact absurd rfl (hcall target changes)
  | removeVertex id => exact orSame_of_error (s := s) h
  | removeEdge id => exact orSame_of_error (s := s) h
  | define name sample => cases h
  | reindex => cases h

/-- Changes of an edge's properties leave no trace exactly if they set nothing anew. -/
theorem changeEdge_eq_self_iff {changes kept : List Change} {i : Nat} {c : EdgeCell}
    (hc : s.edges.get? i = some c) :
    (s.defineChanged changes).changeEdge i kept = s ↔ s.Defines (changes.filterMap setting?) ∧
      kept.foldl changeProperties c.edge.properties = c.edge.properties := by
  obtain ⟨d, hd⟩ := defineAll_eq s (changes.filterMap setting?)
  rw [defineChanged_eq, ← defineAll_eq_self_iff, hd]
  constructor
  · intro hs
    have hdefinitions : d = s.definitions := congrArg definitions hs
    have hcell := congrArg (fun s => s.edges.get? i) hs
    simp only [get?_changeEdge, if_true, hc, Option.map_some, Option.some.injEq] at hcell
    exact ⟨by rw [hdefinitions], congrArg (·.edge.properties) hcell⟩
  · rintro ⟨hs, hkept⟩
    rw [hs]
    unfold changeEdge
    rw [Slots.modify_eq_self fun c' hc' => ?_]
    rw [hc] at hc'
    cases hc'
    rw [hkept]
    cases c with
    | mk edge source target => cases edge; rfl

theorem change_eq_self_iff {target : ElementId} {changes : List Change}
    (h : (s.change target changes).1 = .error e) :
    (s.change target changes).2 = s ↔ s.Traceless (.change target changes) := by
  change _ ↔ s.Defines (changes.filterMap setting?) ∧ ∀ id e, target = .edge id →
    s.edge? id = some e → _
  cases target with
  | vertex id =>
    obtain ⟨-, hleft⟩ := changeVertex_of_error h
    rw [hleft, defineChanged_eq, defineAll_eq_self_iff]
    exact (and_iff_left nofun).symm
  | edge id =>
    rcases changeEdge_of_error h with ⟨-, hnone, hleft⟩ | ⟨i, c, -, hslot, hc, hleft⟩
    · rw [hleft, defineChanged_eq, defineAll_eq_self_iff]
      refine (and_iff_left ?_).symm
      rintro id' e' ⟨rfl⟩ he
      rw [hnone] at he
      cases he
    · have hedge : s.edge? id = some c.edge := by
        rw [edge?, hslot, Option.bind_some, edgeAt?, hc]
        rfl
      rw [hleft, changeEdge_eq_self_iff hc]
      refine and_congr_right' ⟨?_, fun hall => hall id c.edge rfl hedge⟩
      rintro hkept id' e' ⟨rfl⟩ he
      rw [hedge] at he
      cases he
      exact hkept

/-- A failed change can leave definitions, and changes in the slot of the edge that it names. -/
theorem change_leaves {target : ElementId} {changes : List Change}
    (h : (s.change target changes).1 = .error e) : ∃ definitions edges,
      (s.change target changes).2 = { s with definitions, edges } ∧
        ∀ i, edges.get? i = s.edges.get? i ∨
          ∃ id, target = .edge id ∧ s.edgeSlot? id = some i := by
  obtain ⟨d, hd⟩ := defineAll_eq s (changes.filterMap setting?)
  rw [← defineChanged_eq] at hd
  have hdefined : (s.change target changes).2 = s.defineChanged changes →
      ∃ definitions edges, (s.change target changes).2 = { s with definitions, edges } ∧
        ∀ i, edges.get? i = s.edges.get? i ∨ ∃ id, target = .edge id ∧ s.edgeSlot? id = some i :=
    fun hleft => ⟨d, s.edges, hleft.trans hd, fun i => Or.inl rfl⟩
  cases target with
  | vertex id => exact hdefined (changeVertex_of_error h).2
  | edge id =>
    rcases changeEdge_of_error h with ⟨-, -, hleft⟩ | ⟨i, c, -, hslot, -, hleft⟩
    · exact hdefined hleft
    · rw [hleft, hd]
      refine ⟨d, _, rfl, fun j => ?_⟩
      rw [Slots.get?_modify]
      by_cases hij : i = j
      · exact Or.inr ⟨id, rfl, hij ▸ hslot⟩
      · exact Or.inl (if_neg hij)

/-- A failed call leaves no trace exactly if it sets only names that are defined and has changed no
property of an edge when it comes to a label.  Otherwise it leaves these definitions and that edge
behind, and nothing else. -/
theorem after_of_failure {call : Call} (h : s.failure? call = some e) :
    (s.after call = s ↔ s.Traceless call) ∧ ∃ definitions edges,
      s.after call = { s with definitions, edges } ∧ ∀ i, edges.get? i = s.edges.get? i ∨
        ∃ id changes, call = .change (.edge id) changes ∧ s.edgeSlot? id = some i := by
  by_cases hchange : ∃ target changes, call = .change target changes
  · obtain ⟨target, changes, rfl⟩ := hchange
    have herror := error?_eq_some.1 h
    obtain ⟨d, edges, hleft, hedges⟩ := change_leaves herror
    refine ⟨change_eq_self_iff herror, d, edges, hleft, fun i => (hedges i).imp_right ?_⟩
    rintro ⟨id, rfl, hslot⟩
    exact ⟨id, changes, rfl, hslot⟩
  · have hsame : s.after call = s :=
      after_eq_self h fun target changes hcall => hchange ⟨target, changes, hcall⟩
    refine ⟨iff_of_true hsame ?_, s.definitions, s.edges, hsame, fun i => Or.inl rfl⟩
    unfold Traceless
    split
    · exact absurd ⟨_, _, rfl⟩ hchange
    · trivial

/-- A vertex with an edge to itself. -/
def knotted : Store :=
  [.addVertex "x" [] [] "", .addEdge "e" "R" "x" "x" [("k", .int 1)] ""].foldl after .empty

theorem after_of_failure_knotted :
    let call : Call := .change (.edge "e") [.setProperty "k" (.int 2), .addLabel "L"]
    knotted.failure? call = some .labelOnRelationship ∧
      (knotted.after call = knotted ↔ knotted.Traceless call) ∧ ∃ definitions edges,
        knotted.after call = { knotted with definitions, edges } ∧
        ∀ i, edges.get? i = knotted.edges.get? i ∨
          ∃ id changes, call = .change (.edge id) changes ∧ knotted.edgeSlot? id = some i :=
  have hfails : knotted.failure? (.change (.edge "e") [.setProperty "k" (.int 2), .addLabel "L"]) =
      some .labelOnRelationship := by rfl
  ⟨hfails, after_of_failure hfails⟩

/-- A change of a missing vertex defines a name, and the first part of a change of an edge stays. -/
theorem failed_change_stays :
    (¬ ∀ (calls : List Call) (call : Call) (e : StoreError), let s := calls.foldl after .empty
      s.failure? call = some e → ∀ name, (s.after call).isDefined name = s.isDefined name) ∧
    ¬ ∀ (calls : List Call) (call : Call) (e : StoreError), let s := calls.foldl after .empty
      s.failure? call = some e → ∀ id, (s.after call).edge? id = s.edge? id := by
  constructor
  · intro h
    have hname := h [] (.change (.vertex "x") [.setProperty "k" (.int 1)]) (.notFound "x") rfl "k"
    exact absurd hname (by decide)
  · intro h
    have hedge := h [.addVertex "x" [] [] "", .addEdge "e" "R" "x" "x" [("k", .int 1)] ""]
      (.change (.edge "e") [.setProperty "k" (.int 2), .addLabel "L"]) .labelOnRelationship rfl "e"
    have hbefore : (knotted.edge? "e").map (·.properties) = some [("k", .int 1)] := by rfl
    have hafter : ((knotted.after (.change (.edge "e")
        [.setProperty "k" (.int 2), .addLabel "L"])).edge? "e").map (·.properties) =
          some [("k", .int 2)] := by rfl
    change (knotted.after _).edge? "e" = knotted.edge? "e" at hedge
    rw [hedge, hbefore] at hafter
    simp at hafter

end Store

end PropertyGraph
