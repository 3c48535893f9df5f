import Mathlib.Data.List.Perm.Subperm
import PropertyGraph.Proofs.Pattern.Partial

/-!
# The names of the row

A search begins with what the row binds.  The nodes have one assignment from there, and a
relationship that may be read in both directions has two, so that the search begins with several
partial matches.

    Opening         the assignments of some nodes and relationships are those of the row
    start_spec      the search begins with partial matches, each once, and every solution extends
                    one of them
    start_ok        a row that fits the pattern raises no error
-/

namespace PropertyGraph

/-! ## Distinct results -/

/-- Results are distinct exactly if they come from distinct positions. -/
theorem nodup_filterMap_iff {α β : Type} {f : α → Option β} {as : List α} :
    (as.filterMap f).Nodup ↔ ∀ (i j : Nat) b, as[i]?.bind f = some b → as[j]?.bind f = some b →
      i = j := by
  induction as with
  | nil => simp
  | cons a rest ih =>
    have hmem : ∀ b, b ∈ rest.filterMap f ↔ ∃ j : Nat, rest[j]?.bind f = some b := by
      intro b
      rw [List.mem_filterMap]
      constructor
      · rintro ⟨x, hx, hb⟩
        obtain ⟨j, hj⟩ := List.mem_iff_getElem?.1 hx
        exact ⟨j, by rw [hj]; exact hb⟩
      · rintro ⟨j, hj⟩
        obtain ⟨x, hx, hb⟩ := Option.bind_eq_some_iff.1 hj
        exact ⟨x, List.mem_of_getElem? hx, hb⟩
    cases ha : f a with
    | none =>
      rw [List.filterMap_cons_none ha, ih]
      constructor
      · intro h i j b hi hj
        cases i with
        | zero => rw [List.getElem?_cons_zero, Option.bind_some, ha] at hi; cases hi
        | succ i =>
          cases j with
          | zero => rw [List.getElem?_cons_zero, Option.bind_some, ha] at hj; cases hj
          | succ j => rw [h i j b hi hj]
      · intro h i j b hi hj
        have := h (i + 1) (j + 1) b hi hj
        omega
    | some c =>
      rw [List.filterMap_cons_some ha, List.nodup_cons, hmem, ih]
      constructor
      · rintro ⟨hc, h⟩ i j b hi hj
        cases i with
        | zero =>
          cases j with
          | zero => rfl
          | succ j =>
            rw [List.getElem?_cons_zero, Option.bind_some, ha] at hi
            cases hi
            exact absurd ⟨j, hj⟩ hc
        | succ i =>
          cases j with
          | zero =>
            rw [List.getElem?_cons_zero, Option.bind_some, ha] at hj
            cases hj
            exact absurd ⟨i, hi⟩ hc
          | succ j => rw [h i j b hi hj]
      · intro h
        constructor
        · rintro ⟨j, hj⟩
          have := h 0 (j + 1) c ha hj
          omega
        · intro i j b hi hj
          have := h (i + 1) (j + 1) b hi hj
          omega

theorem eraseDups_length_beq {α : Type} [BEq α] [LawfulBEq α] {as : List α} :
    (as.eraseDups.length == as.length) = true ↔ as.Nodup := by
  rw [beq_iff_eq]
  have hnodup := nodup_eraseDups as
  constructor
  · intro h
    have hsub : as.eraseDups.Subperm as := List.subperm_of_subset hnodup fun a ha =>
      List.mem_eraseDups.1 ha
    exact (hsub.perm_of_length_le h.ge).nodup_iff.1 hnodup
  · intro h
    exact ((List.perm_ext_iff_of_nodup hnodup h).2 fun a => List.mem_eraseDups).length_eq

namespace Search

variable {q : Search} {σ : Store} {row : Row} {m m' : Match}

/-! ## What the row binds -/

/-- What the row makes of a node. -/
def NodeStarts (q : Search) (row : Row) (n : NodeConstraint Value) : Option NodeBinding → Prop
  | none => n.name.bind row.lookup? = none
  | some (.vertex v) =>
    n.name.bind row.lookup? = some (.node v) ∧ n.admits q.ctx.config v = true
  | some .null => n.name.bind row.lookup? = some .null ∧ q.pattern.optional = true

/-- What the row makes of a relationship. -/
def RelationshipStarts (q : Search) (row : Row) (r : RelationshipConstraint Value) :
    Option RelationshipBinding → Prop
  | none => r.name.bind row.lookup? = none
  | some (.edge e first second) =>
    r.name.bind row.lookup? = some (.relationship e) ∧ r.range = none ∧
      r.admits q.ctx.config e = true ∧ e.Joins r.heading first second
  | some (.walk _) => False
  | some .null => r.name.bind row.lookup? = some .null ∧ q.pattern.optional = true

/-- The first nodes and relationships are as the row makes them, and the others open. -/
structure Opening (q : Search) (row : Row) (nodes relationships : Nat) (m : Match) : Prop where
  nodeCount : m.nodes.length = q.pattern.nodes.length
  relationshipCount : m.relationships.length = q.pattern.relationships.length
  node : ∀ (i : Nat) n, q.pattern.nodes[i]? = some n → i < nodes → q.NodeStarts row n (m.node? i)
  laterNode : ∀ i, nodes ≤ i → m.node? i = none
  relationship : ∀ (i : Nat) r, q.pattern.relationships[i]? = some r → i < relationships →
    q.RelationshipStarts row r (m.relationship? i)
  laterRelationship : ∀ i, relationships ≤ i → m.relationship? i = none

theorem opening_blank (q : Search) (row : Row) : q.Opening row 0 0 (.blank q.pattern) := by
  have hjoin : ∀ {α β : Type} (as : List α) (i : Nat),
      ((as.map fun _ => none)[i]?.join : Option β) = none := by
    intro α β as i
    rw [List.getElem?_map]
    cases as[i]? <;> rfl
  refine ⟨List.length_map _, List.length_map _, fun i n _ hi => ?_, fun i _ => hjoin _ i,
    fun i r _ hi => ?_, fun i _ => hjoin _ i⟩
  · omega
  · omega

/-! ## Nodes -/

theorem Opening.skipNode {k j : Nat} (h : q.Opening row k j m) {n : NodeConstraint Value}
    (hn : q.pattern.nodes[k]? = some n) (hrow : n.name.bind row.lookup? = none) :
    q.Opening row (k + 1) j m := by
  refine ⟨h.nodeCount, h.relationshipCount, fun i n' hn' hi => ?_,
    fun i hi => h.laterNode i (by omega), h.relationship, h.laterRelationship⟩
  rcases Nat.lt_succ_iff_lt_or_eq.1 hi with hlt | rfl
  · exact h.node i n' hn' hlt
  · rw [hn] at hn'
    cases hn'
    rw [h.laterNode i le_rfl]
    exact hrow

theorem Opening.setNode {k j : Nat} (h : q.Opening row k j m) {n : NodeConstraint Value}
    (hn : q.pattern.nodes[k]? = some n) {b : NodeBinding} (hb : q.NodeStarts row n (some b)) :
    q.Opening row (k + 1) j (m.setNode k b) := by
  have hk : k < m.nodes.length := by
    rw [h.nodeCount]
    exact (List.getElem?_eq_some_iff.1 hn).1
  have hget := fun i => Match.node?_setNode m k i b hk
  refine ⟨?_, h.relationshipCount, fun i n' hn' hi => ?_, fun i hi => ?_, h.relationship,
    h.laterRelationship⟩
  · rw [← h.nodeCount]
    exact List.length_set
  · rw [hget]
    split
    · next hki =>
      rw [← hki, hn] at hn'
      cases hn'
      exact hb
    · exact h.node i n' hn' (by omega)
  · rw [hget, if_neg (by omega)]
    exact h.laterNode i (by omega)

/-- The nodes that remain, each with its position. -/
theorem getElem?_of_append {α : Type} {as done rest : List α} {a : α}
    (h : as = done ++ a :: rest) : as[done.length]? = some a := by
  rw [h, List.getElem?_append_right le_rfl, Nat.sub_self, List.getElem?_cons_zero]

theorem append_cons_length {α : Type} {as done rest : List α} {a : α}
    (h : as = done ++ a :: rest) : as = (done ++ [a]) ++ rest ∧ (done ++ [a]).length =
      done.length + 1 := by
  constructor
  · rw [h, List.append_assoc]
    rfl
  · rw [List.length_append, List.length_singleton]

/-- What the row makes of the nodes; if one of them does not qualify, there is no solution. -/
theorem startNodes_spec {rest done : List (NodeConstraint Value)} {o : Option Match} {j : Nat}
    (hnodes : q.pattern.nodes = done ++ rest) (h : q.Opening row done.length j m)
    (ho : q.startNodes row (rest.zipIdx done.length) m = .ok o) :
    (∀ m', o = some m' → q.Opening row q.pattern.nodes.length j m') ∧
      (o = none → ∀ m', ¬ q.Solution σ row m') := by
  induction rest generalizing done m with
  | nil =>
    cases ho
    rw [hnodes, List.append_nil]
    exact ⟨fun m' hm => Option.some.inj hm ▸ h, nofun⟩
  | cons n rest ih =>
    have hn := getElem?_of_append hnodes
    obtain ⟨hnodes', hlen⟩ := append_cons_length hnodes
    rw [List.zipIdx_cons] at ho
    unfold startNodes at ho
    rw [← hlen] at ho
    have hsolution : ∀ m', q.Solution σ row m' → ∀ bound, n.name.bind row.lookup? = some bound →
        ∃ v, bound = .node v ∧ n.admits q.ctx.config v = true := by
      intro m' hs bound hbound
      obtain ⟨v, -, hmeets, hrow⟩ := hs.node _ n hn
      rw [hbound] at hrow
      exact ⟨v, hrow, hmeets⟩
    split at ho
    · next hrow => exact ih hnodes' (by rw [hlen]; exact h.skipNode hn hrow) ho
    · next v hrow =>
      split at ho
      · next hmeets =>
        exact ih hnodes' (by rw [hlen]; exact h.setNode hn ⟨hrow, hmeets⟩) ho
      · next hmeets =>
        cases ho
        refine ⟨nofun, fun _ m' hs => ?_⟩
        obtain ⟨w, hw, hmeets'⟩ := hsolution m' hs _ hrow
        cases hw
        exact hmeets hmeets'
    · next hrow =>
      split at ho
      · next hopt => exact ih hnodes' (by rw [hlen]; exact h.setNode hn ⟨hrow, hopt⟩) ho
      · cases ho
        refine ⟨nofun, fun _ m' hs => ?_⟩
        obtain ⟨w, hw, -⟩ := hsolution m' hs _ hrow
        cases hw
    · cases ho

/-! ## Relationships -/

theorem Opening.skipRelationship {i k : Nat} (h : q.Opening row i k m)
    {r : RelationshipConstraint Value} (hr : q.pattern.relationships[k]? = some r)
    (hrow : r.name.bind row.lookup? = none) : q.Opening row i (k + 1) m := by
  refine ⟨h.nodeCount, h.relationshipCount, h.node, h.laterNode, fun j r' hr' hj => ?_,
    fun j hj => h.laterRelationship j (by omega)⟩
  rcases Nat.lt_succ_iff_lt_or_eq.1 hj with hlt | rfl
  · exact h.relationship j r' hr' hlt
  · rw [hr] at hr'
    cases hr'
    rw [h.laterRelationship j le_rfl]
    exact hrow

theorem Opening.setRelationship {i k : Nat} (h : q.Opening row i k m)
    {r : RelationshipConstraint Value} (hr : q.pattern.relationships[k]? = some r)
    {b : RelationshipBinding} (hb : q.RelationshipStarts row r (some b)) :
    q.Opening row i (k + 1) (m.setRelationship k b) := by
  have hk : k < m.relationships.length := by
    rw [h.relationshipCount]
    exact (List.getElem?_eq_some_iff.1 hr).1
  have hget := fun j => Match.relationship?_setRelationship m k j b hk
  refine ⟨h.nodeCount, ?_, h.node, h.laterNode, fun j r' hr' hj => ?_, fun j hj => ?_⟩
  · rw [← h.relationshipCount]
    exact List.length_set
  · rw [hget]
    split
    · next hkj =>
      rw [← hkj, hr] at hr'
      cases hr'
      exact hb
    · exact h.relationship j r' hr' (by omega)
  · rw [hget, if_neg (by omega)]
    exact h.laterRelationship j (by omega)

/-- The ways in which an edge can lie along a relationship are those in which it joins its ends. -/
theorem mem_orientations {heading : Heading} {e : Edge} {b : RelationshipBinding} :
    b ∈ RelationshipBinding.orientations heading e ↔
      ∃ first second, b = .edge e first second ∧ e.Joins heading first second := by
  unfold RelationshipBinding.orientations Edge.Joins
  cases heading with
  | outgoing => aesop
  | incoming => aesop
  | undirected =>
    simp only
    split
    · next hloop =>
      have hends : e.source = e.target := eq_of_beq hloop
      aesop
    · aesop

theorem nodup_orientations (heading : Heading) (e : Edge) :
    (RelationshipBinding.orientations heading e).Nodup := by
  unfold RelationshipBinding.orientations
  cases heading with
  | outgoing => exact List.nodup_singleton _
  | incoming => exact List.nodup_singleton _
  | undirected =>
    simp only
    split
    · exact List.nodup_singleton _
    · next hloop =>
      rw [List.nodup_cons, List.mem_singleton]
      refine ⟨fun h => ?_, List.nodup_singleton _⟩
      injection h with _ hends
      exact hloop (beq_iff_eq.2 hends)

/-- The assignments that a value of the row allows. -/
theorem startBindings_spec {r : RelationshipConstraint Value} {bound : Value}
    (hrow : r.name.bind row.lookup? = some bound) {bs : List RelationshipBinding}
    (hbs : q.startBindings r bound = .ok bs) :
    bs.Nodup ∧ (∀ b ∈ bs, q.RelationshipStarts row r (some b)) ∧
      ∀ b first second, q.RelationshipFits σ row r b first second → b ∈ bs := by
  unfold startBindings at hbs
  split at hbs
  · cases hbs
  · next hwalk =>
    have hrange : r.range = none := by
      unfold RelationshipConstraint.isWalk at hwalk
      cases hr : r.range with
      | none => rfl
      | some range => rw [hr] at hwalk; exact absurd rfl hwalk
    have hfit : ∀ b first second, q.RelationshipFits σ row r b first second →
        ∃ e, b = .edge e first second ∧ bound = .relationship e ∧
          r.admits q.ctx.config e = true ∧ e.Joins r.heading first second := by
      intro b first second h
      cases h with
      | edge e _ _ _ he hj =>
        obtain ⟨hmeets, hbound⟩ := he
        rw [hrow] at hbound
        exact ⟨e, rfl, hbound, hmeets, hj⟩
      | walk p range hr => rw [hrange] at hr; cases hr
    cases bound with
    | relationship e =>
      cases hbs
      split
      · next hmeets =>
        refine ⟨nodup_orientations _ _, fun b hb => ?_, fun b first second h => ?_⟩
        · obtain ⟨first, second, rfl, hj⟩ := mem_orientations.1 hb
          exact ⟨hrow, hrange, hmeets, hj⟩
        · obtain ⟨e', rfl, he, -, hj⟩ := hfit b first second h
          cases he
          exact mem_orientations.2 ⟨first, second, rfl, hj⟩
      · next hmeets =>
        refine ⟨List.nodup_nil, nofun, fun b first second h => ?_⟩
        obtain ⟨e', -, he, hmeets', -⟩ := hfit b first second h
        cases he
        exact absurd hmeets' hmeets
    | null =>
      cases hbs
      split
      · next hopt =>
        refine ⟨List.nodup_singleton _, fun b hb => ?_, fun b first second h => ?_⟩
        · rw [List.mem_singleton.1 hb]
          exact ⟨hrow, hopt⟩
        · obtain ⟨e', -, he, -⟩ := hfit b first second h
          cases he
      · refine ⟨List.nodup_nil, nofun, fun b first second h => ?_⟩
        obtain ⟨e', -, he, -⟩ := hfit b first second h
        cases he
    | _ => cases hbs

/-- The matches that have come about after some relationships. -/
structure Opened (q : Search) (σ : Store) (row : Row) (k : Nat) (ms : List Match) : Prop where
  nodup : ms.Nodup
  opening : ∀ m ∈ ms, q.Opening row q.pattern.nodes.length k m
  complete : ∀ m', q.Solution σ row m' → ∃ m ∈ ms, m.Extends m'

theorem Opened.skip {k : Nat} {ms : List Match} (h : q.Opened σ row k ms)
    {r : RelationshipConstraint Value} (hr : q.pattern.relationships[k]? = some r)
    (hrow : r.name.bind row.lookup? = none) : q.Opened σ row (k + 1) ms :=
  ⟨h.nodup, fun m hm => (h.opening m hm).skipRelationship hr hrow, h.complete⟩

theorem Opened.assign {k : Nat} {ms : List Match} (h : q.Opened σ row k ms)
    {r : RelationshipConstraint Value} (hr : q.pattern.relationships[k]? = some r)
    {bs : List RelationshipBinding} (hnodup : bs.Nodup)
    (hstarts : ∀ b ∈ bs, q.RelationshipStarts row r (some b))
    (hfits : ∀ b first second, q.RelationshipFits σ row r b first second → b ∈ bs) :
    q.Opened σ row (k + 1) (ms.flatMap fun m => bs.map (m.setRelationship k)) := by
  have hk : ∀ m ∈ ms, k < m.relationships.length := by
    intro m hm
    rw [(h.opening m hm).relationshipCount]
    exact (List.getElem?_eq_some_iff.1 hr).1
  have hopen : ∀ m ∈ ms, m.relationship? k = none := fun m hm =>
    (h.opening m hm).laterRelationship k le_rfl
  have hget := fun m hm j b => Match.relationship?_setRelationship m k j b (hk m hm)
  refine ⟨?_, fun m' hm' => ?_, fun m' hs => ?_⟩
  · rw [List.nodup_flatMap]
    refine ⟨fun m hm => hnodup.map_on fun b _ c _ hbc => ?_, h.nodup.imp_of_mem ?_⟩
    · have := congrArg (·.relationship? k) hbc
      simp only [hget m hm, if_true, Option.some.injEq] at this
      exact this
    · -- without the assignment just made the two would be the same match
      intro m m₂ hm hm₂ hne
      refine List.disjoint_left.2 ?_
      intro x hx hx₂
      obtain ⟨b, -, rfl⟩ := List.mem_map.1 hx
      obtain ⟨c, -, hc⟩ := List.mem_map.1 hx₂
      refine hne (Match.eq_of_setRelationship (hopen m hm) (hopen m₂ hm₂) (hk m hm) (hk m₂ hm₂)
        hc.symm)
  · obtain ⟨m, hm, hmem⟩ := List.mem_flatMap.1 hm'
    obtain ⟨b, hb, rfl⟩ := List.mem_map.1 hmem
    exact (h.opening m hm).setRelationship hr (hstarts b hb)
  · obtain ⟨m, hm, hext⟩ := h.complete m' hs
    obtain ⟨b, v, w, hb, -, -, hfit⟩ := hs.relationship k r hr
    refine ⟨m.setRelationship k b, List.mem_flatMap.2 ⟨m, hm, List.mem_map.2
      ⟨b, hfits b _ _ hfit, rfl⟩⟩, hext.setRelationship (hk m hm) hb⟩

theorem startRelationships_spec {rest done : List (RelationshipConstraint Value)}
    {ms ms' : List Match} (hrels : q.pattern.relationships = done ++ rest)
    (h : q.Opened σ row done.length ms)
    (hms : q.startRelationships row (rest.zipIdx done.length) ms = .ok ms') :
    q.Opened σ row q.pattern.relationships.length ms' := by
  induction rest generalizing done ms with
  | nil =>
    cases hms
    rw [hrels, List.append_nil]
    exact h
  | cons r rest ih =>
    have hr := getElem?_of_append hrels
    obtain ⟨hrels', hlen⟩ := append_cons_length hrels
    rw [List.zipIdx_cons] at hms
    unfold startRelationships at hms
    rw [← hlen] at hms
    split at hms
    · next hrow => exact ih hrels' (by rw [hlen]; exact h.skip hr hrow) hms
    · next bound hrow =>
      obtain ⟨bs, hbs, hms⟩ := ok_of_bind hms
      obtain ⟨hnodup, hstarts, hfits⟩ := startBindings_spec hrow hbs
      exact ih hrels' (by rw [hlen]; exact h.assign hr hnodup hstarts hfits) hms

/-! ## Fitting together -/

theorem edgeId?_relationship? (m : Match) (i : Nat) :
    edgeId? (m.relationship? i) = m.relationships[i]?.bind edgeId? := by
  unfold Match.relationship?
  cases m.relationships[i]? <;> rfl

theorem endsAgree_iff {r : RelationshipConstraint Value} {i : Nat} :
    endsAgree m r i = true ↔ ∀ b first second, m.relationship? i = some b →
      b.ends = some (first, second) → (r.first = r.second → first = second) ∧
        (∀ v, m.vertex? r.first = some v → v.id = first) ∧
        ∀ w, m.vertex? r.second = some w → w.id = second := by
  unfold endsAgree
  have hall : ∀ (o : Option Vertex) (id : String), o.all (·.id == id) = true ↔
      ∀ v, o = some v → v.id = id := by
    intro o id
    cases o <;> simp
  split
  · next hnone =>
    refine ⟨fun _ b first second hb hends => ?_, fun _ => rfl⟩
    rw [hb, Option.bind_some, hends] at hnone
    cases hnone
  · next first second hsome =>
    obtain ⟨b, hb, hends⟩ := Option.bind_eq_some_iff.1 hsome
    simp only [Bool.and_eq_true, Bool.or_eq_true, decide_eq_true_eq, beq_iff_eq, hall]
    constructor
    · rintro ⟨⟨hloop, hfirst⟩, hsecond⟩ b' first' second' hb' hends'
      rw [hb] at hb'
      cases hb'
      rw [hends] at hends'
      cases hends'
      exact ⟨fun h => hloop.resolve_left (not_not_intro h), hfirst, hsecond⟩
    · intro h
      obtain ⟨hloop, hfirst, hsecond⟩ := h b first second hb hends
      refine ⟨⟨?_, hfirst⟩, hsecond⟩
      by_cases h : r.first = r.second
      · exact Or.inr (hloop h)
      · exact Or.inl h

theorem consistent_iff : q.consistent m = true ↔
    (∀ i j id, edgeId? (m.relationship? i) = some id → edgeId? (m.relationship? j) = some id →
      i = j) ∧
      ∀ (i : Nat) r, q.pattern.relationships[i]? = some r → endsAgree m r i = true := by
  unfold consistent
  simp only [Bool.and_eq_true, eraseDups_length_beq, nodup_filterMap_iff, List.all_eq_true]
  refine and_congr ?_ ?_
  · simp only [edgeId?_relationship?]
  · constructor
    · intro h i r hr
      exact h (r, i) (List.mem_zipIdx_iff_getElem?.2 hr)
    · intro h p hp
      exact h p.2 p.1 (List.mem_zipIdx_iff_getElem?.1 hp)

theorem edgeId?_eq_some {o : Option RelationshipBinding} {id : String} :
    edgeId? o = some id ↔ ∃ e first second, o = some (.edge e first second) ∧ e.id = id := by
  unfold edgeId?
  split
  · simp
  · next h =>
    refine ⟨nofun, ?_⟩
    rintro ⟨e, first, second, rfl, -⟩
    exact absurd rfl (h e first second)

/-- What the row makes of all constraints is a partial match if it fits together. -/
theorem Opening.toPartial
    (h : q.Opening row q.pattern.nodes.length q.pattern.relationships.length m)
    (hc : q.consistent m = true) : q.Partial σ row m := by
  have hstart : ∀ (i : Nat) r b, q.pattern.relationships[i]? = some r →
      m.relationship? i = some b → q.RelationshipStarts row r (some b) := by
    intro i r b hr hb
    rw [← hb]
    exact h.relationship i r hr (List.getElem?_eq_some_iff.1 hr).1
  have hedge : ∀ (i : Nat) b, m.relationship? i = some b → b ≠ .null →
      ∃ e first second, b = .edge e first second := by
    intro i b hb hbn
    have hlt := Match.lt_of_relationship? hb
    rw [h.relationshipCount] at hlt
    have := hstart i _ b (List.getElem?_eq_getElem hlt) hb
    cases b with
    | edge e first second => exact ⟨e, first, second, rfl⟩
    | walk p => cases this
    | null => exact absurd rfl hbn
  obtain ⟨hids, hends⟩ := consistent_iff.1 hc
  refine ⟨h.nodeCount, h.relationshipCount, fun i n hn hi => ?_, fun i r hr hi => ?_,
    fun i n v hn hv => ?_, fun i r b hr hb hbn => ?_, fun i r b hr hwalk hb hbn => ?_,
    fun i j b c id hb hc hbu hcu => ?_, fun hopt => ?_⟩
  · have := h.node i n hn (List.getElem?_eq_some_iff.1 hn).1
    rw [hi] at this
    exact this
  · have := h.relationship i r hr (List.getElem?_eq_some_iff.1 hr).1
    rw [hi] at this
    exact this
  · have := h.node i n hn (List.getElem?_eq_some_iff.1 hn).1
    rw [hv] at this
    refine ⟨this.2, ?_⟩
    rw [this.1]
  · obtain ⟨e, first, second, rfl⟩ := hedge i b hb hbn
    obtain ⟨hrow, hrange, hmeets, hj⟩ := hstart i r _ hr hb
    obtain ⟨hloop, hfirst, hsecond⟩ := endsAgree_iff.1 (hends i r hr) _ first second hb rfl
    refine ⟨first, second, .edge e first second hrange ⟨hmeets, ?_⟩ hj, hloop, hfirst, hsecond⟩
    rw [hrow]
  · obtain ⟨e, first, second, rfl⟩ := hedge i b hb hbn
    obtain ⟨-, hrange, -⟩ := hstart i r _ hr hb
    rw [RelationshipConstraint.isWalk, hrange] at hwalk
    cases hwalk
  · obtain ⟨e, first, second, rfl⟩ := hedge i b hb (by rintro rfl; cases hbu)
    obtain ⟨e', first', second', rfl⟩ := hedge j c hc (by rintro rfl; cases hcu)
    exact hids i j id (edgeId?_eq_some.2 ⟨e, _, _, hb, eq_of_beq hbu⟩)
      (edgeId?_eq_some.2 ⟨e', _, _, hc, eq_of_beq hcu⟩)
  · rw [Match.hasNull_eq_false]
    constructor
    · intro i hi
      have hlt := Match.lt_of_node? hi
      rw [h.nodeCount] at hlt
      have := h.node i _ (List.getElem?_eq_getElem hlt) hlt
      rw [hi] at this
      rw [this.2] at hopt
      cases hopt
    · intro i hi
      have hlt := Match.lt_of_relationship? hi
      rw [h.relationshipCount] at hlt
      have := hstart i _ _ (List.getElem?_eq_getElem hlt) hi
      rw [this.2] at hopt
      cases hopt

/-- What a solution assigns fits together. -/
theorem Solution.consistent (h : q.Solution σ row m') (hm : m.Extends m') :
    q.consistent m = true := by
  rw [consistent_iff]
  constructor
  · intro i j id hi hj
    obtain ⟨e, first, second, he, rfl⟩ := edgeId?_eq_some.1 hi
    obtain ⟨e', first', second', he', hid⟩ := edgeId?_eq_some.1 hj
    exact h.distinct i j _ _ e.id (hm.2 i _ he) (hm.2 j _ he') (beq_self_eq_true e.id)
      (beq_iff_eq.2 hid)
  · intro i r hr
    rw [endsAgree_iff]
    intro b first second hb hends
    obtain ⟨b', v, w, hb', hv, hw, hfits⟩ := h.relationship i r hr
    rw [hm.2 i b hb] at hb'
    cases hb'
    rw [hfits.ends] at hends
    cases hends
    refine ⟨fun hloop => ?_, fun u hu => ?_, fun u hu => ?_⟩
    · rw [hloop, hw] at hv
      cases hv
      rfl
    · have := hm.vertex hu
      rw [hv] at this
      cases this
      rfl
    · have := hm.vertex hu
      rw [hw] at this
      cases this
      rfl

/-! ## The beginning of a search -/

theorem NodeStarts.isSome {n : NodeConstraint Value} {o : Option NodeBinding}
    (h : q.NodeStarts row n o) : o.isSome = (n.name.bind row.lookup?).isSome := by
  cases o with
  | none => rw [show n.name.bind row.lookup? = none from h]; rfl
  | some b => cases b <;> rw [h.1] <;> rfl

theorem RelationshipStarts.isSome {r : RelationshipConstraint Value}
    {o : Option RelationshipBinding} (h : q.RelationshipStarts row r o) :
    o.isSome = (r.name.bind row.lookup?).isSome := by
  cases o with
  | none => rw [show r.name.bind row.lookup? = none from h]; rfl
  | some b =>
    cases b with
    | walk p => cases h
    | edge e first second => rw [h.1]; rfl
    | null => rw [h.1]; rfl

/-- A solution assigns to the nodes what the row makes of them. -/
theorem Opening.extends_solution (h : q.Opening row q.pattern.nodes.length 0 m)
    (hs : q.Solution σ row m') : m.Extends m' := by
  constructor
  · intro i b hb
    have hlt := Match.lt_of_node? hb
    rw [h.nodeCount] at hlt
    have hn := List.getElem?_eq_getElem hlt
    have hstart := h.node i _ hn hlt
    obtain ⟨v, hv, -, hrow⟩ := hs.node i _ hn
    rw [hb] at hstart
    cases b with
    | vertex w =>
      rw [hstart.1] at hrow
      rw [hv]
      cases hrow
      rfl
    | null =>
      rw [hstart.1] at hrow
      cases hrow
  · intro i b hb
    rw [h.laterRelationship i (Nat.zero_le i)] at hb
    cases hb

/-- Partial matches from the row that one match extends are the same. -/
theorem Opening.eq_of_extends {m₁ m₂ : Match}
    (h₁ : q.Opening row q.pattern.nodes.length q.pattern.relationships.length m₁)
    (h₂ : q.Opening row q.pattern.nodes.length q.pattern.relationships.length m₂)
    (he₁ : m₁.Extends m) (he₂ : m₂.Extends m) : m₁ = m₂ := by
  have hoption : ∀ {α : Type} {o₁ o₂ o : Option α}, o₁.isSome = o₂.isSome →
      (∀ a, o₁ = some a → o = some a) → (∀ a, o₂ = some a → o = some a) → o₁ = o₂ := by
    intro α o₁ o₂ o hsome hs₁ hs₂
    cases o₁ with
    | none => cases o₂ with
      | none => rfl
      | some a => cases hsome
    | some a => cases o₂ with
      | none => cases hsome
      | some b => rw [← hs₁ a rfl, ← hs₂ b rfl]
  refine Match.eq_of_assignments (h₁.nodeCount.trans h₂.nodeCount.symm)
    (h₁.relationshipCount.trans h₂.relationshipCount.symm) (fun i => ?_) (fun i => ?_)
  · rcases Nat.lt_or_ge i q.pattern.nodes.length with hlt | hge
    · have hn := List.getElem?_eq_getElem hlt
      exact hoption ((h₁.node i _ hn hlt).isSome.trans (h₂.node i _ hn hlt).isSome.symm)
        (he₁.1 i) (he₂.1 i)
    · rw [h₁.laterNode i hge, h₂.laterNode i hge]
  · rcases Nat.lt_or_ge i q.pattern.relationships.length with hlt | hge
    · have hr := List.getElem?_eq_getElem hlt
      exact hoption
        ((h₁.relationship i _ hr hlt).isSome.trans (h₂.relationship i _ hr hlt).isSome.symm)
        (he₁.2 i) (he₂.2 i)
    · rw [h₁.laterRelationship i hge, h₂.laterRelationship i hge]

/-- The matches that the search begins with. -/
theorem start_spec {ms : List Match} (h : q.start row = .ok ms) :
    ms.Nodup ∧ (∀ m ∈ ms, q.Partial σ row m) ∧
      (∀ m₁ ∈ ms, ∀ m₂ ∈ ms, ∀ m', m₁.Extends m' → m₂.Extends m' → m₁ = m₂) ∧
      ∀ m', q.Solution σ row m' → ∃ m ∈ ms, m.Extends m' := by
  unfold start at h
  split at h
  · cases h
  · obtain ⟨o, ho, h⟩ := ok_of_bind h
    obtain ⟨hsome, hnone⟩ := startNodes_spec (σ := σ) (List.nil_append _).symm
      (opening_blank q row) ho
    cases o with
    | none =>
      cases h
      exact ⟨List.nodup_nil, nofun, nofun, fun m' hs => absurd hs (hnone rfl m')⟩
    | some m =>
      obtain ⟨all, hall, h⟩ := ok_of_bind h
      cases h
      have hm := hsome m rfl
      have hopened : q.Opened σ row 0 [m] := by
        refine ⟨List.nodup_singleton m, fun m₁ h₁ => ?_, fun m' hs => ?_⟩
        · rw [List.mem_singleton.1 h₁]
          exact hm
        · exact ⟨m, List.mem_singleton_self m, hm.extends_solution hs⟩
      have hfinal := startRelationships_spec (List.nil_append _).symm hopened hall
      refine ⟨hfinal.nodup.filter _, fun m₁ h₁ => ?_, fun m₁ h₁ m₂ h₂ m' he₁ he₂ => ?_,
        fun m' hs => ?_⟩
      · obtain ⟨hmem, hc⟩ := List.mem_filter.1 h₁
        exact (hfinal.opening m₁ hmem).toPartial hc
      · exact (hfinal.opening m₁ (List.mem_filter.1 h₁).1).eq_of_extends
          (hfinal.opening m₂ (List.mem_filter.1 h₂).1) he₁ he₂
      · obtain ⟨m₁, h₁, hext⟩ := hfinal.complete m' hs
        exact ⟨m₁, List.mem_filter.2 ⟨h₁, hs.consistent hext⟩, hext⟩

/-! ## Rows that fit -/

/-- The row binds elements to the names of nodes and of single relationships, or null, and nothing
to the names of walks and of paths. -/
structure RowFits (q : Search) (row : Row) : Prop where
  path : ∀ p ∈ q.pattern.paths, row.lookup? p.name = none
  node : ∀ n ∈ q.pattern.nodes, ∀ v, n.name.bind row.lookup? = some v →
    v = .null ∨ ∃ x, v = .node x
  relationship : ∀ r ∈ q.pattern.relationships, ∀ v, r.name.bind row.lookup? = some v →
    r.isWalk = false ∧ (v = .null ∨ ∃ e, v = .relationship e)

theorem startNodes_ok {l : List (NodeConstraint Value × Nat)}
    (h : ∀ p ∈ l, ∀ v, p.1.name.bind row.lookup? = some v → v = .null ∨ ∃ x, v = .node x) :
    ∃ o, q.startNodes row l m = .ok o := by
  induction l generalizing m with
  | nil => exact ⟨_, rfl⟩
  | cons p rest ih =>
    obtain ⟨n, i⟩ := p
    have hrest := fun p hp => h p (List.mem_cons_of_mem _ hp)
    unfold startNodes
    split
    · exact ih hrest
    · split
      · exact ih hrest
      · exact ⟨_, rfl⟩
    · split
      · exact ih hrest
      · exact ⟨_, rfl⟩
    · next v hnode hnull hrow =>
      rcases h (n, i) List.mem_cons_self v hrow with rfl | ⟨x, rfl⟩
      · exact absurd rfl hnull
      · exact absurd rfl (hnode x)

theorem startBindings_ok {r : RelationshipConstraint Value} {v : Value}
    (hwalk : r.isWalk = false) (hv : v = .null ∨ ∃ e, v = .relationship e) :
    ∃ bs, q.startBindings r v = .ok bs := by
  unfold startBindings
  rw [hwalk, if_neg Bool.false_ne_true]
  rcases hv with rfl | ⟨e, rfl⟩
  · exact ⟨_, rfl⟩
  · exact ⟨_, rfl⟩

theorem startRelationships_ok {l : List (RelationshipConstraint Value × Nat)}
    (h : ∀ p ∈ l, ∀ v, p.1.name.bind row.lookup? = some v →
      p.1.isWalk = false ∧ (v = .null ∨ ∃ e, v = .relationship e)) (ms : List Match) :
    ∃ ms', q.startRelationships row l ms = .ok ms' := by
  induction l generalizing ms with
  | nil => exact ⟨_, rfl⟩
  | cons p rest ih =>
    obtain ⟨r, i⟩ := p
    have hrest := fun p hp => h p (List.mem_cons_of_mem _ hp)
    unfold startRelationships
    split
    · exact ih hrest _
    · next v hrow =>
      obtain ⟨hwalk, hv⟩ := h (r, i) List.mem_cons_self v hrow
      obtain ⟨bs, hbs⟩ := startBindings_ok (q := q) hwalk hv
      rw [hbs]
      exact ih hrest _

/-- A row that fits raises no error. -/
theorem start_ok (h : q.RowFits row) : ∃ ms, q.start row = .ok ms := by
  have hpath : q.pattern.paths.find? (fun p => row.has p.name) = none := by
    rw [List.find?_eq_none]
    intro p hp
    rw [Row.has, h.path p hp]
    exact Bool.false_ne_true
  obtain ⟨o, ho⟩ := startNodes_ok (q := q) (m := .blank q.pattern) (l := q.pattern.nodes.zipIdx)
    fun p hp => h.node p.1 (List.mem_of_getElem? (List.mem_zipIdx_iff_getElem?.1 hp))
  unfold start
  rw [hpath]
  simp only [ho]
  cases o with
  | none => exact ⟨_, rfl⟩
  | some m =>
    obtain ⟨all, hall⟩ := startRelationships_ok (q := q)
      (l := q.pattern.relationships.zipIdx) (fun p hp =>
        h.relationship p.1 (List.mem_of_getElem? (List.mem_zipIdx_iff_getElem?.1 hp))) [m]
    refine ⟨all.filter q.consistent, ?_⟩
    simp only [bind, Except.bind, hall]
    rfl

end Search

end PropertyGraph
