import PropertyGraph.Proofs.Pattern.Partial

/-!
# The next constraint

Which constraint is next depends on estimates and in the end on a hash, but whichever it is, it is
open, and if it is a relationship then one of its ends is assigned.  As long as anything is open
there is a next constraint.

    Ready          the constraint can be assigned next
    reads_choose   the next constraint is ready, and there is one unless all are assigned
-/

namespace PropertyGraph

namespace Search

variable {q : Search} {σ : Store} {row : Row} {m : Match}

/-- The constraint is open, and if it is a relationship then one of its ends is assigned. -/
def Ready (q : Search) (m : Match) : ConstraintId → Prop
  | .node i => ∃ n, q.pattern.nodes[i]? = some n ∧ m.node? i = none
  | .relationship i => ∃ r, q.pattern.relationships[i]? = some r ∧ m.relationship? i = none ∧
      ∃ k ∈ r.ends, (m.node? k).isSome = true

/-! ## Estimates -/

theorem reads_total (find : Store → Cursor) : Reads σ (total find) fun _ => True := by
  intro s hs
  unfold total
  simp only
  split <;> exact ⟨trivial, hs⟩

theorem reads_remembered (key : String) {make : StateM RunState Nat}
    (h : Reads σ make fun _ => True) : Reads σ (remembered key make) fun _ => True := by
  intro s hs
  unfold remembered
  split
  · exact ⟨trivial, hs⟩
  · exact ⟨trivial, (h s hs).2⟩

theorem reads_unless {α : Type} {c : StateM RunState α} (skip : RunState → Bool) (a : α)
    (h : Reads σ c fun _ => True) :
    Reads σ (fun s => if skip s then (a, s) else c s) fun _ => True := by
  intro s hs
  simp only
  split
  · exact ⟨trivial, hs⟩
  · exact h s hs

theorem reads_nodeEstimate (n : NodeConstraint Value) :
    Reads σ (q.nodeEstimate n) fun _ => True :=
  reads_remembered _ (reads_unless _ 0 (reads_total _))

theorem reads_relationshipEstimate (r : RelationshipConstraint Value) :
    Reads σ (q.relationshipEstimate r) fun _ => True :=
  reads_remembered _ (reads_unless _ 0 (reads_total _))

/-! ## Constraints that are ready -/

/-- Of the results, one for each item at most, all qualify, and only if no item does there is none.
-/
theorem mem_filterMap_of_forall₂ {α β : Type} {S : α → Option β → Prop} {as : List α}
    {os : List (Option β)} (h : List.Forall₂ S as os) :
    (∀ b ∈ os.filterMap id, ∃ a ∈ as, S a (some b)) ∧
      (os.filterMap id = [] → ∀ a ∈ as, S a none) := by
  induction h with
  | nil => exact ⟨nofun, nofun⟩
  | @cons a o as os ho _ ih =>
    cases o with
    | none =>
      refine ⟨fun b hb => ?_, fun hnil x hx => ?_⟩
      · obtain ⟨x, hx, hs⟩ := ih.1 b hb
        exact ⟨x, List.mem_cons_of_mem _ hx, hs⟩
      · rcases List.mem_cons.1 hx with rfl | hx
        · exact ho
        · exact ih.2 hnil x hx
    | some c =>
      refine ⟨fun b hb => ?_, nofun⟩
      rcases List.mem_cons.1 hb with rfl | hb
      · exact ⟨a, List.mem_cons_self, ho⟩
      · obtain ⟨x, hx, hs⟩ := ih.1 b hb
        exact ⟨x, List.mem_cons_of_mem _ hx, hs⟩

theorem reads_openNodes : Reads σ (q.openNodes m) fun cs => (∀ c ∈ cs, q.Ready m c.2) ∧
    (cs = [] → ∀ i < q.pattern.nodes.length, (m.node? i).isSome = true) := by
  unfold openNodes
  refine (Reads.filterMapM (S := fun p o => match o with
    | none => (m.node? p.2).isSome = true
    | some c => c.2 = .node p.2 ∧ m.node? p.2 = none) fun p _ => ?_).mono fun cs hcs => ?_
  · obtain ⟨n, i⟩ := p
    simp only
    split
    · next hsome => exact Reads.pure hsome
    · next hopen =>
      rw [Option.not_isSome_iff_eq_none] at hopen
      refine Reads.bind (P := fun _ => True) ?_ fun _ _ => Reads.pure ⟨rfl, hopen⟩
      unfold nodePriority
      exact (reads_nodeEstimate n).bind fun _ _ => Reads.pure trivial
  · obtain ⟨os, hos, rfl⟩ := hcs
    obtain ⟨hmem, hnil⟩ := mem_filterMap_of_forall₂ hos
    refine ⟨fun c hc => ?_, fun hcs i hi => ?_⟩
    · obtain ⟨⟨n, i⟩, hp, heq, hopen⟩ := hmem c hc
      rw [heq]
      exact ⟨n, List.mem_zipIdx_iff_getElem?.1 hp, hopen⟩
    · exact hnil hcs (_, i) (List.mem_zipIdx_iff_getElem?.2 (List.getElem?_eq_getElem hi))

theorem reads_openRelationships : Reads σ (q.openRelationships m) fun cs =>
    (∀ c ∈ cs, q.Ready m c.2) ∧ (cs = [] → ∀ (i : Nat) r, q.pattern.relationships[i]? = some r →
      (m.relationship? i).isSome = true ∨ ∀ k ∈ r.ends, (m.node? k).isSome = false) := by
  unfold openRelationships
  refine (Reads.filterMapM (S := fun p o => match o with
    | none => (m.relationship? p.2).isSome = true ∨ ∀ k ∈ p.1.ends, (m.node? k).isSome = false
    | some c => c.2 = .relationship p.2 ∧ m.relationship? p.2 = none ∧
        ∃ k ∈ p.1.ends, (m.node? k).isSome = true) fun p _ => ?_).mono fun cs hcs => ?_
  · obtain ⟨r, i⟩ := p
    simp only
    split
    · next hskip =>
      rw [Bool.or_eq_true, beq_iff_eq, List.countP_eq_zero] at hskip
      simp only [Bool.not_eq_true] at hskip
      exact Reads.pure hskip
    · next hopen =>
      rw [Bool.or_eq_true, beq_iff_eq, not_or, Option.not_isSome_iff_eq_none] at hopen
      obtain ⟨hopen, hcount⟩ := hopen
      refine Reads.bind (P := fun _ => True) ?_ fun _ _ =>
        Reads.pure ⟨rfl, hopen, List.countP_pos_iff.1 (Nat.pos_of_ne_zero hcount)⟩
      unfold relationshipPriority
      exact (reads_relationshipEstimate r).bind fun _ _ => Reads.pure trivial
  · obtain ⟨os, hos, rfl⟩ := hcs
    obtain ⟨hmem, hnil⟩ := mem_filterMap_of_forall₂ hos
    refine ⟨fun c hc => ?_, fun hcs i r hr => ?_⟩
    · obtain ⟨⟨r, i⟩, hp, heq, hopen⟩ := hmem c hc
      rw [heq]
      exact ⟨r, List.mem_zipIdx_iff_getElem?.1 hp, hopen⟩
    · exact hnil hcs (r, i) (List.mem_zipIdx_iff_getElem?.2 hr)

/-! ## The choice -/

/-- A fold that keeps one of the items it has seen. -/
theorem foldl_picks {α : Type} {f : Option α → α → Option α}
    (hf : ∀ best c, f best c = some c ∨ (f best c = best ∧ best ≠ none)) (cs : List α)
    (best : Option α) : (∀ c, cs.foldl f best = some c → c ∈ cs ∨ best = some c) ∧
      (cs.foldl f best = none → cs = [] ∧ best = none) := by
  induction cs generalizing best with
  | nil => exact ⟨fun c hc => Or.inr hc, fun h => ⟨rfl, h⟩⟩
  | cons c rest ih =>
    obtain ⟨hsome, hnone⟩ := ih (f best c)
    rw [List.foldl_cons]
    constructor
    · intro d hd
      rcases hsome d hd with hmem | hpick
      · exact Or.inl (List.mem_cons_of_mem _ hmem)
      · rcases hf best c with h | ⟨h, -⟩
        · rw [h] at hpick
          cases hpick
          exact Or.inl List.mem_cons_self
        · exact Or.inr (h.symm.trans hpick)
    · intro h
      obtain ⟨-, hpick⟩ := hnone h
      rcases hf best c with h | ⟨h, hne⟩
      · rw [h] at hpick
        cases hpick
      · exact absurd (h.symm.trans hpick) hne

/-- The better of two candidates, the first one of equals. -/
def better (best : Option (List Int × ConstraintId)) (c : List Int × ConstraintId) :
    Option (List Int × ConstraintId) :=
  match best with
  | some b => if c.1 < b.1 then some c else some b
  | none => some c

theorem better_picks (best : Option (List Int × ConstraintId)) (c : List Int × ConstraintId) :
    better best c = some c ∨ (better best c = best ∧ best ≠ none) := by
  unfold better
  cases best with
  | none => exact Or.inl rfl
  | some b =>
    simp only
    split
    · exact Or.inl rfl
    · exact Or.inr ⟨rfl, Option.some_ne_none b⟩

theorem least_spec (cs : List (List Int × ConstraintId)) :
    (∀ t, least cs = some t → ∃ c ∈ cs, c.2 = t) ∧ (least cs = none → cs = []) := by
  rw [show least cs = (cs.foldl better none).map Prod.snd from rfl]
  obtain ⟨hsome, hnone⟩ := foldl_picks better_picks cs none
  constructor
  · intro t ht
    obtain ⟨c, hc, rfl⟩ := Option.map_eq_some_iff.1 ht
    exact ⟨c, (hsome c hc).resolve_right nofun, rfl⟩
  · intro h
    exact (hnone (Option.map_eq_none_iff.1 h)).1

/-- The next constraint is ready, and as long as some constraint is open there is one. -/
theorem reads_choose (hw : q.pattern.WellFormed) (hn : m.nodes.length = q.pattern.nodes.length)
    (hr : m.relationships.length = q.pattern.relationships.length) :
    Reads σ (q.choose m) fun o => (∀ t, o = some t → q.Ready m t) ∧
      (o = none → m.openCount = 0) := by
  unfold choose
  refine reads_openNodes.bind fun nodes ⟨hnodes, hallNodes⟩ => ?_
  refine reads_openRelationships.bind fun rels ⟨hrels, hallRels⟩ => Reads.pure ?_
  obtain ⟨hsome, hnone⟩ := least_spec (nodes ++ rels)
  constructor
  · intro t ht
    obtain ⟨c, hc, rfl⟩ := hsome t ht
    rcases List.mem_append.1 hc with hc | hc
    · exact hnodes c hc
    · exact hrels c hc
  · intro h
    obtain ⟨rfl, rfl⟩ := List.append_eq_nil_iff.1 (hnone h)
    by_contra hne
    unfold Match.openCount at hne
    rcases Nat.eq_zero_or_pos (m.nodes.countP Option.isNone) with hzero | hpos
    · obtain ⟨i, hi, hopen⟩ := Match.exists_open (l := m.relationships) (by omega)
      rw [hr] at hi
      have hri := List.getElem?_eq_getElem hi
      rcases hallRels rfl i _ hri with hassigned | hends
      · rw [Match.relationship?, hopen] at hassigned
        cases hassigned
      · -- an open relationship has an assigned end, as all nodes are assigned
        have hfirst := (hw.ends _ (List.mem_of_getElem? hri)).1
        have := hends _ (by unfold RelationshipConstraint.ends; split <;> exact List.mem_cons_self)
        rw [hallNodes rfl _ hfirst] at this
        cases this
    · obtain ⟨i, hi, hopen⟩ := Match.exists_open hpos
      have := hallNodes rfl i (hn ▸ hi)
      rw [Match.node?, hopen] at this
      cases this

end Search

end PropertyGraph
