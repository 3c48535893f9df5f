import PropertyGraph.Proofs.Pattern.Listed

/-!
# Optional and required patterns

The search for an optional pattern goes on with nulls where a required one gives up.  Otherwise the
two go the same way: that the constraints are optional is a number in all priorities, the same in
each.  So among the matches of the optional search those without a null are the matches of the
required one, in the same order.

    Search.required     the search for the same pattern, nothing in which may stay unmatched
    choose_required     both searches assign the same constraint next
    listing_required    the matches without a null that extend a partial match
    listed_required     those under the names of a row
-/

namespace PropertyGraph

/-- The same constraints, none of which may stay unmatched. -/
def Constraints.required {P : Type} (g : Constraints P) : Constraints P :=
  { g with optional := false }

namespace Search

/-- The search for the same pattern, nothing in which may stay unmatched. -/
def required (q : Search) : Search :=
  { q with pattern := q.pattern.required }

variable {q : Search} {σ : Store} {m : Match} {row : Row}

/-! ## The next constraint -/

/-- The candidate with the number of a constraint that must be matched in its priority. -/
def asRequired (c : List Int × ConstraintId) : List Int × ConstraintId :=
  (c.1.set 2 0, c.2)

/-- In the priority stands a number for all constraints of the pattern alike. -/
def Graded (k : Int) (c : List Int × ConstraintId) : Prop :=
  c.1[2]? = some k

theorem asRequired_lt {k : Int} {c d : List Int × ConstraintId} (hc : Graded k c)
    (hd : Graded k d) : (asRequired c).1 < (asRequired d).1 ↔ c.1 < d.1 := by
  obtain ⟨cs, i⟩ := c
  obtain ⟨ds, j⟩ := d
  match cs, ds, hc, hd with
  | a :: b :: x :: cs, a' :: b' :: y :: ds, hc, hd =>
    obtain rfl : x = k := Option.some.inj hc
    obtain rfl : y = x := Option.some.inj hd
    simp [asRequired, List.cons_lt_cons_iff]

theorem least_asRequired {k : Int} {l : List (List Int × ConstraintId)}
    (h : ∀ c ∈ l, Graded k c) : least (l.map asRequired) = least l := by
  have key : ∀ (cs : List (List Int × ConstraintId)) (best : Option (List Int × ConstraintId)),
      (∀ c ∈ cs, Graded k c) → (∀ b ∈ best, Graded k b) →
      (cs.map asRequired).foldl better (best.map asRequired) =
        (cs.foldl better best).map asRequired := by
    intro cs
    induction cs with
    | nil => exact fun _ _ _ => rfl
    | cons c rest ih =>
      intro best hcs hbest
      obtain ⟨hc, hrest⟩ := List.forall_mem_cons.1 hcs
      have hstep : better (best.map asRequired) (asRequired c) = (better best c).map asRequired := by
        cases best with
        | none => rfl
        | some b =>
          simp only [better, Option.map_some, asRequired_lt hc (hbest b rfl)]
          split <;> rfl
      rw [List.map_cons, List.foldl_cons, List.foldl_cons, hstep]
      refine ih _ hrest fun b hb => ?_
      rcases better_picks best c with hpick | ⟨hpick, -⟩
      · rw [hpick, Option.mem_some_iff] at hb
        exact hb ▸ hc
      · exact hbest b (hpick ▸ hb)
  have hleast : ∀ cs, least cs = (cs.foldl better none).map Prod.snd := fun _ => rfl
  rw [hleast, hleast, ← Option.map_none (f := asRequired), key l none h (fun _ hb => nomatch hb),
    Option.map_map]
  rfl

theorem filterMapM_map {α β γ : Type} {f : α → StateM RunState (Option β)} {h : β → γ}
    {f' : α → StateM RunState (Option γ)} (as : List α)
    (hf : ∀ a ∈ as, f' a = do return (← f a).map h) :
    as.filterMapM f' = do return (← as.filterMapM f).map h := by
  induction as with
  | nil => rfl
  | cons a rest ih =>
    obtain ⟨ha, hrest⟩ := List.forall_mem_cons.1 hf
    rw [List.filterMapM_cons, List.filterMapM_cons, ha, ih hrest]
    simp only [bind_assoc, pure_bind]
    refine bind_congr fun o => ?_
    cases o <;> simp

theorem openNodes_required (q : Search) (m : Match) :
    q.required.openNodes m = do return (← q.openNodes m).map asRequired := by
  refine filterMapM_map _ fun p _ => ?_
  obtain ⟨n, i⟩ := p
  simp only
  split
  · rfl
  · rfl

theorem openRelationships_required (q : Search) (m : Match) :
    q.required.openRelationships m = do return (← q.openRelationships m).map asRequired := by
  refine filterMapM_map _ fun p _ => ?_
  obtain ⟨r, i⟩ := p
  simp only
  split
  · rfl
  · rfl

theorem graded_openNodes (q : Search) (m : Match) : Reads σ (q.openNodes m) fun cs =>
    ∀ c ∈ cs, Graded q.pattern.optional.toNat c := by
  unfold openNodes
  refine (Reads.filterMapM (S := fun _ o => ∀ c ∈ o, Graded q.pattern.optional.toNat c)
    fun p _ => ?_).mono fun cs hcs => ?_
  · obtain ⟨n, i⟩ := p
    simp only
    split
    · exact Reads.pure nofun
    · refine Reads.bind (P := fun ks => ks[2]? = some (q.pattern.optional.toNat : Int)) ?_
        fun ks hks => Reads.pure fun c hc => ?_
      · unfold nodePriority
        exact (reads_nodeEstimate n).bind fun _ _ => Reads.pure rfl
      · cases hc
        exact hks
  · obtain ⟨os, hos, rfl⟩ := hcs
    intro c hc
    obtain ⟨p, -, hp⟩ := (mem_filterMap_of_forall₂ hos).1 c hc
    exact hp c rfl

theorem graded_openRelationships (q : Search) (m : Match) :
    Reads σ (q.openRelationships m) fun cs => ∀ c ∈ cs, Graded q.pattern.optional.toNat c := by
  unfold openRelationships
  refine (Reads.filterMapM (S := fun _ o => ∀ c ∈ o, Graded q.pattern.optional.toNat c)
    fun p _ => ?_).mono fun cs hcs => ?_
  · obtain ⟨r, i⟩ := p
    simp only
    split
    · exact Reads.pure nofun
    · refine Reads.bind (P := fun ks => ks[2]? = some (q.pattern.optional.toNat : Int)) ?_
        fun ks hks => Reads.pure fun c hc => ?_
      · unfold relationshipPriority
        exact (reads_relationshipEstimate r).bind fun _ _ => Reads.pure rfl
      · cases hc
        exact hks
  · obtain ⟨os, hos, rfl⟩ := hcs
    intro c hc
    obtain ⟨p, -, hp⟩ := (mem_filterMap_of_forall₂ hos).1 c hc
    exact hp c rfl

/-- Both searches assign the same constraint next. -/
theorem choose_required (q : Search) (m : Match) (s : RunState) :
    q.required.choose m s = q.choose m s := by
  have hnodes := graded_openNodes q m s rfl
  have hrels := graded_openRelationships q m (q.openNodes m s).2 hnodes.2
  have hleast := least_asRequired (k := q.pattern.optional.toNat)
    (l := (q.openNodes m s).1 ++ (q.openRelationships m (q.openNodes m s).2).1)
    fun c hc => (List.mem_append.1 hc).elim (hnodes.1 c) (hrels.1 c)
  rw [List.map_append] at hleast
  unfold choose
  rw [openNodes_required, openRelationships_required]
  exact Prod.ext hleast rfl

/-- The constraint that is chosen is open. -/
theorem ready_of_choose {s : RunState} {c : ConstraintId} (h : (q.choose m s).1 = some c) :
    q.Ready m c := by
  have hready : Reads s.store (q.choose m) fun o => ∀ t, o = some t → q.Ready m t := by
    unfold choose
    refine reads_openNodes.bind fun nodes ⟨hnodes, _⟩ => ?_
    refine reads_openRelationships.bind fun rels ⟨hrels, _⟩ => Reads.pure fun t ht => ?_
    obtain ⟨d, hd, rfl⟩ := (least_spec (nodes ++ rels)).1 t ht
    exact (List.mem_append.1 hd).elim (hnodes d) (hrels d)
  exact (hready s rfl).1 c h

/-! ## Extended matches -/

/-- The match has a place for each constraint of the pattern. -/
structure Sized (q : Search) (m : Match) : Prop where
  nodes : m.nodes.length = q.pattern.nodes.length
  relationships : m.relationships.length = q.pattern.relationships.length

theorem Sized.setNode (h : q.Sized m) (i : Nat) (b : NodeBinding) : q.Sized (m.setNode i b) :=
  ⟨by rw [Match.setNode, List.length_set, h.nodes], h.relationships⟩

theorem Sized.setRelationship (h : q.Sized m) (i : Nat) (b : RelationshipBinding) :
    q.Sized (m.setRelationship i b) :=
  ⟨h.nodes, by rw [Match.setRelationship, List.length_set, h.relationships]⟩

theorem walks_required (q : Search) (m : Match) (r : RelationshipConstraint Value)
    (direction : Heading) (left : Nat) :
    q.required.walks m r direction left = q.walks m r direction left := by
  induction left with
  | zero => rfl
  | succ left ih =>
    funext p
    unfold walks
    rw [ih]
    rfl

theorem relationshipCandidates_required (q : Search) (m : Match)
    (r : RelationshipConstraint Value) :
    q.required.relationshipCandidates m r = q.relationshipCandidates m r := by
  unfold relationshipCandidates walksWithin
  simp only [walks_required]
  rfl

theorem extended_required (q : Search) (σ : Store) (m : Match) (c : ConstraintId) :
    q.required.extended σ m c = q.extended σ m c := by
  cases c with
  | node i => rfl
  | relationship i =>
    unfold extended
    simp only [relationshipCandidates_required]
    rfl

/-- No candidate for a relationship is a null. -/
theorem relationshipCandidates_ne_null {r : RelationshipConstraint Value} {s : RunState}
    {b : RelationshipBinding} (h : b ∈ (q.relationshipCandidates m r s).1) : b ≠ .null := by
  unfold relationshipCandidates at h
  split at h
  · cases h
  · next o _ =>
    split at h
    · cases h
    · split at h
      · obtain ⟨e, -, he⟩ := List.mem_filterMap.1 h
        simp only at he
        split at he
        · cases he
          split <;> nofun
        · cases he
      · unfold walksWithin at h
        simp only at h
        split at h
        · cases h
        · obtain ⟨p, -, rfl⟩ := List.mem_map.1 h
          nofun

/-! ## Nulls -/

theorem hasNull_eq_true : m.hasNull = true ↔
    (∃ i, m.node? i = some .null) ∨ ∃ i, m.relationship? i = some .null := by
  rw [← Bool.not_eq_false, Match.hasNull_eq_false, not_and_or]
  simp only [not_forall, not_not]

/-- An open node that is assigned brings a null only if it is one. -/
theorem hasNull_setNode_iff {i : Nat} (hi : i < m.nodes.length) (hopen : m.node? i = none)
    (b : NodeBinding) : (m.setNode i b).hasNull = true ↔ b = .null ∨ m.hasNull = true := by
  have hrel : ∀ j, (m.setNode i b).relationship? j = m.relationship? j := fun _ => rfl
  simp only [hasNull_eq_true, Match.node?_setNode m i _ b hi, hrel]
  constructor
  · rintro (⟨j, hj⟩ | h)
    · split at hj
      · exact Or.inl (Option.some.inj hj)
      · exact Or.inr (Or.inl ⟨j, hj⟩)
    · exact Or.inr (Or.inr h)
  · rintro (rfl | ⟨j, hj⟩ | h)
    · exact Or.inl ⟨i, if_pos rfl⟩
    · refine Or.inl ⟨j, ?_⟩
      rw [if_neg, hj]
      rintro rfl
      rw [hopen] at hj
      cases hj
    · exact Or.inr h

theorem hasNull_setRelationship_iff {i : Nat} (hi : i < m.relationships.length)
    (hopen : m.relationship? i = none) (b : RelationshipBinding) :
    (m.setRelationship i b).hasNull = true ↔ b = .null ∨ m.hasNull = true := by
  have hnode : ∀ j, (m.setRelationship i b).node? j = m.node? j := fun _ => rfl
  simp only [hasNull_eq_true, Match.relationship?_setRelationship m i _ b hi, hnode]
  constructor
  · rintro (h | ⟨j, hj⟩)
    · exact Or.inr (Or.inl h)
    · split at hj
      · exact Or.inl (Option.some.inj hj)
      · exact Or.inr (Or.inr ⟨j, hj⟩)
  · rintro (rfl | h | ⟨j, hj⟩)
    · exact Or.inr ⟨i, if_pos rfl⟩
    · exact Or.inl h
    · refine Or.inr ⟨j, ?_⟩
      rw [if_neg, hj]
      rintro rfl
      rw [hopen] at hj
      cases hj

/-- A constraint that is ready has a place in the match and is open. -/
theorem Ready.place (hm : q.Sized m) {c : ConstraintId} (hc : q.Ready m c) : match c with
    | .node i => i < m.nodes.length ∧ m.node? i = none
    | .relationship i => i < m.relationships.length ∧ m.relationship? i = none := by
  cases c with
  | node i =>
    obtain ⟨n, hn, hopen⟩ := hc
    exact ⟨hm.nodes ▸ (List.getElem?_eq_some_iff.1 hn).1, hopen⟩
  | relationship i =>
    obtain ⟨r, hr, hopen, -⟩ := hc
    exact ⟨hm.relationships ▸ (List.getElem?_eq_some_iff.1 hr).1, hopen⟩

/-- An extended match has a null only if the match has one. -/
theorem extended_spec (hm : q.Sized m) {c : ConstraintId} (hc : q.Ready m c) {ms : List Match}
    (h : q.extended σ m c = some ms) : ∀ m' ∈ ms, q.Sized m' ∧ m'.hasNull = m.hasNull := by
  intro m' hm'
  have hplace := hc.place hm
  cases c with
  | node i =>
    obtain ⟨n, -, rfl⟩ := Option.map_eq_some_iff.1 h
    obtain ⟨v, -, rfl⟩ := List.mem_map.1 hm'
    refine ⟨hm.setNode i _, Bool.eq_iff_iff.2 ?_⟩
    rw [hasNull_setNode_iff hplace.1 hplace.2]
    exact or_iff_right nofun
  | relationship i =>
    obtain ⟨r, -, rfl⟩ := Option.map_eq_some_iff.1 h
    obtain ⟨b, hb, rfl⟩ := List.mem_map.1 hm'
    refine ⟨hm.setRelationship i _, Bool.eq_iff_iff.2 ?_⟩
    rw [hasNull_setRelationship_iff hplace.1 hplace.2]
    exact or_iff_right (relationshipCandidates_ne_null hb)

theorem unmatched_spec (hm : q.Sized m) {c : ConstraintId} (hc : q.Ready m c) :
    q.Sized (unmatched m c) ∧ (unmatched m c).hasNull = true := by
  have hplace := hc.place hm
  cases c with
  | node i => exact ⟨hm.setNode i _, (hasNull_setNode_iff hplace.1 hplace.2 _).2 (Or.inl rfl)⟩
  | relationship i =>
    exact ⟨hm.setRelationship i _, (hasNull_setRelationship_iff hplace.1 hplace.2 _).2 (Or.inl rfl)⟩

/-! ## The lists of both searches -/

/-- The matches without a null come from matches without one. -/
theorem filter_flatMap_required {f g : Match → List Match} {ms : List Match}
    (h : ∀ m ∈ ms, (f m).filter (!·.hasNull) = if m.hasNull then [] else g m) :
    (ms.flatMap f).filter (!·.hasNull) = (ms.filter (!·.hasNull)).flatMap g := by
  induction ms with
  | nil => rfl
  | cons m rest ih =>
    obtain ⟨hm, hrest⟩ := List.forall_mem_cons.1 h
    rw [List.flatMap_cons, List.filter_append, hm, ih hrest]
    cases hnull : m.hasNull <;> simp [hnull]

/-- Without those that have a null, the matches that extend a partial match are those that the
search for the required pattern finds; a null that is there stays. -/
theorem listing_required (hopt : q.pattern.optional = true) (left : Nat) :
    ∀ {m : Match}, q.Sized m → (q.listing σ left m).filter (!·.hasNull) =
      if m.hasNull then [] else q.required.listing σ left m := by
  induction left with
  | zero =>
    intro m _
    cases hnull : m.hasNull <;> simp [listing, hnull]
  | succ left ih =>
    intro m hm
    have hchoose : (q.required.choose m (.over σ)).1 = (q.choose m (.over σ)).1 := by
      rw [choose_required]
    unfold listing
    rw [hchoose]
    cases hc : (q.choose m (.over σ)).1 with
    | none => simp
    | some c =>
      have hready := ready_of_choose hc
      simp only [extended_required]
      cases hext : q.extended σ m c with
      | none => simp
      | some ms =>
        have hms := extended_spec hm hready hext
        have hsteps : (ms.flatMap (q.listing σ left)).filter (!·.hasNull) =
            if m.hasNull then [] else ms.flatMap (q.required.listing σ left) := by
          rw [filter_flatMap_required fun m' hm' => ih (hms m' hm').1,
            List.filter_congr (q := fun _ => !m.hasNull) fun m' hm' =>
              congrArg (!·) (hms m' hm').2]
          cases m.hasNull <;> simp
        have hrequired : q.required.listProceed (q.required.listing σ left) (unmatched m c) ms =
            ms.flatMap (q.required.listing σ left) := by
          unfold listProceed
          rw [show q.required.pattern.optional = false from rfl, Bool.and_false]
          rfl
        simp only [hrequired]
        unfold listProceed
        rw [hopt, Bool.and_true]
        cases ms with
        | nil =>
          obtain ⟨hsized, hnull⟩ := unmatched_spec hm hready
          simp [ih hsized, hnull]
        | cons m' rest => exact hsteps

/-! ## The start -/

/-- The nodes that the row binds are assigned alike, but a null ends the search for the required
pattern. -/
theorem startNodes_required {rest done : List (NodeConstraint Value)} {o : Option Match} {j : Nat}
    (hnodes : q.pattern.nodes = done ++ rest) (h : q.Opening row done.length j m)
    (ho : q.startNodes row (rest.zipIdx done.length) m = .ok o) :
    (m.hasNull = true → ∀ m' ∈ o, m'.hasNull = true) ∧ (m.hasNull = false →
      q.required.startNodes row (rest.zipIdx done.length) m = .ok (o.filter (!·.hasNull))) := by
  induction rest generalizing done m with
  | nil =>
    cases ho
    refine ⟨fun hnull m' hm' => ?_, fun hnull => ?_⟩
    · cases hm'
      exact hnull
    · rw [Option.filter_some, if_pos (by rw [hnull]; rfl)]
      rfl
  | cons n rest ih =>
    have hn := getElem?_of_append hnodes
    obtain ⟨hnodes', hlen⟩ := append_cons_length hnodes
    have hi : done.length < m.nodes.length := by
      rw [h.nodeCount]
      exact (List.getElem?_eq_some_iff.1 hn).1
    have hset := fun b => hasNull_setNode_iff hi (h.laterNode _ (Nat.le_refl _)) b
    rw [List.zipIdx_cons] at ho ⊢
    unfold startNodes at ho ⊢
    rw [← hlen] at ho ⊢
    split at ho
    · next hrow =>
      exact ih hnodes' (by rw [hlen]; exact h.skipNode hn hrow) ho
    · next v hrow =>
      split at ho
      · next hmeets =>
        have hsame : (m.setNode done.length (.vertex v)).hasNull = m.hasNull :=
          Bool.eq_iff_iff.2 ((hset _).trans (or_iff_right nofun))
        have hrest := ih hnodes' (by rw [hlen]; exact h.setNode hn ⟨hrow, hmeets⟩) ho
        rw [hsame] at hrest
        rw [show q.required.ctx = q.ctx from rfl, if_pos hmeets]
        exact hrest
      · next hmeets =>
        cases ho
        rw [show q.required.ctx = q.ctx from rfl, if_neg hmeets]
        exact ⟨fun _ => nofun, fun _ => rfl⟩
    · next hrow =>
      rw [show q.required.pattern.optional = false from rfl, if_neg Bool.false_ne_true]
      split at ho
      · next hopt =>
        have hrest := (ih hnodes' (by rw [hlen]; exact h.setNode hn ⟨hrow, hopt⟩) ho).1
          ((hset _).2 (Or.inl rfl))
        refine ⟨fun _ => hrest, fun _ => ?_⟩
        cases o with
        | none => rfl
        | some m' => rw [Option.filter_some, hrest m' rfl]; rfl
      · cases ho
        exact ⟨fun _ => nofun, fun _ => rfl⟩
    · cases ho

theorem RelationshipStarts.eq_null_iff {r : RelationshipConstraint Value} {b : RelationshipBinding}
    (h : q.RelationshipStarts row r (some b)) {v : Value} (hv : r.name.bind row.lookup? = some v) :
    b = .null ↔ v.isNull = true := by
  cases b with
  | null =>
    obtain rfl : v = .null := Option.some.inj (hv.symm.trans h.1)
    exact ⟨fun _ => rfl, fun _ => rfl⟩
  | edge e first second =>
    obtain rfl : v = .relationship e := Option.some.inj (hv.symm.trans h.1)
    exact ⟨nofun, nofun⟩
  | walk p => exact h.elim

theorem startBindings_required {r : RelationshipConstraint Value} {v : Value}
    {bs : List RelationshipBinding} (h : q.startBindings r v = .ok bs) :
    q.required.startBindings r v = .ok (if v.isNull then [] else bs) := by
  unfold startBindings at h ⊢
  split at h
  · cases h
  · next hwalk =>
    rw [if_neg hwalk]
    cases v with
    | relationship e => exact h
    | null => rfl
    | _ => cases h

theorem startRelationships_nil {rs : List (RelationshipConstraint Value × Nat)} {ms : List Match}
    (h : q.startRelationships row rs [] = .ok ms) : ms = [] := by
  induction rs with
  | nil =>
    cases h
    rfl
  | cons p rest ih =>
    unfold startRelationships at h
    split at h
    · exact ih h
    · obtain ⟨bs, -, hrest⟩ := ok_of_bind h
      exact ih hrest

/-- The matches after some relationships: those without a null are those of the required pattern. -/
theorem startRelationships_required {rest done : List (RelationshipConstraint Value)}
    {ms ms' : List Match} (hrels : q.pattern.relationships = done ++ rest)
    (h : ∀ m ∈ ms, q.Opening row q.pattern.nodes.length done.length m)
    (hms : q.startRelationships row (rest.zipIdx done.length) ms = .ok ms') :
    (∀ m ∈ ms', q.Sized m) ∧
      q.required.startRelationships row (rest.zipIdx done.length) (ms.filter (!·.hasNull)) =
        .ok (ms'.filter (!·.hasNull)) := by
  induction rest generalizing done ms with
  | nil =>
    cases hms
    exact ⟨fun m hm => ⟨(h m hm).nodeCount, (h m hm).relationshipCount⟩, rfl⟩
  | cons r rest ih =>
    have hr := getElem?_of_append hrels
    obtain ⟨hrels', hlen⟩ := append_cons_length hrels
    rw [List.zipIdx_cons] at hms ⊢
    unfold startRelationships at hms ⊢
    rw [← hlen] at hms ⊢
    split at hms
    · next hrow =>
      exact ih hrels' (fun m hm => by rw [hlen]; exact (h m hm).skipRelationship hr hrow) hms
    · next bound hrow =>
      obtain ⟨bs, hbs, hms⟩ := ok_of_bind hms
      have hstarts := (startBindings_spec (σ := .empty) hrow hbs).2.1
      have hopenings : ∀ m' ∈ ms.flatMap fun m => bs.map (m.setRelationship done.length),
          q.Opening row q.pattern.nodes.length (done ++ [r]).length m' := by
        intro m' hm'
        obtain ⟨m, hm, hmem⟩ := List.mem_flatMap.1 hm'
        obtain ⟨b, hb, rfl⟩ := List.mem_map.1 hmem
        rw [hlen]
        exact (h m hm).setRelationship hr (hstarts b hb)
      obtain ⟨hsized, hrest⟩ := ih hrels' hopenings hms
      refine ⟨hsized, ?_⟩
      have hset : ∀ m ∈ ms, ∀ b, (m.setRelationship done.length b).hasNull = true ↔
          b = .null ∨ m.hasNull = true := fun m hm b =>
        hasNull_setRelationship_iff
          (by rw [(h m hm).relationshipCount]; exact (List.getElem?_eq_some_iff.1 hr).1)
          ((h m hm).laterRelationship _ (Nat.le_refl _)) b
      have hfilter : ∀ m ∈ ms, (bs.map (m.setRelationship done.length)).filter (!·.hasNull) =
          if m.hasNull then []
          else (if bound.isNull then [] else bs).map (m.setRelationship done.length) := by
        intro m hm
        have hbs : ∀ b ∈ bs, (m.setRelationship done.length b).hasNull =
            (bound.isNull || m.hasNull) := fun b hb => Bool.eq_iff_iff.2 (by
          rw [hset m hm b, (hstarts b hb).eq_null_iff hrow, Bool.or_eq_true])
        have hsame : bs.filter ((!·.hasNull) ∘ m.setRelationship done.length) =
            bs.filter fun _ => !(bound.isNull || m.hasNull) :=
          List.filter_congr fun b hb => congrArg (!·) (hbs b hb)
        rw [List.filter_map, hsame]
        cases bound.isNull <;> cases m.hasNull <;> simp
      rw [startBindings_required hbs, ← hrest, filter_flatMap_required hfilter]
      rfl

/-- The matches that the search for the required pattern begins with are those without a null. -/
theorem start_required {ms : List Match} (h : q.start row = .ok ms) :
    (∀ m ∈ ms, q.Sized m) ∧ q.required.start row = .ok (ms.filter (!·.hasNull)) := by
  unfold start at h ⊢
  rw [show q.required.pattern.paths = q.pattern.paths from rfl]
  split at h
  · cases h
  · obtain ⟨o, ho, h⟩ := ok_of_bind h
    have hblank : (Match.blank q.pattern).hasNull = false := by
      simp [Match.hasNull, Match.blank]
    have hnodes := (startNodes_required (show _ = [] ++ q.pattern.nodes from rfl)
      (opening_blank q row) ho).2 hblank
    rw [show q.required.startNodes row q.required.pattern.nodes.zipIdx
      (.blank q.required.pattern) = _ from hnodes]
    cases o with
    | none =>
      cases h
      exact ⟨nofun, rfl⟩
    | some m =>
      obtain ⟨all, hall, h⟩ := ok_of_bind h
      cases h
      have hopening := (startNodes_spec (σ := .empty) (List.nil_append _).symm
        (opening_blank q row) ho).1 m rfl
      have hopenings : ∀ m' ∈ [m], q.Opening row q.pattern.nodes.length 0 m' := fun m' hm' =>
        List.mem_singleton.1 hm' ▸ hopening
      obtain ⟨hsized, hrels⟩ := startRelationships_required
        (show _ = [] ++ q.pattern.relationships from rfl) hopenings hall
      refine ⟨fun m' hm' => hsized m' (List.mem_filter.1 hm').1, ?_⟩
      rw [List.filter_comm]
      cases hnull : m.hasNull with
      | true =>
        rw [List.filter_cons_of_neg (by simp [hnull]), List.filter_nil] at hrels
        rw [startRelationships_nil hrels, Option.filter_some, if_neg (by simp [hnull])]
        rfl
      | false =>
        rw [List.filter_cons_of_pos (by simp [hnull]), List.filter_nil] at hrels
        rw [Option.filter_some, if_pos (by simp [hnull])]
        exact congrArg (fun o : Except Error (List Match) => do return (← o).filter q.consistent)
          hrels

/-- The matches that the search for the required pattern gives for a row are those without a null.
-/
theorem listed_required (hopt : q.pattern.optional = true) {found : List Match}
    (h : q.listed σ row = .ok found) :
    q.required.listed σ row = .ok (found.filter (!·.hasNull)) := by
  unfold listed at h ⊢
  cases hstart : q.start row with
  | error e => rw [hstart] at h; cases h
  | ok starts =>
    rw [hstart] at h
    cases h
    obtain ⟨hsized, hrequired⟩ := start_required hstart
    rw [hrequired]
    exact congrArg Except.ok (filter_flatMap_required fun m hm =>
      listing_required hopt m.openCount (hsized m hm)).symm

end Search

end PropertyGraph
