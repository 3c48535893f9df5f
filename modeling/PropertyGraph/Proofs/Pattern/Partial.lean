import PropertyGraph.Proofs.Pattern.Built
import PropertyGraph.Proofs.Pattern.Walk

/-!
# Partial matches

The invariant of the search.  The assignments made so far fit, also with one another, and what the
row binds is among them.  An assignment that fits its surroundings keeps that true, as does null in
an optional pattern, and where nothing is left open a match without nulls is a solution.
-/

namespace PropertyGraph

namespace Search

variable {q : Search} {σ : Store} {row : Row} {m m' : Match}

/-- The assignments made so far fit, and what the row binds is among them. -/
structure Partial (q : Search) (σ : Store) (row : Row) (m : Match) : Prop where
  nodeCount : m.nodes.length = q.pattern.nodes.length
  relationshipCount : m.relationships.length = q.pattern.relationships.length
  openNode : ∀ (i : Nat) n, q.pattern.nodes[i]? = some n → m.node? i = none →
    n.name.bind row.lookup? = none
  openRelationship : ∀ (i : Nat) r, q.pattern.relationships[i]? = some r →
    m.relationship? i = none → r.name.bind row.lookup? = none
  node : ∀ (i : Nat) n v, q.pattern.nodes[i]? = some n → m.node? i = some (.vertex v) →
    q.NodeFits σ row n v
  relationship : ∀ (i : Nat) r b, q.pattern.relationships[i]? = some r →
    m.relationship? i = some b → b ≠ .null → ∃ first second,
      q.RelationshipFits σ row r b first second ∧ (r.first = r.second → first = second) ∧
        (∀ v, m.vertex? r.first = some v → v.id = first) ∧
        ∀ w, m.vertex? r.second = some w → w.id = second
  passable : ∀ (i : Nat) r b, q.pattern.relationships[i]? = some r → r.isWalk = true →
    m.relationship? i = some b → b ≠ .null → hopeless q.ctx.config σ r.properties = false
  distinct : ∀ i j b c id, m.relationship? i = some b → m.relationship? j = some c →
    b.uses id = true → c.uses id = true → i = j
  nulls : q.pattern.optional = false → m.hasNull = false

/-- The search gives up on no walk.  It does so for demands that no edge can meet, although a walk
without edges would meet them. -/
def Passable (q : Search) (σ : Store) : Prop :=
  ∀ r ∈ q.pattern.relationships, r.isWalk = true → hopeless q.ctx.config σ r.properties = false

/-- A vertex of the row at the end of a walk is the one that the reader sees. -/
def WalkEndsStored (q : Search) (σ : Store) (row : Row) : Prop :=
  ∀ r ∈ q.pattern.relationships, r.isWalk = true → ∀ i, i = r.first ∨ i = r.second →
    ∀ n v, q.pattern.nodes[i]? = some n → n.name.bind row.lookup? = some (.node v) →
      σ.getVertex? q.ctx.reader v.id = some v

/-- What fits a relationship is a matter of the context, whatever the pattern. -/
theorem RelationshipFits.of_ctx {q' : Search} (hctx : q'.ctx = q.ctx)
    {r : RelationshipConstraint Value} {b : RelationshipBinding} {first second : String}
    (h : q.RelationshipFits σ row r b first second) :
    q'.RelationshipFits σ row r b first second := by
  cases q
  cases q'
  cases hctx
  cases h with
  | edge e _ _ hr he hj => exact .edge e _ _ hr he hj
  | walk p range hr hmin hmax hp =>
    exact .walk p range hr hmin hmax ⟨hp.vertices, hp.edges, hp.along, hp.simple⟩

/-- What a solution assigns to a relationship fits it in any search of the same context. -/
theorem Solution.relationship_of_ctx (h : q.Solution σ row m) {q' : Search}
    (hctx : q'.ctx = q.ctx) {k : Nat} {r : RelationshipConstraint Value}
    (hr : q.pattern.relationships[k]? = some r) : ∃ b v w, m.relationship? k = some b ∧
      m.vertex? r.first = some v ∧ m.vertex? r.second = some w ∧
        q'.RelationshipFits σ row r b v.id w.id := by
  obtain ⟨b, v, w, hb, hv, hw, hfits⟩ := h.relationship k r hr
  exact ⟨b, v, w, hb, hv, hw, hfits.of_ctx hctx⟩

theorem RelationshipFits.ends {r : RelationshipConstraint Value} {b : RelationshipBinding}
    {first second : String} (h : q.RelationshipFits σ row r b first second) :
    b.ends = some (first, second) := by
  cases h <;> rfl

theorem RelationshipFits.ne_null {r : RelationshipConstraint Value} {b : RelationshipBinding}
    {first second : String} (h : q.RelationshipFits σ row r b first second) : b ≠ .null := by
  rintro rfl
  cases h

theorem Solution.hasNull (h : q.Solution σ row m) : m.hasNull = false := by
  rw [Match.hasNull_eq_false]
  constructor
  · intro i hi
    have hlt := Match.lt_of_node? hi
    rw [h.nodeCount] at hlt
    obtain ⟨v, hv, -⟩ := h.node i _ (List.getElem?_eq_getElem hlt)
    rw [hi] at hv
    cases hv
  · intro i hi
    have hlt := Match.lt_of_relationship? hi
    rw [h.relationshipCount] at hlt
    obtain ⟨b, v, w, hb, -, -, hfits⟩ := h.relationship i _ (List.getElem?_eq_getElem hlt)
    rw [hi] at hb
    cases hb
    exact hfits.ne_null rfl

/-- Where nothing is open and nothing unmatched, a partial match is a solution. -/
theorem Partial.solution (h : q.Partial σ row m) (hw : q.pattern.WellFormed)
    (ho : m.openCount = 0) (hn : m.hasNull = false) : q.Solution σ row m := by
  obtain ⟨hnodes, hrels⟩ := Match.assigned_of_openCount ho
  obtain ⟨hnn, hrn⟩ := Match.hasNull_eq_false.1 hn
  have hvertex : ∀ i < q.pattern.nodes.length, ∃ v, m.vertex? i = some v := by
    intro i hi
    obtain ⟨b, hb⟩ := hnodes i (by rw [h.nodeCount]; exact hi)
    cases b with
    | vertex v => exact ⟨v, Match.vertex?_eq_some.2 hb⟩
    | null => exact absurd hb (hnn i)
  refine ⟨h.nodeCount, h.relationshipCount, fun i n hi => ?_, fun i r hr => ?_, h.distinct⟩
  · obtain ⟨v, hv⟩ := hvertex i (List.getElem?_eq_some_iff.1 hi).1
    rw [Match.vertex?_eq_some] at hv
    exact ⟨v, hv, h.node i n v hi hv⟩
  · have hlt := (List.getElem?_eq_some_iff.1 hr).1
    obtain ⟨b, hb⟩ := hrels i (by rw [h.relationshipCount]; exact hlt)
    have hbn : b ≠ .null := by
      rintro rfl
      exact hrn i hb
    obtain ⟨first, second, hfits, -, hfirst, hsecond⟩ := h.relationship i r b hr hb hbn
    obtain ⟨h1, h2⟩ := hw.ends r (List.mem_of_getElem? hr)
    obtain ⟨v, hv⟩ := hvertex _ h1
    obtain ⟨w, hw'⟩ := hvertex _ h2
    refine ⟨b, v, w, hb, hv, hw', ?_⟩
    rw [hfirst v hv, hsecond w hw']
    exact hfits

theorem Partial.all_passable (h : q.Partial σ row m) (ho : m.openCount = 0)
    (hn : m.hasNull = false) : q.Passable σ := by
  intro r hr hwalk
  obtain ⟨i, hi⟩ := List.mem_iff_getElem?.1 hr
  obtain ⟨b, hb⟩ := (Match.assigned_of_openCount ho).2 i
    (by rw [h.relationshipCount]; exact (List.getElem?_eq_some_iff.1 hi).1)
  refine h.passable i r b hi hwalk hb ?_
  rintro rfl
  exact (Match.hasNull_eq_false.1 hn).2 i hb

/-! ## Assigning -/

theorem hasNull_setNode {i : Nat} {v : Vertex} (hi : i < m.nodes.length) (h : m.hasNull = false) :
    (m.setNode i (.vertex v)).hasNull = false := by
  rw [Match.hasNull_eq_false] at h ⊢
  refine ⟨fun j hj => ?_, h.2⟩
  rw [Match.node?_setNode m i j _ hi] at hj
  split at hj
  · cases hj
  · exact h.1 j hj

theorem hasNull_setRelationship {i : Nat} {b : RelationshipBinding} (hb : b ≠ .null)
    (hi : i < m.relationships.length) (h : m.hasNull = false) :
    (m.setRelationship i b).hasNull = false := by
  rw [Match.hasNull_eq_false] at h ⊢
  refine ⟨h.1, fun j hj => ?_⟩
  rw [Match.relationship?_setRelationship m i j _ hi] at hj
  split at hj
  · cases hj; exact hb rfl
  · exact h.2 j hj

theorem Partial.setVertex (h : q.Partial σ row m) {i : Nat} {n : NodeConstraint Value}
    (hn : q.pattern.nodes[i]? = some n) {v : Vertex} (hfits : q.NodeFits σ row n v)
    (hends : ∀ (k : Nat) r b first second, q.pattern.relationships[k]? = some r →
      m.relationship? k = some b → b.ends = some (first, second) →
        (r.first = i → v.id = first) ∧ (r.second = i → v.id = second)) :
    q.Partial σ row (m.setNode i (.vertex v)) := by
  have hi : i < m.nodes.length := by
    rw [h.nodeCount]
    exact (List.getElem?_eq_some_iff.1 hn).1
  refine ⟨?_, h.relationshipCount, fun j n' hn' hj => ?_, h.openRelationship,
    fun j n' w hn' hj => ?_, fun k r b hr hb hbn => ?_, h.passable, h.distinct, fun ho => ?_⟩
  · rw [← h.nodeCount]
    exact List.length_set
  · rw [Match.node?_setNode m i j _ hi] at hj
    split at hj
    · cases hj
    · exact h.openNode j n' hn' hj
  · rw [Match.node?_setNode m i j _ hi] at hj
    split at hj
    · next hij =>
      cases hj
      rw [← hij, hn] at hn'
      cases hn'
      exact hfits
    · exact h.node j n' w hn' hj
  · obtain ⟨first, second, hfit, hloop, hfirst, hsecond⟩ := h.relationship k r b hr hb hbn
    obtain ⟨hend1, hend2⟩ := hends k r b first second hr hb hfit.ends
    refine ⟨first, second, hfit, hloop, fun w hw => ?_, fun w hw => ?_⟩
    · rw [Match.vertex?_setNode m i _ _ hi] at hw
      split at hw
      · next hij => cases hw; exact hend1 hij.symm
      · exact hfirst w hw
    · rw [Match.vertex?_setNode m i _ _ hi] at hw
      split at hw
      · next hij => cases hw; exact hend2 hij.symm
      · exact hsecond w hw
  · exact hasNull_setNode hi (h.nulls ho)

theorem Partial.setBinding (h : q.Partial σ row m) {i : Nat} {r : RelationshipConstraint Value}
    (hr : q.pattern.relationships[i]? = some r) {b : RelationshipBinding} {first second : String}
    (hfits : q.RelationshipFits σ row r b first second) (hloop : r.first = r.second → first = second)
    (hfirst : ∀ v, m.vertex? r.first = some v → v.id = first)
    (hsecond : ∀ w, m.vertex? r.second = some w → w.id = second)
    (hfree : ∀ id, b.uses id = true → m.uses id = false)
    (hpass : r.isWalk = true → hopeless q.ctx.config σ r.properties = false) :
    q.Partial σ row (m.setRelationship i b) := by
  have hi : i < m.relationships.length := by
    rw [h.relationshipCount]
    exact (List.getElem?_eq_some_iff.1 hr).1
  have hget := Match.relationship?_setRelationship m i
  refine ⟨h.nodeCount, ?_, h.openNode, fun j r' hr' hj => ?_, h.node, fun k r' c hr' hc hcn => ?_,
    fun k r' c hr' hwalk hc hcn => ?_, fun j k c d id hc hd huc hud => ?_, fun ho => ?_⟩
  · rw [← h.relationshipCount]
    exact List.length_set
  · rw [hget j b hi] at hj
    split at hj
    · cases hj
    · exact h.openRelationship j r' hr' hj
  · rw [hget k b hi] at hc
    split at hc
    · next hik =>
      cases hc
      rw [← hik, hr] at hr'
      cases hr'
      exact ⟨first, second, hfits, hloop, hfirst, hsecond⟩
    · exact h.relationship k r' c hr' hc hcn
  · rw [hget k b hi] at hc
    split at hc
    · next hik =>
      rw [← hik, hr] at hr'
      cases hr'
      exact hpass hwalk
    · exact h.passable k r' c hr' hwalk hc hcn
  · -- an edge that the new assignment uses is used by no other one
    have hused : ∀ j c, m.relationship? j = some c → c.uses id = true → m.uses id = true :=
      fun j c hc hu => Match.uses_eq_true.2 ⟨j, c, hc, hu⟩
    rw [hget j b hi] at hc
    rw [hget k b hi] at hd
    split at hc
    · next hij =>
      cases hc
      split at hd
      · next hik => rw [← hij, hik]
      · have := hused k d hd hud
        rw [hfree id huc] at this
        cases this
    · split at hd
      · cases hd
        have := hused j c hc huc
        rw [hfree id hud] at this
        cases this
      · exact h.distinct j k c d id hc hd huc hud
  · exact hasNull_setRelationship hfits.ne_null hi (h.nulls ho)

theorem Partial.setNullNode (h : q.Partial σ row m) (ho : q.pattern.optional = true) {i : Nat}
    (hi : i < m.nodes.length) : q.Partial σ row (m.setNode i .null) := by
  have hvertex : ∀ j v, (m.setNode i .null).vertex? j = some v → m.vertex? j = some v := by
    intro j v hv
    rw [Match.vertex?_setNode m i j _ hi] at hv
    split at hv
    · cases hv
    · exact hv
  refine ⟨?_, h.relationshipCount, fun j n hn hj => ?_, h.openRelationship,
    fun j n v hn hj => h.node j n v hn ?_, fun k r b hr hb hbn => ?_, h.passable, h.distinct,
    fun hopt => by rw [ho] at hopt; cases hopt⟩
  · rw [← h.nodeCount]
    exact List.length_set
  · rw [Match.node?_setNode m i j _ hi] at hj
    split at hj
    · cases hj
    · exact h.openNode j n hn hj
  · exact Match.vertex?_eq_some.1 (hvertex j v (Match.vertex?_eq_some.2 hj))
  · obtain ⟨first, second, hfit, hloop, hfirst, hsecond⟩ := h.relationship k r b hr hb hbn
    exact ⟨first, second, hfit, hloop, fun v hv => hfirst v (hvertex _ v hv),
      fun w hw => hsecond w (hvertex _ w hw)⟩

theorem Partial.setNullRelationship (h : q.Partial σ row m) (ho : q.pattern.optional = true)
    {i : Nat} (hi : i < m.relationships.length) :
    q.Partial σ row (m.setRelationship i .null) := by
  have hget : ∀ j c, (m.setRelationship i .null).relationship? j = some c →
      c = .null ∨ m.relationship? j = some c := by
    intro j c hc
    rw [Match.relationship?_setRelationship m i j _ hi] at hc
    split at hc
    · cases hc; exact Or.inl rfl
    · exact Or.inr hc
  refine ⟨h.nodeCount, ?_, h.openNode, fun j r hr hj => ?_, h.node, fun k r b hr hb hbn => ?_,
    fun k r b hr hwalk hb hbn => ?_, fun j k c d id hc hd huc hud => ?_,
    fun hopt => by rw [ho] at hopt; cases hopt⟩
  · rw [← h.relationshipCount]
    exact List.length_set
  · rw [Match.relationship?_setRelationship m i j _ hi] at hj
    split at hj
    · cases hj
    · exact h.openRelationship j r hr hj
  · exact h.relationship k r b hr ((hget k b hb).resolve_left hbn) hbn
  · exact h.passable k r b hr hwalk ((hget k b hb).resolve_left hbn) hbn
  · rcases hget j c hc with rfl | hc
    · cases huc
    · rcases hget k d hd with rfl | hd
      · cases hud
      · exact h.distinct j k c d id hc hd huc hud

end Search

end PropertyGraph
