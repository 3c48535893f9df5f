import PropertyGraph.Proofs.Pattern.Joined

/-!
# Candidates

For each constraint that is next the candidates are exactly the assignments with which the search
can go on.  None of them breaks the invariant, none comes twice, and the assignment of any solution
that extends the match is among them:

    reads_nodeCandidates          a node between assigned relationships
    reads_relationshipCandidates  a relationship with an assigned end

The vertices for a node without assigned relationships are those of `exists_seed`.
-/

namespace PropertyGraph

namespace Search

variable {q : Search} {σ : Store} {row : Row} {m m' : Match}

/-! ## Nodes -/

/-- An open node fits exactly the visible vertices that it admits. -/
theorem Partial.nodeFits_iff (h : q.Partial σ row m) {i : Nat} {n : NodeConstraint Value}
    (hn : q.pattern.nodes[i]? = some n) (ho : m.node? i = none) (v : Vertex) :
    q.NodeFits σ row n v ↔ n.admits q.ctx.config v = true ∧
      σ.getVertex? q.ctx.reader v.id = some v := by
  unfold NodeFits
  rw [h.openNode i n hn ho]

theorem Partial.edgeFits_iff (h : q.Partial σ row m) {i : Nat} {r : RelationshipConstraint Value}
    (hr : q.pattern.relationships[i]? = some r) (ho : m.relationship? i = none) (e : Edge) :
    q.EdgeFits σ row r e ↔ r.admits q.ctx.config e = true ∧
      σ.getEdge? q.ctx.reader e.id = some e := by
  unfold EdgeFits
  rw [h.openRelationship i r hr ho]

/-- The ids that assigned relationships demand of a node, told one by one. -/
theorem mem_demandedIds (hw : q.pattern.WellFormed) {i : Nat} {n : NodeConstraint Value}
    (hn : q.pattern.nodes[i]? = some n) {id : String} :
    id ∈ q.demandedIds m n i ↔ ∃ (k : Nat) (r : RelationshipConstraint Value)
      (b : RelationshipBinding) (first second : String),
      q.pattern.relationships[k]? = some r ∧ m.relationship? k = some b ∧
        b.ends = some (first, second) ∧ (r.first = i ∨ r.second = i) ∧
        id = if r.first = i then first else second := by
  unfold demandedIds
  rw [List.mem_filterMap]
  constructor
  · rintro ⟨k, hk, heq⟩
    obtain ⟨r, hr, hend⟩ := (hw.incident i n hn k).1 hk
    rw [hr] at heq
    split at heq
    · next first second r' hb hr' =>
      cases hr'
      cases heq
      obtain ⟨b, hb, hends⟩ := Option.bind_eq_some_iff.1 hb
      exact ⟨k, r, b, first, second, hr, hb, hends, hend, rfl⟩
    · cases heq
  · rintro ⟨k, r, b, first, second, hr, hb, hends, hend, rfl⟩
    refine ⟨k, (hw.incident i n hn k).2 ⟨r, hr, hend⟩, ?_⟩
    rw [hb, hr, Option.bind_some, hends]

/-- A vertex with the id that all assigned relationships demand is where each of them ends. -/
theorem ends_of_demanded (hw : q.pattern.WellFormed) {i : Nat} {n : NodeConstraint Value}
    (hn : q.pattern.nodes[i]? = some n) {v : Vertex} (hid : ∀ id ∈ q.demandedIds m n i, id = v.id)
    {k : Nat} {r : RelationshipConstraint Value} (hr : q.pattern.relationships[k]? = some r)
    {b : RelationshipBinding} (hb : m.relationship? k = some b) {first second : String}
    (hends : b.ends = some (first, second)) (hloop : r.first = r.second → first = second) :
    (r.first = i → v.id = first) ∧ (r.second = i → v.id = second) := by
  have hdemand : r.first = i ∨ r.second = i → v.id = if r.first = i then first else second :=
    fun hend => (hid _ ((mem_demandedIds hw hn).2
      ⟨k, r, b, first, second, hr, hb, hends, hend, rfl⟩)).symm
  constructor
  · intro hfirst
    rw [hdemand (Or.inl hfirst), if_pos hfirst]
  · intro hsecond
    rw [hdemand (Or.inr hsecond)]
    split
    · next hfirst => exact hloop (hfirst.trans hsecond.symm)
    · rfl

/-- Such a vertex can be assigned. -/
theorem Partial.setDemanded (h : q.Partial σ row m) (hw : q.pattern.WellFormed) {i : Nat}
    {n : NodeConstraint Value} (hn : q.pattern.nodes[i]? = some n) {v : Vertex}
    (hfits : q.NodeFits σ row n v) (hid : ∀ id ∈ q.demandedIds m n i, id = v.id) :
    q.Partial σ row (m.setNode i (.vertex v)) := by
  refine h.setVertex hn hfits fun k r b first second hr hb hends => ?_
  have hloop := (h.joined.relationship k r b first second hr hb hends).2.1
  exact ends_of_demanded hw hn hid hr hb hends hloop

theorem Solution.demanded (h : q.Solution σ row m') (hm : m.Extends m')
    (hw : q.pattern.WellFormed) {i : Nat} {n : NodeConstraint Value}
    (hn : q.pattern.nodes[i]? = some n) {v : Vertex} (hv : m'.vertex? i = some v) {id : String}
    (hid : id ∈ q.demandedIds m n i) : id = v.id := by
  obtain ⟨k, r, b, first, second, hr, hb, hends, hend, rfl⟩ := (mem_demandedIds hw hn).1 hid
  obtain ⟨b', u, w, hb', hu, hw', hfits⟩ := h.relationship k r hr
  rw [hm.2 k b hb] at hb'
  cases hb'
  rw [hfits.ends] at hends
  cases hends
  split
  · next hfirst =>
    rw [hfirst, hv] at hu
    cases hu
    rfl
  · next hfirst =>
    rw [hend.resolve_left hfirst, hv] at hw'
    cases hw'
    rfl

/-- The vertex of a solution has the id that all assigned relationships demand. -/
theorem Solution.demanded_vertex (h : q.Solution σ row m') (hext : m.Extends m')
    (hm : q.Partial σ row m) (hw : q.pattern.WellFormed) {i : Nat} {n : NodeConstraint Value}
    (hn : q.pattern.nodes[i]? = some n) (ho : m.node? i = none) {id : String} {rest : List String}
    (hids : q.demandedIds m n i = id :: rest) {v : Vertex} (hv : m'.vertex? i = some v) :
    (∀ other ∈ rest, other = id) ∧ σ.getVertex? q.ctx.reader id = some v ∧
      n.admits q.ctx.config v = true := by
  have hall : ∀ other ∈ id :: rest, other = v.id := fun other hmem =>
    h.demanded hext hw hn hv (by rw [hids]; exact hmem)
  have hid := hall id List.mem_cons_self
  obtain ⟨w, hw', hfits⟩ := h.node i n hn
  rw [Match.vertex?_eq_some, hw'] at hv
  cases hv
  obtain ⟨hmeets, hget⟩ := (hm.nodeFits_iff hn ho v).1 hfits
  exact ⟨fun other hmem => (hall other (List.mem_cons_of_mem _ hmem)).trans hid.symm,
    by rw [hid]; exact hget, hmeets⟩

/-- The candidates for a node with an assigned relationship. -/
theorem reads_nodeCandidates (hσ : σ.Consistent) (hw : q.pattern.WellFormed)
    (hm : q.Partial σ row m) {i : Nat} {n : NodeConstraint Value}
    (hn : q.pattern.nodes[i]? = some n) (ho : m.node? i = none)
    (hinc : ∃ k ∈ n.incident, (m.relationship? k).isSome = true) :
    Reads σ (q.nodeCandidates m n i) fun vs => vs.Nodup ∧
      (∀ v ∈ vs, q.Partial σ row (m.setNode i (.vertex v))) ∧
      ∀ m' v, q.Solution σ row m' → m.Extends m' → m'.vertex? i = some v → v ∈ vs := by
  unfold nodeCandidates
  split
  · next hnone =>
    refine Reads.pure ⟨List.nodup_nil, by simp, fun m' v hs hext hv => ?_⟩
    -- a solution makes something of the assigned relationship, which then demands an id
    obtain ⟨k, hk, hsome⟩ := hinc
    obtain ⟨b, hb⟩ := Option.isSome_iff_exists.1 hsome
    obtain ⟨r, hr, hend⟩ := (hw.incident i n hn k).1 hk
    obtain ⟨b', u, w, hb', -, -, hfits⟩ := hs.relationship k r hr
    rw [hext.2 k b hb] at hb'
    cases hb'
    have hmem := (mem_demandedIds (m := m) hw hn).2
      ⟨k, r, b, u.id, w.id, hr, hb, hfits.ends, hend, rfl⟩
    rw [hnone] at hmem
    cases hmem
  · next id rest hids =>
    have hfound := fun m' v (hs : q.Solution σ row m') (hext : m.Extends m') =>
      hs.demanded_vertex (v := v) hext hm hw hn ho hids
    split
    · next hrest =>
      rw [List.all_eq_true] at hrest
      refine (reads_fetchVertex q σ id).bind fun found hget => ?_
      subst hget
      split
      · next v hv =>
        have hvid := Store.getVertex?_id hσ hv
        split
        · next hmeets =>
          refine Reads.pure ⟨List.nodup_singleton v, fun w hmem => ?_, fun m' w hs hext hmem => ?_⟩
          · rw [List.mem_singleton.1 hmem]
            refine hm.setDemanded hw hn ((hm.nodeFits_iff hn ho v).2
              ⟨hmeets, by rw [hvid]; exact hv⟩) fun other hother => ?_
            rw [hids] at hother
            rcases List.mem_cons.1 hother with rfl | hother
            · exact hvid.symm
            · rw [eq_of_beq (hrest other hother), hvid]
          · obtain ⟨-, hget, -⟩ := hfound m' w hs hext hmem
            rw [hv] at hget
            rw [Option.some.inj hget]
            exact List.mem_singleton_self w
        · next hmeets =>
          refine Reads.pure ⟨List.nodup_nil, by simp, fun m' w hs hext hmem => ?_⟩
          obtain ⟨-, hget, hadm⟩ := hfound m' w hs hext hmem
          rw [hv] at hget
          rw [Option.some.inj hget] at hmeets
          exact absurd hadm hmeets
      · next hv =>
        refine Reads.pure ⟨List.nodup_nil, by simp, fun m' w hs hext hmem => ?_⟩
        obtain ⟨-, hget, -⟩ := hfound m' w hs hext hmem
        rw [hv] at hget
        cases hget
    · next hrest =>
      refine Reads.pure ⟨List.nodup_nil, by simp, fun m' w hs hext hmem => ?_⟩
      obtain ⟨hall, -, -⟩ := hfound m' w hs hext hmem
      refine absurd ?_ hrest
      rw [List.all_eq_true]
      intro other hother
      rw [hall other hother]
      exact beq_self_eq_true id

/-! ## Origins -/

/-- Where a relationship is expanded from, and what is known of its ends. -/
theorem origin?_spec {r : RelationshipConstraint Value} {o : Origin} (h : origin? m r = some o) :
    if o.fromFirst then m.vertex? r.first = some o.vertex ∧
        o.goal = if r.first = r.second then some o.vertex.id else (m.vertex? r.second).map (·.id)
      else m.vertex? r.first = none ∧ m.vertex? r.second = some o.vertex ∧ o.goal = none := by
  unfold origin? at h
  split at h
  · cases h
  · split at h
    · next _ _ v hv =>
      cases h
      exact ⟨hv, rfl⟩
    · next w hv hw =>
      cases h
      exact ⟨hv, hw, rfl⟩
    · cases h

/-- Without an origin there is no solution. -/
theorem Solution.exists_origin (h : q.Solution σ row m') (hm : m.Extends m')
    {r : RelationshipConstraint Value} (hends : ∃ k ∈ r.ends, (m.node? k).isSome = true) :
    ∃ o, origin? m r = some o := by
  have hnull : ∀ k, m.isNullNode k = false := by
    intro k
    rw [Bool.eq_false_iff]
    intro hk
    exact (Match.hasNull_eq_false.1 h.hasNull).1 k (hm.1 k _ (Match.isNullNode_eq_true.1 hk))
  have hsome : ∃ v, m.vertex? r.first = some v ∨ m.vertex? r.second = some v := by
    obtain ⟨k, hk, hsome⟩ := hends
    obtain ⟨b, hb⟩ := Option.isSome_iff_exists.1 hsome
    cases b with
    | null => rw [← Match.isNullNode_eq_true, hnull] at hb; cases hb
    | vertex v =>
      rw [← Match.vertex?_eq_some] at hb
      unfold RelationshipConstraint.ends at hk
      split at hk
      · rw [List.mem_singleton.1 hk] at hb
        exact ⟨v, Or.inl hb⟩
      · rcases List.mem_cons.1 hk with rfl | hk
        · exact ⟨v, Or.inl hb⟩
        · rw [List.mem_singleton.1 hk] at hb
          exact ⟨v, Or.inr hb⟩
  unfold origin?
  rw [hnull, hnull, Bool.false_or, if_neg Bool.false_ne_true]
  cases h1 : m.vertex? r.first with
  | some v => exact ⟨_, rfl⟩
  | none =>
    cases h2 : m.vertex? r.second with
    | some w => exact ⟨_, rfl⟩
    | none =>
      obtain ⟨v, hv | hv⟩ := hsome
      · rw [h1] at hv; cases hv
      · rw [h2] at hv; cases hv

/-- The ids at the first and at the second node, the far end being given. -/
def Origin.ends (o : Origin) (far : String) : String × String :=
  if o.fromFirst then (o.vertex.id, far) else (far, o.vertex.id)

/-- A far end that reaches the goal agrees with the nodes that are assigned. -/
theorem Origin.ends_agree {r : RelationshipConstraint Value} {o : Origin}
    (h : origin? m r = some o) {far : String} (hgoal : ∀ id, o.goal = some id → far = id) :
    (r.first = r.second → (o.ends far).1 = (o.ends far).2) ∧
      (∀ v, m.vertex? r.first = some v → v.id = (o.ends far).1) ∧
        ∀ w, m.vertex? r.second = some w → w.id = (o.ends far).2 := by
  have hspec := origin?_spec h
  unfold Origin.ends
  split at hspec
  · next hfirst =>
    obtain ⟨hv, hgoal'⟩ := hspec
    rw [if_pos hfirst]
    rw [hgoal'] at hgoal
    refine ⟨fun hloop => ?_, fun v hv' => ?_, fun w hw => ?_⟩
    · exact (hgoal _ (if_pos hloop)).symm
    · rw [hv] at hv'
      cases hv'
      rfl
    · by_cases hloop : r.first = r.second
      · rw [← hloop, hv] at hw
        cases hw
        exact (hgoal _ (if_pos hloop)).symm
      · exact (hgoal w.id (by rw [if_neg hloop, hw]; rfl)).symm
  · next hfirst =>
    obtain ⟨hv, hw, -⟩ := hspec
    rw [if_neg hfirst]
    refine ⟨fun hloop => ?_, fun v hv' => ?_, fun w hw' => ?_⟩
    · rw [hloop, hw] at hv
      cases hv
    · rw [hv] at hv'
      cases hv'
    · rw [hw] at hw'
      cases hw'
      rfl

/-- The vertex at the origin, and the one at the far end. -/
def Origin.order (o : Origin) (v w : Vertex) : Vertex × Vertex :=
  if o.fromFirst then (v, w) else (w, v)

/-- In a match that extends the one at hand the origin is where it was, and the far end reaches the
goal. -/
theorem Origin.order_of_extends {r : RelationshipConstraint Value} {o : Origin}
    (h : origin? m r = some o) (hm : m.Extends m') {v w : Vertex} (hv : m'.vertex? r.first = some v)
    (hw : m'.vertex? r.second = some w) : (o.order v w).1 = o.vertex ∧
      ∀ id, o.goal = some id → (o.order v w).2.id = id := by
  have hspec := origin?_spec h
  unfold Origin.order
  split at hspec
  · next hfirst =>
    obtain ⟨hv', hgoal⟩ := hspec
    have hov := hm.vertex hv'
    rw [hv] at hov
    cases hov
    rw [if_pos hfirst]
    refine ⟨rfl, fun id hid => ?_⟩
    rw [hgoal] at hid
    split at hid
    · next hloop =>
      rw [← hloop, hv] at hw
      cases hw
      exact Option.some.inj hid
    · obtain ⟨w', hw', rfl⟩ := Option.map_eq_some_iff.1 hid
      have how := hm.vertex hw'
      rw [hw] at how
      rw [Option.some.inj how]
  · next hfirst =>
    obtain ⟨-, hw', hgoal⟩ := hspec
    have how := hm.vertex hw'
    rw [hw] at how
    cases how
    rw [if_neg hfirst]
    refine ⟨rfl, fun id hid => ?_⟩
    rw [hgoal] at hid
    cases hid

theorem usable_iff {r : RelationshipConstraint Value} {e : Edge} :
    q.usable m r e = true ↔ m.uses e.id = false ∧ r.admits q.ctx.config e = true := by
  unfold usable
  rw [Bool.and_eq_true, Bool.not_eq_true']

/-- The edges of a solution's assignment are not used by the match that leaves it open. -/
theorem Solution.free (h : q.Solution σ row m') (hm : m.Extends m') {i : Nat}
    {b : RelationshipBinding} (hb : m'.relationship? i = some b) (ho : m.relationship? i = none)
    {id : String} (hid : b.uses id = true) : m.uses id = false := by
  rw [Bool.eq_false_iff]
  intro hu
  obtain ⟨j, c, hc, huc⟩ := Match.uses_eq_true.1 hu
  have hij := h.distinct i j b c id hb (hm.2 j c hc) hid huc
  rw [← hij, ho] at hc
  cases hc

/-! ## Single edges -/

/-- The binding of an edge that leads from the origin to another vertex. -/
def Origin.edge (o : Origin) (e : Edge) (other : String) : RelationshipBinding :=
  if o.fromFirst then .edge e o.vertex.id other else .edge e other o.vertex.id

theorem Origin.edge_eq (o : Origin) (e : Edge) (other : String) :
    o.edge e other = .edge e (o.ends other).1 (o.ends other).2 := by
  unfold Origin.edge Origin.ends
  split <;> rfl

/-- An edge that leaves the origin joins the ends of its relationship. -/
theorem Origin.joins_ends (o : Origin) {r : RelationshipConstraint Value} {e : Edge}
    {other : String} (hj : e.Joins (o.direction r) o.vertex.id other) :
    e.Joins r.heading (o.ends other).1 (o.ends other).2 := by
  unfold Origin.direction at hj
  unfold Origin.ends
  split at hj
  · next hfirst => rwa [if_pos hfirst]
  · next hfirst =>
    rw [if_neg hfirst]
    exact (Path.joins_reverse e _ _ _).1 hj

/-- The edges for a relationship: all that lead from the origin and end where they must. -/
theorem reads_hops (hσ : σ.Consistent) {r : RelationshipConstraint Value} (o : Origin) :
    Reads σ (q.hops m r o) fun bs => bs.Nodup ∧ ∀ b, b ∈ bs ↔ ∃ e other, b = o.edge e other ∧
      σ.getEdge? q.ctx.reader e.id = some e ∧ q.usable m r e = true ∧
      e.Joins (o.direction r) o.vertex.id other ∧ ∀ id, o.goal = some id → other = id := by
  unfold hops
  refine (reads_neighbourhood q σ _ _ _).bind fun edges hedges => Reads.pure ?_
  subst hedges
  have hinj : ∀ e e' other other', o.edge e other = o.edge e' other' → e = e' := by
    intro e e' other other' h
    unfold Origin.edge at h
    split at h <;> injection h
  have hgoal : ∀ other, o.goal.all (· == other) = true ↔ ∀ id, o.goal = some id → other = id := by
    intro other
    cases o.goal with
    | none => simp
    | some id =>
      rw [Option.all_some, beq_iff_eq]
      constructor
      · rintro rfl _ ⟨rfl⟩
        rfl
      · intro h
        exact (h id rfl).symm
  have hbind : ∀ (e : Edge) b, (if o.goal.all (· == e.otherEnd o.vertex.id) = true then
      some (o.edge e (e.otherEnd o.vertex.id)) else none) = some b ↔
      b = o.edge e (e.otherEnd o.vertex.id) ∧ ∀ id, o.goal = some id →
        e.otherEnd o.vertex.id = id := by
    intro e b
    rw [← hgoal]
    split
    · next h => exact ⟨fun hb => ⟨(Option.some.inj hb).symm, h⟩, fun hb => by rw [hb.1]⟩
    · next h =>
      constructor
      · intro hb
        cases hb
      · exact fun hb => absurd hb.2 h
  constructor
  · refine List.Nodup.filterMap (fun e e' b he he' => ?_)
      ((Store.nodup_incidentEdges hσ _ _ _).filter _)
    have h1 := ((hbind e b).1 he).1
    have h2 := ((hbind e' b).1 he').1
    exact hinj _ _ _ _ (h1.symm.trans h2)
  · intro b
    rw [List.mem_filterMap]
    constructor
    · rintro ⟨e, hmem, hb⟩
      obtain ⟨hmem, huse⟩ := List.mem_filter.1 hmem
      obtain ⟨hget, -, hlead⟩ := (Store.mem_incidentEdges hσ).1 hmem
      obtain ⟨rfl, hend⟩ := (hbind e b).1 hb
      exact ⟨e, _, rfl, hget, huse, (joins_iff e _ _ _).2 ⟨hlead, rfl⟩, hend⟩
    · rintro ⟨e, other, rfl, hget, huse, hj, hend⟩
      obtain ⟨hlead, rfl⟩ := (joins_iff e _ _ _).1 hj
      exact ⟨e, List.mem_filter.2 ⟨(Store.mem_incidentEdges hσ).2 ⟨hget, usable_type huse, hlead⟩,
        huse⟩, (hbind e _).2 ⟨rfl, hend⟩⟩

theorem RelationshipFits.edge_of_range {r : RelationshipConstraint Value} {b : RelationshipBinding}
    {first second : String} (h : q.RelationshipFits σ row r b first second) (hr : r.range = none) :
    ∃ e, b = .edge e first second ∧ q.EdgeFits σ row r e ∧ e.Joins r.heading first second := by
  cases h with
  | edge e _ _ _ he hj => exact ⟨e, rfl, he, hj⟩
  | walk p range hrange => rw [hr] at hrange; cases hrange

/-- The candidates for a relationship that is a single edge. -/
theorem reads_hops_candidates (hσ : σ.Consistent) (hm : q.Partial σ row m) {i : Nat}
    {r : RelationshipConstraint Value} (hr : q.pattern.relationships[i]? = some r)
    (ho : m.relationship? i = none) (hrange : r.range = none) {o : Origin}
    (horigin : origin? m r = some o) :
    Reads σ (q.hops m r o) fun bs => bs.Nodup ∧
      (∀ b ∈ bs, q.Partial σ row (m.setRelationship i b)) ∧
      ∀ m' b, q.Solution σ row m' → m.Extends m' → m'.relationship? i = some b → b ∈ bs := by
  refine (reads_hops hσ o).mono fun bs ⟨hnodup, hmem⟩ => ⟨hnodup, fun b hb => ?_,
    fun m' b hs hext hb => (hmem b).2 ?_⟩
  · obtain ⟨e, other, rfl, hget, huse, hj, hend⟩ := (hmem b).1 hb
    obtain ⟨hfree, hmeets⟩ := usable_iff.1 huse
    have hfits := (hm.edgeFits_iff hr ho e).2 ⟨hmeets, hget⟩
    obtain ⟨hloop, hfirst, hsecond⟩ := Origin.ends_agree horigin hend
    rw [o.edge_eq]
    refine hm.setBinding hr (.edge e _ _ hrange hfits (o.joins_ends hj)) hloop hfirst hsecond
      (fun id hid => ?_) fun hwalk => ?_
    · rw [← eq_of_beq (show (e.id == id) = true from hid)]
      exact hfree
    · rw [RelationshipConstraint.isWalk, hrange] at hwalk
      cases hwalk
  · obtain ⟨b', v, w, hb', hv, hw, hfits⟩ := hs.relationship i r hr
    rw [hb] at hb'
    cases hb'
    obtain ⟨e, rfl, hfit, hj⟩ := hfits.edge_of_range hrange
    obtain ⟨hmeets, hget⟩ := (hm.edgeFits_iff hr ho e).1 hfit
    have huse := usable_iff.2 ⟨hs.free hext hb ho (beq_self_eq_true e.id), hmeets⟩
    obtain ⟨horder, hend⟩ := Origin.order_of_extends horigin hext hv hw
    refine ⟨e, (o.order v w).2.id, ?_, hget, huse, ?_, hend⟩
    · rw [Origin.edge, ← horder]
      unfold Origin.order
      split <;> rfl
    · rw [Origin.direction, ← horder]
      unfold Origin.order
      split
      · exact hj
      · exact (Path.joins_reverse e _ _ _).2 hj

/-! ## Walks -/

/-- A walkable path fits a relationship with a range. -/
theorem Walkable.walkFits {r : RelationshipConstraint Value} {p : Path}
    (h : q.Walkable σ m r r.heading p) : q.WalkFits σ r p :=
  ⟨h.vertices, fun e he => ⟨(h.edges e he).1, (usable_iff.1 (h.edges e he).2).2⟩, h.along, h.simple⟩

theorem Walkable.reverse {r : RelationshipConstraint Value} {direction : Heading} {p : Path}
    (h : q.Walkable σ m r direction.reverse p) : q.Walkable σ m r direction p.reverse := by
  refine ⟨fun v hv => h.vertices v ?_, fun e he => h.edges e ?_, ?_, (Path.simple_reverse p).2 h.simple⟩
  · rw [Path.vertices_reverse, List.mem_reverse] at hv
    exact hv
  · rw [Path.edges_reverse, List.mem_reverse] at he
    exact he
  · rw [← Heading.reverse_reverse direction, Path.along_reverse]
    exact h.along

/-- The path from the first to the second node, one of the two being the origin. -/
def Origin.along (o : Origin) (p : Path) : Path :=
  if o.fromFirst then p else p.reverse

theorem Origin.along_along (o : Origin) (p : Path) : o.along (o.along p) = p := by
  unfold Origin.along
  split
  · rfl
  · exact Path.reverse_reverse p

theorem Origin.length_along (o : Origin) (p : Path) : (o.along p).length = p.length := by
  unfold Origin.along
  split
  · rfl
  · exact Path.length_reverse p

theorem Origin.walkable_along {r : RelationshipConstraint Value} (o : Origin) {p : Path} :
    q.Walkable σ m r r.heading (o.along p) ↔ q.Walkable σ m r (o.direction r) p := by
  unfold Origin.along Origin.direction
  split
  · exact Iff.rfl
  · constructor
    · intro h
      rw [← Heading.reverse_reverse r.heading] at h
      rw [← Path.reverse_reverse p]
      exact h.reverse
    · exact fun h => h.reverse

/-- A path that starts at the origin has the far end at its finish. -/
theorem Origin.ends_along (o : Origin) {p : Path} (h : p.start = o.vertex) :
    (o.along p).start.id = (o.ends p.finish.id).1 ∧
      (o.along p).finish.id = (o.ends p.finish.id).2 := by
  unfold Origin.along Origin.ends
  split
  · exact ⟨congrArg Vertex.id h, rfl⟩
  · rw [Path.start_reverse, Path.finish_reverse]
    exact ⟨rfl, congrArg Vertex.id h⟩

theorem Origin.order_along (o : Origin) {p : Path} {v w : Vertex} (hv : p.start.id = v.id)
    (hw : p.finish.id = w.id) : (o.along p).start.id = (o.order v w).1.id ∧
      (o.along p).finish.id = (o.order v w).2.id := by
  unfold Origin.along Origin.order
  split
  · exact ⟨hv, hw⟩
  · rw [Path.start_reverse, Path.finish_reverse]
    exact ⟨hw, hv⟩

/-- The walk of a solution can be walked with the edges that the match leaves free. -/
theorem Solution.walkable (h : q.Solution σ row m') (hm : m.Extends m') {i : Nat} {p : Path}
    (hb : m'.relationship? i = some (.walk p)) (ho : m.relationship? i = none)
    {r : RelationshipConstraint Value} (hp : q.WalkFits σ r p) : q.Walkable σ m r r.heading p := by
  refine ⟨hp.vertices, fun e he => ⟨(hp.edges e he).1, usable_iff.2 ⟨?_, (hp.edges e he).2⟩⟩,
    hp.along, hp.simple⟩
  exact h.free hm hb ho (List.any_eq_true.2 ⟨e, he, beq_self_eq_true e.id⟩)

/-- The vertex that a walk is expanded from is the one that the reader sees. -/
theorem Partial.origin_stored (hm : q.Partial σ row m) (hw : q.pattern.WellFormed)
    (hends : q.WalkEndsStored σ row) {i : Nat} {r : RelationshipConstraint Value}
    (hr : q.pattern.relationships[i]? = some r) (hwalk : r.isWalk = true) {o : Origin}
    (horigin : origin? m r = some o) :
    σ.getVertex? q.ctx.reader o.vertex.id = some o.vertex := by
  have hspec := origin?_spec horigin
  obtain ⟨k, hk, hv⟩ : ∃ k, (k = r.first ∨ k = r.second) ∧ m.vertex? k = some o.vertex := by
    split at hspec
    · exact ⟨_, Or.inl rfl, hspec.1⟩
    · exact ⟨_, Or.inr rfl, hspec.2.1⟩
  have hlt : k < q.pattern.nodes.length := by
    obtain ⟨h1, h2⟩ := hw.ends r (List.mem_of_getElem? hr)
    rcases hk with rfl | rfl
    · exact h1
    · exact h2
  have hn := List.getElem?_eq_getElem hlt
  obtain ⟨-, hbound⟩ := hm.node k _ _ hn (Match.vertex?_eq_some.1 hv)
  split at hbound
  · next bound hlookup =>
    rw [hbound] at hlookup
    exact hends r (List.mem_of_getElem? hr) hwalk k hk _ _ hn hlookup
  · exact hbound

theorem RelationshipFits.walk_of_range {r : RelationshipConstraint Value} {b : RelationshipBinding}
    {first second : String} (h : q.RelationshipFits σ row r b first second) {range : HopRange}
    (hr : r.range = some range) : ∃ p, b = .walk p ∧ p.start.id = first ∧ p.finish.id = second ∧
      range.min ≤ p.length ∧ p.length ≤ range.max.getD q.ctx.config.maxDepth ∧
      q.WalkFits σ r p := by
  cases h with
  | edge e _ _ hrange => rw [hr] at hrange; cases hrange
  | walk p range' hrange hmin hmax hp =>
    rw [hr] at hrange
    cases hrange
    exact ⟨p, rfl, rfl, rfl, hmin, hmax, hp⟩

/-- The candidates for a relationship with a range. -/
theorem reads_walks_candidates (hσ : σ.Consistent) (hw : q.pattern.WellFormed)
    (hends : q.WalkEndsStored σ row) (hm : q.Partial σ row m) {i : Nat}
    {r : RelationshipConstraint Value} (hr : q.pattern.relationships[i]? = some r)
    (ho : m.relationship? i = none) (hpass : hopeless q.ctx.config σ r.properties = false)
    {range : HopRange} (hrange : r.range = some range) {o : Origin}
    (horigin : origin? m r = some o) :
    Reads σ (q.walksWithin m r o range) fun bs => bs.Nodup ∧
      (∀ b ∈ bs, q.Partial σ row (m.setRelationship i b)) ∧
      ∀ m' b, q.Solution σ row m' → m.Extends m' → m'.relationship? i = some b → b ∈ bs := by
  have hstored := hm.origin_stored hw hends hr (by rw [RelationshipConstraint.isWalk, hrange]; rfl)
    horigin
  refine (reads_walksWithin hσ o range).mono fun bs ⟨hnodup, hmem⟩ => ⟨hnodup,
    fun b hb => ?_, fun m' b hs hext hb => (hmem b).2 ?_⟩
  · obtain ⟨p, rfl, hp, hstart, hmin, hmax, hend⟩ := (hmem b).1 hb
    have hwalk := (o.walkable_along).2 (walkable_iff.2 ⟨hp, by rw [hstart]; exact hstored⟩)
    obtain ⟨hloop, hfirst, hsecond⟩ := Origin.ends_agree horigin hend
    obtain ⟨hstart', hfinish'⟩ := o.ends_along hstart
    rw [← o.length_along] at hmin hmax
    refine hm.setBinding hr (.walk (o.along p) range hrange hmin hmax hwalk.walkFits) ?_ ?_ ?_
      (fun id hid => ?_) fun _ => hpass
    · rw [hstart', hfinish']
      exact hloop
    · rw [hstart']
      exact hfirst
    · rw [hfinish']
      exact hsecond
    · obtain ⟨e, he, heid⟩ := List.any_eq_true.1 hid
      rw [← eq_of_beq heid]
      exact (usable_iff.1 (hwalk.edges e he).2).1
  · obtain ⟨b', v, w, hb', hv, hw', hfits⟩ := hs.relationship i r hr
    rw [hb] at hb'
    cases hb'
    obtain ⟨p, rfl, hstart, hfinish, hmin, hmax, hp⟩ := hfits.walk_of_range hrange
    have hwalk : q.Walkable σ m r (o.direction r) (o.along p) := by
      rw [← o.walkable_along, o.along_along]
      exact hs.walkable hext hb ho hp
    obtain ⟨horder, hend⟩ := Origin.order_of_extends horigin hext hv hw'
    obtain ⟨hstart', hfinish'⟩ := o.order_along hstart hfinish
    rw [← o.length_along] at hmin hmax
    refine ⟨o.along p, congrArg _ (o.along_along p).symm, (walkable_iff.1 hwalk).1, ?_, hmin, hmax,
      fun id hid => ?_⟩
    · -- both are the vertex of that id which the reader sees
      have hseen := hwalk.vertices _ (o.along p).start_mem
      rw [hstart', horder, hstored] at hseen
      exact (Option.some.inj hseen).symm
    · rw [hfinish']
      exact hend id hid

/-! ## Relationships -/

/-- The candidates for a relationship with an assigned end. -/
theorem reads_relationshipCandidates (hσ : σ.Consistent) (hw : q.pattern.WellFormed)
    (hends : q.WalkEndsStored σ row) (hm : q.Partial σ row m) {i : Nat}
    {r : RelationshipConstraint Value} (hr : q.pattern.relationships[i]? = some r)
    (ho : m.relationship? i = none) (hassigned : ∃ k ∈ r.ends, (m.node? k).isSome = true) :
    Reads σ (q.relationshipCandidates m r) fun bs => bs.Nodup ∧
      (∀ b ∈ bs, q.Partial σ row (m.setRelationship i b)) ∧ (q.Passable σ →
        ∀ m' b, q.Solution σ row m' → m.Extends m' → m'.relationship? i = some b → b ∈ bs) := by
  intro s hs
  unfold relationshipCandidates
  cases horigin : origin? m r with
  | none =>
    refine ⟨⟨List.nodup_nil, by simp, fun _ m' b hsol hext hb => ?_⟩, hs⟩
    obtain ⟨o, ho'⟩ := hsol.exists_origin hext hassigned
    rw [horigin] at ho'
    cases ho'
  | some o =>
    simp only
    split
    · next hhopeless =>
      rw [hs] at hhopeless
      refine ⟨⟨List.nodup_nil, by simp, fun hpass m' b hsol hext hb => ?_⟩, hs⟩
      cases hrange : r.range with
      | some range =>
        rw [hpass r (List.mem_of_getElem? hr) (by rw [RelationshipConstraint.isWalk, hrange]; rfl)]
          at hhopeless
        cases hhopeless
      | none =>
        obtain ⟨b', v, w, hb', -, -, hfits⟩ := hsol.relationship i r hr
        obtain ⟨e, -, hfit, -⟩ := hfits.edge_of_range hrange
        obtain ⟨hmeets, hget⟩ := (hm.edgeFits_iff hr ho e).1 hfit
        rw [edge_of_hopeless hσ hhopeless hget] at hmeets
        cases hmeets
    · next hhopeless =>
      rw [hs, Bool.not_eq_true] at hhopeless
      cases hrange : r.range with
      | none =>
        obtain ⟨⟨hnodup, hpart, hcomplete⟩, hs'⟩ :=
          reads_hops_candidates hσ hm hr ho hrange horigin s hs
        exact ⟨⟨hnodup, hpart, fun _ => hcomplete⟩, hs'⟩
      | some range =>
        obtain ⟨⟨hnodup, hpart, hcomplete⟩, hs'⟩ :=
          reads_walks_candidates hσ hw hends hm hr ho hhopeless hrange horigin s hs
        exact ⟨⟨hnodup, hpart, fun _ => hcomplete⟩, hs'⟩

end Search

end PropertyGraph
