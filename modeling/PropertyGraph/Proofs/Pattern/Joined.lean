import PropertyGraph.Proofs.Pattern.Partial

/-!
# Assignments that are joined

Whatever is assigned to a relationship lies along it, and its ends are the vertices of its nodes as
far as these are assigned.  No more is needed for the path of a name, which is put together from a
match, one leg for each relationship of its part: a leg begins where the one before has ended.

    RelationshipConstraint.Lies   an edge or a walk lies along a relationship
    Search.Joined                 everything that is assigned does
    Search.Follows                the legs of a path, step by step
    Whole.pathValue               if everything is assigned, a named path has its legs
-/

namespace PropertyGraph

/-- The edge or the walk lies along the relationship between vertices of these ids. -/
inductive RelationshipConstraint.Lies (maxDepth : Nat) (r : RelationshipConstraint Value) :
    RelationshipBinding → String → String → Prop
  | edge {e : Edge} {first second : String} (hrange : r.range = none)
      (hj : e.Joins r.heading first second) : Lies maxDepth r (.edge e first second) first second
  | walk {p : Path} {range : HopRange} (hrange : r.range = some range)
      (hmin : range.min ≤ p.length) (hmax : p.length ≤ range.max.getD maxDepth)
      (halong : p.Along r.heading) (hsimple : p.Simple) :
      Lies maxDepth r (.walk p) p.start.id p.finish.id

namespace Search

variable {q : Search} {σ : Store} {row : Row} {m : Match}

/-- What is assigned to relationships lies along them and ends at the vertices that are assigned to
their nodes, and no edge is used twice. -/
structure Joined (q : Search) (m : Match) : Prop where
  nodeCount : m.nodes.length = q.pattern.nodes.length
  relationshipCount : m.relationships.length = q.pattern.relationships.length
  relationship : ∀ (k : Nat) r b first second, q.pattern.relationships[k]? = some r →
    m.relationship? k = some b → b.ends = some (first, second) →
      r.Lies q.ctx.config.maxDepth b first second ∧ (r.first = r.second → first = second) ∧
        (∀ v, m.vertex? r.first = some v → v.id = first) ∧
        ∀ w, m.vertex? r.second = some w → w.id = second
  distinct : ∀ i j b c id, m.relationship? i = some b → m.relationship? j = some c →
    b.uses id = true → c.uses id = true → i = j

/-! ## From the row -/

theorem RelationshipFits.lies {r : RelationshipConstraint Value} {b : RelationshipBinding}
    {first second : String} (h : q.RelationshipFits σ row r b first second) :
    r.Lies q.ctx.config.maxDepth b first second := by
  cases h with
  | edge e _ _ hr _ hj => exact .edge hr hj
  | walk p range hr hmin hmax hp => exact .walk hr hmin hmax hp.along hp.simple

theorem Partial.joined (h : q.Partial σ row m) : q.Joined m where
  nodeCount := h.nodeCount
  relationshipCount := h.relationshipCount
  relationship k r b first second hr hb hends := by
    obtain ⟨first', second', hfits, hagree⟩ :=
      h.relationship k r b hr hb (by rintro rfl; cases hends)
    cases hfits.ends.symm.trans hends
    exact ⟨hfits.lies, hagree⟩
  distinct := h.distinct

/-! ## Assigning -/

namespace Joined

variable {i : Nat}

theorem setNode (h : q.Joined m) (hi : i < m.nodes.length) {b : NodeBinding}
    (hb : ∀ v, b = .vertex v → ∀ (k : Nat) r c first second, q.pattern.relationships[k]? = some r →
      m.relationship? k = some c → c.ends = some (first, second) →
        (r.first = i → v.id = first) ∧ (r.second = i → v.id = second)) :
    q.Joined (m.setNode i b) where
  nodeCount := List.length_set.trans h.nodeCount
  relationshipCount := h.relationshipCount
  relationship k r c first second hr hc hends := by
    obtain ⟨hlies, hloop, hfirst, hsecond⟩ := h.relationship k r c first second hr hc hends
    have hvertex : ∀ j v, (m.setNode i b).vertex? j = some v →
        (i = j ∧ b = .vertex v) ∨ m.vertex? j = some v := by
      intro j v hv
      rw [Match.vertex?_setNode m i j b hi] at hv
      split at hv
      · next hij =>
        cases b with
        | vertex w => cases hv; exact Or.inl ⟨hij, rfl⟩
        | null => cases hv
      · exact Or.inr hv
    refine ⟨hlies, hloop, fun v hv => ?_, fun w hw => ?_⟩
    · rcases hvertex _ v hv with ⟨hij, hbv⟩ | hv
      · exact (hb v hbv k r c first second hr hc hends).1 hij.symm
      · exact hfirst v hv
    · rcases hvertex _ w hw with ⟨hij, hbw⟩ | hw
      · exact (hb w hbw k r c first second hr hc hends).2 hij.symm
      · exact hsecond w hw
  distinct := h.distinct

theorem setRelationship (h : q.Joined m) {r : RelationshipConstraint Value}
    (hr : q.pattern.relationships[i]? = some r) {b : RelationshipBinding}
    (hb : ∀ first second, b.ends = some (first, second) →
      r.Lies q.ctx.config.maxDepth b first second ∧ (r.first = r.second → first = second) ∧
        (∀ v, m.vertex? r.first = some v → v.id = first) ∧
        ∀ w, m.vertex? r.second = some w → w.id = second)
    (hfree : ∀ id, b.uses id = true → m.uses id = false) : q.Joined (m.setRelationship i b) := by
  have hi : i < m.relationships.length := by
    rw [h.relationshipCount]
    exact (List.getElem?_eq_some_iff.1 hr).1
  have hget := fun j => Match.relationship?_setRelationship m i j b hi
  refine ⟨h.nodeCount, List.length_set.trans h.relationshipCount,
    fun k r' c first second hr' hc hends => ?_, fun j k c d id hc hd huc hud => ?_⟩
  · rw [hget k] at hc
    split at hc
    · next hik =>
      cases hc
      rw [← hik, hr] at hr'
      cases hr'
      exact hb first second hends
    · exact h.relationship k r' c first second hr' hc hends
  · -- an edge that the new assignment uses is used by no other one
    have hused : ∀ j c, m.relationship? j = some c → c.uses id = true → m.uses id = true :=
      fun j c hc hu => Match.uses_eq_true.2 ⟨j, c, hc, hu⟩
    rw [hget j] at hc
    rw [hget k] at hd
    split at hc <;> split at hd
    · next hij hik => rw [← hij, hik]
    · cases hc
      exact absurd (hused k d hd hud) (by rw [hfree id huc]; exact Bool.false_ne_true)
    · cases hd
      exact absurd (hused j c hc huc) (by rw [hfree id hud]; exact Bool.false_ne_true)
    · exact h.distinct j k c d id hc hd huc hud

end Joined

/-! ## Legs -/

/-- The hops that a match makes of the steps of a named walk: those of the edge or of the walk that
is assigned to the relationship of a step, from the vertex where the steps before have ended to the
one that is assigned to the node of the step. -/
inductive Follows (q : Search) (m : Match) :
    Vertex → List (Nat × Nat) → List (Edge × Vertex) → Prop
  | done {u : Vertex} : Follows q m u [] []
  | hop {u w : Vertex} {k i : Nat} {steps : List (Nat × Nat)} {hops : List (Edge × Vertex)}
      {r : RelationshipConstraint Value} {e : Edge} {first second : String} :
    q.pattern.relationships[k]? = some r → r.range = none →
    m.relationship? k = some (.edge e first second) → m.vertex? i = some w →
    e.Joins r.heading u.id w.id → Follows q m w steps hops →
      Follows q m u ((k, i) :: steps) ((e, w) :: hops)
  | walk {u w : Vertex} {k i : Nat} {steps : List (Nat × Nat)} {hops : List (Edge × Vertex)}
      {r : RelationshipConstraint Value} {range : HopRange} {p : Path} :
    q.pattern.relationships[k]? = some r → r.range = some range →
    m.relationship? k = some (.walk p) → m.vertex? i = some w →
    range.min ≤ p.length → p.length ≤ range.max.getD q.ctx.config.maxDepth → p.Simple →
    Path.Along r.heading ⟨u, p.hops⟩ → (Path.finish ⟨u, p.hops⟩).id = w.id →
    Follows q m (Path.finish ⟨u, p.hops⟩) steps hops →
      Follows q m u ((k, i) :: steps) (p.hops ++ hops)

namespace Follows

variable {u : Vertex} {steps : List (Nat × Nat)} {hops : List (Edge × Vertex)}

/-- Each hop joins the vertices before and after it. -/
theorem along (h : q.Follows m u steps hops) : Path.Along .undirected ⟨u, hops⟩ := by
  induction h with
  | done => trivial
  | @hop u w k i steps hops r e first second _ _ _ _ hj _ ih =>
    have hedge : Path.Along r.heading ⟨u, [(e, w)]⟩ := ⟨hj, trivial⟩
    show Path.Along .undirected ⟨u, [(e, w)] ++ hops⟩
    exact Path.along_append.2 ⟨hedge.undirected, ih⟩
  | walk _ _ _ _ _ _ _ halong _ _ ih => exact Path.along_append.2 ⟨halong.undirected, ih⟩

/-- The edges are those that the match uses for the relationships of the steps. -/
theorem uses (h : q.Follows m u steps hops) {id : String} (hid : id ∈ hops.map (·.1.id)) :
    ∃ k ∈ steps.map Prod.fst, ∃ b, m.relationship? k = some b ∧ b.uses id = true := by
  induction h with
  | done => cases hid
  | @hop u w k i steps hops r e first second _ _ hb _ _ _ ih =>
    rcases List.mem_cons.1 hid with rfl | hid
    · exact ⟨k, List.mem_cons_self, _, hb, beq_self_eq_true e.id⟩
    · obtain ⟨k', hk', huse⟩ := ih hid
      exact ⟨k', List.mem_cons_of_mem _ hk', huse⟩
  | @walk u w k i steps hops r range p _ _ hb _ _ _ _ _ _ _ ih =>
    rw [List.map_append, List.mem_append] at hid
    rcases hid with hid | hid
    · obtain ⟨hop, hmem, rfl⟩ := List.mem_map.1 hid
      refine ⟨k, List.mem_cons_self, _, hb, List.any_eq_true.2 ⟨hop.1, ?_, beq_self_eq_true _⟩⟩
      exact List.mem_map.2 ⟨hop, hmem, rfl⟩
    · obtain ⟨k', hk', huse⟩ := ih hid
      exact ⟨k', List.mem_cons_of_mem _ hk', huse⟩

/-- No edge is used twice, as no relationship comes twice among the steps. -/
theorem nodup (h : q.Follows m u steps hops) (hm : q.Joined m)
    (hsteps : (steps.map Prod.fst).Nodup) : (hops.map (·.1.id)).Nodup := by
  induction h with
  | done => exact List.nodup_nil
  | @hop u w k i steps hops r e first second _ _ hb _ _ hrest ih =>
    obtain ⟨hk, hsteps⟩ := List.nodup_cons.1 hsteps
    refine List.nodup_cons.2 ⟨fun hid => ?_, ih hsteps⟩
    obtain ⟨k', hk', b, hb', huse⟩ := hrest.uses hid
    rw [hm.distinct k k' _ b e.id hb hb' (beq_self_eq_true e.id) huse] at hk
    exact hk hk'
  | @walk u w k i steps hops r range p _ _ hb _ _ _ hsimple _ _ hrest ih =>
    obtain ⟨hk, hsteps⟩ := List.nodup_cons.1 hsteps
    have hown : (p.hops.map (·.1.id)).Nodup := by
      have := hsimple.2
      rwa [Path.edges, List.map_map] at this
    rw [List.map_append]
    refine List.nodup_append.2 ⟨hown, ih hsteps, fun id hid id' hid' heq => ?_⟩
    subst heq
    obtain ⟨hop, hmem, rfl⟩ := List.mem_map.1 hid
    obtain ⟨k', hk', b, hb', huse⟩ := hrest.uses hid'
    have hown : (RelationshipBinding.walk p).uses hop.1.id = true :=
      List.any_eq_true.2 ⟨hop.1, List.mem_map.2 ⟨hop, hmem, rfl⟩, beq_self_eq_true _⟩
    rw [hm.distinct k k' _ b _ hb hb' hown huse] at hk
    exact hk hk'

end Follows

/-! ## Putting the legs together -/

/-- Every node has a vertex, and every relationship an edge or a walk. -/
structure Whole (q : Search) (m : Match) : Prop extends q.Joined m where
  vertex : ∀ i < q.pattern.nodes.length, ∃ v, m.vertex? i = some v
  assigned : ∀ k < q.pattern.relationships.length, ∃ b, m.relationship? k = some b ∧ b ≠ .null

/-- Where nothing is open and nothing unmatched, everything is assigned. -/
theorem Joined.whole (h : q.Joined m) (ho : m.openCount = 0) (hn : m.hasNull = false) :
    q.Whole m := by
  obtain ⟨hnodes, hrels⟩ := Match.assigned_of_openCount ho
  obtain ⟨hnn, hrn⟩ := Match.hasNull_eq_false.1 hn
  refine ⟨h, fun i hi => ?_, fun k hk => ?_⟩
  · obtain ⟨b, hb⟩ := hnodes i (by rw [h.nodeCount]; exact hi)
    cases b with
    | vertex v => exact ⟨v, Match.vertex?_eq_some.2 hb⟩
    | null => exact absurd hb (hnn i)
  · obtain ⟨b, hb⟩ := hrels k (by rw [h.relationshipCount]; exact hk)
    refine ⟨b, hb, ?_⟩
    rintro rfl
    exact hrn k hb

theorem Solution.whole (h : q.Solution σ row m) : q.Whole m where
  nodeCount := h.nodeCount
  relationshipCount := h.relationshipCount
  relationship k r b first second hr hb hends := by
    obtain ⟨b', v, w, hb', hv, hw, hfits⟩ := h.relationship k r hr
    cases hb.symm.trans hb'
    cases hfits.ends.symm.trans hends
    refine ⟨hfits.lies, fun hloop => ?_, fun u hu => ?_, fun u hu => ?_⟩
    · rw [hloop, hw] at hv
      rw [Option.some.inj hv]
    · rw [Option.some.inj (hu.symm.trans hv)]
    · rw [Option.some.inj (hu.symm.trans hw)]
  distinct := h.distinct
  vertex i hi := by
    obtain ⟨v, hv, -⟩ := h.node i _ (List.getElem?_eq_getElem hi)
    exact ⟨v, Match.vertex?_eq_some.2 hv⟩
  assigned k hk := by
    obtain ⟨b, v, w, hb, -, -, hfits⟩ := h.relationship k _ (List.getElem?_eq_getElem hk)
    exact ⟨b, hb, hfits.ne_null⟩

/-- From the vertex of a node on the legs of a chain fit one another. -/
theorem Whole.walkFrom (h : q.Whole m) (hw : q.pattern.WellFormed) {steps : List (Nat × Nat)}
    {start : Nat} (hchain : q.pattern.Chain start steps) {v : Vertex}
    (hv : m.vertex? start = some v) {p : Path} (hp : p.finish.id = v.id) :
    ∃ hops, m.walkFrom p steps = some ⟨p.start, p.hops ++ hops⟩ ∧
      q.Follows m p.finish steps hops := by
  induction steps generalizing start v p with
  | nil =>
    refine ⟨[], ?_, .done⟩
    rw [List.append_nil]
    exact congrArg some (Path.ext rfl rfl)
  | cons step rest ih =>
    obtain ⟨k, next⟩ := step
    obtain ⟨⟨r, hr, rfl, rfl⟩, hrest⟩ := hchain
    have hmem := List.mem_of_getElem? hr
    obtain ⟨w, hw'⟩ := h.vertex r.second (hw.ends r hmem).2
    obtain ⟨b, hb, hbn⟩ := h.assigned k (List.getElem?_eq_some_iff.1 hr).1
    unfold Match.walkFrom
    rw [hw', hb]
    cases b with
    | null => exact absurd rfl hbn
    | edge e first second =>
      obtain ⟨hlies, -, hfirst, hsecond⟩ := h.relationship k r _ first second hr hb rfl
      obtain ⟨hrange, hj⟩ : r.range = none ∧ e.Joins r.heading first second := by
        cases hlies with
        | edge hrange hj => exact ⟨hrange, hj⟩
      rw [← hfirst v hv, ← hsecond w hw', ← hp] at hj
      have hfinish : (p.extend e w).finish = w := by
        rw [Path.extend, Path.finish_append]
        rfl
      obtain ⟨hops, hwalk, hfollows⟩ := ih hrest hw' (p := p.extend e w) (by rw [hfinish])
      rw [hfinish] at hfollows
      refine ⟨(e, w) :: hops, ?_, .hop hr hrange hb hw' hj hfollows⟩
      dsimp only
      rw [hwalk, Path.extend, List.append_assoc]
      rfl
    | walk leg =>
      obtain ⟨hlies, -, hfirst, hsecond⟩ := h.relationship k r _ _ _ hr hb rfl
      cases hlies with
      | walk hrange hmin hmax halong hsimple =>
        have hstart : leg.start.id = p.finish.id := (hfirst v hv).symm.trans hp.symm
        have hjoin : p.append? leg = some ⟨p.start, p.hops ++ leg.hops⟩ := by
          unfold Path.append?
          rw [if_pos (beq_iff_eq.2 hstart.symm)]
        have hfinish : Path.finish ⟨p.start, p.hops ++ leg.hops⟩ =
            Path.finish ⟨p.finish, leg.hops⟩ := Path.finish_append _ _ _
        have hend : (Path.finish ⟨p.finish, leg.hops⟩).id = w.id :=
          (Path.finish_id hstart.symm leg.hops).trans (hsecond w hw').symm
        obtain ⟨hops, hwalk, hfollows⟩ := ih hrest hw' (p := ⟨p.start, p.hops ++ leg.hops⟩)
          (by rw [hfinish]; exact hend)
        rw [hfinish] at hfollows
        refine ⟨leg.hops ++ hops, ?_, .walk hr hrange hb hw' hmin hmax hsimple
          (Path.along_id hstart halong) hend hfollows⟩
        dsimp only
        rw [hjoin, Option.bind_some, hwalk, List.append_assoc]

/-- A whole match has a path for every named path of its pattern. -/
theorem Whole.pathValue (h : q.Whole m) (hw : q.pattern.WellFormed) {p : PathConstraint}
    (hp : p ∈ q.pattern.paths) : ∃ path, m.pathValue p = .path path ∧
      m.vertex? p.start = some path.start ∧ q.Follows m path.start p.steps path.hops := by
  have hchain := hw.paths p hp
  have hstart : p.start < q.pattern.nodes.length := by
    cases hsteps : p.steps with
    | nil => rw [hsteps] at hchain; exact hchain
    | cons step rest =>
      obtain ⟨k, next⟩ := step
      rw [hsteps] at hchain
      obtain ⟨⟨r, hr, hfirst, -⟩, -⟩ := hchain
      rw [← hfirst]
      exact (hw.ends r (List.mem_of_getElem? hr)).1
  obtain ⟨v, hv⟩ := h.vertex p.start hstart
  obtain ⟨hops, hpath, hfollows⟩ := h.walkFrom hw hchain hv (p := .single v) rfl
  refine ⟨⟨v, hops⟩, ?_, hv, hfollows⟩
  unfold Match.pathValue
  rw [hv, Option.bind_some, hpath]
  rfl

end Search

end PropertyGraph
