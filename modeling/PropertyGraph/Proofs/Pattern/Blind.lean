import PropertyGraph.Proofs.Pattern.Walk
import PropertyGraph.Proofs.Run.Alike

/-!
# Searches from related states

Two searches for one pattern, in stores that differ, go the same way as long as they are told the
same: the same vertices for the ids that they come to know, the same edges around these as far as
the pattern can use them, the same estimates, and the same cursors wherever one is opened.

    Search.Sees            the two stores tell a search the same
    Search.twins_flow      the search gives the same matches in both
-/

namespace PropertyGraph

variable {R : RunState → RunState → Prop} {Known : String → Prop}

theorem Path.finish_extend (p : Path) (e : Edge) (v : Vertex) : (p.extend e v).finish = v := by
  simp [finish, extend]

/-! ## Known ids -/

/-- The ids of the assigned vertices and of the ends of the assigned relationships are known. -/
structure Match.Within (Known : String → Prop) (m : Match) : Prop where
  vertex : ∀ i v, m.vertex? i = some v → Known v.id
  ends : ∀ i b, m.relationship? i = some b → ∀ first second,
    b.ends = some (first, second) → Known first ∧ Known second

theorem Match.within_true (m : Match) : m.Within fun _ => True :=
  ⟨fun _ _ _ => trivial, fun _ _ _ _ _ _ => ⟨trivial, trivial⟩⟩

namespace Match.Within

variable {m : Match}

theorem setNode (h : m.Within Known) (i : Nat) {b : NodeBinding}
    (hb : ∀ v, b = .vertex v → Known v.id) : (m.setNode i b).Within Known := by
  refine ⟨fun j v hv => ?_, h.ends⟩
  by_cases hi : i < m.nodes.length
  · rw [vertex?_setNode m i j b hi] at hv
    split at hv
    · cases b with
      | vertex _ => cases hv; exact hb _ rfl
      | null => cases hv
    · exact h.vertex j v hv
  · rw [show m.setNode i b = m by
      unfold Match.setNode; rw [List.set_eq_of_length_le (Nat.le_of_not_lt hi)]] at hv
    exact h.vertex j v hv

theorem setRelationship (h : m.Within Known) (i : Nat) {b : RelationshipBinding}
    (hb : ∀ first second, b.ends = some (first, second) → Known first ∧ Known second) :
    (m.setRelationship i b).Within Known := by
  refine ⟨h.vertex, fun j c hc => ?_⟩
  by_cases hi : i < m.relationships.length
  · rw [relationship?_setRelationship m i j b hi] at hc
    split at hc
    · cases hc; exact hb
    · exact h.ends j c hc
  · rw [show m.setRelationship i b = m by
      unfold Match.setRelationship; rw [List.set_eq_of_length_le (Nat.le_of_not_lt hi)]] at hc
    exact h.ends j c hc

theorem setNode_null (h : m.Within Known) (i : Nat) : (m.setNode i .null).Within Known :=
  h.setNode i fun _ hv => by cases hv

theorem setRelationship_null (h : m.Within Known) (i : Nat) :
    (m.setRelationship i .null).Within Known :=
  h.setRelationship i (b := .null) fun _ _ hends => by cases hends

end Match.Within

namespace Search

variable {q : Search} {Started : Match → Prop}

/-- The ids of the vertices that a node is tried with where a cursor is opened for it. -/
def seedIds (q : Search) (n : NodeConstraint Value) (σ : Store) : List String :=
  if hopeless q.ctx.config σ n.properties then []
  else ((σ.selectVertices q.ctx.reader (nodeSelection q.ctx.config n)).pending).getD []

/-- A node is tried with the same known vertices in both stores. -/
def SeededAlike (q : Search) (Known : String → Prop) (n : NodeConstraint Value)
    (σ τ : Store) : Prop :=
  q.seedIds n σ = q.seedIds n τ ∧ ∀ id ∈ q.seedIds n σ, Known id

/-- A relationship is given up in both stores or in none; or it needs an edge, and around known
vertices there is none. -/
def GivenUpAlike (q : Search) (Known : String → Prop) (r : RelationshipConstraint Value)
    (σ τ : Store) : Prop :=
  hopeless q.ctx.config σ r.properties = hopeless q.ctx.config τ r.properties ∨
    (∀ range, r.range = some range → 0 < range.min) ∧ ∀ id, Known id → ∀ direction,
      (σ.incidentEdges q.ctx.reader id direction r.types).filter (r.admits q.ctx.config) = []

/-! ## Estimates -/

/-- An estimate is remembered alike, where related states remember the same. -/
theorem blind_remembered {key : String} {make : StateM RunState Nat}
    (hsame : ∀ s t, R s t → s.estimates = t.estimates)
    (hkeep : ∀ s t, R s t → ∀ es, R { s with estimates := es } { t with estimates := es })
    (h : Blind R make) : Blind R (remembered key make) := by
  intro s t hst
  obtain ⟨heq, -, hst'⟩ := h s t hst
  unfold remembered
  rw [hsame s t hst]
  split
  · exact ⟨rfl, trivial, hst⟩
  · cases hs : make s with
    | mk n s' =>
      cases ht : make t with
      | mk n' t' =>
        rw [hs, ht] at heq hst'
        cases heq
        refine ⟨rfl, trivial, ?_⟩
        dsimp only
        rw [hsame s' t' hst']
        exact hkeep s' t' hst' _

/-- The estimate for a node on a store. -/
def nodeNumber (q : Search) (σ : Store) (n : NodeConstraint Value) : Nat :=
  if hopeless q.ctx.config σ n.properties then 0
  else (σ.selectVertices q.ctx.reader (nodeSelection q.ctx.config n)).total

/-- The estimate for a relationship on a store. -/
def relationshipNumber (q : Search) (σ : Store) (r : RelationshipConstraint Value) : Nat :=
  if hopeless q.ctx.config σ r.properties then 0
  else (σ.selectEdges q.ctx.reader (relationshipSelection q.ctx.config r)).total

/-- An estimate that is made anew: a number of the store alone, and something is counted. -/
theorem total_unless (find : Store → Cursor) (skip : Store → Bool) (s : RunState) :
    ∃ n, (fun s => if skip s.store then (0, s) else total find s : StateM RunState Nat) s =
      (if skip s.store then 0 else (find s.store).total, { s with stats := n }) := by
  dsimp only
  split
  · exact ⟨s.stats, rfl⟩
  · unfold total
    dsimp only
    split
    · exact ⟨_, rfl⟩
    · exact ⟨_, rfl⟩

section Numbers

variable (hR : Uncounted R) (hsame : ∀ s t, R s t → s.estimates = t.estimates)
  (hkeep : ∀ s t, R s t → ∀ es, R { s with estimates := es } { t with estimates := es })

include hR hsame hkeep

theorem blind_nodeEstimate {q : Search} {n : NodeConstraint Value}
    (hnumber : ∀ s t, R s t → q.nodeNumber s.store n = q.nodeNumber t.store n) :
    Blind R (q.nodeEstimate n) := by
  unfold nodeEstimate
  refine blind_remembered hsame hkeep ?_
  intro s t hst
  have htotal := total_unless (·.selectVertices q.ctx.reader (nodeSelection q.ctx.config n))
    (hopeless q.ctx.config · n.properties)
  obtain ⟨k, hs⟩ := htotal s
  obtain ⟨l, ht⟩ := htotal t
  dsimp only at hs ht ⊢
  rw [hs, ht]
  exact ⟨hnumber s t hst, trivial, hR s t hst k l⟩

theorem blind_relationshipEstimate {q : Search} {r : RelationshipConstraint Value}
    (hnumber : ∀ s t, R s t → q.relationshipNumber s.store r = q.relationshipNumber t.store r) :
    Blind R (q.relationshipEstimate r) := by
  unfold relationshipEstimate
  refine blind_remembered hsame hkeep ?_
  intro s t hst
  have htotal := total_unless (·.selectEdges q.ctx.reader (relationshipSelection q.ctx.config r))
    (hopeless q.ctx.config · r.properties)
  obtain ⟨k, hs⟩ := htotal s
  obtain ⟨l, ht⟩ := htotal t
  dsimp only at hs ht ⊢
  rw [hs, ht]
  exact ⟨hnumber s t hst, trivial, hR s t hst k l⟩

end Numbers

/-! ## What two states tell a search -/

/-- What two related states have in common for a search to go the same way in both: what it asks
of vertices, of edges, of numbers, what it gives up, and where it takes a node from a cursor.
`Known` are the ids that the search comes to know, `Started` what holds of all its partial
matches. -/
structure Sees (q : Search) (R : RunState → RunState → Prop) (Known : String → Prop)
    (Started : Match → Prop) : Prop where
  uncounted : Uncounted R
  nodeEstimate : ∀ n ∈ q.pattern.nodes, Blind R (q.nodeEstimate n)
  relationshipEstimate : ∀ r ∈ q.pattern.relationships, Blind R (q.relationshipEstimate r)
  givenUp : ∀ r ∈ q.pattern.relationships, ∀ s t, R s t →
    q.GivenUpAlike Known r s.store t.store
  vertex : ∀ s t, R s t → ∀ id, Known id →
    s.store.getVertex? q.ctx.reader id = t.store.getVertex? q.ctx.reader id ∧
      ∀ v, s.store.getVertex? q.ctx.reader id = some v → Known v.id
  edges : ∀ s t, R s t → ∀ id, Known id → ∀ r ∈ q.pattern.relationships, ∀ direction,
    (s.store.incidentEdges q.ctx.reader id direction r.types).filter (r.admits q.ctx.config) =
      (t.store.incidentEdges q.ctx.reader id direction r.types).filter (r.admits q.ctx.config) ∧
    ∀ e ∈ s.store.incidentEdges q.ctx.reader id direction r.types,
      r.admits q.ctx.config e = true → Known (e.otherEnd id)
  setNode : ∀ m i b, Started m → Started (m.setNode i b)
  setRelationship : ∀ m i b, Started m → Started (m.setRelationship i b)
  seed : ∀ m i n, Started m → m.Within Known → (∃ s, (q.choose m s).1 = some (.node i)) →
    q.pattern.nodes[i]? = some n → (∀ r ∈ n.incident, m.relationship? r = none) →
    ∀ s t, R s t → q.SeededAlike Known n s.store t.store

variable {m : Match}

namespace Sees

variable (h : q.Sees R Known Started)

include h

/-! ## The next constraint -/

theorem choose (m : Match) : Blind R (q.choose m) := by
  unfold Search.choose openNodes openRelationships
  refine .bind (.filterMapM (Q := fun _ => True) fun p hp => ?_) fun nodes _ =>
    .bind (.filterMapM (Q := fun _ => True) fun p hp => ?_) fun relationships _ => .pure trivial
  · obtain ⟨n, i⟩ := p
    have hn := List.mem_of_getElem? (List.mem_zipIdx_iff_getElem?.1 hp)
    simp only
    split
    · exact .pure nofun
    · unfold nodePriority
      refine .bind (P := fun _ => True) ?_ fun p _ => .pure fun _ _ => trivial
      exact .bind (h.nodeEstimate n hn) fun estimate _ => .pure trivial
  · obtain ⟨r, i⟩ := p
    have hr := List.mem_of_getElem? (List.mem_zipIdx_iff_getElem?.1 hp)
    simp only
    split
    · exact .pure nofun
    · unfold relationshipPriority
      refine .bind (P := fun _ => True) ?_ fun p _ => .pure fun _ _ => trivial
      exact .bind (h.relationshipEstimate r hr) fun estimate _ => .pure trivial

/-! ## Candidates -/

theorem fetchVertex {id : String} (hid : Known id) :
    BlindTo R (∀ v ∈ ·, Known v.id) (q.fetchVertex id) := by
  intro s t hst
  obtain ⟨heq, hknown⟩ := h.vertex s t hst id hid
  exact ⟨heq, hknown, h.uncounted _ _ hst _ _⟩

theorem nodeCandidates (hm : m.Within Known) (n : NodeConstraint Value) (i : Nat) :
    BlindTo R (∀ v ∈ ·, Known v.id) (q.nodeCandidates m n i) := by
  unfold Search.nodeCandidates
  split
  · exact .pure nofun
  · next id rest hids =>
    have hid : Known id := by
      obtain ⟨r, -, hr⟩ := List.mem_filterMap.1 (hids ▸ List.mem_cons_self :
        id ∈ q.demandedIds m n i)
      split at hr
      · next first second rel hends hrel =>
        obtain ⟨b, hb, hends⟩ := Option.bind_eq_some_iff.1 hends
        obtain ⟨hfirst, hsecond⟩ := hm.ends r b hb first second hends
        cases hr
        split
        · exact hfirst
        · exact hsecond
      · cases hr
    split
    · refine .bind (h.fetchVertex hid) fun o ho => ?_
      cases o with
      | none => exact .pure nofun
      | some v =>
        refine .pure fun w hw => ?_
        split at hw
        · rw [List.mem_singleton.1 hw]
          exact ho v rfl
        · cases hw
    · exact .pure nofun

/-- The edges around a known vertex that can be used are the same, and lead to known vertices. -/
theorem usableEdges {s t : RunState} (hst : R s t) {id : String} (hid : Known id) (m : Match)
    {r : RelationshipConstraint Value} (hr : r ∈ q.pattern.relationships) (direction : Heading) :
    (s.store.incidentEdges q.ctx.reader id direction r.types).filter (q.usable m r) =
      (t.store.incidentEdges q.ctx.reader id direction r.types).filter (q.usable m r) ∧
    ∀ e ∈ (s.store.incidentEdges q.ctx.reader id direction r.types).filter (q.usable m r),
      Known (e.otherEnd id) := by
  obtain ⟨heq, hknown⟩ := h.edges s t hst id hid r hr direction
  have husable : q.usable m r = fun e => !m.uses e.id && r.admits q.ctx.config e := rfl
  refine ⟨?_, fun e he => ?_⟩
  · rw [husable, ← List.filter_filter, ← List.filter_filter, heq]
  · obtain ⟨he, huse⟩ := List.mem_filter.1 he
    exact hknown e he (Bool.and_eq_true _ _ ▸ huse).2

theorem hops {r : RelationshipConstraint Value} (hr : r ∈ q.pattern.relationships) (m : Match)
    {o : Origin} (ho : Known o.vertex.id) :
    BlindTo R (∀ b ∈ ·, ∀ first second, b.ends = some (first, second) →
      Known first ∧ Known second) (q.hops m r o) := by
  intro s t hst
  obtain ⟨heq, hknown⟩ := h.usableEdges hst ho m hr (o.direction r)
  refine ⟨congrArg (List.filterMap _) heq, fun b hb first second hends => ?_,
    h.uncounted _ _ hst _ _⟩
  obtain ⟨e, he, hb⟩ := List.mem_filterMap.1 hb
  have hother := hknown e he
  simp only at hb
  split at hb
  · cases hb
    split at hends
    · cases hends; exact ⟨ho, hother⟩
    · cases hends; exact ⟨hother, ho⟩
  · cases hb

end Sees

/-- Items that are sure to come to nothing can be left out before. -/
theorem filterMapM_filter {α β : Type} {f : α → StateM RunState (Option β)} {p : α → Bool}
    (hp : ∀ a, p a = false → f a = pure none) (as : List α) :
    as.filterMapM f = (as.filter p).filterMapM f := by
  induction as with
  | nil => rfl
  | cons a rest ih =>
    rw [List.filterMapM_cons, List.filter_cons]
    split
    · rw [List.filterMapM_cons, ih]
    · next hno =>
      rw [hp a (Bool.eq_false_iff.2 hno), ← ih]
      rfl

/-- A path with one edge more, if that can be used. -/
def hop (q : Search) (m : Match) (r : RelationshipConstraint Value) (p : Path) (e : Edge) :
    StateM RunState (Option Path) := do
  let other := e.otherEnd p.finish.id
  if p.hasEdge e.id || !q.usable m r e || p.hasVertex other then return none
  else return (← q.fetchVertex other).map (p.extend e)

theorem longer_apply (q : Search) (m : Match) (r : RelationshipConstraint Value)
    (direction : Heading) (p : Path) (s : RunState) :
    q.longer m r direction p s =
      ((s.store.incidentEdges q.ctx.reader p.finish.id direction r.types).filter
        (q.usable m r)).filterMapM (q.hop m r p) (s.request 1) := by
  rw [← filterMapM_filter fun e he => ?_]
  · rfl
  · unfold hop
    simp only [he, Bool.not_false, Bool.or_true, Bool.true_or, if_true]

section Barren

variable {m : Match} {r : RelationshipConstraint Value} {s : RunState}

theorem longer_barren {direction : Heading} {p : Path}
    (hnone : (s.store.incidentEdges q.ctx.reader p.finish.id direction r.types).filter
      (q.usable m r) = []) :
    q.longer m r direction p s = ([], { s with stats := (s.request 1).stats }) := by
  rw [longer_apply, hnone]
  rfl

/-- Where no edge can be used, a path is not extended. -/
theorem walks_barren {direction : Heading} {p : Path}
    (hnone : (s.store.incidentEdges q.ctx.reader p.finish.id direction r.types).filter
      (q.usable m r) = []) (left : Nat) :
    ∃ n, q.walks m r direction left p s = ([p], { s with stats := n }) := by
  cases left with
  | zero => exact ⟨s.stats, rfl⟩
  | succ left =>
    have hstep : q.walks m r direction (left + 1) p s =
        (do
          let further ← (q.longer m r direction p s).1.mapM (q.walks m r direction left)
          return p :: further.flatten : StateM RunState (List Path))
          (q.longer m r direction p s).2 := rfl
    rw [hstep, longer_barren hnone]
    exact ⟨_, rfl⟩

theorem walksWithin_barren {o : Origin} {range : HopRange} (hmin : 0 < range.min)
    (hnone : (s.store.incidentEdges q.ctx.reader o.vertex.id (o.direction r) r.types).filter
      (q.usable m r) = []) :
    ∃ n, q.walksWithin m r o range s = ([], { s with stats := n }) := by
  unfold walksWithin
  dsimp only
  split
  · exact ⟨s.stats, rfl⟩
  · have hsingle : (Path.single o.vertex).finish.id = o.vertex.id := rfl
    obtain ⟨n, hwalks⟩ := walks_barren (p := .single o.vertex) (hsingle ▸ hnone)
      (range.max.getD q.ctx.config.maxDepth)
    have hfit : ([Path.single o.vertex].filter fun p =>
        range.min ≤ p.length && o.goal.all p.endsAt) = [] := by
      have hlength : (Path.single o.vertex).length = 0 := rfl
      have hno : ¬ range.min ≤ 0 := by omega
      simp [hlength, hno]
    have hrun : ∀ (c : StateM RunState (List Path)) (f : List Path → List RelationshipBinding),
        (c >>= fun paths => pure (f paths) : StateM RunState _) s = (f (c s).1, (c s).2) :=
      fun _ _ => rfl
    rw [hrun, hwalks, hfit]
    exact ⟨n, rfl⟩

/-- Where no edge can be used, a relationship that needs one has no candidates. -/
theorem relationshipCandidates_barren {o : Origin} (ho : origin? m r = some o)
    (hneeds : ∀ range, r.range = some range → 0 < range.min)
    (hnone : ∀ direction, (s.store.incidentEdges q.ctx.reader o.vertex.id direction
      r.types).filter (r.admits q.ctx.config) = []) :
    ∃ n, q.relationshipCandidates m r s = ([], { s with stats := n }) := by
  have husable : (s.store.incidentEdges q.ctx.reader o.vertex.id (o.direction r)
      r.types).filter (q.usable m r) = [] := by
    have hboth : q.usable m r = fun e => !m.uses e.id && r.admits q.ctx.config e := rfl
    rw [hboth, ← List.filter_filter, hnone]
    rfl
  unfold relationshipCandidates
  rw [ho]
  dsimp only
  split
  · exact ⟨s.stats, rfl⟩
  · split
    · have hhops : q.hops m r o s = (((s.store.incidentEdges q.ctx.reader o.vertex.id
        (o.direction r) r.types).filter (q.usable m r)).filterMap _, s.request 1) := rfl
      rw [hhops, husable]
      exact ⟨(s.request 1).stats, rfl⟩
    · next range hrange => exact walksWithin_barren (hneeds range hrange) husable

end Barren

theorem origin_within (hm : m.Within Known) {r : RelationshipConstraint Value} {o : Origin}
    (ho : origin? m r = some o) : Known o.vertex.id := by
  unfold origin? at ho
  split at ho
  · cases ho
  · split at ho
    · next v w hv => cases ho; exact hm.vertex _ _ hv
    · next w hw => cases ho; exact hm.vertex _ _ hw
    · cases ho

section Seeded

variable (next : Match → Source Match) (m : Match) {n : NodeConstraint Value} (i : Nat)
  {s : RunState}

/-- A node for which there are no vertices is given up, or its cursor ends at once. -/
theorem seedNode_of_nil (h : q.seedIds n s.store = []) : ∃ k, q.seedNode next m n i s =
    q.proceed next (m.setNode i .null) [] { s with stats := k } := by
  unfold seedIds at h
  unfold seedNode
  split
  · exact ⟨s.stats, rfl⟩
  · next hhope =>
    rw [if_neg hhope] at h
    dsimp only
    rw [show (s.request 1).store = s.store from rfl]
    split
    · exact ⟨_, rfl⟩
    · next ids hids =>
      rw [hids] at h
      cases h
      refine ⟨((s.request 1).openCursor.closeCursors 1).stats, ?_⟩
      unfold seeds proceed
      simp only [Bool.not_false, Bool.true_and, List.isEmpty_nil]
      split <;> rfl

theorem seedNode_of_ne (h : q.seedIds n s.store ≠ []) : ∃ k, q.seedNode next m n i s =
    q.seeds next m n i false (q.seedIds n s.store) { s with stats := k } := by
  unfold seedIds at h ⊢
  unfold seedNode
  split
  · next hhope => exact absurd (if_pos hhope) h
  · next hhope =>
    rw [if_neg hhope] at h
    dsimp only
    rw [show (s.request 1).store = s.store from rfl]
    split
    · next hnone =>
      rw [hnone] at h
      exact absurd rfl h
    · next ids hids =>
      rw [hids]
      exact ⟨(s.request 1).openCursor.stats, rfl⟩

end Seeded

namespace Sees

variable (h : q.Sees R Known Started)

include h

theorem longer {r : RelationshipConstraint Value} (hr : r ∈ q.pattern.relationships)
    (m : Match) (direction : Heading) {p : Path} (hstart : Known p.start.id)
    (hfinish : Known p.finish.id) :
    BlindTo R (∀ p' ∈ ·, Known p'.start.id ∧ Known p'.finish.id) (q.longer m r direction p) := by
  intro s t hst
  obtain ⟨heq, hknown⟩ := h.usableEdges hst hfinish m hr direction
  rw [longer_apply, longer_apply, ← heq]
  refine BlindTo.filterMapM (fun e he => ?_) _ _ (h.uncounted _ _ hst _ _)
  unfold hop
  simp only
  split
  · exact .pure nofun
  · refine .bind (h.fetchVertex (hknown e he)) fun o ho => .pure fun p' hp' => ?_
    obtain ⟨v, hv, rfl⟩ := Option.map_eq_some_iff.1 hp'
    refine ⟨hstart, ?_⟩
    rw [Path.finish_extend]
    exact ho v hv

theorem walks {r : RelationshipConstraint Value} (hr : r ∈ q.pattern.relationships) (m : Match)
    (direction : Heading) (left : Nat) {p : Path} (hstart : Known p.start.id)
    (hfinish : Known p.finish.id) :
    BlindTo R (∀ p' ∈ ·, Known p'.start.id ∧ Known p'.finish.id)
      (q.walks m r direction left p) := by
  induction left generalizing p with
  | zero =>
    refine .pure fun p' hp' => ?_
    rw [List.mem_singleton.1 hp']
    exact ⟨hstart, hfinish⟩
  | succ left ih =>
    unfold Search.walks
    refine .bind (h.longer hr m direction hstart hfinish) fun next hnext => ?_
    refine .bind (.mapM fun p' hp' => ih (hnext p' hp').1 (hnext p' hp').2) fun parts hparts => ?_
    refine .pure (List.forall_mem_cons.2 ⟨⟨hstart, hfinish⟩, fun p' hp' => ?_⟩)
    obtain ⟨part, hpart, hp'⟩ := List.mem_flatten.1 hp'
    exact hparts part hpart p' hp'

theorem walksWithin {r : RelationshipConstraint Value} (hr : r ∈ q.pattern.relationships)
    (m : Match) {o : Origin} (ho : Known o.vertex.id) (range : HopRange) :
    BlindTo R (∀ b ∈ ·, ∀ first second, b.ends = some (first, second) →
      Known first ∧ Known second) (q.walksWithin m r o range) := by
  unfold Search.walksWithin
  simp only
  split
  · exact .pure nofun
  · refine .bind (h.walks hr m (o.direction r) _ ho ho) fun paths hpaths => .pure ?_
    intro b hb first second hends
    obtain ⟨p, hp, rfl⟩ := List.mem_map.1 hb
    obtain ⟨hstart, hfinish⟩ := hpaths p (List.mem_filter.1 hp).1
    cases hends
    split
    · exact ⟨hstart, hfinish⟩
    · rw [Path.start_reverse, Path.finish_reverse]
      exact ⟨hfinish, hstart⟩

theorem relationshipCandidates (hm : m.Within Known) {r : RelationshipConstraint Value}
    (hr : r ∈ q.pattern.relationships) :
    BlindTo R (∀ b ∈ ·, ∀ first second, b.ends = some (first, second) →
      Known first ∧ Known second) (q.relationshipCandidates m r) := by
  intro s t hst
  cases ho : origin? m r with
  | none =>
    unfold Search.relationshipCandidates
    rw [ho]
    exact ⟨rfl, nofun, hst⟩
  | some o =>
    have hknown : Known o.vertex.id := origin_within hm ho
    rcases h.givenUp r hr s t hst with hgiven | ⟨hneeds, hnone⟩
    · unfold Search.relationshipCandidates
      simp only [ho, hgiven]
      split
      · exact ⟨rfl, nofun, hst⟩
      · cases r.range with
        | none => exact h.hops hr m hknown s t hst
        | some range => exact h.walksWithin hr m hknown range s t hst
    · -- in neither store is there an edge that the relationship could be assigned
      have hnone' : ∀ direction, (t.store.incidentEdges q.ctx.reader o.vertex.id direction
          r.types).filter (r.admits q.ctx.config) = [] := fun direction => by
        rw [← (h.edges s t hst o.vertex.id hknown r hr direction).1]
        exact hnone o.vertex.id hknown direction
      obtain ⟨k, hs⟩ := relationshipCandidates_barren ho hneeds (hnone o.vertex.id hknown)
      obtain ⟨l, ht⟩ := relationshipCandidates_barren ho hneeds hnone'
      rw [hs, ht]
      exact ⟨rfl, nofun, h.uncounted _ _ hst k l⟩

/-! ## The search itself -/

section Next

variable {next : Match → Source Match}
  (hnext : ∀ m, m.Within Known → Started m → Flow.Twins R (next m) (next m))

include hnext

theorem proceed {unmatched : Match} (hun : unmatched.Within Known) (hstarted : Started unmatched)
    {ms : List Match} (hms : ∀ m ∈ ms, m.Within Known ∧ Started m) :
    Flow.Twins R (q.proceed next unmatched ms) (q.proceed next unmatched ms) := by
  unfold Search.proceed
  split
  · exact hnext _ hun hstarted
  · exact Flow.twins_inTurn h.uncounted fun m hm => hnext m (hms m hm).1 (hms m hm).2

theorem seeds (hm : m.Within Known) {i : Nat} (hset : ∀ b, Started (m.setNode i b))
    (n : NodeConstraint Value) (matched : Bool) {ids : List String} (hids : ∀ id ∈ ids, Known id) :
    Flow.Twins R (q.seeds next m n i matched ids) (q.seeds next m n i matched ids) := by
  induction ids generalizing matched with
  | nil =>
    intro s t hst
    have hst' := h.uncounted _ _ hst (s.closeCursors 1).stats (t.closeCursors 1).stats
    unfold Search.seeds
    simp only
    split
    · exact hnext _ (hm.setNode_null i) (hset _) _ _ hst'
    · exact .done hst'
  | cons id rest ih =>
    intro s t hst
    obtain ⟨hid, hrest⟩ := List.forall_mem_cons.1 hids
    obtain ⟨heq, hknown⟩ := h.vertex s t hst id hid
    unfold Search.seeds
    rw [← heq]
    cases hv : (s.store.getVertex? q.ctx.reader id).filter (n.admits q.ctx.config) with
    | none => exact ih matched hrest s t hst
    | some v =>
      have hv := hknown v (Option.filter_eq_some_iff.1 hv).1
      refine (hnext _ (hm.setNode i fun w hw => ?_) (hset _) s t hst).before h.uncounted
        (ih true hrest)
      cases hw
      exact hv

theorem seedNode (hm : m.Within Known) {n : NodeConstraint Value} {i : Nat}
    (hset : ∀ b, Started (m.setNode i b)) {s t : RunState} (hst : R s t)
    (hseed : q.SeededAlike Known n s.store t.store) :
    Flow.Alike R (q.seedNode next m n i s) (q.seedNode next m n i t) := by
  obtain ⟨hids, hknown⟩ := hseed
  have hst' := h.uncounted _ _ hst
  by_cases hnil : q.seedIds n s.store = []
  · obtain ⟨k, hs⟩ := seedNode_of_nil next m i hnil
    obtain ⟨l, ht⟩ := seedNode_of_nil next m i (hids ▸ hnil)
    rw [hs, ht]
    exact h.proceed hnext (hm.setNode_null i) (hset _) (fun _ hmem => by cases hmem) _ _ (hst' k l)
  · obtain ⟨k, hs⟩ := seedNode_of_ne next m i hnil
    obtain ⟨l, ht⟩ := seedNode_of_ne next m i (hids ▸ hnil)
    rw [hs, ht, ← hids]
    exact h.seeds hnext hm hset n false hknown _ _ (hst' k l)

theorem expand (hm : m.Within Known) (hstarted : Started m) {c : ConstraintId}
    (hchosen : ∃ s, (q.choose m s).1 = some c) :
    Flow.Twins R (q.expand next m c) (q.expand next m c) := by
  intro s t hst
  unfold Search.expand
  cases c with
  | node i =>
    dsimp only
    cases hn : q.pattern.nodes[i]? with
    | none => exact .done hst
    | some n =>
      by_cases hfree : ∀ r ∈ n.incident, m.relationship? r = none
      · have hany : (n.incident.any fun r => (m.relationship? r).isSome) = false := by
          rw [List.any_eq_false]
          intro r hr
          rw [hfree r hr]
          exact Bool.false_ne_true
        simp only [hany, Bool.false_eq_true, if_false]
        exact h.seedNode hnext hm (fun b => h.setNode m i b hstarted) hst
          (h.seed m i n hstarted hm hchosen hn hfree s t hst)
      · have hany : (n.incident.any fun r => (m.relationship? r).isSome) = true := by
          rw [List.any_eq_true]
          simpa [Option.isSome_iff_ne_none] using hfree
        simp only [hany, if_true]
        obtain ⟨heq, hknown, hst'⟩ := h.nodeCandidates hm n i s t hst
        cases hs : q.nodeCandidates m n i s with
        | mk vs s' =>
          cases ht : q.nodeCandidates m n i t with
          | mk vs' t' =>
            rw [hs, ht] at heq hst'
            rw [hs] at hknown
            cases heq
            refine h.proceed hnext (hm.setNode_null i) (h.setNode m i _ hstarted)
              (fun m' hm' => ?_) _ _ hst'
            obtain ⟨v, hv, rfl⟩ := List.mem_map.1 hm'
            refine ⟨hm.setNode i fun w hw => ?_, h.setNode m i _ hstarted⟩
            cases hw
            exact hknown v hv
  | relationship i =>
    dsimp only
    cases hr : q.pattern.relationships[i]? with
    | none => exact .done hst
    | some r =>
      obtain ⟨heq, hknown, hst'⟩ :=
        h.relationshipCandidates hm (List.mem_of_getElem? hr) s t hst
      dsimp only
      cases hs : q.relationshipCandidates m r s with
      | mk bs s' =>
        cases ht : q.relationshipCandidates m r t with
        | mk bs' t' =>
          rw [hs, ht] at heq hst'
          rw [hs] at hknown
          cases heq
          refine h.proceed hnext (hm.setRelationship_null i) (h.setRelationship m i _ hstarted)
            (fun m' hm' => ?_) _ _ hst'
          obtain ⟨b, hb, rfl⟩ := List.mem_map.1 hm'
          exact ⟨hm.setRelationship i (hknown b hb), h.setRelationship m i _ hstarted⟩

end Next

theorem complete (left : Nat) (hm : m.Within Known) (hstarted : Started m) :
    Flow.Twins R (q.complete left m) (q.complete left m) := by
  induction left generalizing m with
  | zero => exact Flow.twins_single m
  | succ left ih =>
    intro s t hst
    obtain ⟨heq, -, hst'⟩ := h.choose m s t hst
    unfold Search.complete
    cases hs : q.choose m s with
    | mk c s' =>
      cases ht : q.choose m t with
      | mk c' t' =>
        rw [hs, ht] at heq hst'
        cases heq
        cases c with
        | none => exact .done hst'
        | some c =>
          exact h.expand (fun m hm hstarted => ih hm hstarted) hm hstarted
            ⟨s, congrArg Prod.fst hs⟩ _ _ hst'

/-- The search gives the same matches in both stores. -/
theorem twins_flow {row : Row}
    (hstart : ∀ ms, q.start row = .ok ms → ∀ m ∈ ms, m.Within Known ∧ Started m) :
    Flow.Twins R (q.flow row) (q.flow row) := by
  intro s t hst
  unfold Search.flow
  split
  · exact .fail hst
  · next ms hms =>
    exact Flow.twins_inTurn h.uncounted (fun m hm =>
      h.complete _ (hstart ms hms m hm).1 (hstart ms hms m hm).2) s t hst

end Sees

end Search

end PropertyGraph
