import PropertyGraph.Proofs.Pattern.Bindings
import PropertyGraph.Proofs.Pattern.Candidates
import PropertyGraph.Proofs.Pattern.Choice
import PropertyGraph.Proofs.Pattern.Declared
import PropertyGraph.Proofs.Pattern.Exact
import PropertyGraph.Proofs.Pattern.Start
import PropertyGraph.Proofs.Run.Unwritten

/-!
# Named paths

A search assigns only what is joined: from the names of the row on, for edges and for walks from
either end, whatever vertices the row binds and whatever becomes of the graph between two matches.
So every match binds the names of its paths to walks of the graph.

    joined_flow           every match of a search is joined, and nothing in it is open
    Traces                a path is the one that a match makes of a named walk
    flow_named_paths      every match of a search binds every path name to such a path
-/

namespace PropertyGraph

/-- The graph of the state is consistent. -/
def RunState.Sound (s : RunState) : Prop :=
  s.store.Consistent

instance : OfWrites RunState.Sound where
  unwritten h hs := show Store.Consistent _ by rw [h.store]; exact hs

namespace Search

variable {q : Search} {σ : Store} {m : Match}

/-! ## Candidates -/

/-- A vertex for a node between assigned relationships has the id that they all demand. -/
theorem reads_demanded (hσ : σ.Consistent) (n : NodeConstraint Value) (i : Nat) :
    Reads σ (q.nodeCandidates m n i) fun vs => ∀ v ∈ vs, ∀ id ∈ q.demandedIds m n i, id = v.id := by
  unfold nodeCandidates
  split
  · exact Reads.pure nofun
  · next id rest hids =>
    split
    · next hrest =>
      refine (reads_fetchVertex q σ id).bind fun found hget => ?_
      subst hget
      split
      · next v hv =>
        refine Reads.pure fun w hw other hother => ?_
        have hwv : w = v := by
          split at hw
          · exact List.mem_singleton.1 hw
          · cases hw
        rw [hwv, Store.getVertex?_id hσ hv]
        rw [hids] at hother
        rcases List.mem_cons.1 hother with rfl | hother
        · rfl
        · exact eq_of_beq (List.all_eq_true.1 hrest other hother)
      · exact Reads.pure nofun
    · exact Reads.pure nofun

theorem Joined.setDemanded (h : q.Joined m) (hw : q.pattern.WellFormed) {i : Nat}
    {n : NodeConstraint Value} (hn : q.pattern.nodes[i]? = some n) {v : Vertex}
    (hid : ∀ id ∈ q.demandedIds m n i, id = v.id) : q.Joined (m.setNode i (.vertex v)) := by
  have hi : i < m.nodes.length := by
    rw [h.nodeCount]
    exact (List.getElem?_eq_some_iff.1 hn).1
  refine h.setNode hi fun w hvw k r c first second hr hc hends => ?_
  cases hvw
  have hloop := (h.relationship k r c first second hr hc hends).2.1
  exact ends_of_demanded hw hn hid hr hc hends hloop

/-- A node without assigned relationships may be any vertex. -/
theorem Joined.setFree (h : q.Joined m) (hw : q.pattern.WellFormed) {i : Nat}
    {n : NodeConstraint Value} (hn : q.pattern.nodes[i]? = some n)
    (hfree : ∀ k ∈ n.incident, m.relationship? k = none) (b : NodeBinding) :
    q.Joined (m.setNode i b) := by
  have hi : i < m.nodes.length := by
    rw [h.nodeCount]
    exact (List.getElem?_eq_some_iff.1 hn).1
  have hnone : ∀ (k : Nat) r c, q.pattern.relationships[k]? = some r → m.relationship? k = some c →
      ¬ (r.first = i ∨ r.second = i) := by
    intro k r c hr hc hend
    rw [hfree k ((hw.incident i n hn k).2 ⟨r, hr, hend⟩)] at hc
    cases hc
  exact h.setNode hi fun v _ k r c first second hr hc _ =>
    ⟨fun hfirst => absurd (Or.inl hfirst) (hnone k r c hr hc),
      fun hsecond => absurd (Or.inr hsecond) (hnone k r c hr hc)⟩

/-- A path that is followed from the origin lies along its relationship, if need be reversed. -/
theorem Origin.lies_walk (o : Origin) {r : RelationshipConstraint Value} {range : HopRange}
    (hrange : r.range = some range) {p : Path} (hstart : p.start = o.vertex)
    (halong : p.Along (o.direction r)) (hsimple : p.Simple) {maxDepth : Nat}
    (hmin : range.min ≤ p.length) (hmax : p.length ≤ range.max.getD maxDepth) :
    r.Lies maxDepth (.walk (o.along p)) (o.ends p.finish.id).1 (o.ends p.finish.id).2 := by
  obtain ⟨hfirst, hsecond⟩ := o.ends_along hstart
  rw [← hfirst, ← hsecond]
  rw [← o.length_along] at hmin hmax
  refine .walk hrange hmin hmax ?_ ?_
  · unfold Origin.direction at halong
    unfold Origin.along
    split at halong
    · next h => rwa [if_pos h]
    · next h =>
      rw [if_neg h, ← Heading.reverse_reverse r.heading, Path.along_reverse]
      exact halong
  · unfold Origin.along
    split
    · exact hsimple
    · exact (Path.simple_reverse p).2 hsimple

theorem joined_hops (h : q.Joined m) (hσ : σ.Consistent) {i : Nat} {r : RelationshipConstraint Value}
    (hr : q.pattern.relationships[i]? = some r) (hrange : r.range = none) {o : Origin}
    (ho : origin? m r = some o) :
    Reads σ (q.hops m r o) fun bs => ∀ b ∈ bs, q.Joined (m.setRelationship i b) := by
  refine (reads_hops hσ o).mono fun bs ⟨_, hmem⟩ b hb => ?_
  obtain ⟨e, other, rfl, -, huse, hj, hgoal⟩ := (hmem b).1 hb
  rw [o.edge_eq]
  refine h.setRelationship hr (fun first second heq => ?_) fun id hid => ?_
  · obtain ⟨rfl, rfl⟩ := Prod.ext_iff.1 (Option.some.inj heq)
    exact ⟨.edge hrange (o.joins_ends hj), Origin.ends_agree ho hgoal⟩
  · rw [← eq_of_beq (show (e.id == id) = true from hid)]
    exact (usable_iff.1 huse).1

theorem joined_walks (h : q.Joined m) (hσ : σ.Consistent) {i : Nat}
    {r : RelationshipConstraint Value} (hr : q.pattern.relationships[i]? = some r)
    {range : HopRange} (hrange : r.range = some range) {o : Origin} (ho : origin? m r = some o) :
    Reads σ (q.walksWithin m r o range) fun bs => ∀ b ∈ bs, q.Joined (m.setRelationship i b) := by
  refine (reads_walksWithin hσ o range).mono fun bs ⟨_, hmem⟩ b hb => ?_
  obtain ⟨p, rfl, hp, hstart, hmin, hmax, hgoal⟩ := (hmem b).1 hb
  have hends : (RelationshipBinding.walk (o.along p)).ends = some (o.ends p.finish.id) := by
    obtain ⟨hfirst, hsecond⟩ := o.ends_along hstart
    rw [RelationshipBinding.ends, hfirst, hsecond]
  refine h.setRelationship hr (fun first second heq => ?_) fun id hid => ?_
  · obtain ⟨rfl, rfl⟩ := Prod.ext_iff.1 (Option.some.inj (hends.symm.trans heq))
    exact ⟨o.lies_walk hrange hstart hp.along hp.simple hmin hmax, Origin.ends_agree ho hgoal⟩
  · have hmem : ∃ e ∈ p.edges, e.id = id := by
      obtain ⟨e, he, heid⟩ := List.any_eq_true.1 hid
      refine ⟨e, ?_, eq_of_beq heid⟩
      split at he
      · exact he
      · rw [Path.edges_reverse, List.mem_reverse] at he
        exact he
    obtain ⟨e, he, rfl⟩ := hmem
    exact (usable_iff.1 (hp.edges e he).2).1

theorem joined_relationshipCandidates (h : q.Joined m) {i : Nat} {r : RelationshipConstraint Value}
    (hr : q.pattern.relationships[i]? = some r) {s : RunState} (hs : s.Sound) :
    ∀ b ∈ (q.relationshipCandidates m r s).1, q.Joined (m.setRelationship i b) := by
  unfold relationshipCandidates
  split
  · exact nofun
  · next o ho =>
    split
    · exact nofun
    · split
      · next hrange => exact (joined_hops h hs hr hrange ho s rfl).1
      · next range hrange => exact (joined_walks h hs hr hrange ho s rfl).1

/-! ## The search -/

/-- The constraint that is assigned next is an open one. -/
theorem joined_expand (h : q.Joined m) (hw : q.pattern.WellFormed) {left : Nat}
    (hleft : m.openCount = left + 1) {P : Match → Prop} {next : Match → Source Match}
    (hnext : ∀ m', q.Joined m' → m'.openCount = left → Flow.KeepsFrom RunState.Sound P (next m'))
    {t : ConstraintId} (ht : q.Ready m t) : Flow.KeepsFrom RunState.Sound P (q.expand next m t) := by
  intro s hs
  unfold expand
  cases t with
  | node i =>
    obtain ⟨n, hn, ho⟩ := ht
    have hi : i < m.nodes.length := by
      rw [h.nodeCount]
      exact (List.getElem?_eq_some_iff.1 hn).1
    have hset : ∀ b, q.Joined (m.setNode i b) → Flow.KeepsFrom RunState.Sound P
        (next (m.setNode i b)) := fun b hb =>
      hnext _ hb (Nat.succ.inj ((Match.openCount_setNode hi ho b).trans hleft))
    simp only [hn]
    split
    · refine keeps_proceed (hset _ (h.setNode (b := .null) hi nofun)) (fun m' hm' => ?_) _
        ((idle_nodeCandidates n i).after hs)
      obtain ⟨v, hv, rfl⟩ := List.mem_map.1 hm'
      exact hset _ (h.setDemanded hw hn ((reads_demanded hs n i s rfl).1 v hv))
    · next hinc =>
      rw [Bool.not_eq_true, List.any_eq_false] at hinc
      have hfree : ∀ k ∈ n.incident, m.relationship? k = none := fun k hk =>
        Option.not_isSome_iff_eq_none.1 (hinc k hk)
      exact keeps_seedNode (fun b => hset b (h.setFree hw hn hfree b)) n s hs
  | relationship i =>
    obtain ⟨r, hr, ho, -⟩ := ht
    have hi : i < m.relationships.length := by
      rw [h.relationshipCount]
      exact (List.getElem?_eq_some_iff.1 hr).1
    have hset : ∀ b, q.Joined (m.setRelationship i b) → Flow.KeepsFrom RunState.Sound P
        (next (m.setRelationship i b)) := fun b hb =>
      hnext _ hb (Nat.succ.inj ((Match.openCount_setRelationship hi ho b).trans hleft))
    simp only [hr]
    refine keeps_proceed (hset _ (h.setRelationship (b := .null) hr nofun nofun)) (fun m' hm' => ?_) _
      ((idle_relationshipCandidates r).after hs)
    obtain ⟨b, hb, rfl⟩ := List.mem_map.1 hm'
    exact hset _ (joined_relationshipCandidates h hr hs b hb)

theorem joined_complete (hw : q.pattern.WellFormed) {left : Nat} (h : q.Joined m)
    (hleft : m.openCount = left) :
    Flow.KeepsFrom RunState.Sound (fun m' => q.Joined m' ∧ m'.openCount = 0)
      (q.complete left m) := by
  induction left generalizing m with
  | zero => exact Flow.keeps_single ⟨h, hleft⟩
  | succ left ih =>
    intro s hs
    have hchosen : (q.choose m s).2.Sound := (idle_choose q m).after hs
    have hready := (reads_choose hw h.nodeCount h.relationshipCount s rfl).1.1
    unfold complete
    split
    · next s' heq =>
      rw [heq] at hchosen
      exact hchosen
    · next t s' heq =>
      rw [heq] at hchosen hready
      exact joined_expand h hw hleft (fun m' hm' hleft' => ih hm' hleft') (hready t rfl) s' hchosen

/-- Every match that a search gives is joined, and everything in it is assigned. -/
theorem joined_flow (hw : q.pattern.WellFormed) (row : Row) :
    Flow.KeepsFrom RunState.Sound (fun m => q.Joined m ∧ m.openCount = 0) (q.flow row) := by
  intro s hs
  unfold flow
  split
  · trivial
  · next ms hms =>
    refine Flow.keeps_inTurn (fun m hm => ?_) s hs
    obtain ⟨-, hpartial, -⟩ := start_spec (σ := s.store) hms
    exact joined_complete hw (hpartial m hm).joined rfl

/-! ## Named paths -/

/-- The path is the one that a match makes of a named walk: it starts at the vertex of the first
node and follows the steps, each edge joins the vertices beside it, and none comes twice. -/
structure Traces (q : Search) (m : Match) (p : PathConstraint) (path : Path) : Prop where
  start : m.vertex? p.start = some path.start
  follows : q.Follows m path.start p.steps path.hops
  along : path.Along .undirected
  lengths : path.vertices.length = path.edges.length + 1
  once : (path.edges.map (·.id)).Nodup

theorem Whole.traces (h : q.Whole m) (hw : q.pattern.WellFormed) {p : PathConstraint}
    (hp : p ∈ q.pattern.paths) (hsteps : (p.steps.map Prod.fst).Nodup) :
    ∃ path, m.pathValue p = .path path ∧ q.Traces m p path := by
  obtain ⟨path, hvalue, hstart, hfollows⟩ := h.pathValue hw hp
  refine ⟨path, hvalue, hstart, hfollows, ?_, ?_, ?_⟩
  · rw [Path.ext (p := path) (q := ⟨path.start, path.hops⟩) rfl rfl]
    exact hfollows.along
  · simp [Path.vertices, Path.edges]
  · rw [Path.edges, List.map_map]
    exact hfollows.nodup h.toJoined hsteps

/-- The row of a match binds the name of a path to the value of a path of that name. -/
theorem lookup_path (q : Search) (row : Row) (m : Match) {x : String}
    (hx : x ∈ q.pattern.paths.map (·.name)) :
    ∃ p ∈ q.pattern.paths, p.name = x ∧ (q.rowOf row m).lookup? x = some (m.pathValue p) := by
  have hnames : x ∈ Bindings.names
      (q.pattern.paths.map fun p => (p.name, m.pathValue p)).reverse := by
    rw [Bindings.names, List.map_reverse, List.mem_reverse, List.map_map]
    exact hx
  obtain ⟨v, hv⟩ := Option.isSome_iff_exists.1 (Bindings.isSome_get?.2 hnames)
  obtain ⟨p, hp, heq⟩ := List.mem_map.1 (List.mem_reverse.1 (Bindings.mem_of_get? hv))
  cases heq
  refine ⟨p, hp, rfl, ?_⟩
  unfold rowOf
  rw [Row.lookup?_bound, Match.bindings_eq, List.reverse_append, Bindings.get?_append, hv]
  rfl

/-- In every match without nulls that a search for the parts gives, whatever becomes of the graph
between two matches, a named path has a walk of the graph for its value, and that is what the row of
the match binds its name to. -/
theorem flow_named_paths {parts : List PatternPart} {optional : Bool} {g : Constraints Expr}
    (hg : Constraints.ofParts parts optional = .ok g) (hs : q.pattern.shape = g.shape) (row : Row) :
    ∃ walks, g.LaidOut Eq parts walks ∧ q.pattern.paths = pathsFrom 0 parts walks ∧
      Flow.KeepsFrom RunState.Sound (fun m => m.hasNull = false →
        (∀ p ∈ q.pattern.paths, ∃ path, m.pathValue p = .path path ∧ q.Traces m p path) ∧
        ∀ part ∈ parts, ∀ x, part.pathName = some x → ∃ p ∈ q.pattern.paths, p.name = x ∧
          ∃ path, (q.rowOf row m).lookup? x = some (.path path) ∧ q.Traces m p path)
        (q.flow row) := by
  obtain ⟨walks, -, hlaid⟩ := Constraints.exists_walks hg
  have hw : q.pattern.WellFormed := hlaid.wellFormed.of_shape hs
  have hpaths : q.pattern.paths = pathsFrom 0 parts walks :=
    (congrArg (·.paths) hs).trans hlaid.paths
  refine ⟨walks, hlaid, hpaths, (joined_flow hw row).mono fun m ⟨hm, ho⟩ hn => ?_⟩
  have hpath : ∀ p ∈ q.pattern.paths, ∃ path, m.pathValue p = .path path ∧ q.Traces m p path :=
    fun p hp => (hm.whole ho hn).traces hw hp (nodup_steps (hpaths ▸ hp))
  refine ⟨hpath, fun part hpart x hx => ?_⟩
  have hnames : x ∈ q.pattern.paths.map (·.name) := by
    rw [hpaths, Constraints.names_pathsFrom hlaid.lengths.length_eq.symm]
    exact List.mem_filterMap.2 ⟨part, hpart, hx⟩
  obtain ⟨p, hp, hname, hlookup⟩ := q.lookup_path row m hnames
  obtain ⟨path, hvalue, htraces⟩ := hpath p hp
  exact ⟨p, hp, hname, path, hvalue ▸ hlookup, htraces⟩

/-! ## Two edges that meet -/

/-- A store with edges from `x` and from `z` to `y`. -/
def meeting : RunState :=
  { RunState.initial with
    store := [.addVertex "x" ["X"] [] "", .addVertex "y" [] [] "", .addVertex "z" [] [] "",
      .addEdge "e" "R" "x" "y" [] "", .addEdge "f" "R" "z" "y" [] ""].foldl Store.after .empty }

/-- The part `p = (a:X)-->(b)<-[*..2]-(c)`. -/
def meetingParts : List PatternPart :=
  [⟨some "p", ⟨some "a", ["X"], []⟩, [(⟨none, [], .outgoing, [], none⟩, ⟨some "b", [], []⟩),
    (⟨none, [], .incoming, [], some ⟨none, some 2⟩⟩, ⟨some "c", [], []⟩)]⟩]

/-- The search for its constraints. -/
def meetingSearch : Search :=
  .of plainContext
    ⟨false, [⟨0, some "a", ["X"], [], false, [0]⟩, ⟨1, some "b", [], [], false, [0, 1]⟩,
        ⟨2, some "c", [], [], false, [1]⟩],
      [⟨0, none, [], [], .outgoing, none, false, 0, 1⟩,
        ⟨1, none, [], [], .incoming, some ⟨1, some 2⟩, false, 1, 2⟩],
      [⟨"p", 0, [(0, 1), (1, 2)]⟩]⟩

/-- The only match takes first one edge and then, as a walk, the other. -/
theorem named_path_of_meeting : ∃ m s' path,
    Flow.toList (meetingSearch.flow .empty) meeting = (.ok [m], s') ∧ m.hasNull = false ∧
      (meetingSearch.rowOf .empty m).lookup? "p" = some (.path path) ∧
      meetingSearch.Traces m ⟨"p", 0, [(0, 1), (1, 2)]⟩ path ∧
      path.edges.map (·.id) = ["e", "f"] := by
  have hrun : ∃ m s' path, Flow.toList (meetingSearch.flow .empty) meeting = (.ok [m], s') ∧
      m.hasNull = false ∧ (meetingSearch.rowOf .empty m).lookup? "p" = some (.path path) ∧
      path.edges.map (·.id) = ["e", "f"] := ⟨_, _, _, rfl, rfl, rfl, rfl⟩
  obtain ⟨m, s', path, hrun, hn, hlookup, hedges⟩ := hrun
  obtain ⟨walks, -, -, hflow⟩ := flow_named_paths (q := meetingSearch)
    (show Constraints.ofParts meetingParts false = .ok _ from rfl) rfl .empty
  have hsound : meeting.Sound := Store.consistent_empty.foldl_after _
  obtain ⟨-, hall⟩ := Flow.keeps_toList hflow meeting hsound [m] s' hrun
  obtain ⟨-, hnames⟩ := hall m (List.mem_singleton.2 rfl) hn
  obtain ⟨p, hp, -, path', hlookup', htraces⟩ := hnames _ (List.mem_singleton.2 rfl) "p" rfl
  cases hlookup.symm.trans hlookup'
  cases List.mem_singleton.1 hp
  exact ⟨m, s', path, hrun, hn, hlookup, htraces, hedges⟩

end Search

end PropertyGraph
