import PropertyGraph.Proofs.Pattern.Found
import PropertyGraph.Proofs.Store.Reachable

/-!
# Exactness of the search

    yields_expand      one constraint is assigned, whichever it is
    yields_complete    all open constraints are assigned, by induction on their number
    yields_flow        the same from the names of a row on
    search_exact       the matches of a pattern are its solutions, each of them once

One kind of solution is lost.  A walk without edges meets every demand on its edges, but the search
gives up on the relationship beforehand if a demand is on a property that nothing has.  It then finds
no match at all.
-/

namespace PropertyGraph

namespace Search

variable {q : Search} {σ : Store} {row : Row} {m : Match} {next : Match → Source Match} {left : Nat}

/-! ## One constraint -/

/-- A vertex can be assigned to a node none of whose relationships is assigned. -/
theorem Partial.setSeed (h : q.Partial σ row m) (hw : q.pattern.WellFormed) {i : Nat}
    {n : NodeConstraint Value} (hn : q.pattern.nodes[i]? = some n)
    (hinc : ∀ k ∈ n.incident, m.relationship? k = none) {v : Vertex}
    (hfits : q.NodeFits σ row n v) : q.Partial σ row (m.setNode i (.vertex v)) := by
  refine h.setVertex hn hfits fun k r b first second hr hb _ => ?_
  have hend : ¬ (r.first = i ∨ r.second = i) := by
    intro hend
    rw [hinc k ((hw.incident i n hn k).2 ⟨r, hr, hend⟩)] at hb
    cases hb
  exact ⟨fun hfirst => absurd (Or.inl hfirst) hend, fun hsecond => absurd (Or.inr hsecond) hend⟩

/-- The vertex of a solution at an open node is one that the search can see. -/
theorem Partial.vertex_of_solution (h : q.Partial σ row m) {i : Nat} {n : NodeConstraint Value}
    (hn : q.pattern.nodes[i]? = some n) (ho : m.node? i = none) {m' : Match}
    (hs : q.Solution σ row m') : ∃ v, m'.vertex? i = some v ∧ n.admits q.ctx.config v = true ∧
      σ.getVertex? q.ctx.reader v.id = some v := by
  obtain ⟨v, hv, hfits⟩ := hs.node i n hn
  exact ⟨v, Match.vertex?_eq_some.2 hv, (h.nodeFits_iff hn ho v).1 hfits⟩

/-- From a cursor over the store. -/
theorem yields_seedNode (hσ : σ.Consistent) (hw : q.pattern.WellFormed)
    (hnext : q.FindsFrom σ row left next) (hm : q.Partial σ row m)
    (hleft : m.openCount = left + 1) {i : Nat} {n : NodeConstraint Value}
    (hn : q.pattern.nodes[i]? = some n) (ho : m.node? i = none)
    (hinc : ∀ k ∈ n.incident, m.relationship? k = none) {s : RunState} (hs : s.store = σ) :
    (q.seedNode next m n i s).Yields σ (q.Found σ row m) := by
  have hi : i < m.nodes.length := by
    rw [hm.nodeCount]
    exact (List.getElem?_eq_some_iff.1 hn).1
  have hcount : ∀ b, (m.setNode i b).openCount = left := by
    intro b
    have := Match.openCount_setNode hi ho b
    omega
  have hun : q.pattern.optional = true → q.Partial σ row (m.setNode i .null) := fun hopt =>
    hm.setNullNode hopt hi
  unfold seedNode
  rw [hs]
  split
  · next hhopeless =>
    refine yields_proceed hnext (show q.Branches σ row m [] from ?_) nofun
      (fun hopt => ⟨hun hopt, hcount _, Match.extends_setNode hi ho _⟩) hs
    refine ⟨List.nodup_nil, nofun, nofun, nofun, fun _ m' hsol _ _ => ?_⟩
    obtain ⟨v, -, hmeets, hget⟩ := hm.vertex_of_solution hn ho hsol
    rw [vertex_of_hopeless hσ hhopeless hget] at hmeets
    cases hmeets
  · next hhopeless =>
    rw [Bool.not_eq_true] at hhopeless
    obtain ⟨ids, hids, hnodup, hseeds⟩ := exists_seed hσ q.ctx.reader hhopeless
    have hstore : (s.request 1).store = σ := hs
    simp only [hstore, hids]
    generalize hvs : (ids.filterMap fun id =>
      (σ.getVertex? q.ctx.reader id).filter (n.admits q.ctx.config)) = vs
    have hmem : ∀ v, v ∈ vs ↔ v.id ∈ ids ∧ σ.getVertex? q.ctx.reader v.id = some v ∧
        n.admits q.ctx.config v = true := by
      intro v
      rw [← hvs, List.mem_filterMap]
      constructor
      · rintro ⟨id, hid, hv⟩
        obtain ⟨hv, hmeets⟩ := Option.filter_eq_some_iff.1 hv
        have hvid := Store.getVertex?_id hσ hv
        rw [hvid]
        exact ⟨hid, hv, hmeets⟩
      · rintro ⟨hid, hv, hmeets⟩
        exact ⟨v.id, hid, Option.filter_eq_some_iff.2 ⟨hv, hmeets⟩⟩
    have hfits : ∀ v ∈ vs, q.Partial σ row (m.setNode i (.vertex v)) := by
      intro v hv
      obtain ⟨-, hget, hmeets⟩ := (hmem v).1 hv
      exact hm.setSeed hw hn hinc ((hm.nodeFits_iff hn ho v).2 ⟨hmeets, hget⟩)
    have hbranches : q.Branches σ row m (vs.map fun v => m.setNode i (.vertex v)) := by
      refine branches_nodes hi ho ?_ hfits fun m' hsol ha _ => ?_
      · rw [← hvs]
        refine List.Nodup.filterMap (fun id id' v hv hv' => ?_) hnodup
        rw [← Store.getVertex?_id hσ (Option.filter_eq_some_iff.1 hv).1,
          ← Store.getVertex?_id hσ (Option.filter_eq_some_iff.1 hv').1]
      · obtain ⟨v, hv, hmeets, hget⟩ := hm.vertex_of_solution hn ho hsol
        have hagree := ha i n v hn (hm.openNode i n hn ho) hv
        have hseed := (hseeds v.id).2 ⟨v, hget, (admitsVertex_iff_agrees hmeets).2 hagree⟩
        exact ⟨v, (hmem v).2 ⟨hseed, hget, hmeets⟩, hv⟩
    refine (yields_seeds hnext hun hcount hvs.symm hfits false (s := (s.request 1).openCursor) hs).mono
      fun items hitems => ?_
    split at hitems
    · next hnone =>
      simp only [Bool.not_false, Bool.true_and, Bool.and_eq_true, List.isEmpty_iff] at hnone
      obtain ⟨rfl, hopt⟩ := hnone
      exact hbranches.found_unmatched (Match.extends_setNode hi ho _) hitems
    · obtain ⟨parts, hparts, rfl⟩ := hitems
      exact hbranches.found hparts

theorem yields_expand (hσ : σ.Consistent) (hw : q.pattern.WellFormed)
    (hends : q.WalkEndsStored σ row) (hnext : q.FindsFrom σ row left next)
    (hm : q.Partial σ row m) (hleft : m.openCount = left + 1) {t : ConstraintId}
    (ht : q.Ready m t) {s : RunState} (hs : s.store = σ) :
    (q.expand next m t s).Yields σ (q.Found σ row m) := by
  unfold expand
  cases t with
  | node i =>
    obtain ⟨n, hn, ho⟩ := ht
    have hi : i < m.nodes.length := by
      rw [hm.nodeCount]
      exact (List.getElem?_eq_some_iff.1 hn).1
    simp only [hn]
    split
    · next hinc =>
      obtain ⟨k, hk, hsome⟩ := List.any_eq_true.1 hinc
      obtain ⟨⟨hnodup, hfits, hcovers⟩, hs'⟩ :=
        reads_nodeCandidates hσ hw hm hn ho ⟨k, hk, hsome⟩ s hs
      refine yields_proceed hnext (branches_nodes hi ho hnodup hfits fun m' hsol _ hext => ?_)
        (fun m₁ h₁ => ?_) (fun hopt => ⟨hm.setNullNode hopt hi, ?_, Match.extends_setNode hi ho _⟩)
        hs'
      · obtain ⟨v, hv, -⟩ := hm.vertex_of_solution hn ho hsol
        exact ⟨v, hcovers m' v hsol hext hv, hv⟩
      · obtain ⟨v, -, rfl⟩ := List.mem_map.1 h₁
        have := Match.openCount_setNode hi ho (.vertex v)
        omega
      · have := Match.openCount_setNode hi ho .null
        omega
    · next hinc =>
      refine yields_seedNode hσ hw hnext hm hleft hn ho (fun k hk => ?_) hs
      rw [← Option.not_isSome_iff_eq_none]
      exact fun hsome => hinc (List.any_eq_true.2 ⟨k, hk, hsome⟩)
  | relationship i =>
    obtain ⟨r, hr, ho, hassigned⟩ := ht
    have hi : i < m.relationships.length := by
      rw [hm.relationshipCount]
      exact (List.getElem?_eq_some_iff.1 hr).1
    obtain ⟨⟨hnodup, hfits, hcovers⟩, hs'⟩ :=
      reads_relationshipCandidates hσ hw hends hm hr ho hassigned s hs
    simp only [hr]
    refine yields_proceed hnext
      (branches_relationships hi ho hnodup hfits fun hpass m' hsol hext => ?_)
      (fun m₁ h₁ => ?_)
      (fun hopt => ⟨hm.setNullRelationship hopt hi, ?_, Match.extends_setRelationship hi ho _⟩) hs'
    · obtain ⟨b, v, w, hb, -⟩ := hsol.relationship i r hr
      exact ⟨b, hcovers hpass m' b hsol hext hb, hb⟩
    · obtain ⟨b, -, rfl⟩ := List.mem_map.1 h₁
      have := Match.openCount_setRelationship hi ho b
      omega
    · have := Match.openCount_setRelationship hi ho .null
      omega

/-! ## All constraints -/

/-- A match that leaves nothing open is all that there is to be found. -/
theorem Partial.found_self (hm : q.Partial σ row m) (hw : q.pattern.WellFormed)
    (ho : m.openCount = 0) : q.Found σ row m [m] := by
  obtain ⟨hnodes, hrels⟩ := Match.assigned_of_openCount ho
  refine ⟨fun m' hm' => ?_, fun m' hm' hn => ?_, fun hopt m' hm' => ?_, ?_,
    fun _ m' hs _ hext => ?_⟩
  · rw [List.mem_singleton.1 hm']
    exact Match.Extends.refl m
  · rw [List.mem_singleton.1 hm'] at hn ⊢
    exact ⟨hm.solution hw ho hn, hm.all_passable ho hn⟩
  · rw [List.mem_singleton.1 hm']
    exact hm.nulls hopt
  · exact (List.nodup_singleton m).filter _
  · rw [List.mem_singleton]
    refine Match.eq_of_assignments (hs.nodeCount.trans hm.nodeCount.symm)
      (hs.relationshipCount.trans hm.relationshipCount.symm) (fun i => ?_) (fun i => ?_)
    · rcases Nat.lt_or_ge i m.nodes.length with hlt | hge
      · obtain ⟨b, hb⟩ := hnodes i hlt
        rw [hb, hext.1 i b hb]
      · have hge' : m'.nodes.length ≤ i := by rw [hs.nodeCount, ← hm.nodeCount]; exact hge
        rw [Match.node?, Match.node?, List.getElem?_eq_none hge, List.getElem?_eq_none hge']
    · rcases Nat.lt_or_ge i m.relationships.length with hlt | hge
      · obtain ⟨b, hb⟩ := hrels i hlt
        rw [hb, hext.2 i b hb]
      · have hge' : m'.relationships.length ≤ i := by
          rw [hs.relationshipCount, ← hm.relationshipCount]
          exact hge
        rw [Match.relationship?, Match.relationship?, List.getElem?_eq_none hge,
          List.getElem?_eq_none hge']

/-- The search finds from a partial match what is to be found from it, in whatever order it assigns
the constraints. -/
theorem yields_complete (hσ : σ.Consistent) (hw : q.pattern.WellFormed)
    (hends : q.WalkEndsStored σ row) (left : Nat) :
    q.FindsFrom σ row left (q.complete left) := by
  induction left with
  | zero =>
    intro m hm ho s hs
    exact Flow.yields_single hs (hm.found_self hw ho)
  | succ left ih =>
    intro m hm ho s hs
    obtain ⟨⟨hready, hnone⟩, hs'⟩ :=
      reads_choose hw hm.nodeCount hm.relationshipCount s hs
    unfold complete
    split
    · next s' hchoose =>
      rw [hchoose] at hnone
      rw [hnone rfl] at ho
      cases ho
    · next t s' hchoose =>
      rw [hchoose] at hready hs'
      exact yields_expand hσ hw hends ih hm ho (hready t rfl) hs'

theorem blank_extends (q : Search) (m : Match) : (Match.blank q.pattern).Extends m := by
  have h := opening_blank q .empty
  constructor
  · intro i b hb
    rw [h.laterNode i (Nat.zero_le i)] at hb
    cases hb
  · intro i b hb
    rw [h.laterRelationship i (Nat.zero_le i)] at hb
    cases hb

/-- The search finds from the names of a row what is to be found. -/
theorem yields_flow (hσ : σ.Consistent) (hw : q.pattern.WellFormed)
    (hends : q.WalkEndsStored σ row) {ms : List Match} (hstart : q.start row = .ok ms)
    {s : RunState} (hs : s.store = σ) :
    (q.flow row s).Yields σ (q.Found σ row (.blank q.pattern)) := by
  obtain ⟨hnodup, hfits, hapart, hcovers⟩ := start_spec (σ := σ) hstart
  have hbranches : q.Branches σ row (.blank q.pattern) ms :=
    ⟨hnodup, hfits, fun m₁ _ => blank_extends q m₁, hapart, fun _ m' hsol _ _ => hcovers m' hsol⟩
  unfold flow
  rw [hstart]
  refine (Flow.yields_inTurn (fun m₁ h₁ s hs =>
    yields_complete hσ hw hends m₁.openCount m₁ (hfits m₁ h₁) rfl s hs) hs).mono
      fun items hitems => ?_
  obtain ⟨parts, hparts, rfl⟩ := hitems
  exact hbranches.found hparts

/-! ## The matches of a pattern -/

/-- All matches are solutions, none comes twice, and no solution is missing unless the search gives
up on a walk.  That matters exactly if there is a solution. -/
theorem search_exact {parts : List PatternPart} {g : Constraints Expr} {f : Expr → Except Error Value}
    {s : RunState} (hparts : Constraints.ofParts parts false = .ok g)
    (hvalues : g.mapM f = .ok q.pattern) (hσ : s.store.Consistent) (hrow : q.RowFits row)
    (hends : q.WalkEndsStored s.store row) :
    ∃ ms s', Flow.toList (q.flow row) s = (.ok ms, s') ∧ ms.Nodup ∧
      (∀ m ∈ ms, q.Solution s.store row m) ∧ (q.Agreement s.store row →
        (∀ m, m ∈ ms ↔ q.Solution s.store row m ∧ q.Passable s.store) ∧
          ((∀ m, q.Solution s.store row m → m ∈ ms) ↔
            q.Passable s.store ∨ ∀ m, ¬ q.Solution s.store row m)) := by
  obtain ⟨hwf, hopt⟩ := Constraints.wellFormed_of_ofParts hparts
  have hshape := Constraints.shape_of_mapM hvalues
  have hw := hwf.of_shape hshape
  have hplain : q.pattern.optional = false := (congrArg (·.optional) hshape).trans hopt
  obtain ⟨start, hstart⟩ := start_ok hrow
  obtain ⟨ms, s', hrun, -, hfound⟩ := Flow.toList_of_yields (yields_flow hσ hw hends hstart rfl)
  have hnull := hfound.matched hplain
  have hnodup : ms.Nodup := by
    have hfilter : ms.filter (!·.hasNull) = ms :=
      List.filter_eq_self.2 fun m hm => by rw [hnull m hm]; rfl
    rw [← hfilter]
    exact hfound.nodup
  refine ⟨ms, s', hrun, hnodup, fun m hm => (hfound.sound m hm (hnull m hm)).1, fun ha => ?_⟩
  have hmem : ∀ m, m ∈ ms ↔ q.Solution s.store row m ∧ q.Passable s.store := fun m =>
    ⟨fun hm => hfound.sound m hm (hnull m hm), fun ⟨hs, hp⟩ =>
      hfound.complete ha hp m hs (blank_extends q m)⟩
  refine ⟨hmem, fun hall => ?_, fun hcond m hs => ?_⟩
  · by_cases hp : q.Passable s.store
    · exact Or.inl hp
    · exact Or.inr fun m hs => hp ((hmem m).1 (hall m hs)).2
  · rcases hcond with hp | hnone
    · exact (hmem m).2 ⟨hs, hp⟩
    · exact absurd hs (hnone m)

/-! ## Demands, a walk and a row -/

/-- A context without authorizations and parameters. -/
def plainContext : RunContext := ⟨⟨[]⟩, [], .default, "", ⟨2024, 1, 1, rfl⟩⟩

/-- Two vertices, from each of which two edges lead to a third. -/
def twofold : RunState :=
  { RunState.initial with
    store := [.addVertex "x" ["P"] [("k", .int 1)] "", .addVertex "y" [] [("k", .int 3)] "",
      .addVertex "z" ["P"] [("k", .int 1)] "", .addEdge "e" "R" "x" "y" [("w", .int 2)] "",
      .addEdge "f" "R" "z" "y" [("w", .int 2)] "", .addEdge "g" "S" "x" "y" [("w", .int 2)] "",
      .addEdge "h" "S" "z" "y" [("w", .int 2)] ""].foldl Store.after .empty }

/-- A row that binds the third vertex. -/
def twofoldRow : Row := Row.empty.set "b" (.node ⟨"y", [], [("k", .int 3)], ""⟩)

/-- The parts of `(a:P {k: 1})-[:R {w: 2}]->(b)<-[:S {w: 2}]-(c:P), (b)-[*1..2]-(d:P)`. -/
def twofoldParts : List PatternPart :=
  let single := fun type heading =>
    (⟨none, [type], heading, [("w", .literal (.int 2))], none⟩ : RelationshipPattern)
  [⟨none, ⟨some "a", ["P"], [("k", .literal (.int 1))]⟩,
      [(single "R" .outgoing, ⟨some "b", [], []⟩), (single "S" .incoming, ⟨some "c", ["P"], []⟩)]⟩,
    ⟨none, ⟨some "b", [], []⟩,
      [(⟨none, [], .undirected, [], some ⟨some 1, some 2⟩⟩, ⟨some "d", ["P"], []⟩)]⟩]

/-- The search for them. -/
def twofoldSearch : Search :=
  .of plainContext
    ⟨false, [⟨0, some "a", ["P"], [("k", .int 1)], false, [0]⟩,
        ⟨1, some "b", [], [], false, [0, 1, 2]⟩, ⟨2, some "c", ["P"], [], false, [1]⟩,
        ⟨3, some "d", ["P"], [], false, [2]⟩],
      [⟨0, none, ["R"], [("w", .int 2)], .outgoing, none, false, 0, 1⟩,
        ⟨1, none, ["S"], [("w", .int 2)], .incoming, none, false, 1, 2⟩,
        ⟨2, none, [], [], .undirected, some ⟨1, some 2⟩, false, 1, 3⟩], []⟩

theorem consistent_twofold : twofold.store.Consistent :=
  Store.consistent_empty.foldl_after _

theorem twofold_values : ∃ g, Constraints.ofParts twofoldParts false = .ok g ∧
    g.mapM (fun e : Expr => e.value (plainContext.env twofold.store) twofoldRow) =
      .ok twofoldSearch.pattern :=
  ⟨_, rfl, rfl⟩

theorem twofold_fits : twofoldSearch.RowFits twofoldRow := by
  refine ⟨nofun, fun n hn v hv => ?_, fun r hr v hv => ?_⟩
  · simp only [twofoldSearch, of, List.mem_cons, List.not_mem_nil, or_false] at hn
    rcases hn with rfl | rfl | rfl | rfl <;> cases hv
    exact Or.inr ⟨_, rfl⟩
  · simp only [twofoldSearch, of, List.mem_cons, List.not_mem_nil, or_false] at hr
    rcases hr with rfl | rfl | rfl <;> cases hv

theorem twofold_ends : twofoldSearch.WalkEndsStored twofold.store twofoldRow := by
  intro r hr hwalk i hi n v hn hv
  simp only [twofoldSearch, of, List.mem_cons, List.not_mem_nil, or_false] at hr
  rcases hr with rfl | rfl | rfl
  · cases hwalk
  · cases hwalk
  · rcases hi with rfl | rfl <;> cases hn <;> cases hv
    rfl

theorem twofold_plain : ∀ n ∈ twofoldSearch.pattern.nodes, ∀ p ∈ n.properties,
    p.2.isPlain = true := by
  decide +kernel

theorem twofold_agreement : twofoldSearch.Agreement twofold.store twofoldRow :=
  fun n hn _ _ v _ _ => NodeConstraint.agrees_of_plain (twofold_plain n hn) _ v

/-- Two edges are taken in four ways, and either of the other two is then a walk. -/
theorem search_exact_twofold : ∃ ms s',
    Flow.toList (twofoldSearch.flow twofoldRow) twofold = (.ok ms, s') ∧ ms.length = 8 ∧ ms.Nodup ∧
      ∀ m, m ∈ ms ↔ twofoldSearch.Solution twofold.store twofoldRow m := by
  obtain ⟨g, hparts, hvalues⟩ := twofold_values
  obtain ⟨ms, s', hrun, hnodup, -, hmem⟩ := search_exact hparts hvalues consistent_twofold
    twofold_fits twofold_ends
  have hpassable : twofoldSearch.Passable twofold.store := by
    unfold Passable
    decide +kernel
  have hlength : (Flow.toList (twofoldSearch.flow twofoldRow) twofold).1.toOption.map List.length =
      some 8 := by
    decide +kernel
  rw [hrun] at hlength
  exact ⟨ms, s', hrun, Option.some.inj hlength, hnodup, fun m =>
    ((hmem twofold_agreement).1 m).trans (and_iff_left hpassable)⟩

/-! ## A walk without edges -/

/-- A store with one vertex. -/
def lonely : RunState :=
  { RunState.initial with store := [.addVertex "x" [] [] ""].foldl Store.after .empty }

/-- A walk of one hop at most. -/
def stepParts (properties : List (String × Expr)) : List PatternPart :=
  [⟨none, ⟨some "a", [], []⟩,
    [(⟨none, [], .outgoing, properties, some ⟨some 0, some 1⟩⟩, ⟨some "b", [], []⟩)]⟩]

/-- The search for such a walk. -/
def step (properties : List (String × Value)) : Search :=
  .of plainContext
    ⟨false, [⟨0, some "a", [], [], false, [0]⟩, ⟨1, some "b", [], [], false, [0]⟩],
      [⟨0, none, [], properties, .outgoing, some ⟨0, some 1⟩, false, 0, 1⟩], []⟩

theorem consistent_lonely : lonely.store.Consistent :=
  Store.consistent_empty.foldl_after _

theorem step_fits (properties : List (String × Value)) : (step properties).RowFits .empty := by
  refine ⟨nofun, fun n _ v hv => ?_, fun r _ v hv => ?_⟩
  · cases hname : n.name <;> rw [hname] at hv <;> cases hv
  · cases hname : r.name <;> rw [hname] at hv <;> cases hv

theorem step_ends (properties : List (String × Value)) :
    (step properties).WalkEndsStored lonely.store .empty := by
  intro r _ _ i _ n v _ hv
  cases hname : n.name <;> rw [hname] at hv <;> cases hv

theorem step_agreement (properties : List (String × Value)) :
    (step properties).Agreement lonely.store .empty := by
  intro n hn _ id v _ _ p hp
  have : n.properties = [] := by
    rcases List.mem_cons.1 hn with rfl | hn
    · rfl
    · rw [List.mem_singleton.1 hn]
  rw [this] at hp
  cases hp

/-- The vertex alone is a walk that demands nothing of any edge. -/
theorem step_solution (properties : List (String × Value)) : ∃ m,
    (step properties).Solution lonely.store .empty m := by
  let x : Vertex := ⟨"x", [], [], ""⟩
  have hx : lonely.store.getVertex? ⟨[]⟩ "x" = some x := by rfl
  refine ⟨⟨[some (.vertex x), some (.vertex x)], [some (.walk (.single x))]⟩, rfl, rfl,
    fun i n hn => ?_, fun i r hr => ?_, fun i j b c id hb hc _ _ => ?_⟩
  · have : i = 0 ∨ i = 1 := by
      have := (List.getElem?_eq_some_iff.1 hn).1
      simp only [step, of, List.length_cons, List.length_nil] at this
      omega
    rcases this with rfl | rfl <;> cases hn <;> exact ⟨x, rfl, rfl, hx⟩
  · have : i = 0 := by
      have := (List.getElem?_eq_some_iff.1 hr).1
      simp only [step, of, List.length_cons, List.length_nil] at this
      omega
    subst this
    cases hr
    refine ⟨_, x, x, rfl, rfl, rfl, .walk (.single x) ⟨0, some 1⟩ rfl (Nat.zero_le 0)
      (Nat.zero_le 1) ⟨fun v hv => ?_, nofun, trivial, ?_, List.nodup_nil⟩⟩
    · rw [List.mem_singleton.1 hv]
      exact hx
    · exact List.nodup_singleton _
  · have hi := Match.lt_of_relationship? hb
    have hj := Match.lt_of_relationship? hc
    simp only [List.length_singleton] at hi hj
    omega

/-- A demand on a property that nothing has loses this walk. -/
theorem not_all_solutions_found : ¬ ∀ (parts : List PatternPart) (g : Constraints Expr)
    (f : Expr → Except Error Value) (q : Search) (row : Row) (s : RunState),
    Constraints.ofParts parts false = .ok g → g.mapM f = .ok q.pattern → s.store.Consistent →
    q.RowFits row → q.WalkEndsStored s.store row → q.Agreement s.store row →
    ∃ ms s', Flow.toList (q.flow row) s = (.ok ms, s') ∧ ms.Nodup ∧
      ∀ m, m ∈ ms ↔ q.Solution s.store row m := by
  intro h
  obtain ⟨ms, s', hrun, -, hmem⟩ := h (stepParts [("k", .literal (.int 1))]) _
    (fun _ => .ok (.int 1)) (step [("k", .int 1)]) .empty lonely rfl rfl consistent_lonely
    (step_fits _) (step_ends _) (step_agreement _)
  have hnone : (Flow.toList ((step [("k", .int 1)]).flow .empty) lonely).1 = .ok [] := by rfl
  rw [hrun] at hnone
  cases hnone
  obtain ⟨m, hm⟩ := step_solution [("k", .int 1)]
  exact absurd ((hmem m).2 hm) List.not_mem_nil

end Search

end PropertyGraph
