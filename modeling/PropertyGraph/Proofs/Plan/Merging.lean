import PropertyGraph.Proofs.Pattern.Exact
import PropertyGraph.Proofs.Plan.Checked
import PropertyGraph.Proofs.Run.Cut
import PropertyGraph.Proofs.Run.Placed

/-!
# Merging twice

`MERGE` looks for its pattern, and creates it where it finds no match.  The search that comes after
finds what has been created: the new vertices and edges, and the vertices of the row between them,
are a solution of the pattern, and the search reaches every solution that the store does not refuse.

    Match.created             the match of what has been created
    Created.solution          it is a solution
    mergeMatches_eq_ok        what the search of a merge comes to
    Plan.merge_again          a merge that has created its pattern finds it the next time

A property that looks up a vertex may have another value when there are more vertices.  Then the
pattern is not the same the second time, and it is created once more.
-/

namespace PropertyGraph

variable {ctx : RunContext} {val : Expr → Value} {row : Row} {g : Constraints Expr}
  {place : Nat → Vertex} {es : List Edge} {s t u : RunState} {σ : Store}

/-! ## The match of what has been created -/

/-- These vertices at the nodes, and these edges between them. -/
def Match.created (g : Constraints Expr) (place : Nat → Vertex) (es : List Edge) : Match where
  nodes := (List.range g.nodes.length).map fun i => some (.vertex (place i))
  relationships := (g.relationships.zip es).map fun p =>
    some (.edge p.2 (place p.1.first).id (place p.1.second).id)

theorem Match.node?_created {i : Nat} (hi : i < g.nodes.length) :
    (created g place es).node? i = some (.vertex (place i)) := by
  unfold node? created
  rw [List.getElem?_map, List.getElem?_range hi]
  rfl

theorem Match.relationship?_created {k : Nat} {b : RelationshipBinding} :
    (created g place es).relationship? k = some b ↔ ∃ r e, g.relationships[k]? = some r ∧
      es[k]? = some e ∧ b = .edge e (place r.first).id (place r.second).id := by
  unfold relationship? created
  rw [List.getElem?_map, Option.join_eq_some_iff, Option.map_eq_some_iff]
  constructor
  · rintro ⟨⟨r, e⟩, hzip, hb⟩
    obtain ⟨hr, he⟩ := List.getElem?_zip_eq_some.1 hzip
    exact ⟨r, e, hr, he, (Option.some.inj hb).symm⟩
  · rintro ⟨r, e, hr, he, rfl⟩
    exact ⟨(r, e), List.getElem?_zip_eq_some.2 ⟨hr, he⟩, rfl⟩

/-- What carries values that equal themselves meets the demands of these values. -/
theorem RunContext.Carries.all {demands : List (String × Expr)} {properties : Properties}
    (h : ctx.Carries val demands properties)
    (hself : ∀ p ∈ demands, Value.equal? (val p.2) (val p.2) = some true) :
    (demands.map fun p => (p.1, val p.2)).all (fun p =>
      equalsProperty (Entries.get? (ctx.config.property p.1) properties) p.2) = true := by
  rw [List.all_map, List.all_eq_true]
  intro p hp
  exact equalsProperty_eq_true.2 ⟨_, h p hp, hself p hp⟩

namespace Created

variable (h : Created ctx val row g place es σ)
  (hself : ∀ p ∈ g.demands, Value.equal? (val p.2) (val p.2) = some true)

include h

/-- No relationship of the constraints stands for walks. -/
theorem range_eq_none {r : RelationshipConstraint Expr} (hr : r ∈ g.relationships) :
    r.range = none := by
  obtain ⟨k, hk⟩ := List.mem_iff_getElem?.1 hr
  have hlt : k < es.length := h.count ▸ (List.getElem?_eq_some_iff.1 hk).1
  obtain ⟨r', hr', hlink⟩ := h.linked k _ (List.getElem?_eq_getElem hlt)
  rw [hk] at hr'
  cases hr'
  exact hlink.range

theorem not_isWalk {r : RelationshipConstraint Value} (hr : r ∈ (g.map val).relationships) :
    r.isWalk ≠ true := by
  obtain ⟨r₀, hr₀, rfl⟩ := List.mem_map.1 hr
  show r₀.range.isSome ≠ true
  rw [h.range_eq_none hr₀]
  exact Bool.false_ne_true

theorem passable : (Search.of ctx (g.map val)).Passable σ :=
  fun _ hr hwalk => absurd hwalk (h.not_isWalk hr)

theorem walkEndsStored : (Search.of ctx (g.map val)).WalkEndsStored σ row :=
  fun _ hr hwalk => absurd hwalk (h.not_isWalk hr)

include hself

/-- What has been created for a pattern, and found for it in the row, is a solution of it. -/
theorem solution (hw : g.WellFormed) :
    (Search.of ctx (g.map val)).Solution σ row (.created g place es) := by
  obtain ⟨made, hplaced⟩ := h.placed
  refine ⟨?_, ?_, fun i n' hn' => ?_, fun k r' hr' => ?_, fun i j b c id hb hc hid hid' => ?_⟩
  · show ((List.range g.nodes.length).map _).length = (g.nodes.map _).length
    rw [List.length_map, List.length_map, List.length_range]
  · show ((g.relationships.zip es).map _).length = (g.relationships.map _).length
    rw [List.length_map, List.length_map, List.length_zip, h.count, Nat.min_self]
  · obtain ⟨n, hn, rfl⟩ := Constraints.node_of_map hn'
    have hmeets := hplaced.meets i n hn
    refine ⟨place i, Match.node?_created (List.getElem?_eq_some_iff.1 hn).1, ?_, ?_⟩
    · refine Bool.and_eq_true_iff.2 ⟨List.all_eq_true.2 hmeets.labels, ?_⟩
      exact hmeets.properties.all fun p hp =>
        hself p (Constraints.mem_demands.2 (Or.inl ⟨n, List.mem_of_getElem? hn, hp⟩))
    · dsimp only
      split
      · next b hb =>
        obtain ⟨x, hx, hb⟩ := Option.bind_eq_some_iff.1 hb
        have hbound := hplaced.bound i n x hn hx
        rw [hplaced.wider x b hb] at hbound
        exact Option.some.inj hbound
      · next hfree => exact hplaced.seen i n hn hfree
  · obtain ⟨r, hr, rfl⟩ := Constraints.relationship_of_map hr'
    have hlt : k < es.length := h.count ▸ (List.getElem?_eq_some_iff.1 hr).1
    have he := List.getElem?_eq_getElem hlt
    obtain ⟨r', hr', hlink⟩ := h.linked k _ he
    rw [hr] at hr'
    cases hr'
    obtain ⟨hfirst, hsecond⟩ := hw.ends r (List.mem_of_getElem? hr)
    refine ⟨_, place r.first, place r.second, Match.relationship?_created.2 ⟨r, _, hr, he, rfl⟩,
      Match.vertex?_eq_some.2 (Match.node?_created hfirst),
      Match.vertex?_eq_some.2 (Match.node?_created hsecond), ?_⟩
    refine .edge _ _ _ hlink.range ⟨Bool.and_eq_true_iff.2 ⟨hlink.type, ?_⟩, ?_⟩ hlink.joins
    · exact hlink.properties.all fun p hp =>
        hself p (Constraints.mem_demands.2 (Or.inr ⟨r, List.mem_of_getElem? hr, hp⟩))
    · dsimp only
      rw [hlink.free]
      exact hlink.seen
  · obtain ⟨r, e, -, he, rfl⟩ := Match.relationship?_created.1 hb
    obtain ⟨r', e', -, he', rfl⟩ := Match.relationship?_created.1 hc
    have hlt : i < (es.map (·.id)).length := by
      rw [List.length_map]
      exact (List.getElem?_eq_some_iff.1 he).1
    refine (List.getElem?_inj hlt h.distinct).1 ?_
    rw [List.getElem?_map, List.getElem?_map, he, he', Option.map_some, Option.map_some,
      eq_of_beq hid, eq_of_beq hid']

theorem agreesOn : (Search.of ctx (g.map val)).AgreesOn row (.created g place es) := by
  obtain ⟨made, hplaced⟩ := h.placed
  intro i n' v hn' _ hv
  obtain ⟨n, hn, rfl⟩ := Constraints.node_of_map hn'
  rw [Match.vertex?_eq_some, Match.node?_created (List.getElem?_eq_some_iff.1 hn).1] at hv
  cases hv
  intro p' hp' w hw _
  obtain ⟨p, hp, rfl⟩ := List.mem_map.1 hp'
  have hcarried : (place i).property? (ctx.config.property p.1) = some (val p.2) :=
    (hplaced.meets i n hn).properties p hp
  rw [show (place i).property? (ctx.config.property p.1) = some w from hw] at hcarried
  cases hcarried
  exact Value.storedSame_self
    (hself p (Constraints.mem_demands.2 (Or.inl ⟨n, List.mem_of_getElem? hn, hp⟩)))

end Created

/-! ## The search of a merge -/

/-- A search that has come to an end has begun. -/
theorem Search.start_of_toList {q : Search} {found : List Match}
    (h : Flow.toList (q.flow row) s = (.ok found, t)) : ∃ ms, q.start row = .ok ms := by
  cases hstart : q.start row with
  | ok ms => exact ⟨ms, rfl⟩
  | error e =>
    have hfail : Flow.toList (q.flow row) s = (.error e, s) := by
      unfold Flow.toList flow
      rw [hstart]
      rfl
    rw [hfail] at h
    cases h

namespace RunContext

/-- The value that a merge demands of a property, which must not be null. -/
def mergeValue (ctx : RunContext) (σ : Store) (row : Row) (e : Expr) : Except Error Value := do
  let v ← e.value (ctx.env σ) row
  if v.isNull then throw (.invalidArgument (.nullMergeProperty e.text)) else return v

theorem mergeValue_eq_ok {e : Expr} {v : Value} : ctx.mergeValue σ row e = .ok v ↔
    e.value (ctx.env σ) row = .ok v ∧ v.isNull = false := by
  unfold mergeValue
  cases e.value (ctx.env σ) row with
  | error _ => exact ⟨nofun, nofun⟩
  | ok w =>
    show (if w.isNull then _ else _) = _ ↔ _
    cases hw : w.isNull with
    | true =>
      refine ⟨nofun, ?_⟩
      rintro ⟨hv, hnull⟩
      cases hv
      rw [hw] at hnull
      cases hnull
    | false =>
      refine ⟨fun hv => ?_, fun h => h.1⟩
      cases hv
      exact ⟨rfl, hw⟩

/-- The value of an expression in a row, and null where it has none. -/
def valueIn (ctx : RunContext) (σ : Store) (row : Row) (e : Expr) : Value :=
  (e.value (ctx.env σ) row).toOption.getD .null

/-- Properties that have got their values and keep them are settled. -/
theorem settled_of_mapM {pattern : Constraints Expr} {resolved : Constraints Value}
    (h : pattern.mapM (ctx.mergeValue σ row) = .ok resolved)
    (hlasting : ∀ p ∈ pattern.demands, ctx.Lasting σ row p.2) :
    ∀ p ∈ pattern.demands, ctx.Settled σ row (ctx.valueIn σ row) p.2 := by
  intro p hp
  obtain ⟨v, hv⟩ := Constraints.exists_of_mapM h p hp
  obtain ⟨hv, hnull⟩ := mergeValue_eq_ok.1 hv
  have hvalue : ctx.valueIn σ row p.2 = v := by
    unfold valueIn
    rw [hv]
    rfl
  exact (hlasting p hp).settled (hvalue ▸ hv) (hvalue ▸ hnull)

/-- Settled properties have the same values on every store that holds more. -/
theorem mapM_of_settled {pattern : Constraints Expr}
    (h : ∀ p ∈ pattern.demands, ctx.Settled σ row val p.2) {τ : Store} (hτ : τ.Consistent)
    (hgrows : σ.Grows τ) : pattern.mapM (ctx.mergeValue τ row) = .ok (pattern.map val) :=
  Constraints.mapM_eq_map fun p hp => mergeValue_eq_ok.2
    ⟨(h p hp).value τ row hτ hgrows (Row.Extends.refl row), (h p hp).notNull⟩

/-- The properties get their values, and then all matches are found before any is used. -/
theorem mergeMatches_eq_ok {pattern : Constraints Expr} {rows : List Row} :
    ctx.mergeMatches pattern row s = (.ok rows, t) ↔ ∃ resolved found,
      pattern.mapM (ctx.mergeValue s.store row) = .ok resolved ∧
        Flow.toList ((Search.of ctx resolved).flow row) s = (.ok found, t) ∧
          rows = found.map fun m => row.bound (m.bindings resolved) := by
  have hvalues := Constraints.mapM_still (f := fun e => do
      let v ← ctx.value e row
      if v.isNull then Run.fail (.invalidArgument (.nullMergeProperty e.text)) else return v)
    (h := ctx.mergeValue s.store row) (s := s) (fun e => Run.bind_still rfl fun v => by
      split <;> rfl) pattern
  unfold mergeMatches
  rw [Run.bind_apply, hvalues]
  cases pattern.mapM (ctx.mergeValue s.store row) with
  | error _ =>
    refine ⟨nofun, ?_⟩
    rintro ⟨_, _, hresolved, -⟩
    cases hresolved
  | ok resolved =>
    dsimp only
    rw [Run.bind_apply]
    rcases hrun : Flow.toList ((Search.of ctx resolved).flow row) s with ⟨_ | found, u⟩
    · refine ⟨nofun, ?_⟩
      rintro ⟨_, _, hresolved, hrun', -⟩
      cases hresolved
      rw [hrun] at hrun'
      cases hrun'
    · refine ⟨fun h => ?_, ?_⟩
      · cases h
        exact ⟨resolved, found, rfl, hrun, rfl⟩
      · rintro ⟨_, _, hresolved, hrun', rfl⟩
        cases hresolved
        rw [hrun] at hrun'
        cases hrun'
        rfl

theorem sameGraph_toList (q : Search) (row : Row) {r : Except Error (List Match)}
    (h : Flow.toList (q.flow row) s = (r, t)) : s.SameGraph t := by
  obtain ⟨r', hdrain, -⟩ := Flow.toList_drain (q.flow row) s
  rw [h] at hdrain
  cases hdrain
  exact (Search.moves_flow RunState.SameGraph.onward q row s).drain RunState.SameGraph.onward

/-- What has been created for a pattern is found. -/
theorem mergeMatches_of_created (h : Created ctx val row g place es t.store) (hw : g.WellFormed)
    (ht : t.store.Consistent)
    (hself : ∀ p ∈ g.demands, Value.equal? (val p.2) (val p.2) = some true)
    (hvalues : g.mapM (ctx.mergeValue t.store row) = .ok (g.map val)) {start : List Match}
    (hstart : (Search.of ctx (g.map val)).start row = .ok start) :
    ∃ again u, ctx.mergeMatches g row t = (.ok again, u) ∧ again ≠ [] ∧ t.SameGraph u := by
  obtain ⟨again, u, hagain, -, hfound⟩ := Flow.toList_of_yields (Search.yields_flow (s := t) ht
    (hw.of_shape (Constraints.shape_of_mapM hvalues)) h.walkEndsStored hstart rfl)
  have hmem := hfound.reaches h.passable _ (h.solution hself hw) (h.agreesOn hself)
    (Search.blank_extends _ _)
  refine ⟨_, u, mergeMatches_eq_ok.2 ⟨_, _, hvalues, hagain, rfl⟩, ?_,
    sameGraph_toList _ row hagain⟩
  rw [Ne, List.map_eq_nil_iff]
  exact List.ne_nil_of_mem hmem

/-! ## A merge -/

/-- A merge without items of `SET` makes the rows of its matches, if there are any. -/
theorem merge_of_matches {pattern : Constraints Expr} (part : PatternPart) {rows : List Row}
    (h : ctx.mergeMatches pattern row s = (.ok rows, t)) (hrows : rows ≠ []) :
    ctx.merge pattern part [] [] row s = (.ok rows, t) := by
  unfold merge
  rw [Run.bind_apply, h]
  cases rows with
  | nil => exact absurd rfl hrows
  | cons first rest =>
    show (first :: rest).mapM (fun row => (pure (id row) : Run Row)) t = _
    rw [List.mapM_pure, List.map_id]
    rfl

/-- Where it finds no match it creates its pattern. -/
theorem create_of_merge {pattern : Constraints Expr} {part : PatternPart} {rows : List Row}
    (hnone : ctx.mergeMatches pattern row s = (.ok [], u))
    (h : ctx.merge pattern part [] [] row s = (.ok rows, t)) :
    ∃ out, ctx.create [part] row u = (.ok out, t) := by
  unfold merge at h
  rw [Run.bind_apply, hnone] at h
  obtain ⟨out, s₁, hcreate, h⟩ := Run.ok_of_bind h
  cases h
  exact ⟨out, hcreate⟩

end RunContext

/-! ## Twice -/

namespace Plan

theorem range_of_checkCreation {part : PatternPart} (h : checkCreation [directed part] = .ok ()) :
    ∀ r ∈ part.relationships, r.range = none := by
  intro r hr
  obtain ⟨link, hlink, rfl⟩ := List.mem_map.1 hr
  have hmem : link.1.directed ∈ (directed part).relationships := by
    rw [PatternPart.relationships_directed]
    exact List.mem_map_of_mem hlink
  have hcheck := ok_of_forM (ok_of_forM h _ (List.mem_singleton.2 rfl)) _ hmem
  dsimp only at hcheck
  split at hcheck
  · cases hcheck
  · split at hcheck
    · cases hcheck
    · next hrange => exact Option.not_isSome_iff_eq_none.1 hrange

/-- What a merge needs, besides, to find in a row what it creates there: it can see new elements, no
name of the pattern stands for null, no property is set twice, and all values equal themselves.  As
between clauses, the row has no temporary scopes. -/
structure Findable (ctx : RunContext) (part : PatternPart) (row : Row) (σ : Store) : Prop where
  visible : ctx.reader.canRead ctx.visibility = true
  unscoped : row.scopes = []
  notNull : ∀ x ∈ part.names, row.lookup? x ≠ some .null
  nodeKeys : ∀ n ∈ part.nodes, (n.properties.map fun p => ctx.config.property p.1).Nodup
  relationshipKeys : ∀ r ∈ part.relationships,
    (r.properties.map fun p => ctx.config.property p.1).Nodup
  equalsItself : ∀ p ∈ part.demands, ∀ v, p.2.value (ctx.env σ) row = .ok v →
    Value.equal? v v = some true

variable {scope inner : Scope} {part created : PatternPart} {pattern : Constraints Expr}

/-- A merge that has created its pattern finds it the next time, and changes nothing, if more
elements do not change the values of the properties. -/
theorem merge_again
    (hplan : planMerge scope part [] [] = .ok (.merge pattern created [] [], inner))
    (hs : s.store.Consistent) (hfind : Findable ctx part row s.store)
    (hlasting : ∀ p ∈ part.demands, ctx.Lasting s.store row p.2) {rows : List Row}
    (hnone : (ctx.mergeMatches pattern row s).1 = .ok [])
    (hmerge : ctx.merge pattern created [] [] row s = (.ok rows, t)) :
    ∃ again u, ctx.mergeMatches pattern row t = (.ok again, u) ∧ again ≠ [] ∧
      ctx.merge pattern created [] [] row t = (.ok again, u) ∧ t.SameGraph u := by
  obtain ⟨_, -, hplan⟩ := ok_of_bind hplan
  obtain ⟨g, hparts, hplan⟩ := ok_of_bind hplan
  obtain ⟨_, hcheck, hplan⟩ := ok_of_bind hplan
  cases hplan
  have hw := (Constraints.wellFormed_of_ofParts hparts).1
  -- the search that finds nothing
  obtain ⟨s₁, hsearch⟩ : ∃ s₁, ctx.mergeMatches pattern row s = (.ok [], s₁) :=
    ⟨_, Prod.ext hnone rfl⟩
  obtain ⟨out, hcreate⟩ := RunContext.create_of_merge hsearch hmerge
  obtain ⟨resolved, found, hresolved, hfound, -⟩ := RunContext.mergeMatches_eq_ok.1 hsearch
  have hstore : s.store = s₁.store := (RunContext.sameGraph_toList _ row hfound).store
  -- the values of the properties, which last
  have hdemands : ∀ p, p ∈ pattern.demands ↔ p ∈ part.demands := fun p =>
    Constraints.mem_demands_ofParts hparts
  have hsettled := RunContext.settled_of_mapM hresolved fun p hp =>
    hlasting p ((hdemands p).1 hp)
  have hself : ∀ p ∈ pattern.demands, Value.equal? (ctx.valueIn s.store row p.2)
      (ctx.valueIn s.store row p.2) = some true := fun p hp =>
    hfind.equalsItself p ((hdemands p).1 hp) _
      ((hsettled p hp).value s.store row hs (.refl hs) (Row.Extends.refl row))
  obtain rfl : pattern.map (ctx.valueIn s.store row) = resolved :=
    Except.ok.inj ((RunContext.mapM_of_settled hsettled hs (.refl hs)).symm.trans hresolved)
  -- what has been created
  have hs₁ : s₁.store.Consistent := hstore ▸ hs
  obtain ⟨ht, hgrows⟩ := (RunContext.adds_create [directed part] row).grows hcreate hs₁
  rw [← hstore] at hgrows
  obtain ⟨place, es, hcreated⟩ := created_of_create hparts hs₁ (hstore ▸ .refl hs) hfind.visible
    hfind.unscoped
    (fun n hn => ⟨fun p hp => hsettled p ((hdemands p).2
      (List.mem_append_left _ (List.mem_flatMap_of_mem hn hp))), hfind.nodeKeys n hn⟩)
    (fun r hr => ⟨fun p hp => hsettled p ((hdemands p).2
      (List.mem_append_right _ (List.mem_flatMap_of_mem hr hp))), hfind.relationshipKeys r hr⟩)
    (fun n hn x hx => hfind.notNull x (PatternPart.mem_names.2 (Or.inr (Or.inl ⟨n, hn, hx⟩))))
    (range_of_checkCreation hcheck) hcreate
  obtain ⟨start, hstart⟩ := Search.start_of_toList hfound
  obtain ⟨again, u, hagain, hrows, hsame⟩ := RunContext.mergeMatches_of_created hcreated hw ht hself
    (RunContext.mapM_of_settled hsettled ht hgrows) hstart
  exact ⟨again, u, hagain, hrows, RunContext.merge_of_matches _ hagain hrows, hsame⟩

/-- A walk from a vertex to the one that the row binds, in either direction, and back. -/
def thereAndBack : PatternPart :=
  ⟨none, ⟨some "a", ["A"], [("k", .literal (.int 1))]⟩,
    [(⟨some "r", ["R"], .undirected, [("w", .literal (.int 2))], none⟩, ⟨some "b", [], []⟩),
      (⟨none, ["S"], .incoming, [], none⟩, ⟨some "a", [], []⟩)]⟩

/-- Its constraints. -/
def thereAndBackPattern : Constraints Expr :=
  ⟨false, [⟨0, some "a", ["A"], [("k", .literal (.int 1))], false, [0, 1]⟩,
      ⟨1, some "b", [], [], false, [0, 1]⟩],
    [⟨0, some "r", ["R"], [("w", .literal (.int 2))], .undirected, none, false, 0, 1⟩,
      ⟨1, none, ["S"], [], .incoming, none, false, 1, 0⟩], []⟩

/-- The row that binds the one vertex there is. -/
def lonelyRow : Row := Row.empty.set "b" (.node ⟨"x", [], [], ""⟩)

theorem findable_thereAndBack :
    Findable Search.plainContext thereAndBack lonelyRow Search.lonely.store where
  visible := rfl
  unscoped := rfl
  notNull := by
    intro x hx
    have hnames : x ∈ ["a", "b", "r"] := hx
    simp only [List.mem_cons, List.not_mem_nil, or_false] at hnames
    rcases hnames with rfl | rfl | rfl <;> nofun
  nodeKeys := by decide
  relationshipKeys := by decide
  equalsItself := by
    intro p hp v hv
    have hdemands : p ∈ [("k", Expr.literal (.int 1)), ("w", Expr.literal (.int 2))] := hp
    simp only [List.mem_cons, List.not_mem_nil, or_false] at hdemands
    rcases hdemands with rfl | rfl <;> cases hv <;> rfl

theorem merge_again_bound :
    planMerge ⟨["b"]⟩ thereAndBack [] [] = .ok (.merge thereAndBackPattern (directed thereAndBack)
      [] [], (Scope.mk ["b"]).declare thereAndBack.names) ∧
    (Search.plainContext.mergeMatches thereAndBackPattern lonelyRow Search.lonely).1 = .ok [] ∧
    ∃ rows t, Search.plainContext.merge thereAndBackPattern (directed thereAndBack) [] [] lonelyRow
        Search.lonely = (.ok rows, t) ∧
      ∃ again u, Search.plainContext.mergeMatches thereAndBackPattern lonelyRow t = (.ok again, u) ∧
        again ≠ [] ∧ Search.plainContext.merge thereAndBackPattern (directed thereAndBack) [] []
          lonelyRow t = (.ok again, u) ∧ t.SameGraph u := by
  have hplan : planMerge ⟨["b"]⟩ thereAndBack [] [] = .ok (.merge thereAndBackPattern
      (directed thereAndBack) [] [], (Scope.mk ["b"]).declare thereAndBack.names) := by rfl
  have hnone : (Search.plainContext.mergeMatches thereAndBackPattern lonelyRow
      Search.lonely).1 = .ok [] := by rfl
  have hok : (Search.plainContext.merge thereAndBackPattern (directed thereAndBack) [] [] lonelyRow
      Search.lonely).1.toOption.isSome = true := by decide +kernel
  refine ⟨hplan, hnone, ?_⟩
  rcases hmerge : Search.plainContext.merge thereAndBackPattern (directed thereAndBack) [] []
    lonelyRow Search.lonely with ⟨_ | rows, t⟩
  · rw [hmerge] at hok
    cases hok
  · refine ⟨rows, t, rfl, merge_again hplan Search.consistent_lonely findable_thereAndBack ?_ hnone
      hmerge⟩
    intro p hp
    have hdemands : p ∈ [("k", Expr.literal (.int 1)), ("w", Expr.literal (.int 2))] := hp
    refine RunContext.lasting_of_calls ?_ _ _ _
    simp only [List.mem_cons, List.not_mem_nil, or_false] at hdemands
    rcases hdemands with rfl | rfl <;> nofun

/-- A vertex with a property that is 1 or 2, as the parameter's relationship leads from no vertex or
from one. -/
def lookingUp : PatternPart :=
  ⟨none, ⟨some "a", [], [("k", .case none [(.isNull (.call "startNode" [.parameter "r"] false),
    .literal (.int 1))] (some (.literal (.int 2))))]⟩, []⟩

/-- Its constraints. -/
def lookingUpPattern : Constraints Expr :=
  ⟨false, [⟨0, some "a", [], lookingUp.start.properties, false, []⟩], [], []⟩

/-- The relationship of the parameter leads from the first vertex that will be created. -/
def lookingUpContext : RunContext :=
  { Search.plainContext with params := [("r", .relationship ⟨"e9", "R", "v1", "v1", [], ""⟩)] }

theorem findable_lookingUp :
    Findable lookingUpContext lookingUp .empty RunState.initial.store where
  visible := rfl
  unscoped := rfl
  notNull := nofun
  nodeKeys := by decide
  relationshipKeys := nofun
  equalsItself := by
    intro p hp v hv
    rw [List.mem_singleton.1 (show p ∈ lookingUp.start.properties from hp)] at hv
    cases hv
    rfl

/-- A property that looks up a vertex has another value when the pattern has been created, and the
pattern is created once more. -/
theorem merged_once_more : ¬ ∀ (scope inner : Scope) (part created : PatternPart)
    (pattern : Constraints Expr) (ctx : RunContext) (s t : RunState) (rows : List Row),
    planMerge scope part [] [] = .ok (.merge pattern created [] [], inner) →
    s.store.Consistent → Findable ctx part .empty s.store →
    (ctx.mergeMatches pattern .empty s).1 = .ok [] →
    ctx.merge pattern created [] [] .empty s = (.ok rows, t) →
    ∃ again u, ctx.mergeMatches pattern .empty t = (.ok again, u) ∧ again ≠ [] ∧
      ctx.merge pattern created [] [] .empty t = (.ok again, u) ∧ t.SameGraph u := by
  intro h
  have hok : (lookingUpContext.merge lookingUpPattern lookingUp [] [] .empty
      RunState.initial).1.toOption.isSome = true := by decide +kernel
  have hagain : (lookingUpContext.mergeMatches lookingUpPattern .empty
      (lookingUpContext.merge lookingUpPattern lookingUp [] [] .empty
        RunState.initial).2).1.toOption.map List.length = some 0 := by decide +kernel
  rcases hmerge : lookingUpContext.merge lookingUpPattern lookingUp [] [] .empty
    RunState.initial with ⟨_ | rows, t⟩
  · rw [hmerge] at hok
    cases hok
  · obtain ⟨again, u, hmatches, hrows, -⟩ := h .empty _ lookingUp lookingUp lookingUpPattern
      lookingUpContext RunState.initial t rows (by rfl) Store.consistent_empty findable_lookingUp
      (by rfl) hmerge
    rw [hmerge, hmatches] at hagain
    exact hrows (List.length_eq_zero_iff.1 (Option.some.inj hagain))

end Plan

end PropertyGraph
