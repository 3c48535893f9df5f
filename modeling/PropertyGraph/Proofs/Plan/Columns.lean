import PropertyGraph.Proofs.Plan.Scoped
import PropertyGraph.Proofs.Run.Projected

/-!
# The columns that were planned

The scope that planning keeps and the rows that a run makes come from different places: here the
names of patterns and of columns are declared, there values are bound.  Yet after every clause the
columns of the rows are the names in scope, whatever the store holds and whatever is done to it
between two rows.  Only a `RETURN` leaves the scope as it is, and its rows have the columns of the
plan.

    Stage.exactly_attachAll   the columns of the rows that stages give
    Planned.exact             a clause keeps scope and columns in step
    Plan.rows_as_planned      the rows after each clause of a plan, and those of its result
    Plan.return_apart         after a `RETURN` the scope is not that of the rows
-/

namespace PropertyGraph

/-! ## Stages -/

namespace Stage

variable {ctx : RunContext} {source : Source Row} {names : List String}

/-- The pattern of a `MERGE` has the names of its part, and a projection has no two columns of one
name. -/
def Regular : Stage → Prop
  | .merge g part _ _ => ∀ x, x ∈ g.names ↔ x ∈ part.names
  | .project p => p.names.Nodup
  | .matching _ _ | .filter _ | .unwind _ _ | .create _ | .createApart _ | .set _ | .remove _
  | .delete _ _ => True

/-- One row for each row. -/
theorem each_flatMap {more : List String} {make : Row → Run Row}
    (hsource : Flow.EachOf (Row.Exactly · names) source)
    (hmake : ∀ row, row.Exactly names → (make row).Results (Row.Exactly · more)) :
    Flow.EachOf (Row.Exactly · more) fun s =>
      (source s).flatMap fun row => Flow.ofRun do return [← make row] :=
  fun s hs => (hsource s hs).flatMap fun row hrow => Flow.keeps_ofRun
    ((hmake row hrow).bind fun _ hout => .ok (List.forall_mem_singleton.2 hout))

/-- A stage binds its names besides those that its rows bind before. -/
theorem exactly_flow {stage : Stage} (hstage : ∀ p, stage ≠ .project p) (h : stage.Regular)
    (ctx : RunContext) (hsource : Flow.EachOf (Row.Exactly · names) source) :
    Flow.EachOf (Row.Exactly · (stage.bound names)) (stage.flow ctx source) := by
  cases stage with
  | matching pattern condition =>
    exact fun s hs => (hsource s hs).flatMap fun row hrow =>
      RunContext.exactly_matchRow pattern condition hrow
  | filter e =>
    refine fun s hs => (hsource s hs).flatMap fun row hrow => Flow.keeps_ofOption ?_
    refine .after fun t => .ok fun out h => ?_
    split at h
    · cases h; exact hrow
    · cases h
  | unwind e x =>
    refine fun s hs => (hsource s hs).flatMap fun row hrow => Flow.keeps_ofRun ?_
    refine .after fun v => .ok fun out hout => ?_
    obtain ⟨w, -, rfl⟩ := List.mem_map.1 hout
    exact hrow.bound [(x, w)]
  | project p => exact absurd rfl (hstage p)
  | create parts => exact each_flatMap hsource fun row => RunContext.exactly_create parts
  | createApart parts => exact each_flatMap hsource fun row => RunContext.exactly_createApart parts
  | merge pattern part onCreate onMatch =>
    exact fun s hs => (hsource s hs).flatMap fun row hrow => Flow.keeps_ofRun
      (RunContext.exactly_merge h onCreate onMatch hrow)
  | set items => exact each_flatMap hsource fun row => RunContext.exactly_set items
  | remove items => exact each_flatMap hsource fun row => RunContext.exactly_remove items
  | delete detach targets =>
    exact Flow.keeps_ofRun ((Flow.keeps_toList hsource).bind fun rows hrows =>
      .after fun _ => .ok hrows)

theorem made_attach (p : Projection) (ctx : RunContext) (source : Source Row) :
    (attach ctx source (.project p)).Results (Flow.EachOf p.Made) := by
  unfold attach
  exact .after fun cut => .ok fun s hs => (p.each_flow ctx cut source s hs).counted _

theorem exactly_attach {stage : Stage} (h : stage.Regular) (ctx : RunContext)
    (hsource : Flow.EachOf (Row.Exactly · names) source) :
    (attach ctx source stage).Results (Flow.EachOf (Row.Exactly · (stage.bound names))) := by
  have hflow : (∀ p, stage ≠ .project p) → (pure fun s =>
      (stage.flow ctx source s).counted stage.title : Run (Source Row)).Results
        (Flow.EachOf (Row.Exactly · (stage.bound names))) := fun hstage =>
    .ok fun s hs => (exactly_flow hstage h ctx hsource s hs).counted _
  cases stage with
  | project p =>
    exact (made_attach p ctx source).mono fun rows hrows => hrows.mono fun row hrow => hrow.exactly
  | _ => exact hflow nofun

theorem exactly_attachAll {stages : List Stage} (h : ∀ stage ∈ stages, stage.Regular)
    (ctx : RunContext) :
    (attachAll ctx stages).Results (Flow.EachOf (Row.Exactly · (allBound [] stages))) := by
  have key : ∀ (stages : List Stage) (names : List String) (source : Source Row),
      (∀ stage ∈ stages, stage.Regular) → Flow.EachOf (Row.Exactly · names) source →
      (stages.foldlM (attach ctx) source).Results
        (Flow.EachOf (Row.Exactly · (allBound names stages))) := by
    intro stages
    induction stages with
    | nil => exact fun names source _ hsource => .ok hsource
    | cons stage rest ih =>
      intro names source h hsource
      obtain ⟨hstage, hrest⟩ := List.forall_mem_cons.1 h
      rw [List.foldlM_cons]
      exact (exactly_attach hstage ctx hsource).bind fun source' hsource' =>
        ih _ source' hrest hsource'
  exact key stages [] (Flow.single .empty) h (Flow.keeps_single Row.exactly_empty)

/-- Whatever comes before a projection, its rows have one value for each column. -/
theorem made_attachAll (first : List Stage) (p : Projection) (ctx : RunContext) :
    (attachAll ctx (first ++ [.project p])).Results (Flow.EachOf p.Made) := by
  unfold attachAll
  rw [List.foldlM_append]
  exact .after fun source => (made_attach p ctx source).bind fun rows hrows => .ok hrows

end Stage

/-! ## Planning -/

namespace Plan

variable {scope scope' : Scope} {stage : Stage}

theorem nodup_starColumns {body : ProjectionBody} {columns : List (Expr × String)}
    (h : starColumns scope body = .ok columns) : (columns.map Prod.snd).Nodup := by
  unfold starColumns at h
  split at h
  · dsimp only at h
    split at h
    · cases h
    · cases h
      rw [List.map_map]
      show ((Names.ofList scope.names).map id).Nodup
      rw [List.map_id]
      exact (Names.pairwise_ofList scope.names).imp ne_of_lt
  · cases h
    exact List.nodup_nil

theorem nodup_addColumn {columns columns' : List (Expr × String)} {item : ProjectionItem}
    (h : addColumn scope columns item = .ok columns') (hcolumns : (columns.map Prod.snd).Nodup) :
    (columns'.map Prod.snd).Nodup := by
  obtain ⟨_, -, h⟩ := ok_of_bind h
  split at h
  · cases h
  · next hnew =>
    cases h
    rw [List.map_append]
    refine List.nodup_append.2 ⟨hcolumns, List.nodup_singleton _, ?_⟩
    rintro x hx y hy rfl
    obtain ⟨c, hc, rfl⟩ := List.mem_map.1 hx
    exact hnew (List.any_eq_true.2 ⟨c, hc, beq_iff_eq.2 (List.mem_singleton.1 hy)⟩)

/-- No two columns of a planned projection have the same name. -/
theorem nodup_of_planProjection {body : ProjectionBody} {p : Projection}
    (h : planProjection scope body = .ok p) : p.names.Nodup := by
  obtain ⟨stars, hstars, h⟩ := ok_of_bind h
  obtain ⟨columns, hcolumns, h⟩ := ok_of_bind h
  obtain ⟨_, -, h⟩ := ok_of_bind h
  obtain ⟨_, -, h⟩ := ok_of_bind h
  obtain ⟨⟨lifted, noted⟩, hlift, h⟩ := ok_of_bind h
  obtain ⟨⟨order, aggregates⟩, -, h⟩ := ok_of_bind h
  have hnodup : (columns.map Prod.snd).Nodup := by
    have hstars := nodup_starColumns hstars
    generalize stars = before at hstars hcolumns
    generalize body.items = items at hcolumns
    induction items generalizing before with
    | nil => cases hcolumns; exact hstars
    | cons item rest ih =>
      obtain ⟨between, hadd, hrest⟩ := ok_of_bind hcolumns
      exact ih between (nodup_addColumn hadd hstars) hrest
  have hreads : ReadsOnly ((columns.map Prod.fst).flatMap (·.freeNames)) (columns.map Prod.fst) :=
    fun e he x hx => List.mem_flatMap.2 ⟨e, he, hx⟩
  have hnames := (Projection.liftColumns_spec hlift hreads).1
  dsimp only at h
  split at h
  · cases h
  · cases h
    show (lifted.map (·.name)).Nodup
    rwa [hnames]

/-- A stage leads from the names of one scope to exactly those of another. -/
structure Keeps (scope : Scope) (stage : Stage) (scope' : Scope) : Prop where
  regular : stage.Regular
  bound : ∀ names, (∀ x, x ∈ names ↔ x ∈ scope.names) →
    ∀ x, x ∈ stage.bound names ↔ x ∈ scope'.names

/-- A stage that binds no names. -/
theorem keeps_same (h : stage.Regular) (hbound : ∀ names, stage.bound names = names) :
    Keeps scope stage scope :=
  ⟨h, fun names hnames x => by rw [hbound, hnames]⟩

theorem keeps_unwind (e : Expr) (x : String) :
    Keeps scope (.unwind e x) (scope.declare [x]) := by
  refine ⟨trivial, fun names hnames y => ?_⟩
  rw [Stage.bound, List.mem_append, hnames, Scope.mem_declare]

theorem keeps_matching {optional : Bool} {parts : List PatternPart} {condition : Option Expr}
    (h : planMatch scope optional parts condition = .ok (stage, scope')) :
    Keeps scope stage scope' := by
  obtain ⟨pattern, -, h⟩ := ok_of_bind h
  obtain ⟨_, -, h⟩ := ok_of_bind h
  have hkeeps : ∀ (planned : Constraints Expr) (left : Option Expr),
      planned.names = pattern.names →
      Keeps scope (.matching planned left) (scope.declare pattern.names) := by
    intro planned left hplanned
    refine ⟨trivial, fun names hnames x => ?_⟩
    rw [Stage.bound, List.mem_append, hnames, hplanned, Scope.mem_declare]
  cases condition with
  | none =>
    cases h
    exact hkeeps pattern none rfl
  | some e =>
    obtain ⟨_, -, h⟩ := ok_of_bind h
    cases h
    exact hkeeps _ _ (Constraints.names_of_shape (pattern.absorbAll_spec e.conjuncts).1)

theorem keeps_project {body : ProjectionBody} {p : Projection}
    (h : planProjection scope body = .ok p) : Keeps scope (.project p) ⟨p.names⟩ :=
  ⟨nodup_of_planProjection h, fun _ _ _ => Iff.rfl⟩

theorem keeps_create {parts : List PatternPart}
    (h : planCreate scope parts = .ok (stage, scope')) : Keeps scope stage scope' := by
  obtain ⟨_, -, h⟩ := ok_of_bind h
  obtain ⟨_, -, h⟩ := ok_of_bind h
  cases h
  have hbound : ∀ names : List String, (∀ x, x ∈ names ↔ x ∈ scope.names) →
      ∀ x, x ∈ names ++ parts.flatMap (·.names) ↔
        x ∈ ((parts.map fun p => p.names.filter (!scope.has ·)).foldl Scope.declare scope).names := by
    intro names hnames x
    rw [mem_created, List.mem_append, hnames, List.mem_flatMap]
  split
  · exact ⟨trivial, hbound⟩
  · exact ⟨trivial, hbound⟩

theorem keeps_merge {part : PatternPart} {onCreate onMatch : List SetItem}
    (h : planMerge scope part onCreate onMatch = .ok (stage, scope')) :
    Keeps scope stage scope' := by
  obtain ⟨_, -, h⟩ := ok_of_bind h
  obtain ⟨pattern, hpattern, h⟩ := ok_of_bind h
  obtain ⟨_, -, h⟩ := ok_of_bind h
  cases h
  refine ⟨fun x => ?_, fun names hnames x => ?_⟩
  · rw [names_directed, Constraints.mem_names_ofParts hpattern]
  · rw [Stage.bound, List.mem_append, hnames, names_directed, Scope.mem_declare]

/-! ## Clause after clause -/

/-- The columns that the rows after a clause are planned to have: the names in scope, or the columns
of a `RETURN`. -/
def Progress.visible (p : Progress) : List String :=
  p.returned.getD p.scope.names

/-- The stages planned so far bind the names that are visible, and after a `RETURN` they end with
its projection. -/
structure Progress.Exact (p : Progress) : Prop where
  regular : ∀ stage ∈ p.stages, stage.Regular
  bound : ∀ x, x ∈ Stage.allBound [] p.stages ↔ x ∈ p.visible
  last : ∀ columns, p.returned = some columns → columns.Nodup ∧
    ∃ first projection, p.stages = first ++ [.project projection] ∧ projection.names = columns

theorem exact_start : Progress.Exact ⟨[], .empty, none⟩ :=
  ⟨nofun, fun _ => Iff.rfl, nofun⟩

theorem Progress.Exact.add {p : Progress} (h : p.Exact) (hopen : p.returned = none) {stage : Stage}
    {scope : Scope} (hkeeps : Keeps p.scope stage scope) : (p.add stage scope).Exact := by
  unfold Progress.add
  refine ⟨List.forall_mem_append.2 ⟨h.regular, List.forall_mem_singleton.2 hkeeps.regular⟩,
    fun x => ?_, fun columns hcolumns => ?_⟩
  · have hbound := h.bound
    unfold Progress.visible at hbound ⊢
    rw [hopen] at hbound ⊢
    unfold Stage.allBound
    rw [List.foldl_append]
    exact hkeeps.bound _ hbound x
  · rw [hopen] at hcolumns
    cases hcolumns

/-- A clause keeps the names in scope and the columns of the rows in step. -/
theorem Planned.exact {p p' : Progress} {c : Clause} (h : Planned p c p')
    (hopen : p.returned = none) (hp : p.Exact) : p'.Exact := by
  cases h with
  | matching hplan => exact hp.add hopen (keeps_matching hplan)
  | unwind hcheck => exact hp.add hopen (keeps_unwind _ _)
  | projectWith hplan => exact hp.add hopen (keeps_project hplan)
  | projectWhere hplan hcheck =>
    exact (hp.add hopen (keeps_project hplan)).add hopen (keeps_same trivial fun _ => rfl)
  | projectReturn hplan =>
    have hadded := hp.add hopen (keeps_project hplan)
    refine ⟨hadded.regular, fun x => ?_, fun columns hcolumns => ?_⟩
    · show x ∈ (p.stages ++ [_]).foldl Stage.bound [] ↔ _
      rw [List.foldl_append]
      exact Iff.rfl
    · cases hcolumns
      exact ⟨nodup_of_planProjection hplan, p.stages, _, rfl, rfl⟩
  | create hplan => exact hp.add hopen (keeps_create hplan)
  | merge hplan => exact hp.add hopen (keeps_merge hplan)
  | set hcheck => exact hp.add hopen (keeps_same trivial fun _ => rfl)
  | remove hcheck => exact hp.add hopen (keeps_same trivial fun _ => rfl)
  | delete hcheck => exact hp.add hopen (keeps_same trivial fun _ => rfl)

theorem Planned.stages {p p' : Progress} {c : Clause} (h : Planned p c p') :
    ∃ more, p'.stages = p.stages ++ more := by
  cases h with
  | projectWhere hplan hcheck => exact ⟨_, List.append_assoc _ _ _⟩
  | _ => exact ⟨_, rfl⟩

theorem exact_of_planClauses {clauses : List Clause} {p p' : Progress}
    (h : clauses.foldlM planClause p = .ok p') (hp : p.Exact) :
    p'.Exact ∧ ∃ more, p'.stages = p.stages ++ more := by
  induction clauses generalizing p with
  | nil => cases h; exact ⟨hp, [], (List.append_nil _).symm⟩
  | cons c rest ih =>
    obtain ⟨between, hc, h⟩ := ok_of_bind h
    obtain ⟨hopen, hplanned⟩ := planned_of_ok hc
    obtain ⟨hexact, more, hmore⟩ := ih h (hplanned.exact hopen hp)
    obtain ⟨own, hown⟩ := hplanned.stages
    exact ⟨hexact, own ++ more, by rw [hmore, hown, List.append_assoc]⟩

/-- Nothing follows a `RETURN`. -/
theorem eq_nil_of_returned {clauses : List Clause} {p p' : Progress}
    (h : clauses.foldlM planClause p = .ok p') (hreturned : p.returned ≠ none) : clauses = [] := by
  cases clauses with
  | nil => rfl
  | cons c rest =>
    obtain ⟨between, hc, -⟩ := ok_of_bind h
    exact absurd (planned_of_ok hc).1 hreturned

theorem progress_of_planBranch {clauses : List Clause} {stages : List Stage}
    {columns : List String} (h : planBranch clauses = .ok (stages, columns)) :
    ∃ p, clauses.foldlM planClause ⟨[], .empty, none⟩ = .ok p ∧ p.stages = stages ∧
      p.returned.getD [] = columns := by
  unfold planBranch at h
  split at h
  · cases h
  · obtain ⟨p, hp, h⟩ := ok_of_bind h
    split at h
    · cases h
    · cases h
      exact ⟨p, hp, rfl, rfl⟩

/-! ## Rows as planned -/

/-- What is planned of the rows after a clause: no temporary scope is open, and their columns are
the names in scope, but after a `RETURN` its columns in order, each once. -/
def Progress.Foresees (p : Progress) (row : Row) : Prop :=
  row.scopes = [] ∧ match p.returned with
    | none => ∀ x, x ∈ row.names ↔ x ∈ p.scope.names
    | some columns => row.names = columns ∧ columns.Nodup

theorem Progress.Exact.foresees {p : Progress} (h : p.Exact) (ctx : RunContext) :
    (Stage.attachAll ctx p.stages).Results (Flow.EachOf p.Foresees) := by
  have hexactly := Stage.exactly_attachAll h.regular ctx
  have hbound := h.bound
  unfold Progress.visible at hbound
  unfold Progress.Foresees
  cases hreturned : p.returned with
  | none =>
    rw [hreturned] at hbound
    exact hexactly.mono fun source hsource => hsource.mono fun row hrow =>
      ⟨hrow.closed, fun x => (hrow.mem_names x).trans (hbound x)⟩
  | some columns =>
    obtain ⟨hnodup, first, projection, hstages, hnames⟩ := h.last columns hreturned
    rw [hstages]
    refine (Stage.made_attachAll first projection ctx).mono fun source hsource =>
      hsource.mono fun row hrow => ⟨hrow.exactly.closed, ?_, hnodup⟩
    obtain ⟨values, hlength, rfl⟩ := hrow
    subst hnames
    exact Projection.names_rowOf hnodup hlength

/-- The rows after each clause of a query. -/
theorem foresees_of_planBranch {clauses : List Clause} {stages : List Stage}
    {columns : List String} (h : planBranch clauses = .ok (stages, columns)) (ctx : RunContext)
    {before after : List Clause} (hclauses : clauses = before ++ after) :
    ∃ p, before.foldlM planClause ⟨[], .empty, none⟩ = .ok p ∧ p.stages <+: stages ∧
      (∀ names, p.returned = some names → names = columns) ∧
      (Stage.attachAll ctx p.stages).Results (Flow.EachOf p.Foresees) := by
  obtain ⟨last, hlast, rfl, rfl⟩ := progress_of_planBranch h
  rw [hclauses, List.foldlM_append] at hlast
  obtain ⟨p, hp, hafter⟩ := ok_of_bind hlast
  have hexact := (exact_of_planClauses hp exact_start).1
  refine ⟨p, hp, ?_, fun names hnames => ?_, hexact.foresees ctx⟩
  · obtain ⟨-, more, hmore⟩ := exact_of_planClauses hafter hexact
    exact ⟨more, hmore.symm⟩
  · rw [eq_nil_of_returned hafter (by rw [hnames]; exact nofun)] at hafter
    cases hafter
    rw [hnames]
    rfl

/-! ## The queries of a union -/

theorem isSome_of_branches {all : Bool} {query : List Clause} {depth : Nat}
    {queries : List (List Clause)} {kind : Option Bool}
    (h : branches (some all) query depth = .ok (queries, kind)) : kind.isSome = true := by
  induction depth generalizing all query queries kind with
  | zero => cases h; rfl
  | succ depth ih =>
    unfold branches at h
    split at h
    · cases h; rfl
    · split at h
      · cases h
      · split at h
        · cases h
        · obtain ⟨⟨others, kind'⟩, hothers, h⟩ := ok_of_bind h
          cases h
          exact ih hothers

/-- A query without a union is one query. -/
theorem single_of_branches {query : List Clause} {depth : Nat} {queries : List (List Clause)}
    (h : branches none query depth = .ok (queries, none)) : ∃ clauses, queries = [clauses] := by
  cases depth with
  | zero => cases h; exact ⟨_, rfl⟩
  | succ depth =>
    unfold branches at h
    split at h
    · cases h; exact ⟨_, rfl⟩
    · split at h
      · cases h
      · split at h
        · cases h
        · obtain ⟨⟨others, kind'⟩, hothers, h⟩ := ok_of_bind h
          cases h
          cases isSome_of_branches hothers

/-- The queries of a union one by one, each planned with the columns of the plan. -/
theorem branches_of_ofQuery {query : Query} {plan : Plan} (h : ofQuery query = .ok plan) :
    ∃ queries kind, branches none query (unionDepth query + 1) = .ok (queries, kind) ∧
      List.Forall₂ (fun clauses stages => planBranch clauses = .ok (stages, plan.columns))
        queries plan.body.branches := by
  obtain ⟨⟨queries, kind⟩, hqueries, h⟩ := ok_of_bind h
  obtain ⟨planned, hplanned, h⟩ := ok_of_bind h
  refine ⟨queries, kind, hqueries, ?_⟩
  have hall := Constraints.forall₂_of_mapM hplanned
  have hsame : ∀ {qs : List (List Clause)} {ps : List (List Stage × List String)},
      List.Forall₂ (fun q p => planBranch q = .ok p) qs ps → ∀ columns, (∀ p ∈ ps, p.2 = columns) →
      List.Forall₂ (fun q stages => planBranch q = .ok (stages, columns)) qs (ps.map Prod.fst) := by
    intro qs ps hall columns hcolumns
    induction hall with
    | nil => exact .nil
    | @cons q p _ _ hq _ ih =>
      obtain ⟨rfl, hrest⟩ := List.forall_mem_cons.1 hcolumns
      exact .cons hq (ih hrest)
  rcases planned with _ | ⟨⟨stages, columns⟩, rest⟩
  · cases kind <;> cases h
  · cases kind with
    | none =>
      obtain ⟨clauses, rfl⟩ := single_of_branches hqueries
      cases hall with
      | cons hclauses hrest =>
        cases hrest
        cases h
        exact .cons hclauses .nil
    | some all =>
      dsimp only at h
      split at h
      · cases h
      · split at h
        · cases h
        · next hdiffer =>
          cases h
          refine hsame hall columns (List.forall_mem_cons.2 ⟨rfl, fun p hp => ?_⟩)
          by_contra hne
          exact hdiffer (List.any_eq_true.2 ⟨p, hp, bne_iff_ne.2 hne⟩)

/-! ## The rows of the result -/

/-- A plan with columns gives rows of these columns, from all queries of a union alike. -/
theorem exact_flow {body : PlanBody} {columns : List String} (hcolumns : columns ≠ [])
    (h : ∀ stages ∈ body.branches, ∃ clauses, planBranch clauses = .ok (stages, columns))
    (ctx : RunContext) :
    (body.flow ctx).Results
      (Flow.EachOf fun row => row.scopes = [] ∧ row.names = columns ∧ columns.Nodup) := by
  have hbranch : ∀ stages ∈ body.branches, (Stage.attachAll ctx stages).Results
      (Flow.EachOf fun row => row.scopes = [] ∧ row.names = columns ∧ columns.Nodup) := by
    intro stages hstages
    obtain ⟨clauses, hclauses⟩ := h stages hstages
    obtain ⟨p, hp, rfl, hreturned⟩ := progress_of_planBranch hclauses
    have hforesees := (exact_of_planClauses hp exact_start).1.foresees ctx
    unfold Progress.Foresees at hforesees
    cases hopen : p.returned with
    | none =>
      rw [hopen] at hreturned
      exact absurd hreturned.symm hcolumns
    | some names =>
      rw [hopen] at hforesees hreturned
      subst hreturned
      exact hforesees
  cases body with
  | series stages => exact hbranch stages (List.mem_singleton.2 rfl)
  | union all branches =>
    refine (Run.Keeps.mapM (S := fun _ => Flow.EachOf _) hbranch).bind
      fun sources hsources => .ok fun s hs => ?_
    have hrows := Flow.keeps_inTurn (g := fun source s => source s)
      (fun source hsource => (exists_of_forall₂ hsources hsource).choose_spec.2) s hs
    dsimp only
    split
    · exact hrows.counted _
    · exact (hrows.distinct []).counted _

/-- In every query of a plan and after each of its clauses, the rows have no temporary scope left
and exactly the columns that are planned: the names in scope, and after a `RETURN` the columns of
the plan in order, each once.  So do the rows of the result.  This holds for any store, whatever is
done to it while the rows are asked for. -/
theorem rows_as_planned {query : Query} {plan : Plan} (h : ofQuery query = .ok plan)
    (ctx : RunContext) :
    (∃ queries kind, branches none query (unionDepth query + 1) = .ok (queries, kind) ∧
      List.Forall₂ (fun clauses stages => ∀ before after, clauses = before ++ after →
        ∃ p, before.foldlM planClause ⟨[], .empty, none⟩ = .ok p ∧ p.stages <+: stages ∧
          (∀ names, p.returned = some names → names = plan.columns) ∧
          (Stage.attachAll ctx p.stages).Results (Flow.EachOf p.Foresees))
        queries plan.body.branches) ∧
    (plan.columns ≠ [] → (plan.body.flow ctx).Results
      (Flow.EachOf fun row => row.scopes = [] ∧ row.names = plan.columns ∧ plan.columns.Nodup)) := by
  obtain ⟨queries, kind, hqueries, hall⟩ := branches_of_ofQuery h
  refine ⟨⟨queries, kind, hqueries, hall.imp fun clauses stages hplanned before after =>
    foresees_of_planBranch hplanned ctx⟩, fun hcolumns => ?_⟩
  refine exact_flow hcolumns (fun stages hstages => ?_) ctx
  obtain ⟨clauses, -, hclauses⟩ := exists_of_forall₂ hall hstages
  exact ⟨clauses, hclauses⟩

/-- Gives one row, whose column has another name than what it is computed from. -/
def renamed : Query :=
  [.unwind (.list [.literal (.int 1)]) "x",
    .projectReturn ⟨false, false, [⟨.var "x", some "y"⟩], [], none, none⟩]

theorem rows_as_planned_renamed : ∃ plan, ofQuery renamed = .ok plan ∧ plan.columns = ["y"] ∧
    (plan.body.flow Search.plainContext).Results
      (Flow.EachOf fun row => row.scopes = [] ∧ row.names = ["y"] ∧ ["y"].Nodup) := by
  obtain ⟨plan, hplan, hcolumns⟩ : ∃ plan, ofQuery renamed = .ok plan ∧ plan.columns = ["y"] :=
    ⟨_, rfl, rfl⟩
  have hresult := (rows_as_planned hplan Search.plainContext).2
  rw [hcolumns] at hresult
  exact ⟨plan, hplan, hcolumns, hresult nofun⟩

/-- A `RETURN` leaves the scope as it is, so that after it the names in scope are not the columns of
the rows. -/
theorem return_apart : ¬ ∀ (query : Query) (plan : Plan) (p : Progress) (ctx : RunContext),
    ofQuery query = .ok plan → query.foldlM planClause ⟨[], .empty, none⟩ = .ok p →
    (Stage.attachAll ctx p.stages).Results
      (Flow.EachOf fun row => ∀ x, x ∈ row.names ↔ x ∈ p.scope.names) := by
  intro h
  have hrows := h renamed _ _ Search.plainContext rfl rfl
  obtain ⟨-, hrow, -⟩ := (hrows .initial trivial _ .initial rfl).2 .initial trivial
  have hy : "y" ∈ ["x"] := (hrow "y").1 (by decide)
  exact absurd hy (by decide)

end Plan

end PropertyGraph
