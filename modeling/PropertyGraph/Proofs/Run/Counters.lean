import PropertyGraph.Proofs.Run.Reading

/-!
# Counters decide nothing

The counters of a statement say what it has done and are never asked.  So all stages of a plan give
the same rows and do the same to the graph in two states that differ in their counters only.

    RunState.Like           the states differ in their counters at most
    RunState.SameGraph      the states hold the same graph
    Graphic                 a relation that writing the graph alike cannot leave
    Stage.twins_flow        every stage
-/

namespace PropertyGraph

/-- The states differ in their counters at most. -/
structure RunState.Like (s t : RunState) : Prop where
  store : s.store = t.store
  vertexIds : s.vertexIds = t.vertexIds
  edgeIds : s.edgeIds = t.edgeIds
  estimates : s.estimates = t.estimates

namespace RunState.Like

theorem refl (s : RunState) : s.Like s :=
  ⟨rfl, rfl, rfl, rfl⟩

theorem symm {s t : RunState} (h : s.Like t) : t.Like s :=
  ⟨h.store.symm, h.vertexIds.symm, h.edgeIds.symm, h.estimates.symm⟩

theorem trans {s t u : RunState} (h : s.Like t) (h' : t.Like u) : s.Like u :=
  ⟨h.store.trans h'.store, h.vertexIds.trans h'.vertexIds, h.edgeIds.trans h'.edgeIds,
    h.estimates.trans h'.estimates⟩

theorem iff_stats {s t : RunState} : s.Like t ↔ ∃ n, t = { s with stats := n } := by
  constructor
  · rintro ⟨hstore, hvertexIds, hedgeIds, hestimates⟩
    exact ⟨t.stats, by rw [hstore, hvertexIds, hedgeIds, hestimates]⟩
  · rintro ⟨n, rfl⟩
    exact ⟨rfl, rfl, rfl, rfl⟩

theorem uncounted : Uncounted RunState.Like :=
  fun _ _ h _ _ => ⟨h.store, h.vertexIds, h.edgeIds, h.estimates⟩

end RunState.Like

/-- The states hold the same graph, and as many ids have been given out in both. -/
structure RunState.SameGraph (s t : RunState) : Prop where
  store : s.store = t.store
  vertexIds : s.vertexIds = t.vertexIds
  edgeIds : s.edgeIds = t.edgeIds

theorem RunState.SameGraph.refl (s : RunState) : s.SameGraph s :=
  ⟨rfl, rfl, rfl⟩

theorem RunState.SameGraph.symm {s t : RunState} (h : s.SameGraph t) : t.SameGraph s :=
  ⟨h.store.symm, h.vertexIds.symm, h.edgeIds.symm⟩

theorem RunState.SameGraph.trans {s t u : RunState} (h : s.SameGraph t) (h' : t.SameGraph u) :
    s.SameGraph u :=
  ⟨h.store.trans h'.store, h.vertexIds.trans h'.vertexIds, h.edgeIds.trans h'.edgeIds⟩

/-- Related states hold the same graph, and they stay related when both get the same other one,
whatever happens to their counters. -/
class Graphic (R : RunState → RunState → Prop) : Prop where
  same : ∀ s t, R s t → s.SameGraph t
  change : ∀ s t, R s t → ∀ store vertexIds edgeIds n m,
    R ⟨store, vertexIds, edgeIds, n, s.estimates⟩ ⟨store, vertexIds, edgeIds, m, t.estimates⟩

instance : Graphic RunState.Like where
  same _ _ h := ⟨h.store, h.vertexIds, h.edgeIds⟩
  change _ _ h _ _ _ _ _ := ⟨rfl, rfl, rfl, h.estimates⟩

instance : Graphic RunState.SameGraph where
  same _ _ h := h
  change _ _ _ _ _ _ _ _ := ⟨rfl, rfl, rfl⟩

/-- States with the same graph agree on the values of expressions. -/
instance {ctx : RunContext} {R : RunState → RunState → Prop} [Graphic R] : SameWorld ctx R where
  uncounted s t hst n m := by
    obtain ⟨hstore, hvertexIds, hedgeIds⟩ := Graphic.same s t hst
    have h := Graphic.change s t hst s.store s.vertexIds s.edgeIds n m
    rwa [show (⟨s.store, s.vertexIds, s.edgeIds, m, t.estimates⟩ : RunState) =
      { t with stats := m } by rw [hstore, hvertexIds, hedgeIds]] at h
  env s t hst := by rw [(Graphic.same s t hst).store]

open RunState (Like)

variable {α : Type} {ctx : RunContext} {R : RunState → RunState → Prop}

/-! ## Simple computations -/

/-- A computation that gives the same whatever the counters are, and keeps all but these. -/
theorem Blind.of_stats {c : RunState → α × RunState}
    (h : ∀ s n, ∃ m, c { s with stats := n } = ((c s).1, { (c s).2 with stats := m })) :
    Blind Like c := by
  intro s t hst
  obtain ⟨n, rfl⟩ := RunState.Like.iff_stats.1 hst
  obtain ⟨m, hm⟩ := h s n
  rw [hm]
  exact ⟨rfl, trivial, RunState.Like.iff_stats.2 ⟨m, rfl⟩⟩

/-- A computation on the graph, which neither asks nor changes the counters but for counting and
leaves the estimates alone. -/
theorem Blind.of_graph [Graphic R] {c : RunState → α × RunState}
    (h : ∀ s n es, ∃ m, c { s with stats := n, estimates := es } =
      ((c s).1, { (c s).2 with stats := m, estimates := es })) :
    Blind R c := by
  intro s t hst
  obtain ⟨hstore, hvertexIds, hedgeIds⟩ := Graphic.same s t hst
  have ht : t = { s with stats := t.stats, estimates := t.estimates } := by
    rw [hstore, hvertexIds, hedgeIds]
  obtain ⟨n, hn⟩ := h s s.stats s.estimates
  obtain ⟨m, hm⟩ := h s t.stats t.estimates
  have hs' := congrArg Prod.snd hn
  have ht' := congrArg Prod.snd hm
  rw [← ht] at hm ht'
  refine ⟨by rw [hm], trivial, ?_⟩
  rw [ht', show (c s).2 = { (c s).2 with stats := n, estimates := s.estimates } from hs']
  exact Graphic.change s t hst _ _ _ _ _

namespace Run

theorem blind_update [Graphic R] {f : RunState → RunState}
    (h : ∀ s n es, ∃ m, f { s with stats := n, estimates := es } =
      { f s with stats := m, estimates := es }) :
    Blind R (Run.update f) :=
  .of_graph fun s n es => (h s n es).imp fun m hm => by unfold Run.update; rw [hm]

theorem blind_countWrites [Graphic R] (f : WriteCounts → WriteCounts) :
    Blind R (Run.countWrites f) :=
  blind_update fun _ _ _ => ⟨_, rfl⟩

theorem blind_store [Graphic R] : Blind R Run.store :=
  .of_graph fun _ n _ => ⟨n, rfl⟩

theorem blind_write [Graphic R] (f : Store → Except StoreError Store) : Blind R (Run.write f) := by
  refine .of_graph fun s n es => ⟨n, ?_⟩
  unfold Run.write
  simp only
  split <;> rfl

theorem blind_nextVertexId [Graphic R] : Blind R Run.nextVertexId :=
  .of_graph fun _ n _ => ⟨n, rfl⟩

theorem blind_nextEdgeId [Graphic R] : Blind R Run.nextEdgeId :=
  .of_graph fun _ n _ => ⟨n, rfl⟩

end Run

/-! ## Matching -/

/-- A search is told the same by states that differ in their counters only. -/
theorem Search.sees_like (q : Search) :
    q.Sees Like (fun _ => True) (fun _ => True) where
  uncounted := RunState.Like.uncounted
  nodeEstimate n _ := blind_nodeEstimate RunState.Like.uncounted (fun _ _ hst => hst.estimates)
    (fun _ _ hst _ => ⟨hst.store, hst.vertexIds, hst.edgeIds, rfl⟩) fun s t hst => by rw [hst.store]
  relationshipEstimate r _ := blind_relationshipEstimate RunState.Like.uncounted
    (fun _ _ hst => hst.estimates) (fun _ _ hst _ => ⟨hst.store, hst.vertexIds, hst.edgeIds, rfl⟩)
    fun s t hst => by rw [hst.store]
  givenUp r _ s t hst := Or.inl (by rw [hst.store])
  vertex s t hst id _ := ⟨by rw [hst.store], fun _ _ => trivial⟩
  edges s t hst id _ r _ direction := ⟨by rw [hst.store], fun _ _ _ => trivial⟩
  setNode _ _ _ _ := trivial
  setRelationship _ _ _ _ := trivial
  seed _ _ n _ _ _ _ _ s t hst := by
    rw [hst.store]
    exact ⟨rfl, fun _ _ => trivial⟩

theorem Search.twins_like (q : Search) (row : Row) : Flow.Twins Like (q.flow row) (q.flow row) :=
  q.sees_like.twins_flow fun _ _ _ _ => ⟨⟨fun _ _ _ => trivial, fun _ _ _ _ _ _ =>
    ⟨trivial, trivial⟩⟩, trivial⟩

namespace RunContext

theorem twins_matchRow (pattern : Constraints Expr) (condition : Option Expr) (row : Row) :
    Flow.Twins Like (ctx.matchRow pattern condition row) (ctx.matchRow pattern condition row) :=
  twins_matchRow_of fun _ _ resolved _ => (Search.of ctx resolved).twins_like row

/-! ## Creation -/

section Creation

variable [Graphic R]

theorem blind_prepare (name : String) (v : Value) : Blind R (prepare name v) := by
  refine .of_graph fun s n es => ⟨n, ?_⟩
  unfold prepare
  split <;> rfl

theorem blind_storedProperties (row : Row) (ps : List (String × Expr)) :
    Blind R (ctx.storedProperties row ps) := by
  induction ps with
  | nil => exact .ok []
  | cons p rest ih =>
    unfold storedProperties
    refine .andThen (blind_value p.2 row) fun v => ?_
    split
    · exact ih
    · exact .andThen (blind_prepare _ v) fun _ => .andThen ih fun more => .ok _

theorem blind_createVertex (n : NodePattern) (row : Row) : Blind R (ctx.createVertex n row) := by
  unfold createVertex
  refine .andThen (blind_storedProperties row n.properties) fun properties => ?_
  refine .andThen Run.blind_nextVertexId fun id => ?_
  refine .andThen (Run.blind_write _) fun _ => ?_
  exact .andThen (Run.blind_countWrites _) fun _ => .ok _

theorem blind_createNode (n : NodePattern) (row : Row) : Blind R (ctx.createNode n row) := by
  unfold createNode
  split
  · exact .andThen (blind_createVertex n row) fun v => .ok _
  · split
    · split
      · exact .fail _
      · split
        · exact .ok _
        · exact .ok _
        · exact .fail _
    · exact .andThen (blind_createVertex n row) fun v => .ok _

theorem blind_createNodes (ns : List NodePattern) (row : Row) :
    Blind R (ctx.createNodes row ns) := by
  induction ns generalizing row with
  | nil => exact .ok _
  | cons n rest ih =>
    unfold createNodes
    exact .andThen (blind_createNode n row) fun p => .andThen (ih p.2) fun p' => .ok _

theorem blind_createEdge (r : RelationshipPattern) (left right : Option Vertex) (row : Row) :
    Blind R (ctx.createEdge r left right row) := by
  unfold createEdge
  simp only
  split
  · exact fun _ _ h => ⟨rfl, trivial, h⟩
  · split
    · refine .andThen (blind_storedProperties row r.properties) fun properties => ?_
      refine .andThen Run.blind_nextEdgeId fun id => ?_
      refine .andThen (Run.blind_write _) fun _ => ?_
      exact .andThen (Run.blind_countWrites _) fun _ => .ok _
    · exact .fail _
    · exact .fail _

theorem blind_createEdges (rs : List RelationshipPattern) (vertices : List (Option Vertex))
    (row : Row) : Blind R (ctx.createEdges row rs vertices) := by
  induction rs generalizing vertices row with
  | nil => exact .ok _
  | cons r rest ih =>
    match vertices with
    | [] => exact .ok _
    | [_] => exact .ok _
    | left :: right :: vertices =>
      unfold createEdges
      exact .andThen (blind_createEdge r left right row) fun p =>
        .andThen (ih (right :: vertices) p.2) fun p' => .ok _

theorem blind_finishPart (part : PatternPart) (vertices : List (Option Vertex)) (row : Row) :
    Blind R (ctx.finishPart part vertices row) := by
  unfold finishPart
  refine .andThen (blind_createEdges part.relationships vertices row) fun (edges, row) => ?_
  dsimp only
  split
  · exact .ok _
  · split
    · exact .ok _
    · exact .fail _

theorem blind_startParts (parts : List PatternPart) (row : Row) :
    Blind R (ctx.startParts row parts) := by
  induction parts generalizing row with
  | nil => exact .ok _
  | cons part rest ih =>
    unfold startParts
    exact .andThen (blind_createNodes part.nodes row) fun p => .andThen (ih p.2) fun p' => .ok _

theorem blind_create (parts : List PatternPart) (row : Row) :
    Blind R (ctx.create parts row) := by
  unfold create
  exact .andThen (blind_startParts parts row.child) fun p =>
    .foldlM (fun row part _ => blind_finishPart part.1 part.2 row) p.2

theorem blind_createApart (parts : List PatternPart) (row : Row) :
    Blind R (ctx.createApart parts row) := by
  unfold createApart
  refine .foldlM (fun joined part _ => ?_) row.child
  exact .andThen (blind_create [part] row) fun out =>
    .andThen (Run.blind_update fun _ _ _ => ⟨_, rfl⟩) fun _ => .ok _

end Creation

/-! ## Change -/

theorem blind_refresh (names : List String) (row : Row) :
    Blind Like (ctx.refresh names row) := by
  unfold refresh
  refine .foldlOk (fun row name => ?_) names row
  exact .of_stats fun s n => by dsimp only; split <;> exact ⟨_, rfl⟩

theorem blind_subject (v : Value) : Blind Like (subject v) := by
  unfold subject
  split
  · exact .ok _
  · exact .ok _
  · exact .ok _
  · exact .fail _

theorem blind_save (target : ElementId) (changes : List Change) (row : Row) :
    Blind Like (save target changes row) := by
  refine .of_stats fun s n => ⟨n, ?_⟩
  unfold save
  split
  · rfl
  · dsimp only
    split <;> rfl

theorem blind_setProperty (target : Expr) (key : String) (e : Expr) (row : Row) :
    Blind Like (ctx.setProperty target key e row) := by
  unfold setProperty
  refine .andThen (blind_value e row) fun v => .andThen (blind_value target row) fun w => ?_
  refine .andThen (blind_subject w) fun o => ?_
  split
  · exact .ok row
  · dsimp only
    split
    · split
      · exact .andThen (Run.blind_countWrites _) fun _ => blind_save _ _ row
      · exact .ok row
    · exact .andThen (blind_prepare _ v) fun _ =>
        .andThen (Run.blind_countWrites _) fun _ => blind_save _ _ row

theorem blind_entriesOf (v : Value) : Blind Like (entriesOf v) := by
  unfold entriesOf
  split
  · exact .ok _
  · exact .ok _
  · exact .ok _
  · exact .fail _

theorem blind_entryChanges (replace : Bool) (properties : Properties)
    (entries : List (String × Value)) :
    Blind Like (ctx.entryChanges replace properties entries) := by
  induction entries with
  | nil => exact .ok []
  | cons p rest ih =>
    unfold entryChanges
    dsimp only
    split
    · exact .andThen ih fun changes => .ok _
    · exact .andThen (blind_prepare _ p.2) fun _ => .andThen ih fun changes => .ok _

theorem blind_setProperties (replace : Bool) (x : String) (e : Expr) (row : Row) :
    Blind Like (ctx.setProperties replace x e row) := by
  unfold setProperties
  refine .andThen (.lift _) fun v => .andThen (blind_subject v) fun o => ?_
  split
  · exact .ok row
  · refine .andThen (blind_value e row) fun w => .andThen (blind_entriesOf w) fun entries => ?_
    refine .andThen (blind_entryChanges replace _ entries) fun changes => ?_
    exact .andThen (Run.blind_countWrites _) fun _ => blind_save _ _ row

theorem blind_labelled (x : String) (row : Row) : Blind Like (labelled x row) := by
  unfold labelled
  refine .andThen (.lift _) fun v => ?_
  split
  · exact .ok _
  · exact .ok _
  · exact .fail _

theorem blind_addLabels (x : String) (labels : List String) (row : Row) :
    Blind Like (ctx.addLabels x labels row) := by
  unfold addLabels
  refine .andThen (blind_labelled x row) fun o => ?_
  split
  · exact .ok row
  · exact .andThen (Run.blind_countWrites _) fun _ => blind_save _ _ row

theorem blind_removeLabels (x : String) (labels : List String) (row : Row) :
    Blind Like (ctx.removeLabels x labels row) := by
  unfold removeLabels
  refine .andThen (blind_labelled x row) fun o => ?_
  split
  · exact .ok row
  · exact .andThen (Run.blind_countWrites _) fun _ => blind_save _ _ row

theorem blind_removeProperty (target : Expr) (key : String) (row : Row) :
    Blind Like (ctx.removeProperty target key row) := by
  unfold removeProperty
  refine .andThen (blind_value target row) fun v => .andThen (blind_subject v) fun o => ?_
  split
  · exact .ok row
  · dsimp only
    split
    · exact .andThen (Run.blind_countWrites _) fun _ => blind_save _ _ row
    · exact .ok row

theorem blind_setItem (item : SetItem) (row : Row) : Blind Like (ctx.setItem row item) := by
  unfold setItem
  refine .andThen (blind_refresh item.names row) fun row => ?_
  cases item with
  | property target key e => exact blind_setProperty target key e row
  | replace x e => exact blind_setProperties true x e row
  | merge x e => exact blind_setProperties false x e row
  | labels x labels => exact blind_addLabels x labels row

theorem blind_set (items : List SetItem) (row : Row) : Blind Like (ctx.set items row) :=
  .foldlM (fun row item _ => blind_setItem item row) row

theorem blind_removeItem (item : RemoveItem) (row : Row) :
    Blind Like (ctx.removeItem row item) := by
  cases item with
  | property target key =>
    exact .andThen (blind_refresh target.freeNames row) fun row => blind_removeProperty target key row
  | labels x labels =>
    exact .andThen (blind_refresh [x] row) fun row => blind_removeLabels x labels row

theorem blind_remove (items : List RemoveItem) (row : Row) : Blind Like (ctx.remove items row) :=
  .foldlM (fun row item _ => blind_removeItem item row) row

/-! ## Merging and deletion -/

theorem blind_mergeMatches (pattern : Constraints Expr) (row : Row) :
    Blind Like (ctx.mergeMatches pattern row) := by
  unfold mergeMatches
  refine .andThen (.constraints (fun e => ?_) pattern) fun resolved => ?_
  · refine .andThen (blind_value e row) fun v => ?_
    split
    · exact .fail _
    · exact .ok v
  · refine .andThen (Flow.Twins.toList RunState.Like.uncounted ?_) fun found => .ok _
    exact (Search.of ctx resolved).twins_like row

theorem blind_merge (pattern : Constraints Expr) (part : PatternPart)
    (onCreate onMatch : List SetItem) (row : Row) :
    Blind Like (ctx.merge pattern part onCreate onMatch row) := by
  unfold merge
  refine .andThen (blind_mergeMatches pattern row) fun rows => ?_
  split
  · exact .andThen (blind_create [part] row) fun out =>
      .andThen (blind_set onCreate out) fun out => .ok _
  · exact .runMapM fun row _ => blind_set onMatch row

theorem blind_doomed (targets : List Expr) (rows : List Row) :
    Blind Like (ctx.doomed targets rows) :=
  .foldlM (fun d row _ => .foldlM (fun _ e _ =>
    .andThen (blind_value e row) fun _ => .lift _) d) _

theorem blind_withIncident (detach : Bool) (d : Doomed) :
    Blind Like (ctx.withIncident detach d) :=
  .foldlM (fun _ _ _ => .andThen Run.blind_store fun _ =>
    .andThen (Run.blind_update fun _ _ _ => ⟨_, rfl⟩) fun _ => .lift _) d

theorem blind_removeAll (d : Doomed) : Blind Like (removeAll d) := by
  unfold removeAll
  refine .andThen (.forM fun id _ => ?_) fun _ => .forM fun id _ => ?_
  · exact .andThen (Run.blind_write _) fun _ => Run.blind_countWrites _
  · exact .andThen (Run.blind_write _) fun _ => Run.blind_countWrites _

theorem blind_delete (detach : Bool) (targets : List Expr) (rows : List Row) :
    Blind Like (ctx.delete detach targets rows) :=
  .andThen (blind_doomed targets rows) fun d =>
    .andThen (blind_withIncident detach d) fun d => blind_removeAll d

end RunContext

/-! ## Stages -/

namespace Stage

variable {source : Source Row} (hsource : Flow.Twins Like source source)

include hsource

theorem twins_flow (stage : Stage) :
    Flow.Twins Like (stage.flow ctx source) (stage.flow ctx source) := by
  have hreading : ∀ stage : Stage, stage.isWrite = false →
      Flow.Twins Like (stage.flow ctx source) (stage.flow ctx source) := fun stage hread =>
    twins_reading hread (fun g condition _ row => ctx.twins_matchRow g condition row) hsource
  have heach : ∀ {k : Row → Source Row}, (∀ row, Flow.Twins Like (k row) (k row)) →
      Flow.Twins Like (fun s => (source s).flatMap k) (fun s => (source s).flatMap k) :=
    fun hk s t hst => (hsource s t hst).flatMap RunState.Like.uncounted hk
  cases stage with
  | matching g condition => exact hreading _ rfl
  | filter e => exact hreading _ rfl
  | unwind e name => exact hreading _ rfl
  | project p => exact hreading _ rfl
  | create parts =>
    exact heach fun row => Flow.twins_ofRun
      (.andThen (ctx.blind_create parts row) fun out => .ok _)
  | createApart parts =>
    exact heach fun row => Flow.twins_ofRun
      (.andThen (ctx.blind_createApart parts row) fun out => .ok _)
  | merge g part onCreate onMatch =>
    exact heach fun row => Flow.twins_ofRun
      (ctx.blind_merge g part onCreate onMatch row)
  | set items =>
    exact heach fun row => Flow.twins_ofRun
      (.andThen (ctx.blind_set items row) fun out => .ok _)
  | remove items =>
    exact heach fun row => Flow.twins_ofRun
      (.andThen (ctx.blind_remove items row) fun out => .ok _)
  | delete detach targets =>
    exact Flow.twins_ofRun (.andThen (hsource.toList RunState.Like.uncounted) fun rows =>
      .andThen (ctx.blind_delete detach targets rows) fun _ => .ok rows)

end Stage

end PropertyGraph
