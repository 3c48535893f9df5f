import PropertyGraph.Proofs.Run.Cursors
import PropertyGraph.Proofs.Run.Cut

/-!
# Stages that close their cursors

Matching opens cursors and closes them; everything else that a statement does with a row has nothing
to do with cursors, apart from the search of a `MERGE`.  So every stage turns a balanced flow of
rows into a balanced one, and a stage that takes in all rows at once leaves no cursor open.

    RunContext.levels_matchRow   the rows of a `MATCH`
    Projection.levels_flow       a projection
    Stage.levels_flow            every other stage
-/

namespace PropertyGraph

variable {ctx : RunContext}

/-! ## Simple computations -/

theorem Run.level_countWrites (f : WriteCounts → WriteCounts) : Level (Run.countWrites f) :=
  .quiet fun _ => ⟨rfl, rfl⟩

theorem Run.level_write (f : Store → Except StoreError Store) : Level (Run.write f) := by
  refine .quiet fun s => ?_
  unfold Run.write
  split <;> exact ⟨rfl, rfl⟩

theorem Flow.level_toList {α : Type} {source : Source α} (h : Levels source) :
    Level (toList source) := by
  rw [toList_eq]
  exact (level_foldRun h (fun items a => .ok (a :: items)) []).andThen fun items => .ok _

namespace RunContext

theorem level_value (e : Expr) (row : Row) : Level (ctx.value e row) :=
  .quiet fun _ => ⟨rfl, rfl⟩

theorem level_holds (e : Expr) (row : Row) : Level (ctx.holds e row) :=
  .quiet fun _ => ⟨rfl, rfl⟩

/-! ## Matching -/

theorem level_matchedRow (pattern : Constraints Value) (condition : Option Expr) (row : Row)
    (m : Match) : Level (ctx.matchedRow pattern condition row m) := by
  unfold matchedRow
  split
  · exact .ok none
  · cases condition with
    | none => exact .ok _
    | some e =>
      refine (level_holds e _).andThen fun b => ?_
      split
      · exact .ok _
      · exact .ok none

theorem levels_matchRow (pattern : Constraints Expr) (condition : Option Expr) (row : Row) :
    Flow.Levels (ctx.matchRow pattern condition row) := by
  intro n s hs
  have hresolved := Level.constraints (fun e => ctx.level_value e row) pattern n s hs
  unfold matchRow
  split
  · next e s' h =>
    rw [h] at hresolved
    exact hresolved
  · next resolved s' h =>
    rw [h] at hresolved
    have hrows := ((Search.of ctx resolved).levels_flow row n s' hresolved).flatMap fun m =>
      Flow.levels_ofOption (ctx.level_matchedRow resolved condition row m)
    dsimp only
    split
    · exact hrows.orElse (Flow.levels_single _)
    · exact hrows

/-! ## Creation -/

theorem level_prepare (name : String) (v : Value) : Level (prepare name v) := by
  refine .quiet fun s => ?_
  unfold prepare
  split <;> exact ⟨rfl, rfl⟩

theorem level_storedProperties (row : Row) (ps : List (String × Expr)) :
    Level (ctx.storedProperties row ps) := by
  induction ps with
  | nil => exact .ok []
  | cons p rest ih =>
    unfold storedProperties
    refine (level_value p.2 row).andThen fun v => ?_
    split
    · exact ih
    · exact (level_prepare _ v).andThen fun _ => ih.andThen fun more => .ok _

theorem level_createVertex (n : NodePattern) (row : Row) : Level (ctx.createVertex n row) := by
  unfold createVertex
  refine (level_storedProperties row n.properties).andThen fun properties => ?_
  refine .andThen (.quiet fun _ => ⟨rfl, rfl⟩) fun id => ?_
  refine (Run.level_write _).andThen fun _ => ?_
  exact (Run.level_countWrites _).andThen fun _ => .ok _

theorem level_createNode (n : NodePattern) (row : Row) : Level (ctx.createNode n row) := by
  unfold createNode
  split
  · exact (level_createVertex n row).andThen fun v => .ok _
  · split
    · split
      · exact .fail _
      · split
        · exact .ok _
        · exact .ok _
        · exact .fail _
    · exact (level_createVertex n row).andThen fun v => .ok _

theorem level_createNodes (ns : List NodePattern) (row : Row) : Level (ctx.createNodes row ns) := by
  induction ns generalizing row with
  | nil => exact .ok _
  | cons n rest ih =>
    unfold createNodes
    exact (level_createNode n row).andThen fun p => (ih p.2).andThen fun p' => .ok _

theorem level_createEdge (r : RelationshipPattern) (left right : Option Vertex) (row : Row) :
    Level (ctx.createEdge r left right row) := by
  unfold createEdge
  dsimp only
  split
  · exact fun _ _ hs => hs
  · split
    · refine (level_storedProperties row r.properties).andThen fun properties => ?_
      refine .andThen (.quiet fun _ => ⟨rfl, rfl⟩) fun id => ?_
      refine (Run.level_write _).andThen fun _ => ?_
      exact (Run.level_countWrites _).andThen fun _ => .ok _
    · exact .fail _
    · exact .fail _

theorem level_createEdges (rs : List RelationshipPattern) (vertices : List (Option Vertex))
    (row : Row) : Level (ctx.createEdges row rs vertices) := by
  induction rs generalizing vertices row with
  | nil => exact .ok _
  | cons r rest ih =>
    match vertices with
    | [] => exact .ok _
    | [_] => exact .ok _
    | left :: right :: vertices =>
      unfold createEdges
      exact (level_createEdge r left right row).andThen fun p =>
        (ih (right :: vertices) p.2).andThen fun p' => .ok _

theorem level_finishPart (part : PatternPart) (vertices : List (Option Vertex)) (row : Row) :
    Level (ctx.finishPart part vertices row) := by
  unfold finishPart
  refine (level_createEdges part.relationships vertices row).andThen fun (edges, row) => ?_
  dsimp only
  split
  · exact .ok _
  · split
    · exact .ok _
    · exact .fail _

theorem level_startParts (parts : List PatternPart) (row : Row) :
    Level (ctx.startParts row parts) := by
  induction parts generalizing row with
  | nil => exact .ok _
  | cons part rest ih =>
    unfold startParts
    exact (level_createNodes part.nodes row).andThen fun p => (ih p.2).andThen fun p' => .ok _

theorem level_create (parts : List PatternPart) (row : Row) : Level (ctx.create parts row) :=
  (level_startParts parts row.child).andThen fun p =>
    .foldlM (fun row (part, vertices) => level_finishPart part vertices row) _ p.2

theorem level_createApart (parts : List PatternPart) (row : Row) :
    Level (ctx.createApart parts row) :=
  .foldlM (fun _ part => (level_create [part] row).andThen fun _ =>
    .andThen (.quiet fun _ => ⟨rfl, rfl⟩) fun _ => .ok _) parts row.child

/-! ## Change -/

theorem level_refresh (names : List String) (row : Row) : Level (ctx.refresh names row) := by
  intro n s hs
  unfold refresh
  refine List.foldlRecOn (motive := fun p : Row × RunState => p.2.Holds n) names _ hs
    fun p hp name _ => ?_
  dsimp only
  split
  · exact hp
  · exact hp.request 1

theorem level_subject (v : Value) : Level (subject v) := by
  unfold subject
  split
  · exact .ok _
  · exact .ok _
  · exact .ok _
  · exact .fail _

theorem level_save (target : ElementId) (changes : List Change) (row : Row) :
    Level (save target changes row) := by
  refine .quiet fun s => ?_
  unfold save
  split
  · exact ⟨rfl, rfl⟩
  · split <;> exact ⟨rfl, rfl⟩

theorem level_setProperty (target : Expr) (key : String) (e : Expr) (row : Row) :
    Level (ctx.setProperty target key e row) := by
  unfold setProperty
  refine (level_value e row).andThen fun v => (level_value target row).andThen fun w => ?_
  refine (level_subject w).andThen fun o => ?_
  split
  · exact .ok row
  · dsimp only
    split
    · split
      · exact (Run.level_countWrites _).andThen fun _ => level_save _ _ row
      · exact .ok row
    · exact (level_prepare _ v).andThen fun _ =>
        (Run.level_countWrites _).andThen fun _ => level_save _ _ row

theorem level_entriesOf (v : Value) : Level (entriesOf v) := by
  unfold entriesOf
  split
  · exact .ok _
  · exact .ok _
  · exact .ok _
  · exact .fail _

theorem level_entryChanges (replace : Bool) (properties : Properties)
    (entries : List (String × Value)) : Level (ctx.entryChanges replace properties entries) := by
  induction entries with
  | nil => exact .ok []
  | cons p rest ih =>
    unfold entryChanges
    dsimp only
    split
    · exact ih.andThen fun changes => .ok _
    · exact (level_prepare _ p.2).andThen fun _ => ih.andThen fun changes => .ok _

theorem level_setProperties (replace : Bool) (x : String) (e : Expr) (row : Row) :
    Level (ctx.setProperties replace x e row) := by
  unfold setProperties
  refine .andThen (.lift _) fun v => (level_subject v).andThen fun o => ?_
  split
  · exact .ok row
  · refine (level_value e row).andThen fun w => (level_entriesOf w).andThen fun entries => ?_
    refine (level_entryChanges replace _ entries).andThen fun changes => ?_
    exact (Run.level_countWrites _).andThen fun _ => level_save _ _ row

theorem level_labelled (x : String) (row : Row) : Level (labelled x row) := by
  unfold labelled
  refine .andThen (.lift _) fun v => ?_
  split
  · exact .ok _
  · exact .ok _
  · exact .fail _

theorem level_addLabels (x : String) (labels : List String) (row : Row) :
    Level (ctx.addLabels x labels row) := by
  unfold addLabels
  refine (level_labelled x row).andThen fun o => ?_
  split
  · exact .ok row
  · exact (Run.level_countWrites _).andThen fun _ => level_save _ _ row

theorem level_removeLabels (x : String) (labels : List String) (row : Row) :
    Level (ctx.removeLabels x labels row) := by
  unfold removeLabels
  refine (level_labelled x row).andThen fun o => ?_
  split
  · exact .ok row
  · exact (Run.level_countWrites _).andThen fun _ => level_save _ _ row

theorem level_removeProperty (target : Expr) (key : String) (row : Row) :
    Level (ctx.removeProperty target key row) := by
  unfold removeProperty
  refine (level_value target row).andThen fun v => (level_subject v).andThen fun o => ?_
  split
  · exact .ok row
  · dsimp only
    split
    · exact (Run.level_countWrites _).andThen fun _ => level_save _ _ row
    · exact .ok row

theorem level_setItem (row : Row) (item : SetItem) : Level (ctx.setItem row item) := by
  unfold setItem
  refine (level_refresh item.names row).andThen fun row => ?_
  cases item with
  | property target key e => exact level_setProperty target key e row
  | replace x e => exact level_setProperties true x e row
  | merge x e => exact level_setProperties false x e row
  | labels x labels => exact level_addLabels x labels row

theorem level_set (items : List SetItem) (row : Row) : Level (ctx.set items row) :=
  .foldlM level_setItem items row

theorem level_removeItem (row : Row) (item : RemoveItem) : Level (ctx.removeItem row item) := by
  cases item with
  | property target key =>
    exact (level_refresh target.freeNames row).andThen fun row => level_removeProperty target key row
  | labels x labels =>
    exact (level_refresh [x] row).andThen fun row => level_removeLabels x labels row

theorem level_remove (items : List RemoveItem) (row : Row) : Level (ctx.remove items row) :=
  .foldlM level_removeItem items row

/-! ## Merging and deletion -/

/-- A search that `MERGE` asks for all its matches at once. -/
theorem level_mergeMatches (pattern : Constraints Expr) (row : Row) :
    Level (ctx.mergeMatches pattern row) := by
  unfold mergeMatches
  refine .andThen (.constraints (fun e => ?_) pattern) fun resolved => ?_
  · refine (level_value e row).andThen fun v => ?_
    split
    · exact .fail _
    · exact .ok v
  · exact (Flow.level_toList (Search.levels_flow _ row)).andThen fun found => .ok _

theorem level_merge (pattern : Constraints Expr) (part : PatternPart)
    (onCreate onMatch : List SetItem) (row : Row) :
    Level (ctx.merge pattern part onCreate onMatch row) := by
  unfold merge
  refine (level_mergeMatches pattern row).andThen fun rows => ?_
  split
  · exact (level_create [part] row).andThen fun out =>
      (level_set onCreate out).andThen fun out => .ok _
  · exact .runMapM (level_set onMatch) _

theorem level_doomed (targets : List Expr) (rows : List Row) : Level (ctx.doomed targets rows) :=
  .foldlM (fun d row => .foldlM (fun _ e => (level_value e row).andThen fun _ => .lift _) targets d)
    rows _

theorem level_withIncident (detach : Bool) (d : Doomed) : Level (ctx.withIncident detach d) :=
  .foldlM (fun _ _ => .andThen (.quiet fun _ => ⟨rfl, rfl⟩) fun _ =>
    .andThen (.quiet fun _ => ⟨rfl, rfl⟩) fun _ => .lift _) _ d

theorem level_removeAll (d : Doomed) : Level (removeAll d) := by
  unfold removeAll
  refine .andThen (.forM (fun id => ?_) _) fun _ => .forM (fun id => ?_) _
  · exact (Run.level_write _).andThen fun _ => Run.level_countWrites _
  · exact (Run.level_write _).andThen fun _ => Run.level_countWrites _

theorem level_delete (detach : Bool) (targets : List Expr) (rows : List Row) :
    Level (ctx.delete detach targets rows) :=
  (level_doomed targets rows).andThen fun d =>
    (level_withIncident detach d).andThen fun d => level_removeAll d

theorem level_unwind (e : Expr) (name : String) (row : Row) : Level (ctx.unwind e name row) :=
  (level_value e row).andThen fun _ => .ok _

end RunContext

/-! ## Projecting -/

namespace Projection

variable {p : Projection}

theorem level_valuesOf (es : List Expr) (row : Row) : Level (ctx.valuesOf es row) :=
  .runMapM (fun e => ctx.level_value e row) es

theorem level_ofRow (p : Projection) (ctx : RunContext) (row : Row) : Level (p.ofRow ctx row) := by
  unfold ofRow sortKeys
  exact (level_valuesOf _ row).andThen fun values => (level_valuesOf _ _).andThen fun keys => .ok _

theorem level_accumulate (row : Row) (as : List (Aggregate × Accumulator)) :
    Level (accumulate ctx row as) := by
  induction as with
  | nil => exact .ok []
  | cons p rest ih =>
    obtain ⟨a, acc⟩ := p
    have htake : ∀ v, Level (do
        let acc ← Run.lift (acc.add v)
        return acc :: (← accumulate ctx row rest) : Run (List Accumulator)) := fun v =>
      .andThen (.lift _) fun acc => ih.andThen fun accs => .ok _
    unfold accumulate
    dsimp only
    cases a.argument with
    | some e => exact (ctx.level_value e row).andThen htake
    | none => exact htake .null

theorem level_addToGroup (keys : List Value) (row : Row) (groups : List Group) :
    Level (p.addToGroup ctx keys row groups) := by
  induction groups with
  | nil =>
    unfold addToGroup
    exact (level_accumulate row _).andThen fun accs => .ok _
  | cons group rest ih =>
    unfold addToGroup
    split
    · exact (level_accumulate row _).andThen fun accs => .ok _
    · exact ih.andThen fun more => .ok _

theorem level_addRow (groups : List Group) (row : Row) : Level (p.addRow ctx groups row) :=
  (level_valuesOf _ row).andThen fun keys => level_addToGroup keys row groups

theorem level_groupValues (row : Row) (cs : List Column) (keys : List Value) :
    Level (groupValues ctx row cs keys) := by
  induction cs generalizing keys with
  | nil => exact .ok []
  | cons c rest ih =>
    unfold groupValues
    split
    · exact (ih keys.tail).andThen fun more => .ok _
    · exact (ctx.level_value c.expr row).andThen fun v => (ih keys).andThen fun more => .ok _

theorem level_ofGroup (group : Group) : Level (p.ofGroup ctx group) := by
  unfold ofGroup sortKeys
  exact (level_groupValues _ _ _).andThen fun values =>
    (level_valuesOf _ _).andThen fun keys => .ok _

variable {source : Source Row} (hsource : Flow.Levels source)

include hsource

theorem level_gatherRows : Level (p.gatherRows ctx source) := by
  rw [gatherRows_eq]
  split
  · exact (Flow.level_foldRun hsource (fun rows row =>
      (p.level_ofRow ctx row).andThen fun r => .ok _) []).andThen fun rows => .ok _
  · exact (Flow.level_foldRun hsource level_addRow []).andThen fun groups =>
      .runMapM level_ofGroup _

theorem levels_flow (cut : Cut) : Flow.Levels (p.flow ctx cut source) := by
  unfold flow lazily
  split
  · exact Flow.levels_ofRun ((level_gatherRows hsource).andThen fun rows => .ok _)
  · refine Flow.levels_take (fun n s hs => ?_) _
    have hrows := (hsource n s hs).flatMap fun row =>
      Flow.levels_ofOption ((p.level_ofRow ctx row).andThen fun r => .ok (some r))
    dsimp only
    split
    · exact ((hrows.distinct []).drop cut.skip).map
    · exact (hrows.drop cut.skip).map

end Projection

/-! ## Stages -/

namespace Stage

section Flow

variable {source : Source Row} (hsource : Flow.Levels source)

include hsource

theorem levels_flow (stage : Stage) : Flow.Levels (stage.flow ctx source) := by
  have heach : ∀ {k : Row → Source Row}, (∀ row, Flow.Levels (k row)) →
      Flow.Levels fun s => (source s).flatMap k :=
    fun hk n s hs => (hsource n s hs).flatMap hk
  cases stage with
  | matching g condition => exact heach fun row => ctx.levels_matchRow g condition row
  | filter e =>
    refine heach fun row => Flow.levels_ofOption ?_
    refine (ctx.level_holds e row).andThen fun b => ?_
    cases b <;> exact .ok _
  | unwind e name => exact heach fun row => Flow.levels_ofRun (ctx.level_unwind e name row)
  | project p => exact p.levels_flow hsource ⟨0, none⟩
  | create parts =>
    exact heach fun row => Flow.levels_ofRun ((ctx.level_create parts row).andThen fun out => .ok _)
  | createApart parts =>
    exact heach fun row =>
      Flow.levels_ofRun ((ctx.level_createApart parts row).andThen fun out => .ok _)
  | merge g part onCreate onMatch =>
    exact heach fun row => Flow.levels_ofRun (ctx.level_merge g part onCreate onMatch row)
  | set items =>
    exact heach fun row => Flow.levels_ofRun ((ctx.level_set items row).andThen fun out => .ok _)
  | remove items =>
    exact heach fun row => Flow.levels_ofRun ((ctx.level_remove items row).andThen fun out => .ok _)
  | delete detach targets =>
    exact Flow.levels_ofRun ((Flow.level_toList hsource).andThen fun rows =>
      (ctx.level_delete detach targets rows).andThen fun _ => .ok rows)

end Flow

end Stage

end PropertyGraph
