import PropertyGraph.Proofs.Pattern.Blind
import PropertyGraph.Run.Statement

/-!
# Reading stages from related states

What a statement does to rows without writing is a matter of the values of expressions and of the
matches that its searches find.  Where expressions have the same values in related states,
everything but the searches stays alike of itself.

    SameWorld               expressions have the same values in related states
    twins_matchRow_of       a `MATCH` whose searches stay alike
    Projection.twins_flow   a projection
    Stage.twins_reading     every stage that only reads
-/

namespace PropertyGraph

variable {ctx : RunContext} {R : RunState → RunState → Prop}

/-- In related states expressions have the same values, and what happens to the counters is of no
account. -/
class SameWorld (ctx : RunContext) (R : RunState → RunState → Prop) : Prop where
  uncounted : Uncounted R
  env : ∀ s t, R s t → ctx.env s.store = ctx.env t.store

namespace RunContext

variable [SameWorld ctx R]

theorem blind_value (e : Expr) (row : Row) : Blind R (ctx.value e row) := by
  intro s t hst
  unfold value
  rw [SameWorld.env s t hst]
  exact ⟨rfl, trivial, hst⟩

theorem blind_holds (e : Expr) (row : Row) : Blind R (ctx.holds e row) := by
  intro s t hst
  unfold holds
  rw [SameWorld.env s t hst]
  exact ⟨rfl, trivial, hst⟩

/-! ## Matching -/

theorem blind_matchedRow (pattern : Constraints Value) (condition : Option Expr) (row : Row)
    (m : Match) : Blind R (ctx.matchedRow pattern condition row m) := by
  unfold matchedRow
  split
  · exact .ok none
  · cases condition with
    | none => exact .ok _
    | some e =>
      refine .andThen (blind_holds e _) fun b => ?_
      split
      · exact .ok _
      · exact .ok none

/-- A `MATCH` stays alike where its searches do. -/
theorem twins_matchRow_of {pattern : Constraints Expr} {condition : Option Expr} {row : Row}
    (hsearch : ∀ s s' resolved, pattern.mapM (fun e => ctx.value e row) s = (.ok resolved, s') →
      Flow.Twins R ((Search.of ctx resolved).flow row) ((Search.of ctx resolved).flow row)) :
    Flow.Twins R (ctx.matchRow pattern condition row) (ctx.matchRow pattern condition row) := by
  intro s t hst
  obtain ⟨heq, -, hst'⟩ := Blind.constraints (fun e => ctx.blind_value e row) pattern s t hst
  unfold matchRow
  cases hs : pattern.mapM (fun e => ctx.value e row) s with
  | mk r s' =>
    cases ht : pattern.mapM (fun e => ctx.value e row) t with
    | mk r' t' =>
      rw [hs, ht] at heq hst'
      cases heq
      cases r with
      | error e => exact .fail hst'
      | ok resolved =>
        have hrows := (hsearch s s' resolved hs s' t' hst').flatMap (SameWorld.uncounted ctx)
          fun m => Flow.twins_ofOption (ctx.blind_matchedRow resolved condition row m)
        simp only
        split
        · exact hrows.orElse (Flow.twins_single _)
        · exact hrows

theorem blind_unwind (e : Expr) (name : String) (row : Row) : Blind R (ctx.unwind e name row) := by
  unfold unwind
  exact .andThen (blind_value e row) fun v => .ok _

/-! ## Numbers of rows -/

theorem blind_rowCount (clause : String) (e : Expr) : Blind R (ctx.rowCount clause e) := by
  unfold rowCount
  refine .andThen (blind_value e .empty) fun v => ?_
  split
  · exact .ok _
  · split
    · exact .ok _
    · exact .fail _
  · exact .fail _

theorem blind_cut (p : Projection) : Blind R (ctx.cut p) := by
  have hcount : ∀ clause (o : Option Expr), Blind R (o.mapM (ctx.rowCount clause)) := by
    intro clause o
    cases o with
    | none => exact .ok none
    | some e => exact .andThen (blind_rowCount clause e) fun n => .ok _
  exact .andThen (hcount "SKIP" p.skip) fun skip => .andThen (hcount "LIMIT" p.limit) fun limit =>
    .ok _

end RunContext

/-! ## Projecting -/

namespace Projection

/-- All projected rows, as a fold and what is made of its result. -/
theorem gatherRows_eq (p : Projection) (ctx : RunContext) (source : Source Row) :
    p.gatherRows ctx source = if p.aggregates.isEmpty then
      ((fun s => (source s).foldRun (fun rows row => return (← p.ofRow ctx row) :: rows) []) :
        Run (List ProjectedRow)) >>= fun rows => pure rows.reverse
    else
      ((fun s => (source s).foldRun (p.addRow ctx) []) : Run (List Group)) >>= fun groups =>
        (p.closeGroups groups).mapM (p.ofGroup ctx) := by
  funext s
  unfold gatherRows
  split
  · rw [Run.bind_apply]
    generalize (source s).foldRun _ _ = out
    rcases out with ⟨_ | _, _⟩ <;> rfl
  · rw [Run.bind_apply]
    generalize (source s).foldRun _ _ = out
    rcases out with ⟨_ | _, _⟩ <;> rfl

variable {p : Projection} [SameWorld ctx R]

theorem blind_valuesOf (es : List Expr) (row : Row) : Blind R (ctx.valuesOf es row) :=
  .runMapM fun e _ => ctx.blind_value e row

theorem blind_ofRow (p : Projection) (ctx : RunContext) [SameWorld ctx R] (row : Row) :
    Blind R (p.ofRow ctx row) := by
  unfold ofRow sortKeys
  exact .andThen (blind_valuesOf _ row) fun values => .andThen (blind_valuesOf _ _) fun keys => .ok _

theorem blind_accumulate (row : Row) (as : List (Aggregate × Accumulator)) :
    Blind R (accumulate ctx row as) := by
  induction as with
  | nil => exact .ok []
  | cons p rest ih =>
    obtain ⟨a, acc⟩ := p
    have htake : ∀ v, Blind R (do
        let acc ← Run.lift (acc.add v)
        return acc :: (← accumulate ctx row rest) : Run (List Accumulator)) := fun v =>
      .andThen (.lift _) fun acc => .andThen ih fun accs => .ok _
    unfold accumulate
    dsimp only
    cases a.argument with
    | some e => exact .andThen (ctx.blind_value e row) htake
    | none => exact htake .null

theorem blind_addToGroup (keys : List Value) (row : Row) (groups : List Group) :
    Blind R (p.addToGroup ctx keys row groups) := by
  induction groups with
  | nil =>
    unfold addToGroup
    exact .andThen (blind_accumulate row _) fun accs => .ok _
  | cons group rest ih =>
    unfold addToGroup
    split
    · exact .andThen (blind_accumulate row _) fun accs => .ok _
    · exact .andThen ih fun more => .ok _

theorem blind_addRow (groups : List Group) (row : Row) : Blind R (p.addRow ctx groups row) :=
  .andThen (blind_valuesOf _ row) fun keys => blind_addToGroup keys row groups

theorem blind_groupValues (row : Row) (cs : List Column) (keys : List Value) :
    Blind R (groupValues ctx row cs keys) := by
  induction cs generalizing keys with
  | nil => exact .ok []
  | cons c rest ih =>
    unfold groupValues
    split
    · exact .andThen (ih keys.tail) fun more => .ok _
    · exact .andThen (ctx.blind_value c.expr row) fun v => .andThen (ih keys) fun more => .ok _

theorem blind_ofGroup (group : Group) : Blind R (p.ofGroup ctx group) := by
  unfold ofGroup sortKeys
  exact .andThen (blind_groupValues _ _ _) fun values =>
    .andThen (blind_valuesOf _ _) fun keys => .ok _

variable {source : Source Row} (hsource : Flow.Twins R source source)

include hsource

theorem blind_gatherRows : Blind R (p.gatherRows ctx source) := by
  rw [gatherRows_eq]
  split
  · exact .andThen (hsource.foldRun (SameWorld.uncounted ctx) (fun rows row =>
      .andThen (p.blind_ofRow ctx row) fun r => .ok _) []) fun rows => .ok _
  · exact .andThen (hsource.foldRun (SameWorld.uncounted ctx)
      (fun groups row => blind_addRow groups row) []) fun groups =>
        .runMapM fun group _ => blind_ofGroup group

theorem twins_flow (cut : Cut) :
    Flow.Twins R (p.flow ctx cut source) (p.flow ctx cut source) := by
  unfold flow lazily
  split
  · exact Flow.twins_ofRun (.andThen (blind_gatherRows hsource) fun rows => .ok _)
  · refine Flow.Twins.take (SameWorld.uncounted ctx) (fun s t hst => ?_) _
    have hrows := (hsource s t hst).flatMap (SameWorld.uncounted ctx) fun row =>
      Flow.twins_ofOption (.andThen (p.blind_ofRow ctx row) fun r => .ok (some r))
    dsimp only
    split
    · exact ((hrows.distinct []).drop cut.skip).map
    · exact (hrows.drop cut.skip).map

end Projection

/-! ## Stages -/

namespace Stage

/-- A stage that only reads stays alike, if its searches do. -/
theorem twins_reading [SameWorld ctx R] {stage : Stage} (hread : stage.isWrite = false)
    (hmatch : ∀ g condition, stage = .matching g condition → ∀ row,
      Flow.Twins R (ctx.matchRow g condition row) (ctx.matchRow g condition row))
    {source : Source Row} (hsource : Flow.Twins R source source) :
    Flow.Twins R (stage.flow ctx source) (stage.flow ctx source) := by
  have heach : ∀ {k : Row → Source Row}, (∀ row, Flow.Twins R (k row) (k row)) →
      Flow.Twins R (fun s => (source s).flatMap k) (fun s => (source s).flatMap k) :=
    fun hk s t hst => (hsource s t hst).flatMap (SameWorld.uncounted ctx) hk
  cases stage with
  | matching g condition => exact heach (hmatch g condition rfl)
  | filter e =>
    refine heach fun row => Flow.twins_ofOption ?_
    refine .andThen (ctx.blind_holds e row) fun b => ?_
    cases b <;> exact .ok _
  | unwind e name => exact heach fun row => Flow.twins_ofRun (ctx.blind_unwind e name row)
  | project p => exact p.twins_flow hsource ⟨0, none⟩
  | _ => cases hread

end Stage

end PropertyGraph
