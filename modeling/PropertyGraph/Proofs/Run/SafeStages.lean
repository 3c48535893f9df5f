import PropertyGraph.Proofs.Run.SafeProjecting
import PropertyGraph.Proofs.Run.SafeWriting

/-!
# Stages from names to names

A stage leads from rows that bind some names to rows that bind others: put behind a source whose
rows bind the first names it does not fail for want of a name, and its own rows bind the others.
For every kind of stage it is said here what it must read at most for that, and what its rows bind.
-/

namespace PropertyGraph

namespace Stage

variable {names more : List String} {ctx : RunContext} {source : Source Row}

/-- Behind rows that bind the first names the stages give rows that bind the second ones, and do
not fail for want of a name. -/
def Lead (stages : List Stage) (names more : List String) : Prop :=
  ∀ ctx source, Flow.SafeSource (Row.Covers · names) source →
    (stages.foldlM (attach ctx) source).Safe (Flow.SafeSource (Row.Covers · more))

theorem Lead.nil (names : List String) : Lead [] names names :=
  fun _ _ hsource => .ok hsource

theorem Lead.append {first rest : List Stage} {between : List String}
    (h : Lead first names between) (h' : Lead rest between more) :
    Lead (first ++ rest) names more := by
  intro ctx source hsource
  rw [List.foldlM_append]
  exact (h ctx source hsource).bind fun source' hsource' => h' ctx source' hsource'

theorem Lead.sub {stages : List Stage} {fewer : List String} (h : Lead stages names more)
    (hsub : ∀ x ∈ fewer, x ∈ more) : Lead stages names fewer :=
  fun ctx source hsource => (h ctx source hsource).mono fun _ hrows s =>
    (hrows s).mono fun _ hrow => hrow.sub hsub

/-- One stage other than a projection. -/
theorem lead_of_flow {stage : Stage} (hstage : ∀ p, stage ≠ .project p)
    (h : ∀ ctx source, Flow.SafeSource (Row.Covers · names) source →
      Flow.SafeSource (Row.Covers · more) (stage.flow ctx source)) : Lead [stage] names more := by
  intro ctx source hsource
  have hattach : attach ctx source stage =
      (pure fun s => (stage.flow ctx source s).counted stage.title : Run (Source Row)) := by
    cases stage with
    | project p => exact absurd rfl (hstage p)
    | _ => rfl
  rw [List.foldlM_cons, hattach]
  exact Run.Safe.bind (P := Flow.SafeSource (Row.Covers · more))
    (.ok fun s => (h ctx source hsource s).counted _) fun _ hrows => .ok hrows

/-- One stage that makes a list of rows of each row. -/
theorem lead_of_rows {stage : Stage} (hstage : ∀ p, stage ≠ .project p)
    (make : RunContext → Row → Run (List Row))
    (hflow : ∀ ctx source, stage.flow ctx source =
      fun s => (source s).flatMap fun row => Flow.ofRun (make ctx row))
    (hmake : ∀ ctx row, row.Covers names → (make ctx row).Safe fun rows =>
      ∀ out ∈ rows, out.Covers more) : Lead [stage] names more := by
  refine lead_of_flow hstage fun ctx source hsource s => ?_
  rw [hflow]
  exact (hsource s).flatMap fun row hrow => Flow.safe_ofRun (hmake ctx row hrow)

/-! ## Reading -/

theorem lead_matching {pattern : Constraints Expr} {condition : Option Expr}
    (hprops : ReadsOnly names pattern.propertyExprs)
    (hcond : ReadsOnly (names ++ pattern.names) condition.toList) :
    Lead [.matching pattern condition] names (names ++ pattern.names) :=
  lead_of_flow nofun fun _ _ hsource s => (hsource s).flatMap fun _ hrow =>
    RunContext.safe_matchRow hrow hprops hcond

theorem lead_filter {e : Expr} (he : ReadsOnly names [e]) : Lead [.filter e] names names := by
  refine lead_of_flow nofun fun ctx source hsource s => (hsource s).flatMap fun row hrow => ?_
  refine Flow.safe_ofOption ((RunContext.safe_holds
    (he.hasAll List.mem_cons_self hrow.hasAll)).bind fun t _ => .ok fun out h => ?_)
  split at h
  · cases h; exact hrow
  · cases h

theorem lead_unwind {e : Expr} (he : ReadsOnly names [e]) (x : String) :
    Lead [.unwind e x] names (names ++ [x]) := by
  refine lead_of_rows nofun (fun ctx row => ctx.unwind e x row) (fun _ _ => rfl)
    fun ctx row hrow => ?_
  unfold RunContext.unwind
  refine (RunContext.safe_value (he.hasAll List.mem_cons_self hrow.hasAll)).bind fun v _ => .ok ?_
  intro out hout
  obtain ⟨w, -, rfl⟩ := List.mem_map.1 hout
  exact hrow.bound [(x, w)]

theorem lead_project {p : Projection} (h : p.Reads names) (halone : p.ReadsAlone) :
    Lead [.project p] names p.names := by
  intro ctx source hsource
  have hproject : (attach ctx source (.project p)).Safe
      (Flow.SafeSource (Row.Covers · p.names)) := by
    unfold attach
    dsimp only
    refine (RunContext.safe_cut h.cut).bind fun cut _ => .ok fun s => ?_
    exact (Projection.safe_flow h halone hsource cut s).counted _
  rw [List.foldlM_cons]
  exact hproject.bind fun _ hrows => .ok hrows

/-! ## Writing -/

theorem lead_create {parts : List PatternPart}
    (horder : Creation.InOrder names (Creation.ofParts parts)) :
    Lead [.create parts] names (Creation.known names (Creation.ofParts parts)) :=
  lead_of_rows nofun (fun ctx row => do return [← ctx.create parts row]) (fun _ _ => rfl)
    fun _ _ hrow => (RunContext.safe_create hrow horder).bind fun _ hout =>
      .ok (List.forall_mem_singleton.2 hout)

theorem lead_createApart {parts : List PatternPart}
    (horder : ∀ part ∈ parts, Creation.InOrder names (Creation.ofParts [part]))
    (hmore : ∀ x ∈ more, x ∈ names ∨
      ∃ part ∈ parts, x ∈ Creation.known names (Creation.ofParts [part])) :
    Lead [.createApart parts] names more := by
  refine lead_of_rows nofun (fun ctx row => do return [← ctx.createApart parts row])
    (fun _ _ => rfl) fun ctx row hrow => ?_
  refine (RunContext.safe_createApart hrow horder).bind fun out ⟨hold, hnew⟩ =>
    .ok (List.forall_mem_singleton.2 ⟨hold.closed, fun x hx => ?_⟩)
  rcases hmore x hx with hx | ⟨part, hpart, hx⟩
  · exact hold.hasAll x hx
  · exact (hnew part hpart).hasAll x hx

theorem lead_merge {pattern : Constraints Expr} {part : PatternPart}
    {onCreate onMatch : List SetItem} (hprops : ReadsOnly names pattern.propertyExprs)
    (horder : Creation.InOrder names (Creation.ofParts [part]))
    (hmatched : ∀ x ∈ more, x ∈ names ++ pattern.names)
    (hcreated : ∀ x ∈ more, x ∈ Creation.known names (Creation.ofParts [part]))
    (hitems : ∀ item ∈ onCreate ++ onMatch, ReadsOnly more item.exprs) :
    Lead [.merge pattern part onCreate onMatch] names more :=
  lead_of_rows nofun (fun ctx row => ctx.merge pattern part onCreate onMatch row)
    (fun _ _ => rfl) fun _ _ hrow =>
      RunContext.safe_merge hrow hprops horder hmatched hcreated hitems

theorem lead_set {items : List SetItem} (h : ∀ item ∈ items, ReadsOnly names item.exprs) :
    Lead [.set items] names names :=
  lead_of_rows nofun (fun ctx row => do return [← ctx.set items row]) (fun _ _ => rfl)
    fun _ _ hrow => (RunContext.safe_set hrow h).bind fun _ hout =>
      .ok (List.forall_mem_singleton.2 hout)

theorem lead_remove {items : List RemoveItem} (h : ∀ item ∈ items, ReadsOnly names item.exprs) :
    Lead [.remove items] names names :=
  lead_of_rows nofun (fun ctx row => do return [← ctx.remove items row]) (fun _ _ => rfl)
    fun _ _ hrow => (RunContext.safe_remove hrow h).bind fun _ hout =>
      .ok (List.forall_mem_singleton.2 hout)

theorem lead_delete (detach : Bool) {targets : List Expr} (h : ReadsOnly names targets) :
    Lead [.delete detach targets] names names :=
  lead_of_flow nofun fun _ _ hsource => Flow.safe_ofRun
    ((Flow.safe_toList hsource).bind fun _ hrows =>
      (RunContext.safe_delete detach hrows h).bind fun _ _ => .ok hrows)

end Stage

end PropertyGraph
