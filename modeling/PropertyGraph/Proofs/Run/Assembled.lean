import PropertyGraph.Proofs.Run.Counters

/-!
# Assembling stages

Before any row is asked for, stages are put one behind the other, and the branches of a union side
by side.  That leaves the state as it is, and whatever the stages preserve holds of the whole.  Two
lists of stages can be put together in parallel, from two states that agree on the numbers of rows
that the projections pass over and keep.  A plan that has been put together is started: one that
writes is asked for all its rows at once, any other waits.

    Outcomes P x y          both computations fail in the same way, or `P` relates their results
    Assembly.attachAll      what all stages preserve, stages one behind the other have
    Assembly.branches       and so have the branches of a union
    Assembly.of_twins       going alike in related states is such a thing
    Assembly.flow           what all stages preserve, a plan has
    Plan.start_eq           what it is to start a plan
-/

namespace PropertyGraph

/-! ## Putting stages together -/

namespace RunContext

variable {ctx : RunContext} {p : Projection} {s : RunState}

/-- A number of rows is a matter of the store alone. -/
theorem rowCount_still (ctx : RunContext) (clause : String) (e : Expr) {s t : RunState}
    (h : t.store = s.store) : ctx.rowCount clause e t = ((ctx.rowCount clause e s).1, t) := by
  unfold rowCount
  rw [Run.bind_apply, Run.bind_apply]
  unfold RunContext.value
  rw [h]
  cases e.value (ctx.env s.store) .empty with
  | error err => rfl
  | ok v =>
    cases v with
    | float x =>
      dsimp only
      split <;> rfl
    | _ => rfl

/-- The cut of a projection, if there is one, keeps the state; its limit is that of the
projection. -/
theorem cut_still (ctx : RunContext) (p : Projection) (s : RunState) :
    ∃ r, ctx.cut p s = (r, s) ∧ ∀ cut, r = .ok cut →
      (p.limit = none → cut.limit = none) ∧ ∀ e, p.limit = some e →
        ∃ n, (ctx.rowCount "LIMIT" e s).1 = .ok n ∧ cut.limit = some n := by
  have hcount : ∀ clause (o : Option Expr), ∃ r, o.mapM (ctx.rowCount clause) s = (r, s) ∧
      ∀ limit, r = .ok limit → (o = none → limit = none) ∧ ∀ e, o = some e →
        ∃ n, (ctx.rowCount clause e s).1 = .ok n ∧ limit = some n := by
    intro clause o
    cases o with
    | none => exact ⟨.ok none, rfl, fun limit h => by cases h; exact ⟨fun _ => rfl, nofun⟩⟩
    | some e =>
      refine ⟨_, Run.bind_still (ctx.rowCount_still clause e rfl) fun n => rfl,
        fun limit h => ⟨nofun, ?_⟩⟩
      intro e' he
      cases he
      obtain ⟨n, hn, h⟩ := ok_of_bind h
      cases h
      exact ⟨n, hn, rfl⟩
  obtain ⟨rskip, hskip, -⟩ := hcount "SKIP" p.skip
  obtain ⟨rlimit, hlimit, hspec⟩ := hcount "LIMIT" p.limit
  refine ⟨_, Run.bind_still hskip fun skip => Run.bind_still hlimit fun limit => rfl, ?_⟩
  intro cut h
  obtain ⟨skip, -, h⟩ := ok_of_bind h
  obtain ⟨limit, hl, h⟩ := ok_of_bind h
  cases h
  exact hspec limit hl

end RunContext

namespace Stage

/-- What is put behind a source for a projection: it with its cut. -/
theorem attach_project (ctx : RunContext) (source : Source Row) (p : Projection) (s : RunState) :
    attach ctx source (.project p) s = ((ctx.cut p s).1.map fun cut s =>
      (p.flow ctx cut source s).counted "Projection", s) := by
  obtain ⟨r, hcut, -⟩ := ctx.cut_still p s
  unfold attach
  dsimp only
  rw [Run.bind_apply, hcut]
  cases r <;> rfl

theorem attach_other (ctx : RunContext) (source : Source Row) {stage : Stage}
    (hstage : ∀ p, stage ≠ .project p) (s : RunState) :
    attach ctx source stage s =
      (.ok fun s => (stage.flow ctx source s).counted stage.title, s) := by
  cases stage with
  | project p => exact absurd rfl (hstage p)
  | _ => rfl

end Stage

namespace PlanBody

/-- The rows of all branches one after the other. -/
def inTurn (sources : List (Source Row)) : Source Row :=
  Flow.inTurn (fun source : Source Row => source) sources

/-- The rows of a union. -/
def unionRows (all : Bool) (sources : List (Source Row)) : Source Row := fun s =>
  (if all then inTurn sources s else (inTurn sources s).distinct rowValues []).counted "Union"

theorem flow_union (ctx : RunContext) (all : Bool) (branches : List (List Stage)) :
    flow ctx (.union all branches) =
      (do return unionRows all (← branches.mapM (Stage.attachAll ctx)) : Run (Source Row)) :=
  rfl

end PlanBody

/-! ## What stages preserve -/

variable {α β : Type}

/-- Both fail in the same way, or the results are related. -/
def Outcomes (P : α → β → Prop) : Except Error α → Except Error β → Prop
  | .ok a, .ok b => P a b
  | .error e, .error e' => e = e'
  | _, _ => False

/-- A relation of sources that holds of the empty row, is preserved by all stages of a kind, and by
putting branches side by side. -/
structure Assembly (ctx : RunContext) (s t : RunState) (Kind : Stage → Prop)
    (P : Source Row → Source Row → Prop) : Prop where
  cut : ∀ p, Kind (.project p) → (ctx.cut p s).1 = (ctx.cut p t).1
  first : P (Flow.single .empty) (Flow.single .empty)
  project : ∀ p cut f g, Kind (.project p) → P f g →
    P (fun s => (p.flow ctx cut f s).counted "Projection")
      (fun s => (p.flow ctx cut g s).counted "Projection")
  other : ∀ stage f g, Kind stage → P f g →
    P (fun s => (stage.flow ctx f s).counted stage.title)
      (fun s => (stage.flow ctx g s).counted stage.title)
  union : ∀ all fs gs, List.Forall₂ P fs gs →
    P (PlanBody.unionRows all fs) (PlanBody.unionRows all gs)

namespace Assembly

variable {ctx : RunContext} {s t : RunState} {Kind : Stage → Prop}
  {P : Source Row → Source Row → Prop} (h : Assembly ctx s t Kind P)

include h

theorem attach {stage : Stage} (hstage : Kind stage) {f g : Source Row} (hfg : P f g) :
    ∃ x y, Stage.attach ctx f stage s = (x, s) ∧ Stage.attach ctx g stage t = (y, t) ∧
      Outcomes P x y := by
  by_cases hproject : ∃ p, stage = .project p
  · obtain ⟨p, rfl⟩ := hproject
    refine ⟨_, _, Stage.attach_project ctx f p s, Stage.attach_project ctx g p t, ?_⟩
    rw [← h.cut p hstage]
    cases (ctx.cut p s).1 with
    | error e => rfl
    | ok cut => exact h.project p cut f g hstage hfg
  · have hother : ∀ p, stage ≠ .project p := fun p hp => hproject ⟨p, hp⟩
    exact ⟨_, _, Stage.attach_other ctx f hother s, Stage.attach_other ctx g hother t,
      h.other stage f g hstage hfg⟩

theorem attachAll {stages : List Stage} (hstages : ∀ stage ∈ stages, Kind stage) :
    ∃ x y, Stage.attachAll ctx stages s = (x, s) ∧ Stage.attachAll ctx stages t = (y, t) ∧
      Outcomes P x y := by
  have hfold : ∀ f g, P f g → ∃ x y, stages.foldlM (Stage.attach ctx) f s = (x, s) ∧
      stages.foldlM (Stage.attach ctx) g t = (y, t) ∧ Outcomes P x y := by
    induction stages with
    | nil => exact fun f g hfg => ⟨_, _, rfl, rfl, hfg⟩
    | cons stage rest ih =>
      intro f g hfg
      obtain ⟨hstage, hrest⟩ := List.forall_mem_cons.1 hstages
      obtain ⟨x, y, hx, hy, hxy⟩ := h.attach hstage hfg
      rw [List.foldlM_cons, List.foldlM_cons, Run.bind_apply, Run.bind_apply, hx, hy]
      match x, y, hxy with
      | .ok f', .ok g', hfg' => exact ih hrest f' g' hfg'
      | .error e, .error _, rfl => exact ⟨_, _, rfl, rfl, rfl⟩
  exact hfold _ _ h.first

theorem branches {branches : List (List Stage)}
    (hbranches : ∀ stages ∈ branches, ∀ stage ∈ stages, Kind stage) :
    ∃ x y, branches.mapM (Stage.attachAll ctx) s = (x, s) ∧
      branches.mapM (Stage.attachAll ctx) t = (y, t) ∧ Outcomes (List.Forall₂ P) x y := by
  induction branches with
  | nil => exact ⟨_, _, rfl, rfl, List.Forall₂.nil⟩
  | cons stages rest ih =>
    obtain ⟨hstages, hrest⟩ := List.forall_mem_cons.1 hbranches
    obtain ⟨x, y, hx, hy, hxy⟩ := h.attachAll hstages
    obtain ⟨xs, ys, hxs, hys, hxys⟩ := ih hrest
    simp only [List.mapM_cons, Run.bind_apply, hx, hy]
    match x, y, hxy with
    | .error e, .error _, rfl => exact ⟨_, _, rfl, rfl, rfl⟩
    | .ok f, .ok g, hfg =>
      simp only [hxs, hys]
      match xs, ys, hxys with
      | .error e, .error _, rfl => exact ⟨_, _, rfl, rfl, rfl⟩
      | .ok fs, .ok gs, hfgs => exact ⟨_, _, rfl, rfl, List.Forall₂.cons hfg hfgs⟩

end Assembly

/-! ## Going alike -/

section Twins

variable {R : RunState → RunState → Prop} (hR : Uncounted R)

include hR

theorem PlanBody.twins_unionRows {fs : List (Source Row)} (hfs : ∀ f ∈ fs, Flow.Twins R f f)
    (all : Bool) : Flow.Twins R (unionRows all fs) (unionRows all fs) := by
  intro s t hst
  have hrows : Flow.Alike R (inTurn fs s) (inTurn fs t) := Flow.twins_inTurn hR hfs s t hst
  unfold unionRows
  cases all with
  | true => exact hrows.counted hR _
  | false => exact (hrows.distinct []).counted hR _

/-- Where all stages of a kind go alike in related states, so does what is made of them. -/
theorem Assembly.of_twins {ctx : RunContext} {s t : RunState} {Kind : Stage → Prop}
    (hcut : ∀ p, Kind (.project p) → (ctx.cut p s).1 = (ctx.cut p t).1)
    (hproject : ∀ p cut f, Kind (.project p) → Flow.Twins R f f →
      Flow.Twins R (p.flow ctx cut f) (p.flow ctx cut f))
    (hother : ∀ stage f, Kind stage → Flow.Twins R f f →
      Flow.Twins R (stage.flow ctx f) (stage.flow ctx f)) :
    Assembly ctx s t Kind fun f g => f = g ∧ Flow.Twins R f f where
  cut := hcut
  first := ⟨rfl, Flow.twins_single Row.empty⟩
  project := by
    rintro p cut f _ hp ⟨rfl, hf⟩
    exact ⟨rfl, fun u v huv => (hproject p cut f hp hf u v huv).counted hR _⟩
  other := by
    rintro stage f _ hstage ⟨rfl, hf⟩
    exact ⟨rfl, fun u v huv => (hother stage f hstage hf u v huv).counted hR _⟩
  union := by
    intro all fs gs h
    obtain rfl : fs = gs := List.forall₂_eq_eq_eq ▸ h.imp fun _ _ hfg => hfg.1
    refine ⟨rfl, PlanBody.twins_unionRows hR (fun f hf => ?_) all⟩
    obtain ⟨_, -, -, htwins⟩ := exists_of_forall₂ h.flip hf
    exact htwins

end Twins

/-! ## Plans -/

/-- The stages of a query, or of every query of a union. -/
def PlanBody.branches : PlanBody → List (List Stage)
  | .series stages => [stages]
  | .union _ branches => branches

/-- What all stages preserve, the plan has, and putting it together leaves the states alone. -/
theorem Assembly.flow {ctx : RunContext} {s t : RunState} {Kind : Stage → Prop}
    {P : Source Row → Source Row → Prop} (h : Assembly ctx s t Kind P) (body : PlanBody)
    (hbody : ∀ stages ∈ body.branches, ∀ stage ∈ stages, Kind stage) :
    ∃ x y, body.flow ctx s = (x, s) ∧ body.flow ctx t = (y, t) ∧ Outcomes P x y := by
  cases body with
  | series stages => exact h.attachAll (hbody stages List.mem_cons_self)
  | union all branches =>
    have hbranches : ∀ stages ∈ branches, ∀ stage ∈ stages, Kind stage := hbody
    obtain ⟨x, y, hx, hy, hxy⟩ := h.branches hbranches
    rw [PlanBody.flow_union, Run.bind_apply, Run.bind_apply, hx, hy]
    match x, y, hxy with
    | .error e, .error _, rfl => exact ⟨_, _, rfl, rfl, rfl⟩
    | .ok fs, .ok gs, hfgs => exact ⟨_, _, rfl, rfl, h.union all fs gs hfgs⟩

/-- Starting a plan is putting it together, and for a plan that writes asking it for everything. -/
theorem Plan.start_eq (plan : Plan) (ctx : RunContext) (s : RunState) :
    plan.start ctx s = match plan.body.flow ctx s.begin with
      | (.error e, t) => (.error e, t)
      | (.ok source, t) =>
        if plan.body.isWrite then match Flow.toList source t with
          | (.ok rows, u) => (.ok ⟨plan.columns, .ready rows⟩, u)
          | (.error e, u) => (.error e, u)
        else (.ok ⟨plan.columns, .waiting 0 source⟩, t) := by
  have hstart : plan.start ctx s = (plan.body.flow ctx >>= fun source => do
      if plan.body.isWrite then return ⟨plan.columns, .ready (← Flow.toList source)⟩
      else return ⟨plan.columns, .waiting 0 source⟩ : Run ResultStream) s.begin := rfl
  rw [hstart, Run.bind_apply]
  cases plan.body.flow ctx s.begin with
  | mk x t =>
    cases x with
    | error e => rfl
    | ok source =>
      dsimp only
      split
      · rw [Run.bind_apply]
        generalize Flow.toList source t = out
        rcases out with ⟨_ | _, _⟩ <;> rfl
      · rfl

end PropertyGraph
