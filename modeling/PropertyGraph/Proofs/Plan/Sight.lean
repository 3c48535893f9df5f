import PropertyGraph.Proofs.Pattern.Exact
import PropertyGraph.Proofs.Pattern.Sight
import PropertyGraph.Proofs.Pattern.Valued
import PropertyGraph.Proofs.Run.Assembled
import PropertyGraph.Proofs.Run.Asks
import PropertyGraph.Proofs.Store.Reachable

/-!
# Statements on stores that look alike

What a reader cannot see has no influence on a statement that only reads.  All that its stages learn
of the store is what the reader sees of it: expressions have the same values, searches find the same
matches in the same order, and so every question to the result has the same answer.  There is one
exception, the property names that are defined: they decide on walks without edges.

    Stage.AlikeDefined          names demanded of walks that may have no edges
    ResultStream.Alike          two results that give the same answers
    Plan.reads_alike            stores that look alike are read alike
    Plan.hidden_name_shows      a property name of a hidden vertex adds a row
-/

namespace PropertyGraph

open Search (Holding)

variable {ctx : RunContext} {σ τ : Store}

/-! ## Stages -/

/-- Values for the properties leave the range and the property names of each relationship. -/
theorem Constraints.relationship_of_mapM {P Q : Type} {f : P → Except Error Q} {g : Constraints P}
    {g' : Constraints Q} (h : g.mapM f = .ok g') {r' : RelationshipConstraint Q}
    (hr' : r' ∈ g'.relationships) : ∃ r ∈ g.relationships,
      r'.range = r.range ∧ r'.properties.map (·.1) = r.properties.map (·.1) := by
  obtain ⟨-, -, -, hrels⟩ := mapM_eq_ok.1 h
  obtain ⟨r, hr, ps, hps, rfl⟩ := exists_of_forall₂ hrels hr'
  exact ⟨r, hr, rfl, keys_of_mapProperties hps⟩

/-- The property names that a stage demands of walks that may have no edges are defined in both
stores or in none. -/
def Stage.AlikeDefined (config : Config) (σ τ : Store) : Stage → Prop
  | .matching g _ => ∀ r ∈ g.relationships, (∃ range, r.range = some range ∧ range.min = 0) →
      Search.AlikeDefined config σ τ r.properties
  | _ => True

section Sight

variable (hσ : σ.Consistent) (hτ : τ.Consistent) (halike : σ.SeenAlike ctx.reader τ)

include hσ hτ halike

/-- Expressions have the same values in stores that look alike. -/
theorem sameWorld_of_alike : SameWorld ctx (Holding σ τ) where
  uncounted := Holding.uncounted
  env s t h := by
    unfold RunContext.env
    rw [h.first, h.second, halike.getVertex? hσ hτ]

/-- A `MATCH` makes the same rows in stores that look alike. -/
theorem RunContext.twins_matchRow_alike {g : Constraints Expr} {condition : Option Expr} {row : Row}
    (hdefined : (Stage.matching g condition).AlikeDefined ctx.config σ τ) :
    Flow.Twins (Holding σ τ) (ctx.matchRow g condition row) (ctx.matchRow g condition row) := by
  have := sameWorld_of_alike hσ hτ halike
  refine twins_matchRow_of fun s s' resolved hresolved => ?_
  rw [Constraints.mapM_still (f := fun e => ctx.value e row) (fun _ => rfl)] at hresolved
  have hvalues := congrArg Prod.fst hresolved
  have hsees : (Search.of ctx resolved).Sees (Holding σ τ) (fun _ => True) fun _ => True := by
    refine Search.sees_alike hσ hτ halike fun r' hr' hrange => ?_
    obtain ⟨r, hr, hsame, hkeys⟩ := Constraints.relationship_of_mapM hvalues hr'
    intro p hp
    obtain ⟨p', hp', heq⟩ : ∃ p' ∈ r.properties, p'.1 = p.1 := by
      rw [← List.mem_map, ← hkeys]
      exact List.mem_map_of_mem hp
    rw [← heq]
    exact hdefined r hr (hsame ▸ hrange) p' hp'
  exact hsees.twins_flow fun ms _ m _ => ⟨m.within_true, trivial⟩

/-- The stages of a plan that only reads go alike in stores that look alike. -/
theorem assembly_alike {s t : RunState} (hst : Holding σ τ s t) :
    Assembly ctx s t (fun stage => stage.isWrite = false ∧ stage.AlikeDefined ctx.config σ τ)
      fun f g => f = g ∧ Flow.Twins (Holding σ τ) f f := by
  have := sameWorld_of_alike hσ hτ halike
  refine .of_twins Holding.uncounted (fun p _ => (ctx.blind_cut p s t hst).1)
    (fun p cut f _ hf => p.twins_flow hf cut) ?_
  rintro stage f ⟨hread, hdefined⟩ hf
  refine stage.twins_reading hread (fun g condition heq row => ?_) hf
  subst heq
  exact ctx.twins_matchRow_alike hσ hτ halike hdefined

end Sight

/-! ## Results -/

namespace ResultStream

variable {R : RunState → RunState → Prop} {r r' : ResultStream} {s t : RunState}

/-- Results with the same rows in store, or with flows that are alike. -/
inductive Alike (R : RunState → RunState → Prop) : ResultStream → ResultStream → Prop where
  | closed (columns : List String) : Alike R ⟨columns, .closed⟩ ⟨columns, .closed⟩
  | ready (columns : List String) (rows : List Row) :
    Alike R ⟨columns, .ready rows⟩ ⟨columns, .ready rows⟩
  | waiting (columns : List String) (held : Nat) {f g : Source Row} (h : Flow.Twins R f g) :
    Alike R ⟨columns, .waiting held f⟩ ⟨columns, .waiting held g⟩

theorem Alike.close (hR : Uncounted R) (h : r.Alike R r') (hst : R s t) :
    (r.close s).1.Alike R (r'.close t).1 ∧ R (r.close s).2 (r'.close t).2 := by
  cases h with
  | closed columns => exact ⟨.closed columns, hst⟩
  | ready columns rows => exact ⟨.ready columns rows, hst⟩
  | waiting columns held _ => exact ⟨.closed columns, hR _ _ hst _ _⟩

/-- Asked for the next row, results that are alike answer alike and stay alike. -/
theorem Alike.next (hR : Uncounted R) (h : r.Alike R r') (hst : R s t) :
    (r.next s).1.1 = (r'.next t).1.1 ∧ (r.next s).1.2.Alike R (r'.next t).1.2 ∧
      R (r.next s).2 (r'.next t).2 := by
  have hclose := (h.close hR hst).2
  unfold ResultStream.next
  cases h with
  | closed columns =>
    split
    · exact ⟨rfl, .closed columns, hst⟩
    · exact ⟨rfl, .closed columns, hst⟩
  | ready columns rows =>
    split
    · exact ⟨rfl, .closed columns, hst⟩
    · cases rows with
      | nil => exact ⟨rfl, .ready columns [], hst⟩
      | cons row rest => exact ⟨rfl, .ready columns rest, hst⟩
  | @waiting columns held f g hfg =>
    split
    · exact ⟨rfl, .closed columns, hclose⟩
    · have hflow := hfg s t hst
      dsimp only
      generalize f s = x, g t = y at hflow
      cases hflow with
      | done h => exact ⟨rfl, .closed columns, h⟩
      | fail h => exact ⟨rfl, .closed columns, h⟩
      | emit h hrest => exact ⟨rfl, .waiting columns _ hrest, h⟩

theorem Alike.ask (hR : Uncounted R) (h : r.Alike R r') (hst : R s t) (a : Ask) :
    (r.ask a s).1.1 = (r'.ask a t).1.1 ∧ (r.ask a s).1.2.Alike R (r'.ask a t).1.2 ∧
      R (r.ask a s).2 (r'.ask a t).2 := by
  cases a with
  | next => exact h.next hR hst
  | close => exact ⟨rfl, h.close hR hst⟩

theorem Alike.askAll (hR : Uncounted R) (h : r.Alike R r') (hst : R s t) (asks : List Ask) :
    (r.askAll asks s).1.1 = (r'.askAll asks t).1.1 := by
  induction asks generalizing r r' s t with
  | nil => rfl
  | cons a rest ih =>
    obtain ⟨hanswer, hleft, hst'⟩ := h.ask hR hst a
    rw [askAll_cons, askAll_cons, hanswer, ih hleft hst']

/-- All rows that are left of results that are alike. -/
theorem Alike.collect (hR : Uncounted R) (h : r.Alike R r') (hst : R s t) :
    (r.collect s).1 = (r'.collect t).1 := by
  unfold ResultStream.collect
  cases h with
  | closed columns => split <;> rfl
  | ready columns rows => split <;> rfl
  | @waiting columns held f g hfg =>
    split
    · rfl
    · obtain ⟨hres, -⟩ := (hfg s t hst).foldRun hR (fun items a => Blind.ok (a :: items)) []
      dsimp only
      rw [Flow.toList_eq, Flow.toList_eq, Run.bind_apply, Run.bind_apply, Run.bind_apply,
        Run.bind_apply]
      generalize (f s).foldRun _ _ = x, (g t).foldRun _ _ = y at hres
      obtain ⟨x, s'⟩ := x
      obtain ⟨y, t'⟩ := y
      cases hres
      cases x <;> rfl

end ResultStream

/-! ## Plans -/

theorem PlanBody.reads_of_isWrite {body : PlanBody} (h : body.isWrite = false) :
    ∀ stages ∈ body.branches, ∀ stage ∈ stages, stage.isWrite = false := by
  have hall : body.branches.any (·.any Stage.isWrite) = false := by
    cases body with
    | series stages => exact (Bool.or_false _).trans h
    | union all branches => exact h
  simpa only [List.any_eq_false, Bool.not_eq_true] using hall

namespace Plan

variable {plan : Plan} {s t : RunState}

/-- Started on two stores that look alike to the reader, a plan that only reads fails in the same
way on both, or gives results with the same answers to whatever they are asked for, and so the same
rows in the same order.  The property names demanded of walks that may have no edges have to be
defined in both stores or in none; what else is hidden is of no account. -/
theorem reads_alike (hread : plan.body.isWrite = false) (hσ : s.store.Consistent)
    (hτ : t.store.Consistent) (halike : s.store.SeenAlike ctx.reader t.store)
    (hdefined : ∀ stages ∈ plan.body.branches, ∀ stage ∈ stages,
      stage.AlikeDefined ctx.config s.store t.store) :
    match plan.start ctx s, plan.start ctx t with
    | (.ok r, s'), (.ok r', t') =>
      r.columns = r'.columns ∧ (r.collect s').1 = (r'.collect t').1 ∧
        ∀ asks, (r.askAll asks s').1.1 = (r'.askAll asks t').1.1
    | (.error e, _), (.error e', _) => e = e'
    | _, _ => False := by
  have hbegin : Holding s.store t.store s.begin t.begin := ⟨rfl, rfl, rfl⟩
  have hkinds : ∀ stages ∈ plan.body.branches, ∀ stage ∈ stages,
      stage.isWrite = false ∧ stage.AlikeDefined ctx.config s.store t.store :=
    fun stages hstages stage hstage =>
      ⟨PlanBody.reads_of_isWrite hread stages hstages stage hstage,
        hdefined stages hstages stage hstage⟩
  obtain ⟨x, y, hx, hy, hxy⟩ := (assembly_alike hσ hτ halike hbegin).flow plan.body hkinds
  rw [start_eq, start_eq, hx, hy, hread]
  match x, y, hxy with
  | .error e, .error _, rfl => rfl
  | .ok source, .ok _, ⟨rfl, htwins⟩ =>
    have halikes : ResultStream.Alike (Holding s.store t.store)
        ⟨plan.columns, .waiting 0 source⟩ ⟨plan.columns, .waiting 0 source⟩ :=
      .waiting _ _ htwins
    exact ⟨rfl, halikes.collect Holding.uncounted hbegin,
      halikes.askAll Holding.uncounted hbegin⟩

/-! ## A hidden vertex -/

/-- The vertex of `Search.lonely`, and another one and an edge to it that are secret. -/
def shaded : RunState :=
  { RunState.initial with
    store := [.addVertex "x" [] [] "", .addVertex "h" ["H"] [("k", .int 1)] "secret",
      .addEdge "e" "R" "x" "h" [("k", .int 2)] "secret"].foldl Store.after .empty }

/-- Walks of one edge at most, a row for each. -/
def walks (properties : List (String × Expr)) : Query :=
  [.matching false (Search.stepParts properties) none,
    .projectReturn ⟨false, false, [⟨.literal (.int 1), some "n"⟩], [], none, none⟩]

theorem consistent_shaded : shaded.store.Consistent :=
  Store.consistent_empty.foldl_after _

/-- Without authorizations there is but the one vertex to be seen in both. -/
theorem seenAlike_shaded : Search.lonely.store.SeenAlike ⟨[]⟩ shaded.store :=
  .of_no_edges Search.consistent_lonely consistent_shaded rfl rfl rfl

theorem reads_alike_shaded : ∃ plan, ofQuery (walks []) = .ok plan ∧
    plan.body.isWrite = false ∧ Search.lonely.store.Consistent ∧ shaded.store.Consistent ∧
      Search.lonely.store.SeenAlike ⟨[]⟩ shaded.store ∧
      (∀ stages ∈ plan.body.branches, ∀ stage ∈ stages, stage.AlikeDefined
        Search.plainContext.config Search.lonely.store shaded.store) ∧
      match plan.start Search.plainContext Search.lonely,
        plan.start Search.plainContext shaded with
      | (.ok r, s'), (.ok r', t') =>
        r.columns = r'.columns ∧ (r.collect s').1 = (r'.collect t').1 ∧
          ∀ asks, (r.askAll asks s').1.1 = (r'.askAll asks t').1.1
      | (.error e, _), (.error e', _) => e = e'
      | _, _ => False := by
  obtain ⟨plan, hplan⟩ : ∃ plan, ofQuery (walks []) = .ok plan := ⟨_, rfl⟩
  have hread : plan.body.isWrite = false := by cases hplan; rfl
  have hdefined : ∀ stages ∈ plan.body.branches, ∀ stage ∈ stages, stage.AlikeDefined
      Search.plainContext.config Search.lonely.store shaded.store := by
    cases hplan
    refine List.forall_mem_singleton.2 (List.forall_mem_cons.2 ⟨?_, fun stage hstage => ?_⟩)
    · refine List.forall_mem_singleton.2 fun _ => ?_
      exact nofun
    · cases List.mem_singleton.1 hstage
      trivial
  exact ⟨plan, hplan, hread, Search.consistent_lonely, consistent_shaded, seenAlike_shaded, hdefined,
    reads_alike hread Search.consistent_lonely consistent_shaded seenAlike_shaded hdefined⟩

/-- A demand on a property that only hidden elements have finds the walk without edges, which is
not found where nothing has the property. -/
theorem hidden_name_shows : ¬ ∀ (plan : Plan) (ctx : RunContext) (s t : RunState),
    plan.body.isWrite = false →
    (∃ calls : List Store.Call, s.store = calls.foldl Store.after .empty) →
    (∃ calls : List Store.Call, t.store = calls.foldl Store.after .empty) →
    s.store.SeenAlike ctx.reader t.store →
    ((plan.start ctx >>= ResultStream.collect : Run (List (List Value))) s).1 =
      ((plan.start ctx >>= ResultStream.collect : Run (List (List Value))) t).1 := by
  intro h
  obtain ⟨plan, hplan⟩ : ∃ plan, ofQuery (walks [("k", .literal (.int 1))]) = .ok plan := ⟨_, rfl⟩
  have hsame := congrArg (fun rows => rows.toOption.map List.length)
    (h plan Search.plainContext Search.lonely shaded (by cases hplan; rfl) ⟨_, rfl⟩ ⟨_, rfl⟩
      seenAlike_shaded)
  cases hplan
  exact absurd hsame (by decide +kernel)

end Plan

end PropertyGraph
