import PropertyGraph.Proofs.Plan.Scoped
import PropertyGraph.Proofs.Run.Isolated

/-!
# Clauses one after the other

A statement that matches and then creates does both row by row.  It leaves the graph that it would
leave if all rows were matched before anything is created, as long as nothing that is created could
be matched.  Otherwise new elements come back as matches, since a cursor for a second part of the
pattern is opened when the first row has been written already.

    Stage.eachInFull     the stages one after the other, each for all rows
    Stage.Apart          nothing new could be matched
    start_isolated       carried out row by row, the statement leaves the same graph
    matches_own_writes   not so where something new is matched
-/

namespace PropertyGraph

open RunState (Like SameGraph)

variable {ctx : RunContext} {s s' : RunState}

namespace Stage

/-- Each stage makes its rows of all rows of the one before, and only then the next one starts. -/
def eachInFull (ctx : RunContext) (stages : List Stage) : Run (List Row) :=
  stages.foldlM (fun rows stage => Flow.toList (stage.flow ctx (Flow.ofList rows))) [.empty]

/-- Nothing that only the second store has could be matched to the pattern of the stage, and neither
does it change what its condition comes to, in a row without names. -/
def Apart (ctx : RunContext) (σ ρ : Store) : Stage → Prop
  | .matching pattern condition => ∀ resolved,
    pattern.mapM (fun e => e.value (ctx.env σ) .empty) = .ok resolved →
      (Search.of ctx resolved).Apart σ ρ ∧ (Search.of ctx resolved).Steady σ ρ condition
  | _ => True

/-- It is enough that the nodes are joined, that no new edge qualifies for a relationship, and that
the condition looks up no vertices. -/
theorem apart_of_connected {pattern : Constraints Expr} {condition : Option Expr} {σ ρ : Store}
    (hc : pattern.Connected)
    (hrelationships : ∀ resolved,
      pattern.mapM (fun e => e.value (ctx.env σ) .empty) = .ok resolved →
        ∀ r ∈ resolved.relationships, (Search.of ctx resolved).RelationshipApart σ ρ r)
    (hcalls : Expr.NoneLooksUp (Expr.optionCalls condition)) :
    Apart ctx σ ρ (.matching pattern condition) := fun resolved hvalues =>
  ⟨⟨Or.inl (hc.of_shape (Constraints.shape_of_mapM hvalues)), hrelationships resolved hvalues⟩,
    Search.steady_of_calls hcalls⟩

/-- The stage makes one row of each, by a computation that only adds to the graph and asks for
nothing else. -/
structure Creates (ctx : RunContext) (stage : Stage) (make : Row → Run Row) : Prop where
  flow : ∀ source s, stage.flow ctx source s =
    (source s).flatMap fun row => Flow.ofRun do return [← make row]
  blind : ∀ row, Blind SameGraph (make row)
  adds : ∀ row, Adds (make row)

theorem creates_create (parts : List PatternPart) :
    Creates ctx (.create parts) (ctx.create parts) :=
  ⟨fun _ _ => rfl, ctx.blind_create parts, RunContext.adds_create parts⟩

theorem creates_createApart (parts : List PatternPart) :
    Creates ctx (.createApart parts) (ctx.createApart parts) :=
  ⟨fun _ _ => rfl, ctx.blind_createApart parts, RunContext.adds_createApart parts⟩

section Two

variable {pattern : Constraints Expr} {condition : Option Expr} {stage : Stage}
  {make : Row → Run Row} {name : String}

theorem attachAll_pair {first second : Stage} (h₁ : ∀ p, first ≠ .project p)
    (h₂ : ∀ p, second ≠ .project p) (s : RunState) : attachAll ctx [first, second] s =
      (.ok fun s => (second.flow ctx
        (fun s => (first.flow ctx (Flow.single .empty) s).counted first.title) s).counted
          second.title, s) := by
  unfold attachAll
  rw [List.foldlM_cons, Run.bind_apply, attach_other ctx _ h₁]
  dsimp only
  rw [List.foldlM_cons, Run.bind_apply, attach_other ctx _ h₂]
  rfl

theorem flow_matching (ctx : RunContext) (pattern : Constraints Expr) (condition : Option Expr)
    (s : RunState) : (matching pattern condition).flow ctx (Flow.ofList [.empty]) s =
      (ctx.matchRow pattern condition .empty s).before 0 .done := rfl

theorem moves_matching (name : String) (s : RunState) :
    (((matching pattern condition).flow ctx (Flow.ofList [.empty]) s).counted name).Moves
      SameGraph s := by
  have hend : ∀ u, (Flow.done u : Flow Row).Moves SameGraph u := SameGraph.refl
  rw [flow_matching]
  exact ((ctx.moves_matchRow SameGraph.onward pattern condition .empty s).before
    SameGraph.onward 0 hend).counted SameGraph.onward name

/-- Each row is created from when it is matched, or all are matched first. -/
theorem drain_isolated (hw : pattern.WellFormed) (hplain : pattern.optional = false)
    (hcreates : Creates ctx stage make) (hσ : s.store.Consistent)
    (hapart : (matching pattern condition).Apart ctx s.store s'.store)
    (hdrain : (stage.flow ctx (fun s =>
      ((matching pattern condition).flow ctx (Flow.ofList [.empty]) s).counted name) s).drain =
        (.ok (), s')) :
    ∃ rows t, eachInFull ctx [.matching pattern condition, stage] s = (.ok rows, t) ∧
      t.SameGraph s' := by
  rw [hcreates.flow] at hdrain
  obtain ⟨hρ, hgrows⟩ := Flow.rises_drain hcreates.adds (moves_matching name s) hdrain hσ
  cases hvalues : pattern.mapM (fun e => e.value (ctx.env s.store) .empty) with
  | error e =>
    rw [flow_matching, RunContext.matchRow_of_error condition hvalues] at hdrain
    cases hdrain
  | ok resolved =>
    obtain ⟨happ, hsteady⟩ := hapart resolved hvalues
    have halike : Flow.Alike _ ((matching pattern condition).flow ctx (Flow.ofList [.empty]) s)
        ((matching pattern condition).flow ctx (Flow.ofList [.empty]) s) :=
      (ctx.alike_matchRow hσ hρ hgrows hw hplain hvalues happ hsteady).before
        Search.Beside.uncounted fun _ _ h => .done h
    obtain ⟨rows, s₁, t₁, hfold, hlast, hwrites⟩ :=
      (halike.counted_right Search.Beside.uncounted name).collected (fun _ _ h => h.consistent)
        (fun _ _ _ h => h.onward) hcreates.blind hcreates.adds (moves_matching name s) hdrain []
    obtain ⟨u, hcreate, hsame⟩ := hwrites s₁ hlast.same
    rw [← hcreates.flow (Flow.ofList rows)] at hcreate
    obtain ⟨out, hout⟩ := Flow.toList_of_drain hcreate
    refine ⟨out, u, ?_, hsame⟩
    unfold eachInFull
    rw [List.foldlM_cons, Run.bind_apply, Flow.toList_of_foldRun hfold]
    dsimp only
    rw [List.foldlM_cons, Run.bind_apply, hout]
    rfl

/-- Stages one behind the other for each row, or one after the other for all rows. -/
theorem isolated_pair (hw : pattern.WellFormed) (hplain : pattern.optional = false)
    (hcreates : Creates ctx stage make) (hnot : ∀ p, stage ≠ .project p)
    (hσ : s.store.Consistent) (hapart : (matching pattern condition).Apart ctx s.store s'.store)
    {source : Source Row} {rows : List Row}
    (hattach : attachAll ctx [.matching pattern condition, stage] s = (.ok source, s))
    (hrun : Flow.toList source s = (.ok rows, s')) :
    ∃ rows t, eachInFull ctx [.matching pattern condition, stage] s = (.ok rows, t) ∧
      s'.SameGraph t := by
  rw [attachAll_pair (fun _ h => Stage.noConfusion h) hnot] at hattach
  cases hattach
  obtain ⟨r, hlist, hend⟩ := Flow.toList_drain (fun s => (stage.flow ctx (fun s =>
    ((matching pattern condition).flow ctx (Flow.single .empty) s).counted
      (matching pattern condition).title) s).counted stage.title) s
  rw [hrun] at hlist
  cases hlist
  -- the rows that come out are counted, which is no matter
  have htwins : Flow.Twins Like
      (fun s => ((matching pattern condition).flow ctx (Flow.single .empty) s).counted
        (matching pattern condition).title)
      (fun s => ((matching pattern condition).flow ctx (Flow.single .empty) s).counted
        (matching pattern condition).title) := fun t u htu =>
    (twins_flow (Flow.twins_single Row.empty) (matching pattern condition) t u htu).counted
      Like.uncounted _
  obtain ⟨hsame, hlike⟩ :=
    (twins_flow htwins stage s s (.refl s)).drain_counted stage.title
  rw [hlike.store] at hapart
  obtain ⟨rows', t, hfull, ht⟩ :=
    drain_isolated hw hplain hcreates hσ hapart (Prod.ext (hsame.symm.trans hend) rfl)
  exact ⟨rows', t, hfull, (Graphic.same _ _ hlike).trans ht.symm⟩

end Two

end Stage

namespace Plan

/-! ## The plan of a statement -/

theorem branches_plain {query : List Clause} (h : ∀ c ∈ query, IsPlain c) (kind : Option Bool)
    (depth : Nat) : branches kind query depth = .ok ([query], kind) := by
  have hsplit := splitUnion_append h []
  rw [List.append_nil] at hsplit
  cases depth with
  | zero => rfl
  | succ depth =>
    unfold branches
    rw [hsplit]
    simp [splitUnion]

/-- Without unions there is one series of stages. -/
theorem series_of_ofQuery {query : Query} {plan : Plan} (h : ofQuery query = .ok plan)
    (hplain : ∀ c ∈ query, IsPlain c) : ∃ stages, plan.body = .series stages ∧
      planBranch query = .ok (stages, plan.columns) := by
  unfold ofQuery at h
  rw [branches_plain hplain] at h
  change ([query].mapM planBranch >>= _) = _ at h
  obtain ⟨planned, hplanned, h⟩ := ok_of_bind h
  rw [List.mapM_cons] at hplanned
  obtain ⟨_, hbranch, hplanned⟩ := ok_of_bind hplanned
  cases hplanned
  cases h
  exact ⟨_, rfl, hbranch⟩

theorem matching_of_planMatch {scope scope' : Scope} {optional : Bool} {parts : List PatternPart}
    {condition : Option Expr} {stage : Stage}
    (h : planMatch scope optional parts condition = .ok (stage, scope')) :
    ∃ pattern left, stage = .matching pattern left ∧ pattern.WellFormed ∧
      pattern.optional = optional := by
  obtain ⟨pattern, hpattern, h⟩ := ok_of_bind h
  obtain ⟨_, -, h⟩ := ok_of_bind h
  obtain ⟨hw, hoptional⟩ := Constraints.wellFormed_of_ofParts hpattern
  cases condition with
  | none =>
    cases h
    exact ⟨pattern, none, rfl, hw, hoptional⟩
  | some e =>
    obtain ⟨_, -, h⟩ := ok_of_bind h
    cases h
    obtain ⟨hshape, -⟩ := pattern.absorbAll_spec e.conjuncts
    exact ⟨_, _, rfl, hw.of_shape hshape, (congrArg (·.optional) hshape).trans hoptional⟩

theorem creates_of_planCreate {scope scope' : Scope} {parts : List PatternPart} {stage : Stage}
    (h : planCreate scope parts = .ok (stage, scope')) :
    (∀ p, stage ≠ .project p) ∧ stage.isWrite = true ∧
      ∃ make : RunContext → Row → Run Row, ∀ ctx, Stage.Creates ctx stage (make ctx) := by
  obtain ⟨_, -, h⟩ := ok_of_bind h
  obtain ⟨_, -, h⟩ := ok_of_bind h
  cases h
  split
  · exact ⟨nofun, rfl, fun ctx => ctx.createApart parts, fun _ => Stage.creates_createApart parts⟩
  · exact ⟨nofun, rfl, fun ctx => ctx.create parts, fun _ => Stage.creates_create parts⟩

/-- The plan of a `MATCH` and a `CREATE` has a stage for each. -/
theorem stages_of_match_create {parts created : List PatternPart} {condition : Option Expr}
    {plan : Plan} (h : ofQuery [.matching false parts condition, .create created] = .ok plan) :
    ∃ pattern left stage, plan.body = .series [.matching pattern left, stage] ∧
      pattern.WellFormed ∧ pattern.optional = false ∧ (∀ p, stage ≠ .project p) ∧
      stage.isWrite = true ∧
      ∃ make : RunContext → Row → Run Row, ∀ ctx, Stage.Creates ctx stage (make ctx) := by
  have hplain : ∀ c ∈ [Clause.matching false parts condition, .create created], IsPlain c := by
    simp [IsPlain]
  obtain ⟨stages, hbody, hbranch⟩ := series_of_ofQuery h hplain
  obtain ⟨p, hfold, hbranch⟩ := ok_of_bind hbranch
  rw [List.foldlM_cons] at hfold
  obtain ⟨p₁, hfirst, hfold⟩ := ok_of_bind hfold
  rw [List.foldlM_cons] at hfold
  obtain ⟨p₂, hsecond, hfold⟩ := ok_of_bind hfold
  cases hfold
  obtain ⟨-, hfirst⟩ := planned_of_ok hfirst
  obtain ⟨-, hsecond⟩ := planned_of_ok hsecond
  cases hfirst with
  | matching hmatch =>
    cases hsecond with
    | create hcreate =>
      obtain ⟨pattern, left, rfl, hw, hoptional⟩ := matching_of_planMatch hmatch
      obtain ⟨hnot, hwrite, hmake⟩ := creates_of_planCreate hcreate
      obtain ⟨rfl, -⟩ := Prod.ext_iff.1 (Except.ok.inj hbranch)
      exact ⟨pattern, left, _, hbody, hw, hoptional, hnot, hwrite, hmake⟩

/-! ## Both clauses in full -/

/-- A statement that matches and then creates leaves the graph that it would leave if the first
clause were carried out in full before the second one, if nothing that is created could be
matched. -/
theorem start_isolated {parts created : List PatternPart} {condition : Option Expr} {plan : Plan}
    {result : ResultStream}
    (hplan : ofQuery [.matching false parts condition, .create created] = .ok plan)
    (hσ : s.store.Consistent) (hrun : plan.start ctx s = (.ok result, s'))
    (hapart : ∀ stages, plan.body = .series stages →
      ∀ stage ∈ stages, stage.Apart ctx s.store s'.store) :
    ∃ stages rows t, plan.body = .series stages ∧
      Stage.eachInFull ctx stages s.begin = (.ok rows, t) ∧ s'.SameGraph t := by
  obtain ⟨pattern, left, stage, hbody, hw, hoptional, hnot, hwrite, make, hcreates⟩ :=
    stages_of_match_create hplan
  have hwrites : plan.body.isWrite = true := by
    rw [hbody]
    simp [PlanBody.isWrite, hwrite]
  rw [start_of_isWrite hwrites, hbody, Run.bind_apply] at hrun
  split at hrun
  · next source t hattach =>
    obtain ⟨rfl, -⟩ := Stage.twins_attachAll hattach
    rw [Run.bind_apply] at hrun
    split at hrun
    · next rows u hlist =>
      cases hrun
      have happ := hapart _ hbody _ List.mem_cons_self
      obtain ⟨rows', t, hfull, hsame⟩ :=
        Stage.isolated_pair (s := s.begin) hw hoptional (hcreates ctx) hnot hσ happ hattach hlist
      exact ⟨_, rows', t, hbody, hfull, hsame⟩
    · cases hrun
  · cases hrun

/-! ## Two vertices -/

/-- Two vertices without labels and properties. -/
def pair : RunState :=
  { RunState.initial with
    store := [.addVertex "x" [] [] "", .addVertex "y" [] [] ""].foldl Store.after .empty }

/-- A part of a single node. -/
def nodePart (name : Option String) : PatternPart :=
  ⟨none, ⟨name, [], []⟩, []⟩

theorem consistent_pair : pair.store.Consistent :=
  Store.consistent_empty.foldl_after _

/-- With one node to match, each vertex is matched once, and none that is created. -/
theorem start_isolated_node : ∃ plan result s',
    ofQuery [.matching false [nodePart (some "a")] none, .create [nodePart none]] = .ok plan ∧
      pair.store.Consistent ∧ plan.start Search.plainContext pair = (.ok result, s') ∧
      (∀ stages, plan.body = .series stages →
        ∀ stage ∈ stages, stage.Apart Search.plainContext pair.store s'.store) ∧
      ∃ stages rows t, plan.body = .series stages ∧
        Stage.eachInFull Search.plainContext stages pair.begin = (.ok rows, t) ∧
          s'.SameGraph t := by
  obtain ⟨plan, hplan⟩ : ∃ plan, ofQuery [.matching false [nodePart (some "a")] none,
      .create [nodePart none]] = .ok plan := ⟨_, rfl⟩
  have hok : (plan.start Search.plainContext pair).1.isOk = true := by
    cases hplan
    decide +kernel
  cases hrun : plan.start Search.plainContext pair with
  | mk r s' =>
    rw [hrun] at hok
    cases r with
    | error e => cases hok
    | ok result =>
      have hapart : ∀ stages, plan.body = .series stages →
          ∀ stage ∈ stages, stage.Apart Search.plainContext pair.store s'.store := by
        cases hplan
        intro stages hbody
        cases hbody
        refine List.forall_mem_cons.2 ⟨?_, List.forall_mem_singleton.2 trivial⟩
        have hpattern : Constraints.ofParts [nodePart (some "a")] false = .ok _ := rfl
        refine Stage.apart_of_connected (Constraints.connected_of_part hpattern) ?_ nofun
        intro resolved hresolved
        cases hresolved
        exact nofun
      exact ⟨plan, result, s', hplan, consistent_pair, hrun, hapart,
        start_isolated hplan consistent_pair hrun hapart⟩

/-- With a second part to match, vertices that are created are matched to it later on: six are
created for the four pairs that there were. -/
theorem matches_own_writes : ¬ ∀ (parts created : List PatternPart) (condition : Option Expr)
    (plan : Plan) (stages : List Stage) (ctx : RunContext) (s : RunState),
    ofQuery [.matching false parts condition, .create created] = .ok plan →
    plan.body = .series stages → s.store.Consistent →
    (∀ part ∈ created, ∀ n ∈ part.nodes, ∀ p ∈ n.properties, Expr.NoneLooksUp p.2.calls) →
    (∀ part ∈ created, ∀ r ∈ part.relationships, ∀ p ∈ r.properties,
      Expr.NoneLooksUp p.2.calls) →
    (plan.start ctx s).1.isOk = true → (Stage.eachInFull ctx stages s.begin).1.isOk = true →
    (plan.start ctx s).2.store = (Stage.eachInFull ctx stages s.begin).2.store := by
  intro h
  have hsame := congrArg (fun σ : Store => σ.vertices.toList.length)
    (h [nodePart (some "a"), nodePart (some "b")] [nodePart none] none _ _ Search.plainContext pair
      rfl rfl consistent_pair (by simp [nodePart, PatternPart.nodes])
      (by simp [nodePart, PatternPart.relationships]) (by decide +kernel) (by decide +kernel))
  exact absurd hsame (by decide +kernel)

end Plan

end PropertyGraph
