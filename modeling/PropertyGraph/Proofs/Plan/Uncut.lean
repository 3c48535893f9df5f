import PropertyGraph.Proofs.Plan.Clauses

/-!
# Queries without a cut

A query that ends in `RETURN` can be asked for all its rows: the numbers of rows to pass over and to
keep are left out of that `RETURN`, which in a union is the one of the last branch.  Its plan is the
plan of the query with the same numbers left out of the last projection.

    Query.uncut        the query without the cut
    Plan.uncut         the plan without the cut
    ofQuery_uncut      planning goes from the one to the other
-/

namespace PropertyGraph

/-- The list with a function applied to its last item. -/
def mapLast {α : Type} (f : α → α) : List α → List α
  | [] => []
  | [a] => [f a]
  | a :: b :: rest => a :: mapLast f (b :: rest)

section MapLast

variable {α β : Type} {f : α → α}

theorem mapLast_concat (f : α → α) (as : List α) (a : α) :
    mapLast f (as ++ [a]) = as ++ [f a] := by
  induction as with
  | nil => rfl
  | cons b rest ih =>
    cases rest with
    | nil => rfl
    | cons c rest =>
      show b :: mapLast f (c :: rest ++ [a]) = _
      rw [ih]
      rfl

theorem mapLast_cons (a : α) {as : List α} (h : as ≠ []) :
    mapLast f (a :: as) = a :: mapLast f as := by
  cases as with
  | nil => exact absurd rfl h
  | cons b rest => rfl

theorem map_mapLast {g : α → β} (k : β → β) (h : ∀ a, g (f a) = k (g a)) (as : List α) :
    (mapLast f as).map g = mapLast k (as.map g) := by
  match as with
  | [] => rfl
  | [a] => exact congrArg ([·]) (h a)
  | a :: b :: rest => exact congrArg (g a :: ·) (map_mapLast k h (b :: rest))

theorem mapLast_id (as : List α) : mapLast id as = as := by
  match as with
  | [] | [_] => rfl
  | a :: b :: rest => exact congrArg (a :: ·) (mapLast_id (b :: rest))

theorem mapM_mapLast {ε : Type} {g : α → Except ε β} {k : β → β} {as : List α} {bs : List β}
    (hlast : ∀ a b, g a = .ok b → g (f a) = .ok (k b)) (h : as.mapM g = .ok bs) :
    (mapLast f as).mapM g = .ok (mapLast k bs) := by
  match as with
  | [] => cases h; rfl
  | [a] =>
    obtain ⟨b, hb, h⟩ := ok_of_bind (List.mapM_cons (m := Except ε) ▸ h)
    cases h
    rw [mapLast, List.mapM_cons, ok_bind (hlast a b hb)]
    rfl
  | a :: a' :: rest =>
    rw [List.mapM_cons] at h
    obtain ⟨b, hb, h⟩ := ok_of_bind h
    obtain ⟨bs, hbs, h⟩ := ok_of_bind h
    cases h
    have hne : bs ≠ [] := by
      rintro rfl
      rw [List.mapM_cons] at hbs
      obtain ⟨_, -, hbs⟩ := ok_of_bind hbs
      obtain ⟨_, -, hbs⟩ := ok_of_bind hbs
      cases hbs
    rw [mapLast, List.mapM_cons, ok_bind hb, ok_bind (mapM_mapLast hlast hbs), mapLast_cons b hne]
    rfl

end MapLast

/-! ## Leaving out the cut -/

/-- The projection of all rows. -/
def ProjectionBody.uncut (body : ProjectionBody) : ProjectionBody :=
  { body with skip := none, limit := none }

mutual

/-- The clause without the cut, if it is a `RETURN` or a union. -/
def Clause.uncut : Clause → Clause
  | .projectReturn body => .projectReturn body.uncut
  | .union all clauses => .union all (Query.uncut clauses)
  | .matching optional parts condition => .matching optional parts condition
  | .unwind source name => .unwind source name
  | .projectWith body condition => .projectWith body condition
  | .create parts => .create parts
  | .merge part onCreate onMatch => .merge part onCreate onMatch
  | .set items => .set items
  | .remove items => .remove items
  | .delete detach targets => .delete detach targets
  | .call procedure => .call procedure

/-- The query without the cut of its last clause. -/
def Query.uncut : List Clause → List Clause
  | [] => []
  | [c] => [c.uncut]
  | c :: d :: rest => c :: Query.uncut (d :: rest)

end

theorem Query.uncut_eq (query : Query) : Query.uncut query = mapLast Clause.uncut query := by
  match query with
  | [] => rfl
  | [_] => rfl
  | c :: d :: rest => exact congrArg (c :: ·) (Query.uncut_eq (d :: rest))

/-- The projection of all rows. -/
def Projection.uncut (p : Projection) : Projection :=
  { p with skip := none, limit := none }

/-- The stage without the cut, if it is a projection. -/
def Stage.uncut : Stage → Stage
  | .project p => .project p.uncut
  | stage => stage

/-- The plan without the cut of its last stage. -/
def PlanBody.uncut : PlanBody → PlanBody
  | .series stages => .series (mapLast Stage.uncut stages)
  | .union all branches => .union all (mapLast (mapLast Stage.uncut) branches)

/-- The plan without the cut of its last stage. -/
def Plan.uncut (plan : Plan) : Plan :=
  { plan with body := plan.body.uncut }

namespace Plan

/-! ## One branch -/

theorem make_uncut {columns : List (Expr × String)} {body : ProjectionBody} {p : Projection}
    (h : Projection.make columns body = .ok p) :
    Projection.make columns body.uncut = .ok p.uncut := by
  unfold Projection.make at h ⊢
  obtain ⟨⟨columns', noted⟩, hcolumns, h⟩ := ok_of_bind h
  obtain ⟨⟨order, aggregates⟩, horder, h⟩ := ok_of_bind h
  rw [hcolumns]
  show (Projection.liftOrder _ body.order _ >>= _) = _
  rw [horder]
  dsimp only at h
  split at h
  · cases h
  · cases h; rfl

theorem planProjection_uncut {scope : Scope} {body : ProjectionBody} {p : Projection}
    (h : planProjection scope body = .ok p) : planProjection scope body.uncut = .ok p.uncut := by
  unfold planProjection at h ⊢
  obtain ⟨stars, hstars, h⟩ := ok_of_bind h
  obtain ⟨columns, hcolumns, h⟩ := ok_of_bind h
  obtain ⟨_, horder, h⟩ := ok_of_bind h
  obtain ⟨_, -, h⟩ := ok_of_bind h
  rw [show starColumns scope body.uncut = starColumns scope body from rfl, hstars]
  show (body.items.foldlM (addColumn scope) stars >>= _) = _
  rw [hcolumns]
  show (Scope.checkAll _ (body.order.map (·.expr)) >>= _) = _
  rw [horder]
  exact make_uncut h

/-- The stage that a final clause adds, without its cut. -/
theorem planClause_uncut {p p' : Progress} {c : Clause}
    (hlast : c.isWrite = true ∨ p'.returned.isSome = true) (h : planClause p c = .ok p') :
    ∃ p'', planClause p c.uncut = .ok p'' ∧ p''.stages = mapLast Stage.uncut p'.stages ∧
      p''.returned = p'.returned := by
  obtain ⟨hopen, hplanned⟩ := planned_of_ok h
  -- a clause that writes has no cut, and so has its stage
  have hwrite : ∀ {stage scope}, p' = p.add stage scope → c.uncut = c → stage.uncut = stage →
      ∃ p'', planClause p c.uncut = .ok p'' ∧ p''.stages = mapLast Stage.uncut p'.stages ∧
        p''.returned = p'.returned := by
    rintro stage scope rfl hc hstage
    refine ⟨_, hc.symm ▸ h, ?_, rfl⟩
    show p.stages ++ [stage] = mapLast Stage.uncut (p.stages ++ [stage])
    rw [mapLast_concat, hstage]
  have hnone : ¬ p.returned.isSome = true := by
    rw [hopen]
    exact Bool.false_ne_true
  cases hplanned with
  | matching _ | unwind _ | projectWith _ | projectWhere _ _ =>
    exact absurd (hlast.resolve_left Bool.false_ne_true) hnone
  | @projectReturn body projection hplan =>
    refine ⟨{ p.add (.project projection.uncut) p.scope with returned := some projection.names },
      ?_, ?_, rfl⟩
    · unfold planClause
      rw [hopen]
      exact ok_bind (planProjection_uncut hplan) _
    · exact (mapLast_concat Stage.uncut p.stages (.project projection)).symm
  | create hplan =>
    refine hwrite rfl rfl ?_
    unfold planCreate at hplan
    obtain ⟨_, -, hplan⟩ := ok_of_bind hplan
    obtain ⟨_, -, hplan⟩ := ok_of_bind hplan
    cases hplan
    split <;> rfl
  | merge hplan =>
    refine hwrite rfl rfl ?_
    unfold planMerge at hplan
    obtain ⟨_, -, hplan⟩ := ok_of_bind hplan
    obtain ⟨_, -, hplan⟩ := ok_of_bind hplan
    obtain ⟨_, -, hplan⟩ := ok_of_bind hplan
    cases hplan
    rfl
  | set _ | remove _ | delete _ => exact hwrite rfl rfl rfl

theorem isWrite_uncut (c : Clause) : c.uncut.isWrite = c.isWrite := by
  cases c <;> rfl

theorem planBranch_uncut {clauses : List Clause} {stages : List Stage} {columns : List String}
    (h : planBranch clauses = .ok (stages, columns)) :
    planBranch (mapLast Clause.uncut clauses) = .ok (mapLast Stage.uncut stages, columns) := by
  rcases List.eq_nil_or_concat' clauses with rfl | ⟨front, last, rfl⟩
  · cases h
  · rw [mapLast_concat]
    unfold planBranch at h ⊢
    rw [List.getLast?_concat] at h ⊢
    dsimp only at h ⊢
    obtain ⟨p', hfold, h⟩ := ok_of_bind h
    rw [List.foldlM_append] at hfold ⊢
    obtain ⟨p, hfront, hlast⟩ := ok_of_bind hfold
    rw [List.foldlM_cons] at hlast
    obtain ⟨_, hlast, hend⟩ := ok_of_bind hlast
    cases hend
    by_cases hunfinished : (p'.returned.isNone && !last.isWrite) = true
    · rw [if_pos hunfinished] at h
      cases h
    · rw [if_neg hunfinished] at h
      cases h
      have hfinal : last.isWrite = true ∨ p'.returned.isSome = true := by
        cases hw : last.isWrite with
        | true => exact Or.inl rfl
        | false =>
          rw [hw] at hunfinished
          exact Or.inr (by simpa [Option.isSome_iff_ne_none] using hunfinished)
      obtain ⟨p'', hlast', hstages, hreturned⟩ := planClause_uncut hfinal hlast
      rw [ok_bind (x := front.foldlM planClause ⟨[], .empty, none⟩ >>= fun p =>
        [last.uncut].foldlM planClause p) (a := p'') ?_]
      · rw [hreturned, isWrite_uncut, if_neg hunfinished, ← hstages]
        rfl
      · rw [ok_bind hfront, List.foldlM_cons, ok_bind hlast']
        rfl

/-! ## Unions -/

/-- The clause is no union. -/
def IsPlain (c : Clause) : Prop :=
  ∀ all clauses, c ≠ .union all clauses

theorem splitUnion_cons {c : Clause} (hc : IsPlain c) (rest : List Clause) :
    splitUnion (c :: rest) = (c :: (splitUnion rest).1, (splitUnion rest).2) := by
  cases c with
  | union all clauses => exact absurd rfl (hc all clauses)
  | _ => rfl

theorem splitUnion_append {before : List Clause} (h : ∀ c ∈ before, IsPlain c)
    (rest : List Clause) :
    splitUnion (before ++ rest) = (before ++ (splitUnion rest).1, (splitUnion rest).2) := by
  induction before with
  | nil => rfl
  | cons c before ih =>
    obtain ⟨hc, h⟩ := List.forall_mem_cons.1 h
    rw [List.cons_append, splitUnion_cons hc, ih h]
    rfl

/-- The clauses before a union are no unions, and with it and what is after it they are the query. -/
theorem splitUnion_spec (query : List Clause) :
    (∀ c ∈ (splitUnion query).1, IsPlain c) ∧
      query = (splitUnion query).1 ++ match (splitUnion query).2 with
        | none => []
        | some (all, clauses, rest) => .union all clauses :: rest := by
  induction query with
  | nil => exact ⟨nofun, rfl⟩
  | cons c rest ih =>
    by_cases hc : IsPlain c
    · rw [splitUnion_cons hc]
      exact ⟨List.forall_mem_cons.2 ⟨hc, ih.1⟩, congrArg (c :: ·) ih.2⟩
    · unfold IsPlain at hc
      push Not at hc
      obtain ⟨all, clauses, rfl⟩ := hc
      exact ⟨nofun, rfl⟩

theorem isPlain_uncut {c : Clause} (h : IsPlain c) : IsPlain c.uncut := by
  cases c with
  | union all clauses => exact absurd rfl (h all clauses)
  | _ => exact nofun

theorem splitUnion_uncut_none {query before : List Clause}
    (h : splitUnion query = (before, none)) :
    splitUnion (Query.uncut query) = (mapLast Clause.uncut before, none) := by
  obtain ⟨hplain, hquery⟩ := splitUnion_spec query
  rw [h] at hplain hquery
  rw [List.append_nil] at hquery
  subst hquery
  rw [Query.uncut_eq]
  rcases List.eq_nil_or_concat' query with rfl | ⟨front, last, rfl⟩
  · rfl
  · rw [mapLast_concat]
    have hall : ∀ c ∈ front ++ [last.uncut], IsPlain c := by
      rw [List.forall_mem_append] at hplain ⊢
      exact ⟨hplain.1, List.forall_mem_singleton.2 (isPlain_uncut (hplain.2 last
        (List.mem_singleton_self last)))⟩
    have hsplit := splitUnion_append hall []
    rw [List.append_nil (front ++ [last.uncut])] at hsplit
    rw [hsplit, show splitUnion [] = ([], none) from rfl, List.append_nil]

theorem splitUnion_uncut_some {query before clauses : List Clause} {all : Bool}
    (h : splitUnion query = (before, some (all, clauses, []))) :
    splitUnion (Query.uncut query) = (before, some (all, Query.uncut clauses, [])) := by
  obtain ⟨hplain, hquery⟩ := splitUnion_spec query
  rw [h] at hplain hquery
  rw [Query.uncut_eq, hquery, mapLast_concat, splitUnion_append hplain]
  show (before ++ [], _) = _
  rw [List.append_nil]
  rfl

theorem branches_ne_nil {depth : Nat} {kind kind' : Option Bool} {query : List Clause}
    {queries : List (List Clause)} (h : branches kind query depth = .ok (queries, kind')) :
    queries ≠ [] := by
  unfold branches at h
  split at h
  · cases h; exact List.cons_ne_nil _ _
  · split at h
    · cases h; exact List.cons_ne_nil _ _
    · split at h
      · cases h
      · split at h
        · cases h
        · obtain ⟨_, -, h⟩ := ok_of_bind h
          cases h
          exact List.cons_ne_nil _ _

theorem branches_uncut {depth : Nat} {kind kind' : Option Bool} {query : List Clause}
    {queries : List (List Clause)} (h : branches kind query depth = .ok (queries, kind')) :
    branches kind (Query.uncut query) depth =
      .ok (mapLast (mapLast Clause.uncut) queries, kind') := by
  induction depth generalizing kind query queries with
  | zero =>
    cases h
    rw [Query.uncut_eq]
    rfl
  | succ depth ih =>
    unfold branches at h ⊢
    split at h
    · next before hsplit =>
      cases h
      rw [splitUnion_uncut_none hsplit]
      rfl
    · next before all clauses rest hsplit =>
      split at h
      · cases h
      · next hrest =>
        obtain rfl : rest = [] := by simpa using hrest
        rw [splitUnion_uncut_some hsplit]
        dsimp only
        split at h
        · cases h
        · next hkind =>
          obtain ⟨⟨others, kind''⟩, hothers, h⟩ := ok_of_bind h
          cases h
          rw [if_neg hrest, if_neg hkind, ok_bind (ih hothers),
            mapLast_cons _ (branches_ne_nil hothers)]
          rfl

mutual

theorem clauseDepth_uncut (c : Clause) : clauseDepth c.uncut = clauseDepth c := by
  cases c with
  | union all clauses => exact congrArg (· + 1) (unionDepth_uncut clauses)
  | _ => rfl

theorem unionDepth_uncut (query : List Clause) :
    unionDepth (Query.uncut query) = unionDepth query := by
  match query with
  | [] => rfl
  | [c] => exact congrArg (max · 0) (clauseDepth_uncut c)
  | c :: d :: rest => exact congrArg (max (clauseDepth c)) (unionDepth_uncut (d :: rest))

end

/-- A query without a union is a branch of its own. -/
theorem eq_singleton_of_branches {depth : Nat} {kind : Option Bool} {query : List Clause}
    {queries : List (List Clause)} (h : branches kind query depth = .ok (queries, none)) :
    ∃ clauses, queries = [clauses] := by
  have hkind : ∀ depth all query queries,
      ¬ branches (some all) query depth = .ok (queries, none) := by
    intro depth
    induction depth with
    | zero => intro all query queries h; cases h
    | succ depth ih =>
      intro all query queries h
      unfold branches at h
      split at h
      · cases h
      · split at h
        · cases h
        · split at h
          · cases h
          · obtain ⟨⟨others, kind⟩, hothers, h⟩ := ok_of_bind h
            cases h
            exact ih _ _ _ hothers
  cases depth with
  | zero => cases h; exact ⟨_, rfl⟩
  | succ depth =>
    unfold branches at h
    split at h
    · cases h; exact ⟨_, rfl⟩
    · split at h
      · cases h
      · split at h
        · cases h
        · obtain ⟨⟨others, kind⟩, hothers, h⟩ := ok_of_bind h
          cases h
          exact absurd hothers (hkind _ _ _ _)

/-- The branches of a plan, planned one by one, without the cut of the last one. -/
def uncutLast (planned : List (List Stage × List String)) : List (List Stage × List String) :=
  mapLast (fun p => (mapLast Stage.uncut p.1, p.2)) planned

theorem map_fst_uncutLast (planned : List (List Stage × List String)) :
    (uncutLast planned).map Prod.fst = mapLast (mapLast Stage.uncut) (planned.map Prod.fst) :=
  map_mapLast (mapLast Stage.uncut) (fun _ => by rfl) planned

theorem map_snd_uncutLast (planned : List (List Stage × List String)) :
    (uncutLast planned).map Prod.snd = planned.map Prod.snd :=
  (map_mapLast id (fun _ => by rfl) planned).trans (mapLast_id _)

/-- Planning the query without its cut gives the plan without its cut. -/
theorem ofQuery_uncut {query : Query} {plan : Plan} (h : ofQuery query = .ok plan) :
    ofQuery (Query.uncut query) = .ok plan.uncut := by
  unfold ofQuery at h ⊢
  obtain ⟨⟨queries, kind⟩, hqueries, h⟩ := ok_of_bind h
  obtain ⟨planned, hplanned, h⟩ := ok_of_bind h
  rw [unionDepth_uncut, ok_bind (branches_uncut hqueries)]
  dsimp only at h ⊢
  rw [ok_bind (a := uncutLast planned) (mapM_mapLast (fun _ p hp => planBranch_uncut hp) hplanned)]
  cases kind with
  | none =>
    obtain ⟨clauses, rfl⟩ := eq_singleton_of_branches hqueries
    rw [List.mapM_cons] at hplanned
    obtain ⟨p, -, hplanned⟩ := ok_of_bind hplanned
    cases hplanned
    cases h
    rfl
  | some all =>
    match planned with
    | [] => cases h
    | (stages, columns) :: rest =>
      obtain ⟨stages', rest', hlast⟩ : ∃ stages' rest',
          uncutLast ((stages, columns) :: rest) = (stages', columns) :: rest' := by
        cases rest with
        | nil => exact ⟨_, _, rfl⟩
        | cons other rest => exact ⟨_, _, rfl⟩
      have hfst := map_fst_uncutLast ((stages, columns) :: rest)
      have hsnd := map_snd_uncutLast ((stages, columns) :: rest)
      rw [hlast] at hfst hsnd ⊢
      have hany : rest'.any (·.2 != columns) = rest.any (·.2 != columns) := by
        have := congrArg (List.any · (· != columns)) (List.cons.inj hsnd).2
        rwa [List.any_map, List.any_map] at this
      dsimp only at h ⊢
      rw [hany]
      split at h
      · cases h
      · next hempty =>
        rw [if_neg hempty]
        split at h
        · cases h
        · next hdiffer =>
          rw [if_neg hdiffer]
          cases h
          exact congrArg (fun branches => Except.ok (Plan.mk (.union all branches) columns)) hfst

end Plan

end PropertyGraph
