import PropertyGraph.Proofs.Pattern.Exact
import PropertyGraph.Proofs.Plan.Uncut
import PropertyGraph.Proofs.Run.Assembled

/-!
# The cut of a result and the effects of a statement

A statement that writes is carried out to the end of its flow of rows.  So the graph that it leaves
is the one that is left when the flow has been asked for everything, which is also what passing
over rows asks for.  A limit is different: where the rows are projected one by one the flow ends
with the last row that is kept, and what the rows after it would have written is never written.

    Flow.drain            what is left when everything has been asked for
    drain_of_takeSucc     a flow that gives less than its limit has been asked for everything
    Projection.drains     a projection that cuts off nothing drains its source
-/

namespace PropertyGraph

open RunState (Like)

variable {α β : Type}

namespace Flow

/-! ## Draining -/

/-- How the flow ends when all items have been asked for, and what is left then. -/
def drain : Flow α → Except Error Unit × RunState
  | .done s => (.ok (), s)
  | .fail e s => (.error e, s)
  | .emit _ _ s rest => (rest s).drain

/-- The outcomes are alike: the same end, and states that differ in their counters at most. -/
def EndsLike (x y : Except Error Unit × RunState) : Prop :=
  x.1 = y.1 ∧ x.2.Like y.2

theorem EndsLike.refl (x : Except Error Unit × RunState) : EndsLike x x :=
  ⟨rfl, .refl x.2⟩

theorem EndsLike.symm {x y : Except Error Unit × RunState} (h : EndsLike x y) : EndsLike y x :=
  ⟨h.1.symm, h.2.symm⟩

theorem EndsLike.trans {x y z : Except Error Unit × RunState} (h : EndsLike x y)
    (h' : EndsLike y z) : EndsLike x z :=
  ⟨h.1.trans h'.1, h.2.trans h'.2⟩

theorem foldRun_cons (f : Flow α) (acc : List α) :
    ∃ r, f.foldRun (fun items a => pure (a :: items)) acc = (r, f.drain.2) ∧
      f.drain.1 = r.map fun _ => () := by
  induction f generalizing acc with
  | done s => exact ⟨.ok acc, rfl, rfl⟩
  | fail e s => exact ⟨.error e, rfl, rfl⟩
  | emit a held s rest ih => exact ih s (a :: acc)

/-- A source that is asked for all its items at once is drained. -/
theorem toList_drain (source : Source α) (s : RunState) :
    ∃ r, toList source s = (r, (source s).drain.2) ∧ (source s).drain.1 = r.map fun _ => () := by
  obtain ⟨r, hr, hend⟩ := foldRun_cons (source s) []
  unfold toList gather
  rw [hr]
  cases r with
  | ok items => exact ⟨.ok items.reverse, rfl, hend⟩
  | error e => exact ⟨.error e, rfl, hend⟩

theorem drain_map (k : α → β) (f : Flow α) : (f.map k).drain = f.drain := by
  induction f with
  | done s => rfl
  | fail e s => rfl
  | emit a held s rest ih => exact ih s

theorem drain_drop (n : Nat) (f : Flow α) : (f.drop n).drain = f.drain := by
  induction f generalizing n with
  | done s => cases n <;> rfl
  | fail e s => cases n <;> rfl
  | emit a held s rest ih =>
    cases n with
    | zero => rfl
    | succ n => exact ih s n

theorem drain_distinct {κ : Type} [BEq κ] (key : α → κ) (seen : List κ) (f : Flow α) :
    (f.distinct key seen).drain = f.drain := by
  induction f generalizing seen with
  | done s => rfl
  | fail e s => rfl
  | emit a held s rest ih =>
    unfold distinct
    split
    · exact ih s seen
    · exact ih s _

theorem drain_ofList (as : List α) (s : RunState) : (ofList as s).drain = (.ok (), s) := by
  induction as with
  | nil => rfl
  | cons a rest ih => exact ih

/-- All rows made of one result at once: what they are does not matter for the end. -/
theorem drain_ofRun_map (c : Run α) (k : α → List β) (s : RunState) :
    (ofRun (do return k (← c)) s).drain = ((c s).1.map fun _ => (), (c s).2) := by
  unfold ofRun
  rw [Run.bind_apply]
  cases c s with
  | mk r s' =>
    cases r with
    | ok a => exact drain_ofList (k a) s'
    | error e => rfl

/-- Counting the rows changes counters only. -/
theorem Alike.drain_counted {f g : Flow α} (h : Alike Like f g) (name : String) :
    EndsLike (f.counted name).drain g.drain := by
  induction h with
  | done hst => exact ⟨rfl, hst⟩
  | fail hst => exact ⟨rfl, hst⟩
  | emit hst _ ih => exact ih _ _ (RunState.Like.uncounted _ _ hst _ _)

theorem counted_takeSucc (name : String) (n : Nat) (f : Flow α) :
    (f.takeSucc n).counted name = (f.counted name).takeSucc n := by
  induction f generalizing n with
  | done s => cases n <;> rfl
  | fail e s => cases n <;> rfl
  | emit a held s rest ih =>
    cases n with
    | zero => rfl
    | succ n => exact congrArg (Flow.emit a held (s.countRow name)) (funext fun t => ih t n)

/-- A flow that gives fewer items than it is asked for at most has been drained. -/
theorem drain_of_takeSucc {f : Flow α} {n : Nat} {acc items : List α} {s : RunState}
    (h : (f.takeSucc n).foldRun (fun items a => pure (a :: items)) acc = (.ok items, s))
    (hlt : items.length ≤ acc.length + n) : f.drain = (.ok (), s) := by
  induction f generalizing n acc with
  | done s => cases n <;> cases h <;> rfl
  | fail e s => cases n <;> cases h
  | emit a held s rest ih =>
    cases n with
    | zero =>
      cases h
      simp at hlt
    | succ n =>
      refine ih s h ?_
      rw [List.length_cons]
      omega

theorem drain_before (f : Flow α) (held : Nat) (next : Source α) :
    (f.before held next).drain = match f.drain with
      | (.ok _, s) => (next s).drain
      | (.error e, s) => (.error e, s.closeCursors held) := by
  induction f with
  | done s => rfl
  | fail e s => rfl
  | emit a inner s rest ih => exact ih s

/-- The end of flows in turn depends on the last one as its own end does. -/
theorem drain_inTurn_last {last last' : Source α}
    (h : ∀ s, EndsLike (last s).drain (last' s).drain) (sources : List (Source α)) (s : RunState) :
    EndsLike (inTurn (fun source s => source s) (sources ++ [last]) s).drain
      (inTurn (fun source s => source s) (sources ++ [last']) s).drain := by
  induction sources generalizing s with
  | nil =>
    show EndsLike ((last s).before 0 .done).drain ((last' s).before 0 .done).drain
    obtain ⟨hend, hlike⟩ := h s
    rw [drain_before, drain_before]
    cases hl : (last s).drain with
    | mk r t =>
      cases hl' : (last' s).drain with
      | mk r' t' =>
        rw [hl, hl'] at hend hlike
        cases hend
        cases r with
        | ok _ => exact ⟨rfl, hlike⟩
        | error e => exact ⟨rfl, RunState.Like.uncounted _ _ hlike _ _⟩
  | cons first rest ih =>
    show EndsLike ((first s).before 0 _).drain ((first s).before 0 _).drain
    rw [drain_before, drain_before]
    cases (first s).drain with
    | mk r t =>
      cases r with
      | ok _ => exact ih t
      | error e => exact .refl _

end Flow

/-! ## The last projection -/

namespace Projection

variable {p : Projection} {ctx : RunContext} {source : Source Row} {cut : Cut} {s : RunState}

theorem addToGroup_uncut (p : Projection) (ctx : RunContext) (keys : List Value) (row : Row)
    (groups : List Group) :
    p.uncut.addToGroup ctx keys row groups = p.addToGroup ctx keys row groups := by
  induction groups with
  | nil => rfl
  | cons group rest ih =>
    unfold addToGroup
    rw [ih]
    rfl

theorem gatherRows_uncut (p : Projection) (ctx : RunContext) (source : Source Row) :
    p.uncut.gatherRows ctx source = p.gatherRows ctx source := by
  have hadd : p.uncut.addRow ctx = p.addRow ctx := by
    funext groups row
    unfold addRow
    simp only [addToGroup_uncut]
    rfl
  rw [gatherRows_eq, gatherRows_eq, hadd]
  rfl

/-- The last projection is the same but for the cut. -/
theorem drain_flow_uncut (hspared : p.isBarrier = true ∨ cut.limit = none) (s : RunState) :
    (p.uncut.flow ctx ⟨0, none⟩ source s).drain = (p.flow ctx cut source s).drain := by
  unfold flow
  cases hp : p.isBarrier with
  | true =>
    rw [show p.uncut.isBarrier = true from hp, if_pos rfl, if_pos rfl, Flow.drain_ofRun_map,
      Flow.drain_ofRun_map, gatherRows_uncut]
  | false =>
    rw [show p.uncut.isBarrier = false from hp, if_neg Bool.false_ne_true,
      if_neg Bool.false_ne_true]
    unfold lazily
    rw [hspared.resolve_left (by rw [hp]; exact Bool.false_ne_true)]
    show (((Flow.drop 0 _).map _).drain = ((Flow.drop _ _).map _).drain)
    rw [Flow.drain_map, Flow.drain_map, Flow.drain_drop, Flow.drain_drop]
    rfl

/-- Counted rows of it end like those of the projection of all rows. -/
theorem endsLike_uncut (ctx : RunContext) (hsource : Flow.Twins Like source source)
    (hspared : p.isBarrier = true ∨ cut.limit = none) (name : String) (s : RunState) :
    Flow.EndsLike ((p.flow ctx cut source s).counted name).drain
      ((p.uncut.flow ctx ⟨0, none⟩ source s).counted name).drain := by
  have htwins : ∀ (p : Projection) cut,
      Flow.Twins Like (p.flow ctx cut source) (p.flow ctx cut source) :=
    fun p => p.twins_flow hsource
  have h := (htwins p cut s s (.refl s)).drain_counted name
  have h' := (htwins p.uncut ⟨0, none⟩ s s (.refl s)).drain_counted name
  rw [drain_flow_uncut hspared] at h'
  exact h.trans h'.symm

/-- Where fewer rows come out than the limit allows, none are cut off. -/
theorem toList_unlimited {n : Nat} {name : String} {rows : List Row} {s' : RunState}
    (hp : p.isBarrier = false) (hlimit : cut.limit = some n)
    (hrun : Flow.toList (fun s => (p.flow ctx cut source s).counted name) s = (.ok rows, s'))
    (hlt : rows.length < n) :
    ((p.flow ctx ⟨cut.skip, none⟩ source s).counted name).drain = (.ok (), s') := by
  obtain ⟨k, rfl⟩ : ∃ k, n = k + 1 := ⟨n - 1, by omega⟩
  unfold flow lazily at hrun ⊢
  simp only [hp, Bool.false_eq_true, if_false, hlimit] at hrun ⊢
  unfold Flow.toList Flow.gather Flow.take at hrun
  dsimp only at hrun
  rw [Flow.counted_takeSucc] at hrun
  split at hrun
  · next items s'' hfold =>
    cases hrun
    exact Flow.drain_of_takeSucc hfold (by simpa using Nat.le_of_lt_succ hlt)
  · cases hrun

/-- A projection that cuts off nothing leaves what the projection of all rows leaves. -/
theorem toList_uncut (hsource : Flow.Twins Like source source) {name : String} {rows : List Row}
    {s' : RunState}
    (hspared : p.isBarrier = true ∨ cut.limit = none ∨
      ∃ n, cut.limit = some n ∧ rows.length < n)
    (hrun : Flow.toList (fun s => (p.flow ctx cut source s).counted name) s = (.ok rows, s')) :
    ∃ t, ((p.uncut.flow ctx ⟨0, none⟩ source s).counted name).drain = (.ok (), t) ∧ s'.Like t := by
  have hdrained : ∃ cut', (p.isBarrier = true ∨ cut'.limit = none) ∧
      ((p.flow ctx cut' source s).counted name).drain = (.ok (), s') := by
    obtain ⟨r, hr, hend⟩ := Flow.toList_drain (fun s => (p.flow ctx cut source s).counted name) s
    rw [hrun] at hr
    cases hr
    have hwhole : ((p.flow ctx cut source s).counted name).drain = (.ok (), _) := Prod.ext hend rfl
    rcases hspared with hbarrier | hlimit | ⟨n, hlimit, hlt⟩
    · exact ⟨cut, Or.inl hbarrier, hwhole⟩
    · exact ⟨cut, Or.inr hlimit, hwhole⟩
    · cases hp : p.isBarrier with
      | true => exact ⟨cut, Or.inl rfl, hwhole⟩
      | false => exact ⟨⟨cut.skip, none⟩, Or.inr rfl, toList_unlimited hp hlimit hrun hlt⟩
  obtain ⟨cut', hspared', hdrain⟩ := hdrained
  obtain ⟨hend, hlike⟩ := endsLike_uncut ctx hsource hspared' name s
  rw [hdrain] at hend hlike
  exact ⟨((p.uncut.flow ctx ⟨0, none⟩ source s).counted name).drain.2,
    Prod.ext hend.symm rfl, hlike⟩

end Projection

/-! ## Stages one behind the other -/

namespace Stage

variable {ctx : RunContext} {s s' : RunState} {source rows : Source Row}

/-- Sources that go alike whatever the counters say. -/
theorem assembly_like (ctx : RunContext) (s : RunState) :
    Assembly ctx s s (fun _ => True) fun f g => f = g ∧ Flow.Twins Like f f :=
  .of_twins Like.uncounted (fun _ _ => rfl) (fun p cut _ _ hf => p.twins_flow hf cut)
    fun stage _ _ hf => stage.twins_flow hf

theorem twins_attachAll {stages : List Stage} (h : attachAll ctx stages s = (.ok rows, s')) :
    s' = s ∧ Flow.Twins Like rows rows := by
  obtain ⟨x, y, hx, -, hxy⟩ := (assembly_like ctx s).attachAll fun _ (_ : _ ∈ stages) => trivial
  rw [h] at hx
  cases hx
  cases y with
  | error e => exact hxy.elim
  | ok rows' => exact ⟨rfl, hxy.2⟩

/-- Does the last projection of some stages cut off nothing, for the rows that come out? -/
def CutsOffNothing (ctx : RunContext) (s : RunState) (rows : List Row) (stages : List Stage) :
    Prop :=
  ∀ p, stages.getLast? = some (.project p) → p.isBarrier = true ∨ p.limit = none ∨
    ∃ e n, p.limit = some e ∧ (ctx.rowCount "LIMIT" e s).1 = .ok n ∧ rows.length < n

/-- Has the last projection of some stages no limit, or does it take in all rows anyway? -/
def Unlimited (stages : List Stage) : Prop :=
  ∀ p, stages.getLast? = some (.project p) → p.isBarrier = true ∨ p.limit = none

/-- Stages without the cut of the last one end as with it, if it cuts off nothing. -/
theorem attachAll_uncut {stages : List Stage} (h : attachAll ctx stages s = (.ok rows, s')) :
    ∃ rows', attachAll ctx (mapLast Stage.uncut stages) s = (.ok rows', s) ∧
      (Unlimited stages → ∀ t, Flow.EndsLike (rows t).drain (rows' t).drain) ∧
      ∀ items t, Flow.toList rows s = (.ok items, t) → CutsOffNothing ctx s items stages →
        ∃ u, (rows' s).drain = (.ok (), u) ∧ t.Like u := by
  obtain ⟨rfl, htwins⟩ := twins_attachAll h
  -- nothing is to be shown where no projection is last
  have hsame : mapLast Stage.uncut stages = stages →
      ∃ rows', attachAll ctx (mapLast Stage.uncut stages) s' = (.ok rows', s') ∧
        (Unlimited stages → ∀ t, Flow.EndsLike (rows t).drain (rows' t).drain) ∧
        ∀ items t, Flow.toList rows s' = (.ok items, t) → CutsOffNothing ctx s' items stages →
          ∃ u, (rows' s').drain = (.ok (), u) ∧ t.Like u := by
    intro heq
    rw [heq]
    refine ⟨rows, h, fun _ t => .refl _, fun items t hrun _ => ⟨t, ?_, .refl t⟩⟩
    obtain ⟨r, hr, hend⟩ := Flow.toList_drain rows s'
    rw [hrun] at hr
    cases hr
    exact Prod.ext hend rfl
  rcases List.eq_nil_or_concat' stages with rfl | ⟨front, last, rfl⟩
  · exact hsame rfl
  · by_cases hlast : ∃ p, last = .project p
    · obtain ⟨p, rfl⟩ := hlast
      rw [mapLast_concat]
      unfold attachAll at h ⊢
      rw [List.foldlM_append, Run.bind_apply] at h ⊢
      cases hfront : front.foldlM (attach ctx) (Flow.single .empty) s' with
      | mk r s₁ =>
        rw [hfront] at h
        cases r with
        | error e => cases h
        | ok source =>
          obtain ⟨rfl, hsource⟩ := twins_attachAll hfront
          obtain ⟨r, hr, hlimit⟩ := ctx.cut_still p s₁
          dsimp only [uncut] at h ⊢
          rw [List.foldlM_cons, Run.bind_apply, attach_project] at h ⊢
          rw [show ctx.cut p.uncut s₁ = (.ok ⟨0, none⟩, s₁) from rfl]
          rw [hr] at h
          cases r with
          | error e => cases h
          | ok cut =>
            cases h
            obtain ⟨hnone, hsome⟩ := hlimit cut rfl
            refine ⟨_, rfl, fun hspared t => ?_, fun items t hrun hspared => ?_⟩
            · exact p.endsLike_uncut ctx hsource ((hspared p List.getLast?_concat).imp_right hnone) _ t
            · refine p.toList_uncut hsource ?_ hrun
              obtain hp | hp | ⟨e, n, he, hn, hlt⟩ := hspared p List.getLast?_concat
              · exact Or.inl hp
              · exact Or.inr (Or.inl (hnone hp))
              · obtain ⟨n', hn', hcut⟩ := hsome e he
                rw [hn] at hn'
                cases hn'
                exact Or.inr (Or.inr ⟨n, hcut, hlt⟩)
    · refine hsame ?_
      rw [mapLast_concat]
      cases last with
      | project p => exact absurd ⟨p, rfl⟩ hlast
      | _ => rfl

end Stage

/-! ## Plans -/

namespace PlanBody

variable {ctx : RunContext} {s s' : RunState} {source : Source Row}

/-- Does the last projection of the plan cut off nothing, for the rows that come out?  In a union
these do not tell how many rows the last branch has given. -/
def CutsOffNothing (ctx : RunContext) (s : RunState) (rows : List Row) : PlanBody → Prop
  | .series stages => Stage.CutsOffNothing ctx s rows stages
  | .union _ branches => ∀ stages, branches.getLast? = some stages → Stage.Unlimited stages

/-- The counters of earlier statements do not matter for it. -/
theorem CutsOffNothing.begin {rows : List Row} {body : PlanBody}
    (h : body.CutsOffNothing ctx s rows) : body.CutsOffNothing ctx s.begin rows := by
  cases body with
  | union all branches => exact h
  | series stages =>
    intro p hp
    refine (h p hp).imp_right (Or.imp_right ?_)
    rintro ⟨e, n, he, hn, hlt⟩
    have hsame := congrArg Prod.fst (ctx.rowCount_still "LIMIT" e (s := s) (t := s.begin) rfl)
    exact ⟨e, n, he, hsame.trans hn, hlt⟩

/-- The branches of a union are put together without touching the state. -/
theorem twins_branches {branches : List (List Stage)} {sources : List (Source Row)}
    (h : branches.mapM (Stage.attachAll ctx) s = (.ok sources, s')) :
    s' = s ∧ ∀ source ∈ sources, Flow.Twins Like source source := by
  obtain ⟨x, y, hx, -, hxy⟩ := (Stage.assembly_like ctx s).branches fun _ (_ : _ ∈ branches) _ _ =>
    trivial
  rw [h] at hx
  cases hx
  cases y with
  | error e => exact hxy.elim
  | ok sources' =>
    refine ⟨rfl, fun source hsource => ?_⟩
    obtain ⟨_, -, -, htwins⟩ := exists_of_forall₂ hxy.flip hsource
    exact htwins

/-- The branches of a union without the cut of the last one. -/
theorem branches_uncut {branches : List (List Stage)} {sources : List (Source Row)}
    (h : branches.mapM (Stage.attachAll ctx) s = (.ok sources, s')) :
    ∃ sources', (mapLast (mapLast Stage.uncut) branches).mapM (Stage.attachAll ctx) s =
        (.ok sources', s) ∧
      ((∀ stages, branches.getLast? = some stages → Stage.Unlimited stages) →
        ∀ t, Flow.EndsLike (inTurn sources t).drain (inTurn sources' t).drain) := by
  rcases List.eq_nil_or_concat' branches with rfl | ⟨front, last, rfl⟩
  · cases h
    exact ⟨[], rfl, fun _ t => .refl _⟩
  · rw [mapLast_concat]
    rw [List.mapM_append, Run.bind_apply] at h ⊢
    cases hfront : front.mapM (Stage.attachAll ctx) s with
    | mk r s₁ =>
      rw [hfront] at h
      cases r with
      | error e => cases h
      | ok sources₁ =>
        obtain ⟨rfl, -⟩ := twins_branches hfront
        dsimp only at h ⊢
        rw [Run.bind_apply, List.mapM_cons, Run.bind_apply] at h ⊢
        cases hlast : Stage.attachAll ctx last s₁ with
        | mk r s₂ =>
          rw [hlast] at h
          cases r with
          | error e => cases h
          | ok source =>
            obtain ⟨source', hattach, hends, -⟩ := Stage.attachAll_uncut hlast
            obtain ⟨rfl, -⟩ := Stage.twins_attachAll hlast
            cases h
            rw [hattach]
            exact ⟨_, rfl, fun hspared t => Flow.drain_inTurn_last
              (hends (hspared last List.getLast?_concat)) sources₁ t⟩

theorem drain_unionRows {sources : List (Source Row)}
    (h : ∀ source ∈ sources, Flow.Twins Like source source) (all : Bool) (s : RunState) :
    Flow.EndsLike (unionRows all sources s).drain (inTurn sources s).drain := by
  have hrows : Flow.Alike Like (inTurn sources s) (inTurn sources s) :=
    Flow.twins_inTurn Like.uncounted h s s (.refl s)
  unfold unionRows
  cases all with
  | true => exact hrows.drain_counted "Union"
  | false =>
    have hdistinct : Flow.Alike Like ((inTurn sources s).distinct rowValues [])
        ((inTurn sources s).distinct rowValues []) := hrows.distinct []
    have hcounted := hdistinct.drain_counted "Union"
    rwa [Flow.drain_distinct] at hcounted

/-- Without its cut a plan leaves what it leaves with it, if that cuts off nothing. -/
theorem flow_uncut {body : PlanBody} (h : body.flow ctx s = (.ok source, s')) :
    ∃ source', body.uncut.flow ctx s = (.ok source', s) ∧ s' = s ∧
      ∀ items t, Flow.toList source s = (.ok items, t) → body.CutsOffNothing ctx s items →
        ∃ u, (source' s).drain = (.ok (), u) ∧ t.Like u := by
  cases body with
  | series stages =>
    obtain ⟨rows', hattach, -, hspared⟩ := Stage.attachAll_uncut h
    exact ⟨rows', hattach, (Stage.twins_attachAll h).1, hspared⟩
  | union all branches =>
    rw [flow_union, Run.bind_apply] at h
    cases hbranches : branches.mapM (Stage.attachAll ctx) s with
    | mk r s₁ =>
      rw [hbranches] at h
      cases r with
      | error e => cases h
      | ok sources =>
        cases h
        obtain ⟨rfl, htwins⟩ := twins_branches hbranches
        obtain ⟨sources', hbranches', hends⟩ := branches_uncut hbranches
        obtain ⟨-, htwins'⟩ := twins_branches hbranches'
        refine ⟨unionRows all sources', ?_, rfl, fun items t hrun hspared => ?_⟩
        · show flow ctx (.union all _) _ = _
          rw [flow_union, Run.bind_apply, hbranches']
          rfl
        · obtain ⟨r, hr, hend⟩ := Flow.toList_drain (unionRows all sources) s'
          rw [hrun] at hr
          cases hr
          obtain ⟨hsame, hlike⟩ := ((drain_unionRows htwins all s').trans (hends hspared s')).trans
            (drain_unionRows htwins' all s').symm
          exact ⟨_, Prod.ext (hsame.symm.trans hend) rfl, hlike⟩

end PlanBody

theorem PlanBody.isWrite_uncut (body : PlanBody) : body.uncut.isWrite = body.isWrite := by
  have hstage : ∀ stage : Stage, stage.uncut.isWrite = stage.isWrite := by
    intro stage
    cases stage <;> rfl
  have hany : ∀ {α : Type} {f : α → α} {p : α → Bool}, (∀ a, p (f a) = p a) →
      ∀ as : List α, (mapLast f as).any p = as.any p := by
    intro α f p h as
    have hmap := map_mapLast (g := p) id h as
    rw [mapLast_id] at hmap
    have := congrArg (List.any · id) hmap
    rwa [List.any_map, List.any_map] at this
  cases body with
  | series stages => exact hany hstage stages
  | union all branches => exact hany (hany hstage) branches

namespace Plan

variable {plan : Plan} {ctx : RunContext} {s s' : RunState} {result : ResultStream}

/-- Starting a plan that writes is carrying it out. -/
theorem start_of_isWrite (hwrite : plan.body.isWrite = true) (ctx : RunContext) (s : RunState) :
    plan.start ctx s = (plan.body.flow ctx >>= fun source => do
      return ⟨plan.columns, .ready (← Flow.toList source)⟩ : Run ResultStream) s.begin := by
  unfold start
  rw [Run.bind_apply]
  show (plan.body.flow ctx >>= fun source => _ : Run ResultStream) s.begin = _
  rw [hwrite]
  rfl

/-- A statement that writes leaves the graph that it leaves without the cut of its last `RETURN`,
if that `RETURN` has no limit, takes in all rows before it gives the first, or gives fewer rows
than its limit allows. -/
theorem start_uncut {query : Query} (hplan : ofQuery query = .ok plan)
    (hwrite : plan.body.isWrite = true) (hrun : plan.start ctx s = (.ok result, s'))
    (hcut : ∀ rows, result.supply = .ready rows → plan.body.CutsOffNothing ctx s rows) :
    ∃ plan' result' t, ofQuery (Query.uncut query) = .ok plan' ∧
      plan'.start ctx s = (.ok result', t) ∧ s'.Like t := by
  have hwrite' : plan.uncut.body.isWrite = true := (plan.body.isWrite_uncut).trans hwrite
  rw [start_of_isWrite hwrite, Run.bind_apply] at hrun
  split at hrun
  · next source s₁ hflow =>
    obtain ⟨source', hflow', rfl, hspared⟩ := PlanBody.flow_uncut hflow
    rw [Run.bind_apply] at hrun
    split at hrun
    · next rows t hlist =>
      cases hrun
      obtain ⟨u, hdrain, hlike⟩ := hspared rows s' hlist (hcut rows rfl).begin
      obtain ⟨r, hlist', hend⟩ := Flow.toList_drain source' s.begin
      rw [hdrain] at hlist' hend
      cases r with
      | error e => cases hend
      | ok rows' =>
        refine ⟨plan.uncut, ⟨plan.uncut.columns, .ready rows'⟩, u, ofQuery_uncut hplan, ?_, hlike⟩
        rw [start_of_isWrite hwrite', Run.bind_apply]
        rw [show plan.uncut.body.flow ctx s.begin = (.ok source', s.begin) from hflow']
        dsimp only
        rw [Run.bind_apply, hlist']
        rfl
    · cases hrun
  · cases hrun

/-! ## Two rows of which one is kept -/

/-- A query that creates a vertex for each of two rows and returns one of these. -/
def twoRows (order : List SortKey) : Query :=
  [.unwind (.list [.literal (.int 1), .literal (.int 2)]) "x",
    .create [⟨none, ⟨none, ["N"], []⟩, []⟩],
    .projectReturn ⟨false, false, [⟨.var "x", none⟩], order, none, some (.literal (.int 1))⟩]

theorem start_uncut_ordered : ∃ plan result s',
    ofQuery (twoRows [⟨.var "x", true⟩]) = .ok plan ∧
      plan.start Search.plainContext .initial = (.ok result, s') ∧
      ∃ plan' result' t, ofQuery (Query.uncut (twoRows [⟨.var "x", true⟩])) = .ok plan' ∧
        plan'.start Search.plainContext .initial = (.ok result', t) ∧ s'.Like t := by
  obtain ⟨plan, hplan⟩ : ∃ plan, ofQuery (twoRows [⟨.var "x", true⟩]) = .ok plan := ⟨_, rfl⟩
  have hok : (plan.start Search.plainContext .initial).1.isOk = true := by
    cases hplan
    decide +kernel
  cases hrun : plan.start Search.plainContext .initial with
  | mk r s' =>
    rw [hrun] at hok
    cases r with
    | error e => cases hok
    | ok result =>
      refine ⟨plan, result, s', hplan, hrun, ?_⟩
      refine start_uncut hplan ?_ hrun fun rows _ => ?_
      · cases hplan; rfl
      · cases hplan
        intro p hp
        cases hp
        exact Or.inl rfl

/-- With a limit a projection row by row leaves rows unasked for, and what they would write. -/
theorem limit_cuts_writes : ¬ ∀ (query : Query) (plan plan' : Plan) (ctx : RunContext)
    (s : RunState), ofQuery query = .ok plan → plan.body.isWrite = true →
    ofQuery (Query.uncut query) = .ok plan' → (plan.start ctx s).1.isOk = true →
    (plan'.start ctx s).1.isOk = true →
    (plan.start ctx s).2.store = (plan'.start ctx s).2.store := by
  intro h
  have hsame := congrArg (fun σ : Store => σ.vertices.toList.length)
    (h (twoRows []) _ _ Search.plainContext .initial rfl rfl rfl (by decide +kernel)
      (by decide +kernel))
  exact absurd hsame (by decide +kernel)

end Plan

end PropertyGraph
