import PropertyGraph.Proofs.Run.Invariant

/-!
# What reading leaves as it is

Reading counts requests and cursors, keeps estimates, and does nothing else to the state.  So an
invariant about the graph and the counts of writes lasts through every search and every projection,
and through all evaluations of expressions.

    Idle c                      computation `c` leaves the graph and the counts of writes alone
    Search.keeps_flow           a search keeps every such invariant
    RunContext.keeps_matchRow   so does a `MATCH`
    Projection.keeps_flow       and a projection, whatever its source does
-/

namespace PropertyGraph

variable {α β : Type}

/-! ## Computations -/

/-- The computation leaves the graph and the counts of writes as they are. -/
def Idle (c : RunState → α × RunState) : Prop :=
  ∀ s : RunState, s.Unwritten (c s).2

namespace Idle

variable {c : StateM RunState α} {k : α → StateM RunState β}

theorem pure (a : α) : Idle (Pure.pure a : StateM RunState α) := fun _ => ⟨rfl, rfl⟩

theorem bind (hc : Idle c) (hk : ∀ a, Idle (k a)) : Idle (c >>= k) :=
  fun s => (hc s).trans (hk (c s).1 (c s).2)

theorem mapM (h : ∀ a, Idle (k a)) (as : List α) : Idle (as.mapM k) := by
  induction as with
  | nil => exact pure []
  | cons a rest ih =>
    rw [List.mapM_cons]
    exact (h a).bind fun b => ih.bind fun bs => pure (b :: bs)

theorem filterMapM {k : α → StateM RunState (Option β)} (h : ∀ a, Idle (k a)) (as : List α) :
    Idle (as.filterMapM k) := by
  induction as with
  | nil => exact pure []
  | cons a rest ih =>
    rw [List.filterMapM_cons]
    refine (h a).bind fun o => ?_
    cases o with
    | none => exact ih
    | some b => exact ih.bind fun bs => pure (b :: bs)

end Idle

variable {I : RunState → Prop} [OfWrites I]

/-- In an invariant that an idle computation keeps, its result may be anything. -/
theorem Idle.after {c : RunState → α × RunState} (h : Idle c) {s : RunState} (hs : I s) :
    I (c s).2 :=
  OfWrites.unwritten (h s) hs

theorem Run.idle_lift (r : Except Error α) : Idle (Run.lift r) := fun _ => ⟨rfl, rfl⟩

theorem Run.Keeps.of_idle {c : Run α} (h : Idle c) : c.Keeps I Anything := by
  intro s hs a t hrun
  have hst := h.after hs
  rw [hrun] at hst
  exact ⟨hst, trivial⟩

/-! ## Searches -/

namespace Search

variable {q : Search} {m : Match} {next : Match → Source Match}

theorem idle_remembered (key : String) {make : StateM RunState Nat} (hmake : Idle make) :
    Idle (remembered key make) := by
  intro s
  unfold remembered
  split
  · exact ⟨rfl, rfl⟩
  · exact ⟨(hmake s).store, (hmake s).writes⟩

theorem idle_total (find : Store → Cursor) : Idle (total find) := by
  intro s
  unfold total
  dsimp only
  split <;> exact ⟨rfl, rfl⟩

theorem idle_unless {c : StateM RunState Nat} (skip : RunState → Bool) (h : Idle c) :
    Idle (fun s => if skip s then (0, s) else c s : StateM RunState Nat) := by
  intro s
  dsimp only
  split
  · exact ⟨rfl, rfl⟩
  · exact h s

theorem idle_nodeEstimate (n : NodeConstraint Value) : Idle (q.nodeEstimate n) :=
  idle_remembered _ (idle_unless _ (idle_total _))

theorem idle_relationshipEstimate (r : RelationshipConstraint Value) :
    Idle (q.relationshipEstimate r) :=
  idle_remembered _ (idle_unless _ (idle_total _))

theorem idle_openNodes (q : Search) (m : Match) : Idle (q.openNodes m) := by
  refine .filterMapM (fun (n, i) => ?_) _
  dsimp only
  split
  · exact .pure none
  · exact .bind (.bind (idle_nodeEstimate n) fun _ => .pure _) fun _ => .pure _

theorem idle_openRelationships (q : Search) (m : Match) : Idle (q.openRelationships m) := by
  refine .filterMapM (fun (r, i) => ?_) _
  dsimp only
  split
  · exact .pure none
  · exact .bind (.bind (idle_relationshipEstimate r) fun _ => .pure _) fun _ => .pure _

theorem idle_choose (q : Search) (m : Match) : Idle (q.choose m) :=
  (idle_openNodes q m).bind fun _ => (idle_openRelationships q m).bind fun _ => .pure _

theorem idle_fetchVertex (id : String) : Idle (q.fetchVertex id) := fun _ => ⟨rfl, rfl⟩

theorem idle_neighbourhood (id : String) (direction : Heading) (types : List String) :
    Idle (q.neighbourhood id direction types) :=
  fun _ => ⟨rfl, rfl⟩

theorem idle_nodeCandidates (n : NodeConstraint Value) (i : Nat) :
    Idle (q.nodeCandidates m n i) := by
  unfold nodeCandidates
  split
  · exact .pure []
  · split
    · refine (idle_fetchVertex _).bind fun o => ?_
      cases o <;> exact .pure _
    · exact .pure []

theorem idle_longer (r : RelationshipConstraint Value) (direction : Heading) (p : Path) :
    Idle (q.longer m r direction p) := by
  unfold longer
  refine (idle_neighbourhood _ _ _).bind fun edges => .filterMapM (fun e => ?_) edges
  dsimp only
  split
  · exact .pure none
  · exact (idle_fetchVertex _).bind fun o => .pure _

theorem idle_walks (r : RelationshipConstraint Value) (direction : Heading) (left : Nat)
    (p : Path) : Idle (q.walks m r direction left p) := by
  induction left generalizing p with
  | zero => exact .pure [p]
  | succ left ih =>
    unfold walks
    exact (idle_longer r direction p).bind fun next => (Idle.mapM ih next).bind fun _ => .pure _

theorem idle_relationshipCandidates (r : RelationshipConstraint Value) :
    Idle (q.relationshipCandidates m r) := by
  have hhops : ∀ o, Idle (q.hops m r o) := fun o =>
    (idle_neighbourhood _ _ _).bind fun edges => .pure _
  have hwalks : ∀ o range, Idle (q.walksWithin m r o range) := by
    intro o range
    unfold walksWithin
    dsimp only
    split
    · exact .pure []
    · exact (idle_walks r _ _ _).bind fun paths => .pure _
  intro s
  unfold relationshipCandidates
  split
  · exact ⟨rfl, rfl⟩
  · split
    · exact ⟨rfl, rfl⟩
    · split
      · exact hhops _ s
      · exact hwalks _ _ s

section Next

variable {P : Match → Prop}

omit [OfWrites I] in
theorem keeps_proceed {unmatched : Match} {ms : List Match}
    (hunmatched : Flow.KeepsFrom I P (next unmatched))
    (hms : ∀ m ∈ ms, Flow.KeepsFrom I P (next m)) :
    Flow.KeepsFrom I P (q.proceed next unmatched ms) := by
  unfold proceed
  split
  · exact hunmatched
  · exact Flow.keeps_inTurn hms

theorem keeps_seeds {i : Nat} (hnext : ∀ b, Flow.KeepsFrom I P (next (m.setNode i b)))
    (node : NodeConstraint Value) (matched : Bool) (ids : List String) :
    Flow.KeepsFrom I P (q.seeds next m node i matched ids) := by
  induction ids generalizing matched with
  | nil =>
    intro s hs
    have hclosed : s.Unwritten (s.closeCursors 1) := ⟨rfl, rfl⟩
    unfold seeds
    dsimp only
    split
    · exact hnext _ _ (OfWrites.unwritten hclosed hs)
    · exact OfWrites.unwritten hclosed hs
  | cons id rest ih =>
    intro s hs
    unfold seeds
    split
    · exact (hnext _ s hs).before (ih true) 1
    · exact ih matched s hs

theorem keeps_seedNode {i : Nat} (hnext : ∀ b, Flow.KeepsFrom I P (next (m.setNode i b)))
    (node : NodeConstraint Value) : Flow.KeepsFrom I P (q.seedNode next m node i) := by
  have hnone : Flow.KeepsFrom I P (q.proceed next (m.setNode i .null) []) :=
    keeps_proceed (hnext .null) nofun
  intro s hs
  have hasked : s.Unwritten (s.request 1) := ⟨rfl, rfl⟩
  have hopened : s.Unwritten (s.request 1).openCursor := ⟨rfl, rfl⟩
  unfold seedNode
  split
  · exact hnone s hs
  · dsimp only
    split
    · exact hnone _ (OfWrites.unwritten hasked hs)
    · exact keeps_seeds hnext node false _ _ (OfWrites.unwritten hopened hs)

theorem keeps_expand (hnext : ∀ m, Flow.KeepsFrom I Anything (next m)) (c : ConstraintId) :
    Flow.KeepsFrom I Anything (q.expand next m c) := by
  intro s hs
  unfold expand
  cases c with
  | node i =>
    dsimp only
    split
    · exact hs
    · next n _ =>
      split
      · exact keeps_proceed (hnext _) (fun m _ => hnext m) _ ((idle_nodeCandidates n i).after hs)
      · exact keeps_seedNode (fun _ => hnext _) n s hs
  | relationship i =>
    dsimp only
    split
    · exact hs
    · next r _ =>
      exact keeps_proceed (hnext _) (fun m _ => hnext m) _
        ((idle_relationshipCandidates r).after hs)

end Next

theorem keeps_complete (q : Search) (left : Nat) (m : Match) :
    Flow.KeepsFrom I Anything (q.complete left m) := by
  induction left generalizing m with
  | zero => exact Flow.keeps_single trivial
  | succ left ih =>
    intro s hs
    have hchosen := (idle_choose q m).after hs
    unfold complete
    split
    · next s' h =>
      rw [h] at hchosen
      exact hchosen
    · next c s' h =>
      rw [h] at hchosen
      exact keeps_expand ih c s' hchosen

theorem keeps_flow (q : Search) (row : Row) : Flow.KeepsFrom I Anything (q.flow row) := by
  intro s hs
  unfold flow
  split
  · trivial
  · exact Flow.keeps_inTurn (fun m _ => keeps_complete q m.openCount m) s hs

end Search

/-! ## Patterns -/

namespace Constraints

omit [OfWrites I] in
theorem keeps_mapM {P Q : Type} {f : P → Run Q} (hf : ∀ p, (f p).Keeps I Anything)
    (g : Constraints P) : (g.mapM f).Keeps I Anything := by
  have hproperties : ∀ ps, (mapProperties f ps).Keeps I Anything := by
    intro ps
    induction ps with
    | nil => exact .ok trivial
    | cons p rest ih => exact (hf p.2).bind fun _ _ => ih.bind fun _ _ => .ok trivial
  unfold mapM
  refine (Run.Keeps.mapM (S := fun _ _ => True) fun n _ =>
    (hproperties n.properties).bind fun ps _ => .ok trivial).bind fun nodes _ => ?_
  exact (Run.Keeps.mapM (S := fun _ _ => True) fun r _ =>
    (hproperties r.properties).bind fun ps _ => .ok trivial).bind fun rs _ => .ok trivial

end Constraints

namespace RunContext

variable {ctx : RunContext}

theorem idle_value (e : Expr) (row : Row) : Idle (ctx.value e row) := fun _ => ⟨rfl, rfl⟩

theorem idle_holds (e : Expr) (row : Row) : Idle (ctx.holds e row) := fun _ => ⟨rfl, rfl⟩

theorem keeps_matchedRow (ctx : RunContext) (pattern : Constraints Value)
    (condition : Option Expr) (row : Row) (m : Match) :
    (ctx.matchedRow pattern condition row m).Keeps I Anything := by
  unfold matchedRow
  split
  · exact .ok trivial
  · cases condition with
    | none => exact .ok trivial
    | some e => exact (Run.Keeps.of_idle (idle_holds e _)).bind fun t _ => .ok trivial

theorem keeps_matchRow (pattern : Constraints Expr) (condition : Option Expr) (row : Row) :
    Flow.KeepsFrom I Anything (ctx.matchRow pattern condition row) := by
  intro s hs
  unfold matchRow
  split
  · trivial
  · next resolved s' hr =>
    have hs' := (Constraints.keeps_mapM (fun e => .of_idle (idle_value e row)) pattern
      s hs resolved s' hr).1
    have hrows := ((Search.of ctx resolved).keeps_flow row s' hs').flatMap fun m _ =>
      Flow.keeps_ofOption ((keeps_matchedRow ctx resolved condition row m).mono
        fun _ _ _ _ => trivial)
    dsimp only
    split
    · exact hrows.orElse (Flow.keeps_single trivial)
    · exact hrows

theorem keeps_valuesOf (es : List Expr) (row : Row) : (ctx.valuesOf es row).Keeps I Anything :=
  (Run.Keeps.mapM (S := fun _ _ => True) fun e _ =>
    (Run.Keeps.of_idle (idle_value e row)).mono fun _ _ => trivial).mono fun _ _ => trivial

end RunContext

/-! ## Projections -/

namespace Projection

variable {ctx : RunContext} {source : Source Row}

theorem keeps_ofRow (p : Projection) (row : Row) : (p.ofRow ctx row).Keeps I Anything :=
  (RunContext.keeps_valuesOf _ row).bind fun _ _ =>
    (RunContext.keeps_valuesOf _ _).bind fun _ _ => .ok trivial

theorem keeps_accumulate (row : Row) (as : List (Aggregate × Accumulator)) :
    (accumulate ctx row as).Keeps I Anything := by
  induction as with
  | nil => exact .ok trivial
  | cons a rest ih =>
    have hrest : ∀ v, (do
        let acc ← Run.lift (a.2.add v)
        return acc :: (← accumulate ctx row rest) : Run (List Accumulator)).Keeps I Anything :=
      fun v => (Run.Keeps.of_idle (Run.idle_lift _)).bind fun acc _ =>
        ih.bind fun accs _ => .ok trivial
    unfold accumulate
    dsimp only
    split
    · exact (Run.Keeps.of_idle (RunContext.idle_value _ row)).bind fun v _ => hrest v
    · exact (Run.Keeps.ok (P := Anything) trivial).bind fun v _ => hrest v

theorem keeps_addRow (p : Projection) (groups : List Group) (row : Row) :
    (p.addRow ctx groups row).Keeps I Anything := by
  refine (RunContext.keeps_valuesOf _ row).bind fun keys _ => ?_
  induction groups with
  | nil => exact (keeps_accumulate row _).bind fun accs _ => .ok trivial
  | cons group rest ih =>
    unfold addToGroup
    split
    · exact (keeps_accumulate row _).bind fun accs _ => .ok trivial
    · exact ih.bind fun groups _ => .ok trivial

theorem keeps_ofGroup (p : Projection) (ctx : RunContext) (group : Group) :
    (p.ofGroup ctx group).Keeps I Anything := by
  have hvalues : ∀ row columns keys, (groupValues ctx row columns keys).Keeps I Anything := by
    intro row columns
    induction columns with
    | nil => exact fun _ => .ok trivial
    | cons c rest ih =>
      intro keys
      unfold groupValues
      split
      · exact (ih _).bind fun vs _ => .ok trivial
      · exact (Run.Keeps.of_idle (RunContext.idle_value c.expr row)).bind fun v _ =>
          (ih keys).bind fun vs _ => .ok trivial
  exact (hvalues _ p.columns group.keys).bind fun values _ =>
    (RunContext.keeps_valuesOf _ _).bind fun keys _ => .ok trivial

theorem keeps_gatherRows (p : Projection) (hsource : Flow.KeepsFrom I Anything source) :
    (p.gatherRows ctx source).Keeps I Anything := by
  intro s hs rows t hrun
  unfold gatherRows at hrun
  split at hrun
  · split at hrun
    · next made s' hr =>
      have hrows := (hsource s hs).foldRun (Q := Anything)
        (fun rows row _ _ => (keeps_ofRow p row).bind fun r _ => .ok trivial) trivial hr
      cases hrun
      exact ⟨hrows.1, trivial⟩
    · cases hrun
  · split at hrun
    · next groups s' hr =>
      have hgroups := (hsource s hs).foldRun (Q := Anything)
        (fun groups row _ _ => keeps_addRow p groups row) trivial hr
      have hall := Run.Keeps.mapM (S := fun _ _ => True) fun g (_ : g ∈ p.closeGroups groups) =>
        (keeps_ofGroup (I := I) p ctx g).mono fun _ _ => trivial
      exact ⟨(hall s' hgroups.1 rows t hrun).1, trivial⟩
    · cases hrun

/-- A projection does to the graph what its source does. -/
theorem keeps_flow (p : Projection) (ctx : RunContext) (cut : Cut)
    (hsource : Flow.KeepsFrom I Anything source) :
    Flow.KeepsFrom I Anything (p.flow ctx cut source) := by
  unfold flow
  split
  · exact Flow.keeps_ofRun ((keeps_gatherRows p hsource).bind fun rows _ =>
      .ok fun _ _ => trivial)
  · refine Flow.keeps_take (fun s hs => ?_) cut.limit
    have hrows : ((source s).flatMap fun row => Flow.ofOption do
        return some (← p.ofRow ctx row)).Keeps I Anything :=
      (hsource s hs).flatMap fun row _ => Flow.keeps_ofOption
        ((keeps_ofRow p row).bind fun r _ => .ok fun _ _ => trivial)
    dsimp only
    split
    · exact ((hrows.distinct []).drop cut.skip).map fun _ _ => trivial
    · exact (hrows.drop cut.skip).map fun _ _ => trivial

end Projection

end PropertyGraph
