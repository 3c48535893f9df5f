import PropertyGraph.Proofs.Run.Assembled
import PropertyGraph.Proofs.Run.Asks
import PropertyGraph.Proofs.Run.Projected
import PropertyGraph.Proofs.Run.Relabelled

/-!
# Counts and what they count

Whatever stages a plan has, whatever its rows are and however many of them are asked for, the counts
of a statement are those of what it has done to the graph.

    Stage.keeps_flow         every stage keeps the counts balanced
    Plan.counts_conserved    the counts of a statement are right
    Plan.label_twice         but not where an item names a label twice
-/

namespace PropertyGraph

/-! ## Stages -/

/-- No item of the stage names a label twice. -/
def Stage.LabelsOnce (config : Config) : Stage → Prop
  | .set items => ∀ item ∈ items, item.LabelsOnce config
  | .remove items => ∀ item ∈ items, item.LabelsOnce config
  | .merge _ _ onCreate onMatch => ∀ item ∈ onCreate ++ onMatch, item.LabelsOnce config
  | .matching _ _ | .filter _ | .unwind _ _ | .project _ | .create _ | .createApart _
  | .delete _ _ => True

/-- No item of the plan names a label twice. -/
def Plan.LabelsOnce (config : Config) (plan : Plan) : Prop :=
  ∀ stages ∈ plan.body.branches, ∀ stage ∈ stages, stage.LabelsOnce config

namespace Stage

variable {ctx : RunContext} {once : Prop} {s₀ : RunState} {source : Source Row}

/-- One row for each row. -/
theorem keeps_flatMap {make : Row → Run Row}
    (hsource : Flow.KeepsFrom (Balanced ctx.reader once s₀) Row.Closed source)
    (hmake : ∀ row, row.Closed → (make row).Keeps (Balanced ctx.reader once s₀) Row.Closed) :
    Flow.KeepsFrom (Balanced ctx.reader once s₀) Row.Closed fun s =>
      (source s).flatMap fun row => Flow.ofRun do return [← make row] :=
  fun s hs => (hsource s hs).flatMap fun row hrow => Flow.keeps_ofRun
    ((hmake row hrow).bind fun _ hout => .ok (List.forall_mem_singleton.2 hout))

theorem keeps_project (p : Projection) (cut : Cut)
    (hsource : Flow.KeepsFrom (Balanced ctx.reader once s₀) Row.Closed source) :
    Flow.KeepsFrom (Balanced ctx.reader once s₀) Row.Closed (p.flow ctx cut source) :=
  (p.keeps_flow ctx cut (hsource.mono fun _ _ => trivial)).with_each
    ((p.each_flow ctx cut source).mono fun _ hrow => hrow.exactly.closed)

/-- A stage keeps the counts balanced, and no temporary scope is left open in its rows. -/
theorem keeps_flow (hread : ctx.reader.canRead ctx.visibility = true) {stage : Stage}
    (honce : once → stage.LabelsOnce ctx.config)
    (hsource : Flow.KeepsFrom (Balanced ctx.reader once s₀) Row.Closed source) :
    Flow.KeepsFrom (Balanced ctx.reader once s₀) Row.Closed (stage.flow ctx source) := by
  cases stage with
  | matching pattern condition =>
    exact fun s hs => (hsource s hs).flatMap fun row hrow =>
      (RunContext.keeps_matchRow pattern condition row).with_each
        ((RunContext.exactly_matchRow pattern condition (Row.exactly_names hrow)).mono
          fun _ hout => hout.closed)
  | filter e =>
    refine fun s hs => (hsource s hs).flatMap fun row hrow => Flow.keeps_ofOption ?_
    refine (Run.Keeps.of_idle (RunContext.idle_holds e row)).bind fun t _ => .ok fun out h => ?_
    split at h
    · cases h; exact hrow
    · cases h
  | unwind e x =>
    refine fun s hs => (hsource s hs).flatMap fun row hrow => Flow.keeps_ofRun ?_
    refine (Run.Keeps.of_idle (RunContext.idle_value e row)).bind fun v _ => .ok fun out hout => ?_
    obtain ⟨w, -, rfl⟩ := List.mem_map.1 hout
    exact ((Row.exactly_names hrow).bound [(x, w)]).closed
  | project p => exact keeps_project p _ hsource
  | create parts =>
    exact keeps_flatMap hsource fun row hrow =>
      (RunContext.keeps_create hread parts row).with_results
        ((RunContext.exactly_create parts (Row.exactly_names hrow)).mono fun _ hout => hout.closed)
  | createApart parts =>
    exact keeps_flatMap hsource fun row hrow =>
      (RunContext.keeps_createApart hread parts row).with_results
        ((RunContext.exactly_createApart parts (Row.exactly_names hrow)).mono
          fun _ hout => hout.closed)
  | merge pattern part onCreate onMatch =>
    exact fun s hs => (hsource s hs).flatMap fun row hrow =>
      Flow.keeps_ofRun (RunContext.keeps_merge hread pattern part honce hrow)
  | set items => exact keeps_flatMap hsource fun row => RunContext.keeps_set honce
  | remove items => exact keeps_flatMap hsource fun row => RunContext.keeps_remove honce
  | delete detach targets =>
    exact Flow.keeps_ofRun ((Flow.keeps_toList hsource).bind fun rows hrows =>
      (RunContext.keeps_delete detach targets rows).bind fun _ _ => .ok hrows)

end Stage

/-! ## Plans -/

theorem assembly_balanced {ctx : RunContext} (hread : ctx.reader.canRead ctx.visibility = true)
    (once : Prop) (s₀ s : RunState) :
    Assembly ctx s s (fun stage => once → stage.LabelsOnce ctx.config)
      fun f _ => Flow.KeepsFrom (Balanced ctx.reader once s₀) Row.Closed f where
  cut _ _ := rfl
  first := Flow.keeps_single rfl
  project p cut _ _ _ hf t ht := (Stage.keeps_project p cut hf t ht).counted _
  other stage _ _ honce hf t ht := (Stage.keeps_flow hread honce hf t ht).counted _
  union all fs gs h t ht := by
    have hrows : Flow.KeepsFrom (Balanced ctx.reader once s₀) Row.Closed (PlanBody.inTurn fs) :=
      Flow.keeps_inTurn fun f hf => by
        obtain ⟨_, _, hkeeps⟩ := exists_of_forall₂ h.flip hf
        exact hkeeps
    unfold PlanBody.unionRows
    cases all with
    | true => exact (hrows t ht).counted _
    | false => exact ((hrows t ht).distinct []).counted _

/-! ## Results -/

namespace ResultStream

variable {I : RunState → Prop} [OfWrites I] {r : ResultStream} {s : RunState}

/-- What is left of the flow keeps the invariant. -/
def KeptBy (I : RunState → Prop) (r : ResultStream) : Prop :=
  ∀ held source, r.supply = .waiting held source → Flow.KeepsFrom I Anything source

omit [OfWrites I] in
theorem Over.keptBy (h : r.Over) : r.KeptBy I :=
  fun held source hsupply => absurd hsupply (h held source)

theorem invariant_close (hs : I s) : I (r.close s).2 := by
  unfold ResultStream.close
  split
  · next held source _ =>
    have hclosed : s.Unwritten (s.closeCursors held) := ⟨rfl, rfl⟩
    exact OfWrites.unwritten hclosed hs
  · exact hs

/-- The answer to a question is a failure, or the invariant is kept. -/
theorem KeptBy.ask (h : r.KeptBy I) (hs : I s) (a : Ask) :
    (∃ e, (r.ask a s).1.1 = some (.error e)) ∨
      ((r.ask a s).1.2.KeptBy I ∧ I (r.ask a s).2) := by
  cases a with
  | close => exact Or.inr ⟨(over_close r s).keptBy, invariant_close hs⟩
  | next =>
    rw [ask_next]
    unfold ResultStream.next
    split
    · exact Or.inr ⟨nofun, invariant_close hs⟩
    · split
      · exact Or.inr ⟨h, hs⟩
      · exact Or.inr ⟨h, hs⟩
      · exact Or.inr ⟨nofun, hs⟩
      · next held source hsupply =>
        have hflow := h held source hsupply s hs
        split
        · next t ht =>
          rw [ht] at hflow
          exact Or.inr ⟨nofun, hflow⟩
        · exact Or.inl ⟨_, rfl⟩
        · next row held' t rest ht =>
          rw [ht] at hflow
          refine Or.inr ⟨fun _ _ hrest => ?_, hflow.1⟩
          cases hrest
          exact fun u hu => (hflow.2.2 u hu).mono fun _ _ => trivial

/-- As long as no answer is a failure, the invariant is kept. -/
theorem KeptBy.askAll (h : r.KeptBy I) (hs : I s) {asks : List Ask}
    (hok : ∀ e, some (.error e) ∉ (r.askAll asks s).1.1) : I (r.askAll asks s).2 := by
  induction asks generalizing r s with
  | nil => exact hs
  | cons a rest ih =>
    rw [askAll_cons] at hok ⊢
    rcases h.ask hs a with ⟨e, he⟩ | ⟨hleft, hafter⟩
    · exact absurd (List.mem_cons.2 (Or.inl he.symm)) (hok e)
    · exact ih hleft hafter fun e he => hok e (List.mem_cons_of_mem _ he)

/-- All rows that are left, taken at once. -/
theorem KeptBy.collect (h : r.KeptBy I) : r.collect.Keeps I Anything := by
  unfold ResultStream.collect
  split
  · intro s hs _ t hrun
    obtain ⟨_, s', hclose, hrest⟩ := Run.ok_of_bind hrun
    cases hclose
    cases hrest
    exact ⟨invariant_close hs, trivial⟩
  · split
    · exact .ok trivial
    · exact .ok trivial
    · next held source hsupply =>
      exact (Flow.keeps_toList (h held source hsupply)).bind fun rows _ => .ok trivial

end ResultStream

namespace Plan

/-- The counts in the second state say by how much its graph differs from the first one: in vertices,
in edges, and as long as no vertex has been deleted and labels are counted `once` each, in labels. -/
structure Counted (once : Prop) (s t : RunState) : Prop where
  vertices : (t.store.vertexCount : Int) - s.store.vertexCount =
    t.stats.writes.nodesCreated - t.stats.writes.nodesDeleted
  edges : (t.store.edgeCount : Int) - s.store.edgeCount =
    t.stats.writes.relationshipsCreated - t.stats.writes.relationshipsDeleted
  labels : once → t.stats.writes.nodesDeleted = 0 →
    (t.store.labelPairs : Int) - s.store.labelPairs =
      t.stats.writes.labelsAdded - t.stats.writes.labelsRemoved

theorem counted_of_balanced {reader : Authorizations} {once : Prop} {s t : RunState}
    (h : Balanced reader once s.begin t) : Counted once s t := by
  obtain ⟨-, -, hvertices, hedges, hlabels⟩ := h
  have hbegin : s.begin.vertexBalance = s.store.vertexCount ∧
      s.begin.edgeBalance = s.store.edgeCount ∧ s.begin.labelBalance = s.store.labelPairs := by
    unfold RunState.vertexBalance RunState.edgeBalance RunState.labelBalance
    exact ⟨by simp [RunState.begin, Stats.zero, WriteCounts.zero],
      by simp [RunState.begin, Stats.zero, WriteCounts.zero],
      by simp [RunState.begin, Stats.zero, WriteCounts.zero]⟩
  rw [hbegin.1] at hvertices
  rw [hbegin.2.1] at hedges
  unfold RunState.vertexBalance at hvertices
  unfold RunState.edgeBalance at hedges
  refine ⟨by omega, by omega, fun honce hnone => ?_⟩
  have hbalance := hlabels honce hnone
  rw [hbegin.2.2] at hbalance
  unfold RunState.labelBalance at hbalance
  omega

/-- Where the reader sees all elements, those of the statement included, the counts of a statement
are right as soon as it has been started, after any number of its rows, and when all its rows have
been taken at once: vertices and edges for every plan, labels for every plan of which no item names
a label twice. -/
theorem counts_conserved (plan : Plan) {ctx : RunContext} {s t : RunState} {r : ResultStream}
    (hconsistent : s.store.Consistent) (hvisible : s.store.Visible ctx.reader)
    (hread : ctx.reader.canRead ctx.visibility = true)
    (hstart : plan.start ctx s = (.ok r, t)) :
    (∀ asks, (∀ e, some (.error e) ∉ (r.askAll asks t).1.1) →
      Counted (plan.LabelsOnce ctx.config) s (r.askAll asks t).2) ∧
    ∀ rows u, r.collect t = (.ok rows, u) → Counted (plan.LabelsOnce ctx.config) s u := by
  have hbegin : Balanced ctx.reader (plan.LabelsOnce ctx.config) s.begin s.begin :=
    ⟨hconsistent, hvisible, rfl, rfl, fun _ _ => rfl⟩
  obtain ⟨x, y, hflow, -, hkeeps⟩ := (assembly_balanced hread (plan.LabelsOnce ctx.config) s.begin
    s.begin).flow plan.body fun stages hstages stage hstage honce =>
      honce stages hstages stage hstage
  rw [start_eq, hflow] at hstart
  have hstarted : Balanced ctx.reader (plan.LabelsOnce ctx.config) s.begin t ∧
      r.KeptBy (Balanced ctx.reader (plan.LabelsOnce ctx.config) s.begin) := by
    match x, y, hkeeps with
    | .ok source, .ok _, hsource =>
      dsimp only at hstart
      split at hstart
      · split at hstart
        · next rows u hrows =>
          cases hstart
          exact ⟨(Flow.keeps_toList hsource s.begin hbegin rows t hrows).1, nofun⟩
        · cases hstart
      · cases hstart
        refine ⟨hbegin, fun _ _ hsupply => ?_⟩
        cases hsupply
        exact hsource.mono fun _ _ => trivial
    | .error e, .error _, _ => cases hstart
  obtain ⟨hbalanced, hkept⟩ := hstarted
  exact ⟨fun asks hok => counted_of_balanced (hkept.askAll hbalanced hok),
    fun rows u hrun => counted_of_balanced (hkept.collect t hbalanced rows u hrun).1⟩

/-! ## A label named twice -/

open Search (lonely plainContext)

/-- `MATCH (n) SET n:A:B` for some labels. -/
def labelling (labels : List String) : Query :=
  [.matching false [⟨none, ⟨some "n", [], []⟩, []⟩] none, .set [.labels "n" labels]]

theorem visible_lonely : lonely.store.Visible plainContext.reader := by
  refine ⟨fun i v hv => ?_, fun i e he => ?_⟩
  · match i with
    | 0 => cases hv; rfl
    | _ + 1 => cases hv
  · match i with
    | 0 => cases he
    | _ + 1 => cases he

theorem counts_conserved_labelled : ∃ plan r t, ofQuery (labelling ["A", "B"]) = .ok plan ∧
    plan.LabelsOnce plainContext.config ∧ plan.start plainContext lonely = (.ok r, t) ∧
      Counted (plan.LabelsOnce plainContext.config) lonely t ∧ t.stats.writes.labelsAdded = 2 := by
  obtain ⟨plan, hplan⟩ : ∃ plan, ofQuery (labelling ["A", "B"]) = .ok plan := ⟨_, rfl⟩
  have honce : plan.LabelsOnce plainContext.config := by
    cases hplan
    refine List.forall_mem_singleton.2 (List.forall_mem_cons.2 ⟨trivial,
      List.forall_mem_singleton.2 (List.forall_mem_singleton.2 ?_)⟩)
    show (["A", "B"].map plainContext.config.label).Nodup
    decide
  have hrun : (match plan.start plainContext lonely with
      | (.ok _, t) => t.stats.writes.labelsAdded == 2
      | (.error _, _) => false) = true := by
    cases hplan
    decide +kernel
  split at hrun
  · next r t hstart =>
    have hcounted := (counts_conserved plan Search.consistent_lonely visible_lonely rfl hstart).1 []
      fun _ => List.not_mem_nil
    exact ⟨plan, r, t, hplan, honce, hstart, hcounted, beq_iff_eq.1 hrun⟩
  · cases hrun

/-- A label that an item names twice is added once and counted twice. -/
theorem label_twice : ¬ ∀ (query : Query) (plan : Plan) (ctx : RunContext) (s t : RunState)
    (r : ResultStream), ofQuery query = .ok plan → s.store.Consistent →
    s.store.Visible ctx.reader → ctx.reader.canRead ctx.visibility = true →
    plan.start ctx s = (.ok r, t) → Counted True s t := by
  intro h
  obtain ⟨plan, hplan⟩ : ∃ plan, ofQuery (labelling ["B", "B"]) = .ok plan := ⟨_, rfl⟩
  have hrun : (match plan.start plainContext lonely with
      | (.ok _, t) => t.stats.writes.nodesDeleted == 0 && t.stats.writes.labelsRemoved == 0 &&
          t.stats.writes.labelsAdded == 2 && t.store.labelPairs == 1
      | (.error _, _) => false) = true := by
    cases hplan
    decide +kernel
  split at hrun
  · next r t hstart =>
    simp only [Bool.and_eq_true, beq_iff_eq] at hrun
    obtain ⟨⟨⟨hdeleted, hremoved⟩, hadded⟩, hpairs⟩ := hrun
    have hlabels := (h _ plan plainContext lonely t r hplan Search.consistent_lonely visible_lonely
      rfl hstart).labels trivial hdeleted
    rw [hpairs, hadded, hremoved] at hlabels
    have hbefore : lonely.store.labelPairs = 0 := rfl
    omega
  · cases hrun

end Plan

end PropertyGraph
