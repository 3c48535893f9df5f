import PropertyGraph.Proofs.Plan.Replaced
import PropertyGraph.Proofs.Run.Aggregated
import PropertyGraph.Proofs.Run.Projected

/-!
# Groups of rows

A projection with aggregates takes in the rows of its source one after the other, each into the
group of its keys.  The groups are the rows with equal keys, in the order in which their first rows
came, and an aggregate of a group is the aggregate of what its argument is in the rows of the group.

    Flow.visits                 the items of a flow, with the state in which each of them is given
    Projection.Grouping         what the expressions are in the rows, the aggregates in the groups
    Projection.Grouping.rows    one row of values for each group
    Grouping.foldRun_addRow     the groups after all rows
    Projection.flow_groups      the projection gives the rows of the groups
-/

namespace PropertyGraph

/-! ## Visits -/

namespace Flow

variable {α β : Type}

/-- The items, with the state in which each of them is given if nobody changes it in between. -/
def visits : Flow α → List (α × RunState)
  | .done _ | .fail _ _ => []
  | .emit a _ s rest => (a, s) :: (rest s).visits

/-- The state at the end, unless the flow fails. -/
def end? : Flow α → Option RunState
  | .done s => some s
  | .fail _ _ => none
  | .emit _ _ s rest => (rest s).end?

/-- A computation that takes in one item after the other and leaves the states as they are comes to
what is said of all visits, if it follows what is said of the visits before. -/
theorem foldRun_visits {f : β → α → Run β} {outcome : List (α × RunState) → β} (flow : Flow α)
    {t : RunState} (hend : flow.end? = some t) (before : List (α × RunState))
    (hstep : ∀ us v more, before ++ flow.visits = us ++ v :: more →
      f (outcome us) v.1 v.2 = (.ok (outcome (us ++ [v])), v.2)) :
    flow.foldRun f (outcome before) = (.ok (outcome (before ++ flow.visits)), t) := by
  induction flow generalizing before with
  | done s =>
    cases hend
    rw [visits, List.append_nil]
    rfl
  | fail e s => cases hend
  | emit a held s rest ih =>
    have hrest : before ++ (a, s) :: (rest s).visits = (before ++ [(a, s)]) ++ (rest s).visits :=
      List.append_cons _ _ _
    unfold foldRun
    rw [hstep before (a, s) _ rfl]
    rw [visits, hrest] at hstep ⊢
    exact ih s hend (before ++ [(a, s)]) hstep

end Flow

/-! ## Values -/

/-- What the argument of an aggregate is in a row. -/
def Aggregate.argumentOf (value : Expr → Row × RunState → Value) (a : Aggregate)
    (v : Row × RunState) : Value :=
  match a.argument with
  | some e => value e v
  | none => .null

namespace Projection

/-- Every accumulator takes in the value of its argument. -/
theorem accumulate_of_ok {ctx : RunContext} (value : Expr → Row × RunState → Value)
    {v : Row × RunState} {as : List Aggregate} {before after : Aggregate → Accumulator}
    (hvalue : ∀ a ∈ as, ∀ e ∈ a.argument, ctx.value e v.1 v.2 = (.ok (value e v), v.2))
    (hadd : ∀ a ∈ as, (before a).add (a.argumentOf value v) = .ok (after a)) :
    accumulate ctx v.1 (as.zip (as.map before)) v.2 = (.ok (as.map after), v.2) := by
  induction as with
  | nil => rfl
  | cons a rest ih =>
    obtain ⟨hfirst, hvalue⟩ := List.forall_mem_cons.1 hvalue
    obtain ⟨htaken, hadd⟩ := List.forall_mem_cons.1 hadd
    have hlift : Run.lift ((before a).add (a.argumentOf value v)) v.2 = (.ok (after a), v.2) := by
      rw [htaken]
      rfl
    rw [List.map_cons, List.zip_cons_cons, accumulate]
    unfold Aggregate.argumentOf at hlift
    cases hargument : a.argument with
    | none =>
      rw [hargument] at hlift
      dsimp only
      rw [pure_bind, Run.bind_of_ok hlift, Run.bind_of_ok (ih hvalue hadd)]
      rfl
    | some e =>
      rw [hargument] at hlift
      dsimp only
      rw [Run.bind_of_ok (hfirst e hargument), Run.bind_of_ok hlift,
        Run.bind_of_ok (ih hvalue hadd)]
      rfl

theorem ofGroup_eq (p : Projection) (ctx : RunContext) (group : Group) :
    p.ofGroup ctx group =
      let row := p.withResults (group.accumulators.map (·.result)) group.first
      (do
        let values ← groupValues ctx row p.columns group.keys
        return ⟨p.rowOf values, values, ← p.sortKeys ctx row values⟩) := rfl

/-- The arguments of the aggregates. -/
def arguments (p : Projection) : List Expr :=
  p.aggregates.filterMap (·.argument)

/-- The keys of a row. -/
def keysOf (p : Projection) (value : Expr → Row × RunState → Value) (v : Row × RunState) :
    List Value :=
  p.keyExprs.map fun e => value e v

/-- The rows with some keys. -/
def members (p : Projection) (value : Expr → Row × RunState → Value)
    (visits : List (Row × RunState)) (keys : List Value) : List (Row × RunState) :=
  visits.filter fun v => p.keysOf value v == keys

/-- The keys of all rows; where no columns are keys, those of no row at all. -/
def allKeys (p : Projection) (value : Expr → Row × RunState → Value)
    (visits : List (Row × RunState)) : List (List Value) :=
  if p.keyExprs.isEmpty then [[]] else visits.map (p.keysOf value)

/-- The columns that are no keys read nothing but results of aggregates. -/
def ReadsResults (p : Projection) : Prop :=
  ∀ c ∈ p.columns, c.isKey = false → ∀ x ∈ c.expr.reads, ∃ a ∈ p.aggregates, a.slot = x

/-- All that a projection computes from some rows, the last state being that at their end: its keys
and arguments in every row, its aggregates for every keys, and its other columns from these. -/
structure Grouping (p : Projection) (ctx : RunContext) (visits : List (Row × RunState))
    (last : RunState) where
  value : Expr → Row × RunState → Value
  result : List Value → Aggregate → Value
  item : List Value → Column → Value
  value_eq : ∀ v ∈ visits, ∀ e ∈ p.keyExprs ++ p.arguments,
    e.value (ctx.env v.2.store) v.1 = .ok (value e v)
  result_eq : ∀ keys ∈ p.allKeys value visits, ∀ a ∈ p.aggregates,
    a.over ((p.members value visits keys).map (a.argumentOf value)) = .ok (result keys a)
  item_eq : ∀ keys ∈ p.allKeys value visits, ∀ c ∈ p.columns, c.isKey = false →
    c.expr.value (ctx.env last.store) (p.withResults (p.aggregates.map (result keys)) .empty) =
      .ok (item keys c)

namespace Grouping

variable {p : Projection} {ctx : RunContext} {visits : List (Row × RunState)} {last : RunState}

/-- Two rows have equal keys. -/
def alike (g : p.Grouping ctx visits last) (u v : Row × RunState) : Bool :=
  p.keysOf g.value u == p.keysOf g.value v

/-- The first row of every group. -/
def firsts (g : p.Grouping ctx visits last) : List (Row × RunState) :=
  visits.eraseDupsBy g.alike

/-- The values of an aggregate's argument that count, in the rows with some keys. -/
def counted (g : p.Grouping ctx visits last) (keys : List Value) (a : Aggregate) : List Value :=
  a.kind.kept a.distinct ((p.members g.value visits keys).map (a.argumentOf g.value))

/-- The keys of every group: where no columns are keys there is one group even without rows. -/
def groups (g : p.Grouping ctx visits last) : List (List Value) :=
  if visits.isEmpty && p.keyExprs.isEmpty then [[]] else g.firsts.map (p.keysOf g.value)

/-- The values of a group's columns. -/
def values (g : p.Grouping ctx visits last) (first : Row × RunState) : List Value :=
  p.columns.map fun c =>
    if c.isKey then g.value c.expr first else g.item (p.keysOf g.value first) c

/-- The values of every group's columns. -/
def rows (g : p.Grouping ctx visits last) : List (List Value) :=
  if visits.isEmpty && p.keyExprs.isEmpty then [p.columns.map (g.item [])]
  else g.firsts.map g.values

/-! ## Taking in rows -/

variable (g : p.Grouping ctx visits last)

theorem alike_equivalence : Equivalence fun u v => g.alike u v = true :=
  ⟨fun _ => BEq.rfl, BEq.symm, BEq.trans⟩

/-- The accumulators of a group after some rows. -/
def accumulators (us : List (Row × RunState)) (v : Row × RunState) : List Accumulator :=
  p.aggregates.map fun a => .taken a ((us.filter (g.alike · v)).map (a.argumentOf g.value))

/-- A group after some rows. -/
def groupAfter (us : List (Row × RunState)) (first : Row × RunState) : Group :=
  ⟨p.keysOf g.value first, first.1, g.accumulators us first⟩

/-- All groups after some rows. -/
def groupsAfter (us : List (Row × RunState)) : List Group :=
  (us.eraseDupsBy g.alike).map (g.groupAfter us)

variable {g} {us more : List (Row × RunState)} {v w : Row × RunState}

theorem keysOf_mem (hw : w ∈ visits) : p.keysOf g.value w ∈ p.allKeys g.value visits := by
  unfold allKeys
  split
  · next hempty =>
    unfold keysOf
    rw [List.isEmpty_iff.1 hempty]
    exact List.mem_singleton.2 rfl
  · exact List.mem_map.2 ⟨w, hw, rfl⟩

/-- The results of a group that all rows have been taken into. -/
theorem result_accumulators (hw : w ∈ visits) :
    (g.accumulators visits w).map (·.result) =
      p.aggregates.map (g.result (p.keysOf g.value w)) := by
  unfold accumulators
  rw [List.map_map]
  exact List.map_congr_left fun a ha =>
    Accumulator.result_taken (g.result_eq _ (keysOf_mem hw) a ha)

/-- A row with the keys of a group is taken into its accumulators. -/
theorem accumulate_after (hvisits : visits = us ++ v :: more) (hw : w ∈ visits)
    (hvw : g.alike v w = true) :
    accumulate ctx v.1 (p.aggregates.zip (g.accumulators us w)) v.2 =
      (.ok (g.accumulators (us ++ [v]) w), v.2) := by
  have hv : v ∈ visits := hvisits ▸ List.mem_append_cons_self
  refine accumulate_of_ok g.value (fun a ha e he => ?_) fun a ha => ?_
  · exact Prod.ext (g.value_eq v hv e (List.mem_append_right _
      (List.mem_filterMap.2 ⟨a, ha, he⟩))) rfl
  · have hmembers : (p.members g.value visits (p.keysOf g.value w)).map (a.argumentOf g.value) =
        (us.filter (g.alike · w)).map (a.argumentOf g.value) ++ a.argumentOf g.value v ::
          (more.filter (g.alike · w)).map (a.argumentOf g.value) := by
      have hfilter := congrArg (List.filter (g.alike · w)) hvisits
      rw [List.filter_append, List.filter_cons, hvw] at hfilter
      show (visits.filter (g.alike · w)).map _ = _
      rw [hfilter, List.map_append]
      rfl
    rw [List.filter_append, List.filter_singleton, hvw, List.map_append]
    exact Accumulator.add_taken hmembers (g.result_eq _ (keysOf_mem hw) a ha)

theorem groupAfter_of_not_alike (h : g.alike v w = false) :
    g.groupAfter (us ++ [v]) w = g.groupAfter us w := by
  unfold groupAfter accumulators
  rw [List.filter_append, List.filter_singleton, h]
  simp

/-- A row is taken into the first group of equal keys, or into a new group. -/
theorem addToGroup_after (hvisits : visits = us ++ v :: more) {firsts : List (Row × RunState)}
    (hfirsts : firsts ⊆ us) (hapart : firsts.Pairwise fun u w => g.alike w u = false)
    (hnone : firsts.any (g.alike v) = false → us.filter (g.alike · v) = []) :
    p.addToGroup ctx (p.keysOf g.value v) v.1 (firsts.map (g.groupAfter us)) v.2 =
      (.ok ((if firsts.any (g.alike v) then firsts else firsts ++ [v]).map
        (g.groupAfter (us ++ [v]))), v.2) := by
  have hmem : ∀ w ∈ us, w ∈ visits := fun w hw => by
    rw [hvisits]
    exact List.mem_append_left _ hw
  induction firsts with
  | nil =>
    have hv : v ∈ visits := hvisits ▸ List.mem_append_cons_self
    have hstart : g.accumulators us v = (p.newGroup (p.keysOf g.value v) v.1).accumulators := by
      unfold accumulators
      rw [hnone rfl]
      rfl
    have htaken := accumulate_after hvisits hv (g.alike_equivalence.refl v)
    rw [hstart] at htaken
    rw [List.map_nil, addToGroup, Run.bind_of_ok htaken]
    rfl
  | cons w rest ih =>
    obtain ⟨hw, hrest⟩ := List.forall_mem_cons.1 hfirsts
    obtain ⟨hwrest, hapart⟩ := List.pairwise_cons.1 hapart
    have hkeys : ((g.groupAfter us w).keys == p.keysOf g.value v) = g.alike w v := rfl
    rw [List.map_cons, addToGroup, hkeys, List.any_cons]
    cases hvw : g.alike v w with
    | true =>
      -- the groups behind are those of other keys
      have hothers : rest.map (g.groupAfter us) = rest.map (g.groupAfter (us ++ [v])) :=
        List.map_congr_left fun u hu => (groupAfter_of_not_alike (Bool.eq_false_iff.2 fun hvu =>
          Bool.eq_false_iff.1 (hwrest u hu)
            (g.alike_equivalence.trans (g.alike_equivalence.symm hvu) hvw))).symm
      rw [if_pos (g.alike_equivalence.symm hvw), Bool.true_or, if_pos rfl, List.map_cons, hothers]
      have htaken := accumulate_after hvisits (hmem w hw) hvw
      unfold groupAfter
      rw [Run.bind_of_ok htaken]
      rfl
    | false =>
      have hwv : ¬ g.alike w v = true := fun h =>
        Bool.eq_false_iff.1 hvw (g.alike_equivalence.symm h)
      rw [if_neg hwv, Bool.false_or]
      rw [List.any_cons, hvw, Bool.false_or] at hnone
      rw [Run.bind_of_ok (ih hrest hapart hnone), ← groupAfter_of_not_alike hvw]
      cases rest.any (g.alike v) <;> rfl

/-- One more row. -/
theorem addRow_after (hvisits : visits = us ++ v :: more) :
    p.addRow ctx (g.groupsAfter us) v.1 v.2 = (.ok (g.groupsAfter (us ++ [v])), v.2) := by
  have hv : v ∈ visits := hvisits ▸ List.mem_append_cons_self
  have hkeys : ctx.valuesOf p.keyExprs v.1 v.2 = (.ok (p.keysOf g.value v), v.2) :=
    Run.mapM_of_ok fun e he => Prod.ext (g.value_eq v hv e (List.mem_append_left _ he)) rfl
  unfold addRow groupsAfter
  rw [Run.bind_of_ok hkeys, addToGroup_after hvisits (fun w hw => mem_of_mem_eraseDupsBy hw)
    (pairwise_eraseDupsBy us), eraseDupsBy_concat]
  intro hnone
  refine List.filter_eq_nil_iff.2 fun u hu huv => ?_
  obtain ⟨w, hw, huw⟩ := List.any_eq_true.1 (any_eraseDupsBy g.alike_equivalence hu)
  exact Bool.eq_false_iff.1 hnone (List.any_eq_true.2
    ⟨w, hw, g.alike_equivalence.trans (g.alike_equivalence.symm huv) huw⟩)

/-- All rows. -/
theorem foldRun_addRow {flow : Flow Row} {t : RunState} (hend : flow.end? = some t)
    (g : p.Grouping ctx flow.visits last) :
    flow.foldRun (p.addRow ctx) [] = (.ok (g.groupsAfter flow.visits), t) :=
  flow.foldRun_visits hend [] fun _ _ _ hvisits => addRow_after hvisits

/-! ## The rows of groups -/

/-- The keys of a group and the values of its other columns, each in its column. -/
theorem groupValues_of_ok {row : Row} {s : RunState} {item : Column → Value}
    (key : Column → Value) (columns : List Column)
    (hitem : ∀ c ∈ columns, c.isKey = false → ctx.value c.expr row s = (.ok (item c), s)) :
    groupValues ctx row columns ((columns.filter (·.isKey)).map key) s =
      (.ok (columns.map fun c => if c.isKey then key c else item c), s) := by
  induction columns with
  | nil => rfl
  | cons c rest ih =>
    obtain ⟨hfirst, hrest⟩ := List.forall_mem_cons.1 hitem
    unfold groupValues
    rw [List.map_cons, List.filter_cons]
    cases hkey : c.isKey with
    | true =>
      rw [if_pos rfl, if_pos rfl, if_pos rfl, List.map_cons, List.tail_cons,
        Run.bind_of_ok (ih hrest)]
      rfl
    | false =>
      rw [if_neg Bool.false_ne_true, if_neg Bool.false_ne_true, if_neg Bool.false_ne_true,
        Run.bind_of_ok (hfirst hkey), Run.bind_of_ok (ih hrest)]
      rfl

/-- A group with its results gives one row, which does not depend on its first row where all other
columns read nothing but results. -/
theorem ofGroup_of_ok (horder : p.order = []) (hreads : p.ReadsResults) {keys : List Value}
    (hkeys : keys ∈ p.allKeys g.value visits) (key : Column → Value)
    (hkey : ((p.columns.filter (·.isKey)).map key) = keys) (first : Row)
    {accumulators : List Accumulator}
    (hresults : accumulators.map (·.result) = p.aggregates.map (g.result keys)) :
    p.ofGroup ctx ⟨keys, first, accumulators⟩ last =
      (.ok ⟨p.rowOf (p.columns.map fun c => if c.isKey then key c else g.item keys c),
        p.columns.map fun c => if c.isKey then key c else g.item keys c, []⟩, last) := by
  have hitem : ∀ c ∈ p.columns, c.isKey = false →
      ctx.value c.expr (p.withResults (p.aggregates.map (g.result keys)) first) last =
        (.ok (g.item keys c), last) := by
    intro c hc hnot
    refine Prod.ext ?_ rfl
    rw [← g.item_eq keys hkeys c hc hnot]
    refine Expr.value_congr _ fun x hx => ?_
    obtain ⟨a, ha, rfl⟩ := hreads c hc hnot x hx
    exact lookup?_withResults_congr (List.length_map _) ha
  have hvalues := groupValues_of_ok key p.columns hitem
  rw [hkey] at hvalues
  have hsort : ∀ row vs, p.sortKeys ctx row vs last = (.ok [], last) := by
    intro row vs
    unfold sortKeys
    rw [horder]
    rfl
  rw [ofGroup_eq, hresults, Run.bind_of_ok hvalues, Run.bind_of_ok (hsort _ _)]
  rfl

/-- Where no columns are keys, no row gives a group of its own results. -/
theorem ofGroup_newGroup (hvisits : visits = []) (hkeys : p.keyExprs = [])
    (horder : p.order = []) (hreads : p.ReadsResults) :
    p.ofGroup ctx (p.newGroup [] .empty) last =
      (.ok ⟨p.rowOf (p.columns.map (g.item [])), p.columns.map (g.item []), []⟩, last) := by
  have hnokey : p.columns.filter (·.isKey) = [] := List.map_eq_nil_iff.1 hkeys
  have hnil : [] ∈ p.allKeys g.value visits := by
    unfold allKeys
    rw [hkeys]
    exact List.mem_singleton.2 rfl
  have hresults : (p.aggregates.map Accumulator.start).map (·.result) =
      p.aggregates.map (g.result []) := by
    subst hvisits
    rw [List.map_map]
    exact List.map_congr_left fun a ha => Accumulator.result_taken (g.result_eq [] hnil a ha)
  have hrow := ofGroup_of_ok horder hreads hnil (fun _ => .null) (by rw [hnokey]; rfl) .empty
    hresults
  have hitems : (p.columns.map fun c => if c.isKey then .null else g.item [] c) =
      p.columns.map (g.item []) :=
    List.map_congr_left fun c hc => if_neg (List.filter_eq_nil_iff.1 hnokey c hc)
  rw [hitems] at hrow
  exact hrow

/-- All groups give their rows. -/
theorem mapM_ofGroup (horder : p.order = []) (hreads : p.ReadsResults) :
    (p.closeGroups (g.groupsAfter visits)).mapM (p.ofGroup ctx) last =
      (.ok (g.rows.map fun values => ⟨p.rowOf values, values, []⟩), last) := by
  have hempty : (g.groupsAfter visits).isEmpty = visits.isEmpty := by
    rw [← isEmpty_eraseDupsBy visits]
    exact List.isEmpty_map
  unfold closeGroups rows
  rw [hempty]
  split
  · next hnone =>
    obtain ⟨hvisits, hkeys⟩ := Bool.and_eq_true_iff.1 hnone
    rw [List.mapM_cons, Run.bind_of_ok (ofGroup_newGroup (List.isEmpty_iff.1 hvisits)
      (List.isEmpty_iff.1 hkeys) horder hreads)]
    rfl
  · unfold groupsAfter
    rw [List.mapM_map, List.map_map]
    refine Run.mapM_of_ok fun w hw => ?_
    have hvisited : w ∈ visits := mem_of_mem_eraseDupsBy hw
    refine ofGroup_of_ok horder hreads (keysOf_mem hvisited) (fun c => g.value c.expr w) ?_ w.1
      (result_accumulators hvisited)
    unfold keysOf keyExprs
    rw [List.map_map]
    rfl

/-- A group counts the rows with its keys. -/
theorem result_of_rows {keys : List Value} (hkeys : keys ∈ p.allKeys g.value visits) {a : Aggregate}
    (ha : a ∈ p.aggregates) (hkind : a.kind = .rows) :
    g.result keys a = .int (.ofNat (p.members g.value visits keys).length) := by
  have hover := g.result_eq keys hkeys a ha
  unfold Aggregate.over AggregateKind.kept at hover
  rw [hkind] at hover
  have hcount := (Except.ok.inj hover).symm
  rwa [if_pos rfl, List.length_map] at hcount

/-- The least or greatest value of a group is null where no values count, and else the first of the
values at its end, if the order is transitive on them. -/
structure Extreme (g : p.Grouping ctx visits last) (keys : List Value) (a : Aggregate)
    (beyond : Ordering) : Prop where
  none : g.counted keys a = [] → g.result keys a = .null
  first : g.counted keys a ≠ [] → (∀ u ∈ g.counted keys a, ∀ v ∈ g.counted keys a,
    ∀ w ∈ g.counted keys a, Value.Distinct u.leaves v.leaves w.leaves) →
      Value.FirstAtEnd beyond (g.counted keys a) (g.result keys a)

theorem result_extreme {keys : List Value} (hkeys : keys ∈ p.allKeys g.value visits) {a : Aggregate}
    (ha : a ∈ p.aggregates) {beyond : Ordering} (hkind : a.kind.end? = some beyond) :
    g.Extreme keys a beyond := by
  have hover : a.kind.aggregate (g.counted keys a) = .ok (g.result keys a) :=
    g.result_eq keys hkeys a ha
  refine ⟨fun hnil => ?_, fun hsome hdistinct =>
    AggregateKind.aggregate_end hkind hsome hdistinct hover⟩
  rw [hnil] at hover
  cases hk : a.kind with
  | least | greatest =>
    rw [hk] at hover
    exact (Except.ok.inj hover).symm
  | _ =>
    rw [hk] at hkind
    cases hkind

/-- Every row is counted in one group. -/
theorem sum_members :
    (g.groups.map fun keys => (p.members g.value visits keys).length).sum = visits.length := by
  unfold groups
  split
  · next hnone =>
    obtain rfl := List.isEmpty_iff.1 (Bool.and_eq_true_iff.1 hnone).1
    rfl
  · rw [List.map_map]
    exact sum_length_filter g.alike_equivalence visits

theorem groups_subset : g.groups ⊆ p.allKeys g.value visits := by
  unfold groups
  split
  · next hnone =>
    unfold allKeys
    rw [if_pos (Bool.and_eq_true_iff.1 hnone).2]
    exact List.Subset.refl _
  · intro keys hkeys
    obtain ⟨v, hv, rfl⟩ := List.mem_map.1 hkeys
    exact keysOf_mem (mem_of_mem_eraseDupsBy hv)

/-- Where no columns are keys, all rows are in one group. -/
theorem length_rows (hkeys : p.keyExprs = []) : g.rows.length = 1 := by
  have halike : ∀ u v, g.alike u v = true := fun u v => by
    unfold alike keysOf
    rw [hkeys]
    rfl
  unfold rows
  rw [hkeys]
  cases hvisits : visits.isEmpty with
  | true => rfl
  | false =>
    have hsome : g.firsts.isEmpty = false := (isEmpty_eraseDupsBy visits).trans hvisits
    have hapart : g.firsts.Pairwise _ := pairwise_eraseDupsBy visits
    rw [Bool.false_and, if_neg Bool.false_ne_true, List.length_map]
    match hfirsts : g.firsts with
    | [] =>
      rw [hfirsts] at hsome
      cases hsome
    | [_] => rfl
    | u :: v :: _ =>
      rw [hfirsts] at hapart
      have hvu := (List.pairwise_cons.1 hapart).1 v List.mem_cons_self
      rw [halike] at hvu
      cases hvu

end Grouping

variable {p : Projection} {ctx : RunContext}

/-- The projection gives one row for each group, in the order of their first rows; where no columns
are keys, exactly one row.  Rows that are counted are counted in one group each, and least and
greatest values are what they are called. -/
theorem flow_groups (haggregates : p.aggregates ≠ []) (hdistinct : p.distinct = false)
    (horder : p.order = []) (hreads : p.ReadsResults)
    {source : Source Row} {s last : RunState} (hend : (source s).end? = some last)
    (g : p.Grouping ctx (source s).visits last) :
    p.flow ctx ⟨0, none⟩ source s = Flow.ofList (g.rows.map p.rowOf) last ∧
      (p.keyExprs = [] → g.rows.length = 1) ∧
      (∀ a ∈ p.aggregates, a.kind = .rows → ∃ counts : List Nat,
        g.groups.map (fun keys => g.result keys a) = counts.map (fun n => .int (.ofNat n)) ∧
        counts.sum = (source s).visits.length) ∧
      ∀ keys ∈ g.groups, ∀ a ∈ p.aggregates, ∀ beyond, a.kind.end? = some beyond →
        g.Extreme keys a beyond := by
  refine ⟨?_, fun hkeys => ?_, fun a ha hkind => ?_, fun keys hkeys a ha beyond hkind =>
    Grouping.result_extreme (Grouping.groups_subset hkeys) ha hkind⟩
  · have hgather : p.gatherRows ctx source s =
        (.ok (g.rows.map fun values => ⟨p.rowOf values, values, []⟩), last) := by
      unfold gatherRows
      rw [if_neg (by rwa [List.isEmpty_iff]), Grouping.foldRun_addRow hend g]
      exact Grouping.mapM_ofGroup horder hreads
    have hbarrier : p.isBarrier = true := by
      unfold isBarrier
      rw [List.isEmpty_eq_false_iff.2 haggregates]
      rfl
    rw [flow_of_gatherRows hbarrier hgather]
    unfold arrange
    rw [hdistinct, horder]
    show Flow.ofList ((g.rows.map fun values => (⟨p.rowOf values, values, []⟩ : ProjectedRow)).map
      (·.row)) last = _
    rw [List.map_map]
    rfl
  · exact Grouping.length_rows hkeys
  · refine ⟨g.groups.map fun keys => (p.members g.value (source s).visits keys).length, ?_,
      Grouping.sum_members⟩
    rw [List.map_map]
    exact List.map_congr_left fun keys hkeys =>
      Grouping.result_of_rows (Grouping.groups_subset hkeys) ha hkind

/-- Of `x, count(*), collect(DISTINCT y), max(y)` in four rows of two groups, one of them for null. -/
theorem flow_groups_counted :
    let p : Projection :=
      ⟨[⟨.var "x", "x", true⟩, ⟨.var "  agg0", "c", false⟩, ⟨.var "  agg1", "ys", false⟩,
          ⟨.var "  agg2", "m", false⟩],
        false, [], none, none, [⟨.rows, none, false, "  agg0", .countAll⟩,
          ⟨.collect, some (.var "y"), true, "  agg1", .call "collect" [.var "y"] true⟩,
          ⟨.greatest, some (.var "y"), false, "  agg2", .call "max" [.var "y"] false⟩]⟩
    let ctx : RunContext := ⟨⟨[]⟩, [], .default, "", ⟨2024, 1, 1, rfl⟩⟩
    let row := fun x y : Value => (Row.empty.set "x" x).set "y" y
    p.flow ctx ⟨0, none⟩ (.ofList [row (.int 1) (.int 2), row .null .null, row (.int 1) (.int 4),
        row (.int 1) (.int 2)]) .initial =
      .ofList [p.rowOf [.int 1, .int 3, .list [.int 2, .int 4], .int 4],
        p.rowOf [.null, .int 1, .list [], .null]] .initial := by
  intro p ctx row
  let env := ctx.env RunState.initial.store
  let visits : List (Row × RunState) := [(row (.int 1) (.int 2), .initial),
    (row .null .null, .initial), (row (.int 1) (.int 4), .initial),
    (row (.int 1) (.int 2), .initial)]
  let count (keys : List Value) : Value := .int (if keys == [.null] then 1 else 3)
  let collected (keys : List Value) : Value :=
    .list (if keys == [.null] then [] else [.int 2, .int 4])
  let greatest (keys : List Value) : Value := if keys == [.null] then .null else .int 4
  have hrow : ∀ x y, ∀ e ∈ p.keyExprs ++ p.arguments,
      e.value env (row x y) = .ok ((e.value env (row x y)).toOption.getD .null) := fun x y =>
    List.forall_mem_cons.2 ⟨rfl, List.forall_mem_cons.2 ⟨rfl, List.forall_mem_singleton.2 rfl⟩⟩
  have hkeys : ∀ keys ∈ [[.int 1], [.null], [.int 1], [.int 1]],
      keys = [Value.int 1] ∨ keys = [.null] := by
    simp
  let g : p.Grouping ctx visits .initial :=
    { value := fun e v => (e.value (ctx.env v.2.store) v.1).toOption.getD .null
      result := fun keys a => match a.kind with
        | .rows => count keys
        | .collect => collected keys
        | _ => greatest keys
      item := fun keys c =>
        if c.name = "c" then count keys else if c.name = "m" then greatest keys else collected keys
      value_eq := List.forall_mem_cons.2 ⟨hrow _ _, List.forall_mem_cons.2
        ⟨hrow _ _, List.forall_mem_cons.2 ⟨hrow _ _, List.forall_mem_singleton.2 (hrow _ _)⟩⟩⟩
      result_eq := by
        intro keys hmem
        rcases hkeys keys hmem with rfl | rfl <;>
          exact List.forall_mem_cons.2 ⟨by cbv, List.forall_mem_cons.2
            ⟨by cbv, List.forall_mem_singleton.2 (by cbv)⟩⟩
      item_eq := by
        intro keys hmem
        rcases hkeys keys hmem with rfl | rfl <;>
          exact List.forall_mem_cons.2 ⟨fun h => Bool.noConfusion h, List.forall_mem_cons.2
            ⟨fun _ => by cbv, List.forall_mem_cons.2
              ⟨fun _ => by cbv, List.forall_mem_singleton.2 fun _ => by cbv⟩⟩⟩ }
  refine (flow_groups (by decide) rfl rfl (by unfold ReadsResults; decide) rfl g).1.trans ?_
  cbv

end Projection

end PropertyGraph
