import PropertyGraph.Proofs.Run.SafeMatching
import PropertyGraph.Proofs.Value.Firsts

/-!
# Projecting where all names have values

A projection computes its columns in its rows, where it does not aggregate.  Where it does, it
computes the keys and the arguments of the aggregates in the rows, and the columns in the first row
of a group together with the results of the aggregates.  The group without rows has no first row:
there the results are all that a column can read.
-/

namespace PropertyGraph

/-! ## Temporary scopes -/

namespace Row

variable {row : Row} {names : List String}

theorem HasAll.foldl_push (h : row.HasAll names) (bs : List (String × Value)) :
    (bs.foldl (fun row (name, v) => row.push name v) row).HasAll (names ++ bs.map Prod.fst) := by
  induction bs generalizing row names with
  | nil => rwa [List.map_nil, List.append_nil]
  | cons b rest ih =>
    have hpush : (row.push b.1 b.2).HasAll (names ++ [b.1]) :=
      hasAll_append.2 ⟨fun x hx => has_push.2 (Or.inr (h x hx)),
        List.forall_mem_singleton.2 (has_push.2 (Or.inl rfl))⟩
    have hrest := ih hpush
    rwa [List.append_assoc] at hrest

end Row

namespace RunContext

variable {ctx : RunContext} {names : List String} {row : Row}

theorem safe_valuesOf {es : List Expr} (hrow : row.HasAll names) (hes : ReadsOnly names es) :
    (ctx.valuesOf es row).Safe fun vs => vs.length = es.length :=
  (Run.Safe.mapM (S := fun _ _ => True) fun _ he => safe_value (hes.hasAll he hrow)).mono
    fun _ hall => hall.length_eq.symm

/-- The numbers of rows to pass over and to keep. -/
theorem safe_cut {p : Projection} (h : ReadsOnly [] (p.skip.toList ++ p.limit.toList)) :
    (ctx.cut p).Safe Anything := by
  obtain ⟨hskip, hlimit⟩ := List.forall_mem_append.1 h
  have hcount : ∀ clause (o : Option Expr), ReadsOnly [] o.toList →
      (o.mapM (ctx.rowCount clause)).Safe Anything := by
    intro clause o ho
    cases o with
    | none => exact .ok trivial
    | some e =>
      refine Run.Safe.bind (P := Anything) ?_ fun n _ => .ok trivial
      unfold rowCount
      refine (safe_value (ho.hasAll List.mem_cons_self nofun)).bind fun v _ => ?_
      split
      · exact .ok trivial
      · split
        · exact .ok trivial
        · exact .fail nofun
      · exact .fail nofun
  exact (hcount "SKIP" p.skip hskip).bind fun _ _ =>
    (hcount "LIMIT" p.limit hlimit).bind fun _ _ => .ok trivial

end RunContext

namespace Projection

variable {p : Projection} {ctx : RunContext} {names : List String} {row : Row}

/-- The hidden names of the aggregates. -/
def slots (p : Projection) : List String :=
  p.aggregates.map (·.slot)

/-- What the projection reads: in its rows, in a group of rows and to sort by. -/
structure Reads (p : Projection) (names : List String) : Prop where
  columns : ReadsOnly (names ++ p.slots) (p.columns.map (·.expr))
  keys : ReadsOnly names p.keyExprs
  arguments : ∀ a ∈ p.aggregates, ReadsOnly names a.argument.toList
  order : ReadsOnly (names ++ p.slots ++ p.names) (p.order.map (·.expr))
  cut : ReadsOnly [] (p.skip.toList ++ p.limit.toList)

/-- If there may be a group without rows, its columns and its sort keys read no names of rows. -/
def ReadsAlone (p : Projection) : Prop :=
  p.aggregates ≠ [] → p.keyExprs = [] →
    ReadsOnly p.slots (p.columns.map (·.expr)) ∧
      ReadsOnly (p.slots ++ p.names) (p.order.map (·.expr))

/-! ## Projected rows -/

/-- The row of a projected row binds the columns. -/
def Projected (p : Projection) (r : ProjectedRow) : Prop :=
  r.row.Covers p.names

theorem names_zip {values : List Value} (h : values.length = p.columns.length) :
    (p.names.zip values).map Prod.fst = p.names :=
  List.map_fst_zip (by rw [h, names, List.length_map])

theorem covers_rowOf {values : List Value} (h : values.length = p.columns.length) :
    (p.rowOf values).Covers p.names := by
  have hall := Row.covers_empty.foldl_set (p.names.zip values)
  rwa [names_zip h] at hall

theorem safe_sortKeys {values : List Value} {bound : List String} (hrow : row.HasAll bound)
    (hlength : values.length = p.columns.length)
    (horder : ReadsOnly (bound ++ p.names) (p.order.map (·.expr))) :
    (p.sortKeys ctx row values).Safe Anything := by
  have hinner := hrow.foldl_push (p.names.zip values)
  rw [names_zip hlength] at hinner
  exact (RunContext.safe_valuesOf hinner horder).mono fun _ _ => trivial

theorem safe_ofRow (h : p.Reads names) (hplain : p.aggregates = []) (hrow : row.HasAll names) :
    (p.ofRow ctx row).Safe p.Projected := by
  have hslots : p.slots = [] := by rw [slots, hplain, List.map_nil]
  have hcolumns := h.columns
  have horder := h.order
  rw [hslots, List.append_nil] at hcolumns horder
  unfold ofRow
  refine (RunContext.safe_valuesOf hrow hcolumns).bind fun values hlength => ?_
  rw [List.length_map] at hlength
  exact (safe_sortKeys hrow hlength horder).bind fun keys _ => .ok (covers_rowOf hlength)

/-! ## Groups -/

/-- The group has an accumulator for each aggregate, and its first row binds some names. -/
def Grouped (p : Projection) (names : List String) (group : Group) : Prop :=
  group.accumulators.length = p.aggregates.length ∧ group.first.HasAll names

theorem grouped_newGroup (keys : List Value) (hrow : row.HasAll names) :
    p.Grouped names (p.newGroup keys row) :=
  ⟨List.length_map .., hrow⟩

theorem nameSafe_accumulator (acc : Accumulator) (v : Value) : NameSafe Anything (acc.add v) := by
  have hsample : NameSafe Anything v.sample := by
    unfold Value.sample
    split
    · trivial
    · exact nofun
  have htally : NameSafe Anything (acc.tally.add acc.kind v) := by
    unfold Tally.add
    split
    · trivial
    · split
      · split
        · trivial
        · exact nofun
      · trivial
      · exact nofun
    · exact hsample.map fun _ _ => trivial
    · exact hsample.map fun _ _ => trivial
    · trivial
    · trivial
    · exact hsample.map fun _ _ => trivial
  unfold Accumulator.add
  split
  · exact htally.map fun _ _ => trivial
  · split
    · trivial
    · exact htally.map fun _ _ => trivial

theorem safe_accumulate {as : List (Aggregate × Accumulator)} (hrow : row.HasAll names)
    (has : ∀ a ∈ as, ReadsOnly names a.1.argument.toList) :
    (accumulate ctx row as).Safe fun accs => accs.length = as.length := by
  induction as with
  | nil => exact .ok rfl
  | cons a rest ih =>
    obtain ⟨a, acc⟩ := a
    obtain ⟨ha, hrest⟩ := List.forall_mem_cons.1 has
    have htake : ∀ v, Run.Safe (fun accs => accs.length = rest.length + 1) (do
        let acc ← Run.lift (acc.add v)
        return acc :: (← accumulate ctx row rest) : Run (List Accumulator)) := fun v =>
      (Run.Safe.lift (nameSafe_accumulator acc v)).bind fun acc _ =>
        (ih hrest).bind fun accs haccs => .ok (congrArg Nat.succ haccs)
    unfold accumulate
    dsimp only at ha ⊢
    cases harg : a.argument with
    | none => exact htake .null
    | some e =>
      rw [harg] at ha
      exact (RunContext.safe_value (ha.hasAll List.mem_cons_self hrow)).bind fun v _ => htake v

/-- A row taken into a group leaves it a group. -/
theorem safe_accumulated (h : p.Reads names) {group : Group} (hgroup : p.Grouped names group)
    (hrow : row.HasAll names) :
    (accumulate ctx row (p.aggregates.zip group.accumulators)).Safe fun accumulators =>
      p.Grouped names { group with accumulators } := by
  refine (safe_accumulate hrow fun a ha => h.arguments a.1 (List.of_mem_zip ha).1).mono
    fun accumulators hlength => ⟨?_, hgroup.2⟩
  rw [hlength, List.length_zip, hgroup.1, Nat.min_self]

theorem safe_addToGroup (h : p.Reads names) (hrow : row.HasAll names) (keys : List Value)
    {groups : List Group} (hgroups : ∀ g ∈ groups, p.Grouped names g) :
    (p.addToGroup ctx keys row groups).Safe fun groups => ∀ g ∈ groups, p.Grouped names g := by
  induction groups with
  | nil =>
    exact (safe_accumulated h (grouped_newGroup keys hrow) hrow).bind fun accs haccs =>
      .ok (List.forall_mem_singleton.2 haccs)
  | cons group rest ih =>
    obtain ⟨hgroup, hrest⟩ := List.forall_mem_cons.1 hgroups
    unfold addToGroup
    split
    · exact (safe_accumulated h hgroup hrow).bind fun accs haccs =>
        .ok (List.forall_mem_cons.2 ⟨haccs, hrest⟩)
    · exact (ih hrest).bind fun more hmore => .ok (List.forall_mem_cons.2 ⟨hgroup, hmore⟩)

theorem safe_addRow (h : p.Reads names) {groups : List Group}
    (hgroups : ∀ g ∈ groups, p.Grouped names g) (hrow : row.HasAll names) :
    (p.addRow ctx groups row).Safe fun groups => ∀ g ∈ groups, p.Grouped names g :=
  (RunContext.safe_valuesOf hrow h.keys).bind fun keys _ => safe_addToGroup h hrow keys hgroups

theorem safe_groupValues {cs : List Column} (hcs : ReadsOnly names (cs.map (·.expr)))
    (hrow : row.HasAll names) (keys : List Value) :
    (groupValues ctx row cs keys).Safe fun values => values.length = cs.length := by
  induction cs generalizing keys with
  | nil => exact .ok rfl
  | cons c rest ih =>
    obtain ⟨hc, hrest⟩ := ReadsOnly.cons.1 hcs
    unfold groupValues
    split
    · exact (ih hrest _).bind fun more hmore => .ok (congrArg Nat.succ hmore)
    · exact (RunContext.safe_value (hc.hasAll List.mem_cons_self hrow)).bind fun v _ =>
        (ih hrest _).bind fun more hmore => .ok (congrArg Nat.succ hmore)

/-- The projection of a group whose first row binds what is read besides the results. -/
theorem safe_ofGroup {bound : List String} {group : Group} (hgroup : p.Grouped bound group)
    (hcolumns : ReadsOnly (bound ++ p.slots) (p.columns.map (·.expr)))
    (horder : ReadsOnly (bound ++ p.slots ++ p.names) (p.order.map (·.expr))) :
    (p.ofGroup ctx group).Safe p.Projected := by
  have hrow := hgroup.2.foldl_push
    ((p.aggregates.map (·.slot)).zip (group.accumulators.map (·.result)))
  rw [List.map_fst_zip (by rw [List.length_map, List.length_map, hgroup.1])] at hrow
  unfold ofGroup
  exact (safe_groupValues hcolumns hrow group.keys).bind fun values hlength =>
    (safe_sortKeys hrow hlength horder).bind fun keys _ => .ok (covers_rowOf hlength)

/-- The projection of all groups, also of the one without rows. -/
theorem safe_ofGroups (h : p.Reads names) (halone : p.ReadsAlone) (haggregates : p.aggregates ≠ [])
    {groups : List Group} (hgroups : ∀ g ∈ groups, p.Grouped names g) :
    ((p.closeGroups groups).mapM (p.ofGroup ctx)).Safe fun rows => ∀ r ∈ rows, p.Projected r := by
  have hgroup : ∀ g ∈ p.closeGroups groups, (p.ofGroup ctx g).Safe p.Projected := by
    intro g hg
    unfold closeGroups at hg
    split at hg
    · next hempty =>
      rw [Bool.and_eq_true, List.isEmpty_iff, List.isEmpty_iff] at hempty
      obtain ⟨hcolumns, horder⟩ := halone haggregates hempty.2
      rw [List.mem_singleton.1 hg]
      have hempty : p.Grouped [] (p.newGroup [] .empty) := grouped_newGroup [] nofun
      exact safe_ofGroup hempty hcolumns horder
    · exact safe_ofGroup (hgroups g hg) h.columns h.order
  refine (Run.Safe.mapM (S := fun _ => p.Projected) hgroup).mono fun rows hall r hr => ?_
  obtain ⟨_, -, hprojected⟩ := exists_of_forall₂ hall hr
  exact hprojected

/-! ## The rows that are given -/

/-- The first rows of all that have the same values. -/
theorem distinctRows_eq_eraseDupsBy (rows : List ProjectedRow) :
    distinctRows rows = rows.eraseDupsBy fun r first => r.values == first.values := by
  -- with the last row first, the values seen are those of the rows kept
  let note := fun (noted : List (List Value) × List ProjectedRow) (r : ProjectedRow) =>
    if noted.1.contains r.values then noted else (r.values :: noted.1, r :: noted.2)
  have key : ∀ kept : List ProjectedRow, (rows.foldl note (kept.map (·.values), kept)).2.reverse =
      List.eraseDupsBy.loop (fun r first => r.values == first.values) rows kept := by
    induction rows with
    | nil => exact fun _ => rfl
    | cons r rest ih =>
      intro kept
      have hcontains : (kept.map (·.values)).contains r.values =
          kept.any fun first => r.values == first.values := by
        rw [List.contains_eq_any_beq, List.any_map]
        rfl
      rw [List.foldl_cons, List.eraseDupsBy.loop, ← hcontains]
      cases h : (kept.map (·.values)).contains r.values with
      | true =>
        have hnote : note (kept.map (·.values), kept) r = (kept.map (·.values), kept) := if_pos h
        rw [hnote]
        exact ih kept
      | false =>
        have hnote : note (kept.map (·.values), kept) r =
            ((r :: kept).map (·.values), r :: kept) := if_neg (by rw [h]; exact Bool.false_ne_true)
        rw [hnote]
        exact ih (r :: kept)
  exact key []

theorem mem_arrange {cut : Cut} {rows : List ProjectedRow} {row : Row}
    (h : row ∈ p.arrange cut rows) : ∃ r ∈ rows, r.row = row := by
  obtain ⟨r, hr, rfl⟩ := List.mem_map.1 h
  refine ⟨r, ?_, rfl⟩
  have hdropped : r ∈ (if p.order.isEmpty then (if p.distinct then distinctRows rows else rows)
      else Sorting.sorted (fun a b => compareKeys p.order a.keys b.keys == .lt)
        (if p.distinct then distinctRows rows else rows)).drop cut.skip := by
    split at hr
    · exact List.mem_of_mem_take hr
    · exact hr
  have hsorted := List.mem_of_mem_drop hdropped
  have hdistinct : r ∈ (if p.distinct then distinctRows rows else rows) := by
    split at hsorted
    · exact hsorted
    · exact (Sorting.sorted_perm _ _).mem_iff.1 hsorted
  split at hdistinct
  · rw [distinctRows_eq_eraseDupsBy] at hdistinct
    exact mem_of_mem_eraseDupsBy hdistinct
  · exact hdistinct

/-! ## Flows -/

variable {source : Source Row}

theorem safe_gatherRows (h : p.Reads names) (halone : p.ReadsAlone)
    (hsource : Flow.SafeSource (Row.Covers · names) source) :
    (p.gatherRows ctx source).Safe fun rows => ∀ r ∈ rows, p.Projected r := by
  intro s
  unfold gatherRows
  split
  · next hplain =>
    have hfold := (hsource s).foldRun (Q := fun rows => ∀ r ∈ rows, p.Projected r)
      (k := fun rows row => return (← p.ofRow ctx row) :: rows) (fun rows row hrows hrow =>
        (safe_ofRow h (List.isEmpty_iff.1 hplain) hrow.hasAll).bind fun r hr =>
          .ok (List.forall_mem_cons.2 ⟨hr, hrows⟩)) (b := []) nofun
    split
    · next rows s' hr =>
      rw [hr] at hfold
      exact fun r hr => hfold r (List.mem_reverse.1 hr)
    · next e s' hr =>
      rw [hr] at hfold
      exact hfold
  · next haggregates =>
    have hfold := (hsource s).foldRun (Q := fun groups => ∀ g ∈ groups, p.Grouped names g)
      (k := p.addRow ctx) (fun groups row hgroups hrow => safe_addRow h hgroups hrow.hasAll)
      (b := []) nofun
    split
    · next groups s' hr =>
      rw [hr] at hfold
      exact safe_ofGroups h halone (fun hnil => haggregates (by rw [hnil]; rfl)) hfold s'
    · next e s' hr =>
      rw [hr] at hfold
      exact hfold

theorem safe_flow (h : p.Reads names) (halone : p.ReadsAlone)
    (hsource : Flow.SafeSource (Row.Covers · names) source) (cut : Cut) :
    Flow.SafeSource (Row.Covers · p.names) (p.flow ctx cut source) := by
  unfold flow
  split
  · refine Flow.safe_ofRun ((safe_gatherRows h halone hsource).bind fun rows hrows => .ok ?_)
    intro row hrow
    obtain ⟨r, hr, rfl⟩ := mem_arrange hrow
    exact hrows r hr
  · next hlazy =>
    have hplain : p.aggregates = [] := by
      cases ha : p.aggregates with
      | nil => rfl
      | cons a rest => exact absurd (by unfold isBarrier; rw [ha]; rfl) hlazy
    refine Flow.safe_take (fun s => ?_) cut.limit
    have hrows : ((source s).flatMap fun row => Flow.ofOption do
        return some (← p.ofRow ctx row)).Safe p.Projected :=
      (hsource s).flatMap fun row hrow => Flow.safe_ofOption
        ((safe_ofRow h hplain hrow.hasAll).bind fun r hr => .ok fun r' h => by cases h; exact hr)
    dsimp only
    split
    · exact ((hrows.distinct []).drop cut.skip).map fun r hr => hr
    · exact (hrows.drop cut.skip).map fun r hr => hr

end Projection

end PropertyGraph
