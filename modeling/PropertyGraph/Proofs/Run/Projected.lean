import PropertyGraph.Proofs.Run.Columns

/-!
# The rows of a projection

Whether the rows come one by one, all at once or by groups, each is made of one value for each
column.  So its names are those of the columns, in their order.

    Projection.Made          a row with one value for each column
    Projection.Complete      the same with the values it is sorted by
    Projection.each_flow     every row that a projection gives is such a row
    Row.Exactly.of_made      it binds the names of the columns and nothing else
    Projection.names_rowOf   in the order of the columns, where no two have the same name
-/

namespace PropertyGraph

/-- Labels of which no two are equal are all taken. -/
theorem Constraints.mergeLabels_of_nodup {labels new : List String} (h : (labels ++ new).Nodup) :
    mergeLabels labels new = labels ++ new := by
  unfold mergeLabels
  induction new generalizing labels with
  | nil => rw [List.append_nil]; rfl
  | cons l rest ih =>
    have hl : ¬ labels.contains l = true := fun hmem =>
      List.disjoint_of_nodup_append h (List.contains_iff_mem.1 hmem) List.mem_cons_self
    rw [List.append_cons] at h ⊢
    rw [List.foldl_cons, if_neg hl, ih h]

namespace Row

/-- Columns set one after the other stand in the order in which they were set. -/
theorem columns_foldl_set (bs : List (String × Value)) (row : Row)
    (h : (row.columns.names ++ bs.map Prod.fst).Nodup) :
    bs.foldl (fun row (name, v) => row.set name v) row =
      { row with columns := row.columns ++ bs } := by
  induction bs generalizing row with
  | nil => rw [List.append_nil]; rfl
  | cons b rest ih =>
    obtain ⟨name, v⟩ := b
    have hname : name ∉ row.columns.names := fun hmem =>
      List.disjoint_of_nodup_append h hmem List.mem_cons_self
    have hcolumns : (row.set name v).columns = row.columns ++ [(name, v)] :=
      Bindings.set_of_notMem hname v
    rw [List.foldl_cons, ih]
    · rw [hcolumns, List.append_assoc]
      rfl
    · rw [hcolumns, Bindings.names, List.map_append, List.append_assoc]
      exact h

end Row

namespace Projection

variable {p : Projection} {values : List Value}

theorem map_fst_zip_names (h : values.length = p.columns.length) :
    (p.names.zip values).map Prod.fst = p.names :=
  List.map_fst_zip (by rw [names, List.length_map, h])

/-- The names of a row are those of the columns, in their order. -/
theorem names_rowOf (hnodup : p.names.Nodup) (h : values.length = p.columns.length) :
    (p.rowOf values).names = p.names := by
  have hfst := map_fst_zip_names h
  unfold rowOf
  rw [Row.columns_foldl_set _ _ (by rw [hfst]; exact hnodup)]
  show Constraints.mergeLabels [] ([p.names.zip values].reverse.flatMap Bindings.names) = p.names
  rw [List.reverse_singleton, List.flatMap_singleton, Bindings.names, hfst]
  exact Constraints.mergeLabels_of_nodup hnodup

/-- A row that has been made of one value for each column. -/
def Made (p : Projection) (row : Row) : Prop :=
  ∃ values : List Value, values.length = p.columns.length ∧ row = p.rowOf values

theorem Made.exactly {row : Row} (h : p.Made row) : row.Exactly p.names := by
  obtain ⟨values, hlength, rfl⟩ := h
  have hrow := Row.exactly_empty.foldl_set (p.names.zip values)
  rwa [map_fst_zip_names hlength] at hrow

theorem results_valuesOf (ctx : RunContext) (es : List Expr) (row : Row) :
    (ctx.valuesOf es row).Results fun values => values.length = es.length :=
  (Run.Keeps.mapM (S := fun _ _ => True) fun _ _ _ _ _ _ _ => ⟨trivial, trivial⟩).mono
    fun _ h => h.length_eq.symm

/-- A row that has been made of one value for each column, with one value for each sort key. -/
structure Complete (p : Projection) (r : ProjectedRow) : Prop where
  length_values : r.values.length = p.columns.length
  row_eq : r.row = p.rowOf r.values
  length_keys : r.keys.length = p.order.length

theorem Complete.made {r : ProjectedRow} (h : p.Complete r) : p.Made r.row :=
  ⟨r.values, h.length_values, h.row_eq⟩

theorem results_sortKeys (p : Projection) (ctx : RunContext) (row : Row) (values : List Value) :
    (p.sortKeys ctx row values).Results fun keys => keys.length = p.order.length :=
  (results_valuesOf ctx _ _).mono fun _ hlength => hlength.trans (List.length_map _)

theorem complete_ofRow (p : Projection) (ctx : RunContext) (row : Row) :
    (p.ofRow ctx row).Results p.Complete := by
  unfold ofRow
  exact (results_valuesOf ctx _ row).bind fun values hvalues =>
    (results_sortKeys p ctx row values).bind fun keys hkeys =>
      .ok ⟨hvalues.trans (List.length_map _), rfl, hkeys⟩

theorem results_groupValues (ctx : RunContext) (row : Row) (columns : List Column) (keys : List Value) :
    (groupValues ctx row columns keys).Results fun values => values.length = columns.length := by
  induction columns generalizing keys with
  | nil => exact .ok rfl
  | cons c rest ih =>
    unfold groupValues
    split
    · exact (ih keys.tail).bind fun vs hvs => .ok (congrArg Nat.succ hvs)
    · exact .after fun v => (ih keys).bind fun vs hvs => .ok (congrArg Nat.succ hvs)

theorem complete_ofGroup (p : Projection) (ctx : RunContext) (group : Group) :
    (p.ofGroup ctx group).Results p.Complete := by
  unfold ofGroup
  exact (results_groupValues ctx _ p.columns group.keys).bind fun values hvalues =>
    (results_sortKeys p ctx _ values).bind fun keys hkeys => .ok ⟨hvalues, rfl, hkeys⟩

theorem complete_gatherRows (p : Projection) (ctx : RunContext) (source : Source Row) :
    (p.gatherRows ctx source).Results fun rows => ∀ r ∈ rows, p.Complete r := by
  intro s hs rows t hrun
  unfold gatherRows at hrun
  split at hrun
  · split at hrun
    · next made s' hr =>
      cases hrun
      have hmade := (Flow.each_anything source s hs).foldRun
        (Q := fun rows : List ProjectedRow => ∀ r ∈ rows, p.Complete r)
        (fun rows row hrows _ => (complete_ofRow p ctx row).bind fun (r : ProjectedRow) hr =>
          .ok fun r' hr' => (List.mem_cons.1 hr').elim (fun heq => heq ▸ hr) (hrows r'))
        (List.forall_mem_nil _) hr
      exact ⟨trivial, fun r hr => hmade.2 r (List.mem_reverse.1 hr)⟩
    · cases hrun
  · split at hrun
    · next groups s' hr =>
      have hall := Run.Keeps.mapM (S := fun _ => p.Complete)
        (fun g (_ : g ∈ p.closeGroups groups) => complete_ofGroup p ctx g) s' trivial rows t hrun
      refine ⟨trivial, fun r hr => ?_⟩
      obtain ⟨_, -, hcomplete⟩ := exists_of_forall₂ hall.2 hr
      exact hcomplete
    · cases hrun

/-- Where all rows are needed at once, the rows that are given are arranged of all that are made. -/
theorem flow_of_gatherRows {ctx : RunContext} {source : Source Row} {s t : RunState}
    {rows : List ProjectedRow} (hbarrier : p.isBarrier = true)
    (hgather : p.gatherRows ctx source s = (.ok rows, t)) (cut : Cut) :
    p.flow ctx cut source s = .ofList (p.arrange cut rows) t := by
  unfold flow
  rw [hbarrier, if_pos rfl]
  unfold Flow.ofRun
  rw [Run.bind_of_ok hgather]
  rfl

/-- Every row that a projection gives has one value for each column. -/
theorem each_flow (p : Projection) (ctx : RunContext) (cut : Cut) (source : Source Row) :
    Flow.EachOf p.Made (p.flow ctx cut source) := by
  unfold flow
  split
  · refine Flow.keeps_ofRun ((complete_gatherRows p ctx source).bind fun rows hrows => .ok ?_)
    intro row hrow
    obtain ⟨r, hr, rfl⟩ := mem_arrange hrow
    exact (hrows r hr).made
  · refine Flow.keeps_take (fun s hs => ?_) cut.limit
    have hrows : ((source s).flatMap fun row => Flow.ofOption do
        return some (← p.ofRow ctx row)).Keeps Anything fun r : ProjectedRow => p.Made r.row :=
      (Flow.each_anything source s hs).flatMap fun row _ => Flow.keeps_ofOption
        ((complete_ofRow p ctx row).bind fun r hr => .ok fun r' h => by cases h; exact hr.made)
    dsimp only
    split
    · exact ((hrows.distinct []).drop cut.skip).map fun r hr => hr
    · exact (hrows.drop cut.skip).map fun r hr => hr

end Projection

end PropertyGraph
