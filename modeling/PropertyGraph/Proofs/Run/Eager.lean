import PropertyGraph.Proofs.Pattern.Listed
import PropertyGraph.Proofs.Run.Cut

/-!
# Stages on lists of rows

Carried out for a whole list of rows at once, a stage makes it into the list of all rows that come
out of it.  Rows that are asked for one by one, through any number of stages, are the rows of these
lists, in their order.

    Stage.eagerly        a stage on a list of rows
    Stage.Booked         the estimates that it asks for stand in a book
    lists_matchRow       the rows that a pattern makes of a row
    Projection.lists_flow, Stage.lists_flow
                         a stage behind a source gives the list made of the source's list
-/

namespace PropertyGraph

open PropertyGraph.Flow (Lists)

/-! ## On lists -/

/-- What is a matter of the store alone. -/
def Run.reading {α : Type} (f : Store → Except Error α) : Run α :=
  fun s => (f s.store, s)

/-- All rows that the matches of a pattern make of a row. -/
def RunContext.rowsOf (ctx : RunContext) (resolved : Constraints Value) (condition : Option Expr)
    (row : Row) (ms : List Match) : Run (List Row) := do
  let rows := (← ms.mapM (ctx.matchedRow resolved condition row)).filterMap id
  return if resolved.optional && rows.isEmpty then [row.nulls resolved.names] else rows

/-- All rows that a pattern makes of a row. -/
def RunContext.matchRows (ctx : RunContext) (pattern : Constraints Expr) (condition : Option Expr)
    (row : Row) : Run (List Row) := do
  let resolved ← pattern.mapM fun e => ctx.value e row
  let ms ← Run.reading fun σ => (Search.of ctx resolved).listed σ row
  ctx.rowsOf resolved condition row ms

/-- All projected rows of a list. -/
def Projection.eachRow (p : Projection) (ctx : RunContext) (rows : List Row) :
    Run (List ProjectedRow) :=
  if p.aggregates.isEmpty then rows.mapM (p.ofRow ctx)
  else do
    let groups ← rows.foldlM (p.addRow ctx) []
    (p.closeGroups groups).mapM (p.ofGroup ctx)

/-- All rows that a stage makes of a list of rows. -/
def Stage.eagerly (ctx : RunContext) (rows : List Row) : Stage → Run (List Row)
  | .matching g condition => do return (← rows.mapM (ctx.matchRows g condition)).flatten
  | .filter e => do
    return (← rows.mapM fun row => do return if ← ctx.holds e row then [row] else []).flatten
  | .unwind e name => do return (← rows.mapM (ctx.unwind e name)).flatten
  | .project p => do
    let cut ← ctx.cut p
    return p.arrange cut (← p.eachRow ctx rows)
  | .create parts => rows.mapM (ctx.create parts)
  | .createApart parts => rows.mapM (ctx.createApart parts)
  | .merge g part onCreate onMatch => do
    return (← rows.mapM (ctx.merge g part onCreate onMatch)).flatten
  | .set items => rows.mapM (ctx.set items)
  | .remove items => rows.mapM (ctx.remove items)
  | .delete detach targets => do
    ctx.delete detach targets rows
    return rows

/-- The stage asks for a number under a text, for some row of a list. -/
def Stage.Estimates (ctx : RunContext) (σ : Store) (rows : List Row) (key : String) (number : Nat) :
    Stage → Prop
  | .matching g _ => ∃ row ∈ rows, ∃ resolved,
      g.mapM (fun e => e.value (ctx.env σ) row) = .ok resolved ∧
        (Search.of ctx resolved).Estimates σ key number
  | _ => False

/-- All numbers that the stage asks for stand in a book. -/
def Stage.Booked (ctx : RunContext) (σ : Store) (book : String → Nat) (rows : List Row)
    (stage : Stage) : Prop :=
  ∀ key number, stage.Estimates ctx σ rows key number → number = book key

variable {ctx : RunContext} {σ : Store} {book : String → Nat}

instance : SameWorld ctx (Both (Keeping σ book)) where
  uncounted := Keeping.unmetered.both
  env _ _ h := by rw [h.1.store, h.2.store]

/-! ## Matching -/

theorem flatten_map_toList {α : Type} (os : List (Option α)) :
    (os.map Option.toList).flatten = os.filterMap id := by
  induction os with
  | nil => rfl
  | cons o rest ih => cases o <;> simp [ih]

section Matching

variable {g : Constraints Expr} {resolved : Constraints Value} {condition : Option Expr} {row : Row}

theorem blind_reading {α : Type} (f : Store → Except Error α) :
    Blind (Both (Keeping σ book)) (Run.reading f) := by
  intro s t h
  refine ⟨?_, trivial, h⟩
  unfold Run.reading
  rw [h.1.store, h.2.store]

theorem blind_rowsOf (ms : List Match) :
    Blind (Both (Keeping σ book)) (ctx.rowsOf resolved condition row ms) :=
  .andThen (.runMapM fun m _ => ctx.blind_matchedRow resolved condition row m) fun _ => .ok _

theorem blind_matchRows : Blind (Both (Keeping σ book)) (ctx.matchRows g condition row) :=
  .andThen (Blind.constraints (fun e => ctx.blind_value e row) g) fun _ =>
    .andThen (blind_reading _) blind_rowsOf

/-- The rows that the matches of a flow make of a row, one by one. -/
theorem gives_rowsOf {f : Flow Match} {ms : List Match} {rows : List Row}
    (hf : f.Gives (Keeping σ book) ms)
    (h : Comes (Keeping σ book) (ctx.rowsOf resolved condition row ms) rows) :
    (let found := f.flatMap fun m => Flow.ofOption (ctx.matchedRow resolved condition row m)
      if resolved.optional then found.orElse (Flow.single (row.nulls resolved.names))
      else found).Gives (Keeping σ book) rows := by
  obtain ⟨t, hrun, -⟩ := h _ (Keeping.of_store σ book)
  obtain ⟨found, hfound, hrows⟩ := Comes.of_bind
    (.runMapM fun m _ => ctx.blind_matchedRow resolved condition row m) (fun _ => .ok _)
    (Keeping.of_store σ book) hrun
  obtain ⟨t', hmap, -⟩ := hfound _ (Keeping.of_store σ book)
  have hparts : List.Forall₂ (fun m part => Lists (Keeping σ book)
      (Flow.ofOption (ctx.matchedRow resolved condition row m)) part) ms
      (found.map Option.toList) := by
    rw [List.forall₂_map_right_iff]
    exact (Comes.of_mapM (fun m _ => ctx.blind_matchedRow resolved condition row m)
      (Keeping.of_store σ book) hmap).imp fun _ _ => Flow.lists_ofOption
  have hgives := hf.flatMap hparts
  rw [flatten_map_toList] at hgives
  obtain ⟨t'', hpure, -⟩ := hrows _ (Keeping.of_store σ book)
  cases hpure
  cases resolved.optional with
  | false => exact hgives
  | true => exact hgives.orElse (Flow.lists_single _)

/-- Asked for its rows one by one, a pattern gives all rows that it makes of a row. -/
theorem lists_matchRow {rows : List Row}
    (hbook : ∀ resolved, g.mapM (fun e => e.value (ctx.env σ) row) = .ok resolved →
      (Search.of ctx resolved).Booked σ book)
    (h : Comes (Keeping σ book) (ctx.matchRows g condition row) rows) :
    Lists (Keeping σ book) (ctx.matchRow g condition row) rows := by
  intro s hs
  obtain ⟨t, hrun, -⟩ := h s hs
  obtain ⟨resolved, hresolved, hmatches⟩ := Comes.of_bind
    (Blind.constraints (fun e => ctx.blind_value e row) g)
    (fun _ => .andThen (blind_reading _) blind_rowsOf) hs hrun
  obtain ⟨s', hvalues, hs'⟩ := hresolved s hs
  obtain ⟨t', hrun', -⟩ := hmatches s' hs'
  obtain ⟨ms, hms, hrows⟩ := Comes.of_bind (blind_reading _) blind_rowsOf hs' hrun'
  obtain ⟨_, hlisted, -⟩ := hms _ (Keeping.of_store σ book)
  have hlisted : (Search.of ctx resolved).listed σ row = .ok ms := congrArg Prod.fst hlisted
  have hpure : g.mapM (fun e => e.value (ctx.env σ) row) = .ok resolved := by
    rw [Constraints.mapM_still (f := fun e => ctx.value e row) (fun _ => rfl) g,
      hs.store] at hvalues
    exact congrArg Prod.fst hvalues
  have hshape := Constraints.shape_of_mapM hpure
  have hfound := gives_rowsOf (Search.lists_flow (hbook resolved hpure) hlisted s' hs') hrows
  unfold RunContext.matchRow
  rw [hvalues]
  rw [Constraints.names_of_shape hshape,
    show resolved.optional = g.optional from congrArg (·.optional) hshape] at hfound
  exact hfound

end Matching

/-! ## Projecting -/

namespace Projection

variable {p : Projection} {source : Source Row} {rows : List Row} {projected : List ProjectedRow}

theorem distinctRows_eq (rows : List ProjectedRow) :
    distinctRows rows = Flow.firsts (·.values) [] rows := by
  have key : ∀ (rows : List ProjectedRow) (seen : List (List Value)) (kept : List ProjectedRow),
      (rows.foldl (fun (x : List (List Value) × List ProjectedRow) (r : ProjectedRow) =>
        if x.1.contains r.values then x else (r.values :: x.1, r :: x.2)) (seen, kept)).2.reverse =
          kept.reverse ++ Flow.firsts (·.values) seen rows := by
    intro rows
    induction rows with
    | nil => exact fun _ kept => (List.append_nil _).symm
    | cons r rest ih =>
      intro seen kept
      rw [List.foldl_cons, Flow.firsts]
      dsimp only
      split
      · exact ih seen kept
      · rw [ih, List.reverse_cons, List.append_assoc]
        rfl
  exact key rows [] []

/-- A list built up from the back is the list of all results. -/
theorem foldlM_cons_eq {α β : Type} (k : α → Run β) (as : List α) (bs : List β) :
    as.foldlM (fun bs a => do return (← k a) :: bs) bs =
      (do return (← as.mapM k).reverse ++ bs : Run (List β)) := by
  induction as generalizing bs with
  | nil => rfl
  | cons a rest ih =>
    rw [List.foldlM_cons, List.mapM_cons]
    simp only [ih, bind_assoc, pure_bind, List.reverse_cons, List.append_assoc,
      List.singleton_append]

theorem blind_eachRow : Blind (Both (Keeping σ book)) (p.eachRow ctx rows) := by
  unfold eachRow
  split
  · exact .runMapM fun row _ => p.blind_ofRow ctx row
  · exact .andThen (.foldlM (fun groups row _ => blind_addRow groups row) []) fun groups =>
      .runMapM fun group _ => blind_ofGroup group

/-- Taking in the rows of a source is taking in the list that it gives. -/
theorem comes_gatherRows (hsource : Lists (Keeping σ book) source rows)
    (h : Comes (Keeping σ book) (p.eachRow ctx rows) projected) :
    Comes (Keeping σ book) (p.gatherRows ctx source) projected := by
  intro s hs
  obtain ⟨t, hrun, ht⟩ := h s hs
  unfold eachRow at hrun
  rw [gatherRows_eq]
  split at hrun
  · have hfold : Comes (Keeping σ book)
        (rows.foldlM (fun rows row => do return (← p.ofRow ctx row) :: rows) [])
        projected.reverse := by
      rw [foldlM_cons_eq]
      refine .bind (.of_run (.runMapM fun row _ => p.blind_ofRow ctx row) hs hrun) ?_
      rw [List.append_nil]
      exact .pure _
    obtain ⟨s', hs', hI⟩ := (hsource s hs).foldRun
      (fun rows row => .andThen (p.blind_ofRow ctx row) fun r => .ok _) hfold
    rw [if_pos ‹_›, Run.bind_apply, hs']
    exact ⟨s', congrArg (fun rows => (Except.ok rows, s')) (List.reverse_reverse _), hI⟩
  · obtain ⟨groups, hgroups, hrest⟩ := Comes.of_bind
      (.foldlM (fun groups row _ => p.blind_addRow groups row) [])
      (fun groups => .runMapM fun group _ => blind_ofGroup group) hs hrun
    obtain ⟨s', hs', hI⟩ := (hsource s hs).foldRun
      (fun groups row => blind_addRow groups row) hgroups
    rw [if_neg ‹_›, Run.bind_apply, hs']
    exact hrest s' hI

/-- A projection behind a source gives what it makes of the source's list. -/
theorem lists_flow {cut : Cut} (hsource : Lists (Keeping σ book) source rows)
    (h : Comes (Keeping σ book) (p.eachRow ctx rows) projected) :
    Lists (Keeping σ book) (p.flow ctx cut source) (p.arrange cut projected) := by
  unfold flow
  split
  · exact Flow.lists_ofRun (.bind (comes_gatherRows hsource h) (.pure _))
  · next hbarrier =>
    unfold isBarrier at hbarrier
    simp only [Bool.or_eq_true, not_or, Bool.not_eq_true, Bool.not_eq_false'] at hbarrier
    obtain ⟨haggregates, horder⟩ := hbarrier
    obtain ⟨t, hrun, -⟩ := h _ (Keeping.of_store σ book)
    unfold eachRow at hrun
    rw [if_pos haggregates] at hrun
    have hone : ∀ row r, Comes (Keeping σ book) (p.ofRow ctx row) r → Lists (Keeping σ book)
        (Flow.ofOption do return some (← p.ofRow ctx row)) [r] := fun row r hr =>
      Flow.lists_ofOption (o := some r) (hr.bind (.pure (some r)))
    have heach := (Comes.of_mapM (fun row _ => p.blind_ofRow ctx row)
      (Keeping.of_store σ book) hrun).imp hone
    rw [← List.forall₂_map_right_iff (f := fun r => [r])] at heach
    unfold lazily arrange
    dsimp only
    rw [if_pos horder, distinctRows_eq]
    have hrows : Lists (Keeping σ book) (fun s =>
        let rows := (source s).flatMap fun row => Flow.ofOption do return some (← p.ofRow ctx row)
        let rows := if p.distinct then rows.distinct (·.values) [] else rows
        (rows.drop cut.skip).map (·.row))
        (((if p.distinct then Flow.firsts (·.values) [] projected else projected).drop
          cut.skip).map (·.row)) := by
      intro s hs
      have hgives := (hsource s hs).flatMap heach
      rw [← List.flatMap_def, List.flatMap_singleton'] at hgives
      split
      · exact ((hgives.distinct []).drop cut.skip).map
      · exact (hgives.drop cut.skip).map
    cases cut.limit with
    | none => exact hrows
    | some n =>
      dsimp only
      rw [List.map_take]
      exact hrows.take Keeping.unmetered n

end Projection

/-! ## Stages -/

namespace Stage

variable {stage : Stage} {source : Source Row} {rows out : List Row} {s t : RunState}

/-- What is made of each row of a source is what is made of each row of its list. -/
theorem lists_each {f : Row → Source Row} {k : Row → Run (List Row)}
    (hk : ∀ row ∈ rows, Blind (Both (Keeping σ book)) (k row))
    (hf : ∀ row ∈ rows, ∀ part, Comes (Keeping σ book) (k row) part →
      Lists (Keeping σ book) (f row) part)
    (hsource : Lists (Keeping σ book) source rows) (hs : Keeping σ book s)
    (h : (do return (← rows.mapM k).flatten : Run (List Row)) s = (.ok out, t)) :
    Lists (Keeping σ book) (fun s => (source s).flatMap f) out := by
  obtain ⟨parts, hparts, hout⟩ := Comes.of_bind (.runMapM hk) (fun _ => .ok _) hs h
  obtain ⟨s', hmap, -⟩ := hparts s hs
  obtain ⟨_, hpure, -⟩ := hout s hs
  cases hpure
  have heach := (forall₂_with_mem (Comes.of_mapM hk hs hmap)).imp fun row part hpart =>
    hf row hpart.1 part hpart.2
  exact fun u hu => (hsource u hu).flatMap heach

/-- A stage that only reads leaves the invariant. -/
theorem blind_eagerly (hread : stage.isWrite = false) :
    Blind (Both (Keeping σ book)) (stage.eagerly ctx rows) := by
  cases stage with
  | matching g condition =>
    exact .andThen (.runMapM fun row _ => blind_matchRows) fun _ => .ok _
  | filter e =>
    exact .andThen (.runMapM fun row _ => .andThen (ctx.blind_holds e row) fun _ => .ok _)
      fun _ => .ok _
  | unwind e name =>
    exact .andThen (.runMapM fun row _ => ctx.blind_unwind e name row) fun _ => .ok _
  | project p =>
    exact .andThen (ctx.blind_cut p) fun _ => .andThen p.blind_eachRow fun _ => .ok _
  | _ => cases hread

/-- Put behind a source, a stage that only reads gives what it makes of the source's list. -/
theorem lists_attach (hread : stage.isWrite = false) (hbook : stage.Booked ctx σ book rows)
    (hsource : Lists (Keeping σ book) source rows) (hs : Keeping σ book s)
    (h : stage.eagerly ctx rows s = (.ok out, t)) :
    ∃ source', attach ctx source stage s = (.ok source', s) ∧
      Lists (Keeping σ book) source' out := by
  have hother : (∀ p, stage ≠ .project p) → Lists (Keeping σ book) (stage.flow ctx source) out →
      ∃ source', attach ctx source stage s = (.ok source', s) ∧
        Lists (Keeping σ book) source' out := fun hstage hflow =>
    ⟨_, attach_other ctx source hstage s, fun u hu =>
      (hflow u hu).counted Keeping.unmetered _⟩
  cases stage with
  | matching g condition =>
    refine hother (fun _ => nofun) (lists_each (fun row _ => blind_matchRows)
      (fun row hrow part hpart => lists_matchRow (fun resolved hresolved => ?_) hpart) hsource hs h)
    exact fun key number hnumber => hbook key number ⟨row, hrow, resolved, hresolved, hnumber⟩
  | filter e =>
    refine hother (fun _ => nofun) (lists_each
      (fun row _ => .andThen (ctx.blind_holds e row) fun _ => .ok _)
      (fun row _ part hpart => ?_) hsource hs h)
    obtain ⟨u, hrun, -⟩ := hpart s hs
    obtain ⟨b, hb, hkept⟩ := Comes.of_bind (ctx.blind_holds e row) (fun _ => .ok _) hs hrun
    obtain ⟨_, hpure, -⟩ := hkept s hs
    cases hpure
    have hkeep : Comes (Keeping σ book) (do return if ← ctx.holds e row then some row else none)
        (if b then some row else none) := hb.bind (.pure _)
    have hlists := Flow.lists_ofOption hkeep
    cases b <;> exact hlists
  | unwind e name =>
    exact hother (fun _ => nofun) (lists_each (fun row _ => ctx.blind_unwind e name row)
      (fun row _ part => Flow.lists_ofRun) hsource hs h)
  | project p =>
    obtain ⟨cut, hcut, hrest⟩ := Comes.of_bind (ctx.blind_cut p)
      (fun _ => .andThen p.blind_eachRow fun _ => .ok _) hs h
    obtain ⟨u, hrun, -⟩ := hrest s hs
    obtain ⟨projected, hprojected, hout⟩ := Comes.of_bind p.blind_eachRow (fun _ => .ok _) hs hrun
    obtain ⟨_, hpure, -⟩ := hout s hs
    cases hpure
    obtain ⟨_, hcut, -⟩ := hcut s hs
    rw [attach_project, hcut]
    exact ⟨_, rfl, fun u hu => (p.lists_flow hsource hprojected u hu).counted Keeping.unmetered _⟩
  | _ => cases hread

end Stage

end PropertyGraph
