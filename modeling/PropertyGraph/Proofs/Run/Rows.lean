import PropertyGraph.Proofs.Eval.Conjunction
import PropertyGraph.Proofs.Pattern.Bindings
import PropertyGraph.Proofs.Run.Outcome

/-!
# Rows of matches

What a `MATCH` makes of a row, apart from the state that it is made in.  The properties of a pattern
get the values that they have in the row.  Then every match that counts gives a row if the condition
is true in that row, and an optional pattern gives a row of nulls where no match does.

    Search.outcome        what a match comes to
    Search.counts         the matches that come to a row
    matchRow_ensures      what all matches come to
-/

namespace PropertyGraph

/-! ## Values in the state of a run -/

theorem Run.bind_apply {α β : Type} (c : Run α) (k : α → Run β) (s : RunState) :
    (c >>= k) s = match c s with
      | (.ok a, s) => k a s
      | (.error e, s) => (.error e, s) := by
  show ExceptT.bind c k s = _
  unfold ExceptT.bind ExceptT.mk
  simp only [bind, StateT.bind]
  cases c s with
  | mk r s' => cases r <;> rfl

/-- A computation of two steps succeeds only if both do. -/
theorem Run.ok_of_bind {α β : Type} {c : Run α} {k : α → Run β} {b : β} {s t : RunState}
    (h : (c >>= k) s = (.ok b, t)) : ∃ a u, c s = (.ok a, u) ∧ k a u = (.ok b, t) := by
  rw [Run.bind_apply] at h
  rcases hc : c s with ⟨_ | a, u⟩
  · rw [hc] at h
    cases h
  · rw [hc] at h
    exact ⟨a, u, rfl, h⟩

theorem Run.bind_of_ok {α β : Type} {c : Run α} {k : α → Run β} {a : α} {s t : RunState}
    (h : c s = (.ok a, t)) : (c >>= k) s = k a t := by
  rw [Run.bind_apply, h]

theorem Run.mapM_of_ok {α β : Type} {c : α → Run β} {f : α → β} {as : List α} {s : RunState}
    (h : ∀ a ∈ as, c a s = (.ok (f a), s)) : as.mapM c s = (.ok (as.map f), s) := by
  induction as with
  | nil => rfl
  | cons a rest ih =>
    obtain ⟨ha, hrest⟩ := List.forall_mem_cons.1 h
    rw [List.mapM_cons, Run.bind_of_ok ha, Run.bind_of_ok (ih hrest)]
    rfl

section Still

variable {α β γ : Type} {s : RunState}

/-- Computations that leave a state as it is do so one after the other. -/
theorem Run.bind_still {c : Run α} {k : α → Run β} {r : Except Error α}
    {h : α → Except Error β} (hc : c s = (r, s)) (hk : ∀ a, k a s = (h a, s)) :
    (c >>= k) s = (r >>= h, s) := by
  rw [Run.bind_apply, hc]
  cases r with
  | error e => rfl
  | ok a => exact hk a

theorem Run.mapM_still {f : α → Run β} {h : α → Except Error β} (hf : ∀ a, f a s = (h a, s))
    (as : List α) : as.mapM f s = (as.mapM h, s) := by
  induction as with
  | nil => rfl
  | cons a rest ih =>
    rw [List.mapM_cons, List.mapM_cons]
    exact Run.bind_still (hf a) fun b => Run.bind_still ih fun bs => rfl

theorem Constraints.mapProperties_still {f : α → Run β} {h : α → Except Error β}
    (hf : ∀ a, f a s = (h a, s)) (ps : List (String × α)) :
    mapProperties f ps s = (mapProperties h ps, s) := by
  induction ps with
  | nil => rfl
  | cons p rest ih =>
    obtain ⟨key, a⟩ := p
    exact Run.bind_still (hf a) fun b => Run.bind_still ih fun qs => rfl

theorem Constraints.mapM_still {f : α → Run β} {h : α → Except Error β}
    (hf : ∀ a, f a s = (h a, s)) (g : Constraints α) : g.mapM f s = (g.mapM h, s) := by
  have hnodes := Run.mapM_still (f := fun n : NodeConstraint α => do
      return { n with properties := ← mapProperties f n.properties }) (fun n =>
    Run.bind_still (mapProperties_still hf n.properties) fun ps => rfl) g.nodes
  have hrels := Run.mapM_still (f := fun r : RelationshipConstraint α => do
      return { r with properties := ← mapProperties f r.properties }) (fun r =>
    Run.bind_still (mapProperties_still hf r.properties) fun ps => rfl) g.relationships
  exact Run.bind_still hnodes fun nodes => Run.bind_still hrels fun relationships => rfl

end Still

/-! ## One match -/

namespace Search

variable {q : Search} {σ : Store} {row : Row} {condition : Option Expr} {m : Match}

/-- The row that a match makes, if it counts and the condition is true in it. -/
def outcome (q : Search) (σ : Store) (condition : Option Expr) (row : Row) (m : Match) :
    Except Error (Option Row) :=
  if q.pattern.optional && m.hasNull then .ok none
  else (Expr.conditionTruth (q.ctx.env σ) (q.rowOf row m) condition).map fun t =>
    if t = some true then some (q.rowOf row m) else none

/-- Does the match count, and is the condition true in its row? -/
def counts (q : Search) (σ : Store) (condition : Option Expr) (row : Row) (m : Match) : Bool :=
  !m.hasNull &&
    (Expr.conditionTruth (q.ctx.env σ) (q.rowOf row m) condition).toOption == some (some true)

theorem matchedRow_eq (ctx : RunContext) (pattern : Constraints Value) (s : RunState) :
    ctx.matchedRow pattern condition row m s =
      ((Search.of ctx pattern).outcome s.store condition row m, s) := by
  unfold RunContext.matchedRow outcome
  show (if pattern.optional && m.hasNull then _ else _ : Run (Option Row)) s =
    (if pattern.optional && m.hasNull then _ else _, s)
  split
  · rfl
  · cases condition with
    | none => rfl
    | some e =>
      refine (Run.bind_apply _ _ s).trans ?_
      unfold RunContext.holds
      rw [Expr.holds_eq]
      show _ = ((Expr.truth (ctx.env s.store) (row.bound (m.bindings pattern)) e).map _, s)
      cases Expr.truth (ctx.env s.store) (row.bound (m.bindings pattern)) e with
      | error err => rfl
      | ok t => rcases t with _ | _ | _ <;> rfl

/-- A match comes to a row if it counts. -/
theorem eq_of_outcome (hnull : q.pattern.optional = false → m.hasNull = false)
    {o : Option Row} (h : q.outcome σ condition row m = .ok o) :
    o = if q.counts σ condition row m then some (q.rowOf row m) else none := by
  unfold outcome at h
  unfold counts
  split at h
  · next hcond =>
    rw [Bool.and_eq_true] at hcond
    cases h
    rw [hcond.2]
    rfl
  · next hcond =>
    have hn : m.hasNull = false := by
      cases hopt : q.pattern.optional with
      | false => exact hnull hopt
      | true => simpa [hopt] using hcond
    rw [hn]
    cases htruth : Expr.conditionTruth (q.ctx.env σ) (q.rowOf row m) condition with
    | error e => rw [htruth] at h; cases h
    | ok t =>
      rw [htruth] at h
      cases h
      rcases t with _ | _ | _ <;> rfl

/-! ## All matches -/

/-- The rows are those of the matches that count. -/
theorem rows_of_outcomes {ms : List Match} {os : List (Option Row)}
    (hnull : q.pattern.optional = false → ∀ m ∈ ms, m.hasNull = false)
    (h : ms.mapM (q.outcome σ condition row) = .ok os) :
    os.filterMap id = (ms.filter (q.counts σ condition row)).map (q.rowOf row) := by
  induction ms generalizing os with
  | nil => cases h; rfl
  | cons m rest ih =>
    rw [List.mapM_cons] at h
    obtain ⟨o, ho, h⟩ := ok_of_bind h
    obtain ⟨more, hmore, h⟩ := ok_of_bind h
    cases h
    have hrest := ih (fun hopt m' hm' => hnull hopt m' (List.mem_cons_of_mem _ hm')) hmore
    have ho := eq_of_outcome (fun hopt => hnull hopt m List.mem_cons_self) ho
    rw [List.filterMap_cons, List.filter_cons, ho]
    split
    · next hnone =>
      split at hnone
      · cases hnone
      · next hcount =>
        rw [if_neg hcount]
        exact hrest
    · next out hsome =>
      split at hsome
      · next hcount =>
        cases hsome
        rw [if_pos hcount, List.map_cons, hrest]
      · cases hsome

/-- A row of nulls where an optional pattern gives no rows. -/
def padded (q : Search) (row : Row) (rows : List Row) : List Row :=
  if q.pattern.optional && rows.isEmpty then [row.nulls q.pattern.names] else rows

end Search

theorem Constraints.names_of_shape {P Q : Type} {g : Constraints P} {g' : Constraints Q}
    (h : g'.shape = g.shape) : g'.names = g.names := by
  have hnames : ∀ {R : Type} (k : Constraints R),
      k.names = k.shape.elementNames ++ k.shape.paths.map (·.name) := by
    intro R k
    rw [elementNames_shape]
    rfl
  rw [hnames, hnames, h]

/-- A pattern makes rows of what its search finds. -/
theorem matchRow_ensures {ctx : RunContext} {pattern : Constraints Expr}
    {resolved : Constraints Value} (condition : Option Expr) {row : Row} {s : RunState}
    (hvalues : pattern.mapM (fun e => e.value (ctx.env s.store) row) = .ok resolved)
    {P : List Match → Prop} (hflow : ((Search.of ctx resolved).flow row s).Yields s.store P) :
    (ctx.matchRow pattern condition row s).Ensures s.store fun o => ∃ ms, P ms ∧
      o = (ms.mapM ((Search.of ctx resolved).outcome s.store condition row)).map fun os =>
        (Search.of ctx resolved).padded row (os.filterMap id) := by
  have hshape := Constraints.shape_of_mapM hvalues
  have hrows := hflow.filterMap
    (g := fun m => Flow.ofOption (ctx.matchedRow resolved condition row m))
    (r := (Search.of ctx resolved).outcome s.store condition row) fun m s' hs' => by
      unfold Flow.ofOption
      rw [Search.matchedRow_eq, hs']
      cases (Search.of ctx resolved).outcome s.store condition row m with
      | error e => exact ⟨hs', rfl⟩
      | ok o =>
        cases o with
        | none => exact ⟨hs', rfl⟩
        | some out => exact ⟨hs', fun s'' hs'' => ⟨hs'', rfl⟩⟩
  unfold RunContext.matchRow
  rw [Constraints.mapM_still (f := fun e => ctx.value e row) (fun _ => rfl) pattern, hvalues]
  simp only
  unfold Search.padded
  rw [show (Search.of ctx resolved).pattern = resolved from rfl,
    show resolved.optional = pattern.optional from congrArg (·.optional) hshape,
    Constraints.names_of_shape hshape]
  cases pattern.optional with
  | false =>
    rw [if_neg Bool.false_ne_true]
    exact hrows
  | true =>
    rw [if_pos rfl]
    refine (hrows.orElse _).mono fun o ho => ?_
    obtain ⟨o', ⟨ms, hms, rfl⟩, rfl⟩ := ho
    refine ⟨ms, hms, ?_⟩
    cases ms.mapM ((Search.of ctx resolved).outcome s.store condition row) <;> rfl

/-- Asked for everything at once, it makes the rows of the matches that count. -/
theorem toList_matchRow {ctx : RunContext} {pattern : Constraints Expr}
    {resolved : Constraints Value} (condition : Option Expr) {row : Row} {s : RunState}
    (hvalues : pattern.mapM (fun e => e.value (ctx.env s.store) row) = .ok resolved)
    {P : List Match → Prop} (hflow : ((Search.of ctx resolved).flow row s).Yields s.store P) :
    ∃ ms, P ms ∧ (Flow.toList (ctx.matchRow pattern condition row) s).1 =
      (ms.mapM ((Search.of ctx resolved).outcome s.store condition row)).map fun os =>
        (Search.of ctx resolved).padded row (os.filterMap id) := by
  obtain ⟨o, s', hrun, -, ms, hms, rfl⟩ :=
    Flow.toList_of_ensures (matchRow_ensures condition hvalues hflow)
  exact ⟨ms, hms, congrArg Prod.fst hrun⟩

end PropertyGraph
