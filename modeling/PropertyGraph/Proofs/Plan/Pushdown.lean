import PropertyGraph.Proofs.Pattern.Exact
import PropertyGraph.Proofs.Plan.Demand
import PropertyGraph.Proofs.Run.Rows

/-!
# Conditions moved into patterns

The plan of a `MATCH` moves parts of its condition into the pattern.  What is left of the condition
is then asked of fewer matches.  No row is lost by that, and none is won:

    Pushed            what is left decides as all parts did
    absorbAll_spec    so it is with what a pattern takes up
    planned_rows      the plan gives the rows that the whole condition lets through
    row_lost          but not where a walk has to end at a vertex that the reader does not see
-/

namespace PropertyGraph

/-! ## Parts of a condition -/

namespace Search

variable {q q₁ q' : Search} {σ : Store} {row : Row} {c : Expr} {cs left : List Expr}

/-- The second search and the conditions that are left demand together what the first search and
all the conditions do. -/
structure Pushed (σ : Store) (row : Row) (q q' : Search) (cs left : List Expr) : Prop where
  narrower : Narrower σ row q q'
  residual : ∀ m acc t, q.Solution σ row m →
    Expr.truths (q.ctx.env σ) (q.rowOf row m) acc cs = .ok t → q'.Solution σ row m →
      Expr.truths (q.ctx.env σ) (q.rowOf row m) acc left = .ok t
  needed : ∀ m acc, q.Solution σ row m →
    Expr.truths (q.ctx.env σ) (q.rowOf row m) acc cs = .ok (some true) → q'.Solution σ row m

theorem Narrower.rowOf (h : Narrower σ row q q') (m : Match) : q'.rowOf row m = q.rowOf row m := by
  unfold Search.rowOf
  rw [Match.bindings_shape m h.shape]

theorem pushed_nil (q : Search) : Pushed σ row q q [] [] :=
  ⟨Narrower.refl q, fun _ _ _ _ h _ => h, fun _ _ hs _ => hs⟩

/-- A part that the pattern takes up is true in all solutions that are left. -/
theorem Pushed.absorb (hc : Absorbed σ row q q₁ c) (h : Pushed σ row q₁ q' cs left) :
    Pushed σ row q q' (c :: cs) left := by
  have hctx := hc.narrower.ctx
  have hrow := hc.narrower.rowOf
  refine ⟨hc.narrower.trans h.narrower, fun m acc t hs ht hs' => ?_, fun m acc hs ht => ?_⟩
  · have hs₁ := h.narrower.solution m hs'
    by_cases hacc : acc = some false
    · rw [hacc, Expr.truths_false] at ht ⊢
      exact ht
    · rw [Expr.truths_cons hacc] at ht
      obtain ⟨tc, htc, ht⟩ := ok_of_bind ht
      rw [(hc.decided m tc hs htc).2 hs₁, Expr.and_true] at ht
      have hresidual := h.residual m acc t hs₁
      rw [hctx, hrow] at hresidual
      exact hresidual ht hs'
  · have hacc := Expr.truths_eq_true ht
    rw [hacc, Expr.truths_cons (by decide)] at ht
    obtain ⟨tc, htc, ht⟩ := ok_of_bind ht
    obtain ⟨-, htrue⟩ := Expr.and_eq_true.1 (Expr.truths_eq_true ht)
    have hs₁ := (hc.decided m tc hs htc).1 htrue
    have hneeded := h.needed m (Truth.and (some true) tc) hs₁
    rw [hctx, hrow] at hneeded
    exact hneeded ht

/-- A part that the pattern does not take up is left. -/
theorem Pushed.keep (c : Expr) (h : Pushed σ row q q' cs left) :
    Pushed σ row q q' (c :: cs) (c :: left) := by
  refine ⟨h.narrower, fun m acc t hs ht hs' => ?_, fun m acc hs ht => ?_⟩
  · by_cases hacc : acc = some false
    · rw [hacc, Expr.truths_false] at ht ⊢
      exact ht
    · rw [Expr.truths_cons hacc] at ht ⊢
      obtain ⟨tc, htc, ht⟩ := ok_of_bind ht
      rw [htc]
      exact h.residual m _ t hs ht hs'
  · have hacc := Expr.truths_eq_true ht
    rw [hacc, Expr.truths_cons (by decide)] at ht
    obtain ⟨tc, -, ht⟩ := ok_of_bind ht
    exact h.needed m _ hs ht

theorem absorbAll_spec {g : Constraints Expr} (hw : q.pattern.WellFormed)
    (hvalues : g.mapM (fun e => e.value (q.ctx.env σ) row) = .ok q.pattern)
    (hbound : ∀ c ∈ cs, ∀ x key name, c.comparison? = some (x, key, .parameter name) →
      (Entries.get? name q.ctx.params).isSome) : ∃ pattern,
      (g.absorbAll cs).1.mapM (fun e => e.value (q.ctx.env σ) row) = .ok pattern ∧
        Pushed σ row q { q with pattern := pattern } cs (g.absorbAll cs).2 := by
  induction cs generalizing g q with
  | nil => exact ⟨q.pattern, hvalues, pushed_nil q⟩
  | cons c rest ih =>
    have hrest := fun c hc => hbound c (List.mem_cons_of_mem _ hc)
    unfold Constraints.absorbAll
    split
    · next g₁ hg₁ =>
      obtain ⟨pattern₁, hvalues₁, habsorbed⟩ :=
        absorb?_spec hw hvalues (hbound c List.mem_cons_self) hg₁
      have hw₁ := hw.of_shape habsorbed.narrower.shape
      obtain ⟨pattern, hpattern, hpushed⟩ :=
        ih (q := { q with pattern := pattern₁ }) hw₁ hvalues₁ hrest
      exact ⟨pattern, hpattern, hpushed.absorb habsorbed⟩
    · obtain ⟨pattern, hpattern, hpushed⟩ := ih hw hvalues hrest
      exact ⟨pattern, hpattern, hpushed.keep c⟩

/-! ## All matches -/

section Matches

variable {condition condition' : Option Expr} {found found' : List Match}

/-- The two conditions come to the same on the solutions of both searches, and the first one is true
on no other solution. -/
structure SameRows (σ : Store) (row : Row) (q q' : Search) (condition condition' : Option Expr) :
    Prop where
  narrower : Narrower σ row q q'
  residual : ∀ m t, q.Solution σ row m → q'.Solution σ row m →
    Expr.conditionTruth (q.ctx.env σ) (q.rowOf row m) condition = .ok t →
      Expr.conditionTruth (q'.ctx.env σ) (q'.rowOf row m) condition' = .ok t
  needed : ∀ m, q.Solution σ row m →
    Expr.conditionTruth (q.ctx.env σ) (q.rowOf row m) condition = .ok (some true) →
      q'.Solution σ row m

theorem Pushed.sameRows {e : Expr} (h : Pushed σ row q q' e.conjuncts left) :
    SameRows σ row q q' (some e) (Expr.conjunction left) := by
  have htruths : ∀ out, Expr.conditionTruth (q.ctx.env σ) out (some e) =
      Expr.truths (q.ctx.env σ) out (some true) e.conjuncts := by
    intro out
    rw [Expr.truths_conjuncts e (by decide)]
    show Expr.truth _ _ e = _
    cases Expr.truth (q.ctx.env σ) out e with
    | error err => rfl
    | ok t => rcases t with _ | _ | _ <;> rfl
  refine ⟨h.narrower, fun m t hs hs' ht => ?_, fun m hs ht => ?_⟩
  · rw [htruths] at ht
    rw [h.narrower.ctx, h.narrower.rowOf, Expr.truths_of_condition]
    exact h.residual m _ t hs ht hs'
  · rw [htruths] at ht
    exact h.needed m _ hs ht

theorem counts_iff {m : Match} : q.counts σ condition row m = true ↔ m.hasNull = false ∧
    Expr.conditionTruth (q.ctx.env σ) (q.rowOf row m) condition = .ok (some true) := by
  unfold counts
  rw [Bool.and_eq_true, Bool.not_eq_true', beq_iff_eq]
  refine and_congr_right fun _ => ?_
  cases Expr.conditionTruth (q.ctx.env σ) (q.rowOf row m) condition with
  | error e => constructor <;> nofun
  | ok t =>
    constructor
    · intro h
      rw [Option.some_inj.1 h]
    · intro h
      cases h
      rfl

theorem truth_of_outcomes {ms : List Match} {os : List (Option Row)}
    (h : ms.mapM (q.outcome σ condition row) = .ok os) {m : Match} (hm : m ∈ ms)
    (hn : m.hasNull = false) :
    ∃ t, Expr.conditionTruth (q.ctx.env σ) (q.rowOf row m) condition = .ok t := by
  obtain ⟨i, hi, rfl⟩ := List.getElem_of_mem hm
  have hall := Constraints.forall₂_of_mapM h
  have ho := hall.get hi (hall.length_eq ▸ hi)
  rw [List.get_eq_getElem] at ho
  unfold outcome at ho
  rw [hn, Bool.and_false, if_neg Bool.false_ne_true] at ho
  cases ht : Expr.conditionTruth (q.ctx.env σ) (q.rowOf row ms[i]) condition with
  | error e => rw [ht] at ho; cases ho
  | ok t => exact ⟨t, rfl⟩

/-- What the second search finds in full, the first one finds. -/
theorem SameRows.found_of_found (h : SameRows σ row q q' condition condition')
    (hagree : q'.ValuesAgree σ row) (hf : q.Found σ row (.blank q.pattern) found)
    (hf' : q'.Found σ row (.blank q'.pattern) found') {m : Match} (hm : m ∈ found')
    (hn : m.hasNull = false) : q.Solution σ row m ∧ q'.Solution σ row m ∧ m ∈ found := by
  obtain ⟨hs', hp⟩ := hf'.sound m hm hn
  have hs := h.narrower.solution m hs'
  exact ⟨hs, hs', hf.complete (h.narrower.agree hagree).agreement (h.narrower.passable.1 hp) m hs
    (blank_extends q m)⟩

/-- The condition that is left can be evaluated. -/
theorem SameRows.outcomes (h : SameRows σ row q q' condition condition')
    (hagree : q'.ValuesAgree σ row) (hf : q.Found σ row (.blank q.pattern) found)
    (hf' : q'.Found σ row (.blank q'.pattern) found') {os : List (Option Row)}
    (hos : found.mapM (q.outcome σ condition row) = .ok os) :
    ∃ os', found'.mapM (q'.outcome σ condition' row) = .ok os' := by
  have hone : ∀ m ∈ found', ∃ o, q'.outcome σ condition' row m = .ok o := by
    intro m hm
    unfold outcome
    split
    · exact ⟨none, rfl⟩
    · next hcond =>
      have hn : m.hasNull = false := by
        cases hopt : q'.pattern.optional with
        | false => exact hf'.matched hopt m hm
        | true => simpa [hopt] using hcond
      obtain ⟨hs, hs', hmem⟩ := h.found_of_found hagree hf hf' hm hn
      obtain ⟨t, ht⟩ := truth_of_outcomes hos hmem hn
      rw [h.residual m t hs hs' ht]
      exact ⟨_, rfl⟩
  clear hf'
  induction found' with
  | nil => exact ⟨[], rfl⟩
  | cons m rest ih =>
    obtain ⟨o, ho⟩ := hone m List.mem_cons_self
    obtain ⟨os', hos'⟩ := ih fun m' hm' => hone m' (List.mem_cons_of_mem _ hm')
    refine ⟨o :: os', ?_⟩
    rw [List.mapM_cons, ho, hos']
    rfl

/-- The same matches count. -/
theorem SameRows.perm (h : SameRows σ row q q' condition condition')
    (hagree : q'.ValuesAgree σ row) (hf : q.Found σ row (.blank q.pattern) found)
    (hf' : q'.Found σ row (.blank q'.pattern) found') {os : List (Option Row)}
    (hos : found.mapM (q.outcome σ condition row) = .ok os) :
    (found.filter (q.counts σ condition row)).Perm
      (found'.filter (q'.counts σ condition' row)) := by
  have hnodup : ∀ {p : Search} {c : Option Expr} {ms : List Match},
      (ms.filter (!·.hasNull)).Nodup → (ms.filter (p.counts σ c row)).Nodup := by
    intro p c ms hms
    have hfilter : ms.filter (p.counts σ c row) =
        (ms.filter (!·.hasNull)).filter (p.counts σ c row) := by
      rw [List.filter_filter]
      refine List.filter_congr fun m _ => ?_
      unfold counts
      rw [Bool.and_right_comm, Bool.and_self]
    rw [hfilter]
    exact hms.filter _
  rw [List.perm_ext_iff_of_nodup (hnodup hf.nodup) (hnodup hf'.nodup)]
  intro m
  rw [List.mem_filter, List.mem_filter, counts_iff, counts_iff]
  constructor
  · rintro ⟨hm, hn, ht⟩
    obtain ⟨hs, hp⟩ := hf.sound m hm hn
    have hs' := h.needed m hs ht
    exact ⟨hf'.complete hagree.agreement (h.narrower.passable.2 hp) m hs' (blank_extends q' m), hn,
      h.residual m _ hs hs' ht⟩
  · rintro ⟨hm, hn, ht'⟩
    obtain ⟨hs, hs', hmem⟩ := h.found_of_found hagree hf hf' hm hn
    obtain ⟨t, ht⟩ := truth_of_outcomes hos hmem hn
    rw [h.residual m t hs hs' ht] at ht'
    cases ht'
    exact ⟨hmem, hn, ht⟩

/-- The rows are the same, that of nulls included. -/
theorem SameRows.padded (h : SameRows σ row q q' condition condition')
    (hagree : q'.ValuesAgree σ row) (hf : q.Found σ row (.blank q.pattern) found)
    (hf' : q'.Found σ row (.blank q'.pattern) found') {os os' : List (Option Row)}
    (hos : found.mapM (q.outcome σ condition row) = .ok os)
    (hos' : found'.mapM (q'.outcome σ condition' row) = .ok os') :
    (q.padded row (os.filterMap id)).Perm (q'.padded row (os'.filterMap id)) := by
  have hrows : (os.filterMap id).Perm (os'.filterMap id) := by
    rw [rows_of_outcomes hf.matched hos, rows_of_outcomes hf'.matched hos',
      funext h.narrower.rowOf]
    exact (h.perm hagree hf hf' hos).map _
  unfold Search.padded
  rw [Constraints.names_of_shape h.narrower.shape,
    show q'.pattern.optional = q.pattern.optional from congrArg (·.optional) h.narrower.shape,
    hrows.isEmpty_eq]
  split
  · exact List.Perm.refl _
  · exact hrows

end Matches

end Search

/-! ## The plan of a match -/

namespace Plan

/-- A row whose pattern has no values, or which the search refuses, makes the run fail. -/
theorem resolved_of_rows {ctx : RunContext} {pattern : Constraints Expr} {condition : Option Expr}
    {row : Row} {s : RunState} {rows : List Row}
    (hrun : (Flow.toList (ctx.matchRow pattern condition row) s).1 = .ok rows) :
    ∃ resolved ms, pattern.mapM (fun e => e.value (ctx.env s.store) row) = .ok resolved ∧
      (Search.of ctx resolved).start row = .ok ms := by
  unfold Flow.toList RunContext.matchRow at hrun
  rw [Constraints.mapM_still (f := fun e => ctx.value e row) (fun _ => rfl) pattern] at hrun
  cases hvalues : pattern.mapM (fun e => e.value (ctx.env s.store) row) with
  | error err =>
    rw [hvalues] at hrun
    cases hrun
  | ok resolved =>
    rw [hvalues] at hrun
    refine ⟨resolved, ?_⟩
    cases hstart : (Search.of ctx resolved).start row with
    | ok ms => exact ⟨ms, rfl, rfl⟩
    | error err =>
      unfold Search.flow at hrun
      simp only [hstart, Flow.flatMap, Flow.orElse, ite_self] at hrun
      cases hrun

theorem planMatch_eq_ok {scope scope' : Scope} {optional : Bool} {parts : List PatternPart}
    {e : Expr} {pattern planned : Constraints Expr} {left : Option Expr}
    (hplan : planMatch scope optional parts (some e) = .ok (.matching planned left, scope'))
    (hparts : Constraints.ofParts parts optional = .ok pattern) :
    planned = (pattern.absorbAll e.conjuncts).1 ∧
      left = Expr.conjunction (pattern.absorbAll e.conjuncts).2 := by
  unfold planMatch at hplan
  obtain ⟨pattern', hpattern, hplan⟩ := ok_of_bind hplan
  rw [hparts] at hpattern
  cases hpattern
  obtain ⟨-, -, hplan⟩ := ok_of_bind hplan
  obtain ⟨-, -, hplan⟩ := ok_of_bind hplan
  cases hplan
  exact ⟨rfl, rfl⟩

/-- The plan of a `MATCH` with a condition gives the rows that the condition lets through, in some
order.  If the whole condition can be evaluated wherever it has to be, so can what is left of it. -/
theorem planned_rows {scope scope' : Scope} {optional : Bool} {parts : List PatternPart}
    {e : Expr} {pattern planned : Constraints Expr} {left : Option Expr} {ctx : RunContext}
    {row : Row} {s : RunState} {rows : List Row}
    (hplan : planMatch scope optional parts (some e) = .ok (.matching planned left, scope'))
    (hparts : Constraints.ofParts parts optional = .ok pattern)
    (hbound : e.ComparesBound ctx.params) (hσ : s.store.Consistent)
    (hends : ∀ resolved, pattern.mapM (fun e => e.value (ctx.env s.store) row) = .ok resolved →
      (Search.of ctx resolved).WalkEndsStored s.store row)
    (hagree : ∀ resolved, planned.mapM (fun e => e.value (ctx.env s.store) row) = .ok resolved →
      (Search.of ctx resolved).ValuesAgree s.store row)
    (hrun : (Flow.toList (ctx.matchRow pattern (some e) row) s).1 = .ok rows) :
    ∃ rows', (Flow.toList (ctx.matchRow planned left row) s).1 = .ok rows' ∧
      rows.Perm rows' := by
  obtain ⟨rfl, rfl⟩ := planMatch_eq_ok hplan hparts
  obtain ⟨resolved, ms, hvalues, hstart⟩ := resolved_of_rows hrun
  obtain ⟨hwf, -⟩ := Constraints.wellFormed_of_ofParts hparts
  have hw : resolved.WellFormed := hwf.of_shape (Constraints.shape_of_mapM hvalues)
  obtain ⟨resolved', hvalues', hpushed⟩ :=
    Search.absorbAll_spec (q := Search.of ctx resolved) hw hvalues hbound
  have hsame : Search.SameRows s.store row (.of ctx resolved) (.of ctx resolved') (some e) _ :=
    hpushed.sameRows
  have hw' : resolved'.WellFormed := hw.of_shape hsame.narrower.shape
  obtain ⟨ms', hstart'⟩ := hsame.narrower.start ⟨ms, hstart⟩
  have hends := hends resolved hvalues
  have hagree := hagree resolved' hvalues'
  obtain ⟨found, hfound, hrows⟩ := toList_matchRow (some e) hvalues
    (Search.yields_flow (q := .of ctx resolved) hσ hw hends hstart rfl)
  obtain ⟨found', hfound', hrows'⟩ :=
    toList_matchRow (Expr.conjunction (pattern.absorbAll e.conjuncts).2) hvalues'
      (Search.yields_flow (q := .of ctx resolved') hσ hw' (hsame.narrower.ends hends) hstart' rfl)
  rw [hrun] at hrows
  cases hos : found.mapM ((Search.of ctx resolved).outcome s.store (some e) row) with
  | error err =>
    rw [hos] at hrows
    cases hrows
  | ok os =>
    obtain ⟨os', hos'⟩ := hsame.outcomes hagree hfound hfound' hos
    rw [hos] at hrows
    cases hrows
    refine ⟨_, hrows'.trans (congrArg _ hos'), ?_⟩
    exact hsame.padded hagree hfound hfound' hos hos'

/-- A chain of three vertices with a number each. -/
def numbered : RunState :=
  { RunState.initial with
    store := [.addVertex "x" [] [("k", .int 1)] "", .addVertex "y" [] [("k", .int 1)] "",
      .addVertex "z" [] [("k", .int 2)] "", .addEdge "e" "R" "x" "y" [] "",
      .addEdge "f" "R" "y" "z" [] ""].foldl Store.after .empty }

/-- A context with a number for a parameter. -/
def numberContext : RunContext := { Search.plainContext with params := [("n", .int 1)] }

/-- A row that binds the first vertex of the chain. -/
def firstRow : Row := Row.empty.set "b" (.node ⟨"x", [], [("k", .int 1)], ""⟩)

/-- The pattern of `OPTIONAL MATCH (b)-[:R*1..2]->(a)`, with demands on the last node. -/
def walkPattern {P : Type} (properties : List (String × P)) : Constraints P :=
  ⟨true, [⟨0, some "b", [], [], true, [0]⟩, ⟨1, some "a", [], properties, true, [0]⟩],
    [⟨0, none, ["R"], [], .outgoing, some ⟨1, some 2⟩, true, 0, 1⟩], []⟩

/-- The number is less than 2. -/
def small : Expr := .binary .less (.property (.var "a") "k") (.literal (.int 2))

/-- The number is that of the parameter, and less than 2. -/
def numberIs : Expr :=
  .binary .and (.binary .equal (.property (.var "a") "k") (.parameter "n")) small

theorem planned_rows_numbered : ∃ rows rows', rows.length = 1 ∧
    (Flow.toList (numberContext.matchRow (walkPattern []) (some numberIs) firstRow) numbered).1 =
      .ok rows ∧
    (Flow.toList (numberContext.matchRow (walkPattern [("k", .parameter "n")]) (some small)
      firstRow) numbered).1 = .ok rows' ∧ rows.Perm rows' := by
  have hrows : (Flow.toList (numberContext.matchRow (walkPattern []) (some numberIs) firstRow)
      numbered).1.toOption.map List.length = some 1 := by
    decide +kernel
  obtain ⟨rows, hrun, hlength⟩ := ok_of_toOption_map hrows
  have hbound : numberIs.ComparesBound numberContext.params := by
    intro c hc x key name hcomparison
    change c ∈ [_, small] at hc
    rcases List.mem_cons.1 hc with rfl | hc
    · cases hcomparison
      rfl
    · rw [List.mem_singleton.1 hc] at hcomparison
      cases hcomparison
  have hends : ∀ resolved, (walkPattern []).mapM
      (fun e : Expr => e.value (numberContext.env numbered.store) firstRow) = .ok resolved →
        (Search.of numberContext resolved).WalkEndsStored numbered.store firstRow := by
    intro resolved hresolved r hr _ i hi n v hn hv
    have hvalue : resolved = walkPattern [] := by
      cases hresolved
      rfl
    subst hvalue
    rw [List.mem_singleton.1 hr] at hi
    rcases hi with rfl | rfl
    · cases hn
      cases hv
      rfl
    · cases hn
      cases hv
  have hagree : ∀ resolved, (walkPattern [("k", .parameter "n")]).mapM
      (fun e : Expr => e.value (numberContext.env numbered.store) firstRow) = .ok resolved →
        (Search.of numberContext resolved).ValuesAgree numbered.store firstRow := by
    intro resolved hresolved n hn _ id v _
    have hvalue : resolved = walkPattern [("k", .int 1)] := by
      cases hresolved
      rfl
    subst hvalue
    refine NodeConstraint.agrees_of_plain (fun p hp => ?_) _ v
    rcases List.mem_cons.1 hn with rfl | hn
    · cases hp
    · rw [List.mem_singleton.1 hn] at hp
      rw [List.mem_singleton.1 hp]
      rfl
  obtain ⟨rows', hrun', hperm⟩ := planned_rows
    (show planMatch ⟨["b"]⟩ true [⟨none, ⟨some "b", [], []⟩,
        [(⟨none, ["R"], .outgoing, [], some ⟨some 1, some 2⟩⟩, ⟨some "a", [], []⟩)]⟩]
        (some numberIs) =
      .ok (.matching (walkPattern [("k", .parameter "n")]) (some small), _) from rfl)
    (show Constraints.ofParts _ true = .ok (walkPattern []) from rfl)
    hbound (Store.consistent_empty.foldl_after _) hends hagree hrun
  exact ⟨rows, rows', hlength, hrun, hrun', hperm⟩

/-! ## A row that is lost -/

/-- A hidden vertex with edges to and from it, one of which has a number as `k` and others the text
of that number. -/
def veiled : RunState :=
  { RunState.initial with
    store := [.addVertex "a" [] [] "", .addVertex "b" [] [] "secret", .addVertex "c" [] [] "",
      .addEdge "e1" "S" "b" "c" [("k", .int 1)] "", .addEdge "e2" "S" "b" "a" [("k", .text "1")] "",
      .addEdge "e3" "S" "a" "c" [("k", .text "1")] "", .addEdge "e4" "R" "a" "b" [] ""].foldl
        Store.after .empty }

/-- A row that binds the hidden vertex. -/
def veiledRow : Row := Row.empty.set "b" (.node ⟨"b", [], [], "secret"⟩)

/-- The parts of `(b)-[r:S]->(c), (b)-[:S*1..1 {k: '1'}]->(a)-[:R*1..1]->(b)`. -/
def veiledParts : List PatternPart :=
  let walk := fun type properties =>
    (⟨none, [type], .outgoing, properties, some ⟨some 1, some 1⟩⟩ : RelationshipPattern)
  [⟨none, ⟨some "b", [], []⟩, [(⟨some "r", ["S"], .outgoing, [], none⟩, ⟨some "c", [], []⟩)]⟩,
    ⟨none, ⟨some "b", [], []⟩, [(walk "S" [("k", .literal (.text "1"))], ⟨some "a", [], []⟩),
      (walk "R" [], ⟨some "b", [], []⟩)]⟩]

/-- The edge has the number 1. -/
def isOne : Expr := .binary .equal (.property (.var "r") "k") (.literal (.int 1))

/-- With the condition in the pattern the number of edges that have the number 1 is kept for those
that have the text 1; so the first walk is gone along first, and the other one has to end at a
vertex that is bound and not seen. -/
theorem row_lost : ¬ ∀ (scope scope' : Scope) (optional : Bool) (parts : List PatternPart)
    (e : Expr) (pattern planned : Constraints Expr) (left : Option Expr) (ctx : RunContext)
    (row : Row) (s : RunState) (rows : List Row),
    planMatch scope optional parts (some e) = .ok (.matching planned left, scope') →
    Constraints.ofParts parts optional = .ok pattern →
    e.ComparesBound ctx.params → s.store.Consistent →
    (∀ resolved, planned.mapM (fun e => e.value (ctx.env s.store) row) = .ok resolved →
      (Search.of ctx resolved).ValuesAgree s.store row) →
    (Flow.toList (ctx.matchRow pattern (some e) row) s).1 = .ok rows →
    ∃ rows', (Flow.toList (ctx.matchRow planned left row) s).1 = .ok rows' ∧
      rows.Perm rows' := by
  intro h
  obtain ⟨pattern, hpattern⟩ : ∃ pattern, Constraints.ofParts veiledParts false = .ok pattern :=
    ⟨_, rfl⟩
  obtain ⟨planned, left, scope', hplan⟩ : ∃ planned left scope',
      planMatch ⟨["b"]⟩ false veiledParts (some isOne) = .ok (.matching planned left, scope') :=
    ⟨_, _, _, rfl⟩
  have hrows : (Flow.toList (Search.plainContext.matchRow pattern (some isOne) veiledRow)
      veiled).1.toOption.map List.length = some 1 := by
    cases hpattern
    decide +kernel
  have hplanned : (Flow.toList (Search.plainContext.matchRow planned left veiledRow)
      veiled).1.toOption.map List.length = some 0 := by
    cases hplan
    decide +kernel
  have hbound : isOne.ComparesBound Search.plainContext.params := by
    intro c hc x key name hcomparison
    rw [List.mem_singleton.1 (show c ∈ [isOne] from hc)] at hcomparison
    cases hcomparison
  have hagree : ∀ resolved, planned.mapM
      (fun e => e.value (Search.plainContext.env veiled.store) veiledRow) = .ok resolved →
        (Search.of Search.plainContext resolved).ValuesAgree veiled.store veiledRow := by
    intro resolved hresolved n hn _ id v _
    have hnone : ∀ n ∈ resolved.nodes, n.properties = [] := by
      cases hplan
      cases hresolved
      decide
    refine NodeConstraint.agrees_of_plain (fun p hp => ?_) _ v
    rw [hnone n hn] at hp
    cases hp
  obtain ⟨rows, hrun, hone⟩ := ok_of_toOption_map hrows
  obtain ⟨rows', hrun', hperm⟩ := h _ _ _ _ _ _ _ _ _ _ _ _ hplan hpattern hbound
    (Store.consistent_empty.foldl_after _) hagree hrun
  rw [hrun'] at hplanned
  have hnone : rows'.length = 0 := Option.some.inj hplanned
  rw [← hperm.length_eq, hone] at hnone
  cases hnone

end Plan

end PropertyGraph
