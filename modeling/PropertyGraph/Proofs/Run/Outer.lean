import PropertyGraph.Proofs.Pattern.Required
import PropertyGraph.Proofs.Pattern.Ties
import PropertyGraph.Proofs.Run.Eager

/-!
# Optional matches as an outer join

What an optional pattern makes of a row are the rows that the pattern makes of it when all of it
must be matched, and where there are none, one row in which the free names of the pattern are null.
The estimates that the two searches ask for are the same, so this holds wherever a number that is
kept is that of the constraint.

    Row.outer                   rows, or a row of nulls where there are none
    RunContext.rowsOn           the rows that a pattern makes of a row, on a store
    RunContext.rowsOn_required  those of an optional pattern by those of the required one
    RunContext.optional_joins   a stage with an optional pattern behind any source of rows
-/

namespace PropertyGraph

open PropertyGraph.Flow (Lists)

/-! ## A row of nulls -/

theorem Bindings.get?_const {α : Type} (names : List String) (a : α) (x : String) :
    Bindings.get? x (names.map (·, a)) = if x ∈ names then some a else none := by
  induction names with
  | nil => rfl
  | cons name rest ih =>
    rw [List.map_cons, Bindings.get?_cons, ih]
    by_cases h : name = x
    · rw [if_pos h, if_pos (List.mem_cons.2 (Or.inl h.symm))]
    · rw [if_neg h]
      simp only [List.mem_cons, Ne.symm h, false_or]

namespace Row

/-- The rows that are matched to a row; where there are none, a row in which the free ones of some
names are null. -/
def outer (row : Row) (names : List String) (matched : List Row) : List Row :=
  if matched.isEmpty then [row.nulls names] else matched

/-- A row of nulls has the values of the row, and null under the names that are free there. -/
theorem lookup?_nulls (row : Row) (hscopes : row.scopes = []) (names : List String) (x : String) :
    (row.nulls names).lookup? x =
      (row.lookup? x).or (if x ∈ names then some .null else none) := by
  have hchild : row.child.lookup? x = row.lookup? x := by
    unfold lookup? child
    rw [hscopes]
    rfl
  unfold nulls
  rw [lookup?_bound, hchild, ← List.map_reverse, Bindings.get?_const]
  simp only [List.mem_reverse, List.mem_filter, Row.has, Bool.not_eq_true', Option.isSome_eq_false_iff]
  cases row.lookup? x with
  | none => simp
  | some v => simp

end Row

/-! ## Rows on a store -/

namespace Search

variable {q : Search} {σ : Store} {condition : Option Expr} {row : Row}

/-- The rows that a search makes of a row, on a store. -/
def rowsOn (q : Search) (σ : Store) (condition : Option Expr) (row : Row) :
    Except Error (List Row) := do
  let ms ← q.listed σ row
  let os ← ms.mapM (q.outcome σ condition row)
  return q.padded row (os.filterMap id)

/-- What the matches without a null come to is what all matches of the optional pattern come to. -/
theorem outcomes_required (hopt : q.pattern.optional = true) {ms : List Match}
    {os : List (Option Row)} (h : ms.mapM (q.outcome σ condition row) = .ok os) :
    ∃ os', (ms.filter (!·.hasNull)).mapM (q.required.outcome σ condition row) = .ok os' ∧
      os'.filterMap id = os.filterMap id := by
  induction ms generalizing os with
  | nil => exact ⟨[], rfl, by cases h; rfl⟩
  | cons m rest ih =>
    rw [List.mapM_cons] at h
    obtain ⟨o, ho, h⟩ := ok_of_bind h
    obtain ⟨more, hmore, h⟩ := ok_of_bind h
    cases h
    obtain ⟨os', hos', hsame⟩ := ih hmore
    unfold outcome at ho
    rw [hopt, Bool.true_and] at ho
    cases hnull : m.hasNull with
    | true =>
      rw [if_pos hnull] at ho
      cases ho
      rw [List.filter_cons_of_neg (by simp [hnull])]
      exact ⟨os', hos', hsame⟩
    | false =>
      rw [if_neg (by rw [hnull]; exact Bool.false_ne_true)] at ho
      have ho' : q.required.outcome σ condition row m = .ok o := by
        unfold outcome
        rw [hnull, Bool.and_false, if_neg Bool.false_ne_true]
        exact ho
      refine ⟨o :: os', ?_, ?_⟩
      · rw [List.filter_cons_of_pos (by simp [hnull]), List.mapM_cons, ho', hos']
        rfl
      · rw [List.filterMap_cons, List.filterMap_cons, hsame]

/-- An optional pattern makes the rows of the required one, or a row of nulls. -/
theorem rowsOn_required (hopt : q.pattern.optional = true) {rows : List Row}
    (h : q.rowsOn σ condition row = .ok rows) :
    ∃ matched, q.required.rowsOn σ condition row = .ok matched ∧
      rows = row.outer q.pattern.names matched := by
  unfold rowsOn at h
  obtain ⟨ms, hms, h⟩ := ok_of_bind h
  obtain ⟨os, hos, h⟩ := ok_of_bind h
  cases h
  obtain ⟨os', hos', hsame⟩ := outcomes_required hopt hos
  refine ⟨os'.filterMap id, ?_, ?_⟩
  · unfold rowsOn
    rw [listed_required hopt hms]
    exact congrArg (fun o : Except Error (List (Option Row)) =>
      do return q.required.padded row ((← o).filterMap id)) hos'
  · unfold padded Row.outer
    rw [hopt, Bool.true_and, hsame]

end Search

theorem Constraints.mapM_required (f : Expr → Except Error Value) (g : Constraints Expr) :
    g.required.mapM f = Constraints.required <$> g.mapM f := by
  unfold Constraints.mapM
  simp only [map_bind, map_pure]
  rfl

namespace RunContext

variable {ctx : RunContext} {σ : Store} {book : String → Nat} {g : Constraints Expr}
  {condition : Option Expr} {row : Row}

/-- The rows that a pattern makes of a row, on a store. -/
def rowsOn (ctx : RunContext) (σ : Store) (g : Constraints Expr) (condition : Option Expr)
    (row : Row) : Except Error (List Row) := do
  let resolved ← g.mapM fun e => e.value (ctx.env σ) row
  (Search.of ctx resolved).rowsOn σ condition row

theorem rowsOf_eq (resolved : Constraints Value) (ms : List Match) (s : RunState) :
    ctx.rowsOf resolved condition row ms s = ((do
      let os ← ms.mapM ((Search.of ctx resolved).outcome s.store condition row)
      return (Search.of ctx resolved).padded row (os.filterMap id)), s) :=
  Run.bind_still (Run.mapM_still (fun _ => Search.matchedRow_eq ctx resolved s) ms) fun _ => rfl

theorem matchRows_eq (s : RunState) :
    ctx.matchRows g condition row s = (ctx.rowsOn s.store g condition row, s) :=
  Run.bind_still (Constraints.mapM_still (f := fun e => ctx.value e row) (fun _ => rfl) g)
    fun _ => Run.bind_still rfl fun ms => rowsOf_eq _ ms s

/-- An optional pattern makes the rows of the required one, or a row of nulls. -/
theorem rowsOn_required (hopt : g.optional = true) {rows : List Row}
    (h : ctx.rowsOn σ g condition row = .ok rows) :
    ∃ matched, ctx.rowsOn σ g.required condition row = .ok matched ∧
      rows = row.outer g.names matched := by
  unfold rowsOn at h
  obtain ⟨resolved, hresolved, h⟩ := ok_of_bind h
  have hshape := Constraints.shape_of_mapM hresolved
  have hopt' : resolved.optional = true := (congrArg (·.optional) hshape).trans hopt
  obtain ⟨matched, hmatched, hrows⟩ := Search.rowsOn_required hopt' h
  refine ⟨matched, ?_, by rw [hrows, ← Constraints.names_of_shape hshape]; rfl⟩
  unfold rowsOn
  rw [Constraints.mapM_required, hresolved]
  exact hmatched

/-! ## Rows one by one -/

section Lazily

variable (hbook : ∀ resolved, g.mapM (fun e => e.value (ctx.env σ) row) = .ok resolved →
  (Search.of ctx resolved).Booked σ book)

include hbook

theorem lists_rowsOn {rows : List Row} (h : ctx.rowsOn σ g condition row = .ok rows) :
    Lists (Keeping σ book) (ctx.matchRow g condition row) rows :=
  lists_matchRow hbook fun s hs => ⟨s, by rw [matchRows_eq, hs.store, h], hs⟩

/-- Asked for its rows one by one, a pattern fails sooner or later if making them all fails. -/
theorem fails_matchRow {e : Error} (h : ctx.rowsOn σ g condition row = .error e) {s : RunState}
    (hs : Keeping σ book s) : (ctx.matchRow g condition row s).Fails (Keeping σ book) := by
  unfold matchRow
  rw [Constraints.mapM_still (f := fun e => ctx.value e row) (fun _ => rfl) g, hs.store]
  unfold rowsOn at h
  cases hresolved : g.mapM fun e => e.value (ctx.env σ) row with
  | error e' => exact .fail e' s
  | ok resolved =>
    rw [hresolved] at h
    have hfound : (((Search.of ctx resolved).flow row s).flatMap fun m =>
        Flow.ofOption (ctx.matchedRow resolved condition row m)).Fails (Keeping σ book) := by
      change (Search.of ctx resolved).rowsOn σ condition row = _ at h
      unfold Search.rowsOn at h
      cases hlisted : (Search.of ctx resolved).listed σ row with
      | error e' =>
        unfold Search.listed at hlisted
        unfold Search.flow
        cases hstart : (Search.of ctx resolved).start row with
        | error e' => exact .fail e' s
        | ok starts => rw [hstart] at hlisted; cases hlisted
      | ok ms =>
        rw [hlisted] at h
        refine (Search.lists_flow (hbook resolved hresolved) hlisted s hs).flatMap_fails
          (d := (Search.of ctx resolved).outcome σ condition row)
          (fun m _ o ho => ⟨_, Flow.lists_ofOption (o := o) fun u hu => ⟨u, ?_, hu⟩⟩)
          (fun m _ e' he' u hu => Flow.fails_ofOption (t := u) (e := e') ?_) (e := e) ?_
        · rw [Search.matchedRow_eq, hu.store, ho]
        · rw [Search.matchedRow_eq, hu.store, he']
        · cases hmap : ms.mapM ((Search.of ctx resolved).outcome σ condition row) with
          | error e' =>
            change (ms.mapM ((Search.of ctx resolved).outcome σ condition row) >>= _) = _ at h
            rw [hmap] at h
            cases h
            rfl
          | ok os =>
            change (ms.mapM ((Search.of ctx resolved).outcome σ condition row) >>= _) = _ at h
            rw [hmap] at h
            cases h
    dsimp only
    split
    · exact hfound.orElse
    · exact hfound

end Lazily

/-! ## Behind a source -/

/-- The rows of an optional pattern, row by row, by those of the required one. -/
theorem matched_of_rowsOn (hopt : g.optional = true) {rows : List Row} {parts : List (List Row)}
    (h : List.Forall₂ (fun row part => ctx.rowsOn σ g condition row = .ok part) rows parts) :
    ∃ matched, List.Forall₂ (fun row M => ctx.rowsOn σ g.required condition row = .ok M ∧
        ctx.rowsOn σ g condition row = .ok (row.outer g.names M)) rows matched ∧
      parts = List.zipWith (fun row M => row.outer g.names M) rows matched := by
  induction h with
  | nil => exact ⟨[], .nil, rfl⟩
  | cons hpart _ ih =>
    obtain ⟨M, hM, rfl⟩ := rowsOn_required hopt hpart
    obtain ⟨matched, hmatched, rfl⟩ := ih
    exact ⟨M :: matched, .cons ⟨hM, hpart⟩ hmatched, rfl⟩

/-- Behind a source of rows, a stage with an optional pattern gives for each row in turn the rows
that the required pattern gives for it, and where it gives none, one row of nulls. -/
theorem optional_joins (hopt : g.optional = true) {source : Source Row} {rows out : List Row}
    {s t : RunState} (hs : Keeping σ book s) (hsource : Lists (Keeping σ book) source rows)
    (hbook : (Stage.matching g condition).Booked ctx σ book rows)
    (h : Flow.toList (Stage.flow ctx source (.matching g condition)) s = (.ok out, t)) :
    (∃ matched : List (List Row),
      List.Forall₂ (fun row M => ∀ u, Keeping σ book u →
        (Flow.toList (ctx.matchRow g.required condition row) u).1 = .ok M ∧
        (Flow.toList (ctx.matchRow g condition row) u).1 = .ok (row.outer g.names M)) rows matched ∧
      out = (List.zipWith (fun row M => row.outer g.names M) rows matched).flatten) ∧
    ∀ row : Row, row.scopes = [] → ∀ x, (row.nulls g.names).lookup? x =
      (row.lookup? x).or (if x ∈ g.names then some .null else none) := by
  refine ⟨?_, fun row hscopes x => row.lookup?_nulls hscopes g.names x⟩
  have hbooks : ∀ row ∈ rows, ∀ resolved, g.mapM (fun e => e.value (ctx.env σ) row) = .ok resolved →
      (Search.of ctx resolved).Booked σ book := fun row hrow resolved hresolved key number hnumber =>
    hbook key number ⟨row, hrow, resolved, hresolved, hnumber⟩
  cases hparts : rows.mapM (ctx.rowsOn σ g condition) with
  | error e =>
    refine absurd ?_ (Flow.not_fails_of_toList (I := Keeping σ book) h)
    exact (hsource s hs).flatMap_fails (d := ctx.rowsOn σ g condition)
      (fun row hrow part hpart => ⟨part, lists_rowsOn (hbooks row hrow) hpart⟩)
      (fun row hrow e he u hu => fails_matchRow (hbooks row hrow) he hu) hparts
  | ok parts =>
    have heach := Constraints.forall₂_of_mapM hparts
    -- what comes out is one part after the other
    have hlists := (forall₂_with_mem heach).imp fun row part h =>
      lists_rowsOn (hbooks row h.1) h.2
    have hflow : Lists (Keeping σ book) (Stage.flow ctx source (.matching g condition))
        parts.flatten := fun u hu => (hsource u hu).flatMap hlists
    obtain ⟨u, hrun, -⟩ := hflow.toList s hs
    obtain rfl : out = parts.flatten := Except.ok.inj (congrArg Prod.fst (h.symm.trans hrun))
    obtain ⟨matched, hmatched, rfl⟩ := matched_of_rowsOn hopt heach
    refine ⟨matched, (forall₂_with_mem hmatched).imp fun row M ⟨hrow, hM, hpart⟩ u hu => ?_, rfl⟩
    have hrequired : ∀ resolved, g.required.mapM (fun e => e.value (ctx.env σ) row) = .ok resolved →
        (Search.of ctx resolved).Booked σ book := by
      intro resolved hresolved
      rw [Constraints.mapM_required] at hresolved
      obtain ⟨resolved', hresolved', hsame⟩ := ok_of_bind hresolved
      cases hsame
      exact hbooks row hrow resolved' hresolved'
    obtain ⟨v, hv, -⟩ := (lists_rowsOn hrequired hM).toList u hu
    obtain ⟨w, hw, -⟩ := (lists_rowsOn (hbooks row hrow) hpart).toList u hu
    exact ⟨congrArg Prod.fst hv, congrArg Prod.fst hw⟩

/-! ## One vertex -/

/-- A pattern of one node. -/
def anyNode : Constraints Expr :=
  ⟨true, [⟨0, some "a", [], [], true, []⟩], [], []⟩

/-- A row without the node, and one in which it is null. -/
def freeAndNull : List Row :=
  [.empty, Row.empty.set "a" .null]

/-- There is one vertex, and no other number is asked for. -/
theorem booked_anyNode : (Stage.matching anyNode none).Booked Search.plainContext
    Search.lonely.store (fun _ => 1) freeAndNull := by
  rintro key number ⟨row, -, resolved, hresolved, hnumber⟩
  cases hresolved
  rcases hnumber with ⟨n, hn, -, rfl⟩ | ⟨r, hr, -, -⟩
  · cases List.mem_singleton.1 hn
    rfl
  · cases hr

theorem optional_joins_lonely : ∃ out t,
    Flow.toList (Stage.flow Search.plainContext (Flow.ofList freeAndNull)
      (.matching anyNode none)) Search.lonely = (.ok out, t) ∧
    (∃ matched : List (List Row),
      List.Forall₂ (fun row M => ∀ u, Keeping Search.lonely.store (fun _ => 1) u →
        (Flow.toList (Search.plainContext.matchRow anyNode.required none row) u).1 = .ok M ∧
        (Flow.toList (Search.plainContext.matchRow anyNode none row) u).1 =
          .ok (row.outer anyNode.names M)) freeAndNull matched ∧
      out = (List.zipWith (fun row M => row.outer anyNode.names M) freeAndNull matched).flatten) ∧
    ∀ row : Row, row.scopes = [] → ∀ x, (row.nulls anyNode.names).lookup? x =
      (row.lookup? x).or (if x ∈ anyNode.names then some .null else none) := by
  obtain ⟨out, t, hrun⟩ : ∃ out t, Flow.toList (Stage.flow Search.plainContext
      (Flow.ofList freeAndNull) (.matching anyNode none)) Search.lonely = (.ok out, t) :=
    ⟨_, _, rfl⟩
  exact ⟨out, t, hrun, optional_joins rfl ⟨rfl, fun _ _ hkept => by cases hkept⟩
    (Flow.lists_ofList freeAndNull) booked_anyNode hrun⟩

/-! ## One text for two numbers -/

/-- Some vertices with a text or a number as `k` or with a list as `l`, and an edge from the one
with a list of an integer to the one with a number. -/
def texts : RunState :=
  let text := fun id => Store.Call.addVertex id [] [("k", .text "1")] ""
  let float := fun id => Store.Call.addVertex id [] [("l", .list [.float Search.oneDouble])] ""
  { RunState.initial with
    store := [.addVertex "n" ["N"] [] "", text "t1", text "t2", text "t3", float "z1", float "z2",
      .addVertex "x" [] [("l", .list [.int 1])] "", .addVertex "b" [] [("k", .int 1)] "",
      .addEdge "e" "R" "x" "b" [] ""].foldl Store.after .empty }

/-- The vertex with such a list and its neighbour with a value as `k`, beside another node. -/
def besides : List PatternPart :=
  [⟨none, ⟨some "n", [], []⟩, []⟩,
    ⟨none, ⟨some "a", [], [("l", .list [.literal (.float Search.oneDouble)])]⟩,
      [(⟨none, ["R"], .outgoing, [], none⟩, ⟨some "b", [], [("k", .var "k")]⟩)]⟩]

/-- A row with null as the other node and the text 1, and one with a vertex and the number 1. -/
def nullAndNode : List Row :=
  [(Row.empty.set "n" .null).set "k" (.text "1"),
    (Row.empty.set "n" (.node ⟨"n", ["N"], [], ""⟩)).set "k" (.int 1)]

/-- For the first row only the optional search asks how many vertices have the text 1; the number is
kept for those that have the number 1, so that for the second row it takes another way than the
required search and misses the match. -/
theorem optional_misses : ¬ ∀ (parts : List PatternPart) (g : Constraints Expr)
    (condition : Option Expr) (ctx : RunContext) (s t : RunState) (rows out : List Row),
    Constraints.ofParts parts true = .ok g →
    (∃ calls : List Store.Call, s.store = calls.foldl Store.after .empty) →
    Flow.toList (Stage.flow ctx (Flow.ofList rows) (.matching g condition)) s = (.ok out, t) →
    ∃ matched : List (List Row),
      List.Forall₂ (fun row M =>
        (Flow.toList (ctx.matchRow g.required condition row) s).1 = .ok M) rows matched ∧
      out = (List.zipWith (fun row M => row.outer g.names M) rows matched).flatten := by
  intro h
  obtain ⟨g, hg⟩ : ∃ g, Constraints.ofParts besides true = .ok g := ⟨_, rfl⟩
  -- is `b` null in each row?
  let nulls := fun (rows : List Row) => rows.map fun row => (row.lookup? "b").map Value.isNull
  have hrequired : nullAndNode.map (fun row =>
      ((Flow.toList (Search.plainContext.matchRow g.required none row) texts).1.toOption.map nulls))
      = [some [], some [some false]] := by
    cases hg
    decide +kernel
  have hoptional : ((Flow.toList (Stage.flow Search.plainContext (Flow.ofList nullAndNode)
      (.matching g none)) texts).1.toOption.map nulls) = some [some true, some true] := by
    cases hg
    decide +kernel
  rcases hrun : Flow.toList (Stage.flow Search.plainContext (Flow.ofList nullAndNode)
      (.matching g none)) texts with ⟨_ | out, t⟩
  · rw [hrun] at hoptional
    cases hoptional
  · obtain ⟨matched, hmatched, hout⟩ :=
      h besides g none Search.plainContext texts t nullAndNode out hg ⟨_, rfl⟩ hrun
    rw [hrun] at hoptional
    match matched, hmatched, hout with
    | [first, second], .cons hfirst (.cons hsecond .nil), hout =>
      simp only [nullAndNode, List.map_cons, List.map_nil, hfirst, hsecond, Except.toOption,
        Option.map_some, List.cons.injEq, Option.some.injEq, and_true] at hrequired hoptional
      obtain ⟨hnone, hone⟩ := hrequired
      obtain rfl := List.map_eq_nil_iff.1 hnone
      cases hout
      cases second with
      | nil => cases hone
      | cons found rest =>
        have hfound : (found.lookup? "b").map Value.isNull = some false := (List.cons.inj hone).1
        have hmissed : (found.lookup? "b").map Value.isNull = some true :=
          (List.cons.inj (List.cons.inj hoptional).2).1
        rw [hfound] at hmissed
        cases hmissed

end RunContext

end PropertyGraph
