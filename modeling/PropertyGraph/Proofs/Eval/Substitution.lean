import PropertyGraph.Proofs.Eval.Failing

/-!
# Values in the place of names

A name may be looked up in the row, or its value may be written into the expression beforehand.
Both come to the same, under comprehensions and quantifiers too, where a name of their own hides
the one replaced.

    Expr.subst     values in the place of the names that an assignment gives values to
    Row.Binds      a row that binds these names, and all others as another row does
    eval_subst     evaluation after the replacement, and evaluation in a row that binds the names
    value_congr    so the value depends on nothing but the names that are read
    value_free     which are the free names; and no other name is ever missed
-/

namespace PropertyGraph

/-- Values of some names. -/
abbrev Assignment := String → Option Value

/-- The values that are still seen where a name is hidden. -/
def Assignment.hide (σ : Assignment) (name : String) : Assignment := fun x =>
  if x = name then none else σ x

/-! ## Replacing -/

namespace Expr

mutual

/-- The expression with values in the place of names.  What stands in a pattern is left alone, as a
pattern has no value. -/
def subst (σ : Assignment) : Expr → Expr
  | .var x =>
    match σ x with
    | some v => .literal v
    | none => .var x
  | .literal v => .literal v
  | .parameter x => .parameter x
  | .countAll => .countAll
  | .pattern part => .pattern part
  | .property e key => .property (e.subst σ) key
  | .hasLabels e labels => .hasLabels (e.subst σ) labels
  | .unary op e => .unary op (e.subst σ)
  | .isNull e => .isNull (e.subst σ)
  | .isNotNull e => .isNotNull (e.subst σ)
  | .index a b => .index (a.subst σ) (b.subst σ)
  | .binary op a b => .binary op (a.subst σ) (b.subst σ)
  | .slice e lower upper => .slice (e.subst σ) (substOption σ lower) (substOption σ upper)
  | .list items => .list (substList σ items)
  | .map entries => .map (substEntries σ entries)
  | .call f args d => .call f (substList σ args) d
  | .case operand branches default =>
    .case (substOption σ operand) (substBranches σ branches) (substOption σ default)
  | .comprehension x source filter result =>
    .comprehension x (source.subst σ) (substOption (σ.hide x) filter)
      (substOption (σ.hide x) result)
  | .quantified kind x source predicate =>
    .quantified kind x (source.subst σ) (predicate.subst (σ.hide x))

/-- Some expressions with values in the place of names. -/
def substList (σ : Assignment) : List Expr → List Expr
  | [] => []
  | e :: rest => e.subst σ :: substList σ rest

/-- Some entries with values in the place of names. -/
def substEntries (σ : Assignment) : List (String × Expr) → List (String × Expr)
  | [] => []
  | (key, e) :: rest => (key, e.subst σ) :: substEntries σ rest

/-- Some branches with values in the place of names. -/
def substBranches (σ : Assignment) : List (Expr × Expr) → List (Expr × Expr)
  | [] => []
  | (a, b) :: rest => (a.subst σ, b.subst σ) :: substBranches σ rest

/-- An expression, if there is one, with values in the place of names. -/
def substOption (σ : Assignment) : Option Expr → Option Expr
  | none => none
  | some e => some (e.subst σ)

end

/-- Two assignments give some names the same. -/
def Alike (σ τ : Assignment) (names : List String) : Prop :=
  ∀ x ∈ names, σ x = τ x

theorem alike_append {σ τ : Assignment} {as bs : List String} :
    Alike σ τ (as ++ bs) ↔ Alike σ τ as ∧ Alike σ τ bs :=
  List.forall_mem_append

/-- What is read outside of a scope and what is hidden inside. -/
theorem Alike.hide {σ τ : Assignment} {names : List String} {x : String}
    (h : Alike σ τ (names.filter (· ≠ x))) : Alike (σ.hide x) (τ.hide x) names := by
  intro y hy
  unfold Assignment.hide
  split
  · rfl
  · next hne => exact h y (List.mem_filter.2 ⟨hy, decide_eq_true hne⟩)

mutual

/-- Only the names that are read matter. -/
theorem subst_congr {σ τ : Assignment} (e : Expr) (h : Alike σ τ e.reads) :
    e.subst σ = e.subst τ := by
  cases e with
  | var x => rw [subst, subst, h x List.mem_cons_self]
  | literal _ | parameter _ | countAll | pattern _ => rfl
  | property e _ | hasLabels e _ | unary _ e | isNull e | isNotNull e =>
    rw [subst, subst, subst_congr e h]
  | index a b | binary _ a b =>
    obtain ⟨ha, hb⟩ := alike_append.1 h
    rw [subst, subst, subst_congr a ha, subst_congr b hb]
  | slice e lower upper =>
    obtain ⟨h, hupper⟩ := alike_append.1 h
    obtain ⟨he, hlower⟩ := alike_append.1 h
    rw [subst, subst, subst_congr e he, substOption_congr lower hlower,
      substOption_congr upper hupper]
  | list items => rw [subst, subst, substList_congr items h]
  | map entries => rw [subst, subst, substEntries_congr entries h]
  | call f args d => rw [subst, subst, substList_congr args h]
  | case operand branches default =>
    obtain ⟨h, hdefault⟩ := alike_append.1 h
    obtain ⟨hoperand, hbranches⟩ := alike_append.1 h
    rw [subst, subst, substOption_congr operand hoperand, substBranches_congr branches hbranches,
      substOption_congr default hdefault]
  | comprehension x source filter result =>
    obtain ⟨hsource, h⟩ := alike_append.1 h
    obtain ⟨hfilter, hresult⟩ := alike_append.1 (Alike.hide h)
    rw [subst, subst, subst_congr source hsource, substOption_congr filter hfilter,
      substOption_congr result hresult]
  | quantified kind x source predicate =>
    obtain ⟨hsource, h⟩ := alike_append.1 h
    rw [subst, subst, subst_congr source hsource, subst_congr predicate h.hide]

theorem substList_congr {σ τ : Assignment} (es : List Expr) (h : Alike σ τ (listReads es)) :
    substList σ es = substList τ es := by
  cases es with
  | nil => rfl
  | cons e rest =>
    obtain ⟨he, hrest⟩ := alike_append.1 h
    rw [substList, substList, subst_congr e he, substList_congr rest hrest]

theorem substEntries_congr {σ τ : Assignment} (entries : List (String × Expr))
    (h : Alike σ τ (entryReads entries)) : substEntries σ entries = substEntries τ entries := by
  cases entries with
  | nil => rfl
  | cons entry rest =>
    obtain ⟨key, e⟩ := entry
    obtain ⟨he, hrest⟩ := alike_append.1 h
    rw [substEntries, substEntries, subst_congr e he, substEntries_congr rest hrest]

theorem substBranches_congr {σ τ : Assignment} (branches : List (Expr × Expr))
    (h : Alike σ τ (branchReads branches)) : substBranches σ branches = substBranches τ branches := by
  cases branches with
  | nil => rfl
  | cons branch rest =>
    obtain ⟨a, b⟩ := branch
    obtain ⟨h, hrest⟩ := alike_append.1 h
    obtain ⟨ha, hb⟩ := alike_append.1 h
    rw [substBranches, substBranches, subst_congr a ha, subst_congr b hb,
      substBranches_congr rest hrest]

theorem substOption_congr {σ τ : Assignment} (o : Option Expr) (h : Alike σ τ (optionReads o)) :
    substOption σ o = substOption τ o := by
  cases o with
  | none => rfl
  | some e => rw [substOption, substOption, subst_congr e h]

end

end Expr

/-! ## Rows -/

namespace Row

variable {σ : Assignment} {row wider : Row}

/-- The second row binds the names of the assignment, and all others as the first row does. -/
def Binds (σ : Assignment) (row wider : Row) : Prop :=
  ∀ x, wider.lookup? x = (σ x).or (row.lookup? x)

theorem Binds.push (h : row.Binds σ wider) (name : String) (v : Value) :
    (row.push name v).Binds (σ.hide name) (wider.push name v) := by
  intro x
  rw [lookup?_push, lookup?_push, h x, Assignment.hide]
  by_cases hx : x = name
  · rw [if_pos hx, if_pos hx.symm, if_pos hx.symm]
    rfl
  · rw [if_neg hx, if_neg (Ne.symm hx), if_neg (Ne.symm hx)]

end Row

/-! ## Computations -/

namespace RowM

variable {α β : Type} {σ : Assignment}

/-- In a row the first computation comes to what the second one comes to where names are bound, and
both leave every row as it is. -/
structure Agrees (σ : Assignment) (c d : RowM α) : Prop where
  keeps : Keeps c
  keepsWider : Keeps d
  same : ∀ row wider, row.Binds σ wider → (c row).1 = (d wider).1

theorem agrees_pure (a : α) : Agrees σ (pure a : RowM α) (pure a) :=
  ⟨keeps_pure a, keeps_pure a, fun _ _ _ => rfl⟩

theorem agrees_fail (e : Error) : Agrees σ (fail e : RowM α) (fail e) :=
  ⟨keeps_fail e, keeps_fail e, fun _ _ _ => rfl⟩

theorem agrees_lift (r : Except Error α) : Agrees σ (lift r) (lift r) :=
  ⟨keeps_lift r, keeps_lift r, fun _ _ _ => rfl⟩

theorem Agrees.bind {c d : RowM α} {f g : α → RowM β} (h : Agrees σ c d)
    (hf : ∀ a, Agrees σ (f a) (g a)) : Agrees σ (c >>= f) (d >>= g) where
  keeps := h.keeps.bind fun a => (hf a).keeps
  keepsWider := h.keepsWider.bind fun a => (hf a).keepsWider
  same row wider hrows := by
    rw [bind_fst h.keeps, bind_fst h.keepsWider, h.same row wider hrows]
    cases (d wider).1 with
    | error e => rfl
    | ok a => exact (hf a).same row wider hrows

theorem Agrees.within {c d : RowM α} {name : String} (h : Agrees (σ.hide name) c d) (v : Value) :
    Agrees σ (within name v c) (within name v d) where
  keeps := h.keeps.within name v
  keepsWider := h.keepsWider.within name v
  same row wider hrows := by
    rw [within_fst h.keeps, within_fst h.keepsWider]
    exact h.same _ _ (hrows.push name v)

theorem agrees_isTrue (v : Value) : Agrees σ (isTrue v) (isTrue v) :=
  (agrees_lift v.toTruth).bind fun _ => agrees_pure _

theorem agrees_listItems (v : Value) : Agrees σ (listItems v) (listItems v) := by
  unfold listItems
  split
  · exact agrees_pure _
  · exact agrees_pure _
  · exact agrees_fail _

theorem Agrees.keepItem {filter filter' result result' : RowM (Option Value)}
    (hfilter : Agrees σ filter filter') (hresult : Agrees σ result result') (item : Value) :
    Agrees σ (keepItem filter result item) (keepItem filter' result' item) := by
  have hkept : ∀ kept : Bool, Agrees σ
      (if kept then do return [(← result).getD item] else return [] : RowM (List Value))
      (if kept then do return [(← result').getD item] else return []) := by
    intro kept
    cases kept with
    | false => exact agrees_pure _
    | true => exact hresult.bind fun _ => agrees_pure _
  refine hfilter.bind fun o => ?_
  cases o with
  | none => exact (agrees_pure true).bind hkept
  | some v => exact (agrees_isTrue v).bind hkept

theorem Agrees.comprehend {name : String} {filter filter' result result' : RowM (Option Value)}
    (hfilter : Agrees (σ.hide name) filter filter')
    (hresult : Agrees (σ.hide name) result result') (items : List Value) :
    Agrees σ (comprehend name filter result items) (comprehend name filter' result' items) := by
  induction items with
  | nil => exact agrees_pure _
  | cons item rest ih =>
    exact ((hfilter.keepItem hresult item).within item).bind fun _ =>
      ih.bind fun _ => agrees_pure _

theorem Agrees.outcomes {name : String} {predicate predicate' : RowM Value}
    (h : Agrees (σ.hide name) predicate predicate') (items : List Value) :
    Agrees σ (outcomes name predicate items) (outcomes name predicate' items) := by
  induction items with
  | nil => exact agrees_pure _
  | cons item rest ih =>
    have hitem : Agrees (σ.hide name) (do lift (← predicate).toTruth)
        (do lift (← predicate').toTruth) := h.bind fun v => agrees_lift v.toTruth
    exact (hitem.within item).bind fun _ => ih.bind fun _ => agrees_pure _

end RowM

/-! ## Evaluation -/

namespace Expr

open RowM

mutual

theorem eval_subst (env : EvalEnv) (σ : Assignment) (e : Expr) :
    Agrees σ (eval env (e.subst σ)) (eval env e) := by
  cases e with
  | literal v => unfold subst eval; exact agrees_pure _
  | parameter name =>
    unfold subst eval
    split
    · exact agrees_pure _
    · exact agrees_fail _
  | var name =>
    refine ⟨eval_keeps env _, eval_keeps env _, fun row wider hrows => ?_⟩
    unfold subst
    conv => rhs; unfold eval; simp only [Row.get]; rw [hrows name]
    cases σ name <;> rfl
  | property target key =>
    unfold subst eval
    exact (eval_subst env σ target).bind fun _ => agrees_lift _
  | hasLabels target labels =>
    unfold subst eval
    exact (eval_subst env σ target).bind fun _ => agrees_lift _
  | list items =>
    unfold subst eval
    exact (evalList_subst env σ items).bind fun _ => agrees_pure _
  | map entries =>
    unfold subst eval
    exact (evalEntries_subst env σ entries).bind fun _ => agrees_pure _
  | index target position =>
    unfold subst eval
    exact (eval_subst env σ target).bind fun _ =>
      (eval_subst env σ position).bind fun _ => agrees_lift _
  | slice target lower upper =>
    unfold subst eval
    exact (eval_subst env σ target).bind fun _ => (evalOption_subst env σ lower).bind fun _ =>
      (evalOption_subst env σ upper).bind fun _ => agrees_lift _
  | unary op operand =>
    unfold subst eval
    exact (eval_subst env σ operand).bind fun _ => agrees_lift _
  | binary op left right =>
    have hl := eval_subst env σ left
    have hr := eval_subst env σ right
    have hright : ∀ f : Truth → Value, Agrees σ
        (do return f (← lift (← eval env (right.subst σ)).toTruth))
        (do return f (← lift (← eval env right).toTruth)) := fun f =>
      hr.bind fun v => (agrees_lift v.toTruth).bind fun _ => agrees_pure _
    cases op with
    | and =>
      unfold subst eval
      refine hl.bind fun v => (agrees_lift _).bind fun t => ?_
      split
      · exact agrees_pure _
      · exact hright fun r => .ofTruth (Truth.and t r)
    | or =>
      unfold subst eval
      refine hl.bind fun v => (agrees_lift _).bind fun t => ?_
      split
      · exact agrees_pure _
      · exact hright fun r => .ofTruth (Truth.or t r)
    | xor =>
      unfold subst eval
      exact hl.bind fun v => (agrees_lift _).bind fun t =>
        hright fun r => .ofTruth (Truth.xor t r)
    | _ =>
      unfold subst eval
      exact hl.bind fun _ => hr.bind fun _ => agrees_lift _
  | isNull operand =>
    unfold subst eval
    exact (eval_subst env σ operand).bind fun _ => agrees_pure _
  | isNotNull operand =>
    unfold subst eval
    exact (eval_subst env σ operand).bind fun _ => agrees_pure _
  | call function args distinct =>
    unfold subst eval
    split
    · exact agrees_fail _
    · exact (evalList_subst env σ args).bind fun _ => agrees_lift _
  | countAll => unfold subst eval; exact agrees_fail _
  | case operand branches default =>
    unfold subst eval
    refine (evalOption_subst env σ operand).bind fun o =>
      (evalBranches_subst env σ o branches).bind fun found => ?_
    split
    · exact agrees_pure _
    · exact (evalOption_subst env σ default).bind fun _ => agrees_pure _
  | comprehension name source filter result =>
    unfold subst eval
    refine (eval_subst env σ source).bind fun v => (agrees_listItems v).bind fun items => ?_
    have hfilter := evalOption_subst env (σ.hide name) filter
    have hresult := evalOption_subst env (σ.hide name) result
    split
    · exact agrees_pure _
    · exact (hfilter.comprehend hresult _).bind fun _ => agrees_pure _
  | quantified kind name source predicate =>
    unfold subst eval
    refine (eval_subst env σ source).bind fun v => (agrees_listItems v).bind fun items => ?_
    have hpredicate := eval_subst env (σ.hide name) predicate
    split
    · exact agrees_pure _
    · exact (hpredicate.outcomes _).bind fun _ => agrees_pure _
  | pattern part => unfold subst eval; exact agrees_fail _

theorem evalList_subst (env : EvalEnv) (σ : Assignment) (es : List Expr) :
    Agrees σ (evalList env (substList σ es)) (evalList env es) := by
  cases es with
  | nil => unfold substList evalList; exact agrees_pure _
  | cons e rest =>
    unfold substList evalList
    exact (eval_subst env σ e).bind fun _ =>
      (evalList_subst env σ rest).bind fun _ => agrees_pure _

theorem evalEntries_subst (env : EvalEnv) (σ : Assignment) (entries : List (String × Expr)) :
    Agrees σ (evalEntries env (substEntries σ entries)) (evalEntries env entries) := by
  cases entries with
  | nil => unfold substEntries evalEntries; exact agrees_pure _
  | cons entry rest =>
    obtain ⟨key, e⟩ := entry
    unfold substEntries evalEntries
    exact (eval_subst env σ e).bind fun _ =>
      (evalEntries_subst env σ rest).bind fun _ => agrees_pure _

theorem evalOption_subst (env : EvalEnv) (σ : Assignment) (o : Option Expr) :
    Agrees σ (evalOption env (substOption σ o)) (evalOption env o) := by
  cases o with
  | none => unfold substOption evalOption; exact agrees_pure _
  | some e =>
    unfold substOption evalOption
    exact (eval_subst env σ e).bind fun _ => agrees_pure _

theorem evalBranches_subst (env : EvalEnv) (σ : Assignment) (operand : Option Value)
    (branches : List (Expr × Expr)) :
    Agrees σ (evalBranches env operand (substBranches σ branches))
      (evalBranches env operand branches) := by
  cases branches with
  | nil => unfold substBranches evalBranches; exact agrees_pure _
  | cons branch rest =>
    obtain ⟨condition, result⟩ := branch
    unfold substBranches evalBranches
    have happlies : ∀ applies : Bool, Agrees σ
        (if applies then do return some (← eval env (result.subst σ))
          else evalBranches env operand (substBranches σ rest) : RowM (Option Value))
        (if applies then do return some (← eval env result)
          else evalBranches env operand rest) := by
      intro applies
      cases applies with
      | false => exact evalBranches_subst env σ operand rest
      | true => exact (eval_subst env σ result).bind fun _ => agrees_pure _
    refine (eval_subst env σ condition).bind fun v => ?_
    cases operand with
    | none => exact (agrees_isTrue v).bind happlies
    | some w => exact (agrees_pure _).bind happlies

end

variable {row row' : Row}

/-- Evaluation in a row is evaluation of what is left when the names have been replaced. -/
theorem value_subst (env : EvalEnv) (e : Expr) (row : Row) :
    (e.subst row.lookup?).value env .empty = e.value env row :=
  (eval_subst env row.lookup? e).same .empty row fun _ => (Option.or_none).symm

/-- Rows that bind the names read to the same values give the same value. -/
theorem value_congr (env : EvalEnv) {e : Expr} (h : ∀ x ∈ e.reads, row.lookup? x = row'.lookup? x) :
    e.value env row = e.value env row' := by
  rw [← value_subst, subst_congr e h, value_subst]

/-- The free names decide on the value of an expression or on its failure, and where they all have
values the expression does not fail for want of one. -/
theorem value_free (env : EvalEnv) (e : Expr) :
    (∀ row row' : Row, (∀ x ∈ e.freeNames, row.lookup? x = row'.lookup? x) →
      e.value env row = e.value env row') ∧
    ∀ row : Row, (∀ x ∈ e.freeNames, row.has x = true) →
      ∀ x, e.value env row ≠ .error (.unboundVariable x) := by
  constructor
  · intro row row' hagree
    apply value_congr
    intro x hx
    exact hagree x (mem_freeNames.2 hx)
  · intro row hbound x hfail
    -- the name that is missed would be one of those read, and these all have values
    obtain ⟨hx, hlacks⟩ := lacking_of_value hfail
    rw [hbound x (mem_freeNames.2 hx)] at hlacks
    cases hlacks

/-- A comprehension hides the `x` of the row, which is a number here and nothing there. -/
theorem value_free_comprehension :
    let env : EvalEnv := ⟨[], .default, ⟨fun _ => none, ⟨2024, 1, 1, rfl⟩⟩⟩
    let e : Expr := .comprehension "x" (.var "items") (some (.binary .less (.var "x") (.var "y")))
      (some (.binary .add (.var "x") (.var "y")))
    let items : Value := .list [.int 1, .int 5]
    let row : Row := ⟨[("items", items), ("x", .int 9), ("y", .int 3)], [], []⟩
    let row' : Row := ⟨[("y", .int 7)], [[("items", items)]], [("y", .int 3)]⟩
    e.freeNames = ["items", "y"] ∧ e.value env row = .ok (.list [.int 4]) ∧
      e.value env row = e.value env row' ∧ e.value env row' ≠ .error (.unboundVariable "x") := by
  intro env e items row row'
  have hnames : e.freeNames = ["items", "y"] := by decide
  have hagree : ∀ x ∈ e.freeNames, row.lookup? x = row'.lookup? x := by
    rw [hnames]
    exact List.forall_mem_cons.2 ⟨rfl, List.forall_mem_singleton.2 rfl⟩
  have hbound : ∀ x ∈ e.freeNames, row'.has x = true := by
    rw [hnames]
    decide
  exact ⟨hnames, rfl, (value_free env e).1 row row' hagree, (value_free env e).2 row' hbound "x"⟩

end Expr

end PropertyGraph
