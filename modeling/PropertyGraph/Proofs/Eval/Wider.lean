import PropertyGraph.Proofs.Eval.Scope

/-!
# Evaluation where more names are bound

What has a value in a row has the same value in every row that binds more.  A name without a value
is an error, so the value does not come from a name that is new.

    Row.Extends         the second row binds all that the first one does
    RowM.Widens         a result in a row is the result in every row that extends it
    Expr.eval_widens    evaluation is such a computation, by recursion over the expression
-/

namespace PropertyGraph

namespace Row

/-- The second row binds all names that the first one does, and to the same values. -/
def Extends (row wider : Row) : Prop :=
  ∀ name v, row.lookup? name = some v → wider.lookup? name = some v

variable {row wider : Row}

theorem Extends.refl (row : Row) : row.Extends row := fun _ _ h => h

theorem Extends.trans {widest : Row} (h : row.Extends wider) (h' : wider.Extends widest) :
    row.Extends widest :=
  fun name v hv => h' name v (h name v hv)

theorem Extends.push (h : row.Extends wider) (x : String) (v : Value) :
    (row.push x v).Extends (wider.push x v) := by
  intro name w hw
  rw [lookup?_push] at hw ⊢
  split at hw
  · next hx => rw [if_pos hx]; exact hw
  · next hx => rw [if_neg hx]; exact h name w hw

/-- Without temporary scopes a child sees all that the row sees. -/
theorem extends_child (hscopes : row.scopes = []) : row.Extends row.child := by
  intro name v hv
  unfold lookup? child at *
  rw [hscopes] at hv
  exact hv

end Row

namespace RowM

variable {α β : Type}

/-- A result of the computation in a row is its result in every row that extends it. -/
def Widens (c : RowM α) : Prop :=
  ∀ row wider a, row.Extends wider → (c row).1 = .ok a → (c wider).1 = .ok a

theorem widens_pure (a : α) : Widens (pure a : RowM α) := fun _ _ _ _ h => h

theorem widens_fail (e : Error) : Widens (fail e : RowM α) := fun _ _ _ _ h => h

theorem widens_lift (r : Except Error α) : Widens (lift r) := fun _ _ _ _ h => h

theorem Widens.bind {c : RowM α} {f : α → RowM β} (hkeep : Keeps c) (hc : Widens c)
    (hf : ∀ a, Widens (f a)) : Widens (c >>= f) := by
  intro row wider b hrows hb
  rw [bind_fst hkeep] at hb ⊢
  cases hrun : (c row).1 with
  | error e => rw [hrun] at hb; cases hb
  | ok a =>
    rw [hrun] at hb
    rw [hc row wider a hrows hrun]
    exact hf a row wider b hrows hb

theorem Widens.within {c : RowM α} (hkeep : Keeps c) (hc : Widens c) (name : String) (v : Value) :
    Widens (within name v c) := by
  intro row wider a hrows ha
  rw [within_fst hkeep] at ha ⊢
  exact hc _ _ a (hrows.push name v) ha

theorem widens_isTrue (v : Value) : Widens (isTrue v) :=
  .bind (keeps_lift _) (widens_lift _) fun _ => widens_pure _

theorem widens_listItems (v : Value) : Widens (listItems v) := by
  unfold listItems
  split
  · exact widens_pure _
  · exact widens_pure _
  · exact widens_fail _

theorem Widens.keepItem {filter result : RowM (Option Value)} (hfkeep : Keeps filter)
    (hf : Widens filter) (hrkeep : Keeps result) (hr : Widens result) (item : Value) :
    Widens (keepItem filter result item) := by
  have hkept : ∀ kept : Bool, Widens (if kept then do return [(← result).getD item]
      else return [] : RowM (List Value)) := by
    intro kept
    split
    · exact .bind hrkeep hr fun _ => widens_pure _
    · exact widens_pure _
  refine .bind hfkeep hf fun o => ?_
  cases o with
  | none => exact .bind (keeps_pure true) (widens_pure true) hkept
  | some v => exact .bind (keeps_isTrue v) (widens_isTrue v) hkept

theorem Widens.comprehend {filter result : RowM (Option Value)} (hfkeep : Keeps filter)
    (hf : Widens filter) (hrkeep : Keeps result) (hr : Widens result) (name : String)
    (items : List Value) : Widens (comprehend name filter result items) := by
  induction items with
  | nil => exact widens_pure _
  | cons item rest ih =>
    have hitem := hfkeep.keepItem hrkeep item
    exact .bind (hitem.within name item)
      ((Widens.keepItem hfkeep hf hrkeep hr item).within hitem name item) fun _ =>
        .bind (hfkeep.comprehend hrkeep name rest) ih fun _ => widens_pure _

theorem Widens.outcomes {predicate : RowM Value} (hkeep : Keeps predicate) (hp : Widens predicate)
    (name : String) (items : List Value) : Widens (outcomes name predicate items) := by
  induction items with
  | nil => exact widens_pure _
  | cons item rest ih =>
    have hitemkeep : Keeps (do lift (← predicate).toTruth) := hkeep.bind fun v => keeps_lift _
    have hitem : Widens (do lift (← predicate).toTruth) :=
      .bind hkeep hp fun v => widens_lift v.toTruth
    exact .bind (hitemkeep.within name item) (hitem.within hitemkeep name item) fun _ =>
      .bind (hkeep.outcomes name rest) ih fun _ => widens_pure _

end RowM

namespace Expr

open RowM

mutual

theorem eval_widens (env : EvalEnv) (e : Expr) : Widens (eval env e) := by
  cases e with
  | literal v => unfold eval; exact widens_pure _
  | parameter name =>
    unfold eval
    split
    · exact widens_pure _
    · exact widens_fail _
  | var name =>
    unfold eval
    intro row wider v hrows hv
    unfold Row.get at hv ⊢
    dsimp only at hv ⊢
    cases hx : row.lookup? name with
    | none => rw [hx] at hv; cases hv
    | some w => rw [hx] at hv; rw [hrows name w hx]; exact hv
  | property target key =>
    unfold eval
    exact .bind (eval_keeps env target) (eval_widens env target) fun _ => widens_lift _
  | hasLabels target labels =>
    unfold eval
    exact .bind (eval_keeps env target) (eval_widens env target) fun _ => widens_lift _
  | list items =>
    unfold eval
    exact .bind (evalList_keeps env items) (evalList_widens env items) fun _ => widens_pure _
  | map entries =>
    unfold eval
    exact .bind (evalEntries_keeps env entries) (evalEntries_widens env entries) fun _ =>
      widens_pure _
  | index target position =>
    unfold eval
    exact .bind (eval_keeps env target) (eval_widens env target) fun _ =>
      .bind (eval_keeps env position) (eval_widens env position) fun _ => widens_lift _
  | slice target lower upper =>
    unfold eval
    exact .bind (eval_keeps env target) (eval_widens env target) fun _ =>
      .bind (evalOption_keeps env lower) (evalOption_widens env lower) fun _ =>
        .bind (evalOption_keeps env upper) (evalOption_widens env upper) fun _ => widens_lift _
  | unary op operand =>
    unfold eval
    exact .bind (eval_keeps env operand) (eval_widens env operand) fun _ => widens_lift _
  | binary op left right =>
    have hlkeep := eval_keeps env left
    have hl := eval_widens env left
    have hrkeep := eval_keeps env right
    have hr := eval_widens env right
    have hright : ∀ f : Truth → Value,
        Widens (do return f (← lift (← eval env right).toTruth)) := fun f =>
      .bind hrkeep hr fun v => .bind (keeps_lift v.toTruth) (widens_lift _) fun _ => widens_pure _
    cases op with
    | and =>
      unfold eval
      refine .bind hlkeep hl fun v => .bind (keeps_lift _) (widens_lift _) fun t => ?_
      split
      · exact widens_pure _
      · exact hright fun r => .ofTruth (Truth.and t r)
    | or =>
      unfold eval
      refine .bind hlkeep hl fun v => .bind (keeps_lift _) (widens_lift _) fun t => ?_
      split
      · exact widens_pure _
      · exact hright fun r => .ofTruth (Truth.or t r)
    | xor =>
      unfold eval
      exact .bind hlkeep hl fun v => .bind (keeps_lift _) (widens_lift _) fun t =>
        hright fun r => .ofTruth (Truth.xor t r)
    | _ =>
      unfold eval
      exact .bind hlkeep hl fun _ => .bind hrkeep hr fun _ => widens_lift _
  | isNull operand =>
    unfold eval
    exact .bind (eval_keeps env operand) (eval_widens env operand) fun _ => widens_pure _
  | isNotNull operand =>
    unfold eval
    exact .bind (eval_keeps env operand) (eval_widens env operand) fun _ => widens_pure _
  | call function args distinct =>
    unfold eval
    split
    · exact widens_fail _
    · exact .bind (evalList_keeps env args) (evalList_widens env args) fun _ => widens_lift _
  | countAll => unfold eval; exact widens_fail _
  | case operand branches default =>
    unfold eval
    refine .bind (evalOption_keeps env operand) (evalOption_widens env operand) fun o =>
      .bind (evalBranches_keeps env o branches) (evalBranches_widens env o branches)
        fun found => ?_
    split
    · exact widens_pure _
    · exact .bind (evalOption_keeps env default) (evalOption_widens env default) fun _ =>
        widens_pure _
  | comprehension name source filter result =>
    unfold eval
    refine .bind (eval_keeps env source) (eval_widens env source) fun v =>
      .bind (keeps_listItems v) (widens_listItems v) fun items => ?_
    have hfilter := evalOption_keeps env filter
    have hresult := evalOption_keeps env result
    split
    · exact widens_pure _
    · exact .bind (hfilter.comprehend hresult name _)
        (.comprehend hfilter (evalOption_widens env filter) hresult (evalOption_widens env result)
          name _) fun _ => widens_pure _
  | quantified kind name source predicate =>
    unfold eval
    refine .bind (eval_keeps env source) (eval_widens env source) fun v =>
      .bind (keeps_listItems v) (widens_listItems v) fun items => ?_
    have hpredicate := eval_keeps env predicate
    split
    · exact widens_pure _
    · exact .bind (hpredicate.outcomes name _)
        (.outcomes hpredicate (eval_widens env predicate) name _) fun _ => widens_pure _
  | pattern part => unfold eval; exact widens_fail _

theorem evalList_widens (env : EvalEnv) (es : List Expr) : Widens (evalList env es) := by
  cases es with
  | nil => unfold evalList; exact widens_pure _
  | cons e rest =>
    unfold evalList
    exact .bind (eval_keeps env e) (eval_widens env e) fun _ =>
      .bind (evalList_keeps env rest) (evalList_widens env rest) fun _ => widens_pure _

theorem evalEntries_widens (env : EvalEnv) (entries : List (String × Expr)) :
    Widens (evalEntries env entries) := by
  cases entries with
  | nil => unfold evalEntries; exact widens_pure _
  | cons entry rest =>
    obtain ⟨key, e⟩ := entry
    unfold evalEntries
    exact .bind (eval_keeps env e) (eval_widens env e) fun _ =>
      .bind (evalEntries_keeps env rest) (evalEntries_widens env rest) fun _ => widens_pure _

theorem evalOption_widens (env : EvalEnv) (o : Option Expr) : Widens (evalOption env o) := by
  cases o with
  | none => unfold evalOption; exact widens_pure _
  | some e =>
    unfold evalOption
    exact .bind (eval_keeps env e) (eval_widens env e) fun _ => widens_pure _

theorem evalBranches_widens (env : EvalEnv) (operand : Option Value)
    (branches : List (Expr × Expr)) : Widens (evalBranches env operand branches) := by
  cases branches with
  | nil => unfold evalBranches; exact widens_pure _
  | cons branch rest =>
    obtain ⟨condition, result⟩ := branch
    unfold evalBranches
    have happlies : ∀ applies : Bool, Widens (if applies then do return some (← eval env result)
        else evalBranches env operand rest : RowM (Option Value)) := by
      intro applies
      split
      · exact .bind (eval_keeps env result) (eval_widens env result) fun _ => widens_pure _
      · exact evalBranches_widens env operand rest
    refine .bind (eval_keeps env condition) (eval_widens env condition) fun v => ?_
    cases operand with
    | none => exact .bind (keeps_isTrue v) (widens_isTrue v) happlies
    | some w => exact .bind (keeps_pure _) (widens_pure _) happlies

end

/-- An expression that has a value keeps it where more is bound. -/
theorem value_widens {env : EvalEnv} {e : Expr} {row wider : Row} {v : Value}
    (hrows : row.Extends wider) (h : e.value env row = .ok v) : e.value env wider = .ok v :=
  eval_widens env e row wider v hrows h

end Expr

end PropertyGraph
