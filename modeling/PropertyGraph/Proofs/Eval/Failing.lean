import PropertyGraph.Proofs.Eval.Names
import PropertyGraph.Proofs.Eval.Scope

/-!
# How evaluation fails

An operator or a function fails because of the values that it is given.  Beyond that an expression
fails where a name that it reads has no value in the row, and in no other way: the temporary scopes
that it closes are always there.

    Error.Lacking        what a failure may be where some names have no value
    FailsOf              a result, or such a failure
    Expr.failsOf_value   evaluation in a row, where names that it reads may be without a value
    Expr.eval_restores   the row after evaluation, and the scopes closed in it
-/

namespace PropertyGraph

/-- A failure that evaluation may end in where it lacks the values of some names. -/
def Error.Lacking (lacks : String → Prop) : Error → Prop
  | .unboundVariable x => lacks x
  | .invalidArgument (.tooFewScopes _ _) => False
  | _ => True

/-- A result, or a failure that comes of values or of a name without one. -/
def FailsOf {α : Type} (lacks : String → Prop) : Except Error α → Prop
  | .ok _ => True
  | .error e => e.Lacking lacks

variable {lacks : String → Prop}

namespace FailsOf

variable {α β : Type} {r : Except Error α}

theorem bind (h : FailsOf lacks r) {f : α → Except Error β} (hf : ∀ a, FailsOf lacks (f a)) :
    FailsOf lacks (r >>= f) := by
  cases r with
  | ok a => exact hf a
  | error e => exact h

theorem map (h : FailsOf lacks r) {f : α → β} : FailsOf lacks (r.map f) := by
  cases r with
  | ok a => trivial
  | error e => exact h

/-- A failure stays one, whatever was to follow. -/
theorem throw_bind {e : Error} (he : e.Lacking lacks) (f : α → Except Error β) :
    FailsOf lacks (throw e >>= f) := he

end FailsOf

theorem failsOf_ok {α : Type} (a : α) : FailsOf lacks (.ok a) := trivial

theorem failsOf_mismatch {α : Type} (wanted : String) (v : Value) :
    FailsOf (α := α) lacks (.error (.mismatch wanted v)) := trivial

/-! ## Operators -/

namespace Value

theorem failsOf_toTruth (v : Value) : FailsOf lacks v.toTruth := by
  unfold toTruth
  split <;> trivial

theorem failsOf_ofInt (n : Int) : FailsOf lacks (ofInt n) := by
  unfold ofInt
  split <;> trivial

theorem failsOf_onDoubles (f : Double → Double → Double) (a b : Value) :
    FailsOf lacks (onDoubles f a b) := by
  have hnumbers : FailsOf lacks (numbers a b) := by
    unfold numbers
    split <;> trivial
  exact hnumbers.map

theorem failsOf_shiftDate (date : Date) (d : Duration) : FailsOf lacks (shiftDate date d) := by
  unfold shiftDate
  split <;> trivial

theorem failsOf_add (a b : Value) : FailsOf lacks (a.add b) := by
  unfold add
  split
  case h_3 => exact failsOf_ofInt _
  case h_9 => exact failsOf_shiftDate _ _
  case h_10 => exact failsOf_shiftDate _ _
  case h_11 =>
    split
    · trivial
    · exact failsOf_onDoubles _ _ _
  case h_12 =>
    split
    · trivial
    · exact failsOf_onDoubles _ _ _
  case h_13 => exact failsOf_onDoubles _ _ _
  all_goals trivial

theorem failsOf_sub (a b : Value) : FailsOf lacks (a.sub b) := by
  unfold sub
  split
  · trivial
  · trivial
  · exact failsOf_ofInt _
  · trivial
  · exact failsOf_shiftDate _ _
  · exact failsOf_onDoubles _ _ _

theorem failsOf_mul (a b : Value) : FailsOf lacks (a.mul b) := by
  unfold mul
  split
  · trivial
  · trivial
  · exact failsOf_ofInt _
  · exact failsOf_onDoubles _ _ _

theorem failsOf_div (a b : Value) : FailsOf lacks (a.div b) := by
  unfold div
  split
  · trivial
  · trivial
  · split
    · trivial
    · exact failsOf_ofInt _
  · exact failsOf_onDoubles _ _ _

theorem failsOf_mod (a b : Value) : FailsOf lacks (a.mod b) := by
  unfold mod
  split
  · trivial
  · trivial
  · split
    · trivial
    · exact (failsOf_ofInt _).bind fun _ => failsOf_ofInt _
  · exact failsOf_onDoubles _ _ _

theorem failsOf_pow (a b : Value) : FailsOf lacks (a.pow b) := by
  unfold pow
  split
  · trivial
  · trivial
  · exact failsOf_onDoubles _ _ _

theorem failsOf_isIn (a b : Value) : FailsOf lacks (a.isIn b) := by
  unfold isIn
  split <;> trivial

theorem failsOf_logical (f : Truth → Truth → Truth) (a b : Value) :
    FailsOf lacks (logical f a b) :=
  (failsOf_toTruth a).bind fun _ => (failsOf_toTruth b).bind fun _ => trivial

theorem failsOf_applyBinary (op : BinaryOp) (a b : Value) :
    FailsOf lacks (applyBinary op a b) := by
  unfold applyBinary
  split
  case h_1 => exact failsOf_add a b
  case h_2 => exact failsOf_sub a b
  case h_3 => exact failsOf_mul a b
  case h_4 => exact failsOf_div a b
  case h_5 => exact failsOf_mod a b
  case h_6 => exact failsOf_pow a b
  case h_7 => exact failsOf_logical _ a b
  case h_8 => exact failsOf_logical _ a b
  case h_9 => exact failsOf_logical _ a b
  case h_16 => exact failsOf_isIn a b
  case h_20 => trivial
  all_goals trivial

theorem failsOf_applyUnary (op : UnaryOp) (v : Value) : FailsOf lacks (applyUnary op v) := by
  unfold applyUnary
  split
  · exact (failsOf_toTruth v).bind fun _ => trivial
  · unfold negate
    split
    · trivial
    · exact failsOf_ofInt _
    · trivial
    · trivial
    · trivial
  · split
    · trivial
    · trivial

theorem failsOf_part (stored : String → String) (v : Value) (key : String) :
    FailsOf lacks (v.part stored key) := by
  unfold part
  split
  case h_7 => trivial
  all_goals trivial

theorem failsOf_index (stored : String → String) (v i : Value) :
    FailsOf lacks (v.index stored i) := by
  unfold index
  split
  case h_5 => exact failsOf_part _ _ _
  case h_6 => exact failsOf_part _ _ _
  case h_7 => exact failsOf_part _ _ _
  all_goals trivial

theorem failsOf_slice (v : Value) (lower upper : Option Value) :
    FailsOf lacks (v.slice lower upper) := by
  have hbound : ∀ n d o, FailsOf lacks (sliceBound n d o) := by
    intro n d o
    unfold sliceBound
    split
    case h_4 => trivial
    all_goals trivial
  unfold slice
  split
  · trivial
  · refine (hbound _ _ _).bind fun low => (hbound _ _ _).bind fun high => ?_
    split <;> trivial
  · trivial

theorem failsOf_carries (stored : String → String) (labels : List String) (v : Value) :
    FailsOf lacks (v.carries stored labels) := by
  unfold carries
  split <;> trivial

theorem failsOf_toTextValue (v : Value) : FailsOf lacks v.toTextValue := by
  unfold toTextValue
  split
  case h_8 => trivial
  all_goals trivial

theorem failsOf_toInteger (v : Value) : FailsOf lacks v.toInteger := by
  unfold toInteger
  split
  case h_4 => dsimp only; split <;> trivial
  case h_6 => trivial
  all_goals trivial

theorem failsOf_toFloat (v : Value) : FailsOf lacks v.toFloat := by
  unfold toFloat
  split
  case h_5 => trivial
  all_goals trivial

theorem failsOf_toBoolean (v : Value) : FailsOf lacks v.toBoolean := by
  unfold toBoolean
  split
  case h_4 => split <;> trivial
  case h_5 => trivial
  all_goals trivial

end Value

/-! ## Functions -/

namespace Function

theorem failsOf_integer (wanted : String) (v : Value) : FailsOf lacks (integer wanted v) := by
  unfold integer
  split
  · trivial
  · split
    · trivial
    · trivial
  · trivial

theorem failsOf_onText (f : List Char → List Char) (v : Value) :
    FailsOf lacks (onText f v) := by
  unfold onText
  split <;> trivial

theorem failsOf_onNumber (f : Double → Double) (v : Value) :
    FailsOf lacks (onNumber f v) := by
  unfold onNumber
  split <;> trivial

theorem failsOf_substringOf (s start : Value) (length? : Option Value) :
    FailsOf lacks (substringOf s start length?) := by
  unfold substringOf
  split
  · trivial
  · refine (failsOf_integer _ _).bind fun n => ?_
    by_cases hn : n < 0
    · rw [if_pos hn]
      exact .throw_bind (e := .invalidArgument .negativeSubstringStart) trivial _
    · rw [if_neg hn]
      dsimp only
      split
      · trivial
      · refine (failsOf_integer _ _).bind fun k => ?_
        by_cases hk : k < 0
        · rw [if_pos hk]
          exact .throw_bind (e := .invalidArgument .negativeSubstringLength) trivial _
        · rw [if_neg hk]
          trivial
  · trivial

theorem failsOf_sideOf (fromStart : Bool) (s length : Value) :
    FailsOf lacks (sideOf fromStart s length) := by
  unfold sideOf
  split
  · trivial
  · exact (failsOf_integer _ _).bind fun n => trivial
  · trivial

theorem failsOf_replaceIn (s old new : Value) : FailsOf lacks (replaceIn s old new) := by
  unfold replaceIn
  split
  case h_5 => trivial
  all_goals trivial

theorem failsOf_splitText (s separator : Value) : FailsOf lacks (splitText s separator) := by
  unfold splitText
  split
  case h_4 => trivial
  all_goals trivial

theorem failsOf_signOf (v : Value) : FailsOf lacks (signOf v) := by
  unfold signOf
  split
  case h_4 => trivial
  all_goals trivial

theorem failsOf_rangeOf (start stop : Value) (step? : Option Value) :
    FailsOf lacks (rangeOf start stop step?) := by
  unfold rangeOf
  refine (failsOf_integer _ _).bind fun a => (failsOf_integer _ _).bind fun b => ?_
  have hterms : ∀ step : Int, FailsOf lacks (do
      if step = 0 then throw (.invalidArgument .zeroRangeStep)
      return .list ((rangeTerms a b step).map (.int <| Int64.ofInt ·)) : Except Error Value) := by
    intro step
    split <;> trivial
  split
  · exact (failsOf_integer _ _).bind fun c => hterms c
  · exact hterms 1

theorem failsOf_mapInteger? (entries : Properties) (name : String) :
    FailsOf lacks (mapInteger? entries name) := by
  unfold mapInteger?
  split
  · trivial
  · trivial
  · exact (failsOf_integer _ _).map

theorem failsOf_mapInteger (entries : Properties) (name : String) :
    FailsOf lacks (mapInteger entries name) :=
  (failsOf_mapInteger? entries name).bind fun _ => trivial

theorem failsOf_dateOf (v : Value) : FailsOf lacks (dateOf v) := by
  have hmap : ∀ entries, FailsOf lacks (dateOfMap entries) := by
    intro entries
    refine (failsOf_mapInteger? entries _).bind fun year => ?_
    split
    · refine (failsOf_mapInteger? entries _).bind fun month =>
        (failsOf_mapInteger? entries _).bind fun day => ?_
      dsimp only
      split <;> trivial
    · trivial
  unfold dateOf
  split
  · trivial
  · trivial
  · split
    · trivial
    · trivial
  · exact hmap _
  · trivial

theorem failsOf_durationOf (v : Value) : FailsOf lacks (durationOf v) := by
  have hmap : ∀ entries, FailsOf lacks (durationOfMap entries) := by
    intro entries
    have hpart : ∀ name, FailsOf lacks (mapInteger entries name) := failsOf_mapInteger entries
    exact (hpart _).bind fun _ => (hpart _).bind fun _ => (hpart _).bind fun _ =>
      (hpart _).bind fun _ => (hpart _).bind fun _ => (hpart _).bind fun _ =>
        (hpart _).bind fun _ => trivial
  unfold durationOf
  split
  · trivial
  · split
    · trivial
    · trivial
  · exact hmap _
  · trivial

theorem failsOf_applyOne (world : World) (f : Function) (v : Value) :
    FailsOf lacks (applyOne world f v) := by
  unfold applyOne
  split
  all_goals with_reducible first
    | exact failsOf_ok _
    | exact failsOf_mismatch _ _
    | exact Value.failsOf_toTextValue _
    | exact Value.failsOf_toInteger _
    | exact Value.failsOf_toFloat _
    | exact Value.failsOf_toBoolean _
    | exact Value.failsOf_ofInt _
    | exact failsOf_onText _ _
    | exact failsOf_onNumber _ _
    | exact failsOf_signOf _
    | exact failsOf_dateOf _
    | exact failsOf_durationOf _

theorem failsOf_apply (world : World) (f : Function) (args : List Value) :
    FailsOf lacks (f.apply world args) := by
  unfold apply
  split
  · trivial
  · trivial
  · trivial
  · exact failsOf_replaceIn _ _ _
  · exact failsOf_splitText _ _
  · exact failsOf_substringOf _ _ _
  · exact failsOf_sideOf _ _ _
  · exact failsOf_sideOf _ _ _
  · exact failsOf_rangeOf _ _ _
  · trivial
  · exact failsOf_applyOne _ _ _
  · trivial

theorem failsOf_call (world : World) (name : String) (args : List Value) :
    FailsOf lacks (call world name args) := by
  unfold call
  split
  · split <;> trivial
  · split
    · exact failsOf_apply _ _ _
    · split
      · exact failsOf_apply _ _ _
      · trivial

end Function

/-! ## Computations on a row -/

namespace RowM

variable {α β : Type} {row : Row}

/-- The computation fails in a row of nothing but values and the names that are lacking. -/
def FailsIn (lacks : String → Prop) (row : Row) (c : RowM α) : Prop :=
  FailsOf lacks (c row).1

theorem failsIn_pure (a : α) : FailsIn lacks row (pure a : RowM α) := trivial

theorem failsIn_lift {r : Except Error α} (h : FailsOf lacks r) : FailsIn lacks row (lift r) := h

theorem FailsIn.bind {c : RowM α} {f : α → RowM β} (hc : FailsIn lacks row c) (hkeep : Keeps c)
    (hf : ∀ a, FailsIn lacks row (f a)) : FailsIn lacks row (c >>= f) := by
  have hrow := hkeep row
  unfold FailsIn at hc ⊢
  rw [bind_apply]
  split
  · next a row' hr =>
    rw [hr] at hrow
    cases hrow
    exact hf a
  · next e row' hr =>
    rw [hr] at hc
    exact hc

theorem FailsIn.within {c : RowM α} {name : String} {v : Value}
    (hc : FailsIn lacks (row.push name v) c) (hkeep : Keeps c) :
    FailsIn lacks row (within name v c) := by
  have hrow := hkeep (row.push name v)
  unfold FailsIn at hc ⊢
  unfold RowM.within
  rcases hrun : c (row.push name v) with ⟨r, row'⟩
  rw [hrun] at hc hrow
  subst hrow
  simp only [pop_push]
  exact hc

theorem failsIn_isTrue (v : Value) : FailsIn lacks row (isTrue v) :=
  (failsIn_lift v.failsOf_toTruth).bind (keeps_lift _) fun _ => failsIn_pure _

theorem failsIn_listItems (v : Value) : FailsIn lacks row (listItems v) := by
  unfold listItems
  split
  · exact failsIn_pure _
  · exact failsIn_pure _
  · exact failsOf_mismatch _ _

section Items

variable {name : String} {filter result : RowM (Option Value)} {predicate : RowM Value}

theorem FailsIn.comprehend (hf : ∀ v, FailsIn lacks (row.push name v) filter) (hkf : Keeps filter)
    (hr : ∀ v, FailsIn lacks (row.push name v) result) (hkr : Keeps result) (items : List Value) :
    FailsIn lacks row (comprehend name filter result items) := by
  induction items with
  | nil => exact failsIn_pure _
  | cons item rest ih =>
    have hkept : ∀ kept : Bool, FailsIn lacks (row.push name item)
        (if kept then do return [(← result).getD item] else return [] : RowM (List Value)) := by
      intro kept
      split
      · exact (hr item).bind hkr fun _ => failsIn_pure _
      · exact failsIn_pure _
    have hitem : FailsIn lacks (row.push name item) (keepItem filter result item) := by
      refine (hf item).bind hkf fun o => ?_
      cases o with
      | none => exact (failsIn_pure true).bind (keeps_pure true) hkept
      | some v => exact (failsIn_isTrue v).bind (keeps_isTrue v) hkept
    have hkeep := hkf.keepItem hkr item
    exact (hitem.within hkeep).bind (hkeep.within name item) fun _ =>
      ih.bind (hkf.comprehend hkr name rest) fun _ => failsIn_pure _

theorem FailsIn.outcomes (hp : ∀ v, FailsIn lacks (row.push name v) predicate)
    (hkp : Keeps predicate) (items : List Value) :
    FailsIn lacks row (outcomes name predicate items) := by
  induction items with
  | nil => exact failsIn_pure _
  | cons item rest ih =>
    have hkeep : Keeps (do lift (← predicate).toTruth : RowM Truth) :=
      hkp.bind fun v => keeps_lift v.toTruth
    have hitem : FailsIn lacks (row.push name item)
        (do lift (← predicate).toTruth : RowM Truth) :=
      (hp item).bind hkp fun v => failsIn_lift v.failsOf_toTruth
    exact (hitem.within hkeep).bind (hkeep.within name item) fun _ =>
      ih.bind (hkp.outcomes name rest) fun _ => failsIn_pure _

end Items

end RowM

/-! ## Expressions -/

namespace Row

variable {row : Row} {x y : String} {v : Value}

/-- The row binds all the names but such as are lacking. -/
def HasAllBut (lacks : String → Prop) (row : Row) (names : List String) : Prop :=
  ∀ x ∈ names, row.has x = true ∨ lacks x

theorem has_push : (row.push y v).has x = true ↔ x = y ∨ row.has x = true := by
  unfold Row.has
  rw [lookup?_push]
  split
  · next h => simp [h]
  · next h => simp [Ne.symm h]

theorem hasAllBut_append {as bs : List String} :
    row.HasAllBut lacks (as ++ bs) ↔ row.HasAllBut lacks as ∧ row.HasAllBut lacks bs :=
  List.forall_mem_append

/-- A temporary scope binds its name and hides no others. -/
theorem HasAllBut.push {names : List String} (h : row.HasAllBut lacks (names.filter (· ≠ y)))
    (v : Value) : (row.push y v).HasAllBut lacks names := by
  intro x hx
  rw [has_push]
  by_cases hxy : x = y
  · exact Or.inl (Or.inl hxy)
  · exact (h x (List.mem_filter.2 ⟨hx, decide_eq_true hxy⟩)).imp_left Or.inr

end Row

namespace Expr

open RowM

mutual

theorem failsIn_eval (env : EvalEnv) (e : Expr) {row : Row} (h : row.HasAllBut lacks e.reads) :
    FailsIn lacks row (eval env e) := by
  cases e with
  | literal v => unfold eval; exact failsIn_pure _
  | parameter name =>
    unfold eval
    split
    · exact failsIn_pure _
    · trivial
  | var name =>
    have hname := h name (List.mem_singleton.2 rfl)
    unfold eval
    show FailsOf lacks (row.get name)
    unfold Row.get
    split
    · trivial
    · next hnone =>
      apply hname.resolve_left
      simp [Row.has, hnone]
  | property target key =>
    unfold eval
    exact (failsIn_eval env target h).bind (eval_keeps env target) fun v =>
      failsIn_lift (v.failsOf_part _ key)
  | hasLabels target labels =>
    unfold eval
    exact (failsIn_eval env target h).bind (eval_keeps env target) fun v =>
      failsIn_lift (v.failsOf_carries _ labels)
  | list items =>
    unfold eval
    exact (failsIn_evalList env items h).bind (evalList_keeps env items) fun _ => failsIn_pure _
  | map entries =>
    unfold eval
    exact (failsIn_evalEntries env entries h).bind (evalEntries_keeps env entries) fun _ =>
      failsIn_pure _
  | index target position =>
    obtain ⟨ht, hp⟩ := Row.hasAllBut_append.1 h
    unfold eval
    exact (failsIn_eval env target ht).bind (eval_keeps env target) fun v =>
      (failsIn_eval env position hp).bind (eval_keeps env position) fun i =>
        failsIn_lift (v.failsOf_index _ i)
  | slice target lower upper =>
    obtain ⟨htl, hu⟩ := Row.hasAllBut_append.1 h
    obtain ⟨ht, hl⟩ := Row.hasAllBut_append.1 htl
    unfold eval
    exact (failsIn_eval env target ht).bind (eval_keeps env target) fun v =>
      (failsIn_evalOption env lower hl).bind (evalOption_keeps env lower) fun low =>
        (failsIn_evalOption env upper hu).bind (evalOption_keeps env upper) fun high =>
          failsIn_lift (v.failsOf_slice low high)
  | unary op operand =>
    unfold eval
    exact (failsIn_eval env operand h).bind (eval_keeps env operand) fun v =>
      failsIn_lift (Value.failsOf_applyUnary op v)
  | binary op left right =>
    obtain ⟨hleft, hright⟩ := Row.hasAllBut_append.1 h
    have hl := failsIn_eval env left hleft
    have hr := failsIn_eval env right hright
    have hkl := eval_keeps env left
    have hkr := eval_keeps env right
    have htruth : ∀ v : Value, FailsIn lacks row (lift v.toTruth) := fun v =>
      failsIn_lift v.failsOf_toTruth
    have hrest : ∀ f : Truth → Value,
        FailsIn lacks row (do return f (← lift (← eval env right).toTruth)) := fun f =>
      hr.bind hkr fun v => (htruth v).bind (keeps_lift _) fun _ => failsIn_pure _
    cases op with
    | and =>
      unfold eval
      refine hl.bind hkl fun v => (htruth v).bind (keeps_lift _) fun t => ?_
      split
      · exact failsIn_pure _
      · exact hrest fun r => .ofTruth (Truth.and t r)
    | or =>
      unfold eval
      refine hl.bind hkl fun v => (htruth v).bind (keeps_lift _) fun t => ?_
      split
      · exact failsIn_pure _
      · exact hrest fun r => .ofTruth (Truth.or t r)
    | xor =>
      unfold eval
      exact hl.bind hkl fun v => (htruth v).bind (keeps_lift _) fun t =>
        hrest fun r => .ofTruth (Truth.xor t r)
    | _ =>
      unfold eval
      exact hl.bind hkl fun v => hr.bind hkr fun w =>
        failsIn_lift (Value.failsOf_applyBinary _ v w)
  | isNull operand =>
    unfold eval
    exact (failsIn_eval env operand h).bind (eval_keeps env operand) fun _ => failsIn_pure _
  | isNotNull operand =>
    unfold eval
    exact (failsIn_eval env operand h).bind (eval_keeps env operand) fun _ => failsIn_pure _
  | call function args distinct =>
    unfold eval
    split
    · trivial
    · exact (failsIn_evalList env args h).bind (evalList_keeps env args) fun vs =>
        failsIn_lift (Function.failsOf_call _ function vs)
  | countAll => unfold eval; trivial
  | case operand branches default =>
    obtain ⟨hob, hd⟩ := Row.hasAllBut_append.1 h
    obtain ⟨ho, hb⟩ := Row.hasAllBut_append.1 hob
    unfold eval
    refine (failsIn_evalOption env operand ho).bind (evalOption_keeps env operand) fun o =>
      (failsIn_evalBranches env o branches hb).bind (evalBranches_keeps env o branches)
        fun found => ?_
    split
    · exact failsIn_pure _
    · exact (failsIn_evalOption env default hd).bind (evalOption_keeps env default) fun _ =>
        failsIn_pure _
  | comprehension name source filter result =>
    obtain ⟨hs, hfr⟩ := Row.hasAllBut_append.1 h
    have hinner := fun v => Row.hasAllBut_append.1 (Row.HasAllBut.push hfr v)
    unfold eval
    refine (failsIn_eval env source hs).bind (eval_keeps env source) fun v =>
      (failsIn_listItems v).bind (keeps_listItems v) fun items => ?_
    split
    · exact failsIn_pure _
    · have hf := fun v => failsIn_evalOption env filter (hinner v).1
      have hr := fun v => failsIn_evalOption env result (hinner v).2
      have hkf := evalOption_keeps env filter
      have hkr := evalOption_keeps env result
      exact (FailsIn.comprehend hf hkf hr hkr _).bind (hkf.comprehend hkr name _) fun _ =>
        failsIn_pure _
  | quantified kind name source predicate =>
    obtain ⟨hs, hp⟩ := Row.hasAllBut_append.1 h
    unfold eval
    refine (failsIn_eval env source hs).bind (eval_keeps env source) fun v =>
      (failsIn_listItems v).bind (keeps_listItems v) fun items => ?_
    split
    · exact failsIn_pure _
    · have hpred := fun v => failsIn_eval env predicate (Row.HasAllBut.push hp v)
      have hkp := eval_keeps env predicate
      exact (FailsIn.outcomes hpred hkp _).bind (hkp.outcomes name _) fun _ => failsIn_pure _
  | pattern part => unfold eval; trivial

theorem failsIn_evalList (env : EvalEnv) (es : List Expr) {row : Row}
    (h : row.HasAllBut lacks (listReads es)) : FailsIn lacks row (evalList env es) := by
  cases es with
  | nil => unfold evalList; exact failsIn_pure _
  | cons e rest =>
    obtain ⟨he, hrest⟩ := Row.hasAllBut_append.1 h
    unfold evalList
    exact (failsIn_eval env e he).bind (eval_keeps env e) fun _ =>
      (failsIn_evalList env rest hrest).bind (evalList_keeps env rest) fun _ => failsIn_pure _

theorem failsIn_evalEntries (env : EvalEnv) (entries : List (String × Expr)) {row : Row}
    (h : row.HasAllBut lacks (entryReads entries)) :
    FailsIn lacks row (evalEntries env entries) := by
  cases entries with
  | nil => unfold evalEntries; exact failsIn_pure _
  | cons entry rest =>
    obtain ⟨key, e⟩ := entry
    obtain ⟨he, hrest⟩ := Row.hasAllBut_append.1 h
    unfold evalEntries
    exact (failsIn_eval env e he).bind (eval_keeps env e) fun _ =>
      (failsIn_evalEntries env rest hrest).bind (evalEntries_keeps env rest) fun _ =>
        failsIn_pure _

theorem failsIn_evalOption (env : EvalEnv) (o : Option Expr) {row : Row}
    (h : row.HasAllBut lacks (optionReads o)) : FailsIn lacks row (evalOption env o) := by
  cases o with
  | none => unfold evalOption; exact failsIn_pure _
  | some e =>
    unfold evalOption
    exact (failsIn_eval env e h).bind (eval_keeps env e) fun _ => failsIn_pure _

theorem failsIn_evalBranches (env : EvalEnv) (operand : Option Value)
    (branches : List (Expr × Expr)) {row : Row} (h : row.HasAllBut lacks (branchReads branches)) :
    FailsIn lacks row (evalBranches env operand branches) := by
  cases branches with
  | nil => unfold evalBranches; exact failsIn_pure _
  | cons branch rest =>
    obtain ⟨condition, result⟩ := branch
    obtain ⟨hcr, hrest⟩ := Row.hasAllBut_append.1 h
    obtain ⟨hc, hr⟩ := Row.hasAllBut_append.1 hcr
    unfold evalBranches
    have happlies : ∀ applies : Bool, FailsIn lacks row (if applies then do
        return some (← eval env result)
        else evalBranches env operand rest : RowM (Option Value)) := by
      intro applies
      split
      · exact (failsIn_eval env result hr).bind (eval_keeps env result) fun _ => failsIn_pure _
      · exact failsIn_evalBranches env operand rest hrest
    refine (failsIn_eval env condition hc).bind (eval_keeps env condition) fun v => ?_
    cases operand with
    | none => exact (failsIn_isTrue v).bind (keeps_isTrue v) happlies
    | some w => exact (failsIn_pure _).bind (keeps_pure _) happlies

end

variable {e : Expr} {row : Row}

/-- Evaluation fails of values, or of a name that it reads and that has no value in the row. -/
theorem failsOf_value (env : EvalEnv) (e : Expr) (row : Row) :
    FailsOf (fun x => x ∈ e.reads ∧ row.has x = false) (e.value env row) := by
  refine failsIn_eval env e fun x hx => ?_
  by_cases hhas : row.has x = true
  · exact Or.inl hhas
  · exact Or.inr ⟨hx, Bool.eq_false_iff.2 hhas⟩

theorem lacking_of_value {env : EvalEnv} {err : Error} (h : e.value env row = .error err) :
    err.Lacking fun x => x ∈ e.reads ∧ row.has x = false := by
  have hfails := failsOf_value env e row
  rw [h] at hfails
  exact hfails

/-- Whether evaluation succeeds or fails, and however deep it fails, the row is in the end what it
was; no scope is ever closed that is not open. -/
theorem eval_restores (env : EvalEnv) (e : Expr) (row : Row) :
    (eval env e row).2 = row ∧
      ∀ wanted present,
        (eval env e row).1 ≠ .error (.invalidArgument (.tooFewScopes wanted present)) := by
  constructor
  · exact eval_keeps env e row
  · intro wanted present h
    exact lacking_of_value h

end Expr

end PropertyGraph
