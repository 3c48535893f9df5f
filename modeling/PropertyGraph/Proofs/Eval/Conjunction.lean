import PropertyGraph.Plan.Compile
import PropertyGraph.Proofs.Eval.Scope

/-!
# Conjunctions

A conjunction is evaluated from left to right up to the first part that is false.  Its parts in a
list are evaluated in the same way however the conjunction is nested, which is why they can be taken
apart and put together again.

    Expr.truth            the truth value of an expression
    Expr.truths           the parts of a conjunction from left to right
    truths_conjuncts      a conjunction is as true as its parts
    truths_of_condition   and so is the conjunction that parts are put together to
-/

namespace PropertyGraph

namespace Expr

variable {env : EvalEnv} {row : Row}

/-- The truth value of an expression. -/
def truth (env : EvalEnv) (row : Row) (e : Expr) : Except Error Truth :=
  (e.value env row).bind Value.toTruth

/-- The parts of a conjunction in turn, up to the first that is false. -/
def truths (env : EvalEnv) (row : Row) : Truth → List Expr → Except Error Truth
  | acc, [] => .ok acc
  | acc, c :: rest =>
    if acc = some false then .ok acc
    else (truth env row c).bind fun t => truths env row (Truth.and acc t) rest

/-- What a condition comes to; without a condition everything is let through. -/
def conditionTruth (env : EvalEnv) (row : Row) : Option Expr → Except Error Truth
  | none => .ok (some true)
  | some e => truth env row e

/-! ## One conjunction -/

theorem toTruth_ofTruth (t : Truth) : (Value.ofTruth t).toTruth = .ok t := by
  rcases t with _ | _ | _ <;> rfl

theorem value_bind {α : Type} (e : Expr) (f : Value → RowM α) :
    ((eval env e >>= f) row).1 = (e.value env row).bind fun v => (f v row).1 := by
  have hkeeps := eval_keeps env e row
  rw [RowM.bind_apply]
  unfold value
  rcases heval : eval env e row with ⟨r, row'⟩
  rw [heval] at hkeeps
  subst hkeeps
  cases r <;> rfl

theorem lift_bind {α β : Type} (r : Except Error α) (f : α → RowM β) :
    ((RowM.lift r >>= f) row).1 = r.bind fun a => (f a row).1 := by
  rw [RowM.bind_apply]
  cases r <;> rfl

theorem value_and (a b : Expr) : (binary .and a b).value env row = (a.value env row).bind fun v =>
    v.toTruth.bind fun l => if l = some false then .ok (.bool false)
      else (b.value env row).bind fun w => w.toTruth.map fun r => .ofTruth (Truth.and l r) := by
  have hright : ∀ l : Truth,
      ((do return .ofTruth (Truth.and l (← RowM.lift (← eval env b).toTruth)) : RowM Value) row).1 =
        (b.value env row).bind fun w => w.toTruth.map fun r => .ofTruth (Truth.and l r) := by
    intro l
    refine (value_bind b _).trans ?_
    congr 1
    funext w
    refine (lift_bind _ _).trans ?_
    cases w.toTruth <;> rfl
  show ((eval env (.binary .and a b)) row).1 = _
  rw [eval]
  refine (value_bind a _).trans ?_
  congr 1
  funext v
  refine (lift_bind _ _).trans ?_
  congr 1
  funext l
  split
  · rfl
  · next hl =>
    rw [if_neg hl]
    exact hright l

/-- The right side of a conjunction counts only where the left one is not false. -/
theorem truth_and (a b : Expr) : truth env row (.binary .and a b) =
    (truth env row a).bind fun l =>
      if l = some false then .ok l else (truth env row b).map (Truth.and l) := by
  unfold truth
  rw [value_and]
  cases a.value env row with
  | error e => rfl
  | ok v =>
    simp only [Except.bind]
    cases v.toTruth with
    | error e => rfl
    | ok l =>
      by_cases hl : l = some false
      · simp only [if_pos hl]
        rw [hl]
        rfl
      · simp only [if_neg hl]
        cases b.value env row with
        | error e => rfl
        | ok w =>
          simp only
          cases w.toTruth with
          | error e => rfl
          | ok r => exact toTruth_ofTruth _

/-- Whether an expression holds is whether it is true. -/
theorem holds_eq (e : Expr) :
    (e.holds env row).1 = (truth env row e).map fun t => t == some true := by
  unfold holds truth
  refine (value_bind e _).trans ?_
  cases e.value env row with
  | error e => rfl
  | ok v =>
    refine (lift_bind _ _).trans ?_
    show _ = v.toTruth.map fun t => t == some true
    cases v.toTruth <;> rfl

/-! ## The parts of a conjunction -/

theorem truths_false (cs : List Expr) : truths env row (some false) cs = .ok (some false) := by
  cases cs with
  | nil => rfl
  | cons c rest => exact if_pos rfl

theorem truths_cons {acc : Truth} (hacc : acc ≠ some false) (c : Expr) (rest : List Expr) :
    truths env row acc (c :: rest) =
      (truth env row c).bind fun t => truths env row (Truth.and acc t) rest :=
  if_neg hacc

theorem truths_append (acc : Truth) (cs ds : List Expr) : truths env row acc (cs ++ ds) =
    (truths env row acc cs).bind fun t => truths env row t ds := by
  induction cs generalizing acc with
  | nil => rfl
  | cons c rest ih =>
    by_cases hacc : acc = some false
    · rw [hacc, truths_false, truths_false]
      exact (truths_false ds).symm
    · rw [List.cons_append, truths_cons hacc, truths_cons hacc]
      cases truth env row c with
      | error e => rfl
      | ok t => exact ih _

theorem and_eq_false {l r : Truth} : Truth.and l r = some false ↔ l = some false ∨ r = some false := by
  rcases l with _ | _ | _ <;> rcases r with _ | _ | _ <;> decide

theorem and_eq_true {l r : Truth} : Truth.and l r = some true ↔ l = some true ∧ r = some true := by
  rcases l with _ | _ | _ <;> rcases r with _ | _ | _ <;> decide

theorem and_true (l : Truth) : Truth.and l (some true) = l := by
  rcases l with _ | _ | _ <;> rfl

theorem and_assoc (k l r : Truth) : Truth.and (Truth.and k l) r = Truth.and k (Truth.and l r) := by
  rcases k with _ | _ | _ <;> rcases l with _ | _ | _ <;> rcases r with _ | _ | _ <;> rfl

theorem truths_eq_true {acc : Truth} {cs : List Expr}
    (h : truths env row acc cs = .ok (some true)) : acc = some true := by
  induction cs generalizing acc with
  | nil => cases h; rfl
  | cons c rest ih =>
    by_cases hacc : acc = some false
    · rw [hacc, truths_false] at h
      cases h
    · rw [truths_cons hacc] at h
      cases ht : truth env row c with
      | error e => rw [ht] at h; cases h
      | ok t =>
        rw [ht] at h
        exact (and_eq_true.1 (ih h)).1

/-- A conjunction is as true as its parts. -/
theorem truths_conjuncts (e : Expr) {acc : Truth} (hacc : acc ≠ some false) :
    truths env row acc e.conjuncts = (truth env row e).map (Truth.and acc) := by
  induction e using conjuncts.induct generalizing acc with
  | case1 a b iha ihb =>
    rw [conjuncts, truths_append, iha hacc, truth_and]
    cases truth env row a with
    | error e => rfl
    | ok l =>
      simp only [Except.map, Except.bind]
      by_cases hl : l = some false
      · rw [if_pos hl, and_eq_false.2 (Or.inr hl), truths_false, hl]
        rcases acc with _ | _ | _ <;> rfl
      · have hand : Truth.and acc l ≠ some false := fun h => by
          rcases and_eq_false.1 h with h | h
          · exact hacc h
          · exact hl h
        rw [if_neg hl, ihb hand]
        cases truth env row b with
        | error e => rfl
        | ok r => exact congrArg Except.ok (and_assoc acc l r)
  | case2 e he =>
    have hsingle : e.conjuncts = [e] := by
      unfold conjuncts
      split
      · next a b => exact absurd rfl (he a b)
      · rfl
    rw [hsingle, truths_cons hacc]
    cases truth env row e <;> rfl

/-- The conjunction that parts are put together to is as true as they are. -/
theorem truths_of_condition (cs : List Expr) :
    conditionTruth env row (conjunction cs) = truths env row (some true) cs := by
  have hfold : ∀ (rest : List Expr) (e : Expr), truth env row (rest.foldl (.binary .and) e) =
      (truth env row e).bind fun t => truths env row t rest := by
    intro rest
    induction rest with
    | nil =>
      intro e
      rw [List.foldl_nil]
      cases truth env row e <;> rfl
    | cons c rest ih =>
      intro e
      rw [List.foldl_cons, ih, truth_and]
      cases truth env row e with
      | error err => rfl
      | ok t =>
        simp only [Except.bind]
        by_cases ht : t = some false
        · rw [if_pos ht, ht, truths_false]
          exact truths_false rest
        · rw [if_neg ht, truths_cons ht]
          cases truth env row c <;> rfl
  cases cs with
  | nil => rfl
  | cons c rest =>
    rw [truths_cons (by decide)]
    refine (hfold rest c).trans ?_
    congr 1
    funext t
    rcases t with _ | _ | _ <;> rfl

end Expr

end PropertyGraph
