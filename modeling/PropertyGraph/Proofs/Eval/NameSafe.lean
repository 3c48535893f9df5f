import PropertyGraph.Proofs.Eval.Failing

/-!
# Evaluation where all names have values

The only failure that a missing name brings about is that of the name itself: no operator and no
function fails for this cause.  So an expression never does in a row that binds what it reads.

    NameSafe             a result, or a failure for another cause
    Expr.nameSafe_value  evaluation in a row that binds the names read
-/

namespace PropertyGraph

/-- A result of which `P` holds, or a failure for another cause than a name without a value. -/
def NameSafe {α : Type} (P : α → Prop) : Except Error α → Prop
  | .ok a => P a
  | .error e => ∀ x, e ≠ .unboundVariable x

namespace NameSafe

variable {α β : Type} {P Q : α → Prop} {R : β → Prop} {r : Except Error α}

theorem mono (h : NameSafe P r) (hpq : ∀ a, P a → Q a) : NameSafe Q r := by
  cases r with
  | ok a => exact hpq a h
  | error e => exact h

theorem bind (h : NameSafe P r) {f : α → Except Error β} (hf : ∀ a, P a → NameSafe R (f a)) :
    NameSafe R (r >>= f) := by
  cases r with
  | ok a => exact hf a h
  | error e => exact h

theorem map (h : NameSafe P r) {f : α → β} (hf : ∀ a, P a → R (f a)) : NameSafe R (r.map f) := by
  cases r with
  | ok a => exact hf a h
  | error e => exact h

end NameSafe

/-- Results of no interest. -/
abbrev Anything {α : Type} : α → Prop := fun _ => True

/-- What fails for want of none fails for another cause. -/
theorem FailsOf.nameSafe {α : Type} {r : Except Error α} (h : FailsOf (fun _ => False) r) :
    NameSafe Anything r := by
  cases r with
  | ok a => trivial
  | error e =>
    rintro x rfl
    exact h

/-! ## Expressions -/

namespace Row

variable {row : Row}

/-- The row binds all the names. -/
def HasAll (row : Row) (names : List String) : Prop :=
  ∀ x ∈ names, row.has x = true

theorem hasAll_append {as bs : List String} :
    row.HasAll (as ++ bs) ↔ row.HasAll as ∧ row.HasAll bs :=
  List.forall_mem_append

theorem HasAll.but {names : List String} (h : row.HasAll names) (lacks : String → Prop) :
    row.HasAllBut lacks names := fun x hx => Or.inl (h x hx)

end Row

namespace Expr

variable {e : Expr} {row : Row}

/-- Evaluation in a row that binds the names read. -/
theorem nameSafe_value (env : EvalEnv) (h : row.HasAll e.reads) :
    NameSafe Anything (e.value env row) :=
  (failsIn_eval env e (h.but _)).nameSafe

theorem nameSafe_holds (env : EvalEnv) (h : row.HasAll e.reads) :
    NameSafe Anything (e.holds env row).1 :=
  ((failsIn_eval env e (h.but _)).bind (eval_keeps env e) RowM.failsIn_isTrue).nameSafe

end Expr

end PropertyGraph
