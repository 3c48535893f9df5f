import PropertyGraph.Eval

/-!
# Expressions that do not read the graph

Only two functions look up vertices, those for the ends of a relationship.  What vertices there are
does not matter for an expression that calls neither of them.

    Expr.calls       the functions that an expression calls
    eval_withWorld   evaluation where none of them looks up a vertex
-/

namespace PropertyGraph

/-! ## Functions -/

namespace Function

/-- Does a function look up vertices? -/
def looksUp : Function → Bool
  | .startNode | .endNode => true
  | _ => false

/-- Does the name stand for a function that looks up vertices? -/
def looksUpBy (name : String) : Bool :=
  (ofLower? (Text.lower name)).any looksUp

variable {f : Function} {w w' : World}

theorem applyOne_withWorld (h : f.looksUp = false) (v : Value) :
    applyOne w f v = applyOne w' f v := by
  cases f with
  | startNode => cases h
  | endNode => cases h
  | reverse | abs | size | length | head | last | tail | keys | properties | id | labels | type
  | nodes | relationships => cases v <;> rfl
  | _ => rfl

theorem apply_withWorld (h : f.looksUp = false) (hday : w.today = w'.today) (args : List Value) :
    f.apply w args = f.apply w' args := by
  unfold apply
  split
  case h_3 => rw [hday]
  case h_11 => exact applyOne_withWorld h _
  all_goals rfl

theorem call_withWorld {name : String} (h : looksUpBy name = false) (hday : w.today = w'.today)
    (args : List Value) : call w name args = call w' name args := by
  unfold looksUpBy at h
  unfold call
  split
  · rfl
  · next f hf =>
    rw [hf] at h
    rw [apply_withWorld h hday]

end Function

/-! ## Expressions -/

namespace Expr

mutual

/-- The functions that an expression calls, by name. -/
def calls : Expr → List String
  | .literal _ | .parameter _ | .var _ | .countAll | .pattern _ => []
  | .property e _ | .hasLabels e _ | .unary _ e | .isNull e | .isNotNull e => e.calls
  | .list items => listCalls items
  | .call name items _ => name :: listCalls items
  | .map entries => entryCalls entries
  | .index a b | .binary _ a b => a.calls ++ b.calls
  | .slice e lower upper => e.calls ++ optionCalls lower ++ optionCalls upper
  | .case operand branches default =>
    optionCalls operand ++ branchCalls branches ++ optionCalls default
  | .comprehension _ source filter result =>
    source.calls ++ optionCalls filter ++ optionCalls result
  | .quantified _ _ source predicate => source.calls ++ predicate.calls

/-- The functions that some expressions call. -/
def listCalls : List Expr → List String
  | [] => []
  | e :: rest => e.calls ++ listCalls rest

/-- The functions that the values of some entries call. -/
def entryCalls : List (String × Expr) → List String
  | [] => []
  | (_, e) :: rest => e.calls ++ entryCalls rest

/-- The functions that conditions and results of some branches call. -/
def branchCalls : List (Expr × Expr) → List String
  | [] => []
  | (a, b) :: rest => a.calls ++ b.calls ++ branchCalls rest

/-- The functions that an expression calls, if there is one. -/
def optionCalls : Option Expr → List String
  | none => []
  | some e => e.calls

end

/-- None of the functions looks up a vertex. -/
def NoneLooksUp (names : List String) : Prop :=
  ∀ name ∈ names, Function.looksUpBy name = false

theorem noneLooksUp_append {as bs : List String} :
    NoneLooksUp (as ++ bs) ↔ NoneLooksUp as ∧ NoneLooksUp bs :=
  List.forall_mem_append

variable {params : Entries Value} {config : Config} {w w' : Function.World}

mutual

/-- Where no vertex is looked up, evaluation comes to the same whatever vertices there are. -/
theorem eval_withWorld (hday : w.today = w'.today) (e : Expr) (h : NoneLooksUp e.calls) :
    eval ⟨params, config, w⟩ e = eval ⟨params, config, w'⟩ e := by
  cases e with
  | literal v => unfold eval; rfl
  | parameter name => unfold eval; rfl
  | var name => unfold eval; rfl
  | property target key =>
    unfold eval
    rw [eval_withWorld hday target h]
  | hasLabels target labels =>
    unfold eval
    rw [eval_withWorld hday target h]
  | list items =>
    unfold eval
    rw [evalList_withWorld hday items h]
  | map entries =>
    unfold eval
    rw [evalEntries_withWorld hday entries h]
  | index target position =>
    obtain ⟨ht, hp⟩ := noneLooksUp_append.1 h
    unfold eval
    rw [eval_withWorld hday target ht, eval_withWorld hday position hp]
  | slice target lower upper =>
    obtain ⟨htl, hu⟩ := noneLooksUp_append.1 h
    obtain ⟨ht, hl⟩ := noneLooksUp_append.1 htl
    unfold eval
    rw [eval_withWorld hday target ht, evalOption_withWorld hday lower hl,
      evalOption_withWorld hday upper hu]
  | unary op operand =>
    unfold eval
    rw [eval_withWorld hday operand h]
  | binary op left right =>
    obtain ⟨hl, hr⟩ := noneLooksUp_append.1 h
    cases op <;> unfold eval <;> rw [eval_withWorld hday left hl, eval_withWorld hday right hr]
  | isNull operand =>
    unfold eval
    rw [eval_withWorld hday operand h]
  | isNotNull operand =>
    unfold eval
    rw [eval_withWorld hday operand h]
  | call name args distinct =>
    obtain ⟨hname, hargs⟩ := List.forall_mem_cons.1 h
    unfold eval
    rw [evalList_withWorld hday args hargs]
    simp only [Function.call_withWorld hname hday]
  | countAll => unfold eval; rfl
  | case operand branches default =>
    obtain ⟨hob, hd⟩ := noneLooksUp_append.1 h
    obtain ⟨ho, hb⟩ := noneLooksUp_append.1 hob
    unfold eval
    rw [evalOption_withWorld hday operand ho, evalOption_withWorld hday default hd]
    simp only [evalBranches_withWorld hday branches hb]
  | comprehension name source filter result =>
    obtain ⟨hsf, hr⟩ := noneLooksUp_append.1 h
    obtain ⟨hs, hf⟩ := noneLooksUp_append.1 hsf
    unfold eval
    rw [eval_withWorld hday source hs, evalOption_withWorld hday filter hf,
      evalOption_withWorld hday result hr]
  | quantified kind name source predicate =>
    obtain ⟨hs, hp⟩ := noneLooksUp_append.1 h
    unfold eval
    rw [eval_withWorld hday source hs, eval_withWorld hday predicate hp]
  | pattern part => unfold eval; rfl

theorem evalList_withWorld (hday : w.today = w'.today) (es : List Expr)
    (h : NoneLooksUp (listCalls es)) :
    evalList ⟨params, config, w⟩ es = evalList ⟨params, config, w'⟩ es := by
  cases es with
  | nil => unfold evalList; rfl
  | cons e rest =>
    obtain ⟨he, hrest⟩ := noneLooksUp_append.1 h
    unfold evalList
    rw [eval_withWorld hday e he, evalList_withWorld hday rest hrest]

theorem evalEntries_withWorld (hday : w.today = w'.today) (entries : List (String × Expr))
    (h : NoneLooksUp (entryCalls entries)) :
    evalEntries ⟨params, config, w⟩ entries = evalEntries ⟨params, config, w'⟩ entries := by
  cases entries with
  | nil => unfold evalEntries; rfl
  | cons entry rest =>
    obtain ⟨key, e⟩ := entry
    obtain ⟨he, hrest⟩ := noneLooksUp_append.1 h
    unfold evalEntries
    rw [eval_withWorld hday e he, evalEntries_withWorld hday rest hrest]

theorem evalOption_withWorld (hday : w.today = w'.today) (o : Option Expr)
    (h : NoneLooksUp (optionCalls o)) :
    evalOption ⟨params, config, w⟩ o = evalOption ⟨params, config, w'⟩ o := by
  cases o with
  | none => unfold evalOption; rfl
  | some e =>
    unfold evalOption
    rw [eval_withWorld hday e h]

theorem evalBranches_withWorld (hday : w.today = w'.today) {operand : Option Value}
    (branches : List (Expr × Expr)) (h : NoneLooksUp (branchCalls branches)) :
    evalBranches ⟨params, config, w⟩ operand branches =
      evalBranches ⟨params, config, w'⟩ operand branches := by
  cases branches with
  | nil => unfold evalBranches; rfl
  | cons branch rest =>
    obtain ⟨condition, result⟩ := branch
    obtain ⟨hcr, hrest⟩ := noneLooksUp_append.1 h
    obtain ⟨hc, hr⟩ := noneLooksUp_append.1 hcr
    unfold evalBranches
    rw [eval_withWorld hday condition hc, eval_withWorld hday result hr,
      evalBranches_withWorld hday rest hrest]

end

end Expr

end PropertyGraph
