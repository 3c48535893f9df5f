import PropertyGraph.Eval

/-!
# Scopes of evaluation

Evaluation opens temporary scopes in the row and closes them again, whatever goes wrong inside, so
that in the end the row is what it was.

    RowM.Keeps       the computation leaves every row as it is
    Expr.eval_keeps  evaluation does, by recursion over the expression
-/

namespace PropertyGraph

/-! ## Bindings -/

namespace Bindings

variable {α : Type}

theorem get?_cons (name key : String) (a : α) (rest : Bindings α) :
    get? name ((key, a) :: rest) = if key = name then some a else get? name rest := rfl

theorem get?_append (name : String) (bs cs : Bindings α) :
    get? name (bs ++ cs) = (get? name bs).or (get? name cs) := by
  induction bs with
  | nil => rfl
  | cons b rest ih =>
    obtain ⟨key, a⟩ := b
    rw [List.cons_append, get?_cons, get?_cons]
    split
    · rfl
    · exact ih

theorem isSome_get? {name : String} {bindings : Bindings α} :
    (get? name bindings).isSome = true ↔ name ∈ bindings.names := by
  induction bindings with
  | nil => exact iff_of_false nofun List.not_mem_nil
  | cons b rest ih =>
    obtain ⟨key, a⟩ := b
    rw [get?_cons, names, List.map_cons, List.mem_cons]
    split
    · next heq => exact iff_of_true rfl (Or.inl heq.symm)
    · next hne =>
      rw [ih]
      exact (or_iff_right (Ne.symm hne)).symm

theorem mem_of_get? {name : String} {bs : Bindings α} {a : α} (h : get? name bs = some a) :
    (name, a) ∈ bs := by
  induction bs with
  | nil => cases h
  | cons b rest ih =>
    obtain ⟨key, c⟩ := b
    rw [get?_cons] at h
    split at h
    · next hkey =>
      cases h
      rw [hkey]
      exact List.mem_cons_self
    · exact List.mem_cons_of_mem _ (ih h)

theorem get?_of_mem {name : String} {bs : Bindings α} {a : α} (hnodup : bs.names.Nodup)
    (h : (name, a) ∈ bs) : get? name bs = some a := by
  induction bs with
  | nil => cases h
  | cons b rest ih =>
    obtain ⟨key, c⟩ := b
    obtain ⟨hnot, hrest⟩ := List.nodup_cons.1 hnodup
    rw [get?_cons]
    rcases List.mem_cons.1 h with heq | hmem
    · cases heq
      rw [if_pos rfl]
    · have hne : key ≠ name := by
        rintro rfl
        exact hnot (List.mem_map.2 ⟨_, hmem, rfl⟩)
      rw [if_neg hne]
      exact ih hrest hmem

/-- A name that is not bound yet is bound at the end. -/
theorem set_of_notMem {name : String} {bs : Bindings α} (h : name ∉ bs.names) (a : α) :
    set name a bs = bs ++ [(name, a)] := by
  induction bs with
  | nil => rfl
  | cons b rest ih =>
    obtain ⟨hne, hrest⟩ := not_or.1 (mt List.mem_cons.2 h)
    unfold set
    rw [if_neg (Ne.symm hne), ih hrest]
    rfl

/-- A name that is bound is bound anew in its place. -/
theorem names_set_of_mem {name : String} {bs : Bindings α} (h : name ∈ bs.names) (a : α) :
    (set name a bs).names = bs.names := by
  induction bs with
  | nil => cases h
  | cons b rest ih =>
    obtain ⟨key, c⟩ := b
    unfold set
    split
    · rfl
    · next hne =>
      have hrest : name ∈ names rest := (List.mem_cons.1 h).resolve_left (Ne.symm hne)
      exact congrArg (key :: ·) (ih hrest)

/-- Each name with the value that a function has there. -/
def tabulate (f : String → α) (names : List String) : Bindings α :=
  names.map fun x => (x, f x)

theorem names_tabulate (f : String → α) (names : List String) :
    (tabulate f names).names = names := by
  unfold tabulate Bindings.names
  rw [List.map_map]
  exact List.map_id names

theorem get?_tabulate (f : String → α) (names : List String) (x : String) :
    get? x (tabulate f names) = if x ∈ names then some (f x) else none := by
  induction names with
  | nil => rfl
  | cons y rest ih =>
    show get? x ((y, f y) :: tabulate f rest) = _
    rw [get?_cons, ih]
    by_cases hy : y = x
    · rw [if_pos hy, if_pos (hy ▸ List.mem_cons_self), hy]
    · rw [if_neg hy]
      simp only [List.mem_cons, Ne.symm hy, false_or]

end Bindings

/-! ## Scopes -/

namespace Row

/-- A name that is bound in the nearest frame hides what the other frames have. -/
theorem lookupFrames_set (key name : String) (v : Value) (columns : Bindings Value)
    (ancestors : List (Bindings Value)) :
    lookupFrames name (Bindings.set key v columns :: ancestors) =
      if key = name then some v else lookupFrames name (columns :: ancestors) := by
  unfold lookupFrames
  rw [List.findSome?_cons, List.findSome?_cons]
  by_cases h : key = name
  · rw [if_pos h, h, Bindings.get?_set_self]
  · rw [if_neg h, Bindings.get?_set_of_ne (Ne.symm h)]

theorem lookup?_push (row : Row) (name : String) (v : Value) (x : String) :
    (row.push name v).lookup? x = if name = x then some v else row.lookup? x := by
  unfold lookup? push
  rw [Bindings.get?]
  split <;> rfl

/-- The last scope that binds a name counts. -/
theorem lookup?_pushes (bs : Bindings Value) (row : Row) (x : String) :
    (bs.foldl (fun row (name, v) => row.push name v) row).lookup? x =
      (Bindings.get? x bs.reverse).or (row.lookup? x) := by
  induction bs generalizing row with
  | nil => rfl
  | cons b rest ih =>
    obtain ⟨name, v⟩ := b
    rw [List.foldl_cons, ih, lookup?_push, List.reverse_cons, Bindings.get?_append, Option.or_assoc,
      Bindings.get?_cons]
    congr 1
    split <;> rfl

end Row

/-! ## Computations -/

namespace RowM

variable {α β : Type}

/-- The computation leaves every row as it is. -/
def Keeps (c : RowM α) : Prop :=
  ∀ row, (c row).2 = row

theorem keeps_pure (a : α) : Keeps (pure a : RowM α) := fun _ => rfl

theorem keeps_fail (e : Error) : Keeps (fail e : RowM α) := fun _ => rfl

theorem keeps_lift (r : Except Error α) : Keeps (lift r) := fun _ => rfl

theorem bind_apply (c : RowM α) (f : α → RowM β) (row : Row) :
    (c >>= f) row = match c row with
      | (.ok a, row) => f a row
      | (.error e, row) => (.error e, row) := by
  show ExceptT.bind c f row = _
  unfold ExceptT.bind ExceptT.mk
  simp only [bind, StateT.bind]
  cases c row with
  | mk r row' => cases r <;> rfl

theorem bind_fst {c : RowM α} (hc : Keeps c) (f : α → RowM β) (row : Row) :
    ((c >>= f) row).1 = match (c row).1 with
      | .ok a => (f a row).1
      | .error e => .error e := by
  have hrow := hc row
  rw [bind_apply]
  rcases hrun : c row with ⟨r, row'⟩
  rw [hrun] at hrow
  subst hrow
  cases r <;> rfl

theorem Keeps.bind {c : RowM α} {f : α → RowM β} (hc : Keeps c) (hf : ∀ a, Keeps (f a)) :
    Keeps (c >>= f) := by
  intro row
  have := hc row
  rw [bind_apply]
  split
  · next a row' hr =>
    rw [hr] at this
    rw [hf a row']
    exact this
  · next e row' hr =>
    rw [hr] at this
    exact this

theorem pop_push (row : Row) (name : String) (v : Value) : (row.push name v).pop 1 = .ok row := by
  unfold Row.pop Row.push Row.depth
  rw [if_pos (by simp)]
  rfl

theorem Keeps.within {c : RowM α} (hc : Keeps c) (name : String) (v : Value) :
    Keeps (within name v c) := by
  intro row
  have hinner := hc (row.push name v)
  unfold RowM.within
  rcases hrun : c (row.push name v) with ⟨r, row₁⟩
  rw [hrun] at hinner
  subst hinner
  simp only [pop_push]

theorem within_fst {c : RowM α} (hc : Keeps c) (name : String) (v : Value) (row : Row) :
    (within name v c row).1 = (c (row.push name v)).1 := by
  have hrow := hc (row.push name v)
  unfold within
  rcases hrun : c (row.push name v) with ⟨r, row'⟩
  rw [hrun] at hrow
  subst hrow
  simp only [pop_push]

theorem keeps_isTrue (v : Value) : Keeps (isTrue v) :=
  (keeps_lift _).bind fun _ => keeps_pure _

theorem keeps_listItems (v : Value) : Keeps (listItems v) := by
  unfold listItems
  split
  · exact keeps_pure _
  · exact keeps_pure _
  · exact keeps_fail _

theorem Keeps.keepItem {filter result : RowM (Option Value)} (hf : Keeps filter)
    (hr : Keeps result) (item : Value) : Keeps (keepItem filter result item) := by
  have hkept : ∀ kept : Bool, Keeps (if kept then do return [(← result).getD item]
      else return [] : RowM (List Value)) := by
    intro kept
    split
    · exact hr.bind fun _ => keeps_pure _
    · exact keeps_pure _
  refine hf.bind fun o => ?_
  cases o with
  | none => exact (keeps_pure true).bind hkept
  | some v => exact (keeps_isTrue v).bind hkept

theorem Keeps.comprehend {filter result : RowM (Option Value)} (hf : Keeps filter)
    (hr : Keeps result) (name : String) (items : List Value) :
    Keeps (comprehend name filter result items) := by
  induction items with
  | nil => exact keeps_pure _
  | cons item rest ih =>
    exact ((hf.keepItem hr item).within name item).bind fun _ => ih.bind fun _ => keeps_pure _

theorem Keeps.outcomes {predicate : RowM Value} (hp : Keeps predicate) (name : String)
    (items : List Value) : Keeps (outcomes name predicate items) := by
  induction items with
  | nil => exact keeps_pure _
  | cons item rest ih =>
    have hitem : Keeps (do lift (← predicate).toTruth) := hp.bind fun v => keeps_lift v.toTruth
    exact (hitem.within name item).bind fun _ => ih.bind fun _ => keeps_pure _

end RowM

namespace Expr

open RowM

mutual

theorem eval_keeps (env : EvalEnv) (e : Expr) : Keeps (eval env e) := by
  cases e with
  | literal v => unfold eval; exact keeps_pure _
  | parameter name =>
    unfold eval
    split
    · exact keeps_pure _
    · exact keeps_fail _
  | var name => unfold eval; exact fun _ => rfl
  | property target key =>
    unfold eval
    exact (eval_keeps env target).bind fun _ => keeps_lift _
  | hasLabels target labels =>
    unfold eval
    exact (eval_keeps env target).bind fun _ => keeps_lift _
  | list items =>
    unfold eval
    exact (evalList_keeps env items).bind fun _ => keeps_pure _
  | map entries =>
    unfold eval
    exact (evalEntries_keeps env entries).bind fun _ => keeps_pure _
  | index target position =>
    unfold eval
    exact (eval_keeps env target).bind fun _ => (eval_keeps env position).bind fun _ => keeps_lift _
  | slice target lower upper =>
    unfold eval
    exact (eval_keeps env target).bind fun _ => (evalOption_keeps env lower).bind fun _ =>
      (evalOption_keeps env upper).bind fun _ => keeps_lift _
  | unary op operand =>
    unfold eval
    exact (eval_keeps env operand).bind fun _ => keeps_lift _
  | binary op left right =>
    have hl := eval_keeps env left
    have hr := eval_keeps env right
    have hright : ∀ f : Truth → Value,
        Keeps (do return f (← lift (← eval env right).toTruth)) := fun f =>
      hr.bind fun v => (keeps_lift v.toTruth).bind fun _ => keeps_pure _
    cases op with
    | and =>
      unfold eval
      refine hl.bind fun v => (keeps_lift _).bind fun t => ?_
      split
      · exact keeps_pure _
      · exact hright fun r => .ofTruth (Truth.and t r)
    | or =>
      unfold eval
      refine hl.bind fun v => (keeps_lift _).bind fun t => ?_
      split
      · exact keeps_pure _
      · exact hright fun r => .ofTruth (Truth.or t r)
    | xor =>
      unfold eval
      exact hl.bind fun v => (keeps_lift _).bind fun t => hright fun r => .ofTruth (Truth.xor t r)
    | _ =>
      unfold eval
      exact hl.bind fun _ => hr.bind fun _ => keeps_lift _
  | isNull operand =>
    unfold eval
    exact (eval_keeps env operand).bind fun _ => keeps_pure _
  | isNotNull operand =>
    unfold eval
    exact (eval_keeps env operand).bind fun _ => keeps_pure _
  | call function args distinct =>
    unfold eval
    split
    · exact keeps_fail _
    · exact (evalList_keeps env args).bind fun _ => keeps_lift _
  | countAll => unfold eval; exact keeps_fail _
  | case operand branches default =>
    unfold eval
    refine (evalOption_keeps env operand).bind fun o => (evalBranches_keeps env o branches).bind
      fun found => ?_
    split
    · exact keeps_pure _
    · exact (evalOption_keeps env default).bind fun _ => keeps_pure _
  | comprehension name source filter result =>
    unfold eval
    refine (eval_keeps env source).bind fun v => (keeps_listItems v).bind fun items => ?_
    split
    · exact keeps_pure _
    · exact ((evalOption_keeps env filter).comprehend (evalOption_keeps env result) name _).bind
        fun _ => keeps_pure _
  | quantified kind name source predicate =>
    unfold eval
    refine (eval_keeps env source).bind fun v => (keeps_listItems v).bind fun items => ?_
    split
    · exact keeps_pure _
    · exact ((eval_keeps env predicate).outcomes name _).bind fun _ => keeps_pure _
  | pattern part => unfold eval; exact keeps_fail _

theorem evalList_keeps (env : EvalEnv) (es : List Expr) : Keeps (evalList env es) := by
  cases es with
  | nil => unfold evalList; exact keeps_pure _
  | cons e rest =>
    unfold evalList
    exact (eval_keeps env e).bind fun _ => (evalList_keeps env rest).bind fun _ => keeps_pure _

theorem evalEntries_keeps (env : EvalEnv) (entries : List (String × Expr)) :
    Keeps (evalEntries env entries) := by
  cases entries with
  | nil => unfold evalEntries; exact keeps_pure _
  | cons entry rest =>
    obtain ⟨key, e⟩ := entry
    unfold evalEntries
    exact (eval_keeps env e).bind fun _ => (evalEntries_keeps env rest).bind fun _ => keeps_pure _

theorem evalOption_keeps (env : EvalEnv) (o : Option Expr) : Keeps (evalOption env o) := by
  cases o with
  | none => unfold evalOption; exact keeps_pure _
  | some e =>
    unfold evalOption
    exact (eval_keeps env e).bind fun _ => keeps_pure _

theorem evalBranches_keeps (env : EvalEnv) (operand : Option Value)
    (branches : List (Expr × Expr)) : Keeps (evalBranches env operand branches) := by
  cases branches with
  | nil => unfold evalBranches; exact keeps_pure _
  | cons branch rest =>
    obtain ⟨condition, result⟩ := branch
    unfold evalBranches
    have happlies : ∀ applies : Bool, Keeps (if applies then do return some (← eval env result)
        else evalBranches env operand rest : RowM (Option Value)) := by
      intro applies
      split
      · exact (eval_keeps env result).bind fun _ => keeps_pure _
      · exact evalBranches_keeps env operand rest
    refine (eval_keeps env condition).bind fun v => ?_
    cases operand with
    | none => exact (keeps_isTrue v).bind happlies
    | some w => exact (keeps_pure _).bind happlies

end

end Expr

end PropertyGraph
