import PropertyGraph.Proofs.Query.Parts

/-!
# Reading atoms

Expressions without an operator outside: what begins with a bracket or with a word of its own.  The
first item of a list never looks like the variable of a comprehension, because an item with an
operator stands between parentheses.
-/

namespace PropertyGraph.Expr

open Reader

variable {sub : Reader Expr} {l : Precedence} {e : Expr} {ts rest : List Token}

/-! ## Lists -/

/-- The tokens do not begin as those of a comprehension. -/
def NoVariable (ts : List Token) : Prop :=
  ∀ x more, ts ≠ .ident x :: .keyword .in_ :: more

theorem listBody_of_noVariable (h : NoVariable ts) : listBody sub ts = (do
    let items ← if ← atSymbol .rightBracket then pure [] else commaList sub
    symbol .rightBracket
    return .list items : Reader Expr) ts := by
  refine (bind_ok rfl).trans ((bind_ok rfl).trans ?_)
  match ts, h with
  | [], _ => rfl
  | [t], _ => cases t <;> rfl
  | t :: u :: more, h =>
    cases t with
    | ident x =>
      cases u with
      | keyword k =>
        cases k with
        | in_ => exact absurd rfl (h x more)
        | _ => rfl
      | _ => rfl
    | _ => rfl

theorem literalTokens_head_ne (v : Value) (x : String) :
    (literalTokens v ++ rest).head? ≠ some (.ident x) := by
  cases v with
  | int n => by_cases h : n < 0 <;> simp [literalTokens, h]
  | float y => by_cases h : isSigned y = true <;> simp [literalTokens, h]
  | bool b => cases b <;> nofun
  | _ => nofun

theorem noVariable_item (e : Expr) (hrest : rest.head? ≠ some (.keyword .in_)) :
    NoVariable (e.tokensAt .atom ++ rest) := by
  intro x more hitem
  unfold tokensAt placed at hitem
  split at hitem
  · cases hitem
  · next hparens =>
    unfold needsParens at hparens
    cases e with
    | var y =>
      have hin : rest = .keyword .in_ :: more := (List.cons.inj hitem).2
      exact hrest (hin ▸ rfl)
    | literal v => exact literalTokens_head_ne v x (congrArg List.head? hitem)
    | quantified kind _ _ _ => cases kind <;> cases hitem
    | unary op _ => cases op <;> exact absurd rfl hparens
    | binary op _ _ => cases op <;> exact absurd rfl hparens
    | property _ _ | hasLabels _ _ | index _ _ | slice _ _ _ | isNull _ | isNotNull _
    | pattern _ => exact absurd rfl hparens
    | parameter _ | list _ | map _ | call _ _ _ | countAll | case _ _ _
    | comprehension _ _ _ _ => cases hitem

theorem listBody_ok {items : List Expr} (h : ∀ e ∈ items, Reads sub .atom e)
    (rest : List Token) :
    listBody sub (commas (itemTokens .atom items) ++ .symbol .rightBracket :: rest) =
      .ok (.list items, rest) := by
  cases items with
  | nil =>
    rw [listBody_of_noVariable (by nofun)]
    exact (bind_ok atSymbol_cons).trans ((bind_ok rfl).trans (bind_ok symbol_cons))
  | cons e more =>
    obtain ⟨tail, htail, hend⟩ := commas_append (e.tokensAt .atom) (itemTokens .atom more)
      (.symbol .rightBracket :: rest)
    have hnext : tail.head? ≠ some (.keyword .in_) := by
      rcases hend with rfl | hcomma
      · nofun
      · rw [hcomma]
        nofun
    have hfirst : commas (itemTokens .atom (e :: more)) ++ .symbol .rightBracket :: rest =
        e.tokensAt .atom ++ tail := htail
    rw [listBody_of_noVariable (hfirst ▸ noVariable_item e hnext)]
    refine (bind_ok (atSymbol_none (hfirst ▸ tokensAt_head_ne rfl _ _ _))).trans ?_
    refine (bind_ok (items_ok (List.cons_ne_nil _ _) h (stops_of_none rfl) (by nofun))).trans ?_
    exact bind_ok symbol_cons

/-! ## Comprehensions -/

theorem after_option {k : Keyword} {o : Option Expr} (h : ∀ e ∈ o, Reads sub .or e)
    (hstops : Stops .or rest) (hrest : rest.head? ≠ some (.keyword k)) :
    after? k sub (optionTokens [.keyword k] o ++ rest) = .ok (o, rest) := by
  cases o with
  | none => exact after_none hrest
  | some e => exact after_cons (h e rfl _ hstops)

theorem comprehension_ok {source : Expr} {filter result : Option Expr}
    (hsource : Reads sub .or source) (hfilter : ∀ e ∈ filter, Reads sub .or e)
    (hresult : ∀ e ∈ result, Reads sub .or e) (name : String) (rest : List Token) :
    listBody sub (.ident name :: .keyword .in_ :: (source.tokensAt .or ++
      (optionTokens [.keyword .where_] filter ++ (optionTokens [.symbol .pipe] result ++
        .symbol .rightBracket :: rest)))) = .ok (.comprehension name source filter result, rest) := by
  have hclose : Stops .or
      (optionTokens [.symbol .pipe] result ++ .symbol .rightBracket :: rest) := by
    cases result <;> exact stops_of_none rfl
  have hwhere : Stops .or (optionTokens [.keyword .where_] filter ++
      (optionTokens [.symbol .pipe] result ++ .symbol .rightBracket :: rest)) := by
    cases filter with
    | none => exact hclose
    | some e => exact stops_of_none rfl
  refine (bind_ok rfl).trans ?_
  refine (bind_ok rfl).trans ?_
  refine (bind_ok rfl).trans ?_
  refine (bind_ok (hsource _ hwhere)).trans ?_
  refine (bind_ok (after_option hfilter hclose ?_)).trans ?_
  · cases result <;> nofun
  cases result with
  | none =>
    refine (bind_ok (eatSymbol_none (by nofun))).trans ?_
    exact (bind_ok rfl).trans (bind_ok symbol_cons)
  | some e =>
    refine (bind_ok eatSymbol_cons).trans ?_
    refine (bind_ok (hresult e rfl _ (stops_of_none (by rfl)))).trans ?_
    exact (bind_ok rfl).trans (bind_ok symbol_cons)

/-! ## Calls -/

/-- What comes first in a call of a function is no star. -/
theorem callBody_of_noStar {function : String} (hstar : ts.head? ≠ some (.symbol .star))
    (hfunction : quantifier? function = none) :
    callBody sub function (.symbol .leftParen :: ts) = (do
      let distinct ← eatKeyword .distinct
      let args ← if ← atSymbol .rightParen then pure [] else commaList sub
      symbol .rightParen
      return .call function args distinct : Reader Expr) ts := by
  refine (bind_ok symbol_cons).trans ?_
  refine (bind_ok (atSymbol_none hstar)).trans ?_
  rw [Bool.and_false, hfunction]
  rfl

theorem args_ok {args : List Expr} (h : ∀ e ∈ args, Reads sub .or e) (function : String)
    (distinct : Bool) (rest : List Token) : (do
      let args ← if ← atSymbol .rightParen then pure [] else commaList sub
      symbol .rightParen
      return .call function args distinct : Reader Expr)
        (commas (itemTokens .or args) ++ .symbol .rightParen :: rest) =
      .ok (.call function args distinct, rest) := by
  cases args with
  | nil => exact (bind_ok atSymbol_cons).trans ((bind_ok rfl).trans (bind_ok symbol_cons))
  | cons e more =>
    obtain ⟨tail, htail, -⟩ := commas_append (e.tokensAt .or) (itemTokens .or more)
      (.symbol .rightParen :: rest)
    refine (bind_ok (atSymbol_none ?_)).trans ?_
    · exact htail ▸ tokensAt_head_ne rfl _ _ _
    refine (bind_ok (items_ok (List.cons_ne_nil _ _) h (stops_of_none rfl) (by nofun))).trans ?_
    exact bind_ok symbol_cons

theorem args_head_ne {t : Token} (hstarts : t.starts? = none) (ht : t ≠ .symbol .rightParen)
    (args : List Expr) (rest : List Token) :
    (commas (itemTokens .or args) ++ .symbol .rightParen :: rest).head? ≠ some t := by
  cases args with
  | nil => exact fun h => ht (Option.some.inj h).symm
  | cons e more =>
    obtain ⟨tail, htail, -⟩ := commas_append (e.tokensAt .or) (itemTokens .or more)
      (.symbol .rightParen :: rest)
    exact htail ▸ tokensAt_head_ne hstarts _ _ _

theorem callBody_ok {function : String} (hfunction : quantifier? function = none)
    {args : List Expr} (h : ∀ e ∈ args, Reads sub .or e) (distinct : Bool) (rest : List Token) :
    callBody sub function (.symbol .leftParen :: ((if distinct then [.keyword .distinct] else []) ++
      (commas (itemTokens .or args) ++ .symbol .rightParen :: rest))) =
        .ok (.call function args distinct, rest) := by
  cases distinct with
  | true =>
    rw [callBody_of_noStar (by nofun) hfunction]
    exact (bind_ok eatKeyword_cons).trans (args_ok h function true rest)
  | false =>
    rw [if_neg Bool.false_ne_true, List.nil_append,
      callBody_of_noStar (args_head_ne rfl (by nofun) args rest) hfunction]
    refine (bind_ok (eatKeyword_none ?_)).trans (args_ok h function false rest)
    exact args_head_ne rfl (by nofun) args rest

theorem countAll_ok (rest : List Token) : callBody sub "count"
    (.symbol .leftParen :: .symbol .star :: .symbol .rightParen :: rest) = .ok (.countAll, rest) := by
  have hcount : (Text.lower "count" == "count") = true := by decide
  refine (bind_ok symbol_cons).trans ?_
  refine (bind_ok atSymbol_cons).trans ?_
  rw [hcount]
  exact (bind_ok rfl).trans (bind_ok symbol_cons)

theorem quantified_ok {source predicate : Expr} (hsource : Reads sub .or source)
    (hpredicate : Reads sub .or predicate) (kind : Quantifier) (name : String)
    (rest : List Token) :
    callBody sub kind.text (.symbol .leftParen :: .ident name :: .keyword .in_ ::
      (source.tokensAt .or ++ .keyword .where_ ::
        (predicate.tokensAt .or ++ .symbol .rightParen :: rest))) =
          .ok (.quantified kind name source predicate, rest) := by
  have hkind : quantifier? kind.text = some kind := by
    cases kind <;> decide
  refine (bind_ok symbol_cons).trans ?_
  refine (bind_ok (atSymbol_none (by nofun))).trans ?_
  rw [Bool.and_false, hkind]
  refine (bind_ok rfl).trans ?_
  refine (bind_ok keyword_cons).trans ?_
  refine (bind_ok (hsource _ (stops_of_none rfl))).trans ?_
  refine (bind_ok keyword_cons).trans ?_
  refine (bind_ok (hpredicate _ (stops_of_none rfl))).trans ?_
  exact bind_ok symbol_cons

/-! ## Cases -/

/-- After a branch comes another one or something else that ends an expression. -/
theorem stops_branches {branches : List (Expr × Expr)} (hstops : Stops .or rest) :
    Stops .or (branchTokens branches ++ rest) := by
  cases branches with
  | nil => exact hstops
  | cons branch more => exact stops_of_none rfl

theorem branches_ok {branches : List (Expr × Expr)}
    (h : ∀ branch ∈ branches, Reads sub .or branch.1 ∧ Reads sub .or branch.2)
    (hstops : Stops .or rest) (hrest : rest.head? ≠ some (.keyword .when)) {n : Nat}
    (hn : branches.length ≤ n) :
    caseBranches sub n (branchTokens branches ++ rest) = .ok (branches, rest) := by
  induction branches generalizing n with
  | nil =>
    cases n with
    | zero => rfl
    | succ n => exact bind_ok (eatKeyword_none hrest)
  | cons branch more ih =>
    obtain ⟨⟨hcondition, hresult⟩, hmore⟩ := List.forall_mem_cons.1 h
    cases n with
    | zero => simp at hn
    | succ n =>
      obtain ⟨condition, result⟩ := branch
      rw [branchTokens, List.cons_append, List.append_assoc, List.cons_append, List.append_assoc]
      refine (bind_ok eatKeyword_cons).trans ?_
      refine (bind_ok (hcondition _ (stops_of_none rfl))).trans ?_
      refine (bind_ok keyword_cons).trans ?_
      refine (bind_ok (hresult _ (stops_branches hstops))).trans ?_
      exact bind_ok (ih hmore (Nat.le_of_succ_le_succ hn))

theorem length_branchTokens (branches : List (Expr × Expr)) :
    branches.length ≤ (branchTokens branches).length := by
  induction branches with
  | nil => exact Nat.le_refl _
  | cons branch more ih =>
    rw [branchTokens]
    simp only [List.length_append, List.length_cons]
    omega

theorem caseBody_ok {operand default : Option Expr} {branches : List (Expr × Expr)}
    (hoperand : ∀ e ∈ operand, Reads sub .or e)
    (h : ∀ branch ∈ branches, Reads sub .or branch.1 ∧ Reads sub .or branch.2)
    (hne : branches ≠ []) (hdefault : ∀ e ∈ default, Reads sub .or e) (rest : List Token) :
    caseBody sub (optionTokens [] operand ++ (branchTokens branches ++
      (optionTokens [.keyword .else_] default ++ .keyword .end_ :: rest))) =
        .ok (.case operand branches default, rest) := by
  obtain ⟨branch, more, rfl⟩ := List.exists_cons_of_ne_nil hne
  have hend : Stops .or (optionTokens [.keyword .else_] default ++ .keyword .end_ :: rest) := by
    cases default <;> exact stops_of_none rfl
  have hbranches : (do
      let branches ← caseBranches sub (← remaining)
      if branches.isEmpty then fail .caseWithoutBranch
      let default ← after? .else_ sub
      keyword .end_
      return .case operand branches default : Reader Expr)
        (branchTokens (branch :: more) ++
          (optionTokens [.keyword .else_] default ++ .keyword .end_ :: rest)) =
        .ok (.case operand (branch :: more) default, rest) := by
    refine (bind_ok rfl).trans ?_
    refine (bind_ok (branches_ok h hend ?_ ?_)).trans ?_
    · cases default <;> nofun
    · rw [List.length_append]
      exact Nat.le_trans (length_branchTokens _) (Nat.le_add_right _ _)
    refine (bind_ok (after_option hdefault (stops_of_none rfl) (by nofun))).trans ?_
    exact bind_ok keyword_cons
  cases operand with
  | none => exact (bind_ok atKeyword_cons).trans ((bind_ok rfl).trans hbranches)
  | some e =>
    refine (bind_ok (atKeyword_none (tokensAt_head_ne rfl .or e _))).trans ?_
    refine (bind_ok (hoperand e rfl _ (stops_branches hend))).trans ?_
    exact (bind_ok rfl).trans hbranches

end PropertyGraph.Expr
