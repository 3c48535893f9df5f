import PropertyGraph.Proofs.Query.Atoms

/-!
# What stands inside an expression

The reader of complete expressions is used for what stands between brackets, between parentheses
and between words.  It reads expressions up to some number of tokens; these have fewer tokens than
the expression around them.

    Expr.ReadsUpTo      a reader takes the tokens of all expressions that have not too many
    primary_atom        the expressions without an operator outside
    primary_group       an expression between parentheses
-/

namespace PropertyGraph.Expr

open Reader

variable {sub : Reader Expr} {d : Nat} {l : Precedence} {e : Expr} {ts rest : List Token}

/-- The reader takes the tokens of every expression that has at most so many. -/
structure ReadsUpTo (sub : Reader Expr) (d : Nat) : Prop where
  bare : ∀ {e : Expr}, e.writable = true → e.tokens.length ≤ d →
    ∀ {rest : List Token}, Stops .or rest → sub (e.tokens ++ rest) = .ok (e, rest)
  placed : ∀ {e : Expr} {l : Precedence}, e.writable = true → (e.tokensAt l).length ≤ d →
    Reads sub l e

/-! ## Parts have fewer tokens -/

theorem length_le_commas {tss : List (List Token)} (h : ts ∈ tss) :
    ts.length ≤ (commas tss).length := by
  induction tss with
  | nil => cases h
  | cons us more ih =>
    obtain ⟨tail, htail, -⟩ := commas_append us more []
    rcases List.mem_cons.1 h with rfl | hmore
    · rw [← List.append_nil (commas _), htail, List.length_append]
      exact Nat.le_add_right _ _
    · cases more with
      | nil => cases hmore
      | cons vs others =>
        rw [commas, List.intercalate_cons_cons, List.length_append, List.length_append]
        exact Nat.le_trans (ih hmore) (Nat.le_add_left _ _)

theorem length_parenthesized (ts : List Token) : (parenthesized ts).length = ts.length + 2 := by
  rw [parenthesized, List.length_cons, List.length_append]
  rfl

theorem length_le_placed (l : Precedence) (e : Expr) :
    e.tokens.length ≤ (placed l e e.tokens).length := by
  unfold placed
  split
  · rw [length_parenthesized]
    omega
  · exact Nat.le_refl _

/-- An operand on the left has not more tokens than the expression. -/
theorem length_left {n : Nat} (h : (e.tokensAt l ++ ts).length ≤ n) : e.tokens.length ≤ n := by
  rw [← placed_tokens, List.length_append] at h
  have := length_le_placed l e
  omega

theorem length_bracedUnlessEmpty (tss : List (List Token)) :
    (commas tss).length ≤ (bracedUnlessEmpty tss).length := by
  cases tss with
  | nil => exact Nat.le_refl _
  | cons ts more =>
    show _ ≤ (braced (ts :: more)).length
    rw [braced, List.length_cons, List.length_append]
    omega

namespace ReadsUpTo

variable (hsub : ReadsUpTo sub d)
include hsub

theorem items {items : List Expr} (hw : allWritable items = true)
    (hlength : (commas (itemTokens l items)).length ≤ d) : ∀ e ∈ items, Reads sub l e := by
  intro e he
  refine hsub.placed (allWritable_iff.1 hw e he) (Nat.le_trans (length_le_commas ?_) hlength)
  rw [itemTokens_eq]
  exact List.mem_map_of_mem he

theorem entries {es : List (String × Expr)} (hw : entriesWritable es = true)
    (hlength : (commas (entryTokens es)).length ≤ d) : ∀ entry ∈ es, Reads sub .or entry.2 := by
  intro entry hentry
  have hmem : entryToken entry ∈ entryTokens es := by
    rw [entryTokens_eq]
    exact List.mem_map_of_mem hentry
  have htoken : (entry.2.tokensAt .or).length ≤ (entryToken entry).length := by
    rw [entryToken, List.length_cons, List.length_cons]
    omega
  exact hsub.placed (entriesWritable_iff.1 hw entry hentry)
    (Nat.le_trans htoken (Nat.le_trans (length_le_commas hmem) hlength))

theorem option {o : Option Expr} (hw : optionWritable o = true) (before : List Token)
    (hlength : (optionTokens before o).length ≤ d) : ∀ e ∈ o, Reads sub .or e := by
  rintro e rfl
  refine hsub.placed hw (Nat.le_trans ?_ hlength)
  show _ ≤ (before ++ e.tokensAt .or).length
  rw [List.length_append]
  omega

theorem branches {branches : List (Expr × Expr)} (hw : branchesWritable branches = true)
    (hlength : (branchTokens branches).length ≤ d) :
    ∀ branch ∈ branches, Reads sub .or branch.1 ∧ Reads sub .or branch.2 := by
  induction branches with
  | nil => nofun
  | cons branch more ih =>
    obtain ⟨condition, result⟩ := branch
    simp only [branchesWritable, Bool.and_eq_true] at hw
    have htokens : branchTokens ((condition, result) :: more) = .keyword .when ::
      (condition.tokensAt .or ++ .keyword .then_ :: (result.tokensAt .or ++ branchTokens more)) :=
      rfl
    rw [htokens] at hlength
    simp only [List.length_append, List.length_cons] at hlength
    have hcondition : Reads sub .or condition := hsub.placed hw.1.1 (by omega)
    have hresult : Reads sub .or result := hsub.placed hw.1.2 (by omega)
    exact List.forall_mem_cons.2 ⟨⟨hcondition, hresult⟩, ih hw.2 (by omega)⟩

theorem node {n : NodePattern} (hw : nodeWritable n = true) (hlength : (nodeTokens n).length ≤ d) :
    ∀ entry ∈ n.properties, Reads sub .or entry.2 := by
  obtain ⟨name, labels, properties⟩ := n
  have hproperties := length_bracedUnlessEmpty (entryTokens properties)
  rw [nodeTokens] at hlength
  simp only [List.length_append, List.length_cons] at hlength
  have hle : (commas (entryTokens properties)).length ≤ d := by omega
  exact hsub.entries hw hle

theorem relationship {r : RelationshipPattern} (hw : relationshipWritable r = true)
    (hlength : (relationshipTokens r).length ≤ d) :
    (∀ entry ∈ r.properties, Reads sub .or entry.2) ∧ r.range.all isRange = true := by
  obtain ⟨name, types, heading, properties, range⟩ := r
  have hproperties := length_bracedUnlessEmpty (entryTokens properties)
  rw [relationshipTokens] at hlength
  simp only [List.length_append, List.length_cons] at hlength
  have hle : (commas (entryTokens properties)).length ≤ d := by omega
  obtain ⟨hentries, hrange⟩ := Bool.and_eq_true_iff.1 hw
  exact ⟨hsub.entries hentries hle, hrange⟩

theorem chain {chain : List (RelationshipPattern × NodePattern)} (hw : chainWritable chain = true)
    (hlength : (chainTokens chain).length ≤ d) : ∀ link ∈ chain, LinkReads sub link := by
  induction chain with
  | nil => nofun
  | cons link more ih =>
    obtain ⟨r, n⟩ := link
    simp only [chainWritable, Bool.and_eq_true] at hw
    rw [chainTokens, List.length_append, List.length_append] at hlength
    obtain ⟨hr, hrange⟩ := hsub.relationship hw.1.1 (by omega)
    have hn := hsub.node hw.1.2 (by omega)
    exact List.forall_mem_cons.2 ⟨⟨hr, hrange, hn⟩, ih hw.2 (by omega)⟩

end ReadsUpTo

/-! ## Atoms -/

theorem literal_ok {v : Value} (hw : isLiteral v = true) (hv : isNegative v = false) :
    primary sub (literalTokens v ++ rest) = .ok (.literal v, rest) := by
  cases v with
  | int n =>
    have hn : ¬ n < 0 := of_decide_eq_false hv
    rw [literalTokens, if_neg hn]
    rfl
  | float x =>
    have hx : isSigned x = false := hv
    rw [literalTokens, hx]
    rfl
  | text _ | null => rfl
  | bool b => cases b <;> rfl
  | _ => cases hw

/-- The tokens of an expression without an operator outside are read as that expression. -/
theorem primary_atom (hsub : ReadsUpTo sub d) (he : e.binding = .atom) (hw : e.writable = true)
    (hlength : e.tokens.length ≤ d + 1) (hstops : Stops .atom rest) :
    primary sub (e.tokens ++ rest) = .ok (e, rest) := by
  cases e with
  | literal v =>
    refine literal_ok hw (Bool.eq_false_iff.2 fun hv => ?_)
    rw [binding, if_pos hv] at he
    cases he
  | parameter name => rfl
  | var name =>
    refine (bind_ok rfl).trans ?_
    refine (bind_ok rfl).trans ?_
    exact bind_ok (atSymbol_none (hstops.head_ne rfl (Nat.le_refl _)))
  | list items =>
    rw [tokens] at hlength ⊢
    simp only [List.length_append, List.length_cons, List.length_nil] at hlength
    rw [List.cons_append, List.append_assoc]
    refine (bind_ok rfl).trans ?_
    refine (bind_ok rfl).trans ?_
    exact listBody_ok (hsub.items hw (by omega)) rest
  | map es =>
    rw [tokens] at hlength ⊢
    rw [braced] at hlength
    simp only [List.length_append, List.length_cons, List.length_nil] at hlength
    refine (bind_ok rfl).trans ?_
    exact bind_ok (entries_ok (hsub.entries hw (by omega)) rest)
  | call function args distinct =>
    obtain ⟨hfunction, hargs⟩ := Bool.and_eq_true_iff.1 hw
    rw [tokens] at hlength ⊢
    simp only [List.length_append, List.length_cons, List.length_nil] at hlength
    simp only [List.cons_append, List.append_assoc]
    refine (bind_ok rfl).trans ?_
    refine (bind_ok rfl).trans ?_
    refine (bind_ok atSymbol_cons).trans ?_
    exact callBody_ok (Option.isNone_iff_eq_none.1 hfunction) (hsub.items hargs (by omega))
      distinct rest
  | countAll =>
    refine (bind_ok rfl).trans ?_
    refine (bind_ok rfl).trans ?_
    refine (bind_ok atSymbol_cons).trans ?_
    exact countAll_ok rest
  | case operand branches default =>
    simp only [writable, Bool.and_eq_true, Bool.not_eq_true'] at hw
    obtain ⟨⟨⟨hne, hoperand⟩, hbranches⟩, hdefault⟩ := hw
    rw [tokens] at hlength ⊢
    simp only [List.length_append, List.length_cons, List.length_nil] at hlength
    simp only [List.cons_append, List.append_assoc]
    refine (bind_ok rfl).trans ?_
    refine (bind_ok rfl).trans ?_
    exact caseBody_ok (hsub.option hoperand [] (by omega)) (hsub.branches hbranches (by omega))
      (List.isEmpty_eq_false_iff.1 hne)
      (hsub.option hdefault [.keyword .else_] (by omega)) rest
  | comprehension name source filter result =>
    simp only [writable, Bool.and_eq_true] at hw
    obtain ⟨⟨hsource, hfilter⟩, hresult⟩ := hw
    rw [tokens] at hlength ⊢
    simp only [placed_tokens, List.length_append, List.length_cons, List.length_nil] at hlength
    simp only [List.cons_append, List.append_assoc]
    refine (bind_ok rfl).trans ?_
    refine (bind_ok rfl).trans ?_
    exact comprehension_ok (hsub.placed hsource (by omega))
      (hsub.option hfilter [.keyword .where_] (by omega))
      (hsub.option hresult [.symbol .pipe] (by omega)) name rest
  | quantified kind name source predicate =>
    obtain ⟨hsource, hpredicate⟩ := Bool.and_eq_true_iff.1 hw
    rw [tokens] at hlength ⊢
    simp only [placed_tokens, List.length_append, List.length_cons, List.length_nil] at hlength
    simp only [List.cons_append, List.append_assoc]
    have hbody := quantified_ok (hsub.placed hsource (by omega)) (hsub.placed hpredicate (by omega))
      kind name rest
    cases kind with
    | all =>
      refine (bind_ok rfl).trans ?_
      refine (bind_ok rfl).trans ?_
      exact (bind_ok rfl).trans hbody
    | any | none | single =>
      refine (bind_ok rfl).trans ?_
      refine (bind_ok rfl).trans ?_
      exact (bind_ok atSymbol_cons).trans hbody
  | unary op _ => cases op <;> cases he
  | binary op _ _ => cases op <;> cases he
  | property _ _ | hasLabels _ _ | index _ _ | slice _ _ _ | isNull _ | isNotNull _ | pattern _ =>
    cases he

end PropertyGraph.Expr
