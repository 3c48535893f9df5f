import PropertyGraph.Proofs.Query.Inside

/-!
# Parentheses

An opening parenthesis begins a walk of a pattern or an expression between parentheses.  The grammar
tries the walk first.  The tokens of an expression are no node, so that the walk fails, unless the
expression tests a variable for labels: that is a node, and the walk has no relationship if none
comes after it.
-/

namespace PropertyGraph

open Reader

/-- May the token stand in a node, the first parenthesis apart? -/
def Token.inNode : Token → Bool
  | .ident _ | .symbol .colon | .symbol .leftBrace | .symbol .rightParen => true
  | _ => false

namespace Expr

variable {sub : Reader Expr} {d : Nat} {l : Precedence} {e : Expr} {t : Token}
  {ts rest : List Token}

/-! ## What is no node -/

/-- After an opening parenthesis the tokens do not make a node. -/
def NoNode (sub : Reader Expr) (ts : List Token) : Prop :=
  ∃ err, nodePattern sub (.symbol .leftParen :: ts) = .error err

/-- After a name and labels something comes that does not belong to a node. -/
theorem noNode_of_head (name : Option String) (labels : List String)
    (hident : name = none → ∀ x, (labelTokens labels ++ ts).head? ≠ some (.ident x))
    (hcolon : ts.head? ≠ some (.symbol .colon)) (hbrace : ts.head? ≠ some (.symbol .leftBrace))
    (hparen : ts.head? ≠ some (.symbol .rightParen)) :
    NoNode sub (nameTokens name ++ (labelTokens labels ++ ts)) := by
  obtain ⟨err, herr⟩ := symbol_error hparen
  refine ⟨err, ?_⟩
  refine (bind_ok symbol_cons).trans ?_
  refine (bind_ok (optionalIdent_ok name hident)).trans ?_
  refine (bind_ok rfl).trans ?_
  refine (bind_ok (labelList_ok hcolon ?_)).trans ?_
  · rw [List.length_append, length_labelTokens]
    omega
  refine (bind_ok (bind_ok (atSymbol_none hbrace))).trans ?_
  exact bind_error herr

theorem noNode_cons (h : t.inNode = false) : NoNode sub (t :: ts) := by
  have hne : ∀ u : Token, u.inNode = true → (t :: ts).head? ≠ some u := by
    intro u hu ht
    rw [← Option.some.inj ht, h] at hu
    cases hu
  exact noNode_of_head none [] (fun _ x => hne (.ident x) rfl) (hne _ rfl) (hne _ rfl) (hne _ rfl)

theorem noNode_map {es : List (String × Expr)} (h : ∀ entry ∈ es, Reads sub .or entry.2)
    (hrest : rest.head? ≠ some (.symbol .rightParen)) :
    NoNode sub (braced (entryTokens es) ++ rest) := by
  obtain ⟨err, herr⟩ := symbol_error hrest
  have hlabels : ∀ n, labelList n (labelTokens [] ++ (braced (entryTokens es) ++ rest)) =
      .ok ([], braced (entryTokens es) ++ rest) := fun n =>
    labelList_ok (by nofun) (Nat.zero_le n)
  refine ⟨err, ?_⟩
  refine (bind_ok symbol_cons).trans ?_
  refine (bind_ok (optionalIdent_ok none fun _ x => by nofun)).trans ?_
  refine (bind_ok rfl).trans ?_
  refine (bind_ok (hlabels _)).trans ?_
  refine (bind_ok ((bind_ok atSymbol_cons).trans (entries_ok h rest))).trans ?_
  exact bind_error herr

theorem noNode_literal (v : Value) : NoNode sub (literalTokens v ++ ts) := by
  cases v with
  | int n =>
    rw [literalTokens]
    split <;> exact noNode_cons rfl
  | float x =>
    rw [literalTokens]
    split <;> exact noNode_cons rfl
  | bool b => cases b <;> exact noNode_cons rfl
  | _ => exact noNode_cons rfl

/-! ## Expressions are no nodes -/

/-- Are the tokens of the expression the beginning of a node that goes on or ends with the token? -/
def beginsNode : Expr → Token → Bool
  | .var _, t | .hasLabels (.var _) _, t =>
    t.isSymbol .colon || t.isSymbol .leftBrace || t.isSymbol .rightParen
  | .map _, t => t.isSymbol .rightParen
  | _, _ => false

theorem beginsNode_of_inNode (h : t.inNode = false) (e : Expr) : beginsNode e t = false := by
  have hne : ∀ s : Symbol, (Token.symbol s).inNode = true → t.isSymbol s = false := by
    intro s hs
    refine Bool.eq_false_iff.2 fun ht => ?_
    rw [isSymbol_iff.1 ht, hs] at h
    cases h
  unfold beginsNode
  split <;> simp only [hne .colon rfl, hne .leftBrace rfl, hne .rightParen rfl, Bool.or_false]

theorem head_ne_of_isSymbol {s : Symbol} (h : t.isSymbol s = false) :
    (t :: ts).head? ≠ some (.symbol s) := fun ht =>
  Bool.false_ne_true (h.symm.trans (isSymbol_iff.2 (Option.some.inj ht)))

/-- A variable and labels, with something after them that does not belong to a node. -/
theorem noNode_var (x : String) (labels : List String)
    (h : (t.isSymbol .colon || t.isSymbol .leftBrace || t.isSymbol .rightParen) = false) :
    NoNode sub (.ident x :: (labelTokens labels ++ t :: ts)) := by
  simp only [Bool.or_eq_false_iff] at h
  exact noNode_of_head (some x) labels nofun (head_ne_of_isSymbol h.1.1)
    (head_ne_of_isSymbol h.1.2) (head_ne_of_isSymbol h.2)

/-- A name with its arguments is no node. -/
theorem noNode_call (f : String) : NoNode sub (.ident f :: .symbol .leftParen :: ts) :=
  noNode_of_head (some f) [] nofun nofun nofun nofun

theorem noNode_placed (h : NoNode sub (e.tokens ++ ts)) :
    NoNode sub (placed l e e.tokens ++ ts) := by
  unfold placed
  split
  · exact noNode_cons rfl
  · exact h

/-- A target of labels stands between parentheses, or it is a variable, or it is no node. -/
theorem beginsNode_colon (h : beginsNode e (.symbol .colon) = true) :
    (∃ x, e = .var x) ∨ ∀ ts, placed .access e ts = parenthesized ts := by
  unfold beginsNode at h
  split at h
  · exact Or.inl ⟨_, rfl⟩
  · exact Or.inr fun ts => rfl
  · cases h
  · cases h

/-- An operand on the left, with a token after it that is in no node. -/
theorem noNode_operand (h : ∀ t ts, beginsNode e t = false → NoNode sub (e.tokens ++ t :: ts))
    (ht : t.inNode = false) : NoNode sub (placed l e e.tokens ++ t :: ts) :=
  noNode_placed (h t ts (beginsNode_of_inNode ht e))

/-- The tokens of an expression and the next one are no node, unless they look like one. -/
theorem noNode_tokens (hsub : ReadsUpTo sub d) : ∀ e : Expr, e.writable = true →
    e.tokens.length ≤ d + 1 → ∀ (t : Token) (ts : List Token), beginsNode e t = false →
      NoNode sub (e.tokens ++ t :: ts)
  | .literal v, _, _, _, _, _ => noNode_literal v
  | .var x, _, _, _, _, h => noNode_var x [] h
  | .map es, hw, hlength, t, ts, h => by
    rw [tokens, braced] at hlength
    simp only [List.length_append, List.length_cons, List.length_nil] at hlength
    exact noNode_map (hsub.entries hw (by omega)) (head_ne_of_isSymbol h)
  | .hasLabels target labels, hw, hlength, t, ts, h => by
    obtain ⟨hne, hw⟩ := Bool.and_eq_true_iff.1 hw
    obtain ⟨label, more, rfl⟩ := List.exists_cons_of_ne_nil
      (List.isEmpty_eq_false_iff.1 (Bool.not_eq_true' _ ▸ hne))
    have htarget := noNode_tokens hsub target hw (length_left hlength)
    rw [tokens, List.append_assoc]
    by_cases hcolon : beginsNode target (.symbol .colon) = true
    · rcases beginsNode_colon hcolon with ⟨x, rfl⟩ | hparens
      · exact noNode_var x (label :: more) h
      · rw [hparens]
        exact noNode_cons rfl
    · exact noNode_placed (htarget _ _ (Bool.eq_false_iff.2 hcolon))
  | .property target key, hw, hlength, t, ts, _ => by
    rw [tokens, List.append_assoc]
    exact noNode_operand (noNode_tokens hsub target hw (length_left hlength)) rfl
  | .index target position, hw, hlength, t, ts, _ => by
    rw [tokens, List.append_assoc]
    exact noNode_operand
      (noNode_tokens hsub target (Bool.and_eq_true_iff.1 hw).1 (length_left hlength)) rfl
  | .slice target lower upper, hw, hlength, t, ts, _ => by
    simp only [writable, Bool.and_eq_true] at hw
    rw [tokens, List.append_assoc]
    exact noNode_operand (noNode_tokens hsub target hw.1.1 (length_left hlength)) rfl
  | .isNull operand, hw, hlength, t, ts, _ | .isNotNull operand, hw, hlength, t, ts, _ => by
    rw [tokens, List.append_assoc]
    exact noNode_operand (noNode_tokens hsub operand hw (length_left hlength)) rfl
  | .binary op left right, hw, hlength, t, ts, _ => by
    rw [tokens, List.length_append, List.length_append] at hlength
    rw [tokens, List.append_assoc, List.append_assoc]
    have hleft := noNode_tokens hsub left (Bool.and_eq_true_iff.1 hw).1
      (Nat.le_trans (length_le_placed op.level left) (by omega))
    cases op <;> exact noNode_operand hleft rfl
  | .call f _ _, _, _, _, _, _ => noNode_call f
  | .countAll, _, _, _, _, _ => noNode_call "count"
  | .quantified kind _ _ _, _, _, _, _, _ => by
    cases kind with
    | all => exact noNode_cons rfl
    | any => exact noNode_call "any"
    | none => exact noNode_call "none"
    | single => exact noNode_call "single"
  | .unary op _, _, _, _, _, _ => by cases op <;> exact noNode_cons rfl
  | .pattern ⟨_, ⟨_, _, _⟩, _⟩, _, _, _, _, _ => noNode_cons rfl
  | .parameter _, _, _, _, _, _ | .list _, _, _, _, _, _ | .case _ _ _, _, _, _, _, _
  | .comprehension _ _ _ _, _, _, _, _, _ => noNode_cons rfl

/-! ## Expressions between parentheses -/

/-- Where there is no node there is no walk. -/
theorem patternPredicate_noNode (h : NoNode sub ts) :
    patternPredicate? sub (.symbol .leftParen :: ts) = .ok (none, .symbol .leftParen :: ts) := by
  obtain ⟨err, herr⟩ := h
  have hpart : patternPart sub (.symbol .leftParen :: ts) = .error err := by
    have hpath : pathName (.symbol .leftParen :: ts) = .ok (none, .symbol .leftParen :: ts) :=
      (bind_ok rfl).trans (bind_ok rfl)
    refine (bind_ok hpath).trans ?_
    exact (bind_ok rfl).trans (bind_error herr)
  unfold patternPredicate?
  rw [hpart]

/-- A walk of one node is no predicate. -/
theorem patternPredicate_node (n : NodePattern) (hn : n.properties = [])
    (hdash : rest.head? ≠ some (.symbol .dash)) (hless : rest.head? ≠ some (.symbol .less)) :
    patternPredicate? sub (nodeTokens n ++ rest) = .ok (none, nodeTokens n ++ rest) := by
  have hpart : patternPart sub (partTokens ⟨none, n, []⟩ ++ rest) = .ok (⟨none, n, []⟩, rest) :=
    patternPart_ok rfl (by rw [hn]; nofun) nofun hdash hless
  rw [partTokens, chainTokens, List.append_nil] at hpart
  unfold patternPredicate?
  rw [hpart]
  rfl

theorem beginsNode_labels (h : beginsNode e t = true) (he : e.binding ≠ .atom) :
    ∃ x labels, e = .hasLabels (.var x) labels := by
  unfold beginsNode at h
  split at h
  · exact absurd rfl he
  · exact ⟨_, _, rfl⟩
  · exact absurd rfl he
  · cases h

/-- An expression between parentheses is read as that expression.  Behind a test for labels no
relationship may come. -/
theorem primary_group (hsub : ReadsUpTo sub d) (hw : e.writable = true)
    (hlength : e.tokens.length ≤ d) (he : e.binding ≠ .atom)
    (hnext : e.binding = .label →
      rest.head? ≠ some (.symbol .dash) ∧ rest.head? ≠ some (.symbol .less)) :
    primary sub (parenthesized e.tokens ++ rest) = .ok (e, rest) := by
  rw [parenthesized, List.cons_append, List.append_assoc, List.singleton_append]
  have hpredicate : patternPredicate? sub
      (.symbol .leftParen :: (e.tokens ++ .symbol .rightParen :: rest)) =
        .ok (none, .symbol .leftParen :: (e.tokens ++ .symbol .rightParen :: rest)) := by
    by_cases hbegins : beginsNode e (.symbol .rightParen) = true
    · obtain ⟨x, labels, rfl⟩ := beginsNode_labels hbegins he
      obtain ⟨hdash, hless⟩ := hnext rfl
      have hnode : nodeTokens ⟨some x, labels, []⟩ ++ rest = .symbol .leftParen ::
          ((hasLabels (.var x) labels).tokens ++ .symbol .rightParen :: rest) := by
        have hlabels : (hasLabels (.var x) labels).tokens = .ident x :: labelTokens labels := rfl
        rw [nodeTokens, hlabels]
        simp [nameTokens, bracedUnlessEmpty, entryTokens]
      rw [← hnode]
      exact patternPredicate_node ⟨some x, labels, []⟩ rfl hdash hless
    · exact patternPredicate_noNode
        (noNode_tokens hsub e hw (Nat.le_succ_of_le hlength) _ _ (Bool.eq_false_iff.2 hbegins))
  refine (bind_ok rfl).trans ?_
  refine (bind_ok hpredicate).trans ?_
  refine (bind_ok rfl).trans ?_
  refine (bind_ok (hsub.bare hw hlength (stops_of_none (by rfl)))).trans ?_
  exact bind_ok symbol_cons

end Expr

end PropertyGraph
