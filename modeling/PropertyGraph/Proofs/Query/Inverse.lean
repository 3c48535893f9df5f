import PropertyGraph.Proofs.Query.Grouping

/-!
# Reading inverts writing

The tokens of an expression are read as that expression, and nothing else is taken.  An operand on
the left of an operator that associates to the left is part of the same loop, if it has the same
level; every other operand is read by the reader of the level that its place wants.

    Expr.Understood      the readers of the levels take the tokens of an expression
    understood           every expression that can be read is understood
    readsUpTo_reader     as many tokens may nest as the depth allows
    read_tokens          the grammar inverts writing
-/

namespace PropertyGraph

open Reader

namespace Precedence

variable {k l : Precedence}

/-- The level whose loop reads the operators of a level; accesses and labels have one loop. -/
def loop : Precedence → Precedence
  | .access => .label
  | l => l

theorem or_le (l : Precedence) : .or ≤ l := by
  cases l <;> decide

theorem le_operand (l : Precedence) : l ≤ l.operand := by
  cases l <;> decide

/-- The operand of a weaker loop binds at least as strongly as the level. -/
theorem operand_le (hl : l.isLoop = true) (hlk : l ≤ k) (hne : l ≠ k.loop) : l.operand ≤ k := by
  revert hl hlk hne
  cases l <;> cases k <;> decide

end Precedence

/-- No token goes on with labels alone. -/
theorem Stops.loop {l : Precedence} {rest : List Token} (h : Stops l rest) : Stops l.loop rest := by
  cases l with
  | access =>
    intro t ht k hk
    have hlt : k < .access := h t ht k hk
    have hne : k ≠ .label := by
      rintro rfl
      revert hk
      unfold Token.continues?
      split <;> nofun
    revert hlt hne
    cases k <;> decide
  | _ => exact h

namespace Expr

variable {sub : Reader Expr} {d : Nat} {k l : Precedence} {e : Expr} {ts rest : List Token}

/-! ## What the readers of the levels take -/

/-- The readers of all levels up to that of the expression take its tokens, and the loops of these
levels take them as an operand and some steps. -/
structure Understood (sub : Reader Expr) (e : Expr) : Prop where
  read : ∀ {k : Precedence}, k ≤ e.binding → ∀ {rest : List Token}, Stops k rest →
    readerAt sub k (e.tokens ++ rest) = .ok (e, rest)
  grows : ∀ {l : Precedence}, l.isLoop = true → l ≤ e.binding →
    ∀ {rest : List Token}, Stops l.operand rest →
      (e.binding = .label → rest.head? ≠ some (.symbol .colon)) →
        Grows sub l (e.tokens ++ rest) e rest

namespace Understood

/-- Enough for an expression whose operator is not one of a loop. -/
theorem of_read (hk : e.binding = k) (hloop : k.loop.isLoop = false)
    (h : ∀ rest, Stops k rest → readerAt sub k (e.tokens ++ rest) = .ok (e, rest)) :
    Understood sub e := by
  subst hk
  have hread : ∀ {l : Precedence}, l ≤ e.binding → ∀ {rest : List Token}, Stops l rest →
      readerAt sub l (e.tokens ++ rest) = .ok (e, rest) := fun hle rest hstops =>
    readerAt_of_le hle hstops ((opens_tokens e).append rest) (h rest (hstops.mono hle))
  refine ⟨hread, fun {l} hl hle rest hstops _ => .of_operand (hread ?_ hstops)⟩
  refine Precedence.operand_le hl hle ?_
  rintro rfl
  rw [hl] at hloop
  cases hloop

theorem readerAt_loop_eq (l : Precedence) : readerAt sub l.loop = readerAt sub l := by
  cases l <;> rfl

/-- Enough for an expression whose operator is one of a loop. -/
theorem of_grows (hk : e.binding = k) (hl : k.loop = l) (hloop : l.isLoop = true)
    (h : ∀ rest, Stops l.operand rest → (k = .label → rest.head? ≠ some (.symbol .colon)) →
      Grows sub l (e.tokens ++ rest) e rest) : Understood sub e := by
  subst hk hl
  have hread : ∀ {l : Precedence}, l ≤ e.binding → ∀ {rest : List Token}, Stops l rest →
      readerAt sub l (e.tokens ++ rest) = .ok (e, rest) := by
    intro l hle rest hstops
    have hend : Stops e.binding.loop rest := (hstops.mono hle).loop
    refine readerAt_of_le hle hstops ((opens_tokens e).append rest) ?_
    rw [← readerAt_loop_eq]
    refine Grows.read hloop (h rest (hend.mono (Precedence.le_operand _)) fun hlabel => ?_) hend
    exact (hlabel ▸ hstops.mono hle : Stops .label rest).head_ne rfl (by decide)
  refine ⟨hread, fun {l} hl hle rest hstops hcolon => ?_⟩
  by_cases hsame : l = e.binding.loop
  · exact hsame ▸ h rest (hsame ▸ hstops) hcolon
  · exact .of_operand (hread (Precedence.operand_le hl hle hsame) hstops)

/-! ### Operands -/

theorem binding_lt (h : e.needsParens l = true) (hor : e.binding ≠ .or) : e.binding < l := by
  unfold needsParens at h
  rw [Bool.or_eq_true, decide_eq_true_eq] at h
  refine h.resolve_left fun hpattern => hor ?_
  cases e with
  | pattern _ => rfl
  | _ => cases hpattern

theorem binding_ne_atom (h : e.needsParens l = true) : e.binding ≠ .atom := fun hatom =>
  absurd l.le_atom (Nat.not_le.2 (hatom ▸ binding_lt h (by rw [hatom]; nofun)))

theorem le_binding (h : ¬e.needsParens l = true) : l ≤ e.binding := by
  unfold needsParens at h
  rw [Bool.or_eq_true, decide_eq_true_eq, not_or] at h
  exact Nat.not_lt.1 h.2

/-- Parentheses around an expression are read by every level. -/
theorem read_group (hsub : ReadsUpTo sub d) (hw : e.writable = true)
    (hparens : e.needsParens k = true) (hlength : (parenthesized e.tokens).length ≤ d + 1)
    (hstops : Stops l rest) (hnext : .label < k →
      rest.head? ≠ some (.symbol .dash) ∧ rest.head? ≠ some (.symbol .less)) :
    readerAt sub l (parenthesized e.tokens ++ rest) = .ok (e, rest) := by
  have hle : e.tokens.length ≤ d := by
    rw [length_parenthesized] at hlength
    omega
  exact readerAt_of_le l.le_atom hstops (opens_atom rfl)
    (primary_group hsub hw hle (binding_ne_atom hparens) fun he =>
      hnext (he ▸ binding_lt hparens (by rw [he]; nofun)))

variable (h : Understood sub e) (hsub : ReadsUpTo sub d) (hw : e.writable = true)
  (hlength : (placed k e e.tokens).length ≤ d + 1)
include h hsub hw hlength

/-- The tokens of an expression in its place. -/
theorem read_placed (hlk : l ≤ k) (hstops : Stops l rest) (hnext : .label < k →
      rest.head? ≠ some (.symbol .dash) ∧ rest.head? ≠ some (.symbol .less)) :
    readerAt sub l (e.tokensAt k ++ rest) = .ok (e, rest) := by
  rw [← placed_tokens]
  unfold Expr.placed at hlength ⊢
  split at hlength
  · next hparens =>
    rw [if_pos hparens]
    exact read_group hsub hw hparens hlength hstops hnext
  · next hparens =>
    rw [if_neg hparens]
    exact h.read (Nat.le_trans hlk (le_binding hparens)) hstops

/-- The tokens of an operand on the left in its place. -/
theorem grows_placed (hl : l.isLoop = true) (hlk : l ≤ k) (hstops : Stops l.operand rest)
    (hcolon : k ≤ .label → rest.head? ≠ some (.symbol .colon)) (hnext : .label < k →
      rest.head? ≠ some (.symbol .dash) ∧ rest.head? ≠ some (.symbol .less)) :
    Grows sub l (e.tokensAt k ++ rest) e rest := by
  rw [← placed_tokens]
  unfold Expr.placed at hlength ⊢
  split at hlength
  · next hparens =>
    rw [if_pos hparens]
    exact .of_operand (read_group hsub hw hparens hlength hstops hnext)
  · next hparens =>
    rw [if_neg hparens]
    have hle := le_binding hparens
    exact h.grows hl (Nat.le_trans hlk hle) hstops fun he => hcolon (he ▸ hle)

end Understood

/-! ## Every expression is understood -/

theorem readerAt_not (ts : List Token) : readerAt sub .not (.keyword .not :: ts) =
    (do return .unary .not (← readerAt sub .not) : Reader Expr) ts :=
  (bind_ok rfl).trans (bind_ok eatKeyword_cons)

theorem readerAt_dash (ts : List Token) : readerAt sub .sign (.symbol .dash :: ts) =
    (do return negative (← readerAt sub .sign) : Reader Expr) ts :=
  (bind_ok rfl).trans (bind_ok eatSymbol_cons)

theorem readerAt_plus (ts : List Token) : readerAt sub .sign (.symbol .plus :: ts) =
    (do return .unary .plus (← readerAt sub .sign) : Reader Expr) ts := by
  refine (bind_ok rfl).trans ?_
  refine (bind_ok (eatSymbol_none (by nofun))).trans ?_
  exact bind_ok eatSymbol_cons

theorem understood_atom (hsub : ReadsUpTo sub d) (he : e.binding = .atom)
    (hw : e.writable = true) (hlength : e.tokens.length ≤ d + 1) : Understood sub e :=
  .of_read he rfl fun _ hstops => primary_atom hsub he hw hlength hstops

theorem understood_literal (hsub : ReadsUpTo sub d) {v : Value} (hw : isLiteral v = true)
    (hlength : (literal v).tokens.length ≤ d + 1) : Understood sub (.literal v) := by
  by_cases hv : isNegative v = true
  · refine .of_read (if_pos hv) rfl fun rest hstops => ?_
    -- the number after the sign is itself a literal
    have hpositive : ∀ {t : Token} {w : Value}, literal? t = some w → t.starts? = some .atom →
        readerAt sub .sign (t :: rest) = .ok (.literal w, rest) := by
      intro t w ht hstarts
      refine readerAt_of_le (Precedence.le_atom _) hstops (opens_atom hstarts) ?_
      refine (bind_ok rfl).trans ?_
      simp only [List.head?_cons, Option.bind_some, ht]
      rfl
    cases v with
    | int n =>
      have hn : n < 0 := of_decide_eq_true hv
      rw [tokens, literalTokens, if_pos hn]
      refine (readerAt_dash _).trans ((bind_ok (hpositive rfl rfl)).trans ?_)
      rw [negative, Int64.neg_neg]
      rfl
    | float x =>
      have hx : isSigned x = true := hv
      rw [tokens, literalTokens, if_pos hx]
      refine (readerAt_dash _).trans ((bind_ok (hpositive rfl rfl)).trans ?_)
      rw [negative, Double.neg_neg]
      rfl
    | _ => cases hv
  · exact understood_atom hsub (if_neg hv) hw hlength

/-- A walk with a relationship is read as a predicate. -/
theorem primary_pattern (hsub : ReadsUpTo sub d) {part : PatternPart}
    (hw : partWritable part = true) (hlength : (partTokens part).length ≤ d + 1)
    (hdash : rest.head? ≠ some (.symbol .dash)) (hless : rest.head? ≠ some (.symbol .less)) :
    primary sub (partTokens part ++ rest) = .ok (.pattern part, rest) := by
  obtain ⟨name, start, chain⟩ := part
  simp only [partWritable, Bool.and_eq_true, Bool.not_eq_true'] at hw
  obtain ⟨⟨⟨hname, hne⟩, hstart⟩, hchain⟩ := hw
  obtain ⟨body, hbody⟩ := nodeTokens_eq start
  have hlengths : (nodeTokens start).length ≤ d ∧ (chainTokens chain).length ≤ d := by
    have hlinks := length_chainTokens chain
    have hpos := List.length_pos_iff.2 (List.isEmpty_eq_false_iff.1 hne)
    rw [partTokens, hbody, List.length_append, List.length_cons] at hlength
    rw [hbody, List.length_cons]
    omega
  have hlinks : ∀ link ∈ chain, LinkReads sub link := hsub.chain hchain hlengths.2
  have hpart : patternPart sub (partTokens ⟨name, start, chain⟩ ++ rest) =
      .ok (⟨name, start, chain⟩, rest) :=
    patternPart_ok (Option.isNone_iff_eq_none.1 hname) (hsub.node hstart hlengths.1) hlinks
      hdash hless
  have hpredicate : patternPredicate? sub (partTokens ⟨name, start, chain⟩ ++ rest) =
      .ok (some (.pattern ⟨name, start, chain⟩), rest) := by
    unfold patternPredicate?
    rw [hpart]
    simp only [hne, Bool.false_eq_true, if_false]
  rw [partTokens, hbody, List.append_assoc, List.cons_append] at hpredicate ⊢
  refine (bind_ok rfl).trans ?_
  exact (bind_ok hpredicate).trans rfl

theorem understood_pattern (hsub : ReadsUpTo sub d) {part : PatternPart}
    (hw : partWritable part = true) (hlength : (partTokens part).length ≤ d + 1) :
    Understood sub (.pattern part) := by
  have hatom : ∀ {l : Precedence} {rest : List Token}, l ≤ .xor → Stops l rest →
      readerAt sub l ((pattern part).tokens ++ rest) = .ok (.pattern part, rest) := by
    intro l rest hl hstops
    have hopens : Opens .atom (partTokens part) := by
      obtain ⟨_, ⟨_, _, _⟩, _⟩ := part
      exact opens_atom rfl
    refine readerAt_of_le l.le_atom hstops (hopens.append rest) 
      (primary_pattern hsub hw hlength ?_ ?_)
    · exact hstops.head_ne rfl (Nat.le_trans hl (by decide))
    · exact hstops.head_ne rfl (Nat.le_trans hl (by decide))
  refine ⟨fun hk rest hstops => hatom (Nat.le_trans hk (Precedence.or_le _)) hstops, ?_⟩
  intro l hl hle rest hstops _
  obtain rfl : l = .or := by
    have hor : l ≤ .or := hle
    revert hor
    cases l <;> decide
  exact .of_operand (hatom (Nat.le_refl _) hstops)

theorem understood_unary (hsub : ReadsUpTo sub d) {op : UnaryOp} {operand : Expr}
    (h : Understood sub operand) (hw : (unary op operand).writable = true)
    (hlength : (unary op operand).tokens.length ≤ d + 1) : Understood sub (.unary op operand) := by
  obtain ⟨hnumber, hoperand⟩ := Bool.and_eq_true_iff.1 hw
  rw [tokens, List.length_cons] at hlength
  have hread : ∀ rest, Stops op.level rest →
      readerAt sub op.level (operand.tokensAt op.level ++ rest) = .ok (operand, rest) :=
    fun rest hstops => h.read_placed hsub hoperand (by omega) (Nat.le_refl _) hstops
      (by cases op <;> exact fun hlt => absurd hlt (by decide))
  refine .of_read rfl (by cases op <;> rfl) fun rest hstops => ?_
  cases op with
  | not => exact (readerAt_not _).trans (bind_ok (hread rest hstops))
  | plus => exact (readerAt_plus _).trans (bind_ok (hread rest hstops))
  | negate =>
    refine (readerAt_dash _).trans ((bind_ok (hread rest hstops)).trans ?_)
    have hnegative : negative operand = .unary .negate operand := by
      unfold negative
      split
      · cases hnumber
      · cases hnumber
      · rfl
    rw [hnegative]
    rfl

theorem stops_op (op : BinaryOp) (ts : List Token) : Stops op.level.operand (op.tokens ++ ts) := by
  cases op <;> exact stops_cons (by rintro k ⟨⟩; decide)

theorem op_head_ne_colon (op : BinaryOp) (ts : List Token) :
    (op.tokens ++ ts).head? ≠ some (.symbol .colon) := by
  cases op <;> nofun

theorem understood_binary (hsub : ReadsUpTo sub d) {op : BinaryOp} {left right : Expr}
    (hleft : Understood sub left) (hright : Understood sub right)
    (hw : (binary op left right).writable = true)
    (hlength : (binary op left right).tokens.length ≤ d + 1) :
    Understood sub (.binary op left right) := by
  obtain ⟨hwleft, hwright⟩ := Bool.and_eq_true_iff.1 hw
  rw [tokens, List.length_append, List.length_append] at hlength
  have hop : op.level.loop = op.level ∧ op.level.isLoop = true ∧
      op.level.operand = op.level.next ∧ ¬.label < op.level ∧ ¬.label < op.level.next := by
    cases op <;> decide
  obtain ⟨hself, hloop, hnext, hlevel, hoperand⟩ := hop
  refine .of_grows rfl hself hloop fun rest hstops _ => ?_
  rw [hnext] at hstops
  rw [tokens, List.append_assoc, List.append_assoc]
  have hgrows := hleft.grows_placed hsub hwleft (by omega) hloop (Nat.le_refl _)
    (stops_op op (right.tokensAt op.level.next ++ rest)) (fun _ => op_head_ne_colon op _)
    fun hlt => absurd hlt hlevel
  exact hgrows.step (steps_binary op (hright.read_placed hsub hwright (by omega) (Nat.le_refl _)
    hstops fun hlt => absurd hlt hoperand))

/-- A test for null, whose tokens stand behind the operand. -/
theorem understood_null (hsub : ReadsUpTo sub d) {operand : Expr} (h : Understood sub operand)
    (hw : operand.writable = true) {ending : List Token}
    (htokens : e.tokens = operand.tokensAt .comparison ++ .keyword .is :: ending)
    (he : e.binding = .comparison)
    (hstep : ∀ rest, Steps sub .comparison operand (.keyword .is :: (ending ++ rest)) e rest)
    (hlength : e.tokens.length ≤ d + 1) : Understood sub e := by
  refine .of_grows (l := .comparison) he rfl rfl fun rest _ _ => ?_
  rw [htokens, List.length_append] at hlength
  rw [htokens, List.append_assoc]
  have hstops : Stops .sum (.keyword .is :: (ending ++ rest)) :=
    stops_cons (by rintro k ⟨⟩; decide)
  have hgrows := h.grows_placed (l := .comparison) (k := .comparison) hsub hw
    (by rw [placed_tokens]; omega) rfl (Nat.le_refl _) hstops (fun _ => by nofun)
    fun hlt => absurd hlt (by decide)
  exact hgrows.step (hstep rest)

/-- An access to a part of a target. -/
theorem understood_access (hsub : ReadsUpTo sub d) {target : Expr} (h : Understood sub target)
    (hw : target.writable = true) {s : Symbol} {ending : List Token}
    (htokens : e.tokens = target.tokensAt .label ++ .symbol s :: ending) (he : e.binding = .access)
    (hs : (Token.symbol s).continues? = some .access) (hcolon : s ≠ .colon)
    (hstep : ∀ rest, Steps sub .label target (.symbol s :: (ending ++ rest)) e rest)
    (hlength : e.tokens.length ≤ d + 1) : Understood sub e := by
  refine .of_grows (l := .label) he rfl rfl fun rest _ _ => ?_
  rw [htokens, List.length_append] at hlength
  rw [htokens, List.append_assoc, List.cons_append]
  have hstops : Stops .atom (.symbol s :: (ending ++ rest)) :=
    stops_cons fun k hk => by rw [hs] at hk; cases hk; decide
  have hgrows := h.grows_placed (l := .label) (k := .label) hsub hw
    (by rw [placed_tokens]; omega) rfl (Nat.le_refl _) hstops
    (fun _ hhead => hcolon (Token.symbol.inj (Option.some.inj hhead))) fun hlt => absurd hlt (by decide)
  exact hgrows.step (hstep rest)

theorem stops_labels {labels : List String} (hne : labels ≠ []) :
    Stops .atom (labelTokens labels ++ rest) := by
  obtain ⟨label, more, rfl⟩ := List.exists_cons_of_ne_nil hne
  exact stops_cons (by rintro k ⟨⟩; decide)

theorem understood_labels (hsub : ReadsUpTo sub d) {target : Expr} {labels : List String}
    (h : Understood sub target) (hw : (hasLabels target labels).writable = true)
    (hlength : (hasLabels target labels).tokens.length ≤ d + 1) :
    Understood sub (.hasLabels target labels) := by
  obtain ⟨hempty, hwtarget⟩ := Bool.and_eq_true_iff.1 hw
  have hne : labels ≠ [] := by
    rintro rfl
    cases hempty
  have hhead : ∀ {s : Symbol} (rest : List Token), s ≠ .colon →
      (labelTokens labels ++ rest).head? ≠ some (.symbol s) := fun rest hs =>
    labelTokens_append_head_ne hne (fun h => hs (Token.symbol.inj h)) rest
  rw [tokens, List.length_append] at hlength
  refine .of_grows (l := .label) rfl rfl rfl fun rest _ hcolon => ?_
  rw [tokens, List.append_assoc]
  have hgrows := h.grows_placed (l := .label) (k := .access) hsub hwtarget (by omega) rfl
    (by decide) (stops_labels hne) (fun hle => absurd hle (by decide))
    fun _ => ⟨hhead rest (by decide), hhead rest (by decide)⟩
  exact hgrows.step (steps_hasLabels target hne (hcolon rfl))

/-- Every expression that can be read is understood, if the expressions inside it are read. -/
theorem understood (hsub : ReadsUpTo sub d) : ∀ e : Expr, e.writable = true →
    e.tokens.length ≤ d + 1 → Understood sub e
  | .literal _, hw, hlength => understood_literal hsub hw hlength
  | .pattern _, hw, hlength => understood_pattern hsub hw hlength
  | .unary op operand, hw, hlength => by
    have hle : operand.tokens.length ≤ d + 1 := by
      have := length_le_placed op.level operand
      rw [tokens, List.length_cons] at hlength
      omega
    exact understood_unary hsub (understood hsub operand (Bool.and_eq_true_iff.1 hw).2 hle) hw
      hlength
  | .binary op left right, hw, hlength => by
    obtain ⟨hwleft, hwright⟩ := Bool.and_eq_true_iff.1 hw
    have hle : left.tokens.length ≤ d + 1 ∧ right.tokens.length ≤ d + 1 := by
      have := length_le_placed op.level left
      have := length_le_placed op.level.next right
      rw [tokens, List.length_append, List.length_append] at hlength
      omega
    exact understood_binary hsub (understood hsub left hwleft hle.1)
      (understood hsub right hwright hle.2) hw hlength
  | .hasLabels target _, hw, hlength =>
    understood_labels hsub (understood hsub target (Bool.and_eq_true_iff.1 hw).2
      (length_left hlength)) hw hlength
  | .isNull operand, hw, hlength =>
    understood_null hsub (understood hsub operand hw (length_left hlength)) hw rfl rfl
      (fun _ => steps_isNull operand) hlength
  | .isNotNull operand, hw, hlength =>
    understood_null hsub (understood hsub operand hw (length_left hlength)) hw rfl rfl
      (fun _ => steps_isNotNull operand) hlength
  | .property target key, hw, hlength =>
    understood_access hsub (understood hsub target hw (length_left hlength)) hw rfl rfl rfl
      (by decide) (fun _ => steps_property target key) hlength
  | .index target position, hw, hlength => by
    obtain ⟨hwtarget, hwposition⟩ := Bool.and_eq_true_iff.1 hw
    have hposition : Reads sub .or position := hsub.placed hwposition (by
      rw [tokens] at hlength
      simp only [placed_tokens, List.length_append, List.length_cons] at hlength
      omega)
    refine understood_access hsub (understood hsub target hwtarget (length_left hlength)) hwtarget
      rfl rfl rfl (by decide) (fun rest => steps_brackets ?_ ?_) hlength
    · rw [List.append_assoc]
      exact indexBody_index hposition rest
    · rw [List.length_append]
      omega
  | .slice target lower upper, hw, hlength => by
    simp only [writable, Bool.and_eq_true] at hw
    obtain ⟨⟨hwtarget, hwlower⟩, hwupper⟩ := hw
    have hinside : (optionTokens [] lower).length ≤ d ∧ (optionTokens [] upper).length ≤ d := by
      rw [tokens] at hlength
      simp only [List.length_append, List.length_cons] at hlength
      omega
    refine understood_access hsub (understood hsub target hwtarget (length_left hlength)) hwtarget
      rfl rfl rfl (by decide) (fun rest => steps_brackets ?_ ?_) hlength
    · rw [List.append_assoc, List.cons_append, List.append_assoc]
      exact indexBody_slice (hsub.option hwlower [] hinside.1) (hsub.option hwupper [] hinside.2)
        rest
    · rw [List.length_append]
      omega
  | .parameter _, hw, hlength | .var _, hw, hlength | .list _, hw, hlength | .map _, hw, hlength
  | .call _ _ _, hw, hlength | .countAll, hw, hlength | .case _ _ _, hw, hlength
  | .comprehension _ _ _ _, hw, hlength | .quantified _ _ _ _, hw, hlength =>
    understood_atom hsub rfl hw hlength

/-! ## The grammar -/

/-- A reader of some depth takes the tokens of all expressions that have not more tokens. -/
theorem readsUpTo_reader (d : Nat) : ReadsUpTo (reader d) d := by
  induction d with
  | zero =>
    have hpos : ∀ {l : Precedence} {ts : List Token}, Opens l ts → ¬ts.length ≤ 0 := by
      rintro l ts ⟨t, ht, -⟩ hlength
      rw [List.eq_nil_of_length_eq_zero (Nat.le_zero.1 hlength)] at ht
      cases ht
    exact ⟨fun {e} _ hlength => absurd hlength (hpos (opens_tokens e)),
      fun {e l} _ hlength => absurd hlength (hpos (opens_tokensAt l e))⟩
  | succ d ih =>
    refine ⟨fun {e} hw hlength rest hstops => ?_, fun {e l} hw hlength rest hstops => ?_⟩
    · exact (understood ih e hw hlength).read (Precedence.or_le _) hstops
    · have hbare : e.tokens.length ≤ d + 1 := Nat.le_trans (length_le_placed l e) hlength
      exact (understood ih e hw hbare).read_placed ih hw hlength (Precedence.or_le l) hstops
        fun _ => ⟨hstops.head_ne rfl (by decide), hstops.head_ne rfl (by decide)⟩

/-- Reading inverts writing, wherever no operator follows. -/
theorem read_append {e : Expr} (hw : e.writable = true) {rest : List Token}
    (hstops : Stops .or rest) : Expr.read (e.tokens ++ rest) = .ok (e, rest) := by
  have hlength : e.tokens.length ≤ (e.tokens ++ rest).length := by
    rw [List.length_append]
    exact Nat.le_add_right _ _
  exact (bind_ok rfl).trans ((readsUpTo_reader _).bare hw hlength hstops)

/-- The tokens of every expression that can be read are read as that expression, to the last one. -/
theorem read_tokens {e : Expr} (hw : e.writable = true) : Expr.read e.tokens = .ok (e, []) := by
  have h := read_append hw stops_nil
  rwa [List.append_nil] at h

/-- `NOT ((a)-[:KNOWS*1..3]->(b)) AND [(x IN a.friends), ((-1)[0])] = (a:Person):Robot` -/
def mixed : Expr :=
  .binary .and
    (.unary .not (.pattern ⟨none, ⟨some "a", [], []⟩,
      [(⟨none, ["KNOWS"], .outgoing, [], some ⟨some 1, some 3⟩⟩, ⟨some "b", [], []⟩)]⟩))
    (.binary .equal
      (.list [.binary .isIn (.var "x") (.property (.var "a") "friends"),
        .index (.literal (.int (-1))) (.literal (.int 0))])
      (.hasLabels (.hasLabels (.var "a") ["Person"]) ["Robot"]))

theorem read_mixed : mixed.tokens =
    [.keyword .not, .symbol .leftParen, .symbol .leftParen, .ident "a", .symbol .rightParen,
      .symbol .dash, .symbol .leftBracket, .symbol .colon, .ident "KNOWS", .symbol .star, .int 1,
      .symbol .dotDot, .int 3, .symbol .rightBracket, .symbol .dash, .symbol .greater,
      .symbol .leftParen, .ident "b", .symbol .rightParen, .symbol .rightParen, .keyword .and,
      .symbol .leftBracket, .symbol .leftParen, .ident "x", .keyword .in_, .ident "a", .symbol .dot,
      .ident "friends", .symbol .rightParen, .symbol .comma, .symbol .leftParen,
      .symbol .leftParen, .symbol .dash, .int 1, .symbol .rightParen, .symbol .leftBracket, .int 0,
      .symbol .rightBracket, .symbol .rightParen, .symbol .rightBracket, .symbol .equals,
      .symbol .leftParen, .ident "a", .symbol .colon, .ident "Person", .symbol .rightParen,
      .symbol .colon, .ident "Robot"] ∧
    mixed.writable = true ∧ Expr.read mixed.tokens = .ok (mixed, []) :=
  ⟨rfl, rfl, read_tokens rfl⟩

end Expr

end PropertyGraph
