import PropertyGraph.Proofs.Query.Reading
import PropertyGraph.Proofs.Query.Rendering

/-!
# The levels of the grammar

The grammar has a reader for each level.  What a stronger level reads all weaker ones read as well,
if the tokens after it would not go on with an operator of theirs and those of it do not begin with
a sign or a negation.  Operators that associate to the left, and accesses, are read by loops: one
operand, and then steps that each make the expression so far the left part of a larger one.

    Stops l rest        no operator of the level or of a stronger one comes next
    Opens l ts          the tokens begin as an expression of the level may
    Expr.readerAt       the reader of a level
    readerAt_of_le      weaker levels read what stronger ones do
    Grows               one operand and some steps of a loop
-/

namespace PropertyGraph

open Reader

/-! ## Levels in order -/

namespace Precedence

variable {k l : Precedence}

theorem le_next (l : Precedence) : l ≤ l.next := by
  cases l <;> decide

theorem le_atom (l : Precedence) : l ≤ .atom := by
  cases l <;> decide

/-- A stronger level is the next one or a still stronger one. -/
theorem next_le (h : k < l) : k.next ≤ l := by
  revert h
  cases k <;> cases l <;> decide

/-- Operators of the level are read by a loop. -/
def isLoop : Precedence → Bool
  | .or | .xor | .and | .comparison | .sum | .product | .power | .label => true
  | .not | .sign | .access | .atom => false

/-- The level of what a loop begins with. -/
def operand : Precedence → Precedence
  | .label => .atom
  | l => l.next

end Precedence

/-! ## Before and after an expression -/

/-- The level of the operator that an expression goes on with if the token comes next. -/
def Token.continues? : Token → Option Precedence
  | .keyword .or => some .or
  | .keyword .xor => some .xor
  | .keyword .and => some .and
  | .keyword .is | .keyword .in_ | .keyword .contains | .keyword .startsWith
  | .keyword .endsWith | .symbol .equals | .symbol .notEquals | .symbol .less
  | .symbol .lessEquals | .symbol .greater | .symbol .greaterEquals | .symbol .matches =>
    some .comparison
  | .symbol .plus | .symbol .dash => some .sum
  | .symbol .star | .symbol .slash | .symbol .percent => some .product
  | .symbol .caret => some .power
  | .symbol .dot | .symbol .leftBracket | .symbol .colon => some .access
  | .symbol .leftParen => some .atom
  | _ => none

/-- The level of the strongest expressions that begin with the token. -/
def Token.starts? : Token → Option Precedence
  | .keyword .not => some .not
  | .symbol .dash | .symbol .plus => some .sign
  | .keyword .case | .keyword .all | .keyword .true_ | .keyword .false_ | .keyword .null
  | .symbol .leftParen | .symbol .leftBracket | .symbol .leftBrace
  | .parameter _ | .ident _ | .text _ | .int _ | .float _ => some .atom
  | _ => none

/-- An expression of the level ends before these tokens. -/
def Stops (l : Precedence) (rest : List Token) : Prop :=
  ∀ t ∈ rest.head?, ∀ k ∈ t.continues?, k < l

/-- An expression of the level may begin with these tokens. -/
def Opens (l : Precedence) (ts : List Token) : Prop :=
  ∃ t ∈ ts.head?, ∃ k ∈ t.starts?, l ≤ k

section Ends

variable {k l : Precedence} {t : Token} {ts rest : List Token}

theorem stops_nil : Stops l [] :=
  nofun

theorem stops_cons (h : ∀ k ∈ t.continues?, k < l) : Stops l (t :: rest) :=
  fun _ ht => Option.some.inj ht ▸ h

theorem stops_of_none (h : t.continues? = none) : Stops l (t :: rest) :=
  stops_cons fun k hk => by rw [h] at hk; cases hk

theorem Stops.mono (h : Stops k rest) (hkl : k ≤ l) : Stops l rest :=
  fun t ht j hj => Nat.lt_of_lt_of_le (h t ht j hj) hkl

theorem Stops.head_ne (h : Stops l rest) (ht : t.continues? = some k) (hkl : l ≤ k) :
    rest.head? ≠ some t :=
  fun hhead => absurd (h t hhead k ht) (Nat.not_lt.2 hkl)

theorem Stops.bind_head {γ : Type} {op? : Token → Option γ}
    (hop : ∀ t op, op? t = some op → t.continues? = some l) (h : Stops l rest) :
    rest.head?.bind op? = none := by
  cases hhead : rest.head? with
  | none => rfl
  | some t => exact Option.eq_none_iff_forall_ne_some.2 fun op hsome =>
      h.head_ne (hop t op hsome) (Nat.le_refl _) hhead

theorem opens_cons (h : t.starts? = some k) (hkl : l ≤ k) : Opens l (t :: ts) :=
  ⟨t, rfl, k, h, hkl⟩

theorem opens_atom (h : t.starts? = some .atom) : Opens l (t :: ts) :=
  opens_cons h l.le_atom

theorem Opens.mono (h : Opens l ts) (hkl : k ≤ l) : Opens k ts := by
  obtain ⟨t, ht, j, hj, hlj⟩ := h
  exact ⟨t, ht, j, hj, Nat.le_trans hkl hlj⟩

theorem Opens.append (h : Opens l ts) (rest : List Token) : Opens l (ts ++ rest) := by
  obtain ⟨t, ht, hstarts⟩ := h
  cases ts with
  | nil => cases ht
  | cons u more => exact ⟨t, ht, hstarts⟩

theorem Opens.head_ne (h : Opens l ts) (ht : ∀ k ∈ t.starts?, k < l) : ts.head? ≠ some t := by
  obtain ⟨u, hu, k, hk, hlk⟩ := h
  intro hhead
  obtain rfl : u = t := Option.some.inj (hu.symm.trans hhead)
  exact absurd (ht k hk) (Nat.not_lt.2 hlk)

end Ends

/-- No token begins an access, but only an expression that has accesses. -/
theorem Opens.strong {k l : Precedence} {ts : List Token} (h : Opens l ts) (hl : .sign < l) :
    Opens k ts := by
  obtain ⟨t, ht, j, hj, hlj⟩ := h
  have hstarts : ∀ t : Token, ∀ j ∈ t.starts?, j = .not ∨ j = .sign ∨ j = .atom := by
    intro t j hj
    unfold Token.starts? at hj
    split at hj <;> simp_all
  have hj' : Precedence.sign < j := Nat.lt_of_lt_of_le hl hlj
  rcases hstarts t j hj with rfl | rfl | rfl
  · exact absurd hj' (by decide)
  · exact absurd hj' (by decide)
  · exact ⟨t, ht, .atom, hj, by cases k <;> decide⟩

namespace Expr

variable {sub : Reader Expr} {l k : Precedence} {e : Expr} {ts rest : List Token}

/-! ## How expressions begin -/

theorem opens_placed (h : Opens e.binding ts) : Opens l (placed l e ts) := by
  unfold placed
  split
  · exact opens_atom rfl
  · next hparens =>
    unfold needsParens at hparens
    simp only [Bool.or_eq_true, decide_eq_true_eq, not_or] at hparens
    exact h.mono (Nat.not_lt.1 hparens.2)

/-- An expression begins as one of its level may. -/
theorem opens_tokens : ∀ e : Expr, Opens e.binding e.tokens
  | .literal v => by
    cases v with
    | int n =>
      unfold tokens literalTokens binding isNegative
      by_cases h : n < 0
      · simp only [h, if_true, decide_true]
        exact opens_cons (k := .sign) rfl (by decide)
      · simp only [h, if_false, decide_false]
        exact opens_atom rfl
    | float x =>
      unfold tokens literalTokens binding isNegative
      by_cases h : isSigned x = true
      · simp only [h, if_true]
        exact opens_cons (k := .sign) rfl (by decide)
      · simp only [h, Bool.false_eq_true, if_false]
        exact opens_atom rfl
    | bool b => cases b <;> exact opens_atom rfl
    | _ => exact opens_atom rfl
  | .parameter _ | .var _ | .list _ | .map _ | .call _ _ _ | .countAll | .case _ _ _
  | .comprehension _ _ _ _ => opens_atom rfl
  | .quantified kind _ _ _ => by cases kind <;> exact opens_atom rfl
  | .property target _ | .index target _ | .slice target _ _ =>
    ((opens_placed (l := .label) (opens_tokens target)).append _).strong (by decide)
  | .hasLabels target _ =>
    ((opens_placed (l := .access) (opens_tokens target)).append _).strong (by decide)
  | .unary op _ => by cases op <;> exact opens_cons rfl (Nat.le_refl _)
  | .binary op left _ => by
    have h := opens_placed (l := op.level) (opens_tokens left)
    exact (h.append op.tokens).append _
  | .isNull operand | .isNotNull operand => (opens_placed (opens_tokens operand)).append _
  | .pattern ⟨_, ⟨_, _, _⟩, _⟩ => opens_atom rfl

theorem opens_tokensAt (l : Precedence) (e : Expr) : Opens l (e.tokensAt l) :=
  opens_placed (opens_tokens e)

/-! ## The reader of a level -/

/-- Reads an expression whose outermost operator binds at least as strongly as the level. -/
def readerAt (sub : Reader Expr) : Precedence → Reader Expr
  | .or => Expr.level sub
  | .xor => chain xorOp? (chain andOp? do negations (comparison sub) (← remaining))
  | .and => chain andOp? do negations (comparison sub) (← remaining)
  | .not => do negations (comparison sub) (← remaining)
  | .comparison => comparison sub
  | .sum => sum sub
  | .product => chain productOp? (chain powerOp? do signs (postfixed sub) (← remaining))
  | .power => chain powerOp? do signs (postfixed sub) (← remaining)
  | .sign => do signs (postfixed sub) (← remaining)
  | .label | .access => postfixed sub
  | .atom => primary sub

/-- The loop of a level that has one. -/
def loopAt (sub : Reader Expr) : Precedence → Nat → Expr → Reader Expr
  | .or => chainFrom orOp? (readerAt sub .xor)
  | .xor => chainFrom xorOp? (readerAt sub .and)
  | .and => chainFrom andOp? (readerAt sub .not)
  | .comparison => comparisonsFrom (readerAt sub .sum)
  | .sum => chainFrom sumOp? (readerAt sub .product)
  | .product => chainFrom productOp? (readerAt sub .power)
  | .power => chainFrom powerOp? (readerAt sub .sign)
  | .not | .sign | .label | .access | .atom => accessesFrom sub

theorem readerAt_loop (hl : l.isLoop = true) : readerAt sub l = (do
    let left ← readerAt sub l.operand
    loopAt sub l (← remaining) left) := by
  cases l <;> first | rfl | cases hl

/-! ## Where loops end -/

theorem chainFrom_stops {op? : Token → Option BinaryOp} {operand : Reader Expr}
    (hop : ∀ t op, op? t = some op → t.continues? = some l) (h : Stops l rest) (n : Nat)
    (e : Expr) : chainFrom op? operand n e rest = .ok (e, rest) := by
  cases n with
  | zero => rfl
  | succ n =>
    unfold chainFrom
    rw [bind_ok rfl, h.bind_head hop]
    rfl

theorem comparisonsFrom_stops {operand : Reader Expr} (h : Stops .comparison rest) (n : Nat)
    (e : Expr) : comparisonsFrom operand n e rest = .ok (e, rest) := by
  cases n with
  | zero => rfl
  | succ n =>
    have hop : rest.head?.bind comparisonOp? = none := h.bind_head fun t op ht => by
      simp only [comparisonOp?] at ht
      split at ht <;> first | rfl | cases ht
    have haffix : rest.head?.bind affixOp? = none := h.bind_head fun t op ht => by
      simp only [affixOp?] at ht
      split at ht <;> first | rfl | cases ht
    unfold comparisonsFrom
    rw [bind_ok rfl, hop, haffix]
    simp only
    rw [bind_ok (eatKeyword_none (h.head_ne rfl (by decide)))]
    rfl

theorem accessesFrom_stops (h : Stops .access rest) (n : Nat) (e : Expr) :
    accessesFrom sub n e rest = .ok (e, rest) := by
  cases n with
  | zero => rfl
  | succ n =>
    unfold accessesFrom
    rw [bind_ok (eatSymbol_none (h.head_ne rfl (by decide)))]
    simp only [Bool.false_eq_true, if_false]
    rw [bind_ok (eatSymbol_none (h.head_ne rfl (by decide)))]
    simp only [Bool.false_eq_true, if_false]
    rw [bind_ok (atSymbol_none (h.head_ne rfl (by decide)))]
    rfl

theorem loopAt_stops (hl : l.isLoop = true) (h : Stops l rest) (n : Nat) (e : Expr) :
    loopAt sub l n e rest = .ok (e, rest) := by
  cases l with
  | not | sign | access | atom => cases hl
  | comparison => exact comparisonsFrom_stops h n e
  | label => exact accessesFrom_stops (h.mono (by decide)) n e
  | or | xor | and | sum | product | power =>
    refine chainFrom_stops (fun t op ht => ?_) h n e
    simp only [orOp?, xorOp?, andOp?, sumOp?, productOp?, powerOp?] at ht
    split at ht <;> first | rfl | cases ht

/-! ## From level to level -/

theorem negations_none {operand : Reader Expr} (h : ts.head? ≠ some (.keyword .not)) (n : Nat) :
    negations operand n ts = operand ts := by
  cases n with
  | zero => rfl
  | succ n =>
    unfold negations
    rw [bind_ok (eatKeyword_none h)]
    rfl

theorem signs_none {operand : Reader Expr} (hdash : ts.head? ≠ some (.symbol .dash))
    (hplus : ts.head? ≠ some (.symbol .plus)) (n : Nat) :
    signs operand n ts = operand ts := by
  cases n with
  | zero => rfl
  | succ n =>
    unfold signs
    rw [bind_ok (eatSymbol_none hdash)]
    simp only [Bool.false_eq_true, if_false]
    rw [bind_ok (eatSymbol_none hplus)]
    rfl

/-- What a loop begins with is all that it reads if no step comes next. -/
theorem readerAt_of_operand (hl : l.isLoop = true) (hstops : Stops l rest)
    (h : readerAt sub l.operand ts = .ok (e, rest)) : readerAt sub l ts = .ok (e, rest) := by
  rw [readerAt_loop hl, bind_ok h, bind_ok rfl]
  exact loopAt_stops hl hstops _ e

theorem readerAt_of_next (hl : l ≠ .atom) (hstops : Stops l rest) (hopens : Opens l.next ts)
    (h : readerAt sub l.next ts = .ok (e, rest)) : readerAt sub l ts = .ok (e, rest) := by
  cases l with
  | atom => exact absurd rfl hl
  | or | xor | and | comparison | sum | product | power => exact readerAt_of_operand rfl hstops h
  | not =>
    refine (bind_ok rfl).trans ?_
    rw [negations_none (hopens.head_ne fun k hk => by cases hk; decide)]
    exact h
  | sign =>
    refine (bind_ok rfl).trans ?_
    rw [signs_none (hopens.head_ne fun k hk => by cases hk; decide)
      (hopens.head_ne fun k hk => by cases hk; decide)]
    exact h
  | label => exact h
  | access =>
    refine (bind_ok h).trans ((bind_ok rfl).trans ?_)
    exact accessesFrom_stops hstops _ e

/-- What the reader of a level reads, the readers of all weaker levels read. -/
theorem readerAt_of_le (hkl : k ≤ l) (hstops : Stops k rest) (hopens : Opens l ts)
    (h : readerAt sub l ts = .ok (e, rest)) : readerAt sub k ts = .ok (e, rest) := by
  have key : ∀ n k, k.rank + n = l.rank → Stops k rest → readerAt sub k ts = .ok (e, rest) := by
    intro n
    induction n with
    | zero =>
      intro k hk hstops
      obtain rfl : k = l := by
        revert hk
        cases k <;> cases l <;> decide
      exact h
    | succ n ih =>
      intro k hk hstops
      have hlt : k < l := show k.rank < l.rank by omega
      have hnext : k.next.rank = k.rank + 1 := by
        revert hlt
        cases k <;> cases l <;> decide
      refine readerAt_of_next (fun hatom => ?_) hstops (hopens.mono (Precedence.next_le hlt))
        (ih k.next (by omega) (hstops.mono k.le_next))
      revert hlt
      rw [hatom]
      cases l <;> decide
  exact key (l.rank - k.rank) k (Nat.add_sub_cancel' hkl) hstops

/-! ## Steps of a loop -/

/-- The reader of a loop's operand takes the first part of the tokens, and some steps of the loop
take what comes before the rest.  The number of steps that are allowed is as large as that of the
tokens left. -/
def Grows (sub : Reader Expr) (l : Precedence) (ts : List Token) (e : Expr) (rest : List Token) :
    Prop :=
  ∃ a mid, readerAt sub l.operand ts = .ok (a, mid) ∧ ∀ n, mid.length ≤ n →
    ∃ m, rest.length ≤ m ∧ loopAt sub l n a mid = loopAt sub l m e rest

/-- A step of the loop makes one expression into another one. -/
def Steps (sub : Reader Expr) (l : Precedence) (a : Expr) (ts : List Token) (e : Expr)
    (rest : List Token) : Prop :=
  ∀ n, ts.length ≤ n → ∃ m, rest.length ≤ m ∧ loopAt sub l n a ts = loopAt sub l m e rest

theorem Grows.of_operand (h : readerAt sub l.operand ts = .ok (e, rest)) :
    Grows sub l ts e rest :=
  ⟨e, rest, h, fun n hn => ⟨n, hn, rfl⟩⟩

theorem Grows.step {a : Expr} {mid : List Token} (h : Grows sub l ts a mid)
    (hstep : Steps sub l a mid e rest) : Grows sub l ts e rest := by
  obtain ⟨first, start, hfirst, hloop⟩ := h
  refine ⟨first, start, hfirst, fun n hn => ?_⟩
  obtain ⟨k, hk, hfirstloop⟩ := hloop n hn
  obtain ⟨m, hm, hlast⟩ := hstep k hk
  exact ⟨m, hm, hfirstloop.trans hlast⟩

theorem Grows.read (hl : l.isLoop = true) (h : Grows sub l ts e rest) (hstops : Stops l rest) :
    readerAt sub l ts = .ok (e, rest) := by
  obtain ⟨first, start, hfirst, hloop⟩ := h
  obtain ⟨m, -, hloop⟩ := hloop start.length (Nat.le_refl _)
  rw [readerAt_loop hl, bind_ok hfirst, bind_ok rfl, hloop]
  exact loopAt_stops hl hstops m e

section Operators

variable {operand : Reader Expr} {op : BinaryOp} {t : Token} {a b : Expr}

theorem chainFrom_step {op? : Token → Option BinaryOp} (hop : op? t = some op)
    (h : operand ts = .ok (b, rest)) (n : Nat) :
    chainFrom op? operand (n + 1) a (t :: ts) = chainFrom op? operand n (.binary op a b) rest := by
  refine (bind_ok rfl).trans ?_
  simp only [List.head?_cons, Option.bind_some, hop]
  exact (bind_ok rfl).trans (bind_ok h)

theorem comparisonsFrom_step (hop : comparisonOp? t = some op)
    (h : operand ts = .ok (b, rest)) (n : Nat) :
    comparisonsFrom operand (n + 1) a (t :: ts) =
      comparisonsFrom operand n (.binary op a b) rest := by
  refine (bind_ok rfl).trans ?_
  simp only [List.head?_cons, Option.bind_some, hop]
  exact (bind_ok rfl).trans (bind_ok h)

theorem comparisonsFrom_affix (hno : comparisonOp? t = none) (hop : affixOp? t = some op)
    (h : operand ts = .ok (b, rest)) (n : Nat) :
    comparisonsFrom operand (n + 1) a (t :: .keyword .with_ :: ts) =
      comparisonsFrom operand n (.binary op a b) rest := by
  refine (bind_ok rfl).trans ?_
  simp only [List.head?_cons, Option.bind_some, hno, hop]
  exact (bind_ok rfl).trans ((bind_ok keyword_cons).trans (bind_ok h))

end Operators

/-- An operator and its right operand. -/
theorem steps_binary (op : BinaryOp) {a b : Expr}
    (h : readerAt sub op.level.next (ts ++ rest) = .ok (b, rest)) :
    Steps sub op.level a (op.tokens ++ (ts ++ rest)) (.binary op a b) rest := by
  intro n hn
  cases n with
  | zero => cases op <;> simp [BinaryOp.tokens] at hn
  | succ n =>
    have hlength : rest.length ≤ n := by
      have : 0 < op.tokens.length := by cases op <;> decide
      simp only [List.length_append] at hn
      omega
    refine ⟨n, hlength, ?_⟩
    cases op with
    | startsWith | endsWith => exact comparisonsFrom_affix rfl rfl h n
    | add | subtract | multiply | divide | modulo | power | and | or | xor =>
      exact chainFrom_step rfl h n
    | _ => exact comparisonsFrom_step rfl h n

/-- A test for null. -/
theorem steps_isNull (a : Expr) :
    Steps sub .comparison a (.keyword .is :: .keyword .null :: rest) (.isNull a) rest := by
  intro n hn
  cases n with
  | zero => simp at hn
  | succ n =>
    refine ⟨n, by simp only [List.length_cons] at hn; omega, ?_⟩
    refine (bind_ok rfl).trans ?_
    refine (bind_ok eatKeyword_cons).trans ?_
    refine (bind_ok (eatKeyword_none (by nofun))).trans ?_
    exact bind_ok keyword_cons

theorem steps_isNotNull (a : Expr) : Steps sub .comparison a
    (.keyword .is :: .keyword .not :: .keyword .null :: rest) (.isNotNull a) rest := by
  intro n hn
  cases n with
  | zero => simp at hn
  | succ n =>
    refine ⟨n, by simp only [List.length_cons] at hn; omega, ?_⟩
    refine (bind_ok rfl).trans ?_
    refine (bind_ok eatKeyword_cons).trans ?_
    refine (bind_ok eatKeyword_cons).trans ?_
    exact bind_ok keyword_cons

end Expr

end PropertyGraph
