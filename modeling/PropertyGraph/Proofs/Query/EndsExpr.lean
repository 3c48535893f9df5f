import PropertyGraph.Proofs.Query.Ends

/-!
# Expressions are read to their end

If the reading of an expression ends for fewer than `n` tokens, then every part of the grammar that
contains expressions ends for `n` tokens, because it takes a token before it comes to one.  By
induction on the number of tokens, every expression is read to its end, and the bounded reader of as
many levels as there are tokens has the same outcome.

    ends_patternPart    one walk of a pattern
    ends_primary        an expression without operators
    ends_level          an expression of the weakest operators
    ends_expression     a complete expression
-/

namespace PropertyGraph.Descent

variable {n : Nat} {inner : Descent Expr} {sub : Reader Expr} (hsub : Ends n 1 inner sub)

/-! ## Patterns -/

section Patterns

include hsub in
theorem ends_entry : Ends (n + 1) 1 (entry inner) (Expr.entry sub) := by
  unfold entry Expr.entry
  refine fun bound ts hts hbound => .look rfl ?_
  extract_lets next next'
  have hnext : ∀ key, Ends n 0 (next key) (next' key) := fun key =>
    .bind .symbol fun _ => hsub.weaken.last
  generalize hhead : ts.head? = head
  rcases head with - | t
  · exact Ends.first .name hnext bound ts hts hbound
  cases t with
  | text key => exact (hnext key).seen hts hbound hhead
  | _ => exact Ends.first .name hnext bound ts hts hbound

include hsub in
theorem ends_entries : Ends (n + 1) 1 (entries inner) (Expr.entries sub) := by
  unfold entries Expr.entries
  refine .first .symbol fun _ => .bind .atSymbol fun b => ?_
  extract_lets next next'
  have hnext : ∀ items, Ends n 0 (next items) (next' items) := fun items =>
    .bind .symbol fun _ => .pure
  split
  · exact hnext []
  · exact .bind (ends_commaList (ends_entry hsub)).fewer hnext

include hsub in
theorem ends_patternProperties :
    Ends (n + 1) 0 (patternProperties inner) (Expr.patternProperties sub) := by
  unfold patternProperties Expr.patternProperties
  refine .bind .atSymbol fun b => ?_
  split
  · exact (ends_entries hsub).weaken
  · exact .pure

theorem ends_optionalIdent : Ends n 0 (liftM Expr.optionalIdent) Expr.optionalIdent := by
  refine .liftBind .peek fun t => ?_
  split
  · exact .liftBind .drop fun _ => .liftPure
  · exact .liftPure

include hsub in
theorem ends_nodePattern : Ends (n + 1) 1 (nodePattern inner) (Expr.nodePattern sub) := by
  unfold nodePattern Expr.nodePattern
  refine .first .symbol fun _ => .bind ends_optionalIdent fun name => ?_
  refine .loop (fun steps rounds h _ => ends_labelList steps rounds h) fun labels => ?_
  refine .bind (ends_patternProperties hsub).fewer fun properties => ?_
  exact .bind .symbol fun _ => .pure

theorem ends_moreTypes (steps rounds : Nat) (h : steps < rounds) :
    Ends (steps + 1) 0 (moreTypes rounds) (Expr.moreTypes steps) := by
  induction steps, rounds, h using rounds_induction with
  | zero rounds => exact .one fun _ _ => .done rfl
  | succ steps rounds _ ih =>
    exact .ifSymbol (.bind .eat fun _ => .bind .name fun x => ih.last) .pure

theorem ends_lengthBound : Ends n 0 (liftM Expr.lengthBound) Expr.lengthBound := by
  refine .liftBind .peek fun t => ?_
  split
  · split
    · exact .liftBind .drop fun _ => .liftPure
    · exact .fail
  · exact .liftPure

theorem ends_lengthRange : Ends n 0 (liftM Expr.lengthRange) Expr.lengthRange := by
  refine .liftBind ends_lengthBound fun min => .liftBind .eat fun b => ?_
  split
  · exact .liftBind ends_lengthBound fun max => .liftPure
  · exact .liftPure

theorem ends_heading {left right : Bool} :
    Ends n 0 (liftM (Expr.heading left right)) (Expr.heading left right) := by
  refine .lift fun ts heading rest hok => ?_
  cases left <;> cases right <;> cases hok <;> exact Nat.le_refl _

theorem ends_atRelationship : Ends n 0 (liftM Expr.atRelationship) Expr.atRelationship := by
  refine .liftBind .atSymbol fun b => ?_
  split
  · exact .liftPure
  · exact .liftBind .atSymbol fun c => .liftBind .peekSecond fun t => .liftPure

theorem ends_pathName : Ends n 0 (liftM Expr.pathName) Expr.pathName := by
  refine .liftBind .peek fun t => .liftBind .peekSecond fun u => ?_
  split
  · exact .liftBind .drop fun _ => .liftPure
  · exact .liftPure

include hsub in
theorem ends_relationshipBody (heading : Heading) :
    Ends n 0 (relationshipBody inner heading) (Expr.relationshipBody sub heading) := by
  unfold relationshipBody Expr.relationshipBody
  refine .bind ends_optionalIdent fun name => .bind .eat fun b => ?_
  extract_lets afterTypes afterTypes'
  have htypes : ∀ types, Ends n 0 (afterTypes types) (afterTypes' types) := by
    refine fun types => .bind .eat fun b => ?_
    extract_lets afterRange afterRange'
    have hrange : ∀ range, Ends n 0 (afterRange range) (afterRange' range) := fun range =>
      .bind (ends_patternProperties hsub).fewer fun properties => .bind .symbol fun _ => .pure
    split
    · exact .bind ends_lengthRange fun range => hrange (some range)
    · exact hrange none
  split
  · refine .bind .name fun x => ?_
    refine .loop (fun steps rounds h _ => ends_moreTypes steps rounds h) fun more => ?_
    exact htypes (x :: more)
  · exact htypes []

include hsub in
theorem ends_relationshipPattern :
    Ends (n + 1) 1 (relationshipPattern inner) (Expr.relationshipPattern sub) := by
  unfold relationshipPattern Expr.relationshipPattern
  refine .bind .eat fun left => .first .symbol fun _ => .bind .eat fun b => ?_
  extract_lets afterBody afterBody'
  have hbody : ∀ body, Ends n 0 (afterBody body) (afterBody' body) := fun body =>
    .bind .symbol fun _ => .bind .eat fun right => .last ends_heading
  split
  · exact .bind (ends_relationshipBody hsub .undirected) hbody
  · exact hbody _

include hsub in
theorem ends_patternChain (steps rounds : Nat) (h : steps < rounds) (hn : steps < n) :
    Ends (steps + 1) 0 (patternChain inner rounds) (Expr.patternChain sub steps) := by
  induction steps, rounds, h using rounds_induction with
  | zero rounds => exact .one fun _ _ => .done rfl
  | succ steps rounds _ ih =>
    have hless := Nat.le_succ_of_le hn
    have hrelationship := (ends_relationshipPattern hsub).mono hless (Nat.le_refl 1)
    have hnode := (ends_nodePattern hsub).mono (Nat.le_of_lt hless) (Nat.zero_le 1)
    refine .bind ends_atRelationship fun b => ?_
    split
    · refine hrelationship.first fun relationship => .bind hnode fun node => ?_
      exact (ih (Nat.lt_of_succ_lt hn)).last
    · exact .pure

include hsub in
theorem ends_patternPart : Ends (n + 1) 1 (patternPart inner) (Expr.patternPart sub) := by
  unfold patternPart Expr.patternPart
  refine .bind ends_pathName fun path => .bind .peek fun t => ?_
  extract_lets next next'
  have hnext : Ends (n + 1) 1 (next ()) (next' ()) :=
    .first (ends_nodePattern hsub) fun start => .loop (ends_patternChain hsub) fun chain => .pure
  rcases t with - | t
  · exact hnext
  · cases t with
    | ident name =>
      dsimp only
      split
      · exact Ends.throw.bind (j := 0) fun _ => hnext
      · exact hnext
    | _ => exact hnext

end Patterns

/-! ## Primary expressions -/

section Primary

section Predicate

variable {bound : Nat} {ts : List Token}

include hsub in
theorem ends_patternPredicate (hts : ts.length < n + 1) (hbound : ts.length < bound) :
    patternPredicate? inner bound ts = some (Expr.patternPredicate? sub ts) := by
  unfold patternPredicate? Expr.patternPredicate?
  rw [(ends_patternPart hsub bound ts hts hbound).ends]
  cases Expr.patternPart sub ts with
  | error e => rfl
  | ok p =>
    show (if p.1.chain.isEmpty = true then _ else _) =
      some (if p.1.chain.isEmpty = true then _ else _)
    split <;> rfl

include hsub in
/-- Where no pattern begins, the tokens are put back. -/
theorem takes_patternPredicate (hts : ts.length < n + 1) :
    Expr.patternPredicate? sub ts = .ok (none, ts) ∨
      ∃ e rest, Expr.patternPredicate? sub ts = .ok (some e, rest) ∧
        rest.length + 1 ≤ ts.length := by
  unfold Expr.patternPredicate?
  split
  · next part rest hok =>
    split
    · exact .inl rfl
    · exact .inr ⟨_, rest, rfl, (ends_patternPart hsub).takes hts part rest hok⟩
  · exact .inl rfl

end Predicate

include hsub in
theorem ends_listBody : Ends n 0 (listBody inner) (Expr.listBody sub) := by
  unfold listBody Expr.listBody
  have hitems : Ends n 0
      (do
        let items ← if ← Reader.atSymbol .rightBracket then pure [] else commaList inner
        Reader.symbol .rightBracket
        return .list items : Descent Expr)
      (do
        let items ← if ← Reader.atSymbol .rightBracket then pure [] else Reader.commaList sub
        Reader.symbol .rightBracket
        return .list items : Reader Expr) := by
    refine .bind .atSymbol fun b => ?_
    extract_lets next next'
    have hnext : ∀ items, Ends n 0 (next items) (next' items) := fun items =>
      .bind .symbol fun _ => .pure
    split
    · exact hnext []
    · exact .bind (ends_commaList hsub) hnext
  refine .bind .peek fun t => .bind .peekSecond fun u => ?_
  rcases t with - | t
  · exact hitems
  cases t with
  | ident x =>
    rcases u with - | u
    · exact hitems
    cases u with
    | keyword w =>
      cases w with
      | in_ =>
        refine .bind .drop fun _ => .bind hsub fun source => ?_
        refine .bind (ends_after hsub) fun filter => .bind .eat fun b => ?_
        extract_lets next next'
        have hnext : ∀ result, Ends n 0 (next result) (next' result) := fun result =>
          .bind .symbol fun _ => .pure
        split
        · exact .bind hsub fun result => hnext (some result)
        · exact hnext none
      | _ => exact hitems
    | _ => exact hitems
  | _ => exact hitems

include hsub in
theorem ends_callBody (function : String) :
    Ends n 0 (callBody inner function) (Expr.callBody sub function) := by
  unfold callBody Expr.callBody
  refine .bind .symbol fun _ => .bind .atSymbol fun b => ?_
  split
  · exact .bind .drop fun _ => .bind .symbol fun _ => .pure
  · cases Expr.quantifier? function with
    | some kind =>
      refine .bind .ident fun name => .bind .keyword fun _ => .bind hsub fun source => ?_
      exact .bind .keyword fun _ => .bind hsub fun predicate => .bind .symbol fun _ => .pure
    | none =>
      refine .bind .eat fun distinct => .bind .atSymbol fun b => ?_
      extract_lets next next'
      have hnext : ∀ args, Ends n 0 (next args) (next' args) := fun args =>
        .bind .symbol fun _ => .pure
      split
      · exact hnext []
      · exact .bind (ends_commaList hsub) hnext

include hsub in
theorem ends_caseBranches (steps rounds : Nat) (h : steps < rounds) (hn : steps < n) :
    Ends (steps + 1) 0 (caseBranches inner rounds) (Expr.caseBranches sub steps) := by
  induction steps, rounds, h using rounds_induction with
  | zero rounds => exact .one fun _ _ => .done rfl
  | succ steps rounds _ ih =>
    have hpart := hsub.mono (Nat.le_of_lt hn) (Nat.le_refl 1)
    refine .ifKeyword ?_ .pure
    refine .bind hpart fun condition => .bind .keyword fun _ => .bind hpart fun result => ?_
    exact (ih (Nat.lt_of_succ_lt hn)).last

include hsub in
theorem ends_caseBody : Ends n 0 (caseBody inner) (Expr.caseBody sub) := by
  unfold caseBody Expr.caseBody
  refine .bind .atKeyword fun b => ?_
  extract_lets next next'
  have hnext : ∀ operand, Ends n 0 (next operand) (next' operand) := by
    refine fun operand => .loop (ends_caseBranches hsub) fun branches => ?_
    extract_lets last last'
    have hlast : Ends n 0 (last ()) (last' ()) :=
      .bind (ends_after hsub) fun default => .bind .keyword fun _ => .pure
    split
    · exact Ends.fail.bind (j := 0) fun _ => hlast
    · exact hlast
  split
  · exact hnext none
  · exact .bind hsub fun operand => hnext (some operand)

include hsub in
theorem ends_primary : Ends (n + 1) 1 (primary inner) (Expr.primary sub) := by
  unfold primary Expr.primary
  refine fun bound ts hts hbound => .look rfl ?_
  cases hliteral : ts.head?.bind Expr.literal? with
  | some v =>
    obtain ⟨t, ht, -⟩ := Option.bind_eq_some_iff.1 hliteral
    exact Ends.pure.seen hts hbound ht
  | none =>
    generalize hhead : ts.head? = head
    rcases head with - | t
    · exact .fail
    cases t with
    | parameter x => exact Ends.pure.seen hts hbound hhead
    | symbol s =>
      cases s with
      | leftParen =>
        obtain ⟨rest, rfl⟩ := List.head?_eq_some_iff.1 hhead
        have hends := ends_patternPredicate hsub hts hbound
        rcases takes_patternPredicate hsub hts with hnone | ⟨e, rest', hsome, hrest⟩
        · -- All tokens have been put back, the parenthesis too, and now only it is taken.
          refine .step (j := 0) hends hnone (Nat.le_refl _) (.drop ?_)
          refine Ends.bind (k := 0) hsub (fun e => ?_) bound rest
            (Nat.lt_of_succ_lt_succ hts) (Nat.lt_of_succ_lt hbound)
          exact .bind .symbol fun _ => .pure
        · exact .step hends hsome hrest .pure
      | leftBracket => exact (ends_listBody hsub).seen hts hbound hhead
      | leftBrace => exact (ends_entries hsub).last bound ts hts hbound
      | _ => exact .fail
    | ident x =>
      refine Ends.seen (.bind .atSymbol fun b => ?_) hts hbound hhead
      split
      · exact ends_callBody hsub x
      · exact .pure
    | keyword w =>
      cases w with
      | case => exact (ends_caseBody hsub).seen hts hbound hhead
      | all =>
        refine .look rfl ?_
        split
        · exact (ends_callBody hsub "all").seen hts hbound hhead
        · exact .fail
      | _ => exact .fail
    | _ => exact .fail

end Primary

/-! ## Access to parts -/

section Access

include hsub in
theorem ends_sliceEnd (e : Expr) (lower : Option Expr) :
    Ends n 0 (sliceEnd inner e lower) (Expr.sliceEnd sub e lower) := by
  unfold sliceEnd Expr.sliceEnd
  refine .bind .atSymbol fun b => ?_
  extract_lets next next'
  have hnext : ∀ upper, Ends n 0 (next upper) (next' upper) := fun upper =>
    .bind .symbol fun _ => .pure
  split
  · exact hnext none
  · exact .bind hsub fun upper => hnext (some upper)

include hsub in
theorem ends_indexBody (e : Expr) : Ends n 0 (indexBody inner e) (Expr.indexBody sub e) := by
  unfold indexBody Expr.indexBody
  refine .bind .eat fun b => ?_
  split
  · exact ends_sliceEnd hsub e none
  · refine .bind hsub fun position => .bind .eat fun b => ?_
    split
    · exact ends_sliceEnd hsub e (some position)
    · exact .bind .symbol fun _ => .pure

include hsub in
theorem ends_accessesFrom (e : Expr) (steps rounds : Nat) (h : steps < rounds) (hn : steps < n) :
    Ends (steps + 1) 0 (accessesFrom inner rounds e) (Expr.accessesFrom sub steps e) := by
  induction steps, rounds, h using rounds_induction generalizing e with
  | zero rounds => exact .one fun _ _ => .done rfl
  | succ steps rounds _ ih =>
    have hless := Nat.lt_of_succ_lt hn
    have hindex := (ends_indexBody hsub e).mono (Nat.le_of_lt hn) (Nat.le_refl 0)
    refine .ifSymbol (.bind .name fun key => ih _ hless)
      (.ifSymbol (.bind hindex fun e' => ih e' hless) fun bound ts hts hbound => ?_)
    refine .look rfl (.look rfl ?_)
    by_cases hhead : ts.head? = some (.symbol .colon)
    · obtain ⟨rest, rfl⟩ := List.head?_eq_some_iff.1 hhead
      rcases rest with - | ⟨u, rest⟩
      · exact .pure
      cases u with
      | ident x =>
        refine (takes_labelList hbound).loop fun labels rest' hrest => ?_
        simp only [List.length_cons] at hts hbound hrest
        exact ih _ hless bound rest' (by omega) (by omega)
      | _ => exact .pure
    · rw [Reader.any_isSymbol_eq_false hhead]
      exact .pure

include hsub in
theorem ends_postfixed : Ends (n + 1) 1 (postfixed inner) (Expr.postfixed sub) := by
  unfold postfixed Expr.postfixed
  exact (ends_primary hsub).first fun e => .remaining (ends_accessesFrom hsub e)

end Access

/-! ## Operators -/

section Operators

section Chain

variable {op? : Token → Option BinaryOp} {operand : Descent Expr} {r : Reader Expr}

theorem ends_chainFrom (hoperand : Ends (n + 1) 1 operand r) (left : Expr) (steps rounds : Nat)
    (h : steps < rounds) (hn : steps < n) :
    Ends (steps + 1) 0 (chainFrom op? operand rounds left) (Expr.chainFrom op? r steps left) := by
  induction steps, rounds, h using rounds_induction generalizing left with
  | zero rounds => exact .one fun _ _ => .done rfl
  | succ steps rounds _ ih =>
    refine fun bound ts hts hbound => .look rfl ?_
    cases hop : ts.head?.bind op? with
    | none => exact .pure
    | some op =>
      obtain ⟨t, hhead, -⟩ := Option.bind_eq_some_iff.1 hop
      have hright := hoperand.mono (Nat.le_succ_of_le (Nat.le_of_lt hn)) (Nat.le_refl 1)
      refine Ends.seen (.bind hright fun right => ?_) hts hbound hhead
      exact ih _ (Nat.lt_of_succ_lt hn)

theorem ends_chain (hoperand : Ends (n + 1) 1 operand r) :
    Ends (n + 1) 1 (chain op? operand) (Expr.chain op? r) := by
  unfold chain Expr.chain
  exact hoperand.first fun left => .remaining (ends_chainFrom hoperand left)

end Chain

include hsub in
theorem ends_signs (steps rounds : Nat) (h : steps < rounds) (hn : steps < n + 1) :
    Ends (steps + 1) 1 (signs (postfixed inner) rounds)
      (Expr.signs (Expr.postfixed sub) steps) := by
  have hpostfixed := (ends_postfixed hsub).mono hn (Nat.le_refl 1)
  induction steps, rounds, h using rounds_induction with
  | zero rounds => exact hpostfixed.nil (fun _ => rfl) rfl
  | succ steps rounds _ ih =>
    have hmore := (ih (Nat.lt_of_succ_lt hn) hpostfixed.fewer).weaken
    exact .ifSymbol hmore.last (.ifSymbol hmore.last hpostfixed)

include hsub in
theorem ends_sum : Ends (n + 1) 1 (sum inner) (Expr.sum sub) := by
  unfold sum Expr.sum
  exact ends_chain (ends_chain (ends_chain (.remaining (ends_signs hsub))))

include hsub in
theorem ends_comparisonsFrom (left : Expr) (steps rounds : Nat) (h : steps < rounds)
    (hn : steps < n) :
    Ends (steps + 1) 0 (comparisonsFrom (sum inner) rounds left)
      (Expr.comparisonsFrom (Expr.sum sub) steps left) := by
  induction steps, rounds, h using rounds_induction generalizing left with
  | zero rounds => exact .one fun _ _ => .done rfl
  | succ steps rounds _ ih =>
    have hmore := fun left => ih left (Nat.lt_of_succ_lt hn)
    have hsum := (ends_sum hsub).mono (Nat.le_succ_of_le (Nat.le_of_lt hn)) (Nat.le_refl 1)
    refine fun bound ts hts hbound => .look rfl ?_
    cases hop : ts.head?.bind Expr.comparisonOp? with
    | some op =>
      obtain ⟨t, hhead, -⟩ := Option.bind_eq_some_iff.1 hop
      exact Ends.seen (.bind hsum fun right => hmore _) hts hbound hhead
    | none =>
      cases haffix : ts.head?.bind Expr.affixOp? with
      | some op =>
        obtain ⟨t, hhead, -⟩ := Option.bind_eq_some_iff.1 haffix
        refine Ends.seen (.bind .keyword fun _ => ?_) hts hbound hhead
        exact .bind hsum fun right => hmore _
      | none =>
        refine Ends.ifKeyword ?_ .pure bound ts hts hbound
        exact .bind .eat fun negated => .bind .keyword fun _ => hmore _

include hsub in
theorem ends_comparison : Ends (n + 1) 1 (comparison inner) (Expr.comparison sub) := by
  unfold comparison Expr.comparison
  exact (ends_sum hsub).first fun left => .remaining (ends_comparisonsFrom hsub left)

include hsub in
theorem ends_negations (steps rounds : Nat) (h : steps < rounds) (hn : steps < n + 1) :
    Ends (steps + 1) 1 (negations (comparison inner) rounds)
      (Expr.negations (Expr.comparison sub) steps) := by
  have hcomparison := (ends_comparison hsub).mono hn (Nat.le_refl 1)
  induction steps, rounds, h using rounds_induction with
  | zero rounds => exact hcomparison.nil (fun _ => rfl) rfl
  | succ steps rounds _ ih =>
    have hmore := (ih (Nat.lt_of_succ_lt hn) hcomparison.fewer).weaken
    exact .ifKeyword hmore.last hcomparison

include hsub in
theorem ends_level : Ends (n + 1) 1 (level inner) (Expr.level sub) := by
  unfold level Expr.level
  exact ends_chain (ends_chain (ends_chain (.remaining (ends_negations hsub))))

end Operators

/-! ## All levels -/

theorem ends_nested (steps rounds : Nat) (h : steps < rounds) :
    Ends (steps + 1) 1 (nested rounds) (Expr.reader steps) := by
  induction steps, rounds, h using rounds_induction with
  | zero rounds =>
    -- There are no tokens, and no reading of a part is asked for any.
    have hlevel : Ends 1 1 (level (nested rounds)) (Expr.level (Expr.reader 0)) :=
      ends_level nofun
    exact hlevel.nil (fun _ => rfl) rfl
  | succ steps rounds _ ih => exact ends_level ih

/-- A complete expression is read to its end. -/
theorem ends_expression : Ends n 1 expression Expr.read :=
  .remaining fun steps rounds h _ => ends_nested steps rounds h

/-- So is the target of a change. -/
theorem ends_target : Ends n 1 target Expr.readPostfixed :=
  .remaining fun steps rounds h _ => (ends_postfixed (ends_nested steps rounds h)).fewer

/-- And so is one walk of a pattern. -/
theorem ends_pattern : Ends n 1 pattern Expr.readPattern :=
  .remaining fun steps rounds h _ => (ends_patternPart (ends_nested steps rounds h)).fewer

end PropertyGraph.Descent
