import PropertyGraph.Proofs.Query.Takes

/-!
# What expressions are read from

If the reader of inner expressions takes written forms, then so does every reader of patterns and of
expressions that is made of it; by induction on the depth, that is so for all expressions.  Along a
chain of accesses or operators the induction is on the steps, and what has been read so far is a
written form before each of them.

    takes_patternPart    one walk of a pattern
    takes_primary        an expression without operators
    takes_level          an expression of the weakest operators
    takes_read           a complete expression
-/

namespace PropertyGraph.Expr

open Form Reader
open Keyword (respelled)

/-! ## Patterns -/

section Patterns

variable {sub : Reader Expr} (hsub : Takes sub (Expr.Written respelled))

include hsub in
theorem takes_entry : Takes (entry sub) (Entry.Written respelled) := by
  refine fun ls => .peek ?_
  extract_lets next
  split
  · next s hs =>
    obtain ⟨l, left, rfl, hl⟩ := exists_cons_of_head? hs
    obtain rfl := Lexeme.eq_of_token (m := .text s) hl rfl nofun
    exact .drop (.pureBind (Takes.symbol (hsub.last fun ys e he => .text he) left))
  · refine (takes_name _ ls).bind fun xs left key _ hkey => ?_
    cases hkey with
    | mk hl => exact Takes.symbol (hsub.last fun ys e he => .name hl he) left

include hsub in
theorem takes_entries : Takes (entries sub) (Entries.Written respelled) := by
  unfold entries
  refine .symbol (.look (looks_atSymbol _) fun b => ?_)
  extract_lets next
  have hnext : ∀ ms es, Items (Entry.Written respelled) ms es → Takes (next es) fun ys b =>
      Entries.Written respelled (.symbol .leftBrace :: (ms ++ ys)) b := fun ms es h =>
    .symbol (.pure (.mk h))
  split
  · exact .pureBind (hnext [] [] .none)
  · exact (takes_commaList (takes_entry hsub)).bind fun xs es h => hnext xs es (.some h)

include hsub in
theorem takes_patternProperties :
    Takes (patternProperties sub) (Properties.Written respelled) := by
  unfold patternProperties
  refine .look (looks_atSymbol _) fun b => ?_
  split
  · exact (takes_entries hsub).mono fun ls es h => .some h
  · exact .pure .none

theorem takes_optionalIdent : Takes optionalIdent (Optional Ident) := by
  refine fun ls => .peek ?_
  split
  · next x hx =>
    obtain ⟨l, left, rfl, hl⟩ := exists_cons_of_head? hx
    exact .drop (.pure (.some (.mk hl)))
  · exact .pure .none

theorem takes_labelList (steps : Nat) :
    Takes (labelList steps) (Many (Label.Written respelled)) := by
  induction steps with
  | zero => exact .pure .nil
  | succ steps ih =>
    unfold labelList
    refine .ifSymbol ?_ (.pure .nil)
    refine (takes_name _).bind fun xs x hx => ih.last fun ys more hmore => ?_
    cases hx with
    | mk hl => exact .cons (.mk hl) hmore

include hsub in
theorem takes_nodePattern : Takes (nodePattern sub) (NodePattern.Written respelled) := by
  unfold nodePattern
  refine .symbol (takes_optionalIdent.bind fun xs name hname => ?_)
  refine .look looks_remaining fun n => (takes_labelList n).bind fun ls labels hlabels => ?_
  refine (takes_patternProperties hsub).bind fun ms properties hproperties => ?_
  exact .symbol (.pure (.mk hname hlabels hproperties))

theorem takes_moreTypes (steps : Nat) :
    Takes (moreTypes steps) (Many (MoreType.Written respelled)) := by
  induction steps with
  | zero => exact .pure .nil
  | succ steps ih =>
    unfold moreTypes
    refine .ifSymbol ?_ (.pure .nil)
    refine (takes_eatSymbol _).bind fun xs b hb => (takes_name _).bind fun ys x hx => ?_
    refine ih.last fun zs more hmore => ?_
    cases hx with
    | mk hl =>
      have hcons := Many.cons (MoreType.Written.mk hb hl) hmore
      rwa [List.cons_append, List.append_assoc] at hcons

theorem takes_lengthBound : Takes lengthBound (Optional Bound.Written) := by
  refine fun ls => .peek ?_
  split
  · next n hn =>
    obtain ⟨l, left, rfl, hl⟩ := exists_cons_of_head? hn
    obtain rfl := Lexeme.eq_of_token (m := .int n) hl rfl nofun
    split
    · next hbounds => exact .drop (.pure (.some (.mk hbounds.1)))
    · exact .fail
  · exact .pure .none

theorem takes_lengthRange : Takes lengthRange fun ls range =>
    LengthRange.Written (.symbol .star :: ls) range := by
  unfold lengthRange
  refine takes_lengthBound.bind fun xs min hmin => .ifSymbol ?_ (.pure ?_)
  · exact takes_lengthBound.last fun ys max hmax => .between hmin hmax
  · rw [List.append_nil]; exact .exactly hmin

include hsub in
theorem takes_relationshipBody : Takes (relationshipBody sub .undirected) fun ls body =>
    RelationshipBody.Written respelled (.symbol .leftBracket :: ls) body := by
  unfold relationshipBody
  refine takes_optionalIdent.bind fun ns name hname => (takes_eatSymbol _).bind fun cs b hb => ?_
  extract_lets afterTypes
  have htypes : ∀ ts types, Types.Written respelled ts types → Takes (afterTypes types)
      fun ls body => RelationshipBody.Written respelled
        (.symbol .leftBracket :: (ns ++ (ts ++ ls))) body := by
    intro ts types htypes
    refine (takes_eatSymbol _).bind fun ss b hb => ?_
    extract_lets afterRange
    have hrange : ∀ rs range, Optional LengthRange.Written rs range → Takes (afterRange range)
        fun ls body => RelationshipBody.Written respelled
          (.symbol .leftBracket :: (ns ++ (ts ++ (rs ++ ls)))) body := fun rs range hrange =>
      (takes_patternProperties hsub).bind fun ps properties hproperties =>
        .symbol (.pure (.some hname htypes hrange hproperties))
    cases hb with
    | off => exact .pureBind (hrange _ _ .none)
    | on hl =>
      cases Lexeme.eq_symbol hl
      exact takes_lengthRange.bind fun rs range h => .pureBind (hrange _ _ (.some h))
  cases hb with
  | off => exact .pureBind (htypes _ _ .none)
  | on hl =>
    cases Lexeme.eq_symbol hl
    refine (takes_name _).bind fun xs x hx => .look looks_remaining fun n => ?_
    refine (takes_moreTypes n).bind fun ys more hmore => .pureBind ?_
    cases hx with
    | mk hl => exact htypes _ _ (.some (.mk hl) hmore)

theorem takes_heading (left right : Bool) : Takes (heading left right) fun ls h =>
    ls = [] ∧ ∀ xs ys, Flag (.symbol .less) xs left → Flag (.symbol .greater) ys right →
      h.Arrows xs ys := by
  cases left <;> cases right <;> first | exact .fail | refine .pure ⟨rfl, fun xs ys hl hr => ?_⟩
  · cases hl; cases hr; exact .undirected
  · cases hl
    cases hr with
    | on hr => cases Lexeme.eq_symbol hr; exact .outgoing
  · cases hr
    cases hl with
    | on hl => cases Lexeme.eq_symbol hl; exact .incoming

include hsub in
theorem takes_relationshipPattern :
    Takes (relationshipPattern sub) (RelationshipPattern.Written respelled) := by
  unfold relationshipPattern
  refine (takes_eatSymbol _).bind fun xs left hleft => .symbol ?_
  refine (takes_eatSymbol _).bind fun cs b hb => ?_
  extract_lets afterBody
  have hbody : ∀ ls body, RelationshipBody.Written respelled ls body → Takes (afterBody body)
      fun ys r => RelationshipPattern.Written respelled (xs ++ .symbol .dash :: (ls ++ ys)) r := by
    intro ls body hbody
    refine .symbol ((takes_eatSymbol _).bind fun ys right hright => ?_)
    refine (takes_heading left right).last fun zs h hh => ?_
    obtain ⟨rfl, harrows⟩ := hh
    rw [List.append_nil]
    exact .mk (harrows xs ys hleft hright) hbody
  cases hb with
  | off => exact .pureBind (hbody _ _ .none)
  | on hl =>
    cases Lexeme.eq_symbol hl
    exact (takes_relationshipBody hsub).bind fun ls body h => hbody _ _ h

theorem looks_atRelationship : Looks atRelationship := by
  intro ts
  obtain ⟨b, hb⟩ := looks_atSymbol .dash ts
  obtain ⟨c, hc⟩ := looks_atSymbol .less ts
  obtain ⟨t, ht⟩ := looks_peekSecond ts
  cases b with
  | true => exact ⟨_, bind_ok hb⟩
  | false => exact ⟨_, (bind_ok hb).trans ((bind_ok hc).trans (bind_ok ht))⟩

include hsub in
theorem takes_patternChain (steps : Nat) :
    Takes (patternChain sub steps) (Many (Link.Written respelled)) := by
  induction steps with
  | zero => exact .pure .nil
  | succ steps ih =>
    unfold patternChain
    refine .look looks_atRelationship fun b => ?_
    split
    · refine (takes_relationshipPattern hsub).bind fun xs r hr => ?_
      refine (takes_nodePattern hsub).bind fun ys n hn => ih.last fun zs more hmore => ?_
      rw [← List.append_assoc]
      exact .cons (.mk hr hn) hmore
    · exact .pure .nil

theorem takes_pathName : Takes pathName (Optional PathName.Written) := by
  refine fun ls => .peek (.peekSecond ?_)
  split
  · next x hx hequals =>
    obtain ⟨l, left, rfl, hl⟩ := exists_cons_of_head? hx
    obtain ⟨m, left, rfl, hm⟩ := exists_cons_of_head? hequals
    cases Lexeme.eq_symbol hm
    exact .drop_two (.pure (.some (.mk hl)))
  · exact .pure .none

include hsub in
theorem takes_patternPart : Takes (patternPart sub) (PatternPart.Written respelled) := by
  unfold patternPart
  refine takes_pathName.bind fun xs path hpath => .look looks_peek fun t => ?_
  extract_lets next
  have hnext : Takes (next ()) fun ys part => PatternPart.Written respelled (xs ++ ys) part := by
    refine (takes_nodePattern hsub).bind fun ls start hstart => .look looks_remaining fun n => ?_
    exact (takes_patternChain hsub n).last fun ms chain hchain => .mk hpath hstart hchain
  split
  · split
    · exact .bind (V := fun _ _ => False) .throw fun _ _ h => h.elim
    · exact hnext
  · exact hnext

end Patterns

/-! ## Primary expressions -/

section Primary

variable {sub : Reader Expr} (hsub : Takes sub (Expr.Written respelled))

include hsub in
theorem takes_patternPredicate : Takes (patternPredicate? sub)
    (Optional fun ls e => Expr.Written respelled ls e) := by
  intro ls o rest hok
  unfold patternPredicate? at hok
  split at hok
  · next part rest' hpart =>
    obtain ⟨used, left, hls, hrest, hwritten⟩ := takes_patternPart hsub ls part rest' hpart
    split at hok
    · cases hok; exact ⟨[], ls, rfl, rfl, .none⟩
    · cases hok; exact ⟨used, left, hls, hrest, .some (.pattern hwritten)⟩
  · cases hok; exact ⟨[], ls, rfl, rfl, .none⟩

include hsub in
/-- What follows the opening bracket of a list or of a comprehension. -/
theorem takes_listBody : Takes (listBody sub) fun ls e =>
    Expr.Written respelled (.symbol .leftBracket :: ls) e := by
  refine fun ls => .peek (.peekSecond ?_)
  split
  · next x hx hin =>
    obtain ⟨l, left, rfl, hl⟩ := exists_cons_of_head? hx
    obtain ⟨i, left, rfl, hi⟩ := exists_cons_of_head? hin
    refine .drop_two ?_
    refine hsub.bind (fun ls source hsource => ?_) left
    refine (takes_after _ hsub).bind fun ms filter hfilter => ?_
    refine (takes_eatSymbol _).bind fun bs b hb => ?_
    extract_lets next
    have hnext : ∀ ns result, After (.symbol .pipe) (Expr.Written respelled) ns result →
        Takes (next result) fun ys e => Expr.Written respelled
          (.symbol .leftBracket :: l :: i :: (ls ++ (ms ++ (ns ++ ys)))) e := fun ns result h =>
      .symbol (.pure (.comprehension hl hi hsource hfilter h))
    cases hb with
    | off => exact .pureBind (hnext _ _ .none)
    | on hl => exact hsub.bind fun ns e he => .pureBind (hnext _ _ (.some hl he))
  · refine Takes.look (looks_atSymbol _) (fun b => ?_) ls
    extract_lets next
    have hnext : ∀ ls items, Items (Expr.Written respelled) ls items → Takes (next items)
        fun ys e => Expr.Written respelled (.symbol .leftBracket :: (ls ++ ys)) e :=
      fun ls items h => .symbol (.pure (.list h))
    split
    · exact .pureBind (hnext _ _ .none)
    · exact (takes_commaList hsub).bind fun ls items h => hnext _ _ (.some h)

include hsub in
/-- What follows the name of a function, which is called `f`. -/
theorem takes_callBody {l : Lexeme} {f : String}
    (hl : l.token = .ident f ∨ l.token = .keyword .all ∧ f = "all") :
    Takes (callBody sub f) fun ls e => Expr.Written respelled (l :: ls) e := by
  unfold callBody
  refine .symbol fun ls => .atSymbol ?_
  split
  · next hcount =>
    obtain ⟨hf, hstar⟩ := Bool.and_eq_true_iff.1 hcount
    obtain ⟨t, ht, hstar⟩ := (Option.any_eq_true _ _).1 hstar
    obtain ⟨m, left, rfl, rfl⟩ := exists_cons_of_head? ht
    cases Lexeme.eq_symbol (isSymbol_iff.1 hstar)
    rcases hl with hl | ⟨-, rfl⟩
    · refine .drop (Takes.symbol ?_ left)
      exact .pure (.countAll hl (beq_iff_eq.1 hf))
    · exact absurd hf (by decide)
  · split
    · next kind hkind =>
      have hwritten : Quantifier.Written [l] kind := by
        rcases hl with hl | ⟨hl, rfl⟩
        · exact .named hl hkind
        · rw [show quantifier? "all" = some .all by decide] at hkind
          cases hkind
          exact .all hl
      refine Takes.bind (takes_ident _) (fun xs x hx => .keyword fun i hi => ?_) ls
      cases hx with
      | mk hx =>
        refine hsub.bind fun ls source hsource => .keyword fun w hw => ?_
        refine hsub.bind fun ms predicate hpredicate => .symbol (.pure ?_)
        exact .quantified hwritten hx hi hsource hw hpredicate
    · next hnone =>
      rcases hl with hl | ⟨-, rfl⟩
      · refine Takes.bind (takes_eatKeyword _) (fun ds distinct hdistinct => ?_) ls
        refine .look (looks_atSymbol _) fun b => ?_
        extract_lets next
        have hnext : ∀ ls args, Items (Expr.Written respelled) ls args → Takes (next args)
            fun ys e => Expr.Written respelled
              (l :: .symbol .leftParen :: (ds ++ (ls ++ ys))) e := fun ls args h =>
          .symbol (.pure (.call hl hdistinct h))
        split
        · exact .pureBind (hnext _ _ .none)
        · exact (takes_commaList hsub).bind fun ls args h => hnext _ _ (.some h)
      · exact absurd hnone (by decide)

include hsub in
theorem takes_caseBranches (steps : Nat) :
    Takes (caseBranches sub steps) (Many (Branch.Written respelled)) := by
  induction steps with
  | zero => exact .pure .nil
  | succ steps ih =>
    unfold caseBranches
    refine .ifKeyword (fun l hl => ?_) (.pure .nil)
    refine hsub.bind fun ls condition hcondition => .keyword fun m hm => ?_
    refine hsub.bind fun ms result hresult => ih.last fun ns more hmore => ?_
    have hcons := Many.cons (Branch.Written.mk hl hcondition hm hresult) hmore
    rwa [List.cons_append, List.append_assoc, List.cons_append] at hcons

include hsub in
/-- What follows `CASE`. -/
theorem takes_caseBody {l : Lexeme} (hl : l.token = .keyword .case) :
    Takes (caseBody sub) fun ls e => Expr.Written respelled (l :: ls) e := by
  unfold caseBody
  refine .look (looks_atKeyword _) fun b => ?_
  extract_lets next
  have hnext : ∀ ls operand, Optional (Expr.Written respelled) ls operand → Takes (next operand)
      fun ys e => Expr.Written respelled (l :: (ls ++ ys)) e := by
    intro ls operand hoperand
    refine .look looks_remaining fun n => ?_
    refine (takes_caseBranches hsub n).bind fun ms branches hbranches => ?_
    extract_lets last
    have hlast : Takes (last ()) fun ys e =>
        Expr.Written respelled (l :: (ls ++ (ms ++ ys))) e := by
      refine (takes_after _ hsub).bind fun ns default hdefault => ?_
      exact .keyword fun r hr => .pure (.case hl hoperand hbranches hdefault hr)
    split
    · exact .bind (V := fun _ _ => False) .fail fun _ _ h => h.elim
    · exact hlast
  split
  · exact .pureBind (hnext _ _ .none)
  · exact hsub.bind fun ls e he => .pureBind (hnext _ _ (.some he))

include hsub in
theorem takes_primary : Takes (primary sub) (Expr.Written respelled) := by
  refine fun ls => .peek ?_
  split
  · next v hv =>
    obtain ⟨t, ht, hv⟩ := Option.bind_eq_some_iff.1 hv
    obtain ⟨l, left, rfl, rfl⟩ := exists_cons_of_head? ht
    exact .drop (.pure (.literal hv))
  · split
    · next x hx =>
      obtain ⟨l, left, rfl, hl⟩ := exists_cons_of_head? hx
      obtain rfl := Lexeme.eq_of_token (m := .parameter x) hl rfl nofun
      exact .drop (.pure .parameter)
    · next hparen =>
      obtain ⟨l, left, rfl, hl⟩ := exists_cons_of_head? hparen
      cases Lexeme.eq_symbol hl
      refine (takes_patternPredicate hsub _).bind fun xs left' o hls ho => ?_
      cases ho with
      | none =>
        cases hls
        refine .drop (hsub.bind (fun ls e he => ?_) left)
        exact .symbol (.pure (.parens he))
      | some he => exact .pure (by rwa [List.append_nil])
    · next hbracket =>
      obtain ⟨l, left, rfl, hl⟩ := exists_cons_of_head? hbracket
      cases Lexeme.eq_symbol hl
      exact .drop (takes_listBody hsub left)
    · exact (takes_entries hsub).last (fun ls entries h => .map h) ls
    · next hcase =>
      obtain ⟨l, left, rfl, hl⟩ := exists_cons_of_head? hcase
      exact .drop (takes_caseBody hsub hl left)
    · next x hx =>
      obtain ⟨l, left, rfl, hl⟩ := exists_cons_of_head? hx
      refine .drop (.look (looks_atSymbol _) fun b => ?_)
      split
      · exact takes_callBody hsub (Or.inl hl) left
      · exact .pure (.var hl)
    · next hall =>
      obtain ⟨l, left, rfl, hl⟩ := exists_cons_of_head? hall
      refine .look looks_peekSecond fun t => ?_
      split
      · exact .drop (takes_callBody hsub (Or.inr ⟨hl, rfl⟩) left)
      · exact .fail
    · exact .fail

end Primary

/-! ## Access to parts -/

section Levels

variable {sub : Reader Expr} (hsub : Takes sub (Expr.Written respelled))

include hsub in
theorem takes_sliceEnd {xs ms : List Lexeme} {target : Expr} {lower : Option Expr}
    (htarget : Expr.Written respelled xs target)
    (hlower : Optional (Expr.Written respelled) ms lower) :
    Takes (sliceEnd sub target lower) fun ls e => Expr.Written respelled
      (xs ++ .symbol .leftBracket :: (ms ++ .symbol .dotDot :: ls)) e := by
  unfold sliceEnd
  refine .look (looks_atSymbol _) fun b => ?_
  extract_lets next
  have hnext : ∀ ns upper, Optional (Expr.Written respelled) ns upper → Takes (next upper)
      fun ys e => Expr.Written respelled
        (xs ++ .symbol .leftBracket :: (ms ++ .symbol .dotDot :: (ns ++ ys))) e :=
    fun ns upper h => .symbol (.pure (.slice htarget hlower h))
  split
  · exact .pureBind (hnext _ _ .none)
  · exact hsub.bind fun ns e he => .pureBind (hnext _ _ (.some he))

include hsub in
/-- What follows the opening bracket of an index or of a slice. -/
theorem takes_indexBody {xs : List Lexeme} {target : Expr}
    (htarget : Expr.Written respelled xs target) :
    Takes (indexBody sub target) fun ls e =>
      Expr.Written respelled (xs ++ .symbol .leftBracket :: ls) e := by
  unfold indexBody
  refine .ifSymbol (takes_sliceEnd hsub htarget .none) ?_
  refine hsub.bind fun ms position hposition => .ifSymbol ?_ ?_
  · exact takes_sliceEnd hsub htarget (.some hposition)
  · exact .symbol (.pure (.index htarget hposition))

include hsub in
theorem takes_accessesFrom (steps : Nat) {xs : List Lexeme} {e : Expr}
    (he : Expr.Written respelled xs e) :
    Takes (accessesFrom sub steps e) fun ls e => Expr.Written respelled (xs ++ ls) e := by
  induction steps generalizing xs e with
  | zero => exact .pure (by rwa [List.append_nil])
  | succ steps ih =>
    unfold accessesFrom
    refine .ifSymbol ?_ (.ifSymbol ?_ ?_)
    · refine (takes_name _).bind fun ys key hkey => ?_
      cases hkey with
      | mk hl =>
        refine (ih (.property he hl)).mono fun zs e he => ?_
        rwa [List.append_assoc] at he
    · refine (takes_indexBody hsub he).bind fun ys e he => ?_
      refine (ih he).mono fun zs e he => ?_
      rwa [List.append_assoc, List.cons_append] at he
    · refine .look (looks_atSymbol _) fun b => .look looks_peekSecond fun t => ?_
      split
      · refine .look looks_remaining fun n => (takes_labelList n).bind fun ys labels hlabels => ?_
        refine (ih (.hasLabels he hlabels)).mono fun zs e he => ?_
        rwa [List.append_assoc] at he
      · exact .pure (by rwa [List.append_nil])

include hsub in
theorem takes_postfixed : Takes (postfixed sub) (Expr.Written respelled) :=
  (takes_primary hsub).bind fun _ _ he => .look looks_remaining fun n =>
    takes_accessesFrom hsub n he

/-! ## Operators -/

theorem tokens_of_chainOp {op? : Token → Option BinaryOp}
    (h : op? ∈ [orOp?, xorOp?, andOp?, sumOp?, productOp?, powerOp?]) (t : Token) (op : BinaryOp)
    (hop : op? t = some op) : op.tokens = [t] := by
  simp only [List.mem_cons, List.not_mem_nil, or_false] at h
  rcases h with rfl | rfl | rfl | rfl | rfl | rfl <;>
    simp only [orOp?, xorOp?, andOp?, sumOp?, productOp?, powerOp?] at hop <;>
    split at hop <;> cases hop <;> rfl

theorem tokens_of_comparisonOp {t : Token} {op : BinaryOp} (h : comparisonOp? t = some op) :
    op.tokens = [t] := by
  unfold comparisonOp? at h
  split at h <;> cases h <;> rfl

theorem tokens_of_affixOp {t : Token} {op : BinaryOp} (h : affixOp? t = some op) :
    op.tokens = [t, .keyword .with_] := by
  unfold affixOp? at h
  split at h <;> cases h <;> rfl

theorem takes_chainFrom {op? : Token → Option BinaryOp} {operand : Reader Expr}
    (hop : ∀ t op, op? t = some op → op.tokens = [t])
    (hoperand : Takes operand (Expr.Written respelled)) (steps : Nat) {xs : List Lexeme}
    {left : Expr} (hleft : Expr.Written respelled xs left) :
    Takes (chainFrom op? operand steps left) fun ls e => Expr.Written respelled (xs ++ ls) e := by
  induction steps generalizing xs left with
  | zero => exact .pure (by rwa [List.append_nil])
  | succ steps ih =>
    refine fun ls => .peek ?_
    split
    · next op hop' =>
      obtain ⟨t, ht, hop'⟩ := Option.bind_eq_some_iff.1 hop'
      obtain ⟨l, rest, rfl, rfl⟩ := exists_cons_of_head? ht
      refine .drop (hoperand.bind (fun ys right hright => ?_) rest)
      have htokens : [l].map Lexeme.token = op.tokens := (hop _ _ hop').symm
      refine (ih (.binary hleft htokens hright)).mono fun zs e he => ?_
      rwa [List.append_assoc, List.append_assoc] at he
    · exact .pure (by rwa [List.append_nil])

theorem takes_chain {op? : Token → Option BinaryOp} {operand : Reader Expr}
    (hop : ∀ t op, op? t = some op → op.tokens = [t])
    (hoperand : Takes operand (Expr.Written respelled)) :
    Takes (chain op? operand) (Expr.Written respelled) :=
  hoperand.bind fun _ _ hleft => .look looks_remaining fun n =>
    takes_chainFrom hop hoperand n hleft

theorem takes_comparisonsFrom {operand : Reader Expr}
    (hoperand : Takes operand (Expr.Written respelled)) (steps : Nat) {xs : List Lexeme}
    {left : Expr} (hleft : Expr.Written respelled xs left) :
    Takes (comparisonsFrom operand steps left) fun ls e =>
      Expr.Written respelled (xs ++ ls) e := by
  induction steps generalizing xs left with
  | zero => exact .pure (by rwa [List.append_nil])
  | succ steps ih =>
    refine fun ls => .peek ?_
    split
    · next op hop =>
      obtain ⟨t, ht, hop⟩ := Option.bind_eq_some_iff.1 hop
      obtain ⟨l, rest, rfl, rfl⟩ := exists_cons_of_head? ht
      refine .drop (hoperand.bind (fun ys right hright => ?_) rest)
      have htokens : [l].map Lexeme.token = op.tokens := (tokens_of_comparisonOp hop).symm
      refine (ih (.binary hleft htokens hright)).mono fun zs e he => ?_
      rwa [List.append_assoc, List.append_assoc] at he
    · split
      · next op hop =>
        obtain ⟨t, ht, hop⟩ := Option.bind_eq_some_iff.1 hop
        obtain ⟨l, rest, rfl, rfl⟩ := exists_cons_of_head? ht
        refine .drop (Takes.keyword (fun m hm => ?_) rest)
        refine hoperand.bind fun ys right hright => ?_
        have htokens : [l, m].map Lexeme.token = op.tokens := by
          rw [tokens_of_affixOp hop, ← hm]; rfl
        refine (ih (.binary hleft htokens hright)).mono fun zs e he => ?_
        rwa [List.append_assoc, List.append_assoc] at he
      · refine Takes.ifKeyword (fun l hl => ?_) (.pure (by rwa [List.append_nil])) ls
        refine (takes_eatKeyword _).bind fun ns negated hnegated => .keyword fun m hm => ?_
        cases hnegated with
        | off =>
          have htokens : [l, m].map Lexeme.token = [.keyword .is, .keyword .null] := by
            rw [← hl, ← hm]; rfl
          refine (ih (.isNull hleft htokens)).mono fun zs e he => ?_
          rwa [List.append_assoc] at he
        | @on n hn =>
          have htokens : [l, n, m].map Lexeme.token =
              [.keyword .is, .keyword .not, .keyword .null] := by
            rw [← hl, ← hn, ← hm]; rfl
          refine (ih (.isNotNull hleft htokens)).mono fun zs e he => ?_
          rwa [List.append_assoc] at he

theorem takes_negations {operand : Reader Expr}
    (hoperand : Takes operand (Expr.Written respelled)) (steps : Nat) :
    Takes (negations operand steps) (Expr.Written respelled) := by
  induction steps with
  | zero => exact hoperand
  | succ steps ih =>
    unfold negations
    exact .ifKeyword (fun l hl => ih.last fun ls e he => .not hl he) hoperand

theorem takes_signs {operand : Reader Expr} (hoperand : Takes operand (Expr.Written respelled))
    (steps : Nat) : Takes (signs operand steps) (Expr.Written respelled) := by
  induction steps with
  | zero => exact hoperand
  | succ steps ih =>
    unfold signs
    exact .ifSymbol (ih.last fun ls e he => .minus he)
      (.ifSymbol (ih.last fun ls e he => .plus he) hoperand)

include hsub in
theorem takes_sum : Takes (sum sub) (Expr.Written respelled) :=
  takes_chain (tokens_of_chainOp (by simp)) <|
    takes_chain (tokens_of_chainOp (by simp)) <|
      takes_chain (tokens_of_chainOp (by simp)) <|
        .look looks_remaining fun n => takes_signs (takes_postfixed hsub) n

include hsub in
theorem takes_comparison : Takes (comparison sub) (Expr.Written respelled) :=
  (takes_sum hsub).bind fun _ _ hleft => .look looks_remaining fun n =>
    takes_comparisonsFrom (takes_sum hsub) n hleft

include hsub in
theorem takes_level : Takes (level sub) (Expr.Written respelled) :=
  takes_chain (tokens_of_chainOp (by simp)) <|
    takes_chain (tokens_of_chainOp (by simp)) <|
      takes_chain (tokens_of_chainOp (by simp)) <|
        .look looks_remaining fun n => takes_negations (takes_comparison hsub) n

end Levels

/-! ## Complete expressions -/

theorem takes_reader (depth : Nat) : Takes (reader depth) (Expr.Written respelled) := by
  induction depth with
  | zero => exact .fail
  | succ depth ih => exact takes_level ih

theorem takes_read : Takes read (Expr.Written respelled) :=
  .look looks_remaining takes_reader

theorem takes_readPostfixed : Takes readPostfixed (Expr.Written respelled) :=
  .look looks_remaining fun n => takes_postfixed (takes_reader n)

theorem takes_readPattern : Takes readPattern (PatternPart.Written respelled) :=
  .look looks_remaining fun n => takes_patternPart (takes_reader n)

end PropertyGraph.Expr
