import Mathlib
import PropertyGraph.Proofs.Query.TakesExpr

/-!
# What clauses are read from

Every reader of clauses takes a written form of its clause, so the query that is read from a text is
written with the lexemes of the text.  A name of the query is then the word that stands in its place,
respelled: exactly that word, unless it is a keyword in another spelling than its text.

    takes_read               a clause is read from a written form of it
    takes_readAll            and all lexemes are read
    Query.names_of_parse     the names of a query are the words of its text, respelled
-/

namespace PropertyGraph

open Form Reader
open Keyword (respelled)

namespace Clause

/-! ## Projections -/

theorem takes_projectionItem : Takes projectionItem (ProjectionItem.Written respelled) :=
  Expr.takes_read.bind fun _ _ he =>
    (takes_after _ (takes_name _)).last fun _ _ halias => .mk he halias

theorem takes_sortKey : Takes sortKey (SortKey.Written respelled) := by
  unfold sortKey
  refine Expr.takes_read.bind fun ls e he => .ifKeyword (fun l hl => .pure ?_) ?_
  · exact .ascending he (.on hl)
  · refine (takes_eatKeyword _).last fun ms b hb => ?_
    cases hb with
    | off => exact .ascending he .off
    | on hl => exact .descending he hl

theorem takes_projectionItems {xs : List Lexeme} {star : Bool}
    (hstar : Flag (.symbol .star) xs star) : Takes (projectionItems star) fun ls items =>
      Columns.Written respelled (xs ++ ls) star items := by
  have hitems := takes_commaList takes_projectionItem
  cases hstar with
  | off => exact hitems.mono fun ls items h => .items h
  | on hl =>
    cases Lexeme.eq_symbol hl
    exact .ifSymbol (hitems.mono fun ls items h => .starAnd h) (.pure .star)

theorem takes_projectionBody : Takes projectionBody (ProjectionBody.Written respelled) := by
  unfold projectionBody
  refine (takes_eatKeyword _).bind fun ds distinct hdistinct => ?_
  refine (takes_eatSymbol _).bind fun xs star hstar => ?_
  refine (takes_projectionItems hstar).bind fun ys items hcolumns => ?_
  refine (takes_eatKeyword _).bind fun zs b hb => ?_
  extract_lets next
  have hnext : ∀ os order, Order.Written respelled os order → Takes (next order) fun ls body =>
      ProjectionBody.Written respelled (ds ++ (xs ++ (ys ++ (os ++ ls)))) body := by
    intro os order horder
    refine (takes_after _ Expr.takes_read).bind fun ss skip hskip => ?_
    refine (takes_after _ Expr.takes_read).last fun ls limit hlimit => ?_
    rw [← List.append_assoc xs]
    exact .mk hdistinct hcolumns horder hskip hlimit
  cases hb with
  | off => exact .pureBind (hnext _ _ .none)
  | on hl =>
    refine .keyword fun m hm => (takes_commaList takes_sortKey).bind fun ls keys hkeys => ?_
    exact hnext _ _ (.some hl hm hkeys)

/-! ## Changes -/

theorem takes_setItem : Takes setItem (SetItem.Written respelled) := by
  refine Expr.takes_readPostfixed.bind fun ls e he => ?_
  split
  · exact .symbol (Expr.takes_read.last fun ms value hvalue => .property he hvalue)
  · exact .pure (by rw [List.append_nil]; exact .labels he)
  · exact .fail
  · refine .ifSymbol ?_ (.ifSymbol ?_ .fail)
    · exact Expr.takes_read.last fun ms source hsource => .replace he hsource
    · exact Expr.takes_read.last fun ms source hsource => .merge he hsource
  · exact .fail

theorem takes_removeItem : Takes removeItem (RemoveItem.Written respelled) := by
  refine Expr.takes_readPostfixed.bind fun ls e he => ?_
  split
  · exact .pure (by rw [List.append_nil]; exact .property he)
  · exact .pure (by rw [List.append_nil]; exact .labels he)
  · exact .fail
  · exact .fail

theorem takes_mergeActions (steps : Nat) :
    Takes (mergeActions steps) (MergeActions.Written respelled) := by
  induction steps with
  | zero => exact .pure .none
  | succ steps ih =>
    unfold mergeActions
    refine .ifKeyword (fun l hl => .next ?_ fun m => ?_) (.pure .none)
    · exact .bind (V := fun _ _ => False) .fail fun _ _ h => h.elim
    · extract_lets next
      have hnext : ∀ onCreate : Bool, m.token = .keyword (if onCreate then .create else .match_) →
          Takes (next onCreate) fun ys b => MergeActions.Written respelled (l :: m :: ys) b := by
        intro onCreate hm
        refine .keyword fun s hs => (takes_commaList takes_setItem).bind fun ls items hitems => ?_
        refine ih.bind fun ms more hmore => .pure ?_
        have htokens : [l, m, s].map Lexeme.token = [.keyword .on,
            .keyword (if onCreate then .create else .match_), .keyword .set] := by
          rw [← hl, ← hm, ← hs]; rfl
        rw [List.append_nil]
        cases onCreate with
        | true => exact .onCreate htokens hitems hmore
        | false => exact .onMatch htokens hitems hmore
      split
      · next hm => exact .pureBind (hnext true (Option.some.inj hm))
      · next hm => exact .pureBind (hnext false (Option.some.inj hm))
      · exact .bind (V := fun _ _ => False) .fail fun _ _ h => h.elim

/-! ## Procedures -/

theorem takes_procedureParts (steps : Nat) :
    Takes (procedureParts steps) (ProcedureParts.Written respelled) := by
  induction steps with
  | zero => exact .pure .nil
  | succ steps ih =>
    unfold procedureParts
    refine .ifSymbol ((takes_name _).bind fun xs x hx => ?_) (.pure .nil)
    cases hx with
    | mk hl => exact ih.last fun ys more hmore => .cons hl hmore

theorem afterCall_eq (depth : Int) (ls : List Lexeme) :
    ∃ skipped left, ls = skipped ++ left ∧
      afterCall depth (ls.map Lexeme.token) = left.map Lexeme.token := by
  induction ls generalizing depth with
  | nil => exact ⟨[], [], rfl, rfl⟩
  | cons l rest ih =>
    have hskip : ∀ depth', ∃ skipped left, l :: rest = skipped ++ left ∧
        afterCall depth' (rest.map Lexeme.token) = left.map Lexeme.token := fun depth' => by
      obtain ⟨skipped, left, hrest, hleft⟩ := ih depth'
      exact ⟨l :: skipped, left, congrArg (l :: ·) hrest, hleft⟩
    rw [List.map_cons]
    unfold afterCall
    split
    · next hnil => cases hnil
    · next hparen => cases (List.cons.inj hparen).2; exact hskip _
    · next hparen => cases (List.cons.inj hparen).2; exact hskip _
    · next hother =>
      obtain ⟨rfl, rfl⟩ := List.cons.inj hother
      split
      · exact ⟨[], l :: rest, rfl, rfl⟩
      · exact hskip _

theorem takes_afterCall : Takes (modify (afterCall 0)) fun _ _ => True := by
  rintro ls _ _ ⟨⟩
  obtain ⟨skipped, left, hls, hleft⟩ := afterCall_eq 0 ls
  exact ⟨skipped, left, hls, hleft, trivial⟩

/-! ## Clauses -/

theorem takes_matchBody {os : List Lexeme} {optional : Bool}
    (hos : Flag (.keyword .optional) os optional) :
    Takes (matchBody optional) fun ls c => Clause.Written respelled (os ++ ls) c := by
  refine .keyword fun l hl => ?_
  refine (takes_commaList Expr.takes_readPattern).bind fun ls parts hparts => ?_
  exact (takes_after _ Expr.takes_read).last fun ms condition h => .matching hos hl hparts h

theorem takes_deleteBody : Takes (do
      let detach ← eatKeyword .detach
      keyword .delete
      return .delete detach (← commaList Expr.read)) (Clause.Written respelled) := by
  refine (takes_eatKeyword _).bind fun ds detach hds => .keyword fun l hl => ?_
  exact (takes_commaList Expr.takes_read).last fun ls targets h => .delete hds hl h

theorem takes_read : Takes read (Clause.Written respelled) := by
  refine fun ls => .peek ?_
  split
  · exact takes_matchBody .off ls
  · next hoptional =>
    obtain ⟨l, left, rfl, hl⟩ := exists_cons_of_head? hoptional
    refine .look looks_peekSecond fun t => ?_
    split
    · exact .drop (takes_matchBody (.on hl) left)
    · exact .fail
  · next hunwind =>
    obtain ⟨l, left, rfl, hl⟩ := exists_cons_of_head? hunwind
    refine .drop (Expr.takes_read.bind (fun ls source hsource => ?_) left)
    refine .keyword fun a ha => (takes_ident _).last fun ms x hx => ?_
    cases hx with
    | mk hm => exact .unwind hl hsource ha hm
  · next hwith =>
    obtain ⟨l, left, rfl, hl⟩ := exists_cons_of_head? hwith
    refine .drop (takes_projectionBody.bind (fun ls body hbody => ?_) left)
    exact (takes_after _ Expr.takes_read).last fun ms condition h => .projectWith hl hbody h
  · next hreturn =>
    obtain ⟨l, left, rfl, hl⟩ := exists_cons_of_head? hreturn
    exact .drop (takes_projectionBody.last (fun ls body h => .projectReturn hl h) left)
  · next hcreate =>
    obtain ⟨l, left, rfl, hl⟩ := exists_cons_of_head? hcreate
    exact .drop ((takes_commaList Expr.takes_readPattern).last (fun ls parts h => .create hl h) left)
  · next hmerge =>
    obtain ⟨l, left, rfl, hl⟩ := exists_cons_of_head? hmerge
    refine .drop (Expr.takes_readPattern.bind (fun ls part hpart => ?_) left)
    refine .look looks_remaining fun n => ?_
    exact (takes_mergeActions n).last fun ms actions h => .merge hl hpart h
  · next hset =>
    obtain ⟨l, left, rfl, hl⟩ := exists_cons_of_head? hset
    exact .drop ((takes_commaList takes_setItem).last (fun ls items h => .set hl h) left)
  · next hremove =>
    obtain ⟨l, left, rfl, hl⟩ := exists_cons_of_head? hremove
    exact .drop ((takes_commaList takes_removeItem).last (fun ls items h => .remove hl h) left)
  · exact takes_deleteBody ls
  · exact takes_deleteBody ls
  · next hcall =>
    obtain ⟨l, left, rfl, hl⟩ := exists_cons_of_head? hcall
    refine .drop ((takes_name _).bind (fun xs first hfirst => ?_) left)
    refine .look looks_remaining fun n => (takes_procedureParts n).bind fun ys more hmore => ?_
    refine takes_afterCall.last fun skipped _ _ => ?_
    cases hfirst with
    | @mk m _ hm =>
      show Clause.Written respelled (l :: m :: (ys ++ skipped)) _
      exact .call hl hm hmore
  · exact .throw
  · exact .fail
  · exact .fail
  · exact .fail

/-! ## Queries -/

theorem ne_nil_of_written {ls : List Lexeme} {c : Clause} {spell : String → String}
    (h : Clause.Written spell ls c) : ls ≠ [] := by
  cases h with
  | matching | delete => exact List.append_ne_nil_of_right_ne_nil _ nofun
  | unwind | projectWith | projectReturn | create | merge | set | remove | call => exact nofun

/-- All lexemes that are left are read. -/
theorem takes_readAll {steps : Nat} {ls : List Lexeme} (hsteps : ls.length ≤ steps) :
    TakesAt ls (readAll steps) fun used q => used = ls ∧ Query.Written respelled used q := by
  induction steps generalizing ls with
  | zero =>
    cases List.length_eq_zero_iff.1 (Nat.le_zero.1 hsteps)
    exact .pure ⟨rfl, .nil⟩
  | succ steps ih =>
    have hleft : ∀ {xs left : List Lexeme}, xs ≠ [] → ls = xs ++ left → left.length ≤ steps := by
      rintro xs left hxs rfl
      have hpos := List.length_pos_iff.2 hxs
      rw [List.length_append] at hsteps
      omega
    unfold readAll
    refine (takes_eatSymbol _ ls).bind fun xs left b hls hb => ?_
    cases hb with
    | @on l hl =>
      cases Lexeme.eq_symbol hl
      refine (ih (hleft (List.cons_ne_nil _ _) hls)).mono fun ys q h => ?_
      obtain ⟨rfl, hq⟩ := h
      exact ⟨hls.symm, .semicolon hq⟩
    | off =>
      obtain rfl : ls = left := hls
      refine (takes_eatKeyword _ ls).bind fun xs left b hls hb => ?_
      cases hb with
      | @on l hl =>
        refine (takes_eatKeyword _ left).bind fun ys left' all hls' hall => ?_
        have hls'' : ls = (l :: ys) ++ left' := by rw [hls, hls']; rfl
        refine (ih (hleft (List.cons_ne_nil _ _) hls'')).bind fun zs left'' q _ h => ?_
        obtain ⟨rfl, hq⟩ := h
        extract_lets next
        have hnext : TakesAt left'' (next ()) fun ws q' =>
            l :: (ys ++ (zs ++ ws)) = ls ∧
              Query.Written respelled (l :: (ys ++ (zs ++ ws))) q' :=
          .pure (by rw [List.append_nil]; exact ⟨hls''.symm, .union hl hall hq⟩)
        split
        · exact .bind (V := fun _ _ => False) .fail fun _ _ _ _ h => h.elim
        · exact hnext
      | off =>
        obtain rfl : ls = left := hls
        refine .peek ?_
        split
        · next hnone =>
          obtain rfl : ls = [] := by simpa using hnone
          exact .pure ⟨rfl, .nil⟩
        · refine (takes_read ls).bind fun xs left c hls hc => ?_
          refine (ih (hleft (ne_nil_of_written hc) hls)).bind fun ys left' q _ h => .pure ?_
          obtain ⟨rfl, hq⟩ := h
          show xs ++ (ys ++ []) = ls ∧ Query.Written respelled (xs ++ (ys ++ [])) (c :: q)
          rw [List.append_nil]
          exact ⟨hls.symm, .clause hc hq⟩

end Clause

/-- All lexemes are read. -/
theorem Query.takes_read (ls : List Lexeme) :
    TakesAt ls Query.read fun used q => used = ls ∧ Query.Written respelled used q := by
  refine .remaining ((Clause.takes_readAll (Nat.le_refl _)).bind fun xs left q _ h => ?_)
  obtain ⟨rfl, hq⟩ := h
  extract_lets next
  have hnext : TakesAt left (next ()) fun ys q' =>
      xs ++ ys = xs ∧ Query.Written respelled (xs ++ ys) q' :=
    .pure (by rw [List.append_nil]; exact ⟨rfl, hq⟩)
  split
  · exact .bind (V := fun _ _ => False) .fail fun _ _ _ _ h => h.elim
  · exact hnext

/-- The query of a text is written with the lexemes of the text, and wherever a name is written its
name in the query is the word respelled.  That is the word itself exactly if it is no keyword or is
spelled like the text of its keyword. -/
theorem Query.names_of_parse {text : String} {q : Query} (h : parse text = .ok q) :
    (∃ ls, Lexeme.Of text ls ∧ Query.Written respelled ls q) ∧
      ∀ w, respelled w = w ↔ ∀ k, Keyword.ofWord? w = some k → k.text = w := by
  refine ⟨?_, fun w => Keyword.respelled_eq_self_iff⟩
  unfold parse at h
  cases hscan : Token.scan text with
  | error e => rw [hscan] at h; cases h
  | ok ts =>
    rw [hscan] at h
    obtain ⟨ls, hls, rfl⟩ := Lexeme.exists_of_scan hscan
    obtain ⟨⟨q', rest⟩, hread, hq⟩ := Token.exists_ok_of_map h
    cases hq
    obtain ⟨used, left, -, -, rfl, hwritten⟩ := Query.takes_read ls q' rest hread
    exact ⟨used, hls, hwritten⟩

/-- `MATCH (n:Person) RETURN n.End AS Desc` -/
def namedQuery : Query :=
  [.matching false [⟨none, ⟨some "n", ["Person"], []⟩, []⟩] none,
    .projectReturn ⟨false, false, [⟨.property (.var "n") "end", some "desc"⟩], [], none, none⟩]

theorem Query.names_of_parse_named :
    parse "MATCH (n:Person) RETURN n.End AS Desc" = .ok namedQuery ∧
      (∃ ls, Lexeme.Of "MATCH (n:Person) RETURN n.End AS Desc" ls ∧
        Query.Written respelled ls namedQuery) ∧
      ∀ w, respelled w = w ↔ ∀ k, Keyword.ofWord? w = some k → k.text = w :=
  have hscan : Token.scan "MATCH (n:Person) RETURN n.End AS Desc" =
      .ok [.keyword .match_, .symbol .leftParen, .ident "n", .symbol .colon, .ident "Person",
        .symbol .rightParen, .keyword .return_, .ident "n", .symbol .dot, .keyword .end_,
        .keyword .as, .keyword .desc] := by cbv
  have hparse : parse "MATCH (n:Person) RETURN n.End AS Desc" = .ok namedQuery := by
    unfold parse
    rw [hscan]
    rfl
  ⟨hparse, names_of_parse hparse⟩

/-- A label that is a keyword with a capital loses its capital. -/
theorem Query.label_respelled :
    Lexeme.Of "CREATE (:Order)" [.word "CREATE", .symbol .leftParen, .symbol .colon, .word "Order",
      .symbol .rightParen] ∧
    Token.IsWord "Order" ∧
    parse "CREATE (:Order)" = .ok [.create [⟨none, ⟨none, ["order"], []⟩, []⟩]] := by
  have hword : Token.IsWord "Order" :=
    ⟨'O', ['r', 'd', 'e', 'r'], by decide, by decide, List.all_eq_true.1 rfl⟩
  have hfirst : Token.IsWord "CREATE" :=
    ⟨'C', ['R', 'E', 'A', 'T', 'E'], by decide, by decide, List.all_eq_true.1 rfl⟩
  have htext : "CREATE (:Order)".toList =
      "CREATE".toList ++ ' ' :: '(' :: ':' :: ("Order".toList ++ [')']) := by decide
  have hscan : Token.scan "CREATE (:Order)" = .ok [.keyword .create, .symbol .leftParen,
      .symbol .colon, .keyword .order, .symbol .rightParen] := by cbv
  refine ⟨?_, hword, ?_⟩
  · unfold Lexeme.Of
    rw [htext]
    refine .word hfirst (fun c hc => by cases hc; rfl) (.skip rfl (.other (by decide) rfl rfl ?_))
    refine .other (by decide) rfl rfl (.word hword (fun c hc => by cases hc; rfl) ?_)
    exact .other (by decide) rfl rfl .nil
  · unfold parse
    rw [hscan]
    rfl

end PropertyGraph
