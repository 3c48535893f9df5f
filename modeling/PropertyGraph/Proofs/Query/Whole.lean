import PropertyGraph.Proofs.Query.EndsExpr

/-!
# Whole queries

Reading a query ends for every list of tokens, and then all of them are read.  Every clause takes a
token, so the clauses are read in at most as many steps as there are tokens.  A union makes what
follows it a query of its own, so it is the last clause of its list, and neither list is empty.

    ends_clause         one clause that is no union
    ends_query          a query, with the queries after its unions
    Query.HasList       the clause lists of a query
    Clause.Ordered      unions come last and have something after them
    Query.read_whole    reading ends, with nothing left, in such lists
-/

namespace PropertyGraph

namespace Descent

variable {n : Nat}

/-! ## Projections -/

theorem ends_projectionItem : Ends n 1 projectionItem Clause.projectionItem :=
  ends_expression.bind fun _ => (ends_after .name).last

theorem ends_sortKey : Ends n 1 sortKey Clause.sortKey := by
  refine ends_expression.bind fun e => .bind .eat fun b => ?_
  split
  · exact .pure
  · exact Ends.eat.last

theorem ends_projectionItems (star : Bool) :
    Ends n 0 (projectionItems star) (Clause.projectionItems star) := by
  have hitems := (ends_commaList (ends_projectionItem (n := n))).weaken
  unfold projectionItems Clause.projectionItems
  split
  · refine .bind .eat fun b => ?_
    split
    · exact hitems
    · exact .pure
  · exact hitems

theorem ends_projectionBody : Ends n 0 projectionBody Clause.projectionBody := by
  unfold projectionBody Clause.projectionBody
  refine .bind .eat fun distinct => .bind .eat fun star => ?_
  refine .bind (ends_projectionItems star) fun items => .bind .eat fun b => ?_
  extract_lets next next'
  have hnext : ∀ order, Ends n 0 (next order) (next' order) := fun order =>
    .bind (ends_after ends_expression) fun skip =>
      .bind (ends_after ends_expression) fun limit => .pure
  split
  · exact .bind .keyword fun _ => .bind (ends_commaList ends_sortKey) hnext
  · exact hnext []

/-! ## Changes -/

theorem ends_setItem : Ends n 1 setItem Clause.setItem := by
  refine ends_target.bind fun e => ?_
  cases e with
  | property e key => exact .bind .symbol fun _ => ends_expression.weaken.last
  | hasLabels e labels =>
    cases e with
    | var name => exact .pure
    | _ => exact .fail
  | var name =>
    refine .bind .eat fun b => ?_
    split
    · exact ends_expression.weaken.last
    · refine .bind .eat fun b => ?_
      split
      · exact ends_expression.weaken.last
      · exact .fail
  | _ => exact .fail

theorem ends_removeItem : Ends n 1 removeItem Clause.removeItem := by
  refine ends_target.bind fun e => ?_
  cases e with
  | property e key => exact .pure
  | hasLabels e labels =>
    cases e with
    | var name => exact .pure
    | _ => exact .fail
  | _ => exact .fail

theorem ends_mergeActions (steps rounds : Nat) (h : steps < rounds) :
    Ends (steps + 1) 0 (mergeActions rounds) (Clause.mergeActions steps) := by
  induction steps, rounds, h using rounds_induction with
  | zero rounds => exact .one fun _ _ => .done rfl
  | succ steps rounds _ ih =>
    unfold mergeActions Clause.mergeActions
    refine .ifKeyword (.bind .next fun t => ?_) .pure
    extract_lets next next'
    have hnext : ∀ onCreate, Ends (steps + 1) 0 (next onCreate) (next' onCreate) := by
      refine fun onCreate => .bind .keyword fun _ => ?_
      refine .bind (ends_commaList ends_setItem) fun items => .bind ih fun actions => ?_
      dsimp only
      split <;> exact .pure
    rcases t with - | t
    · exact Ends.fail.bind (j := 0) hnext
    cases t with
    | keyword w =>
      cases w with
      | create => exact hnext true
      | match_ => exact hnext false
      | _ => exact Ends.fail.bind (j := 0) hnext
    | _ => exact Ends.fail.bind (j := 0) hnext

theorem ends_procedureParts (steps rounds : Nat) (h : steps < rounds) :
    Ends (steps + 1) 0 (procedureParts rounds) (Clause.procedureParts steps) := by
  induction steps, rounds, h using rounds_induction with
  | zero rounds => exact .one fun _ _ => .done rfl
  | succ steps rounds _ ih => exact .ifSymbol (.bind .name fun part => ih.last) .pure

/-! ## Clauses -/

theorem ends_matchBody (optional : Bool) :
    Ends n 1 (matchBody optional) (Clause.matchBody optional) :=
  .bind .keyword fun _ => .bind (ends_commaList ends_pattern) fun _ =>
    (ends_after ends_expression).last

theorem length_afterCall_le (depth : Int) (ts : List Token) :
    (Clause.afterCall depth ts).length ≤ ts.length := by
  fun_induction Clause.afterCall depth ts with
  | case1 => exact Nat.le_refl _
  | case2 depth rest ih => exact Nat.le_succ_of_le ih
  | case3 depth rest ih => exact Nat.le_succ_of_le ih
  | case4 depth t rest => exact Nat.le_refl _
  | case5 depth t rest => exact Nat.le_succ_of_le (by assumption)

/-- The arguments of a procedure are passed over. -/
theorem ends_afterCall : Ends n 0 (modify (Clause.afterCall 0)) (modify (Clause.afterCall 0)) :=
  fun _ ts _ _ => ⟨rfl, fun _ _ hok => by cases hok; exact length_afterCall_le 0 ts⟩

theorem ends_clause : Ends n 1 clause Clause.read := by
  unfold clause Clause.read
  refine fun bound ts _ hbound => .look rfl ?_
  have hts := Nat.lt_succ_self ts.length
  generalize hhead : ts.head? = head
  rcases head with - | t
  · exact .fail
  cases t with
  | keyword w =>
    cases w with
    | match_ => exact ends_matchBody false bound ts hts hbound
    | optional =>
      refine .look rfl ?_
      split
      · exact (ends_matchBody true).weaken.seen hts hbound hhead
      · exact .fail
    | unwind =>
      refine Ends.seen (.bind ends_expression fun source => ?_) hts hbound hhead
      exact .bind .keyword fun _ => Ends.ident.weaken.last
    | with_ =>
      refine Ends.seen (.bind ends_projectionBody fun body => ?_) hts hbound hhead
      exact (ends_after ends_expression).last
    | return_ => exact (Ends.last ends_projectionBody).seen hts hbound hhead
    | create => exact (ends_commaList ends_pattern).weaken.last.seen hts hbound hhead
    | merge =>
      refine Ends.seen (.bind ends_pattern fun part => ?_) hts hbound hhead
      exact .loop (fun steps rounds h _ => ends_mergeActions steps rounds h) fun actions => .pure
    | set => exact (ends_commaList ends_setItem).weaken.last.seen hts hbound hhead
    | remove => exact (ends_commaList ends_removeItem).weaken.last.seen hts hbound hhead
    | delete | detach =>
      refine Ends.bind .eat (fun detach => .bind .keyword fun _ => ?_) bound ts hts hbound
      exact (ends_commaList ends_expression).weaken.last
    | call =>
      refine Ends.seen (.bind .name fun first => ?_) hts hbound hhead
      refine .loop (fun steps rounds h _ => ends_procedureParts steps rounds h) fun parts => ?_
      exact .bind ends_afterCall fun _ => .pure
    | foreach => exact .throw
    | _ => exact .fail
  | _ => exact .fail

theorem ends_clauses (steps rounds : Nat) (h : steps < rounds) :
    Ends (steps + 1) 0 (clauses rounds) (Clause.readAll steps) := by
  induction steps, rounds, h using rounds_induction with
  | zero rounds => exact .one fun _ _ => .done rfl
  | succ steps rounds _ ih =>
    unfold clauses Clause.readAll
    refine .ifSymbol ih (.ifKeyword ?_ fun bound ts hts hbound => .look rfl ?_)
    · refine .bind .eat fun all => ?_
      unfold nonEmpty
      simp only [bind_assoc]
      refine .bind ih fun found => ?_
      cases found with
      | nil => exact fun _ _ _ _ => ⟨rfl, nofun⟩
      | cons c cs => exact fun _ _ _ _ => .done rfl
    · split
      · exact .pure
      · exact (ends_clause.first fun c => ih.last) bound ts hts hbound

theorem ends_query : Ends n 0 query Query.read := by
  unfold query nonEmpty Query.read
  refine .loop (fun steps rounds h _ => ends_clauses steps rounds h) fun found => ?_
  split
  · exact Ends.fail.bind (j := 0) fun _ => .pure
  · exact .pure

end Descent

/-! ## What a query consists of -/

/-- The clause lists of a query: its own and those after its unions. -/
inductive Query.HasList : Query → List Clause → Prop
  | self {q : Query} : HasList q q
  | union {q inner : Query} {all : Bool} {cs : List Clause} (hunion : Clause.union all inner ∈ q)
      (h : HasList inner cs) : HasList q cs

/-- A union comes last if at all, and is followed by a clause or more, which are again ordered. -/
inductive Clause.Ordered : List Clause → Prop
  | nil : Ordered []
  | union {all : Bool} {cs : List Clause} (hne : cs ≠ []) (h : Ordered cs) :
      Ordered [.union all cs]
  | cons {c : Clause} {cs : List Clause} (hc : ∀ all q, c ≠ .union all q) (h : Ordered cs) :
      Ordered (c :: cs)

namespace Clause.Ordered

variable {cs : List Clause}

theorem after_union {all : Bool} {inner : List Clause} (h : Ordered cs)
    (hunion : Clause.union all inner ∈ cs) : inner ≠ [] ∧ Ordered inner := by
  induction h with
  | nil => exact nomatch hunion
  | union hne h =>
    cases List.mem_singleton.1 hunion
    exact ⟨hne, h⟩
  | cons hc _ ih =>
    rcases List.mem_cons.1 hunion with heq | hmem
    · exact (hc all inner heq.symm).elim
    · exact ih hmem

theorem union_last (h : Ordered cs) : ∀ c ∈ cs.dropLast, ∀ all q, c ≠ .union all q := by
  induction h with
  | nil => exact nofun
  | union => exact nofun
  | @cons c cs hc _ ih =>
    cases cs with
    | nil => exact nofun
    | cons d cs =>
      rintro c' (_ | ⟨_, hmem⟩)
      · exact hc
      · exact ih c' hmem

theorem of_hasList {q : Query} (hl : q.HasList cs) (hne : q ≠ []) (h : Ordered q) :
    cs ≠ [] ∧ Ordered cs := by
  induction hl with
  | self => exact ⟨hne, h⟩
  | union hunion _ ih =>
    obtain ⟨hinner, hordered⟩ := h.after_union hunion
    exact ih hinner hordered

end Clause.Ordered

/-! ## What is read -/

namespace Reader

variable {α β : Type} {ts : List Token} {P : α → List Token → Prop} {Q : β → List Token → Prop}

/-- What the reader gives from these tokens, and what it leaves of them, are so related. -/
def Yields (ts : List Token) (r : Reader α) (P : α → List Token → Prop) : Prop :=
  ∀ a rest, r ts = .ok (a, rest) → P a rest

namespace Yields

theorem pure {a : α} (h : P a ts) : Yields ts (Pure.pure a) P := by
  rintro _ _ ⟨⟩
  exact h

theorem fail {cause : SyntaxError} : Yields ts (Reader.fail cause) P := nofun

theorem throw {e : Error} : Yields ts (MonadExcept.throw e) P := nofun

theorem bind {r : Reader α} {g : α → Reader β} (h : Yields ts r P)
    (hg : ∀ a rest, P a rest → Yields rest (g a) Q) : Yields ts (r >>= g) Q := by
  intro b rest hok
  cases hr : r ts with
  | error e => exact nomatch (bind_error hr).symm.trans hok
  | ok p =>
    obtain ⟨a, middle⟩ := p
    exact hg a middle (h a middle hr) b rest ((bind_ok hr).symm.trans hok)

/-- A step that nothing need be known about. -/
theorem andThen {r : Reader α} {g : α → Reader β} (hg : ∀ a rest, Yields rest (g a) Q) :
    Yields ts (r >>= g) Q :=
  bind (P := fun _ _ => True) (fun _ _ _ => trivial) fun a rest _ => hg a rest

/-- A step whose outcome is known and that takes nothing. -/
theorem look {r : Reader α} {g : α → Reader β} {a : α} (hr : r ts = .ok (a, ts))
    (h : Yields ts (g a) Q) : Yields ts (r >>= g) Q :=
  fun b rest hok => h b rest ((bind_ok hr).symm.trans hok)

end Yields

end Reader

namespace Clause

open Reader Descent

theorem yields_matchBody {ts : List Token} {optional : Bool} :
    Yields ts (matchBody optional) fun c _ => ∀ all q, c ≠ .union all q :=
  .andThen fun _ _ => .andThen fun _ _ => .andThen fun _ _ => .pure nofun

/-- A union is none of the clauses that are read one by one. -/
theorem yields_read {ts : List Token} :
    Yields ts read fun c _ => ∀ all q, c ≠ .union all q := by
  unfold read
  refine .andThen fun t rest => ?_
  rcases t with - | t
  · exact .fail
  cases t with
  | keyword w =>
    cases w with
    | match_ => exact yields_matchBody
    | optional =>
      refine .andThen fun t _ => ?_
      split
      · exact .andThen fun _ _ => yields_matchBody
      · exact .fail
    | return_ | create | set | remove =>
      exact .andThen fun _ _ => .andThen fun _ _ => .pure nofun
    | with_ | delete | detach =>
      exact .andThen fun _ _ => .andThen fun _ _ => .andThen fun _ _ => .pure nofun
    | unwind | merge =>
      exact .andThen fun _ _ => .andThen fun _ _ => .andThen fun _ _ => .andThen fun _ _ =>
        .pure nofun
    | call =>
      exact .andThen fun _ _ => .andThen fun _ _ => .andThen fun _ _ => .andThen fun _ _ =>
        .andThen fun _ _ => .pure nofun
    | foreach => exact .throw
    | _ => exact .fail
  | _ => exact .fail

/-- As many steps as there are tokens read all of them. -/
theorem yields_readAll {steps : Nat} {ts : List Token} (hsteps : ts.length ≤ steps) :
    Yields ts (readAll steps) fun cs rest => rest = [] ∧ Ordered cs := by
  induction steps generalizing ts with
  | zero => exact .pure ⟨List.length_eq_zero_iff.1 (Nat.le_zero.1 hsteps), .nil⟩
  | succ steps ih =>
    unfold readAll
    refine Yields.bind (fun _ _ => eat_ok) fun semicolon left hleft => ?_
    rcases hleft with ⟨rfl, t, rfl⟩ | ⟨rfl, rfl⟩
    · exact ih (Nat.le_of_succ_le_succ hsteps)
    refine Yields.bind (fun _ _ => eat_ok) fun union left' hleft' => ?_
    rcases hleft' with ⟨rfl, t, rfl⟩ | ⟨rfl, rfl⟩
    · -- What follows the union is a query, which has to have a clause.
      have hall : Yields left' (eatKeyword .all) fun _ left => left.length ≤ left'.length :=
        Ends.eat.takes (Nat.lt_succ_self _)
      refine Yields.bind hall fun all left hle => ?_
      refine (ih (Nat.le_trans hle (Nat.le_of_succ_le_succ hsteps))).bind fun inner rest h => ?_
      cases inner with
      | nil => exact nofun
      | cons c cs => exact .pure ⟨h.1, .union nofun h.2⟩
    refine .look rfl ?_
    split
    · next hnone =>
      exact .pure ⟨List.head?_eq_none_iff.1 (Option.isNone_iff_eq_none.1 hnone), .nil⟩
    · have htakes := ends_clause.takes (Nat.lt_succ_self left'.length)
      have hread : Yields left' read fun c left =>
          (∀ all q, c ≠ .union all q) ∧ left.length + 1 ≤ left'.length := fun c left hok =>
        ⟨yields_read c left hok, htakes c left hok⟩
      refine hread.bind fun c left hc => ?_
      have hfewer := Nat.le_of_succ_le_succ (Nat.le_trans hc.2 hsteps)
      exact (ih hfewer).bind fun cs rest h => .pure ⟨h.1, .cons hc.1 h.2⟩

end Clause

namespace Query

theorem yields_read {tokens : List Token} :
    Reader.Yields tokens read fun q rest => rest = [] ∧ q ≠ [] ∧ Clause.Ordered q := by
  refine .look rfl ((Clause.yields_readAll (Nat.le_refl tokens.length)).bind fun q rest h => ?_)
  cases q with
  | nil => exact nofun
  | cons c cs => exact .pure ⟨h.1, nofun, h.2⟩

/-- Whatever the tokens are, reading a query comes to an end: no loop goes round more often than
there are tokens, and nothing nests deeper, so that within every larger limit there is an outcome,
and it is that of the bounded reader.  If there is a query, no token is left, each of its clause
lists has a clause, and only the last clause of a list can be a union. -/
theorem read_whole (tokens : List Token) :
    (∀ limit, tokens.length < limit → Descent.query limit tokens = some (read tokens)) ∧
      ∀ q rest, read tokens = .ok (q, rest) →
        rest = [] ∧ ∀ cs, q.HasList cs →
          cs ≠ [] ∧ ∀ c ∈ cs.dropLast, ∀ all inner, c ≠ .union all inner := by
  refine ⟨fun limit hlimit => ?_, fun q rest hok => ?_⟩
  · exact (Descent.ends_query limit tokens (Nat.lt_succ_self _) hlimit).ends
  · obtain ⟨hrest, hne, hordered⟩ := yields_read q rest hok
    refine ⟨hrest, fun cs hl => ?_⟩
    obtain ⟨hcs, hlast⟩ := hordered.of_hasList hl hne
    exact ⟨hcs, hlast.union_last⟩

/-- `RETURN ((1)) UNION ALL RETURN 2;` -/
def nestedTokens : List Token :=
  [.keyword .return_, .symbol .leftParen, .symbol .leftParen, .int 1, .symbol .rightParen,
    .symbol .rightParen, .keyword .union, .keyword .all, .keyword .return_, .int 2,
    .symbol .semicolon]

/-- Its query. -/
def nestedQuery : Query :=
  let returning (n : Int64) : Clause :=
    .projectReturn ⟨false, false, [⟨.literal (.int n), none⟩], [], none, none⟩
  [returning 1, .union true [returning 2]]

/-- Neither parenthesis begins a pattern, and what follows the union is a query of its own. -/
theorem read_whole_nested :
    Descent.query 12 nestedTokens = some (.ok (nestedQuery, [])) ∧
      ∀ cs, nestedQuery.HasList cs →
        cs ≠ [] ∧ ∀ c ∈ cs.dropLast, ∀ all inner, c ≠ .union all inner := by
  have hread : read nestedTokens = .ok (nestedQuery, []) := rfl
  obtain ⟨hends, hwhole⟩ := read_whole nestedTokens
  exact ⟨(hends 12 (by decide)).trans (congrArg some hread), (hwhole nestedQuery [] hread).2⟩

end Query

end PropertyGraph
