import PropertyGraph.Proofs.Query.Levels

/-!
# Reading the parts of an expression

What stands inside an expression is read by the reader of complete expressions.  Where that one
reads the expressions inside, the readers of maps, lists, accesses and patterns read theirs.

    Expr.Reads            a reader takes the tokens of an expression in a place
    steps_property, …     one access
    entries_ok            a map
    nodePattern_ok, …     the parts of a pattern
-/

namespace PropertyGraph.Expr

open Reader

/-- In a place that wants the level, the reader takes the tokens of the expression, wherever it ends
after them. -/
def Reads (sub : Reader Expr) (l : Precedence) (e : Expr) : Prop :=
  ∀ rest, Stops .or rest → sub (e.tokensAt l ++ rest) = .ok (e, rest)

variable {sub : Reader Expr} {l : Precedence} {a e : Expr} {ts rest : List Token}

theorem tokensAt_head_ne {t : Token} (ht : t.starts? = none) (l : Precedence) (e : Expr)
    (rest : List Token) : (e.tokensAt l ++ rest).head? ≠ some t :=
  ((opens_tokensAt l e).append rest).head_ne fun k hk => by rw [ht] at hk; cases hk

/-! ## Labels -/

theorem labelList_ok {labels : List String} (hrest : rest.head? ≠ some (.symbol .colon)) {n : Nat}
    (hn : labels.length ≤ n) : labelList n (labelTokens labels ++ rest) = .ok (labels, rest) := by
  induction labels generalizing n with
  | nil =>
    cases n with
    | zero => rfl
    | succ n => exact bind_ok (eatSymbol_none hrest)
  | cons label more ih =>
    cases n with
    | zero => simp at hn
    | succ n =>
      refine (bind_ok eatSymbol_cons).trans ((bind_ok rfl).trans ?_)
      exact bind_ok (ih (Nat.le_of_succ_le_succ hn))

theorem length_flatMap_pair {α β : Type} (f g : α → β) (as : List α) :
    (as.flatMap fun a => [f a, g a]).length = 2 * as.length := by
  induction as with
  | nil => rfl
  | cons a more ih =>
    rw [List.flatMap_cons, List.length_append, ih, List.length_cons]
    simp only [List.length_cons, List.length_nil]
    omega

theorem length_labelTokens (labels : List String) :
    (labelTokens labels).length = 2 * labels.length :=
  length_flatMap_pair (fun _ => Token.symbol .colon) .ident labels

/-! ## Accesses -/

theorem steps_property (a : Expr) (key : String) :
    Steps sub .label a (.symbol .dot :: .ident key :: rest) (.property a key) rest := by
  intro n hn
  cases n with
  | zero => simp at hn
  | succ n =>
    refine ⟨n, by simp only [List.length_cons] at hn; omega, ?_⟩
    exact (bind_ok eatSymbol_cons).trans (bind_ok rfl)

theorem steps_hasLabels (a : Expr) {labels : List String} (hne : labels ≠ [])
    (hrest : rest.head? ≠ some (.symbol .colon)) :
    Steps sub .label a (labelTokens labels ++ rest) (.hasLabels a labels) rest := by
  intro n hn
  obtain ⟨label, more, rfl⟩ := List.exists_cons_of_ne_nil hne
  have hlength : (labelTokens (label :: more) ++ rest).length =
      2 * (more.length + 1) + rest.length := by
    rw [List.length_append, length_labelTokens, List.length_cons]
  have hfuel : (label :: more).length ≤ (labelTokens (label :: more) ++ rest).length := by
    rw [hlength, List.length_cons]
    omega
  rw [hlength] at hn
  cases n with
  | zero => omega
  | succ n =>
    refine ⟨n, by omega, ?_⟩
    refine (bind_ok (eatSymbol_none (by nofun))).trans ?_
    refine (bind_ok (eatSymbol_none (by nofun))).trans ?_
    refine (bind_ok atSymbol_cons).trans ?_
    refine (bind_ok rfl).trans ?_
    refine (congrFun (if_pos rfl) _).trans ?_
    exact (bind_ok rfl).trans (bind_ok (labelList_ok hrest hfuel))

/-- The tokens of an access between brackets, the first bracket apart. -/
theorem steps_brackets {body : List Token}
    (h : indexBody sub a body = .ok (e, rest)) (hlength : rest.length ≤ body.length) :
    Steps sub .label a (.symbol .leftBracket :: body) e rest := by
  intro n hn
  cases n with
  | zero => simp at hn
  | succ n =>
    refine ⟨n, by simp only [List.length_cons] at hn; omega, ?_⟩
    refine (bind_ok (eatSymbol_none (by nofun))).trans ?_
    exact (bind_ok eatSymbol_cons).trans (bind_ok h)

theorem indexBody_index {position : Expr} (h : Reads sub .or position) (rest : List Token) :
    indexBody sub a (position.tokensAt .or ++ .symbol .rightBracket :: rest) =
      .ok (.index a position, rest) := by
  refine (bind_ok (eatSymbol_none (tokensAt_head_ne rfl _ _ _))).trans ?_
  refine (bind_ok (h _ (stops_of_none (by rfl)))).trans ?_
  refine (bind_ok (eatSymbol_none (by nofun))).trans ?_
  exact bind_ok symbol_cons

theorem sliceEnd_ok {upper : Option Expr} (h : ∀ e ∈ upper, Reads sub .or e)
    (lower : Option Expr) (rest : List Token) :
    sliceEnd sub a lower (optionTokens [] upper ++ .symbol .rightBracket :: rest) =
      .ok (.slice a lower upper, rest) := by
  cases upper with
  | none => exact (bind_ok atSymbol_cons).trans ((bind_ok rfl).trans (bind_ok symbol_cons))
  | some e =>
    refine (bind_ok (atSymbol_none (tokensAt_head_ne rfl .or e _))).trans ?_
    refine (bind_ok (h e rfl _ (stops_of_none (by rfl)))).trans ?_
    exact (bind_ok rfl).trans (bind_ok symbol_cons)

theorem indexBody_slice {lower upper : Option Expr} (hlower : ∀ e ∈ lower, Reads sub .or e)
    (hupper : ∀ e ∈ upper, Reads sub .or e) (rest : List Token) :
    indexBody sub a (optionTokens [] lower ++ .symbol .dotDot ::
      (optionTokens [] upper ++ .symbol .rightBracket :: rest)) =
      .ok (.slice a lower upper, rest) := by
  cases lower with
  | none => exact (bind_ok eatSymbol_cons).trans (sliceEnd_ok hupper none rest)
  | some e =>
    refine (bind_ok (eatSymbol_none (tokensAt_head_ne rfl .or e _))).trans ?_
    refine (bind_ok (hlower e rfl _ (stops_of_none (by rfl)))).trans ?_
    exact (bind_ok eatSymbol_cons).trans (sliceEnd_ok hupper (some e) rest)

/-! ## Lists and maps -/

/-- After the first of some lists comes a comma or what follows all of them. -/
theorem commas_append (ts : List Token) (tss : List (List Token)) (rest : List Token) :
    ∃ tail, commas (ts :: tss) ++ rest = ts ++ tail ∧
      (tail = rest ∨ tail.head? = some (.symbol .comma)) := by
  cases tss with
  | nil => exact ⟨rest, congrArg (· ++ rest) (List.intercalate_singleton), Or.inl rfl⟩
  | cons us more =>
    refine ⟨.symbol .comma :: (commas (us :: more) ++ rest), ?_, Or.inr rfl⟩
    rw [commas, List.intercalate_cons_cons, List.append_assoc, List.append_assoc]
    rfl

theorem items_ok {items : List Expr} (hne : items ≠ []) (h : ∀ e ∈ items, Reads sub l e)
    (hstops : Stops .or rest) (hcomma : rest.head? ≠ some (.symbol .comma)) :
    commaList sub (commas (itemTokens l items) ++ rest) = .ok (items, rest) := by
  rw [itemTokens_eq]
  exact commaList_ok hne hcomma (fun e he more => h e he _ (stops_of_none (by rfl)))
    fun e he => h e he _ hstops

theorem entry_ok {entry : String × Expr} (h : Reads sub .or entry.2) (hstops : Stops .or rest) :
    Expr.entry sub (entryToken entry ++ rest) = .ok (entry, rest) := by
  refine (bind_ok rfl).trans ?_
  refine (bind_ok rfl).trans ?_
  exact (bind_ok symbol_cons).trans (bind_ok (h _ hstops))

theorem entries_ok {es : List (String × Expr)} (h : ∀ entry ∈ es, Reads sub .or entry.2)
    (rest : List Token) : entries sub (braced (entryTokens es) ++ rest) = .ok (es, rest) := by
  rw [braced, List.cons_append, List.append_assoc, entryTokens_eq]
  refine (bind_ok symbol_cons).trans ?_
  cases es with
  | nil => exact (bind_ok atSymbol_cons).trans ((bind_ok rfl).trans (bind_ok symbol_cons))
  | cons entry more =>
    refine (bind_ok (atSymbol_none ?_)).trans ?_
    · obtain ⟨tail, htail, -⟩ := commas_append (entryToken entry) (more.map entryToken)
        ([.symbol .rightBrace] ++ rest)
      rw [List.map_cons, htail]
      nofun
    · refine (bind_ok (commaList_ok (List.cons_ne_nil _ _) (by nofun) ?_ ?_)).trans ?_
      · exact fun entry hentry more => entry_ok (h entry hentry) (stops_of_none (by rfl))
      · exact fun entry hentry => entry_ok (h entry hentry) (stops_of_none (by rfl))
      · exact bind_ok symbol_cons

/-! ## Patterns -/

theorem head?_append_ne {t : Token} (h : ts.head? ≠ some t) (hrest : rest.head? ≠ some t) :
    (ts ++ rest).head? ≠ some t := by
  cases ts with
  | nil => exact hrest
  | cons u more => exact h

theorem labelTokens_head_ne {t : Token} (ht : t ≠ .symbol .colon) (labels : List String) :
    (labelTokens labels).head? ≠ some t := by
  cases labels with
  | nil => nofun
  | cons label more => exact fun h => ht (Option.some.inj h).symm

theorem labelTokens_append_head_ne {t : Token} {labels : List String} (hne : labels ≠ [])
    (ht : t ≠ .symbol .colon) (rest : List Token) :
    (labelTokens labels ++ rest).head? ≠ some t := by
  obtain ⟨label, more, rfl⟩ := List.exists_cons_of_ne_nil hne
  exact fun h => ht (Option.some.inj h).symm

theorem bracedUnlessEmpty_head_ne {t : Token} (ht : t ≠ .symbol .leftBrace)
    (tss : List (List Token)) : (bracedUnlessEmpty tss).head? ≠ some t := by
  cases tss with
  | nil => nofun
  | cons ts more => exact fun h => ht (Option.some.inj h).symm

theorem patternProperties_ok {es : List (String × Expr)}
    (h : ∀ entry ∈ es, Reads sub .or entry.2)
    (hrest : rest.head? ≠ some (.symbol .leftBrace)) :
    patternProperties sub (bracedUnlessEmpty (entryTokens es) ++ rest) = .ok (es, rest) := by
  cases es with
  | nil => exact bind_ok (atSymbol_none hrest)
  | cons entry more => exact (bind_ok atSymbol_cons).trans (entries_ok h rest)

theorem optionalIdent_ok (name : Option String)
    (hrest : name = none → ∀ x, rest.head? ≠ some (.ident x)) :
    optionalIdent (nameTokens name ++ rest) = .ok (name, rest) := by
  cases name with
  | some x => exact (bind_ok rfl).trans (bind_ok rfl)
  | none =>
    refine (bind_ok rfl).trans ?_
    cases rest with
    | nil => rfl
    | cons t more =>
      cases t with
      | ident x => exact absurd rfl (hrest rfl x)
      | _ => rfl

/-- The tokens of a node are read as that node. -/
theorem nodePattern_ok {n : NodePattern} (h : ∀ entry ∈ n.properties, Reads sub .or entry.2)
    (rest : List Token) : nodePattern sub (nodeTokens n ++ rest) = .ok (n, rest) := by
  obtain ⟨name, labels, properties⟩ := n
  rw [nodeTokens, List.cons_append]
  simp only [List.append_assoc, List.singleton_append]
  have hclose : ∀ {t : Token}, t ≠ .symbol .leftBrace → t ≠ .symbol .rightParen →
      (bracedUnlessEmpty (entryTokens properties) ++ .symbol .rightParen :: rest).head? ≠ some t :=
    fun hbrace hparen => head?_append_ne (bracedUnlessEmpty_head_ne hbrace _)
      fun h => hparen (Option.some.inj h).symm
  refine (bind_ok symbol_cons).trans ?_
  refine (bind_ok (optionalIdent_ok name fun _ x => head?_append_ne
    (labelTokens_head_ne (by nofun) labels) (hclose (by nofun) (by nofun)))).trans ?_
  refine (bind_ok rfl).trans ?_
  refine (bind_ok (labelList_ok (hclose (by nofun) (by nofun)) ?_)).trans ?_
  · rw [List.length_append, length_labelTokens]
    omega
  refine (bind_ok (patternProperties_ok h (by nofun))).trans ?_
  exact bind_ok symbol_cons

theorem moreTypes_ok {types : List String} (hrest : rest.head? ≠ some (.symbol .pipe)) {n : Nat}
    (hn : types.length ≤ n) :
    moreTypes n ((types.flatMap fun t => [.symbol .pipe, .ident t]) ++ rest) =
      .ok (types, rest) := by
  induction types generalizing n with
  | nil =>
    cases n with
    | zero => rfl
    | succ n => exact bind_ok (eatSymbol_none hrest)
  | cons t more ih =>
    cases n with
    | zero => simp at hn
    | succ n =>
      refine (bind_ok eatSymbol_cons).trans ?_
      refine (bind_ok (eatSymbol_none (by nofun))).trans ?_
      refine (bind_ok rfl).trans ?_
      exact bind_ok (ih (Nat.le_of_succ_le_succ hn))

theorem lengthBound_ok {bound : Option Nat} (h : bound.all (· < 0x100000000) = true)
    (hrest : ∀ n, rest.head? ≠ some (.int n)) :
    lengthBound (boundTokens bound ++ rest) = .ok (bound, rest) := by
  cases bound with
  | none =>
    refine (bind_ok rfl).trans ?_
    cases rest with
    | nil => rfl
    | cons t more =>
      cases t with
      | int n => exact absurd rfl (hrest n)
      | _ => rfl
  | some n =>
    have hn : n < 0x100000000 := of_decide_eq_true h
    have hint : (Int64.ofNat n).toInt = n := Int64.toInt_ofNat_of_lt (by omega)
    refine (bind_ok rfl).trans ?_
    refine (congrFun (if_pos ?_) _).trans ((bind_ok rfl).trans ?_)
    · rw [hint]
      omega
    · rw [hint]
      rfl

theorem lengthRange_ok {range : LengthRange} (h : isRange range = true)
    (hrest : ∀ n, rest.head? ≠ some (.int n)) :
    lengthRange (boundTokens range.min ++ .symbol .dotDot :: (boundTokens range.max ++ rest)) =
      .ok (range, rest) := by
  obtain ⟨hmin, hmax⟩ := Bool.and_eq_true_iff.1 h
  refine (bind_ok (lengthBound_ok hmin fun n => by nofun)).trans ?_
  refine (bind_ok eatSymbol_cons).trans ?_
  exact bind_ok (lengthBound_ok hmax hrest)

theorem typeTokens_head_ne {t : Token} (ht : t ≠ .symbol .colon) (types : List String) :
    (typeTokens types).head? ≠ some t := by
  cases types with
  | nil => nofun
  | cons label more => exact fun h => ht (Option.some.inj h).symm

theorem rangeTokens_head_ne {t : Token} (ht : t ≠ .symbol .star) (range : Option LengthRange) :
    (rangeTokens range).head? ≠ some t := by
  cases range with
  | none => nofun
  | some range => exact fun h => ht (Option.some.inj h).symm

/-- The inside of a relationship's brackets, from its lengths on. -/
theorem bodyEnd_ok {properties : List (String × Expr)} {range : Option LengthRange}
    (h : ∀ entry ∈ properties, Reads sub .or entry.2) (hrange : range.all isRange = true)
    (name : Option String) (types : List String) (heading : Heading) (rest : List Token) :
    (do
      let range ← if ← eatSymbol .star then pure (some (← lengthRange)) else pure none
      let properties ← patternProperties sub
      symbol .rightBracket
      return ⟨name, types, heading, properties, range⟩ : Reader RelationshipPattern)
      (rangeTokens range ++ (bracedUnlessEmpty (entryTokens properties) ++
        .symbol .rightBracket :: rest)) = .ok (⟨name, types, heading, properties, range⟩, rest) := by
  have hclose : ∀ {t : Token}, t ≠ .symbol .leftBrace → t ≠ .symbol .rightBracket →
      (bracedUnlessEmpty (entryTokens properties) ++
        .symbol .rightBracket :: rest).head? ≠ some t :=
    fun hbrace hbracket => head?_append_ne (bracedUnlessEmpty_head_ne hbrace _)
      fun h => hbracket (Option.some.inj h).symm
  cases range with
  | none =>
    refine (bind_ok (eatSymbol_none (hclose (by nofun) (by nofun)))).trans ?_
    refine (bind_ok rfl).trans ?_
    refine (bind_ok (patternProperties_ok h (by nofun))).trans ?_
    exact bind_ok symbol_cons
  | some range =>
    rw [rangeTokens, List.cons_append, List.append_assoc, List.cons_append]
    refine (bind_ok eatSymbol_cons).trans ?_
    refine (bind_ok (lengthRange_ok hrange fun n => hclose (by nofun) (by nofun))).trans ?_
    refine (bind_ok rfl).trans ?_
    refine (bind_ok (patternProperties_ok h (by nofun))).trans ?_
    exact bind_ok symbol_cons

theorem relationshipBody_ok {properties : List (String × Expr)} {range : Option LengthRange}
    (h : ∀ entry ∈ properties, Reads sub .or entry.2) (hrange : range.all isRange = true)
    (name : Option String) (types : List String) (heading : Heading) (rest : List Token) :
    relationshipBody sub heading (nameTokens name ++ (typeTokens types ++ (rangeTokens range ++
      (bracedUnlessEmpty (entryTokens properties) ++ .symbol .rightBracket :: rest)))) =
        .ok (⟨name, types, heading, properties, range⟩, rest) := by
  have hclose : ∀ {t : Token}, t ≠ .symbol .star → t ≠ .symbol .leftBrace →
      t ≠ .symbol .rightBracket → (rangeTokens range ++ (bracedUnlessEmpty (entryTokens properties) ++
        .symbol .rightBracket :: rest)).head? ≠ some t :=
    fun hstar hbrace hbracket => head?_append_ne (rangeTokens_head_ne hstar range)
      (head?_append_ne (bracedUnlessEmpty_head_ne hbrace _)
        fun h => hbracket (Option.some.inj h).symm)
  refine (bind_ok (optionalIdent_ok name fun _ x => head?_append_ne
    (typeTokens_head_ne (by nofun) types)
      (hclose (by nofun) (by nofun) (by nofun)))).trans ?_
  cases types with
  | nil =>
    refine (bind_ok (eatSymbol_none (hclose (by nofun) (by nofun) (by nofun)))).trans ?_
    exact (bind_ok rfl).trans (bodyEnd_ok h hrange name [] heading rest)
  | cons t more =>
    refine (bind_ok eatSymbol_cons).trans ?_
    refine (bind_ok rfl).trans ?_
    refine (bind_ok rfl).trans ?_
    refine (bind_ok (moreTypes_ok (hclose (by nofun) (by nofun) (by nofun)) ?_)).trans ?_
    · show more.length ≤ (more.flatMap (fun t => [Token.symbol .pipe, .ident t]) ++ _).length
      rw [List.length_append, length_flatMap_pair]
      omega
    exact (bind_ok rfl).trans (bodyEnd_ok h hrange name (t :: more) heading rest)

/-- The tokens of a relationship are read as that relationship. -/
theorem relationshipPattern_ok {r : RelationshipPattern}
    (h : ∀ entry ∈ r.properties, Reads sub .or entry.2) (hrange : r.range.all isRange = true)
    (hrest : rest.head? ≠ some (.symbol .greater)) :
    relationshipPattern sub (relationshipTokens r ++ rest) = .ok (r, rest) := by
  obtain ⟨name, types, heading, properties, range⟩ := r
  rw [relationshipTokens]
  simp only [List.append_assoc, List.cons_append]
  cases heading with
  | incoming =>
    refine (bind_ok eatSymbol_cons).trans ?_
    refine (bind_ok symbol_cons).trans ?_
    refine (bind_ok eatSymbol_cons).trans ?_
    refine (bind_ok (relationshipBody_ok h hrange name types _ _)).trans ?_
    refine (bind_ok symbol_cons).trans ?_
    refine (bind_ok (eatSymbol_none hrest)).trans ?_
    rfl
  | outgoing =>
    refine (bind_ok (eatSymbol_none (by nofun))).trans ?_
    refine (bind_ok symbol_cons).trans ?_
    refine (bind_ok eatSymbol_cons).trans ?_
    refine (bind_ok (relationshipBody_ok h hrange name types _ _)).trans ?_
    refine (bind_ok symbol_cons).trans ?_
    refine (bind_ok eatSymbol_cons).trans ?_
    rfl
  | undirected =>
    refine (bind_ok (eatSymbol_none (by nofun))).trans ?_
    refine (bind_ok symbol_cons).trans ?_
    refine (bind_ok eatSymbol_cons).trans ?_
    refine (bind_ok (relationshipBody_ok h hrange name types _ _)).trans ?_
    refine (bind_ok symbol_cons).trans ?_
    refine (bind_ok (eatSymbol_none hrest)).trans ?_
    rfl

/-- The tokens of a relationship after its arrow head, if it has one on the left. -/
theorem relationshipTokens_eq (r : RelationshipPattern) : ∃ more, relationshipTokens r =
    (if r.heading = .incoming then [.symbol .less] else []) ++ .symbol .dash :: more := by
  obtain ⟨name, types, heading, properties, range⟩ := r
  exact ⟨_, rfl⟩

theorem atRelationship_true (r : RelationshipPattern) (rest : List Token) :
    atRelationship (relationshipTokens r ++ rest) = .ok (true, relationshipTokens r ++ rest) := by
  obtain ⟨more, hr⟩ := relationshipTokens_eq r
  rw [hr]
  by_cases h : r.heading = .incoming
  · rw [if_pos h]
    refine (bind_ok (atSymbol_none (by nofun))).trans ?_
    exact (bind_ok atSymbol_cons).trans ((bind_ok rfl).trans rfl)
  · rw [if_neg h]
    exact bind_ok atSymbol_cons

theorem atRelationship_false (hdash : rest.head? ≠ some (.symbol .dash))
    (hless : rest.head? ≠ some (.symbol .less)) : atRelationship rest = .ok (false, rest) := by
  refine (bind_ok (atSymbol_none hdash)).trans ?_
  exact (bind_ok (atSymbol_none hless)).trans (bind_ok rfl)

/-- The properties of a relationship and a node can be read, and so can the lengths. -/
def LinkReads (sub : Reader Expr) (link : RelationshipPattern × NodePattern) : Prop :=
  (∀ entry ∈ link.1.properties, Reads sub .or entry.2) ∧ link.1.range.all isRange = true ∧
    ∀ entry ∈ link.2.properties, Reads sub .or entry.2

theorem nodeTokens_eq (n : NodePattern) : ∃ more, nodeTokens n = .symbol .leftParen :: more := by
  obtain ⟨name, labels, properties⟩ := n
  exact ⟨_, rfl⟩

theorem patternChain_ok {chain : List (RelationshipPattern × NodePattern)}
    (h : ∀ link ∈ chain, LinkReads sub link) (hdash : rest.head? ≠ some (.symbol .dash))
    (hless : rest.head? ≠ some (.symbol .less)) {n : Nat} (hn : chain.length ≤ n) :
    patternChain sub n (chainTokens chain ++ rest) = .ok (chain, rest) := by
  induction chain generalizing n with
  | nil =>
    cases n with
    | zero => rfl
    | succ n => exact bind_ok (atRelationship_false hdash hless)
  | cons link more ih =>
    obtain ⟨⟨hr, hrange, hnode⟩, hmore⟩ := List.forall_mem_cons.1 h
    cases n with
    | zero => simp at hn
    | succ n =>
      obtain ⟨r, node⟩ := link
      rw [chainTokens, List.append_assoc, List.append_assoc]
      refine (bind_ok (atRelationship_true r _)).trans ?_
      refine (bind_ok (relationshipPattern_ok hr hrange ?_)).trans ?_
      · obtain ⟨body, hbody⟩ := nodeTokens_eq node
        rw [hbody]
        nofun
      refine (bind_ok (nodePattern_ok hnode _)).trans ?_
      exact bind_ok (ih hmore (Nat.le_of_succ_le_succ hn))

theorem length_chainTokens (chain : List (RelationshipPattern × NodePattern)) :
    chain.length ≤ (chainTokens chain).length := by
  induction chain with
  | nil => exact Nat.le_refl _
  | cons link more ih =>
    obtain ⟨r, node⟩ := link
    obtain ⟨body, hbody⟩ := nodeTokens_eq node
    rw [chainTokens, hbody]
    simp only [List.length_append, List.length_cons]
    omega

/-- The tokens of a walk are read as that walk. -/
theorem patternPart_ok {part : PatternPart} (hname : part.pathName = none)
    (hstart : ∀ entry ∈ part.start.properties, Reads sub .or entry.2)
    (hchain : ∀ link ∈ part.chain, LinkReads sub link)
    (hdash : rest.head? ≠ some (.symbol .dash)) (hless : rest.head? ≠ some (.symbol .less)) :
    patternPart sub (partTokens part ++ rest) = .ok (part, rest) := by
  obtain ⟨name, start, chain⟩ := part
  obtain rfl : name = none := hname
  rw [partTokens, List.append_assoc]
  have hnode := nodePattern_ok hstart (chainTokens chain ++ rest)
  obtain ⟨body, hbody⟩ := nodeTokens_eq start
  rw [hbody, List.cons_append] at hnode ⊢
  have hpath : pathName (.symbol .leftParen :: (body ++ (chainTokens chain ++ rest))) =
      .ok (none, .symbol .leftParen :: (body ++ (chainTokens chain ++ rest))) :=
    (bind_ok rfl).trans (bind_ok rfl)
  refine (bind_ok hpath).trans ?_
  refine (bind_ok rfl).trans ?_
  refine (bind_ok hnode).trans ?_
  refine (bind_ok rfl).trans ?_
  refine bind_ok (patternChain_ok hchain hdash hless ?_)
  rw [List.length_append]
  exact Nat.le_trans (length_chainTokens chain) (Nat.le_add_right _ _)

end PropertyGraph.Expr
