import PropertyGraph.Query.Grammar

/-!
# Reading tokens

What the elementary readers do with given tokens, and lists of items with commas between them.
-/

namespace PropertyGraph.Reader

variable {α β : Type} {ts rest : List Token} {t : Token}

/-! ## One step -/

theorem bind_ok {x : Reader α} {k : α → Reader β} {a : α} (h : x ts = .ok (a, rest)) :
    (x >>= k) ts = k a rest := by
  show Except.bind (x ts) _ = _
  rw [h]
  rfl

theorem bind_error {x : Reader α} {k : α → Reader β} {e : Error} (h : x ts = .error e) :
    (x >>= k) ts = .error e := by
  show Except.bind (x ts) _ = _
  rw [h]
  rfl

theorem isSymbol_iff {s : Symbol} : t.isSymbol s = true ↔ t = .symbol s := by
  cases t <;> simp only [Token.isSymbol, beq_iff_eq, Token.symbol.injEq, reduceCtorEq,
    Bool.false_eq_true]
  exact eq_comm

theorem isKeyword_iff {k : Keyword} : t.isKeyword k = true ↔ t = .keyword k := by
  cases t <;> simp only [Token.isKeyword, beq_iff_eq, Token.keyword.injEq, reduceCtorEq,
    Bool.false_eq_true]
  exact eq_comm

theorem eat_true {test : Token → Bool} (h : test t = true) :
    eat test (t :: rest) = .ok (true, rest) := by
  show Except.ok (if test t then _ else _) = _
  rw [if_pos h]

theorem eat_false {test : Token → Bool} (h : ts.head?.any test = false) :
    eat test ts = .ok (false, ts) := by
  cases ts with
  | nil => rfl
  | cons t rest =>
    have ht : test t = false := h
    show Except.ok (if test t then _ else _) = _
    rw [ht]
    rfl

theorem eat_ok {test : Token → Bool} {b : Bool} (h : eat test ts = .ok (b, rest)) :
    (b = true ∧ ∃ t, ts = t :: rest) ∨ (b = false ∧ rest = ts) := by
  cases ts with
  | nil => cases h; exact .inr ⟨rfl, rfl⟩
  | cons t ts =>
    replace h : (if test t then (true, ts) else (false, t :: ts)) = (b, rest) := Except.ok.inj h
    split at h <;> cases h
    · exact .inl ⟨rfl, t, rfl⟩
    · exact .inr ⟨rfl, rfl⟩

section Symbols

variable {s : Symbol}

theorem any_isSymbol_eq_false (h : ts.head? ≠ some (.symbol s)) :
    ts.head?.any (·.isSymbol s) = false := by
  cases ts with
  | nil => rfl
  | cons t rest => exact Bool.eq_false_iff.2 fun ht => h (congrArg some (isSymbol_iff.1 ht))

theorem eatSymbol_cons : eatSymbol s (.symbol s :: rest) = .ok (true, rest) :=
  eat_true (isSymbol_iff.2 rfl)

theorem eatSymbol_none (h : ts.head? ≠ some (.symbol s)) : eatSymbol s ts = .ok (false, ts) :=
  eat_false (any_isSymbol_eq_false h)

theorem atSymbol_cons : atSymbol s (.symbol s :: rest) = .ok (true, .symbol s :: rest) :=
  congrArg (fun b => Except.ok (b, Token.symbol s :: rest))
    (isSymbol_iff.2 rfl : (Token.symbol s).isSymbol s = true)

theorem atSymbol_none (h : ts.head? ≠ some (.symbol s)) : atSymbol s ts = .ok (false, ts) :=
  congrArg (fun b => Except.ok (b, ts)) (any_isSymbol_eq_false h)

theorem symbol_cons : symbol s (.symbol s :: rest) = .ok ((), rest) := by
  unfold symbol
  rw [bind_ok eatSymbol_cons]
  rfl

theorem symbol_error (h : ts.head? ≠ some (.symbol s)) : ∃ e, symbol s ts = .error e := by
  unfold symbol
  rw [bind_ok (eatSymbol_none h)]
  exact ⟨_, rfl⟩

end Symbols

section Keywords

variable {k : Keyword}

theorem any_isKeyword_eq_false (h : ts.head? ≠ some (.keyword k)) :
    ts.head?.any (·.isKeyword k) = false := by
  cases ts with
  | nil => rfl
  | cons t rest => exact Bool.eq_false_iff.2 fun ht => h (congrArg some (isKeyword_iff.1 ht))

theorem eatKeyword_cons : eatKeyword k (.keyword k :: rest) = .ok (true, rest) :=
  eat_true (isKeyword_iff.2 rfl)

theorem eatKeyword_none (h : ts.head? ≠ some (.keyword k)) :
    eatKeyword k ts = .ok (false, ts) :=
  eat_false (any_isKeyword_eq_false h)

theorem atKeyword_cons : atKeyword k (.keyword k :: rest) = .ok (true, .keyword k :: rest) :=
  congrArg (fun b => Except.ok (b, Token.keyword k :: rest))
    (isKeyword_iff.2 rfl : (Token.keyword k).isKeyword k = true)

theorem atKeyword_none (h : ts.head? ≠ some (.keyword k)) : atKeyword k ts = .ok (false, ts) :=
  congrArg (fun b => Except.ok (b, ts)) (any_isKeyword_eq_false h)

theorem keyword_cons : keyword k (.keyword k :: rest) = .ok ((), rest) := by
  unfold keyword
  rw [bind_ok eatKeyword_cons]
  rfl

theorem keyword_error (h : ts.head? ≠ some (.keyword k)) : ∃ e, keyword k ts = .error e := by
  unfold keyword
  rw [bind_ok (eatKeyword_none h)]
  exact ⟨_, rfl⟩

/-- An item after a keyword. -/
theorem after_cons {item : Reader α} {a : α} (h : item ts = .ok (a, rest)) :
    after? k item (.keyword k :: ts) = .ok (some a, rest) := by
  unfold after?
  rw [bind_ok eatKeyword_cons]
  simp only [if_true]
  rw [bind_ok h]
  rfl

theorem after_none {item : Reader α} (h : ts.head? ≠ some (.keyword k)) :
    after? k item ts = .ok (none, ts) := by
  unfold after?
  rw [bind_ok (eatKeyword_none h)]
  rfl

end Keywords

/-! ## Lists -/

theorem separated_ok {item : Reader α} {write : α → List Token} {sep : Symbol} {as : List α}
    (hne : as ≠ []) (hrest : rest.head? ≠ some (.symbol sep))
    (hitem : ∀ a ∈ as, ∀ more, item (write a ++ .symbol sep :: more) =
      .ok (a, .symbol sep :: more))
    (hlast : ∀ a ∈ as, item (write a ++ rest) = .ok (a, rest)) {n : Nat} (hn : as.length ≤ n + 1) :
    separated sep item n ([Token.symbol sep].intercalate (as.map write) ++ rest) =
      .ok (as, rest) := by
  induction as generalizing n with
  | nil => exact absurd rfl hne
  | cons a more ih =>
    obtain ⟨ha, hmore⟩ := List.forall_mem_cons.1 hitem
    obtain ⟨hend, hends⟩ := List.forall_mem_cons.1 hlast
    cases more with
    | nil =>
      rw [List.map_cons, List.map_nil, List.intercalate_singleton]
      cases n with
      | zero =>
        unfold separated
        rw [bind_ok hend]
        rfl
      | succ n =>
        unfold separated
        rw [bind_ok hend, bind_ok (eatSymbol_none hrest)]
        rfl
    | cons b more =>
      cases n with
      | zero => simp at hn
      | succ n =>
        rw [List.map_cons, List.map_cons, List.intercalate_cons_cons, ← List.map_cons,
          List.append_assoc, List.append_assoc, List.singleton_append]
        unfold separated
        rw [bind_ok (ha _), bind_ok eatSymbol_cons]
        simp only [if_true]
        rw [bind_ok (ih (by simp) hmore hends (by simpa using hn))]
        rfl

theorem commaList_ok {item : Reader α} {write : α → List Token} {as : List α} (hne : as ≠ [])
    (hrest : rest.head? ≠ some (.symbol .comma))
    (hitem : ∀ a ∈ as, ∀ more, item (write a ++ .symbol .comma :: more) =
      .ok (a, .symbol .comma :: more))
    (hlast : ∀ a ∈ as, item (write a ++ rest) = .ok (a, rest)) :
    commaList item ([Token.symbol .comma].intercalate (as.map write) ++ rest) =
      .ok (as, rest) := by
  have hlength : as.length ≤
      ([Token.symbol .comma].intercalate (as.map write) ++ rest).length + 1 := by
    rw [List.length_append]
    clear hne hrest hitem hlast
    induction as with
    | nil => simp
    | cons a more ih =>
      cases more with
      | nil => simp
      | cons b more =>
        rw [List.map_cons, List.map_cons, List.intercalate_cons_cons, ← List.map_cons]
        simp only [List.length_append, List.length_cons] at ih ⊢
        omega
  unfold commaList
  exact (bind_ok rfl).trans (separated_ok hne hrest hitem hlast hlength)

end PropertyGraph.Reader
