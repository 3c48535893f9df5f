import PropertyGraph.Proofs.Query.Lexeme

/-!
# Texts one after the other

Any text can stand in a query: between quotes, with a backslash before each backslash and before
each quote of the kind that encloses it, it is read as one token that has the text, and what follows
is read as if it stood alone.

A line feed ends every word, number, symbol and comment, so two texts with a line feed between them
are scanned like each of them alone.  One escape looks further: `\u` takes the four characters
behind it, whatever they are, and stands for a plain `u` only where the whole text ends before that.
A text that ends so close behind a `\u` is read in another way when more text follows.

    Token.enclose             a text between quotes
    Token.scan_enclose        it is read back, and so is what follows
    Token.shortEscapes        where a text ends too close behind a `\u`
    Token.Body.append         a text between quotes, where more text follows
    Token.lexeme_append       a lexeme, where a line feed follows
    Token.scanFrom_append     the rest of a text, where a line feed follows
    Token.scan_lines          two texts with a line feed between them
-/

namespace PropertyGraph.Token

/-! ## The two quotes -/

section Quotes

variable {quote : Char}

/-- A quote is read with the text behind it. -/
theorem literal?_quote (hquote : quote = '\x27' ∨ quote = '\x22') (rest : List Char) :
    literal? quote rest =
      some ((textBody quote rest).map fun (body, rest) => (.text (String.ofList body), rest)) := by
  rcases hquote with rfl | rfl <;> rfl

theorem lexeme_quote (total : Nat) (hquote : quote = '\x27' ∨ quote = '\x22') (rest : List Char) :
    lexeme total quote rest =
      (textBody quote rest).map fun (body, rest) => (some (.text (String.ofList body)), rest) := by
  have hblank : Text.isAsciiBlank quote = false := by rcases hquote with rfl | rfl <;> rfl
  have hslash : quote ≠ '/' := by rcases hquote with rfl | rfl <;> decide
  unfold lexeme
  rw [if_neg (hblank ▸ Bool.false_ne_true)]
  split
  · exact absurd rfl hslash
  · exact absurd rfl hslash
  · rw [literal?_quote hquote, Option.some_or]
    dsimp only
    cases textBody quote rest <;> rfl

/-- A text with a backslash before each backslash and each quote. -/
def escape (quote : Char) (cs : List Char) : List Char :=
  cs.flatMap fun c => if c == '\\' || c == quote then ['\\', c] else [c]

/-- A text between quotes. -/
def enclose (quote : Char) (s : String) : String :=
  String.ofList (quote :: (escape quote s.toList ++ [quote]))

/-- An escaped text is read as it was, up to the quote behind it. -/
theorem body_escape (hquote : quote = '\x27' ∨ quote = '\x22') (cs after : List Char) :
    Body quote (escape quote cs ++ quote :: after) cs after := by
  induction cs with
  | nil => exact .close
  | cons c rest ih =>
    unfold escape
    rw [List.flatMap_cons, List.append_assoc]
    by_cases hc : c = '\\' ∨ c = quote
    · have hu : c ≠ 'u' := by rcases hc with rfl | rfl <;> rcases hquote with rfl | rfl <;> decide
      have hself : unescape c = c := by
        rcases hc with rfl | rfl <;> rcases hquote with rfl | rfl <;> rfl
      rw [if_pos (by simpa using hc)]
      have hbody := Body.escape (fun heq => absurd heq hu) ih
      rw [hself] at hbody
      exact hbody
    · rw [if_neg (by simpa using hc)]
      exact .plain (fun heq => hc (.inl heq)) (fun heq => hc (.inr heq)) ih

/-- Any text between quotes is read back, and what follows it is read as if it stood alone. -/
theorem scan_enclose (hquote : quote = '\x27' ∨ quote = '\x22') (s : String) {t : String}
    {ts : List Token} (ht : scan t = .ok ts) :
    scan (enclose quote s ++ t) = .ok (.text s :: ts) := by
  obtain ⟨total, steps, hsteps, hscan⟩ := scan_eq_ok.1 ht
  have hback : quote ≠ '\\' := by rcases hquote with rfl | rfl <;> decide
  have hlist : (enclose quote s ++ t).toList =
      quote :: (escape quote s.toList ++ quote :: t.toList) := by
    unfold enclose
    rw [String.toList_append, String.toList_ofList, List.cons_append, List.append_assoc]
    rfl
  have hlexeme : lexeme total quote (escape quote s.toList ++ quote :: t.toList) =
      .ok (some (.text s), t.toList) := by
    rw [lexeme_quote total hquote, (body_escape hquote s.toList t.toList).textBody hback]
    show Except.ok (some (Token.text (String.ofList s.toList)), t.toList) = _
    rw [String.ofList_toList]
  rw [scan_eq_ok, hlist]
  refine ⟨total, (escape quote s.toList ++ quote :: t.toList).length + 1, Nat.le_refl _, ?_⟩
  have hlength : t.toList.length ≤ (escape quote s.toList ++ quote :: t.toList).length := by
    rw [List.length_append, List.length_cons]
    omega
  exact scanFrom_cons_ok hlexeme (scanFrom_total hsteps hlength hscan)

/-- Quotes, backslashes, a line feed and what looks like an escape or a comment. -/
theorem scan_enclose_hostile :
    let s := "it\x27s \\u12 // \\\n /* \x22"
    scan (enclose '\x27' s ++ "RETURN") = .ok [.text s, .keyword .return_] :=
  scan_enclose (.inl rfl) _ rfl

end Quotes

/-! ## Escapes at the end of a text -/

/-- How many characters are left behind each `\u` of a text between quotes that has fewer than four
behind it. -/
def shortBody (quote : Char) : List Char → List Nat
  | [] => []
  | '\\' :: 'u' :: _ :: _ :: _ :: _ :: rest => shortBody quote rest
  | '\\' :: 'u' :: rest => rest.length :: shortBody quote rest
  | '\\' :: _ :: rest => shortBody quote rest
  | c :: rest => if c == quote then [] else shortBody quote rest

/-- The same for the rest of a whole text, which takes at most `steps` lexemes. -/
def shortFrom : Nat → List Char → List Nat
  | _, [] => []
  | 0, _ => []
  | steps + 1, c :: rest =>
    (if c == '\x22' || c == '\x27' then shortBody c rest else []) ++
      match lexeme 0 c rest with
      | .ok (_, after) => shortFrom steps after
      | .error _ => []

/-- How many characters are left of a text, a closing quote among them, behind each `\u` between
quotes that has fewer than four behind it. -/
def shortEscapes (text : String) : List Nat :=
  shortFrom text.toList.length text.toList

/-! ## Texts between quotes -/

variable {quote : Char} {cs body after x : List Char}

theorem shortBody_escape_cons {c : Char} {rest : List Char} (h : c = 'u' → rest.length < 4) :
    shortBody quote ('\\' :: c :: rest) =
      (if c = 'u' then [rest.length] else []) ++ shortBody quote rest := by
  by_cases hc : c = 'u'
  · subst hc
    rw [if_pos rfl, shortBody]
    · rfl
    · rintro p q r s rest' rfl
      exact absurd (h rfl) (by simp)
  · rw [if_neg hc, shortBody]
    · rfl
    · rintro p q r s rest' heq
      exact absurd heq hc
    · exact hc

theorem shortBody_cons {c : Char} {rest : List Char} (h : c ≠ '\\') :
    shortBody quote (c :: rest) = if c == quote then [] else shortBody quote rest := by
  rw [shortBody]
  · rintro p q r s rest' rfl
    exact absurd rfl h
  · rintro rest' rfl
    exact absurd rfl h
  · rintro d rest' rfl
    exact absurd rfl h

theorem shortBody_plain {c : Char} {rest : List Char} (hback : c ≠ '\\') (hquote : c ≠ quote) :
    shortBody quote (c :: rest) = shortBody quote rest :=
  (shortBody_cons hback).trans (if_neg fun heq => hquote (beq_iff_eq.1 heq))

/-- A text between quotes ends where it does, whatever follows, unless what follows gives a `\u`
four characters that it does not have. -/
theorem Body.append (h : Body quote cs body after)
    (hshort : ∀ k ∈ shortBody quote cs, k + x.length < 4) :
    Body quote (cs ++ x) body (after ++ x) := by
  induction h with
  | code hcode _ ih =>
    rw [shortBody] at hshort
    exact .code hcode (ih hshort)
  | @escape c rest body after hu _ ih =>
    rw [shortBody_escape_cons hu, List.forall_mem_append] at hshort
    refine .escape (fun hc => ?_) (ih hshort.2)
    show (rest ++ x).length < 4
    rw [List.length_append]
    exact hshort.1 _ (by rw [if_pos hc]; exact List.mem_singleton_self _)
  | plain hback hc _ ih =>
    rw [shortBody_plain hback hc] at hshort
    exact .plain hback hc (ih hshort)
  | close => exact .close

theorem Body.quote_mem (h : Body quote cs body after) : quote ∈ cs := by
  induction h with
  | @code a b c d x rest _ _ _ _ ih => exact List.mem_append_right ['\\', 'u', a, b, c, d] ih
  | @escape c rest _ _ _ _ ih => exact List.mem_append_right ['\\', c] ih
  | plain _ _ _ ih => exact List.mem_cons_of_mem _ ih
  | close => exact List.mem_cons_self

/-- A character that is no hexadecimal digit is in no hexadecimal number. -/
theorem hexNumber?_eq_none {c : Char} (hc : hexDigit? c = none) {cs : List Char} (hmem : c ∈ cs) :
    hexNumber? cs = none := by
  have hfold : ∀ n : Nat, cs.foldlM (fun n c => (hexDigit? c).map (16 * n + ·)) n = none := by
    induction cs with
    | nil => cases hmem
    | cons d rest ih =>
      intro n
      rw [List.foldlM_cons]
      rcases List.mem_cons.1 hmem with rfl | hrest
      · rw [hc]
        rfl
      · cases hexDigit? d with
        | none => rfl
        | some m => exact ih hrest _
  unfold hexNumber?
  rw [hfold]
  exact ite_self none

theorem escaped?_eq_none {c : Char} (hc : hexDigit? c = none) (hplus : c ≠ '+') {cs : List Char}
    (hmem : c ∈ cs) : escaped? cs = none := by
  unfold escaped?
  split
  · rw [hexNumber?_eq_none hc ((List.mem_cons.1 hmem).resolve_left hplus)]
    rfl
  · rw [hexNumber?_eq_none hc hmem]
    rfl

/-- A `\u` that has fewer than four characters up to the end of a text takes the closing quote for a
digit when more text follows. -/
theorem textBody_short (hquote : quote = '\x27' ∨ quote = '\x22') {rest : List Char}
    (h : Body quote rest body after) (hshort : rest.length < 4)
    (hlong : 4 ≤ rest.length + x.length) :
    ∃ code, textBody quote ('\\' :: 'u' :: (rest ++ x)) = .error (.badCodePoint code) := by
  have hfour : ∃ a b c d more, rest ++ x = a :: b :: c :: d :: more := by
    refine Classical.byContradiction fun hnot => ?_
    have hlength := length_lt_four fun a b c d more heq => hnot ⟨a, b, c, d, more, heq⟩
    rw [List.length_append] at hlength
    omega
  obtain ⟨a, b, c, d, more, hmore⟩ := hfour
  have hmem : quote ∈ [a, b, c, d] := by
    have hdigits : [a, b, c, d] <+: rest ++ x := hmore ▸ List.prefix_append [a, b, c, d] more
    have hstart : rest <+: [a, b, c, d] :=
      List.prefix_of_prefix_length_le (List.prefix_append rest x) hdigits (Nat.le_of_lt hshort)
    exact hstart.subset h.quote_mem
  refine ⟨String.ofList [a, b, c, d], ?_⟩
  have hnone : escaped? [a, b, c, d] = none :=
    escaped?_eq_none (by rcases hquote with rfl | rfl <;> rfl)
      (by rcases hquote with rfl | rfl <;> decide) hmem
  rw [hmore, textBody, hnone]

/-- So what follows such a `\u` is no text any more. -/
theorem Body.append_error (hquote : quote = '\x27' ∨ quote = '\x22')
    (h : Body quote cs body after) {k : Nat} (hk : k ∈ shortBody quote cs)
    (hlong : 4 ≤ k + x.length) :
    ∃ code, Token.textBody quote (cs ++ x) = .error (.badCodePoint code) := by
  induction h with
  | @code a b c d y rest body after hcode _ ih =>
    rw [shortBody] at hk
    obtain ⟨code, herror⟩ := ih hk
    refine ⟨code, ?_⟩
    simp only [List.cons_append]
    rw [Token.textBody, hcode, herror]
    rfl
  | @escape c rest body after hu hrest ih =>
    rw [shortBody_escape_cons hu, List.mem_append] at hk
    simp only [List.cons_append]
    by_cases hfour : c = 'u' ∧ 4 ≤ rest.length + x.length
    · obtain ⟨rfl, hfour⟩ := hfour
      exact textBody_short hquote hrest (hu rfl) hfour
    · have hu' : c = 'u' → (rest ++ x).length < 4 := by
        intro hc
        rw [List.length_append]
        exact Nat.lt_of_not_le fun hfour' => hfour ⟨hc, hfour'⟩
      have hlater : k ∈ shortBody quote rest := by
        refine hk.resolve_left fun hmem => ?_
        split at hmem
        · next hc =>
          cases List.mem_singleton.1 hmem
          exact hfour ⟨hc, hlong⟩
        · cases hmem
      obtain ⟨code, herror⟩ := ih hlater
      refine ⟨code, ?_⟩
      rw [textBody_escape_cons hu', herror]
      rfl
  | @plain c rest body after hback hc _ ih =>
    rw [shortBody_plain hback hc] at hk
    obtain ⟨code, herror⟩ := ih hk
    refine ⟨code, ?_⟩
    rw [List.cons_append, textBody_cons hback, if_neg fun heq => hc (beq_iff_eq.1 heq), herror]
    rfl
  | close =>
    rw [shortBody_cons (by rcases hquote with rfl | rfl <;> decide),
      if_pos (beq_self_eq_true quote)] at hk
    cases hk

/-! ## Lexemes before a line feed -/

section LineFeed

variable {total : Nat} {c : Char} {rest : List Char} {t : Token} {b : List Char}

/-- A run of characters ends before what does not belong to it. -/
theorem span_append {p : Char → Bool} (hp : p '\n' = false) (cs : List Char) :
    (cs ++ '\n' :: b).takeWhile p = cs.takeWhile p ∧
      (cs ++ '\n' :: b).dropWhile p = cs.dropWhile p ++ '\n' :: b := by
  have hfeed : ¬ p '\n' = true := hp ▸ Bool.false_ne_true
  induction cs with
  | nil =>
    rw [List.nil_append, List.takeWhile_cons_of_neg hfeed, List.dropWhile_cons_of_neg hfeed]
    exact ⟨rfl, rfl⟩
  | cons c rest ih =>
    rw [List.cons_append]
    by_cases hc : p c = true
    · rw [List.takeWhile_cons_of_pos hc, List.takeWhile_cons_of_pos hc,
        List.dropWhile_cons_of_pos hc, List.dropWhile_cons_of_pos hc, ih.1, ih.2]
      exact ⟨rfl, rfl⟩
    · rw [List.takeWhile_cons_of_neg hc, List.takeWhile_cons_of_neg hc,
        List.dropWhile_cons_of_neg hc, List.dropWhile_cons_of_neg hc]
      exact ⟨rfl, rfl⟩

/-- And before the first character that does not belong to it, whatever follows. -/
theorem span_append_of_cons {p : Char → Bool} {cs : List Char} {d : Char} {more : List Char}
    (h : cs.dropWhile p = d :: more) (x : List Char) :
    (cs ++ x).takeWhile p = cs.takeWhile p ∧ (cs ++ x).dropWhile p = d :: (more ++ x) := by
  have hlength : (cs.takeWhile p).length ≠ cs.length := by
    have := congrArg List.length (List.takeWhile_append_dropWhile (p := p) (l := cs))
    rw [h, List.length_append, List.length_cons] at this
    omega
  rw [List.takeWhile_append, if_neg hlength, List.dropWhile_append, h]
  exact ⟨rfl, rfl⟩

theorem afterBlock?_append {cs : List Char} (h : afterBlock? cs = some after) (x : List Char) :
    afterBlock? (cs ++ x) = some (after ++ x) := by
  fun_induction afterBlock? cs with
  | case1 rest => cases h; rfl
  | case2 c rest hnot ih =>
    have hrest : rest ≠ [] := by
      rintro rfl
      cases h
    rw [List.cons_append, afterBlock?]
    · exact ih h
    · intro more hstar hmore
      cases rest with
      | nil => exact hrest rfl
      | cons d rest => exact hnot rest hstar (congrArg (· :: rest) (List.cons.inj hmore).1)
  | case3 => cases h

theorem integer_append {digits : List Char} (h : number.integer digits rest = .ok (t, after))
    (x : List Char) : number.integer digits (rest ++ x) = .ok (t, after ++ x) := by
  unfold number.integer at h ⊢
  cases hn : Number.int64? (Number.ofDigits digits) with
  | none => rw [hn] at h; cases h
  | some n => rw [hn] at h; cases h; rfl

theorem number_append (h : number cs = .ok (t, after)) :
    number (cs ++ '\n' :: b) = .ok (t, after ++ '\n' :: b) := by
  obtain ⟨htake, hdrop⟩ := span_append (b := b) (p := Char.isDigit) rfl cs
  unfold number at h ⊢
  rw [htake, hdrop]
  dsimp only at h ⊢
  generalize cs.dropWhile Char.isDigit = more at h ⊢
  split at h
  · next d more =>
    obtain ⟨htake', hdrop'⟩ := span_append (b := b) (p := Char.isDigit) rfl (d :: more)
    simp only [List.cons_append] at htake' hdrop' ⊢
    rw [htake', hdrop']
    split at h
    · next hd =>
      cases h
      rw [if_pos hd]
    · next hd =>
      rw [if_neg hd]
      exact integer_append h _
  · next hnot =>
    split
    · next d more' heq =>
      -- a point at the very end has the line feed behind it, which is no digit
      have hfeed : d = '\n' := by
        cases more with
        | nil => cases heq
        | cons c more =>
          cases more with
          | nil => exact (List.cons.inj (List.cons.inj heq).2).1.symm
          | cons e more =>
            exact absurd (congrArg (· :: e :: more) (List.cons.inj heq).1) (hnot e more)
      rw [if_neg (by rw [hfeed]; decide), ← heq]
      exact integer_append h _
    · exact integer_append h _

/-- A character that does not come next in a text does not come next where a line feed follows. -/
theorem append_ne_cons {d : Char} (hd : d ≠ '\n') {rest : List Char}
    (h : ∀ more, rest = d :: more → False) (more : List Char) :
    rest ++ '\n' :: b = d :: more → False := by
  intro heq
  cases rest with
  | nil => exact hd (List.cons.inj heq).1.symm
  | cons e rest => exact h rest (congrArg (· :: rest) (List.cons.inj heq).1)

theorem symbol?_append {s : Symbol} (h : symbol? cs = some (s, after)) :
    symbol? (cs ++ '\n' :: b) = some (s, after ++ '\n' :: b) := by
  fun_cases symbol? cs
  case case28 => simp only [symbol?, reduceCtorEq] at h
  all_goals
    simp only [symbol?, Option.some.injEq, Prod.mk.injEq] at h
    obtain ⟨rfl, rfl⟩ := h
    simp only [List.cons_append]
    first
    | rfl
    | rw [symbol?] <;> exact append_ne_cons (by decide) ‹_›

/-- What follows a point is a digit in both texts or in neither. -/
theorem literal?_append_of_none (h : literal? c rest = none) :
    literal? c (rest ++ '\n' :: b) = none := by
  unfold literal? at h ⊢
  split at h
  · cases h
  next hquote =>
  split at h
  · cases h
  next hdigit =>
  rw [if_neg hquote, if_neg hdigit]
  split
  · next d more heq =>
    cases rest with
    | nil =>
      cases heq
      rfl
    | cons e rest =>
      cases heq
      by_cases hd : d.isDigit = true
      · exact nomatch (if_pos hd).symm.trans h
      · exact if_neg hd
  · rfl

theorem literal?_append (h : literal? c rest = some (.ok (t, after)))
    (hshort : (c == '\x22' || c == '\x27') = true →
      ∀ k ∈ shortBody c rest, k + ('\n' :: b).length < 4) :
    literal? c (rest ++ '\n' :: b) = some (.ok (t, after ++ '\n' :: b)) := by
  unfold literal? at h ⊢
  split at h
  · next hquote =>
    obtain ⟨⟨body, after'⟩, hbody, hpair⟩ := exists_ok_of_map (Option.some.inj h)
    cases hpair
    have hback : c ≠ '\\' := by
      rintro rfl
      cases hquote
    rw [if_pos hquote, ((body_of_textBody hbody).append (hshort hquote)).textBody hback]
    rfl
  next hquote =>
  rw [if_neg hquote]
  split at h
  · next hdigit =>
    rw [if_pos hdigit]
    exact congrArg some (number_append (Option.some.inj h))
  next hdigit =>
  rw [if_neg hdigit]
  split at h
  · next d more =>
    split at h
    · next hd =>
      simp only [List.cons_append, if_pos hd]
      exact congrArg some (number_append (Option.some.inj h))
    · cases h
  · cases h

/-- Whether a word starts is seen from its first character. -/
theorem word?_eq_none (h : word? total c rest = none) (total' : Nat) (rest' : List Char) :
    word? total' c rest' = none := by
  unfold word? at h ⊢
  split at h
  · dsimp only at h
    split at h <;> cases h
  next hdollar =>
  split at h
  · split at h <;> cases h
  next hback =>
  split at h
  · cases h
  · next hstart => rw [if_neg hdollar, if_neg hback, if_neg hstart]

theorem word?_append (h : word? total c rest = some (.ok (t, after))) :
    word? total c (rest ++ '\n' :: b) = some (.ok (t, after ++ '\n' :: b)) := by
  obtain ⟨htake, hdrop⟩ := span_append (b := b) (p := continuesWord) rfl rest
  unfold word? at h ⊢
  rw [htake, hdrop]
  split at h
  · next hdollar =>
    dsimp only at h ⊢
    rw [if_pos hdollar]
    split at h
    · cases h
    · next hname =>
      cases h
      rw [if_neg hname]
  next hdollar =>
  rw [if_neg hdollar]
  split at h
  · next hback =>
    rw [if_pos hback]
    split at h
    · cases h
    · next d more hmore =>
      cases h
      obtain ⟨htake', hdrop'⟩ := span_append_of_cons hmore ('\n' :: b)
      rw [htake', hdrop']
  next hback =>
  rw [if_neg hback]
  split at h
  · next hstart =>
    cases h
    rw [if_pos hstart]
  · cases h

/-- A block comment gives no token. -/
theorem lexeme_block (total : Nat) (more : List Char) : lexeme total '/' ('*' :: more) =
    (afterBlock? more).elim (.error .unterminatedComment) fun rest => .ok (none, rest) := by
  unfold lexeme
  rw [if_neg (by decide)]
  split
  · next heq => exact absurd (List.cons.inj heq).1 (by decide)
  · next heq =>
    cases heq
    cases afterBlock? more <;> rfl
  · next hnot => exact (hnot more rfl rfl).elim

/-- What is neither a blank nor a comment is a literal, a word or a symbol. -/
theorem lexeme_bare (hblank : ¬ Text.isAsciiBlank c = true)
    (hline : ∀ more, c = '/' → rest = '/' :: more → False)
    (hblock : ∀ more, c = '/' → rest = '*' :: more → False) :
    lexeme total c rest = match (literal? c rest).or (word? total c rest), symbol? (c :: rest) with
      | some result, _ => result.map fun (t, rest) => (some t, rest)
      | none, some (s, rest) => .ok (some (.symbol s), rest)
      | none, none => .error (.unexpectedCharacter c (total - (rest.length + 1))) := by
  unfold lexeme
  rw [if_neg hblank]
  split
  · exact (hline _ rfl rfl).elim
  · exact (hblock _ rfl rfl).elim
  · rfl

theorem lexeme_bare_append {o : Option Token} (h : lexeme total c rest = .ok (o, after))
    (hblank : ¬ Text.isAsciiBlank c = true)
    (hline : ∀ more, c = '/' → rest = '/' :: more → False)
    (hblock : ∀ more, c = '/' → rest = '*' :: more → False)
    (hshort : (c == '\x22' || c == '\x27') = true →
      ∀ k ∈ shortBody c rest, k + ('\n' :: b).length < 4) :
    lexeme total c (rest ++ '\n' :: b) = .ok (o, after ++ '\n' :: b) := by
  rw [lexeme_bare hblank hline hblock] at h
  rw [lexeme_bare hblank
    (fun more hc => append_ne_cons (by decide) (fun more => hline more hc) more)
    (fun more hc => append_ne_cons (by decide) (fun more => hblock more hc) more)]
  cases hliteral : literal? c rest with
  | some result =>
    rw [hliteral, Option.some_or] at h
    obtain ⟨⟨t, after'⟩, rfl, hpair⟩ := exists_ok_of_map h
    cases hpair
    rw [literal?_append hliteral hshort]
    rfl
  | none =>
    rw [hliteral, Option.none_or] at h
    rw [literal?_append_of_none hliteral, Option.none_or]
    cases hword : word? total c rest with
    | some result =>
      rw [hword] at h
      obtain ⟨⟨t, after'⟩, rfl, hpair⟩ := exists_ok_of_map h
      cases hpair
      rw [word?_append hword]
      rfl
    | none =>
      rw [hword] at h
      rw [word?_eq_none hword]
      cases hsymbol : symbol? (c :: rest) with
      | none => rw [hsymbol] at h; cases h
      | some r =>
        rw [hsymbol] at h
        cases h
        rw [← List.cons_append, symbol?_append hsymbol]

/-- A lexeme is the same before a line feed and more text, unless that text gives a `\u` four
characters. -/
theorem lexeme_append {o : Option Token} (h : lexeme total c rest = .ok (o, after))
    (hshort : (c == '\x22' || c == '\x27') = true →
      ∀ k ∈ shortBody c rest, k + ('\n' :: b).length < 4) :
    lexeme total c (rest ++ '\n' :: b) = .ok (o, after ++ '\n' :: b) := by
  by_cases hblank : Text.isAsciiBlank c = true
  · unfold lexeme at h ⊢
    rw [if_pos hblank] at h ⊢
    cases h
    rfl
  by_cases hline : ∃ more, c = '/' ∧ rest = '/' :: more
  · obtain ⟨more, rfl, rfl⟩ := hline
    cases h
    exact congrArg (fun r => Except.ok (none, r)) (span_append (p := (· != '\n')) rfl more).2
  by_cases hblock : ∃ more, c = '/' ∧ rest = '*' :: more
  · obtain ⟨more, rfl, rfl⟩ := hblock
    rw [List.cons_append]
    cases hafter : afterBlock? more with
    | none => rw [lexeme_block, hafter] at h; cases h
    | some rest =>
      rw [lexeme_block, hafter] at h
      cases h
      rw [lexeme_block, afterBlock?_append hafter]
      rfl
  exact lexeme_bare_append h hblank (fun more hc heq => hline ⟨more, hc, heq⟩)
    (fun more hc heq => hblock ⟨more, hc, heq⟩) hshort

end LineFeed

/-! ## Texts before a line feed -/

/-- A text is scanned the same before a line feed and more text, unless that text gives a `\u` four
characters. -/
theorem scanFrom_append {total total' steps steps' : Nat} {cs b : List Char} {ts ts' : List Token}
    (hsteps : cs.length ≤ steps) (h : scanFrom total steps cs = .ok ts)
    (hsteps' : ('\n' :: b).length ≤ steps') (h' : scanFrom total' steps' ('\n' :: b) = .ok ts')
    (hshort : ∀ k ∈ shortFrom steps cs, k + ('\n' :: b).length < 4) :
    scanFrom total (steps + steps') (cs ++ '\n' :: b) = .ok (ts ++ ts') := by
  induction steps generalizing cs ts with
  | zero =>
    cases List.length_eq_zero_iff.1 (Nat.le_zero.1 hsteps)
    cases h
    exact scanFrom_total hsteps' (Nat.le_trans hsteps' (Nat.le_add_left _ _)) h'
  | succ steps ih =>
    cases cs with
    | nil =>
      cases h
      exact scanFrom_total hsteps' (Nat.le_trans hsteps' (Nat.le_add_left _ _)) h'
    | cons c rest =>
      obtain ⟨o, after, more, hlexeme, hmore, rfl⟩ := scanFrom_cons h
      have hlength := (lexeme_ok hlexeme).1.length_le
      rw [shortFrom, lexeme_total 0 hlexeme, List.forall_mem_append] at hshort
      have hquote : (c == '\x22' || c == '\x27') = true →
          ∀ k ∈ shortBody c rest, k + ('\n' :: b).length < 4 := by
        intro hquote
        have := hshort.1
        rwa [if_pos hquote] at this
      have hrest := ih (Nat.le_trans hlength (Nat.le_of_succ_le_succ hsteps)) hmore hshort.2
      have hsucc : steps + 1 + steps' = (steps + steps') + 1 := Nat.add_right_comm _ _ _
      rw [hsucc, List.cons_append, List.append_assoc]
      exact scanFrom_cons_ok (lexeme_append hlexeme hquote) hrest

/-- A text between quotes becomes an error where an escape is given what follows the text. -/
theorem lexeme_append_error {total k : Nat} {c : Char} {rest after x : List Char} {o : Option Token}
    (hquote : (c == '\x22' || c == '\x27') = true) (h : lexeme total c rest = .ok (o, after))
    (hk : k ∈ shortBody c rest) (hlong : 4 ≤ k + x.length) :
    ∃ code, lexeme total c (rest ++ x) = .error (.badCodePoint code) := by
  have hc : c = '\x27' ∨ c = '\x22' :=
    (Bool.or_eq_true_iff.1 hquote).symm.imp beq_iff_eq.1 beq_iff_eq.1
  rw [lexeme_quote total hc] at h
  obtain ⟨⟨body, after'⟩, hbody, -⟩ := exists_ok_of_map h
  obtain ⟨code, herror⟩ := (body_of_textBody hbody).append_error hc hk hlong
  exact ⟨code, by rw [lexeme_quote total hc, herror]; rfl⟩

theorem scanFrom_append_error {total steps k : Nat} (steps' : Nat) {cs b : List Char}
    {ts : List Token} (h : scanFrom total steps cs = .ok ts) (hk : k ∈ shortFrom steps cs)
    (hlong : 4 ≤ k + ('\n' :: b).length) :
    ∃ code, scanFrom total (steps + steps') (cs ++ '\n' :: b) = .error (.badCodePoint code) := by
  induction steps generalizing cs ts with
  | zero => cases cs <;> cases hk
  | succ steps ih =>
    cases cs with
    | nil => cases hk
    | cons c rest =>
      obtain ⟨o, after, more, hlexeme, hmore, rfl⟩ := scanFrom_cons h
      rw [shortFrom, lexeme_total 0 hlexeme, List.mem_append] at hk
      have hsucc : steps + 1 + steps' = (steps + steps') + 1 := Nat.add_right_comm _ _ _
      rw [hsucc, List.cons_append, scanFrom]
      by_cases hhere : (c == '\x22' || c == '\x27') = true ∧
          ∃ k ∈ shortBody c rest, 4 ≤ k + ('\n' :: b).length
      · obtain ⟨hquote, k, hk, hlong⟩ := hhere
        obtain ⟨code, herror⟩ := lexeme_append_error hquote hlexeme hk hlong
        rw [herror]
        exact ⟨code, rfl⟩
      · have hlater : k ∈ shortFrom steps after := by
          refine hk.resolve_left fun hmem => ?_
          split at hmem
          · next hquote => exact hhere ⟨hquote, k, hmem, hlong⟩
          · cases hmem
        have hshort : (c == '\x22' || c == '\x27') = true →
            ∀ k ∈ shortBody c rest, k + ('\n' :: b).length < 4 := fun hquote k hk =>
          Nat.lt_of_not_le fun hlong => hhere ⟨hquote, k, hk, hlong⟩
        obtain ⟨code, herror⟩ := ih hmore hlater
        refine ⟨code, ?_⟩
        rw [lexeme_append hlexeme hshort]
        show (scanFrom total (steps + steps') (after ++ '\n' :: b)).bind _ = _
        rw [herror]
        rfl

theorem toList_lines (a b : String) : (a ++ "\n" ++ b).toList = a.toList ++ '\n' :: b.toList := by
  rw [String.toList_append, String.toList_append, List.append_assoc]
  rfl

/-- A line feed alone gives no token. -/
theorem scanFrom_feed {total steps : Nat} {cs : List Char} {ts : List Token}
    (h : scanFrom total steps cs = .ok ts) : scanFrom total (steps + 1) ('\n' :: cs) = .ok ts :=
  scanFrom_cons_ok (o := none) rfl h

/-- Two texts with a line feed between them have the tokens of the first and then those of the
second, unless the first ends so close behind a `\u` between quotes that the escape, which takes
four characters whatever they are, reaches into the second; then its code point is no number. -/
theorem scan_lines {a b : String} {ta tb : List Token} (ha : scan a = .ok ta)
    (hb : scan b = .ok tb) :
    (scan (a ++ "\n" ++ b) = .ok (ta ++ tb) ↔
      ∀ k ∈ shortEscapes a, k + b.toList.length < 3) ∧
    ((∃ k ∈ shortEscapes a, 3 ≤ k + b.toList.length) →
      ∃ code, scan (a ++ "\n" ++ b) = .error (.syntaxError (.badCodePoint code))) := by
  obtain ⟨totala, stepsa, hstepsa, hscana⟩ := scan_eq_ok.1 ha
  obtain ⟨totalb, stepsb, hstepsb, hscanb⟩ := scan_eq_ok.1 hb
  have hfeed : scanFrom totalb (stepsb + 1) ('\n' :: b.toList) = .ok tb := scanFrom_feed hscanb
  have hlast : ∀ total, scanFrom total a.toList.length a.toList = .ok ta := fun total =>
    scanFrom_total hstepsa (Nat.le_refl _) hscana
  have herror : (∃ k ∈ shortEscapes a, 3 ≤ k + b.toList.length) →
      ∃ code, scan (a ++ "\n" ++ b) = .error (.syntaxError (.badCodePoint code)) := by
    rintro ⟨k, hk, hlong⟩
    obtain ⟨code, hcode⟩ := scanFrom_append_error ('\n' :: b.toList).length
      (hlast (a.toList ++ '\n' :: b.toList).length) hk (Nat.succ_le_succ hlong)
    refine ⟨code, ?_⟩
    unfold scan
    dsimp only
    rw [toList_lines, List.length_append]
    rw [List.length_append] at hcode
    rw [hcode]
    rfl
  refine ⟨⟨fun hok k hk => Nat.lt_of_not_le fun hlong => ?_, fun hshort => ?_⟩, herror⟩
  · obtain ⟨code, hcode⟩ := herror ⟨k, hk, hlong⟩
    exact nomatch hok.symm.trans hcode
  · rw [scan_eq_ok, toList_lines]
    refine ⟨0, a.toList.length + (stepsb + 1), ?_, ?_⟩
    · rw [List.length_append, List.length_cons]
      omega
    · exact scanFrom_append (Nat.le_refl _) (hlast 0) (Nat.succ_le_succ hstepsb) hfeed
        fun k hk => Nat.succ_lt_succ (hshort k hk)

/-- A text with a code point and a comment, before one that starts with an operator. -/
theorem scan_lines_of_code_point :
    scan ("\x27\\u0041bc\x27 // c" ++ "\n" ++ "..2") =
      .ok ([.text "Abc"] ++ [.symbol .dotDot, .int 2]) := by
  have ha : scan "\x27\\u0041bc\x27 // c" = .ok [.text "Abc"] := rfl
  have hb : scan "..2" = .ok [.symbol .dotDot, .int 2] := rfl
  exact (scan_lines ha hb).1.2 (by decide)

/-- The escape takes the closing quote and the line feed behind it. -/
theorem scan_lines_of_short_escape :
    scan "\x27\\u12\x27" = .ok [.text "u12"] ∧ scan "1" = .ok [.int 1] ∧
      scan ("\x27\\u12\x27" ++ "\n" ++ "1") =
        .error (.syntaxError (.badCodePoint "12\x27\n")) :=
  ⟨rfl, rfl, rfl⟩

end PropertyGraph.Token
