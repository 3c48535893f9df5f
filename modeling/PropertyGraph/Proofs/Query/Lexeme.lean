import PropertyGraph.Query.Token.Lexer

/-!
# Words of a text

A token no longer says how it was written: the token of a keyword is the same for each of its
spellings.  A lexeme is a token that still has its word, and a text is cut into lexemes where the
scanner cuts it into tokens.  Whether a text can be scanned does not depend on where the scanner
starts to count, and how a text between quotes is read is a relation with one case for each thing
that can stand in it.

    Keyword.respelled        the name that a word becomes where a name is expected
    Lexeme.Cut               a text is cut into lexemes
    Token.scan_eq_ok         a text is scanned if enough steps scan it
    Token.Body               how a text between quotes is read
    Lexeme.exists_of_scan    the tokens of a text are those of its lexemes
-/

namespace PropertyGraph

/-! ## Words -/

/-- A letter or an underscore, and then letters, digits and underscores. -/
def Token.IsWord (w : String) : Prop :=
  ∃ c cs, w.toList = c :: cs ∧ startsWord c = true ∧ ∀ d ∈ cs, continuesWord d = true

/-- The name that a word becomes where a name is expected: a keyword, in any case, becomes its
text, and any other word stays as it is. -/
def Keyword.respelled (w : String) : String :=
  match ofWord? w with
  | some k => k.text
  | none => w

/-- A word stays as it is if it is no keyword, or one that is spelled like its text. -/
theorem Keyword.respelled_eq_self_iff {w : String} :
    respelled w = w ↔ ∀ k, ofWord? w = some k → k.text = w := by
  unfold respelled
  split
  · next k hk =>
    rw [hk]
    exact ⟨fun h _ hk' => Option.some.inj hk' ▸ h, fun h => h k rfl⟩
  · next hk =>
    rw [hk]
    exact iff_of_true rfl nofun

/-! ## Lexemes -/

/-- A token and, if it is that of a bare word, the word. -/
inductive Lexeme where
  | word (w : String)
  | quoted (name : String)
  | parameter (name : String)
  | symbol (s : Symbol)
  | text (s : String)
  | int (n : Int64)
  | float (x : Double)

namespace Lexeme

/-- The token of a lexeme. -/
def token : Lexeme → Token
  | .word w => .ofWord w
  | .quoted name => .ident name
  | .parameter name => .parameter name
  | .symbol s => .symbol s
  | .text s => .text s
  | .int n => .int n
  | .float x => .float x

/-- Is the lexeme a bare word? -/
def isWord : Lexeme → Bool
  | .word _ => true
  | _ => false

/-- The lexeme stands for a name where a name is expected: a bare word for what `spell` makes of it,
and a name between backquotes for itself. -/
inductive Names (spell : String → String) : Lexeme → String → Prop
  | word {w x : String} (hw : spell w = x) : Names spell (.word w) x
  | quoted {x : String} : Names spell (.quoted x) x

/-- The rest of a text of `total` characters is cut into lexemes.  Words are as long as they can be,
and everything else is taken as the scanner takes it. -/
inductive Cut (total : Nat) : List Char → List Lexeme → Prop
  | nil : Cut total [] []
  | skip {c : Char} {rest after : List Char} {ls : List Lexeme}
      (hskip : Token.lexeme total c rest = .ok (none, after)) (hafter : Cut total after ls) :
      Cut total (c :: rest) ls
  | word {w : String} {after : List Char} {ls : List Lexeme} (hw : Token.IsWord w)
      (hend : ∀ c ∈ after.head?, Token.continuesWord c = false) (hafter : Cut total after ls) :
      Cut total (w.toList ++ after) (.word w :: ls)
  | other {c : Char} {rest after : List Char} {l : Lexeme} {ls : List Lexeme}
      (hc : Token.startsWord c = false) (hl : l.isWord = false)
      (hother : Token.lexeme total c rest = .ok (some l.token, after))
      (hafter : Cut total after ls) : Cut total (c :: rest) (l :: ls)

/-- The lexemes of a text. -/
def Of (text : String) (ls : List Lexeme) : Prop :=
  Cut text.toList.length text.toList ls

end Lexeme

namespace Lexeme

theorem token_word (w : String) :
    (∃ k, Keyword.ofWord? w = some k ∧ (Lexeme.word w).token = .keyword k) ∨
      (Keyword.ofWord? w = none ∧ (Lexeme.word w).token = .ident w) := by
  unfold token Token.ofWord
  dsimp only
  split
  · next k hk => exact Or.inl ⟨k, hk, rfl⟩
  · next hk => exact Or.inr ⟨hk, rfl⟩

/-- A token that is neither a name nor a keyword is that of one lexeme. -/
theorem eq_of_token {l m : Lexeme} (h : l.token = m.token) (hword : m.isWord = false)
    (hident : ∀ x, m.token ≠ .ident x) : l = m := by
  have hkeyword : ∀ k, m.token ≠ .keyword k := by
    cases m with
    | word w => cases hword
    | quoted | parameter | symbol | text | int | float => exact nofun
  cases l with
  | word w =>
    rcases token_word w with ⟨k, -, hk⟩ | ⟨-, hk⟩
    · exact absurd (h.symm.trans hk) (hkeyword k)
    · exact absurd (h.symm.trans hk) (hident w)
  | quoted x => exact absurd h.symm (hident x)
  | parameter x => cases m <;> first | cases h; rfl | cases h | cases hword
  | symbol | text | int | float => cases m <;> first | cases h; rfl | cases h | cases hword

theorem eq_symbol {l : Lexeme} {s : Symbol} (h : l.token = .symbol s) : l = .symbol s :=
  eq_of_token (m := .symbol s) h rfl nofun

/-- A name that is no keyword is a word that stays as it is. -/
theorem names_of_ident {l : Lexeme} {x : String} (h : l.token = .ident x) :
    l.Names Keyword.respelled x := by
  cases l with
  | word w =>
    rcases token_word w with ⟨k, -, hk⟩ | ⟨hw, hk⟩
    · exact nomatch hk.symm.trans h
    · obtain rfl : w = x := Token.ident.inj (hk.symm.trans h)
      have hself : Keyword.respelled w = w :=
        Keyword.respelled_eq_self_iff.2 fun k hk => by rw [hw] at hk; cases hk
      exact .word hself
  | quoted name => cases h; exact .quoted
  | symbol | parameter | text | int | float => cases h

/-- A keyword in the place of a name is a word that becomes the keyword's text. -/
theorem names_of_keyword {l : Lexeme} {k : Keyword} (h : l.token = .keyword k) :
    l.Names Keyword.respelled k.text := by
  cases l with
  | word w =>
    rcases token_word w with ⟨k', hw, hk⟩ | ⟨-, hk⟩
    · obtain rfl : k' = k := Token.keyword.inj (hk.symm.trans h)
      have htext : Keyword.respelled w = k'.text := by unfold Keyword.respelled; rw [hw]
      exact .word htext
    · exact nomatch hk.symm.trans h
  | quoted | symbol | parameter | text | int | float => cases h

end Lexeme

/-! ## One step of the scanner -/

namespace Token

theorem exists_ok_of_map {α β ε : Type} {f : α → β} {x : Except ε α} {b : β}
    (h : x.map f = .ok b) : ∃ a, x = .ok a ∧ f a = b := by
  cases x with
  | error e => cases h
  | ok a => cases h; exact ⟨a, rfl, rfl⟩

theorem afterBlock_suffix {cs after : List Char} (h : afterBlock? cs = some after) :
    after <:+ cs := by
  fun_induction afterBlock? cs with
  | case1 rest => cases h; exact ⟨['*', '/'], rfl⟩
  | case2 c rest _ ih => exact (ih h).trans (List.suffix_cons c rest)
  | case3 => cases h

theorem textBody_suffix {quote : Char} {cs body after : List Char}
    (h : textBody quote cs = .ok (body, after)) : after <:+ cs := by
  fun_induction textBody quote cs generalizing body after with
  | case1 | case2 => cases h
  | case3 a b c d rest x _ ih =>
    obtain ⟨⟨body', after'⟩, hrest, hpair⟩ := exists_ok_of_map h
    cases hpair
    exact (ih hrest).trans ⟨['\\', 'u', a, b, c, d], rfl⟩
  | case4 c rest _ ih =>
    obtain ⟨⟨body', after'⟩, hrest, hpair⟩ := exists_ok_of_map h
    cases hpair
    exact (ih hrest).trans ⟨['\\', c], rfl⟩
  | case5 c rest => cases h; exact List.suffix_cons c rest
  | case6 c rest _ _ _ ih =>
    obtain ⟨⟨body', after'⟩, hrest, hpair⟩ := exists_ok_of_map h
    cases hpair
    exact (ih hrest).trans (List.suffix_cons c rest)

theorem integer_ok {digits rest after : List Char} {t : Token}
    (h : number.integer digits rest = .ok (t, after)) : after = rest ∧ ∀ k, t ≠ .keyword k := by
  unfold number.integer at h
  generalize Number.int64? (Number.ofDigits digits) = o at h
  cases o with
  | none => cases h
  | some n => cases h; exact ⟨rfl, nofun⟩

theorem number_ok {c : Char} {rest after : List Char} {t : Token}
    (hstart : c.isDigit = true ∨ c = '.' ∧ ∃ d ∈ rest.head?, d.isDigit = true)
    (h : number (c :: rest) = .ok (t, after)) : after <:+ rest ∧ ∀ k, t ≠ .keyword k := by
  unfold number at h
  dsimp only at h
  rcases hstart with hc | ⟨rfl, d, hhead, hd⟩
  · rw [List.dropWhile_cons_of_pos hc] at h
    have hdigits := List.dropWhile_suffix (l := rest) Char.isDigit
    split at h
    · next d more hmore =>
      rw [hmore] at hdigits
      split at h
      · cases h
        exact ⟨(List.dropWhile_suffix _).trans ((List.suffix_cons _ _).trans hdigits), nofun⟩
      · exact ⟨(integer_ok h).1 ▸ hdigits, (integer_ok h).2⟩
    · exact ⟨(integer_ok h).1 ▸ hdigits, (integer_ok h).2⟩
  · obtain ⟨more, rfl⟩ := List.head?_eq_some_iff.1 hhead
    rw [List.dropWhile_cons_of_neg (by decide)] at h
    split at h
    · next heq =>
      cases heq
      rw [if_pos hd] at h
      cases h
      exact ⟨List.dropWhile_suffix _, nofun⟩
    · next hne => exact absurd rfl (hne d more)

theorem symbol_suffix {cs after : List Char} {s : Symbol} (h : symbol? cs = some (s, after)) :
    after <:+ cs.tail := by
  fun_cases symbol? cs
  case case28 => simp only [symbol?, reduceCtorEq] at h
  all_goals
    simp only [symbol?, Option.some.injEq, Prod.mk.injEq] at h
    obtain ⟨-, rfl⟩ := h
    first | exact List.suffix_rfl | exact List.suffix_cons _ _

theorem literal_ok {c : Char} {rest after : List Char} {t : Token}
    (h : literal? c rest = some (.ok (t, after))) : after <:+ rest ∧ ∀ k, t ≠ .keyword k := by
  unfold literal? at h
  split at h
  · obtain ⟨⟨body, after'⟩, hbody, hpair⟩ := exists_ok_of_map (Option.some.inj h)
    cases hpair
    exact ⟨textBody_suffix hbody, nofun⟩
  · split at h
    · next hc => exact number_ok (Or.inl hc) (Option.some.inj h)
    · split at h
      · split at h
        · next hd => exact number_ok (Or.inr ⟨rfl, _, rfl, hd⟩) (Option.some.inj h)
        · cases h
      · cases h

theorem word_ok {total : Nat} {c : Char} {rest after : List Char} {t : Token}
    (h : word? total c rest = some (.ok (t, after))) :
    after <:+ rest ∧ (startsWord c = false → ∀ k, t ≠ .keyword k) := by
  unfold word? at h
  split at h
  · dsimp only at h
    split at h
    · cases h
    · cases h; exact ⟨List.dropWhile_suffix _, fun _ => nofun⟩
  · split at h
    · split at h
      · cases h
      · next _ _ hrest =>
        cases h
        exact ⟨(List.suffix_cons _ _).trans (hrest ▸ List.dropWhile_suffix _), fun _ => nofun⟩
    · split at h
      · next hstart =>
        cases h
        exact ⟨List.dropWhile_suffix _, fun hc => absurd hstart (hc ▸ Bool.false_ne_true)⟩
      · cases h

/-- A step of the scanner takes a character or more, and gives a keyword only where a word starts. -/
theorem lexeme_ok {total : Nat} {c : Char} {rest after : List Char} {o : Option Token}
    (h : lexeme total c rest = .ok (o, after)) :
    after <:+ rest ∧ ∀ t ∈ o, startsWord c = false → ∀ k, t ≠ .keyword k := by
  unfold lexeme at h
  split at h
  · cases h; exact ⟨List.suffix_rfl, nofun⟩
  · split at h
    · cases h
      exact ⟨(List.dropWhile_suffix _).trans (List.suffix_cons _ _), nofun⟩
    · split at h
      · next hblock =>
        cases h
        exact ⟨(afterBlock_suffix hblock).trans (List.suffix_cons _ _), nofun⟩
      · cases h
    · split at h
      · next result hresult =>
        obtain ⟨⟨t, after'⟩, rfl, hpair⟩ := exists_ok_of_map h
        cases hpair
        rcases Option.or_eq_some_iff.1 hresult with hliteral | ⟨-, hword⟩
        · exact ⟨(literal_ok hliteral).1, fun _ ht _ => Option.some.inj ht ▸ (literal_ok hliteral).2⟩
        · exact ⟨(word_ok hword).1, fun _ ht => Option.some.inj ht ▸ (word_ok hword).2⟩
      · next s' rest' hsymbol =>
        cases h
        exact ⟨symbol_suffix hsymbol, fun _ ht _ => Option.some.inj ht ▸ nofun⟩
      · cases h

theorem le_toNat_of_startsWord {c : Char} (h : startsWord c = true) : 65 ≤ c.toNat := by
  rcases Bool.or_eq_true_iff.1 h with halpha | hunderscore
  · rcases Bool.or_eq_true_iff.1 halpha with hupper | hlower
    · exact UInt32.le_iff_toNat_le.1 (of_decide_eq_true hupper).1
    · exact Nat.le_trans (by decide)
        (UInt32.le_iff_toNat_le.1 (of_decide_eq_true (Bool.and_eq_true_iff.1 hlower).1))
  · cases beq_iff_eq.1 hunderscore
    decide

theorem not_isDigit_of_startsWord {c : Char} (h : startsWord c = true) : c.isDigit = false := by
  have hc := le_toNat_of_startsWord h
  simp only [Char.isDigit, Bool.and_eq_false_iff, decide_eq_false_iff_not, ge_iff_le,
    UInt32.le_iff_toNat_le]
  exact Or.inr fun hle => absurd (Nat.le_trans hc hle) (by decide)

theorem not_isAsciiBlank_of_startsWord {c : Char} (h : startsWord c = true) :
    Text.isAsciiBlank c = false := by
  have hc := le_toNat_of_startsWord h
  simp only [Text.isAsciiBlank, Bool.or_eq_false_iff, beq_eq_false_iff_ne]
  omega

theorem literal_of_startsWord {c : Char} (rest : List Char) (h : startsWord c = true) :
    literal? c rest = none := by
  unfold literal?
  have hquote : ¬ (c == '\x22' || c == '\x27') = true := by
    rw [Bool.or_eq_true, beq_iff_eq, beq_iff_eq]
    rintro (rfl | rfl) <;> exact absurd h (by decide)
  rw [if_neg hquote, if_neg (by rw [not_isDigit_of_startsWord h]; exact Bool.false_ne_true)]
  split
  · exact absurd h (by decide)
  · rfl

theorem word_of_startsWord (total : Nat) {c : Char} (rest : List Char) (h : startsWord c = true) :
    word? total c rest = some (.ok (ofWord (String.ofList (c :: rest.takeWhile continuesWord)),
      rest.dropWhile continuesWord)) := by
  unfold word?
  have hdollar : ¬ (c == '$') = true := by
    rw [beq_iff_eq]; rintro rfl; exact absurd h (by decide)
  have hquote : ¬ (c == '\x60') = true := by
    rw [beq_iff_eq]; rintro rfl; exact absurd h (by decide)
  rw [if_neg hdollar, if_neg hquote, if_pos h]

/-- What starts a word is read as a word. -/
theorem lexeme_word (total : Nat) {c : Char} (rest : List Char) (h : startsWord c = true) :
    lexeme total c rest =
      .ok (some (ofWord (String.ofList (c :: rest.takeWhile continuesWord))),
        rest.dropWhile continuesWord) := by
  unfold lexeme
  rw [if_neg (by rw [not_isAsciiBlank_of_startsWord h]; exact Bool.false_ne_true)]
  split
  · exact absurd h (by decide)
  · exact absurd h (by decide)
  · rw [literal_of_startsWord rest h, word_of_startsWord total rest h]
    rfl

theorem scanFrom_cons {total steps : Nat} {c : Char} {rest : List Char} {ts : List Token}
    (h : scanFrom total (steps + 1) (c :: rest) = .ok ts) : ∃ o after more,
      lexeme total c rest = .ok (o, after) ∧ scanFrom total steps after = .ok more ∧
        ts = o.toList ++ more := by
  unfold scanFrom at h
  cases hlexeme : lexeme total c rest with
  | error e => rw [hlexeme] at h; cases h
  | ok p =>
    rw [hlexeme] at h
    replace h : (scanFrom total steps p.2).bind _ = .ok ts := h
    cases hmore : scanFrom total steps p.2 with
    | error e => rw [hmore] at h; cases h
    | ok more =>
      rw [hmore] at h
      cases h
      exact ⟨p.1, p.2, more, rfl, hmore, rfl⟩

theorem scanFrom_cons_ok {total steps : Nat} {c : Char} {rest after : List Char}
    {o : Option Token} {more : List Token} (hlexeme : lexeme total c rest = .ok (o, after))
    (hmore : scanFrom total steps after = .ok more) :
    scanFrom total (steps + 1) (c :: rest) = .ok (o.toList ++ more) := by
  unfold scanFrom
  rw [hlexeme]
  show (scanFrom total steps after).bind _ = _
  rw [hmore]
  rfl

/-! ## Success of the scanner -/

/-- A word is read alike whatever length the messages count from, or is no word in either case. -/
theorem word_total (total total' : Nat) (c : Char) (rest : List Char) :
    (∃ e e', word? total c rest = some (.error e) ∧ word? total' c rest = some (.error e')) ∨
      word? total c rest = word? total' c rest := by
  unfold word?
  split
  · dsimp only
    split
    · exact .inl ⟨_, _, rfl, rfl⟩
    · exact .inr rfl
  · exact .inr rfl

theorem lexeme_total {total : Nat} (total' : Nat) {c : Char} {rest : List Char}
    {r : Option Token × List Char} (h : lexeme total c rest = .ok r) :
    lexeme total' c rest = .ok r := by
  unfold lexeme at h ⊢
  by_cases hblank : Text.isAsciiBlank c = true
  · rw [if_pos hblank] at h ⊢
    exact h
  rw [if_neg hblank] at h ⊢
  split at h
  · exact h
  · exact h
  · dsimp only at h ⊢
    rcases word_total total total' c rest with ⟨e, e', he, he'⟩ | heq
    · cases hliteral : literal? c rest with
      | some result => rw [hliteral] at h; exact h
      | none => rw [hliteral, he] at h; cases h
    · rw [← heq]
      split at h
      · exact h
      · exact h
      · cases h

/-- Nor does the number of steps, where there are enough. -/
theorem scanFrom_total {total total' steps steps' : Nat} {cs : List Char} {ts : List Token}
    (hsteps : cs.length ≤ steps) (hsteps' : cs.length ≤ steps')
    (h : scanFrom total steps cs = .ok ts) : scanFrom total' steps' cs = .ok ts := by
  induction steps generalizing steps' cs ts with
  | zero =>
    cases List.length_eq_zero_iff.1 (Nat.le_zero.1 hsteps)
    unfold scanFrom at h ⊢
    exact h
  | succ steps ih =>
    cases cs with
    | nil => unfold scanFrom at h ⊢; exact h
    | cons c rest =>
      obtain ⟨o, after, more, hlexeme, hmore, rfl⟩ := scanFrom_cons h
      obtain ⟨n, rfl⟩ := Nat.exists_eq_add_one.2 (Nat.lt_of_lt_of_le (Nat.succ_pos _) hsteps')
      have hlength := (lexeme_ok hlexeme).1.length_le
      exact scanFrom_cons_ok (lexeme_total total' hlexeme)
        (ih (Nat.le_trans hlength (Nat.le_of_succ_le_succ hsteps))
          (Nat.le_trans hlength (Nat.le_of_succ_le_succ hsteps')) hmore)

theorem scan_eq_ok {text : String} {ts : List Token} : scan text = .ok ts ↔
    ∃ total steps, text.toList.length ≤ steps ∧ scanFrom total steps text.toList = .ok ts := by
  unfold scan
  dsimp only
  constructor
  · intro h
    cases hscan : scanFrom text.toList.length text.toList.length text.toList with
    | error e => rw [hscan] at h; cases h
    | ok ts' => rw [hscan] at h; cases h; exact ⟨_, _, Nat.le_refl _, hscan⟩
  · rintro ⟨total, steps, hsteps, h⟩
    rw [scanFrom_total hsteps (Nat.le_refl _) h]
    rfl

/-! ## Texts between quotes -/

/-- A text up to its closing quote is read as `body`, and `after` is left.  A `u` behind a backslash
is a character of its own only where fewer than four characters are left. -/
inductive Body (quote : Char) : List Char → List Char → List Char → Prop
  | code {a b c d x : Char} {rest body after : List Char} (hcode : escaped? [a, b, c, d] = some x)
      (hrest : Body quote rest body after) :
      Body quote ('\\' :: 'u' :: a :: b :: c :: d :: rest) (x :: body) after
  | escape {c : Char} {rest body after : List Char} (hu : c = 'u' → rest.length < 4)
      (hrest : Body quote rest body after) :
      Body quote ('\\' :: c :: rest) (unescape c :: body) after
  | plain {c : Char} {rest body after : List Char} (hback : c ≠ '\\') (hquote : c ≠ quote)
      (hrest : Body quote rest body after) : Body quote (c :: rest) (c :: body) after
  | close {after : List Char} : Body quote (quote :: after) [] after

section Body

variable {quote : Char} {cs body after : List Char}

theorem length_lt_four {cs : List Char} (h : ∀ a b c d rest, cs ≠ a :: b :: c :: d :: rest) :
    cs.length < 4 := by
  match cs, h with
  | [], _ | [_], _ | [_, _], _ | [_, _, _], _ => simp
  | a :: b :: c :: d :: rest, h => exact absurd rfl (h a b c d rest)

/-- What stands behind a backslash and is not the start of a code point. -/
theorem textBody_escape_cons {c : Char} {rest : List Char} (h : c = 'u' → rest.length < 4) :
    textBody quote ('\\' :: c :: rest) =
      (textBody quote rest).map fun (body, rest) => (unescape c :: body, rest) := by
  rw [textBody]
  rintro p q r s rest' rfl rfl
  exact absurd (h rfl) (by simp)

/-- What stands behind no backslash. -/
theorem textBody_cons {c : Char} {rest : List Char} (h : c ≠ '\\') :
    textBody quote (c :: rest) = if c == quote then .ok ([], rest)
      else (textBody quote rest).map fun (body, rest) => (c :: body, rest) := by
  rw [textBody]
  · rintro p q r s rest' rfl
    exact absurd rfl h
  · rintro d rest' rfl
    exact absurd rfl h

theorem body_of_textBody (h : textBody quote cs = .ok (body, after)) :
    Body quote cs body after := by
  fun_induction textBody quote cs generalizing body after with
  | case1 | case2 => cases h
  | case3 a b c d rest x hx ih =>
    obtain ⟨⟨body', after'⟩, hrest, hpair⟩ := exists_ok_of_map h
    cases hpair
    exact .code hx (ih hrest)
  | case4 c rest hnot ih =>
    obtain ⟨⟨body', after'⟩, hrest, hpair⟩ := exists_ok_of_map h
    cases hpair
    have hu : c = 'u' → rest.length < 4 := fun hc =>
      length_lt_four fun p q r s rest' => hnot p q r s rest' hc
    exact .escape hu (ih hrest)
  | case5 c rest _ _ hc =>
    cases h
    exact beq_iff_eq.1 hc ▸ .close
  | case6 c rest _ hescape hc ih =>
    obtain ⟨⟨body', after'⟩, hrest, hpair⟩ := exists_ok_of_map h
    cases hpair
    -- a backslash at the very end is no escape, but no closing quote is left behind it
    have hback : c ≠ '\\' := by
      intro heq
      cases rest with
      | nil => cases hrest
      | cons d rest => exact hescape d rest heq rfl
    exact .plain hback (fun heq => hc (beq_iff_eq.2 heq)) (ih hrest)

theorem Body.textBody (hquote : quote ≠ '\\') (h : Body quote cs body after) :
    textBody quote cs = .ok (body, after) := by
  induction h with
  | code hcode _ ih =>
    rw [Token.textBody, hcode, ih]
    rfl
  | escape hu _ ih =>
    rw [textBody_escape_cons hu, ih]
    rfl
  | @plain c rest body after hback hc _ ih =>
    have hne : ¬ (c == quote) = true := fun heq => hc (beq_iff_eq.1 heq)
    rw [textBody_cons hback, if_neg hne, ih]
    rfl
  | close => rw [textBody_cons hquote, if_pos (beq_self_eq_true quote)]

end Body

end Token

/-! ## Texts -/

namespace Lexeme

/-- The lexeme of a token that is no word. -/
theorem exists_of_token {t : Token} (h : ∀ k, t ≠ .keyword k) :
    ∃ l : Lexeme, l.isWord = false ∧ l.token = t := by
  cases t with
  | keyword k => exact absurd rfl (h k)
  | symbol s => exact ⟨.symbol s, rfl, rfl⟩
  | parameter name => exact ⟨.parameter name, rfl, rfl⟩
  | ident name => exact ⟨.quoted name, rfl, rfl⟩
  | text s => exact ⟨.text s, rfl, rfl⟩
  | int n => exact ⟨.int n, rfl, rfl⟩
  | float x => exact ⟨.float x, rfl, rfl⟩

/-- A word as the scanner takes it. -/
theorem cut_word {total : Nat} {c : Char} {rest : List Char} {ls : List Lexeme}
    (hc : Token.startsWord c = true) (h : Cut total (rest.dropWhile Token.continuesWord) ls) :
    Cut total (c :: rest)
      (.word (String.ofList (c :: rest.takeWhile Token.continuesWord)) :: ls) := by
  have hw : Token.IsWord (String.ofList (c :: rest.takeWhile Token.continuesWord)) :=
    ⟨c, _, String.toList_ofList, hc, List.all_eq_true.1 List.all_takeWhile⟩
  have hend : ∀ d ∈ (rest.dropWhile Token.continuesWord).head?, Token.continuesWord d = false := by
    intro d hd
    have hnot := List.head?_dropWhile_not Token.continuesWord rest
    rw [hd] at hnot
    exact hnot
  have hcut := Cut.word hw hend h
  rwa [String.toList_ofList, List.cons_append, List.takeWhile_append_dropWhile] at hcut

/-- The tokens that are left of a text are those of its lexemes. -/
theorem exists_cut {total steps : Nat} {cs : List Char} {ts : List Token}
    (hsteps : cs.length ≤ steps) (h : Token.scanFrom total steps cs = .ok ts) :
    ∃ ls, Cut total cs ls ∧ ts = ls.map token := by
  induction steps generalizing cs ts with
  | zero =>
    cases List.length_eq_zero_iff.1 (Nat.le_zero.1 hsteps)
    cases h
    exact ⟨[], .nil, rfl⟩
  | succ steps ih =>
    cases cs with
    | nil => cases h; exact ⟨[], .nil, rfl⟩
    | cons c rest =>
      obtain ⟨o, after, more, hlexeme, hmore, rfl⟩ := Token.scanFrom_cons h
      obtain ⟨hsuffix, hkeyword⟩ := Token.lexeme_ok hlexeme
      obtain ⟨ls, hcut, rfl⟩ :=
        ih (Nat.le_trans hsuffix.length_le (Nat.le_of_succ_le_succ hsteps)) hmore
      cases hc : Token.startsWord c with
      | true =>
        rw [Token.lexeme_word total rest hc] at hlexeme
        cases hlexeme
        exact ⟨_, cut_word hc hcut, rfl⟩
      | false =>
        cases o with
        | none => exact ⟨ls, .skip hlexeme hcut, rfl⟩
        | some t =>
          obtain ⟨l, hl, rfl⟩ := exists_of_token (hkeyword t rfl hc)
          exact ⟨l :: ls, .other hc hl hlexeme hcut, rfl⟩

/-- The tokens of a text are those of its lexemes. -/
theorem exists_of_scan {text : String} {ts : List Token} (h : Token.scan text = .ok ts) :
    ∃ ls, Of text ls ∧ ts = ls.map token := by
  unfold Token.scan at h
  dsimp only at h
  cases hscan : Token.scanFrom text.toList.length text.toList.length text.toList with
  | error e => rw [hscan] at h; cases h
  | ok ts' =>
    rw [hscan] at h
    cases h
    exact exists_cut (Nat.le_refl _) hscan

end Lexeme

end PropertyGraph
