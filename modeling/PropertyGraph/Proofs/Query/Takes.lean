import PropertyGraph.Proofs.Query.Reading
import PropertyGraph.Proofs.Query.Written

/-!
# What readers take

A reader takes what a form describes if the lexemes it has passed are a written form of its result.
There is one rule for each elementary reader, for the next step of a reader made of several, and for
lists.  In all of them the step comes first and stands before what is still to be taken, so that the
form of a reader made of steps is put together in the order of its steps.

    TakesAt, Takes    what the reader takes from some lexemes, and from any
    Takes.bind        one step and the next
    takes_name        where a name is expected, a word is read as the word respelled
-/

namespace PropertyGraph.Reader

open Form

variable {α β : Type} {V : Form α} {W : Form β} {ls : List Lexeme}

/-- What the reader takes from the front of some lexemes is a written form of its result. -/
def TakesAt (ls : List Lexeme) (r : Reader α) (V : Form α) : Prop :=
  ∀ a rest, r (ls.map Lexeme.token) = .ok (a, rest) →
    ∃ used left, ls = used ++ left ∧ rest = left.map Lexeme.token ∧ V used a

/-- What the reader takes is a written form of its result. -/
def Takes (r : Reader α) (V : Form α) : Prop :=
  ∀ ls, TakesAt ls r V

/-! ## Steps -/

theorem TakesAt.fail {cause : SyntaxError} : TakesAt ls (fail cause) V := nofun

theorem TakesAt.throw {e : Error} : TakesAt ls (throw e) V := nofun

theorem TakesAt.pure {a : α} (h : V [] a) : TakesAt ls (pure a) V := by
  rintro _ _ ⟨⟩
  exact ⟨[], ls, rfl, rfl, h⟩

theorem TakesAt.mono {r : Reader α} {U : Form α} (hr : TakesAt ls r U)
    (h : ∀ xs a, U xs a → V xs a) : TakesAt ls r V := by
  intro a rest hok
  obtain ⟨used, left, hls, hrest, ha⟩ := hr a rest hok
  exact ⟨used, left, hls, hrest, h used a ha⟩

theorem TakesAt.bind {r : Reader α} {f : α → Reader β} (hr : TakesAt ls r V)
    (hf : ∀ xs left a, ls = xs ++ left → V xs a →
      TakesAt left (f a) fun ys b => W (xs ++ ys) b) : TakesAt ls (r >>= f) W := by
  intro b rest hok
  cases hstep : r (ls.map Lexeme.token) with
  | error e => rw [bind_error hstep] at hok; cases hok
  | ok p =>
    obtain ⟨a, middle⟩ := p
    rw [bind_ok hstep] at hok
    obtain ⟨xs, left, hls, rfl, ha⟩ := hr a middle hstep
    obtain ⟨ys, left', rfl, hrest, hb⟩ := hf xs left a hls ha b rest hok
    exact ⟨xs ++ ys, left', by rw [hls, List.append_assoc], hrest, hb⟩

theorem TakesAt.pureBind {a : α} {f : α → Reader β} (hf : TakesAt ls (f a) W) :
    TakesAt ls (Pure.pure a >>= f) W :=
  hf

namespace Takes

theorem fail {cause : SyntaxError} : Takes (fail cause) V := fun _ => .fail

theorem throw {e : Error} : Takes (throw e) V := fun _ => .throw

theorem pure {a : α} (h : V [] a) : Takes (pure a) V := fun _ => .pure h

theorem mono {r : Reader α} {U : Form α} (hr : Takes r U) (h : ∀ xs a, U xs a → V xs a) :
    Takes r V :=
  fun ls => (hr ls).mono h

theorem bind {r : Reader α} {f : α → Reader β} (hr : Takes r V)
    (hf : ∀ xs a, V xs a → Takes (f a) fun ys b => W (xs ++ ys) b) : Takes (r >>= f) W :=
  fun ls => (hr ls).bind fun xs left a _ ha => hf xs a ha left

theorem pureBind {a : α} {f : α → Reader β} (hf : Takes (f a) W) : Takes (Pure.pure a >>= f) W :=
  fun ls => .pureBind (hf ls)

/-- A last step, after which nothing is taken. -/
theorem last {r : Reader α} {g : α → β} (hr : Takes r V) (h : ∀ xs a, V xs a → W xs (g a)) :
    Takes (r >>= fun a => Pure.pure (g a)) W :=
  hr.bind fun xs a ha => pure (by rw [List.append_nil]; exact h xs a ha)

end Takes

/-! ## Looking ahead -/

/-- The reader looks at the tokens and takes none. -/
def Looks (r : Reader α) : Prop :=
  ∀ ts, ∃ a, r ts = .ok (a, ts)

theorem looks_peek : Looks peek := fun _ => ⟨_, rfl⟩

theorem looks_peekSecond : Looks peekSecond := fun _ => ⟨_, rfl⟩

theorem looks_remaining : Looks remaining := fun _ => ⟨_, rfl⟩

theorem looks_atSymbol (s : Symbol) : Looks (atSymbol s) := fun _ => ⟨_, rfl⟩

theorem looks_atKeyword (k : Keyword) : Looks (atKeyword k) := fun _ => ⟨_, rfl⟩

theorem TakesAt.look {r : Reader α} {f : α → Reader β} (hr : Looks r)
    (hf : ∀ a, TakesAt ls (f a) W) : TakesAt ls (r >>= f) W := by
  intro b rest hok
  obtain ⟨a, ha⟩ := hr (ls.map Lexeme.token)
  rw [bind_ok ha] at hok
  exact hf a b rest hok

theorem Takes.look {r : Reader α} {f : α → Reader β} (hr : Looks r) (hf : ∀ a, Takes (f a) W) :
    Takes (r >>= f) W :=
  fun ls => .look hr fun a => hf a ls

theorem TakesAt.peek {f : Option Token → Reader β}
    (hf : TakesAt ls (f (ls.map Lexeme.token).head?) W) : TakesAt ls (Reader.peek >>= f) W :=
  fun b rest hok => hf b rest hok

theorem TakesAt.peekSecond {f : Option Token → Reader β}
    (hf : TakesAt ls (f (ls.map Lexeme.token).tail.head?) W) :
    TakesAt ls (Reader.peekSecond >>= f) W :=
  fun b rest hok => hf b rest hok

theorem TakesAt.remaining {f : Nat → Reader β} (hf : TakesAt ls (f ls.length) W) :
    TakesAt ls (Reader.remaining >>= f) W := by
  intro b rest hok
  rw [bind_ok (rfl : Reader.remaining (ls.map Lexeme.token) = .ok _), List.length_map] at hok
  exact hf b rest hok

theorem TakesAt.atSymbol {s : Symbol} {f : Bool → Reader β}
    (hf : TakesAt ls (f ((ls.map Lexeme.token).head?.any (·.isSymbol s))) W) :
    TakesAt ls (Reader.atSymbol s >>= f) W :=
  fun b rest hok => hf b rest hok

theorem exists_cons_of_head? {t : Token} (h : (ls.map Lexeme.token).head? = some t) :
    ∃ l left, ls = l :: left ∧ l.token = t := by
  cases ls with
  | nil => cases h
  | cons l left => exact ⟨l, left, rfl, Option.some.inj h⟩

/-- The next lexeme is dropped after it has been looked at. -/
theorem TakesAt.drop {l : Lexeme} {f : Unit → Reader β}
    (hf : TakesAt ls (f ()) fun ys b => W (l :: ys) b) : TakesAt (l :: ls) (Reader.drop 1 >>= f) W := by
  intro b rest hok
  obtain ⟨ys, left, rfl, hrest, hb⟩ := hf b rest hok
  exact ⟨l :: ys, left, rfl, hrest, hb⟩

/-- The next two lexemes are dropped after they have been looked at. -/
theorem TakesAt.drop_two {l m : Lexeme} {f : Unit → Reader β}
    (hf : TakesAt ls (f ()) fun ys b => W (l :: m :: ys) b) :
    TakesAt (l :: m :: ls) (Reader.drop 2 >>= f) W := by
  intro b rest hok
  obtain ⟨ys, left, rfl, hrest, hb⟩ := hf b rest hok
  exact ⟨l :: m :: ys, left, rfl, hrest, hb⟩

/-! ## Tokens -/

theorem takes_eat (test : Token → Bool) (t : Token) (htest : ∀ t', test t' = true → t' = t) :
    Takes (eat test) (Flag t) := by
  rintro ls b rest hok
  cases ls with
  | nil => cases hok; exact ⟨[], [], rfl, rfl, .off⟩
  | cons l left =>
    replace hok : (if test l.token then (true, left.map Lexeme.token)
      else (false, l.token :: left.map Lexeme.token)) = (b, rest) := Except.ok.inj hok
    split at hok
    · next hl => cases hok; exact ⟨[l], left, rfl, rfl, .on (htest _ hl)⟩
    · cases hok; exact ⟨[], l :: left, rfl, rfl, .off⟩

theorem takes_eatSymbol (s : Symbol) : Takes (eatSymbol s) (Flag (.symbol s)) :=
  takes_eat _ _ fun _ => isSymbol_iff.1

theorem takes_eatKeyword (k : Keyword) : Takes (eatKeyword k) (Flag (.keyword k)) :=
  takes_eat _ _ fun _ => isKeyword_iff.1

namespace Takes

/-- A branch on whether the next token is a symbol. -/
theorem ifSymbol {s : Symbol} {x y : Reader β} (hx : Takes x fun ys b => W (.symbol s :: ys) b)
    (hy : Takes y W) : Takes (eatSymbol s >>= fun b => if b = true then x else y) W := by
  refine (takes_eatSymbol s).bind fun xs b hb => ?_
  cases hb with
  | off => exact hy
  | on hl => cases Lexeme.eq_symbol hl; exact hx

/-- A branch on whether the next token is a keyword. -/
theorem ifKeyword {k : Keyword} {x y : Reader β}
    (hx : ∀ l : Lexeme, l.token = .keyword k → Takes x fun ys b => W (l :: ys) b)
    (hy : Takes y W) : Takes (eatKeyword k >>= fun b => if b = true then x else y) W := by
  refine (takes_eatKeyword k).bind fun xs b hb => ?_
  cases hb with
  | off => exact hy
  | on hl => exact hx _ hl

theorem symbol {s : Symbol} {f : Unit → Reader β}
    (hf : Takes (f ()) fun ys b => W (.symbol s :: ys) b) : Takes (symbol s >>= f) W := by
  refine bind (V := fun xs _ => xs = [.symbol s]) ?_ fun _ _ hxs => hxs ▸ hf
  unfold Reader.symbol
  refine (takes_eatSymbol s).bind fun xs b hb => ?_
  cases hb with
  | off => exact look looks_peek fun _ => fail
  | on hl => cases Lexeme.eq_symbol hl; exact pure rfl

theorem keyword {k : Keyword} {f : Unit → Reader β}
    (hf : ∀ l : Lexeme, l.token = .keyword k → Takes (f ()) fun ys b => W (l :: ys) b) :
    Takes (keyword k >>= f) W := by
  refine bind (V := fun xs _ => ∃ l, xs = [l] ∧ l.token = .keyword k) ?_ ?_
  · unfold Reader.keyword
    refine (takes_eatKeyword k).bind fun xs b hb => ?_
    cases hb with
    | off => exact look looks_peek fun _ => fail
    | on hl => exact pure ⟨_, rfl, hl⟩
  · rintro _ _ ⟨l, rfl, hl⟩
    exact hf l hl

end Takes

theorem Takes.next {f : Option Token → Reader β} (hnone : Takes (f none) W)
    (hsome : ∀ l : Lexeme, Takes (f (some l.token)) fun ys b => W (l :: ys) b) :
    Takes (next >>= f) W := by
  intro ls b rest hok
  cases ls with
  | nil => exact hnone [] b rest hok
  | cons l left =>
    obtain ⟨ys, left', rfl, hrest, hb⟩ := hsome l left b rest hok
    exact ⟨l :: ys, left', rfl, hrest, hb⟩

/-- Where a variable is expected, a word that is no keyword is read. -/
theorem takes_ident (what : String) : Takes (ident what) Ident := by
  refine .next .fail fun l => ?_
  split
  · next x hx => exact .pure (.mk (Option.some.inj hx))
  · exact .fail

/-- Where a name is expected, a word is read as the word respelled. -/
theorem takes_name (what : String) : Takes (name what) (Name Keyword.respelled) := by
  refine .next .fail fun l => ?_
  split
  · next x hx => exact .pure (.mk (Lexeme.names_of_ident (Option.some.inj hx)))
  · next k hk => exact .pure (.mk (Lexeme.names_of_keyword (Option.some.inj hk)))
  · exact .fail

/-! ## Lists -/

theorem takes_after (k : Keyword) {item : Reader α} (h : Takes item V) :
    Takes (after? k item) (After (.keyword k) V) := by
  unfold after?
  refine .ifKeyword (fun l hl => ?_) (.pure .none)
  exact h.last fun xs a ha => .some hl ha

theorem takes_separated {item : Reader α} (h : Takes item V) (steps : Nat) :
    Takes (separated .comma item steps) (Commas V) := by
  induction steps with
  | zero => exact h.last fun xs a ha => .one ha
  | succ steps ih =>
    unfold separated
    refine h.bind fun xs a ha => .ifSymbol ?_ (.pure ?_)
    · exact ih.last fun ys as has => .cons ha has
    · rw [List.append_nil]; exact .one ha

theorem takes_commaList {item : Reader α} (h : Takes item V) :
    Takes (commaList item) (Commas V) :=
  .look looks_remaining fun steps => takes_separated h steps

end PropertyGraph.Reader
