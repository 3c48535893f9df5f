import PropertyGraph.Proofs.Query.Descent
import PropertyGraph.Proofs.Query.Reading

/-!
# Readings that end

A descent is compared with a reader on all lists of fewer than `n` tokens: within any limit above
the number of tokens it has an outcome, and that is the outcome of the reader; if the reader
succeeds it takes at least `k` tokens.  Once a token is taken the bound falls by one, so that a
reading inside another one is only asked for fewer tokens; loops are compared with as many steps as
there are tokens left.  There is one rule for each elementary reader, for the next step, and for
lists.

    Ends                 a descent has the outcome of a reader
    Ends.first           a first step that takes a token, and what follows it
    Ends.remaining       as many steps as there are tokens left
    rounds_induction     one step and one round less
    ends_commaList       items with commas between them
-/

namespace PropertyGraph.Descent

variable {α β : Type} {n n' j k k' : Nat} {bound : Nat} {ts rest : List Token}

/-- From these tokens and within this limit, the descent has the outcome of the reader; if it
succeeds, at least `k` tokens are taken. -/
structure EndsAt (bound : Nat) (ts : List Token) (k : Nat) (m : Descent α) (r : Reader α) :
    Prop where
  ends : m bound ts = some (r ts)
  takes : ∀ a rest, r ts = .ok (a, rest) → rest.length + k ≤ ts.length

/-- The descent ends so from any fewer than `n` tokens, if they are fewer than the limit. -/
def Ends (n k : Nat) (m : Descent α) (r : Reader α) : Prop :=
  ∀ bound ts, ts.length < n → ts.length < bound → EndsAt bound ts k m r

/-! ## Steps -/

theorem bind_some_ok {m : Descent α} {f : α → Descent β} {a : α}
    (h : m bound ts = some (.ok (a, rest))) : (m >>= f) bound ts = f a bound rest := by
  show ExceptT.bind (m bound ts) _ = _
  rw [h]
  rfl

theorem bind_some_error {m : Descent α} {f : α → Descent β} {e : Error}
    (h : m bound ts = some (.error e)) : (m >>= f) bound ts = some (.error e) := by
  show ExceptT.bind (m bound ts) _ = _
  rw [h]
  rfl

namespace EndsAt

/-- A descent that takes nothing. -/
theorem done {m : Descent α} {a : α} (h : m bound ts = some (.ok (a, ts))) :
    EndsAt bound ts 0 m (Pure.pure a) :=
  ⟨h, by rintro _ _ ⟨⟩; exact Nat.le_refl _⟩

theorem pure {a : α} : EndsAt bound ts 0 (Pure.pure a) (Pure.pure a) :=
  done rfl

theorem fail {cause : SyntaxError} :
    EndsAt (α := α) bound ts k (liftM (Reader.fail (α := α) cause)) (Reader.fail cause) :=
  ⟨rfl, nofun⟩

theorem throw {e : Error} :
    EndsAt (α := α) bound ts k (MonadExcept.throw e) (MonadExcept.throw e) :=
  ⟨rfl, nofun⟩

section Bind

variable {m : Descent α} {r : Reader α} {f : α → Descent β} {g : α → Reader β}

theorem bind (h : EndsAt bound ts j m r)
    (hf : ∀ a rest, rest.length + j ≤ ts.length → EndsAt bound rest (k - j) (f a) (g a)) :
    EndsAt bound ts k (m >>= f) (r >>= g) := by
  have hends := h.ends
  cases hr : r ts with
  | error e =>
    rw [hr] at hends
    have herror := Reader.bind_error (k := g) hr
    refine ⟨by rw [bind_some_error hends, herror], fun b rest hok => ?_⟩
    exact nomatch herror.symm.trans hok
  | ok p =>
    obtain ⟨a, rest⟩ := p
    rw [hr] at hends
    have hok := Reader.bind_ok (k := g) hr
    have hle := h.takes a rest hr
    have hnext := hf a rest hle
    refine ⟨by rw [bind_some_ok hends, hok, hnext.ends], fun b rest' hb => ?_⟩
    have := hnext.takes b rest' (hok ▸ hb)
    omega

/-- A first step whose outcome is known. -/
theorem step {a : α} (hm : m bound ts = some (r ts)) (hr : r ts = .ok (a, rest))
    (hj : rest.length + j ≤ ts.length) (h : EndsAt bound rest (k - j) (f a) (g a)) :
    EndsAt bound ts k (m >>= f) (r >>= g) := by
  rw [hr] at hm
  have hok := Reader.bind_ok (k := g) hr
  refine ⟨by rw [bind_some_ok hm, hok, h.ends], fun b rest' hb => ?_⟩
  have := h.takes b rest' (hok ▸ hb)
  omega

/-- A first step that takes nothing. -/
theorem look {a : α} (hr : r ts = .ok (a, ts)) (h : EndsAt bound ts k (f a) (g a)) :
    EndsAt bound ts k (liftM r >>= f) (r >>= g) :=
  step (j := 0) rfl hr (Nat.le_refl _) h

/-- A loop of as many steps as there are tokens left, and what follows it. -/
theorem loop {m : Nat → Descent α} {r : Nat → Reader α}
    (h : EndsAt bound ts j (m bound) (r ts.length))
    (hf : ∀ a rest, rest.length + j ≤ ts.length → EndsAt bound rest (k - j) (f a) (g a)) :
    EndsAt bound ts k (limit >>= fun rounds => m rounds >>= f)
      (Reader.remaining >>= fun steps => r steps >>= g) := by
  have hbind := h.bind hf
  exact ⟨hbind.ends, hbind.takes⟩

end Bind

variable {t : Token} {f : Unit → Descent β} {g : Unit → Reader β}

/-- The next token is dropped after it has been looked at. -/
theorem drop (h : EndsAt bound ts (k - 1) (f ()) (g ())) :
    EndsAt bound (t :: ts) k (liftM (Reader.drop 1) >>= f) (Reader.drop 1 >>= g) :=
  step rfl rfl (Nat.le_refl _) h

end EndsAt

namespace Ends

theorem takes {m : Descent α} {r : Reader α} (h : Ends n k m r) (hts : ts.length < n) (a : α)
    (rest : List Token) (hok : r ts = .ok (a, rest)) : rest.length + k ≤ ts.length :=
  (h (ts.length + 1) ts hts (Nat.lt_succ_self _)).takes a rest hok

theorem mono {m : Descent α} {r : Reader α} (h : Ends n k m r) (hn : n' ≤ n) (hk : k' ≤ k) :
    Ends n' k' m r := by
  intro bound ts hts hbound
  have hat := h bound ts (Nat.lt_of_lt_of_le hts hn) hbound
  refine ⟨hat.ends, fun a rest hok => ?_⟩
  exact Nat.le_trans (Nat.add_le_add_left hk _) (hat.takes a rest hok)

theorem fewer {m : Descent α} {r : Reader α} (h : Ends (n + 1) k m r) : Ends n k m r :=
  h.mono (Nat.le_succ n) (Nat.le_refl k)

theorem weaken {m : Descent α} {r : Reader α} (h : Ends n k m r) : Ends n 0 m r :=
  h.mono (Nat.le_refl n) (Nat.zero_le k)

/-- The least bound, under which there is no token. -/
theorem one {m : Descent α} {r : Reader α} (h : ∀ bound, 0 < bound → EndsAt bound [] k m r) :
    Ends 1 k m r := by
  intro bound ts hts hbound
  obtain rfl := List.eq_nil_of_length_eq_zero (Nat.lt_one_iff.1 hts)
  exact h bound hbound

/-- Without tokens only the outcomes there are compared. -/
theorem nil {m m' : Descent α} {r r' : Reader α} (h : Ends (n + 1) k m r)
    (hm : ∀ bound, m' bound [] = m bound []) (hr : r' [] = r []) : Ends 1 k m' r' := by
  refine .one fun bound hbound => ?_
  have hat := h bound [] (Nat.succ_pos n) hbound
  exact ⟨by rw [hm, hr, hat.ends], fun a rest hok => hat.takes a rest (hr ▸ hok)⟩

theorem pure {a : α} : Ends n 0 (Pure.pure a) (Pure.pure a) := fun _ _ _ _ => .pure

theorem fail {cause : SyntaxError} :
    Ends (α := α) n k (liftM (Reader.fail (α := α) cause)) (Reader.fail cause) :=
  fun _ _ _ _ => .fail

theorem throw {e : Error} : Ends (α := α) n k (MonadExcept.throw e) (MonadExcept.throw e) :=
  fun _ _ _ _ => .throw

/-- A reader as a step. -/
theorem lift {r : Reader α}
    (h : ∀ ts a rest, r ts = .ok (a, rest) → rest.length + k ≤ ts.length) :
    Ends n k (liftM r) r :=
  fun _ ts _ _ => ⟨rfl, h ts⟩

theorem liftPure {a : α} : Ends n 0 (liftM (Pure.pure a : Reader α)) (Pure.pure a) :=
  fun _ _ _ _ => .done rfl

section Bind

variable {m : Descent α} {r : Reader α} {f : α → Descent β} {g : α → Reader β}

theorem bind (h : Ends n j m r) (hf : ∀ a, Ends n (k - j) (f a) (g a)) :
    Ends n k (m >>= f) (r >>= g) :=
  fun bound ts hts hbound => (h bound ts hts hbound).bind fun a rest hrest =>
    hf a bound rest (by omega) (by omega)

theorem liftBind (h : Ends n 0 (liftM r) r) (hg : ∀ a, Ends n 0 (liftM (g a)) (g a)) :
    Ends n 0 (liftM (r >>= g)) (r >>= g) :=
  fun bound ts hts hbound => ⟨rfl, (h.bind hg bound ts hts hbound).takes⟩

/-- After a step that takes a token there are fewer left. -/
theorem first (h : Ends (n + 1) 1 m r) (hf : ∀ a, Ends n (k - 1) (f a) (g a)) :
    Ends (n + 1) k (m >>= f) (r >>= g) :=
  fun bound ts hts hbound => (h bound ts hts hbound).bind fun a rest hrest =>
    hf a bound rest (by omega) (by omega)

/-- A last step, after which nothing is taken. -/
theorem last (h : Ends n k m r) {c : α → β} :
    Ends n k (m >>= fun a => Pure.pure (c a)) (r >>= fun a => Pure.pure (c a)) :=
  fun bound ts hts hbound => (h bound ts hts hbound).bind fun _ _ _ => by
    rw [Nat.sub_self]
    exact .pure

section Loops

variable {m : Nat → Descent α} {r : Nat → Reader α}

/-- A loop goes on for as many steps as there are tokens left, and does not need more rounds. -/
theorem remaining (h : ∀ steps rounds, steps < rounds → steps < n →
    Ends (steps + 1) k (m rounds) (r steps)) :
    Ends n k (limit >>= m) (Reader.remaining >>= r) := by
  intro bound ts hts hbound
  have hat := h ts.length bound hbound hts bound ts (Nat.lt_succ_self _) hbound
  exact ⟨hat.ends, hat.takes⟩

/-- A loop and what follows it. -/
theorem loop (h : ∀ steps rounds, steps < rounds → steps < n →
      Ends (steps + 1) j (m rounds) (r steps))
    (hf : ∀ a, Ends n (k - j) (f a) (g a)) :
    Ends n k (limit >>= fun rounds => m rounds >>= f)
      (Reader.remaining >>= fun steps => r steps >>= g) :=
  fun bound ts hts hbound =>
    (h ts.length bound hbound hts bound ts (Nat.lt_succ_self _) hbound).loop fun a rest hrest =>
      hf a bound rest (by omega) (by omega)

end Loops

end Bind

/-! ## Tokens -/

theorem peek : Ends n 0 (liftM Reader.peek) Reader.peek :=
  lift fun _ _ _ hok => by cases hok; exact Nat.le_refl _

theorem peekSecond : Ends n 0 (liftM Reader.peekSecond) Reader.peekSecond :=
  lift fun _ _ _ hok => by cases hok; exact Nat.le_refl _

theorem drop {count : Nat} : Ends n 0 (liftM (Reader.drop count)) (Reader.drop count) :=
  lift fun _ _ _ hok => by cases hok; exact (List.drop_sublist _ _).length_le

theorem atSymbol {s : Symbol} : Ends n 0 (liftM (Reader.atSymbol s)) (Reader.atSymbol s) :=
  lift fun _ _ _ hok => by cases hok; exact Nat.le_refl _

theorem atKeyword {w : Keyword} : Ends n 0 (liftM (Reader.atKeyword w)) (Reader.atKeyword w) :=
  lift fun _ _ _ hok => by cases hok; exact Nat.le_refl _

theorem next : Ends n 0 (liftM Reader.next) Reader.next :=
  lift fun ts _ _ hok => by cases hok; exact (List.tail_sublist ts).length_le

theorem eat {test : Token → Bool} : Ends n 0 (liftM (Reader.eat test)) (Reader.eat test) := by
  refine lift fun ts b rest hok => ?_
  rcases Reader.eat_ok hok with ⟨-, t, rfl⟩ | ⟨-, rfl⟩
  · exact Nat.le_succ _
  · exact Nat.le_refl _

/-- A token that has been looked at is dropped. -/
theorem seen {t : Token} {m : Descent α} {r : Reader α} (h : Ends n (k - 1) m r)
    (hts : ts.length < n + 1) (hbound : ts.length < bound) (hhead : ts.head? = some t) :
    EndsAt bound ts k (liftM (Reader.drop 1) >>= fun _ => m) (Reader.drop 1 >>= fun _ => r) := by
  obtain ⟨rest, rfl⟩ := List.head?_eq_some_iff.1 hhead
  exact .drop (h bound rest (Nat.lt_of_succ_lt_succ hts) (Nat.lt_of_succ_lt hbound))

section Branches

variable {x y : Descent β} {x' y' : Reader β}

/-- A branch on whether the next token passes a test; it is taken if it does. -/
theorem ifEat {test : Token → Bool} (hx : Ends n (k - 1) x x') (hy : Ends (n + 1) k y y') :
    Ends (n + 1) k (liftM (Reader.eat test) >>= fun b => if b = true then x else y)
      (Reader.eat test >>= fun b => if b = true then x' else y') := by
  intro bound ts hts hbound
  by_cases hhead : ts.head?.any test = true
  · cases ts with
    | nil => cases hhead
    | cons t rest =>
      have hrest := hx bound rest (Nat.lt_of_succ_lt_succ hts) (Nat.lt_of_succ_lt hbound)
      exact .step rfl (Reader.eat_true hhead) (Nat.le_refl _) hrest
  · exact .look (Reader.eat_false (Bool.not_eq_true _ ▸ hhead)) (hy bound ts hts hbound)

theorem ifSymbol {s : Symbol} (hx : Ends n (k - 1) x x') (hy : Ends (n + 1) k y y') :
    Ends (n + 1) k (liftM (Reader.eatSymbol s) >>= fun b => if b = true then x else y)
      (Reader.eatSymbol s >>= fun b => if b = true then x' else y') :=
  ifEat hx hy

theorem ifKeyword {w : Keyword} (hx : Ends n (k - 1) x x') (hy : Ends (n + 1) k y y') :
    Ends (n + 1) k (liftM (Reader.eatKeyword w) >>= fun b => if b = true then x else y)
      (Reader.eatKeyword w >>= fun b => if b = true then x' else y') :=
  ifEat hx hy

end Branches

theorem symbol {s : Symbol} : Ends n 1 (liftM (Reader.symbol s)) (Reader.symbol s) := by
  refine lift fun ts a rest hok => ?_
  by_cases hhead : ts.head? = some (.symbol s)
  · obtain ⟨left, rfl⟩ := List.head?_eq_some_iff.1 hhead
    cases Reader.symbol_cons.symm.trans hok
    exact Nat.le_refl _
  · obtain ⟨e, he⟩ := Reader.symbol_error hhead
    exact nomatch he.symm.trans hok

theorem keyword {w : Keyword} : Ends n 1 (liftM (Reader.keyword w)) (Reader.keyword w) := by
  refine lift fun ts a rest hok => ?_
  by_cases hhead : ts.head? = some (.keyword w)
  · obtain ⟨left, rfl⟩ := List.head?_eq_some_iff.1 hhead
    cases Reader.keyword_cons.symm.trans hok
    exact Nat.le_refl _
  · obtain ⟨e, he⟩ := Reader.keyword_error hhead
    exact nomatch he.symm.trans hok

theorem ident {what : String} : Ends n 1 (liftM (Reader.ident what)) (Reader.ident what) := by
  refine lift fun ts a rest hok => ?_
  cases ts with
  | nil => cases hok
  | cons t ts => cases t <;> cases hok; exact Nat.le_refl _

theorem name {what : String} : Ends n 1 (liftM (Reader.name what)) (Reader.name what) := by
  refine lift fun ts a rest hok => ?_
  cases ts with
  | nil => cases hok
  | cons t ts => cases t <;> cases hok <;> exact Nat.le_refl _

end Ends

/-! ## Lists -/

/-- Induction along a loop of the reader and the same loop of the descent, whose number of rounds
is greater than the number of steps. -/
@[elab_as_elim]
theorem rounds_induction {motive : (steps rounds : Nat) → steps < rounds → Prop}
    (zero : ∀ rounds, motive 0 (rounds + 1) (Nat.succ_pos rounds))
    (succ : ∀ steps rounds h, motive steps rounds h →
      motive (steps + 1) (rounds + 1) (Nat.succ_lt_succ h))
    (steps rounds : Nat) (h : steps < rounds) : motive steps rounds h := by
  induction steps generalizing rounds with
  | zero =>
    cases rounds with
    | zero => exact absurd h (Nat.lt_irrefl 0)
    | succ rounds => exact zero rounds
  | succ steps ih =>
    cases rounds with
    | zero => exact absurd h (Nat.not_lt_zero _)
    | succ rounds => exact succ steps rounds _ (ih rounds (Nat.lt_of_succ_lt_succ h))

section Lists

variable {item : Descent α} {r : Reader α}

theorem ends_separated (hitem : Ends n 1 item r) (steps rounds : Nat) (h : steps < rounds)
    (hn : steps < n) :
    Ends (steps + 1) 1 (separated item rounds) (Reader.separated .comma r steps) := by
  induction steps, rounds, h using rounds_induction with
  | zero rounds =>
    -- No tokens are left, and an item would take one.
    refine .one fun bound hbound => (hitem bound [] hn hbound).bind fun a rest hrest => ?_
    exact absurd hrest (Nat.not_succ_le_zero _)
  | succ steps rounds _ ih =>
    have hmore := (ih (Nat.lt_of_succ_lt hn)).fewer.weaken
    exact (hitem.mono hn (Nat.le_refl 1)).first fun a => .ifSymbol hmore.last .pure

theorem ends_commaList (hitem : Ends n 1 item r) :
    Ends n 1 (commaList item) (Reader.commaList r) :=
  .remaining (ends_separated hitem)

theorem ends_after {w : Keyword} (hitem : Ends n k item r) :
    Ends n 0 (after? w item) (Reader.after? w r) := by
  refine .bind .eat fun b => ?_
  split
  · exact hitem.weaken.last
  · exact .pure

theorem ends_labelList (steps rounds : Nat) (h : steps < rounds) :
    Ends (steps + 1) 0 (labelList rounds) (Expr.labelList steps) := by
  induction steps, rounds, h using rounds_induction with
  | zero rounds => exact .one fun _ _ => .done rfl
  | succ steps rounds _ ih => exact .ifSymbol (Ends.name.bind fun x => ih.last) .pure

/-- Where a colon comes next, there is a label to take. -/
theorem takes_labelList (hbound : rest.length + 1 < bound) :
    EndsAt bound (.symbol .colon :: rest) 1 (labelList bound)
      (Expr.labelList (rest.length + 1)) := by
  cases bound with
  | zero => exact absurd hbound (Nat.not_lt_zero _)
  | succ rounds =>
    have hrounds := Nat.lt_of_succ_lt_succ hbound
    refine .step rfl (Reader.eat_true rfl) (Nat.le_refl _) ?_
    exact Ends.bind .name (fun x => (ends_labelList rest.length rounds hrounds).last)
      (rounds + 1) rest (Nat.lt_succ_self _) (Nat.lt_of_succ_lt hbound)

end Lists

end PropertyGraph.Descent
