import Mathlib.Data.List.Forall2
import PropertyGraph.Proofs.Eval.Conjunction

/-!
# Quantifiers over unknown outcomes

A null is an outcome that is not known yet.  The answer of a quantifier is certain where every way
of filling in the unknown outcomes leads to it, and unknown otherwise.  Membership in a list is such
a quantifier.

    Quantifier.Holds               what a quantifier says of outcomes that are all known
    Truth.Completes                a way of filling in the unknown outcomes
    Truth.forall_completes_iff     what every completion satisfies, told by the numbers of outcomes
    Quantifier.answer_eq_true      the answer is true if every completion makes it so
    Quantifier.answer_eq_false     and false if none does
    Expr.value_quantified          the value of a quantifier, from the outcomes of its predicate
    Expr.value_isIn_eq_any         membership as a quantifier
    Expr.quantifiers_over_unknowns both, with null for the unknown
-/

namespace PropertyGraph

/-! ## Known outcomes -/

/-- What a quantifier says of a list of outcomes all of which are known. -/
def Quantifier.Holds : Quantifier → List Bool → Prop
  | .all, bs => ∀ b ∈ bs, b = true
  | .any, bs => ∃ b ∈ bs, b = true
  | .none, bs => ∀ b ∈ bs, b = false
  | .single, bs => bs.count true = 1

instance (kind : Quantifier) (bs : List Bool) : Decidable (kind.Holds bs) :=
  match kind with
  | .all => inferInstanceAs (Decidable (∀ b ∈ bs, b = true))
  | .any => inferInstanceAs (Decidable (∃ b ∈ bs, b = true))
  | .none => inferInstanceAs (Decidable (∀ b ∈ bs, b = false))
  | .single => inferInstanceAs (Decidable (bs.count true = 1))

theorem count_false_eq_zero {bs : List Bool} : bs.count false = 0 ↔ ∀ b ∈ bs, b = true := by
  rw [List.count_eq_zero]
  refine ⟨fun h b hb => ?_, fun h hmem => Bool.false_ne_true (h false hmem)⟩
  exact Bool.of_not_eq_false fun heq => h (heq ▸ hb)

theorem count_true_eq_zero {bs : List Bool} : bs.count true = 0 ↔ ∀ b ∈ bs, b = false := by
  rw [List.count_eq_zero]
  refine ⟨fun h b hb => ?_, fun h hmem => Bool.false_ne_true (h true hmem).symm⟩
  exact Bool.of_not_eq_true fun heq => h (heq ▸ hb)

theorem count_true_pos {bs : List Bool} : 0 < bs.count true ↔ ∃ b ∈ bs, b = true := by
  rw [List.count_pos_iff]
  exact ⟨fun h => ⟨true, h, rfl⟩, fun ⟨_, hmem, heq⟩ => heq ▸ hmem⟩

/-! ## Unknown outcomes -/

namespace Truth

/-- The outcomes with a truth value filled in for each that is unknown. -/
def Completes : List Truth → List Bool → Prop :=
  List.Forall₂ fun t b => t = none ∨ t = some b

variable {ts : List Truth}

/-- A completion makes some of the unknown outcomes true and the others false. -/
theorem Completes.counts {bs : List Bool} (h : Completes ts bs) : ∃ k ≤ ts.count none,
    bs.count true = ts.count (some true) + k ∧
      bs.count false = ts.count (some false) + (ts.count none - k) := by
  induction h with
  | nil => exact ⟨0, Nat.le_refl _, rfl, rfl⟩
  | @cons t b ts bs htb _ ih =>
    obtain ⟨k, hk, htrue, hfalse⟩ := ih
    rcases htb with rfl | rfl
    · cases b with
      | true => exact ⟨k + 1, by simp; omega, by simp; omega, by simp; omega⟩
      | false => exact ⟨k, by simp; omega, by simpa using htrue, by simp; omega⟩
    · cases b with
      | true => exact ⟨k, by simpa using hk, by simp; omega, by simpa using hfalse⟩
      | false => exact ⟨k, by simpa using hk, by simpa using htrue, by simp; omega⟩

/-- And any number of them can be made true. -/
theorem exists_completes {k : Nat} (hk : k ≤ ts.count none) : ∃ bs, Completes ts bs ∧
    bs.count true = ts.count (some true) + k := by
  induction ts generalizing k with
  | nil =>
    obtain rfl : k = 0 := Nat.le_zero.1 hk
    exact ⟨[], .nil, rfl⟩
  | cons t ts ih =>
    rcases t with _ | b
    · cases k with
      | zero =>
        obtain ⟨bs, hbs, htrue⟩ := ih (Nat.zero_le _)
        exact ⟨false :: bs, .cons (.inl rfl) hbs, by simpa using htrue⟩
      | succ k =>
        obtain ⟨bs, hbs, htrue⟩ := ih (k := k) (by simp at hk; omega)
        exact ⟨true :: bs, .cons (.inl rfl) hbs, by simp; omega⟩
    · obtain ⟨bs, hbs, htrue⟩ := ih (k := k) (by simpa using hk)
      refine ⟨b :: bs, .cons (.inr rfl) hbs, ?_⟩
      cases b <;> simp <;> omega

/-- What depends on the numbers of true and false outcomes only holds of every completion if it does
whatever number of unknown outcomes comes to be true. -/
theorem forall_completes_iff {P : Nat → Nat → Prop} :
    (∀ bs, Completes ts bs → P (bs.count true) (bs.count false)) ↔
      ∀ k ≤ ts.count none,
        P (ts.count (some true) + k) (ts.count (some false) + (ts.count none - k)) := by
  constructor
  · intro h k hk
    obtain ⟨bs, hbs, htrue⟩ := exists_completes hk
    obtain ⟨j, hj, htrue', hfalse⟩ := hbs.counts
    obtain rfl : j = k := by omega
    rw [← htrue', ← hfalse]
    exact h bs hbs
  · intro h bs hbs
    obtain ⟨k, hk, htrue, hfalse⟩ := hbs.counts
    rw [htrue, hfalse]
    exact h k hk

end Truth

/-! ## Answers -/

namespace Quantifier

/-- What a quantifier demands of the numbers of true and false outcomes. -/
def Demands : Quantifier → Nat → Nat → Prop
  | .all, _, falses => falses = 0
  | .any, trues, _ => 0 < trues
  | .none, trues, _ => trues = 0
  | .single, trues, _ => trues = 1

theorem holds_iff (kind : Quantifier) (bs : List Bool) :
    kind.Holds bs ↔ kind.Demands (bs.count true) (bs.count false) := by
  cases kind with
  | all => exact count_false_eq_zero.symm
  | any => exact count_true_pos.symm
  | none => exact count_true_eq_zero.symm
  | single => exact Iff.rfl

/-- The guards in turn leave the answer true only where no number of unknown outcomes can change
it. -/
theorem decide_eq_true (kind : Quantifier) (t f u : Nat) :
    kind.decide t f u = some true ↔ ∀ k ≤ u, kind.Demands (t + k) (f + (u - k)) := by
  constructor
  · intro h k hk
    cases kind <;> simp only [decide, Demands] at h ⊢ <;> split_ifs at h <;> simp at h <;> omega
  · intro h
    -- the extremes: no unknown outcome comes to be true, or all do
    have hleast := h 0 (Nat.zero_le u)
    have hmost := h u (Nat.le_refl u)
    cases kind <;> simp only [decide, Demands] at hleast hmost ⊢
    · rw [if_neg (by omega), if_neg (by omega)]
    · rw [if_pos (by omega)]
    · rw [if_neg (by omega), if_neg (by omega)]
    · rw [if_neg (by omega), if_neg (by omega), beq_iff_eq.2 (by omega : t = 1)]

/-- And false only where none can make it true. -/
theorem decide_eq_false (kind : Quantifier) (t f u : Nat) :
    kind.decide t f u = some false ↔ ∀ k ≤ u, ¬ kind.Demands (t + k) (f + (u - k)) := by
  constructor
  · intro h k hk
    cases kind <;> simp only [decide, Demands] at h ⊢ <;> split_ifs at h <;> simp at h <;> omega
  · intro h
    have hleast := h 0 (Nat.zero_le u)
    have hmost := h u (Nat.le_refl u)
    cases kind with
    | all =>
      simp only [decide, Demands] at hmost ⊢
      rw [if_pos (by omega)]
    | any =>
      simp only [decide, Demands] at hmost ⊢
      rw [if_neg (by omega), if_neg (by omega)]
    | none =>
      simp only [decide, Demands] at hleast ⊢
      rw [if_pos (by omega)]
    | single =>
      -- exactly one true outcome is neither extreme where two or more are unknown
      have hone := h (1 - t)
      simp only [decide, Demands] at hleast hmost hone ⊢
      by_cases hmany : 1 < t
      · rw [if_pos hmany]
      · have hknown : ¬ 0 < u := fun hu => hone (by omega) (by omega)
        rw [if_neg hmany, if_neg hknown]
        exact congrArg some (beq_eq_false_iff_ne.2 fun ht => hleast (by omega))

/-- The answer of a quantifier to a list of outcomes. -/
def answer (kind : Quantifier) (ts : List Truth) : Truth :=
  kind.decide (ts.count (some true)) (ts.count (some false)) (ts.count Option.none)

variable {ts : List Truth}

/-- The answer is true where every completion makes it true. -/
theorem answer_eq_true (kind : Quantifier) :
    kind.answer ts = some true ↔ ∀ bs, Truth.Completes ts bs → kind.Holds bs := by
  simp only [holds_iff]
  rw [Truth.forall_completes_iff (P := kind.Demands)]
  exact decide_eq_true kind _ _ _

/-- It is false where every completion makes it false. -/
theorem answer_eq_false (kind : Quantifier) :
    kind.answer ts = some false ↔ ∀ bs, Truth.Completes ts bs → ¬ kind.Holds bs := by
  simp only [holds_iff]
  rw [Truth.forall_completes_iff (P := fun trues falses => ¬ kind.Demands trues falses)]
  exact decide_eq_false kind _ _ _

end Quantifier

/-! ## Evaluation -/

namespace Expr

open RowM

variable {env : EvalEnv} {row : Row} {name : String}

/-- The outcomes of a predicate are its truth values, each with its item in scope. -/
theorem outcomes_fst {predicate : Expr} {items : List Value} {ts : List Truth}
    (h : List.Forall₂ (fun item t => truth env (row.push name item) predicate = .ok t) items ts) :
    (outcomes name (eval env predicate) items row).1 = .ok ts := by
  induction h with
  | nil => rfl
  | @cons item t items ts hitem _ ih =>
    have hkeeps : Keeps (do lift (← eval env predicate).toTruth) :=
      (eval_keeps env predicate).bind fun v => keeps_lift v.toTruth
    have hhead : (within name item (do lift (← eval env predicate).toTruth) row).1 = .ok t := by
      rw [within_fst hkeeps, value_bind]
      exact hitem
    rw [outcomes, bind_fst (hkeeps.within name item), hhead]
    show ((outcomes name (eval env predicate) items >>= fun rest => pure (t :: rest)) row).1 = _
    rw [bind_fst ((eval_keeps env predicate).outcomes name items), ih]
    rfl

/-- The value of a quantifier is its answer to the outcomes of its predicate. -/
theorem value_quantified (kind : Quantifier) {source predicate : Expr} {items : List Value}
    {ts : List Truth} (hsource : source.value env row = .ok (.list items))
    (hts : List.Forall₂ (fun item t => truth env (row.push name item) predicate = .ok t) items ts) :
    (quantified kind name source predicate).value env row = .ok (.ofTruth (kind.answer ts)) := by
  show (eval env (.quantified kind name source predicate) row).1 = _
  rw [eval]
  refine (value_bind source _).trans ?_
  rw [hsource]
  show ((outcomes name (eval env predicate) items >>= fun results => pure (Value.ofTruth
    (kind.decide (results.count (some true)) (results.count (some false))
      (results.count none))) : RowM Value) row).1 = _
  rw [bind_fst ((eval_keeps env predicate).outcomes name items), outcomes_fst hts]
  rfl

/-! ## Membership -/

/-- A value is one of some items if one of its comparisons with them comes out true. -/
theorem oneOf_eq_answer (v : Value) (items : List Value) :
    v.oneOf items = Quantifier.any.answer (items.map v.equal?) := by
  induction items with
  | nil => rfl
  | cons item rest ih =>
    show Truth.or (v.equal? item) (v.oneOf rest) = _
    rw [ih, List.map_cons]
    unfold Quantifier.answer Quantifier.decide
    generalize rest.map v.equal? = ts
    rcases v.equal? item with _ | _ | _
    all_goals
      simp only [List.count_cons]
      by_cases htrue : 0 < ts.count (some true) <;> by_cases hnone : 0 < ts.count none <;>
        simp [htrue, hnone, Truth.or]

theorem value_literal (v : Value) : (literal v).value env row = .ok v := by
  unfold value
  rw [eval]
  rfl

theorem value_equal (v : Value) (e : Expr) : (binary .equal (.literal v) e).value env row =
    (e.value env row).map fun w => .ofTruth (v.equal? w) := by
  show (eval env (.binary .equal (.literal v) e) row).1 = _
  rw [eval]
  · refine (value_bind (.literal v) _).trans ?_
    rw [value_literal]
    refine (value_bind e _).trans ?_
    cases e.value env row <;> rfl
  all_goals intro h; cases h

theorem value_isIn (v : Value) (source : Expr) : (binary .isIn (.literal v) source).value env row =
    (source.value env row).bind v.isIn := by
  show (eval env (.binary .isIn (.literal v) source) row).1 = _
  rw [eval]
  · refine (value_bind (.literal v) _).trans ?_
    rw [value_literal]
    exact value_bind source _
  all_goals intro h; cases h

theorem truth_equal_var (v item : Value) :
    truth env (row.push name item) (.binary .equal (.literal v) (.var name)) =
      .ok (v.equal? item) := by
  have hvar : (var name).value env (row.push name item) = .ok item := by
    show (eval env (.var name) (row.push name item)).1 = _
    rw [eval]
    show (row.push name item).get name = _
    unfold Row.get
    rw [Row.lookup?_push, if_pos rfl]
  unfold truth
  rw [value_equal, hvar]
  exact toTruth_ofTruth _

/-- Membership in a list asks whether any item is the value. -/
theorem value_isIn_eq_any (v : Value) (source : Expr) :
    (binary .isIn (.literal v) source).value env row =
      (quantified .any name source (.binary .equal (.literal v) (.var name))).value env row := by
  rw [value_isIn]
  cases hsource : source.value env row with
  | error e =>
    show _ = (eval env (.quantified .any name source _) row).1
    rw [eval]
    refine Eq.symm ((value_bind source _).trans ?_)
    rw [hsource]
    rfl
  | ok w =>
    by_cases hlist : ∃ items, w = .list items
    · obtain ⟨items, rfl⟩ := hlist
      have houtcomes : List.Forall₂ (fun item t => truth env (row.push name item)
          (.binary .equal (.literal v) (.var name)) = .ok t) items (items.map v.equal?) :=
        List.forall₂_map_right_iff.2 (List.forall₂_same.2 fun item _ => truth_equal_var v item)
      rw [value_quantified .any hsource houtcomes, ← oneOf_eq_answer]
      rfl
    · show _ = (eval env (.quantified .any name source _) row).1
      rw [eval]
      refine Eq.symm ((value_bind source _).trans ?_)
      rw [hsource]
      cases w with
      | list items => exact absurd ⟨items, rfl⟩ hlist
      | _ => rfl

/-! ## Nulls as unknowns -/

/-- Where its predicate is true, false or null of each item, a quantifier is true if every way of
replacing the nulls by truth values makes it true, false if every way makes it false, and null
otherwise.  Membership in a list is such a quantifier: does any item equal the value? -/
theorem quantifiers_over_unknowns (env : EvalEnv) (row : Row) (name : String) (source : Expr) :
    (∀ (kind : Quantifier) (predicate : Expr) (items : List Value) (ts : List Truth),
      source.value env row = .ok (.list items) →
      List.Forall₂ (fun item t => truth env (row.push name item) predicate = .ok t) items ts →
      let answer := (quantified kind name source predicate).value env row
      (answer = .ok (.bool true) ↔ ∀ bs, Truth.Completes ts bs → kind.Holds bs) ∧
      (answer = .ok (.bool false) ↔ ∀ bs, Truth.Completes ts bs → ¬ kind.Holds bs) ∧
      (answer ≠ .ok (.bool true) → answer ≠ .ok (.bool false) → answer = .ok .null)) ∧
    ∀ v : Value, (binary .isIn (.literal v) source).value env row =
      (quantified .any name source (.binary .equal (.literal v) (.var name))).value env row := by
  refine ⟨fun kind predicate items ts hsource hts => ?_, fun v => value_isIn_eq_any v source⟩
  have hbool : ∀ b, (Except.ok (Value.ofTruth (kind.answer ts)) : Except Error Value) =
      .ok (.bool b) ↔ kind.answer ts = some b := by
    intro b
    rcases kind.answer ts with _ | c
    · exact iff_of_false nofun nofun
    · exact ⟨fun h => by cases h; rfl, fun h => by cases h; rfl⟩
  dsimp only
  rw [value_quantified kind hsource hts, hbool, hbool]
  refine ⟨kind.answer_eq_true, kind.answer_eq_false, fun htrue hfalse => ?_⟩
  rcases hanswer : kind.answer ts with _ | _ | _
  · rfl
  · exact absurd ((hbool false).2 hanswer) hfalse
  · exact absurd ((hbool true).2 hanswer) htrue

/-- One item that is the value and a null may be one or two. -/
theorem single_of_one_and_null :
    let env : EvalEnv := ⟨[], .default, ⟨fun _ => none, ⟨2024, 1, 1, rfl⟩⟩⟩
    let source : Expr := .list [.literal (.int 1), .literal .null]
    let isOne : Expr := .binary .equal (.literal (.int 1)) (.var "x")
    (quantified .single "x" source isOne).value env .empty = .ok .null ∧
    (binary .isIn (.literal (.int 1)) source).value env .empty =
      (quantified .any "x" source isOne).value env .empty := by
  intro env source isOne
  obtain ⟨hquantifier, hmember⟩ := quantifiers_over_unknowns env .empty "x" source
  obtain ⟨htrue, hfalse, hnull⟩ :=
    hquantifier .single isOne [.int 1, .null] [some true, none] rfl (.cons rfl (.cons rfl .nil))
  refine ⟨hnull (fun h => ?_) (fun h => ?_), hmember (.int 1)⟩
  · exact absurd (htrue.1 h [true, true] (.cons (.inr rfl) (.cons (.inl rfl) .nil))) (by decide)
  · exact hfalse.1 h [true, false] (.cons (.inr rfl) (.cons (.inl rfl) .nil)) rfl

end Expr

end PropertyGraph
