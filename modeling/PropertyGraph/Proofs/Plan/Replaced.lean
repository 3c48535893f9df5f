import Mathlib
import PropertyGraph.Proofs.Eval.Substitution
import PropertyGraph.Proofs.Pattern.Built
import PropertyGraph.Proofs.Plan.Lifting
import PropertyGraph.Run.Projecting

/-!
# What lifted expressions mean

A lifted expression is to mean what the expression means with the results of its aggregates written
into it.  It does so where the results are bound to their hidden names, with three exceptions:

* an aggregate inside of a comprehension or a quantifier, in what is computed of each item, is not
  lifted if the list has an aggregate, too;
* the expression may read a name that is spelled like a hidden name;
* aggregates of equal literals share a name, and literals are compared as for grouping, so that 0.0
  and -0.0 are equal.

    Expr.replaced        the expression with the results of its aggregates written into it
    Expr.keepsAggregate  is there an aggregate that is not lifted?
    Meant                what one lifting notes and leaves
    Expr.meant           every lifting is so, by recursion over the expression
    make_means           what the columns and the sort keys of a projection mean
-/

namespace PropertyGraph

/-! ## Results in the place of aggregates -/

namespace Expr

mutual

/-- The calls of aggregates in the expression, patterns apart. -/
def aggregateCalls : Expr → List Expr
  | .literal _ | .parameter _ | .var _ | .pattern _ => []
  | .countAll => [.countAll]
  | .property e _ | .hasLabels e _ | .unary _ e | .isNull e | .isNotNull e => e.aggregateCalls
  | .list items => listAggregateCalls items
  | .map entries => entryAggregateCalls entries
  | .index a b | .binary _ a b => a.aggregateCalls ++ b.aggregateCalls
  | .slice e lower upper =>
    e.aggregateCalls ++ optionAggregateCalls lower ++ optionAggregateCalls upper
  | .call f args d => if isAggregateName f then [.call f args d] else listAggregateCalls args
  | .case operand branches default =>
    optionAggregateCalls operand ++ branchAggregateCalls branches ++ optionAggregateCalls default
  | .comprehension _ source filter result =>
    source.aggregateCalls ++ (optionAggregateCalls filter ++ optionAggregateCalls result)
  | .quantified _ _ source predicate => source.aggregateCalls ++ predicate.aggregateCalls

/-- The calls of aggregates in some expressions. -/
def listAggregateCalls : List Expr → List Expr
  | [] => []
  | e :: rest => e.aggregateCalls ++ listAggregateCalls rest

/-- The calls of aggregates in the values of some entries. -/
def entryAggregateCalls : List (String × Expr) → List Expr
  | [] => []
  | (_, e) :: rest => e.aggregateCalls ++ entryAggregateCalls rest

/-- The calls of aggregates in some branches. -/
def branchAggregateCalls : List (Expr × Expr) → List Expr
  | [] => []
  | (a, b) :: rest => a.aggregateCalls ++ b.aggregateCalls ++ branchAggregateCalls rest

/-- The calls of aggregates in an expression, if there is one. -/
def optionAggregateCalls : Option Expr → List Expr
  | none => []
  | some e => e.aggregateCalls

end

mutual

/-- The expression with the results of its aggregates written into it. -/
def replaced (results : Expr → Value) : Expr → Expr
  | .literal v => .literal v
  | .parameter x => .parameter x
  | .var x => .var x
  | .pattern part => .pattern part
  | .countAll => .literal (results .countAll)
  | .call f args d =>
    if isAggregateName f then .literal (results (.call f args d))
    else .call f (listReplaced results args) d
  | .property e key => .property (e.replaced results) key
  | .hasLabels e labels => .hasLabels (e.replaced results) labels
  | .unary op e => .unary op (e.replaced results)
  | .isNull e => .isNull (e.replaced results)
  | .isNotNull e => .isNotNull (e.replaced results)
  | .index a b => .index (a.replaced results) (b.replaced results)
  | .binary op a b => .binary op (a.replaced results) (b.replaced results)
  | .slice e lower upper =>
    .slice (e.replaced results) (optionReplaced results lower) (optionReplaced results upper)
  | .list items => .list (listReplaced results items)
  | .map entries => .map (entriesReplaced results entries)
  | .case operand branches default =>
    .case (optionReplaced results operand) (branchesReplaced results branches)
      (optionReplaced results default)
  | .comprehension x source filter result =>
    .comprehension x (source.replaced results) (optionReplaced results filter)
      (optionReplaced results result)
  | .quantified kind x source predicate =>
    .quantified kind x (source.replaced results) (predicate.replaced results)

/-- Some expressions with results written into them. -/
def listReplaced (results : Expr → Value) : List Expr → List Expr
  | [] => []
  | e :: rest => e.replaced results :: listReplaced results rest

/-- Some entries with results written into them. -/
def entriesReplaced (results : Expr → Value) : List (String × Expr) → List (String × Expr)
  | [] => []
  | (key, e) :: rest => (key, e.replaced results) :: entriesReplaced results rest

/-- Some branches with results written into them. -/
def branchesReplaced (results : Expr → Value) : List (Expr × Expr) → List (Expr × Expr)
  | [] => []
  | (a, b) :: rest => (a.replaced results, b.replaced results) :: branchesReplaced results rest

/-- An expression, if there is one, with results written into it. -/
def optionReplaced (results : Expr → Value) : Option Expr → Option Expr
  | none => none
  | some e => some (e.replaced results)

end

mutual

/-- Is there an aggregate that is not lifted?  It stands inside of a comprehension or a quantifier,
in what is computed of each item. -/
def keepsAggregate : Expr → Bool
  | .literal _ | .parameter _ | .var _ | .pattern _ | .countAll => false
  | .property e _ | .hasLabels e _ | .unary _ e | .isNull e | .isNotNull e => e.keepsAggregate
  | .list items => anyKeepsAggregate items
  | .map entries => anyEntryKeepsAggregate entries
  | .index a b | .binary _ a b => a.keepsAggregate || b.keepsAggregate
  | .slice e lower upper =>
    e.keepsAggregate || optionKeepsAggregate lower || optionKeepsAggregate upper
  | .call f args _ => !isAggregateName f && anyKeepsAggregate args
  | .case operand branches default =>
    optionKeepsAggregate operand || anyBranchKeepsAggregate branches || optionKeepsAggregate default
  | .comprehension _ source filter result =>
    source.keepsAggregate || (optionAggregate filter || optionAggregate result)
  | .quantified _ _ source predicate => source.keepsAggregate || predicate.hasAggregate

/-- Is there an aggregate in some expressions that is not lifted? -/
def anyKeepsAggregate : List Expr → Bool
  | [] => false
  | e :: rest => e.keepsAggregate || anyKeepsAggregate rest

/-- Is there an aggregate in the values of some entries that is not lifted? -/
def anyEntryKeepsAggregate : List (String × Expr) → Bool
  | [] => false
  | (_, e) :: rest => e.keepsAggregate || anyEntryKeepsAggregate rest

/-- Is there an aggregate in some branches that is not lifted? -/
def anyBranchKeepsAggregate : List (Expr × Expr) → Bool
  | [] => false
  | (a, b) :: rest => a.keepsAggregate || b.keepsAggregate || anyBranchKeepsAggregate rest

/-- Is there an aggregate in the expression, if there is one, that is not lifted? -/
def optionKeepsAggregate : Option Expr → Bool
  | none => false
  | some e => e.keepsAggregate

end

variable {results : Expr → Value}

mutual

/-- There is nothing to replace where there is no aggregate. -/
theorem replaced_of_plain (e : Expr) (h : e.hasAggregate = false) : e.replaced results = e := by
  cases e with
  | literal _ | parameter _ | var _ | pattern _ => rfl
  | countAll => cases h
  | property e _ | hasLabels e _ | unary _ e | isNull e | isNotNull e =>
    rw [replaced, replaced_of_plain e h]
  | list items => rw [replaced, listReplaced_of_plain items h]
  | map entries => rw [replaced, entriesReplaced_of_plain entries h]
  | index a b | binary _ a b =>
    obtain ⟨ha, hb⟩ := Bool.or_eq_false_iff.1 h
    rw [replaced, replaced_of_plain a ha, replaced_of_plain b hb]
  | slice e lower upper =>
    obtain ⟨h, hupper⟩ := Bool.or_eq_false_iff.1 h
    obtain ⟨he, hlower⟩ := Bool.or_eq_false_iff.1 h
    rw [replaced, replaced_of_plain e he, optionReplaced_of_plain lower hlower,
      optionReplaced_of_plain upper hupper]
  | call f args d =>
    obtain ⟨hf, hargs⟩ := Bool.or_eq_false_iff.1 h
    rw [replaced, if_neg (Bool.eq_false_iff.1 hf), listReplaced_of_plain args hargs]
  | case operand branches default =>
    obtain ⟨h, hdefault⟩ := Bool.or_eq_false_iff.1 h
    obtain ⟨hoperand, hbranches⟩ := Bool.or_eq_false_iff.1 h
    rw [replaced, optionReplaced_of_plain operand hoperand,
      branchesReplaced_of_plain branches hbranches, optionReplaced_of_plain default hdefault]
  | comprehension x source filter result =>
    obtain ⟨h, hresult⟩ := Bool.or_eq_false_iff.1 h
    obtain ⟨hsource, hfilter⟩ := Bool.or_eq_false_iff.1 h
    rw [replaced, replaced_of_plain source hsource, optionReplaced_of_plain filter hfilter,
      optionReplaced_of_plain result hresult]
  | quantified kind x source predicate =>
    obtain ⟨hsource, hpredicate⟩ := Bool.or_eq_false_iff.1 h
    rw [replaced, replaced_of_plain source hsource, replaced_of_plain predicate hpredicate]

theorem listReplaced_of_plain (es : List Expr) (h : anyAggregate es = false) :
    listReplaced results es = es := by
  cases es with
  | nil => rfl
  | cons e rest =>
    obtain ⟨he, hrest⟩ := Bool.or_eq_false_iff.1 h
    rw [listReplaced, replaced_of_plain e he, listReplaced_of_plain rest hrest]

theorem entriesReplaced_of_plain (entries : List (String × Expr))
    (h : anyEntryAggregate entries = false) : entriesReplaced results entries = entries := by
  cases entries with
  | nil => rfl
  | cons entry rest =>
    obtain ⟨key, e⟩ := entry
    obtain ⟨he, hrest⟩ := Bool.or_eq_false_iff.1 h
    rw [entriesReplaced, replaced_of_plain e he, entriesReplaced_of_plain rest hrest]

theorem branchesReplaced_of_plain (branches : List (Expr × Expr))
    (h : anyBranchAggregate branches = false) : branchesReplaced results branches = branches := by
  cases branches with
  | nil => rfl
  | cons branch rest =>
    obtain ⟨a, b⟩ := branch
    obtain ⟨h, hrest⟩ := Bool.or_eq_false_iff.1 h
    obtain ⟨ha, hb⟩ := Bool.or_eq_false_iff.1 h
    rw [branchesReplaced, replaced_of_plain a ha, replaced_of_plain b hb,
      branchesReplaced_of_plain rest hrest]

theorem optionReplaced_of_plain (o : Option Expr) (h : optionAggregate o = false) :
    optionReplaced results o = o := by
  cases o with
  | none => rfl
  | some e => rw [optionReplaced, replaced_of_plain e h]

end

end Expr

/-! ## One lifting -/

/-- The hidden name of an aggregate by its place. -/
def slotAt (i : Nat) : String :=
  "  agg" ++ toString i

/-- The hidden names are numbered. -/
def Numbered (noted : List Aggregate) : Prop :=
  noted.map (·.slot) = (List.range noted.length).map slotAt

theorem Numbered.append {noted : List Aggregate} (h : Numbered noted) (a : Aggregate)
    (ha : a.slot = slotAt noted.length) : Numbered (noted ++ [a]) := by
  unfold Numbered at *
  rw [List.map_append, h, List.length_append, List.length_singleton, List.range_succ,
    List.map_append, List.map_singleton, List.map_singleton, ha]

theorem slotAt_injective : Function.Injective slotAt := by
  intro i j h
  have hdigits := congrArg String.toList h
  unfold slotAt at hdigits
  simp only [String.toList_append, Nat.toString_eq_ofList_toDigits, String.toList_ofList]
    at hdigits
  have hnumber := congrArg (Nat.ofDigitChars 10 · 0) (List.append_cancel_left hdigits)
  simpa only [Nat.ofDigitChars_ten_toDigits] using hnumber

theorem Numbered.nodup {noted : List Aggregate} (h : Numbered noted) :
    (noted.map (·.slot)).Nodup := by
  rw [h]
  exact List.Nodup.map slotAt_injective List.nodup_range

/-- Hidden names have the results of their aggregates, and so do calls that are written alike. -/
structure Answers (σ : Assignment) (results : Expr → Value) (noted : List Aggregate)
    (calls : List Expr) : Prop where
  bound : ∀ a ∈ noted, σ a.slot = some (results a.source)
  alike : ∀ c ∈ calls, ∀ a ∈ noted, (a.source == c) = true → results a.source = results c

/-- A lifting notes aggregates after those noted before, leaves an aggregate or not, and the lifted
expression becomes the one with results written into it when they are written into both. -/
structure Meant (noted noted' : List Aggregate) (calls : List Expr) (keeps left : Bool)
    (Same : Assignment → (Expr → Value) → Prop) : Prop where
  grows : noted ⊆ noted'
  numbered : Numbered noted → Numbered noted'
  sources : ∀ a ∈ noted', a ∈ noted ∨ a.source ∈ calls
  left : left = keeps
  same : keeps = false → ∀ σ results, Answers σ results noted' calls → Same σ results

namespace Meant

variable {noted between noted' : List Aggregate} {calls calls' : List Expr}
  {keeps keeps' left left' : Bool} {Same Same' : Assignment → (Expr → Value) → Prop}

/-- Nothing is lifted. -/
theorem refl (noted : List Aggregate) (keeps : Bool)
    (h : keeps = false → ∀ σ results, Same σ results) :
    Meant noted noted calls keeps keeps Same :=
  ⟨List.Subset.refl _, id, fun _ ha => Or.inl ha, rfl, fun hkeeps σ results _ => h hkeeps σ results⟩

/-- The same lifting, for an expression around. -/
theorem imp (h : Meant noted noted' calls keeps left Same)
    (hSame : ∀ σ results, Same σ results → Same' σ results) :
    Meant noted noted' calls keeps left Same' :=
  { h with same := fun hkeeps σ results ha => hSame σ results (h.same hkeeps σ results ha) }

/-- One expression after the other. -/
theorem append (h : Meant noted between calls keeps left Same)
    (h' : Meant between noted' calls' keeps' left' Same') :
    Meant noted noted' (calls ++ calls') (keeps || keeps') (left || left')
      fun σ results => Same σ results ∧ Same' σ results where
  grows := List.Subset.trans h.grows h'.grows
  numbered hnoted := h'.numbered (h.numbered hnoted)
  sources a ha := by
    rw [List.mem_append]
    rcases h'.sources a ha with ha | ha
    · exact (h.sources a ha).imp_right Or.inl
    · exact Or.inr (Or.inr ha)
  left := by rw [h.left, h'.left]
  same hkeeps σ results ha := by
    obtain ⟨hk, hk'⟩ := Bool.or_eq_false_iff.1 hkeeps
    constructor
    · exact h.same hk σ results ⟨fun a hm => ha.bound a (h'.grows hm), fun c hc a hm =>
        ha.alike c (List.mem_append_left _ hc) a (h'.grows hm)⟩
    · exact h'.same hk' σ results ⟨ha.bound, fun c hc => ha.alike c (List.mem_append_right _ hc)⟩

/-- A hidden name in the place of a call. -/
theorem of_note {kind : AggregateKind} {argument : Option Expr} {distinct : Bool}
    {call e : Expr} (h : Lift.note kind argument distinct call noted = .ok (e, noted')) :
    Meant noted noted' [call] false e.hasAggregate
      fun σ results => e.subst σ = .literal (results call) := by
  unfold Lift.note at h
  split at h
  · next a hfind =>
    cases h
    have hmem := List.mem_of_find?_eq_some hfind
    have halike : (a.source == call) = true := by simpa using List.find?_some hfind
    refine ⟨List.Subset.refl _, id, fun _ ha => Or.inl ha, rfl, fun _ σ results ha => ?_⟩
    rw [Expr.subst, ha.bound a hmem,
      ha.alike call (List.mem_singleton.2 rfl) a hmem halike]
  · cases h
    refine ⟨List.subset_append_left _ _, fun hnoted => hnoted.append _ rfl, fun a ha => ?_, rfl,
      fun _ σ results ha => ?_⟩
    · rcases List.mem_append.1 ha with ha | ha
      · exact Or.inl ha
      · rw [List.mem_singleton.1 ha]
        exact Or.inr (List.mem_singleton.2 rfl)
    · have hbound := ha.bound _ (List.mem_append_right noted (List.mem_singleton.2 rfl))
      simp only at hbound
      rw [Expr.subst, hbound]

end Meant

namespace Expr

theorem meant_call {f : String} {args : List Expr} {d : Bool} {call e : Expr}
    {noted noted' : List Aggregate} (h : Lift.call f args d call noted = .ok (e, noted')) :
    Meant noted noted' [call] false e.hasAggregate
      fun σ results => e.subst σ = .literal (results call) := by
  unfold Lift.call at h
  cases hkind : AggregateKind.ofName? f with
  | none => rw [hkind] at h; cases h
  | some kind =>
    rw [hkind] at h
    match args, h with
    | [argument], h =>
      dsimp only at h
      split at h
      · cases h
      · exact .of_note h
    | [], h => cases h
    | _ :: _ :: _, h => cases h

mutual

/-- Every lifting is so; what is computed of the items of a list is left as it is. -/
theorem meant (e : Expr) {e' : Expr} {noted noted' : List Aggregate}
    (h : e.liftAggregates noted = .ok (e', noted')) :
    Meant noted noted' e.aggregateCalls e.keepsAggregate e'.hasAggregate
      fun σ results => e'.subst σ = (e.replaced results).subst σ := by
  cases e with
  | countAll => exact (Meant.of_note h).imp fun σ results he => by rw [he, replaced, subst]
  | call f args d =>
    unfold liftAggregates at h
    unfold aggregateCalls keepsAggregate replaced
    split at h
    · next hf =>
      rw [hf, if_pos rfl]
      exact (meant_call h).imp fun σ results he => by rw [he, if_pos rfl, subst]
    · next hf =>
      obtain ⟨args', between, hargs, h⟩ := Lift.ok_of_bind h
      cases h
      rw [Bool.eq_false_iff.2 hf, if_neg Bool.false_ne_true]
      unfold hasAggregate
      rw [Bool.eq_false_iff.2 hf]
      exact (meantList args hargs).imp fun σ results hs => by
        rw [if_neg Bool.false_ne_true, subst, subst, hs]
  | property e key =>
    obtain ⟨e', _, he, h⟩ := Lift.ok_of_bind h
    have hmeant := meant e he
    cases h
    exact hmeant.imp fun σ results hs => by rw [replaced, subst, subst, hs]
  | hasLabels e labels =>
    obtain ⟨e', _, he, h⟩ := Lift.ok_of_bind h
    have hmeant := meant e he
    cases h
    exact hmeant.imp fun σ results hs => by rw [replaced, subst, subst, hs]
  | unary op e =>
    obtain ⟨e', _, he, h⟩ := Lift.ok_of_bind h
    have hmeant := meant e he
    cases h
    exact hmeant.imp fun σ results hs => by rw [replaced, subst, subst, hs]
  | isNull e =>
    obtain ⟨e', _, he, h⟩ := Lift.ok_of_bind h
    have hmeant := meant e he
    cases h
    exact hmeant.imp fun σ results hs => by rw [replaced, subst, subst, hs]
  | isNotNull e =>
    obtain ⟨e', _, he, h⟩ := Lift.ok_of_bind h
    have hmeant := meant e he
    cases h
    exact hmeant.imp fun σ results hs => by rw [replaced, subst, subst, hs]
  | index a b =>
    obtain ⟨a', _, ha, h⟩ := Lift.ok_of_bind h
    obtain ⟨b', _, hb, h⟩ := Lift.ok_of_bind h
    cases h
    exact ((meant a ha).append (meant b hb)).imp fun σ results ⟨hsa, hsb⟩ => by
      rw [replaced, subst, subst, hsa, hsb]
  | binary op a b =>
    obtain ⟨a', _, ha, h⟩ := Lift.ok_of_bind h
    obtain ⟨b', _, hb, h⟩ := Lift.ok_of_bind h
    cases h
    exact ((meant a ha).append (meant b hb)).imp fun σ results ⟨hsa, hsb⟩ => by
      rw [replaced, subst, subst, hsa, hsb]
  | slice e lower upper =>
    obtain ⟨e', _, he, h⟩ := Lift.ok_of_bind h
    obtain ⟨lower', _, hlower, h⟩ := Lift.ok_of_bind h
    obtain ⟨upper', _, hupper, h⟩ := Lift.ok_of_bind h
    cases h
    exact (((meant e he).append (meantOption lower hlower)).append (meantOption upper hupper)).imp
      fun σ results ⟨⟨hse, hslower⟩, hsupper⟩ => by
        rw [replaced, subst, subst, hse, hslower, hsupper]
  | list items =>
    obtain ⟨items', _, hitems, h⟩ := Lift.ok_of_bind h
    cases h
    exact (meantList items hitems).imp fun σ results hs => by rw [replaced, subst, subst, hs]
  | map entries =>
    obtain ⟨entries', _, hentries, h⟩ := Lift.ok_of_bind h
    cases h
    exact (meantFields entries hentries).imp fun σ results hs => by
      rw [replaced, subst, subst, hs]
  | case operand branches default =>
    obtain ⟨operand', _, hoperand, h⟩ := Lift.ok_of_bind h
    obtain ⟨branches', _, hbranches, h⟩ := Lift.ok_of_bind h
    obtain ⟨default', _, hdefault, h⟩ := Lift.ok_of_bind h
    cases h
    exact (((meantOption operand hoperand).append (meantBranches branches hbranches)).append
      (meantOption default hdefault)).imp fun σ results ⟨⟨hso, hsb⟩, hsd⟩ => by
        rw [replaced, subst, subst, hso, hsb, hsd]
  | comprehension x source filter result =>
    unfold liftAggregates at h
    split at h
    · cases h
    · obtain ⟨source', between, hsource, h⟩ := Lift.ok_of_bind h
      cases h
      have hinner : Meant noted' noted' (optionAggregateCalls filter ++ optionAggregateCalls result)
          (optionAggregate filter || optionAggregate result)
          (optionAggregate filter || optionAggregate result)
          fun _ results => optionReplaced results filter = filter ∧
            optionReplaced results result = result :=
        .refl _ _ fun hkeeps _ _ => by
          obtain ⟨hfilter, hresult⟩ := Bool.or_eq_false_iff.1 hkeeps
          exact ⟨optionReplaced_of_plain filter hfilter, optionReplaced_of_plain result hresult⟩
      unfold hasAggregate
      rw [Bool.or_assoc]
      exact ((meant source hsource).append hinner).imp fun σ results ⟨hs, hf, hr⟩ => by
        rw [replaced, subst, subst, hs, hf, hr]
  | quantified kind x source predicate =>
    unfold liftAggregates at h
    split at h
    · cases h
    · obtain ⟨source', between, hsource, h⟩ := Lift.ok_of_bind h
      cases h
      have hinner : Meant noted' noted' predicate.aggregateCalls predicate.hasAggregate
          predicate.hasAggregate fun _ results => predicate.replaced results = predicate :=
        .refl _ _ fun hkeeps _ _ => replaced_of_plain predicate hkeeps
      exact ((meant source hsource).append hinner).imp fun σ results ⟨hs, hp⟩ => by
        rw [replaced, subst, subst, hs, hp]
  | literal v => cases h; exact .refl _ _ fun _ _ _ => rfl
  | parameter x => cases h; exact .refl _ _ fun _ _ _ => rfl
  | var x => cases h; exact .refl _ _ fun _ _ _ => rfl
  | pattern part => cases h; exact .refl _ _ fun _ _ _ => rfl
termination_by structural e

theorem meantList (es : List Expr) {es' : List Expr} {noted noted' : List Aggregate}
    (h : liftList es noted = .ok (es', noted')) :
    Meant noted noted' (listAggregateCalls es) (anyKeepsAggregate es) (anyAggregate es')
      fun σ results => substList σ es' = substList σ (listReplaced results es) := by
  cases es with
  | nil => cases h; exact .refl _ _ fun _ _ _ => rfl
  | cons e rest =>
    obtain ⟨e', _, he, h⟩ := Lift.ok_of_bind h
    obtain ⟨rest', _, hrest, h⟩ := Lift.ok_of_bind h
    cases h
    exact ((meant e he).append (meantList rest hrest)).imp fun σ results ⟨hs, hss⟩ => by
      rw [listReplaced, substList, substList, hs, hss]
termination_by structural es

theorem meantFields (entries : List (String × Expr)) {entries' : List (String × Expr)}
    {noted noted' : List Aggregate} (h : liftFields entries noted = .ok (entries', noted')) :
    Meant noted noted' (entryAggregateCalls entries) (anyEntryKeepsAggregate entries)
      (anyEntryAggregate entries') fun σ results =>
        substEntries σ entries' = substEntries σ (entriesReplaced results entries) := by
  cases entries with
  | nil => cases h; exact .refl _ _ fun _ _ _ => rfl
  | cons entry rest =>
    obtain ⟨key, e⟩ := entry
    obtain ⟨e', _, he, h⟩ := Lift.ok_of_bind h
    obtain ⟨rest', _, hrest, h⟩ := Lift.ok_of_bind h
    cases h
    exact ((meant e he).append (meantFields rest hrest)).imp fun σ results ⟨hs, hss⟩ => by
      rw [entriesReplaced, substEntries, substEntries, hs, hss]
termination_by structural entries

theorem meantBranches (branches : List (Expr × Expr)) {branches' : List (Expr × Expr)}
    {noted noted' : List Aggregate} (h : liftBranches branches noted = .ok (branches', noted')) :
    Meant noted noted' (branchAggregateCalls branches) (anyBranchKeepsAggregate branches)
      (anyBranchAggregate branches') fun σ results =>
        substBranches σ branches' = substBranches σ (branchesReplaced results branches) := by
  cases branches with
  | nil => cases h; exact .refl _ _ fun _ _ _ => rfl
  | cons branch rest =>
    obtain ⟨a, b⟩ := branch
    obtain ⟨a', _, ha, h⟩ := Lift.ok_of_bind h
    obtain ⟨b', _, hb, h⟩ := Lift.ok_of_bind h
    obtain ⟨rest', _, hrest, h⟩ := Lift.ok_of_bind h
    cases h
    exact (((meant a ha).append (meant b hb)).append (meantBranches rest hrest)).imp
      fun σ results ⟨⟨hsa, hsb⟩, hss⟩ => by
        rw [branchesReplaced, substBranches, substBranches, hsa, hsb, hss]
termination_by structural branches

theorem meantOption (o : Option Expr) {o' : Option Expr} {noted noted' : List Aggregate}
    (h : liftOption o noted = .ok (o', noted')) :
    Meant noted noted' (optionAggregateCalls o) (optionKeepsAggregate o) (optionAggregate o')
      fun σ results => substOption σ o' = substOption σ (optionReplaced results o) := by
  cases o with
  | none => cases h; exact .refl _ _ fun _ _ _ => rfl
  | some e =>
    obtain ⟨e', _, he, h⟩ := Lift.ok_of_bind h
    have hmeant := meant e he
    cases h
    exact hmeant.imp fun σ results hs => by rw [optionReplaced, substOption, substOption, hs]
termination_by structural o

end

theorem listAggregateCalls_eq (es : List Expr) :
    listAggregateCalls es = es.flatMap aggregateCalls := by
  induction es with
  | nil => rfl
  | cons e rest ih => rw [listAggregateCalls, ih, List.flatMap_cons]

/-- Of expressions lifted in turn each is lifted by itself, after what the earlier ones note. -/
theorem each_lifted {es es' : List Expr} {noted noted' : List Aggregate}
    (h : liftList es noted = .ok (es', noted')) :
    List.Forall₂ (fun e e' => ∃ before after, e.liftAggregates before = .ok (e', after) ∧
      after ⊆ noted') es es' := by
  induction es generalizing es' noted with
  | nil => cases h; exact .nil
  | cons e rest ih =>
    obtain ⟨e', between, he, h⟩ := Lift.ok_of_bind h
    obtain ⟨rest', _, hrest, h⟩ := Lift.ok_of_bind h
    cases h
    exact .cons ⟨noted, between, he, (meantList rest hrest).grows⟩ (ih hrest)

theorem liftList_append {es es' more more' : List Expr} {noted between noted' : List Aggregate}
    (h : liftList es noted = .ok (es', between)) (hmore : liftList more between = .ok (more', noted')) :
    liftList (es ++ more) noted = .ok (es' ++ more', noted') := by
  induction es generalizing es' noted with
  | nil => cases h; exact hmore
  | cons e rest ih =>
    obtain ⟨e', _, he, h⟩ := Lift.ok_of_bind h
    obtain ⟨rest', _, hrest, h⟩ := Lift.ok_of_bind h
    cases h
    exact Lift.bind_ok he (Lift.bind_ok (ih hrest) rfl)

end Expr

/-! ## Projections -/

namespace Projection

variable {columns : List (Expr × String)} {body : ProjectionBody} {p : Projection}

theorem liftList_of_liftColumns {lifted : List Column} {noted noted' : List Aggregate}
    (h : liftColumns columns noted = .ok (lifted, noted')) :
    Expr.liftList (columns.map Prod.fst) noted = .ok (lifted.map (·.expr), noted') := by
  induction columns generalizing lifted noted with
  | nil => cases h; rfl
  | cons column rest ih =>
    obtain ⟨e, name⟩ := column
    obtain ⟨e', _, he, h⟩ := Lift.ok_of_bind h
    obtain ⟨rest', _, hrest, h⟩ := Lift.ok_of_bind h
    cases h
    exact Lift.bind_ok he (Lift.bind_ok (ih hrest) rfl)

theorem liftList_of_liftOrder {aggregating : Bool} {order lifted : List SortKey}
    {noted noted' : List Aggregate}
    (h : liftOrder aggregating order noted = .ok (lifted, noted')) :
    Expr.liftList (order.map (·.expr)) noted = .ok (lifted.map (·.expr), noted') := by
  induction order generalizing lifted noted with
  | nil => cases h; rfl
  | cons key rest ih =>
    unfold liftOrder at h
    split at h
    · cases h
    · obtain ⟨e', _, he, h⟩ := Lift.ok_of_bind h
      obtain ⟨rest', _, hrest, h⟩ := Lift.ok_of_bind h
      cases h
      exact Lift.bind_ok he (Lift.bind_ok (ih hrest) rfl)

/-- The columns and then the sort keys are lifted in turn. -/
theorem liftList_of_make (h : make columns body = .ok p) :
    Expr.liftList (columns.map Prod.fst ++ body.order.map (·.expr)) [] =
      .ok (p.columns.map (·.expr) ++ p.order.map (·.expr), p.aggregates) := by
  unfold make at h
  obtain ⟨⟨columns', noted⟩, hcolumns, h⟩ := ok_of_bind h
  obtain ⟨⟨order, aggregates⟩, horder, h⟩ := ok_of_bind h
  dsimp only at h
  split at h
  · cases h
  · cases h
    exact Expr.liftList_append (liftList_of_liftColumns hcolumns) (liftList_of_liftOrder horder)

/-- The row in which the results of the aggregates are bound to their hidden names. -/
def withResults (p : Projection) (results : List Value) (row : Row) : Row :=
  ((p.aggregates.map (·.slot)).zip results).foldl (fun row (slot, v) => row.push slot v) row

variable {row : Row} {values : List Value} {x : String}

theorem lookup?_withResults : (p.withResults values row).lookup? x =
    (Bindings.get? x ((p.aggregates.map (·.slot)).zip values).reverse).or (row.lookup? x) :=
  Row.lookup?_pushes _ row x

/-- As hidden names are numbered, each has the result of its own aggregate. -/
theorem lookup?_slot (h : Numbered p.aggregates) (results : Expr → Value) {a : Aggregate}
    (ha : a ∈ p.aggregates) :
    (p.withResults (p.aggregates.map fun a => results a.source) row).lookup? a.slot =
      some (results a.source) := by
  have hbound : Bindings.get? a.slot
      (p.aggregates.map fun a => (a.slot, results a.source)).reverse = some (results a.source) := by
    refine Bindings.get?_of_mem ?_ (List.mem_reverse.2 (List.mem_map.2 ⟨a, ha, rfl⟩))
    unfold Bindings.names
    rw [List.map_reverse, List.nodup_reverse, List.map_map]
    exact h.nodup
  rw [lookup?_withResults, List.zip_map', hbound]
  rfl

/-- What a hidden name is bound to is a matter of the results alone. -/
theorem lookup?_withResults_congr {row' : Row} (hlength : values.length = p.aggregates.length)
    {a : Aggregate} (ha : a ∈ p.aggregates) :
    (p.withResults values row).lookup? a.slot = (p.withResults values row').lookup? a.slot := by
  have hbound : (Bindings.get? a.slot ((p.aggregates.map (·.slot)).zip values).reverse).isSome := by
    refine Bindings.isSome_get?.2 ?_
    unfold Bindings.names
    rw [List.map_reverse, List.map_fst_zip (by rw [List.length_map]; exact Nat.le_of_eq hlength.symm),
      List.mem_reverse]
    exact List.mem_map.2 ⟨a, ha, rfl⟩
  obtain ⟨v, hv⟩ := Option.isSome_iff_exists.1 hbound
  rw [lookup?_withResults, lookup?_withResults, hv]
  rfl

/-- A name that is not hidden is bound to no result. -/
theorem lookup?_of_fresh (h : ∀ a ∈ p.aggregates, a.slot ≠ x) :
    (p.withResults values row).lookup? x = row.lookup? x := by
  rw [lookup?_withResults]
  cases hx : Bindings.get? x ((p.aggregates.map (·.slot)).zip values).reverse with
  | none => rfl
  | some v =>
    have hmem := List.mem_reverse.1 (Bindings.mem_of_get? hx)
    obtain ⟨a, ha, hslot⟩ := List.mem_map.1 (List.of_mem_zip hmem).1
    exact absurd hslot (h a ha)

/-- An expression has an aggregate left if one of its aggregates is not lifted; if not, and if it
reads no hidden name itself, it has the value that it has with the results written into it. -/
theorem make_means (h : make columns body = .ok p) (env : EvalEnv) (row : Row)
    (results : Expr → Value)
    (halike : ∀ c ∈ (columns.map Prod.fst ++ body.order.map (·.expr)).flatMap Expr.aggregateCalls,
      ∀ c' ∈ (columns.map Prod.fst ++ body.order.map (·.expr)).flatMap Expr.aggregateCalls,
        (c == c') = true → results c = results c') :
    List.Forall₂
      (fun e e' => e'.hasAggregate = e.keepsAggregate ∧
        (e.keepsAggregate = false →
          (∀ a ∈ p.aggregates, a.slot ∉ (e.replaced results).reads) →
          e'.value env (p.withResults (p.aggregates.map fun a => results a.source) row) =
            (e.replaced results).value env row))
      (columns.map Prod.fst ++ body.order.map (·.expr))
      (p.columns.map (·.expr) ++ p.order.map (·.expr)) := by
  have hlifted := liftList_of_make h
  have hall := Expr.meantList _ hlifted
  rw [Expr.listAggregateCalls_eq] at hall
  obtain ⟨hlength, heach⟩ := List.forall₂_iff_zip.1 (Expr.each_lifted hlifted)
  refine List.forall₂_iff_zip.2 ⟨hlength, fun {e e'} hmem => ?_⟩
  obtain ⟨before, after, he, hafter⟩ := heach hmem
  have hmeant := Expr.meant e he
  set bound := p.withResults (p.aggregates.map fun a => results a.source) row with hbound
  have hanswers : Answers bound.lookup? results after e.aggregateCalls := by
    refine ⟨fun a ha => lookup?_slot (hall.numbered rfl) results (hafter ha), fun c hc a ha heq => ?_⟩
    exact halike _ ((hall.sources a (hafter ha)).resolve_left List.not_mem_nil) c
      (List.mem_flatMap.2 ⟨e, (List.of_mem_zip hmem).1, hc⟩) heq
  refine ⟨hmeant.left, fun hkeeps hfresh => ?_⟩
  calc e'.value env bound
      = (e'.subst bound.lookup?).value env .empty := (Expr.value_subst env e' bound).symm
    _ = ((e.replaced results).subst bound.lookup?).value env .empty := by
        rw [hmeant.same hkeeps _ results hanswers]
    _ = (e.replaced results).value env bound := Expr.value_subst env _ bound
    _ = (e.replaced results).value env row := Expr.value_congr env fun x hx =>
        lookup?_of_fresh fun a ha hax => hfresh a ha (hax ▸ hx)

/-- Of `x, x + count(*) … ORDER BY count(*)`, with two rows counted for the `x` that is 5. -/
theorem make_means_counted :
    let columns : List (Expr × String) :=
      [(.var "x", "x"), (.binary .add (.var "x") .countAll, "c")]
    let p : Projection :=
      ⟨[⟨.var "x", "x", true⟩, ⟨.binary .add (.var "x") (.var "  agg0"), "c", false⟩], false,
        [⟨.var "  agg0", true⟩], none, none, [⟨.rows, none, false, "  agg0", .countAll⟩]⟩
    let env : EvalEnv := ⟨[], .default, ⟨fun _ => none, ⟨2024, 1, 1, rfl⟩⟩⟩
    let row := p.withResults [.int 2] (Row.empty.set "x" (.int 5))
    make columns ⟨false, false, [], [⟨.countAll, true⟩], none, none⟩ = .ok p ∧
      (Expr.binary .add (.var "x") (.var "  agg0")).value env row = .ok (.int 7) ∧
      (Expr.var "  agg0").value env row = .ok (.int 2) := by
  intro columns p env row
  have hmake : make columns ⟨false, false, [], [⟨.countAll, true⟩], none, none⟩ = .ok p := by cbv
  cases make_means hmake env (Row.empty.set "x" (.int 5)) (fun _ => .int 2)
    fun _ _ _ _ _ => rfl with
  | cons _ hmeans =>
  cases hmeans with
  | cons hcolumn hmeans =>
  cases hmeans with
  | cons hkey _ => exact ⟨hmake, hcolumn.2 rfl (by decide), hkey.2 rfl (by decide)⟩

/-- A name between backquotes may be a hidden name.  Then it has the result of the aggregate, here a
count of 1, in the place of the value of its own, here 5. -/
theorem slot_captured :
    ∃ p lifted,
      make [(.binary .add (.var "  agg0") .countAll, "c")] ⟨false, false, [], [], none, none⟩ =
        .ok p ∧
      p.columns.map (·.expr) = [lifted] ∧
      let env : EvalEnv := ⟨[], .default, ⟨fun _ => none, ⟨2024, 1, 1, rfl⟩⟩⟩
      let row := Row.empty.set "  agg0" (.int 5)
      ((Expr.binary .add (.var "  agg0") .countAll).replaced fun _ => .int 1).value env row =
          .ok (.int 6) ∧
        lifted.value env (p.withResults [.int 1] row) = .ok (.int 2) :=
  ⟨_, _, rfl, rfl, rfl, rfl⟩

end Projection

end PropertyGraph
