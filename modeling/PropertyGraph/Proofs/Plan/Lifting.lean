import PropertyGraph.Plan.Stage
import PropertyGraph.Proofs.Eval.Names

/-!
# What lifted expressions read

Lifting puts hidden names in the place of aggregates, and leaves everything else of an expression
as it is.  So a lifted expression reads what the expression reads, and besides that only hidden
names that have been noted; and none of these if there was no aggregate.
-/

namespace PropertyGraph

namespace Lift

variable {α β : Type} {noted noted' : List Aggregate}

theorem ok_of_bind {c : Lift α} {f : α → Lift β} {b : β}
    (h : (c >>= f) noted = .ok (b, noted')) :
    ∃ a between, c noted = .ok (a, between) ∧ f a between = .ok (b, noted') := by
  change ((c noted).bind fun (a, between) => f a between) = _ at h
  cases hc : c noted with
  | error e => rw [hc] at h; cases h
  | ok r => rw [hc] at h; exact ⟨r.1, r.2, rfl, h⟩

theorem bind_ok {c : Lift α} {f : α → Lift β} {a : α} {b : β} {between : List Aggregate}
    (hc : c noted = .ok (a, between)) (hf : f a between = .ok (b, noted')) :
    (c >>= f) noted = .ok (b, noted') := by
  change ((c noted).bind fun (a, between) => f a between) = _
  rw [hc]
  exact hf

end Lift

/-- From an expression that reads some names to one that reads others, and more aggregates noted:
the new names are old ones or, if there is an aggregate, hidden names noted. -/
structure Lifted (noted noted' : List Aggregate) (aggregates : Bool) (reads reads' : List String) :
    Prop where
  slots : ∀ x ∈ noted.map (·.slot), x ∈ noted'.map (·.slot)
  reads : ∀ x ∈ reads', x ∈ reads ∨ aggregates = true ∧ x ∈ noted'.map (·.slot)

namespace Lifted

variable {noted between noted' : List Aggregate} {a b : Bool} {r s r' s' : List String}

theorem refl (noted : List Aggregate) (a : Bool) (r : List String) : Lifted noted noted a r r :=
  ⟨fun _ hx => hx, fun _ hx => Or.inl hx⟩

/-- One expression after the other. -/
theorem append (h : Lifted noted between a r r') (h' : Lifted between noted' b s s') :
    Lifted noted noted' (a || b) (r ++ s) (r' ++ s') := by
  refine ⟨fun x hx => h'.slots x (h.slots x hx), fun x hx => ?_⟩
  rw [List.mem_append, Bool.or_eq_true]
  rcases List.mem_append.1 hx with hx | hx
  · rcases h.reads x hx with hx | ⟨ha, hx⟩
    · exact Or.inl (Or.inl hx)
    · exact Or.inr ⟨Or.inl ha, h'.slots x hx⟩
  · rcases h'.reads x hx with hx | ⟨hb, hx⟩
    · exact Or.inl (Or.inr hx)
    · exact Or.inr ⟨Or.inr hb, hx⟩

/-- A hidden name in the place of an aggregate. -/
theorem of_note {kind : AggregateKind} {argument : Option Expr} {distinct : Bool}
    {source e : Expr} (h : Lift.note kind argument distinct source noted = .ok (e, noted')) :
    Lifted noted noted' true r e.reads := by
  unfold Lift.note at h
  split at h
  · next aggregate hfind =>
    cases h
    refine ⟨fun _ hx => hx, fun x hx => Or.inr ⟨rfl, ?_⟩⟩
    rw [List.mem_singleton.1 hx]
    exact List.mem_map.2 ⟨aggregate, List.mem_of_find?_eq_some hfind, rfl⟩
  · cases h
    refine ⟨fun x hx => ?_, fun x hx => Or.inr ⟨rfl, ?_⟩⟩
    · rw [List.map_append]
      exact List.mem_append_left _ hx
    · rw [List.mem_singleton.1 hx, List.map_append]
      exact List.mem_append_right _ (List.mem_singleton.2 rfl)

end Lifted

namespace Expr

theorem lifted_call {f : String} {args : List Expr} {d : Bool} {source e : Expr}
    {noted noted' : List Aggregate} {r : List String}
    (h : Lift.call f args d source noted = .ok (e, noted')) : Lifted noted noted' true r e.reads := by
  unfold Lift.call at h
  cases hkind : AggregateKind.ofName? f with
  | none => rw [hkind] at h; cases h
  | some kind =>
    rw [hkind] at h
    match args, h with
    | [argument], h =>
      dsimp only at h
      split at h
      · cases h
      · exact .of_note h
    | [], h => cases h
    | _ :: _ :: _, h => cases h

mutual

theorem lifted (e : Expr) {e' : Expr} {noted noted' : List Aggregate}
    (h : e.liftAggregates noted = .ok (e', noted')) :
    Lifted noted noted' e.hasAggregate e.reads e'.reads := by
  cases e with
  | countAll => exact .of_note h
  | call f args d =>
    unfold liftAggregates at h
    unfold hasAggregate
    split at h
    · next hf =>
      rw [hf]
      exact lifted_call h
    · next hf =>
      obtain ⟨args', between, hargs, h⟩ := Lift.ok_of_bind h
      cases h
      rw [Bool.eq_false_iff.2 hf]
      exact liftedList args hargs
  | property e key =>
    obtain ⟨e', _, he, h⟩ := Lift.ok_of_bind h
    have hlifted := lifted e he
    cases h
    exact hlifted
  | hasLabels e labels =>
    obtain ⟨e', _, he, h⟩ := Lift.ok_of_bind h
    have hlifted := lifted e he
    cases h
    exact hlifted
  | unary op e =>
    obtain ⟨e', _, he, h⟩ := Lift.ok_of_bind h
    have hlifted := lifted e he
    cases h
    exact hlifted
  | isNull e =>
    obtain ⟨e', _, he, h⟩ := Lift.ok_of_bind h
    have hlifted := lifted e he
    cases h
    exact hlifted
  | isNotNull e =>
    obtain ⟨e', _, he, h⟩ := Lift.ok_of_bind h
    have hlifted := lifted e he
    cases h
    exact hlifted
  | index a b =>
    obtain ⟨a', _, ha, h⟩ := Lift.ok_of_bind h
    obtain ⟨b', _, hb, h⟩ := Lift.ok_of_bind h
    cases h
    exact (lifted a ha).append (lifted b hb)
  | binary op a b =>
    obtain ⟨a', _, ha, h⟩ := Lift.ok_of_bind h
    obtain ⟨b', _, hb, h⟩ := Lift.ok_of_bind h
    cases h
    exact (lifted a ha).append (lifted b hb)
  | slice e lower upper =>
    obtain ⟨e', _, he, h⟩ := Lift.ok_of_bind h
    obtain ⟨lower', _, hlower, h⟩ := Lift.ok_of_bind h
    obtain ⟨upper', _, hupper, h⟩ := Lift.ok_of_bind h
    cases h
    exact ((lifted e he).append (liftedOption lower hlower)).append (liftedOption upper hupper)
  | list items =>
    obtain ⟨items', _, hitems, h⟩ := Lift.ok_of_bind h
    cases h
    exact liftedList items hitems
  | map entries =>
    obtain ⟨entries', _, hentries, h⟩ := Lift.ok_of_bind h
    cases h
    exact liftedFields entries hentries
  | case operand branches default =>
    obtain ⟨operand', _, hoperand, h⟩ := Lift.ok_of_bind h
    obtain ⟨branches', _, hbranches, h⟩ := Lift.ok_of_bind h
    obtain ⟨default', _, hdefault, h⟩ := Lift.ok_of_bind h
    cases h
    exact ((liftedOption operand hoperand).append (liftedBranches branches hbranches)).append
      (liftedOption default hdefault)
  | comprehension x source filter result =>
    unfold liftAggregates at h
    split at h
    · cases h
    · obtain ⟨source', between, hsource, h⟩ := Lift.ok_of_bind h
      cases h
      unfold hasAggregate
      rw [Bool.or_assoc]
      exact (lifted source hsource).append (.refl _ _ _)
  | quantified kind x source predicate =>
    unfold liftAggregates at h
    split at h
    · cases h
    · obtain ⟨source', between, hsource, h⟩ := Lift.ok_of_bind h
      cases h
      exact (lifted source hsource).append (.refl _ _ _)
  | literal v => cases h; exact .refl _ _ _
  | parameter x => cases h; exact .refl _ _ _
  | var x => cases h; exact .refl _ _ _
  | pattern part => cases h; exact .refl _ _ _
termination_by structural e

theorem liftedList (es : List Expr) {es' : List Expr} {noted noted' : List Aggregate}
    (h : liftList es noted = .ok (es', noted')) :
    Lifted noted noted' (anyAggregate es) (listReads es) (listReads es') := by
  cases es with
  | nil => cases h; exact .refl _ _ _
  | cons e rest =>
    obtain ⟨e', _, he, h⟩ := Lift.ok_of_bind h
    obtain ⟨rest', _, hrest, h⟩ := Lift.ok_of_bind h
    cases h
    exact (lifted e he).append (liftedList rest hrest)
termination_by structural es

theorem liftedFields (entries : List (String × Expr)) {entries' : List (String × Expr)}
    {noted noted' : List Aggregate} (h : liftFields entries noted = .ok (entries', noted')) :
    Lifted noted noted' (anyEntryAggregate entries) (entryReads entries) (entryReads entries') := by
  cases entries with
  | nil => cases h; exact .refl _ _ _
  | cons entry rest =>
    obtain ⟨key, e⟩ := entry
    obtain ⟨e', _, he, h⟩ := Lift.ok_of_bind h
    obtain ⟨rest', _, hrest, h⟩ := Lift.ok_of_bind h
    cases h
    exact (lifted e he).append (liftedFields rest hrest)
termination_by structural entries

theorem liftedBranches (branches : List (Expr × Expr)) {branches' : List (Expr × Expr)}
    {noted noted' : List Aggregate} (h : liftBranches branches noted = .ok (branches', noted')) :
    Lifted noted noted' (anyBranchAggregate branches) (branchReads branches)
      (branchReads branches') := by
  cases branches with
  | nil => cases h; exact .refl _ _ _
  | cons branch rest =>
    obtain ⟨a, b⟩ := branch
    obtain ⟨a', _, ha, h⟩ := Lift.ok_of_bind h
    obtain ⟨b', _, hb, h⟩ := Lift.ok_of_bind h
    obtain ⟨rest', _, hrest, h⟩ := Lift.ok_of_bind h
    cases h
    exact ((lifted a ha).append (lifted b hb)).append (liftedBranches rest hrest)
termination_by structural branches

theorem liftedOption (o : Option Expr) {o' : Option Expr} {noted noted' : List Aggregate}
    (h : liftOption o noted = .ok (o', noted')) :
    Lifted noted noted' (optionAggregate o) (optionReads o) (optionReads o') := by
  cases o with
  | none => cases h; exact .refl _ _ _
  | some e =>
    obtain ⟨e', _, he, h⟩ := Lift.ok_of_bind h
    have hlifted := lifted e he
    cases h
    exact hlifted
termination_by structural o

end

end Expr

end PropertyGraph
