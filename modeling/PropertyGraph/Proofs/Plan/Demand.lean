import PropertyGraph.Proofs.Eval.Conjunction
import PropertyGraph.Proofs.Pattern.Bindings
import PropertyGraph.Proofs.Pattern.Narrower
import PropertyGraph.Proofs.Pattern.Valued
import PropertyGraph.Proofs.Value.Symmetry

/-!
# Conditions as demands

A condition that becomes part of a pattern is decided by the evaluation of expressions before and by
the demands of a node or a relationship after.  Both come to the same on every solution.  Where a
path hides the name the condition cannot be evaluated at all, and that is no harm as long as it is
not.

    Absorbed         the condition is true in the solutions that meet the demands, and in no other
    TakesUp          constraints demand a condition in this way
    absorb?_spec     so it is with every condition that a pattern takes up
-/

namespace PropertyGraph

/-! ## Labels -/

namespace Constraints

/-- Demands of labels all go to one node. -/
theorem addLabels?_eq_some {g g' : Constraints Expr} {x : String} {labels : List String}
    (h : g.addLabels? x labels = some g') : ∃ i, g.node? x = some i ∧
      g' = { g with nodes := g.nodes.modify i fun n =>
        { n with labels := mergeLabels n.labels labels } } := by
  unfold addLabels? at h
  split at h
  · next hnode =>
    obtain ⟨i, hi⟩ := Option.isSome_iff_exists.1 hnode
    refine ⟨i, hi, ?_⟩
    clear hnode
    induction labels generalizing g with
    | nil =>
      cases h
      show g' = { g' with nodes := g'.nodes.modify i id }
      rw [List.modify_id]
    | cons l rest ih =>
      rw [List.foldlM_cons] at h
      unfold addLabel? at h
      rw [hi] at h
      have hshape : ∀ n : NodeConstraint Expr,
          NodeConstraint.shape { n with labels := mergeLabels n.labels [l] } = n.shape :=
        fun _ => rfl
      rw [ih h]
      · simp only [List.modify_modify_eq]
        rfl
      · rw [← node?_shape, shape_modifyNode g i hshape, node?_shape]
        exact hi
  · cases h

theorem mem_mergeLabels {labels new : List String} {l : String} :
    l ∈ mergeLabels labels new ↔ l ∈ labels ∨ l ∈ new := by
  unfold mergeLabels
  induction new generalizing labels with
  | nil => simp
  | cons a rest ih =>
    rw [List.foldl_cons, ih]
    split
    · next ha =>
      have ha := List.contains_iff_mem.1 ha
      constructor
      · rintro (h | h)
        · exact Or.inl h
        · exact Or.inr (List.mem_cons_of_mem _ h)
      · rintro (h | h)
        · exact Or.inl h
        · rcases List.mem_cons.1 h with rfl | h
          · exact Or.inl ha
          · exact Or.inr h
    · rw [List.mem_append, List.mem_singleton, List.mem_cons, or_assoc]

end Constraints

/-! ## Elements with more demands -/

theorem NodeConstraint.admits_labels (n : NodeConstraint Value) (labels : List String)
    (config : Config) (v : Vertex) :
    NodeConstraint.admits { n with labels := Constraints.mergeLabels n.labels labels } config v
        = true ↔
      n.admits config v = true ∧ labels.all (fun l => v.hasLabel (config.label l)) = true := by
  unfold admits
  simp only [Bool.and_eq_true, List.all_eq_true, Constraints.mem_mergeLabels]
  constructor
  · rintro ⟨hlabels, hprops⟩
    exact ⟨⟨fun l hl => hlabels l (Or.inl hl), hprops⟩, fun l hl => hlabels l (Or.inr hl)⟩
  · rintro ⟨⟨hlabels, hprops⟩, hnew⟩
    exact ⟨fun l hl => hl.elim (hlabels l) (hnew l), hprops⟩

theorem NodeConstraint.admits_property (n : NodeConstraint Value) (key : String) (p : Value)
    (config : Config) (v : Vertex) :
    NodeConstraint.admits { n with properties := n.properties ++ [(key, p)] } config v = true ↔
      n.admits config v = true ∧ equalsProperty (v.property? (config.property key)) p = true := by
  unfold admits
  simp only [List.all_append, List.all_cons, List.all_nil, Bool.and_true, Bool.and_eq_true]
  exact and_assoc.symm

theorem RelationshipConstraint.admits_property (r : RelationshipConstraint Value) (key : String)
    (p : Value) (config : Config) (e : Edge) :
    RelationshipConstraint.admits { r with properties := r.properties ++ [(key, p)] } config e
        = true ↔
      r.admits config e = true ∧ equalsProperty (e.property? (config.property key)) p = true := by
  unfold admits
  simp only [List.all_append, List.all_cons, List.all_nil, Bool.and_true, Bool.and_eq_true]
  exact and_assoc.symm

/-! ## Truth of the conditions -/

namespace Expr

variable {env : EvalEnv} {row : Row}

/-- The parameters with which the parts of a condition compare properties have values. -/
def ComparesBound (params : Entries Value) (e : Expr) : Prop :=
  ∀ c ∈ e.conjuncts, ∀ x key name, c.comparison? = some (x, key, .parameter name) →
    (Entries.get? name params).isSome

/-- A constant has one value in all rows. -/
theorem value_constant {e : Expr} (he : e.isConstant = true)
    (hbound : ∀ name, e = .parameter name → (Entries.get? name env.params).isSome) :
    ∃ p, ∀ row, e.value env row = .ok p := by
  cases e with
  | literal v =>
    refine ⟨v, fun row => ?_⟩
    unfold value
    rw [eval]
    rfl
  | parameter name =>
    obtain ⟨p, hp⟩ := Option.isSome_iff_exists.1 (hbound name rfl)
    refine ⟨p, fun row => ?_⟩
    unfold value
    rw [eval, hp]
    rfl
  | _ => cases he

theorem comparison?_eq_some {c constant : Expr} {x key : String}
    (h : c.comparison? = some (x, key, constant)) : constant.isConstant = true ∧
      (c = .binary .equal (.property (.var x) key) constant ∨
        c = .binary .equal constant (.property (.var x) key)) := by
  unfold comparison? at h
  split at h
  · next target k b =>
    split at h
    · next hb =>
      split at h
      · cases h
        exact ⟨hb, Or.inl rfl⟩
      · cases h
    · cases h
  · next a target k _ =>
    split at h
    · next ha =>
      split at h
      · cases h
        exact ⟨ha, Or.inr rfl⟩
      · cases h
    · cases h
  · cases h

theorem value_var {x : String} {w : Value} (hx : row.lookup? x = some w) :
    (var x).value env row = .ok w := by
  unfold value
  rw [eval]
  show row.get x = _
  unfold Row.get
  rw [hx]

theorem value_property {x key : String} {w : Value} (hx : row.lookup? x = some w) :
    (property (.var x) key).value env row = w.part env.config.property key := by
  show (eval env (.property (.var x) key) row).1 = _
  rw [eval]
  refine (value_bind _ _).trans ?_
  rw [value_var hx]
  rfl

theorem truth_equal (a b : Expr) : truth env row (.binary .equal a b) =
    (a.value env row).bind fun v => (b.value env row).bind fun w => .ok (Value.equal? v w) := by
  have hvalue : (binary .equal a b).value env row = (a.value env row).bind fun v =>
      (b.value env row).bind fun w => .ok (.ofTruth (Value.equal? v w)) := by
    show (eval env (.binary .equal a b) row).1 = _
    rw [eval]
    · refine (value_bind a _).trans ?_
      congr 1
      funext v
      exact value_bind b _
    · exact BinaryOp.noConfusion
    · exact BinaryOp.noConfusion
    · exact BinaryOp.noConfusion
  unfold truth
  rw [hvalue]
  cases a.value env row with
  | error e => rfl
  | ok v =>
    cases b.value env row with
    | error e => rfl
    | ok w => exact toTruth_ofTruth _

/-- Either way round, the comparison says whether the property equals the constant. -/
theorem truth_comparison {c constant : Expr} {x key : String} {w p : Value}
    (h : c.comparison? = some (x, key, constant)) (hp : constant.value env row = .ok p)
    (hx : row.lookup? x = some w) :
    truth env row c = (w.part env.config.property key).map fun v => Value.equal? v p := by
  obtain ⟨-, rfl | rfl⟩ := comparison?_eq_some h
  · rw [truth_equal, value_property hx, hp]
    cases w.part env.config.property key <;> rfl
  · rw [truth_equal, value_property hx, hp]
    cases w.part env.config.property key with
    | error e => rfl
    | ok v => exact congrArg Except.ok (Value.equal?_comm p v)

theorem truth_hasLabels {x : String} {labels : List String} {w : Value}
    (hx : row.lookup? x = some w) : truth env row (.hasLabels (.var x) labels) =
      (w.carries env.config.label labels).bind Value.toTruth := by
  unfold truth
  congr 1
  show (eval env (.hasLabels (.var x) labels) row).1 = _
  rw [eval]
  refine (value_bind _ _).trans ?_
  rw [value_var hx]
  rfl

end Expr

/-! ## Conditions that a pattern takes up -/

namespace Search

variable {q q' : Search} {σ : Store} {row : Row} {c : Expr}

/-- The second search demands the condition besides what the first one does.  Where the condition
can be evaluated, it is true in the solutions that meet the demand, and in no other. -/
structure Absorbed (σ : Store) (row : Row) (q q' : Search) (c : Expr) : Prop where
  narrower : Narrower σ row q q'
  decided : ∀ m t, q.Solution σ row m → c.truth (q.ctx.env σ) (q.rowOf row m) = .ok t →
    (t = some true ↔ q'.Solution σ row m)

section Node

variable {i : Nat} {n : NodeConstraint Value} {x : String}
  {u : NodeConstraint Value → NodeConstraint Value} {D : Vertex → Prop}

theorem absorbed_node (hw : q.pattern.WellFormed) (hn : q.pattern.nodes[i]? = some n)
    (hx : n.name = some x) (hshape : ∀ n, (u n).shape = n.shape)
    (hproperties : ∀ n, n.properties ⊆ (u n).properties)
    (hadmits : ∀ n v, (u n).admits q.ctx.config v = true ↔
      n.admits q.ctx.config v = true ∧ D v)
    (hnode : ∀ out v, out.lookup? x = some (.node v) → ∀ t,
      c.truth (q.ctx.env σ) out = .ok t → (t = some true ↔ D v))
    (hpath : ∀ out p, out.lookup? x = some (.path p) → ∀ t, c.truth (q.ctx.env σ) out ≠ .ok t) :
    Absorbed σ row q (q.withNodes (q.pattern.nodes.modify i u)) c := by
  refine ⟨narrower_withNodes hn hshape hproperties fun n v h => ((hadmits n v).1 h).1,
    fun m t hs ht => ?_⟩
  rw [solution_withNodes hn (congrArg (·.name) (hshape n)) (hadmits n)]
  obtain ⟨v, hv, -⟩ := hs.node i n hn
  rcases hs.lookup_node hw hn hx hv with hlookup | ⟨p, hlookup⟩
  · rw [hnode _ v hlookup t ht]
    constructor
    · exact fun hd => ⟨hs, v, hv, hd⟩
    · rintro ⟨-, w, hw, hd⟩
      rw [hv] at hw
      cases hw
      exact hd
  · exact absurd ht (hpath _ p hlookup t)

end Node

section Relationship

variable {k : Nat} {r : RelationshipConstraint Value} {x : String}
  {u : RelationshipConstraint Value → RelationshipConstraint Value} {D : Edge → Prop}

theorem absorbed_relationship (hw : q.pattern.WellFormed)
    (hr : q.pattern.relationships[k]? = some r) (hrange : r.range = none) (hx : r.name = some x)
    (hshape : ∀ r, (u r).shape = r.shape)
    (hadmits : ∀ e, (u r).admits q.ctx.config e = true ↔ r.admits q.ctx.config e = true ∧ D e)
    (hedge : ∀ out e, out.lookup? x = some (.relationship e) → ∀ t,
      c.truth (q.ctx.env σ) out = .ok t → (t = some true ↔ D e))
    (hpath : ∀ out p, out.lookup? x = some (.path p) → ∀ t, c.truth (q.ctx.env σ) out ≠ .ok t) :
    Absorbed σ row q (q.withRelationships (q.pattern.relationships.modify k u)) c := by
  refine ⟨narrower_withRelationships hr hrange hshape fun e h => ((hadmits e).1 h).1,
    fun m t hs ht => ?_⟩
  rw [solution_withRelationships hr hrange (hshape r) hadmits]
  obtain ⟨b, v, w, hb, -, -, hfits⟩ := hs.relationship k r hr
  obtain ⟨e, rfl, -, -⟩ := hfits.edge_of_range hrange
  rcases hs.lookup_edge hw hr hx hb with hlookup | ⟨p, hlookup⟩
  · rw [hedge _ e hlookup t ht]
    constructor
    · exact fun hd => ⟨hs, e, _, _, hb, hd⟩
    · rintro ⟨-, e', first, second, hb', hd⟩
      rw [hb] at hb'
      cases hb'
      exact hd
  · exact absurd ht (hpath _ p hlookup t)

end Relationship

/-- A property that is not there is null, which equals nothing. -/
theorem equal?_getD {found : Option Value} {p : Value} :
    Value.equal? (found.getD .null) p = some true ↔ equalsProperty found p = true := by
  cases found with
  | none =>
    rw [Option.getD_none, Value.equal?_null_left]
    constructor <;> nofun
  | some w =>
    rw [equalsProperty_eq_true, Option.getD_some]
    constructor
    · exact fun h => ⟨w, rfl, h⟩
    · rintro ⟨_, ⟨rfl⟩, h⟩
      exact h

/-- With values for the properties the constraints demand the condition, besides what the search
demands. -/
def TakesUp (σ : Store) (row : Row) (q : Search) (g : Constraints Expr) (c : Expr) : Prop :=
  ∃ pattern, g.mapM (fun e => e.value (q.ctx.env σ) row) = .ok pattern ∧
    Absorbed σ row q { q with pattern := pattern } c

section TakesUp

variable {g : Constraints Expr} {x key : String} {i : Nat} {constant : Expr} {p : Value}

theorem takesUp_labels (hw : q.pattern.WellFormed)
    (hvalues : g.mapM (fun e => e.value (q.ctx.env σ) row) = .ok q.pattern)
    (hi : q.pattern.node? x = some i) (labels : List String) :
    TakesUp σ row q { g with nodes := g.nodes.modify i fun n =>
      { n with labels := Constraints.mergeLabels n.labels labels } } (.hasLabels (.var x) labels) := by
  obtain ⟨hopt, hpaths, hnodes, hrels⟩ := Constraints.mapM_eq_ok.1 hvalues
  obtain ⟨n, hn, hx⟩ := Constraints.node?_eq_some hi
  refine ⟨{ q.pattern with nodes := q.pattern.nodes.modify i fun n =>
    { n with labels := Constraints.mergeLabels n.labels labels } }, ?_, ?_⟩
  · refine Constraints.mapM_eq_ok.2 ⟨hopt, hpaths, ?_, hrels⟩
    refine forall₂_modify hnodes (fun _ _ => id) (fun n n' hn => ?_) i
    obtain ⟨ps, hps, rfl⟩ := hn
    exact ⟨ps, hps, rfl⟩
  · refine absorbed_node hw hn hx (fun _ => rfl) (fun _ => List.Subset.refl _)
      (fun n v => n.admits_labels labels q.ctx.config v) (fun out v hout t ht => ?_)
      (fun out p hout t ht => ?_)
    · rw [Expr.truth_hasLabels hout] at ht
      cases ht
      exact Option.some_inj
    · rw [Expr.truth_hasLabels hout] at ht
      cases ht

theorem takesUp_nodeProperty (hw : q.pattern.WellFormed)
    (hvalues : g.mapM (fun e => e.value (q.ctx.env σ) row) = .ok q.pattern)
    (hi : q.pattern.node? x = some i) (hp : constant.value (q.ctx.env σ) row = .ok p)
    (htruth : ∀ {out : Row} {w : Value}, out.lookup? x = some w → c.truth (q.ctx.env σ) out =
      (w.part q.ctx.config.property key).map fun v => Value.equal? v p) :
    TakesUp σ row q { g with nodes := g.nodes.modify i fun n =>
      { n with properties := n.properties ++ [(key, constant)] } } c := by
  obtain ⟨hopt, hpaths, hnodes, hrels⟩ := Constraints.mapM_eq_ok.1 hvalues
  obtain ⟨n, hn, hx⟩ := Constraints.node?_eq_some hi
  refine ⟨{ q.pattern with nodes := q.pattern.nodes.modify i fun n =>
    { n with properties := n.properties ++ [(key, p)] } }, ?_, ?_⟩
  · refine Constraints.mapM_eq_ok.2 ⟨hopt, hpaths, ?_, hrels⟩
    refine forall₂_modify hnodes (fun _ _ => id) (fun n n' hn => ?_) i
    obtain ⟨ps, hps, rfl⟩ := hn
    exact ⟨_, Constraints.mapProperties_append hps key hp, rfl⟩
  · refine absorbed_node hw hn hx (fun _ => rfl) (fun n => List.subset_append_left _ _)
      (fun n v => n.admits_property key p q.ctx.config v) (fun out v hout t ht => ?_)
      (fun out path hout t ht => ?_)
    · rw [htruth hout] at ht
      cases ht
      exact equal?_getD
    · rw [htruth hout] at ht
      cases ht

theorem takesUp_relationshipProperty (hw : q.pattern.WellFormed)
    (hvalues : g.mapM (fun e => e.value (q.ctx.env σ) row) = .ok q.pattern)
    (hi : q.pattern.relationship? x = some i)
    (hwalk : ¬ (g.relationships[i]?.any (·.isWalk)) = true)
    (hp : constant.value (q.ctx.env σ) row = .ok p)
    (htruth : ∀ {out : Row} {w : Value}, out.lookup? x = some w → c.truth (q.ctx.env σ) out =
      (w.part q.ctx.config.property key).map fun v => Value.equal? v p) :
    TakesUp σ row q { g with relationships := g.relationships.modify i fun r =>
      { r with properties := r.properties ++ [(key, constant)] } } c := by
  obtain ⟨hopt, hpaths, hnodes, hrels⟩ := Constraints.mapM_eq_ok.1 hvalues
  obtain ⟨r, hr, hx⟩ := Constraints.relationship?_eq_some hi
  have hrange : r.range = none := by
    obtain ⟨r', hr', heq⟩ :=
      Constraints.relationship_of_shape (Constraints.shape_of_mapM hvalues) hr
    rw [show r.range = r'.range from congrArg (·.range) heq]
    rw [hr', Option.any_some, RelationshipConstraint.isWalk, Option.not_isSome_iff_eq_none] at hwalk
    exact hwalk
  refine ⟨{ q.pattern with relationships := q.pattern.relationships.modify i fun r =>
    { r with properties := r.properties ++ [(key, p)] } }, ?_, ?_⟩
  · refine Constraints.mapM_eq_ok.2 ⟨hopt, hpaths, hnodes, ?_⟩
    refine forall₂_modify hrels (fun _ _ => id) (fun r r' hr => ?_) i
    obtain ⟨ps, hps, rfl⟩ := hr
    exact ⟨_, Constraints.mapProperties_append hps key hp, rfl⟩
  · refine absorbed_relationship hw hr hrange hx (fun _ => rfl)
      (fun e => r.admits_property key p q.ctx.config e) (fun out e hout t ht => ?_)
      (fun out path hout t ht => ?_)
    · rw [htruth hout] at ht
      cases ht
      exact equal?_getD
    · rw [htruth hout] at ht
      cases ht

/-- A condition that a pattern takes up becomes a demand that decides it. -/
theorem absorb?_spec {g' : Constraints Expr} (hw : q.pattern.WellFormed)
    (hvalues : g.mapM (fun e => e.value (q.ctx.env σ) row) = .ok q.pattern)
    (hbound : ∀ x key name, c.comparison? = some (x, key, .parameter name) →
      (Entries.get? name q.ctx.params).isSome)
    (h : g.absorb? c = some g') : TakesUp σ row q g' c := by
  have hshape := Constraints.shape_of_mapM hvalues
  have hnode : ∀ x, q.pattern.node? x = g.node? x := by
    intro x
    rw [← Constraints.node?_shape, hshape, Constraints.node?_shape]
  have hrelationship : ∀ x, q.pattern.relationship? x = g.relationship? x := by
    intro x
    rw [← Constraints.relationship?_shape, hshape, Constraints.relationship?_shape]
  unfold Constraints.absorb? at h
  split at h
  · next x labels =>
    obtain ⟨i, hi, rfl⟩ := Constraints.addLabels?_eq_some h
    exact takesUp_labels hw hvalues ((hnode x).trans hi) labels
  · obtain ⟨⟨x, key, constant⟩, hcomparison, h⟩ := Option.bind_eq_some_iff.1 h
    simp only at h
    obtain ⟨hconstant, -⟩ := Expr.comparison?_eq_some hcomparison
    obtain ⟨p, hp⟩ : ∃ p, ∀ out, constant.value (q.ctx.env σ) out = .ok p :=
      Expr.value_constant hconstant fun name hname => hbound x key name (hname ▸ hcomparison)
    have htruth : ∀ {out : Row} {w : Value}, out.lookup? x = some w →
        c.truth (q.ctx.env σ) out =
          (w.part q.ctx.config.property key).map fun v => Value.equal? v p :=
      Expr.truth_comparison hcomparison (hp _)
    unfold Constraints.addProperty? at h
    split at h
    · next i hi =>
      cases h
      exact takesUp_nodeProperty hw hvalues ((hnode x).trans hi) (hp row) htruth
    · next i hnone hi =>
      split at h
      · cases h
      · next hwalk =>
        cases h
        exact takesUp_relationshipProperty hw hvalues ((hrelationship x).trans hi) hwalk (hp row)
          htruth
    · cases h

end TakesUp

end Search

end PropertyGraph
