import PropertyGraph.Proofs.Pattern.Exact
import PropertyGraph.Proofs.Plan.Checked
import PropertyGraph.Proofs.Run.Assembled

/-!
# Queries that never want for a name

What planning checks is enough for most clauses: in the rows that the stages before give, whatever
they evaluate finds its names.  Three kinds of expression are not checked, or checked against names
that are not there when they are evaluated: properties in patterns, columns over a group without
rows, and arguments of aggregates that stand in sort keys.  Where these read known names too, no
run of the plan fails for want of a name.

    Stage.ReadsKnown    what planning has not checked of a stage
    Planned.sound       a clause planned after stages that keep to their names
    Plan.never_unbound  a plan whose stages read known names, carried out in any store
    Plan.unbound_key    a property in a pattern, whose name nothing binds
-/

namespace PropertyGraph

theorem readsOnly_iff {names : List String} {es : List Expr} :
    ReadsOnly names es ↔ ∀ e ∈ es, ∀ x ∈ e.reads, x ∈ names := by
  unfold ReadsOnly
  simp only [Expr.mem_freeNames]

/-! ## Projections -/

namespace Projection

variable {names : List String} {noted noted' : List Aggregate}

/-- Lifting leaves the columns their names; only columns that are no keys read hidden names. -/
theorem liftColumns_spec {cs : List (Expr × String)} {columns : List Column}
    (h : liftColumns cs noted = .ok (columns, noted')) (hcs : ReadsOnly names (cs.map Prod.fst)) :
    columns.map (·.name) = cs.map Prod.snd ∧
      (∀ x ∈ noted.map (·.slot), x ∈ noted'.map (·.slot)) ∧
      ReadsOnly (names ++ noted'.map (·.slot)) (columns.map (·.expr)) ∧
      ReadsOnly names ((columns.filter (·.isKey)).map (·.expr)) := by
  induction cs generalizing noted columns with
  | nil => cases h; exact ⟨rfl, fun _ hx => hx, nofun, nofun⟩
  | cons c rest ih =>
    obtain ⟨e, name⟩ := c
    obtain ⟨lifted, between, he, h⟩ := Lift.ok_of_bind h
    obtain ⟨rest', _, hrest, h⟩ := Lift.ok_of_bind h
    cases h
    obtain ⟨hreads, hcs⟩ := ReadsOnly.cons.1 hcs
    have hreads := readsOnly_iff.1 hreads e (List.mem_singleton.2 rfl)
    obtain ⟨hnames, hslots, hcolumns, hkeys⟩ := ih hrest hcs
    have hlifted := e.lifted he
    refine ⟨congrArg (name :: ·) hnames, fun x hx => hslots x (hlifted.slots x hx),
      ReadsOnly.cons.2 ⟨readsOnly_iff.2 (List.forall_mem_singleton.2 fun x hx => ?_), hcolumns⟩, ?_⟩
    · rcases hlifted.reads x hx with hx | ⟨-, hx⟩
      · exact List.mem_append_left _ (hreads x hx)
      · exact List.mem_append_right _ (hslots x hx)
    · rw [List.filter_cons]
      split
      · next hkey =>
        refine ReadsOnly.cons.2 ⟨readsOnly_iff.2 (List.forall_mem_singleton.2 fun x hx => ?_), hkeys⟩
        rcases hlifted.reads x hx with hx | ⟨haggregate, -⟩
        · exact hreads x hx
        · rw [haggregate] at hkey
          cases hkey
      · exact hkeys

theorem liftOrder_spec {aggregating : Bool} {keys order : List SortKey}
    (h : liftOrder aggregating keys noted = .ok (order, noted'))
    (hkeys : ReadsOnly names (keys.map (·.expr))) :
    (∀ x ∈ noted.map (·.slot), x ∈ noted'.map (·.slot)) ∧
      ReadsOnly (names ++ noted'.map (·.slot)) (order.map (·.expr)) := by
  induction keys generalizing noted order with
  | nil => cases h; exact ⟨fun _ hx => hx, nofun⟩
  | cons key rest ih =>
    have hstep : ∃ lifted between, key.expr.liftAggregates noted = .ok (lifted, between) ∧
        ∃ rest' , liftOrder aggregating rest between = .ok (rest', noted') ∧
          order = { key with expr := lifted } :: rest' := by
      unfold liftOrder at h
      split at h
      · cases h
      · obtain ⟨lifted, between, he, h⟩ := Lift.ok_of_bind h
        obtain ⟨rest', _, hrest, h⟩ := Lift.ok_of_bind h
        cases h
        exact ⟨lifted, between, he, rest', hrest, rfl⟩
    obtain ⟨lifted, between, he, rest', hrest, rfl⟩ := hstep
    obtain ⟨hreads, hkeys⟩ := ReadsOnly.cons.1 hkeys
    obtain ⟨hslots, horder⟩ := ih hrest hkeys
    have hlifted := key.expr.lifted he
    refine ⟨fun x hx => hslots x (hlifted.slots x hx),
      ReadsOnly.cons.2 ⟨readsOnly_iff.2 (List.forall_mem_singleton.2 fun x hx => ?_), horder⟩⟩
    rcases hlifted.reads x hx with hx | ⟨-, hx⟩
    · exact List.mem_append_left _
        (readsOnly_iff.1 hreads key.expr (List.mem_singleton.2 rfl) x hx)
    · exact List.mem_append_right _ (hslots x hx)

end Projection

namespace Plan

variable {scope scope' : Scope}

theorem readsOnly_starColumns {body : ProjectionBody} {columns : List (Expr × String)}
    (h : starColumns scope body = .ok columns) :
    ReadsOnly scope.names (columns.map Prod.fst) := by
  have hmem : ∀ names : List String, ∀ x ∈ Names.ofList names, x ∈ names := by
    intro names
    have key : ∀ (names : List String) (set : Names),
        ∀ x ∈ names.foldl (fun set name => Names.insert name set) set, x ∈ set ∨ x ∈ names := by
      intro names
      induction names with
      | nil => exact fun set x hx => Or.inl hx
      | cons name rest ih =>
        intro set x hx
        rcases ih _ x hx with hx | hx
        · rcases (Names.mem_insert name x set).1 hx with rfl | hx
          · exact Or.inr List.mem_cons_self
          · exact Or.inl hx
        · exact Or.inr (List.mem_cons_of_mem _ hx)
    exact fun x hx => (key names [] x hx).resolve_left nofun
  unfold starColumns at h
  split at h
  · dsimp only at h
    split at h
    · cases h
    · cases h
      refine readsOnly_iff.2 fun e he x hx => ?_
      rw [List.map_map] at he
      obtain ⟨y, hy, rfl⟩ := List.mem_map.1 he
      rw [List.mem_singleton.1 hx]
      exact hmem _ y hy
  · cases h
    exact nofun

theorem readsOnly_addColumn {columns columns' : List (Expr × String)} {item : ProjectionItem}
    (h : addColumn scope columns item = .ok columns')
    (hcolumns : ReadsOnly scope.names (columns.map Prod.fst)) :
    ReadsOnly scope.names (columns'.map Prod.fst) := by
  obtain ⟨_, hcheck, h⟩ := ok_of_bind h
  split at h
  · cases h
  · cases h
    rw [List.map_append]
    exact List.forall_mem_append.2 ⟨hcolumns, Scope.readsOnly_of_check hcheck⟩

/-- What a projection reads, if the arguments of its aggregates read names in scope. -/
theorem reads_of_planProjection {body : ProjectionBody} {p : Projection}
    (h : planProjection scope body = .ok p)
    (harguments : ∀ a ∈ p.aggregates, ReadsOnly scope.names a.argument.toList) :
    p.Reads scope.names := by
  obtain ⟨stars, hstars, h⟩ := ok_of_bind h
  obtain ⟨columns, hcolumns, h⟩ := ok_of_bind h
  obtain ⟨_, horder, h⟩ := ok_of_bind h
  obtain ⟨_, hcut, h⟩ := ok_of_bind h
  obtain ⟨⟨lifted, noted⟩, hlift, h⟩ := ok_of_bind h
  obtain ⟨⟨order, aggregates⟩, hliftOrder, h⟩ := ok_of_bind h
  have hreads : ReadsOnly scope.names (columns.map Prod.fst) := by
    have key : ∀ (items : List ProjectionItem) (before after : List (Expr × String)),
        items.foldlM (addColumn scope) before = .ok after →
        ReadsOnly scope.names (before.map Prod.fst) →
        ReadsOnly scope.names (after.map Prod.fst) := by
      intro items
      induction items with
      | nil => intro before after h hbefore; cases h; exact hbefore
      | cons item rest ih =>
        intro before after h hbefore
        obtain ⟨between, hadd, h⟩ := ok_of_bind h
        exact ih between after h (readsOnly_addColumn hadd hbefore)
    exact key _ _ _ hcolumns (readsOnly_starColumns hstars)
  obtain ⟨hnames, -, hcolumnReads, hkeys⟩ := Projection.liftColumns_spec hlift hreads
  obtain ⟨hslots, horderReads⟩ :=
    Projection.liftOrder_spec hliftOrder (Scope.readsOnly_of_checkAll horder)
  dsimp only at h
  split at h
  · cases h
  · cases h
    refine ⟨hcolumnReads.sub fun x hx => ?_, hkeys, harguments, horderReads.sub fun x hx => ?_,
      Scope.readsOnly_of_checkAll hcut⟩
    · exact List.mem_append.2 ((List.mem_append.1 hx).imp_right (hslots x))
    · have hcolumnNames : Projection.names ⟨lifted, body.distinct, order, body.skip, body.limit,
          aggregates⟩ = columns.map Prod.snd := hnames
      rw [hcolumnNames, List.mem_append, List.mem_append]
      rw [List.mem_append, Scope.mem_declare] at hx
      unfold Projection.slots
      tauto

/-! ## Writes -/

theorem names_directed (part : PatternPart) : (directed part).names = part.names := by
  have hrels : (directed part).relationships.filterMap (·.name) =
      part.relationships.filterMap (·.name) := by
    unfold PatternPart.relationships directed
    rw [List.map_map, List.filterMap_map, List.filterMap_map]
    rfl
  have hnodes : (directed part).nodes = part.nodes := by
    unfold PatternPart.nodes directed
    rw [List.map_map]
    rfl
  unfold PatternPart.names
  rw [hrels, hnodes]
  rfl

theorem readsOnly_of_checkSetItem {item : SetItem} (h : checkSetItem scope item = .ok ()) :
    ReadsOnly scope.names item.exprs := by
  cases item with
  | property target key e => exact Scope.readsOnly_of_checkAll h
  | replace x e => exact Scope.readsOnly_of_checkAll h
  | merge x e => exact Scope.readsOnly_of_checkAll h
  | labels x labels => exact Scope.readsOnly_of_check h

theorem readsOnly_of_checkRemoveItem {item : RemoveItem}
    (h : checkRemoveItem scope item = .ok ()) : ReadsOnly scope.names item.exprs := by
  cases item with
  | property target key => exact Scope.readsOnly_of_check h
  | labels x labels => exact Scope.readsOnly_of_check h

end Plan

/-! ## Stages that read known names -/

namespace Stage

/-- The names that the rows of a stage bind, if its own rows bind some names. -/
def bound (names : List String) : Stage → List String
  | .matching g _ => names ++ g.names
  | .unwind _ x => names ++ [x]
  | .project p => p.names
  | .create parts | .createApart parts => names ++ parts.flatMap (·.names)
  | .merge _ part _ _ => names ++ part.names
  | .filter _ | .set _ | .remove _ | .delete _ _ => names

/-- What planning does not check of a stage.  The properties of a pattern to be matched read known
names, and those of a pattern to be created known names and names created before; a projection
that may be of a group without rows reads no names of rows; aggregates have arguments that read
known names. -/
def ReadsKnown (names : List String) : Stage → Prop
  | .matching g _ => ReadsOnly names g.propertyExprs
  | .create parts => Creation.InOrder names (Creation.ofParts parts)
  | .createApart parts => ∀ part ∈ parts, Creation.InOrder names (Creation.ofParts [part])
  | .merge g part _ _ =>
    ReadsOnly names g.propertyExprs ∧ Creation.InOrder names (Creation.ofParts [part])
  | .project p => p.ReadsAlone ∧ ∀ a ∈ p.aggregates, ReadsOnly names a.argument.toList
  | .filter _ | .unwind _ _ | .set _ | .remove _ | .delete _ _ => True

instance {names : List String} {es : List Expr} : Decidable (ReadsOnly names es) :=
  inferInstanceAs (Decidable (∀ e ∈ es, ∀ x ∈ e.freeNames, x ∈ names))

instance decidableInOrder (names : List String) (steps : List Creation) :
    Decidable (Creation.InOrder names steps) :=
  match steps with
  | [] => .isTrue trivial
  | step :: rest =>
    have := decidableInOrder (step.2.toList ++ names) rest
    inferInstanceAs (Decidable (_ ∧ _))

instance {p : Projection} : Decidable p.ReadsAlone :=
  inferInstanceAs (Decidable (p.aggregates ≠ [] → p.keyExprs = [] → _ ∧ _))

instance {names : List String} {stage : Stage} : Decidable (stage.ReadsKnown names) :=
  match stage with
  | .matching g _ => inferInstanceAs (Decidable (ReadsOnly names g.propertyExprs))
  | .create parts => inferInstanceAs (Decidable (Creation.InOrder names (Creation.ofParts parts)))
  | .createApart parts => inferInstanceAs (Decidable
      (∀ part ∈ parts, Creation.InOrder names (Creation.ofParts [part])))
  | .merge .. => inferInstanceAs (Decidable (_ ∧ _))
  | .project .. => inferInstanceAs (Decidable (_ ∧ _))
  | .filter _ | .unwind _ _ | .set _ | .remove _ | .delete _ _ => .isTrue trivial

/-- The names that the rows of the last of some stages bind. -/
def allBound (names : List String) (stages : List Stage) : List String :=
  stages.foldl bound names

/-- Every stage reads names that the rows before it bind. -/
def AllReadKnown (names : List String) : List Stage → Prop
  | [] => True
  | stage :: rest => stage.ReadsKnown names ∧ AllReadKnown (stage.bound names) rest

instance decidableAllReadKnown (names : List String) (stages : List Stage) :
    Decidable (AllReadKnown names stages) :=
  match stages with
  | [] => .isTrue trivial
  | stage :: rest =>
    have := decidableAllReadKnown (stage.bound names) rest
    inferInstanceAs (Decidable (_ ∧ _))

theorem allReadKnown_concat {names : List String} {stages : List Stage} {stage : Stage} :
    AllReadKnown names (stages ++ [stage]) ↔
      AllReadKnown names stages ∧ stage.ReadsKnown (allBound names stages) := by
  induction stages generalizing names with
  | nil => exact and_comm
  | cons first rest ih =>
    show _ ∧ AllReadKnown _ (rest ++ [stage]) ↔ (_ ∧ _) ∧ _
    rw [ih, and_assoc]
    rfl

theorem inOrder_sub {names more : List String} {steps : List Creation}
    (h : Creation.InOrder names steps) (hsub : ∀ x ∈ names, x ∈ more) :
    Creation.InOrder more steps := by
  induction steps generalizing names more with
  | nil => trivial
  | cons step rest ih =>
    refine ⟨h.1.sub hsub, ih h.2 fun x hx => ?_⟩
    exact List.mem_append.2 ((List.mem_append.1 hx).imp_right (hsub x))

theorem ReadsKnown.sub {names more : List String} {stage : Stage} (h : stage.ReadsKnown names)
    (hsub : ∀ x ∈ names, x ∈ more) : stage.ReadsKnown more := by
  cases stage with
  | matching g condition => exact ReadsOnly.sub h hsub
  | create parts => exact inOrder_sub h hsub
  | createApart parts => exact fun part hpart => inOrder_sub (h part hpart) hsub
  | merge g part onCreate onMatch => exact ⟨h.1.sub hsub, inOrder_sub h.2 hsub⟩
  | project p => exact ⟨h.1, fun a ha => (h.2 a ha).sub hsub⟩
  | filter e => trivial
  | unwind e x => trivial
  | set items => trivial
  | remove items => trivial
  | delete detach targets => trivial

end Stage

namespace Plan

/-- A stage leads from one scope to another, as far as planning has not checked it; the second
scope has all names that its rows bind. -/
structure Fits (scope : Scope) (stage : Stage) (scope' : Scope) : Prop where
  bound : ∀ names, (∀ x ∈ names, x ∈ scope.names) → ∀ x ∈ stage.bound names, x ∈ scope'.names
  lead : stage.ReadsKnown scope.names → Stage.Lead [stage] scope.names scope'.names

variable {scope scope' : Scope} {stage : Stage}

theorem fits_filter {e : Expr} (h : scope.check e = .ok ()) : Fits scope (.filter e) scope :=
  ⟨fun _ hnames => hnames, fun _ => Stage.lead_filter (Scope.readsOnly_of_check h)⟩

theorem fits_unwind {e : Expr} {x : String} (h : scope.check e = .ok ()) :
    Fits scope (.unwind e x) (scope.declare [x]) := by
  refine ⟨fun names hnames y hy => ?_, fun _ => ?_⟩
  · rw [Scope.mem_declare]
    exact (List.mem_append.1 hy).imp_left (hnames y)
  · exact (Stage.lead_unwind (Scope.readsOnly_of_check h) x).sub fun y hy =>
      List.mem_append.2 (Scope.mem_declare.1 hy)

/-- What is left of a condition reads what the whole condition reads. -/
theorem fits_matching {optional : Bool} {parts : List PatternPart} {condition : Option Expr}
    (h : planMatch scope optional parts condition = .ok (stage, scope')) :
    Fits scope stage scope' := by
  obtain ⟨pattern, -, h⟩ := ok_of_bind h
  obtain ⟨_, -, h⟩ := ok_of_bind h
  have hfits : ∀ (planned : Constraints Expr) (left : Option Expr),
      planned.names = pattern.names →
      ReadsOnly (scope.names ++ pattern.names) left.toList →
      Fits scope (.matching planned left) (scope.declare pattern.names) := by
    intro planned left hnames hleft
    rw [← hnames] at hleft ⊢
    refine ⟨fun names hsub x hx => ?_, fun hprops => ?_⟩
    · rw [Scope.mem_declare]
      exact (List.mem_append.1 hx).imp_left (hsub x)
    · exact (Stage.lead_matching hprops hleft).sub fun x hx =>
        List.mem_append.2 (Scope.mem_declare.1 hx)
  cases condition with
  | none =>
    cases h
    exact hfits pattern none rfl nofun
  | some e =>
    obtain ⟨_, hcheck, h⟩ := ok_of_bind h
    cases h
    obtain ⟨hshape, hleft⟩ := pattern.absorbAll_spec e.conjuncts
    refine hfits _ _ (Constraints.names_of_shape hshape) (readsOnly_iff.2 fun c hc x hx => ?_)
    obtain ⟨part, hpart, hx⟩ :=
      Expr.parts_conjunction (f := Expr.reads) (fun _ _ => rfl) _ c (Option.mem_toList.1 hc) x hx
    have hx :=
      Expr.parts_conjuncts (f := Expr.reads) (fun _ _ => rfl) e part (hleft part hpart) x hx
    have he := readsOnly_iff.1 (Scope.readsOnly_of_check hcheck) e (List.mem_singleton.2 rfl)
    exact List.mem_append.2 (Scope.mem_declare.1 (he x hx))

theorem fits_project {body : ProjectionBody} {p : Projection}
    (h : planProjection scope body = .ok p) : Fits scope (.project p) ⟨p.names⟩ :=
  ⟨fun _ _ _ hx => hx, fun hknown =>
    Stage.lead_project (reads_of_planProjection h hknown.2) hknown.1⟩

/-- The scope after a creation has the names of the parts, and no others but those before. -/
theorem mem_created {parts : List PatternPart} {x : String} :
    x ∈ ((parts.map fun p => p.names.filter (!scope.has ·)).foldl Scope.declare scope).names ↔
      x ∈ scope.names ∨ ∃ part ∈ parts, x ∈ part.names := by
  rw [Scope.mem_foldl_declare]
  simp only [List.mem_map, exists_exists_and_eq_and, List.mem_filter]
  have hhas : (!scope.has x) = true ↔ x ∉ scope.names := by
    unfold Scope.has
    rw [Bool.not_eq_true', ← Bool.not_eq_true, List.contains_iff_mem]
  simp only [hhas]
  constructor
  · exact Or.imp_right fun ⟨part, hpart, hx, _⟩ => ⟨part, hpart, hx⟩
  · rintro (hx | ⟨part, hpart, hx⟩)
    · exact Or.inl hx
    · exact (em (x ∈ scope.names)).imp_right fun hnew => ⟨part, hpart, hx, hnew⟩

theorem fits_create {parts : List PatternPart}
    (h : planCreate scope parts = .ok (stage, scope')) : Fits scope stage scope' := by
  obtain ⟨_, -, h⟩ := ok_of_bind h
  obtain ⟨_, -, h⟩ := ok_of_bind h
  cases h
  have hbound : ∀ names : List String, (∀ x ∈ names, x ∈ scope.names) →
      ∀ x ∈ names ++ parts.flatMap (·.names),
        x ∈ ((parts.map fun p => p.names.filter (!scope.has ·)).foldl Scope.declare scope).names := by
    intro names hsub x hx
    rw [mem_created]
    exact (List.mem_append.1 hx).imp (hsub x) List.mem_flatMap.1
  split
  · refine ⟨hbound, fun horder => Stage.lead_createApart horder fun x hx => ?_⟩
    rw [mem_created] at hx
    refine hx.imp_right fun ⟨part, hpart, hx⟩ => ⟨part, hpart, ?_⟩
    exact Creation.mem_known_part (List.mem_singleton.2 rfl) hx _
  · refine ⟨hbound, fun horder => (Stage.lead_create horder).sub fun x hx => ?_⟩
    rw [mem_created] at hx
    rcases hx with hx | ⟨part, hpart, hx⟩
    · exact Creation.mem_known.2 (Or.inl hx)
    · exact Creation.mem_known_part hpart hx _

theorem fits_merge {part : PatternPart} {onCreate onMatch : List SetItem}
    (h : planMerge scope part onCreate onMatch = .ok (stage, scope')) :
    Fits scope stage scope' := by
  obtain ⟨_, hitems, h⟩ := ok_of_bind h
  obtain ⟨pattern, hpattern, h⟩ := ok_of_bind h
  obtain ⟨_, -, h⟩ := ok_of_bind h
  cases h
  refine ⟨fun names hsub x hx => ?_, fun hknown => ?_⟩
  · rw [Scope.mem_declare, ← names_directed]
    exact (List.mem_append.1 hx).imp_left (hsub x)
  · refine Stage.lead_merge hknown.1 hknown.2 (fun x hx => ?_) (fun x hx => ?_)
      fun item hitem => readsOnly_of_checkSetItem (ok_of_forM hitems item hitem)
    · rw [Scope.mem_declare] at hx
      exact List.mem_append.2 (hx.imp_right (Constraints.mem_names_ofParts hpattern).2)
    · rw [Scope.mem_declare] at hx
      rcases hx with hx | hx
      · exact Creation.mem_known.2 (Or.inl hx)
      · rw [← names_directed] at hx
        exact Creation.mem_known_part (List.mem_singleton.2 rfl) hx _

theorem fits_set {items : List SetItem} (h : items.forM (checkSetItem scope) = .ok ()) :
    Fits scope (.set items) scope :=
  ⟨fun _ hnames => hnames, fun _ =>
    Stage.lead_set fun item hitem => readsOnly_of_checkSetItem (ok_of_forM h item hitem)⟩

theorem fits_remove {items : List RemoveItem} (h : items.forM (checkRemoveItem scope) = .ok ()) :
    Fits scope (.remove items) scope :=
  ⟨fun _ hnames => hnames, fun _ =>
    Stage.lead_remove fun item hitem => readsOnly_of_checkRemoveItem (ok_of_forM h item hitem)⟩

theorem fits_delete {detach : Bool} {targets : List Expr}
    (h : scope.checkAll targets = .ok ()) : Fits scope (.delete detach targets) scope :=
  ⟨fun _ hnames => hnames, fun _ => Stage.lead_delete detach (Scope.readsOnly_of_checkAll h)⟩

/-! ## Clause after clause -/

/-- The stages planned so far lead to the scope, if they read known names. -/
structure Progress.Sound (p : Progress) : Prop where
  bound : ∀ x ∈ Stage.allBound [] p.stages, x ∈ p.scope.names
  lead : Stage.AllReadKnown [] p.stages → Stage.Lead p.stages [] p.scope.names

theorem sound_start : Progress.Sound ⟨[], .empty, none⟩ :=
  ⟨nofun, fun _ => .nil []⟩

theorem Progress.Sound.add {p : Progress} (h : p.Sound) {stage : Stage} {scope : Scope}
    (hfits : Fits p.scope stage scope) : (p.add stage scope).Sound := by
  refine ⟨fun x hx => ?_, fun hknown => ?_⟩
  · unfold Progress.add Stage.allBound at hx
    rw [List.foldl_append] at hx
    exact hfits.bound _ h.bound x hx
  · obtain ⟨hfirst, hlast⟩ := Stage.allReadKnown_concat.1 hknown
    exact (h.lead hfirst).append (hfits.lead (hlast.sub h.bound))

/-- A clause leads from scope to scope, and a `RETURN` to the names of its columns. -/
theorem Planned.sound {p p' : Progress} {c : Clause} (h : Planned p c p') (hp : p.Sound) :
    p'.returned = p.returned ∧ p'.Sound ∨ p'.returned.isSome = true ∧
      (Stage.AllReadKnown [] p'.stages → ∃ names, Stage.Lead p'.stages [] names) := by
  cases h with
  | matching hplan => exact Or.inl ⟨rfl, hp.add (fits_matching hplan)⟩
  | unwind hcheck => exact Or.inl ⟨rfl, hp.add (fits_unwind hcheck)⟩
  | projectWith hplan => exact Or.inl ⟨rfl, hp.add (fits_project hplan)⟩
  | projectWhere hplan hcheck =>
    exact Or.inl ⟨rfl, (hp.add (fits_project hplan)).add (fits_filter hcheck)⟩
  | projectReturn hplan =>
    exact Or.inr ⟨rfl, fun hknown => ⟨_, (hp.add (fits_project hplan)).lead hknown⟩⟩
  | create hplan => exact Or.inl ⟨rfl, hp.add (fits_create hplan)⟩
  | merge hplan => exact Or.inl ⟨rfl, hp.add (fits_merge hplan)⟩
  | set hcheck => exact Or.inl ⟨rfl, hp.add (fits_set hcheck)⟩
  | remove hcheck => exact Or.inl ⟨rfl, hp.add (fits_remove hcheck)⟩
  | delete hcheck => exact Or.inl ⟨rfl, hp.add (fits_delete hcheck)⟩

theorem lead_of_planClauses {clauses : List Clause} {p p' : Progress} (hp : p.Sound)
    (h : clauses.foldlM planClause p = .ok p') (hknown : Stage.AllReadKnown [] p'.stages) :
    ∃ names, Stage.Lead p'.stages [] names := by
  induction clauses generalizing p with
  | nil => cases h; exact ⟨_, hp.lead hknown⟩
  | cons c rest ih =>
    obtain ⟨between, hc, h⟩ := ok_of_bind h
    obtain ⟨-, hplanned⟩ := planned_of_ok hc
    rcases hplanned.sound hp with ⟨-, hsound⟩ | ⟨hreturned, hlead⟩
    · exact ih hsound h
    · -- nothing follows a `RETURN`
      cases rest with
      | nil => cases h; exact hlead hknown
      | cons next rest =>
        obtain ⟨_, hnext, -⟩ := ok_of_bind h
        rw [(planned_of_ok hnext).1] at hreturned
        cases hreturned

theorem lead_of_planBranch {clauses : List Clause} {stages : List Stage} {columns : List String}
    (h : planBranch clauses = .ok (stages, columns)) (hknown : Stage.AllReadKnown [] stages) :
    ∃ names, Stage.Lead stages [] names := by
  unfold planBranch at h
  split at h
  · cases h
  · obtain ⟨p, hp, h⟩ := ok_of_bind h
    split at h
    · cases h
    · cases h
      exact lead_of_planClauses sound_start hp hknown

end Plan

/-! ## Plans -/

/-- In every query of the plan the stages read known names. -/
def Plan.ReadsKnown (plan : Plan) : Prop :=
  ∀ stages ∈ plan.body.branches, Stage.AllReadKnown [] stages

instance {plan : Plan} : Decidable plan.ReadsKnown :=
  inferInstanceAs (Decidable (∀ stages ∈ plan.body.branches, Stage.AllReadKnown [] stages))

theorem Plan.planBranch_of_ofQuery {query : Query} {plan : Plan} (h : ofQuery query = .ok plan) :
    ∀ stages ∈ plan.body.branches, ∃ clauses columns,
      planBranch clauses = .ok (stages, columns) := by
  obtain ⟨⟨queries, kind⟩, -, h⟩ := ok_of_bind h
  obtain ⟨planned, hplanned, h⟩ := ok_of_bind h
  have hall : ∀ p ∈ planned, ∃ clauses columns, planBranch clauses = .ok (p.1, columns) := by
    intro p hp
    obtain ⟨clauses, -, hclauses⟩ := exists_of_forall₂ (Constraints.forall₂_of_mapM hplanned) hp
    exact ⟨clauses, p.2, hclauses⟩
  intro stages hstages
  dsimp only at h
  split at h
  · split at h
    · cases h
    · split at h
      · cases h
      · cases h
        rw [PlanBody.branches, ← List.map_cons (f := Prod.fst) (a := (_, _))] at hstages
        obtain ⟨p, hp, rfl⟩ := List.mem_map.1 hstages
        exact hall p hp
  · cases h
    rw [List.mem_singleton.1 hstages]
    exact hall _ List.mem_cons_self
  · cases h

namespace PlanBody

theorem safe_flow {body : PlanBody} {ctx : RunContext}
    (h : ∀ stages ∈ body.branches, ∃ names, Stage.Lead stages [] names) :
    (body.flow ctx).Safe (Flow.SafeSource Anything) := by
  have hbranch : ∀ stages ∈ body.branches,
      (Stage.attachAll ctx stages).Safe (Flow.SafeSource Anything) := by
    intro stages hstages
    obtain ⟨names, hlead⟩ := h stages hstages
    exact (hlead ctx _ (Flow.safe_single Row.covers_empty)).mono
      fun source hsource s => (hsource s).mono fun _ _ => trivial
  cases body with
  | series stages => exact hbranch stages (List.mem_singleton.2 rfl)
  | union all branches =>
    refine (Run.Safe.mapM (S := fun _ => Flow.SafeSource Anything) hbranch).bind
      fun sources hsources => .ok fun s => ?_
    have hrows := Flow.safe_inTurn (g := fun source s => source s) (Q := Anything)
      (fun source hsource => (exists_of_forall₂ hsources hsource).choose_spec.2) s
    dsimp only
    split
    · exact hrows.counted _
    · exact (hrows.distinct []).counted _

end PlanBody

/-! ## Results -/

namespace ResultStream

/-- What is left of a result after some of its rows have been asked for, or after its flow has been
closed, from whatever states. -/
inductive Later (r : ResultStream) : ResultStream → Prop
  | now : Later r r
  | next {r' : ResultStream} (s : RunState) : Later r r' → Later r (r'.next s).1.2
  | close {r' : ResultStream} (s : RunState) : Later r r' → Later r (r'.close s).1

/-- The rows still to be computed do not fail for want of a name. -/
def Safe (r : ResultStream) : Prop :=
  ∀ held source, r.supply = .waiting held source → Flow.SafeSource Anything source

variable {r : ResultStream}

theorem Safe.close (h : r.Safe) (s : RunState) : (r.close s).1.Safe := by
  unfold ResultStream.close
  split
  · exact nofun
  · exact h

theorem Safe.next (h : r.Safe) (s : RunState) : (r.next s).1.2.Safe ∧
    ∀ x, (r.next s).1.1 ≠ some (.error (.unboundVariable x)) := by
  unfold ResultStream.next
  split
  · exact ⟨nofun, nofun⟩
  · split
    · exact ⟨h, nofun⟩
    · exact ⟨h, nofun⟩
    · exact ⟨nofun, nofun⟩
    · next held source hsupply =>
      have hsource := h held source hsupply s
      split
      · exact ⟨nofun, nofun⟩
      · next e s' hrun =>
        rw [hrun] at hsource
        exact ⟨nofun, fun x hx => hsource x (Except.error.inj (Option.some.inj hx))⟩
      · next row held s' rest hrun =>
        rw [hrun] at hsource
        exact ⟨fun _ _ heq => by cases heq; exact hsource.2, nofun⟩

theorem Safe.collect (h : r.Safe) : r.collect.Safe Anything := by
  unfold ResultStream.collect
  split
  · exact fun _ => trivial
  · split
    · exact .ok trivial
    · exact .ok trivial
    · next held source hsupply =>
      exact (Flow.safe_toList (h held source hsupply)).bind fun rows _ => .ok trivial

theorem Safe.later {r' : ResultStream} (h : r.Safe) (hlater : r.Later r') : r'.Safe := by
  induction hlater with
  | now => exact h
  | next s _ ih => exact (ih.next s).1
  | close s _ ih => exact ih.close s

end ResultStream

namespace Plan

/-- Carried out in any state, a plan of a query whose stages read known names does not fail for want
of a name: neither when it starts, nor when the next row or all rows are asked for, whatever has
happened in between. -/
theorem never_unbound {query : Query} {plan : Plan} (hplan : ofQuery query = .ok plan)
    (hknown : plan.ReadsKnown) (ctx : RunContext) (s : RunState) (x : String) :
    (plan.start ctx s).1 ≠ .error (.unboundVariable x) ∧
      ∀ r, (plan.start ctx s).1 = .ok r → ∀ r', r.Later r' → ∀ t,
        (r'.next t).1.1 ≠ some (.error (.unboundVariable x)) ∧
          (r'.collect t).1 ≠ .error (.unboundVariable x) := by
  have hflow : (plan.body.flow ctx).Safe (Flow.SafeSource Anything) := by
    refine PlanBody.safe_flow fun stages hstages => ?_
    obtain ⟨clauses, columns, hbranch⟩ := planBranch_of_ofQuery hplan stages hstages
    exact lead_of_planBranch hbranch (hknown stages hstages)
  have hstart : (plan.start ctx).Safe ResultStream.Safe := by
    unfold start
    refine (Run.safe_update _).bind fun _ _ => hflow.bind fun source hsource => ?_
    split
    · exact (Flow.safe_toList hsource).bind fun rows _ => .ok nofun
    · exact .ok fun held source' heq => by cases heq; exact hsource
  have hresult := hstart s
  refine ⟨fun hfail => ?_, fun r hr r' hlater t => ?_⟩
  · rw [hfail] at hresult
    exact hresult x rfl
  · rw [hr] at hresult
    have hsafe : r'.Safe := ResultStream.Safe.later hresult hlater
    refine ⟨(hsafe.next t).2 x, fun hfail => ?_⟩
    have hcollect := hsafe.collect t
    rw [hfail] at hcollect
    exact hcollect x rfl

/-- Counts the vertices with the key 1, the key being written as a name. -/
def keyedBy (x : String) : Query :=
  [.unwind (.list [.literal (.int 1)]) "k",
    .matching false [⟨none, ⟨some "a", [], [("k", .var x)]⟩, []⟩] none,
    .projectReturn ⟨false, false, [⟨.countAll, some "n"⟩], [], none, none⟩]

theorem never_unbound_keyed : ∃ plan, ofQuery (keyedBy "k") = .ok plan ∧ plan.ReadsKnown ∧
    (plan.start Search.plainContext .initial).1 ≠ .error (.unboundVariable "k") := by
  obtain ⟨plan, hplan⟩ : ∃ plan, ofQuery (keyedBy "k") = .ok plan := ⟨_, rfl⟩
  have hknown : plan.ReadsKnown := by
    cases hplan
    decide +kernel
  exact ⟨plan, hplan, hknown, (never_unbound hplan hknown Search.plainContext .initial "k").1⟩

/-- The names of properties in a pattern are not checked, so that the failure comes with the first
row. -/
theorem unbound_key : ¬ ∀ (query : Query) (plan : Plan) (ctx : RunContext) (s : RunState)
    (x : String), ofQuery query = .ok plan → ∀ r, (plan.start ctx s).1 = .ok r →
      ∀ t, (r.next t).1.1 ≠ some (.error (.unboundVariable x)) := by
  intro h
  exact h (keyedBy "b") _ Search.plainContext .initial "b" rfl _ rfl .initial rfl

end Plan

end PropertyGraph
