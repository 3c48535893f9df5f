import PropertyGraph.Proofs.Run.Safe

/-!
# Matching where all names have values

A search reads no names.  So a `MATCH` fails for want of a name only through the properties of its
pattern, which are computed in the row to be matched, and through its condition, which is computed
in the row that a match makes.  The rows that it gives bind the names of the pattern besides those
that they bound before.
-/

namespace PropertyGraph

/-- The expressions read no other names. -/
def ReadsOnly (names : List String) (es : List Expr) : Prop :=
  ∀ e ∈ es, ∀ x ∈ e.freeNames, x ∈ names

variable {names : List String} {row : Row}

theorem ReadsOnly.hasAll {es : List Expr} {e : Expr} (h : ReadsOnly names es) (he : e ∈ es)
    (hrow : row.HasAll names) : row.HasAll e.reads :=
  fun x hx => hrow x (h e he x (Expr.mem_freeNames.2 hx))

theorem ReadsOnly.cons {e : Expr} {es : List Expr} :
    ReadsOnly names (e :: es) ↔ ReadsOnly names [e] ∧ ReadsOnly names es := by
  unfold ReadsOnly
  rw [List.forall_mem_cons, List.forall_mem_singleton]

/-! ## Searches -/

namespace Search

variable (q : Search)

theorem nameSafe_startNodes (row : Row) (ns : List (NodeConstraint Value × Nat)) (m : Match) :
    NameSafe Anything (q.startNodes row ns m) := by
  induction ns generalizing m with
  | nil => trivial
  | cons n rest ih =>
    unfold startNodes
    split
    · exact ih m
    · split
      · exact ih _
      · trivial
    · split
      · exact ih _
      · trivial
    · exact nofun

theorem nameSafe_startRelationships (row : Row) (rs : List (RelationshipConstraint Value × Nat))
    (ms : List Match) : NameSafe Anything (q.startRelationships row rs ms) := by
  induction rs generalizing ms with
  | nil => trivial
  | cons r rest ih =>
    have hbindings : ∀ v, NameSafe Anything (q.startBindings r.1 v) := by
      intro v
      unfold startBindings
      split
      · exact nofun
      · dsimp only
        split
        · trivial
        · trivial
        · exact nofun
    unfold startRelationships
    split
    · exact ih ms
    · exact (hbindings _).bind fun bindings _ => ih _

theorem nameSafe_start (row : Row) : NameSafe Anything (q.start row) := by
  unfold start
  split
  · exact nofun
  · refine (q.nameSafe_startNodes row _ _).bind fun m _ => ?_
    cases m with
    | none => trivial
    | some m => exact (q.nameSafe_startRelationships row _ _).bind fun ms _ => trivial

variable {next : Match → Source Match} (hnext : ∀ m, Flow.SafeSource Anything (next m))

include hnext

theorem safe_proceed (unmatched : Match) (ms : List Match) :
    Flow.SafeSource Anything (q.proceed next unmatched ms) := by
  unfold proceed
  split
  · exact hnext unmatched
  · exact Flow.safe_inTurn fun m _ => hnext m

theorem safe_seeds (m : Match) (n : NodeConstraint Value) (i : Nat) (matched : Bool)
    (ids : List String) : Flow.SafeSource Anything (q.seeds next m n i matched ids) := by
  induction ids generalizing matched with
  | nil =>
    intro s
    unfold seeds
    dsimp only
    split
    · exact hnext _ _
    · trivial
  | cons id rest ih =>
    intro s
    unfold seeds
    split
    · exact (hnext _ s).before (ih true) 1
    · exact ih matched s

theorem safe_expand (m : Match) (c : ConstraintId) :
    Flow.SafeSource Anything (q.expand next m c) := by
  intro s
  unfold expand
  split
  · split
    · trivial
    · split
      · exact q.safe_proceed hnext _ _ _
      · unfold seedNode
        split
        · exact q.safe_proceed hnext _ _ _
        · dsimp only
          split
          · exact q.safe_proceed hnext _ _ _
          · exact q.safe_seeds hnext _ _ _ _ _ _
  · split
    · trivial
    · exact q.safe_proceed hnext _ _ _

omit hnext

theorem safe_complete (left : Nat) (m : Match) :
    Flow.SafeSource Anything (q.complete left m) := by
  induction left generalizing m with
  | zero => exact Flow.safe_single trivial
  | succ left ih =>
    intro s
    unfold complete
    split
    · trivial
    · exact q.safe_expand ih m _ _

theorem safe_flow (row : Row) : Flow.SafeSource Anything (q.flow row) := by
  intro s
  have hstart := q.nameSafe_start row
  unfold flow
  split
  · next e he =>
    rw [he] at hstart
    exact hstart
  · exact Flow.safe_inTurn (fun m _ => q.safe_complete _ m) s

end Search

/-! ## Values for the properties of a pattern -/

namespace Constraints

variable {P Q : Type}

/-- The expressions of all properties. -/
def propertyExprs (g : Constraints Expr) : List Expr :=
  (g.nodes.flatMap (·.properties) ++ g.relationships.flatMap (·.properties)).map Prod.snd

theorem safe_mapProperties {f : Expr → Run Q} {ps : List (String × Expr)}
    (h : ∀ p ∈ ps, (f p.2).Safe Anything) : (mapProperties f ps).Safe Anything := by
  induction ps with
  | nil => exact .ok trivial
  | cons p rest ih =>
    obtain ⟨hp, hrest⟩ := List.forall_mem_cons.1 h
    exact hp.bind fun q _ => (ih hrest).bind fun qs _ => .ok trivial

theorem filterMap_of_forall₂ {α β : Type} {f : α → Option String} {g : β → Option String}
    {as : List α} {bs : List β} (h : List.Forall₂ (fun a b => g b = f a) as bs) :
    bs.filterMap g = as.filterMap f := by
  have hmap := congrArg (List.filterMap id) (map_eq_of_forall₂ h)
  rwa [List.filterMap_map, List.filterMap_map] at hmap

/-- The constraints with values have the names that they have with expressions. -/
theorem safe_mapM {f : Expr → Run Q} {g : Constraints Expr}
    (h : ∀ e ∈ g.propertyExprs, (f e).Safe Anything) :
    (g.mapM f).Safe fun g' => g'.names = g.names := by
  have hprops : ∀ p ∈ g.nodes.flatMap (·.properties) ++ g.relationships.flatMap (·.properties),
      (f p.2).Safe Anything := fun p hp => h p.2 (List.mem_map.2 ⟨p, hp, rfl⟩)
  have hnode : ∀ n ∈ g.nodes, (mapProperties f n.properties).Safe Anything := fun n hn =>
    safe_mapProperties fun p hp =>
      hprops p (List.mem_append_left _ (List.mem_flatMap.2 ⟨n, hn, hp⟩))
  have hrel : ∀ r ∈ g.relationships, (mapProperties f r.properties).Safe Anything := fun r hr =>
    safe_mapProperties fun p hp =>
      hprops p (List.mem_append_right _ (List.mem_flatMap.2 ⟨r, hr, hp⟩))
  unfold mapM
  refine (Run.Safe.mapM (S := fun n n' => n'.name = n.name) fun n hn =>
    (hnode n hn).bind fun ps _ => .ok (by rfl)).bind fun nodes hn => ?_
  refine (Run.Safe.mapM (S := fun r r' => r'.name = r.name) fun r hr =>
    (hrel r hr).bind fun ps _ => .ok (by rfl)).bind fun relationships hr => .ok ?_
  unfold names
  rw [filterMap_of_forall₂ hn, filterMap_of_forall₂ hr]

end Constraints

theorem Match.names_bindings {P : Type} (m : Match) (g : Constraints P) :
    (m.bindings g).map Prod.fst = g.names := by
  rw [bindings_eq, List.map_append, names_elementBindings, List.map_map]
  rfl

namespace RunContext

variable {ctx : RunContext} {e : Expr}

theorem safe_value (h : row.HasAll e.reads) : (ctx.value e row).Safe Anything :=
  fun s => Expr.nameSafe_value (ctx.env s.store) h

theorem safe_holds (h : row.HasAll e.reads) : (ctx.holds e row).Safe Anything :=
  fun s => Expr.nameSafe_holds (ctx.env s.store) h

/-! ## Rows of matches -/

theorem safe_matchedRow (pattern : Constraints Value) {condition : Option Expr}
    (hrow : row.Covers names) (hcond : ReadsOnly (names ++ pattern.names) condition.toList)
    (m : Match) : (ctx.matchedRow pattern condition row m).Safe fun o =>
      ∀ out ∈ o, out.Covers (names ++ pattern.names) := by
  have hout := hrow.bound (m.bindings pattern)
  rw [m.names_bindings] at hout
  unfold matchedRow
  dsimp only
  split
  · exact .ok nofun
  · cases condition with
    | none => exact .ok fun out h => by cases h; exact hout
    | some e =>
      refine (safe_holds (hcond.hasAll (List.mem_singleton.2 rfl) hout.hasAll)).bind fun t _ => ?_
      refine .ok fun out h => ?_
      split at h
      · cases h; exact hout
      · cases h

/-- What is made of a row by a pattern whose properties and condition read bound names only. -/
theorem safe_matchRow {pattern : Constraints Expr} {condition : Option Expr}
    (hrow : row.Covers names) (hprops : ReadsOnly names pattern.propertyExprs)
    (hcond : ReadsOnly (names ++ pattern.names) condition.toList) :
    Flow.SafeSource (fun out : Row => out.Covers (names ++ pattern.names))
      (ctx.matchRow pattern condition row) := by
  intro s
  have hvalues := Constraints.safe_mapM (g := pattern) (f := fun e => ctx.value e row)
    (fun e he => safe_value (hprops.hasAll he hrow.hasAll)) s
  unfold matchRow
  split
  · next e s' hr =>
    rw [hr] at hvalues
    exact hvalues
  · next resolved s' hr =>
    rw [hr] at hvalues
    have hnames : resolved.names = pattern.names := hvalues
    have hmatch : ∀ m, Flow.SafeSource (fun out : Row => out.Covers (names ++ pattern.names))
        (Flow.ofOption (ctx.matchedRow resolved condition row m)) := by
      intro m
      rw [← hnames] at hcond ⊢
      exact Flow.safe_ofOption (safe_matchedRow resolved hrow hcond m)
    have hrows := ((Search.of ctx resolved).safe_flow row s').flatMap fun m _ => hmatch m
    dsimp only
    split
    · exact hrows.orElse (Flow.safe_single (hrow.nulls pattern.names))
    · exact hrows

end RunContext

end PropertyGraph
