import PropertyGraph.Proofs.Plan.Clauses
import PropertyGraph.Proofs.Plan.Lifting
import PropertyGraph.Proofs.Run.SafeStages

/-!
# What planning has checked

An expression that passes the check of a scope reads names of the scope only.  What is made of
checked expressions, by taking conjunctions apart and by lifting aggregates out, reads no more than
they do, besides the hidden names of aggregates.

    Scope.readsOnly_of_check       an expression that passes the check
    Constraints.mem_names_ofParts  the constraints of a part have its names
-/

namespace PropertyGraph

theorem ok_of_forM {α : Type} {f : α → Except Error Unit} {as : List α}
    (h : as.forM f = .ok ()) : ∀ a ∈ as, f a = .ok () := by
  induction as with
  | nil => exact nofun
  | cons a rest ih =>
    obtain ⟨_, ha, hrest⟩ := ok_of_bind h
    exact List.forall_mem_cons.2 ⟨ha, ih hrest⟩

theorem mem_filterMap_concat {α : Type} {f : α → Option String} {as : List α} {a : α} {x : String} :
    x ∈ (as ++ [a]).filterMap f ↔ x ∈ as.filterMap f ∨ f a = some x := by
  rw [List.filterMap_append, List.mem_append]
  refine or_congr_right (List.mem_filterMap.trans ?_)
  rw [List.exists_mem_cons_iff]
  simp

theorem ReadsOnly.sub {names more : List String} {es : List Expr} (h : ReadsOnly names es)
    (hsub : ∀ x ∈ names, x ∈ more) : ReadsOnly more es :=
  fun e he x hx => hsub x (h e he x hx)

/-! ## Scopes -/

namespace Scope

variable {scope : Scope} {x : String} {e : Expr}

theorem mem_declare {new : List String} :
    x ∈ (scope.declare new).names ↔ x ∈ scope.names ∨ x ∈ new :=
  Constraints.mem_mergeLabels

theorem mem_foldl_declare {new : List (List String)} :
    x ∈ (new.foldl declare scope).names ↔ x ∈ scope.names ∨ ∃ names ∈ new, x ∈ names := by
  induction new generalizing scope with
  | nil => simp
  | cons names rest ih =>
    rw [List.foldl_cons, ih, mem_declare, List.exists_mem_cons_iff, or_assoc]

theorem readsOnly_of_check (h : scope.check e = .ok ()) : ReadsOnly scope.names [e] := by
  obtain ⟨_, -, h⟩ := ok_of_bind h
  refine List.forall_mem_singleton.2 fun x hx => ?_
  split at h
  · cases h
  · next hfind =>
    have hhas := List.find?_eq_none.1 hfind x hx
    rw [Bool.not_eq_true', Bool.not_eq_false] at hhas
    exact List.contains_iff_mem.1 hhas

theorem readsOnly_of_checkAll {es : List Expr} (h : scope.checkAll es = .ok ()) :
    ReadsOnly scope.names es :=
  fun e he => readsOnly_of_check (ok_of_forM h e he) e (List.mem_singleton.2 rfl)

end Scope

/-! ## Conditions -/

namespace Expr

section Parts

variable {α : Type} {f : Expr → List α} (hf : ∀ a b, f (.binary .and a b) = f a ++ f b)

include hf

/-- Where the two sides of a conjunction make up what is listed for it, so do its parts. -/
theorem parts_conjuncts (e : Expr) : ∀ c ∈ e.conjuncts, ∀ x ∈ f c, x ∈ f e := by
  induction e using conjuncts.induct with
  | case1 a b iha ihb =>
    unfold conjuncts
    rw [hf]
    exact List.forall_mem_append.2
      ⟨fun c hc x hx => List.mem_append_left _ (iha c hc x hx),
        fun c hc x hx => List.mem_append_right _ (ihb c hc x hx)⟩
  | case2 e hand =>
    have hsingle : e.conjuncts = [e] := by
      unfold conjuncts
      split
      · next a b => exact absurd rfl (hand a b)
      · rfl
    rw [hsingle]
    exact List.forall_mem_singleton.2 fun x hx => hx

theorem parts_conjunction (es : List Expr) :
    ∀ e ∈ conjunction es, ∀ x ∈ f e, ∃ c ∈ es, x ∈ f c := by
  cases es with
  | nil => exact nofun
  | cons first rest =>
    intro e he x hx
    cases he
    induction rest generalizing first with
    | nil => exact ⟨first, List.mem_cons_self, hx⟩
    | cons second rest ih =>
      obtain ⟨c, hc, hx⟩ := ih (.binary .and first second) hx
      rcases List.mem_cons.1 hc with rfl | hc
      · rw [hf] at hx
        rcases List.mem_append.1 hx with hx | hx
        · exact ⟨first, List.mem_cons_self, hx⟩
        · exact ⟨second, List.mem_cons_of_mem _ List.mem_cons_self, hx⟩
      · exact ⟨c, List.mem_cons_of_mem _ (List.mem_cons_of_mem _ hc), hx⟩

end Parts

end Expr

namespace Constraints

variable {g g' : Constraints Expr}

theorem shape_addProperty? {P : Type} {g g' : Constraints P} {x key : String} {p : P}
    (h : g.addProperty? x key p = some g') : g'.shape = g.shape := by
  unfold addProperty? at h
  split at h
  · cases h
    exact shape_modifyNode g _ fun _ => rfl
  · next k _ _ =>
    split at h
    · cases h
    · cases h
      unfold shape
      congr 1
      refine List.ext_getElem? fun j => ?_
      simp only [List.getElem?_map, List.getElem?_modify]
      cases g.relationships[j]? with
      | none => rfl
      | some r => by_cases hj : k = j <;> simp [hj, RelationshipConstraint.shape]
  · cases h

/-- Whatever a pattern takes up, it keeps its shape. -/
theorem shape_absorb? {c : Expr} (h : g.absorb? c = some g') : g'.shape = g.shape := by
  unfold absorb? at h
  split at h
  · obtain ⟨i, -, rfl⟩ := addLabels?_eq_some h
    exact shape_modifyNode g i fun _ => rfl
  · obtain ⟨⟨x, key, constant⟩, -, h⟩ := Option.bind_eq_some_iff.1 h
    exact shape_addProperty? h

theorem absorbAll_spec (g : Constraints Expr) (conditions : List Expr) :
    (g.absorbAll conditions).1.shape = g.shape ∧
      ∀ c ∈ (g.absorbAll conditions).2, c ∈ conditions := by
  induction conditions generalizing g with
  | nil => exact ⟨rfl, nofun⟩
  | cons c rest ih =>
    unfold absorbAll
    split
    · next g' hg' =>
      obtain ⟨hshape, hleft⟩ := ih g'
      exact ⟨hshape.trans (shape_absorb? hg'), fun c hc => List.mem_cons_of_mem _ (hleft c hc)⟩
    · obtain ⟨hshape, hleft⟩ := ih g
      exact ⟨hshape, List.forall_mem_cons.2
        ⟨List.mem_cons_self, fun c hc => List.mem_cons_of_mem _ (hleft c hc)⟩⟩

/-! ## Names of patterns -/

theorem mem_names {P : Type} {g : Constraints P} {x : String} :
    x ∈ g.names ↔ x ∈ g.nodes.filterMap (·.name) ∨ x ∈ g.relationships.filterMap (·.name) ∨
      x ∈ g.paths.map (·.name) := by
  unfold names
  rw [List.mem_append, List.mem_append, or_assoc]

theorem mem_names_addNode {name : Option String} {labels : List String}
    {properties : List (String × Expr)} {i : Nat}
    (h : g.addNode name labels properties = .ok (g', i)) {x : String} :
    x ∈ g'.names ↔ x ∈ g.names ∨ name = some x := by
  have hpaths : (g.newNode name labels properties).paths = g.paths := rfl
  have happend : x ∈ (g.newNode name labels properties).names ↔ x ∈ g.names ∨ name = some x := by
    rw [mem_names, mem_names, newNode_nodes, newNode_relationships, hpaths, mem_filterMap_concat]
    tauto
  unfold addNode at h
  split at h
  · cases h
    exact happend
  · next y =>
    split at h
    · cases h
    · split at h
      · next k hk =>
        cases h
        rw [names_of_shape (shape_modifyNode g i (f := fun n => { n with
          labels := mergeLabels n.labels labels, properties := n.properties ++ properties })
          fun _ => rfl)]
        refine (or_iff_left_of_imp fun hx => ?_).symm
        cases hx
        obtain ⟨n, hn, hname⟩ := node?_eq_some hk
        exact mem_names.2 (Or.inl (List.mem_filterMap.2 ⟨n, List.mem_of_getElem? hn, hname⟩))
      · cases h
        exact happend

theorem mem_names_connect {r : RelationshipConstraint Expr} {x : String} :
    x ∈ (g.connect r).names ↔ x ∈ g.names ∨ r.name = some x := by
  have hrels : (g.connect r).relationships = g.relationships ++ [r] := rfl
  have hpaths : (g.connect r).paths = g.paths := rfl
  rw [mem_names, mem_names, nodeNames_connect, hrels, hpaths, mem_filterMap_concat]
  tauto

theorem mem_names_addChain {last : Nat} {chain : List (RelationshipPattern × NodePattern)}
    {steps : List (Nat × Nat)} (h : g.addChain last chain = .ok (g', steps)) {x : String} :
    x ∈ g'.names ↔
      x ∈ g.names ∨ ∃ link ∈ chain, link.1.name = some x ∨ link.2.name = some x := by
  induction chain generalizing g last steps with
  | nil =>
    cases h
    simp
  | cons link rest ih =>
    obtain ⟨rel, node⟩ := link
    obtain ⟨⟨g1, next⟩, hnode, h⟩ := ok_of_bind h
    obtain ⟨_, -, h⟩ := ok_of_bind h
    obtain ⟨range, -, h⟩ := ok_of_bind h
    obtain ⟨⟨g2, steps'⟩, hchain, h⟩ := ok_of_bind h
    cases h
    rw [ih hchain, mem_names_connect, mem_names_addNode hnode, List.exists_mem_cons_iff, or_assoc,
      or_assoc]
    exact or_congr_right (or_left_comm.trans or_assoc.symm)

end Constraints

namespace PatternPart

theorem mem_names {part : PatternPart} {x : String} : x ∈ part.names ↔ part.pathName = some x ∨
    (∃ n ∈ part.nodes, n.name = some x) ∨ ∃ r ∈ part.relationships, r.name = some x := by
  have hmerge : x ∈ part.names ↔ x ∈ part.pathName.toList ∨
      x ∈ part.nodes.filterMap (·.name) ++ part.relationships.filterMap (·.name) :=
    Constraints.mem_mergeLabels
  rw [hmerge, Option.mem_toList, List.mem_append, List.mem_filterMap, List.mem_filterMap]

end PatternPart

namespace Constraints

variable {g g' : Constraints Expr}

/-- The constraints of a part have its names and no others. -/
theorem mem_names_ofParts {part : PatternPart} {optional : Bool}
    (h : ofParts [part] optional = .ok g) {x : String} : x ∈ g.names ↔ x ∈ part.names := by
  obtain ⟨_, hpart, h⟩ := ok_of_bind h
  cases h
  obtain ⟨⟨g1, start⟩, hnode, h⟩ := ok_of_bind hpart
  obtain ⟨⟨g2, steps⟩, hchain, h⟩ := ok_of_bind h
  have helements : x ∈ g2.names ↔ (∃ n ∈ part.nodes, n.name = some x) ∨
      ∃ r ∈ part.relationships, r.name = some x := by
    have hempty : x ∉ (empty optional : Constraints Expr).names := List.not_mem_nil
    rw [mem_names_addChain hchain, mem_names_addNode hnode]
    unfold PatternPart.nodes PatternPart.relationships
    simp only [List.exists_mem_cons_iff, List.mem_map, exists_exists_and_eq_and, and_or_left,
      exists_or, hempty, false_or]
    exact (or_congr_right or_comm).trans or_assoc.symm
  rw [PatternPart.mem_names]
  dsimp only at h
  split at h
  · next hpath =>
    cases h
    rw [helements, hpath]
    exact (or_iff_right nofun).symm
  · next y hpath =>
    split at h
    · cases h
    · cases h
      rw [hpath, ← helements, mem_names, mem_names, List.map_append, List.mem_append,
        List.map_singleton, List.mem_singleton, Option.some_inj]
      tauto

end Constraints

/-- The names that are known after the creation of a part. -/
theorem Creation.mem_known_part {part : PatternPart} {parts : List PatternPart}
    (hpart : part ∈ parts) {x : String} (hx : x ∈ part.names) (names : List String) :
    x ∈ known names (ofParts parts) := by
  refine mem_known.2 (Or.inr ?_)
  unfold ofParts
  rcases PatternPart.mem_names.1 hx with hx | ⟨n, hn, hx⟩ | ⟨r, hr, hx⟩
  · exact ⟨_, List.mem_append_right _ (List.mem_flatMap.2
      ⟨part, hpart, List.mem_append_right _ (List.mem_singleton.2 rfl)⟩), hx⟩
  · exact ⟨_, List.mem_append_left _ (List.mem_flatMap.2
      ⟨part, hpart, List.mem_map.2 ⟨n, hn, rfl⟩⟩), hx⟩
  · exact ⟨_, List.mem_append_right _ (List.mem_flatMap.2
      ⟨part, hpart, List.mem_append_left _ (List.mem_map.2 ⟨r, hr, rfl⟩)⟩), hx⟩

end PropertyGraph
