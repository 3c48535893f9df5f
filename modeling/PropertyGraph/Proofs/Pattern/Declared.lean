import PropertyGraph.Proofs.Pattern.Laid

/-!
# The names that a pattern declares

A node pattern may repeat the name of a node, and every other name is new where it is declared: a
relationship or a node never has the name of the other kind, and a path has no name of its own part
or of an earlier one.  What comes after a path is not held against its name, so that a later part may
declare it once more.

    PatternPart.Declares      the part gives the name to a node or to a relationship
    Gathered.accepted         what accepted parts have been checked for
    names_nodup_iff           exactly when no name of the constraints comes twice
-/

namespace PropertyGraph

/-- The part gives the name to a node or to a relationship. -/
def PatternPart.Declares (part : PatternPart) (x : String) : Prop :=
  (∃ n ∈ part.nodes, n.name = some x) ∨ ∃ r ∈ part.relationships, r.name = some x

theorem PatternPart.not_mem_names {part : PatternPart} {x : String} :
    x ∉ part.names ↔ part.pathName ≠ some x ∧ ¬ part.Declares x := by
  rw [PatternPart.mem_names, not_or]
  rfl

namespace Constraints

variable {g g' : Constraints Expr} {sites : List (NodePattern × Nat)}
  {rels : List RelationshipPattern} {ends : List (Nat × Nat)} {x : String}

/-! ## Names of elements -/

theorem Gathered.mem_elementNames (h : Gathered sites rels ends g) : x ∈ g.elementNames ↔
    (∃ s ∈ sites, s.1.name = some x) ∨ ∃ rel ∈ rels, rel.name = some x := by
  have hrels : g.relationships.filterMap (·.name) = rels.filterMap (·.name) :=
    filterMap_of_forall₂ (h.relationships.imp fun _ _ ⟨_, _, hr⟩ => by rw [hr])
  unfold elementNames
  rw [hrels, List.mem_append, List.mem_filterMap, List.mem_filterMap]
  refine or_congr_left ⟨?_, ?_⟩
  · rintro ⟨c, hc, hname⟩
    obtain ⟨i, hi⟩ := List.mem_iff_getElem?.1 hc
    have hgathers := h.nodes i c hi
    obtain ⟨n, hn⟩ := List.exists_mem_of_ne_nil _ hgathers.occurs
    exact ⟨(n, i), mem_occurrences.1 hn, (hgathers.name n hn).trans hname⟩
  · rintro ⟨s, hs, hname⟩
    obtain ⟨c, hc, hsame⟩ := h.node_of_site hs
    exact ⟨c, List.mem_of_getElem? hc, hsame.symm.trans hname⟩

theorem exists_site {nodes : List NodePattern} {walk : List Nat}
    (hlen : walk.length = nodes.length) :
    (∃ s ∈ nodes.zip walk, s.1.name = some x) ↔ ∃ n ∈ nodes, n.name = some x := by
  have hnodes : (nodes.zip walk).map Prod.fst = nodes := List.map_fst_zip (Nat.le_of_eq hlen.symm)
  conv_rhs => rw [← hnodes]
  simp

/-- With one more part the names are those of before and those that the part declares. -/
theorem Gathered.mem_elementNames_part (h : Gathered sites rels ends g) {part : PatternPart}
    {walk : List Nat} (hlen : walk.length = part.nodes.length) {ends' : List (Nat × Nat)}
    (h' : Gathered (sites ++ part.nodes.zip walk) (rels ++ part.relationships) ends' g') :
    x ∈ g'.elementNames ↔ x ∈ g.elementNames ∨ part.Declares x := by
  have hpart := exists_site (x := x) hlen
  rw [h'.mem_elementNames, h.mem_elementNames]
  simp only [List.mem_append, or_and_right, exists_or, hpart, PatternPart.Declares]
  exact or_or_or_comm

/-! ## What has been checked -/

/-- The elements have the names that are declared, and the name of an accepted path is not one of
them, as far as they have been declared in its own part and in those before. -/
theorem Gathered.accepted (h : Gathered sites rels ends g) (hw : g.WellFormed)
    {parts : List PatternPart} (hg : parts.foldlM Constraints.addPart g = .ok g') :
    (∀ x, x ∈ g'.elementNames ↔ x ∈ g.elementNames ∨ ∃ part ∈ parts, part.Declares x) ∧
      (∀ part ∈ parts, ∀ x, part.pathName = some x → x ∉ g.elementNames ∧ ¬ part.Declares x) ∧
      parts.Pairwise fun earlier later =>
        ∀ x, later.pathName = some x → ¬ earlier.Declares x := by
  induction parts generalizing g sites rels ends with
  | nil =>
    cases hg
    exact ⟨fun x => by simp, nofun, .nil⟩
  | cons part rest ih =>
    rw [List.foldlM_cons] at hg
    obtain ⟨g₁, hpart, hg⟩ := ok_of_bind hg
    obtain ⟨walk, hlen, h₁, -, hfree⟩ := h.addPart hw hpart
    obtain ⟨hdeclared, hnew, hpairs⟩ := ih h₁ (addPart_spec hw hpart).1 hg
    have hnames (x : String) := h.mem_elementNames_part (x := x) hlen h₁
    have hpath : ∀ x, part.pathName = some x → x ∉ g.elementNames ∧ ¬ part.Declares x :=
      fun x hx => not_or.1 fun hmem => hfree x hx ((hnames x).2 hmem)
    refine ⟨fun x => ?_, List.forall_mem_cons.2 ⟨hpath, fun later hlater x hx => ?_⟩,
      List.pairwise_cons.2 ⟨fun later hlater x hx hdecl => ?_, hpairs⟩⟩
    · rw [hdeclared, hnames, List.exists_mem_cons_iff, or_assoc]
    · obtain ⟨hfree₁, hown⟩ := hnew later hlater x hx
      exact ⟨fun hmem => hfree₁ ((hnames x).2 (Or.inl hmem)), hown⟩
    · exact (hnew later hlater x hx).1 ((hnames x).2 (Or.inr hdecl))

/-! ## Names that come twice -/

theorem names_pathsFrom {parts : List PatternPart} {walks : List (List Nat)}
    (h : walks.length = parts.length) (k : Nat) :
    (pathsFrom k parts walks).map (·.name) = parts.filterMap (·.pathName) := by
  induction parts generalizing walks k with
  | nil => simp [pathsFrom]
  | cons part rest ih =>
    cases walks with
    | nil => cases h
    | cons walk walks =>
      rw [pathsFrom, List.map_append, ih (Nat.succ.inj h), List.filterMap_cons]
      cases part.pathName <;> rfl

/-- Accepted parts declare a name twice only where a part declares the name of an earlier path. -/
theorem names_nodup_iff {parts : List PatternPart} {optional : Bool}
    (hg : ofParts parts optional = .ok g) :
    g.elementNames.Nodup ∧
      (∀ x, x ∈ g.elementNames ↔ ∃ part ∈ parts, part.Declares x) ∧
      g.paths.map (·.name) = parts.filterMap (·.pathName) ∧
      (∀ part ∈ parts, ∀ x, part.pathName = some x → ¬ part.Declares x) ∧
      (parts.Pairwise fun earlier later => ∀ x, later.pathName = some x → ¬ earlier.Declares x) ∧
      (g.names.Nodup ↔ parts.Pairwise fun earlier later =>
        ∀ x, earlier.pathName = some x → x ∉ later.names) := by
  obtain ⟨walks, hgathered, hlaid⟩ := exists_walks hg
  obtain ⟨hdeclared, hown, hearlier⟩ :=
    (Gathered.empty optional).accepted (wellFormed_empty optional) hg
  replace hown := fun part hpart x hx => (hown part hpart x hx).2
  have helements : ∀ x, x ∈ g.elementNames ↔ ∃ part ∈ parts, part.Declares x := fun x =>
    (hdeclared x).trans (or_iff_right List.not_mem_nil)
  have hpaths : g.paths.map (·.name) = parts.filterMap (·.pathName) := by
    rw [hlaid.paths, names_pathsFrom hlaid.lengths.length_eq.symm]
  refine ⟨hlaid.wellFormed.names, helements, hpaths, hown, hearlier, ?_⟩
  have hnames : g.names = g.elementNames ++ parts.filterMap (·.pathName) := by
    rw [← hpaths]
    rfl
  -- no path shares its name with an element, if none does with an element of a later part
  have hdisjoint : (∀ y ∈ g.elementNames, ∀ x ∈ parts.filterMap (·.pathName), y ≠ x) ↔
      parts.Pairwise fun earlier later =>
        ∀ x, earlier.pathName = some x → ¬ later.Declares x := by
    constructor
    · refine fun hne => List.pairwise_of_forall_mem_list fun a ha b hb x hx hdecl => ?_
      exact hne x ((helements x).2 ⟨b, hb, hdecl⟩) x (List.mem_filterMap.2 ⟨a, ha, hx⟩) rfl
    · rintro hlater y hy x hx rfl
      obtain ⟨a, ha, hpath⟩ := List.mem_filterMap.1 hx
      obtain ⟨b, hb, hdecl⟩ := (helements y).1 hy
      exact hlater.forall_of_forall_of_flip hown hearlier ha hb y hpath hdecl
  rw [hnames, List.nodup_append, and_iff_right hlaid.wellFormed.names, hdisjoint, List.Nodup,
    List.pairwise_filterMap, ← List.pairwise_and_iff]
  refine List.Pairwise.iff fun a b => ?_
  simp only [PatternPart.not_mem_names, forall_and]
  refine and_congr_left' ⟨fun h x hx hb => h x hx x hb rfl, ?_⟩
  rintro h x hx y hy rfl
  exact h x hx hy

/-- The names of two parts, the first of which has a path. -/
theorem names_roundParts : ∃ g, ofParts roundParts false = .ok g ∧
    g.names = ["a", "b", "r", "p"] ∧ g.names.Nodup := by
  have hbuilt : ∃ g, ofParts roundParts false = .ok g ∧ g.names = ["a", "b", "r", "p"] :=
    ⟨_, rfl, rfl⟩
  obtain ⟨g, hg, hnames⟩ := hbuilt
  obtain ⟨-, -, -, -, -, hnodup⟩ := names_nodup_iff hg
  refine ⟨g, hg, hnames, hnodup.2 (List.pairwise_pair.2 fun x hx => ?_)⟩
  cases hx
  decide

/-- A later path may take the name of an earlier one. -/
theorem path_declared_twice : ∃ g,
    ofParts [⟨some "p", ⟨some "a", [], []⟩, []⟩, ⟨some "p", ⟨some "b", [], []⟩, []⟩] false = .ok g ∧
      g.names = ["a", "b", "p", "p"] ∧ ¬ g.names.Nodup :=
  ⟨_, rfl, rfl, by decide⟩

end Constraints

end PropertyGraph
