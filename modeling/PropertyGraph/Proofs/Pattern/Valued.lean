import PropertyGraph.Proofs.Pattern.Built

/-!
# Constraints with values

Before a search begins, every property that is demanded gets a value.  That happens node by node and
relationship by relationship, so that it is enough to know what becomes of each property.

    mapM_eq_ok             values for the properties of each node and each relationship
    Constraints.demands    all properties that are demanded
    mapM_eq_map            where each of them has a value, the constraints have their values
    mem_demands_ofParts    the constraints of a walk demand what the walk demands
-/

namespace PropertyGraph

namespace Constraints

variable {P Q : Type} {f : P → Except Error Q}

/-! ## Values for the properties -/

/-- The node with values for its properties. -/
def NodeResolves (f : P → Except Error Q) (n : NodeConstraint P) (n' : NodeConstraint Q) : Prop :=
  ∃ ps, mapProperties f n.properties = .ok ps ∧ n' = { n with properties := ps }

/-- The relationship with values for its properties. -/
def RelationshipResolves (f : P → Except Error Q) (r : RelationshipConstraint P)
    (r' : RelationshipConstraint Q) : Prop :=
  ∃ ps, mapProperties f r.properties = .ok ps ∧ r' = { r with properties := ps }

theorem mapM_of_forall₂ {α β : Type} {h : α → Except Error β} {as : List α} {bs : List β}
    (hs : List.Forall₂ (fun a b => h a = .ok b) as bs) : as.mapM h = .ok bs := by
  induction hs with
  | nil => rfl
  | cons hab _ ih => rw [List.mapM_cons, hab, ih]; rfl

theorem mapM_eq_ok {g : Constraints P} {g' : Constraints Q} : g.mapM f = .ok g' ↔
    g'.optional = g.optional ∧ g'.paths = g.paths ∧
      List.Forall₂ (NodeResolves f) g.nodes g'.nodes ∧
        List.Forall₂ (RelationshipResolves f) g.relationships g'.relationships := by
  constructor
  · intro h
    obtain ⟨nodes, hnodes, h⟩ := ok_of_bind h
    obtain ⟨relationships, hrels, h⟩ := ok_of_bind h
    cases h
    refine ⟨rfl, rfl, (forall₂_of_mapM hnodes).imp fun n n' hn => ?_,
      (forall₂_of_mapM hrels).imp fun r r' hr => ?_⟩
    · obtain ⟨ps, hps, hn⟩ := ok_of_bind hn
      cases hn
      exact ⟨ps, hps, rfl⟩
    · obtain ⟨ps, hps, hr⟩ := ok_of_bind hr
      cases hr
      exact ⟨ps, hps, rfl⟩
  · rintro ⟨hopt, hpaths, hnodes, hrels⟩
    have hnodes' := mapM_of_forall₂ (h := fun n => do
        return { n with properties := ← mapProperties f n.properties })
      (hnodes.imp fun n n' hn => by
        obtain ⟨ps, hps, rfl⟩ := hn
        rw [hps]
        rfl)
    have hrels' := mapM_of_forall₂ (h := fun r => do
        return { r with properties := ← mapProperties f r.properties })
      (hrels.imp fun r r' hr => by
        obtain ⟨ps, hps, rfl⟩ := hr
        rw [hps]
        rfl)
    unfold mapM
    rw [hnodes', hrels', ← hopt, ← hpaths]
    rfl

theorem mapProperties_append {ps : List (String × P)} {qs : List (String × Q)}
    (h : mapProperties f ps = .ok qs) (key : String) {p : P} {v : Q} (hp : f p = .ok v) :
    mapProperties f (ps ++ [(key, p)]) = .ok (qs ++ [(key, v)]) := by
  induction ps generalizing qs with
  | nil =>
    cases h
    show (do let q ← f p; return (key, q) :: (← mapProperties f [])) = _
    rw [hp]
    rfl
  | cons first rest ih =>
    obtain ⟨k, e⟩ := first
    obtain ⟨w, hw, h⟩ := ok_of_bind h
    obtain ⟨ws, hws, h⟩ := ok_of_bind h
    cases h
    show (do let q ← f e; return (k, q) :: (← mapProperties f (rest ++ [(key, p)]))) = _
    rw [hw, ih hws]
    rfl

theorem keys_of_mapProperties {ps : List (String × P)} {qs : List (String × Q)}
    (h : mapProperties f ps = .ok qs) : qs.map (·.1) = ps.map (·.1) := by
  induction ps generalizing qs with
  | nil => cases h; rfl
  | cons p rest ih =>
    obtain ⟨q, -, h⟩ := ok_of_bind h
    obtain ⟨more, hmore, h⟩ := ok_of_bind h
    cases h
    rw [List.map_cons, List.map_cons, ih hmore]

/-- The positions of names are a matter of the shape. -/
theorem node?_shape (g : Constraints P) (x : String) : g.shape.node? x = g.node? x := by
  unfold node? shape
  simp only [List.findIdx?_map]
  rfl

theorem relationship?_shape (g : Constraints P) (x : String) :
    g.shape.relationship? x = g.relationship? x := by
  unfold relationship? shape
  simp only [List.findIdx?_map]
  rfl

theorem node?_eq_some {g : Constraints P} {x : String} {i : Nat} (h : g.node? x = some i) :
    ∃ n, g.nodes[i]? = some n ∧ n.name = some x := by
  obtain ⟨hi, hname, -⟩ := List.findIdx?_eq_some_iff_getElem.1 h
  exact ⟨_, List.getElem?_eq_getElem hi, eq_of_beq hname⟩

theorem relationship?_eq_some {g : Constraints P} {x : String} {i : Nat}
    (h : g.relationship? x = some i) : ∃ r, g.relationships[i]? = some r ∧ r.name = some x := by
  obtain ⟨hi, hname, -⟩ := List.findIdx?_eq_some_iff_getElem.1 h
  exact ⟨_, List.getElem?_eq_getElem hi, eq_of_beq hname⟩

/-! ## Demands -/

/-- All properties that the constraints demand, of nodes and of relationships. -/
def demands (g : Constraints P) : List (String × P) :=
  g.nodes.flatMap (·.properties) ++ g.relationships.flatMap (·.properties)

/-- The constraints with a value for each property. -/
def map (val : P → Q) (g : Constraints P) : Constraints Q where
  optional := g.optional
  nodes := g.nodes.map fun n =>
    { n with properties := n.properties.map fun p => (p.1, val p.2) }
  relationships := g.relationships.map fun r =>
    { r with properties := r.properties.map fun p => (p.1, val p.2) }
  paths := g.paths

theorem node_of_map {val : P → Q} {g : Constraints P} {i : Nat} {n' : NodeConstraint Q}
    (h : (g.map val).nodes[i]? = some n') : ∃ n, g.nodes[i]? = some n ∧
      n' = { n with properties := n.properties.map fun p => (p.1, val p.2) } := by
  unfold map at h
  rw [List.getElem?_map, Option.map_eq_some_iff] at h
  obtain ⟨n, hn, rfl⟩ := h
  exact ⟨n, hn, rfl⟩

theorem relationship_of_map {val : P → Q} {g : Constraints P} {k : Nat}
    {r' : RelationshipConstraint Q} (h : (g.map val).relationships[k]? = some r') :
    ∃ r, g.relationships[k]? = some r ∧
      r' = { r with properties := r.properties.map fun p => (p.1, val p.2) } := by
  unfold map at h
  rw [List.getElem?_map, Option.map_eq_some_iff] at h
  obtain ⟨r, hr, rfl⟩ := h
  exact ⟨r, hr, rfl⟩

variable {g g' : Constraints P}

theorem mem_demands {p : String × P} : p ∈ g.demands ↔
    (∃ n ∈ g.nodes, p ∈ n.properties) ∨ ∃ r ∈ g.relationships, p ∈ r.properties := by
  unfold demands
  rw [List.mem_append, List.mem_flatMap, List.mem_flatMap]

theorem mapProperties_eq_map {val : P → Q} {ps : List (String × P)}
    (h : ∀ p ∈ ps, f p.2 = .ok (val p.2)) :
    mapProperties f ps = .ok (ps.map fun p => (p.1, val p.2)) := by
  induction ps with
  | nil => rfl
  | cons p rest ih =>
    obtain ⟨key, a⟩ := p
    show (do let q ← f a; return (key, q) :: (← mapProperties f rest)) = _
    rw [h (key, a) List.mem_cons_self, ih fun p hp => h p (List.mem_cons_of_mem _ hp)]
    rfl

theorem exists_of_mapProperties {ps : List (String × P)} {qs : List (String × Q)}
    (h : mapProperties f ps = .ok qs) : ∀ p ∈ ps, ∃ q, f p.2 = .ok q := by
  induction ps generalizing qs with
  | nil => nofun
  | cons p rest ih =>
    obtain ⟨key, a⟩ := p
    obtain ⟨q, hq, h⟩ := ok_of_bind h
    obtain ⟨more, hmore, -⟩ := ok_of_bind h
    intro p hp
    rcases List.mem_cons.1 hp with rfl | hp
    · exact ⟨q, hq⟩
    · exact ih hmore p hp

/-- Where each demand has a value, the constraints have these values. -/
theorem mapM_eq_map {val : P → Q} (h : ∀ p ∈ g.demands, f p.2 = .ok (val p.2)) :
    g.mapM f = .ok (g.map val) := by
  refine mapM_eq_ok.2 ⟨rfl, rfl, ?_, ?_⟩
  · exact List.forall₂_map_right_iff.2 (List.forall₂_same.2 fun n hn =>
      ⟨_, mapProperties_eq_map fun p hp => h p (mem_demands.2 (Or.inl ⟨n, hn, hp⟩)), rfl⟩)
  · exact List.forall₂_map_right_iff.2 (List.forall₂_same.2 fun r hr =>
      ⟨_, mapProperties_eq_map fun p hp => h p (mem_demands.2 (Or.inr ⟨r, hr, hp⟩)), rfl⟩)

/-- Constraints get their values only where each demand has one. -/
theorem exists_of_mapM {resolved : Constraints Q} (h : g.mapM f = .ok resolved) :
    ∀ p ∈ g.demands, ∃ q, f p.2 = .ok q := by
  obtain ⟨-, -, hnodes, hrels⟩ := mapM_eq_ok.1 h
  intro p hp
  rcases mem_demands.1 hp with ⟨n, hn, hp⟩ | ⟨r, hr, hp⟩
  · obtain ⟨i, hi, rfl⟩ := List.getElem_of_mem hn
    obtain ⟨ps, hps, -⟩ := hnodes.get hi (hnodes.length_eq ▸ hi)
    exact exists_of_mapProperties hps p hp
  · obtain ⟨k, hk, rfl⟩ := List.getElem_of_mem hr
    obtain ⟨ps, hps, -⟩ := hrels.get hk (hrels.length_eq ▸ hk)
    exact exists_of_mapProperties hps p hp

/-! ## The demands of a walk -/

/-- A node pattern gives a new constraint, or adds to the one of its name. -/
theorem addNode_cases {name : Option String} {labels : List String}
    {properties : List (String × P)} {i : Nat}
    (h : g.addNode name labels properties = .ok (g', i)) :
    (name.bind g.node? = none ∧ i = g.nodes.length ∧
      g' = g.newNode name labels properties) ∨
    ∃ x, name = some x ∧ g.node? x = some i ∧ g' = { g with nodes := g.nodes.modify i fun n =>
      { n with
        labels := mergeLabels n.labels labels, properties := n.properties ++ properties } } := by
  unfold addNode at h
  split at h
  · cases h
    exact Or.inl ⟨rfl, rfl, rfl⟩
  · next x =>
    split at h
    · cases h
    · split at h
      · next hk => cases h; exact Or.inr ⟨x, rfl, hk, rfl⟩
      · next hk => cases h; exact Or.inl ⟨hk, rfl, rfl⟩

theorem mem_demands_addNode {name : Option String} {labels : List String}
    {properties : List (String × P)} {i : Nat}
    (h : g.addNode name labels properties = .ok (g', i)) {p : String × P} :
    p ∈ g'.demands ↔ p ∈ properties ∨ p ∈ g.demands := by
  rcases addNode_cases h with ⟨-, -, rfl⟩ | ⟨x, -, hi, rfl⟩
  · unfold demands
    rw [newNode_nodes, newNode_relationships, List.flatMap_append, List.flatMap_singleton]
    simp only [List.mem_append]
    tauto
  · obtain ⟨m, hm, -⟩ := node?_eq_some hi
    rw [mem_demands, mem_demands, ← or_assoc]
    refine or_congr_left ⟨?_, ?_⟩
    · rintro ⟨n', hn', hp⟩
      obtain ⟨j, hj⟩ := List.mem_iff_getElem?.1 hn'
      rw [List.getElem?_modify] at hj
      obtain ⟨n, hn, rfl⟩ := Option.map_eq_some_iff.1 hj
      split at hp
      · exact (List.mem_append.1 hp).symm.imp_right fun hp => ⟨n, List.mem_of_getElem? hn, hp⟩
      · exact Or.inr ⟨n, List.mem_of_getElem? hn, hp⟩
    · have hget : ∀ (j : Nat) n, g.nodes[j]? = some n → ∃ n' ∈ g.nodes.modify i fun n =>
          { n with labels := mergeLabels n.labels labels, properties := n.properties ++ properties },
          (j = i ∧ p ∈ properties) ∨ p ∈ n.properties → p ∈ n'.properties := by
        intro j n hn
        refine ⟨_, List.mem_of_getElem? (i := j) (by rw [List.getElem?_modify, hn]; rfl), ?_⟩
        dsimp only
        rintro (⟨rfl, hp⟩ | hp)
        · rw [if_pos rfl]
          exact List.mem_append_right _ hp
        · split
          · exact List.mem_append_left _ hp
          · exact hp
      rintro (hp | ⟨n, hn, hp⟩)
      · obtain ⟨n', hn', hmem⟩ := hget i m hm
        exact ⟨n', hn', hmem (Or.inl ⟨rfl, hp⟩)⟩
      · obtain ⟨j, hj⟩ := List.mem_iff_getElem?.1 hn
        obtain ⟨n', hn', hmem⟩ := hget j n hj
        exact ⟨n', hn', hmem (Or.inr hp)⟩

theorem mem_demands_connect (g : Constraints P) (r : RelationshipConstraint P) {p : String × P} :
    p ∈ (g.connect r).demands ↔ p ∈ r.properties ∨ p ∈ g.demands := by
  have hnodes : (g.connect r).nodes.flatMap (·.properties) = g.nodes.flatMap (·.properties) := by
    have hmap : (g.connect r).nodes.map (·.properties) = g.nodes.map (·.properties) := by
      refine List.ext_getElem? fun i => ?_
      rw [List.getElem?_map, List.getElem?_map, getElem?_connect, Option.map_map]
      refine congrArg (Option.map · _) (funext fun n => ?_)
      dsimp only [Function.comp_apply]
      split <;> rfl
    rw [List.flatMap_def, List.flatMap_def, hmap]
  have hrels : (g.connect r).relationships = g.relationships ++ [r] := rfl
  unfold demands
  rw [hnodes, hrels, List.flatMap_append, List.flatMap_singleton]
  simp only [List.mem_append]
  tauto

/-- One more link of a chain: first its node, then its relationship, then the rest. -/
theorem addChain_cons {g g' : Constraints Expr} {last : Nat} {rel : RelationshipPattern}
    {node : NodePattern} {rest : List (RelationshipPattern × NodePattern)}
    {steps : List (Nat × Nat)} (h : g.addChain last ((rel, node) :: rest) = .ok (g', steps)) :
    ∃ g₁ i range steps', g.addNode node.name node.labels node.properties = .ok (g₁, i) ∧
      g₁.checkFresh rel.name = .ok () ∧ hopRange rel.range = .ok range ∧
        (g₁.connect (g₁.between rel range last i)).addChain i rest = .ok (g', steps') ∧
          steps = (g₁.relationships.length, i) :: steps' := by
  obtain ⟨⟨g₁, i⟩, hnode, h⟩ := ok_of_bind h
  obtain ⟨_, hfresh, h⟩ := ok_of_bind h
  obtain ⟨range, hrange, h⟩ := ok_of_bind h
  obtain ⟨⟨g₂, steps'⟩, hchain, h⟩ := ok_of_bind h
  cases h
  exact ⟨g₁, i, range, steps', hnode, hfresh, hrange, hchain, rfl⟩

/-- With one more link the constraints still hang together. -/
theorem WellFormed.link {g g₁ : Constraints Expr} (h : g.WellFormed) {last i : Nat}
    (hlast : last < g.nodes.length) {node : NodePattern}
    (hnode : g.addNode node.name node.labels node.properties = .ok (g₁, i))
    {rel : RelationshipPattern} (hfresh : g₁.checkFresh rel.name = .ok ())
    (range : Option HopRange) : (g₁.connect (g₁.between rel range last i)).WellFormed ∧
      i < (g₁.connect (g₁.between rel range last i)).nodes.length := by
  obtain ⟨h₁, hgrows, hi⟩ := addNode_spec h hnode
  have hlast₁ := Nat.lt_of_lt_of_le hlast hgrows.nodes
  rw [length_connect]
  exact ⟨(h₁.connect rfl rfl hlast₁ hi (checkFresh_spec hfresh)).1, hi⟩

theorem mem_demands_addChain {g g' : Constraints Expr} {last : Nat}
    {chain : List (RelationshipPattern × NodePattern)} {steps : List (Nat × Nat)}
    (h : g.addChain last chain = .ok (g', steps)) {p : String × Expr} :
    p ∈ g'.demands ↔
      (∃ link ∈ chain, p ∈ link.1.properties ∨ p ∈ link.2.properties) ∨ p ∈ g.demands := by
  induction chain generalizing g last steps with
  | nil =>
    cases h
    simp
  | cons link rest ih =>
    obtain ⟨rel, node⟩ := link
    obtain ⟨g₁, i, range, steps', hnode, -, -, hchain, -⟩ := addChain_cons h
    have hrel : (g₁.between rel range last i).properties = rel.properties := rfl
    rw [ih hchain, mem_demands_connect, hrel, mem_demands_addNode hnode, List.exists_mem_cons_iff,
      ← or_assoc, ← or_assoc, or_assoc (a := ∃ link ∈ rest, _), or_comm (a := ∃ link ∈ rest, _)]

end Constraints

/-- The constraints of one walk: of its first node, then of the rest of it. -/
theorem Constraints.ofParts_cases {part : PatternPart} {optional : Bool} {g : Constraints Expr}
    (h : ofParts [part] optional = .ok g) : ∃ g₁ start g₂ steps,
      (empty optional).addNode part.start.name part.start.labels part.start.properties =
        .ok (g₁, start) ∧
      g₁.addChain start part.chain = .ok (g₂, steps) ∧ g.nodes = g₂.nodes ∧
        g.relationships = g₂.relationships := by
  obtain ⟨g', hpart, h⟩ := ok_of_bind (show (addPart (empty optional) part >>= pure) = .ok g from h)
  cases h
  obtain ⟨⟨g₁, start⟩, hstart, hpart⟩ := ok_of_bind hpart
  obtain ⟨⟨g₂, steps⟩, hchain, hpart⟩ := ok_of_bind hpart
  refine ⟨g₁, start, g₂, steps, hstart, hchain, ?_⟩
  dsimp only at hpart
  split at hpart
  · cases hpart
    exact ⟨rfl, rfl⟩
  · split at hpart
    · cases hpart
    · cases hpart
      exact ⟨rfl, rfl⟩

/-- All properties that a walk demands, of nodes and of relationships. -/
def PatternPart.demands (part : PatternPart) : List (String × Expr) :=
  part.nodes.flatMap (·.properties) ++ part.relationships.flatMap (·.properties)

/-- The constraints of a walk demand what the walk demands. -/
theorem Constraints.mem_demands_ofParts {part : PatternPart} {optional : Bool}
    {g : Constraints Expr} (h : ofParts [part] optional = .ok g) {p : String × Expr} :
    p ∈ g.demands ↔ p ∈ part.demands := by
  obtain ⟨g₁, start, g₂, steps, hstart, hchain, hnodes, hrels⟩ := ofParts_cases h
  have hmem : p ∈ g.demands ↔ p ∈ g₂.demands := by rw [demands, demands, hnodes, hrels]
  have hpart : part.demands = (part.start.properties ++ part.chain.flatMap (·.2.properties)) ++
      part.chain.flatMap (·.1.properties) := by
    show (part.start :: part.chain.map Prod.snd).flatMap _ ++
      (part.chain.map Prod.fst).flatMap _ = _
    rw [List.flatMap_cons, List.flatMap_map, List.flatMap_map]
  rw [hmem, mem_demands_addChain hchain, mem_demands_addNode hstart, hpart]
  have hempty : p ∉ (empty optional : Constraints Expr).demands := List.not_mem_nil
  simp only [List.mem_append, List.mem_flatMap]
  constructor
  · rintro (⟨link, hlink, hp | hp⟩ | hp | hp)
    · exact Or.inr ⟨link, hlink, hp⟩
    · exact Or.inl (Or.inr ⟨link, hlink, hp⟩)
    · exact Or.inl (Or.inl hp)
    · exact absurd hp hempty
  · rintro ((hp | ⟨link, hlink, hp⟩) | ⟨link, hlink, hp⟩)
    · exact Or.inr (Or.inl hp)
    · exact Or.inl ⟨link, hlink, Or.inr hp⟩
    · exact Or.inl ⟨link, hlink, Or.inl hp⟩

end PropertyGraph
