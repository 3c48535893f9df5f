import Mathlib.Data.List.Forall2
import Mathlib.Data.List.Nodup
import PropertyGraph.Pattern.Constraint

/-!
# Constraints built from a pattern

Constraints that come from the parts of a pattern hang together: the index of each of them is its
position, relationships join nodes that are there, every node knows the relationships it is an end
of, no two constraints share a name, and a named path runs along relationships from node to node.

    Constraints.WellFormed      the constraints hang together
    WellFormed.of_shape         labels and properties have no say in that
    wellFormed_of_ofParts       the constraints of a pattern hang together
-/

namespace PropertyGraph

theorem ok_of_bind {ε α β : Type} {x : Except ε α} {f : α → Except ε β} {b : β}
    (h : (x >>= f) = .ok b) : ∃ a, x = .ok a ∧ f a = .ok b := by
  cases x with
  | error e => cases h
  | ok a => exact ⟨a, rfl, h⟩

theorem ok_of_toOption_map {ε α β : Type} {x : Except ε α} {f : α → β} {b : β}
    (h : x.toOption.map f = some b) : ∃ a, x = .ok a ∧ f a = b := by
  cases x with
  | error e => cases h
  | ok a => exact ⟨a, rfl, Option.some.inj h⟩

/-! ## Shape -/

section Shape

variable {P : Type}

/-- The node without its labels and properties. -/
def NodeConstraint.shape (n : NodeConstraint P) : NodeConstraint Unit :=
  ⟨n.index, n.name, [], [], n.optional, n.incident⟩

/-- The relationship without its properties. -/
def RelationshipConstraint.shape (r : RelationshipConstraint P) : RelationshipConstraint Unit :=
  ⟨r.index, r.name, r.types, [], r.heading, r.range, r.optional, r.first, r.second⟩

/-- The constraints without the labels of nodes and without properties. -/
def Constraints.shape (g : Constraints P) : Constraints Unit :=
  ⟨g.optional, g.nodes.map (·.shape), g.relationships.map (·.shape), g.paths⟩

end Shape

namespace Constraints

variable {P Q : Type}

/-! ## Hanging together -/

/-- The steps lead along relationships from the node on. -/
def Chain (g : Constraints P) (start : Nat) : List (Nat × Nat) → Prop
  | [] => start < g.nodes.length
  | (k, next) :: rest =>
    (∃ r, g.relationships[k]? = some r ∧ r.first = start ∧ r.second = next) ∧ g.Chain next rest

/-- The names of nodes and relationships. -/
def elementNames (g : Constraints P) : List String :=
  g.nodes.filterMap (·.name) ++ g.relationships.filterMap (·.name)

/-- The constraints hang together. -/
structure WellFormed (g : Constraints P) : Prop where
  nodes : ∀ (i : Nat) n, g.nodes[i]? = some n → n.index = i ∧ n.optional = g.optional
  relationships : ∀ (k : Nat) r, g.relationships[k]? = some r →
    r.index = k ∧ r.optional = g.optional
  ends : ∀ r ∈ g.relationships, r.first < g.nodes.length ∧ r.second < g.nodes.length
  incident : ∀ (i : Nat) n, g.nodes[i]? = some n → ∀ k, k ∈ n.incident ↔
    ∃ r, g.relationships[k]? = some r ∧ (r.first = i ∨ r.second = i)
  names : g.elementNames.Nodup
  paths : ∀ p ∈ g.paths, g.Chain p.start p.steps

theorem wellFormed_empty (optional : Bool) : (empty optional : Constraints P).WellFormed :=
  ⟨by simp [empty], by simp [empty], by simp [empty], by simp [empty],
    by simp [empty, elementNames], by simp [empty]⟩

theorem chain_shape (g : Constraints P) (start : Nat) (steps : List (Nat × Nat)) :
    g.shape.Chain start steps ↔ g.Chain start steps := by
  induction steps generalizing start with
  | nil => simp [Chain, shape]
  | cons step rest ih =>
    obtain ⟨k, next⟩ := step
    simp only [Chain, ih]
    refine and_congr_left' ?_
    simp only [shape, List.getElem?_map, Option.map_eq_some_iff]
    constructor
    · rintro ⟨_, ⟨r, hr, rfl⟩, hends⟩
      exact ⟨r, hr, hends⟩
    · rintro ⟨r, hr, hends⟩
      exact ⟨r.shape, ⟨r, hr, rfl⟩, hends⟩

theorem elementNames_shape (g : Constraints P) : g.shape.elementNames = g.elementNames := by
  simp only [elementNames, shape, List.filterMap_map]
  rfl

theorem wellFormed_shape (g : Constraints P) : g.shape.WellFormed ↔ g.WellFormed := by
  have hrel : ∀ k i : Nat, (∃ r, g.shape.relationships[k]? = some r ∧ (r.first = i ∨ r.second = i)) ↔
      ∃ r, g.relationships[k]? = some r ∧ (r.first = i ∨ r.second = i) := by
    intro k i
    simp only [shape, List.getElem?_map]
    cases g.relationships[k]? <;> simp [RelationshipConstraint.shape]
  constructor
  · intro h
    refine ⟨fun i n hn => h.nodes i n.shape (by simp [shape, hn]),
      fun k r hr => h.relationships k r.shape (by simp [shape, hr]), fun r hr => ?_,
      fun i n hn k => ?_, ?_, fun p hp => ?_⟩
    · have := h.ends r.shape (List.mem_map.2 ⟨r, hr, rfl⟩)
      simpa [shape, RelationshipConstraint.shape] using this
    · have := h.incident i n.shape (by simp [shape, hn]) k
      rw [hrel] at this
      exact this
    · rw [← elementNames_shape]; exact h.names
    · exact (chain_shape g p.start p.steps).1 (h.paths p hp)
  · intro h
    refine ⟨fun i n hn => ?_, fun k r hr => ?_, fun r hr => ?_, fun i n hn k => ?_, ?_,
      fun p hp => ?_⟩
    · simp only [shape, List.getElem?_map, Option.map_eq_some_iff] at hn
      obtain ⟨n, hn, rfl⟩ := hn
      exact h.nodes i n hn
    · simp only [shape, List.getElem?_map, Option.map_eq_some_iff] at hr
      obtain ⟨r, hr, rfl⟩ := hr
      exact h.relationships k r hr
    · obtain ⟨r, hmem, rfl⟩ := List.mem_map.1 hr
      simpa [shape, RelationshipConstraint.shape] using h.ends r hmem
    · rw [hrel]
      simp only [shape, List.getElem?_map, Option.map_eq_some_iff] at hn
      obtain ⟨n, hn, rfl⟩ := hn
      exact h.incident i n hn k
    · rw [elementNames_shape]; exact h.names
    · exact (chain_shape g p.start p.steps).2 (h.paths p hp)

/-- Whether constraints hang together is a matter of their shape. -/
theorem WellFormed.of_shape {g : Constraints P} {g' : Constraints Q} (h : g.WellFormed)
    (hs : g'.shape = g.shape) : g'.WellFormed := by
  rw [← wellFormed_shape, hs, wellFormed_shape]
  exact h

/-- Constraints of one shape have nodes of one shape in each position. -/
theorem node_of_shape {g : Constraints P} {g' : Constraints Q} (hs : g'.shape = g.shape) {i : Nat}
    {n' : NodeConstraint Q} (hn : g'.nodes[i]? = some n') :
    ∃ n, g.nodes[i]? = some n ∧ n'.shape = n.shape := by
  have hget := congrArg (fun s => s.nodes[i]?) hs
  simp only [shape, List.getElem?_map, hn, Option.map_some] at hget
  obtain ⟨n, hn, heq⟩ := Option.map_eq_some_iff.1 hget.symm
  exact ⟨n, hn, heq.symm⟩

theorem relationship_of_shape {g : Constraints P} {g' : Constraints Q} (hs : g'.shape = g.shape)
    {k : Nat} {r' : RelationshipConstraint Q} (hr : g'.relationships[k]? = some r') :
    ∃ r, g.relationships[k]? = some r ∧ r'.shape = r.shape := by
  have hget := congrArg (fun s => s.relationships[k]?) hs
  simp only [shape, List.getElem?_map, hr, Option.map_some] at hget
  obtain ⟨r, hr, heq⟩ := Option.map_eq_some_iff.1 hget.symm
  exact ⟨r, hr, heq.symm⟩

theorem shape_modifyNode (g : Constraints P) (i : Nat) {f : NodeConstraint P → NodeConstraint P}
    (hf : ∀ n, (f n).shape = n.shape) :
    Constraints.shape { g with nodes := g.nodes.modify i f } = g.shape := by
  unfold shape
  congr 1
  refine List.ext_getElem? fun k => ?_
  simp only [List.getElem?_map, List.getElem?_modify]
  cases g.nodes[k]? with
  | none => rfl
  | some n => by_cases h : i = k <;> simp [h, hf]

/-! ## Growth -/

/-- More nodes and relationships, what was there keeping its place. -/
structure Grows (g g' : Constraints P) : Prop where
  optional : g'.optional = g.optional
  nodes : g.nodes.length ≤ g'.nodes.length
  relationships : ∀ (k : Nat) r, g.relationships[k]? = some r → g'.relationships[k]? = some r

theorem Grows.trans {g g' g'' : Constraints P} (h : g.Grows g') (h' : g'.Grows g'') :
    g.Grows g'' :=
  ⟨h'.optional.trans h.optional, Nat.le_trans h.nodes h'.nodes,
    fun k r hr => h'.relationships k r (h.relationships k r hr)⟩

theorem Chain.mono {g g' : Constraints P} (hg : g.Grows g') {start : Nat}
    {steps : List (Nat × Nat)} (h : g.Chain start steps) : g'.Chain start steps := by
  induction steps generalizing start with
  | nil => exact Nat.lt_of_lt_of_le h hg.nodes
  | cons step rest ih =>
    obtain ⟨⟨r, hr, hends⟩, hrest⟩ := h
    exact ⟨⟨r, hg.relationships _ r hr, hends⟩, ih hrest⟩

/-! ## Names -/

theorem isNode_eq_false {g : Constraints P} {x : String} :
    g.isNode x = false ↔ x ∉ g.nodes.filterMap (·.name) := by
  unfold isNode node?
  rw [Option.isSome_eq_false_iff, Option.isNone_iff_eq_none, List.findIdx?_eq_none_iff]
  simp

theorem isRelationship_eq_false {g : Constraints P} {x : String} :
    g.isRelationship x = false ↔ x ∉ g.relationships.filterMap (·.name) := by
  unfold isRelationship relationship?
  rw [Option.isSome_eq_false_iff, Option.isNone_iff_eq_none, List.findIdx?_eq_none_iff]
  simp

theorem not_mem_elementNames {g : Constraints P} {x : String} (hn : g.isNode x = false)
    (hr : g.isRelationship x = false) : x ∉ g.elementNames := by
  unfold elementNames
  rw [List.mem_append, not_or]
  exact ⟨isNode_eq_false.1 hn, isRelationship_eq_false.1 hr⟩

/-! ## Nodes -/

theorem newNode_nodes (g : Constraints P) (name : Option String) (labels : List String)
    (properties : List (String × P)) : (g.newNode name labels properties).nodes =
      g.nodes ++ [⟨g.nodes.length, name, labels, properties, g.optional, []⟩] := rfl

theorem newNode_relationships (g : Constraints P) (name : Option String) (labels : List String)
    (properties : List (String × P)) :
    (g.newNode name labels properties).relationships = g.relationships := rfl

/-- A node is an old one or the new one, which comes behind them. -/
theorem getElem?_newNode {g : Constraints P} {name : Option String} {labels : List String}
    {properties : List (String × P)} {i : Nat} {n : NodeConstraint P}
    (hn : (g.newNode name labels properties).nodes[i]? = some n) :
    g.nodes[i]? = some n ∨
      i = g.nodes.length ∧ n = ⟨g.nodes.length, name, labels, properties, g.optional, []⟩ := by
  rw [newNode_nodes, List.getElem?_append] at hn
  split at hn
  · exact Or.inl hn
  · obtain ⟨hpos, rfl⟩ := List.getElem?_eq_some_iff.1 hn
    rw [List.length_singleton] at hpos
    exact Or.inr ⟨by omega, List.getElem_singleton hpos⟩

theorem WellFormed.newNode {g : Constraints P} (h : g.WellFormed) (name : Option String)
    (labels : List String) (properties : List (String × P))
    (hn : ∀ x, name = some x → x ∉ g.elementNames) :
    (g.newNode name labels properties).WellFormed ∧
      g.Grows (g.newNode name labels properties) := by
  have hgrows : g.Grows (g.newNode name labels properties) :=
    ⟨rfl, by simp [newNode_nodes], fun _ _ hr => hr⟩
  refine ⟨⟨fun i m hm => ?_, h.relationships, fun r hr => ?_, fun i m hm k => ?_, ?_,
    fun p hp => (h.paths p hp).mono hgrows⟩, hgrows⟩
  · rcases getElem?_newNode hm with hm | ⟨rfl, rfl⟩
    · exact h.nodes i m hm
    · exact ⟨rfl, rfl⟩
  · obtain ⟨h1, h2⟩ := h.ends r hr
    simp only [newNode_nodes, List.length_append, List.length_singleton]
    omega
  · rcases getElem?_newNode hm with hm | ⟨rfl, rfl⟩
    · exact h.incident i m hm k
    · -- the new node is the end of nothing
      simp only [List.not_mem_nil, false_iff]
      rintro ⟨r, hr, hend⟩
      obtain ⟨h1, h2⟩ := h.ends r (List.mem_of_getElem? hr)
      omega
  · have hnames := h.names
    unfold elementNames at hnames hn ⊢
    rw [newNode_nodes, newNode_relationships]
    cases name with
    | none => simpa using hnames
    | some x =>
      have hx := hn x rfl
      simp only [List.filterMap_append, List.filterMap_cons, List.filterMap_nil,
        List.append_assoc, List.singleton_append]
      exact List.nodup_middle.2 (List.nodup_cons.2 ⟨hx, hnames⟩)

theorem addNode_spec {g g' : Constraints P} (h : g.WellFormed) {name : Option String}
    {labels : List String} {properties : List (String × P)} {i : Nat}
    (hg : g.addNode name labels properties = .ok (g', i)) :
    g'.WellFormed ∧ g.Grows g' ∧ i < g'.nodes.length := by
  unfold addNode at hg
  split at hg
  · cases hg
    obtain ⟨hw, hgrows⟩ := h.newNode none labels properties nofun
    exact ⟨hw, hgrows, by simp [newNode_nodes]⟩
  · next x =>
    split at hg
    · cases hg
    · next hrel =>
      split at hg
      · next k hk =>
        cases hg
        have hs := shape_modifyNode g i (f := fun n => { n with
          labels := mergeLabels n.labels labels, properties := n.properties ++ properties })
          fun n => rfl
        refine ⟨h.of_shape hs, ⟨rfl, by simp, fun _ _ hr => hr⟩, ?_⟩
        rw [List.length_modify]
        exact (List.findIdx?_eq_some_iff_getElem.1 hk).1
      · next hk =>
        cases hg
        obtain ⟨hw, hgrows⟩ := h.newNode (some x) labels properties fun y hy => by
          cases hy
          exact not_mem_elementNames (by simp [isNode, hk]) (by simpa using hrel)
        exact ⟨hw, hgrows, by simp [newNode_nodes]⟩

/-! ## Relationships -/

theorem getElem?_connect (g : Constraints P) (r : RelationshipConstraint P) (i : Nat) :
    (g.connect r).nodes[i]? = g.nodes[i]?.map fun n =>
      if r.first = i ∨ r.second = i then
        { n with incident := n.incident ++ [g.relationships.length] } else n := by
  unfold connect
  by_cases hs : r.second = r.first
  · simp only [hs, if_true, List.getElem?_modify, or_self]
    by_cases hi : r.first = i <;> simp [hi]
  · simp only [hs, if_false, List.getElem?_modify]
    cases g.nodes[i]? with
    | none => simp
    | some n =>
      by_cases h1 : r.first = i
      · have h2 : ¬r.second = i := fun h2 => hs (h2.trans h1.symm)
        simp [h1, h2]
      · by_cases h2 : r.second = i <;> simp [h1, h2]

theorem length_connect (g : Constraints P) (r : RelationshipConstraint P) :
    (g.connect r).nodes.length = g.nodes.length := by
  unfold connect
  split <;> simp [*]

/-- A new relationship leaves the nodes their names. -/
theorem nodeNames_connect (g : Constraints P) (r : RelationshipConstraint P) :
    (g.connect r).nodes.filterMap (·.name) = g.nodes.filterMap (·.name) := by
  have hmap : (g.connect r).nodes.map (·.name) = g.nodes.map (·.name) := by
    refine List.ext_getElem? fun i => ?_
    rw [List.getElem?_map, List.getElem?_map, getElem?_connect]
    cases g.nodes[i]? with
    | none => rfl
    | some n => simp only [Option.map_some]; split <;> rfl
  have hfm : ∀ ns : List (NodeConstraint P),
      ns.filterMap (·.name) = (ns.map (·.name)).filterMap id := by
    intro ns
    rw [List.filterMap_map]
    rfl
  rw [hfm, hmap, ← hfm]

theorem WellFormed.connect {g : Constraints P} (h : g.WellFormed) {r : RelationshipConstraint P}
    (hindex : r.index = g.relationships.length) (hopt : r.optional = g.optional)
    (hfirst : r.first < g.nodes.length) (hsecond : r.second < g.nodes.length)
    (hname : ∀ x, r.name = some x → x ∉ g.elementNames) :
    (g.connect r).WellFormed ∧ g.Grows (g.connect r) := by
  have hrels : (g.connect r).relationships = g.relationships ++ [r] := rfl
  have hgrows : g.Grows (g.connect r) := by
    refine ⟨rfl, Nat.le_of_eq (length_connect g r).symm, fun k r' hr' => ?_⟩
    have hk := (List.getElem?_eq_some_iff.1 hr').1
    rw [hrels, List.getElem?_append_left hk]
    exact hr'
  refine ⟨⟨fun i n hn => ?_, fun k r' hr' => ?_, fun r' hr' => ?_, fun i n hn k => ?_, ?_,
    fun p hp => (h.paths p hp).mono hgrows⟩, hgrows⟩
  · rw [getElem?_connect] at hn
    obtain ⟨m, hm, rfl⟩ := Option.map_eq_some_iff.1 hn
    split <;> exact h.nodes i m hm
  · rw [hrels, List.getElem?_append] at hr'
    split at hr'
    · exact h.relationships k r' hr'
    · obtain ⟨hpos, rfl⟩ := List.getElem?_eq_some_iff.1 hr'
      rw [List.length_singleton] at hpos
      rw [List.getElem_singleton]
      exact ⟨by omega, hopt⟩
  · rw [length_connect]
    rw [hrels, List.mem_append, List.mem_singleton] at hr'
    rcases hr' with hr' | rfl
    · exact h.ends r' hr'
    · exact ⟨hfirst, hsecond⟩
  · rw [getElem?_connect] at hn
    obtain ⟨m, hm, rfl⟩ := Option.map_eq_some_iff.1 hn
    have hmem := h.incident i m hm k
    rw [hrels]
    rcases Nat.lt_trichotomy k g.relationships.length with hk | rfl | hk
    · rw [List.getElem?_append_left hk, ← hmem]
      split
      · rw [List.mem_append, List.mem_singleton]
        simp [Nat.ne_of_lt hk]
      · rfl
    · have hnot : g.relationships.length ∉ m.incident := by
        rw [hmem]
        simp
      simp only [List.getElem?_concat_length, Option.some.injEq, exists_eq_left']
      split
      · next hend => simp [hend]
      · next hend => simp [hend, hnot]
    · have hnot : k ∉ m.incident := by
        rw [hmem, List.getElem?_eq_none (Nat.le_of_lt hk)]
        simp
      have hne : k ≠ g.relationships.length := Nat.ne_of_gt hk
      rw [List.getElem?_eq_none (by simp; omega)]
      split <;> simp [hnot, hne]
  · have hnames := h.names
    unfold elementNames at hnames hname ⊢
    rw [nodeNames_connect, hrels, List.filterMap_append, ← List.append_assoc]
    cases hr : r.name with
    | none => simpa [hr] using hnames
    | some x =>
      have hx := hname x hr
      simp only [List.filterMap_cons, List.filterMap_nil, hr]
      rw [List.nodup_append]
      refine ⟨hnames, List.nodup_singleton x, fun a ha b hb => ?_⟩
      rw [List.mem_singleton] at hb
      rintro rfl
      rw [hb] at ha
      exact hx ha

theorem checkFresh_spec {g : Constraints P} {name : Option String}
    (h : g.checkFresh name = .ok ()) (x : String) (hx : name = some x) : x ∉ g.elementNames := by
  subst hx
  unfold checkFresh at h
  simp only at h
  split at h
  · cases h
  · next hrel =>
    split at h
    · cases h
    · next hnode => exact not_mem_elementNames (by simpa using hnode) (by simpa using hrel)

/-! ## Parts -/

theorem addChain_spec {g g' : Constraints Expr} (h : g.WellFormed) {last : Nat}
    (hlast : last < g.nodes.length) {chain : List (RelationshipPattern × NodePattern)}
    {steps : List (Nat × Nat)} (hg : g.addChain last chain = .ok (g', steps)) :
    g'.WellFormed ∧ g.Grows g' ∧ g'.Chain last steps := by
  induction chain generalizing g last steps with
  | nil =>
    cases hg
    exact ⟨h, ⟨rfl, Nat.le_refl _, fun _ _ hr => hr⟩, hlast⟩
  | cons link rest ih =>
    obtain ⟨rel, node⟩ := link
    obtain ⟨⟨g1, next⟩, hnode, hg⟩ := ok_of_bind hg
    obtain ⟨h1, hgrows1, hnext⟩ := addNode_spec h hnode
    obtain ⟨_, hfresh, hg⟩ := ok_of_bind hg
    obtain ⟨range, -, hg⟩ := ok_of_bind hg
    obtain ⟨⟨g2, steps'⟩, hchain, hg⟩ := ok_of_bind hg
    cases hg
    obtain ⟨h2, hgrows2⟩ := h1.connect (r := g1.between rel range last next) rfl rfl
      (Nat.lt_of_lt_of_le hlast hgrows1.nodes) hnext (checkFresh_spec hfresh)
    obtain ⟨h3, hgrows3, hsteps⟩ := ih h2 (by rw [length_connect]; exact hnext) hchain
    have hlink := hgrows3.relationships g1.relationships.length _ List.getElem?_concat_length
    exact ⟨h3, hgrows1.trans (hgrows2.trans hgrows3), ⟨_, hlink, rfl, rfl⟩, hsteps⟩

theorem addPart_spec {g g' : Constraints Expr} (h : g.WellFormed) {part : PatternPart}
    (hg : g.addPart part = .ok g') : g'.WellFormed ∧ g'.optional = g.optional := by
  obtain ⟨⟨g1, start⟩, hnode, hg⟩ := ok_of_bind hg
  obtain ⟨h1, hgrows1, hstart⟩ := addNode_spec h hnode
  obtain ⟨⟨g2, steps⟩, hchain, hg⟩ := ok_of_bind hg
  obtain ⟨h2, hgrows2, hsteps⟩ := addChain_spec h1 hstart hchain
  have hopt := (hgrows1.trans hgrows2).optional
  simp only at hg
  split at hg
  · cases hg
    exact ⟨h2, hopt⟩
  · next x _ =>
    split at hg
    · cases hg
    · cases hg
      have hgrows : g2.Grows { g2 with paths := g2.paths ++ [⟨x, start, steps⟩] } :=
        ⟨rfl, Nat.le_refl _, fun _ _ hr => hr⟩
      refine ⟨⟨h2.nodes, h2.relationships, h2.ends, h2.incident, h2.names, fun p hp => ?_⟩, hopt⟩
      rcases List.mem_append.1 hp with hp | hp
      · exact (h2.paths p hp).mono hgrows
      · rw [List.mem_singleton.1 hp]
        exact hsteps.mono hgrows

/-- The constraints of a pattern hang together. -/
theorem wellFormed_of_ofParts {parts : List PatternPart} {optional : Bool} {g : Constraints Expr}
    (hg : ofParts parts optional = .ok g) : g.WellFormed ∧ g.optional = optional := by
  have key : ∀ (parts : List PatternPart) (g0 : Constraints Expr), g0.WellFormed →
      parts.foldlM addPart g0 = .ok g → g.WellFormed ∧ g.optional = g0.optional := by
    intro parts
    induction parts with
    | nil =>
      intro g0 h0 hg
      cases hg
      exact ⟨h0, rfl⟩
    | cons part rest ih =>
      intro g0 h0 hg
      rw [List.foldlM_cons] at hg
      obtain ⟨g1, hpart, hg⟩ := ok_of_bind hg
      obtain ⟨h1, hopt⟩ := addPart_spec h0 hpart
      obtain ⟨h2, hopt2⟩ := ih g1 h1 hg
      exact ⟨h2, hopt2.trans hopt⟩
  exact key parts (empty optional) (wellFormed_empty optional) hg

/-! ## Values for the properties -/

theorem forall₂_of_mapM {α β : Type} {f : α → Except Error β} {as : List α} {bs : List β}
    (h : as.mapM f = .ok bs) : List.Forall₂ (fun a b => f a = .ok b) as bs := by
  induction as generalizing bs with
  | nil => cases h; exact List.Forall₂.nil
  | cons a rest ih =>
    rw [List.mapM_cons] at h
    obtain ⟨b, hb, h⟩ := ok_of_bind h
    obtain ⟨bs', hbs, h⟩ := ok_of_bind h
    cases h
    exact List.Forall₂.cons hb (ih hbs)

theorem map_eq_of_forall₂ {α β γ : Type} {f : α → γ} {g : β → γ} {as : List α} {bs : List β}
    (h : List.Forall₂ (fun a b => g b = f a) as bs) : bs.map g = as.map f := by
  induction h with
  | nil => rfl
  | cons hab _ ih => rw [List.map_cons, List.map_cons, hab, ih]

/-- Values for the properties leave the shape as it is. -/
theorem shape_of_mapM {f : P → Except Error Q} {g : Constraints P} {g' : Constraints Q}
    (h : g.mapM f = .ok g') : g'.shape = g.shape := by
  obtain ⟨nodes, hnodes, h⟩ := ok_of_bind h
  obtain ⟨relationships, hrels, h⟩ := ok_of_bind h
  cases h
  unfold shape
  congr 1
  · refine map_eq_of_forall₂ ((forall₂_of_mapM hnodes).imp fun n n' hn => ?_)
    obtain ⟨properties, -, hn⟩ := ok_of_bind hn
    cases hn
    rfl
  · refine map_eq_of_forall₂ ((forall₂_of_mapM hrels).imp fun r r' hr => ?_)
    obtain ⟨properties, -, hr⟩ := ok_of_bind hr
    cases hr
    rfl

end Constraints

end PropertyGraph
