import PropertyGraph.Proofs.Plan.Checked
import PropertyGraph.Proofs.Run.Invariant

/-!
# How a pattern is laid out

Constraints do not say which part they come from.  Here the two are put side by side: each part
walks through nodes, one for each of its node patterns, and two node patterns share a node if and
only if they have one name.  The relationships are those of the parts, one after another, and the
index of a constraint is its position.

    Constraints.Gathered      what the constraints hold after some node and relationship patterns
    Constraints.LaidOut       the constraints and the walks that the parts are through them
    Constraints.Furthered     the constraints after further demands and with values
    laidOut_of_ofParts        the constraints of a pattern are laid out, and stay so
-/

namespace PropertyGraph

/-! ## Walks of parts -/

/-- The node patterns of the parts, each with the node that its part comes to. -/
def sitesOf (parts : List PatternPart) (walks : List (List Nat)) : List (NodePattern × Nat) :=
  (parts.zip walks).flatMap fun p => p.1.nodes.zip p.2

/-- The node patterns that have come to a node, in order. -/
def occurrences (sites : List (NodePattern × Nat)) (i : Nat) : List NodePattern :=
  (sites.filter (·.2 = i)).map (·.1)

/-- The pairs of nodes that follow each other in a walk. -/
def hopsOf (walk : List Nat) : List (Nat × Nat) :=
  walk.zip walk.tail

/-- The named paths of the parts, the first relationship of which has the position `k`. -/
def pathsFrom (k : Nat) : List PatternPart → List (List Nat) → List PathConstraint
  | part :: parts, walk :: walks =>
    (part.pathName.map fun x =>
      ⟨x, walk.headD 0, (List.range' k part.chain.length).zip walk.tail⟩).toList ++
      pathsFrom (k + part.chain.length) parts walks
  | _, _ => []

theorem sublist_fst_zip {α β : Type} (as : List α) (bs : List β) :
    ((as.zip bs).map Prod.fst).Sublist as := by
  induction as generalizing bs with
  | nil => exact .slnil
  | cons a rest ih =>
    cases bs with
    | nil => exact List.nil_sublist _
    | cons b bs => exact (ih bs).cons_cons a

/-- A named path takes no relationship twice. -/
theorem nodup_steps {k : Nat} {parts : List PatternPart} {walks : List (List Nat)}
    {p : PathConstraint} (h : p ∈ pathsFrom k parts walks) : (p.steps.map Prod.fst).Nodup := by
  induction parts generalizing k walks with
  | nil => simp [pathsFrom] at h
  | cons part rest ih =>
    cases walks with
    | nil => simp [pathsFrom] at h
    | cons walk walks =>
      rw [pathsFrom, List.mem_append, Option.mem_toList, Option.map_eq_some_iff] at h
      rcases h with ⟨x, -, rfl⟩ | h
      · exact List.Nodup.sublist (sublist_fst_zip _ _) List.nodup_range'
      · exact ih h

theorem mem_occurrences {sites : List (NodePattern × Nat)} {i : Nat} {n : NodePattern} :
    n ∈ occurrences sites i ↔ (n, i) ∈ sites := by
  simp [occurrences]

theorem occurrences_append (sites : List (NodePattern × Nat)) (n : NodePattern) (i j : Nat) :
    occurrences (sites ++ [(n, i)]) j =
      occurrences sites j ++ if i = j then [n] else [] := by
  by_cases h : i = j <;> simp [occurrences, h]

/-! ## Demands of patterns -/

section Demands

variable {P Q : Type}

/-- Each property is among the others, which hold in its place what `R` says. -/
def Carried (R : P → Q → Prop) (ps : List (String × P)) (qs : List (String × Q)) : Prop :=
  ∀ e ∈ ps, ∃ q, (e.1, q) ∈ qs ∧ R e.2 q

theorem Carried.trans {P' : Type} {R : P' → P → Prop} {S : P → Q → Prop}
    {os : List (String × P')} {ps : List (String × P)} {qs : List (String × Q)}
    (h : Carried R os ps) (h' : Carried S ps qs) : Carried (Relation.Comp R S) os qs := by
  intro e he
  obtain ⟨p, hp, hR⟩ := h e he
  obtain ⟨q, hq, hS⟩ := h' _ hp
  exact ⟨q, hq, p, hR, hS⟩

theorem Carried.of_subset {ps qs : List (String × P)} (h : ps ⊆ qs) : Carried Eq ps qs :=
  fun e he => ⟨e.2, h he, rfl⟩

/-- The constraint demands what the node patterns demand together, and no more. -/
structure NodeConstraint.Gathers (c : NodeConstraint Expr) (ns : List NodePattern) : Prop where
  occurs : ns ≠ []
  name : ∀ n ∈ ns, n.name = c.name
  labels : ∀ l, l ∈ c.labels ↔ ∃ n ∈ ns, l ∈ n.labels
  properties : c.properties = ns.flatMap (·.properties)

/-- The constraint demands what the node patterns demand together. -/
structure NodeConstraint.Carries (R : Expr → P → Prop) (c : NodeConstraint P)
    (ns : List NodePattern) : Prop where
  occurs : ns ≠ []
  name : ∀ n ∈ ns, n.name = c.name
  labels : ∀ n ∈ ns, ∀ l ∈ n.labels, l ∈ c.labels
  properties : ∀ n ∈ ns, Carried R n.properties c.properties

/-- The constraint is of the relationship pattern and demands what it demands. -/
structure RelationshipConstraint.StandsFor (R : Expr → P → Prop) (rel : RelationshipPattern)
    (r : RelationshipConstraint P) : Prop where
  name : r.name = rel.name
  types : r.types = rel.types
  heading : r.heading = rel.heading
  range : Constraints.hopRange rel.range = .ok r.range
  properties : Carried R rel.properties r.properties

/-- The constraint is the one of the relationship pattern. -/
def RelationshipConstraint.IsOf (rel : RelationshipPattern)
    (r : RelationshipConstraint Expr) : Prop :=
  ∃ range, Constraints.hopRange rel.range = .ok range ∧
    r = ⟨r.index, rel.name, rel.types, rel.properties, rel.heading, range, r.optional, r.first,
      r.second⟩

theorem RelationshipConstraint.IsOf.standsFor {rel : RelationshipPattern}
    {r : RelationshipConstraint Expr} (h : IsOf rel r) : StandsFor Eq rel r := by
  obtain ⟨range, hrange, hr⟩ := h
  rw [hr]
  exact ⟨rfl, rfl, rfl, hrange, .of_subset fun _ => id⟩

namespace NodeConstraint.Gathers

variable {c : NodeConstraint Expr} {ns : List NodePattern}

theorem single (n : NodePattern) (index : Nat) (optional : Bool) (incident : List Nat) :
    Gathers ⟨index, n.name, n.labels, n.properties, optional, incident⟩ [n] := by
  constructor <;> simp

theorem append (h : c.Gathers ns) {n : NodePattern} (hname : n.name = c.name) :
    Gathers { c with
      labels := Constraints.mergeLabels c.labels n.labels
      properties := c.properties ++ n.properties } (ns ++ [n]) where
  occurs := by simp
  name := List.forall_mem_append.2 ⟨h.name, by simp [hname]⟩
  labels l := by
    dsimp only
    rw [Constraints.mem_mergeLabels, h.labels]
    simp [or_and_right, exists_or]
  properties := by simp [h.properties]

theorem carries (h : c.Gathers ns) : c.Carries Eq ns where
  occurs := h.occurs
  name := h.name
  labels n hn l hl := (h.labels l).2 ⟨n, hn, hl⟩
  properties n hn := by
    rw [h.properties]
    exact .of_subset fun e he => List.mem_flatMap.2 ⟨n, hn, he⟩

end NodeConstraint.Gathers

end Demands

/-! ## Gathering -/

namespace Constraints

theorem eq_of_nodup_filterMap {α : Type} {f : α → Option String} {as : List α}
    (h : (as.filterMap f).Nodup) {i j : Nat} {a b : α} (hi : as[i]? = some a)
    (hj : as[j]? = some b) {x : String} (ha : f a = some x) (hb : f b = some x) : i = j := by
  have hpair := List.pairwise_iff_getElem.1 (List.pairwise_filterMap.1 h)
  obtain ⟨hi', rfl⟩ := List.getElem?_eq_some_iff.1 hi
  obtain ⟨hj', rfl⟩ := List.getElem?_eq_some_iff.1 hj
  rcases Nat.lt_trichotomy i j with hlt | heq | hlt
  · exact absurd rfl (hpair i j hi' hj' hlt x ha x hb)
  · exact heq
  · exact absurd rfl (hpair j i hj' hi' hlt x hb x ha)

/-- A name belongs to one node only. -/
theorem WellFormed.node_unique {P : Type} {g : Constraints P} (h : g.WellFormed) {i j : Nat}
    {c d : NodeConstraint P} (hi : g.nodes[i]? = some c) (hj : g.nodes[j]? = some d) {x : String}
    (hc : c.name = some x) (hd : d.name = some x) : i = j :=
  eq_of_nodup_filterMap (List.nodup_append.1 h.names).1 hi hj hc hd

/-- The constraints hold what the node patterns demand at the nodes they have come to, and one
relationship for each relationship pattern, between the given ends. -/
structure Gathered (sites : List (NodePattern × Nat)) (rels : List RelationshipPattern)
    (ends : List (Nat × Nat)) (g : Constraints Expr) : Prop where
  within : ∀ s ∈ sites, s.2 < g.nodes.length
  nodes : ∀ (i : Nat) c, g.nodes[i]? = some c → c.Gathers (occurrences sites i)
  shared : sites.Pairwise fun s s' =>
    s.2 = s'.2 ↔ ∃ x, s.1.name = some x ∧ s'.1.name = some x
  relationships : List.Forall₂ RelationshipConstraint.IsOf rels g.relationships
  ends : g.relationships.map (fun r => (r.first, r.second)) = ends
  incident : ∀ (i : Nat) c, g.nodes[i]? = some c → c.incident.Pairwise (· < ·)

namespace Gathered

variable {g g' : Constraints Expr} {sites : List (NodePattern × Nat)}
  {rels : List RelationshipPattern} {ends : List (Nat × Nat)} {i : Nat} {n : NodePattern}

theorem empty (optional : Bool) : Gathered [] [] [] (.empty optional) :=
  ⟨nofun, nofun, .nil, .nil, rfl, nofun⟩

theorem node_of_site (h : Gathered sites rels ends g) {s : NodePattern × Nat} (hs : s ∈ sites) :
    ∃ c, g.nodes[s.2]? = some c ∧ s.1.name = c.name := by
  have hc := List.getElem?_eq_getElem (h.within s hs)
  exact ⟨_, hc, (h.nodes _ _ hc).name _ (mem_occurrences.2 hs)⟩

/-- A node pattern that comes to a new node. -/
theorem newNode (h : Gathered sites rels ends g) (hnew : n.name.bind g.node? = none) :
    Gathered (sites ++ [(n, g.nodes.length)]) rels ends
      (g.newNode n.name n.labels n.properties) where
  within := by
    refine List.forall_mem_append.2 ⟨fun s hs => ?_, by simp [newNode_nodes]⟩
    have := h.within s hs
    simp only [newNode_nodes, List.length_append, List.length_singleton]
    omega
  nodes i c hc := by
    rw [occurrences_append]
    rcases getElem?_newNode hc with hc | ⟨rfl, rfl⟩
    · have hi := (List.getElem?_eq_some_iff.1 hc).1
      rw [if_neg (Nat.ne_of_gt hi), List.append_nil]
      exact h.nodes i c hc
    · have hnone : occurrences sites g.nodes.length = [] := by
        refine List.eq_nil_iff_forall_not_mem.2 fun m hm => ?_
        have := h.within _ (mem_occurrences.1 hm)
        omega
      rw [hnone, if_pos rfl, List.nil_append]
      exact .single n _ _ []
  shared := by
    refine List.pairwise_append.2 ⟨h.shared, List.pairwise_singleton _ _, fun s hs s' hs' => ?_⟩
    rw [List.mem_singleton.1 hs']
    refine iff_of_false (Nat.ne_of_lt (h.within s hs)) ?_
    -- a node of that name would have been found
    rintro ⟨x, hx, hn⟩
    obtain ⟨c, hc, hname⟩ := h.node_of_site hs
    dsimp only at hn
    rw [hn] at hnew
    have hfree := List.findIdx?_eq_none_iff.1 hnew c (List.mem_of_getElem? hc)
    simp [← hname, hx] at hfree
  relationships := h.relationships
  ends := h.ends
  incident i c hc := by
    rcases getElem?_newNode hc with hc | ⟨rfl, rfl⟩
    · exact h.incident i c hc
    · exact .nil

/-- A node pattern that comes to the node of its name. -/
theorem modifyNode (h : Gathered sites rels ends g) (hw : g.WellFormed) {x : String}
    (hx : n.name = some x) (hi : g.node? x = some i) :
    Gathered (sites ++ [(n, i)]) rels ends
      { g with nodes := g.nodes.modify i fun c =>
        { c with
          labels := mergeLabels c.labels n.labels, properties := c.properties ++ n.properties } } where
  within := by
    obtain ⟨c, hc, -⟩ := node?_eq_some hi
    have hlt := (List.getElem?_eq_some_iff.1 hc).1
    rw [List.length_modify]
    exact List.forall_mem_append.2 ⟨h.within, by simpa using hlt⟩
  nodes j c' hc' := by
    rw [List.getElem?_modify] at hc'
    obtain ⟨c, hc, rfl⟩ := Option.map_eq_some_iff.1 hc'
    rw [occurrences_append]
    split
    · next hij =>
      obtain ⟨d, hd, hname⟩ := node?_eq_some hi
      rw [hij, hc] at hd
      cases hd
      exact (h.nodes j c hc).append (hx.trans hname.symm)
    · rw [List.append_nil]
      exact h.nodes j c hc
  shared := by
    refine List.pairwise_append.2 ⟨h.shared, List.pairwise_singleton _ _, fun s hs s' hs' => ?_⟩
    rw [List.mem_singleton.1 hs']
    obtain ⟨c, hc, hname⟩ := h.node_of_site hs
    obtain ⟨d, hd, hdname⟩ := node?_eq_some hi
    constructor
    · rintro rfl
      rw [hc] at hd
      cases hd
      exact ⟨x, hname.trans hdname, hx⟩
    · rintro ⟨y, hy, hyn⟩
      cases hx.symm.trans hyn
      exact hw.node_unique hc hd (hname.symm.trans hy) hdname
  relationships := h.relationships
  ends := h.ends
  incident j c' hc' := by
    rw [List.getElem?_modify] at hc'
    obtain ⟨c, hc, rfl⟩ := Option.map_eq_some_iff.1 hc'
    split <;> exact h.incident j c hc

theorem addNode (h : Gathered sites rels ends g) (hw : g.WellFormed)
    (hg : g.addNode n.name n.labels n.properties = .ok (g', i)) :
    Gathered (sites ++ [(n, i)]) rels ends g' ∧ g'.paths = g.paths := by
  rcases addNode_cases hg with ⟨hnew, rfl, rfl⟩ | ⟨x, hx, hi, rfl⟩
  · exact ⟨h.newNode hnew, rfl⟩
  · exact ⟨h.modifyNode hw hx hi, rfl⟩

theorem connect (h : Gathered sites rels ends g) (hw : g.WellFormed) {rel : RelationshipPattern}
    {range : Option HopRange} (hrange : hopRange rel.range = .ok range) (first second : Nat) :
    Gathered sites (rels ++ [rel]) (ends ++ [(first, second)])
      (g.connect (g.between rel range first second)) where
  within := by
    rw [length_connect]
    exact h.within
  nodes i c hc := by
    rw [getElem?_connect] at hc
    obtain ⟨d, hd, rfl⟩ := Option.map_eq_some_iff.1 hc
    have hgathers := h.nodes i d hd
    split
    · exact ⟨hgathers.occurs, hgathers.name, hgathers.labels, hgathers.properties⟩
    · exact hgathers
  shared := h.shared
  relationships := by
    show List.Forall₂ _ _ (g.relationships ++ [_])
    exact List.rel_append h.relationships (.cons ⟨range, hrange, rfl⟩ .nil)
  ends := by
    show (g.relationships ++ [_]).map _ = _
    rw [List.map_append, h.ends]
    rfl
  incident i c hc := by
    rw [getElem?_connect] at hc
    obtain ⟨d, hd, rfl⟩ := Option.map_eq_some_iff.1 hc
    split
    · refine List.pairwise_append.2 ⟨h.incident i d hd, List.pairwise_singleton _ _,
        fun k hk k' hk' => ?_⟩
      rw [List.mem_singleton.1 hk']
      obtain ⟨r, hr, -⟩ := (hw.incident i d hd k).1 hk
      exact (List.getElem?_eq_some_iff.1 hr).1
    · exact h.incident i d hd

/-- The rest of a walk comes to a node for each node pattern, and has taken one relationship to
each of them. -/
theorem addChain (h : Gathered sites rels ends g) (hw : g.WellFormed) {last : Nat}
    (hlast : last < g.nodes.length) {chain : List (RelationshipPattern × NodePattern)}
    {steps : List (Nat × Nat)} (hg : g.addChain last chain = .ok (g', steps)) :
    ∃ walk, walk.length = chain.length ∧
      Gathered (sites ++ (chain.map Prod.snd).zip walk) (rels ++ chain.map Prod.fst)
        (ends ++ hopsOf (last :: walk)) g' ∧
      steps = (List.range' rels.length chain.length).zip walk ∧ g'.paths = g.paths := by
  induction chain generalizing g last steps sites rels ends with
  | nil =>
    cases hg
    exact ⟨[], rfl, by simpa [hopsOf] using h, rfl, rfl⟩
  | cons link rest ih =>
    obtain ⟨rel, node⟩ := link
    obtain ⟨g₁, i, range, steps', hnode, hfresh, hrange, hchain, rfl⟩ := addChain_cons hg
    obtain ⟨h₁, hpaths⟩ := h.addNode hw hnode
    have hw₁ := (addNode_spec hw hnode).1
    obtain ⟨hw₂, hi⟩ := hw.link hlast hnode hfresh range
    obtain ⟨walk, hlen, h₂, hsteps, hpaths₂⟩ := ih (h₁.connect hw₁ hrange last i) hw₂ hi hchain
    have hcount : g₁.relationships.length = rels.length := h₁.relationships.length_eq.symm
    refine ⟨i :: walk, by simp [hlen], ?_, ?_, hpaths₂.trans hpaths⟩
    · simpa [hopsOf] using h₂
    · rw [hsteps, hcount, List.length_append]
      rfl

theorem addPart (h : Gathered sites rels ends g) (hw : g.WellFormed) {part : PatternPart}
    (hg : g.addPart part = .ok g') :
    ∃ walk, walk.length = part.nodes.length ∧
      Gathered (sites ++ part.nodes.zip walk) (rels ++ part.relationships) (ends ++ hopsOf walk) g' ∧
      g'.paths = g.paths ++ pathsFrom rels.length [part] [walk] ∧
      ∀ x, part.pathName = some x → x ∉ g'.elementNames := by
  obtain ⟨⟨g₁, start⟩, hnode, hg⟩ := ok_of_bind hg
  obtain ⟨⟨g₂, steps⟩, hchain, hg⟩ := ok_of_bind hg
  obtain ⟨hw₁, -, hstart⟩ := addNode_spec hw hnode
  obtain ⟨h₁, hpaths₁⟩ := h.addNode hw hnode
  obtain ⟨walk, hlen, h₂, hsteps, hpaths₂⟩ := h₁.addChain hw₁ hstart hchain
  have hpaths := hpaths₂.trans hpaths₁
  refine ⟨start :: walk, by simp [PatternPart.nodes, hlen], ?_⟩
  have hsites : sites ++ part.nodes.zip (start :: walk) =
      sites ++ [(part.start, start)] ++ (part.chain.map Prod.snd).zip walk := by
    rw [List.append_assoc]
    rfl
  rw [hsites]
  dsimp only at hg
  split at hg
  · next hname =>
    cases hg
    exact ⟨h₂, by simp [pathsFrom, hname, hpaths], by simp [hname]⟩
  · next x hname =>
    split at hg
    · cases hg
    · next hfree =>
      cases hg
      refine ⟨⟨h₂.within, h₂.nodes, h₂.shared, h₂.relationships, h₂.ends, h₂.incident⟩, ?_, ?_⟩
      · simp [pathsFrom, hname, hpaths, hsteps]
      · intro y hy
        cases hname.symm.trans hy
        rw [Bool.or_eq_true, not_or, Bool.not_eq_true, Bool.not_eq_true] at hfree
        exact not_mem_elementNames hfree.1 hfree.2

theorem addParts (h : Gathered sites rels ends g) (hw : g.WellFormed) {parts : List PatternPart}
    (hg : parts.foldlM Constraints.addPart g = .ok g') :
    ∃ walks, List.Forall₂ (fun part walk => walk.length = part.nodes.length) parts walks ∧
      Gathered (sites ++ sitesOf parts walks)
        (rels ++ parts.flatMap (·.relationships)) (ends ++ walks.flatMap hopsOf) g' ∧
      g'.paths = g.paths ++ pathsFrom rels.length parts walks := by
  induction parts generalizing g sites rels ends with
  | nil =>
    cases hg
    exact ⟨[], .nil, by simpa [sitesOf] using h, by simp [pathsFrom]⟩
  | cons part rest ih =>
    rw [List.foldlM_cons] at hg
    obtain ⟨g₁, hpart, hg⟩ := ok_of_bind hg
    obtain ⟨walk, hlen, h₁, hpaths₁, -⟩ := h.addPart hw hpart
    obtain ⟨walks, hlens, h₂, hpaths₂⟩ := ih h₁ (addPart_spec hw hpart).1 hg
    refine ⟨walk :: walks, .cons hlen hlens, ?_, ?_⟩
    · simpa [sitesOf] using h₂
    · rw [hpaths₂, hpaths₁]
      simp [pathsFrom, PatternPart.relationships]

end Gathered

/-! ## Laid out -/

/-- The parts walk through the constraints: through a node for each node pattern, the same for two
of them if they have one name, and over a relationship for each relationship pattern. -/
structure LaidOut {P : Type} (R : Expr → P → Prop) (parts : List PatternPart)
    (walks : List (List Nat)) (g : Constraints P) : Prop where
  wellFormed : g.WellFormed
  incident : ∀ n ∈ g.nodes, n.incident.Nodup
  lengths : List.Forall₂ (fun part walk => walk.length = part.nodes.length) parts walks
  within : ∀ s ∈ sitesOf parts walks, s.2 < g.nodes.length
  nodes : ∀ (i : Nat) c, g.nodes[i]? = some c → c.Carries R (occurrences (sitesOf parts walks) i)
  shared : (sitesOf parts walks).Pairwise fun s s' =>
    s.2 = s'.2 ↔ ∃ x, s.1.name = some x ∧ s'.1.name = some x
  relationships : List.Forall₂ (RelationshipConstraint.StandsFor R)
    (parts.flatMap (·.relationships)) g.relationships
  ends : g.relationships.map (fun r => (r.first, r.second)) = walks.flatMap hopsOf
  paths : g.paths = pathsFrom 0 parts walks

theorem Gathered.laidOut {g : Constraints Expr} {parts : List PatternPart}
    {walks : List (List Nat)} (hw : g.WellFormed)
    (hlens : List.Forall₂ (fun part walk => walk.length = part.nodes.length) parts walks)
    (h : Gathered (sitesOf parts walks) (parts.flatMap (·.relationships)) (walks.flatMap hopsOf) g)
    (hpaths : g.paths = pathsFrom 0 parts walks) : g.LaidOut Eq parts walks where
  wellFormed := hw
  incident n hn := by
    obtain ⟨i, hi⟩ := List.mem_iff_getElem?.1 hn
    exact (h.incident i n hi).imp Nat.ne_of_lt
  lengths := hlens
  within := h.within
  nodes i c hc := (h.nodes i c hc).carries
  shared := h.shared
  relationships := h.relationships.imp fun _ _ => RelationshipConstraint.IsOf.standsFor
  ends := h.ends
  paths := hpaths

/-! ## Further demands -/

section Widens

variable {P Q : Type} {R : Expr → P → Prop} {S : P → Q → Prop} {g : Constraints P}
  {g' : Constraints Q} {parts : List PatternPart} {walks : List (List Nat)}

/-- Constraints of the same shape that demand no less; `S` says what has become of a property. -/
structure Widens (S : P → Q → Prop) (g : Constraints P) (g' : Constraints Q) : Prop where
  shape : g'.shape = g.shape
  nodes : ∀ (i : Nat) n n', g.nodes[i]? = some n → g'.nodes[i]? = some n' →
    (∀ l ∈ n.labels, l ∈ n'.labels) ∧ Carried S n.properties n'.properties
  relationships : ∀ (k : Nat) r r', g.relationships[k]? = some r →
    g'.relationships[k]? = some r' → Carried S r.properties r'.properties

/-- Further demands leave the parts their walks. -/
theorem LaidOut.widen (h : g.LaidOut R parts walks) (hg : Widens S g g') :
    g'.LaidOut (Relation.Comp R S) parts walks where
  wellFormed := h.wellFormed.of_shape hg.shape
  incident n' hn' := by
    obtain ⟨i, hi⟩ := List.mem_iff_getElem?.1 hn'
    obtain ⟨n, hn, hshape⟩ := node_of_shape hg.shape hi
    have hincident : n'.incident = n.incident := congrArg (·.incident) hshape
    rw [hincident]
    exact h.incident n (List.mem_of_getElem? hn)
  lengths := h.lengths
  within := by
    have hlen : g'.nodes.length = g.nodes.length := by
      simpa [shape] using congrArg (·.nodes.length) hg.shape
    rw [hlen]
    exact h.within
  nodes i c' hc' := by
    obtain ⟨c, hc, hshape⟩ := node_of_shape hg.shape hc'
    obtain ⟨hlabels, hprops⟩ := hg.nodes i c c' hc hc'
    have hname : c'.name = c.name := congrArg (·.name) hshape
    have hcarries := h.nodes i c hc
    exact ⟨hcarries.occurs, fun n hn => (hcarries.name n hn).trans hname.symm,
      fun n hn l hl => hlabels l (hcarries.labels n hn l hl),
      fun n hn => (hcarries.properties n hn).trans hprops⟩
  shared := h.shared
  relationships := by
    have hlen : g'.relationships.length = g.relationships.length := by
      simpa [shape] using congrArg (·.relationships.length) hg.shape
    refine List.forall₂_iff_get.2 ⟨h.relationships.length_eq.trans hlen.symm, fun k hk hk' => ?_⟩
    have hget' := List.getElem?_eq_getElem hk'
    obtain ⟨r, hr, hshape⟩ := relationship_of_shape hg.shape hget'
    obtain ⟨hkr, hget⟩ := List.getElem?_eq_some_iff.1 hr
    have hstands := h.relationships.get hk hkr
    rw [List.get_eq_getElem, List.get_eq_getElem, hget] at hstands
    exact ⟨(congrArg (·.name) hshape).trans hstands.name,
      (congrArg (·.types) hshape).trans hstands.types,
      (congrArg (·.heading) hshape).trans hstands.heading,
      hstands.range.trans (congrArg Except.ok (congrArg (·.range) hshape).symm),
      hstands.properties.trans (hg.relationships k r _ hr hget')⟩
  ends := by
    have hends : g'.relationships.map (fun r => (r.first, r.second)) =
        g.relationships.map fun r => (r.first, r.second) := by
      have hmap := congrArg (fun s => s.relationships.map fun r => (r.first, r.second)) hg.shape
      simp only [shape, List.map_map] at hmap
      exact hmap
    rw [hends]
    exact h.ends
  paths := by
    have hpaths : g'.paths = g.paths := congrArg (·.paths) hg.shape
    rw [hpaths]
    exact h.paths

end Widens

/-- One more demand on a node leaves it all demands that it has. -/
theorem widens_modifyNode {P : Type} (g : Constraints P) (i : Nat)
    {f : NodeConstraint P → NodeConstraint P}
    (hf : ∀ n, (f n).shape = n.shape ∧ n.labels ⊆ (f n).labels ∧ n.properties ⊆ (f n).properties) :
    Widens Eq g { g with nodes := g.nodes.modify i f } where
  shape := shape_modifyNode g i fun n => (hf n).1
  nodes j n n' hn hn' := by
    rw [List.getElem?_modify, hn] at hn'
    cases hn'
    dsimp only
    split
    · exact ⟨fun l hl => (hf n).2.1 hl, .of_subset (hf n).2.2⟩
    · exact ⟨fun l hl => hl, .of_subset fun _ => id⟩
  relationships k r r' hr hr' := by
    cases hr.symm.trans hr'
    exact .of_subset fun _ => id

theorem widens_addLabel? {P : Type} {g g' : Constraints P} {x l : String}
    (h : g.addLabel? x l = some g') : Widens Eq g g' := by
  obtain ⟨i, -, rfl⟩ := Option.map_eq_some_iff.1 h
  exact widens_modifyNode g i fun n =>
    ⟨rfl, fun _ hl => mem_mergeLabels.2 (Or.inl hl), fun _ => id⟩

theorem widens_addProperty? {P : Type} {g g' : Constraints P} {x key : String} {p : P}
    (h : g.addProperty? x key p = some g') : Widens Eq g g' := by
  have hshape := shape_addProperty? h
  unfold addProperty? at h
  split at h
  · cases h
    exact widens_modifyNode g _ fun n => ⟨rfl, fun _ => id, List.subset_append_left _ _⟩
  · split at h
    · cases h
    · cases h
      refine ⟨hshape, fun j n n' hn hn' => ?_, fun j r r' hr hr' => ?_⟩
      · cases hn.symm.trans hn'
        exact ⟨fun l hl => hl, .of_subset fun _ => id⟩
      · rw [List.getElem?_modify, hr] at hr'
        cases hr'
        dsimp only
        split
        · exact .of_subset (List.subset_append_left _ _)
        · exact .of_subset fun _ => id
  · cases h

/-! ## Values for the demands -/

section Values

variable {P Q : Type} {S : P → Q → Prop} {f : P → Run Q}

theorem results_mapProperties (hf : ∀ p, (f p).Results (S p)) (ps : List (String × P)) :
    (mapProperties f ps).Results (Carried S ps) := by
  induction ps with
  | nil => exact .ok nofun
  | cons e rest ih =>
    refine (hf e.2).bind fun q hq => ih.bind fun qs hqs => .ok ?_
    refine List.forall_mem_cons.2 ⟨⟨q, List.mem_cons_self, hq⟩, fun e' he' => ?_⟩
    obtain ⟨q', hq', hS⟩ := hqs e' he'
    exact ⟨q', List.mem_cons_of_mem _ hq', hS⟩

/-- Values for the properties leave the nodes their labels and each property a value. -/
theorem widens_mapM (hf : ∀ p, (f p).Results (S p)) (g : Constraints P) :
    (g.mapM f).Results (Widens S g) := by
  unfold mapM
  refine (Run.Keeps.mapM (S := fun n n' => n'.shape = n.shape ∧ n'.labels = n.labels ∧
    Carried S n.properties n'.properties) fun n _ =>
      (results_mapProperties hf _).bind fun ps hps => .ok ⟨rfl, rfl, hps⟩).bind fun nodes hn => ?_
  refine (Run.Keeps.mapM (S := fun r r' => r'.shape = r.shape ∧
    Carried S r.properties r'.properties) fun r _ =>
      (results_mapProperties hf _).bind fun ps hps => .ok ⟨rfl, hps⟩).bind fun rels hr => .ok ?_
  refine ⟨?_, fun i n n' hget hget' => ?_, fun k r r' hget hget' => ?_⟩
  · unfold shape
    congr 1
    · exact map_eq_of_forall₂ (hn.imp fun _ _ => And.left)
    · exact map_eq_of_forall₂ (hr.imp fun _ _ => And.left)
  · obtain ⟨hi, rfl⟩ := List.getElem?_eq_some_iff.1 hget
    obtain ⟨hi', rfl⟩ := List.getElem?_eq_some_iff.1 hget'
    obtain ⟨-, hlabels, hprops⟩ := hn.get hi hi'
    exact ⟨fun l hl => hlabels.symm ▸ hl, hprops⟩
  · obtain ⟨hk, rfl⟩ := List.getElem?_eq_some_iff.1 hget
    obtain ⟨hk', rfl⟩ := List.getElem?_eq_some_iff.1 hget'
    exact (hr.get hk hk').2

end Values

/-- What can be made of constraints by further demands of labels and of properties, and by giving
values to the properties; `R` says what has become of a property. -/
inductive Furthered (g : Constraints Expr) : {P : Type} → (Expr → P → Prop) → Constraints P → Prop
  | same : Furthered g Eq g
  | label {P : Type} {R : Expr → P → Prop} {h h' : Constraints P} {x l : String} :
    Furthered g R h → h.addLabel? x l = some h' → Furthered g R h'
  | property {P : Type} {R : Expr → P → Prop} {h h' : Constraints P} {x key : String} {p : P} :
    Furthered g R h → h.addProperty? x key p = some h' → Furthered g R h'
  | values {P Q : Type} {R : Expr → P → Prop} {h : Constraints P} {h' : Constraints Q}
      {f : P → Run Q} {s t : RunState} :
    Furthered g R h → h.mapM f s = (.ok h', t) →
      Furthered g (Relation.Comp R fun p q => ∃ s t, f p s = (.ok q, t)) h'

/-- Whatever further demands are made, the parts keep their walks. -/
theorem LaidOut.furthered {g : Constraints Expr} {parts : List PatternPart}
    {walks : List (List Nat)} (hg : g.LaidOut Eq parts walks) {P : Type} {R : Expr → P → Prop}
    {h : Constraints P} (hh : Furthered g R h) : h.LaidOut R parts walks := by
  induction hh with
  | same => exact hg
  | label _ hlabel ih => simpa only [Relation.comp_eq] using ih.widen (widens_addLabel? hlabel)
  | property _ hprop ih => simpa only [Relation.comp_eq] using ih.widen (widens_addProperty? hprop)
  | @values P Q R h h' f s t _ hmap ih =>
    have hf : ∀ p, (f p).Results fun q => ∃ s t, f p s = (.ok q, t) :=
      fun p s _ q t hrun => ⟨trivial, s, t, hrun⟩
    exact ih.widen (widens_mapM hf h s trivial h' t hmap).2

/-- Whatever further demands are made, an optional pattern stays one. -/
theorem Furthered.optional {g : Constraints Expr} {P : Type} {R : Expr → P → Prop}
    {h : Constraints P} (hh : Furthered g R h) : h.optional = g.optional := by
  induction hh with
  | same => rfl
  | label _ hlabel ih => exact (congrArg (·.optional) (widens_addLabel? hlabel).shape).trans ih
  | property _ hprop ih => exact (congrArg (·.optional) (shape_addProperty? hprop)).trans ih
  | @values P Q R h h' f s t _ hmap ih =>
    have hshape := (widens_mapM (S := fun _ _ => True) (fun _ _ _ _ _ _ => ⟨trivial, trivial⟩) h s
      trivial h' t hmap).2.shape
    exact (congrArg (·.optional) hshape).trans ih

theorem exists_walks {parts : List PatternPart} {optional : Bool} {g : Constraints Expr}
    (hg : ofParts parts optional = .ok g) :
    ∃ walks, Gathered (sitesOf parts walks) (parts.flatMap (·.relationships))
      (walks.flatMap hopsOf) g ∧ g.LaidOut Eq parts walks := by
  obtain ⟨walks, hlens, hgathered, hpaths⟩ :=
    (Gathered.empty optional).addParts (wellFormed_empty optional) hg
  exact ⟨walks, hgathered, hgathered.laidOut (wellFormed_of_ofParts hg).1 hlens hpaths⟩

/-- The parts of a pattern walk through its constraints, which demand at each node what the node
patterns there demand and no more.  Further demands, and values for the properties, leave the walks
and the indices as they are and take no demand away. -/
theorem laidOut_of_ofParts {parts : List PatternPart} {optional : Bool} {g : Constraints Expr}
    (hg : ofParts parts optional = .ok g) :
    ∃ walks, Gathered (sitesOf parts walks) (parts.flatMap (·.relationships))
        (walks.flatMap hopsOf) g ∧
      ∀ (P : Type) (R : Expr → P → Prop) (h : Constraints P), Furthered g R h →
        h.LaidOut R parts walks ∧
        (∀ (i : Nat) n, h.nodes[i]? = some n → n.index = i ∧ n.optional = optional) ∧
        ∀ (k : Nat) r, h.relationships[k]? = some r → r.index = k ∧ r.optional = optional := by
  obtain ⟨walks, hgathered, hlaid⟩ := exists_walks hg
  refine ⟨walks, hgathered, fun P R h hh => ?_⟩
  have hlaid' := hlaid.furthered hh
  have hopt : h.optional = optional := hh.optional.trans (wellFormed_of_ofParts hg).2
  exact ⟨hlaid', hopt ▸ hlaid'.wellFormed.nodes, hopt ▸ hlaid'.wellFormed.relationships⟩

/-- The parts of `p = (a:X)-[r:R]->(b)<-[*..2]-(a:Y), (a)--(a)`, which come back to `a`. -/
def roundParts : List PatternPart :=
  [⟨some "p", ⟨some "a", ["X"], []⟩,
      [(⟨some "r", ["R"], .outgoing, [], none⟩, ⟨some "b", [], []⟩),
       (⟨none, [], .incoming, [], some ⟨none, some 2⟩⟩, ⟨some "a", ["Y"], []⟩)]⟩,
    ⟨none, ⟨some "a", [], []⟩, [(⟨none, [], .undirected, [], none⟩, ⟨some "a", [], []⟩)]⟩]

/-- The walks are told by the constraints of parts that come back, one of them by a loop. -/
theorem laidOut_roundParts : ∃ g, ofParts roundParts false = .ok g ∧
    g.nodes.map (·.incident) = [[0, 1, 2], [0, 1]] ∧
    ∃ walks, Gathered (sitesOf roundParts walks) (roundParts.flatMap (·.relationships))
        (walks.flatMap hopsOf) g ∧
      ∀ (P : Type) (R : Expr → P → Prop) (h : Constraints P), Furthered g R h →
        h.LaidOut R roundParts walks ∧
        (∀ (i : Nat) n, h.nodes[i]? = some n → n.index = i ∧ n.optional = false) ∧
        ∀ (k : Nat) r, h.relationships[k]? = some r → r.index = k ∧ r.optional = false :=
  ⟨_, rfl, rfl, laidOut_of_ofParts rfl⟩

end Constraints

end PropertyGraph
