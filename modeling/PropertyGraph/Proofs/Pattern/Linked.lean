import Mathlib.Logic.Relation
import PropertyGraph.Proofs.Pattern.Choice
import PropertyGraph.Proofs.Pattern.Start

/-!
# Patterns in one piece

Where all nodes of a pattern hang together by its relationships, the search takes a vertex from the
whole store only once, for the first node.  As soon as something is assigned there is a constraint
next to it that comes first, and so on until nothing is open.  And by then the store has been asked
for its estimates of all nodes, which it is not asked for a second time.

    Constraints.Connected    all nodes hang together
    choose_linked            a node that is chosen later has an assigned relationship
    estimates_choose_blank   the first choice asks for the estimates of all nodes
-/

namespace PropertyGraph

namespace RelationshipConstraint

variable {P : Type}

/-- Is the node at an end of the relationship? -/
def Touches (r : RelationshipConstraint P) (i : Nat) : Prop :=
  r.first = i ∨ r.second = i

theorem mem_ends {r : RelationshipConstraint P} {i : Nat} : i ∈ r.ends ↔ r.Touches i := by
  unfold ends Touches
  split
  · next h => rw [h, List.mem_singleton, or_self, eq_comm]
  · rw [List.mem_cons, List.mem_singleton, eq_comm, @eq_comm _ i]

end RelationshipConstraint

/-! ## Connected constraints -/

namespace Constraints

variable {P Q : Type}

/-- Some relationship has both nodes as ends. -/
def Joined (g : Constraints P) (i j : Nat) : Prop :=
  ∃ (k : Nat) (r : RelationshipConstraint P), g.relationships[k]? = some r ∧ r.Touches i ∧
    r.Touches j

/-- From every node relationships lead to every other one. -/
def Connected (g : Constraints P) : Prop :=
  ∀ i < g.nodes.length, ∀ j < g.nodes.length, Relation.ReflTransGen g.Joined i j

instance (g : Constraints P) : Std.Symm g.Joined where
  symm _ _ := fun ⟨k, r, hr, hi, hj⟩ => ⟨k, r, hr, hj, hi⟩

theorem Joined.mono {g g' : Constraints P} (hg : g.Grows g') {i j : Nat} (h : g.Joined i j) :
    g'.Joined i j :=
  let ⟨k, r, hr, hi, hj⟩ := h
  ⟨k, r, hg.relationships k r hr, hi, hj⟩

/-- It is enough that every node leads to one of them. -/
theorem connected_of_hub {g : Constraints P} (hub : Nat)
    (h : ∀ i < g.nodes.length, Relation.ReflTransGen g.Joined i hub) : g.Connected :=
  fun i hi j hj => (h i hi).trans (Std.Symm.symm j hub (h j hj))

/-- Labels and properties have no say in it. -/
theorem Connected.of_shape {g : Constraints P} {g' : Constraints Q} (h : g.Connected)
    (hs : g'.shape = g.shape) : g'.Connected := by
  have hlen : g'.nodes.length = g.nodes.length := by
    simpa [shape] using congrArg (fun k => k.nodes.length) hs
  have hjoined : ∀ i j, g.Joined i j → g'.Joined i j := by
    rintro i j ⟨k, r, hr, hi, hj⟩
    obtain ⟨r', hr', heq⟩ := relationship_of_shape hs.symm hr
    have hfirst : r.first = r'.first := congrArg (·.first) heq
    have hsecond : r.second = r'.second := congrArg (·.second) heq
    unfold RelationshipConstraint.Touches at hi hj
    rw [hfirst, hsecond] at hi hj
    exact ⟨k, r', hr', hi, hj⟩
  intro i hi j hj
  rw [hlen] at hi hj
  exact Relation.ReflTransGen.mono hjoined i j (h i hi j hj)

/-! ## One part -/

/-- What is added for a node pattern is one node at most, and it is the one that is meant. -/
theorem nodes_addNode {g g' : Constraints P} {name : Option String} {labels : List String}
    {properties : List (String × P)} {i : Nat}
    (hg : g.addNode name labels properties = .ok (g', i)) :
    ∀ j < g'.nodes.length, j < g.nodes.length ∨ j = i := by
  have hnew : ∀ n : NodeConstraint P, ∀ j < (g.nodes ++ [n]).length,
      j < g.nodes.length ∨ j = g.nodes.length := by
    intro n j hj
    rw [List.length_append, List.length_singleton] at hj
    omega
  unfold addNode at hg
  split at hg
  · cases hg
    exact hnew _
  · split at hg
    · cases hg
    · split at hg
      · cases hg
        intro j hj
        rw [List.length_modify] at hj
        exact Or.inl hj
      · cases hg
        exact hnew _

theorem Connected.addChain {g g' : Constraints Expr} (hw : g.WellFormed) (h : g.Connected)
    {last : Nat} (hlast : last < g.nodes.length) {chain : List (RelationshipPattern × NodePattern)}
    {steps : List (Nat × Nat)} (hg : g.addChain last chain = .ok (g', steps)) : g'.Connected := by
  induction chain generalizing g last steps with
  | nil =>
    cases hg
    exact h
  | cons link rest ih =>
    obtain ⟨rel, node⟩ := link
    obtain ⟨⟨g1, next⟩, hnode, hg⟩ := ok_of_bind hg
    obtain ⟨h1, hgrows1, hnext⟩ := addNode_spec hw hnode
    obtain ⟨_, hfresh, hg⟩ := ok_of_bind hg
    obtain ⟨range, -, hg⟩ := ok_of_bind hg
    obtain ⟨⟨g2, steps'⟩, hchain, hg⟩ := ok_of_bind hg
    cases hg
    obtain ⟨h2, hgrows2⟩ := h1.connect (r := g1.between rel range last next) rfl rfl
      (Nat.lt_of_lt_of_le hlast hgrows1.nodes) hnext (checkFresh_spec hfresh)
    refine ih h2 (connected_of_hub last fun i hi => ?_)
      (by rw [length_connect]; exact hnext) hchain
    rw [length_connect] at hi
    rcases nodes_addNode hnode i hi with hi | rfl
    · refine Relation.ReflTransGen.mono (fun _ _ hjoined => ?_) i last (h i hi last hlast)
      exact (hjoined.mono hgrows1).mono hgrows2
    · exact .single ⟨_, _, List.getElem?_concat_length, Or.inr rfl, Or.inl rfl⟩

/-- The constraints of a single part are connected. -/
theorem connected_of_part {part : PatternPart} {optional : Bool} {g : Constraints Expr}
    (hg : ofParts [part] optional = .ok g) : g.Connected := by
  obtain ⟨g1, hpart, hg⟩ := ok_of_bind hg
  cases hg
  obtain ⟨⟨g2, start⟩, hnode, hpart⟩ := ok_of_bind hpart
  obtain ⟨h2, -, hstart⟩ := addNode_spec (wellFormed_empty optional) hnode
  obtain ⟨⟨g3, steps⟩, hchain, hpart⟩ := ok_of_bind hpart
  have hone : g2.Connected := by
    refine connected_of_hub start fun i hi => ?_
    rcases nodes_addNode hnode i hi with hi | rfl
    · exact absurd hi (Nat.not_lt_zero i)
    · exact .refl
  have h3 := hone.addChain h2 hstart hchain
  simp only at hpart
  split at hpart
  · cases hpart
    exact h3
  · split at hpart
    · cases hpart
    · cases hpart
      exact h3

end Constraints

/-! ## The least priority -/

/-- A path from inside a set to outside leaves it at some step. -/
theorem exists_leaving {α : Type} {R : α → α → Prop} {P : α → Prop} {a b : α}
    (h : Relation.ReflTransGen R a b) (ha : P a) (hb : ¬ P b) : ∃ c d, R c d ∧ P c ∧ ¬ P d := by
  induction h with
  | refl => exact absurd ha hb
  | @tail c d _ hstep ih =>
    by_cases hc : P c
    · exact ⟨c, d, hstep, hc, hb⟩
    · exact ih hc

namespace Search

variable {q : Search} {σ : Store} {m : Match}

theorem not_lt_better {best : Option (List Int × ConstraintId)} {c b : List Int × ConstraintId}
    (h : better best c = some b) : ¬ c.1 < b.1 ∧ ∀ a, best = some a → ¬ a.1 < b.1 := by
  unfold better at h
  cases best with
  | none =>
    cases h
    exact ⟨List.lt_irrefl _, nofun⟩
  | some a =>
    simp only at h
    split at h
    · next hlt =>
      cases h
      refine ⟨List.lt_irrefl _, fun a' ha' hlt' => ?_⟩
      cases ha'
      exact List.lt_irrefl _ (List.lt_trans hlt hlt')
    · next hle =>
      cases h
      exact ⟨hle, fun a' ha' => by cases ha'; exact List.lt_irrefl _⟩

/-- No candidate is before the one that the fold ends with. -/
theorem not_lt_foldl_better {cs : List (List Int × ConstraintId)}
    {best : Option (List Int × ConstraintId)} {b : List Int × ConstraintId}
    (h : cs.foldl better best = some b) :
    (∀ c ∈ cs, ¬ c.1 < b.1) ∧ ∀ a, best = some a → ¬ a.1 < b.1 := by
  induction cs generalizing best with
  | nil =>
    refine ⟨nofun, fun a ha => ?_⟩
    cases h
    cases ha
    exact List.lt_irrefl _
  | cons c rest ih =>
    obtain ⟨hrest, hbest⟩ := ih h
    cases hc : better best c with
    | none =>
      rcases better_picks best c with hpick | ⟨hpick, hne⟩
      · rw [hc] at hpick; cases hpick
      · rw [hc] at hpick; exact absurd hpick.symm hne
    | some d =>
      obtain ⟨hcd, had⟩ := not_lt_better hc
      have hdb := hbest d hc
      rw [List.not_lt] at hcd hdb
      refine ⟨List.forall_mem_cons.2 ⟨?_, hrest⟩, fun a ha => ?_⟩
      · exact List.not_lt.2 (List.le_trans hdb hcd)
      · exact List.not_lt.2 (List.le_trans hdb (List.not_lt.1 (had a ha)))

theorem least_first {cs : List (List Int × ConstraintId)} {t : ConstraintId}
    (h : least cs = some t) : ∃ b ∈ cs, b.2 = t ∧ ∀ c ∈ cs, ¬ c.1 < b.1 := by
  rw [show least cs = (cs.foldl better none).map Prod.snd from rfl] at h
  obtain ⟨b, hb, rfl⟩ := Option.map_eq_some_iff.1 h
  exact ⟨b, ((foldl_picks better_picks cs none).1 b hb).resolve_right nofun, rfl,
    (not_lt_foldl_better hb).1⟩

/-! ## What comes first -/

/-- The first number of the priority: how many neighbours are assigned, with the sign that puts the
most in front. -/
def Headed (a : Nat) (c : List Int × ConstraintId) : Prop :=
  ∃ rest, c.1 = -(a : Int) :: rest

theorem Headed.lt {a b : Nat} {c d : List Int × ConstraintId} (hc : Headed a c) (hd : Headed b d)
    (h : b < a) : c.1 < d.1 := by
  obtain ⟨rest, hc⟩ := hc
  obtain ⟨rest', hd⟩ := hd
  rw [hc, hd, List.cons_lt_cons_iff]
  left
  omega

/-- The number of assigned relationships of a node. -/
abbrev assignedAround (m : Match) (n : NodeConstraint Value) : Nat :=
  n.incident.countP fun r => (m.relationship? r).isSome

theorem exists_filterMap_of_forall₂ {α β : Type} {S : α → Option β → Prop} {as : List α}
    {os : List (Option β)} (h : List.Forall₂ S as os) {a : α} (ha : a ∈ as)
    (hsome : ¬ S a none) : ∃ b ∈ os.filterMap id, S a (some b) := by
  induction h with
  | nil => cases ha
  | @cons x o as os ho _ ih =>
    rcases List.mem_cons.1 ha with rfl | ha
    · cases o with
      | none => exact absurd ho hsome
      | some b => exact ⟨b, List.mem_cons_self, ho⟩
    · obtain ⟨b, hb, hs⟩ := ih ha
      refine ⟨b, ?_, hs⟩
      cases o with
      | none => exact hb
      | some c => exact List.mem_cons_of_mem _ hb

/-- What is noted of a node: nothing if it is assigned, else how many neighbours are. -/
def NodeNoted (m : Match) (p : NodeConstraint Value × Nat) :
    Option (List Int × ConstraintId) → Prop
  | none => (m.node? p.2).isSome = true
  | some c => m.node? p.2 = none ∧ c.2 = .node p.2 ∧ Headed (assignedAround m p.1) c

/-- What is noted of a relationship: nothing if it is assigned or has no assigned end. -/
def RelationshipNoted (m : Match) (p : RelationshipConstraint Value × Nat) :
    Option (List Int × ConstraintId) → Prop
  | none => (m.relationship? p.2).isSome = true ∨ ∀ k ∈ p.1.ends, (m.node? k).isSome = false
  | some c => c.2 = .relationship p.2 ∧ ∃ a > 0, Headed a c

theorem noted_openNodes (q : Search) (m : Match) : Reads σ (q.openNodes m) fun cs =>
    ∃ os, List.Forall₂ (NodeNoted m) q.pattern.nodes.zipIdx os ∧ cs = os.filterMap id := by
  unfold openNodes
  refine Reads.filterMapM fun p _ => ?_
  obtain ⟨n, i⟩ := p
  simp only
  split
  · next hsome => exact Reads.pure hsome
  · next hopen =>
    rw [Option.not_isSome_iff_eq_none] at hopen
    refine Reads.bind (P := fun ks => ∃ rest, ks = -(assignedAround m n : Int) :: rest) ?_
      fun ks hks => Reads.pure ⟨hopen, rfl, hks⟩
    unfold nodePriority
    exact (reads_nodeEstimate n).bind fun _ _ => Reads.pure ⟨_, rfl⟩

theorem noted_openRelationships (q : Search) (m : Match) :
    Reads σ (q.openRelationships m) fun cs =>
      ∃ os, List.Forall₂ (RelationshipNoted m) q.pattern.relationships.zipIdx os ∧
        cs = os.filterMap id := by
  unfold openRelationships
  refine Reads.filterMapM fun p _ => ?_
  obtain ⟨r, i⟩ := p
  simp only
  split
  · next hskip =>
    rw [Bool.or_eq_true, beq_iff_eq, List.countP_eq_zero] at hskip
    simp only [Bool.not_eq_true] at hskip
    exact Reads.pure hskip
  · next hopen =>
    rw [Bool.or_eq_true, beq_iff_eq, not_or] at hopen
    refine Reads.bind (P := fun ks => ∃ rest,
      ks = -((r.ends.countP fun n => (m.node? n).isSome : Nat) : Int) :: rest) ?_
      fun ks hks => Reads.pure ⟨rfl, _, Nat.pos_of_ne_zero hopen.2, hks⟩
    unfold relationshipPriority
    exact (reads_relationshipEstimate r).bind fun _ _ => Reads.pure ⟨_, rfl⟩

/-- As long as one node is assigned and another one is open, a constraint with an assigned
neighbour is open: a relationship of the assigned node or a node beyond such a relationship. -/
theorem exists_neighbour (hw : q.pattern.WellFormed) (hc : q.pattern.Connected)
    {i j : Nat} (hi : i < q.pattern.nodes.length) (hj : j < q.pattern.nodes.length)
    (hopen : m.node? i = none) (hassigned : (m.node? j).isSome = true) :
    (∃ (k : Nat) (r : RelationshipConstraint Value), q.pattern.relationships[k]? = some r ∧
      m.relationship? k = none ∧ ∃ a ∈ r.ends, (m.node? a).isSome = true) ∨
    ∃ (b : Nat) (n : NodeConstraint Value), q.pattern.nodes[b]? = some n ∧ m.node? b = none ∧
      0 < assignedAround m n := by
  obtain ⟨a, b, ⟨k, r, hr, ha, hb⟩, hsome, hnone⟩ :=
    exists_leaving (P := fun i => (m.node? i).isSome = true) (hc j hj i hi) hassigned
      (by rw [hopen]; exact Bool.false_ne_true)
  cases hk : m.relationship? k with
  | none => exact Or.inl ⟨k, r, hr, hk, a, RelationshipConstraint.mem_ends.2 ha, hsome⟩
  | some binding =>
    have hlt : b < q.pattern.nodes.length := by
      obtain ⟨hfirst, hsecond⟩ := hw.ends r (List.mem_of_getElem? hr)
      rcases hb with rfl | rfl
      · exact hfirst
      · exact hsecond
    have hn := List.getElem?_eq_getElem hlt
    refine Or.inr ⟨b, _, hn, Option.not_isSome_iff_eq_none.1 hnone, List.countP_pos_iff.2 ?_⟩
    exact ⟨k, (hw.incident b _ hn k).2 ⟨r, hr, hb⟩, by rw [hk]; rfl⟩

/-- Once a node is assigned, no node is chosen that has no assigned relationship. -/
theorem choose_linked (hw : q.pattern.WellFormed) (hc : q.pattern.Connected)
    {j : Nat} (hj : j < q.pattern.nodes.length) (hassigned : (m.node? j).isSome = true)
    {i : Nat} {n : NodeConstraint Value} (hn : q.pattern.nodes[i]? = some n) {s : RunState}
    (hchosen : (q.choose m s).1 = some (.node i)) : 0 < assignedAround m n := by
  refine (?_ : Reads s.store (q.choose m) fun o => o = some (.node i) → 0 < assignedAround m n)
    s rfl |>.1 hchosen
  unfold choose
  refine (noted_openNodes q m).bind fun nodes ⟨os, hos, hnodes⟩ => ?_
  refine (noted_openRelationships q m).bind fun rels ⟨os', hos', hrels⟩ =>
    Reads.pure fun hleast => ?_
  obtain ⟨c, hmem, hci, hfirst⟩ := least_first hleast
  rw [hnodes, hrels] at hmem hfirst
  -- the candidate is the one noted for the node itself
  have hnoted : NodeNoted m (n, i) (some c) := by
    rcases List.mem_append.1 hmem with hmem | hmem
    · obtain ⟨⟨n', i'⟩, hp, hs⟩ := (mem_filterMap_of_forall₂ hos).1 c hmem
      obtain ⟨-, hc2, -⟩ := id hs
      rw [hci] at hc2
      cases hc2
      have hn' := List.mem_zipIdx_iff_getElem?.1 hp
      simp only at hn'
      rw [hn'] at hn
      cases hn
      exact hs
    · obtain ⟨p, -, hs⟩ := (mem_filterMap_of_forall₂ hos').1 c hmem
      rw [hs.1] at hci
      cases hci
  obtain ⟨hopen, -, hhead⟩ := hnoted
  have hi : i < q.pattern.nodes.length := (List.getElem?_eq_some_iff.1 hn).1
  dsimp only at hopen hhead
  by_contra hzero
  rcases exists_neighbour hw hc hi hj hopen hassigned with
    ⟨k, r, hr, hk, a, ha, hsome⟩ | ⟨b, n', hb, hbopen, hpos⟩
  · obtain ⟨d, hd, -, x, hx, hdhead⟩ := exists_filterMap_of_forall₂ hos'
      (List.mem_zipIdx_iff_getElem?.2 hr) (a := (r, k)) fun hnone => by
        rcases hnone with hnone | hnone
        · rw [hk] at hnone; cases hnone
        · rw [hnone a ha] at hsome; cases hsome
    exact hfirst d (List.mem_append_right _ hd) (hdhead.lt hhead (by omega))
  · obtain ⟨d, hd, -, -, hdhead⟩ := exists_filterMap_of_forall₂ hos
      (List.mem_zipIdx_iff_getElem?.2 hb) (a := (n', b)) fun hnone => by
        rw [show NodeNoted m (n', b) none ↔ (m.node? b).isSome = true from Iff.rfl, hbopen] at hnone
        cases hnone
    exact hfirst d (List.mem_append_left _ hd)
      (hdhead.lt hhead (Nat.lt_of_le_of_lt (Nat.le_of_not_lt hzero) hpos))

end Search

/-! ## Estimates that are not made again -/

/-- An estimate has been made under the key. -/
def RunState.Remembers (s : RunState) (key : String) : Prop :=
  (Entries.get? key s.estimates).isSome = true

/-- The computation forgets no estimates. -/
def Retains {α : Type} (c : StateM RunState α) : Prop :=
  ∀ s key, s.Remembers key → (c s).2.Remembers key

/-- After the computation there is an estimate under the key. -/
def Estimates {α : Type} (key : String) (c : StateM RunState α) : Prop :=
  ∀ s, (c s).2.Remembers key

section Remembering

variable {α β : Type} {c : StateM RunState α} {k : α → StateM RunState β} {key : String}

theorem Retains.pure (a : α) : Retains (Pure.pure a : StateM RunState α) :=
  fun _ _ h => h

theorem Retains.bind (hc : Retains c) (hk : ∀ a, Retains (k a)) : Retains (c >>= k) :=
  fun s key h => hk _ _ key (hc s key h)

theorem Estimates.before (hc : Estimates key c) (hk : ∀ a, Retains (k a)) :
    Estimates key (c >>= k) :=
  fun s => hk _ _ key (hc s)

theorem Estimates.after (c : StateM RunState α) (hk : ∀ a, Estimates key (k a)) :
    Estimates key (c >>= k) :=
  fun s => hk (c s).1 (c s).2

variable {f : α → StateM RunState (Option β)} {as : List α}

theorem Retains.filterMapM (hf : ∀ a ∈ as, Retains (f a)) : Retains (as.filterMapM f) := by
  induction as with
  | nil => exact pure []
  | cons a rest ih =>
    have hrest := ih fun x hx => hf x (List.mem_cons_of_mem _ hx)
    rw [List.filterMapM_cons]
    refine (hf a List.mem_cons_self).bind fun o => ?_
    cases o with
    | none => exact hrest
    | some b => exact hrest.bind fun bs => pure _

/-- What is made for one of the items stays. -/
theorem Estimates.filterMapM (hf : ∀ a ∈ as, Retains (f a)) {a : α} (ha : a ∈ as)
    (hmake : Estimates key (f a)) : Estimates key (as.filterMapM f) := by
  induction as with
  | nil => cases ha
  | cons x rest ih =>
    obtain ⟨hx, hrest⟩ := List.forall_mem_cons.1 hf
    rw [List.filterMapM_cons]
    rcases List.mem_cons.1 ha with rfl | ha
    · refine hmake.before fun o => ?_
      cases o with
      | none => exact .filterMapM hrest
      | some b => exact (Retains.filterMapM hrest).bind fun bs => .pure _
    · refine .after _ fun o => ?_
      cases o with
      | none => exact ih hrest ha
      | some b => exact (ih hrest ha).before fun bs => .pure _

end Remembering

namespace Search

variable {q : Search} {m : Match}

/-- What the estimate of a node is remembered under. -/
def nodeKey (n : NodeConstraint Value) : String :=
  "v" ++ String.join (n.labels.map (":" ++ ·)) ++ propertiesKey n.properties

theorem estimates_total (find : Store → Cursor) (s : RunState) :
    (total find s).2.estimates = s.estimates := by
  unfold total
  simp only
  split <;> rfl

theorem estimates_unless {make : StateM RunState Nat} (skip : RunState → Bool)
    (h : ∀ s, (make s).2.estimates = s.estimates) (s : RunState) :
    ((fun s => if skip s then (0, s) else make s : StateM RunState Nat) s).2.estimates =
      s.estimates := by
  dsimp only
  split
  · rfl
  · exact h s

theorem estimates_remembered (key : String) (make : StateM RunState Nat) :
    Estimates key (remembered key make) := by
  intro s
  unfold remembered
  split
  · next n hn => exact Option.isSome_iff_exists.2 ⟨n, hn⟩
  · show (Entries.get? key (Entries.insert key _ _)).isSome = true
    rw [Entries.get?_insert_self]
    rfl

theorem retains_remembered (key : String) {make : StateM RunState Nat}
    (hmake : ∀ s, (make s).2.estimates = s.estimates) : Retains (remembered key make) := by
  intro s other hs
  by_cases hkey : other = key
  · rw [hkey]
    exact estimates_remembered key make s
  · unfold remembered
    split
    · exact hs
    · show (Entries.get? other (Entries.insert key _ (make s).2.estimates)).isSome = true
      rw [Entries.get?_insert_of_ne hkey, hmake]
      exact hs

theorem retains_nodeEstimate (q : Search) (n : NodeConstraint Value) :
    Retains (q.nodeEstimate n) :=
  retains_remembered _ (estimates_unless _ (estimates_total _))

theorem retains_relationshipEstimate (q : Search) (r : RelationshipConstraint Value) :
    Retains (q.relationshipEstimate r) :=
  retains_remembered _ (estimates_unless _ (estimates_total _))

/-- The first choice asks for the estimates of all nodes. -/
theorem estimates_choose_blank {n : NodeConstraint Value} (hn : n ∈ q.pattern.nodes) :
    Estimates (nodeKey n) (q.choose (.blank q.pattern)) := by
  obtain ⟨i, hi⟩ := List.mem_iff_getElem?.1 hn
  have hopen := (opening_blank q .empty).laterNode i (Nat.zero_le i)
  have hnode : ∀ p : NodeConstraint Value × Nat, Retains
      (q.nodePriority (.blank q.pattern) p.1 p.2) := by
    intro p
    unfold nodePriority
    exact (retains_nodeEstimate q p.1).bind fun _ => .pure _
  unfold choose openNodes openRelationships
  refine .before ?_ fun nodes => (Retains.filterMapM fun p _ => ?_).bind fun _ => .pure _
  · refine Estimates.filterMapM (fun p _ => ?_) (a := (n, i))
      (List.mem_zipIdx_iff_getElem?.2 hi) ?_
    · obtain ⟨n', i'⟩ := p
      dsimp only
      split
      · exact .pure _
      · exact (hnode (n', i')).bind fun _ => .pure _
    · dsimp only
      rw [hopen, Option.isSome_none, if_neg Bool.false_ne_true]
      refine .before ?_ fun _ => .pure _
      unfold nodePriority
      exact (estimates_remembered _ _).before fun _ => .pure _
  · obtain ⟨r, i'⟩ := p
    dsimp only
    split
    · exact .pure _
    · unfold relationshipPriority
      exact ((retains_relationshipEstimate q r).bind fun _ => .pure _).bind fun _ => .pure _

end Search

end PropertyGraph
