import PropertyGraph.Plan.Compile
import PropertyGraph.Proofs.Run.Created

/-!
# A created walk and its constraints

A walk that is created and the constraints of the same walk are gone through side by side.  Each
node of the constraints has a vertex, new or from the row, and each relationship a new edge; so all
that the constraints demand has been given to the elements.

    Placed               the vertices at the nodes of constraints meet what is demanded of them
    Placed.node          one more node pattern
    Placed.chain         the node patterns of a walk, one after the other
    linked_chain         the relationship patterns of a walk, one after the other
    created_of_create    the whole walk
-/

namespace PropertyGraph

open RunContext (Meets Carries Settles Ties)

variable {ctx : RunContext} {val : Expr → Value} {row made next : Row} {s t : RunState}
  {base σ τ : Store} {g g' : Constraints Expr} {place : Nat → Vertex}

/-- A name that is free can be bound. -/
theorem Row.extends_set (hscopes : row.scopes = []) {x : String} (hfree : row.lookup? x = none)
    (v : Value) : row.Extends (row.set x v) := by
  intro y w hw
  rw [lookup?_set row hscopes, if_neg]
  · exact hw
  · rintro rfl
    rw [hfree] at hw
    cases hw

/-- So can one that may not be there. -/
theorem Row.extends_binding (hscopes : row.scopes = []) {name : Option String}
    (hfree : name.bind row.lookup? = none) (v : Value) :
    row.Extends ((name.map fun x => row.set x v).getD row) ∧
      ((name.map fun x => row.set x v).getD row).scopes = [] := by
  cases name with
  | none => exact ⟨Row.Extends.refl row, hscopes⟩
  | some x => exact ⟨Row.extends_set hscopes hfree v, hscopes⟩

/-- A name that is free is free in a row that binds less. -/
theorem Row.Extends.free (h : row.Extends made) {name : Option String}
    (hfree : name.bind made.lookup? = none) : name.bind row.lookup? = none := by
  refine Option.eq_none_iff_forall_ne_some.2 fun v hv => ?_
  obtain ⟨x, rfl, hx⟩ := Option.bind_eq_some_iff.1 hv
  rw [Option.bind_some, h x v hx] at hfree
  cases hfree

/-! ## Nodes -/

/-- The vertices at the nodes meet what is demanded of them, as they do in the end, and the names of
the nodes are bound to them. -/
structure Placed (ctx : RunContext) (val : Expr → Value) (row : Row) (g : Constraints Expr)
    (place : Nat → Vertex) (made : Row) (σ : Store) : Prop where
  scopes : made.scopes = []
  wider : row.Extends made
  meets : ∀ (i : Nat) n, g.nodes[i]? = some n → ctx.Meets val n.labels n.properties (place i)
  bound : ∀ (i : Nat) n x, g.nodes[i]? = some n → n.name = some x →
    made.lookup? x = some (.node (place i))
  seen : ∀ (i : Nat) n, g.nodes[i]? = some n → n.name.bind row.lookup? = none →
    σ.getVertex? ctx.reader (place i).id = some (place i)
  names : ∀ x v, made.lookup? x = some v → row.lookup? x = none →
    x ∈ g.nodes.filterMap (·.name)

namespace Placed

theorem empty (hscopes : row.scopes = []) (optional : Bool) (place : Nat → Vertex) :
    Placed ctx val row (.empty optional) place row.child σ where
  scopes := rfl
  wider := Row.extends_child hscopes
  meets := nofun
  bound := nofun
  seen := nofun
  names x v hv hnone := by
    have hchild : row.child.lookup? x = row.lookup? x := by
      unfold Row.lookup? Row.child
      rw [hscopes]
      rfl
    rw [hchild, hnone] at hv
    cases hv

/-- Vertices that are placed stay so while elements are added. -/
theorem later (h : Placed ctx val row g place made σ) (hσ : σ.Consistent) (hτ : τ.Consistent)
    (hgrows : σ.Grows τ) : Placed ctx val row g place made τ :=
  { h with
    seen := fun i n hn hname => Store.seenVertex_of_grows hσ hτ hgrows (h.seen i n hn hname) }

/-- A relationship between the nodes is no concern of theirs. -/
theorem connect (h : Placed ctx val row g place made σ) (r : RelationshipConstraint Expr) :
    Placed ctx val row (g.connect r) place made σ := by
  have hnode : ∀ (i : Nat) n, (g.connect r).nodes[i]? = some n → ∃ m, g.nodes[i]? = some m ∧
      n.name = m.name ∧ n.labels = m.labels ∧ n.properties = m.properties := by
    intro i n hn
    rw [Constraints.getElem?_connect] at hn
    obtain ⟨m, hm, rfl⟩ := Option.map_eq_some_iff.1 hn
    refine ⟨m, hm, ?_⟩
    split <;> exact ⟨rfl, rfl, rfl⟩
  refine ⟨h.scopes, h.wider, fun i n hn => ?_, fun i n x hn hx => ?_, fun i n hn hx => ?_, ?_⟩
  · obtain ⟨m, hm, -, hlabels, hproperties⟩ := hnode i n hn
    rw [hlabels, hproperties]
    exact h.meets i m hm
  · obtain ⟨m, hm, hname, -⟩ := hnode i n hn
    exact h.bound i m x hm (hname ▸ hx)
  · obtain ⟨m, hm, hname, -⟩ := hnode i n hn
    exact h.seen i m hm (hname ▸ hx)
  · rw [Constraints.nodeNames_connect]
    exact h.names

/-- One more node with a vertex to which its name is bound. -/
theorem append (h : Placed ctx val row g place made σ) (hσ : σ.Consistent) (hτ : τ.Consistent)
    (hgrows : σ.Grows τ) {n : NodeConstraint Expr} {v : Vertex} (hscopes : next.scopes = [])
    (hnext : made.Extends next) (hmeets : ctx.Meets val n.labels n.properties v)
    (hbound : ∀ x, n.name = some x → next.lookup? x = some (.node v))
    (hseen : n.name.bind row.lookup? = none → τ.getVertex? ctx.reader v.id = some v)
    (hnames : ∀ x w, next.lookup? x = some w → made.lookup? x = some w ∨ n.name = some x) :
    Placed ctx val row { g with nodes := g.nodes ++ [n] }
      (fun j => if j = g.nodes.length then v else place j) next τ := by
  have hnode : ∀ (i : Nat) m, (g.nodes ++ [n])[i]? = some m →
      (i ≠ g.nodes.length ∧ g.nodes[i]? = some m) ∨ (i = g.nodes.length ∧ m = n) := by
    intro i m hm
    rcases Nat.lt_trichotomy i g.nodes.length with hi | rfl | hi
    · rw [List.getElem?_append_left hi] at hm
      exact Or.inl ⟨Nat.ne_of_lt hi, hm⟩
    · rw [List.getElem?_concat_length] at hm
      exact Or.inr ⟨rfl, (Option.some.inj hm).symm⟩
    · rw [List.getElem?_eq_none (by simp; omega)] at hm
      cases hm
  refine ⟨hscopes, h.wider.trans hnext, fun i m hm => ?_, fun i m x hm hx => ?_,
    fun i m hm hx => ?_, fun x w hw hnone => ?_⟩
  · rcases hnode i m hm with ⟨hi, hm⟩ | ⟨hi, rfl⟩
    · rw [if_neg hi]
      exact h.meets i m hm
    · rw [if_pos hi]
      exact hmeets
  · rcases hnode i m hm with ⟨hi, hm⟩ | ⟨hi, rfl⟩
    · rw [if_neg hi]
      exact hnext x _ (h.bound i m x hm hx)
    · rw [if_pos hi]
      exact hbound x hx
  · rcases hnode i m hm with ⟨hi, hm⟩ | ⟨hi, rfl⟩
    · rw [if_neg hi]
      exact Store.seenVertex_of_grows hσ hτ hgrows (h.seen i m hm hx)
    · rw [if_pos hi]
      exact hseen hx
  · rw [List.filterMap_append, List.mem_append]
    rcases hnames x w hw with hw | hx
    · exact Or.inl (h.names x w hw hnone)
    · exact Or.inr (List.mem_filterMap.2 ⟨n, List.mem_singleton.2 rfl, hx⟩)

/-- A node pattern is created, or found in the row, and its constraint is met. -/
theorem node (h : Placed ctx val row g place made s.store) (hs : s.store.Consistent)
    (hbase : base.Grows s.store) (hread : ctx.reader.canRead ctx.visibility = true)
    {n : NodePattern} (hn : ctx.Settles base row val n.properties)
    (hnull : ∀ x, n.name = some x → row.lookup? x ≠ some .null) {i : Nat}
    (hg : g.addNode n.name n.labels n.properties = .ok (g', i)) {o : Option Vertex}
    (hrun : ctx.createNode n made s = (.ok (o, next), t)) :
    ∃ place' : Nat → Vertex, o = some (place' i) ∧ (∀ j < g.nodes.length, place' j = place j) ∧
      Placed ctx val row g' place' next t.store := by
  obtain ⟨ht, hgrows⟩ := (RunContext.adds_createNode n made).grows hrun hs
  have hother : ∀ v, ∀ j < g.nodes.length, (if j = g.nodes.length then v else place j) = place j :=
    fun _ _ hj => if_neg (Nat.ne_of_lt hj)
  rcases RunContext.createNode_cases hrun with
    ⟨hfree, v, rfl, hcreate, rfl⟩ | ⟨x, b, hname, hb, hlabels, hproperties, rfl, rfl, hvalue⟩
  · -- a free name is the name of no node so far
    obtain ⟨hmeets, hseen⟩ := RunContext.createVertex_spec hs hbase hread hn h.wider hcreate
    rcases Constraints.addNode_cases hg with ⟨-, rfl, rfl⟩ | ⟨x, hx, hi, -⟩
    · obtain ⟨hnext, hscopes⟩ := Row.extends_binding h.scopes hfree (.node v)
      refine ⟨_, congrArg some (if_pos rfl).symm, hother v, h.append hs ht hgrows hscopes hnext
        hmeets (fun x hx => ?_) (fun _ => hseen) fun x w hw => ?_⟩
      · rw [show n.name = some x from hx]
        exact (Row.lookup?_set made h.scopes x x _).trans (if_pos rfl)
      · cases hx : n.name with
        | none => rw [hx] at hw; exact Or.inl hw
        | some y =>
          rw [hx, Option.map_some, Option.getD_some, Row.lookup?_set made h.scopes] at hw
          split at hw
          · next hxy => exact Or.inr (congrArg some hxy)
          · exact Or.inl hw
    · obtain ⟨m, hm, hmx⟩ := Constraints.node?_eq_some hi
      rw [hx, Option.bind_some, h.bound i m x hm hmx] at hfree
      cases hfree
  · rcases Constraints.addNode_cases hg with ⟨hnone, rfl, rfl⟩ | ⟨y, hy, hi, rfl⟩
    · -- the name is not that of a node, so it is the row that binds it
      have hrow : row.lookup? x = some b := by
        cases hx : row.lookup? x with
        | none =>
          refine absurd (h.names x b hb hx) ?_
          rw [← Constraints.isNode_eq_false, Constraints.isNode]
          rw [hname, Option.bind_some] at hnone
          rw [hnone]
          rfl
        | some b' =>
          rw [h.wider x b' hx] at hb
          exact hb
      rcases hvalue with ⟨rfl, -⟩ | ⟨v, rfl, rfl⟩
      · exact absurd hrow (hnull x hname)
      · refine ⟨_, congrArg some (if_pos rfl).symm, hother v, h.append hs ht hgrows h.scopes
          (Row.Extends.refl _) ?_ (fun y hy => ?_) (fun hx => ?_) fun _ _ => Or.inl⟩
        · dsimp only
          rw [hlabels, hproperties]
          exact ⟨List.forall_mem_nil _, List.forall_mem_nil _⟩
        · rw [hname] at hy
          cases hy
          exact hb
        · dsimp only at hx
          rw [hname, Option.bind_some, hrow] at hx
          cases hx
    · obtain ⟨m, hm, hmx⟩ := Constraints.node?_eq_some hi
      rw [hname] at hy
      cases hy
      rw [h.bound i m x hm hmx] at hb
      cases hb
      rcases hvalue with ⟨hnil, -⟩ | ⟨v, hv, rfl⟩
      · cases hnil
      · cases hv
        refine ⟨place, rfl, fun _ _ => rfl, ?_⟩
        have hsame : (fun m : NodeConstraint Expr => { m with
            labels := Constraints.mergeLabels m.labels n.labels
            properties := m.properties ++ n.properties }) = id := by
          funext m
          rw [hlabels, hproperties, List.append_nil]
          rfl
        rw [hsame, List.modify_id]
        exact h

/-- The node patterns of the rest of a walk. -/
theorem chain (h : Placed ctx val row g place made s.store) (hs : s.store.Consistent)
    (hbase : base.Grows s.store) (hread : ctx.reader.canRead ctx.visibility = true)
    (hw : g.WellFormed) {last : Nat}
    (hlast : last < g.nodes.length) {chain : List (RelationshipPattern × NodePattern)}
    (hsettles : ∀ link ∈ chain, ctx.Settles base row val link.2.properties)
    (hnull : ∀ link ∈ chain, ∀ x, link.2.name = some x → row.lookup? x ≠ some .null)
    {steps : List (Nat × Nat)} (hg : g.addChain last chain = .ok (g', steps))
    {os : List (Option Vertex)}
    (hrun : ctx.createNodes made (chain.map Prod.snd) s = (.ok (os, next), t)) :
    ∃ place' : Nat → Vertex, os = steps.map (fun step => some (place' step.2)) ∧
      (∀ j < g.nodes.length, place' j = place j) ∧ Placed ctx val row g' place' next t.store := by
  induction chain generalizing g last place made s steps os with
  | nil =>
    cases hg
    cases hrun
    exact ⟨place, rfl, fun _ _ => rfl, h⟩
  | cons link rest ih =>
    obtain ⟨rel, n⟩ := link
    obtain ⟨g₁, i, range, steps', hnode, hfresh, -, hchain, rfl⟩ := Constraints.addChain_cons hg
    obtain ⟨⟨o, made₁⟩, s₁, hcreate, hrun⟩ := Run.ok_of_bind hrun
    obtain ⟨⟨os', made₂⟩, s₂, hrest, hrun⟩ := Run.ok_of_bind hrun
    cases hrun
    obtain ⟨-, hgrows₁, hi⟩ := Constraints.addNode_spec hw hnode
    obtain ⟨hw₂, hi₂⟩ := hw.link hlast hnode hfresh range
    obtain ⟨hs₁, hmore⟩ := (RunContext.adds_createNode n made).grows hcreate hs
    obtain ⟨place₁, rfl, hsame₁, hplaced₁⟩ := h.node hs hbase hread (hsettles _ List.mem_cons_self)
      (hnull _ List.mem_cons_self) hnode hcreate
    obtain ⟨place', rfl, hsame, hplaced⟩ := ih (hplaced₁.connect _) hs₁ (hbase.trans hmore) hw₂ hi₂
      (fun link hlink => hsettles link (List.mem_cons_of_mem _ hlink))
      (fun link hlink => hnull link (List.mem_cons_of_mem _ hlink)) hchain hrest
    rw [Constraints.length_connect] at hsame
    refine ⟨place', ?_, fun j hj => ?_, hplaced⟩
    · rw [List.map_cons, hsame i hi]
    · exact (hsame j (Nat.lt_of_lt_of_le hj hgrows₁.nodes)).trans (hsame₁ j hj)

end Placed

/-! ## Relationships -/

/-- The relationship pattern as it is created: one that may be read both ways points forward. -/
def RelationshipPattern.directed (r : RelationshipPattern) : RelationshipPattern :=
  { r with heading := if r.heading = .undirected then .outgoing else r.heading }

/-- The edge meets what is demanded of a single relationship between the vertices at its nodes. -/
structure Linked (ctx : RunContext) (val : Expr → Value) (row : Row) (place : Nat → Vertex)
    (σ : Store) (r : RelationshipConstraint Expr) (e : Edge) : Prop where
  range : r.range = none
  type : admitsType r.types e.type = true
  properties : ctx.Carries val r.properties e.properties
  joins : e.Joins r.heading (place r.first).id (place r.second).id
  free : r.name.bind row.lookup? = none
  seen : σ.getEdge? ctx.reader e.id = some e

theorem RunContext.Ties.joins {r : RelationshipPattern} {v w : Vertex} {e : Edge}
    (h : ctx.Ties val r.directed v w e) : e.Joins r.heading v.id w.id := by
  have hends := h.ends
  unfold RelationshipPattern.directed at hends
  cases hr : r.heading with
  | outgoing => simpa [hr, Edge.Joins] using hends
  | incoming => simpa [hr, Edge.Joins] using hends
  | undirected => exact Or.inl (by simpa [hr] using hends)

/-- An edge that is created for a relationship pattern is what its constraint demands. -/
theorem linked_of_createEdge (g : Constraints Expr) (hs : s.store.Consistent) (hbase : base.Grows s.store)
    (hread : ctx.reader.canRead ctx.visibility = true) {r : RelationshipPattern}
    (hr : ctx.Settles base row val r.properties) (hrows : row.Extends made) {i j : Nat} {e : Edge}
    (h : ctx.createEdge r.directed (some (place i)) (some (place j)) made s = (.ok (e, next), t)) :
    Linked ctx val row place t.store (g.between r none i j) e := by
  obtain ⟨hties, hfree, -, -, hseen⟩ := RunContext.createEdge_spec hs hbase hread (r := r.directed)
    hr hrows h
  exact ⟨rfl, hties.type, hties.properties, hties.joins, hrows.free hfree, hseen⟩

/-- It stays so while elements are added. -/
theorem Linked.later {r : RelationshipConstraint Expr} {e : Edge}
    (h : Linked ctx val row place σ r e) (hσ : σ.Consistent) (hτ : τ.Consistent)
    (hgrows : σ.Grows τ) : Linked ctx val row place τ r e :=
  { h with seen := Store.seenEdge_of_grows hσ hτ hgrows h.seen }

theorem Constraints.relationships_of_addNode {name : Option String} {labels : List String}
    {properties : List (String × Expr)} {i : Nat}
    (h : g.addNode name labels properties = .ok (g', i)) : g'.relationships = g.relationships := by
  rcases addNode_cases h with ⟨-, -, rfl⟩ | ⟨x, -, -, rfl⟩ <;> rfl

/-- The relationships of the rest of a walk get new edges, each its own. -/
theorem linked_chain (hs : s.store.Consistent) (hbase : base.Grows s.store)
    (hread : ctx.reader.canRead ctx.visibility = true) (hw : g.WellFormed) {last : Nat}
    (hlast : last < g.nodes.length) {chain : List (RelationshipPattern × NodePattern)}
    (hrange : ∀ link ∈ chain, link.1.range = none)
    (hsettles : ∀ link ∈ chain, ctx.Settles base row val link.1.properties)
    (hrows : row.Extends made) (hscopes : made.scopes = [])
    {steps : List (Nat × Nat)} (hg : g.addChain last chain = .ok (g', steps)) {es : List Edge}
    (hrun : ctx.createEdges made (chain.map fun link => link.1.directed)
      ((last :: steps.map Prod.snd).map fun i => some (place i)) s = (.ok (es, next), t)) :
    g'.relationships.length = g.relationships.length + es.length ∧
      (∀ (k : Nat) e, es[k]? = some e → s.store.edge? e.id = none ∧
        ∃ r, g'.relationships[g.relationships.length + k]? = some r ∧
          Linked ctx val row place t.store r e) ∧
      (es.map (·.id)).Nodup := by
  induction chain generalizing g last made s steps es with
  | nil =>
    cases hg
    cases hrun
    exact ⟨rfl, nofun, List.nodup_nil⟩
  | cons link rest ih =>
    obtain ⟨rel, n⟩ := link
    obtain ⟨g₁, i, range, steps', hnode, hfresh, hhops, hchain, rfl⟩ := Constraints.addChain_cons hg
    obtain ⟨⟨e, made₁⟩, s₁, hcreate, hrun⟩ := Run.ok_of_bind hrun
    obtain ⟨⟨es', made₂⟩, s₂, hrest, hrun⟩ := Run.ok_of_bind hrun
    cases hrun
    obtain rfl : range = none := by
      rw [show rel.range = none from hrange _ List.mem_cons_self] at hhops
      exact (Except.ok.inj hhops).symm
    obtain ⟨hw₂, hi₂⟩ := hw.link hlast hnode hfresh none
    obtain ⟨-, hgrows, -⟩ := Constraints.addChain_spec hw₂ hi₂ hchain
    have hlen : (g₁.connect (g₁.between rel none last i)).relationships.length =
        g.relationships.length + 1 := by
      rw [← Constraints.relationships_of_addNode hnode]
      exact List.length_append
    -- the edge of the first link
    have hsettled := hsettles _ List.mem_cons_self
    obtain ⟨-, hfree, rfl, hnew, hseen⟩ := RunContext.createEdge_spec hs hbase hread
      (r := rel.directed) hsettled hrows hcreate
    have hlinked₁ := linked_of_createEdge g₁ hs hbase hread hsettled hrows hcreate
    obtain ⟨hmade, hscopes₁⟩ := Row.extends_binding hscopes hfree (.relationship e)
    obtain ⟨hs₁, hadds₁⟩ := (RunContext.adds_createEdge _ _ _ _).grows hcreate hs
    obtain ⟨ht, hadds⟩ := (RunContext.adds_createEdges _ _ _).grows hrest hs₁
    -- the edges of the others
    obtain ⟨hcount, hlinked, hnodup⟩ := ih hs₁ (hbase.trans hadds₁) hw₂ hi₂
      (fun link hlink => hrange link (List.mem_cons_of_mem _ hlink))
      (fun link hlink => hsettles link (List.mem_cons_of_mem _ hlink))
      (hrows.trans hmade) hscopes₁ hchain hrest
    rw [hlen] at hcount hlinked
    refine ⟨?_, fun k f hf => ?_, ?_⟩
    · rw [hcount, List.length_cons]
      omega
    · cases k with
      | zero =>
        cases hf
        refine ⟨hnew, _, hgrows.relationships _ _ ?_, hlinked₁.later hs₁ ht hadds⟩
        rw [← Constraints.relationships_of_addNode hnode]
        exact List.getElem?_concat_length
      | succ k =>
        obtain ⟨hfnew, r, hr, hlink⟩ := hlinked k f hf
        refine ⟨Store.edge?_none_of_grows hs hs₁ hadds₁ hfnew, r, ?_, hlink⟩
        rw [← hr]
        congr 1
        omega
    · rw [List.map_cons, List.nodup_cons]
      refine ⟨fun hmem => ?_, hnodup⟩
      obtain ⟨f, hf, hid⟩ := List.mem_map.1 hmem
      obtain ⟨k, hk⟩ := List.mem_iff_getElem?.1 hf
      have hfnew := (hlinked k f hk).1
      rw [hid, (Option.filter_eq_some_iff.1 hseen).1] at hfnew
      cases hfnew

/-! ## The whole walk -/

/-- The vertices and the edges that have been created or found for a walk. -/
structure Created (ctx : RunContext) (val : Expr → Value) (row : Row) (g : Constraints Expr)
    (place : Nat → Vertex) (es : List Edge) (σ : Store) : Prop where
  placed : ∃ made, Placed ctx val row g place made σ
  count : g.relationships.length = es.length
  linked : ∀ (k : Nat) e, es[k]? = some e →
    ∃ r, g.relationships[k]? = some r ∧ Linked ctx val row place σ r e
  distinct : (es.map (·.id)).Nodup

/-- A creation of one walk creates its nodes, and then its relationships. -/
theorem RunContext.create_cases {part : PatternPart} {out : Row}
    (h : ctx.create [part] row s = (.ok out, t)) : ∃ os made s₁ es next,
      ctx.createNodes row.child part.nodes s = (.ok (os, made), s₁) ∧
        ctx.createEdges made part.relationships os s₁ = (.ok (es, next), t) := by
  unfold create at h
  obtain ⟨⟨vertices, made⟩, s₁, hstart, h⟩ := Run.ok_of_bind h
  unfold startParts at hstart
  obtain ⟨⟨os, made'⟩, s₂, hnodes, hstart⟩ := Run.ok_of_bind hstart
  obtain ⟨⟨others, made''⟩, s₃, hothers, hstart⟩ := Run.ok_of_bind hstart
  cases hothers
  cases hstart
  obtain ⟨out', s₄, hfinish, h⟩ := Run.ok_of_bind
    (show (ctx.finishPart part os made >>= fun row => pure row) s₁ = (.ok out, t) from h)
  cases h
  unfold finishPart at hfinish
  obtain ⟨⟨es, next⟩, s₅, hedges, hfinish⟩ := Run.ok_of_bind hfinish
  refine ⟨os, made, s₁, es, next, hnodes, ?_⟩
  cases hname : part.pathName with
  | none =>
    rw [hname] at hfinish
    cases hfinish
    exact hedges
  | some x =>
    rw [hname] at hfinish
    dsimp only at hfinish
    cases hpath : Path.ofParts? (os.filterMap id) es with
    | none => rw [hpath] at hfinish; cases hfinish
    | some p => rw [hpath] at hfinish; cases hfinish; exact hedges

theorem PatternPart.nodes_directed (part : PatternPart) :
    (Plan.directed part).nodes = part.nodes := by
  show part.start :: (part.chain.map _).map Prod.snd = part.start :: part.chain.map Prod.snd
  rw [List.map_map]
  rfl

theorem PatternPart.relationships_directed (part : PatternPart) :
    (Plan.directed part).relationships = part.chain.map fun link => link.1.directed := by
  show (part.chain.map _).map Prod.fst = _
  rw [List.map_map]
  rfl

/-- A walk that is created has all its vertices and edges. -/
theorem created_of_create {part : PatternPart} {optional : Bool}
    (hparts : Constraints.ofParts [part] optional = .ok g) (hs : s.store.Consistent)
    (hbase : base.Grows s.store) (hread : ctx.reader.canRead ctx.visibility = true)
    (hscopes : row.scopes = [])
    (hnodes : ∀ n ∈ part.nodes, ctx.Settles base row val n.properties)
    (hrels : ∀ r ∈ part.relationships, ctx.Settles base row val r.properties)
    (hnull : ∀ n ∈ part.nodes, ∀ x, n.name = some x → row.lookup? x ≠ some .null)
    (hrange : ∀ r ∈ part.relationships, r.range = none) {out : Row}
    (hrun : ctx.create [Plan.directed part] row s = (.ok out, t)) :
    ∃ place es, Created ctx val row g place es t.store := by
  obtain ⟨g₁, start, g₂, steps, hstart, hchain, hgnodes, hgrels⟩ := Constraints.ofParts_cases hparts
  obtain ⟨os, made, s₁, es, next, hcreate, hlink⟩ := RunContext.create_cases hrun
  rw [PatternPart.nodes_directed] at hcreate
  rw [PatternPart.relationships_directed] at hlink
  obtain ⟨⟨o, made₁⟩, s₂, hfirst, hcreate⟩ := Run.ok_of_bind hcreate
  obtain ⟨⟨os', made₂⟩, s₃, hothers, hcreate⟩ := Run.ok_of_bind hcreate
  cases hcreate
  obtain ⟨hs₂, hgrows₂⟩ := (RunContext.adds_createNode part.start row.child).grows hfirst hs
  obtain ⟨hs₁, hgrows₁⟩ :=
    (RunContext.adds_createNodes (part.chain.map Prod.snd) made₁).grows hothers hs₂
  have hbase₂ := hbase.trans hgrows₂
  obtain ⟨ht, hgrows⟩ := (RunContext.adds_createEdges _ _ _).grows hlink hs₁
  obtain ⟨hw₁, -, hlast⟩ := Constraints.addNode_spec (Constraints.wellFormed_empty optional) hstart
  -- the nodes, the first one and those of the chain
  obtain ⟨place₁, rfl, -, hplaced₁⟩ := (Placed.empty hscopes optional fun _ =>
    ⟨"", [], [], ""⟩).node hs hbase hread
      (hnodes _ List.mem_cons_self) (hnull _ List.mem_cons_self) hstart hfirst
  obtain ⟨place, rfl, hsame, hplaced⟩ := hplaced₁.chain hs₂ hbase₂ hread hw₁ hlast
    (fun link hlink => hnodes _ (List.mem_cons_of_mem _ (List.mem_map_of_mem hlink)))
    (fun link hlink => hnull _ (List.mem_cons_of_mem _ (List.mem_map_of_mem hlink))) hchain hothers
  -- then the relationships between them
  have hends : some (place₁ start) :: steps.map (fun step => some (place step.2)) =
      (start :: steps.map Prod.snd).map fun i => some (place i) := by
    rw [List.map_cons, hsame _ hlast, List.map_map]
    rfl
  rw [hends] at hlink
  obtain ⟨hcount, hlinked, hdistinct⟩ := linked_chain hs₁
    (hbase₂.trans hgrows₁) hread hw₁ hlast
    (fun link hlink => hrange _ (List.mem_map_of_mem hlink))
    (fun link hlink => hrels _ (List.mem_map_of_mem hlink)) hplaced.wider hplaced.scopes hchain
    hlink
  have hnone : g₁.relationships = [] := Constraints.relationships_of_addNode hstart
  rw [hnone, List.length_nil, Nat.zero_add] at hcount
  refine ⟨place, es, ⟨made, ?_⟩, ?_, fun k e he => ?_, hdistinct⟩
  · have h := hplaced.later hs₁ ht hgrows
    exact ⟨h.scopes, h.wider, hgnodes ▸ h.meets, hgnodes ▸ h.bound, hgnodes ▸ h.seen,
      hgnodes ▸ h.names⟩
  · rw [hgrels]
    exact hcount
  · obtain ⟨-, r, hr, hlinks⟩ := hlinked k e he
    rw [hnone, List.length_nil, Nat.zero_add, ← hgrels] at hr
    exact ⟨r, hr, hlinks⟩

end PropertyGraph
