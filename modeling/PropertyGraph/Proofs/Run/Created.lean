import PropertyGraph.Proofs.Eval.Local
import PropertyGraph.Proofs.Eval.Wider
import PropertyGraph.Proofs.Pattern.Valued
import PropertyGraph.Proofs.Run.Rising

/-!
# What is created

The elements that are created for the patterns of nodes and relationships carry what the patterns
say.  The properties of one element are evaluated after others have been added to the store, and in
a row that binds them.  So what is known of their values before has to last.

    RunContext.Lasting    more elements do not change the value of an expression
    createVertex_ok       what the creation of a vertex took
    createVertex_spec     a new vertex meets its node pattern, and can be seen
    createNode_cases      where a node pattern gets a new vertex, and where the one of the row
    createEdge_ok         what the creation of an edge took, and what it came to
    createEdge_spec       a new edge ties its ends as the relationship pattern says
-/

namespace PropertyGraph

namespace RunContext

variable {ctx : RunContext} {val : Expr → Value} {row made : Row} {s t : RunState}
  {σ : Store}

/-! ## Properties -/

/-- Adding elements to the store does not change the value of the expression in the row. -/
def Lasting (ctx : RunContext) (σ : Store) (row : Row) (e : Expr) : Prop :=
  ∀ τ, τ.Consistent → σ.Grows τ → e.value (ctx.env τ) row = e.value (ctx.env σ) row

/-- So it is with an expression that looks up no vertices. -/
theorem lasting_of_calls {e : Expr} (h : Expr.NoneLooksUp e.calls) (ctx : RunContext) (σ : Store)
    (row : Row) : ctx.Lasting σ row e := by
  intro τ _ _
  have heval : Expr.eval (ctx.env τ) e = Expr.eval (ctx.env σ) e :=
    Expr.eval_withWorld (by rfl) e h
  unfold Expr.value
  rw [heval]

/-- The expression has one value, which is not null, in the row and in all that extend it, and on
the store and on all that hold more. -/
structure Settled (ctx : RunContext) (σ : Store) (row : Row) (val : Expr → Value) (e : Expr) :
    Prop where
  notNull : (val e).isNull = false
  value : ∀ τ made, τ.Consistent → σ.Grows τ → row.Extends made →
    e.value (ctx.env τ) made = .ok (val e)

theorem Lasting.settled {e : Expr} (h : ctx.Lasting σ row e)
    (hvalue : e.value (ctx.env σ) row = .ok (val e)) (hnull : (val e).isNull = false) :
    ctx.Settled σ row val e where
  notNull := hnull
  value τ _ hτ hgrows hrows := Expr.value_widens hrows ((h τ hτ hgrows).trans hvalue)

/-- Properties that are settled, each under a stored name of its own. -/
structure Settles (ctx : RunContext) (σ : Store) (row : Row) (val : Expr → Value)
    (properties : List (String × Expr)) : Prop where
  settled : ∀ p ∈ properties, ctx.Settled σ row val p.2
  distinct : (properties.map fun p => ctx.config.property p.1).Nodup

/-- Under the stored name of each property that is demanded stands the value of its expression. -/
def Carries (ctx : RunContext) (val : Expr → Value) (demands : List (String × Expr))
    (properties : Properties) : Prop :=
  ∀ p ∈ demands, Entries.get? (ctx.config.property p.1) properties = some (val p.2)

theorem storedProperties_eq (hs : s.store.Consistent) (hgrows : σ.Grows s.store)
    {ps : List (String × Expr)} (hps : ∀ p ∈ ps, ctx.Settled σ row val p.2)
    (hrows : row.Extends made) {stored : List StoredProperty}
    (h : ctx.storedProperties made ps s = (.ok stored, t)) :
    stored = ps.map fun p => (ctx.config.property p.1, val p.2) := by
  induction ps generalizing s t stored with
  | nil => cases h; rfl
  | cons p rest ih =>
    obtain ⟨key, e⟩ := p
    have hfirst := hps (key, e) List.mem_cons_self
    unfold storedProperties at h
    obtain ⟨v, s₁, hv, h⟩ := Run.ok_of_bind h
    obtain ⟨hvalue, rfl⟩ : e.value (ctx.env s.store) made = .ok v ∧ s = s₁ := Prod.mk.inj hv
    obtain rfl : val e = v :=
      Except.ok.inj ((hfirst.value s.store made hs hgrows hrows).symm.trans hvalue)
    rw [if_neg (by rw [hfirst.notNull]; exact Bool.false_ne_true)] at h
    obtain ⟨_, s₂, hprepare, h⟩ := Run.ok_of_bind h
    obtain ⟨more, s₃, hmore, h⟩ := Run.ok_of_bind h
    cases h
    obtain ⟨hs₂, hgrows₂⟩ := (adds_prepare _ _).grows hprepare hs
    rw [ih hs₂ (hgrows.trans hgrows₂) (fun p hp => hps p (List.mem_cons_of_mem _ hp)) hmore]
    rfl

theorem carries_ofList (hs : s.store.Consistent) (hgrows : σ.Grows s.store)
    {ps : List (String × Expr)} (hps : ctx.Settles σ row val ps) (hrows : row.Extends made)
    {stored : List StoredProperty} (h : ctx.storedProperties made ps s = (.ok stored, t)) :
    ctx.Carries val ps (Entries.ofList stored) := by
  intro p hp
  rw [storedProperties_eq hs hgrows hps.settled hrows h]
  refine Entries.get?_ofList ?_ (List.mem_map.2 ⟨p, hp, rfl⟩)
  rw [List.map_map]
  exact hps.distinct

/-! ## Elements -/

/-- The vertex has the labels and the properties of a node pattern. -/
structure Meets (ctx : RunContext) (val : Expr → Value) (labels : List String)
    (properties : List (String × Expr)) (v : Vertex) : Prop where
  labels : ∀ l ∈ labels, v.hasLabel (ctx.config.label l) = true
  properties : ctx.Carries val properties v.properties

theorem write_addVertex (hs : s.store.Consistent) (v : Vertex) :
    Run.write (·.addVertex v) s = if (s.store.vertex? v.id).isSome
      then (.error (.store (.duplicate v.id)), s)
      else (.ok (), { s with store := (s.store.defineAll v.properties).putVertex v }) := by
  unfold Run.write
  dsimp only
  rw [Store.addVertex_eq hs.links, Store.isSome_vertexSlot? hs]
  cases (s.store.vertex? v.id).isSome <;> rfl

/-- A new vertex as a node pattern and its stored properties describe it. -/
def newVertex (ctx : RunContext) (n : NodePattern) (stored : List StoredProperty) (number : Nat) :
    Vertex where
  id := "v" ++ toString number
  labels := Names.ofList (n.labels.map ctx.config.label)
  properties := Entries.ofList stored
  visibility := ctx.visibility

/-- The new vertex is the one described, and its id was free. -/
theorem createVertex_ok {n : NodePattern} {v : Vertex} (hs : s.store.Consistent)
    (h : ctx.createVertex n row s = (.ok v, t)) : ∃ stored s₁,
      ctx.storedProperties row n.properties s = (.ok stored, s₁) ∧
        v = ctx.newVertex n stored (s₁.vertexIds + 1) ∧ s₁.store.vertex? v.id = none ∧
          t.store = (s₁.store.defineAll v.properties).putVertex v := by
  unfold createVertex at h
  obtain ⟨stored, s₁, hstored, h⟩ := Run.ok_of_bind h
  obtain ⟨id, s₂, hid, h⟩ := Run.ok_of_bind h
  obtain ⟨_, s₃, hwrite, h⟩ := Run.ok_of_bind h
  obtain ⟨_, s₄, hcount, h⟩ := Run.ok_of_bind h
  cases hcount
  cases h
  have hs₁ := ((adds_storedProperties row n.properties).grows hstored hs).1
  have hs₂ : s₂.store.Consistent := by cases hid; exact hs₁
  rw [write_addVertex hs₂] at hwrite
  split at hwrite
  · cases hwrite
  · next hfree =>
    cases hid
    cases hwrite
    exact ⟨stored, s₁, hstored, rfl, Option.not_isSome_iff_eq_none.1 hfree, rfl⟩

theorem createVertex_spec (hs : s.store.Consistent) (hgrows : σ.Grows s.store)
    (hread : ctx.reader.canRead ctx.visibility = true) {n : NodePattern}
    (hn : ctx.Settles σ row val n.properties) (hrows : row.Extends made) {v : Vertex}
    (h : ctx.createVertex n made s = (.ok v, t)) :
    ctx.Meets val n.labels n.properties v ∧ t.store.getVertex? ctx.reader v.id = some v := by
  have ht := ((adds_createVertex n made).grows h hs).1
  obtain ⟨stored, s₁, hstored, hv, -, hstore⟩ := createVertex_ok hs h
  have hs₁ := ((adds_storedProperties made n.properties).grows hstored hs).1
  have hseen : t.store.vertex? v.id = some v := by
    rw [hstore] at ht ⊢
    exact Store.vertex?_putVertex (hs₁.defineAll v.properties).vertices ht
  subst hv
  refine ⟨⟨fun l hl => ?_, carries_ofList hs hgrows hn hrows hstored⟩,
    Option.filter_eq_some_iff.2 ⟨hseen, hread⟩⟩
  unfold Vertex.hasLabel
  rw [List.contains_iff_mem]
  exact Names.mem_ofList.2 (List.mem_map_of_mem hl)

/-- A node pattern stands for a new vertex if its name is free.  Otherwise it has no demands, and
stands for the vertex that the name is bound to, or for none. -/
theorem createNode_cases {n : NodePattern} {o : Option Vertex} {next : Row}
    (h : ctx.createNode n made s = (.ok (o, next), t)) :
    (n.name.bind made.lookup? = none ∧ ∃ v, o = some v ∧ ctx.createVertex n made s = (.ok v, t) ∧
      next = (n.name.map fun x => made.set x (.node v)).getD made) ∨
    ∃ x b, n.name = some x ∧ made.lookup? x = some b ∧ n.labels = [] ∧ n.properties = [] ∧
      next = made ∧ t = s ∧ (b = .null ∧ o = none ∨ ∃ v, b = .node v ∧ o = some v) := by
  unfold createNode at h
  cases hname : n.name with
  | none =>
    rw [hname] at h
    obtain ⟨v, s₁, hv, h⟩ := Run.ok_of_bind h
    cases h
    exact Or.inl ⟨rfl, v, rfl, hv, rfl⟩
  | some x =>
    rw [hname] at h
    dsimp only at h
    cases hx : made.lookup? x with
    | none =>
      rw [hx] at h
      obtain ⟨v, s₁, hv, h⟩ := Run.ok_of_bind h
      cases h
      exact Or.inl ⟨hx, v, rfl, hv, rfl⟩
    | some b =>
      rw [hx] at h
      dsimp only at h
      split at h
      · cases h
      · next hplain =>
        rw [Bool.not_eq_true, Bool.or_eq_false_iff, Bool.not_eq_false', Bool.not_eq_false',
          List.isEmpty_iff, List.isEmpty_iff] at hplain
        refine Or.inr ⟨x, b, rfl, hx, hplain.1, hplain.2, ?_⟩
        cases b with
        | node v => cases h; exact ⟨rfl, rfl, Or.inr ⟨v, rfl, rfl⟩⟩
        | null => cases h; exact ⟨rfl, rfl, Or.inl ⟨rfl, rfl⟩⟩
        | _ => cases h

/-- The edge leads between two vertices as a relationship pattern says, with its properties. -/
structure Ties (ctx : RunContext) (val : Expr → Value) (r : RelationshipPattern) (v w : Vertex)
    (e : Edge) : Prop where
  type : admitsType r.types e.type = true
  properties : ctx.Carries val r.properties e.properties
  ends : if r.heading = .incoming then e.source = w.id ∧ e.target = v.id
    else e.source = v.id ∧ e.target = w.id

/-- A new edge as a relationship pattern and its stored properties describe it. -/
def newEdge (ctx : RunContext) (r : RelationshipPattern) (type : String) (v w : Vertex)
    (stored : List StoredProperty) (number : Nat) : Edge :=
  let (source, target) := if r.heading = .incoming then (w.id, v.id) else (v.id, w.id)
  ⟨"e" ++ toString number, type, source, target, Entries.ofList stored, ctx.visibility⟩

/-- The edge is one that can be put into the store, from one slot to another. -/
structure Fits (e : Edge) (i j : Nat) (σ : Store) : Prop where
  free : σ.edgeSlot? e.id = none
  source : σ.vertexSlot? e.source = some i
  target : σ.vertexSlot? e.target = some j

/-- The edge was put into the store. -/
structure Puts (e : Edge) (i j : Nat) (s t : RunState) : Prop where
  store : t.store = (s.store.defineAll e.properties).putEdge ⟨e, i, j⟩
  vertexIds : t.vertexIds = s.vertexIds
  edgeIds : t.edgeIds = s.edgeIds + 1

theorem write_addEdge_ok (hs : s.store.Consistent) (h : Run.write (·.addEdge e) s = (.ok (), t)) :
    ∃ i j, Fits e i j s.store ∧
      t = { s with store := (s.store.defineAll e.properties).putEdge ⟨e, i, j⟩ } := by
  unfold Run.write at h
  dsimp only at h
  rw [Store.addEdge_eq hs.links] at h
  cases hslot : s.store.edgeSlot? e.id with
  | some k => rw [hslot] at h; cases h
  | none =>
    rw [hslot] at h
    cases hsource : s.store.vertexSlot? e.source with
    | none => rw [hsource] at h; cases h
    | some i =>
      rw [hsource] at h
      cases htarget : s.store.vertexSlot? e.target with
      | none => rw [htarget] at h; cases h
      | some j =>
        rw [htarget] at h
        cases h
        exact ⟨i, j, ⟨hslot, hsource, htarget⟩, rfl⟩

theorem write_addEdge_of_fits (hs : s.store.Consistent) (h : Fits e i j s.store) :
    Run.write (·.addEdge e) s =
      (.ok (), { s with store := (s.store.defineAll e.properties).putEdge ⟨e, i, j⟩ }) := by
  unfold Run.write
  dsimp only
  rw [Store.addEdge_eq hs.links, h.free, h.source, h.target]
  rfl

/-- What the creation of an edge took, and what it came to. -/
theorem createEdge_ok (hs : s.store.Consistent) {left right : Option Vertex}
    (h : ctx.createEdge r left right row s = (.ok (e, made), t)) :
    ∃ v w type types stored s₁ i j, left = some v ∧ right = some w ∧ r.types = type :: types ∧
      r.name.bind row.lookup? = none ∧
      ctx.storedProperties row r.properties s = (.ok stored, s₁) ∧
      e = ctx.newEdge r type v w stored (s₁.edgeIds + 1) ∧ Fits e i j s₁.store ∧ Puts e i j s₁ t ∧
        made = (r.name.map fun x => row.set x (.relationship e)).getD row := by
  unfold createEdge at h
  have hfresh : r.name.filter row.has = none := by
    cases hx : r.name.filter row.has with
    | none => rfl
    | some x =>
      rw [hx] at h
      obtain ⟨_, _, hfail, -⟩ := Run.ok_of_bind h
      cases hfail
  rw [hfresh] at h
  have hfree : r.name.bind row.lookup? = none := by
    cases hx : r.name with
    | none => rfl
    | some x =>
      rw [hx, Option.filter_eq_none_iff] at hfresh
      exact Option.not_isSome_iff_eq_none.1 (hfresh x rfl)
  obtain _ | v := left
  · cases h
  obtain _ | w := right
  · cases h
  cases htypes : r.types with
  | nil => rw [htypes] at h; cases h
  | cons type types =>
    rw [htypes] at h
    dsimp only at h
    obtain ⟨stored, s₁, hstored, h⟩ := Run.ok_of_bind h
    obtain ⟨id, s₂, hid, h⟩ := Run.ok_of_bind h
    obtain ⟨_, s₃, hwrite, h⟩ := Run.ok_of_bind h
    obtain ⟨_, s₄, hcount, h⟩ := Run.ok_of_bind h
    cases hcount
    cases h
    have hs₁ := ((adds_storedProperties row r.properties).grows hstored hs).1
    have hs₂ : s₂.store.Consistent := by cases hid; exact hs₁
    obtain ⟨i, j, hfits, rfl⟩ := write_addEdge_ok hs₂ hwrite
    cases hid
    refine ⟨v, w, type, types, stored, s₁, i, j, rfl, rfl, rfl, hfree, hstored, rfl, hfits,
      ⟨rfl, rfl, rfl⟩, ?_⟩
    cases r.name <;> rfl

theorem createEdge_spec (hs : s.store.Consistent) (hgrows : σ.Grows s.store)
    (hread : ctx.reader.canRead ctx.visibility = true) {r : RelationshipPattern}
    (hr : ctx.Settles σ row val r.properties) (hrows : row.Extends made) {v w : Vertex} {e : Edge}
    {next : Row} (h : ctx.createEdge r (some v) (some w) made s = (.ok (e, next), t)) :
    ctx.Ties val r v w e ∧ r.name.bind made.lookup? = none ∧
      next = (r.name.map fun x => made.set x (.relationship e)).getD made ∧
        s.store.edge? e.id = none ∧ t.store.getEdge? ctx.reader e.id = some e := by
  have ht := ((adds_createEdge r (some v) (some w) made).grows h hs).1
  obtain ⟨v, w, type, types, stored, s₁, i, j, ⟨⟩, ⟨⟩, htypes, hfree, hstored, he, hfits, hputs,
    hnext⟩ := createEdge_ok hs h
  obtain ⟨hs₁, hmore⟩ := (adds_storedProperties made r.properties).grows hstored hs
  have hadded : t.store.edge? e.id = some e := by
    rw [hputs.store] at ht ⊢
    exact Store.edge?_putEdge (hs₁.defineAll e.properties).edges ht
  have hnew : s₁.store.edge? e.id = none := by
    rw [Store.edge?, hfits.free]
    rfl
  have hread' : ctx.reader.canRead e.visibility = true := by
    rw [he]
    exact hread
  refine ⟨⟨?_, ?_, ?_⟩, hfree, hnext, Store.edge?_none_of_grows hs hs₁ hmore hnew,
    Option.filter_eq_some_iff.2 ⟨hadded, hread'⟩⟩
  · rw [he, htypes]
    unfold admitsType
    rw [List.contains_cons, newEdge, beq_self_eq_true, Bool.true_or, Bool.or_true]
  · rw [he]
    exact carries_ofList hs hgrows hr hrows hstored
  · rw [he]
    unfold newEdge
    split <;> exact ⟨rfl, rfl⟩

end RunContext

end PropertyGraph
