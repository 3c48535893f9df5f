import PropertyGraph.Proofs.Eval.Substitution
import PropertyGraph.Proofs.Plan.Checked
import PropertyGraph.Proofs.Run.Columns
import PropertyGraph.Proofs.Run.Placed
import PropertyGraph.Proofs.Store.Interleaved

/-!
# Vertices that are created again elsewhere

The vertices of some patterns come to the same in every state with the same vertices, whatever edges
there are, and in every row that agrees on the names of the patterns and on those that they read.  A
run of the creation is recorded as the names that it bound, the vertices that it added and the
property names that it defined.

    RunState.Beside           one state is another one and some vertices and definitions besides
    RunState.SameVertices     the states have the same vertices
    createVertex_again        a vertex that was created is created again
    Creates.andThen           one recorded creation after the other
    startParts_creates        the vertices of all parts of a pattern
-/

namespace PropertyGraph

variable {names more : List String} {bs cs : List (String × Value)} {vs ws : List Vertex}
  {d d' : String → Bool}

/-! ## Rows -/

namespace Row

variable {row other : Row}

/-- The row with some columns bound in turn. -/
def sets (row : Row) (bs : List (String × Value)) : Row :=
  bs.foldl (fun row (name, v) => row.set name v) row

theorem sets_append (row : Row) (bs cs : List (String × Value)) :
    row.sets (bs ++ cs) = (row.sets bs).sets cs := List.foldl_append

theorem closed_sets (h : row.Closed) (bs : List (String × Value)) : (row.sets bs).Closed := by
  induction bs generalizing row with
  | nil => exact h
  | cons b rest ih => exact ih (h : (row.set b.1 b.2).Closed)

theorem lookup?_sets (h : row.Closed) (bs : List (String × Value)) (x : String) :
    (row.sets bs).lookup? x = (Bindings.get? x bs.reverse).or (row.lookup? x) :=
  lookup?_foldl_set h bs x

theorem lookup?_sets_of_notMem (h : row.Closed) {x : String} (hx : ∀ b ∈ bs, b.1 ≠ x) :
    (row.sets bs).lookup? x = row.lookup? x := by
  have hnone : Bindings.get? x bs.reverse = none := by
    refine Option.eq_none_iff_forall_ne_some.2 fun v hv => ?_
    exact hx _ (List.mem_reverse.1 (Bindings.mem_of_get? hv)) rfl
  rw [lookup?_sets h, hnone, Option.none_or]

/-- A name that may not be there, bound or left out. -/
theorem getD_set (row : Row) (name : Option String) (v : Value) :
    (name.map fun x => row.set x v).getD row = row.sets (name.map (·, v)).toList := by
  cases name <;> rfl

/-- Both rows bind some names to the same values, or not at all. -/
def AgreeOn (names : List String) (row other : Row) : Prop :=
  ∀ x ∈ names, other.lookup? x = row.lookup? x

theorem AgreeOn.sets (h : row.AgreeOn names other) (hrow : row.Closed) (hother : other.Closed)
    (bs : List (String × Value)) : (row.sets bs).AgreeOn names (other.sets bs) := by
  intro x hx
  rw [lookup?_sets hrow, lookup?_sets hother, h x hx]

theorem AgreeOn.value (h : row.AgreeOn names other) {e : Expr} (he : ∀ x ∈ e.freeNames, x ∈ names)
    (env : EvalEnv) : e.value env other = e.value env row :=
  Expr.value_congr env fun x hx => h x (he x (Expr.mem_freeNames.2 hx))

end Row

/-! ## Patterns -/

/-- The name of the pattern is among some names, and what its properties read among others. -/
structure NodePattern.Within (new read : List String) (n : NodePattern) : Prop where
  name : ∀ x, n.name = some x → x ∈ new
  reads : ∀ p ∈ n.properties, ∀ x ∈ p.2.freeNames, x ∈ read

theorem NodePattern.Within.mono {new read new' read' : List String} {n : NodePattern}
    (h : n.Within new read) (hnew : ∀ x ∈ new, x ∈ new') (hread : ∀ x ∈ read, x ∈ read') :
    n.Within new' read' :=
  ⟨fun x hx => hnew x (h.name x hx), fun p hp x hx => hread x (h.reads p hp x hx)⟩

/-! ## States -/

namespace RunState

variable {s s' t t' u : RunState}

/-- The first state is the second one after some vertices were added and some names were defined. -/
structure Beside (vs : List Vertex) (d : String → Bool) (s t : RunState) : Prop where
  bare : s.store.bare = vs.foldl Store.putVertex t.store.bare
  defined : ∀ x, s.store.isDefined x = (t.store.isDefined x || d x)
  vertexIds : s.vertexIds = t.vertexIds + vs.length
  edgeIds : s.edgeIds = t.edgeIds

/-- The states have the same elements, the same defined names and the same next ids. -/
abbrev Twin : RunState → RunState → Prop :=
  Beside [] fun _ => false

theorem Twin.refl (s : RunState) : s.Twin s :=
  ⟨rfl, fun _ => (Bool.or_false _).symm, rfl, rfl⟩

theorem Beside.append (h : t.Beside vs d s) (h' : u.Beside ws d' t) :
    u.Beside (vs ++ ws) (fun x => d x || d' x) s where
  bare := by rw [h'.bare, h.bare, List.foldl_append]
  defined x := by rw [h'.defined, h.defined, Bool.or_assoc]
  vertexIds := by rw [h'.vertexIds, h.vertexIds, List.length_append, Nat.add_assoc]
  edgeIds := h'.edgeIds.trans h.edgeIds

/-- What is beside the same state by the same vertices and names is alike. -/
theorem Beside.twin (h : s.Beside vs d u) (h' : t.Beside vs d u) : s.Twin t where
  bare := h.bare.trans h'.bare.symm
  defined x := by rw [h.defined, h'.defined, Bool.or_false]
  vertexIds := h.vertexIds.trans h'.vertexIds.symm
  edgeIds := h.edgeIds.trans h'.edgeIds.symm

theorem Twin.trans (h : s.Twin t) (h' : t.Twin u) : s.Twin u where
  bare := h.bare.trans h'.bare
  defined x := by rw [h.defined, h'.defined, Bool.or_false]
  vertexIds := h.vertexIds.trans h'.vertexIds
  edgeIds := h.edgeIds.trans h'.edgeIds

theorem Twin.countRow (h : s.Twin t) (name : String) : s.Twin (t.countRow name) :=
  ⟨h.bare, h.defined, h.vertexIds, h.edgeIds⟩

theorem Twin.vertex (h : s.Twin t) (id : String) : s.store.vertex? id = t.store.vertex? id :=
  show s.store.bare.vertex? id = t.store.bare.vertex? id by rw [h.bare]; rfl

theorem Beside.grows (h : s.Beside vs d t) (ht : t.store.Consistent) : t.store.Grows s.store :=
  Store.grows_of_bare ht h.bare fun x hx => by rw [h.defined, hx, Bool.true_or]

theorem Beside.defineAll (h : s.Beside vs d t) (properties : List (String × Value)) :
    Beside vs d { s with store := s.store.defineAll properties }
      { t with store := t.store.defineAll properties } where
  bare := by rw [Store.bare_defineAll, Store.bare_defineAll, h.bare]
  defined x := by
    rw [Store.isDefined_defineAll, Store.isDefined_defineAll, h.defined, Bool.or_right_comm]
  vertexIds := h.vertexIds
  edgeIds := h.edgeIds

/-- The states have the same vertices, and the next one gets the same id. -/
structure SameVertices (s t : RunState) : Prop where
  vertex : ∀ id, s.store.vertex? id = t.store.vertex? id
  vertexIds : s.vertexIds = t.vertexIds

theorem SameVertices.refl (s : RunState) : s.SameVertices s := ⟨fun _ => rfl, rfl⟩

theorem SameVertices.trans (h : s.SameVertices t) (h' : t.SameVertices u) : s.SameVertices u :=
  ⟨fun id => (h.vertex id).trans (h'.vertex id), h.vertexIds.trans h'.vertexIds⟩

theorem sameVertices_defineAll (s : RunState) (properties : List (String × Value)) :
    s.SameVertices { s with store := s.store.defineAll properties } :=
  ⟨fun id => (Store.vertex?_defineAll s.store properties id).symm, rfl⟩

/-- The same vertices are beside both. -/
theorem SameVertices.beside (h : s.SameVertices t) (hs : s.store.Consistent)
    (ht : t.store.Consistent) (hs' : s'.store.Consistent) (ht' : t'.store.Consistent)
    (hbs : s'.Beside vs d s) (hbt : t'.Beside vs d' t) : s'.SameVertices t' where
  vertex id := by
    refine Option.ext fun w => ?_
    rw [Store.vertex?_of_bare hs hbs.bare hs', Store.vertex?_of_bare ht hbt.bare ht', h.vertex]
  vertexIds := by rw [hbs.vertexIds, hbt.vertexIds, h.vertexIds]

end RunState

namespace RunContext

variable {ctx : RunContext} {row made : Row} {s s' t : RunState} {σ τ : Store}

theorem env_congr (ctx : RunContext) (h : ∀ id, σ.vertex? id = τ.vertex? id) :
    ctx.env σ = ctx.env τ := by
  have hseen : σ.getVertex? ctx.reader = τ.getVertex? ctx.reader :=
    funext fun id => congrArg (Option.filter _) (h id)
  unfold env
  rw [hseen]

theorem env_congr_bare (ctx : RunContext) (h : σ.bare = τ.bare) : ctx.env σ = ctx.env τ :=
  ctx.env_congr fun id => show σ.bare.vertex? id = τ.bare.vertex? id by rw [h]

/-! ## Properties -/

/-- Properties that were stored are stored again where their expressions have the same values. -/
theorem storedProperties_again {ps : List (String × Expr)} {stored : List StoredProperty}
    (h : ctx.storedProperties row ps s = (.ok stored, s')) :
    s' = { s with store := s.store.defineAll stored } ∧ ∀ row' t,
      (∀ p ∈ ps, p.2.value (ctx.env t.store) row' = p.2.value (ctx.env s.store) row) →
        ctx.storedProperties row' ps t =
          (.ok stored, { t with store := t.store.defineAll stored }) := by
  induction ps generalizing s s' stored with
  | nil => cases h; exact ⟨rfl, fun _ _ _ => rfl⟩
  | cons p rest ih =>
    obtain ⟨key, e⟩ := p
    unfold storedProperties at h
    obtain ⟨v, s₁, hv, h⟩ := Run.ok_of_bind h
    obtain ⟨hvalue, rfl⟩ : e.value (ctx.env s.store) row = .ok v ∧ s = s₁ := Prod.mk.inj hv
    have hagain : ∀ row' (t : RunState),
        e.value (ctx.env t.store) row' = e.value (ctx.env s.store) row →
          ctx.value e row' t = (.ok v, t) := by
      intro row' t ht
      rw [hvalue] at ht
      exact congrArg (·, t) ht
    cases hnull : v.isNull with
    | true =>
      rw [hnull, if_pos rfl] at h
      obtain ⟨hs', hrest⟩ := ih h
      refine ⟨hs', fun row' t hvalues => ?_⟩
      obtain ⟨hfirst, hothers⟩ := List.forall_mem_cons.1 hvalues
      unfold storedProperties
      rw [Run.bind_of_ok (hagain row' t hfirst), hnull, if_pos rfl]
      exact hrest row' t hothers
    | false =>
      rw [hnull, if_neg Bool.false_ne_true] at h
      obtain ⟨_, s₂, hprepare, h⟩ := Run.ok_of_bind h
      obtain ⟨others, s₃, hothers, h⟩ := Run.ok_of_bind h
      cases h
      unfold prepare at hprepare
      split at hprepare
      · cases hprepare
      next hstorable =>
      cases hprepare
      obtain ⟨rfl, hrest⟩ := ih hothers
      refine ⟨rfl, fun row' t hvalues => ?_⟩
      obtain ⟨hfirst, hmore⟩ := List.forall_mem_cons.1 hvalues
      unfold storedProperties
      rw [Run.bind_of_ok (hagain row' t hfirst), hnull, if_neg Bool.false_ne_true]
      have hprepare : prepare (ctx.config.property key) v t =
          (.ok (), { t with store := t.store.defineAll [(ctx.config.property key, v)] }) := by
        unfold prepare
        rw [hstorable]
        rfl
      have henv : ∀ σ : Store, ctx.env (σ.defineAll [(ctx.config.property key, v)]) = ctx.env σ :=
        fun σ => ctx.env_congr (Store.vertex?_defineAll σ _)
      rw [Run.bind_of_ok hprepare, Run.bind_of_ok (hrest row' _ fun q hq => ?_)]
      · rfl
      · rw [henv]
        exact (hmore q hq).trans (congrArg (q.2.value · row) (henv s.store).symm)

/-! ## Vertices -/

/-- What a computation that creates vertices came to in a row and a state: the names that it bound,
the vertices that it added and the names that it defined.  It comes to the same in every other state
with the same vertices, and in every other row that agrees on the names that it may look at. -/
structure Creates {α : Type} (new read : List String) (c : Row → Run (α × Row)) (row : Row)
    (s : RunState) (a : α) (bs : List (String × Value)) (vs : List Vertex) (d : String → Bool) :
    Prop where
  fresh : ∀ b ∈ bs, b.1 ∈ new ∧ row.lookup? b.1 = none ∧ ∃ v, b.2 = .node v
  again : ∀ row' t, row'.Closed → t.store.Consistent → s.SameVertices t →
    row.AgreeOn (new ++ read) row' → ∃ t', c row' t = (.ok (a, row'.sets bs), t') ∧
      t'.store.Consistent ∧ t'.Beside vs d t

namespace Creates

variable {α β : Type} {new read : List String} {c : Row → Run (α × Row)} {a a' : α}

/-- From its own row and state, the computation has come to what is recorded. -/
theorem of_run (h : Creates new read c row s a bs vs d) (hrow : row.Closed)
    (hs : s.store.Consistent) (hrun : c row s = (.ok (a', made), s')) :
    a' = a ∧ made = row.sets bs ∧ s'.store.Consistent ∧ s'.Beside vs d s := by
  obtain ⟨u, hagain, hu, hbeside⟩ := h.again row s hrow hs (.refl s) fun _ _ => rfl
  rw [hrun] at hagain
  cases hagain
  exact ⟨rfl, rfl, hu, hbeside⟩

/-- One such computation after the other. -/
theorem andThen {k : Row → Run (β × Row)} {γ : Type} {f : α → β → γ} {b : β}
    (h : Creates new read c row s a bs vs d) (hrow : row.Closed) (hs : s.store.Consistent)
    (hrun : c row s = (.ok (a, row.sets bs), s'))
    (hk : Creates new read k (row.sets bs) s' b cs ws d') :
    Creates new read (fun row => do
      let (x, row) ← c row
      let (y, row) ← k row
      return (f x y, row)) row s (f a b) (bs ++ cs) (vs ++ ws) fun x => d x || d' x where
  fresh p hp := by
    rcases List.mem_append.1 hp with hp | hp
    · exact h.fresh p hp
    · obtain ⟨hnew, hfree, hvalue⟩ := hk.fresh p hp
      refine ⟨hnew, ?_, hvalue⟩
      rw [Row.lookup?_sets hrow, Option.or_eq_none_iff] at hfree
      exact hfree.2
  again row' t hrow' ht hst hagree := by
    obtain ⟨-, -, hs', hbeside⟩ := h.of_run hrow hs hrun
    obtain ⟨t₁, hc, ht₁, hbeside₁⟩ := h.again row' t hrow' ht hst hagree
    obtain ⟨t₂, hk, ht₂, hbeside₂⟩ := hk.again (row'.sets bs) t₁ (Row.closed_sets hrow' bs) ht₁
      (hst.beside hs ht hs' ht₁ hbeside hbeside₁) (hagree.sets hrow hrow' bs)
    refine ⟨t₂, ?_, ht₂, hbeside₁.append hbeside₂⟩
    rw [Run.bind_of_ok hc]
    dsimp only
    rw [Run.bind_of_ok hk, Row.sets_append]
    rfl

end Creates

/-- Where its id is free, the vertex described is created. -/
theorem createVertex_of_free {n : NodePattern} {v : Vertex} {stored : List StoredProperty}
    {s₁ : RunState} (hs : s₁.store.Consistent)
    (hstored : ctx.storedProperties row n.properties s = (.ok stored, s₁))
    (hv : v = ctx.newVertex n stored (s₁.vertexIds + 1)) (hfree : s₁.store.vertex? v.id = none) :
    ∃ s', ctx.createVertex n row s = (.ok v, s') ∧
      s'.store = (s₁.store.defineAll v.properties).putVertex v ∧
        s'.vertexIds = s₁.vertexIds + 1 ∧ s'.edgeIds = s₁.edgeIds := by
  have hwrite := write_addVertex (s := { s₁ with vertexIds := s₁.vertexIds + 1 }) hs v
  rw [if_neg (Option.not_isSome_iff_eq_none.2 hfree)] at hwrite
  subst hv
  have hid : Run.nextVertexId s₁ =
      (.ok ("v" ++ toString (s₁.vertexIds + 1)), { s₁ with vertexIds := s₁.vertexIds + 1 }) := rfl
  unfold createVertex
  rw [Run.bind_of_ok hstored]
  dsimp only
  rw [Run.bind_of_ok hid]
  refine ⟨_, (Run.bind_of_ok hwrite).trans rfl, rfl, rfl, rfl⟩

/-- A vertex that was created is created again. -/
theorem createVertex_again (hs : s.store.Consistent) {n : NodePattern} {v : Vertex}
    (h : ctx.createVertex n row s = (.ok v, s')) : ∃ d, ∀ row' t, t.store.Consistent →
      s.SameVertices t →
      (∀ p ∈ n.properties, p.2.value (ctx.env t.store) row' = p.2.value (ctx.env s.store) row) →
        ∃ t', ctx.createVertex n row' t = (.ok v, t') ∧ t'.store.Consistent ∧
          t'.Beside [v] d t := by
  obtain ⟨stored, s₁, hstored, hv, hfree, -⟩ := createVertex_ok hs h
  obtain ⟨rfl, hagain⟩ := storedProperties_again hstored
  rw [Store.vertex?_defineAll] at hfree
  refine ⟨fun x => (stored.any fun p => x == p.1 && !p.2.isNull) ||
    v.properties.any fun p => x == p.1 && !p.2.isNull, fun row' t ht hst hvalues => ?_⟩
  obtain ⟨t', hrun, hstore, hvertexIds, hedgeIds⟩ := createVertex_of_free (ht.defineAll stored)
    (hagain row' t hvalues) (hst.vertexIds ▸ hv)
    (by rw [Store.vertex?_defineAll, ← hst.vertex, hfree])
  refine ⟨t', hrun, ((adds_createVertex n row').grows hrun ht).1, ?_, fun x => ?_, hvertexIds,
    hedgeIds⟩
  · rw [hstore, Store.bare_putVertex, Store.bare_defineAll, Store.bare_defineAll]
    rfl
  · rw [hstore]
    show ((t.store.defineAll stored).defineAll v.properties).isDefined x = _
    rw [Store.isDefined_defineAll, Store.isDefined_defineAll, Bool.or_assoc]

/-- A vertex or the one that the row binds already is there again. -/
theorem createNode_creates {new read : List String} (hs : s.store.Consistent) (hrow : row.Closed)
    {n : NodePattern} (hn : n.Within new read) {o : Option Vertex}
    (h : ctx.createNode n row s = (.ok (o, made), s')) :
    ∃ bs vs d, Creates new read (ctx.createNode n) row s o bs vs d := by
  obtain ⟨hfree, v, rfl, hv, rfl⟩ | ⟨x, b, hx, hb, hlabels, hproperties, rfl, rfl, hcase⟩ :=
    createNode_cases h
  · obtain ⟨d, hagain⟩ := createVertex_again hs hv
    have hvalues : ∀ row' (t : RunState), s.SameVertices t → row.AgreeOn (new ++ read) row' →
        ∀ p ∈ n.properties, p.2.value (ctx.env t.store) row' = p.2.value (ctx.env s.store) row :=
      fun row' t hst hagree p hp => by
        rw [ctx.env_congr hst.vertex]
        exact hagree.value (fun x hx => List.mem_append_right _ (hn.reads p hp x hx)) _
    refine ⟨(n.name.map (·, .node v)).toList, [v], d, ?_, ?_⟩
    · intro b hb
      obtain ⟨x, hx, rfl⟩ := Option.map_eq_some_iff.1 (Option.mem_toList.1 hb)
      rw [hx] at hfree
      exact ⟨hn.name x hx, hfree, v, rfl⟩
    · intro row' t hrow' ht hst hagree
      obtain ⟨t', hrun, ht', hbeside⟩ := hagain row' t ht hst (hvalues row' t hst hagree)
      refine ⟨t', ?_, ht', hbeside⟩
      unfold createNode
      cases hx : n.name with
      | none => exact Run.bind_of_ok hrun
      | some x =>
        rw [hx] at hfree
        dsimp only
        rw [hagree x (List.mem_append_left _ (hn.name x hx)), show row.lookup? x = none from hfree]
        exact Run.bind_of_ok hrun
  · refine ⟨[], [], fun _ => false, nofun, fun row' t _ ht _ hagree =>
      ⟨t, ?_, ht, RunState.Twin.refl t⟩⟩
    have hb' := (hagree x (List.mem_append_left _ (hn.name x hx))).trans hb
    unfold createNode at h ⊢
    simp only [hx, hb, hb', hlabels, hproperties] at h ⊢
    obtain ⟨rfl, rfl⟩ | ⟨v, rfl, rfl⟩ := hcase <;> rfl

/-- So are the vertices of some patterns. -/
theorem createNodes_creates {new read : List String} {ns : List NodePattern}
    (hs : s.store.Consistent) (hrow : row.Closed) (hns : ∀ n ∈ ns, n.Within new read)
    {os : List (Option Vertex)} (h : ctx.createNodes row ns s = (.ok (os, made), s')) :
    ∃ bs vs d, Creates new read (ctx.createNodes · ns) row s os bs vs d := by
  induction ns generalizing row s os made with
  | nil =>
    cases h
    exact ⟨[], [], fun _ => false, nofun, fun row' t _ ht _ _ => ⟨t, rfl, ht, RunState.Twin.refl t⟩⟩
  | cons n rest ih =>
    obtain ⟨hn, hrest⟩ := List.forall_mem_cons.1 hns
    unfold createNodes at h
    obtain ⟨⟨o, row₁⟩, s₁, hnode, h⟩ := Run.ok_of_bind h
    obtain ⟨⟨others, row₂⟩, s₂, hnodes, h⟩ := Run.ok_of_bind h
    cases h
    obtain ⟨bs, vs, d, hcreates⟩ := createNode_creates hs hrow hn hnode
    obtain ⟨-, rfl, hs₁, -⟩ := hcreates.of_run hrow hs hnode
    obtain ⟨cs, ws, d', hmore⟩ := ih hs₁ (Row.closed_sets hrow bs) hrest hnodes
    exact ⟨_, _, _, hcreates.andThen (f := (· :: ·)) hrow hs hnode hmore⟩

/-- And those of some parts. -/
theorem startParts_creates {new read : List String} {parts : List PatternPart}
    (hs : s.store.Consistent) (hrow : row.Closed)
    (hparts : ∀ p ∈ parts, ∀ n ∈ p.nodes, n.Within new read) {os : List (List (Option Vertex))}
    (h : ctx.startParts row parts s = (.ok (os, made), s')) :
    ∃ bs vs d, Creates new read (ctx.startParts · parts) row s os bs vs d := by
  induction parts generalizing row s os made with
  | nil =>
    cases h
    exact ⟨[], [], fun _ => false, nofun, fun row' t _ ht _ _ => ⟨t, rfl, ht, RunState.Twin.refl t⟩⟩
  | cons p rest ih =>
    obtain ⟨hp, hrest⟩ := List.forall_mem_cons.1 hparts
    unfold startParts at h
    obtain ⟨⟨o, row₁⟩, s₁, hnodes, h⟩ := Run.ok_of_bind h
    obtain ⟨⟨others, row₂⟩, s₂, hothers, h⟩ := Run.ok_of_bind h
    cases h
    obtain ⟨bs, vs, d, hcreates⟩ := createNodes_creates hs hrow hp hnodes
    obtain ⟨-, rfl, hs₁, -⟩ := hcreates.of_run hrow hs hnodes
    obtain ⟨cs, ws, d', hmore⟩ := ih hs₁ (Row.closed_sets hrow bs) hrest hothers
    exact ⟨_, _, _, hcreates.andThen (f := (· :: ·)) hrow hs hnodes hmore⟩

end RunContext

end PropertyGraph
