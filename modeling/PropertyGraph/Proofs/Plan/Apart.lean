import PropertyGraph.Proofs.Pattern.Exact
import PropertyGraph.Proofs.Run.Attached

/-!
# Parts created apart from each other

A `CREATE` whose parts do not share new names, and do not read each other's, is planned as creations
of one part each, whose rows are joined.  Together, the parts would get all their vertices first and
then their edges.  The first part is split off: its edges are created before the vertices of the
others just as after them, and the others then as if it were not there.  So it goes on part by part.

    Independent             a part that does not depend on the vertices of the others
    create_cons             the first part by itself, and the others after it
    joinParts_of_create     all parts, one after the other
    createApart_of_create   the plan of creations apart comes to what the creation together comes to

The names do not tell everything.  A path may have a name that is bound already, an end may be a
vertex that is stored only when another part has created it, and a property may look up a vertex.
-/

namespace PropertyGraph

/-- The value is one that a node or a relationship of a pattern gets: the ends of a relationship
are stored. -/
def Value.Anchored (σ : Store) : Value → Prop
  | .node _ => True
  | .relationship e => (σ.vertex? e.source).isSome = true ∧ (σ.vertex? e.target).isSome = true
  | _ => False

theorem Value.Anchored.grows {σ τ : Store} {v : Value} (h : v.Anchored σ) (hσ : σ.Consistent)
    (hτ : τ.Consistent) (hgrows : σ.Grows τ) : v.Anchored τ := by
  have hstored : ∀ {id}, (σ.vertex? id).isSome = true → (τ.vertex? id).isSome = true :=
    Store.isSome_vertex?_of_grows hσ hτ hgrows
  cases v with
  | node v => trivial
  | relationship e => exact h.imp hstored hstored
  | _ => exact h

theorem Row.extends_sets {row : Row} (hrow : row.Closed) {bs : List (String × Value)}
    (hbs : ∀ b ∈ bs, row.lookup? b.1 = none) : row.Extends (row.sets bs) := by
  intro x v hv
  rw [lookup?_sets_of_notMem hrow, hv]
  rintro b hb rfl
  rw [hbs b hb] at hv
  cases hv

open Plan (namesRead areApart planCreate)

namespace Row

variable {row other : Row} {bs cs bs' cs' : List (String × Value)}

theorem agreeOn_sets (hrow : row.Closed) {names : List String} (hbs : ∀ b ∈ bs, b.1 ∉ names) :
    (row.sets bs).AgreeOn names row := by
  intro x hx
  exact (lookup?_sets_of_notMem hrow fun b hb heq => hbs b hb (heq ▸ hx)).symm

/-- Names that are bound in turns are bound as they are one after the other, if those of one kind
are new, and are not those of the other kind. -/
theorem lookup?_sets_turns (hrow : row.Closed) (hbs : ∀ b ∈ bs, row.lookup? b.1 = none)
    (hbs' : ∀ b ∈ bs', row.lookup? b.1 = none) (hne : ∀ b ∈ bs', ∀ c ∈ cs, b.1 ≠ c.1)
    (x : String) : ((((row.sets bs).sets cs).sets bs').sets cs').lookup? x =
      (((row.sets cs).sets cs').lookup? x).or (((row.sets bs).sets bs').lookup? x) := by
  have hfound : ∀ {bs : List (String × Value)} {v : Value},
      Bindings.get? x bs.reverse = some v → (x, v) ∈ bs := fun hv =>
    List.mem_reverse.1 (Bindings.mem_of_get? hv)
  have hnone : ∀ {bs : List (String × Value)}, (∀ b ∈ bs, row.lookup? b.1 = none) →
      ∀ {w}, row.lookup? x = some w → Bindings.get? x bs.reverse = none := by
    intro bs hfree w hw
    refine Option.eq_none_iff_forall_ne_some.2 fun v hv => ?_
    rw [hfree _ (hfound hv)] at hw
    cases hw
  have hbs₁ := closed_sets hrow bs
  have hcs₁ := closed_sets hbs₁ cs
  rw [lookup?_sets (closed_sets hcs₁ bs'), lookup?_sets hcs₁, lookup?_sets hbs₁, lookup?_sets hrow,
    lookup?_sets (closed_sets hrow cs), lookup?_sets hrow, lookup?_sets hbs₁, lookup?_sets hrow]
  cases hx : row.lookup? x with
  | some w => rw [hnone hbs hx, hnone hbs' hx]; cases Bindings.get? x cs'.reverse <;> simp
  | none =>
    cases hb : Bindings.get? x bs'.reverse with
    | none => simp [Option.or_assoc]
    | some v =>
      have hc : Bindings.get? x cs.reverse = none := by
        refine Option.eq_none_iff_forall_ne_some.2 fun w hw => ?_
        exact hne _ (hfound hb) _ (hfound hw) rfl
      rw [hc]
      simp

theorem closed_absorb (h : row.Closed) : (row.absorb other).Closed := by
  rw [absorb_eq]
  exact closed_sets h other.seen

/-- What is absorbed hides what was there. -/
theorem lookup?_absorb (hrow : row.Closed) (hother : other.Closed) (x : String) :
    (row.absorb other).lookup? x = (other.lookup? x).or (row.lookup? x) := by
  have hseen : Bindings.get? x other.seen.reverse = other.lookup? x := by
    have hreverse : other.seen.reverse =
        Bindings.tabulate (fun x => (other.lookup? x).getD .null) other.names.reverse :=
      List.map_reverse.symm
    rw [hreverse, Bindings.get?_tabulate]
    simp only [List.mem_reverse, ← has_iff_mem_names hother]
    unfold Row.has
    cases other.lookup? x <;> rfl
  rw [absorb_eq, ← hseen]
  exact lookup?_sets hrow other.seen x

end Row

namespace RunContext

variable {ctx : RunContext} {row base made out : Row} {s s' t : RunState} {σ τ ρ last : Store}
  {bs : List (String × Value)} {part : PatternPart} {rest parts : List PatternPart}

/-! ## While a part is created -/

/-- What a store and a row may have become while the nodes and relationships of a part are created:
they hold more, and the row binds new names to new elements. -/
structure Midway (σ : Store) (base : Row) (made : Row) (τ : Store) : Prop where
  grows : σ.Grows τ
  wider : base.Extends made
  anchored : ∀ x v, base.lookup? x = none → made.lookup? x = some v → v.Anchored τ

theorem Midway.sets (h : Midway σ base made τ) (hmade : made.Closed) (hτ : τ.Consistent)
    (hρ : ρ.Consistent) (hgrows : τ.Grows ρ)
    (hbs : ∀ b ∈ bs, made.lookup? b.1 = none ∧ b.2.Anchored ρ) :
    Midway σ base (made.sets bs) ρ where
  grows := h.grows.trans hgrows
  wider := h.wider.trans (Row.extends_sets hmade fun b hb => (hbs b hb).1)
  anchored x v hx hv := by
    rw [Row.lookup?_sets hmade] at hv
    rcases Option.or_eq_some_iff.1 hv with hv | ⟨-, hv⟩
    · exact (hbs _ (List.mem_reverse.1 (Bindings.mem_of_get? hv))).2
    · exact (h.anchored x v hx hv).grows hτ hρ hgrows

/-- Creating an edge is a step of the kind. -/
theorem keptByEdges_midway (ctx : RunContext) (σ : Store) (base : Row) :
    ctx.KeptByEdges (Midway σ base) := by
  intro r left right row e made s s' hs hrow h hrun
  obtain ⟨hs', hgrows⟩ := (adds_createEdge r left right row).grows hrun hs
  obtain ⟨v, w, type, types, stored, s₁, i, j, -, -, -, hfree, hstored, -, hfits, hputs, hmade⟩ :=
    createEdge_ok hs hrun
  rw [Row.getD_set] at hmade
  subst hmade
  have hs₁ := ((adds_storedProperties row r.properties).grows hstored hs).1
  have hend : ∀ {id k}, s₁.store.vertexSlot? id = some k → (s'.store.vertex? id).isSome = true := by
    intro id k hk
    rw [← hputs.sameVertices.vertex, ← Store.isSome_vertexSlot? hs₁, hk]
    rfl
  refine h.sets hrow hs hs' hgrows fun b hb => ?_
  obtain ⟨x, hx, rfl⟩ := Option.map_eq_some_iff.1 (Option.mem_toList.1 hb)
  rw [hx] at hfree
  exact ⟨hfree, hend hfits.source, hend hfits.target⟩

/-- While a part is created, more elements of those that are there in the end do not change the
value of the expression. -/
def Steady (ctx : RunContext) (σ last : Store) (base : Row) (e : Expr) : Prop :=
  ∀ made τ ρ, τ.Consistent → ρ.Consistent → Midway σ base made τ → τ.Grows ρ → ρ.Grows last →
    e.value (ctx.env ρ) made = e.value (ctx.env τ) made

/-- So it is with an expression that looks up no vertices. -/
theorem steady_of_calls {e : Expr} (h : Expr.NoneLooksUp e.calls) (ctx : RunContext)
    (σ last : Store) (base : Row) : ctx.Steady σ last base e :=
  fun made τ ρ _ hρ _ hgrows _ => lasting_of_calls h ctx τ made ρ hρ hgrows

theorem Steady.mono {σ' last' : Store} {e : Expr} (h : ctx.Steady σ last base e)
    (hgrows : σ.Grows σ') (hlast : last'.Grows last) : ctx.Steady σ' last' base e :=
  fun made τ ρ hτ hρ hmidway hmore hless => h made τ ρ hτ hρ
    { hmidway with grows := hgrows.trans hmidway.grows } hmore (hless.trans hlast)

theorem Steady.overlooks {e : Expr} (h : ctx.Steady σ last base e) (vs : List Vertex) :
    ctx.Overlooks (Midway σ base) vs last e :=
  fun made ρ τ hτ hρ hmidway hgrows hlast _ => h made τ ρ hτ hρ hmidway hgrows hlast

/-! ## The vertices of a part -/

/-- The vertices of some node patterns are stored, unless the row had them already. -/
theorem createNodes_stored (hs : s.store.Consistent) (hrow : row.Closed) {ns : List NodePattern}
    {os : List (Option Vertex)} (h : ctx.createNodes row ns s = (.ok (os, made), s')) {v : Vertex}
    (hv : some v ∈ os) : (s'.store.vertex? v.id).isSome = true ∨
      ∃ n ∈ ns, ∃ x, n.name = some x ∧ row.lookup? x = some (.node v) := by
  induction ns generalizing row s os with
  | nil => cases h; cases hv
  | cons n rest ih =>
    unfold createNodes at h
    obtain ⟨⟨o, row₁⟩, s₁, hnode, h⟩ := Run.ok_of_bind h
    obtain ⟨⟨others, row₂⟩, s₂, hnodes, h⟩ := Run.ok_of_bind h
    cases h
    obtain ⟨hs₁, -⟩ := (adds_createNode n row).grows hnode hs
    obtain ⟨hs₂, hgrows⟩ := (adds_createNodes rest row₁).grows hnodes hs₁
    obtain ⟨-, w, rfl, hw, rfl⟩ | ⟨x, b, hx, hb, -, -, rfl, rfl, hcase⟩ := createNode_cases hnode
    · -- a new vertex, to which its name may be bound
      have hstored : (s'.store.vertex? w.id).isSome = true := by
        refine Store.isSome_vertex?_of_grows hs₁ hs₂ hgrows ?_
        obtain ⟨d, hagain⟩ := createVertex_again hs hw
        obtain ⟨u, hu, hconsistent, hbeside⟩ := hagain row s hs (.refl s) fun _ _ => rfl
        rw [hw] at hu
        cases hu
        rw [(Store.vertex?_of_bare hs hbeside.bare hconsistent w.id w).2
          (Or.inl ⟨rfl, List.mem_cons_self⟩)]
        rfl
      rcases List.mem_cons.1 hv with heq | hv
      · cases heq
        exact Or.inl hstored
      · have hclosed : ((n.name.map fun x => row.set x (.node w)).getD row).Closed := by
          cases n.name <;> exact hrow
        rcases ih hs₁ hclosed hnodes hv with hdone | ⟨m, hm, y, hy, hbound⟩
        · exact Or.inl hdone
        · cases hname : n.name with
          | none =>
            rw [hname] at hbound
            exact Or.inr ⟨m, List.mem_cons_of_mem _ hm, y, hy, hbound⟩
          | some x =>
            rw [hname] at hbound
            have hbound : (row.set x (.node w)).lookup? y = some (.node v) := hbound
            rw [Row.lookup?_set row hrow] at hbound
            split at hbound
            · cases hbound
              exact Or.inl hstored
            · exact Or.inr ⟨m, List.mem_cons_of_mem _ hm, y, hy, hbound⟩
    · rcases List.mem_cons.1 hv with rfl | hv
      · obtain ⟨-, ho⟩ | ⟨v, rfl, ho⟩ := hcase
        · cases ho
        · cases ho
          exact Or.inr ⟨n, List.mem_cons_self, x, hx, hb⟩
      · refine (ih hs hrow hnodes hv).imp_right ?_
        rintro ⟨m, hm, hbound⟩
        exact ⟨m, List.mem_cons_of_mem _ hm, hbound⟩

/-! ## One part before the others -/

theorem within_nodes {n : NodePattern} (hn : n ∈ part.nodes) :
    n.Within part.names (namesRead part) where
  name _ hx := PatternPart.mem_names.2 (Or.inr (Or.inl ⟨n, hn, hx⟩))
  reads _ hp _ hx := List.mem_flatMap.2
    ⟨_, List.mem_append_left _ (List.mem_flatMap_of_mem hn hp), hx⟩

theorem covers_relationships {r : RelationshipPattern} (hr : r ∈ part.relationships)
    {Q : Row → Store → Prop} {names : List String} {vs : List Vertex}
    (hnames : ∀ x ∈ part.names ++ namesRead part, x ∈ names)
    (hvalues : ∀ p ∈ r.properties, ctx.Overlooks Q vs last p.2) :
    ctx.Covers Q names vs last r where
  name _ hx := hnames _ (List.mem_append_left _
    (PatternPart.mem_names.2 (Or.inr (Or.inr ⟨r, hr, hx⟩))))
  reads _ hp _ hx := hnames _ (List.mem_append_right _ (List.mem_flatMap.2
    ⟨_, List.mem_append_right _ (List.mem_flatMap_of_mem hr hp), hx⟩))
  overlooks := hvalues

/-- The names that some parts give, and then those that their properties read. -/
def concerns (parts : List PatternPart) : List String :=
  parts.flatMap (·.names) ++ parts.flatMap namesRead

theorem mem_concerns {x : String} :
    x ∈ concerns parts ↔ ∃ q ∈ parts, x ∈ q.names ++ namesRead q := by
  simp only [concerns, List.mem_append, List.mem_flatMap, and_or_left, exists_or]

/-- The names that the part introduces are of no concern to another part. -/
def Avoids (base : Row) (p q : PatternPart) : Prop :=
  ∀ x ∈ p.names, base.lookup? x = none → x ∉ q.names ++ namesRead q

theorem notMem_concerns (h : ∀ q ∈ rest, Avoids base part q)
    (hbs : ∀ b ∈ bs, b.1 ∈ part.names ∧ base.lookup? b.1 = none) :
    ∀ b ∈ bs, b.1 ∉ concerns rest := by
  intro b hb hmem
  obtain ⟨q, hq, hconcern⟩ := mem_concerns.1 hmem
  exact h q hq b.1 (hbs b hb).1 (hbs b hb).2 hconcern

/-- What it takes, besides, to create a part before the others have their vertices: its path gets a
new name, the ends that the row binds are stored if they are stored in the end, and while the part
is created the properties of its relationships do not depend on vertices that are added later. -/
structure Independent (ctx : RunContext) (σ last : Store) (base : Row) (part : PatternPart) :
    Prop where
  path : ∀ x, part.pathName = some x → base.lookup? x = none
  stored : part.relationships ≠ [] → ∀ n ∈ part.nodes, ∀ x v, n.name = some x →
    base.lookup? x = some (.node v) → (last.vertex? v.id).isSome = true →
      (σ.vertex? v.id).isSome = true
  steady : ∀ r ∈ part.relationships, ∀ p ∈ r.properties, ctx.Steady σ last base p.2

theorem create_single {os : List (Option Vertex)} {s₁ : RunState}
    (hnodes : ctx.createNodes row.child part.nodes s = (.ok (os, made), s₁))
    (hfinish : ctx.finishPart part os made s₁ = (.ok out, s')) :
    ctx.create [part] row s = (.ok out, s') := by
  unfold create startParts startParts
  rw [Run.bind_of_ok (a := ([os], made)) (t := s₁) ((Run.bind_of_ok hnodes).trans rfl)]
  dsimp only
  rw [List.zip_cons_cons, List.zip_nil_left, List.foldlM_cons, Run.bind_of_ok hfinish]
  rfl

/-- A creation gets the vertices of all parts before the edges of the first. -/
theorem create_cons_ok (h : ctx.create (part :: rest) row s = (.ok out, s')) :
    ∃ os others made₁ made₂ made₃ s₁ s₂ s₃,
      ctx.createNodes row.child part.nodes s = (.ok (os, made₁), s₁) ∧
      ctx.startParts made₁ rest s₁ = (.ok (others, made₂), s₂) ∧
      ctx.finishPart part os made₂ s₂ = (.ok made₃, s₃) ∧
      ctx.finishParts (rest.zip others) made₃ s₃ = (.ok out, s') := by
  unfold create at h
  obtain ⟨⟨oss, made₂⟩, s₂, hstart, h⟩ := Run.ok_of_bind h
  unfold startParts at hstart
  obtain ⟨⟨os, made₁⟩, s₁, hnodes, hstart⟩ := Run.ok_of_bind hstart
  obtain ⟨⟨others, made₂⟩, s₂, hothers, hstart⟩ := Run.ok_of_bind hstart
  cases hstart
  dsimp only at h
  rw [List.zip_cons_cons, List.foldlM_cons] at h
  obtain ⟨made₃, s₃, hedges, h⟩ := Run.ok_of_bind h
  exact ⟨os, others, made₁, made₂, made₃, s₁, s₂, s₃, hnodes, hothers, hedges, h⟩

/-- When the first part has its vertices, the part is under way. -/
theorem midway_of_creates {new read : List String} {c : Row → Run (List (Option Vertex) × Row)}
    {os : List (Option Vertex)} {vs : List Vertex} {d : String → Bool}
    (h : Creates new read c base s os bs vs d) (hbase : base.Closed) (hs : s.store.Consistent)
    (hs' : s'.store.Consistent) (hgrows : s.store.Grows s'.store) :
    Midway s.store base (base.sets bs) s'.store := by
  refine Midway.sets (τ := s.store) ⟨.refl hs, .refl _, ?_⟩ hbase hs hs' hgrows ?_
  · intro x v hx hv
    rw [hx] at hv
    cases hv
  · intro b hb
    obtain ⟨-, hfree, v, hv⟩ := h.fresh b hb
    rw [hv]
    exact ⟨hfree, trivial⟩

/-- A creation that succeeds creates the first part as if it were alone, and then the others as if
the first one were not there. -/
theorem create_cons (hs : s.store.Consistent)
    (hpart : Independent ctx s.store s'.store row.child part)
    (hrest : ∀ q ∈ rest, Avoids row.child part q ∧ Avoids row.child q part)
    (h : ctx.create (part :: rest) row s = (.ok out, s')) :
    ∃ o₁ t, ctx.create [part] row s = (.ok o₁, t) ∧
      ∃ o₂ t', ctx.create rest row (t.countRow "Create") = (.ok o₂, t') ∧ s'.Twin t' ∧
        ∀ x, out.lookup? x = (o₂.lookup? x).or (o₁.lookup? x) := by
  have hs' := ((adds_create (part :: rest) row).grows h hs).1
  obtain ⟨os, others, made₁, made₂, made₃, s₁, s₂, s₃, hnodes, hothers, hedges, hfinish⟩ :=
    create_cons_ok h
  -- the vertices of the part, and those of the others
  obtain ⟨hs₁, hgrows₁⟩ := (adds_createNodes part.nodes row.child).grows hnodes hs
  have hchild : row.child.Closed := rfl
  obtain ⟨bs₁, vs, d, hfirst⟩ :=
    createNodes_creates hs hchild (fun n hn => within_nodes hn) hnodes
  obtain ⟨-, rfl, -, -⟩ := hfirst.of_run rfl hs hnodes
  have hmade₁ : (row.child.sets bs₁).Closed := Row.closed_sets rfl bs₁
  have hwithin : ∀ q ∈ rest, ∀ n ∈ q.nodes,
      n.Within (rest.flatMap (·.names)) (rest.flatMap namesRead) := fun q hq n hn =>
    (within_nodes hn).mono (fun x hx => List.mem_flatMap_of_mem hq hx)
      fun x hx => List.mem_flatMap_of_mem hq hx
  obtain ⟨cs₁, ws, d', hsecond⟩ := startParts_creates hs₁ hmade₁ hwithin hothers
  obtain ⟨-, rfl, hs₂, hbeside₂⟩ := hsecond.of_run hmade₁ hs₁ hothers
  have hbs₁ : ∀ b ∈ bs₁, b.1 ∈ part.names ∧ row.child.lookup? b.1 = none := fun b hb =>
    ⟨(hfirst.fresh b hb).1, (hfirst.fresh b hb).2.1⟩
  have hcs₁ : ∀ c ∈ cs₁, c.1 ∉ part.names ++ namesRead part := by
    intro c hc
    obtain ⟨hname, hfree, -⟩ := hsecond.fresh c hc
    obtain ⟨q, hq, hname⟩ := List.mem_flatMap.1 hname
    rw [Row.lookup?_sets rfl, Option.or_eq_none_iff] at hfree
    exact (hrest q hq).2 c.1 hname hfree.2
  -- the edges of the part, without the vertices of the others
  obtain ⟨hs₃, hgrows₃⟩ := (adds_finishPart part os _).grows hedges hs₂
  have hlast := ((adds_finishParts _ _).grows hfinish hs₃).2
  have hshadows : Shadows (Midway s.store row.child)
      (fun v => part.relationships ≠ [] ∧ some v ∈ os) (part.names ++ namesRead part) ws d'
      ((row.child.sets bs₁).sets cs₁) s₂ (row.child.sets bs₁) s₁ := {
    consistent := hs₂
    consistent' := hs₁
    closed := Row.closed_sets hmade₁ cs₁
    closed' := hmade₁
    agree := Row.agreeOn_sets hmade₁ hcs₁
    beside := hbeside₂
    ends := fun v ⟨hne, hv⟩ hstored => by
      obtain hdone | ⟨n, hn, x, hx, hbound⟩ := createNodes_stored hs rfl hnodes hv
      · exact hdone
      · exact Store.isSome_vertex?_of_grows hs hs₁ hgrows₁ (hpart.stored hne n hn x v hx hbound
          (Store.isSome_vertex?_of_grows hs₂ hs' (hgrows₃.trans hlast) hstored))
    good := midway_of_creates hfirst rfl hs hs₁ hgrows₁ }
  obtain ⟨bs₂, t₁, rfl, hedges', hshadows', hsame, hbs₂⟩ := finishPart_again
    (keptByEdges_midway ctx s.store row.child)
    (fun r hr => covers_relationships hr (fun _ hx => hx) fun p hp =>
      (hpart.steady r hr p hp).overlooks ws)
    (fun hne o ho v hv => ⟨hne, by cases hv; exact ho⟩) hshadows hedges hlast
  have hbs₂ : ∀ b ∈ bs₂, b.1 ∈ part.names ∧ row.child.lookup? b.1 = none := by
    intro b hb
    obtain ⟨hname, hfree | hpath⟩ := hbs₂ b hb
    · rw [Row.lookup?_sets hmade₁, Row.lookup?_sets rfl, Option.or_eq_none_iff,
        Option.or_eq_none_iff] at hfree
      exact ⟨hname, hfree.2.2⟩
    · exact ⟨hname, hpart.path b.1 hpath⟩
  -- the vertices and the edges of the others, where the part is there and its names are not
  have hagree₁ := Row.agreeOn_sets hchild
    (notMem_concerns (fun q hq => (hrest q hq).1) hbs₁)
  have hagree₂ := Row.agreeOn_sets (Row.closed_sets hmade₁ cs₁)
    (notMem_concerns (fun q hq => (hrest q hq).1) hbs₂)
  obtain ⟨u, hothers', hu, hbeside⟩ := hsecond.again row.child (t₁.countRow "Create") rfl
    hshadows'.consistent' ⟨hsame.vertex, hsame.vertexIds⟩ hagree₁
  have htwin : s₃.Twin u := hshadows'.beside.twin
    ⟨hbeside.bare, hbeside.defined, hbeside.vertexIds, hbeside.edgeIds⟩
  have halike : Shadows (fun _ _ => True) (fun _ => True) (concerns rest) [] (fun _ => false)
      (((row.child.sets bs₁).sets cs₁).sets bs₂) s₃ (row.child.sets cs₁) u := {
    consistent := hs₃
    consistent' := hu
    closed := hshadows'.closed
    closed' := Row.closed_sets rfl cs₁
    agree := fun x hx => (hagree₁.sets hmade₁ rfl cs₁ x hx).trans (hagree₂ x hx)
    beside := htwin
    ends := fun v _ hv => htwin.vertex v.id ▸ hv
    good := trivial }
  obtain ⟨cs₂, u', rfl, hfinish', htwin', -⟩ := finishParts_again
    (fun p hp r hr last => covers_relationships hr
      (fun x hx => mem_concerns.2 ⟨p.1, (List.of_mem_zip hp).1, hx⟩)
      fun _ _ => overlooks_nil ctx _ last _) halike hfinish
  refine ⟨_, t₁, create_single hnodes hedges', _, u', (Run.bind_of_ok hothers').trans hfinish',
    htwin', Row.lookup?_sets_turns rfl (fun b hb => (hbs₁ b hb).2) (fun b hb => (hbs₂ b hb).2) ?_⟩
  rintro b hb c hc heq
  exact hcs₁ c hc (heq ▸ List.mem_append_left _ (hbs₂ b hb).1)

/-! ## All parts -/

theorem Independent.mono {σ' last' : Store} (h : Independent ctx σ last base part)
    (hσ : σ.Consistent) (hσ' : σ'.Consistent) (hgrows : σ.Grows σ') (hl : last.Consistent)
    (hl' : last'.Consistent) (hlast : last'.Grows last) : Independent ctx σ' last' base part where
  path := h.path
  stored hedges n hn x v hx hv hstored := Store.isSome_vertex?_of_grows hσ hσ' hgrows
    (h.stored hedges n hn x v hx hv (Store.isSome_vertex?_of_grows hl' hl hlast hstored))
  steady r hr p hp := (h.steady r hr p hp).mono hgrows hlast

/-- Creates parts from the same row, and joins the rows with one that is there. -/
def joinParts (ctx : RunContext) (row : Row) (parts : List PatternPart) (joined : Row) : Run Row :=
  parts.foldlM (fun joined part => do
    let out ← ctx.create [part] row
    Run.update (·.countRow "Create")
    return joined.absorb out) joined

theorem joinParts_cons {o : Row} (h : ctx.create [part] row s = (.ok o, t)) (joined : Row) :
    ctx.joinParts row (part :: rest) joined s =
      ctx.joinParts row rest (joined.absorb o) (t.countRow "Create") := by
  unfold joinParts
  rw [List.foldlM_cons, Run.bind_of_ok ((Run.bind_of_ok h).trans rfl)]

/-- The row of a creation binds what the row binds, and leaves no temporary scope open. -/
theorem binds_of_create (h : ctx.create parts row s = (.ok out, s')) :
    out.Closed ∧ ∀ x, row.child.has x = true → out.has x = true := by
  have hclosed : ({ row with scopes := [] } : Row).Closed := rfl
  have hrow := Row.exactly_names hclosed
  have hout := (exactly_create parts hrow s trivial out s' h).2
  exact ⟨hout.closed, fun x hx => (hout.has_iff x).2
    (List.mem_append_left _ ((hrow.child.has_iff x).1 hx))⟩

/-- What the creation of all parts comes to, the parts come to one after the other. -/
theorem joinParts_of_create (hs : s.store.Consistent)
    (havoid : (part :: rest).Pairwise fun p q => Avoids row.child p q ∧ Avoids row.child q p)
    (hparts : ∀ p ∈ (part :: rest).dropLast, Independent ctx s.store s'.store row.child p)
    (h : ctx.create (part :: rest) row s = (.ok out, s')) {joined : Row} (hjoined : joined.Closed) :
    ∃ all t, ctx.joinParts row (part :: rest) joined s = (.ok all, t) ∧ s'.Twin t ∧
      ∀ x, all.lookup? x = (out.lookup? x).or (joined.lookup? x) := by
  induction rest generalizing part s out joined s' with
  | nil =>
    refine ⟨joined.absorb out, s'.countRow "Create", joinParts_cons h joined,
      (RunState.Twin.refl s').countRow "Create", ?_⟩
    exact Row.lookup?_absorb hjoined (binds_of_create h).1
  | cons q rest ih =>
    obtain ⟨hfirst, hothers⟩ := List.pairwise_cons.1 havoid
    rw [List.dropLast_cons_cons, List.forall_mem_cons] at hparts
    obtain ⟨hpart, hparts⟩ := hparts
    obtain ⟨o₁, t₁, hcreate, o₂, t₂, hmore, htwin, hlookup⟩ := create_cons hs hpart hfirst h
    obtain ⟨ht₁, hgrows⟩ := (adds_create [part] row).grows hcreate hs
    have hs' := ((adds_create (part :: q :: rest) row).grows h hs).1
    have ht₂ := ((adds_create (q :: rest) row).grows hmore (s := t₁.countRow "Create") ht₁).1
    obtain ⟨all, t, hall, htwin', hlookup'⟩ := ih (s := t₁.countRow "Create") ht₁ hothers
      (fun p hp => (hparts p hp).mono hs ht₁ hgrows hs' ht₂ (htwin.grows ht₂)) hmore
      (Row.closed_absorb hjoined : (joined.absorb o₁).Closed)
    refine ⟨all, t, (joinParts_cons hcreate joined).trans hall, htwin.trans htwin', fun x => ?_⟩
    rw [hlookup', hlookup, Row.lookup?_absorb hjoined (binds_of_create hcreate).1, Option.or_assoc]

end RunContext

namespace Plan

open RunContext

variable {ctx : RunContext} {row out : Row} {s s' : RunState} {scope scope' : Scope}
  {parts : List PatternPart}

/-- Of lists that are apart, none contains a name that another one of them contains or that is read
beside it. -/
theorem areApart_pairwise {lists : List (List String × List String)} (h : areApart lists = true) :
    lists.Pairwise fun p q => (∀ x ∈ p.1, x ∉ q.1 ++ q.2) ∧ ∀ x ∈ q.1, x ∉ p.1 ++ p.2 := by
  have hindexed : ∀ i j (hi : i < lists.length) (hj : j < lists.length), i ≠ j →
      ∀ x ∈ lists[j].1, x ∉ lists[i].1 ++ lists[i].2 := by
    intro i j hi hj hij x hx hmem
    have hat : ∀ k (hk : k < lists.length), (lists[k], k) ∈ lists.zipIdx := fun k hk =>
      List.mem_zipIdx_iff_getElem?.2 (List.getElem?_eq_getElem hk)
    have hall := List.all_eq_true.1 (List.all_eq_true.1 h _ (hat i hi)) _ (hat j hj)
    dsimp only at hall
    rw [beq_false_of_ne hij, Bool.false_or, List.all_eq_true] at hall
    have hnot := hall x hmem
    rw [List.contains_iff_mem.2 hx] at hnot
    cases hnot
  rw [List.pairwise_iff_getElem]
  intro i j hi hj hij
  exact ⟨hindexed j i hj hi hij.ne', hindexed i j hi hj hij.ne⟩

/-- Parts that are planned to be created apart do not concern each other, in a row that binds what
is in scope. -/
theorem avoids_of_planCreate {base : Row}
    (hplan : planCreate scope parts = .ok (.createApart parts, scope'))
    (hscope : ∀ x, scope.has x = true → base.has x = true) :
    parts ≠ [] ∧ parts.Pairwise fun p q => Avoids base p q ∧ Avoids base q p := by
  obtain ⟨_, -, hplan⟩ := ok_of_bind hplan
  obtain ⟨_, -, hplan⟩ := ok_of_bind hplan
  have hapart : (decide (parts.length > 1) && areApart
      ((parts.map fun p => p.names.filter (!scope.has ·)).zip (parts.map namesRead))) = true := by
    by_contra hnot
    rw [if_neg hnot] at hplan
    cases hplan
  rw [Bool.and_eq_true, decide_eq_true_eq] at hapart
  refine ⟨List.ne_nil_of_length_pos (by omega), ?_⟩
  have hpairs := areApart_pairwise hapart.2
  rw [List.zip_map', List.pairwise_map] at hpairs
  have havoid : ∀ p q : PatternPart, (∀ x ∈ p.names.filter (!scope.has ·),
      x ∉ q.names.filter (!scope.has ·) ++ namesRead q) → Avoids base p q := by
    intro p q h x hx hfree hmem
    have hnew : (!scope.has x) = true := by
      rw [Bool.not_eq_true', ← Bool.not_eq_true]
      intro hknown
      have hbound := hscope x hknown
      unfold Row.has at hbound
      rw [hfree] at hbound
      cases hbound
    refine h x (List.mem_filter.2 ⟨hx, hnew⟩) (List.mem_append.2 ?_)
    exact (List.mem_append.1 hmem).imp_left fun hq => List.mem_filter.2 ⟨hq, hnew⟩
  exact hpairs.imp fun {p q} h => ⟨havoid p q h.1, havoid q p h.2⟩

/-- Parts that are planned to be created apart come to what they come to together, if each but the
last one can be created before the others have their vertices: to a success, to the same elements in
the same slots, to the same defined names, and to a row that binds every name to the same value. -/
theorem createApart_of_create (hplan : planCreate scope parts = .ok (.createApart parts, scope'))
    (hs : s.store.Consistent) (hscope : ∀ x, scope.has x = true → row.child.has x = true)
    (hparts : ∀ part ∈ parts.dropLast, Independent ctx s.store s'.store row.child part)
    (h : ctx.create parts row s = (.ok out, s')) :
    ∃ joined t, ctx.createApart parts row s = (.ok joined, t) ∧ t.store.bare = s'.store.bare ∧
      (∀ name, t.store.isDefined name = s'.store.isDefined name) ∧
      t.vertexIds = s'.vertexIds ∧ t.edgeIds = s'.edgeIds ∧
        ∀ x, joined.lookup? x = out.lookup? x := by
  obtain ⟨hne, havoid⟩ := avoids_of_planCreate hplan hscope
  obtain ⟨part, rest, rfl⟩ := List.exists_cons_of_ne_nil hne
  have hchild : row.child.Closed := rfl
  obtain ⟨joined, t, hrun, htwin, hlookup⟩ := joinParts_of_create hs havoid hparts h hchild
  refine ⟨joined, t, hrun, htwin.bare.symm, fun name => ?_, htwin.vertexIds.symm,
    htwin.edgeIds.symm, fun x => ?_⟩
  · rw [htwin.defined, Bool.or_false]
  · rw [hlookup]
    -- the row of the creation binds what the row binds
    cases hx : row.child.lookup? x with
    | none => exact Option.or_none
    | some v =>
      obtain ⟨w, hw⟩ := Option.isSome_iff_exists.1
        ((binds_of_create h).2 x (Row.has_of_lookup? hx))
      rw [hw]
      rfl

/-- A path to the vertex that the row binds, and an edge elsewhere. -/
def pathAndEdge : List PatternPart :=
  [⟨some "p", ⟨some "a", ["A"], [("k", .literal (.int 1))]⟩,
      [(⟨some "r", ["R"], .outgoing, [("w", .literal (.int 2))], none⟩, ⟨some "b", [], []⟩)]⟩,
    ⟨none, ⟨some "c", [], []⟩, [(⟨none, ["S"], .incoming, [], none⟩,
      ⟨some "d", [], [("k", .literal (.int 3))]⟩)]⟩]

/-- The row that binds the one vertex there is. -/
def endRow : Row := Row.empty.set "b" (.node ⟨"x", [], [], ""⟩)

theorem independent_pathAndEdge (last : Store) : ∀ part ∈ pathAndEdge.dropLast,
    Independent Search.plainContext Search.lonely.store last endRow.child part := by
  intro part hpart
  obtain rfl := List.mem_singleton.1 hpart
  refine ⟨?_, ?_, ?_⟩
  · intro x hx
    obtain rfl := Option.some.inj hx
    rfl
  · intro _ n hn x v hx hv _
    have hnodes : n ∈ [⟨some "a", ["A"], [("k", .literal (.int 1))]⟩, ⟨some "b", [], []⟩] := hn
    simp only [List.mem_cons, List.not_mem_nil, or_false] at hnodes
    rcases hnodes with rfl | rfl
    · obtain rfl := Option.some.inj hx
      cases hv
    · obtain rfl := Option.some.inj hx
      cases hv
      rfl
  · intro r hr p hp
    obtain rfl := List.mem_singleton.1 hr
    obtain rfl := List.mem_singleton.1 hp
    have hcalls : Expr.NoneLooksUp (Expr.literal (.int 2)).calls := nofun
    exact steady_of_calls hcalls _ _ _ _

theorem createApart_of_create_path :
    planCreate ⟨["b"]⟩ pathAndEdge = .ok (.createApart pathAndEdge,
      ⟨["b", "p", "a", "r", "c", "d"]⟩) ∧
    ∃ out s' joined t,
      Search.plainContext.create pathAndEdge endRow Search.lonely = (.ok out, s') ∧
      Search.plainContext.createApart pathAndEdge endRow Search.lonely = (.ok joined, t) ∧
      t.store.bare = s'.store.bare ∧
      (∀ name, t.store.isDefined name = s'.store.isDefined name) ∧
      t.vertexIds = s'.vertexIds ∧ t.edgeIds = s'.edgeIds ∧
        ∀ x, joined.lookup? x = out.lookup? x := by
  have hplan : planCreate ⟨["b"]⟩ pathAndEdge = .ok (.createApart pathAndEdge,
      ⟨["b", "p", "a", "r", "c", "d"]⟩) := by rfl
  have hok : (Search.plainContext.create pathAndEdge endRow Search.lonely).1.toOption.isSome =
      true := by decide +kernel
  refine ⟨hplan, ?_⟩
  rcases hrun : Search.plainContext.create pathAndEdge endRow Search.lonely with ⟨_ | out, s'⟩
  · rw [hrun] at hok
    cases hok
  · obtain ⟨joined, t, h⟩ := createApart_of_create hplan Search.consistent_lonely
      (fun x hx => by
        obtain rfl := List.mem_singleton.1 (List.contains_iff_mem.1 hx)
        rfl) (independent_pathAndEdge s'.store) hrun
    exact ⟨out, s', joined, t, rfl, h⟩

/-- A path under a name that is in scope already, and a vertex. -/
def pathAndVertex : List PatternPart :=
  [⟨some "p", ⟨some "a", [], []⟩, []⟩, ⟨none, ⟨some "b", [], []⟩, []⟩]

/-- The row of the second part still binds the name to what the path has replaced, and hides the
path. -/
theorem path_hidden : ¬ ∀ (scope scope' : Scope) (parts : List PatternPart) (ctx : RunContext)
    (row out : Row) (s s' : RunState),
    planCreate scope parts = .ok (.createApart parts, scope') → s.store.Consistent →
    (∀ x, scope.has x = true → row.child.has x = true) →
    ctx.create parts row s = (.ok out, s') →
    ∃ joined t, ctx.createApart parts row s = (.ok joined, t) ∧
      ∀ x, joined.lookup? x = out.lookup? x := by
  intro h
  let row := Row.empty.set "p" (.int 7)
  have htogether : (Search.plainContext.create pathAndVertex row RunState.initial).1.toOption.map
      (fun out => (out.lookup? "p").map Value.typeName) = some (some "PATH") := by decide +kernel
  have hapart : (Search.plainContext.createApart pathAndVertex row RunState.initial).1.toOption.map
      (fun out => (out.lookup? "p").map Value.typeName) = some (some "INTEGER") := by
    decide +kernel
  rcases hrun : Search.plainContext.create pathAndVertex row RunState.initial with ⟨_ | out, s'⟩
  · rw [hrun] at htogether
    cases htogether
  · obtain ⟨joined, t, hjoined, hlookup⟩ := h ⟨["p"]⟩ _ pathAndVertex Search.plainContext row out
      RunState.initial s' (by rfl) Store.consistent_empty (fun x hx => by
        obtain rfl := List.mem_singleton.1 (List.contains_iff_mem.1 hx)
        rfl) hrun
    rw [hrun] at htogether
    rw [hjoined] at hapart
    have hsame := (Option.some.inj hapart).symm.trans
      ((congrArg (Option.map Value.typeName) (hlookup "p")).trans (Option.some.inj htogether))
    exact absurd hsame (by decide)

end Plan

end PropertyGraph
