import PropertyGraph.Proofs.Run.Beside

/-!
# Edges with and without other vertices

Edges that are created where some more vertices are stored are created in the same way without
them, and leave the same vertices between the two states, if their ends are stored anyway and no
value that they are made from depends on the vertices.

    Shadows                  a row and a state with more vertices, and others without them
    createEdge_again         an edge, from the one to the other
    finishPart_again         the edges and the path of a part
    finishParts_again        those of several parts, where there are no more vertices
-/

namespace PropertyGraph

namespace RunContext

variable {ctx : RunContext} {row made row' : Row} {s s' s₁ t t₁ : RunState} {σ τ : Store}
  {r : RelationshipPattern} {v w : Vertex} {e : Edge} {i j : Nat} {stored : List StoredProperty}

/-! ## One edge -/

theorem ends_newEdge {type id : String} {number : Nat}
    (h : id = (ctx.newEdge r type v w stored number).source ∨
      id = (ctx.newEdge r type v w stored number).target) : id = v.id ∨ id = w.id := by
  unfold newEdge at h
  by_cases hheading : r.heading = .incoming
  · rw [if_pos hheading] at h
    exact h.symm
  · rw [if_neg hheading] at h
    exact h

/-- Where it fits, the edge described is created. -/
theorem createEdge_of_fits {type : String} {types : List String} (hs : s₁.store.Consistent)
    (htypes : r.types = type :: types) (hfree : r.name.bind row.lookup? = none)
    (hstored : ctx.storedProperties row r.properties s = (.ok stored, s₁))
    (he : e = ctx.newEdge r type v w stored (s₁.edgeIds + 1)) (hfits : Fits e i j s₁.store) :
    ∃ s', ctx.createEdge r (some v) (some w) row s =
        (.ok (e, row.sets (r.name.map (·, .relationship e)).toList), s') ∧
      Puts e i j s₁ s' := by
  have hfresh : r.name.filter row.has = none := by
    cases hx : r.name with
    | none => rfl
    | some x =>
      rw [hx] at hfree
      unfold Row.has
      rw [Option.filter_eq_none_iff]
      rintro y ⟨⟩
      rw [show row.lookup? x = none from hfree]
      exact Bool.false_ne_true
  have hwrite := write_addEdge_of_fits (s := { s₁ with edgeIds := s₁.edgeIds + 1 }) hs hfits
  have hid : Run.nextEdgeId s₁ =
      (.ok ("e" ++ toString (s₁.edgeIds + 1)), { s₁ with edgeIds := s₁.edgeIds + 1 }) := rfl
  subst he
  unfold createEdge
  rw [hfresh, htypes]
  dsimp only
  cases r.name <;>
    exact ⟨_, (Run.bind_of_ok hstored).trans ((Run.bind_of_ok hid).trans
      ((Run.bind_of_ok hwrite).trans rfl)), rfl, rfl, rfl⟩

/-! ## The same edge beside other vertices -/

/-- What holds of a row and a store holds of them after the creation of an edge. -/
def KeptByEdges (ctx : RunContext) (Q : Row → Store → Prop) : Prop :=
  ∀ r left right row e made (s s' : RunState), s.store.Consistent → row.Closed → Q row s.store →
    ctx.createEdge r left right row s = (.ok (e, made), s') → Q made s'.store

/-- The value of an expression does not depend on whether some vertices are there, in stores that
hold no more than a last one. -/
def Overlooks (ctx : RunContext) (Q : Row → Store → Prop) (vs : List Vertex) (last : Store)
    (e : Expr) : Prop :=
  ∀ row σ τ, τ.Consistent → σ.Consistent → Q row τ → τ.Grows σ → σ.Grows last →
    σ.bare = vs.foldl Store.putVertex τ.bare → e.value (ctx.env σ) row = e.value (ctx.env τ) row

/-- A row and a state with some more vertices, and a row and a state without them: the rows agree on
some names, and the vertices that `P` holds of are stored in both states or in neither. -/
structure Shadows (Q : Row → Store → Prop) (P : Vertex → Prop) (names : List String)
    (vs : List Vertex) (d : String → Bool) (row : Row) (s : RunState) (row' : Row) (t : RunState) :
    Prop where
  consistent : s.store.Consistent
  consistent' : t.store.Consistent
  closed : row.Closed
  closed' : row'.Closed
  agree : row.AgreeOn names row'
  beside : s.Beside vs d t
  ends : ∀ v, P v → (s.store.vertex? v.id).isSome = true → (t.store.vertex? v.id).isSome = true
  good : Q row' t.store

variable {Q : Row → Store → Prop} {P : Vertex → Prop} {names : List String} {vs : List Vertex}
  {d : String → Bool} {last : Store}

theorem Puts.sameVertices (h : Puts e i j s s') : s.SameVertices s' where
  vertex id := by rw [h.store, Store.vertex?_putEdge, Store.vertex?_defineAll]
  vertexIds := h.vertexIds.symm

/-- An edge that fits beside some vertices fits without them, between the same slots. -/
theorem Fits.beside (h : Fits e i j s.store) (hs : s.store.Consistent) (ht : t.store.Consistent)
    (hst : s.Beside vs d t)
    (hends : ∀ id, id = e.source ∨ id = e.target → (s.store.vertex? id).isSome = true →
      (t.store.vertex? id).isSome = true) : Fits e i j t.store := by
  have hslot : ∀ id k, id = e.source ∨ id = e.target → s.store.vertexSlot? id = some k →
      t.store.vertexSlot? id = some k := by
    intro id k hid hk
    have hstored := hends id hid (by rw [← Store.isSome_vertexSlot? hs, hk]; rfl)
    rw [← Store.vertexSlot?_of_grows ht hs (hst.grows ht) hstored, hk]
  refine ⟨?_, hslot _ i (Or.inl rfl) h.source, hslot _ j (Or.inr rfl) h.target⟩
  have hslots := (Store.edges_of_bare hst.bare).2
  have hfree := h.free
  unfold Store.edgeSlot? at hfree ⊢
  rw [← hslots, hfree]

/-- It is put between the same slots, and the same vertices are left between the two states. -/
theorem Puts.beside (h : Puts e i j s s') (h' : Puts e i j t t₁) (ht : t.store.Consistent)
    (hfits : Fits e i j t.store) (hst : s.Beside vs d t) : s'.Beside vs d t₁ where
  bare := by
    have hat : ∀ {id k}, t.store.vertexSlot? id = some k → t.store.bare.hasVertexAt k = true := by
      intro id k hk
      obtain ⟨v, hv, -⟩ := (ht.vertexSlots.2 _ _).1 hk
      obtain ⟨c, hc, -⟩ := Store.vertexAt?_eq_some.1 hv
      exact Option.isSome_iff_exists.2 ⟨c, hc⟩
    rw [h.store, h'.store, Store.bare_putEdge, Store.bare_putEdge, Store.bare_defineAll,
      Store.bare_defineAll, hst.bare]
    exact Store.foldl_putVertex_putEdge vs (s := t.store.bare) (c := ⟨e, i, j⟩) ht.vertices
      (hat hfits.source) (hat hfits.target)
  defined x := by
    rw [h.store, h'.store]
    show (s.store.defineAll e.properties).isDefined x =
      ((t.store.defineAll e.properties).isDefined x || d x)
    rw [Store.isDefined_defineAll, Store.isDefined_defineAll, hst.defined, Bool.or_right_comm]
  vertexIds := by rw [h.vertexIds, h'.vertexIds, hst.vertexIds]
  edgeIds := by rw [h.edgeIds, h'.edgeIds, hst.edgeIds]

/-- The name of the pattern and what its properties read are among some names, and its properties
do not depend on some vertices. -/
structure Covers (ctx : RunContext) (Q : Row → Store → Prop) (names : List String)
    (vs : List Vertex) (last : Store) (r : RelationshipPattern) : Prop where
  name : ∀ x, r.name = some x → x ∈ names
  reads : ∀ p ∈ r.properties, ∀ x ∈ p.2.freeNames, x ∈ names
  overlooks : ∀ p ∈ r.properties, ctx.Overlooks Q vs last p.2

theorem Shadows.value (h : Shadows Q P names vs d row s row' t)
    (hr : ctx.Covers Q names vs last r) (hlast : s.store.Grows last) :
    ∀ p ∈ r.properties, p.2.value (ctx.env t.store) row' = p.2.value (ctx.env s.store) row := by
  intro p hp
  rw [← hr.overlooks p hp row' s.store t.store h.consistent' h.consistent h.good
    (h.beside.grows h.consistent') hlast h.beside.bare]
  exact h.agree.value (hr.reads p hp) _

/-- An edge that is created beside some vertices is created without them. -/
theorem createEdge_again (h : Shadows Q P names vs d row s row' t) (hkept : ctx.KeptByEdges Q)
    (hr : ctx.Covers Q names vs last r) {left right : Option Vertex} (hleft : ∀ v ∈ left, P v)
    (hright : ∀ v ∈ right, P v) (hrun : ctx.createEdge r left right row s = (.ok (e, made), s'))
    (hlast : s'.store.Grows last) :
    ∃ bs t', made = row.sets bs ∧
      ctx.createEdge r left right row' t = (.ok (e, row'.sets bs), t') ∧
      Shadows Q P names vs d made s' (row'.sets bs) t' ∧ t.SameVertices t' ∧
        ∀ b ∈ bs, r.name = some b.1 ∧ row.lookup? b.1 = none := by
  obtain ⟨v, w, type, types, stored, s₁, i, j, rfl, rfl, htypes, hfree, hstored, he, hfits, hputs,
    hmade⟩ := createEdge_ok h.consistent hrun
  rw [Row.getD_set] at hmade
  subst hmade
  obtain ⟨rfl, hagain⟩ := storedProperties_again hstored
  obtain ⟨hs', hgrows⟩ := (adds_createEdge r _ _ row).grows hrun h.consistent
  have hs₁ := h.consistent.defineAll stored
  have ht₁ := h.consistent'.defineAll stored
  have hbeside₁ := h.beside.defineAll stored
  have hends : ∀ id, id = e.source ∨ id = e.target →
      ((s.store.defineAll stored).vertex? id).isSome = true →
        ((t.store.defineAll stored).vertex? id).isSome = true := by
    intro id hid hstored
    rw [Store.vertex?_defineAll] at hstored ⊢
    rw [he] at hid
    rcases ends_newEdge hid with rfl | rfl
    · exact h.ends v (hleft v rfl) hstored
    · exact h.ends w (hright w rfl) hstored
  have hfits' := hfits.beside hs₁ ht₁ hbeside₁ hends
  have hfree' : r.name.bind row'.lookup? = none := by
    cases hx : r.name with
    | none => rfl
    | some x =>
      rw [hx] at hfree
      exact (h.agree x (hr.name x hx)).trans hfree
  obtain ⟨t', hrun', hputs'⟩ := createEdge_of_fits ht₁ htypes hfree'
    (hagain row' t (h.value hr (hgrows.trans hlast))) (h.beside.edgeIds ▸ he) hfits'
  have hs : s.SameVertices s' := (RunState.sameVertices_defineAll s stored).trans hputs.sameVertices
  have ht : t.SameVertices t' :=
    (RunState.sameVertices_defineAll t stored).trans hputs'.sameVertices
  refine ⟨_, t', rfl, hrun', ?_, ht, ?_⟩
  · exact {
      consistent := hs'
      consistent' := ((adds_createEdge r _ _ row').grows hrun' h.consistent').1
      closed := Row.closed_sets h.closed _
      closed' := Row.closed_sets h.closed' _
      agree := h.agree.sets h.closed h.closed' _
      beside := hputs.beside hputs' ht₁ hfits' hbeside₁
      ends := fun v hv => by
        rw [← hs.vertex, ← ht.vertex]
        exact h.ends v hv
      good := hkept r _ _ row' e _ t t' h.consistent' h.closed' h.good hrun' }
  · intro b hb
    obtain ⟨x, hx, rfl⟩ := Option.map_eq_some_iff.1 (Option.mem_toList.1 hb)
    rw [hx] at hfree
    exact ⟨hx, hfree⟩

/-- So are the edges along a walk. -/
theorem createEdges_again (hkept : ctx.KeptByEdges Q) {rs : List RelationshipPattern}
    (hrs : ∀ r ∈ rs, ctx.Covers Q names vs last r) {os : List (Option Vertex)}
    (hos : rs ≠ [] → ∀ o ∈ os, ∀ v ∈ o, P v) (h : Shadows Q P names vs d row s row' t)
    {es : List Edge} (hrun : ctx.createEdges row rs os s = (.ok (es, made), s'))
    (hlast : s'.store.Grows last) :
    ∃ bs t', made = row.sets bs ∧
      ctx.createEdges row' rs os t = (.ok (es, row'.sets bs), t') ∧
      Shadows Q P names vs d made s' (row'.sets bs) t' ∧ t.SameVertices t' ∧
        ∀ b ∈ bs, (∃ r ∈ rs, r.name = some b.1) ∧ row.lookup? b.1 = none := by
  induction rs generalizing os row s row' t es with
  | nil =>
    cases hrun
    exact ⟨[], t, rfl, rfl, h, .refl t, nofun⟩
  | cons r rest ih =>
    match os with
    | [] =>
      cases hrun
      exact ⟨[], t, rfl, rfl, h, .refl t, nofun⟩
    | [o] =>
      cases hrun
      exact ⟨[], t, rfl, rfl, h, .refl t, nofun⟩
    | left :: right :: others =>
      obtain ⟨hr, hrest⟩ := List.forall_mem_cons.1 hrs
      obtain ⟨hleft, hothers⟩ := List.forall_mem_cons.1 (hos (List.cons_ne_nil r rest))
      unfold createEdges at hrun
      obtain ⟨⟨e, row₁⟩, s₁, hedge, hrun⟩ := Run.ok_of_bind hrun
      obtain ⟨⟨more, row₂⟩, s₂, hmore, hrun⟩ := Run.ok_of_bind hrun
      cases hrun
      have hs₁ := ((adds_createEdge r left right row).grows hedge h.consistent).1
      have hgrows := ((adds_createEdges rest (right :: others) row₁).grows hmore hs₁).2
      obtain ⟨bs, t₁, rfl, hedge', h₁, ht₁, hbs⟩ := createEdge_again h hkept hr hleft
        (hothers right List.mem_cons_self) hedge (hgrows.trans hlast)
      obtain ⟨cs, t₂, rfl, hmore', h₂, ht₂, hcs⟩ := ih hrest (fun _ => hothers) h₁ hmore
      refine ⟨bs ++ cs, t₂, (Row.sets_append row bs cs).symm, ?_, ?_, ht₁.trans ht₂, fun b hb => ?_⟩
      · unfold createEdges
        rw [Run.bind_of_ok hedge']
        dsimp only
        rw [Run.bind_of_ok hmore', Row.sets_append]
        rfl
      · rw [Row.sets_append]
        exact h₂
      · rcases List.mem_append.1 hb with hb | hb
        · obtain ⟨hname, hfree⟩ := hbs b hb
          exact ⟨⟨r, List.mem_cons_self, hname⟩, hfree⟩
        · obtain ⟨⟨r', hr', hname⟩, hfree⟩ := hcs b hb
          rw [Row.lookup?_sets h.closed, Option.or_eq_none_iff] at hfree
          exact ⟨⟨r', List.mem_cons_of_mem _ hr', hname⟩, hfree.2⟩

/-! ## A part -/

/-- What the path of a part is bound to, unless the elements are not connected. -/
def pathBinding? (part : PatternPart) (os : List (Option Vertex)) (es : List Edge) :
    Option (List (String × Value)) :=
  match part.pathName with
  | none => some []
  | some x => (Path.ofParts? (os.filterMap id) es).map fun p => [(x, .path p)]

theorem finishPart_ok {part : PatternPart} {os : List (Option Vertex)} :
    ctx.finishPart part os row s = (.ok made, s') ↔ ∃ es next bs,
      ctx.createEdges row part.relationships os s = (.ok (es, next), s') ∧
        pathBinding? part os es = some bs ∧ made = next.sets bs := by
  unfold finishPart pathBinding?
  constructor
  · intro h
    obtain ⟨⟨es, next⟩, s₁, hedges, h⟩ := Run.ok_of_bind h
    dsimp only at h
    cases hpath : part.pathName with
    | none =>
      rw [hpath] at h
      cases h
      exact ⟨es, made, [], hedges, rfl, rfl⟩
    | some x =>
      rw [hpath] at h
      dsimp only at h
      cases hp : Path.ofParts? (os.filterMap id) es with
      | none => rw [hp] at h; cases h
      | some p =>
        rw [hp] at h
        cases h
        exact ⟨es, next, [(x, .path p)], hedges, by rw [hp]; rfl, rfl⟩
  · rintro ⟨es, next, bs, hedges, hbs, rfl⟩
    rw [Run.bind_of_ok hedges]
    dsimp only
    cases hpath : part.pathName with
    | none =>
      rw [hpath] at hbs
      cases hbs
      rfl
    | some x =>
      rw [hpath] at hbs
      obtain ⟨p, hp, rfl⟩ := Option.map_eq_some_iff.1 hbs
      dsimp only
      rw [hp]
      rfl

theorem name_of_pathBinding? {part : PatternPart} {os : List (Option Vertex)} {es : List Edge}
    {bs : List (String × Value)} (h : pathBinding? part os es = some bs) :
    ∀ b ∈ bs, part.pathName = some b.1 := by
  unfold pathBinding? at h
  split at h
  · cases h
    nofun
  · next x hx =>
    obtain ⟨p, -, rfl⟩ := Option.map_eq_some_iff.1 h
    intro b hb
    rw [hx, List.mem_singleton.1 hb]

/-- A part that is finished beside some vertices is finished without them. -/
theorem finishPart_again (hkept : ctx.KeptByEdges Q) {part : PatternPart}
    (hpart : ∀ r ∈ part.relationships, ctx.Covers Q names vs last r) {os : List (Option Vertex)}
    (hos : part.relationships ≠ [] → ∀ o ∈ os, ∀ v ∈ o, P v)
    (h : Shadows Q P names vs d row s row' t)
    (hrun : ctx.finishPart part os row s = (.ok made, s')) (hlast : s'.store.Grows last) :
    ∃ bs t', made = row.sets bs ∧ ctx.finishPart part os row' t = (.ok (row'.sets bs), t') ∧
      Shadows (fun _ _ => True) P names vs d made s' (row'.sets bs) t' ∧ t.SameVertices t' ∧
        ∀ b ∈ bs, b.1 ∈ part.names ∧ (row.lookup? b.1 = none ∨ part.pathName = some b.1) := by
  obtain ⟨es, next, cs, hedges, hpath, rfl⟩ := finishPart_ok.1 hrun
  obtain ⟨bs, t₁, rfl, hedges', h₁, ht₁, hbs⟩ := createEdges_again hkept hpart hos h hedges hlast
  refine ⟨bs ++ cs, t₁, (Row.sets_append row bs cs).symm, ?_, ?_, ht₁, fun b hb => ?_⟩
  · rw [Row.sets_append]
    exact finishPart_ok.2 ⟨es, _, cs, hedges', hpath, rfl⟩
  · rw [Row.sets_append]
    exact { h₁ with
      closed := Row.closed_sets h₁.closed cs
      closed' := Row.closed_sets h₁.closed' cs
      agree := h₁.agree.sets h₁.closed h₁.closed' cs
      good := trivial }
  · rcases List.mem_append.1 hb with hb | hb
    · obtain ⟨hname, hfree⟩ := hbs b hb
      exact ⟨PatternPart.mem_names.2 (Or.inr (Or.inr hname)), Or.inl hfree⟩
    · have hname := name_of_pathBinding? hpath b hb
      exact ⟨PatternPart.mem_names.2 (Or.inl hname), Or.inr hname⟩

/-! ## Several parts, in states that are alike -/

theorem overlooks_nil (ctx : RunContext) (Q : Row → Store → Prop) (last : Store) (e : Expr) :
    ctx.Overlooks Q [] last e := by
  intro row σ τ _ _ _ _ _ hbare
  rw [ctx.env_congr_bare hbare]

/-- The edges and the paths of some parts between their vertices. -/
def finishParts (ctx : RunContext) (parts : List (PatternPart × List (Option Vertex)))
    (row : Row) : Run Row :=
  parts.foldlM (fun row (part, os) => ctx.finishPart part os row) row

theorem adds_finishParts (parts : List (PatternPart × List (Option Vertex))) (row : Row) :
    Adds (ctx.finishParts parts row) :=
  .foldlM (fun row (part, os) => adds_finishPart part os row) parts row

/-- In states that are alike, and rows that agree where it matters, parts are finished alike. -/
theorem finishParts_again {parts : List (PatternPart × List (Option Vertex))}
    (hparts : ∀ p ∈ parts, ∀ r ∈ p.1.relationships, ∀ last,
      ctx.Covers (fun _ _ => True) names [] last r)
    (h : Shadows (fun _ _ => True) (fun _ => True) names [] (fun _ => false) row s row' t)
    (hrun : ctx.finishParts parts row s = (.ok made, s')) :
    ∃ bs t', made = row.sets bs ∧ ctx.finishParts parts row' t = (.ok (row'.sets bs), t') ∧
      s'.Twin t' ∧ ∀ b ∈ bs, ∃ p ∈ parts, b.1 ∈ p.1.names := by
  induction parts generalizing row s row' t with
  | nil =>
    cases hrun
    exact ⟨[], t, rfl, rfl, h.beside, nofun⟩
  | cons p rest ih =>
    obtain ⟨part, os⟩ := p
    obtain ⟨hpart, hrest⟩ := List.forall_mem_cons.1 hparts
    unfold finishParts at hrun ⊢
    rw [List.foldlM_cons] at hrun
    obtain ⟨row₁, s₁, hpartrun, hrun⟩ := Run.ok_of_bind hrun
    have hs₁ := ((adds_finishPart part os row).grows hpartrun h.consistent).1
    obtain ⟨bs, t₁, rfl, hpartrun', h₁, -, hbs⟩ := finishPart_again
      (fun _ _ _ _ _ _ _ _ _ _ _ _ => trivial) (fun r hr => hpart r hr s₁.store)
      (fun _ _ _ _ _ => trivial) h hpartrun (.refl hs₁)
    obtain ⟨cs, t₂, rfl, hrestrun, htwin, hcs⟩ := ih hrest h₁ hrun
    refine ⟨bs ++ cs, t₂, (Row.sets_append row bs cs).symm, ?_, htwin, fun b hb => ?_⟩
    · rw [List.foldlM_cons, Run.bind_of_ok hpartrun', Row.sets_append]
      exact hrestrun
    · rcases List.mem_append.1 hb with hb | hb
      · exact ⟨_, List.mem_cons_self, (hbs b hb).1⟩
      · obtain ⟨p, hp, hname⟩ := hcs b hb
        exact ⟨p, List.mem_cons_of_mem _ hp, hname⟩

end RunContext

end PropertyGraph
