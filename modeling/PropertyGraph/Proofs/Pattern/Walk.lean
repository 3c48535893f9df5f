import PropertyGraph.Proofs.Pattern.Demands
import PropertyGraph.Proofs.Pattern.Solution
import PropertyGraph.Proofs.Run.Outcome

/-!
# Walks

A relationship with a range is followed hop by hop from the end that is assigned.  The paths that
come out are exactly those that repeat neither a vertex nor an edge, each once:

    reads_longer          a path with one more hop
    reads_walks           all extensions of a path up to a length
    reads_walksWithin     the walks for a relationship

Where the search starts at the second node of the relationship, the paths are turned round.
-/

namespace PropertyGraph

/-! ## Paths -/

namespace Path

theorem ext {p q : Path} (hs : p.start = q.start) (hh : p.hops = q.hops) : p = q := by
  obtain ⟨s, hops⟩ := p
  obtain ⟨t, hops'⟩ := q
  cases hs
  cases hh
  rfl

theorem ext_of_parts {p q : Path} (hv : p.vertices = q.vertices) (he : p.edges = q.edges) :
    p = q := by
  obtain ⟨hs, hsnd⟩ := List.cons.inj hv
  exact ext hs ((List.zip_of_prod he hsnd).trans (List.zip_of_prod rfl rfl).symm)

theorem vertices_extend (p : Path) (e : Edge) (v : Vertex) :
    (p.extend e v).vertices = p.vertices ++ [v] := by
  simp [vertices, extend]

theorem edges_extend (p : Path) (e : Edge) (v : Vertex) :
    (p.extend e v).edges = p.edges ++ [e] := by
  simp [edges, extend]

theorem start_mem (p : Path) : p.start ∈ p.vertices := List.mem_cons_self

theorem getLast?_vertices (p : Path) : p.vertices.getLast? = some p.finish := by
  unfold finish vertices
  cases hl : p.hops.getLast? with
  | none => rw [List.getLast?_eq_none_iff.1 hl]; rfl
  | some hop =>
    rw [List.getLast?_cons, List.getLast?_map, hl]
    rfl

/-! ### Hops -/

theorem finish_append (u : Vertex) (hops more : List (Edge × Vertex)) :
    finish ⟨u, hops ++ more⟩ = finish ⟨finish ⟨u, hops⟩, more⟩ := by
  unfold finish
  rw [List.getLast?_append]
  cases more.getLast? <;> rfl

theorem finish_cons (u v : Vertex) (e : Edge) (hops : List (Edge × Vertex)) :
    finish ⟨u, (e, v) :: hops⟩ = finish ⟨v, hops⟩ :=
  finish_append u [(e, v)] hops

/-- Of the first vertex only the id matters for where a path ends. -/
theorem finish_id {u v : Vertex} (h : u.id = v.id) (hops : List (Edge × Vertex)) :
    (finish ⟨u, hops⟩).id = (finish ⟨v, hops⟩).id := by
  cases hops with
  | nil => exact h
  | cons hop rest =>
    obtain ⟨e, w⟩ := hop
    rw [finish_cons, finish_cons]

theorem hopsAlong_append {step : Vertex → Edge → Vertex → Prop} (u : Vertex)
    (hops more : List (Edge × Vertex)) :
    hopsAlong step u (hops ++ more) ↔
      hopsAlong step u hops ∧ hopsAlong step (finish ⟨u, hops⟩) more := by
  induction hops generalizing u with
  | nil => exact (and_iff_right trivial).symm
  | cons hop rest ih =>
    obtain ⟨e, v⟩ := hop
    rw [List.cons_append, hopsAlong, hopsAlong, ih, finish_cons, and_assoc]

theorem along_append {heading : Heading} {u : Vertex} {hops more : List (Edge × Vertex)} :
    Along heading ⟨u, hops ++ more⟩ ↔
      Along heading ⟨u, hops⟩ ∧ Along heading ⟨finish ⟨u, hops⟩, more⟩ :=
  hopsAlong_append u hops more

theorem along_extend (heading : Heading) (p : Path) (e : Edge) (v : Vertex) :
    (p.extend e v).Along heading ↔ p.Along heading ∧ e.Joins heading p.finish.id v.id :=
  along_append.trans (and_congr_right' (and_iff_left trivial))

/-- Of the first vertex only the id matters for what a path lies along. -/
theorem along_id {heading : Heading} {u v : Vertex} (h : u.id = v.id)
    {hops : List (Edge × Vertex)} (halong : Along heading ⟨u, hops⟩) : Along heading ⟨v, hops⟩ := by
  cases hops with
  | nil => trivial
  | cons hop rest =>
    obtain ⟨hj, hrest⟩ := halong
    dsimp only at hj
    rw [h] at hj
    exact ⟨hj, hrest⟩

theorem Along.undirected {heading : Heading} {p : Path} (h : p.Along heading) :
    p.Along .undirected := by
  obtain ⟨u, hops⟩ := p
  induction hops generalizing u with
  | nil => trivial
  | cons hop rest ih =>
    refine ⟨?_, ih hop.2 h.2⟩
    have hj := h.1
    cases heading with
    | outgoing => exact Or.inl hj
    | incoming => exact Or.inr hj
    | undirected => exact hj

/-! ### Turned round -/

theorem vertices_reverseOnto (last : Vertex) (done hops : List (Edge × Vertex)) :
    (reverseOnto last done hops).vertices =
      (Path.vertices ⟨last, hops⟩).reverse ++ done.map Prod.snd := by
  induction hops generalizing last done with
  | nil => rfl
  | cons hop rest ih =>
    rw [reverseOnto, ih]
    simp [vertices]

theorem edges_reverseOnto (last : Vertex) (done hops : List (Edge × Vertex)) :
    (reverseOnto last done hops).edges =
      (hops.map Prod.fst).reverse ++ done.map Prod.fst := by
  induction hops generalizing last done with
  | nil => rfl
  | cons hop rest ih =>
    rw [reverseOnto, ih]
    simp

theorem vertices_reverse (p : Path) : p.reverse.vertices = p.vertices.reverse := by
  rw [reverse, vertices_reverseOnto, List.map_nil, List.append_nil]
  rfl

theorem edges_reverse (p : Path) : p.reverse.edges = p.edges.reverse := by
  rw [reverse, edges_reverseOnto, List.map_nil, List.append_nil]
  rfl

theorem reverse_reverse (p : Path) : p.reverse.reverse = p :=
  ext_of_parts (by rw [vertices_reverse, vertices_reverse, List.reverse_reverse])
    (by rw [edges_reverse, edges_reverse, List.reverse_reverse])

theorem length_reverse (p : Path) : p.reverse.length = p.length := by
  have h := congrArg List.length (edges_reverse p)
  simpa [edges, length] using h

theorem start_reverse (p : Path) : p.reverse.start = p.finish := by
  have h := getLast?_vertices p
  rw [← List.head?_reverse, ← vertices_reverse] at h
  exact Option.some.inj h

theorem finish_reverse (p : Path) : p.reverse.finish = p.start := by
  rw [← start_reverse, reverse_reverse]

theorem hopsAlong_reverseOnto (step : Vertex → Edge → Vertex → Prop) (last : Vertex)
    (done hops : List (Edge × Vertex)) :
    hopsAlong (fun u e v => step v e u) (reverseOnto last done hops).start
        (reverseOnto last done hops).hops ↔
      hopsAlong step last hops ∧ hopsAlong (fun u e v => step v e u) last done := by
  induction hops generalizing last done with
  | nil => simp [reverseOnto, hopsAlong]
  | cons hop rest ih =>
    obtain ⟨e, v⟩ := hop
    rw [reverseOnto, ih, hopsAlong, hopsAlong]
    tauto

theorem joins_reverse (e : Edge) (heading : Heading) (first second : String) :
    e.Joins heading.reverse first second ↔ e.Joins heading second first := by
  cases heading
  · exact Iff.rfl
  · exact Iff.rfl
  · exact or_comm

theorem along_reverse (heading : Heading) (p : Path) :
    p.reverse.Along heading.reverse ↔ p.Along heading := by
  unfold Along reverse
  simp only [joins_reverse]
  rw [hopsAlong_reverseOnto fun u e v => e.Joins heading u.id v.id]
  simp [hopsAlong]

theorem simple_reverse (p : Path) : p.reverse.Simple ↔ p.Simple := by
  unfold Simple
  rw [vertices_reverse, edges_reverse, List.map_reverse, List.map_reverse, List.nodup_reverse,
    List.nodup_reverse]

end Path

theorem Heading.reverse_reverse (heading : Heading) : heading.reverse.reverse = heading := by
  cases heading <;> rfl

/-! ## One hop -/

theorem joins_iff (e : Edge) (direction : Heading) (tip other : String) :
    e.Joins direction tip other ↔ e.LeadsFrom direction tip ∧ e.otherEnd tip = other := by
  unfold Edge.Joins Edge.LeadsFrom Edge.otherEnd
  by_cases hs : e.source = tip
  · subst hs
    cases direction with
    | outgoing => simp
    | incoming =>
      simp only [beq_self_eq_true, if_true]
      constructor
      · rintro ⟨rfl, ht⟩; exact ⟨ht, ht⟩
      · rintro ⟨ht, rfl⟩; exact ⟨ht.symm, ht⟩
    | undirected =>
      simp only [beq_self_eq_true, if_true, true_or, true_and]
      constructor
      · rintro (ht | ⟨rfl, ht⟩) <;> exact ht
      · exact Or.inl
  · cases direction <;> simp [hs, and_comm]

namespace Search

variable {q : Search} {σ : Store} {m : Match} {r : RelationshipConstraint Value}

/-- The path can be walked in a direction with the edges that are left for the relationship. -/
structure Walkable (q : Search) (σ : Store) (m : Match) (r : RelationshipConstraint Value)
    (direction : Heading) (p : Path) : Prop where
  vertices : ∀ v ∈ p.vertices, σ.getVertex? q.ctx.reader v.id = some v
  edges : ∀ e ∈ p.edges, σ.getEdge? q.ctx.reader e.id = some e ∧ q.usable m r e = true
  along : p.Along direction
  simple : p.Simple

/-- The path can be followed from its start in a direction, with the edges that are left for the
relationship.  Nothing is said of the start itself, which the search has at hand. -/
structure Followable (q : Search) (σ : Store) (m : Match) (r : RelationshipConstraint Value)
    (direction : Heading) (p : Path) : Prop where
  vertices : ∀ v ∈ p.hops.map Prod.snd, σ.getVertex? q.ctx.reader v.id = some v
  edges : ∀ e ∈ p.edges, σ.getEdge? q.ctx.reader e.id = some e ∧ q.usable m r e = true
  along : p.Along direction
  simple : p.Simple

theorem walkable_iff {direction : Heading} {p : Path} :
    q.Walkable σ m r direction p ↔
      q.Followable σ m r direction p ∧ σ.getVertex? q.ctx.reader p.start.id = some p.start := by
  constructor
  · intro h
    exact ⟨⟨fun v hv => h.vertices v (List.mem_cons_of_mem _ hv), h.edges, h.along, h.simple⟩,
      h.vertices _ p.start_mem⟩
  · rintro ⟨h, hstart⟩
    refine ⟨fun v hv => ?_, h.edges, h.along, h.simple⟩
    rcases List.mem_cons.1 hv with rfl | hv
    · exact hstart
    · exact h.vertices v hv

theorem followable_single {direction : Heading} (v : Vertex) :
    q.Followable σ m r direction (.single v) :=
  ⟨nofun, nofun, trivial, List.nodup_singleton _, List.nodup_nil⟩

/-- A part of a path from its start on can be followed if the path can. -/
theorem Followable.of_append {direction : Heading} {v : Vertex} {hops more : List (Edge × Vertex)}
    (h : q.Followable σ m r direction ⟨v, hops ++ more⟩) :
    q.Followable σ m r direction ⟨v, hops⟩ := by
  have hh : hops.Sublist (hops ++ more) := List.sublist_append_left _ _
  have hv : (Path.vertices ⟨v, hops⟩).Sublist (Path.vertices ⟨v, hops ++ more⟩) :=
    (hh.map _).cons_cons _
  have he : (Path.edges ⟨v, hops⟩).Sublist (Path.edges ⟨v, hops ++ more⟩) := hh.map _
  exact ⟨fun w hw => h.vertices w ((hh.map _).subset hw),
    fun e hmem => h.edges e (he.subset hmem), (Path.along_append.1 h.along).1,
    h.simple.1.sublist (hv.map _), h.simple.2.sublist (he.map _)⟩

theorem hasEdge_eq_false {p : Path} {id : String} :
    p.hasEdge id = false ↔ id ∉ p.edges.map (·.id) := by
  unfold Path.hasEdge
  simp [List.any_eq_false]

theorem hasVertex_eq_false {p : Path} {id : String} :
    p.hasVertex id = false ↔ id ∉ p.vertices.map (·.id) := by
  unfold Path.hasVertex
  simp [List.any_eq_false]

theorem nodup_map_append_singleton {α : Type} (f : α → String) (as : List α) (a : α) :
    ((as ++ [a]).map f).Nodup ↔ (as.map f).Nodup ∧ f a ∉ as.map f := by
  rw [List.map_append, List.map_singleton, List.nodup_append]
  simp only [List.nodup_singleton, true_and, List.mem_singleton]
  refine and_congr_right' ⟨fun h hmem => h _ hmem _ rfl rfl, ?_⟩
  rintro h b hb _ rfl rfl
  exact h hb

/-- A path can be followed one hop further exactly if the hop can be taken. -/
theorem followable_extend {direction : Heading} {p : Path} (e : Edge) (v : Vertex) :
    q.Followable σ m r direction (p.extend e v) ↔ q.Followable σ m r direction p ∧
      σ.getVertex? q.ctx.reader v.id = some v ∧ σ.getEdge? q.ctx.reader e.id = some e ∧
      q.usable m r e = true ∧ e.Joins direction p.finish.id v.id ∧ p.hasEdge e.id = false ∧
      p.hasVertex v.id = false := by
  have hsimple : (p.extend e v).Simple ↔ p.Simple ∧ p.hasEdge e.id = false ∧
      p.hasVertex v.id = false := by
    unfold Path.Simple
    rw [Path.vertices_extend, Path.edges_extend, nodup_map_append_singleton,
      nodup_map_append_singleton, hasEdge_eq_false, hasVertex_eq_false]
    tauto
  have hfurther : (p.extend e v).hops.map Prod.snd = p.hops.map Prod.snd ++ [v] := by
    rw [Path.extend, List.map_append, List.map_singleton]
  constructor
  · rintro ⟨hv, he, ha, hs⟩
    rw [hfurther] at hv
    rw [Path.edges_extend] at he
    obtain ⟨ha, hj⟩ := (Path.along_extend direction p e v).1 ha
    obtain ⟨hs, hedge, hvertex⟩ := hsimple.1 hs
    obtain ⟨hget, huse⟩ := he e (by simp)
    exact ⟨⟨fun w hw => hv w (List.mem_append_left _ hw),
      fun f hf => he f (List.mem_append_left _ hf), ha, hs⟩, hv v (by simp), hget, huse, hj, hedge,
      hvertex⟩
  · rintro ⟨⟨hv, he, ha, hs⟩, hgetv, hgete, huse, hj, hedge, hvertex⟩
    refine ⟨fun w hw => ?_, fun f hf => ?_, (Path.along_extend direction p e v).2 ⟨ha, hj⟩,
      hsimple.2 ⟨hs, hedge, hvertex⟩⟩
    · rw [hfurther, List.mem_append, List.mem_singleton] at hw
      rcases hw with hw | rfl
      · exact hv w hw
      · exact hgetv
    · rw [Path.edges_extend, List.mem_append, List.mem_singleton] at hf
      rcases hf with hf | rfl
      · exact he f hf
      · exact ⟨hgete, huse⟩

theorem extend_inj {p : Path} {e e' : Edge} {v v' : Vertex} (h : p.extend e v = p.extend e' v') :
    e = e' ∧ v = v' := by
  have hhops := congrArg Path.hops h
  simp only [Path.extend] at hhops
  have := List.append_cancel_left hhops
  simpa using this

/-! ## Reading the store -/

theorem reads_fetchVertex (q : Search) (σ : Store) (id : String) :
    Reads σ (q.fetchVertex id) (· = σ.getVertex? q.ctx.reader id) := by
  intro s hs
  subst hs
  exact ⟨rfl, rfl⟩

theorem reads_neighbourhood (q : Search) (σ : Store) (id : String) (direction : Heading)
    (types : List String) :
    Reads σ (q.neighbourhood id direction types)
      (· = σ.incidentEdges q.ctx.reader id direction types) := by
  intro s hs
  subst hs
  exact ⟨rfl, rfl⟩

theorem usable_type {e : Edge} (h : q.usable m r e = true) : admitsType r.types e.type = true := by
  unfold usable RelationshipConstraint.admits at h
  simp only [Bool.and_eq_true] at h
  exact h.2.1

/-- The paths that can be followed and are one hop longer than such a path. -/
theorem reads_longer (hσ : σ.Consistent) {direction : Heading} {p : Path}
    (hp : q.Followable σ m r direction p) :
    Reads σ (q.longer m r direction p) fun ps => ps.Nodup ∧ ∀ p', p' ∈ ps ↔
      ∃ e v, p' = p.extend e v ∧ q.Followable σ m r direction p' := by
  let hop (e : Edge) : Option Path :=
    if p.hasEdge e.id || !q.usable m r e || p.hasVertex (e.otherEnd p.finish.id) then none
    else (σ.getVertex? q.ctx.reader (e.otherEnd p.finish.id)).map (p.extend e)
  unfold longer
  refine (reads_neighbourhood q σ p.finish.id direction r.types).bind fun edges hedges => ?_
  have hreads : Reads σ (edges.filterMapM fun e => do
      let other := e.otherEnd p.finish.id
      if p.hasEdge e.id || !q.usable m r e || p.hasVertex other then return none
      else return (← q.fetchVertex other).map (p.extend e)) (· = edges.filterMap hop) := by
    refine Reads.filterMapM_eq fun e _ => ?_
    by_cases hc : (p.hasEdge e.id || !q.usable m r e ||
        p.hasVertex (e.otherEnd p.finish.id)) = true
    · simp only [hop, hc, if_true]
      exact Reads.pure rfl
    · simp only [hop, hc, if_neg hc]
      exact (reads_fetchVertex q σ _).map fun v hv => by rw [hv]
  refine hreads.mono fun ps hps => ?_
  subst hps hedges
  have hhop : ∀ e p', hop e = some p' ↔ ∃ v, p' = p.extend e v ∧
      σ.getVertex? q.ctx.reader v.id = some v ∧ e.otherEnd p.finish.id = v.id ∧
      p.hasEdge e.id = false ∧ q.usable m r e = true ∧ p.hasVertex v.id = false := by
    intro e p'
    simp only [hop]
    split
    · next hc =>
      simp only [Bool.or_eq_true, Bool.not_eq_true'] at hc
      constructor
      · intro h
        cases h
      · rintro ⟨v, -, -, hother, hedge, huse, hvertex⟩
        rw [hother, hedge, huse, hvertex] at hc
        simp at hc
    · next hc =>
      simp only [Bool.or_eq_true, Bool.not_eq_true', not_or, Bool.not_eq_true,
        Bool.not_eq_false] at hc
      obtain ⟨⟨hedge, huse⟩, hvertex⟩ := hc
      rw [Option.map_eq_some_iff]
      constructor
      · rintro ⟨v, hv, rfl⟩
        have hid := Store.getVertex?_id hσ hv
        exact ⟨v, rfl, by rw [hid]; exact hv, hid.symm, hedge, huse, by rw [hid]; exact hvertex⟩
      · rintro ⟨v, rfl, hv, hother, -⟩
        exact ⟨v, by rw [hother]; exact hv, rfl⟩
  constructor
  · refine List.Nodup.filterMap (fun e e' p' he he' => ?_)
      (Store.nodup_incidentEdges hσ p.finish.id direction r.types)
    obtain ⟨v, rfl, -⟩ := (hhop e p').1 he
    obtain ⟨v', heq, -⟩ := (hhop e' _).1 he'
    exact (extend_inj heq).1
  · intro p'
    rw [List.mem_filterMap]
    constructor
    · rintro ⟨e, hmem, he⟩
      obtain ⟨hget, -, hlead⟩ := (Store.mem_incidentEdges hσ).1 hmem
      obtain ⟨v, rfl, hv, hother, hedge, huse, hvertex⟩ := (hhop e p').1 he
      exact ⟨e, v, rfl, (followable_extend e v).2 ⟨hp, hv, hget, huse,
        (joins_iff e direction _ _).2 ⟨hlead, hother⟩, hedge, hvertex⟩⟩
    · rintro ⟨e, v, rfl, hw⟩
      obtain ⟨-, hv, hget, huse, hj, hedge, hvertex⟩ := (followable_extend e v).1 hw
      obtain ⟨hlead, hother⟩ := (joins_iff e direction _ _).1 hj
      exact ⟨e, (Store.mem_incidentEdges hσ).2 ⟨hget, usable_type huse, hlead⟩,
        (hhop e _).2 ⟨v, rfl, hv, hother, hedge, huse, hvertex⟩⟩

/-! ## All lengths -/

/-- The paths that can be followed and extend such a path by at most `left` hops. -/
theorem reads_walks (hσ : σ.Consistent) {direction : Heading} (left : Nat) {p : Path}
    (hp : q.Followable σ m r direction p) :
    Reads σ (q.walks m r direction left p) fun ps => ps.Nodup ∧ ∀ p', p' ∈ ps ↔
      q.Followable σ m r direction p' ∧ p'.start = p.start ∧
        ∃ more, more.length ≤ left ∧ p'.hops = p.hops ++ more := by
  induction left generalizing p with
  | zero =>
    unfold walks
    refine Reads.pure ⟨List.nodup_singleton p, fun p' => ?_⟩
    rw [List.mem_singleton]
    constructor
    · rintro rfl
      exact ⟨hp, rfl, [], Nat.le_refl _, (List.append_nil _).symm⟩
    · rintro ⟨-, hstart, more, hlen, hhops⟩
      rw [List.length_eq_zero_iff.1 (Nat.le_zero.1 hlen), List.append_nil] at hhops
      exact Path.ext hstart hhops
  | succ left ih =>
    unfold walks
    refine (reads_longer hσ hp).bind fun next hnext => ?_
    obtain ⟨hnodup, hmem⟩ := hnext
    have hread : ∀ p1 ∈ next, Reads σ (q.walks m r direction left p1) fun ps =>
        (∃ e v, p1 = p.extend e v) ∧ ps.Nodup ∧ ∀ p', p' ∈ ps ↔
          q.Followable σ m r direction p' ∧ p'.start = p1.start ∧
            ∃ more, more.length ≤ left ∧ p'.hops = p1.hops ++ more := by
      intro p1 h1
      obtain ⟨e, v, heq, hw⟩ := (hmem p1).1 h1
      exact (ih hw).mono fun ps hps => ⟨⟨e, v, heq⟩, hps⟩
    refine (Reads.mapM hread).bind fun further hfurther => Reads.pure ?_
    have hflat := mem_flatten_of_forall₂ (fun _ _ hps => hps.2.2) hfurther
    refine ⟨List.nodup_cons.2 ⟨fun hp' => ?_, ?_⟩, fun p' => ?_⟩
    · -- the other paths are longer
      obtain ⟨p1, h1, -, -, more, -, hhops⟩ := (hflat p).1 hp'
      obtain ⟨e, v, rfl, -⟩ := (hmem p1).1 h1
      have := congrArg List.length hhops
      simp [Path.extend] at this
    · -- the first new hop tells the parts from one another
      refine nodup_flatten_of_forall₂ (fun _ _ hps => hps.2.1) ?_ hnodup hfurther
      rintro _ _ ps ps' p' ⟨⟨e, v, rfl⟩, -, hps⟩ ⟨⟨e', v', rfl⟩, -, hps'⟩ hp' hp''
      obtain ⟨-, -, more, -, hhops⟩ := (hps p').1 hp'
      obtain ⟨-, -, more', -, hhops'⟩ := (hps' p').1 hp''
      rw [hhops, Path.extend, Path.extend, List.append_assoc, List.append_assoc] at hhops'
      obtain ⟨hhop, -⟩ := List.cons.inj (List.append_cancel_left hhops')
      obtain ⟨rfl, rfl⟩ := Prod.mk.inj hhop
      rfl
    · rw [List.mem_cons, hflat]
      constructor
      · rintro (rfl | ⟨p1, h1, hw, hstart, more, hlen, hhops⟩)
        · exact ⟨hp, rfl, [], Nat.zero_le _, (List.append_nil _).symm⟩
        · obtain ⟨e, v, rfl, -⟩ := (hmem p1).1 h1
          refine ⟨hw, hstart, (e, v) :: more, Nat.succ_le_succ hlen, ?_⟩
          rw [hhops, Path.extend, List.append_assoc]
          rfl
      · rintro ⟨hw, hstart, more, hlen, hhops⟩
        cases more with
        | nil => exact Or.inl (Path.ext hstart (by rw [hhops, List.append_nil]))
        | cons hop more =>
          obtain ⟨e, v⟩ := hop
          have hp' : p' = ⟨p.start, (p.hops ++ [(e, v)]) ++ more⟩ :=
            Path.ext hstart (by rw [hhops, List.append_assoc]; rfl)
          have hprefix : q.Followable σ m r direction (p.extend e v) := by
            rw [hp'] at hw
            exact hw.of_append
          refine Or.inr ⟨p.extend e v, (hmem _).2 ⟨e, v, rfl, hprefix⟩, hw, hstart, more,
            Nat.le_of_succ_le_succ hlen, ?_⟩
          rw [hp']
          rfl

/-- The walks for a relationship: all paths that can be followed from the origin, have a length
within the range and end where they must. -/
theorem reads_walksWithin (hσ : σ.Consistent) (o : Origin) (range : HopRange) :
    Reads σ (q.walksWithin m r o range) fun bs => bs.Nodup ∧ ∀ b, b ∈ bs ↔
      ∃ p, b = .walk (if o.fromFirst then p else p.reverse) ∧
        q.Followable σ m r (o.direction r) p ∧ p.start = o.vertex ∧ range.min ≤ p.length ∧
        p.length ≤ range.max.getD q.ctx.config.maxDepth ∧
        ∀ id, o.goal = some id → p.finish.id = id := by
  unfold walksWithin
  simp only
  split
  · next hlt =>
    refine Reads.pure ⟨List.nodup_nil, fun b => ?_⟩
    simp only [List.not_mem_nil, false_iff]
    rintro ⟨p, -, -, -, hmin, hmax, -⟩
    omega
  · refine (reads_walks hσ _ (followable_single o.vertex)).bind fun paths hpaths => Reads.pure ?_
    obtain ⟨hnodup, hmem⟩ := hpaths
    have hinj : ∀ p p' : Path, RelationshipBinding.walk (if o.fromFirst then p else p.reverse) =
        .walk (if o.fromFirst then p' else p'.reverse) → p = p' := by
      intro p p' h
      injection h with h
      split at h
      · exact h
      · rw [← Path.reverse_reverse p, h, Path.reverse_reverse]
    refine ⟨List.Nodup.map (fun p p' => hinj p p') (hnodup.filter _), fun b => ?_⟩
    have hgoal : ∀ p : Path, o.goal.all p.endsAt = true ↔
        ∀ id, o.goal = some id → p.finish.id = id := by
      intro p
      cases o.goal <;> simp [Path.endsAt]
    simp only [List.mem_map, List.mem_filter, hmem, Bool.and_eq_true, decide_eq_true_eq, hgoal]
    constructor
    · rintro ⟨p, ⟨⟨hw, hstart, more, hlen, hhops⟩, hmin, hend⟩, rfl⟩
      refine ⟨p, rfl, hw, hstart, hmin, ?_, hend⟩
      have : p.length = more.length := by
        rw [Path.length, hhops]
        simp [Path.single]
      omega
    · rintro ⟨p, rfl, hw, hstart, hmin, hmax, hend⟩
      exact ⟨p, ⟨⟨hw, hstart, p.hops, hmax, rfl⟩, hmin, hend⟩, rfl⟩

end Search

end PropertyGraph
