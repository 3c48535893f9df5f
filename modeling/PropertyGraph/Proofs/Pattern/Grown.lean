import PropertyGraph.Proofs.Pattern.Exact
import PropertyGraph.Proofs.Pattern.Linked
import PropertyGraph.Proofs.Run.Rising

/-!
# Searches while the store grows

A search goes on from match to match, and in between others may add to the store.  It does not
notice if none of the new elements qualifies: no new edge is admitted or counted for a relationship,
and no new vertex comes out of a cursor.  The latter is sure where the nodes of the pattern are
joined, since then the one cursor is open before anything is added.

    Search.Apart       no element that only the second store has qualifies
    Search.Beside      the search's state, and what it is where the store has grown
    alike_flow         the search gives the same matches
-/

namespace PropertyGraph

namespace Search

variable {q : Search} {σ τ ρ : Store} {m : Match}

/-! ## New elements that do not qualify -/

/-- No vertex that the reader finds only in the second store comes out of a cursor for the node. -/
def NodeApart (q : Search) (σ τ : Store) (n : NodeConstraint Value) : Prop :=
  ∀ id v, σ.vertex? id = none → τ.getVertex? q.ctx.reader id = some v →
    (nodeSelection q.ctx.config n).admitsVertex v = false

/-- No edge that the reader finds only in the second store is used or counted for the
relationship. -/
def RelationshipApart (q : Search) (σ τ : Store) (r : RelationshipConstraint Value) : Prop :=
  ∀ id e, σ.edge? id = none → τ.getEdge? q.ctx.reader id = some e →
    r.admits q.ctx.config e = false ∧ (relationshipSelection q.ctx.config r).admitsEdge e = false

/-- Nothing that the reader finds only in the second store qualifies: no edge, and no vertex either
unless all nodes are joined. -/
structure Apart (q : Search) (σ τ : Store) : Prop where
  nodes : q.pattern.Connected ∨ ∀ n ∈ q.pattern.nodes, q.NodeApart σ τ n
  relationships : ∀ r ∈ q.pattern.relationships, q.RelationshipApart σ τ r

/-- While the store grows there are less new elements than in the end. -/
theorem NodeApart.before (hτ : τ.Consistent) (hρ : ρ.Consistent) (hgrows : τ.Grows ρ)
    {n : NodeConstraint Value} (h : q.NodeApart σ ρ n) : q.NodeApart σ τ n := by
  intro id v hnew hv
  refine h id v hnew ?_
  rw [Store.getVertex?_of_grows hτ hρ hgrows]
  · exact hv
  · exact Option.isSome_iff_exists.2 ⟨v, (Option.filter_eq_some_iff.1 hv).1⟩

theorem RelationshipApart.before (hτ : τ.Consistent) (hρ : ρ.Consistent) (hgrows : τ.Grows ρ)
    {r : RelationshipConstraint Value} (h : q.RelationshipApart σ ρ r) :
    q.RelationshipApart σ τ r := by
  intro id e hnew he
  obtain ⟨hid, ⟨i, hi⟩, hread⟩ := (Store.getEdge?_eq_some hτ).1 he
  exact h id e hnew ((Store.getEdge?_eq_some hρ).2 ⟨hid, ⟨i, hgrows.edgeAt? hi⟩, hread⟩)

/-- No demand is such that nothing meets it. -/
structure Hopeful (q : Search) (σ : Store) : Prop where
  nodes : ∀ n ∈ q.pattern.nodes, hopeless q.ctx.config σ n.properties = false
  relationships : ∀ r ∈ q.pattern.relationships, hopeless q.ctx.config σ r.properties = false

theorem lookup_empty (name : Option String) : name.bind Row.empty.lookup? = none := by
  cases name <;> rfl

/-- Only then is there a solution that the search finds. -/
theorem Solution.hopeful (hσ : σ.Consistent) (h : q.Solution σ .empty m) (hp : q.Passable σ) :
    q.Hopeful σ where
  nodes n hn := by
    obtain ⟨i, hi⟩ := List.mem_iff_getElem?.1 hn
    obtain ⟨v, -, hadmits, hbound⟩ := h.node i n hi
    rw [lookup_empty] at hbound
    by_contra hno
    rw [vertex_of_hopeless hσ (Bool.eq_true_of_not_eq_false hno) hbound] at hadmits
    cases hadmits
  relationships r hr := by
    cases hwalk : r.isWalk with
    | true => exact hp r hr hwalk
    | false =>
      obtain ⟨i, hi⟩ := List.mem_iff_getElem?.1 hr
      obtain ⟨b, v, w, -, -, -, hfits⟩ := h.relationship i r hi
      generalize v.id = first, w.id = second at hfits
      cases hfits with
      | edge e _ _ _ he _ =>
        obtain ⟨hadmits, hbound⟩ := he
        rw [lookup_empty] at hbound
        by_contra hno
        rw [edge_of_hopeless hσ (Bool.eq_true_of_not_eq_false hno) hbound] at hadmits
        cases hadmits
      | walk p range hrange =>
        rw [RelationshipConstraint.isWalk, hrange] at hwalk
        cases hwalk

theorem hopeless_of_grows (hgrows : σ.Grows τ) {properties : List (String × Value)}
    (h : hopeless q.ctx.config σ properties = false) :
    hopeless q.ctx.config τ properties = false := by
  unfold hopeless at h ⊢
  rw [List.any_eq_false] at h ⊢
  rintro ⟨k, p⟩ hp hno
  have hkp := h (k, p) hp
  simp only [Bool.or_eq_true, Bool.not_eq_true', not_or, Bool.not_eq_false] at hkp hno
  rcases hno with hnull | hundefined
  · exact hkp.1 hnull
  · rw [hgrows.defined _ hkp.2] at hundefined
    cases hundefined

/-! ## Two states of one search -/

/-- The state of the search where nothing is added, and where something is.  The estimates that may
differ between the stores have been made already, if there is anything to be found. -/
structure Beside (q : Search) (s₀ : RunState) (ρ : Store) (s t : RunState) : Prop where
  same : s.SameGraph s₀
  estimates : s.estimates = t.estimates
  consistent : t.store.Consistent
  since : s₀.store.Grows t.store
  later : t.store.Grows ρ
  known : q.Hopeful s₀.store →
    ∀ n ∈ q.pattern.nodes, t.Remembers (nodeKey n) ∨ q.NodeApart s₀.store ρ n

variable {s₀ : RunState}

theorem Beside.uncounted : Uncounted (q.Beside s₀ ρ) :=
  fun _ _ h _ _ => ⟨⟨h.same.store, h.same.vertexIds, h.same.edgeIds⟩, h.estimates, h.consistent,
    h.since, h.later, h.known⟩

theorem total_apply (find : Store → Cursor) (s : RunState) :
    ∃ n, total find s = ((find s.store).total, { s with stats := n }) := by
  unfold total
  simp only
  split <;> exact ⟨_, rfl⟩

/-- An estimate that is not made again, or is the same in both stores. -/
theorem Beside.blind_remembered {key : String} {find : Store → Cursor}
    {properties : List (String × Value)}
    (hhope : hopeless q.ctx.config s₀.store properties = false)
    (hfind : ∀ s t, q.Beside s₀ ρ s t → Entries.get? key t.estimates = none →
      (find s.store).total = (find t.store).total) :
    Blind (q.Beside s₀ ρ)
      (remembered key fun s => if hopeless q.ctx.config s.store properties then (0, s)
        else total find s) := by
  intro s t hst
  have hs : hopeless q.ctx.config s.store properties = false := by rw [hst.same.store, hhope]
  have ht := hopeless_of_grows hst.since hhope
  unfold remembered
  rw [hst.estimates]
  cases hkey : Entries.get? key t.estimates with
  | some n => exact ⟨rfl, trivial, hst⟩
  | none =>
    obtain ⟨n, hn⟩ := total_apply find s
    obtain ⟨m, hm⟩ := total_apply find t
    simp only [hs, ht, hn, hm, Bool.false_eq_true, if_false]
    refine ⟨hfind s t hst hkey, trivial, ⟨hst.same.store, hst.same.vertexIds, hst.same.edgeIds⟩, ?_,
      hst.consistent, hst.since, hst.later, fun hope k hk => ?_⟩
    · show Entries.insert key _ _ = Entries.insert key _ _
      rw [hfind s t hst hkey, hst.estimates]
    · refine (hst.known hope k hk).imp_left fun hremembers => ?_
      unfold RunState.Remembers
      by_cases heq : nodeKey k = key
      · rw [heq, Entries.get?_insert_self]
        rfl
      · rw [Entries.get?_insert_of_ne heq]
        exact hremembers

/-- Something is assigned, unless no new vertex qualifies anyway. -/
def Begun (q : Search) (σ ρ : Store) (m : Match) : Prop :=
  (∀ n ∈ q.pattern.nodes, q.NodeApart σ ρ n) ∨
    ∃ j < q.pattern.nodes.length, (m.node? j).isSome = true

theorem Begun.setNode (h : q.Begun σ ρ m) (i : Nat) (b : NodeBinding) :
    q.Begun σ ρ (m.setNode i b) := by
  refine h.imp_right fun ⟨j, hj, hassigned⟩ => ⟨j, hj, ?_⟩
  by_cases hi : i < m.nodes.length
  · rw [Match.node?_setNode m i j b hi]
    split
    · rfl
    · exact hassigned
  · rw [show m.setNode i b = m by
      unfold Match.setNode; rw [List.set_eq_of_length_le (Nat.le_of_not_lt hi)]]
    exact hassigned

theorem Begun.setRelationship (h : q.Begun σ ρ m) (i : Nat) (b : RelationshipBinding) :
    q.Begun σ ρ (m.setRelationship i b) :=
  h

/-- An end of an edge around a stored vertex is a stored vertex. -/
theorem vertex?_otherEnd (hσ : σ.Consistent) {id : String} {direction : Heading}
    {types : List String} {e : Edge}
    (he : e ∈ σ.incidentEdges q.ctx.reader id direction types) :
    (σ.vertex? (e.otherEnd id)).isSome = true := by
  obtain ⟨hget, -, -⟩ := (Store.mem_incidentEdges hσ).1 he
  obtain ⟨-, ⟨i, hi⟩, -⟩ := (Store.getEdge?_eq_some hσ).1 hget
  obtain ⟨c, hc, rfl⟩ := Store.edgeAt?_eq_some.1 hi
  have hend : ∀ side, (σ.vertex? (c.edge.endId side)).isSome = true := by
    intro side
    obtain ⟨v, hv, hid⟩ := hσ.ends i c side hc
    exact Option.isSome_iff_exists.2 ⟨v, (Store.vertex?_eq_some hσ).2 ⟨hid, _, hv⟩⟩
  unfold Edge.otherEnd
  split
  · exact hend .incoming
  · exact hend .outgoing

section Sight

variable (hσ : s₀.store.Consistent) (hρ : ρ.Consistent) (hope : q.Hopeful s₀.store)
  (hapart : q.Apart s₀.store ρ)

include hσ hρ hope

/-- A cursor for a node that no new vertex meets is the same. -/
theorem Beside.selectVertices {n : NodeConstraint Value} (hn : n ∈ q.pattern.nodes)
    (hnode : q.NodeApart s₀.store ρ n) {s t : RunState} (hst : q.Beside s₀ ρ s t) :
    t.store.selectVertices q.ctx.reader (nodeSelection q.ctx.config n) =
      s.store.selectVertices q.ctx.reader (nodeSelection q.ctx.config n) := by
  rw [hst.same.store]
  exact Store.selectVertices_of_grows hσ hst.consistent hst.since
    (testsUndefined_of_hopeful (hope.nodes n hn)) (hnode.before hst.consistent hρ hst.later)

/-- A node is taken from the same cursor if that is opened before anything is added or no new
vertex meets it. -/
theorem Beside.seededAlike {n : NodeConstraint Value} (hn : n ∈ q.pattern.nodes) {s t : RunState}
    (hst : q.Beside s₀ ρ s t) (h : t.store = s₀.store ∨ q.NodeApart s₀.store ρ n) :
    q.SeededAlike (fun id => (s₀.store.vertex? id).isSome = true) n s.store t.store := by
  have hhope := hope.nodes n hn
  have hsame : t.store.selectVertices q.ctx.reader (nodeSelection q.ctx.config n) =
      s.store.selectVertices q.ctx.reader (nodeSelection q.ctx.config n) := by
    rcases h with h | h
    · rw [h, hst.same.store]
    · exact Beside.selectVertices hσ hρ hope hn h hst
  have hope' := hopeless_of_grows hst.since hhope
  have hstore : s.store = s₀.store := hst.same.store
  unfold SeededAlike seedIds
  rw [hope', hsame, hstore, hhope]
  refine ⟨rfl, fun id hid => ?_⟩
  obtain ⟨ids, hpending, -, hmem⟩ := exists_seed hσ q.ctx.reader hhope
  rw [if_neg Bool.false_ne_true, hpending] at hid
  obtain ⟨v, hv, -⟩ := (hmem id).1 hid
  exact Option.isSome_iff_exists.2 ⟨v, (Option.filter_eq_some_iff.1 hv).1⟩

include hapart

/-- Once something is assigned, the search is told the same by both stores. -/
theorem sees_beside (hw : q.pattern.WellFormed) :
    q.Sees (q.Beside s₀ ρ) (fun id => (s₀.store.vertex? id).isSome = true)
      (q.Begun s₀.store ρ) where
  uncounted := Beside.uncounted
  nodeEstimate n hn := by
    refine Beside.blind_remembered (hope.nodes n hn) fun s t hst hkey => ?_
    rcases hst.known hope n hn with hremembers | hnode
    · have hnone : Entries.get? (nodeKey n) t.estimates = none := hkey
      rw [RunState.Remembers, hnone] at hremembers
      cases hremembers
    · rw [Beside.selectVertices hσ hρ hope hn hnode hst]
  relationshipEstimate r hr := by
    refine Beside.blind_remembered (hope.relationships r hr) fun s t hst _ => ?_
    have hnew := (hapart.relationships r hr).before hst.consistent hρ hst.later
    have hsame := Store.selectEdges_of_grows hσ hst.consistent hst.since
      (testsUndefined_of_hopeful (hope.relationships r hr))
      fun id e hid he => (hnew id e hid he).2
    rw [hst.same.store]
    exact congrArg Cursor.total hsame.symm
  givenUp r hr s t hst := Or.inl <| by
    rw [hst.same.store, hope.relationships r hr,
      hopeless_of_grows hst.since (hope.relationships r hr)]
  vertex s t hst id hid := by
    rw [hst.same.store, Store.getVertex?_of_grows hσ hst.consistent hst.since hid]
    refine ⟨rfl, fun v hv => ?_⟩
    rw [Store.getVertex?_id hσ hv]
    exact hid
  edges s t hst id hid r hr direction := by
    have hnew := (hapart.relationships r hr).before hst.consistent hρ hst.later
    rw [hst.same.store]
    exact ⟨(Store.incidentEdges_of_grows hσ hst.consistent hst.since hid direction r.types
      fun id e hid he => (hnew id e hid he).1).symm, fun e he _ => vertex?_otherEnd hσ he⟩
  setNode m i b h := h.setNode i b
  setRelationship m i b h := h.setRelationship i b
  seed m i n hbegun _ hchosen hn hfree s t hst := by
    have hmem := List.mem_of_getElem? hn
    refine Beside.seededAlike hσ hρ hope hmem hst (Or.inr ?_)
    rcases hbegun with hall | ⟨j, hj, hassigned⟩
    · exact hall n hmem
    · rcases hapart.nodes with hc | hall
      · obtain ⟨s', hs'⟩ := hchosen
        obtain ⟨r, hr, hr'⟩ := List.countP_pos_iff.1 (choose_linked hw hc hj hassigned hn hs')
        rw [hfree r hr] at hr'
        cases hr'
      · exact hall n hmem

end Sight

/-! ## From the empty row on -/

theorem startNodes_empty (q : Search) (l : List (NodeConstraint Value × Nat)) (m : Match) :
    q.startNodes .empty l m = .ok (some m) := by
  induction l with
  | nil => rfl
  | cons p rest ih =>
    unfold startNodes
    rw [lookup_empty]
    exact ih

theorem startRelationships_empty (q : Search) (l : List (RelationshipConstraint Value × Nat))
    (ms : List Match) : q.startRelationships .empty l ms = .ok ms := by
  induction l with
  | nil => rfl
  | cons p rest ih =>
    unfold startRelationships
    rw [lookup_empty]
    exact ih

/-- A row without names assigns nothing. -/
theorem start_empty (q : Search) : q.start .empty = .ok [.blank q.pattern] := by
  have hopen := (opening_blank q .empty).laterRelationship
  have hpath : q.pattern.paths.find? (fun p => Row.empty.has p.name) = none :=
    List.find?_eq_none.2 fun p _ => Bool.false_ne_true
  have hconsistent : q.consistent (.blank q.pattern) = true := by
    rw [consistent_iff]
    refine ⟨fun i j id hi _ => ?_, fun i r _ => ?_⟩
    · rw [hopen i (Nat.zero_le i)] at hi
      cases hi
    · unfold endsAgree
      rw [hopen i (Nat.zero_le i)]
      rfl
  unfold start
  rw [hpath]
  simp only [startNodes_empty, startRelationships_empty]
  show Except.ok (List.filter q.consistent [.blank q.pattern]) = _
  rw [List.filter_cons_of_pos hconsistent, List.filter_nil]

theorem within_blank (q : Search) (Known : String → Prop) :
    (Match.blank q.pattern).Within Known := by
  have h := opening_blank q .empty
  refine ⟨fun i v hv => ?_, fun i b hb => ?_⟩
  · rw [Match.vertex?_eq_some, h.laterNode i (Nat.zero_le i)] at hv
    cases hv
  · rw [h.laterRelationship i (Nat.zero_le i)] at hb
    cases hb

/-- All that comes of the empty row is a solution, and there is something only where the search does
not give up. -/
theorem yields_empty (hσ : s₀.store.Consistent) (hw : q.pattern.WellFormed)
    (hplain : q.pattern.optional = false) : (q.flow .empty s₀).Yields s₀.store fun ms =>
      ∀ m ∈ ms, q.Solution s₀.store .empty m ∧ q.Hopeful s₀.store := by
  have hends : q.WalkEndsStored s₀.store .empty := by
    intro r _ _ i _ n v _ hv
    rw [lookup_empty] at hv
    cases hv
  refine (yields_flow hσ hw hends (start_empty q) rfl).mono fun ms hms m hm => ?_
  obtain ⟨hs, hp⟩ := hms.sound m hm (hms.matched hplain m hm)
  exact ⟨hs, hs.hopeful hσ hp⟩

section Whole

variable (hσ : s₀.store.Consistent) (hρ : ρ.Consistent) (hgrows : s₀.store.Grows ρ)
  (hapart : q.Apart s₀.store ρ) (hw : q.pattern.WellFormed)

include hσ hρ hgrows hapart hw

/-- The first node of a connected pattern is taken from the store as it was. -/
theorem alike_first (hope : q.Hopeful s₀.store) (left : Nat) :
    Flow.Alike (q.Beside s₀ ρ) (q.complete (left + 1) (.blank q.pattern) s₀)
      (q.complete (left + 1) (.blank q.pattern) s₀) := by
  have hsees := sees_beside hσ hρ hope hapart hw
  have hopen := opening_blank q .empty
  have hsame := sameGraph_choose q (.blank q.pattern) s₀
  have hready := (reads_choose hw hopen.nodeCount hopen.relationshipCount s₀ rfl).1.1
  have hknown : ∀ n ∈ q.pattern.nodes,
      (q.choose (.blank q.pattern) s₀).2.Remembers (nodeKey n) :=
    fun n hn => estimates_choose_blank hn s₀
  unfold complete
  cases hchoose : q.choose (.blank q.pattern) s₀ with
  | mk o s₁ =>
    rw [hchoose] at hsame hready hknown
    have hbeside : q.Beside s₀ ρ s₁ s₁ := by
      have hstore : s₁.store = s₀.store := hsame.store
      refine ⟨hsame, rfl, ?_, ?_, ?_, fun _ n hn => Or.inl (hknown n hn)⟩
      · rw [hstore]; exact hσ
      · rw [hstore]; exact .refl hσ
      · rw [hstore]; exact hgrows
    cases o with
    | none => exact .done hbeside
    | some c =>
      cases c with
      | relationship i =>
        obtain ⟨r, -, -, k, -, hassigned⟩ := hready _ rfl
        rw [hopen.laterNode k (Nat.zero_le k)] at hassigned
        cases hassigned
      | node i =>
        obtain ⟨n, hn, -⟩ := hready _ rfl
        have hi : i < (Match.blank q.pattern).nodes.length :=
          hopen.nodeCount ▸ (List.getElem?_eq_some_iff.1 hn).1
        have hfree : (n.incident.any fun r =>
            ((Match.blank q.pattern).relationship? r).isSome) = false := by
          rw [List.any_eq_false]
          intro r _
          rw [hopen.laterRelationship r (Nat.zero_le r)]
          exact Bool.false_ne_true
        unfold expand
        simp only [hn, hfree, Bool.false_eq_true, if_false]
        refine hsees.seedNode (fun m hm hbegun => hsees.complete left hm hbegun)
          (within_blank q _) (fun b => Or.inr ⟨i, (List.getElem?_eq_some_iff.1 hn).1, ?_⟩) hbeside
          (Beside.seededAlike hσ hρ hope (List.mem_of_getElem? hn) hbeside (Or.inl hsame.store))
        rw [Match.node?_setNode _ i i b hi, if_pos rfl]
        rfl

theorem alike_hopeful (hope : q.Hopeful s₀.store) :
    Flow.Alike (q.Beside s₀ ρ) (q.flow .empty s₀) (q.flow .empty s₀) := by
  have hsees := sees_beside hσ hρ hope hapart hw
  have hopen := opening_blank q .empty
  unfold flow
  rw [start_empty]
  refine Flow.Alike.before Beside.uncounted ?_ fun _ _ h => .done h
  dsimp only
  have hall : (∀ n ∈ q.pattern.nodes, q.NodeApart s₀.store ρ n) →
      Flow.Alike (q.Beside s₀ ρ)
        (q.complete (Match.blank q.pattern).openCount (.blank q.pattern) s₀)
        (q.complete (Match.blank q.pattern).openCount (.blank q.pattern) s₀) := fun hall =>
    hsees.complete _ (within_blank q _) (Or.inl hall) s₀ s₀
      ⟨.refl s₀, rfl, hσ, .refl hσ, hgrows, fun _ n hn => Or.inr (hall n hn)⟩
  rcases hapart.nodes with hc | hnodes
  · cases hleft : (Match.blank q.pattern).openCount with
    | zero =>
      -- nothing is open, so there are no nodes
      rw [← hleft]
      refine hall fun n hn => ?_
      obtain ⟨i, hi⟩ := List.mem_iff_getElem?.1 hn
      obtain ⟨b, hb⟩ := (Match.assigned_of_openCount hleft).1 i
        (hopen.nodeCount ▸ (List.getElem?_eq_some_iff.1 hi).1)
      rw [hopen.laterNode i (Nat.zero_le i)] at hb
      cases hb
    | succ left => exact alike_first hσ hρ hgrows hapart hw hope left
  · exact hall hnodes

/-- The search gives the same matches while the store grows, as long as it grows at most to the
given one. -/
theorem alike_flow (hplain : q.pattern.optional = false) :
    Flow.Alike (q.Beside s₀ ρ) (q.flow .empty s₀) (q.flow .empty s₀) := by
  by_cases hope : q.Hopeful s₀.store
  · exact alike_hopeful hσ hρ hgrows hapart hw hope
  · -- nothing is found, so nothing is asked for in a store that has grown
    have hmoves := q.moves_flow RunState.SameGraph.onward .empty s₀
    have hnone : (q.flow .empty s₀).Yields s₀.store (· = []) := by
      refine (yields_empty hσ hw hplain).mono fun ms hms => ?_
      exact List.eq_nil_iff_forall_not_mem.2 fun m hm => hope (hms m hm).2
    obtain ⟨s, hdone⟩ := hnone.eq_done
    rw [hdone] at hmoves ⊢
    have hsame : s.SameGraph s₀ := hmoves.symm
    have hstore : s.store = s₀.store := hsame.store
    refine .done ⟨hsame, rfl, ?_, ?_, ?_, fun hope' => absurd hope' hope⟩
    · rw [hstore]; exact hσ
    · rw [hstore]; exact .refl hσ
    · rw [hstore]; exact hgrows

end Whole

end Search

end PropertyGraph
