import PropertyGraph.Proofs.Pattern.Found

/-!
# More demands

A search with more demands on its nodes and single relationships has those of the solutions that
meet them.  It begins wherever the search without them does.

    solution_withNodes            more demands on a node
    solution_withRelationships    more demands on a relationship
    Narrower                      what more demands keep
-/

namespace PropertyGraph

namespace Search

variable {q q' : Search} {σ : Store} {row : Row} {m : Match}

/-- The search for the same pattern with other nodes. -/
def withNodes (q : Search) (nodes : List (NodeConstraint Value)) : Search :=
  { q with pattern := { q.pattern with nodes := nodes } }

/-- The search for the same pattern with other relationships. -/
def withRelationships (q : Search) (relationships : List (RelationshipConstraint Value)) : Search :=
  { q with pattern := { q.pattern with relationships := relationships } }

/-! ## Solutions -/

theorem getElem?_modify_of_some {α : Type} {as : List α} {i : Nat} {a : α} {u : α → α}
    (h : as[i]? = some a) (j : Nat) :
    (as.modify i u)[j]? = if i = j then some (u a) else as[j]? := by
  rw [List.getElem?_modify]
  by_cases hij : i = j
  · simp only [← hij, h]
    rfl
  · simp only [if_neg hij]
    exact id_map _

section Nodes

variable {i : Nat} {u : NodeConstraint Value → NodeConstraint Value}

theorem solution_withNodes {n : NodeConstraint Value} (hn : q.pattern.nodes[i]? = some n)
    (hname : (u n).name = n.name) {D : Vertex → Prop}
    (hadmits : ∀ v, (u n).admits q.ctx.config v = true ↔ n.admits q.ctx.config v = true ∧ D v) :
    (q.withNodes (q.pattern.nodes.modify i u)).Solution σ row m ↔
      q.Solution σ row m ∧ ∃ v, m.node? i = some (.vertex v) ∧ D v := by
  have hget : ∀ j, (q.pattern.nodes.modify i u)[j]? =
      if i = j then some (u n) else q.pattern.nodes[j]? :=
    getElem?_modify_of_some hn
  have hfits : ∀ v, (q.withNodes (q.pattern.nodes.modify i u)).NodeFits σ row (u n) v ↔
      q.NodeFits σ row n v ∧ D v := by
    intro v
    unfold NodeFits
    rw [hname]
    show (u n).admits q.ctx.config v = true ∧ _ ↔ _
    rw [hadmits]
    constructor
    · rintro ⟨⟨hmeets, hd⟩, hrow⟩
      exact ⟨⟨hmeets, hrow⟩, hd⟩
    · rintro ⟨⟨hmeets, hrow⟩, hd⟩
      exact ⟨⟨hmeets, hd⟩, hrow⟩
  constructor
  · intro h
    obtain ⟨v, hv, hfit⟩ := h.node i (u n) (by
      show (q.pattern.nodes.modify i u)[i]? = _
      rw [hget, if_pos rfl])
    refine ⟨⟨?_, h.relationshipCount, fun j n' hn' => ?_, fun k r hr => ?_, h.distinct⟩,
      v, hv, ((hfits v).1 hfit).2⟩
    · rw [h.nodeCount]
      exact List.length_modify _ _ _
    · by_cases hij : i = j
      · rw [← hij, hn] at hn'
        cases hn'
        exact ⟨v, hij ▸ hv, ((hfits v).1 hfit).1⟩
      · exact h.node j n' (by
          show (q.pattern.nodes.modify i u)[j]? = _
          rw [hget, if_neg hij, hn'])
    · exact h.relationship_of_ctx (by rfl) hr
  · rintro ⟨h, v, hv, hd⟩
    refine ⟨?_, h.relationshipCount, fun j n' hn' => ?_, fun k r hr => ?_, h.distinct⟩
    · rw [h.nodeCount]
      exact (List.length_modify _ _ _).symm
    · change (q.pattern.nodes.modify i u)[j]? = _ at hn'
      rw [hget] at hn'
      split at hn'
      · next hij =>
        cases hn'
        obtain ⟨w, hw, hfit⟩ := h.node i n hn
        rw [hv] at hw
        cases hw
        exact ⟨v, hij ▸ hv, (hfits v).2 ⟨hfit, hd⟩⟩
      · exact h.node j n' hn'
    · exact h.relationship_of_ctx (by rfl) hr

end Nodes

section Relationships

variable {k : Nat} {u : RelationshipConstraint Value → RelationshipConstraint Value}

theorem solution_withRelationships {r : RelationshipConstraint Value}
    (hr : q.pattern.relationships[k]? = some r) (hrange : r.range = none)
    (hshape : (u r).shape = r.shape) {D : Edge → Prop}
    (hadmits : ∀ e, (u r).admits q.ctx.config e = true ↔ r.admits q.ctx.config e = true ∧ D e) :
    (q.withRelationships (q.pattern.relationships.modify k u)).Solution σ row m ↔
      q.Solution σ row m ∧
        ∃ e first second, m.relationship? k = some (.edge e first second) ∧ D e := by
  have hget : ∀ j, (q.pattern.relationships.modify k u)[j]? =
      if k = j then some (u r) else q.pattern.relationships[j]? :=
    getElem?_modify_of_some hr
  have hname : (u r).name = r.name := congrArg (·.name) hshape
  have hrange' : (u r).range = none := (congrArg (·.range) hshape).trans hrange
  have hheading : (u r).heading = r.heading := congrArg (·.heading) hshape
  have hends : (u r).first = r.first ∧ (u r).second = r.second :=
    ⟨congrArg (·.first) hshape, congrArg (·.second) hshape⟩
  have hedge : ∀ e, (q.withRelationships (q.pattern.relationships.modify k u)).EdgeFits σ row (u r) e ↔
      q.EdgeFits σ row r e ∧ D e := by
    intro e
    unfold EdgeFits
    rw [hname]
    show (u r).admits q.ctx.config e = true ∧ _ ↔ _
    rw [hadmits]
    constructor
    · rintro ⟨⟨hmeets, hd⟩, hrow⟩
      exact ⟨⟨hmeets, hrow⟩, hd⟩
    · rintro ⟨⟨hmeets, hrow⟩, hd⟩
      exact ⟨⟨hmeets, hd⟩, hrow⟩
  constructor
  · intro h
    obtain ⟨b, v, w, hb, hv, hw, hfits⟩ := h.relationship k (u r) (by
      show (q.pattern.relationships.modify k u)[k]? = _
      rw [hget, if_pos rfl])
    obtain ⟨e, rfl, he, hj⟩ := hfits.edge_of_range hrange'
    obtain ⟨he, hd⟩ := (hedge e).1 he
    rw [hheading] at hj
    refine ⟨⟨h.nodeCount, ?_, h.node, fun j r' hr' => ?_, h.distinct⟩, e, _, _, hb, hd⟩
    · rw [h.relationshipCount]
      exact List.length_modify _ _ _
    · by_cases hkj : k = j
      · rw [← hkj, hr] at hr'
        cases hr'
        rw [hends.1] at hv
        rw [hends.2] at hw
        exact ⟨_, v, w, hkj ▸ hb, hv, hw, .edge e _ _ hrange he hj⟩
      · refine h.relationship_of_ctx (by rfl) (k := j) ?_
        show (q.pattern.relationships.modify k u)[j]? = _
        rw [hget, if_neg hkj, hr']
  · rintro ⟨h, e, first, second, hb, hd⟩
    refine ⟨h.nodeCount, ?_, h.node, fun j r' hr' => ?_, h.distinct⟩
    · rw [h.relationshipCount]
      exact (List.length_modify _ _ _).symm
    · change (q.pattern.relationships.modify k u)[j]? = _ at hr'
      rw [hget] at hr'
      split at hr'
      · next hkj =>
        cases hr'
        obtain ⟨b, v, w, hb', hv, hw, hfits⟩ := h.relationship k r hr
        rw [hb] at hb'
        cases hb'
        obtain ⟨e', heq, he, hj⟩ := hfits.edge_of_range hrange
        cases heq
        refine ⟨_, v, w, hkj ▸ hb, hends.1 ▸ hv, hends.2 ▸ hw, .edge e _ _ hrange' ?_ ?_⟩
        · exact (hedge e).2 ⟨he, hd⟩
        · rw [hheading]
          exact hj
      · exact h.relationship_of_ctx (by rfl) hr'

end Relationships

/-! ## The beginning of a search -/

theorem startNodes_narrower (hctx : q'.ctx = q.ctx)
    (hopt : q'.pattern.optional = q.pattern.optional) {ns ns' : List (NodeConstraint Value)}
    (h : List.Forall₂ (fun n n' => n'.name = n.name ∧
      ∀ v, n'.admits q.ctx.config v = true → n.admits q.ctx.config v = true) ns ns')
    {i : Nat} {o : Option Match} (ho : q.startNodes row (ns.zipIdx i) m = .ok o) :
    ∃ o', q'.startNodes row (ns'.zipIdx i) m = .ok o' ∧ (o = none → o' = none) := by
  induction h generalizing i m with
  | nil => exact ⟨o, ho, id⟩
  | @cons n n' rest rest' hn _ ih =>
    obtain ⟨hname, hadmits⟩ := hn
    rw [List.zipIdx_cons] at ho ⊢
    unfold startNodes at ho ⊢
    rw [hname, hctx, hopt]
    split at ho
    · next hrow => exact ih ho
    · next v hrow =>
      split at ho
      · split
        · exact ih ho
        · exact ⟨none, rfl, fun _ => rfl⟩
      · next hmeets =>
        rw [if_neg fun hmeets' => hmeets (hadmits v hmeets')]
        exact ⟨none, rfl, fun _ => rfl⟩
    · next hrow =>
      split at ho
      · next hyes =>
        rw [if_pos hyes]
        exact ih ho
      · next hno =>
        rw [if_neg hno]
        exact ⟨none, rfl, fun _ => rfl⟩
    · cases ho

theorem startRelationships_narrower {rs rs' : List (RelationshipConstraint Value)}
    (h : List.Forall₂ (fun r r' => r'.name = r.name ∧ r'.isWalk = r.isWalk) rs rs') {i : Nat}
    {ms found : List Match} (hms : q.startRelationships row (rs.zipIdx i) ms = .ok found)
    (q' : Search) (ms' : List Match) :
    ∃ found', q'.startRelationships row (rs'.zipIdx i) ms' = .ok found' := by
  induction h generalizing i ms ms' with
  | nil => exact ⟨ms', rfl⟩
  | @cons r r' rest rest' hr _ ih =>
    obtain ⟨hname, hwalk⟩ := hr
    rw [List.zipIdx_cons] at hms ⊢
    unfold startRelationships at hms ⊢
    rw [hname]
    split at hms
    · exact ih hms _
    · next v hrow =>
      obtain ⟨bs, hbs, hms⟩ := ok_of_bind hms
      have hbs' : ∃ bs', q'.startBindings r' v = .ok bs' := by
        unfold startBindings at hbs ⊢
        rw [hwalk]
        split at hbs
        · cases hbs
        · next hnot =>
          rw [if_neg hnot]
          cases v with
          | null => exact ⟨_, rfl⟩
          | relationship e => exact ⟨_, rfl⟩
          | _ => cases hbs
      obtain ⟨bs', hbs'⟩ := hbs'
      rw [hbs']
      exact ih hms _

/-- More demands bring no error about. -/
theorem start_narrower (hctx : q'.ctx = q.ctx) (hopt : q'.pattern.optional = q.pattern.optional)
    (hpaths : q'.pattern.paths = q.pattern.paths)
    (hnodes : List.Forall₂ (fun n n' => n'.name = n.name ∧
      ∀ v, n'.admits q.ctx.config v = true → n.admits q.ctx.config v = true)
      q.pattern.nodes q'.pattern.nodes)
    (hrels : List.Forall₂ (fun r r' => r'.name = r.name ∧ r'.isWalk = r.isWalk)
      q.pattern.relationships q'.pattern.relationships)
    (hstart : ∃ ms, q.start row = .ok ms) : ∃ ms, q'.start row = .ok ms := by
  obtain ⟨ms, hms⟩ := hstart
  have hblank : Match.blank q'.pattern = Match.blank q.pattern := by
    unfold Match.blank
    congr 1
    · rw [List.map_const', List.map_const', hnodes.length_eq]
    · rw [List.map_const', List.map_const', hrels.length_eq]
  unfold start at hms ⊢
  rw [hpaths, hblank]
  split at hms
  · cases hms
  · obtain ⟨o, ho, hms⟩ := ok_of_bind hms
    obtain ⟨o', ho', hnone⟩ := startNodes_narrower hctx hopt hnodes ho
    simp only [ho']
    cases o' with
    | none => exact ⟨[], rfl⟩
    | some m' =>
      cases o with
      | none => cases hnone rfl
      | some m =>
        obtain ⟨all, hall, -⟩ := ok_of_bind hms
        obtain ⟨all', hall'⟩ := startRelationships_narrower hrels hall q' [m']
        refine ⟨all'.filter q'.consistent, ?_⟩
        simp only [bind, Except.bind, hall']
        rfl

/-! ## More demands -/

/-- The store agrees with the language on the properties of the visible vertices that the nodes
compare, whether or not the nodes admit them. -/
def ValuesAgree (q : Search) (σ : Store) (row : Row) : Prop :=
  ∀ n ∈ q.pattern.nodes, n.name.bind row.lookup? = none →
    ∀ id v, σ.getVertex? q.ctx.reader id = some v → n.Agrees q.ctx.config v

theorem ValuesAgree.agreement (h : q.ValuesAgree σ row) : q.Agreement σ row :=
  fun n hn hrow id v hv _ => h n hn hrow id v hv

/-- The second search demands what the first one does, and perhaps more. -/
structure Narrower (σ : Store) (row : Row) (q q' : Search) : Prop where
  ctx : q'.ctx = q.ctx
  shape : q'.pattern.shape = q.pattern.shape
  start : (∃ ms, q.start row = .ok ms) → ∃ ms, q'.start row = .ok ms
  passable : q'.Passable σ ↔ q.Passable σ
  agree : q'.ValuesAgree σ row → q.ValuesAgree σ row
  solution : ∀ m, q'.Solution σ row m → q.Solution σ row m

theorem Narrower.refl (q : Search) : Narrower σ row q q :=
  ⟨rfl, rfl, id, Iff.rfl, id, fun _ => id⟩

theorem Narrower.trans {q'' : Search} (h : Narrower σ row q q') (h' : Narrower σ row q' q'') :
    Narrower σ row q q'' :=
  ⟨h'.ctx.trans h.ctx, h'.shape.trans h.shape, fun hs => h'.start (h.start hs),
    h'.passable.trans h.passable, fun ha => h.agree (h'.agree ha),
    fun m hm => h.solution m (h'.solution m hm)⟩

theorem Narrower.ends (h : Narrower σ row q q') (he : q.WalkEndsStored σ row) :
    q'.WalkEndsStored σ row := by
  intro r' hr' hwalk i hi n' v hn' hv
  obtain ⟨k, hk⟩ := List.mem_iff_getElem?.1 hr'
  obtain ⟨r, hr, heq⟩ := Constraints.relationship_of_shape h.shape hk
  obtain ⟨n, hn, hnode⟩ := Constraints.node_of_shape h.shape hn'
  rw [h.ctx]
  refine he r (List.mem_of_getElem? hr) ?_ i ?_ n v hn ?_
  · rw [← hwalk]
    exact congrArg (fun r : RelationshipConstraint Unit => r.isWalk) heq.symm
  · rw [show r.first = r'.first from congrArg (·.first) heq.symm,
      show r.second = r'.second from congrArg (·.second) heq.symm]
    exact hi
  · rw [show n.name = n'.name from congrArg (·.name) hnode.symm]
    exact hv

theorem forall₂_modify {α β : Type} {S R : α → β → Prop} {as : List α} {bs : List β}
    (h : List.Forall₂ S as bs) {u : α → α} {u' : β → β} (hoff : ∀ a b, S a b → R a b)
    (hat : ∀ a b, S a b → R (u a) (u' b)) (i : Nat) :
    List.Forall₂ R (as.modify i u) (bs.modify i u') := by
  induction h generalizing i with
  | nil => rw [List.modify_nil, List.modify_nil]; exact List.Forall₂.nil
  | cons hab hrest ih =>
    cases i with
    | zero =>
      rw [List.modify_zero_cons, List.modify_zero_cons]
      exact List.Forall₂.cons (hat _ _ hab) (hrest.imp hoff)
    | succ i =>
      rw [List.modify_succ_cons, List.modify_succ_cons]
      exact List.Forall₂.cons (hoff _ _ hab) (ih i)

theorem forall₂_modify_self {α : Type} {R : α → α → Prop} (hrefl : ∀ a, R a a) {u : α → α}
    (hu : ∀ a, R a (u a)) (as : List α) (i : Nat) : List.Forall₂ R as (as.modify i u) := by
  have heq : List.Forall₂ Eq as as := List.forall₂_same.2 fun _ _ => rfl
  have h : List.Forall₂ R (as.modify i id) (as.modify i u) :=
    forall₂_modify heq (fun a _ hab => hab ▸ hrefl a) (fun a _ hab => hab ▸ hu a) i
  rw [List.modify_id] at h
  exact h

theorem narrower_withNodes {i : Nat} {u : NodeConstraint Value → NodeConstraint Value}
    {n : NodeConstraint Value} (hn : q.pattern.nodes[i]? = some n)
    (hshape : ∀ n, (u n).shape = n.shape) (hproperties : ∀ n, n.properties ⊆ (u n).properties)
    (hadmits : ∀ n v, (u n).admits q.ctx.config v = true → n.admits q.ctx.config v = true) :
    Narrower σ row q (q.withNodes (q.pattern.nodes.modify i u)) := by
  have hname : ∀ n, (u n).name = n.name := fun n => congrArg (·.name) (hshape n)
  refine ⟨rfl, Constraints.shape_modifyNode q.pattern i hshape,
    start_narrower rfl rfl rfl ?_ (List.forall₂_same.2 fun _ _ => ⟨rfl, rfl⟩), Iff.rfl,
    fun ha n' hn' hrow id v hv p hp => ?_, fun m hm => ?_⟩
  · exact forall₂_modify_self (fun n => ⟨rfl, fun _ => id⟩) (fun n => ⟨hname n, hadmits n⟩) _ _
  · obtain ⟨j, hj⟩ := List.mem_iff_getElem?.1 hn'
    by_cases hij : i = j
    · have hmem : u n' ∈ q.pattern.nodes.modify i u := by
        refine List.mem_of_getElem? (i := j) ?_
        rw [← hij] at hj ⊢
        rw [getElem?_modify_of_some hj, if_pos rfl]
      refine ha (u n') hmem (by rw [hname]; exact hrow) id v hv p (hproperties n' hp)
    · have hmem : n' ∈ q.pattern.nodes.modify i u := by
        refine List.mem_of_getElem? (i := j) ?_
        rw [getElem?_modify_of_some hn, if_neg hij, hj]
      exact ha n' hmem hrow id v hv p hp
  · refine ((solution_withNodes hn (hname n) (D := fun v => (u n).admits q.ctx.config v = true)
      fun v => ?_).1 hm).1
    exact ⟨fun h => ⟨hadmits n v h, h⟩, fun h => h.2⟩

theorem narrower_withRelationships {k : Nat}
    {u : RelationshipConstraint Value → RelationshipConstraint Value}
    {r : RelationshipConstraint Value} (hr : q.pattern.relationships[k]? = some r)
    (hrange : r.range = none) (hshape : ∀ r, (u r).shape = r.shape)
    (hadmits : ∀ e, (u r).admits q.ctx.config e = true → r.admits q.ctx.config e = true) :
    Narrower σ row q (q.withRelationships (q.pattern.relationships.modify k u)) := by
  have hwalk : ∀ r, (u r).isWalk = r.isWalk := fun r =>
    congrArg (fun r : RelationshipConstraint Unit => r.range.isSome) (hshape r)
  have hget := getElem?_modify_of_some (u := u) hr
  have hnot : ∀ r' : RelationshipConstraint Value, r'.isWalk = true → r'.shape = r.shape → False := by
    intro r' hr' hs
    have : r'.range = none := (congrArg (·.range) hs).trans hrange
    rw [RelationshipConstraint.isWalk, this] at hr'
    cases hr'
  refine ⟨rfl, ?_, start_narrower rfl rfl rfl (List.forall₂_same.2 fun _ _ => ⟨rfl, fun _ => id⟩) ?_,
    ⟨fun hp r' hr' hw => ?_, fun hp r' hr' hw => ?_⟩, id, fun m hm => ?_⟩
  · unfold Constraints.shape
    congr 1
    refine List.ext_getElem? fun j => ?_
    show ((q.pattern.relationships.modify k u).map _)[j]? = _
    rw [List.getElem?_map, List.getElem?_map, hget]
    split
    · next hkj => rw [← hkj, hr]; exact congrArg some (hshape r)
    · rfl
  · exact forall₂_modify_self (fun r => ⟨rfl, rfl⟩) (fun r => ⟨congrArg (·.name) (hshape r), hwalk r⟩) _ _
  · obtain ⟨j, hj⟩ := List.mem_iff_getElem?.1 hr'
    refine hp r' (List.mem_of_getElem? (i := j) ?_) hw
    show (q.pattern.relationships.modify k u)[j]? = _
    rw [hget]
    split
    · next hkj =>
      rw [← hkj, hr] at hj
      cases hj
      exact (hnot r hw rfl).elim
    · exact hj
  · obtain ⟨j, hj⟩ := List.mem_iff_getElem?.1 hr'
    change (q.pattern.relationships.modify k u)[j]? = _ at hj
    rw [hget] at hj
    split at hj
    · cases hj
      exact (hnot (u r) hw (hshape r)).elim
    · exact hp r' (List.mem_of_getElem? hj) hw
  · refine ((solution_withRelationships hr hrange (hshape r)
      (D := fun e => (u r).admits q.ctx.config e = true) fun e => ?_).1 hm).1
    exact ⟨fun h => ⟨hadmits e h, h⟩, fun h => h.2⟩

end Search

end PropertyGraph
