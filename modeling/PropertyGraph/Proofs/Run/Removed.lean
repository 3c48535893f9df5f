import PropertyGraph.Proofs.Run.Balanced

/-!
# Deletions as a whole

A deletion whose targets are all stored removes everything or nothing.  What it fails at comes
before the first removal: a target without a value, a value that stands for no elements, or an edge
that would be left without an end.  After that every removal succeeds, because each element is
stored, comes once, and is taken by no removal before its own: edges go before vertices, and an edge
takes no other edge with it.

    Value.Removable            the values that stand for elements
    exists_doomed_iff          when the targets can be collected
    removeAll_succeeds         the removal of stored elements
    RunContext.delete_whole    all or nothing
-/

namespace PropertyGraph

/-! ## Single removals -/

namespace Store

variable {s s' : Store} {id : String}

/-- The element is stored, whoever may see it. -/
def Stores (s : Store) : ElementId → Prop
  | .vertex id => ∃ v, s.vertex? id = some v
  | .edge id => ∃ e, s.edge? id = some e

theorem exists_removeEdge {e : Edge} (h : s.edge? id = some e) : ∃ s', s.removeEdge id = .ok s' := by
  obtain ⟨i, hi, -⟩ := Option.bind_eq_some_iff.1 h
  unfold removeEdge
  rw [hi]
  exact ⟨_, rfl⟩

theorem exists_removeVertex {v : Vertex} (h : s.vertex? id = some v) :
    ∃ s', s.removeVertex id = .ok s' := by
  obtain ⟨i, hi, -⟩ := Option.bind_eq_some_iff.1 h
  unfold removeVertex
  rw [hi]
  exact ⟨_, rfl⟩

/-- All vertices are left when an edge is removed. -/
theorem vertex?_removeEdge (h : s.Consistent) (hs : s.removeEdge id = .ok s') :
    s'.Consistent ∧ ∀ other v, s'.vertex? other = some v ↔ s.vertex? other = some v ∧ ¬ False := by
  have hleft := (edge?_removeEdge h hs).1
  refine ⟨hleft, fun other v => ?_⟩
  obtain ⟨e, i, -, -, -, hvertices⟩ := h.replaces_removeEdge hs
  rw [vertex?_eq_some hleft, vertex?_eq_some h, and_iff_left not_false]
  simp only [hvertices]

/-- All other vertices are left when a vertex is removed. -/
theorem vertex?_removeVertex (h : s.Consistent) (hs : s.removeVertex id = .ok s') :
    s'.Consistent ∧ ∀ other v, s'.vertex? other = some v ↔
      s.vertex? other = some v ∧ other ≠ id := by
  have hleft := (edge?_removeVertex h hs).1
  refine ⟨hleft, fun other v => ?_⟩
  unfold removeVertex at hs
  split at hs
  · cases hs
  · next i hi =>
    cases hs
    obtain ⟨v₀, hv₀, hid⟩ := (h.vertexSlots.2 id i).1 hi
    rw [vertex?_eq_some hleft, vertex?_eq_some h, and_assoc]
    refine and_congr_right fun hother => ?_
    constructor
    · rintro ⟨j, hj⟩
      rw [vertexAt?_removeVertexAt h] at hj
      split at hj
      · cases hj
      · next hne =>
        refine ⟨⟨j, hj⟩, fun heq => hne (h.vertexSlots.unique ⟨v, hj, hother.trans heq⟩ ⟨v₀, hv₀, hid⟩)⟩
    · rintro ⟨⟨j, hj⟩, hne⟩
      refine ⟨j, ?_⟩
      rw [vertexAt?_removeVertexAt h, if_neg, hj]
      rintro rfl
      rw [hv₀] at hj
      cases hj
      exact hne (hother.symm.trans hid)

end Store

/-! ## What can be collected -/

/-- The value stands for elements: null, an element, a path, or a list of such values. -/
inductive Value.Removable : Value → Prop
  | null : Removable .null
  | node (v : Vertex) : Removable (.node v)
  | relationship (e : Edge) : Removable (.relationship e)
  | path (p : Path) : Removable (.path p)
  | list {items : List Value} (h : ∀ v ∈ items, Removable v) : Removable (.list items)

namespace Doomed

variable {d d' : Doomed}

mutual

theorem Distinct.add {d d' : Doomed} {v : Value} (hd : d.Distinct) (h : d.add v = .ok d') :
    d'.Distinct := by
  cases v with
  | null => cases h; exact hd
  | node v => cases h; exact hd.addVertex
  | relationship e => cases h; exact hd.addEdge
  | path p =>
    cases h
    have hedges : ((p.edges.map (·.id)).foldl Doomed.addEdge d).Distinct :=
      List.foldlRecOn (motive := Distinct) _ Doomed.addEdge hd fun _ hd' _ _ => hd'.addEdge
    exact List.foldlRecOn (motive := Distinct) _ Doomed.addVertex hedges fun _ hd' _ _ => hd'.addVertex
  | list items => exact hd.addItems h
  | bool _ | int _ | float _ | text _ | map _ | duration _ | date _ => cases h

theorem Distinct.addItems {d d' : Doomed} {items : List Value} (hd : d.Distinct)
    (h : d.addItems items = .ok d') : d'.Distinct := by
  cases items with
  | nil => cases h; exact hd
  | cons v rest =>
    unfold Doomed.addItems at h
    split at h
    · next d₁ hv => exact (hd.add hv).addItems h
    · cases h

end

mutual

/-- What a value holds can be collected exactly if it stands for elements. -/
theorem exists_add_iff (d : Doomed) (v : Value) : (∃ d', d.add v = .ok d') ↔ v.Removable := by
  cases v with
  | null => exact ⟨fun _ => .null, fun _ => ⟨_, rfl⟩⟩
  | node v => exact ⟨fun _ => .node v, fun _ => ⟨_, rfl⟩⟩
  | relationship e => exact ⟨fun _ => .relationship e, fun _ => ⟨_, rfl⟩⟩
  | path p => exact ⟨fun _ => .path p, fun _ => ⟨_, rfl⟩⟩
  | list items =>
    refine (exists_addItems_iff d items).trans ⟨.list, ?_⟩
    rintro ⟨⟩
    assumption
  | bool _ | int _ | float _ | text _ | map _ | duration _ | date _ =>
    refine ⟨?_, nofun⟩
    rintro ⟨_, ⟨⟩⟩

theorem exists_addItems_iff (d : Doomed) (items : List Value) :
    (∃ d', d.addItems items = .ok d') ↔ ∀ v ∈ items, v.Removable := by
  cases items with
  | nil => exact ⟨fun _ => nofun, fun _ => ⟨_, rfl⟩⟩
  | cons v rest =>
    rw [List.forall_mem_cons, ← exists_add_iff d v]
    unfold addItems
    split
    · next d₁ hv =>
      rw [exists_addItems_iff d₁ rest, hv]
      exact (and_iff_right ⟨d₁, rfl⟩).symm
    · next e hv =>
      rw [hv]
      refine ⟨?_, ?_⟩
      · rintro ⟨_, ⟨⟩⟩
      · rintro ⟨⟨_, ⟨⟩⟩, -⟩

end

/-- A fold whose steps each succeed under a condition of their own succeeds under all of them. -/
theorem exists_foldlM_iff {α : Type} {step : Doomed → α → Run Doomed} {s : RunState}
    (Fine : α → Prop)
    (hstep : ∀ d a, ∃ r, step d a s = (r, s) ∧ ((∃ d', r = .ok d') ↔ Fine a))
    (d : Doomed) (as : List α) : ∃ r, as.foldlM step d s = (r, s) ∧
      ((∃ d', r = .ok d') ↔ ∀ a ∈ as, Fine a) := by
  induction as generalizing d with
  | nil => exact ⟨.ok d, rfl, fun _ => nofun, fun _ => ⟨d, rfl⟩⟩
  | cons a rest ih =>
    obtain ⟨r, hr, hfine⟩ := hstep d a
    rw [List.foldlM_cons, Run.bind_apply, hr, List.forall_mem_cons, ← hfine]
    cases r with
    | error e =>
      refine ⟨.error e, rfl, ?_, ?_⟩
      · rintro ⟨_, ⟨⟩⟩
      · rintro ⟨⟨_, ⟨⟩⟩, -⟩
    | ok d₁ =>
      obtain ⟨r', hr', hrest⟩ := ih d₁
      exact ⟨r', hr', hrest.trans (and_iff_right ⟨d₁, rfl⟩).symm⟩

end Doomed

namespace RunContext

variable {ctx : RunContext} {targets : List Expr} {rows : List Row}

/-- The targets can be collected exactly if each of them has a value that stands for elements in
each row. -/
theorem exists_doomed_iff (ctx : RunContext) (targets : List Expr) (rows : List Row)
    (s : RunState) : ∃ r, ctx.doomed targets rows s = (r, s) ∧ ((∃ d, r = .ok d) ↔
      ∀ row ∈ rows, ∀ e ∈ targets, ∃ v, e.value (ctx.env s.store) row = .ok v ∧ v.Removable) := by
  have htarget : ∀ row d e, ∃ r,
      (do Run.lift (Doomed.add d (← ctx.value e row)) : Run Doomed) s = (r, s) ∧
        ((∃ d', r = .ok d') ↔ ∃ v, e.value (ctx.env s.store) row = .ok v ∧ v.Removable) := by
    intro row d e
    refine ⟨_, Run.bind_still (h := d.add) rfl fun v => rfl, ?_⟩
    cases e.value (ctx.env s.store) row with
    | error err =>
      refine ⟨?_, ?_⟩
      · rintro ⟨_, ⟨⟩⟩
      · rintro ⟨_, ⟨⟩, -⟩
    | ok v =>
      refine (Doomed.exists_add_iff d v).trans ⟨fun h => ⟨v, rfl, h⟩, ?_⟩
      rintro ⟨_, ⟨⟩, h⟩
      exact h
  exact Doomed.exists_foldlM_iff _
    (fun d row => Doomed.exists_foldlM_iff _ (htarget row) d targets) .none rows

/-- What is collected comes once. -/
theorem distinct_doomed (ctx : RunContext) (targets : List Expr) (rows : List Row) :
    (ctx.doomed targets rows).Results Doomed.Distinct :=
  .foldlM (fun row _ d hd => .foldlM (fun e _ d hd => .after fun v => by
    rintro s hs d' t hrun
    obtain ⟨hadd, rfl⟩ : d.add v = .ok d' ∧ s = t := Prod.mk.inj hrun
    exact ⟨hs, hd.add hadd⟩) hd) ⟨List.nodup_nil, List.nodup_nil⟩

/-! ## All removals -/

/-- Removals of stored elements, of each one once, succeed where they take nothing else. -/
theorem forM_succeeds {α : Type} (look? : Store → String → Option α)
    (count : WriteCounts → WriteCounts) {remove : String → Store → Except StoreError Store}
    (hok : ∀ {id} {σ : Store} {a}, look? σ id = some a → ∃ τ, remove id σ = .ok τ)
    (hstep : ∀ {id} {σ τ : Store}, σ.Consistent → remove id σ = .ok τ → τ.Consistent ∧
      ∀ other a, look? τ other = some a ↔ look? σ other = some a ∧ other ≠ id)
    {ids : List String} (hnodup : ids.Nodup) {s : RunState} (h : s.store.Consistent)
    (hstored : ∀ id ∈ ids, ∃ a, look? s.store id = some a) :
    ∃ s', (ids.forM fun id => do Run.write (remove id); Run.countWrites count : Run Unit) s =
      (.ok (), s') := by
  induction ids generalizing s with
  | nil => exact ⟨s, rfl⟩
  | cons id rest ih =>
    obtain ⟨hid, hnodup⟩ := List.nodup_cons.1 hnodup
    obtain ⟨⟨a, ha⟩, hstored⟩ := List.forall_mem_cons.1 hstored
    obtain ⟨τ, hwrite⟩ := hok ha
    obtain ⟨hτ, hleft⟩ := hstep h hwrite
    obtain ⟨s', hrest⟩ := ih hnodup (s := RunState.countWrites { s with store := τ } count) hτ
      fun other hother => by
        obtain ⟨b, hb⟩ := hstored other hother
        exact ⟨b, (hleft other b).2 ⟨hb, ne_of_mem_of_not_mem hother hid⟩⟩
    refine ⟨s', ?_⟩
    rw [List.forM, Run.bind_apply, Run.bind_apply, Run.write_apply, hwrite]
    exact hrest

/-- Removals one after the other are counted one by one. -/
theorem tally_forM (tally : WriteCounts → Nat) (count : WriteCounts → WriteCounts) (n : Nat)
    {remove : String → Store → Except StoreError Store}
    (hcount : ∀ c, tally (count c) = tally c + n) {ids : List String} {s s' : RunState}
    (hrun : (ids.forM fun id => do Run.write (remove id); Run.countWrites count : Run Unit) s =
      (.ok (), s')) : tally s'.stats.writes = tally s.stats.writes + n * ids.length := by
  induction ids generalizing s with
  | nil => cases hrun; rfl
  | cons id rest ih =>
    rw [List.forM, Run.bind_apply, Run.bind_apply, Run.write_apply] at hrun
    cases hwrite : remove id s.store with
    | error err => rw [hwrite] at hrun; cases hrun
    | ok τ =>
      rw [hwrite] at hrun
      have hrest := ih (s := RunState.countWrites { s with store := τ } count) hrun
      rw [hrest, List.length_cons, Nat.mul_add, Nat.mul_one, Nat.add_comm (n * _), ← Nat.add_assoc]
      exact congrArg (· + _) (hcount _)

theorem removeAll_succeeds {d : Doomed} (hd : d.Distinct) {s : RunState} (h : s.store.Consistent)
    (hvertices : ∀ id ∈ d.vertices, s.store.Stores (.vertex id))
    (hedges : ∀ id ∈ d.edges, s.store.Stores (.edge id)) :
    ∃ s', removeAll d s = (.ok (), s') := by
  obtain ⟨s₁, hfirst⟩ := forM_succeeds Store.edge?
    (fun c => { c with relationshipsDeleted := c.relationshipsDeleted + 1 })
    Store.exists_removeEdge Store.edge?_removeEdge hd.edges h hedges
  obtain ⟨h₁, hleft₁⟩ := left_forM Store.vertex? (fun _ _ _ => False)
    Store.vertex?_removeEdge h hfirst
  obtain ⟨s', hrest⟩ := forM_succeeds Store.vertex?
    (fun c => { c with nodesDeleted := c.nodesDeleted + 1 })
    Store.exists_removeVertex Store.vertex?_removeVertex hd.vertices h₁ fun id hid => by
      obtain ⟨v, hv⟩ := hvertices id hid
      exact ⟨v, (hleft₁ id v).2 ⟨hv, fun _ _ => not_false⟩⟩
  refine ⟨s', ?_⟩
  unfold removeAll
  rw [Run.bind_apply, hfirst]
  exact hrest

/-- The vertices that are left, and the count of those that are not. -/
theorem vertex?_removeAll {d : Doomed} {s s' : RunState} (h : s.store.Consistent)
    (hrun : removeAll d s = (.ok (), s')) :
    (∀ id v, s'.store.vertex? id = some v ↔ s.store.vertex? id = some v ∧ id ∉ d.vertices) ∧
      s'.stats.writes.nodesDeleted = s.stats.writes.nodesDeleted + d.vertices.length := by
  unfold removeAll at hrun
  obtain ⟨_, s₁, hfirst, hrest⟩ := Run.ok_of_bind hrun
  obtain ⟨h₁, hleft₁⟩ := left_forM Store.vertex? (fun _ _ _ => False)
    Store.vertex?_removeEdge h hfirst
  obtain ⟨-, hleft⟩ := left_forM Store.vertex? (fun id other _ => other = id)
    Store.vertex?_removeVertex h₁ hrest
  refine ⟨fun id v => ?_, ?_⟩
  · rw [hleft, hleft₁, List.forall_mem_ne]
    exact and_congr_left fun _ => and_iff_left fun _ _ => not_false
  · have hvertices := tally_forM WriteCounts.nodesDeleted
      (fun c => { c with nodesDeleted := c.nodesDeleted + 1 }) 1 (fun _ => rfl) hrest
    have hedges := tally_forM WriteCounts.nodesDeleted
      (fun c => { c with relationshipsDeleted := c.relationshipsDeleted + 1 }) 0 (fun _ => rfl) hfirst
    omega

/-! ## Deletion -/

/-- An edge that the reader sees at a vertex and that is not to be removed with it. -/
def LeftOver (ctx : RunContext) (targets : List Expr) (rows : List Row) (σ : Store) : Prop :=
  ∃ v id e, ctx.Targeted σ targets rows (.vertex v) ∧ σ.getEdge? ctx.reader id = some e ∧
    e.LeadsFrom .undirected v ∧ ¬ ctx.Targeted σ targets rows (.edge id)

/-- What a deletion comes to: the targets cannot be collected, or an edge would be left over, or
some elements are removed, which are the targets and edges at targets that the reader sees. -/
theorem delete_cases {ctx : RunContext} (detach : Bool) {targets : List Expr} {rows : List Row}
    {s : RunState} (h : s.store.Consistent)
    (hstored : ∀ x, ctx.Targeted s.store targets rows x → s.store.Stores x) :
    (∃ err, ctx.doomed targets rows s = (.error err, s) ∧
      ctx.delete detach targets rows s = (.error err, s)) ∨
    (∃ d, ctx.doomed targets rows s = (.ok d, s)) ∧
      ((detach = false ∧ ctx.LeftOver targets rows s.store ∧
        ∃ err s', ctx.delete detach targets rows s = (.error err, s') ∧ s.Unwritten s') ∨
      ¬ (detach = false ∧ ctx.LeftOver targets rows s.store) ∧
        ∃ d s₁ s', ctx.delete detach targets rows s = (.ok (), s') ∧ s.Unwritten s₁ ∧
          removeAll d s₁ = (.ok (), s') ∧ d.Distinct ∧
          (∀ v, v ∈ d.vertices ↔ ctx.Targeted s.store targets rows (.vertex v)) ∧
          ∀ id, id ∈ d.edges ↔ ctx.Targeted s.store targets rows (.edge id) ∨
            ∃ v, ctx.Targeted s.store targets rows (.vertex v) ∧
              id ∈ s.store.incidentIds ctx.reader v .undirected []) := by
  obtain ⟨r, hcollect, hhas⟩ := has_doomed ctx targets rows s
  cases r with
  | error err =>
    refine Or.inl ⟨err, hcollect, ?_⟩
    unfold delete
    rw [Run.bind_apply, hcollect]
  | ok d =>
    have hvertex := fun v => hhas d rfl (.vertex v)
    have hedge := fun id => hhas d rfl (.edge id)
    have hdistinct := (distinct_doomed ctx targets rows s trivial d s hcollect).2
    have hincident : ∀ {v id}, id ∈ s.store.incidentIds ctx.reader v .undirected [] ↔
        ∃ e, s.store.getEdge? ctx.reader id = some e ∧ e.LeadsFrom .undirected v :=
      (Store.mem_incidentIds h).trans (exists_congr fun e => and_congr_right fun _ =>
        and_iff_right rfl)
    have hleftOver : ctx.LeftOver targets rows s.store ↔ ∃ v ∈ d.vertices,
        ∃ id ∈ s.store.incidentIds ctx.reader v .undirected [], id ∉ d.edges := by
      constructor
      · rintro ⟨v, id, e, hv, he, hlead, hnot⟩
        exact ⟨v, (hvertex v).2 hv, id, hincident.2 ⟨e, he, hlead⟩, fun hid => hnot ((hedge id).1 hid)⟩
      · rintro ⟨v, hv, id, hid, hnot⟩
        obtain ⟨e, he, hlead⟩ := hincident.1 hid
        exact ⟨v, id, e, (hvertex v).1 hv, he, hlead, fun ht => hnot ((hedge id).2 ht)⟩
    refine Or.inr ⟨⟨d, hcollect⟩, ?_⟩
    obtain ⟨r, s₁, hguard, hidle, hcases⟩ := withIncident_spec ctx detach d s
    have hdelete : ctx.delete detach targets rows s = match (r, s₁) with
        | (.ok d', t) => removeAll d' t
        | (.error err, t) => (.error err, t) := by
      unfold delete
      rw [Run.bind_apply, hcollect]
      refine (Run.bind_apply _ _ s).trans ?_
      rw [hguard]
      cases r <;> rfl
    rw [hdelete]
    obtain ⟨hdetach, v, hv, rfl, hkept⟩ | ⟨d', rfl, hvertices, hkeeps, hedges, hsame⟩ := hcases
    · exact Or.inl ⟨hdetach, hleftOver.2 ⟨v, hv, hkept⟩, _, s₁, rfl, hidle⟩
    · have hall : ∀ id, id ∈ d'.edges ↔ ctx.Targeted s.store targets rows (.edge id) ∨
          ∃ v, ctx.Targeted s.store targets rows (.vertex v) ∧
            id ∈ s.store.incidentIds ctx.reader v .undirected [] := by
        intro id
        rw [hedges]
        exact or_congr (hedge id) (exists_congr fun v => and_congr_left fun _ => hvertex v)
      have hmem : ∀ v, v ∈ d'.vertices ↔ ctx.Targeted s.store targets rows (.vertex v) :=
        fun v => hvertices ▸ hvertex v
      obtain ⟨s', hremoved⟩ := removeAll_succeeds (hkeeps hdistinct) (hidle.store ▸ h)
        (fun v hv => hidle.store ▸ hstored _ ((hmem v).1 hv)) fun id hid => by
          rw [hidle.store]
          rcases (hall id).1 hid with ht | ⟨v, -, hid⟩
          · exact hstored _ ht
          · obtain ⟨e, he, -⟩ := hincident.1 hid
            exact ⟨e, (Option.filter_eq_some_iff.1 he).1⟩
      refine Or.inr ⟨?_, d', s₁, s', hremoved, hidle, hremoved, hkeeps hdistinct, hmem, hall⟩
      rintro ⟨hdetach, hleft⟩
      obtain ⟨v, hv, id, hid, hnot⟩ := hleftOver.1 hleft
      rw [← hsame hdetach] at hnot
      exact hnot ((hedges id).2 (Or.inr ⟨v, hv, hid⟩))

/-- A deletion whose targets are stored is all or nothing.  If it fails, the graph and the counts of
writes are as before.  If it succeeds, exactly the vertices among the targets are removed, and
exactly the edges that are targets or have an end that is, whether the reader sees them or not; the
vertices are counted.  Where the targets have values that stand for elements, it fails exactly if
it may not detach and the reader sees an edge that would be left over. -/
theorem delete_whole {ctx : RunContext} {detach : Bool} {targets : List Expr} {rows : List Row}
    {s : RunState} (h : s.store.Consistent)
    (hstored : ∀ x, ctx.Targeted s.store targets rows x → s.store.Stores x) :
    (∀ err s', ctx.delete detach targets rows s = (.error err, s') →
      s'.store = s.store ∧ s'.stats.writes = s.stats.writes) ∧
    (∀ s', ctx.delete detach targets rows s = (.ok (), s') →
      (∀ id v, s'.store.vertex? id = some v ↔ s.store.vertex? id = some v ∧
        ¬ ctx.Targeted s.store targets rows (.vertex id)) ∧
      (∀ id e, s'.store.edge? id = some e ↔ s.store.edge? id = some e ∧
        ¬ ctx.Targeted s.store targets rows (.edge id) ∧
        ∀ v, ctx.Targeted s.store targets rows (.vertex v) → ¬ e.LeadsFrom .undirected v) ∧
      ∃ removed : List String, removed.Nodup ∧
        (∀ id, id ∈ removed ↔ (∃ v, s.store.vertex? id = some v) ∧ s'.store.vertex? id = none) ∧
        s'.stats.writes.nodesDeleted = s.stats.writes.nodesDeleted + removed.length) ∧
    ((∀ row ∈ rows, ∀ e ∈ targets, ∃ v, e.value (ctx.env s.store) row = .ok v ∧ v.Removable) →
      ((∃ err s', ctx.delete detach targets rows s = (.error err, s')) ↔
        detach = false ∧ ctx.LeftOver targets rows s.store)) := by
  obtain ⟨r, hcollect, hfine⟩ := exists_doomed_iff ctx targets rows s
  obtain ⟨err, hdoomed, hrun⟩ | ⟨⟨d, hdoomed⟩, ⟨hdetach, hleft, err, s', hrun, hidle⟩ |
    ⟨hnot, d', s₁, s', hrun, hidle, hremoved, hdistinct, hvertex, hedge⟩⟩ :=
    delete_cases detach h hstored
  · rw [hrun]
    refine ⟨?_, nofun, fun hvalues => ?_⟩
    · rintro _ _ ⟨⟩
      exact ⟨rfl, rfl⟩
    · obtain ⟨d, rfl⟩ := hfine.2 hvalues
      cases hcollect.symm.trans hdoomed
  · rw [hrun]
    refine ⟨?_, nofun, fun _ => iff_of_true ⟨_, _, rfl⟩ ⟨hdetach, hleft⟩⟩
    rintro _ _ ⟨⟩
    exact ⟨hidle.store, hidle.writes⟩
  · rw [hrun]
    have hok : ∀ err t, ((.ok (), s') : Except Error Unit × RunState) ≠ (.error err, t) :=
      fun err t heq => nomatch congrArg Prod.fst heq
    refine ⟨fun err t heq => absurd heq (hok err t), ?_,
      fun _ => iff_of_false (fun ⟨err, t, heq⟩ => hok err t heq) hnot⟩
    rintro _ ⟨⟩
    have h₁ : s₁.store.Consistent := hidle.store ▸ h
    obtain ⟨hvertices, hcounted⟩ := vertex?_removeAll h₁ hremoved
    have hedges := edge?_removeAll h₁ hremoved
    rw [hidle.store] at hvertices
    rw [hidle.writes] at hcounted
    simp only [hidle.store, hvertex] at hedges
    refine ⟨fun id v => (hvertices id v).trans (and_congr_right fun _ => not_congr (hvertex id)),
      fun id e => ?_, d'.vertices, hdistinct.vertices, fun id => ?_, hcounted⟩
    · -- an edge that the reader sees at a target is removed as such, and any other with its end
      rw [hedges, hedge]
      refine and_congr_right fun he => ⟨fun ⟨hkept, hends⟩ => ⟨fun ht => hkept (Or.inl ht), hends⟩,
        fun ⟨hkept, hends⟩ => ⟨?_, hends⟩⟩
      rintro (ht | ⟨v, hv, hid⟩)
      · exact hkept ht
      · obtain ⟨e', he', -, hlead⟩ := (Store.mem_incidentIds h).1 hid
        cases he.symm.trans (Option.filter_eq_some_iff.1 he').1
        exact hends v hv hlead
    · constructor
      · intro hid
        refine ⟨hstored _ ((hvertex id).1 hid), Option.eq_none_iff_forall_ne_some.2 fun v hv => ?_⟩
        exact ((hvertices id v).1 hv).2 hid
      · rintro ⟨⟨v, hv⟩, hnone⟩
        by_contra hid
        cases hnone.symm.trans ((hvertices id v).2 ⟨hv, hid⟩)

open Search (plainContext)

theorem stored_joined (visibility : String) (x : ElementId)
    (hx : plainContext.Targeted (joined visibility).store [.var "n"] [startRow, startRow] x) :
    (joined visibility).store.Stores x := by
  obtain ⟨row, hrow, target, htarget, v, hv, hholds⟩ := hx
  obtain rfl : row = startRow := by simpa using hrow
  rw [List.mem_singleton.1 htarget] at hv
  cases hv
  cases hholds
  exact ⟨_, rfl⟩

/-- A vertex that is named twice, and whose only edge the reader does not see. -/
theorem delete_whole_secret :
    (joined "secret").store.Consistent ∧
    (∀ x, plainContext.Targeted (joined "secret").store [.var "n"] [startRow, startRow] x →
      (joined "secret").store.Stores x) ∧
    ∃ s', plainContext.delete false [.var "n"] [startRow, startRow] (joined "secret") = (.ok (), s') ∧
      (∀ id v, s'.store.vertex? id = some v ↔ (joined "secret").store.vertex? id = some v ∧
        ¬ plainContext.Targeted (joined "secret").store [.var "n"] [startRow, startRow]
          (.vertex id)) ∧
      ∃ removed : List String, removed.Nodup ∧
        (∀ id, id ∈ removed ↔
          (∃ v, (joined "secret").store.vertex? id = some v) ∧ s'.store.vertex? id = none) ∧
        s'.stats.writes.nodesDeleted = 0 + removed.length :=
  have hstored := stored_joined "secret"
  have hwhole := (@delete_whole _ false _ _ _ (consistent_joined "secret") hstored).2.1 _ rfl
  ⟨consistent_joined "secret", hstored, _, rfl, hwhole.1, hwhole.2.2⟩

end RunContext

end PropertyGraph
