import PropertyGraph.Proofs.Pattern.Built
import PropertyGraph.Proofs.Pattern.Exact
import PropertyGraph.Proofs.Run.Invariant
import PropertyGraph.Proofs.Store.Reachable
import PropertyGraph.Proofs.Store.Removal
import PropertyGraph.Run.Writing

/-!
# What a deletion removes

A deletion first collects what its targets name, then makes sure that no vertex among them keeps an
edge, and only then removes anything.  The edges of a vertex are looked up for the reader, while
the removal of a vertex takes all its edges along: where the reader sees the edges of all targets,
exactly the edges that the targets name are gone afterwards.

    Value.Holds              the elements that a value stands for
    RunContext.Targeted      the elements that some targets name in some rows
    mem_doomed               what is collected
    withIncident_spec        the edges that the reader sees at the vertices, or the refusal
    withIncident_refuses     no vertex keeps an edge that the reader sees
    edge?_removeAll          what is left in the end
-/

namespace PropertyGraph

/-! ## What a value stands for -/

/-- The value is an element, a path along it, or a list with a value that holds it. -/
inductive Value.Holds : Value → ElementId → Prop
  | node (v : Vertex) : Holds (.node v) (.vertex v.id)
  | relationship (e : Edge) : Holds (.relationship e) (.edge e.id)
  | pathVertex {p : Path} {v : Vertex} : v ∈ p.vertices → Holds (.path p) (.vertex v.id)
  | pathEdge {p : Path} {e : Edge} : e ∈ p.edges → Holds (.path p) (.edge e.id)
  | item {items : List Value} {v : Value} {x : ElementId} :
    v ∈ items → Holds v x → Holds (.list items) x

namespace Doomed

variable {d d' : Doomed} {x : ElementId} {id : String}

/-- The element is among those to be removed. -/
def Has (d : Doomed) : ElementId → Prop
  | .vertex id => id ∈ d.vertices
  | .edge id => id ∈ d.edges

theorem not_has_none : ¬ none.Has x := by
  cases x <;> exact List.not_mem_nil

theorem mem_note {ids : List String} {other : String} :
    other ∈ note ids id ↔ other ∈ ids ∨ other = id := by
  unfold note
  split
  · next h =>
    refine ⟨Or.inl, fun hmem => hmem.elim (fun hold => hold) ?_⟩
    rintro rfl
    exact List.contains_iff_mem.1 h
  · rw [List.mem_append, List.mem_singleton]

theorem has_addVertex : (d.addVertex id).Has x ↔ d.Has x ∨ x = .vertex id := by
  cases x with
  | vertex other => exact mem_note.trans (or_congr_right (by simp))
  | edge other => exact (or_iff_left nofun).symm

theorem has_addEdge : (d.addEdge id).Has x ↔ d.Has x ∨ x = .edge id := by
  cases x with
  | vertex other => exact (or_iff_left nofun).symm
  | edge other => exact mem_note.trans (or_congr_right (by simp))

/-- What one step adds to a collection, all steps add. -/
theorem has_foldl {α : Type} {step : Doomed → α → Doomed} (Adds : α → ElementId → Prop)
    (hstep : ∀ d a, (step d a).Has x ↔ d.Has x ∨ Adds a x) (as : List α) :
    (as.foldl step d).Has x ↔ d.Has x ∨ ∃ a ∈ as, Adds a x := by
  induction as generalizing d with
  | nil => simp
  | cons a rest ih =>
    rw [List.foldl_cons, ih, hstep, or_assoc]
    simp

mutual

/-- A value adds what it holds. -/
theorem has_add {d d' : Doomed} {v : Value} (h : d.add v = .ok d') : d'.Has x ↔ d.Has x ∨ v.Holds x := by
  cases v with
  | null => cases h; exact (or_iff_left nofun).symm
  | node v =>
    cases h
    refine has_addVertex.trans (or_congr_right ⟨?_, ?_⟩)
    · rintro rfl; exact .node v
    · rintro ⟨⟩; rfl
  | relationship e =>
    cases h
    refine has_addEdge.trans (or_congr_right ⟨?_, ?_⟩)
    · rintro rfl; exact .relationship e
    · rintro ⟨⟩; rfl
  | path p =>
    cases h
    rw [has_foldl (fun id x => x = .vertex id) fun _ _ => has_addVertex,
      has_foldl (fun id x => x = .edge id) fun _ _ => has_addEdge, or_assoc]
    refine or_congr_right ⟨?_, ?_⟩
    · rintro (⟨id, hid, rfl⟩ | ⟨id, hid, rfl⟩) <;> obtain ⟨part, hpart, rfl⟩ := List.mem_map.1 hid
      · exact .pathEdge hpart
      · exact .pathVertex hpart
    · rintro (_ | _ | hpart | hpart)
      · exact Or.inr ⟨_, List.mem_map_of_mem hpart, rfl⟩
      · exact Or.inl ⟨_, List.mem_map_of_mem hpart, rfl⟩
  | list items =>
    refine (has_addItems h).trans (or_congr_right ⟨?_, ?_⟩)
    · rintro ⟨v, hv, hx⟩; exact .item hv hx
    · rintro (_ | _ | _ | _ | ⟨hv, hx⟩); exact ⟨_, hv, hx⟩
  | bool _ | int _ | float _ | text _ | map _ | duration _ | date _ => cases h

theorem has_addItems {d d' : Doomed} {items : List Value} (h : d.addItems items = .ok d') :
    d'.Has x ↔ d.Has x ∨ ∃ v ∈ items, v.Holds x := by
  cases items with
  | nil => cases h; simp
  | cons v rest =>
    unfold addItems at h
    split at h
    · next d₁ hv =>
      rw [has_addItems h, has_add hv, or_assoc]
      simp
    · cases h

end

/-- No id comes twice. -/
structure Distinct (d : Doomed) : Prop where
  vertices : d.vertices.Nodup
  edges : d.edges.Nodup

theorem nodup_note {ids : List String} (h : ids.Nodup) : (note ids id).Nodup := by
  unfold note
  split
  · exact h
  · next hnot =>
    have hnot : id ∉ ids := fun hmem => hnot (List.contains_iff_mem.2 hmem)
    exact List.nodup_append.2 ⟨h, List.nodup_singleton id, by
      rintro other hother _ hid rfl
      exact hnot (List.mem_singleton.1 hid ▸ hother)⟩

theorem Distinct.addVertex (h : d.Distinct) : (d.addVertex id).Distinct :=
  ⟨nodup_note h.vertices, h.edges⟩

theorem Distinct.addEdge (h : d.Distinct) : (d.addEdge id).Distinct :=
  ⟨h.vertices, nodup_note h.edges⟩

/-- The edges at a vertex are added, unless one of them has to go and may not. -/
theorem addIncident_spec (detach : Bool) (vertex : String) (d : Doomed) (ids : List String) :
    (d.addIncident detach vertex ids = .error (.stillConnected vertex) ∧ detach = false ∧
      ∃ id ∈ ids, id ∉ d.edges) ∨
    ∃ d', d.addIncident detach vertex ids = .ok d' ∧ d'.vertices = d.vertices ∧
      (d.Distinct → d'.Distinct) ∧ (∀ id, id ∈ d'.edges ↔ id ∈ d.edges ∨ id ∈ ids) ∧
      (detach = false → d' = d) := by
  unfold addIncident
  have hnew : ∀ id, id ∈ ids.filter (!d.edges.contains ·) ↔ id ∈ ids ∧ id ∉ d.edges := by simp
  generalize ids.filter (!d.edges.contains ·) = new at hnew
  dsimp only
  split
  · next hrefused =>
    obtain ⟨hdetach, hempty⟩ := Bool.and_eq_true_iff.1 hrefused
    obtain ⟨id, rest, rfl⟩ : ∃ id rest, new = id :: rest := by
      cases new with
      | nil => cases hempty
      | cons id rest => exact ⟨id, rest, rfl⟩
    exact Or.inl ⟨rfl, by simpa using hdetach, id, (hnew id).1 List.mem_cons_self⟩
  · next hpassed =>
    refine Or.inr ⟨_, rfl, ?_, fun h => ?_, fun other => ?_, fun hdetach => ?_⟩
    · exact List.foldlRecOn (motive := fun d' : Doomed => d'.vertices = d.vertices) _ _ rfl
        fun d' hd' id _ => hd'
    · exact List.foldlRecOn (motive := Distinct) _ _ h fun d' hd' id _ => hd'.addEdge
    · refine (has_foldl (x := .edge other) (fun id x => x = .edge id) (fun _ _ => has_addEdge)
        new).trans (or_congr_right' fun hnot => ⟨?_, fun hother => ?_⟩)
      · rintro ⟨id, hid, ⟨⟩⟩
        exact ((hnew other).1 hid).1
      · exact ⟨other, (hnew other).2 ⟨hother, hnot⟩, rfl⟩
    · subst hdetach
      obtain rfl : new = [] := by simpa using hpassed
      rfl

end Doomed

theorem Run.write_apply (f : Store → Except StoreError Store) (s : RunState) :
    Run.write f s = match f s.store with
      | .ok σ => (.ok (), { s with store := σ })
      | .error e => (.error (.store e), s) :=
  rfl

/-! ## What is collected -/

/-- What each step of a fold adds, the whole fold adds.  No step touches the state. -/
theorem Doomed.has_foldlM {α : Type} {step : Doomed → α → Run Doomed} {s : RunState}
    (Adds : α → ElementId → Prop)
    (hstep : ∀ d a, ∃ r, step d a s = (r, s) ∧
      ∀ d', r = .ok d' → ∀ x, d'.Has x ↔ d.Has x ∨ Adds a x)
    (d : Doomed) (as : List α) : ∃ r, as.foldlM step d s = (r, s) ∧
      ∀ d', r = .ok d' → ∀ x, d'.Has x ↔ d.Has x ∨ ∃ a ∈ as, Adds a x := by
  induction as generalizing d with
  | nil => exact ⟨.ok d, rfl, fun d' h x => by cases h; simp⟩
  | cons a rest ih =>
    obtain ⟨r, hr, hadds⟩ := hstep d a
    rw [List.foldlM_cons, Run.bind_apply, hr]
    cases r with
    | error e => exact ⟨.error e, rfl, nofun⟩
    | ok d₁ =>
      obtain ⟨r', hr', hrest⟩ := ih d₁
      refine ⟨r', hr', fun d' h x => ?_⟩
      rw [hrest d' h, hadds d₁ rfl, or_assoc]
      simp

namespace RunContext

variable {ctx : RunContext} {σ : Store} {targets : List Expr} {rows : List Row} {x : ElementId}

/-- Some target has a value in some row that holds the element. -/
def Targeted (ctx : RunContext) (σ : Store) (targets : List Expr) (rows : List Row)
    (x : ElementId) : Prop :=
  ∃ row ∈ rows, ∃ e ∈ targets, ∃ v, e.value (ctx.env σ) row = .ok v ∧ v.Holds x

theorem has_doomed (ctx : RunContext) (targets : List Expr) (rows : List Row) (s : RunState) :
    ∃ r, ctx.doomed targets rows s = (r, s) ∧
      ∀ d, r = .ok d → ∀ x, d.Has x ↔ ctx.Targeted s.store targets rows x := by
  have htarget : ∀ row d e, ∃ r,
      (do Run.lift (Doomed.add d (← ctx.value e row)) : Run Doomed) s = (r, s) ∧
        ∀ d', r = .ok d' → ∀ x,
          d'.Has x ↔ d.Has x ∨ ∃ v, e.value (ctx.env s.store) row = .ok v ∧ v.Holds x := by
    intro row d e
    refine ⟨_, Run.bind_still (h := d.add) rfl fun v => rfl, fun d' h x => ?_⟩
    obtain ⟨v, hv, hd'⟩ := ok_of_bind h
    rw [Doomed.has_add hd', hv]
    simp
  obtain ⟨r, hr, hadds⟩ := Doomed.has_foldlM _
    (fun d row => Doomed.has_foldlM _ (htarget row) d targets) .none rows
  exact ⟨r, hr, fun d hd x => (hadds d hd x).trans (or_iff_right Doomed.not_has_none)⟩

/-! ## The guard -/

/-- The edges that the reader sees at the vertices are added, and nothing else is done.  Without
`detach` that is refused where it would add any. -/
theorem withIncident_spec (ctx : RunContext) (detach : Bool) (d : Doomed) (s : RunState) :
    ∃ r s', ctx.withIncident detach d s = (r, s') ∧ s.Unwritten s' ∧
      ((detach = false ∧ ∃ v ∈ d.vertices, r = .error (.stillConnected v) ∧
          ∃ id ∈ s.store.incidentIds ctx.reader v .undirected [], id ∉ d.edges) ∨
        ∃ d', r = .ok d' ∧ d'.vertices = d.vertices ∧ (d.Distinct → d'.Distinct) ∧
          (∀ id, id ∈ d'.edges ↔ id ∈ d.edges ∨
            ∃ v ∈ d.vertices, id ∈ s.store.incidentIds ctx.reader v .undirected []) ∧
          (detach = false → d' = d)) := by
  unfold withIncident
  have key : ∀ (vs : List String) (d : Doomed) (s : RunState), ∃ r s',
      (vs.foldlM (fun d id => do
        let ids := (← Run.store).incidentIds ctx.reader id .undirected []
        Run.update (·.request 1)
        Run.lift (d.addIncident detach id ids)) d : Run Doomed) s = (r, s') ∧ s.Unwritten s' ∧
      ((detach = false ∧ ∃ v ∈ vs, r = .error (.stillConnected v) ∧
          ∃ id ∈ s.store.incidentIds ctx.reader v .undirected [], id ∉ d.edges) ∨
        ∃ d', r = .ok d' ∧ d'.vertices = d.vertices ∧ (d.Distinct → d'.Distinct) ∧
          (∀ id, id ∈ d'.edges ↔ id ∈ d.edges ∨
            ∃ v ∈ vs, id ∈ s.store.incidentIds ctx.reader v .undirected []) ∧
          (detach = false → d' = d)) := by
    intro vs
    induction vs with
    | nil =>
      exact fun d s => ⟨.ok d, s, rfl, ⟨rfl, rfl⟩, Or.inr ⟨d, rfl, rfl, fun h => h, by simp,
        fun _ => rfl⟩⟩
    | cons v rest ih =>
      intro d s
      have hstep : (do
          let ids := (← Run.store).incidentIds ctx.reader v .undirected []
          Run.update (·.request 1)
          Run.lift (d.addIncident detach v ids) : Run Doomed) s =
            (d.addIncident detach v (s.store.incidentIds ctx.reader v .undirected []),
              s.request 1) := rfl
      rw [List.foldlM_cons, Run.bind_apply, hstep]
      obtain ⟨hrefused, hdetach, hkept⟩ | ⟨d₁, hadded, hvertices₁, hdistinct₁, hedges₁, hsame₁⟩ :=
        Doomed.addIncident_spec detach v d (s.store.incidentIds ctx.reader v .undirected [])
      · rw [hrefused]
        exact ⟨_, _, rfl, ⟨rfl, rfl⟩, Or.inl ⟨hdetach, v, List.mem_cons_self, rfl, hkept⟩⟩
      · rw [hadded]
        obtain ⟨r, s', hrun, hidle, hcases⟩ := ih d₁ (s.request 1)
        refine ⟨r, s', hrun, ⟨hidle.store, hidle.writes⟩, hcases.imp ?_ ?_⟩
        · rintro ⟨hdetach, w, hw, hr, hkept⟩
          rw [hsame₁ hdetach] at hkept
          exact ⟨hdetach, w, List.mem_cons_of_mem _ hw, hr, hkept⟩
        · rintro ⟨d', hr, hvertices, hdistinct, hedges, hsame⟩
          refine ⟨d', hr, hvertices.trans hvertices₁, fun h => hdistinct (hdistinct₁ h),
            fun id => ?_, fun hdetach => (hsame hdetach).trans (hsame₁ hdetach)⟩
          rw [hedges, hedges₁, or_assoc, List.exists_mem_cons_iff]
          rfl
  exact key d.vertices d s

/-- Without `detach` nothing is added; it fails where a vertex keeps an edge that the reader sees. -/
theorem withIncident_refuses (ctx : RunContext) (d : Doomed) (s : RunState) :
    ∃ r s', ctx.withIncident false d s = (r, s') ∧ s'.store = s.store ∧
      ((r = .ok d ∧ ∀ id ∈ d.vertices,
          ∀ other ∈ s.store.incidentIds ctx.reader id .undirected [], other ∈ d.edges) ∨
        ∃ id ∈ d.vertices, r = .error (.stillConnected id)) := by
  obtain ⟨r, s', hrun, hidle, hcases⟩ := withIncident_spec ctx false d s
  refine ⟨r, s', hrun, hidle.store, hcases.symm.imp ?_ ?_⟩
  · rintro ⟨d', rfl, -, -, hedges, hsame⟩
    obtain rfl := hsame rfl
    exact ⟨rfl, fun v hv other hother => (hedges other).2 (Or.inr ⟨v, hv, hother⟩)⟩
  · rintro ⟨-, v, hv, hr, -⟩
    exact ⟨v, hv, hr⟩

/-! ## The removal -/

/-- Removals one after the other leave what each of them leaves.  What is left is told by how the
elements of one kind are looked up. -/
theorem left_forM {α : Type} (look? : Store → String → Option α)
    {remove : String → Store → Except StoreError Store} {count : WriteCounts → WriteCounts}
    (Takes : String → String → α → Prop)
    (hstep : ∀ {id} {σ τ : Store}, σ.Consistent → remove id σ = .ok τ → τ.Consistent ∧
      ∀ other a, look? τ other = some a ↔ look? σ other = some a ∧ ¬ Takes id other a)
    {ids : List String} {s s' : RunState} (h : s.store.Consistent)
    (hrun : (ids.forM fun id => do Run.write (remove id); Run.countWrites count : Run Unit) s =
      (.ok (), s')) :
    s'.store.Consistent ∧ ∀ other a, look? s'.store other = some a ↔
      look? s.store other = some a ∧ ∀ id ∈ ids, ¬ Takes id other a := by
  induction ids generalizing s with
  | nil => cases hrun; exact ⟨h, fun other a => by simp⟩
  | cons id rest ih =>
    rw [List.forM, Run.bind_apply, Run.bind_apply, Run.write_apply] at hrun
    cases hwrite : remove id s.store with
    | error err => rw [hwrite] at hrun; cases hrun
    | ok τ =>
      rw [hwrite] at hrun
      change (rest.forM _ : Run Unit) (RunState.countWrites { s with store := τ } count) = _ at hrun
      obtain ⟨hτ, hleft⟩ := hstep h hwrite
      obtain ⟨hs', hrest⟩ := ih (s := RunState.countWrites { s with store := τ } count) hτ hrun
      refine ⟨hs', fun other a => ?_⟩
      rw [hrest, List.forall_mem_cons, ← and_assoc]
      exact and_congr_left fun _ => hleft other a

/-- The edges that are left: those that are not to be removed and have no end that is. -/
theorem edge?_removeAll {d : Doomed} {s s' : RunState} (h : s.store.Consistent)
    (hrun : removeAll d s = (.ok (), s')) (id : String) (e : Edge) :
    s'.store.edge? id = some e ↔ s.store.edge? id = some e ∧ id ∉ d.edges ∧
      ∀ v ∈ d.vertices, ¬ e.LeadsFrom .undirected v := by
  unfold removeAll at hrun
  rw [Run.bind_apply] at hrun
  split at hrun
  · next u s₁ hedges =>
    obtain ⟨h₁, hleft₁⟩ := left_forM Store.edge? (fun id other _ => other = id)
      Store.edge?_removeEdge h hedges
    obtain ⟨-, hleft⟩ := left_forM Store.edge?
      (fun id _ e => e.LeadsFrom .undirected id) Store.edge?_removeVertex h₁ hrun
    rw [hleft, hleft₁, and_assoc, List.forall_mem_ne]
  · cases hrun

/-! ## Deletion -/

/-- Where the reader sees every edge at a vertex among the targets, a deletion without `detach`
either takes the edges among the targets and no others, or it fails and removes nothing.  It fails
if a vertex among the targets has an edge that is not among them. -/
theorem delete_takes_targets {ctx : RunContext} {targets : List Expr} {rows : List Row}
    {s : RunState} (h : s.store.Consistent)
    (hsees : ∀ v id e, ctx.Targeted s.store targets rows (.vertex v) →
      s.store.edge? id = some e → e.LeadsFrom .undirected v →
      ¬ ctx.Targeted s.store targets rows (.edge id) → ctx.reader.canRead e.visibility = true) :
    (∀ s', ctx.delete false targets rows s = (.ok (), s') → ∀ id e,
      s'.store.edge? id = some e ↔
        s.store.edge? id = some e ∧ ¬ ctx.Targeted s.store targets rows (.edge id)) ∧
    ∀ v id e, ctx.Targeted s.store targets rows (.vertex v) → s.store.edge? id = some e →
      e.LeadsFrom .undirected v → ¬ ctx.Targeted s.store targets rows (.edge id) →
      ∃ err s', ctx.delete false targets rows s = (.error err, s') ∧ s'.store = s.store ∧
        ((∃ w, err = .stillConnected w) ∨ (ctx.doomed targets rows s).1 = .error err) := by
  unfold delete
  obtain ⟨r, hcollect, hhas⟩ := has_doomed ctx targets rows s
  rw [Run.bind_apply, hcollect]
  cases r with
  | error err => exact ⟨nofun, fun _ _ _ _ _ _ _ => ⟨err, s, rfl, rfl, Or.inr rfl⟩⟩
  | ok d =>
    obtain ⟨r, s₁, hguard, hstore, hcases⟩ := withIncident_refuses ctx d s
    have hvertex := fun v => hhas d rfl (.vertex v)
    have hedge := fun id => hhas d rfl (.edge id)
    simp only [Run.bind_apply, hguard]
    -- an edge at a vertex among the targets gets past the guard only as a target itself
    have hpassed : ∀ v id e, (∀ v ∈ d.vertices,
        ∀ other ∈ s.store.incidentIds ctx.reader v .undirected [], other ∈ d.edges) →
        v ∈ d.vertices → s.store.edge? id = some e → e.LeadsFrom .undirected v → id ∈ d.edges := by
      intro v id e hall hv he hlead
      by_contra hnot
      have hread := hsees v id e ((hvertex v).1 hv) he hlead fun h => hnot ((hedge id).2 h)
      refine hnot (hall v hv id ((Store.mem_incidentIds h).2 ⟨e, ?_, rfl, hlead⟩))
      rw [Store.getEdge?, he, Option.filter_some, if_pos hread]
    refine ⟨fun s' hrun id e => ?_, fun v id e hv he hlead hnot => ?_⟩
    · obtain ⟨rfl, hall⟩ | ⟨w, -, rfl⟩ := hcases
      · rw [edge?_removeAll (hstore ▸ h) hrun, hstore, ← hedge]
        refine and_congr_right fun he => and_iff_left_of_imp fun hnot v hv hlead => ?_
        exact hnot (hpassed v id e hall hv he hlead)
      · cases hrun
    · obtain ⟨rfl, hall⟩ | ⟨w, -, rfl⟩ := hcases
      · exact absurd ((hedge id).1 (hpassed v id e hall ((hvertex v).2 hv) he hlead)) hnot
      · exact ⟨_, s₁, rfl, hstore, Or.inl ⟨w, rfl⟩⟩

/-! ## One edge -/

open Search (plainContext)

/-- A store with one edge, between two vertices that everybody sees. -/
def joined (visibility : String) : RunState :=
  { RunState.initial with
    store := [.addVertex "x" [] [] "", .addVertex "y" [] [] "",
      .addEdge "e" "R" "x" "y" [] visibility].foldl Store.after .empty }

/-- The row that binds a name to the first of the vertices. -/
def startRow : Row := Row.empty.set "n" (.node ⟨"x", [], [], ""⟩)

theorem consistent_joined (visibility : String) : (joined visibility).store.Consistent :=
  Store.consistent_empty.foldl_after _

theorem visibility_joined {visibility id : String} {e : Edge}
    (he : (joined visibility).store.edge? id = some e) : e.visibility = visibility := by
  obtain ⟨-, i, hi⟩ := (Store.edge?_eq_some (consistent_joined visibility)).1 he
  match i with
  | 0 => cases hi; rfl
  | _ + 1 => cases hi

theorem delete_takes_targets_joined :
    (∀ s', plainContext.delete false [.var "n"] [startRow] (joined "") = (.ok (), s') → ∀ id e,
      s'.store.edge? id = some e ↔ (joined "").store.edge? id = some e ∧
        ¬ plainContext.Targeted (joined "").store [.var "n"] [startRow] (.edge id)) ∧
    ∀ v id e, plainContext.Targeted (joined "").store [.var "n"] [startRow] (.vertex v) →
      (joined "").store.edge? id = some e → e.LeadsFrom .undirected v →
      ¬ plainContext.Targeted (joined "").store [.var "n"] [startRow] (.edge id) →
      ∃ err s', plainContext.delete false [.var "n"] [startRow] (joined "") = (.error err, s') ∧
        s'.store = (joined "").store ∧ ((∃ w, err = .stillConnected w) ∨
          (plainContext.doomed [.var "n"] [startRow] (joined "")).1 = .error err) :=
  delete_takes_targets (consistent_joined "") fun v id e _ he _ _ => by
    rw [visibility_joined he]
    rfl

/-- The edge of a vertex goes with it unasked where the reader does not see the edge. -/
theorem unseen_edge_taken : ¬ ∀ (ctx : RunContext) (targets : List Expr) (rows : List Row)
    (s s' : RunState), s.store.Consistent → ctx.delete false targets rows s = (.ok (), s') →
    ∀ id e, s.store.edge? id = some e → s'.store.edge? id = none →
      ctx.Targeted s.store targets rows (.edge id) := by
  intro h
  obtain ⟨row, hrow, target, htarget, v, hv, hholds⟩ := h plainContext [.var "n"] [startRow]
    (joined "secret") _ (consistent_joined "secret") rfl "e" ⟨"e", "R", "x", "y", [], "secret"⟩
    rfl rfl
  rw [List.mem_singleton.1 hrow, List.mem_singleton.1 htarget] at hv
  cases hv
  cases hholds

end RunContext

end PropertyGraph
