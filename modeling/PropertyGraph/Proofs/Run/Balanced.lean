import PropertyGraph.Proofs.Run.Columns
import PropertyGraph.Proofs.Run.Deletion
import PropertyGraph.Proofs.Run.Unwritten
import PropertyGraph.Proofs.Store.Totals

/-!
# Balanced counts

A statement counts its writes beside the writes themselves.  The counts are right if what the store
holds, less what has been counted as new and more what has been counted as gone, never changes.  A
creation counts each element when it has been added.  A deletion collects the edges at its vertices
first, so that a vertex has none left when it is removed, and none goes uncounted.

    RunState.vertexBalance, ...   what is to stay the same
    Balanced                      the invariant of a run
    RunContext.keeps_create       creation keeps it
    RunContext.keeps_delete       and so does deletion
-/

namespace PropertyGraph

variable {α : Type}

/-! ## The invariant -/

namespace RunState

/-- The vertices, less those counted as created and more those counted as deleted. -/
def vertexBalance (s : RunState) : Int :=
  s.store.vertexCount - s.stats.writes.nodesCreated + s.stats.writes.nodesDeleted

/-- The edges, less those counted as created and more those counted as deleted. -/
def edgeBalance (s : RunState) : Int :=
  s.store.edgeCount - s.stats.writes.relationshipsCreated + s.stats.writes.relationshipsDeleted

/-- The labels of all vertices, less those counted as added and more those counted as removed. -/
def labelBalance (s : RunState) : Int :=
  s.store.labelPairs - s.stats.writes.labelsAdded + s.stats.writes.labelsRemoved

end RunState

/-- The reader sees all of a consistent store, and the counts are those of what has been written
since the first state.  Of labels that is said where they are counted `once` each, and as long as no
vertex has been deleted. -/
structure Balanced (reader : Authorizations) (once : Prop) (s₀ s : RunState) : Prop where
  consistent : s.store.Consistent
  visible : s.store.Visible reader
  vertices : s.vertexBalance = s₀.vertexBalance
  edges : s.edgeBalance = s₀.edgeBalance
  labels : once → s.stats.writes.nodesDeleted = 0 → s.labelBalance = s₀.labelBalance

namespace Balanced

variable {reader : Authorizations} {once : Prop} {s₀ s t : RunState}

/-- A store with as much in it, and the same counts of elements and labels. -/
theorem congr (h : Balanced reader once s₀ s) (hconsistent : t.store.Consistent)
    (hvisible : t.store.Visible reader) (hvertices : t.vertexBalance = s.vertexBalance)
    (hedges : t.edgeBalance = s.edgeBalance)
    (hlabels : once → t.stats.writes.nodesDeleted = 0 →
      s.stats.writes.nodesDeleted = 0 ∧ t.labelBalance = s.labelBalance) :
    Balanced reader once s₀ t where
  consistent := hconsistent
  visible := hvisible
  vertices := hvertices.trans h.vertices
  edges := hedges.trans h.edges
  labels honce hnone := (hlabels honce hnone).2.trans (h.labels honce (hlabels honce hnone).1)

instance : OfWrites (Balanced reader once s₀) where
  unwritten {s t} hst h := by
    obtain ⟨hstore, hwrites⟩ := hst
    refine h.congr (hstore ▸ h.consistent) (hstore ▸ h.visible) ?_ ?_ fun _ hnone => ⟨?_, ?_⟩
    · unfold RunState.vertexBalance
      rw [hstore, hwrites]
    · unfold RunState.edgeBalance
      rw [hstore, hwrites]
    · rw [← hwrites]
      exact hnone
    · unfold RunState.labelBalance
      rw [hstore, hwrites]

theorem defineAll (h : Balanced reader once s₀ s) (properties : List (String × Value)) :
    Balanced reader once s₀ { s with store := s.store.defineAll properties } := by
  have hconsistent := h.consistent.defineAll properties
  obtain ⟨d, hd⟩ := Store.defineAll_eq s.store properties
  rw [hd] at hconsistent ⊢
  exact h.congr hconsistent ⟨h.visible.vertices, h.visible.edges⟩ rfl rfl
    fun _ hnone => ⟨hnone, rfl⟩

/-- Another store with other counts, which differ as the stores do. -/
theorem write (h : Balanced reader once s₀ s) {τ : Store} {count : WriteCounts → WriteCounts}
    (hconsistent : τ.Consistent) (hvisible : τ.Visible reader)
    (hvertices : τ.vertexCount + s.stats.writes.nodesCreated + (count s.stats.writes).nodesDeleted =
      s.store.vertexCount + (count s.stats.writes).nodesCreated + s.stats.writes.nodesDeleted)
    (hedges : τ.edgeCount + s.stats.writes.relationshipsCreated +
        (count s.stats.writes).relationshipsDeleted =
      s.store.edgeCount + (count s.stats.writes).relationshipsCreated +
        s.stats.writes.relationshipsDeleted)
    (hlabels : once → (count s.stats.writes).nodesDeleted = 0 → s.stats.writes.nodesDeleted = 0 ∧
      τ.labelPairs + s.stats.writes.labelsAdded + (count s.stats.writes).labelsRemoved =
        s.store.labelPairs + (count s.stats.writes).labelsAdded + s.stats.writes.labelsRemoved) :
    Balanced reader once s₀ (RunState.countWrites { s with store := τ } count) := by
  refine h.congr hconsistent hvisible ?_ ?_ fun honce hnone => ?_
  · unfold RunState.vertexBalance RunState.countWrites
    dsimp only
    omega
  · unfold RunState.edgeBalance RunState.countWrites
    dsimp only
    omega
  · obtain ⟨hbefore, hbalance⟩ := hlabels honce hnone
    refine ⟨hbefore, ?_⟩
    unfold RunState.labelBalance RunState.countWrites
    dsimp only
    omega

end Balanced

/-! ## Writing -/

/-- A write, counted after it has been made. -/
theorem Run.Keeps.written {I : RunState → Prop} {P : α → Prop} {f : Store → Except StoreError Store}
    {count : WriteCounts → WriteCounts} {k : Run α}
    (h : ∀ s τ, I s → f s.store = .ok τ → I (RunState.countWrites { s with store := τ } count))
    (hk : k.Keeps I P) : (do Run.write f; Run.countWrites count; k : Run α).Keeps I P := by
  intro s hs a t hrun
  rw [Run.bind_apply, Run.write_apply] at hrun
  split at hrun
  · next τ hτ =>
    split at hτ
    · next σ hσ => cases hτ; exact hk _ (h s _ hs hσ) a t hrun
    · cases hτ
  · cases hrun

namespace RunContext

variable {ctx : RunContext} {once : Prop} {s₀ : RunState}

/-! ## Creation -/

theorem keeps_prepare {reader : Authorizations} (name : String) (v : Value) :
    (prepare name v).Keeps (Balanced reader once s₀) Anything := by
  intro s hs a t hrun
  unfold prepare at hrun
  split at hrun
  · cases hrun
  · cases hrun
    exact ⟨hs.defineAll [(name, v)], trivial⟩

theorem keeps_storedProperties (row : Row) (ps : List (String × Expr)) :
    (ctx.storedProperties row ps).Keeps (Balanced ctx.reader once s₀) Anything := by
  induction ps with
  | nil => exact .ok trivial
  | cons p rest ih =>
    unfold storedProperties
    refine (Run.Keeps.of_idle (idle_value p.2 row)).bind fun v _ => ?_
    split
    · exact ih
    · exact (keeps_prepare _ v).bind fun _ _ => ih.bind fun more _ => .ok trivial

section Visible

variable (hread : ctx.reader.canRead ctx.visibility = true)

include hread

theorem keeps_createVertex (n : NodePattern) (row : Row) :
    (ctx.createVertex n row).Keeps (Balanced ctx.reader once s₀) Anything := by
  unfold createVertex
  refine (keeps_storedProperties row n.properties).bind fun properties _ => ?_
  refine (Run.Keeps.of_idle fun _ => ⟨rfl, rfl⟩).bind fun id _ => ?_
  refine .written (fun s τ hs hτ => ?_) (.ok trivial)
  have hreplaces := hs.consistent.replaces_addVertex hτ
  obtain ⟨hvertices, hedges, hlabels⟩ : τ.vertexCount = s.store.vertexCount + 1 ∧
      τ.edgeCount = s.store.edgeCount ∧ τ.labelPairs = s.store.labelPairs +
        (Names.ofList (n.labels.map ctx.config.label)).length := hreplaces.totals
  refine hs.write
    (hs.consistent.addVertex (Names.pairwise_ofList _) (Entries.sorted_ofList _) hτ)
    (hreplaces.visible hs.visible fun v hv => by cases hv; exact hread) ?_ ?_
    fun _ hnone => ⟨hnone, ?_⟩ <;> dsimp only <;> omega

theorem keeps_createNode (n : NodePattern) (row : Row) :
    (ctx.createNode n row).Keeps (Balanced ctx.reader once s₀) Anything := by
  unfold createNode
  split
  · exact (keeps_createVertex hread n row).bind fun v _ => .ok trivial
  · split
    · split
      · exact .fail
      · split
        · exact .ok trivial
        · exact .ok trivial
        · exact .fail
    · exact (keeps_createVertex hread n row).bind fun v _ => .ok trivial

theorem keeps_createNodes (ns : List NodePattern) (row : Row) :
    (ctx.createNodes row ns).Keeps (Balanced ctx.reader once s₀) Anything := by
  induction ns generalizing row with
  | nil => exact .ok trivial
  | cons n rest ih =>
    unfold createNodes
    exact (keeps_createNode hread n row).bind fun p _ => (ih p.2).bind fun p' _ => .ok trivial

theorem keeps_createEdge (r : RelationshipPattern) (left right : Option Vertex) (row : Row) :
    (ctx.createEdge r left right row).Keeps (Balanced ctx.reader once s₀) Anything := by
  unfold createEdge
  dsimp only
  split
  · exact nofun
  · split
    · refine (keeps_storedProperties row r.properties).bind fun properties _ => ?_
      refine (Run.Keeps.of_idle fun _ => ⟨rfl, rfl⟩).bind fun id _ => ?_
      refine .written (fun s τ hs hτ => ?_) (.ok trivial)
      have hreplaces := hs.consistent.replaces_addEdge hτ
      obtain ⟨hvertices, hedges, hlabels⟩ : τ.vertexCount = s.store.vertexCount ∧
          τ.edgeCount = s.store.edgeCount + 1 ∧ τ.labelPairs = s.store.labelPairs :=
        hreplaces.totals
      refine hs.write (hs.consistent.addEdge (Entries.sorted_ofList _) hτ)
        (hreplaces.visible hs.visible fun e he => by cases he; exact hread) ?_ ?_
        fun _ hnone => ⟨hnone, ?_⟩ <;> dsimp only <;> omega
    · exact .fail
    · exact .fail

theorem keeps_createEdges (rs : List RelationshipPattern) (vertices : List (Option Vertex))
    (row : Row) :
    (ctx.createEdges row rs vertices).Keeps (Balanced ctx.reader once s₀) Anything := by
  induction rs generalizing vertices row with
  | nil => exact .ok trivial
  | cons r rest ih =>
    match vertices with
    | [] => exact .ok trivial
    | [_] => exact .ok trivial
    | left :: right :: vertices =>
      unfold createEdges
      exact (keeps_createEdge hread r left right row).bind fun p _ =>
        (ih (right :: vertices) p.2).bind fun p' _ => .ok trivial

theorem keeps_finishPart (part : PatternPart) (vertices : List (Option Vertex)) (row : Row) :
    (ctx.finishPart part vertices row).Keeps (Balanced ctx.reader once s₀) Anything := by
  unfold finishPart
  refine (keeps_createEdges hread part.relationships vertices row).bind fun (edges, row) _ => ?_
  dsimp only
  split
  · exact .ok trivial
  · split
    · exact .ok trivial
    · exact .fail

theorem keeps_startParts (parts : List PatternPart) (row : Row) :
    (ctx.startParts row parts).Keeps (Balanced ctx.reader once s₀) Anything := by
  induction parts generalizing row with
  | nil => exact .ok trivial
  | cons part rest ih =>
    unfold startParts
    exact (keeps_createNodes hread part.nodes row).bind fun p _ =>
      (ih p.2).bind fun p' _ => .ok trivial

theorem keeps_create (parts : List PatternPart) (row : Row) :
    (ctx.create parts row).Keeps (Balanced ctx.reader once s₀) Anything :=
  (keeps_startParts hread parts row.child).bind fun _ _ =>
    .foldlM (fun (part, vertices) _ _ _ => keeps_finishPart hread part vertices _) trivial

theorem keeps_createApart (parts : List PatternPart) (row : Row) :
    (ctx.createApart parts row).Keeps (Balanced ctx.reader once s₀) Anything :=
  .foldlM (fun part _ _ _ => (keeps_create hread [part] row).bind fun _ _ =>
    (Run.Keeps.of_idle fun _ => ⟨rfl, rfl⟩).bind fun _ _ => .ok trivial) trivial

end Visible

/-! ## Deletion -/

/-- The edges at the vertices that are to be removed are to be removed as well. -/
theorem withIncident_ok {detach : Bool} {d d' : Doomed} {s t : RunState}
    (h : ctx.withIncident detach d s = (.ok d', t)) : s.Unwritten t ∧ d'.vertices = d.vertices ∧
      ∀ v ∈ d.vertices, ∀ id ∈ s.store.incidentIds ctx.reader v .undirected [], id ∈ d'.edges := by
  obtain ⟨r, s', hrun, hidle, hcases⟩ := withIncident_spec ctx detach d s
  rw [hrun] at h
  cases h
  obtain ⟨-, v, -, ⟨⟩, -⟩ | ⟨_, ⟨⟩, hvertices, -, hedges, -⟩ := hcases
  exact ⟨hidle, hvertices, fun v hv id hid => (hedges id).2 (Or.inr ⟨v, hv, hid⟩)⟩

theorem keeps_removeEdge {reader : Authorizations} (id : String) : (do
      Run.write (·.removeEdge id)
      Run.countWrites fun c => { c with relationshipsDeleted := c.relationshipsDeleted + 1 } :
      Run Unit).Keeps (Balanced reader once s₀) Anything := by
  refine .written (k := pure ()) (fun s τ hs hτ => ?_) (.ok trivial)
  obtain ⟨e, hreplaces⟩ := hs.consistent.replaces_removeEdge hτ
  obtain ⟨hvertices, hedges, hlabels⟩ : τ.vertexCount = s.store.vertexCount ∧
      τ.edgeCount + 1 = s.store.edgeCount ∧ τ.labelPairs = s.store.labelPairs := hreplaces.totals
  refine hs.write (Store.edge?_removeEdge hs.consistent hτ).1 (hreplaces.visible hs.visible nofun)
    ?_ ?_ fun _ hnone => ⟨hnone, ?_⟩ <;> dsimp only <;> omega

/-- None of the vertices that are to be removed has an edge. -/
def Bare (vs : List String) (s : RunState) : Prop :=
  ∀ v ∈ vs, ∀ id e, s.store.edge? id = some e → ¬ e.LeadsFrom .undirected v

theorem keeps_removeVertex {reader : Authorizations} {vs : List String} {id : String}
    (hid : id ∈ vs) : (do
      Run.write (·.removeVertex id)
      Run.countWrites fun c => { c with nodesDeleted := c.nodesDeleted + 1 } : Run Unit).Keeps
      (fun s => Balanced reader once s₀ s ∧ Bare vs s) Anything := by
  refine .written (k := pure ()) (fun s τ ⟨hs, hbare⟩ hτ => ?_) (.ok trivial)
  obtain ⟨hconsistent, hleft⟩ := Store.edge?_removeVertex hs.consistent hτ
  obtain ⟨v, hreplaces⟩ := hs.consistent.replaces_removeVertex (hbare id hid) hτ
  obtain ⟨hvertices, hedges, -⟩ : τ.vertexCount + 1 = s.store.vertexCount ∧
      τ.edgeCount = s.store.edgeCount ∧ τ.labelPairs + v.labels.length = s.store.labelPairs :=
    hreplaces.totals
  refine ⟨hs.write hconsistent (hreplaces.visible hs.visible nofun) ?_ ?_ nofun,
    fun v hv other e he => hbare v hv other e ((hleft other e).1 he).1⟩ <;> dsimp only <;> omega

/-- Where all edges of the vertices are to be removed too, they are gone before the vertices go. -/
theorem balanced_removeAll {reader : Authorizations} {d : Doomed} {s t : RunState}
    (hs : Balanced reader once s₀ s)
    (hedges : ∀ v ∈ d.vertices, ∀ id e, s.store.edge? id = some e → e.LeadsFrom .undirected v →
      id ∈ d.edges)
    (hrun : removeAll d s = (.ok (), t)) : Balanced reader once s₀ t := by
  unfold removeAll at hrun
  obtain ⟨_, s₁, hfirst, hrest⟩ := Run.ok_of_bind hrun
  have hs₁ := Run.Keeps.forM (fun id _ => keeps_removeEdge id) s hs () s₁ hfirst
  have hleft := (left_forM Store.edge? (fun id other _ => other = id)
    Store.edge?_removeEdge hs.consistent hfirst).2
  have hbare : Bare d.vertices s₁ := by
    intro v hv id e he hlead
    obtain ⟨he, hkept⟩ := (hleft id e).1 he
    exact hkept id (hedges v hv id e he hlead) rfl
  exact (Run.Keeps.forM (fun id hid => keeps_removeVertex hid) s₁ ⟨hs₁.1, hbare⟩ () t hrest).1.1

theorem keeps_delete (detach : Bool) (targets : List Expr) (rows : List Row) :
    (ctx.delete detach targets rows).Keeps (Balanced ctx.reader once s₀) Anything := by
  intro s hs _ t hrun
  unfold delete at hrun
  obtain ⟨d, s₁, hdoomed, hrest⟩ := Run.ok_of_bind hrun
  obtain ⟨d', s₂, hincident, hremove⟩ := Run.ok_of_bind hrest
  obtain ⟨r, hcollect, -⟩ := has_doomed ctx targets rows s
  obtain rfl : s = s₁ := congrArg Prod.snd (hcollect.symm.trans hdoomed)
  obtain ⟨hidle, hvertices, hall⟩ := withIncident_ok hincident
  have hs₂ : Balanced ctx.reader once s₀ s₂ := OfWrites.unwritten hidle hs
  refine ⟨balanced_removeAll hs₂ (fun v hv id e he hlead => ?_) hremove, trivial⟩
  rw [hvertices] at hv
  rw [hidle.store] at he
  have hget : s.store.getEdge? ctx.reader id = some e := by
    obtain ⟨-, i, hi⟩ := (Store.edge?_eq_some hs.consistent).1 he
    exact Option.filter_eq_some_iff.2 ⟨he, hs.visible.edges i e hi⟩
  exact hall v hv id ((Store.mem_incidentIds hs.consistent).2 ⟨e, hget, rfl, hlead⟩)

end RunContext

end PropertyGraph
