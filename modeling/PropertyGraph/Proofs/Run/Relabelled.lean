import PropertyGraph.Proofs.Run.Balanced

/-!
# Balanced counts of labels

Labels are counted before they are changed, by comparing with the vertex that the row binds.  That
is right as long as the row binds the vertex as it is stored, which it does after it has been
brought up to date, and no item names a label twice.

    RunContext.Current         a row binds a name to a vertex as it is stored
    RunContext.keeps_setItem   an item of `SET` keeps the counts balanced
    RunContext.keeps_removeItem, keeps_merge
                               so do an item of `REMOVE` and a `MERGE`
-/

namespace PropertyGraph

namespace Balanced

variable {reader : Authorizations} {once : Prop} {s₀ s : RunState}

/-- A changed element, whose labels are counted as they change. -/
theorem change (h : Balanced reader once s₀ s) {target : ElementId} {changes : List Change}
    {saved : Value} {τ : Store} {count : WriteCounts → WriteCounts}
    (hτ : s.store.change target changes = (.ok saved, τ))
    (hcount : count s.stats.writes = { s.stats.writes with
      propertiesSet := (count s.stats.writes).propertiesSet
      propertiesRemoved := (count s.stats.writes).propertiesRemoved
      labelsAdded := (count s.stats.writes).labelsAdded
      labelsRemoved := (count s.stats.writes).labelsRemoved })
    (hvertex : ∀ id v, once → target = .vertex id → s.store.vertex? id = some v →
      (changes.foldl Store.changeLabels v.labels).length + s.stats.writes.labelsAdded +
          (count s.stats.writes).labelsRemoved =
        v.labels.length + (count s.stats.writes).labelsAdded + s.stats.writes.labelsRemoved)
    (hedge : ∀ id, target = .edge id →
      (count s.stats.writes).labelsAdded = s.stats.writes.labelsAdded ∧
        (count s.stats.writes).labelsRemoved = s.stats.writes.labelsRemoved) :
    Balanced reader once s₀ (RunState.countWrites { s with store := τ } count) := by
  have hconsistent := h.consistent.change target changes
  rw [hτ] at hconsistent
  obtain ⟨hcreated, hdeleted, hcreated', hdeleted'⟩ :
      (count s.stats.writes).nodesCreated = s.stats.writes.nodesCreated ∧
      (count s.stats.writes).nodesDeleted = s.stats.writes.nodesDeleted ∧
      (count s.stats.writes).relationshipsCreated = s.stats.writes.relationshipsCreated ∧
      (count s.stats.writes).relationshipsDeleted = s.stats.writes.relationshipsDeleted := by
    rw [hcount]
    exact ⟨rfl, rfl, rfl, rfl⟩
  rcases h.consistent.replaces_change hτ with
    ⟨id, v, htarget, hv, hreplaces⟩ | ⟨id, e, e', htarget, hvisibility, hreplaces⟩
  · obtain ⟨hvertices, hedges, hlabels⟩ : τ.vertexCount + 1 = s.store.vertexCount + 1 ∧
        τ.edgeCount = s.store.edgeCount ∧ τ.labelPairs + v.labels.length =
          s.store.labelPairs + (changes.foldl Store.changeLabels v.labels).length :=
      hreplaces.totals
    have hseen : reader.canRead v.visibility = true := by
      obtain ⟨-, i, hi⟩ := (Store.vertex?_eq_some h.consistent).1 hv
      exact h.visible.vertices i v hi
    refine h.write hconsistent (hreplaces.visible h.visible fun w hw => by cases hw; exact hseen)
      (by omega) (by omega) fun honce hnone => ⟨hdeleted ▸ hnone, ?_⟩
    have hbalance := hvertex id v honce htarget hv
    omega
  · obtain ⟨hvertices, hedges, hlabels⟩ : τ.vertexCount = s.store.vertexCount ∧
        τ.edgeCount + 1 = s.store.edgeCount + 1 ∧ τ.labelPairs = s.store.labelPairs :=
      hreplaces.totals
    have hseen : reader.canRead e.visibility = true := by
      obtain ⟨i, hi, -⟩ := hreplaces
      exact h.visible.edges i e hi
    obtain ⟨hadded, hremoved⟩ := hedge id htarget
    exact h.write hconsistent
      (hreplaces.visible h.visible fun f hf => by cases hf; rwa [hvisibility])
      (by omega) (by omega) fun honce hnone => ⟨hdeleted ▸ hnone, by omega⟩

end Balanced

namespace RunContext

variable {ctx : RunContext} {once : Prop} {s₀ : RunState}

/-! ## Change -/

theorem idle_refresh (ctx : RunContext) (names : List String) (row : Row) :
    Idle (ctx.refresh names row) := by
  intro s
  unfold refresh
  refine List.foldlRecOn (motive := fun p : Row × RunState => s.Unwritten p.2) names _ ⟨rfl, rfl⟩
    fun p hp name _ => ?_
  dsimp only
  split
  · exact hp
  · exact hp.trans ⟨rfl, rfl⟩

theorem keeps_subject {I : RunState → Prop} (v : Value) : (subject v).Keeps I Anything := by
  unfold subject
  split
  · exact .ok trivial
  · exact .ok trivial
  · exact .ok trivial
  · exact .fail

/-- A count that is about properties only. -/
theorem keeps_countWrites {reader : Authorizations} {count : WriteCounts → WriteCounts}
    (h : ∀ c, count c = { c with
      propertiesSet := (count c).propertiesSet
      propertiesRemoved := (count c).propertiesRemoved }) :
    (Run.countWrites count).Keeps (Balanced reader once s₀) Anything := by
  rintro s hs _ t ⟨⟩
  have hcount := h s.stats.writes
  refine ⟨hs.write (τ := s.store) hs.consistent hs.visible ?_ ?_ fun _ hnone => ⟨?_, ?_⟩, trivial⟩
  · rw [hcount]
  · rw [hcount]
  · rw [hcount] at hnone; exact hnone
  · rw [hcount]

/-- Changes of properties leave the labels as they are. -/
theorem keeps_save {reader : Authorizations} {target : ElementId} {changes : List Change}
    (h : ∀ c ∈ changes, Store.isLabelChange c = false) (row : Row) :
    (save target changes row).Keeps (Balanced reader once s₀) Anything := by
  intro s hs a t hrun
  unfold save at hrun
  split at hrun
  · cases hrun; exact ⟨hs, trivial⟩
  · split at hrun
    · next saved τ hτ =>
      cases hrun
      have hchanged : Balanced reader once s₀ (RunState.countWrites { s with store := τ } id) :=
        hs.change hτ rfl (fun _ v _ _ _ => by rw [Store.foldl_changeLabels_of_none h]; rfl)
          fun _ _ => ⟨rfl, rfl⟩
      exact ⟨hchanged, trivial⟩
    · cases hrun

theorem keeps_setProperty (target : Expr) (key : String) (e : Expr) (row : Row) :
    (ctx.setProperty target key e row).Keeps (Balanced ctx.reader once s₀) Anything := by
  unfold setProperty
  refine (Run.Keeps.of_idle (idle_value e row)).bind fun v _ =>
    (Run.Keeps.of_idle (idle_value target row)).bind fun w _ => (keeps_subject w).bind fun o _ => ?_
  split
  · exact .ok trivial
  · dsimp only
    split
    · split
      · exact (keeps_countWrites fun _ => rfl).bind fun _ _ =>
          keeps_save (List.forall_mem_singleton.2 rfl) row
      · exact .ok trivial
    · exact (keeps_prepare _ v).bind fun _ _ => (keeps_countWrites fun _ => rfl).bind fun _ _ =>
        keeps_save (List.forall_mem_singleton.2 rfl) row

theorem keeps_entriesOf {I : RunState → Prop} (v : Value) : (entriesOf v).Keeps I Anything := by
  unfold entriesOf
  split
  · exact .ok trivial
  · exact .ok trivial
  · exact .ok trivial
  · exact .fail

theorem keeps_entryChanges {reader : Authorizations} (replace : Bool) (properties : Properties)
    (entries : List (String × Value)) : (ctx.entryChanges replace properties entries).Keeps
      (Balanced reader once s₀) fun changes => ∀ c ∈ changes, Store.isLabelChange c = false := by
  induction entries with
  | nil => exact .ok nofun
  | cons p rest ih =>
    unfold entryChanges
    dsimp only
    split
    · refine ih.bind fun changes hchanges => .ok ?_
      split
      · exact List.forall_mem_cons.2 ⟨rfl, hchanges⟩
      · exact hchanges
    · exact (keeps_prepare _ p.2).bind fun _ _ => ih.bind fun changes hchanges =>
        .ok (List.forall_mem_cons.2 ⟨rfl, hchanges⟩)

theorem keeps_setProperties (replace : Bool) (x : String) (e : Expr) (row : Row) :
    (ctx.setProperties replace x e row).Keeps (Balanced ctx.reader once s₀) Anything := by
  unfold setProperties
  refine (Run.Keeps.of_idle (Run.idle_lift _)).bind fun v _ => (keeps_subject v).bind fun o _ => ?_
  split
  · exact .ok trivial
  · refine (Run.Keeps.of_idle (idle_value e row)).bind fun w _ =>
      (keeps_entriesOf w).bind fun entries _ => ?_
    refine (keeps_entryChanges replace _ entries).bind fun changes hchanges => ?_
    refine (keeps_countWrites fun _ => rfl).bind fun _ _ => keeps_save (fun c hc => ?_) row
    rcases List.mem_append.1 hc with hc | hc
    · obtain ⟨name, -, rfl⟩ := List.mem_map.1 hc
      rfl
    · exact hchanges c hc

theorem keeps_removeProperty (target : Expr) (key : String) (row : Row) :
    (ctx.removeProperty target key row).Keeps (Balanced ctx.reader once s₀) Anything := by
  unfold removeProperty
  refine (Run.Keeps.of_idle (idle_value target row)).bind fun v _ =>
    (keeps_subject v).bind fun o _ => ?_
  split
  · exact .ok trivial
  · dsimp only
    split
    · exact (keeps_countWrites fun _ => rfl).bind fun _ _ =>
        keeps_save (List.forall_mem_singleton.2 rfl) row
    · exact .ok trivial

/-! ## Labels -/

/-- Where the name is bound to a vertex that is stored, it is bound to it as it is stored. -/
def Current (σ : Store) (x : String) (row : Row) : Prop :=
  ∀ v w, row.lookup? x = some (.node v) → σ.vertex? v.id = some w → w = v

theorem current_refresh {x : String} {row out : Row} {s t : RunState} (hrow : row.Closed)
    (h : s.store.Consistent) (hvisible : s.store.Visible ctx.reader)
    (hrun : ctx.refresh [x] row s = (.ok out, t)) : Current t.store x out := by
  intro v w hv hw
  have hstore := (idle_refresh ctx [x] row s).store
  rw [hrun] at hstore
  rw [hstore] at hw
  have hget : s.store.getVertex? ctx.reader v.id = some w := by
    obtain ⟨-, i, hi⟩ := (Store.vertex?_eq_some h).1 hw
    exact Option.filter_eq_some_iff.2 ⟨hw, hvisible.vertices i w hi⟩
  unfold refresh at hrun
  rw [List.foldl_cons, List.foldl_nil] at hrun
  dsimp only at hrun
  split at hrun
  · next hnone =>
    -- the row binds no element
    cases hrun
    rw [hv] at hnone
    cases hnone
  · next fresh hfresh =>
    cases hrun
    obtain ⟨u, hu, hnewest⟩ := Option.bind_eq_some_iff.1 hfresh
    cases fresh with
    | none =>
      -- its newest state is not there
      rw [Option.map_none, Option.getD_none, hu] at hv
      cases hv
      unfold newest? at hnewest
      dsimp only at hnewest
      rw [hget] at hnewest
      cases hnewest
    | some z =>
      rw [Option.map_some, Option.getD_some, Row.lookup?_set row hrow, if_pos rfl] at hv
      cases hv
      unfold newest? at hnewest
      split at hnewest
      · next u' =>
        obtain ⟨v', hv', hz⟩ := Option.map_eq_some_iff.1 (Option.some.inj hnewest)
        cases hz
        have hid := Store.getVertex?_id h hv'
        rw [hid, hv'] at hget
        exact (Option.some.inj hget).symm
      · obtain ⟨e, -, hz⟩ := Option.map_eq_some_iff.1 (Option.some.inj hnewest)
        cases hz
      · cases hnewest

theorem labelled_ok {x : String} {row : Row} {o : Option Vertex} {s t : RunState}
    (h : labelled x row s = (.ok o, t)) : t = s ∧ ∀ v ∈ o, row.lookup? x = some (.node v) := by
  unfold labelled at h
  obtain ⟨v, s', hget, h⟩ := Run.ok_of_bind h
  obtain ⟨hv, rfl⟩ : row.get x = .ok v ∧ s = s' := Prod.mk.inj hget
  unfold Row.get at hv
  split at hv
  · next u hu =>
    cases hv
    split at h
    · cases h; exact ⟨rfl, fun v hv => by cases hv⟩
    · cases h; exact ⟨rfl, fun v hv => by cases hv; exact hu⟩
    · cases h
  · cases hv

/-- Labels are counted and changed of the vertex as it is stored. -/
theorem balanced_relabelled {reader : Authorizations} {v : Vertex} {changes : List Change}
    {count : WriteCounts → WriteCounts} {row out : Row} {s t : RunState}
    (hs : Balanced reader once s₀ s) (hcurrent : ∀ w, s.store.vertex? v.id = some w → w = v)
    (hcount : count s.stats.writes = { s.stats.writes with
      labelsAdded := (count s.stats.writes).labelsAdded
      labelsRemoved := (count s.stats.writes).labelsRemoved })
    (hnothing : changes = [] → count s.stats.writes = s.stats.writes)
    (hlabels : once → s.store.vertex? v.id = some v →
      (changes.foldl Store.changeLabels v.labels).length + s.stats.writes.labelsAdded +
          (count s.stats.writes).labelsRemoved =
        v.labels.length + (count s.stats.writes).labelsAdded + s.stats.writes.labelsRemoved)
    (hrun : (do Run.countWrites count; save (.vertex v.id) changes row : Run Row) s =
      (.ok out, t)) :
    Balanced reader once s₀ t := by
  obtain ⟨_, s', hcounted, hsave⟩ := Run.ok_of_bind hrun
  cases hcounted
  unfold save at hsave
  split at hsave
  · next hempty =>
    cases hsave
    have hsame : s.Unwritten (s.countWrites count) := ⟨rfl, hnothing (List.isEmpty_iff.1 hempty)⟩
    exact OfWrites.unwritten hsame hs
  · split at hsave
    · next saved τ hτ =>
      cases hsave
      refine hs.change hτ (hcount.trans ?_) (fun id w honce htarget hw => ?_) fun _ h => by cases h
      · rw [hcount]
      · cases htarget
        obtain rfl := hcurrent w hw
        exact hlabels honce hw
    · cases hsave

theorem balanced_addLabels {x : String} {labels : List String} {row out : Row} {s t : RunState}
    (hs : Balanced ctx.reader once s₀ s) (hcurrent : Current s.store x row)
    (honce : once → (labels.map ctx.config.label).Nodup)
    (hrun : ctx.addLabels x labels row s = (.ok out, t)) : Balanced ctx.reader once s₀ t := by
  unfold addLabels at hrun
  obtain ⟨o, s', hlabelled, hrun⟩ := Run.ok_of_bind hrun
  obtain ⟨rfl, hbound⟩ := labelled_ok hlabelled
  cases o with
  | none => cases hrun; exact hs
  | some v =>
    refine balanced_relabelled hs (fun w => hcurrent v w (hbound v rfl)) rfl (fun hnil => ?_)
      (fun h _ => ?_) hrun
    · rw [List.map_eq_nil_iff.1 hnil]
      rfl
    · have hlength := Store.length_foldl_addLabel ((honce h).filter (!v.hasLabel ·))
        fun l hl => by simpa [Vertex.hasLabel] using (List.mem_filter.1 hl).2
      rw [hlength]
      dsimp only
      omega

theorem balanced_removeLabels {x : String} {labels : List String} {row out : Row} {s t : RunState}
    (hs : Balanced ctx.reader once s₀ s) (hcurrent : Current s.store x row)
    (honce : once → (labels.map ctx.config.label).Nodup)
    (hrun : ctx.removeLabels x labels row s = (.ok out, t)) : Balanced ctx.reader once s₀ t := by
  unfold removeLabels at hrun
  obtain ⟨o, s', hlabelled, hrun⟩ := Run.ok_of_bind hrun
  obtain ⟨rfl, hbound⟩ := labelled_ok hlabelled
  cases o with
  | none => cases hrun; exact hs
  | some v =>
    refine balanced_relabelled hs (fun w => hcurrent v w (hbound v rfl)) rfl (fun hnil => ?_)
      (fun h hv => ?_) hrun
    · rw [List.map_eq_nil_iff.1 hnil]
      rfl
    · obtain ⟨-, i, hi⟩ := (Store.vertex?_eq_some hs.consistent).1 hv
      have hlength := Store.length_foldl_removeLabel (hs.consistent.vertexParts i v hi).1
        ((honce h).filter v.hasLabel) fun l hl => List.contains_iff_mem.1 (List.mem_filter.1 hl).2
      dsimp only
      omega

end RunContext

/-- The item names no label twice. -/
def SetItem.LabelsOnce (config : Config) : SetItem → Prop
  | .labels _ ls => (ls.map config.label).Nodup
  | .property _ _ _ | .replace _ _ | .merge _ _ => True

/-- The item names no label twice. -/
def RemoveItem.LabelsOnce (config : Config) : RemoveItem → Prop
  | .labels _ ls => (ls.map config.label).Nodup
  | .property _ _ => True

namespace RunContext

variable {ctx : RunContext} {once : Prop} {s₀ : RunState} {row : Row}

theorem keeps_setItem {item : SetItem} (honce : once → item.LabelsOnce ctx.config)
    (hrow : row.Closed) :
    (ctx.setItem row item).Keeps (Balanced ctx.reader once s₀) Row.Closed := by
  refine .with_results (fun s hs out t hrun => ?_)
    ((exactly_setItem item (Row.exactly_names hrow)).mono fun out hout => hout.closed)
  unfold setItem at hrun
  obtain ⟨row', s', hrefresh, hrun⟩ := Run.ok_of_bind hrun
  have hs' := (Run.Keeps.of_idle (idle_refresh ctx item.names row) s hs row' s' hrefresh).1
  cases item with
  | property target key e => exact keeps_setProperty target key e row' s' hs' out t hrun
  | replace x e => exact keeps_setProperties true x e row' s' hs' out t hrun
  | merge x e => exact keeps_setProperties false x e row' s' hs' out t hrun
  | labels x labels =>
    have hcurrent := current_refresh hrow hs.consistent hs.visible hrefresh
    exact ⟨balanced_addLabels hs' hcurrent honce hrun, trivial⟩

theorem keeps_set {items : List SetItem} (honce : once → ∀ item ∈ items, item.LabelsOnce ctx.config)
    (hrow : row.Closed) :
    (ctx.set items row).Keeps (Balanced ctx.reader once s₀) Row.Closed :=
  .foldlM (fun item hitem _ hrow => keeps_setItem (fun h => honce h item hitem) hrow) hrow

theorem keeps_removeItem {item : RemoveItem} (honce : once → item.LabelsOnce ctx.config)
    (hrow : row.Closed) :
    (ctx.removeItem row item).Keeps (Balanced ctx.reader once s₀) Row.Closed := by
  refine .with_results (fun s hs out t hrun => ?_)
    ((exactly_removeItem item (Row.exactly_names hrow)).mono fun out hout => hout.closed)
  cases item with
  | property target key =>
    obtain ⟨row', s', hrefresh, hrun⟩ := Run.ok_of_bind hrun
    have hs' := (Run.Keeps.of_idle (idle_refresh ctx _ row) s hs row' s' hrefresh).1
    exact keeps_removeProperty target key row' s' hs' out t hrun
  | labels x labels =>
    obtain ⟨row', s', hrefresh, hrun⟩ := Run.ok_of_bind hrun
    have hs' := (Run.Keeps.of_idle (idle_refresh ctx [x] row) s hs row' s' hrefresh).1
    have hcurrent := current_refresh hrow hs.consistent hs.visible hrefresh
    exact ⟨balanced_removeLabels hs' hcurrent honce hrun, trivial⟩

theorem keeps_remove {items : List RemoveItem}
    (honce : once → ∀ item ∈ items, item.LabelsOnce ctx.config) (hrow : row.Closed) :
    (ctx.remove items row).Keeps (Balanced ctx.reader once s₀) Row.Closed :=
  .foldlM (fun item hitem _ hrow => keeps_removeItem (fun h => honce h item hitem) hrow) hrow

/-! ## Merging -/

theorem keeps_mergeMatches (pattern : Constraints Expr) (hrow : row.Closed) :
    (ctx.mergeMatches pattern row).Keeps (Balanced ctx.reader once s₀)
      fun rows => ∀ out ∈ rows, out.Closed := by
  refine .with_results ?_ ((exactly_mergeMatches pattern (Row.exactly_names hrow)).mono
    fun rows hrows out hout => (hrows out hout).closed)
  unfold mergeMatches
  refine (Constraints.keeps_mapM (fun e => ?_) pattern).bind fun resolved _ => ?_
  · refine (Run.Keeps.of_idle (idle_value e row)).bind fun v _ => ?_
    split
    · exact .fail
    · exact .ok trivial
  · exact (Flow.keeps_toList (Search.keeps_flow _ row)).bind fun found _ => .ok trivial

theorem keeps_merge (hread : ctx.reader.canRead ctx.visibility = true) (pattern : Constraints Expr)
    (part : PatternPart) {onCreate onMatch : List SetItem}
    (honce : once → ∀ item ∈ onCreate ++ onMatch, item.LabelsOnce ctx.config)
    (hrow : row.Closed) : (ctx.merge pattern part onCreate onMatch row).Keeps
      (Balanced ctx.reader once s₀) fun rows => ∀ out ∈ rows, out.Closed := by
  unfold merge
  refine (keeps_mergeMatches pattern hrow).bind fun rows hrows => ?_
  split
  · refine (Run.Keeps.with_results (keeps_create hread [part] row)
      ((exactly_create [part] (Row.exactly_names hrow)).mono fun out hout => hout.closed)).bind
        fun out hout => ?_
    exact (keeps_set (fun h item hitem => honce h item (List.mem_append_left _ hitem)) hout).bind
      fun out' hout' => .ok (List.forall_mem_singleton.2 hout')
  · refine (Run.Keeps.mapM (S := fun _ out => out.Closed) fun out hout =>
      keeps_set (fun h item hitem => honce h item (List.mem_append_right _ hitem))
        (hrows out hout)).mono fun outs houts out hout => ?_
    obtain ⟨_, -, hclosed⟩ := exists_of_forall₂ houts hout
    exact hclosed

end RunContext

end PropertyGraph
