import PropertyGraph.Proofs.Plan.Checked
import PropertyGraph.Proofs.Run.Invariant

/-!
# The columns of the rows that a clause makes

What a clause makes of a row binds what the row bound before and the names that the clause
introduces, and nothing else.  No temporary scope is left open.

    Row.Exactly         no temporary scope is open, and the columns have some names
    exactly_matchRow    a match binds the names of the pattern, and so does the row without a match
    exactly_create      a creation binds the names of its parts, whatever of them is bound already
    exactly_set         a change binds nothing
    exactly_merge       the rows of all matches and the row of a creation bind the same names
-/

namespace PropertyGraph

/-! ## Rows -/

namespace Row

variable {row other : Row} {y : String} {names more : List String}

/-- No temporary scope is open. -/
abbrev Closed (row : Row) : Prop :=
  row.scopes = []

/-- No temporary scope is open, and the columns have these names and no others. -/
structure Exactly (row : Row) (names : List String) : Prop where
  closed : row.Closed
  has_iff : ∀ x, row.has x = true ↔ x ∈ names

/-- A row without temporary scopes binds some names exactly. -/
theorem exactly_names (h : row.Closed) : row.Exactly row.names :=
  ⟨h, has_iff_mem_names h⟩

theorem has_of_lookup? {x : String} {v : Value} (h : row.lookup? x = some v) :
    row.has x = true := by
  unfold Row.has
  rw [h]
  rfl

theorem exactly_empty : Row.empty.Exactly [] :=
  ⟨rfl, fun _ => iff_of_false nofun List.not_mem_nil⟩

namespace Exactly

theorem congr (h : row.Exactly names) (hiff : ∀ x, x ∈ names ↔ x ∈ more) : row.Exactly more :=
  ⟨h.closed, fun x => (h.has_iff x).trans (hiff x)⟩

theorem mem_names (h : row.Exactly names) (x : String) : x ∈ row.names ↔ x ∈ names :=
  (has_iff_mem_names h.closed x).symm.trans (h.has_iff x)

theorem child (h : row.Exactly names) : row.child.Exactly names := by
  refine ⟨rfl, fun x => ?_⟩
  rw [← h.has_iff x]
  unfold Row.has lookup? Row.child
  rw [h.closed]
  rfl

theorem set (h : row.Exactly names) (y : String) (v : Value) :
    (row.set y v).Exactly (names ++ [y]) := by
  refine ⟨h.closed, fun x => ?_⟩
  rw [has_set, h.has_iff x, List.mem_append, List.mem_singleton, or_comm]

/-- A column that is there gets another value. -/
theorem set_known (h : row.Exactly names) (hy : row.has y = true) (v : Value) :
    (row.set y v).Exactly names :=
  (h.set y v).congr fun x => by
    rw [List.mem_append, List.mem_singleton]
    exact or_iff_left_of_imp fun hx => hx ▸ (h.has_iff y).1 hy

theorem foldl_set (bs : List (String × Value)) (h : row.Exactly names) :
    (bs.foldl (fun row (name, v) => row.set name v) row).Exactly (names ++ bs.map Prod.fst) := by
  induction bs generalizing row names with
  | nil => rwa [List.map_nil, List.append_nil]
  | cons b rest ih =>
    rw [List.map_cons, List.append_cons]
    exact ih (h.set b.1 b.2)

theorem bound (h : row.Exactly names) (bs : List (String × Value)) :
    (row.bound bs).Exactly (names ++ bs.map Prod.fst) :=
  h.child.foldl_set bs

/-- The names that the row binds already keep their values, and the others become null. -/
theorem nulls (h : row.Exactly names) (new : List String) :
    (row.nulls new).Exactly (names ++ new) := by
  refine (h.bound _).congr fun x => ?_
  rw [List.map_map, List.mem_append, List.mem_append, ← h.has_iff x]
  show _ ∨ x ∈ (new.filter _).map id ↔ _
  rw [List.map_id, List.mem_filter, Bool.not_eq_true', ← Bool.not_eq_true]
  tauto

theorem absorb (h : row.Exactly names) (hother : other.Exactly more) :
    (row.absorb other).Exactly (names ++ more) := by
  rw [absorb_eq]
  refine (h.foldl_set other.seen).congr fun x => ?_
  rw [names_seen, List.mem_append, List.mem_append, hother.mem_names]

end Exactly

end Row

/-! ## Matching -/

theorem Constraints.results_mapM {Q : Type} (f : Expr → Run Q) (g : Constraints Expr) :
    (g.mapM f).Results fun g' => g'.names = g.names := by
  unfold mapM
  refine (Run.Keeps.mapM (S := fun n n' => n'.name = n.name) fun n _ =>
    .after fun ps => .ok (by rfl)).bind fun nodes hn => ?_
  refine (Run.Keeps.mapM (S := fun r r' => r'.name = r.name) fun r _ =>
    .after fun ps => .ok (by rfl)).bind fun relationships hr => .ok ?_
  unfold names
  rw [filterMap_of_forall₂ hn, filterMap_of_forall₂ hr]

namespace RunContext

variable {ctx : RunContext} {names : List String} {row : Row}

theorem exactly_matchedRow (ctx : RunContext) (pattern : Constraints Value) (condition : Option Expr)
    (hrow : row.Exactly names) (m : Match) :
    (ctx.matchedRow pattern condition row m).Results fun o =>
      ∀ out ∈ o, out.Exactly (names ++ pattern.names) := by
  have hout := hrow.bound (m.bindings pattern)
  rw [m.names_bindings] at hout
  unfold matchedRow
  dsimp only
  split
  · exact .ok nofun
  · cases condition with
    | none => exact .ok fun out h => by cases h; exact hout
    | some e =>
      refine .after fun t => .ok fun out h => ?_
      split at h
      · cases h; exact hout
      · cases h

/-- With a match or without one, the row binds the names of the pattern. -/
theorem exactly_matchRow (pattern : Constraints Expr) (condition : Option Expr)
    (hrow : row.Exactly names) :
    Flow.EachOf (fun out : Row => out.Exactly (names ++ pattern.names))
      (ctx.matchRow pattern condition row) := by
  intro s hs
  unfold matchRow
  split
  · trivial
  · next resolved s' hr =>
    have hnames : resolved.names = pattern.names := (pattern.results_mapM _ s hs resolved s' hr).2
    have hfound := Flow.each_anything ((Search.of ctx resolved).flow row) s' trivial
    have hrows := hfound.flatMap fun m _ =>
      Flow.keeps_ofOption (exactly_matchedRow ctx resolved condition hrow m)
    rw [hnames] at hrows
    dsimp only
    split
    · exact hrows.orElse (Flow.keeps_single (hrow.nulls pattern.names))
    · exact hrows

/-! ## Creation -/

/-- A name of a node that the row binds already adds no column. -/
theorem exactly_createNode (n : NodePattern) (hrow : row.Exactly names) :
    (ctx.createNode n row).Results fun r => r.2.Exactly (names ++ n.name.toList) := by
  unfold createNode
  split
  · next hname =>
    rw [hname]
    exact .after fun v => .ok (by rwa [Option.toList_none, List.append_nil])
  · next x hname =>
    rw [hname]
    split
    · next v hv =>
      have hx : x ∈ names := (hrow.has_iff x).1 (Row.has_of_lookup? hv)
      have hknown : row.Exactly (names ++ [x]) := hrow.congr fun y => by
        rw [List.mem_append, List.mem_singleton]
        exact (or_iff_left_of_imp fun hy => hy ▸ hx).symm
      split
      · exact .fail
      · split
        · exact .ok hknown
        · exact .ok hknown
        · exact .fail
    · exact .after fun v => .ok (hrow.set x (.node v))

theorem exactly_createNodes (ns : List NodePattern) (hrow : row.Exactly names) :
    (ctx.createNodes row ns).Results fun r => r.1.length = ns.length ∧
      r.2.Exactly (names ++ ns.flatMap (·.name.toList)) := by
  induction ns generalizing names row with
  | nil => exact .ok ⟨rfl, by rwa [List.flatMap_nil, List.append_nil]⟩
  | cons n rest ih =>
    unfold createNodes
    refine (exactly_createNode n hrow).bind fun r hr => (ih hr).bind fun r' hr' => ?_
    rw [List.flatMap_cons, ← List.append_assoc]
    exact .ok ⟨congrArg Nat.succ hr'.1, hr'.2⟩

theorem exactly_createEdge (r : RelationshipPattern) (left right : Option Vertex)
    (hrow : row.Exactly names) :
    (ctx.createEdge r left right row).Results fun p => p.2.Exactly (names ++ r.name.toList) := by
  unfold createEdge
  simp only
  split
  · exact nofun
  split
  · refine .after fun _ => .after fun _ => .after fun _ => .after fun _ => .ok ?_
    dsimp only
    cases r.name with
    | none => rwa [Option.toList_none, List.append_nil]
    | some x => exact hrow.set x _
  · exact .fail
  · exact .fail

theorem exactly_createEdges (rs : List RelationshipPattern) {vertices : List (Option Vertex)}
    (hlength : vertices.length = rs.length + 1) (hrow : row.Exactly names) :
    (ctx.createEdges row rs vertices).Results fun r =>
      r.2.Exactly (names ++ rs.flatMap (·.name.toList)) := by
  induction rs generalizing names row vertices with
  | nil => exact .ok (by rwa [List.flatMap_nil, List.append_nil])
  | cons r rest ih =>
    match vertices, hlength with
    | left :: right :: vertices, hlength =>
      unfold createEdges
      have hrest : (right :: vertices).length = rest.length + 1 := Nat.succ.inj hlength
      refine (exactly_createEdge r left right hrow).bind fun p hp =>
        (ih hrest hp).bind fun p' hp' => .ok ?_
      rwa [List.flatMap_cons, ← List.append_assoc]

/-- The names that a part binds after its nodes: of its relationships and of its path. -/
def laterNames (part : PatternPart) : List String :=
  part.relationships.flatMap (·.name.toList) ++ part.pathName.toList

theorem exactly_finishPart (part : PatternPart) {vertices : List (Option Vertex)}
    (hlength : vertices.length = part.nodes.length) (hrow : row.Exactly names) :
    (ctx.finishPart part vertices row).Results fun out =>
      out.Exactly (names ++ laterNames part) := by
  have hlength' : vertices.length = part.relationships.length + 1 := by
    rw [hlength]
    simp [PatternPart.nodes, PatternPart.relationships]
  unfold finishPart laterNames
  rw [← List.append_assoc]
  refine (exactly_createEdges part.relationships hlength' hrow).bind fun r hr => ?_
  dsimp only
  split
  · next hname => rw [hname]; exact .ok (by rwa [Option.toList_none, List.append_nil])
  · next x hname =>
    rw [hname]
    split
    · exact .ok (hr.set x _)
    · exact .fail

theorem exactly_startParts (parts : List PatternPart) (hrow : row.Exactly names) :
    (ctx.startParts row parts).Results fun r =>
      List.Forall₂ (fun part vs => vs.length = part.nodes.length) parts r.1 ∧
        r.2.Exactly (names ++ parts.flatMap fun part => part.nodes.flatMap (·.name.toList)) := by
  induction parts generalizing names row with
  | nil => exact .ok ⟨.nil, by rwa [List.flatMap_nil, List.append_nil]⟩
  | cons part rest ih =>
    unfold startParts
    refine (exactly_createNodes part.nodes hrow).bind fun r hr => (ih hr.2).bind fun r' hr' => ?_
    rw [List.flatMap_cons, ← List.append_assoc]
    exact .ok ⟨.cons hr.1 hr'.1, hr'.2⟩

theorem exactly_finishParts {parts : List PatternPart} {vertices : List (List (Option Vertex))}
    (h : List.Forall₂ (fun part vs => vs.length = part.nodes.length) parts vertices)
    (hrow : row.Exactly names) :
    ((parts.zip vertices).foldlM (fun row (part, vs) => ctx.finishPart part vs row) row).Results
      fun out : Row => out.Exactly (names ++ parts.flatMap laterNames) := by
  induction h generalizing names row with
  | nil => exact .ok (by rwa [List.flatMap_nil, List.append_nil])
  | @cons part vs parts vertices hlength _ ih =>
    rw [List.zip_cons_cons, List.foldlM_cons, List.flatMap_cons, ← List.append_assoc]
    exact (exactly_finishPart part hlength hrow).bind fun row' hrow' => ih hrow'

/-- A creation binds the names of its parts. -/
theorem exactly_create (parts : List PatternPart) (hrow : row.Exactly names) :
    (ctx.create parts row).Results fun out =>
      out.Exactly (names ++ parts.flatMap (·.names)) := by
  unfold create
  refine (exactly_startParts parts hrow.child).bind fun r hr =>
    (exactly_finishParts hr.1 hr.2).mono fun out hout => hout.congr fun x => ?_
  simp only [List.mem_append, List.mem_flatMap, PatternPart.mem_names, laterNames,
    Option.mem_toList]
  constructor
  · rintro ((hx | ⟨part, hpart, hx⟩) | ⟨part, hpart, hx | hx⟩)
    · exact Or.inl hx
    · exact Or.inr ⟨part, hpart, Or.inr (Or.inl hx)⟩
    · exact Or.inr ⟨part, hpart, Or.inr (Or.inr hx)⟩
    · exact Or.inr ⟨part, hpart, Or.inl hx⟩
  · rintro (hx | ⟨part, hpart, hx | hx | hx⟩)
    · exact Or.inl (Or.inl hx)
    · exact Or.inr ⟨part, hpart, Or.inr hx⟩
    · exact Or.inl (Or.inr ⟨part, hpart, hx⟩)
    · exact Or.inr ⟨part, hpart, Or.inl hx⟩

/-- Created apart from each other and joined, the parts bind the same names. -/
theorem exactly_createApart (parts : List PatternPart) (hrow : row.Exactly names) :
    (ctx.createApart parts row).Results fun out =>
      out.Exactly (names ++ parts.flatMap (·.names)) := by
  have key : ∀ (parts : List PatternPart) (joined : Row) (more : List String),
      joined.Exactly (names ++ more) → (parts.foldlM (fun (joined : Row) part => do
        let out ← ctx.create [part] row
        Run.update (·.countRow "Create")
        return joined.absorb out) joined).Results fun out : Row =>
          out.Exactly (names ++ more ++ parts.flatMap PatternPart.names) := by
    intro parts
    induction parts with
    | nil => exact fun joined more hjoined => .ok (by rwa [List.flatMap_nil, List.append_nil])
    | cons part rest ih =>
      intro joined more hjoined
      rw [List.foldlM_cons, List.flatMap_cons]
      have hstep : (do
          let out ← ctx.create [part] row
          Run.update (·.countRow "Create")
          return joined.absorb out : Run Row).Results fun out =>
            out.Exactly (names ++ (more ++ part.names)) := by
        refine (exactly_create [part] hrow).bind fun out hout => .after fun _ => .ok ?_
        refine (hjoined.absorb hout).congr fun x => ?_
        simp only [List.mem_append, List.flatMap_cons, List.flatMap_nil, List.not_mem_nil]
        tauto
      refine hstep.bind fun joined' hjoined' => (ih joined' _ hjoined').mono fun out hout => ?_
      rwa [← List.append_assoc, List.append_assoc] at hout
  have hall := key parts row.child [] (by rw [List.append_nil]; exact hrow.child)
  rwa [List.append_nil] at hall

/-! ## Change -/

theorem exactly_rebind (saved : Value) (hrow : row.Exactly names) :
    (rebind row saved).Exactly names := by
  unfold rebind
  refine List.foldlRecOn (motive := fun r : Row => r.Exactly names) row.names _ hrow
    fun r h name _ => ?_
  split
  · next v w hv =>
    split
    · exact h.set_known (Row.has_of_lookup? hv) _
    · exact h
  · next e f hv =>
    split
    · exact h.set_known (Row.has_of_lookup? hv) _
    · exact h
  · exact h

theorem exactly_refresh (xs : List String) (hrow : row.Exactly names) :
    (ctx.refresh xs row).Results fun out => out.Exactly names := by
  rintro s _ _ t ⟨⟩
  refine ⟨trivial, ?_⟩
  refine List.foldlRecOn (motive := fun p : Row × RunState => p.1.Exactly names) xs _ hrow
    fun p h name _ => ?_
  dsimp only
  split
  · exact h
  · next fresh hfresh =>
    obtain ⟨v, hv, -⟩ := Option.bind_eq_some_iff.1 hfresh
    cases fresh with
    | none => exact h
    | some w => exact h.set_known (Row.has_of_lookup? hv) w

theorem exactly_save (target : ElementId) (changes : List Change) (hrow : row.Exactly names) :
    (save target changes row).Results fun out => out.Exactly names := by
  intro s _ out t hrun
  unfold save at hrun
  split at hrun
  · cases hrun; exact ⟨trivial, hrow⟩
  · split at hrun
    · cases hrun; exact ⟨trivial, exactly_rebind _ hrow⟩
    · cases hrun

theorem exactly_setProperty (target : Expr) (key : String) (e : Expr) (hrow : row.Exactly names) :
    (ctx.setProperty target key e row).Results fun out => out.Exactly names := by
  unfold setProperty
  refine .after fun v => .after fun w => .after fun o => ?_
  split
  · exact .ok hrow
  · dsimp only
    split
    · split
      · exact .after fun _ => exactly_save _ _ hrow
      · exact .ok hrow
    · exact .after fun _ => .after fun _ => exactly_save _ _ hrow

theorem exactly_setProperties (replace : Bool) (x : String) (e : Expr) (hrow : row.Exactly names) :
    (ctx.setProperties replace x e row).Results fun out => out.Exactly names := by
  unfold setProperties
  refine .after fun v => .after fun o => ?_
  split
  · exact .ok hrow
  · exact .after fun _ => .after fun _ => .after fun _ => .after fun _ => exactly_save _ _ hrow

theorem exactly_addLabels (x : String) (labels : List String) (hrow : row.Exactly names) :
    (ctx.addLabels x labels row).Results fun out => out.Exactly names := by
  unfold addLabels
  refine .after fun o => ?_
  split
  · exact .ok hrow
  · exact .after fun _ => exactly_save _ _ hrow

theorem exactly_removeLabels (x : String) (labels : List String) (hrow : row.Exactly names) :
    (ctx.removeLabels x labels row).Results fun out => out.Exactly names := by
  unfold removeLabels
  refine .after fun o => ?_
  split
  · exact .ok hrow
  · exact .after fun _ => exactly_save _ _ hrow

theorem exactly_removeProperty (target : Expr) (key : String) (hrow : row.Exactly names) :
    (ctx.removeProperty target key row).Results fun out => out.Exactly names := by
  unfold removeProperty
  refine .after fun v => .after fun o => ?_
  split
  · exact .ok hrow
  · dsimp only
    split
    · exact .after fun _ => exactly_save _ _ hrow
    · exact .ok hrow

theorem exactly_setItem (item : SetItem) (hrow : row.Exactly names) :
    (ctx.setItem row item).Results fun out => out.Exactly names := by
  refine (exactly_refresh item.names hrow).bind fun row' hrow' => ?_
  cases item with
  | property target key e => exact exactly_setProperty target key e hrow'
  | replace x e => exact exactly_setProperties true x e hrow'
  | merge x e => exact exactly_setProperties false x e hrow'
  | labels x labels => exact exactly_addLabels x labels hrow'

/-- A change binds no new names. -/
theorem exactly_set (items : List SetItem) (hrow : row.Exactly names) :
    (ctx.set items row).Results fun out => out.Exactly names :=
  .foldlM (fun item _ _ hrow => exactly_setItem item hrow) hrow

theorem exactly_removeItem (item : RemoveItem) (hrow : row.Exactly names) :
    (ctx.removeItem row item).Results fun out => out.Exactly names := by
  cases item with
  | property target key =>
    exact (exactly_refresh _ hrow).bind fun row' hrow' => exactly_removeProperty target key hrow'
  | labels x labels =>
    exact (exactly_refresh _ hrow).bind fun row' hrow' => exactly_removeLabels x labels hrow'

theorem exactly_remove (items : List RemoveItem) (hrow : row.Exactly names) :
    (ctx.remove items row).Results fun out => out.Exactly names :=
  .foldlM (fun item _ _ hrow => exactly_removeItem item hrow) hrow

/-! ## Merging -/

theorem exactly_mergeMatches (pattern : Constraints Expr) (hrow : row.Exactly names) :
    (ctx.mergeMatches pattern row).Results fun rows =>
      ∀ out ∈ rows, out.Exactly (names ++ pattern.names) := by
  unfold mergeMatches
  refine (pattern.results_mapM _).bind fun resolved hnames => .after fun ms => .ok ?_
  intro out hout
  obtain ⟨m, -, rfl⟩ := List.mem_map.1 hout
  have hbound := hrow.bound (m.bindings resolved)
  rwa [m.names_bindings, hnames] at hbound

/-- Matched or created, the rows bind the names of the part. -/
theorem exactly_merge {pattern : Constraints Expr} {part : PatternPart}
    (hpattern : ∀ x, x ∈ pattern.names ↔ x ∈ part.names) (onCreate onMatch : List SetItem)
    (hrow : row.Exactly names) :
    (ctx.merge pattern part onCreate onMatch row).Results fun rows =>
      ∀ out ∈ rows, out.Exactly (names ++ part.names) := by
  unfold merge
  refine (exactly_mergeMatches pattern hrow).bind fun rows hrows => ?_
  split
  · refine (exactly_create [part] hrow).bind fun out hout =>
      (exactly_set onCreate hout).bind fun out' hout' => .ok (List.forall_mem_singleton.2 ?_)
    rwa [List.flatMap_singleton] at hout'
  · refine (Run.Keeps.mapM (S := fun _ out => out.Exactly (names ++ part.names))
      fun out hout => exactly_set onMatch ((hrows out hout).congr fun x => ?_)).mono
        fun outs houts out hout => ?_
    · rw [List.mem_append, List.mem_append, hpattern]
    · obtain ⟨_, -, hexactly⟩ := exists_of_forall₂ houts hout
      exact hexactly

end RunContext

end PropertyGraph
