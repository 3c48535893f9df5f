import PropertyGraph.Proofs.Plan.Demand
import PropertyGraph.Proofs.Run.SafeMatching

/-!
# Writing where all names have values

What a write computes it computes in its row, so it needs the names that its expressions read.
Creation goes step by step, first the nodes of all parts and then the relationships, and every step
sees what the steps before it have bound:

    InOrder             every step reads what is known when its turn comes
    safe_create         a creation in order, and the names that its row binds
    safe_set, safe_remove, safe_merge, safe_delete
-/

namespace PropertyGraph

/-! ## The order of a creation -/

/-- A step of a creation: the expressions that it computes, and the name that it binds. -/
abbrev Creation := List Expr × Option String

namespace Creation

/-- The names known after some steps. -/
def known (names : List String) (steps : List Creation) : List String :=
  steps.foldl (fun names step => step.2.toList ++ names) names

/-- Every step reads only names that are known when its turn comes. -/
def InOrder (names : List String) : List Creation → Prop
  | [] => True
  | step :: rest => ReadsOnly names step.1 ∧ InOrder (step.2.toList ++ names) rest

theorem known_append (names : List String) (first rest : List Creation) :
    known names (first ++ rest) = known (known names first) rest :=
  List.foldl_append

theorem inOrder_append {names : List String} {first rest : List Creation} :
    InOrder names (first ++ rest) ↔ InOrder names first ∧ InOrder (known names first) rest := by
  induction first generalizing names with
  | nil => exact (iff_of_eq (true_and _)).symm
  | cons step first ih =>
    show _ ∧ InOrder _ (first ++ rest) ↔ (_ ∧ _) ∧ _
    rw [ih, and_assoc]
    rfl

theorem mem_known {x : String} {names : List String} {steps : List Creation} :
    x ∈ known names steps ↔ x ∈ names ∨ ∃ step ∈ steps, step.2 = some x := by
  induction steps generalizing names with
  | nil => simp [known]
  | cons step rest ih =>
    show x ∈ known (step.2.toList ++ names) rest ↔ _
    rw [ih, List.mem_append, Option.mem_toList]
    simp only [List.mem_cons, or_and_right, exists_or, exists_eq_left]
    tauto

/-- The nodes of a part. -/
def ofNodes (part : PatternPart) : List Creation :=
  part.nodes.map fun n => (n.properties.map Prod.snd, n.name)

/-- The relationships of a part, and then its path. -/
def ofEdges (part : PatternPart) : List Creation :=
  part.relationships.map (fun r => (r.properties.map Prod.snd, r.name)) ++ [([], part.pathName)]

/-- The steps in which some parts are created: the nodes of all of them first. -/
def ofParts (parts : List PatternPart) : List Creation :=
  parts.flatMap ofNodes ++ parts.flatMap ofEdges

end Creation

namespace RunContext

variable {ctx : RunContext} {names : List String} {row : Row}

/-! ## Creation -/

theorem safe_prepare (name : String) (v : Value) : (prepare name v).Safe Anything := by
  intro s
  unfold prepare
  split
  · exact fun _ => Error.noConfusion
  · trivial

theorem safe_storedProperties (hrow : row.Covers names) {ps : List (String × Expr)}
    (hps : ReadsOnly names (ps.map Prod.snd)) : (ctx.storedProperties row ps).Safe Anything := by
  induction ps with
  | nil => exact .ok trivial
  | cons p rest ih =>
    obtain ⟨key, e⟩ := p
    have hrest := ih (ReadsOnly.cons.1 hps).2
    unfold storedProperties
    refine (safe_value (hps.hasAll List.mem_cons_self hrow.hasAll)).bind fun v _ => ?_
    split
    · exact hrest
    · exact (safe_prepare _ v).bind fun _ _ => hrest.bind fun _ _ => .ok trivial

theorem safe_createVertex {n : NodePattern} (hrow : row.Covers names)
    (hps : ReadsOnly names (n.properties.map Prod.snd)) :
    (ctx.createVertex n row).Safe Anything :=
  (safe_storedProperties hrow hps).bind fun _ _ => Run.safe_nextVertexId.bind fun _ _ =>
    (Run.safe_write _).bind fun _ _ => (Run.safe_countWrites _).bind fun _ _ => .ok trivial

/-- The row after a node pattern binds its name besides those that it bound before. -/
theorem safe_createNode {n : NodePattern} (hrow : row.Covers names)
    (hps : ReadsOnly names (n.properties.map Prod.snd)) :
    (ctx.createNode n row).Safe fun r => r.2.Covers (n.name.toList ++ names) := by
  unfold createNode
  split
  · next hname =>
    rw [hname]
    exact (safe_createVertex hrow hps).bind fun v _ => .ok hrow
  · next x hname =>
    rw [hname]
    split
    · next v hv =>
      have hbound : row.Covers (x :: names) :=
        ⟨hrow.closed, List.forall_mem_cons.2 ⟨by unfold Row.has; rw [hv]; rfl, hrow.hasAll⟩⟩
      split
      · exact .fail fun _ => Error.noConfusion
      · split
        · exact .ok hbound
        · exact .ok hbound
        · exact .fail fun _ => Error.noConfusion
    · exact (safe_createVertex hrow hps).bind fun v _ => .ok (hrow.set_cons x (.node v))

theorem safe_createNodes {ns : List NodePattern} (hrow : row.Covers names)
    (horder : Creation.InOrder names (ns.map fun n => (n.properties.map Prod.snd, n.name))) :
    (ctx.createNodes row ns).Safe fun r => r.1.length = ns.length ∧
      r.2.Covers (Creation.known names (ns.map fun n => (n.properties.map Prod.snd, n.name))) := by
  induction ns generalizing names row with
  | nil => exact .ok ⟨rfl, hrow⟩
  | cons n rest ih =>
    unfold createNodes
    refine (safe_createNode hrow horder.1).bind fun r hr => ?_
    refine (ih hr horder.2).bind fun r' hr' => ?_
    exact .ok ⟨congrArg Nat.succ hr'.1, hr'.2⟩

/-- The row after a relationship pattern binds its name besides those that it bound before. -/
theorem safe_createEdge {r : RelationshipPattern} (left right : Option Vertex)
    (hrow : row.Covers names) (hps : ReadsOnly names (r.properties.map Prod.snd)) :
    (ctx.createEdge r left right row).Safe fun p => p.2.Covers (r.name.toList ++ names) := by
  unfold createEdge
  simp only
  split
  · exact fun _ _ => Error.noConfusion
  · split
    · refine (safe_storedProperties hrow hps).bind fun _ _ => Run.safe_nextEdgeId.bind fun _ _ =>
        (Run.safe_write _).bind fun _ _ => (Run.safe_countWrites _).bind fun _ _ => .ok ?_
      dsimp only
      cases r.name with
      | none => exact hrow
      | some x => exact hrow.set_cons x _
    · exact .fail fun _ => Error.noConfusion
    · exact .fail fun _ => Error.noConfusion

theorem safe_createEdges {rs : List RelationshipPattern} {vertices : List (Option Vertex)}
    (hlength : vertices.length = rs.length + 1) (hrow : row.Covers names)
    (horder : Creation.InOrder names (rs.map fun r => (r.properties.map Prod.snd, r.name))) :
    (ctx.createEdges row rs vertices).Safe fun r =>
      r.2.Covers (Creation.known names (rs.map fun r => (r.properties.map Prod.snd, r.name))) := by
  induction rs generalizing names row vertices with
  | nil => exact .ok hrow
  | cons r rest ih =>
    match vertices, hlength with
    | left :: right :: vertices, hlength =>
      unfold createEdges
      refine (safe_createEdge left right hrow horder.1).bind fun p hp => ?_
      have hrest : (right :: vertices).length = rest.length + 1 := Nat.succ.inj hlength
      refine (ih hrest hp horder.2).bind fun p' hp' => ?_
      exact .ok hp'

theorem safe_finishPart {part : PatternPart} {vertices : List (Option Vertex)}
    (hlength : vertices.length = part.nodes.length) (hrow : row.Covers names)
    (horder : Creation.InOrder names (Creation.ofEdges part)) :
    (ctx.finishPart part vertices row).Safe
      (Row.Covers · (Creation.known names (Creation.ofEdges part))) := by
  unfold Creation.ofEdges at horder ⊢
  rw [Creation.inOrder_append] at horder
  rw [Creation.known_append]
  have hlength' : vertices.length = part.relationships.length + 1 := by
    rw [hlength]
    simp [PatternPart.nodes, PatternPart.relationships]
  unfold finishPart
  refine (safe_createEdges hlength' hrow horder.1).bind fun (edges, row') hr => ?_
  dsimp only
  show Run.Safe (fun row : Row => row.Covers (part.pathName.toList ++ _)) _
  split
  · next hname => rw [hname]; exact .ok hr
  · next x hname =>
    rw [hname]
    split
    · exact .ok (hr.set_cons x _)
    · exact .fail nofun

theorem safe_startParts {parts : List PatternPart} (hrow : row.Covers names)
    (horder : Creation.InOrder names (parts.flatMap Creation.ofNodes)) :
    (ctx.startParts row parts).Safe fun r =>
      List.Forall₂ (fun part vs => vs.length = part.nodes.length) parts r.1 ∧
        r.2.Covers (Creation.known names (parts.flatMap Creation.ofNodes)) := by
  induction parts generalizing names row with
  | nil => exact .ok ⟨.nil, hrow⟩
  | cons part rest ih =>
    rw [List.flatMap_cons] at horder ⊢
    rw [Creation.inOrder_append] at horder
    rw [Creation.known_append]
    unfold startParts
    refine (safe_createNodes hrow horder.1).bind fun r hr => ?_
    refine (ih hr.2 horder.2).bind fun r' hr' => ?_
    exact .ok ⟨.cons hr.1 hr'.1, hr'.2⟩

/-- A creation in order, which binds what its steps bind. -/
theorem safe_create {parts : List PatternPart} (hrow : row.Covers names)
    (horder : Creation.InOrder names (Creation.ofParts parts)) :
    (ctx.create parts row).Safe (Row.Covers · (Creation.known names (Creation.ofParts parts))) := by
  unfold Creation.ofParts at horder ⊢
  rw [Creation.inOrder_append] at horder
  rw [Creation.known_append]
  have hfinish : ∀ (parts : List PatternPart) (vertices : List (List (Option Vertex))) names row,
      List.Forall₂ (fun part vs => vs.length = part.nodes.length) parts vertices →
      row.Covers names → Creation.InOrder names (parts.flatMap Creation.ofEdges) →
      ((parts.zip vertices).foldlM (fun row (part, vs) => ctx.finishPart part vs row) row).Safe
        (Row.Covers · (Creation.known names (parts.flatMap Creation.ofEdges))) := by
    intro parts vertices names row hall hrow horder
    induction hall generalizing names row with
    | nil => exact .ok hrow
    | @cons part vs parts vertices hlength _ ih =>
      rw [List.flatMap_cons] at horder ⊢
      rw [Creation.inOrder_append] at horder
      rw [Creation.known_append, List.zip_cons_cons, List.foldlM_cons]
      exact (safe_finishPart hlength hrow horder.1).bind fun row' hrow' => ih _ _ hrow' horder.2
  unfold create
  exact (safe_startParts hrow.child horder.1).bind fun r hr => hfinish _ _ _ _ hr.1 hr.2 horder.2

end RunContext

/-! ## Creation of parts apart from each other -/

namespace Row

variable {row other : Row} {names more : List String}

/-- The names of the columns are the names with a value in one of the frames. -/
theorem isSome_lookupFrames (row : Row) (x : String) :
    (lookupFrames x (row.columns :: row.ancestors)).isSome = true ↔ x ∈ row.names := by
  have hnames : x ∈ row.names ↔
      x ∈ (row.columns :: row.ancestors).reverse.flatMap Bindings.names :=
    Constraints.mem_mergeLabels.trans (or_iff_right List.not_mem_nil)
  unfold lookupFrames
  rw [hnames, List.findSome?_isSome_iff, List.mem_flatMap]
  simp only [List.mem_reverse, Bindings.isSome_get?]

/-- The names of a row without temporary scopes are those of its columns. -/
theorem has_iff_mem_names (h : row.scopes = []) (x : String) :
    row.has x = true ↔ x ∈ row.names := by
  unfold Row.has lookup?
  rw [h]
  exact isSome_lookupFrames row x

/-- The columns of a row with what it looks up under their names. -/
def seen (row : Row) : Bindings Value :=
  Bindings.tabulate (fun x => (row.lookup? x).getD .null) row.names

theorem names_seen (row : Row) : row.seen.map Prod.fst = row.names :=
  Bindings.names_tabulate _ row.names

/-- Every column of the other row has a value to be taken over. -/
theorem absorb_eq (row other : Row) :
    row.absorb other = other.seen.foldl (fun row (name, v) => row.set name v) row := by
  unfold absorb seen Bindings.tabulate
  rw [List.foldl_map]
  refine List.foldl_ext _ _ row fun row x hx => ?_
  have hlookup : (other.lookup? x).isSome = true := by
    unfold lookup?
    rw [Option.isSome_or, (isSome_lookupFrames other x).2 hx, Bool.or_true]
  obtain ⟨v, hv⟩ := Option.isSome_iff_exists.1 hlookup
  simp only [hv, Option.getD_some]

/-- A row that takes over what another one binds. -/
theorem Covers.absorb (h : row.Covers names) (hother : other.Covers more) :
    (row.absorb other).Covers names ∧ (row.absorb other).Covers more := by
  have hall : (row.absorb other).Covers (names ++ other.names) := by
    rw [absorb_eq, ← names_seen]
    exact h.foldl_set other.seen
  refine ⟨hall.sub fun x hx => List.mem_append_left _ hx, hall.sub fun x hx => ?_⟩
  exact List.mem_append_right _ ((has_iff_mem_names hother.closed x).1 (hother.hasAll x hx))

end Row

namespace RunContext

variable {ctx : RunContext} {names : List String} {row : Row}

/-- Each part is created in order by itself. -/
theorem safe_createApart {parts : List PatternPart} (hrow : row.Covers names)
    (horder : ∀ part ∈ parts, Creation.InOrder names (Creation.ofParts [part])) :
    (ctx.createApart parts row).Safe fun out => out.Covers names ∧
      ∀ part ∈ parts, out.Covers (Creation.known names (Creation.ofParts [part])) := by
  have key : ∀ (parts : List PatternPart) (joined : Row),
      (∀ part ∈ parts, Creation.InOrder names (Creation.ofParts [part])) → ∀ more : List String,
      joined.Covers more → (parts.foldlM (fun (joined : Row) part => do
        let out ← ctx.create [part] row
        Run.update (·.countRow "Create")
        return joined.absorb out) joined).Safe fun out : Row => out.Covers more ∧
          ∀ part ∈ parts, out.Covers (Creation.known names (Creation.ofParts [part])) := by
    intro parts
    induction parts with
    | nil => exact fun joined _ more hjoined => .ok ⟨hjoined, nofun⟩
    | cons part rest ih =>
      intro joined horder more hjoined
      obtain ⟨hpart, hrest⟩ := List.forall_mem_cons.1 horder
      rw [List.foldlM_cons]
      refine Run.Safe.bind (P := (Row.Covers · (more ++
        Creation.known names (Creation.ofParts [part])))) ?_ fun joined' hjoined' => ?_
      · refine (safe_create hrow hpart).bind fun out hout =>
          (Run.safe_update _).bind fun _ _ => .ok ?_
        obtain ⟨hmore, hnew⟩ := hjoined.absorb hout
        exact hmore.append hnew
      · refine (ih joined' hrest _ hjoined').mono fun out hout => ?_
        refine ⟨hout.1.sub fun x hx => List.mem_append_left _ hx, ?_⟩
        exact List.forall_mem_cons.2
          ⟨hout.1.sub fun x hx => List.mem_append_right _ hx, hout.2⟩
  unfold createApart
  exact key parts row.child horder names hrow.child

/-! ## Change -/

theorem covers_foldl {f : Row → String → Row}
    (hf : ∀ row x, row.Covers names → (f row x).Covers names) (xs : List String)
    (hrow : row.Covers names) : (xs.foldl f row).Covers names := by
  induction xs generalizing row with
  | nil => exact hrow
  | cons x rest ih => exact ih (hf row x hrow)

theorem covers_rebind (saved : Value) (hrow : row.Covers names) :
    (rebind row saved).Covers names := by
  unfold rebind
  refine covers_foldl (fun row x hrow => ?_) _ hrow
  split
  · split
    · exact hrow.set x _
    · exact hrow
  · split
    · exact hrow.set x _
    · exact hrow
  · exact hrow

theorem safe_refresh (xs : List String) (hrow : row.Covers names) :
    (ctx.refresh xs row).Safe (Row.Covers · names) := by
  intro s
  unfold refresh
  show (xs.foldl _ (row, s)).1.Covers names
  have hr : (row, s).1.Covers names := hrow
  generalize (row, s) = r at hr
  induction xs generalizing r with
  | nil => exact hr
  | cons x rest ih =>
    rw [List.foldl_cons]
    refine ih _ ?_
    dsimp only
    split
    · exact hr
    · next fresh _ =>
      cases fresh with
      | none => exact hr
      | some v => exact hr.set x v

theorem safe_subject (v : Value) : (subject v).Safe Anything := by
  unfold subject
  split
  · exact .ok trivial
  · exact .ok trivial
  · exact .ok trivial
  · exact .fail nofun

theorem safe_save (target : ElementId) (changes : List Change) (hrow : row.Covers names) :
    (save target changes row).Safe (Row.Covers · names) := by
  intro s
  unfold save
  split
  · exact hrow
  · split
    · exact covers_rebind _ hrow
    · exact nofun

theorem safe_setProperty {target e : Expr} (key : String) (hrow : row.Covers names)
    (hreads : ReadsOnly names [target, e]) :
    (ctx.setProperty target key e row).Safe (Row.Covers · names) := by
  have htarget : (ctx.value target row).Safe Anything :=
    safe_value (hreads.hasAll List.mem_cons_self hrow.hasAll)
  have he : (ctx.value e row).Safe Anything :=
    safe_value (hreads.hasAll (List.mem_cons_of_mem _ List.mem_cons_self) hrow.hasAll)
  unfold setProperty
  refine he.bind fun v _ => htarget.bind fun w _ => (safe_subject w).bind fun o _ => ?_
  split
  · exact .ok hrow
  · dsimp only
    split
    · split
      · exact (Run.safe_countWrites _).bind fun _ _ => safe_save _ _ hrow
      · exact .ok hrow
    · exact (safe_prepare _ v).bind fun _ _ => (Run.safe_countWrites _).bind fun _ _ =>
        safe_save _ _ hrow

theorem safe_entryChanges (replace : Bool) (properties : Properties)
    (entries : List (String × Value)) :
    (ctx.entryChanges replace properties entries).Safe Anything := by
  induction entries with
  | nil => exact .ok trivial
  | cons entry rest ih =>
    unfold entryChanges
    dsimp only
    split
    · exact ih.bind fun _ _ => .ok trivial
    · exact (safe_prepare _ _).bind fun _ _ => ih.bind fun _ _ => .ok trivial

theorem nameSafe_get {x : String} (h : row.has x = true) : NameSafe Anything (row.get x) := by
  unfold Row.has at h
  unfold Row.get
  split
  · trivial
  · next hnone => rw [hnone] at h; cases h

theorem safe_setProperties (replace : Bool) {x : String} {e : Expr} (hrow : row.Covers names)
    (hreads : ReadsOnly names [.var x, e]) :
    (ctx.setProperties replace x e row).Safe (Row.Covers · names) := by
  have hx : row.has x = true :=
    hreads.hasAll List.mem_cons_self hrow.hasAll x (List.mem_singleton.2 rfl)
  have he : (ctx.value e row).Safe Anything :=
    safe_value (hreads.hasAll (List.mem_cons_of_mem _ List.mem_cons_self) hrow.hasAll)
  have hentries : ∀ v, (entriesOf v).Safe Anything := by
    intro v
    unfold entriesOf
    split
    · exact .ok trivial
    · exact .ok trivial
    · exact .ok trivial
    · exact .fail nofun
  unfold setProperties
  refine (Run.Safe.lift (nameSafe_get hx)).bind fun v _ => (safe_subject v).bind fun o _ => ?_
  split
  · exact .ok hrow
  · exact he.bind fun w _ => (hentries w).bind fun entries _ =>
      (safe_entryChanges _ _ _).bind fun _ _ => (Run.safe_countWrites _).bind fun _ _ =>
        safe_save _ _ hrow

theorem safe_labelled {x : String} (h : row.has x = true) : (labelled x row).Safe Anything := by
  unfold labelled
  refine (Run.Safe.lift (nameSafe_get h)).bind fun v _ => ?_
  split
  · exact .ok trivial
  · exact .ok trivial
  · exact .fail nofun

theorem safe_addLabels {x : String} (labels : List String) (hrow : row.Covers names)
    (hx : row.has x = true) : (ctx.addLabels x labels row).Safe (Row.Covers · names) := by
  unfold addLabels
  refine (safe_labelled hx).bind fun o _ => ?_
  split
  · exact .ok hrow
  · exact (Run.safe_countWrites _).bind fun _ _ => safe_save _ _ hrow

theorem safe_removeLabels {x : String} (labels : List String) (hrow : row.Covers names)
    (hx : row.has x = true) : (ctx.removeLabels x labels row).Safe (Row.Covers · names) := by
  unfold removeLabels
  refine (safe_labelled hx).bind fun o _ => ?_
  split
  · exact .ok hrow
  · exact (Run.safe_countWrites _).bind fun _ _ => safe_save _ _ hrow

theorem safe_removeProperty {target : Expr} (key : String) (hrow : row.Covers names)
    (hreads : ReadsOnly names [target]) :
    (ctx.removeProperty target key row).Safe (Row.Covers · names) := by
  unfold removeProperty
  refine (safe_value (hreads.hasAll List.mem_cons_self hrow.hasAll)).bind fun v _ =>
    (safe_subject v).bind fun o _ => ?_
  split
  · exact .ok hrow
  · dsimp only
    split
    · exact (Run.safe_countWrites _).bind fun _ _ => safe_save _ _ hrow
    · exact .ok hrow

end RunContext

/-- The expressions that an item of `SET` evaluates, its name among them. -/
def SetItem.exprs : SetItem → List Expr
  | .property target _ e => [target, e]
  | .replace x e | .merge x e => [.var x, e]
  | .labels x _ => [.var x]

/-- The expressions that an item of `REMOVE` evaluates, its name among them. -/
def RemoveItem.exprs : RemoveItem → List Expr
  | .property target _ => [target]
  | .labels x _ => [.var x]

namespace RunContext

variable {ctx : RunContext} {names : List String} {row : Row}

theorem has_of_readsOnly {x : String} (hreads : ReadsOnly names [.var x])
    (hrow : row.Covers names) : row.has x = true :=
  hreads.hasAll List.mem_cons_self hrow.hasAll x (List.mem_singleton.2 rfl)

theorem safe_set {items : List SetItem} (hrow : row.Covers names)
    (hreads : ∀ item ∈ items, ReadsOnly names item.exprs) :
    (ctx.set items row).Safe (Row.Covers · names) := by
  refine Run.Safe.foldlM (fun row hrow item hitem => ?_) hrow
  have hreads := hreads item hitem
  refine (safe_refresh item.names hrow).bind fun row' hrow' => ?_
  cases item with
  | property target key e => exact safe_setProperty key hrow' hreads
  | replace x e => exact safe_setProperties true hrow' hreads
  | merge x e => exact safe_setProperties false hrow' hreads
  | labels x labels => exact safe_addLabels labels hrow' (has_of_readsOnly hreads hrow')

theorem safe_remove {items : List RemoveItem} (hrow : row.Covers names)
    (hreads : ∀ item ∈ items, ReadsOnly names item.exprs) :
    (ctx.remove items row).Safe (Row.Covers · names) := by
  refine Run.Safe.foldlM (fun row hrow item hitem => ?_) hrow
  have hreads := hreads item hitem
  cases item with
  | property target key =>
    exact (safe_refresh _ hrow).bind fun row' hrow' => safe_removeProperty key hrow' hreads
  | labels x labels =>
    exact (safe_refresh _ hrow).bind fun row' hrow' =>
      safe_removeLabels labels hrow' (has_of_readsOnly hreads hrow')

/-! ## Merging -/

theorem safe_mergeMatches {pattern : Constraints Expr} (hrow : row.Covers names)
    (hprops : ReadsOnly names pattern.propertyExprs) :
    (ctx.mergeMatches pattern row).Safe fun rows =>
      ∀ out ∈ rows, out.Covers (names ++ pattern.names) := by
  unfold mergeMatches
  refine (Constraints.safe_mapM fun e he => ?_).bind fun resolved hnames => ?_
  · refine (safe_value (hprops.hasAll he hrow.hasAll)).bind fun v _ => ?_
    split
    · exact .fail nofun
    · exact .ok trivial
  · refine (Flow.safe_toList ((Search.of ctx resolved).safe_flow row)).bind fun ms _ => .ok ?_
    intro out hout
    obtain ⟨m, -, rfl⟩ := List.mem_map.1 hout
    have hbound := hrow.bound (m.bindings resolved)
    rwa [m.names_bindings, hnames] at hbound

/-- What a row becomes by a `MERGE` whose pattern, whose part and whose items read bound names
only. -/
theorem safe_merge {pattern : Constraints Expr} {part : PatternPart}
    {onCreate onMatch : List SetItem} {inner : List String} (hrow : row.Covers names)
    (hprops : ReadsOnly names pattern.propertyExprs)
    (horder : Creation.InOrder names (Creation.ofParts [part]))
    (hmatched : ∀ x ∈ inner, x ∈ names ++ pattern.names)
    (hcreated : ∀ x ∈ inner, x ∈ Creation.known names (Creation.ofParts [part]))
    (hitems : ∀ item ∈ onCreate ++ onMatch, ReadsOnly inner item.exprs) :
    (ctx.merge pattern part onCreate onMatch row).Safe fun rows =>
      ∀ out ∈ rows, out.Covers inner := by
  obtain ⟨honCreate, honMatch⟩ := List.forall_mem_append.1 hitems
  unfold merge
  refine (safe_mergeMatches hrow hprops).bind fun rows hrows => ?_
  split
  · exact (safe_create hrow horder).bind fun out hout =>
      (safe_set (hout.sub hcreated) honCreate).bind fun out' hout' =>
        .ok (List.forall_mem_singleton.2 hout')
  · refine (Run.Safe.mapM (S := fun _ out => out.Covers inner) fun out hout =>
      safe_set ((hrows out hout).sub hmatched) honMatch).mono fun outs houts out hout => ?_
    obtain ⟨_, -, hcovers⟩ := exists_of_forall₂ houts hout
    exact hcovers

end RunContext

/-! ## Deletion -/

namespace Doomed

mutual

theorem nameSafe_add (d : Doomed) (v : Value) : NameSafe Anything (d.add v) := by
  cases v with
  | list items => exact nameSafe_addItems d items
  | null => trivial
  | node v => trivial
  | relationship e => trivial
  | path p => trivial
  | _ => exact nofun

theorem nameSafe_addItems (d : Doomed) (vs : List Value) : NameSafe Anything (d.addItems vs) := by
  cases vs with
  | nil => trivial
  | cons v rest =>
    have hv := nameSafe_add d v
    unfold addItems
    split
    · exact nameSafe_addItems _ rest
    · next e he =>
      rw [he] at hv
      exact hv

end

end Doomed

namespace RunContext

variable {ctx : RunContext} {names : List String}

/-- A deletion whose targets read names that all rows bind. -/
theorem safe_delete (detach : Bool) {targets : List Expr} {rows : List Row}
    (hrows : ∀ row ∈ rows, row.Covers names) (hreads : ReadsOnly names targets) :
    (ctx.delete detach targets rows).Safe Anything := by
  have hdoomed : (ctx.doomed targets rows).Safe Anything :=
    Run.Safe.foldlM (fun d _ row hrow => Run.Safe.foldlM (fun d _ e he =>
      (safe_value (hreads.hasAll he (hrows row hrow).hasAll)).bind fun v _ =>
        .lift (d.nameSafe_add v)) trivial) trivial
  have hincident : ∀ d, (ctx.withIncident detach d).Safe Anything := by
    intro d
    refine Run.Safe.foldlM (fun d _ id _ => Run.safe_store.bind fun σ _ =>
      (Run.safe_update _).bind fun _ _ => .lift ?_) trivial
    unfold Doomed.addIncident
    dsimp only
    split
    · exact nofun
    · trivial
  have hremove : ∀ d, (removeAll d).Safe Anything := fun d =>
    (Run.Safe.forM fun id _ => (Run.safe_write _).bind fun _ _ => Run.safe_countWrites _).bind
      fun _ _ => Run.Safe.forM fun id _ => (Run.safe_write _).bind fun _ _ =>
        Run.safe_countWrites _
  unfold delete
  exact hdoomed.bind fun d _ => (hincident d).bind fun d' _ => hremove d'

end RunContext

end PropertyGraph
