import PropertyGraph.Proofs.Eval.Substitution
import PropertyGraph.Proofs.Run.Columns
import PropertyGraph.Proofs.Run.Relabelled
import PropertyGraph.Proofs.Store.Changed

/-!
# What an assignment of properties does

`SET n = m` and `SET n += m` set the properties of an element to the entries of a map or of another
element.  They are carried out as a list of changes, worked out before any of them is made.

    RunContext.current       an element in its newest state
    RunContext.assigned      the property that an assignment leaves under a name
    get?_assignChanges       the changes come to these properties
    RunContext.setItem_assigns
                             the element, the other elements and the row after an assignment
-/

namespace PropertyGraph

/-! ## Rows -/

theorem Bindings.get?_map {α β : Type} (f : α → β) (name : String) (bs : Bindings α) :
    Bindings.get? name (bs.map fun p => (p.1, f p.2)) = (Bindings.get? name bs).map f := by
  induction bs with
  | nil => rfl
  | cons b rest ih =>
    rw [List.map_cons, Bindings.get?_cons, Bindings.get?_cons, ih]
    split <;> rfl

namespace Row

variable {row : Row}

/-- The row with a function applied to all its values. -/
def map (f : Value → Value) (row : Row) : Row where
  columns := row.columns.map fun p => (p.1, f p.2)
  ancestors := row.ancestors.map (List.map fun p => (p.1, f p.2))
  scopes := row.scopes.map fun p => (p.1, f p.2)

theorem lookup?_map (f : Value → Value) (row : Row) (name : String) :
    (row.map f).lookup? name = (row.lookup? name).map f := by
  have hframes : ∀ frames : List (Bindings Value),
      lookupFrames name (frames.map (List.map fun p => (p.1, f p.2))) =
        (lookupFrames name frames).map f := by
    intro frames
    unfold lookupFrames
    induction frames with
    | nil => rfl
    | cons frame rest ih =>
      rw [List.map_cons, List.findSome?_cons, List.findSome?_cons, Bindings.get?_map]
      cases Bindings.get? name frame with
      | none => exact ih
      | some v => rfl
  unfold lookup?
  rw [Option.map_or]
  exact congr (congrArg _ (Bindings.get?_map f name row.scopes))
    (hframes (row.columns :: row.ancestors))

end Row

namespace RunContext

variable {ctx : RunContext} {σ : Store} {row : Row} {x : String} {s t : RunState}

/-! ## Newest states -/

/-- A value, and for an element that the reader sees its newest state. -/
def current (ctx : RunContext) (σ : Store) (v : Value) : Value :=
  ((ctx.newest? σ v).bind id).getD v

theorem current_of_newest {v w : Value} (h : ctx.newest? σ v = some (some w)) :
    ctx.current σ v = w := by
  unfold current
  rw [h]
  rfl

/-- What is in its newest state stays as it is. -/
theorem newest?_newest (hσ : σ.Consistent) {v w : Value} (h : ctx.newest? σ v = some (some w)) :
    ctx.newest? σ w = some (some w) := by
  unfold newest? at h
  split at h
  · next u =>
    obtain ⟨u', hu', rfl⟩ := Option.map_eq_some_iff.1 (Option.some.inj h)
    have hid := Store.getVertex?_id hσ hu'
    simp only [newest?, hid, hu', Option.map_some]
  · next e =>
    obtain ⟨e', he', rfl⟩ := Option.map_eq_some_iff.1 (Option.some.inj h)
    have hid := Store.getEdge?_id hσ he'
    simp only [newest?, hid, he', Option.map_some]
  · cases h

theorem current_current (hσ : σ.Consistent) (v : Value) :
    ctx.current σ (ctx.current σ v) = ctx.current σ v := by
  cases hv : (ctx.newest? σ v).bind id with
  | none =>
    have hsame : ctx.current σ v = v := by
      unfold current
      rw [hv]
      rfl
    rw [hsame, hsame]
  | some w =>
    obtain ⟨o, ho, rfl⟩ := Option.bind_eq_some_iff.1 hv
    rw [current_of_newest ho]
    exact current_of_newest (newest?_newest hσ ho)

/-- An element in its newest state is the stored one. -/
theorem element?_of_newest (hσ : σ.Consistent) {v w : Value} {id : ElementId}
    (h : ctx.newest? σ v = some (some w)) (hid : w.elementId? = some id) :
    σ.element? id = some w := by
  have hnew := newest?_newest hσ h
  cases w with
  | node u =>
    cases hid
    obtain ⟨u', hu', heq⟩ := Option.map_eq_some_iff.1 (Option.some.inj hnew)
    cases heq
    rw [Store.element?_vertex, (Option.filter_eq_some_iff.1 hu').1]
    rfl
  | relationship e =>
    cases hid
    obtain ⟨e', he', heq⟩ := Option.map_eq_some_iff.1 (Option.some.inj hnew)
    cases heq
    rw [Store.element?_edge, (Option.filter_eq_some_iff.1 he').1]
    rfl
  | _ => cases hid

/-- The row with the element of one name in its newest state. -/
def freshen (ctx : RunContext) (σ : Store) (row : Row) (name : String) : Row :=
  match (row.lookup? name).bind (ctx.newest? σ) with
  | some (some w) => row.set name w
  | _ => row

theorem closed_freshen (hrow : row.Closed) (name : String) : (ctx.freshen σ row name).Closed := by
  unfold freshen
  split
  · exact hrow
  · exact hrow

theorem lookup?_freshen (hrow : row.Closed) (name y : String) :
    (ctx.freshen σ row name).lookup? y =
      if y = name then (row.lookup? y).map (ctx.current σ) else row.lookup? y := by
  unfold freshen
  split
  · next w hw =>
    obtain ⟨v, hv, hnew⟩ := Option.bind_eq_some_iff.1 hw
    rw [Row.lookup?_set row hrow]
    by_cases hy : y = name
    · rw [if_pos hy.symm, if_pos hy, hy, hv, Option.map_some, current_of_newest hnew]
    · rw [if_neg (Ne.symm hy), if_neg hy]
  · next hnone =>
    split
    · next hy =>
      cases hv : row.lookup? y with
      | none => rfl
      | some v =>
        -- an element that cannot be seen, or none
        have hsame : (ctx.newest? σ v).bind id = none := by
          rw [hy] at hv
          simp only [hv, Option.bind_some] at hnone
          cases hnew : ctx.newest? σ v with
          | none => rfl
          | some o =>
            cases o with
            | none => rfl
            | some w => exact absurd hnew (hnone w)
        rw [Option.map_some, current, hsame]
        rfl
    · rfl

theorem lookup?_foldl_freshen (ctx : RunContext) (hσ : σ.Consistent) (names : List String)
    (hrow : row.Closed) :
    (names.foldl (ctx.freshen σ) row).Closed ∧
      ∀ y, (names.foldl (ctx.freshen σ) row).lookup? y =
        if y ∈ names then (row.lookup? y).map (ctx.current σ) else row.lookup? y := by
  induction names generalizing row with
  | nil => exact ⟨hrow, fun y => rfl⟩
  | cons name rest ih =>
    obtain ⟨hclosed, hrest⟩ := ih (closed_freshen hrow name)
    refine ⟨hclosed, fun y => ?_⟩
    rw [List.foldl_cons, hrest, lookup?_freshen hrow]
    by_cases hy : y = name
    · -- a name that comes again finds its element in the newest state
      have htwice : ctx.current σ ∘ ctx.current σ = ctx.current σ :=
        funext (current_current hσ)
      rw [if_pos hy, Option.map_map, htwice, ite_self, if_pos (List.mem_cons.2 (Or.inl hy))]
    · simp only [List.mem_cons, hy, false_or, if_false]

/-- The elements of some names are brought up to date one after the other. -/
theorem refresh_eq (ctx : RunContext) (names : List String) (row : Row) (s : RunState) :
    ∃ t, ctx.refresh names row s = (.ok (names.foldl (ctx.freshen s.store) row), t) ∧
      t.store = s.store := by
  suffices ∀ s' : RunState, s'.store = s.store → ∃ t, ctx.refresh names row s' =
      (.ok (names.foldl (ctx.freshen s.store) row), t) ∧ t.store = s.store from this s rfl
  unfold refresh
  induction names generalizing row with
  | nil => exact fun s' hs' => ⟨s', rfl, hs'⟩
  | cons name rest ih =>
    intro s' hs'
    rw [List.foldl_cons, List.foldl_cons]
    unfold freshen
    rw [← hs']
    dsimp only
    cases hnew : (row.lookup? name).bind (ctx.newest? s'.store) with
    | none => rw [hs']; exact ih row s' hs'
    | some o =>
      cases o with
      | none => rw [hs']; exact ih row (s'.request 1) hs'
      | some w => rw [hs']; exact ih (row.set name w) (s'.request 1) hs'

/-! ## The changes of an assignment -/

/-- What one entry changes: null removes a property that is there, unless `replace` says that those
are removed anyway. -/
def entryChange? (ctx : RunContext) (replace : Bool) (old : Properties) (p : String × Value) :
    Option Change :=
  if p.2.isNull then
    if !replace && Entries.has (ctx.config.property p.1) old then
      some (.removeProperty (ctx.config.property p.1))
    else none
  else some (.setProperty (ctx.config.property p.1) p.2)

theorem entryChange?_null {replace : Bool} {old : Properties} {p : String × Value}
    (h : p.2.isNull = true) : ctx.entryChange? replace old p =
      if !replace && Entries.has (ctx.config.property p.1) old then
        some (.removeProperty (ctx.config.property p.1))
      else none := by
  unfold entryChange?
  rw [if_pos h]

theorem entryChange?_value {replace : Bool} {old : Properties} {p : String × Value}
    (h : p.2.isNull = false) : ctx.entryChange? replace old p =
      some (.setProperty (ctx.config.property p.1) p.2) := by
  unfold entryChange?
  rw [h, if_neg Bool.false_ne_true]

/-- The changes that set the properties of an element to some entries. -/
def assignChanges (ctx : RunContext) (replace : Bool) (old : Properties)
    (entries : List (String × Value)) : List Change :=
  (if replace then ctx.notSet entries old else []).map Change.removeProperty ++
    entries.filterMap (ctx.entryChange? replace old)

theorem not_isLabelChange_of_mem {replace : Bool} {old : Properties}
    {entries : List (String × Value)} :
    ∀ c ∈ ctx.assignChanges replace old entries, Store.isLabelChange c = false := by
  intro c hc
  rcases List.mem_append.1 hc with hc | hc
  · obtain ⟨name, -, rfl⟩ := List.mem_map.1 hc
    rfl
  · obtain ⟨p, -, hp⟩ := List.mem_filterMap.1 hc
    cases hnull : p.2.isNull with
    | true =>
      rw [entryChange?_null hnull] at hp
      split at hp
      · cases hp; rfl
      · cases hp
    | false =>
      rw [entryChange?_value hnull] at hp
      cases hp
      rfl

/-- Working out the changes defines names at most, and comes to the changes of all entries. -/
theorem entryChanges_eq (ctx : RunContext) (replace : Bool) (old : Properties)
    (entries : List (String × Value)) (s : RunState) :
    ∃ r defined, ctx.entryChanges replace old entries s =
        (r, { s with store := s.store.defineAll defined }) ∧
      ∀ changes, r = .ok changes → changes = entries.filterMap (ctx.entryChange? replace old) := by
  induction entries generalizing s with
  | nil => exact ⟨_, [], rfl, fun changes h => by cases h; rfl⟩
  | cons p rest ih =>
    obtain ⟨key, v⟩ := p
    unfold entryChanges
    rw [List.filterMap_cons]
    dsimp only
    cases hnull : v.isNull with
    | true =>
      obtain ⟨r, defined, hrun, hr⟩ := ih s
      rw [if_pos rfl, Run.bind_apply, hrun, entryChange?_null hnull]
      cases r with
      | error e => exact ⟨_, defined, rfl, by rintro _ ⟨⟩⟩
      | ok changes =>
        refine ⟨_, defined, rfl, fun out hout => ?_⟩
        cases hout
        rw [hr changes rfl]
        split <;> rfl
    | false =>
      rw [if_neg Bool.false_ne_true, Run.bind_apply, entryChange?_value hnull]
      unfold prepare
      cases v.unstorable? with
      | some w => exact ⟨_, [], rfl, by rintro _ ⟨⟩⟩
      | none =>
        obtain ⟨r, defined, hrun, hr⟩ :=
          ih { s with store := s.store.define (ctx.config.property key) v }
        dsimp only
        rw [Run.bind_apply, hrun]
        cases r with
        | error e => exact ⟨_, (_, v) :: defined, rfl, by rintro _ ⟨⟩⟩
        | ok changes =>
          refine ⟨_, (_, v) :: defined, rfl, fun out hout => ?_⟩
          cases hout
          rw [hr changes rfl]

/-! ## The properties that are left -/

/-- The entries of an assignment by the names under which they are stored. -/
def storedEntries (ctx : RunContext) (entries : List (String × Value)) : Bindings Value :=
  entries.map fun p => (ctx.config.property p.1, p.2)

/-- The property under a name after an assignment: that of the entries, unless it is null, and where
they have none the former one, unless all are replaced. -/
def assigned (ctx : RunContext) (replace : Bool) (old : Properties)
    (entries : List (String × Value)) (name : String) : Option Value :=
  match Bindings.get? name (ctx.storedEntries entries) with
  | some v => if v.isNull then none else some v
  | none => if replace then none else Entries.get? name old

/-- The change of an entry leaves the properties of other names alone. -/
theorem get?_entryChange?_of_ne {replace : Bool} {old properties : Properties}
    {p : String × Value} {name : String} (hne : name ≠ ctx.config.property p.1) :
    ∀ c ∈ ctx.entryChange? replace old p,
      Entries.get? name (Store.changeProperties properties c) = Entries.get? name properties := by
  intro c hc
  cases hnull : p.2.isNull with
  | true =>
    rw [entryChange?_null hnull] at hc
    split at hc
    · cases hc
      exact Entries.get?_erase_of_ne hne properties
    · cases hc
  | false =>
    rw [entryChange?_value hnull] at hc
    cases hc
    rw [Store.changeProperties_setProperty hnull]
    exact Entries.get?_insert_of_ne hne _ properties

/-- So do the changes of all entries. -/
theorem get?_foldl_entryChange?_of_not_mem {replace : Bool} {old properties : Properties}
    {entries : List (String × Value)} {name : String}
    (h : name ∉ (ctx.storedEntries entries).names) :
    Entries.get? name ((entries.filterMap (ctx.entryChange? replace old)).foldl
      Store.changeProperties properties) = Entries.get? name properties := by
  induction entries generalizing properties with
  | nil => rfl
  | cons p rest ih =>
    obtain ⟨hp, hrest⟩ := not_or.1 (mt List.mem_cons.2 h)
    rw [List.filterMap_cons]
    cases hc : ctx.entryChange? replace old p with
    | none => exact ih hrest
    | some c =>
      dsimp only
      rw [List.foldl_cons, ih hrest]
      exact get?_entryChange?_of_ne hp c hc

/-- The entries having different names, what one of them does is not undone. -/
theorem get?_foldl_entryChange? {replace : Bool} {old properties : Properties}
    (hsorted : Entries.Sorted properties) {entries : List (String × Value)}
    (hdistinct : (ctx.storedEntries entries).names.Nodup) {name : String} {v : Value}
    (hv : Bindings.get? name (ctx.storedEntries entries) = some v) :
    Entries.get? name ((entries.filterMap (ctx.entryChange? replace old)).foldl
      Store.changeProperties properties) =
        if v.isNull then
          if !replace && Entries.has name old then none else Entries.get? name properties
        else some v := by
  induction entries generalizing properties with
  | nil => cases hv
  | cons p rest ih =>
    obtain ⟨hnew, hrest⟩ := List.nodup_cons.1 hdistinct
    rw [storedEntries, List.map_cons, Bindings.get?_cons] at hv
    rw [List.filterMap_cons]
    by_cases hname : ctx.config.property p.1 = name
    · rw [if_pos hname] at hv
      cases hv
      rw [← hname]
      cases hnull : p.2.isNull with
      | true =>
        rw [entryChange?_null hnull, if_pos rfl]
        split
        · next hnone =>
          rw [get?_foldl_entryChange?_of_not_mem hnew]
          split at hnone
          · cases hnone
          · next hkeep => rw [if_neg hkeep]
        · next c hc =>
          rw [List.foldl_cons, get?_foldl_entryChange?_of_not_mem hnew]
          split at hc
          · next hdrop =>
            cases hc
            rw [if_pos hdrop]
            exact Entries.get?_erase_self hsorted _
          · cases hc
      | false =>
        rw [entryChange?_value hnull]
        dsimp only
        rw [List.foldl_cons, get?_foldl_entryChange?_of_not_mem hnew, if_neg Bool.false_ne_true,
          Store.changeProperties_setProperty hnull]
        exact Entries.get?_insert_self _ _ _
    · rw [if_neg hname] at hv
      cases hc : ctx.entryChange? replace old p with
      | none => exact ih hsorted hrest hv
      | some c =>
        dsimp only
        rw [List.foldl_cons, ih (Store.changeProperties_sorted hsorted c) hrest hv,
          get?_entryChange?_of_ne (Ne.symm hname) c hc]

/-- A property is dropped unless an entry sets it. -/
theorem mem_notSet {old : Properties} {entries : List (String × Value)}
    (hdistinct : (ctx.storedEntries entries).names.Nodup) {name : String} :
    name ∈ ctx.notSet entries old ↔ Entries.has name old = true ∧
      ∀ v, Bindings.get? name (ctx.storedEntries entries) = some v → v.isNull = true := by
  unfold notSet
  rw [List.mem_filter, ← Entries.has_iff_mem_names, Bool.not_eq_true', List.any_eq_false]
  refine and_congr_right fun _ => ⟨fun h v hv => ?_, fun h p hp hset => ?_⟩
  · obtain ⟨p, hp, heq⟩ := List.mem_map.1 (Bindings.mem_of_get? hv)
    cases heq
    simpa using h p hp
  · obtain ⟨hvalue, hname⟩ := (Bool.and_eq_true _ _).mp hset
    have hmem : (name, p.2) ∈ ctx.storedEntries entries :=
      List.mem_map.2 ⟨p, hp, Prod.ext (beq_iff_eq.1 hname) rfl⟩
    rw [h p.2 (Bindings.get?_of_mem hdistinct hmem)] at hvalue
    cases hvalue

theorem get?_of_not_has {old : Properties} {name : String} (h : Entries.has name old = false) :
    Entries.get? name old = none :=
  Option.isNone_iff_eq_none.1 (Option.isSome_eq_false_iff.1 h)

/-- The changes of an assignment leave the properties that it assigns. -/
theorem get?_assignChanges {replace : Bool} {old : Properties} (hsorted : Entries.Sorted old)
    {entries : List (String × Value)} (hdistinct : (ctx.storedEntries entries).names.Nodup)
    (name : String) :
    Entries.get? name ((ctx.assignChanges replace old entries).foldl Store.changeProperties old) =
      ctx.assigned replace old entries name := by
  unfold assignChanges assigned
  rw [List.foldl_append]
  have hleft : ∀ dropped : List String, Entries.get? name
      ((dropped.map Change.removeProperty).foldl Store.changeProperties old) =
        if name ∈ dropped then none else Entries.get? name old :=
    fun dropped => Store.get?_foldl_removeProperty hsorted dropped name
  have hkept := fun dropped : List String =>
    Store.foldl_changeProperties_sorted hsorted (dropped.map Change.removeProperty)
  cases hv : Bindings.get? name (ctx.storedEntries entries) with
  | some v =>
    rw [get?_foldl_entryChange? (hkept _) hdistinct hv, hleft]
    dsimp only
    cases hnull : v.isNull with
    | false => rw [if_neg Bool.false_ne_true, if_neg Bool.false_ne_true]
    | true =>
      -- the property is dropped first, or removed now, or was not there
      rw [if_pos rfl, if_pos rfl]
      cases hhas : Entries.has name old with
      | false => rw [get?_of_not_has hhas, ite_self, ite_self]
      | true =>
        cases replace with
        | false => rfl
        | true =>
          rw [if_neg (by simp), if_pos]
          refine (mem_notSet hdistinct).2 ⟨hhas, fun w hw => ?_⟩
          rw [hv] at hw
          cases hw
          exact hnull
  | none =>
    have hnot : name ∉ (ctx.storedEntries entries).names := by
      rw [← Bindings.isSome_get?, hv]
      exact Bool.false_ne_true
    rw [get?_foldl_entryChange?_of_not_mem hnot, hleft]
    cases replace with
    | false => rfl
    | true =>
      dsimp only
      cases hhas : Entries.has name old with
      | false => rw [get?_of_not_has hhas, ite_self]; rfl
      | true =>
        rw [if_pos]
        · rfl
        · refine (mem_notSet hdistinct).2 ⟨hhas, fun w hw => ?_⟩
          rw [hv] at hw
          cases hw

/-! ## Saving -/

/-- The row with one name bound to a saved element, if it is bound to a state of it. -/
def rebindName (saved : Value) (row : Row) (name : String) : Row :=
  if (row.lookup? name).bind Value.elementId? = saved.elementId? then row.set name saved else row

theorem rebind_eq {saved : Value} {id : ElementId} (hsaved : saved.elementId? = some id)
    (row : Row) : rebind row saved = row.names.foldl (rebindName saved) row := by
  unfold rebind
  congr 1
  funext row name
  unfold rebindName
  cases hv : row.lookup? name with
  | none => rw [Option.bind_none, hsaved, if_neg nofun]
  | some v =>
    rw [Option.bind_some]
    cases saved with
    | node w => cases v <;> simp [Value.elementId?]
    | relationship f => cases v <;> simp [Value.elementId?]
    | _ => cases hsaved

theorem closed_rebindName {saved : Value} (hrow : row.Closed) (name : String) :
    (rebindName saved row name).Closed := by
  unfold rebindName
  split
  · exact hrow
  · exact hrow

theorem lookup?_rebindName {saved : Value} (hrow : row.Closed) (name : String)
    (hx : (row.lookup? x).bind Value.elementId? = saved.elementId?) :
    (rebindName saved row name).lookup? x =
      if name = x then some saved else row.lookup? x := by
  unfold rebindName
  by_cases hname : name = x
  · rw [hname, if_pos hx, Row.lookup?_set row hrow]
  · rw [if_neg hname]
    split
    · rw [Row.lookup?_set row hrow, if_neg hname]
    · rfl

/-- A saved element takes the place of its former states in the columns. -/
theorem lookup?_rebind {saved v : Value} {id : ElementId} (hsaved : saved.elementId? = some id)
    (hrow : row.Closed) (hx : row.lookup? x = some v) (hv : v.elementId? = some id) :
    (rebind row saved).lookup? x = some saved := by
  have hmem : x ∈ row.names := (Row.has_iff_mem_names hrow x).1 (Row.has_of_lookup? hx)
  have hbound : (row.lookup? x).bind Value.elementId? = saved.elementId? := by
    rw [hx, hsaved]
    exact hv
  rw [rebind_eq hsaved]
  suffices ∀ (names : List String) (row : Row), row.Closed →
      (row.lookup? x).bind Value.elementId? = saved.elementId? →
      (names.foldl (rebindName saved) row).lookup? x =
        if x ∈ names then some saved else row.lookup? x by
    rw [this row.names row hrow hbound, if_pos hmem]
  intro names
  induction names with
  | nil => exact fun _ _ _ => rfl
  | cons name rest ih =>
    intro row hrow hbound
    have hstep := lookup?_rebindName hrow name hbound
    have hnext : ((rebindName saved row name).lookup? x).bind Value.elementId? =
        saved.elementId? := by
      rw [hstep]
      split
      · rfl
      · exact hbound
    rw [List.foldl_cons, ih _ (closed_rebindName hrow name) hnext, hstep]
    by_cases hname : name = x
    · rw [if_pos hname, ite_self, if_pos (List.mem_cons.2 (Or.inl hname.symm))]
    · simp only [if_neg hname, List.mem_cons, Ne.symm hname, false_or]

/-- Saving changes of the properties of a stored element. -/
theorem save_ok (hs : s.store.Consistent) {id : ElementId} {v : Value} {old : Properties}
    (hv : s.store.element? id = some v) (hold : v.entries? = some old)
    {changes : List Change} (hchanges : ∀ c ∈ changes, Store.isLabelChange c = false)
    (hrow : row.Closed) (hx : row.lookup? x = some v) (hid : v.elementId? = some id) :
    ∃ row' t, save id changes row s = (.ok row', t) ∧
      row'.lookup? x = some (v.withProperties (changes.foldl Store.changeProperties old)) ∧
      ∀ other, t.store.element? other =
        if other = id then some (v.withProperties (changes.foldl Store.changeProperties old))
        else s.store.element? other := by
  unfold save
  cases hempty : changes.isEmpty with
  | true =>
    rw [List.isEmpty_iff.1 hempty]
    have hsame : v.withProperties old = v := by
      cases v with
      | node w => cases hold; cases w; rfl
      | relationship e => cases hold; cases e; rfl
      | _ => cases hid
    refine ⟨row, s, rfl, ?_, fun other => ?_⟩
    · rw [List.foldl_nil, hsame]
      exact hx
    · rw [List.foldl_nil, hsame]
      split
      · next heq => rw [heq, hv]
      · rfl
  | false =>
    obtain ⟨hsaved, hothers⟩ := Store.element?_of_change hs hv hold hchanges
    have hsavedId : (v.withProperties (changes.foldl Store.changeProperties old)).elementId? =
        some id := by
      cases v with
      | node w => exact hid
      | relationship e => exact hid
      | _ => cases hid
    rcases hrun : s.store.change id changes with ⟨r, τ⟩
    rw [hrun] at hsaved hothers
    cases hsaved
    exact ⟨_, _, rfl, lookup?_rebind hsavedId hrow hx hid, hothers⟩

/-- Saving that fails has changed no element. -/
theorem element?_of_failed_save {id : ElementId} {changes : List Change} {e : Error}
    (hchanges : ∀ c ∈ changes, Store.isLabelChange c = false)
    (hfail : save id changes row s = (.error e, t)) (other : ElementId) :
    t.store.element? other = s.store.element? other := by
  unfold save at hfail
  split at hfail
  · cases hfail
  · split at hfail
    · cases hfail
    · next err τ herr =>
      cases hfail
      have hleft := Store.element?_of_failed_change hchanges (by rw [herr]) other
      rw [herr] at hleft
      exact hleft

/-! ## Assignments -/

/-- The item of `SET` that sets all properties of an element, in the place of those it has or beside
them. -/
def assignment (replace : Bool) (x : String) (e : Expr) : SetItem :=
  if replace then .replace x e else .merge x e

theorem setItem_assignment (ctx : RunContext) (replace : Bool) (x : String) (e : Expr) (row : Row) :
    ctx.setItem row (assignment replace x e) = (do
      ctx.setProperties replace x e (← ctx.refresh (x :: e.freeNames.filter (· ≠ x)) row)) := by
  cases replace <;> rfl

/-- A name that is bound to a stored element, which the reader sees, and an expression for a map or
an element, whose names stay distinct when they are stored.  The expression is read with all
elements in their newest state. -/
structure Assigns (ctx : RunContext) (σ : Store) (row : Row) (x : String) (e : Expr)
    (id : ElementId) (stored : Value) (old : Properties) (entries : List (String × Value)) :
    Prop where
  closed : row.Closed
  bound : (row.lookup? x).bind (ctx.newest? σ) = some (some stored)
  id : stored.elementId? = some id
  old : stored.entries? = some old
  source : ∃ m, e.value (ctx.env σ) (row.map (ctx.current σ)) = .ok m ∧ m.entries? = some entries
  distinct : (ctx.storedEntries entries).names.Nodup

namespace Assigns

variable {e : Expr} {id : ElementId} {stored : Value} {old : Properties}
  {entries : List (String × Value)}

/-- The element is the one that is stored. -/
theorem element?_eq (h : ctx.Assigns σ row x e id stored old entries) (hσ : σ.Consistent) :
    σ.element? id = some stored := by
  obtain ⟨v, -, hnew⟩ := Option.bind_eq_some_iff.1 h.bound
  exact element?_of_newest hσ hnew h.id

theorem sorted (h : ctx.Assigns σ row x e id stored old entries) (hσ : σ.Consistent) :
    Entries.Sorted old := by
  have hstored := h.element?_eq hσ
  have hold := h.old
  cases id with
  | vertex id =>
    obtain ⟨v, hv, rfl⟩ := Option.map_eq_some_iff.1 hstored
    cases hold
    obtain ⟨-, i, hi⟩ := (Store.vertex?_eq_some hσ).1 hv
    exact (hσ.vertexParts i v hi).2.1
  | edge id =>
    obtain ⟨e, he, rfl⟩ := Option.map_eq_some_iff.1 hstored
    cases hold
    obtain ⟨-, i, hi⟩ := (Store.edge?_eq_some hσ).1 he
    exact (hσ.edgeParts i e hi).1

/-- The row that has been brought up to date binds the element as it is stored, and reads the source
as it is meant. -/
theorem refreshed (h : ctx.Assigns σ row x e id stored old entries) (hσ : σ.Consistent) :
    let read := (x :: e.freeNames.filter (· ≠ x)).foldl (ctx.freshen σ) row
    read.Closed ∧ read.lookup? x = some stored ∧
      e.value (ctx.env σ) read = e.value (ctx.env σ) (row.map (ctx.current σ)) := by
  obtain ⟨hclosed, hlook⟩ :=
    lookup?_foldl_freshen ctx hσ (x :: e.freeNames.filter (· ≠ x)) h.closed
  refine ⟨hclosed, ?_, Expr.value_congr _ fun y hy => ?_⟩
  · obtain ⟨v, hv, hnew⟩ := Option.bind_eq_some_iff.1 h.bound
    rw [hlook, if_pos List.mem_cons_self, hv, Option.map_some, current_of_newest hnew]
  · rw [hlook, Row.lookup?_map, if_pos]
    by_cases hyx : y = x
    · exact List.mem_cons.2 (Or.inl hyx)
    · refine List.mem_cons_of_mem _ (List.mem_filter.2 ⟨Expr.mem_freeNames.2 hy, ?_⟩)
      exact decide_eq_true hyx

end Assigns

theorem subject_of_elementId? {v : Value} {id : ElementId} (h : v.elementId? = some id) :
    ∃ old, v.entries? = some old ∧ subject v = pure (some ⟨id, old⟩) := by
  cases v with
  | node w => cases h; exact ⟨_, rfl, rfl⟩
  | relationship e => cases h; exact ⟨_, rfl, rfl⟩
  | _ => cases h

theorem subject_of_no_element {v : Value} (h : v.elementId? = none) :
    subject v = pure none ∨ ∃ err, subject v = Run.fail err := by
  cases v with
  | null => exact Or.inl rfl
  | node w => cases h
  | relationship e => cases h
  | _ => exact Or.inr ⟨_, rfl⟩

theorem entriesOf_eq (m : Value) :
    (∃ entries, m.entries? = some entries ∧ entriesOf m = pure entries) ∨
      ∃ err, entriesOf m = Run.fail err := by
  cases m with
  | map entries => exact Or.inl ⟨_, rfl, rfl⟩
  | node w => exact Or.inl ⟨_, rfl, rfl⟩
  | relationship e => exact Or.inl ⟨_, rfl, rfl⟩
  | _ => exact Or.inr ⟨_, rfl⟩

/-- An assignment to an element fails before it has done more than define names, or it saves the
changes that it has worked out. -/
theorem setProperties_cases {replace : Bool} {e : Expr} {r : Except Error Row}
    (h : ctx.setProperties replace x e row s = (r, t)) :
    ((∀ id, t.store.element? id = s.store.element? id) ∧
      ∀ v, row.lookup? x = some v → v.elementId? = none ∨ ∃ err, r = .error err) ∨
    ∃ v id old m entries s', row.lookup? x = some v ∧ v.elementId? = some id ∧
      v.entries? = some old ∧ e.value (ctx.env s.store) row = .ok m ∧
      m.entries? = some entries ∧ (∃ defined, s'.store = s.store.defineAll defined) ∧
      save id (ctx.assignChanges replace old entries) row s' = (r, t) := by
  have hfails : ∀ err, ((.error err, s) : Except Error Row × RunState) = (r, t) →
      (∀ id, t.store.element? id = s.store.element? id) ∧
        ∀ v, row.lookup? x = some v → v.elementId? = none ∨ ∃ err, r = .error err := by
    rintro err ⟨⟩
    exact ⟨fun id => rfl, fun v _ => Or.inr ⟨_, rfl⟩⟩
  unfold setProperties at h
  rw [Run.bind_apply] at h
  unfold Run.lift Row.get at h
  cases hx : row.lookup? x with
  | none =>
    rw [hx] at h
    exact Or.inl (hx ▸ hfails _ h)
  | some v =>
    rw [hx] at h hfails
    dsimp only at h
    cases hid : v.elementId? with
    | none =>
      left
      rcases subject_of_no_element hid with hnull | ⟨err, hfail⟩
      · rw [hnull] at h
        cases h
        refine ⟨fun id => rfl, ?_⟩
        rintro _ ⟨⟩
        exact Or.inl hid
      · rw [hfail] at h
        exact hfails _ h
    | some id =>
      obtain ⟨old, hold, hsubject⟩ := subject_of_elementId? hid
      rw [hsubject, pure_bind] at h
      dsimp only at h
      rw [Run.bind_apply] at h
      unfold RunContext.value at h
      cases hm : e.value (ctx.env s.store) row with
      | error err =>
        rw [hm] at h
        exact Or.inl (hfails _ h)
      | ok m =>
        rw [hm] at h
        dsimp only at h
        rcases entriesOf_eq m with ⟨entries, hentries, heq⟩ | ⟨err, hfail⟩
        · rw [heq, pure_bind, Run.bind_apply] at h
          obtain ⟨r', defined, hrun, hchanges⟩ := entryChanges_eq ctx replace old entries s
          rw [hrun] at h
          cases r' with
          | error err =>
            cases h
            exact Or.inl ⟨fun id => Store.element?_defineAll s.store defined id,
              fun _ _ => Or.inr ⟨_, rfl⟩⟩
          | ok changes =>
            cases hchanges changes rfl
            exact Or.inr ⟨v, id, old, m, entries, _, rfl, hid, hold, rfl, hentries,
              ⟨defined, rfl⟩, h⟩
        · rw [hfail] at h
          exact Or.inl (hfails _ h)

/-- An assignment that succeeds gives the element the properties that it assigns, and leaves all
else of it and all other elements as they are; the name is then bound to the element as it is
stored.  One that fails has changed no element. -/
theorem setItem_assigns (hs : s.store.Consistent) (replace : Bool) (x : String) (e : Expr) :
    (∀ id stored old entries, ctx.Assigns s.store row x e id stored old entries →
      ∀ out t, ctx.setItem row (assignment replace x e) s = (.ok out, t) →
        ∃ properties, Entries.Sorted properties ∧
          (∀ name, Entries.get? name properties = ctx.assigned replace old entries name) ∧
          (∀ other, t.store.element? other =
            if other = id then some (stored.withProperties properties)
            else s.store.element? other) ∧
          out.lookup? x = t.store.element? id) ∧
    ∀ err t, ctx.setItem row (assignment replace x e) s = (.error err, t) →
      ∀ id, t.store.element? id = s.store.element? id := by
  obtain ⟨s₁, hrefresh, hstore⟩ :=
    refresh_eq ctx (x :: e.freeNames.filter (· ≠ x)) row s
  rw [setItem_assignment, Run.bind_apply, hrefresh]
  dsimp only
  constructor
  · rintro id stored old entries h out t hrun
    obtain ⟨hclosed, hx, hvalue⟩ := h.refreshed hs
    rcases setProperties_cases hrun with
      ⟨-, hnone⟩ | ⟨v, target, old', m, entries', s', hv, hid, hold, hm, hentries,
        ⟨defined, hdefined⟩, hsave⟩
    · rcases hnone stored hx with hnone | ⟨err, herr⟩
      · rw [h.id] at hnone
        cases hnone
      · cases herr
    · -- what is assigned is what the item names
      rw [hx] at hv
      cases hv
      cases hid.symm.trans h.id
      cases hold.symm.trans h.old
      obtain ⟨m', hm', hentries'⟩ := h.source
      rw [hstore, hvalue, hm'] at hm
      cases hm
      cases hentries.symm.trans hentries'
      have hstored : s'.store.element? id = some stored := by
        rw [hdefined, Store.element?_defineAll, hstore]
        exact h.element?_eq hs
      have hs' : s'.store.Consistent := by
        rw [hdefined, hstore]
        exact hs.defineAll defined
      have hkept : ∀ c ∈ ctx.assignChanges replace old entries, Store.isLabelChange c = false :=
        not_isLabelChange_of_mem
      obtain ⟨row', t', hrun', hrow', hothers⟩ :=
        save_ok hs' hstored h.old hkept hclosed hx h.id
      cases hrun'.symm.trans hsave
      have hsorted : Entries.Sorted old := h.sorted hs
      refine ⟨_, Store.foldl_changeProperties_sorted hsorted _,
        get?_assignChanges hsorted h.distinct, fun other => ?_, ?_⟩
      · rw [hothers, hdefined, Store.element?_defineAll, hstore]
      · rw [hrow', hothers, if_pos rfl]
  · intro err t hrun id
    rcases setProperties_cases hrun with
      ⟨hsame, -⟩ | ⟨v, target, old, m, entries, s', -, -, -, -, -, ⟨defined, hdefined⟩, hsave⟩
    · rw [hsame, hstore]
    · rw [element?_of_failed_save not_isLabelChange_of_mem hsave, hdefined,
        Store.element?_defineAll, hstore]

/-- A vertex with two properties. -/
def described : RunState :=
  { RunState.initial with
    store := [.addVertex "x" ["L"] [("k", .int 1), ("l", .int 2)] ""].foldl Store.after .empty }

/-- An older state of the vertex is bound.  The first item sets one property, removes another and
leaves the third; the second fails at a map inside a list, after it has defined a name. -/
theorem setItem_assigns_described :
    let row : Row := ⟨[("n", .node ⟨"x", [], [], ""⟩)], [], []⟩
    let ctx := Search.plainContext
    let e : Expr := .map [("l", .literal .null), ("m", .literal (.int 3))]
    let bad : Expr := .map [("k", .literal (.int 4)), ("o", .list [.map []])]
    (∃ out t properties, ctx.setItem row (.merge "n" e) described = (.ok out, t) ∧
      Entries.get? "k" properties = some (.int 1) ∧ Entries.get? "l" properties = none ∧
      Entries.get? "m" properties = some (.int 3) ∧
      out.lookup? "n" = some (.node ⟨"x", ["L"], properties, ""⟩)) ∧
    ∃ err t, ctx.setItem row (.replace "n" bad) described = (.error err, t) ∧
      ∀ id, t.store.element? id = described.store.element? id := by
  intro row ctx e bad
  have hs : described.store.Consistent := Store.consistent_empty.foldl_after _
  constructor
  · have hassigns : ctx.Assigns described.store row "n" e (.vertex "x")
        (.node ⟨"x", ["L"], [("k", .int 1), ("l", .int 2)], ""⟩) [("k", .int 1), ("l", .int 2)]
        [("l", .null), ("m", .int 3)] :=
      ⟨rfl, rfl, rfl, rfl, ⟨_, rfl, rfl⟩, by decide⟩
    have hok : (ctx.setItem row (assignment false "n" e) described).1.isOk = true := by
      decide +kernel
    obtain ⟨out, t, hrun⟩ : ∃ out t,
        ctx.setItem row (assignment false "n" e) described = (.ok out, t) := by
      rcases hrun : ctx.setItem row (assignment false "n" e) described with ⟨_ | out, t⟩
      · rw [hrun] at hok
        cases hok
      · exact ⟨out, t, rfl⟩
    obtain ⟨properties, -, hproperties, hstored, hout⟩ :=
      (setItem_assigns hs false "n" e).1 _ _ _ _ hassigns out t hrun
    refine ⟨out, t, properties, hrun, ?_, ?_, ?_, ?_⟩
    · rw [hproperties]; rfl
    · rw [hproperties]; rfl
    · rw [hproperties]; rfl
    · rw [hout, hstored]; rfl
  · have hfail : (ctx.setItem row (assignment true "n" bad) described).1.isOk = false := by
      decide +kernel
    obtain ⟨err, t, hrun⟩ : ∃ err t,
        ctx.setItem row (assignment true "n" bad) described = (.error err, t) := by
      rcases hrun : ctx.setItem row (assignment true "n" bad) described with ⟨err | _, t⟩
      · exact ⟨err, t, rfl⟩
      · rw [hrun] at hfail
        cases hfail
    exact ⟨err, t, hrun, (setItem_assigns hs true "n" bad).2 err t hrun⟩

end RunContext

end PropertyGraph
