import PropertyGraph.Proofs.Run.Columns

/-!
# Rows as flat environments

The columns of a row lie in frames, and rows that descend from one row share its frames.  What can
be asked of a row does not show them: it is a map of columns in the order in which they came, below
a stack of scopes.  `Row.flat` forgets the frames, and every operation on rows is the operation of
the same name on flat rows.  So whatever calls are made on however many rows, the rows report what
flat rows report, and a call on one row is not seen by another.

    Row.flat             the columns that a row sees, in one map
    Row.report_flat      it tells everything that can be asked of the row
    Row.flat_maps        each operation on rows is one on flat rows
    RowOperations.run    a family of rows after some calls
    Row.refines_flat     the rows of a run, and the flat rows of the same run
-/

namespace PropertyGraph

/-! ## Maps in order of insertion -/

namespace Bindings

variable {α : Type} {bs : Bindings α} {names : List String}

theorem names_set (name : String) (a : α) (bs : Bindings α) :
    (set name a bs).names = if name ∈ bs.names then bs.names else bs.names ++ [name] := by
  split
  · next hmem => exact names_set_of_mem hmem a
  · next hnot => rw [set_of_notMem hnot, Bindings.names, List.map_append]; rfl

theorem nodup_set (h : bs.names.Nodup) (name : String) (a : α) : (set name a bs).names.Nodup := by
  rw [names_set]
  split
  · exact h
  · next hnot => exact List.nodup_append_comm.2 (List.nodup_cons.2 ⟨hnot, h⟩)

theorem tabulate_congr {f g : String → α} (h : ∀ x ∈ names, f x = g x) :
    tabulate f names = tabulate g names :=
  List.map_congr_left fun x hx => by rw [h x hx]

/-- A name takes its new value in its place. -/
theorem set_tabulate_of_mem (f : String → α) (hnodup : names.Nodup) {x : String} (hx : x ∈ names)
    (a : α) : set x a (tabulate f names) = tabulate (fun y => if x = y then a else f y) names := by
  induction names with
  | nil => cases hx
  | cons y rest ih =>
    obtain ⟨hnot, hrest⟩ := List.nodup_cons.1 hnodup
    show set x a ((y, f y) :: tabulate f rest) = (y, if x = y then a else f y) :: tabulate _ rest
    unfold set
    by_cases hy : x = y
    · have hsame : tabulate (fun z => if x = z then a else f z) rest = tabulate f rest :=
        tabulate_congr fun z hz => if_neg (by rintro rfl; exact hnot (hy ▸ hz))
      rw [if_pos hy.symm, if_pos hy, hsame]
    · rw [if_neg (Ne.symm hy), if_neg hy, ih hrest ((List.mem_cons.1 hx).resolve_left hy)]

theorem set_tabulate (f : String → α) (hnodup : names.Nodup) (x : String) (a : α) :
    set x a (tabulate f names) =
      tabulate (fun y => if x = y then a else f y) (if x ∈ names then names else names ++ [x]) := by
  split
  · next hx => exact set_tabulate_of_mem f hnodup hx a
  · next hx =>
    have hnew : x ∉ (tabulate f names).names := by rwa [names_tabulate]
    have hold : tabulate f names = tabulate (fun y => if x = y then a else f y) names :=
      tabulate_congr fun y hy => (if_neg (by rintro rfl; exact hx hy)).symm
    rw [set_of_notMem hnew, hold]
    unfold tabulate
    rw [List.map_append, List.map_singleton]
    simp only [if_true]

end Bindings

/-! ## The columns of a row -/

theorem Constraints.mergeLabels_concat (labels new : List String) (l : String) :
    mergeLabels labels (new ++ [l]) =
      if l ∈ mergeLabels labels new then mergeLabels labels new
      else mergeLabels labels new ++ [l] := by
  have hlast : mergeLabels labels (new ++ [l]) =
      if (mergeLabels labels new).contains l then mergeLabels labels new
      else mergeLabels labels new ++ [l] := List.foldl_append
  simp only [hlast, List.contains_iff_mem]

theorem Constraints.nodup_mergeLabels {labels new : List String} (h : labels.Nodup) :
    (mergeLabels labels new).Nodup := by
  induction new using List.reverseRecOn with
  | nil => exact h
  | append_singleton rest l ih =>
    rw [mergeLabels_concat]
    split
    · exact ih
    · next hnot => exact List.nodup_append_comm.2 (List.nodup_cons.2 ⟨hnot, ih⟩)

namespace Row

/-- The value of a column, whatever scopes hide it. -/
def column? (row : Row) (name : String) : Option Value :=
  lookupFrames name (row.columns :: row.ancestors)

theorem isSome_column? (row : Row) (x : String) :
    (row.column? x).isSome = true ↔ x ∈ row.names :=
  isSome_lookupFrames row x

theorem column?_set (row : Row) (name : String) (v : Value) (x : String) :
    (row.set name v).column? x = if name = x then some v else row.column? x :=
  lookupFrames_set name x v row.columns row.ancestors

theorem nodup_names (row : Row) : row.names.Nodup :=
  Constraints.nodup_mergeLabels List.nodup_nil

/-- The row's own columns come last. -/
theorem names_eq (row : Row) : row.names = Constraints.mergeLabels
    (Constraints.mergeLabels [] (row.ancestors.reverse.flatMap Bindings.names))
      row.columns.names := by
  unfold names Constraints.mergeLabels
  rw [List.reverse_cons, List.flatMap_append, List.flatMap_singleton, List.foldl_append]

/-- A name that some frame binds keeps its place, and a new name comes last. -/
theorem names_set (row : Row) (name : String) (v : Value) :
    (row.set name v).names = if name ∈ row.names then row.names else row.names ++ [name] := by
  have hset : (row.set name v).names = Constraints.mergeLabels
      (Constraints.mergeLabels [] (row.ancestors.reverse.flatMap Bindings.names))
      (Bindings.set name v row.columns).names := names_eq _
  rw [hset, Bindings.names_set]
  by_cases hown : name ∈ row.columns.names
  · have hmem : name ∈ row.names := by
      rw [names_eq]
      exact Constraints.mem_mergeLabels.2 (Or.inr hown)
    rw [if_pos hown, if_pos hmem, names_eq]
  · rw [if_neg hown, Constraints.mergeLabels_concat, ← names_eq]

theorem names_child (row : Row) : row.child.names = row.names := by
  rw [names_eq row.child]
  unfold names Row.child
  rfl

end Row

/-! ## Flat rows -/

/-- A map of columns in the order in which they came, no name twice, and the temporary scopes above
it from the innermost on. -/
@[ext]
structure FlatRow where
  columns : Bindings Value
  scopes : List (String × Value)
  nodup : columns.names.Nodup

namespace FlatRow

/-- No columns and no scopes. -/
def empty : FlatRow := ⟨[], [], List.nodup_nil⟩

/-- Binds a column: in its place if there is one of the name, else at the end. -/
def set (row : FlatRow) (name : String) (v : Value) : FlatRow :=
  ⟨Bindings.set name v row.columns, row.scopes, Bindings.nodup_set row.nodup name v⟩

/-- Opens a scope. -/
def push (row : FlatRow) (name : String) (v : Value) : FlatRow :=
  { row with scopes := (name, v) :: row.scopes }

/-- Closes the `n` innermost scopes, which must be open. -/
def pop (row : FlatRow) (n : Nat) : Except Error FlatRow :=
  if n ≤ row.scopes.length then .ok { row with scopes := row.scopes.drop n }
  else .error (.invalidArgument (.tooFewScopes n row.scopes.length))

/-- All columns, and no scope. -/
def child (row : FlatRow) : FlatRow :=
  { row with scopes := [] }

/-- The value of a name: of its innermost scope, or of its column. -/
def lookup? (row : FlatRow) (name : String) : Option Value :=
  (Bindings.get? name row.scopes).or (Bindings.get? name row.columns)

/-- The row with each column of another one set: to its value, or to what a scope of the other
hides it with. -/
def absorb (row other : FlatRow) : FlatRow :=
  other.columns.foldl
    (fun row (name, v) => row.set name ((Bindings.get? name other.scopes).getD v)) row

end FlatRow

/-! ## What a row reports -/

/-- All that can be asked of an environment of names. -/
structure RowReport where
  lookup? : String → Option Value
  get : String → Except Error Value
  has : String → Bool
  names : List String
  depth : Nat

/-- What a row says when it is asked. -/
def Row.report (row : Row) : RowReport :=
  ⟨row.lookup?, row.get, row.has, row.names, row.depth⟩

/-- A flat row looks names up, lists the keys of its map, and counts its scopes. -/
def FlatRow.report (row : FlatRow) : RowReport where
  lookup? := row.lookup?
  get name := (row.lookup? name).elim (.error (.unboundVariable name)) .ok
  has name := (row.lookup? name).isSome
  names := row.columns.names
  depth := row.scopes.length

/-! ## The flat row of a row -/

namespace Row

/-- The row with all columns that it sees in one map. -/
def flat (row : Row) : FlatRow where
  columns := Bindings.tabulate (fun x => (row.column? x).getD .null) row.names
  scopes := row.scopes
  nodup := by rw [Bindings.names_tabulate]; exact row.nodup_names

theorem get?_columns_flat (row : Row) (x : String) :
    Bindings.get? x row.flat.columns = row.column? x := by
  refine (Bindings.get?_tabulate _ row.names x).trans ?_
  simp only [← isSome_column?]
  cases row.column? x <;> rfl

theorem lookup?_flat (row : Row) (x : String) : row.flat.lookup? x = row.lookup? x := by
  unfold FlatRow.lookup?
  rw [get?_columns_flat]
  rfl

theorem report_flat (row : Row) : row.flat.report = row.report := by
  have hlookup : row.flat.lookup? = row.lookup? := funext row.lookup?_flat
  unfold FlatRow.report report
  rw [hlookup, show row.flat.columns.names = row.names from Bindings.names_tabulate _ _]
  congr 1
  funext x
  unfold get
  cases row.lookup? x <;> rfl

theorem flat_empty : empty.flat = FlatRow.empty := rfl

/-- It does not matter which frame a column that gets another value lies in. -/
theorem flat_set (row : Row) (name : String) (v : Value) :
    (row.set name v).flat = row.flat.set name v := by
  refine FlatRow.ext ?_ rfl
  have hvalue : (fun x => ((row.set name v).column? x).getD .null) =
      fun x => if name = x then v else (row.column? x).getD .null := by
    funext x
    rw [column?_set]
    split <;> rfl
  show Bindings.tabulate _ _ = Bindings.set name v (Bindings.tabulate _ _)
  rw [Bindings.set_tabulate _ row.nodup_names, hvalue, names_set]

theorem flat_push (row : Row) (name : String) (v : Value) :
    (row.push name v).flat = row.flat.push name v := rfl

theorem flat_pop (row : Row) (n : Nat) : (row.pop n).map flat = row.flat.pop n := by
  show Except.map flat (if n ≤ row.scopes.length then _ else _) =
    if n ≤ row.scopes.length then _ else _
  split <;> rfl

theorem flat_child (row : Row) : row.child.flat = row.flat.child := by
  refine FlatRow.ext ?_ rfl
  have hcolumn : ∀ x, row.child.column? x = row.column? x := fun x => rfl
  show Bindings.tabulate _ _ = Bindings.tabulate _ _
  rw [names_child]
  simp only [hcolumn]

/-- What the other row sees of a column is its value, unless a scope hides it. -/
theorem flat_absorb (row other : Row) : (row.absorb other).flat = row.flat.absorb other.flat := by
  have hseen : other.seen = Bindings.tabulate (fun x =>
      (Bindings.get? x other.scopes).getD ((other.column? x).getD .null)) other.names :=
    Bindings.tabulate_congr fun x _ => Option.getD_or
  rw [absorb_eq, hseen]
  show _ = (Bindings.tabulate _ _).foldl _ row.flat
  unfold Bindings.tabulate
  rw [List.foldl_map, List.foldl_map]
  exact (List.foldl_hom flat fun row x => (flat_set row x _).symm).symm

end Row

/-! ## Families of rows -/

/-- The operations on rows of one kind. -/
structure RowOperations (α : Type) where
  empty : α
  child : α → α
  set : α → String → Value → α
  push : α → String → Value → α
  pop : α → Nat → Except Error α
  absorb : α → α → α

/-- The operations on rows in frames. -/
def Row.operations : RowOperations Row :=
  ⟨empty, child, set, push, pop, absorb⟩

/-- The operations on flat rows. -/
def FlatRow.operations : RowOperations FlatRow :=
  ⟨empty, child, set, push, pop, absorb⟩

/-- A call on the rows of a family.  They are known by their places. -/
inductive RowCall where
  | new
  | child (i : Nat)
  | clone (i : Nat)
  | set (i : Nat) (name : String) (v : Value)
  | push (i : Nat) (name : String) (v : Value)
  | pop (i n : Nat)
  | absorb (i other : Nat)

/-- The row that a call changes. -/
def RowCall.row? : RowCall → Option Nat
  | .new | .child _ | .clone _ => none
  | .set i _ _ | .push i _ _ | .pop i _ | .absorb i _ => some i

/-- Rows in the order in which they were made, and what the calls on them came to. -/
structure RowFamily (α : Type) where
  rows : List α
  outcomes : List (Except Error Unit)

namespace RowFamily

variable {α β : Type}

/-- Another row. -/
def add (family : RowFamily α) (row : α) : RowFamily α :=
  ⟨family.rows ++ [row], family.outcomes ++ [.ok ()]⟩

/-- A row in the place of another one, which stays if there is an error. -/
def put (family : RowFamily α) (i : Nat) : Except Error α → RowFamily α
  | .ok row => ⟨family.rows.set i row, family.outcomes ++ [.ok ()]⟩
  | .error e => ⟨family.rows, family.outcomes ++ [.error e]⟩

/-- Each row is replaced. -/
def map (f : α → β) (family : RowFamily α) : RowFamily β :=
  ⟨family.rows.map f, family.outcomes⟩

/-- What is done with a row of the family, with one of the replaced rows. -/
theorem read_map {f : α → β} (family : RowFamily α) (i : Nat) {use : α → Option (RowFamily α)}
    {use' : β → Option (RowFamily β)} (h : ∀ row, use' (f row) = (use row).map (map f)) :
    (family.map f).rows[i]? >>= use' = (family.rows[i]? >>= use).map (map f) := by
  have hrow : (family.map f).rows[i]? = family.rows[i]?.map f := List.getElem?_map
  rw [hrow]
  cases family.rows[i]? with
  | none => rfl
  | some row => exact h row

theorem map_add (f : α → β) (family : RowFamily α) (row : α) :
    (family.add row).map f = (family.map f).add (f row) := by
  unfold map add
  rw [List.map_append, List.map_singleton]

theorem map_put (f : α → β) (family : RowFamily α) (i : Nat) (result : Except Error α) :
    (family.put i result).map f = (family.map f).put i (result.map f) := by
  cases result with
  | ok row => unfold map put; rw [List.map_set]; rfl
  | error e => rfl

variable {family : RowFamily α} {i j : Nat} {row : α}

theorem getElem?_add (h : family.rows[i]? = some row) (new : α) :
    (family.add new).rows[i]? = some row :=
  (List.getElem?_append_left (List.getElem?_eq_some_iff.1 h).1).trans h

theorem getElem?_put (hne : j ≠ i) (h : family.rows[i]? = some row) (result : Except Error α) :
    (family.put j result).rows[i]? = some row := by
  cases result with
  | ok new => exact (List.getElem?_set_ne hne).trans h
  | error e => exact h

end RowFamily

namespace RowOperations

variable {α β : Type}

/-- The family after a call on rows that are there. -/
def call? (ops : RowOperations α) (family : RowFamily α) : RowCall → Option (RowFamily α)
  | .new => return family.add ops.empty
  | .child i => return family.add (ops.child (← family.rows[i]?))
  | .clone i => return family.add (← family.rows[i]?)
  | .set i name v => return family.put i (.ok (ops.set (← family.rows[i]?) name v))
  | .push i name v => return family.put i (.ok (ops.push (← family.rows[i]?) name v))
  | .pop i n => return family.put i (ops.pop (← family.rows[i]?) n)
  | .absorb i other =>
    return family.put i (.ok (ops.absorb (← family.rows[i]?) (← family.rows[other]?)))

/-- The family after a call; there is no call on a row that is not there. -/
def call (ops : RowOperations α) (family : RowFamily α) (c : RowCall) : RowFamily α :=
  (ops.call? family c).getD family

/-- The family after some calls, made one after the other from nothing. -/
def run (ops : RowOperations α) (calls : List RowCall) : RowFamily α :=
  calls.foldl ops.call ⟨[], []⟩

/-- A function takes each operation on rows of one kind to the one on rows of another kind. -/
structure Maps (f : α → β) (ops : RowOperations α) (ops' : RowOperations β) : Prop where
  empty : f ops.empty = ops'.empty
  child : ∀ row, f (ops.child row) = ops'.child (f row)
  set : ∀ row name v, f (ops.set row name v) = ops'.set (f row) name v
  push : ∀ row name v, f (ops.push row name v) = ops'.push (f row) name v
  pop : ∀ row n, (ops.pop row n).map f = ops'.pop (f row) n
  absorb : ∀ row other, f (ops.absorb row other) = ops'.absorb (f row) (f other)

variable {f : α → β} {ops : RowOperations α} {ops' : RowOperations β}

/-- One call. -/
theorem Maps.call? (h : Maps f ops ops') (family : RowFamily α) (c : RowCall) :
    ops'.call? (family.map f) c = (ops.call? family c).map (RowFamily.map f) := by
  cases c with
  | new =>
    show some _ = some _
    rw [RowFamily.map_add, h.empty]
  | child i => exact family.read_map i fun row => congrArg some (by rw [RowFamily.map_add, h.child])
  | clone i => exact family.read_map i fun row => congrArg some (by rw [RowFamily.map_add])
  | set i name v =>
    exact family.read_map i fun row => congrArg some (by rw [RowFamily.map_put, ← h.set]; rfl)
  | push i name v =>
    exact family.read_map i fun row => congrArg some (by rw [RowFamily.map_put, ← h.push]; rfl)
  | pop i n => exact family.read_map i fun row => congrArg some (by rw [RowFamily.map_put, h.pop])
  | absorb i j =>
    exact family.read_map i fun row => family.read_map j fun other =>
      congrArg some (by rw [RowFamily.map_put, ← h.absorb]; rfl)

theorem Maps.call (h : Maps f ops ops') (family : RowFamily α) (c : RowCall) :
    ops'.call (family.map f) c = (ops.call family c).map f := by
  unfold RowOperations.call
  rw [h.call?, Option.getD_map]

/-- All calls of a run. -/
theorem Maps.run (h : Maps f ops ops') (calls : List RowCall) :
    ops'.run calls = (ops.run calls).map f := by
  show calls.foldl ops'.call (RowFamily.map f ⟨[], []⟩) = _
  exact List.foldl_hom (RowFamily.map f) h.call

/-! ### The other rows -/

variable {family after : RowFamily α} {c : RowCall} {i : Nat} {row : α}

/-- A call leaves a row as it is unless it is a call on that row. -/
theorem call?_other (hafter : ops.call? family c = some after) (hc : c.row? ≠ some i)
    (h : family.rows[i]? = some row) : after.rows[i]? = some row := by
  have hne : ∀ {j : Nat}, some j ≠ some i → j ≠ i := fun hj heq => hj (congrArg some heq)
  cases c with
  | new =>
    cases hafter
    exact RowFamily.getElem?_add h _
  | child j | clone j =>
    obtain ⟨_, _, heq⟩ := Option.bind_eq_some_iff.1 hafter
    cases heq
    exact RowFamily.getElem?_add h _
  | set j | push j | pop j =>
    obtain ⟨_, _, heq⟩ := Option.bind_eq_some_iff.1 hafter
    cases heq
    exact RowFamily.getElem?_put (hne hc) h _
  | absorb j =>
    obtain ⟨_, _, hother⟩ := Option.bind_eq_some_iff.1 hafter
    obtain ⟨_, _, heq⟩ := Option.bind_eq_some_iff.1 hother
    cases heq
    exact RowFamily.getElem?_put (hne hc) h _

theorem call_other (hc : c.row? ≠ some i) (h : family.rows[i]? = some row) :
    (ops.call family c).rows[i]? = some row := by
  unfold call
  cases hafter : ops.call? family c with
  | none => exact h
  | some after => exact call?_other hafter hc h

/-- So do calls one after the other. -/
theorem foldl_call_other {more : List RowCall} (hmore : ∀ c ∈ more, c.row? ≠ some i)
    (h : family.rows[i]? = some row) : (more.foldl ops.call family).rows[i]? = some row := by
  induction more generalizing family with
  | nil => exact h
  | cons c rest ih =>
    obtain ⟨hc, hrest⟩ := List.forall_mem_cons.1 hmore
    exact ih hrest (call_other hc h)

end RowOperations

namespace Row

/-- Each operation on rows is the one on flat rows. -/
theorem flat_maps : RowOperations.Maps flat operations FlatRow.operations where
  empty := flat_empty
  child := flat_child
  set := flat_set
  push := flat_push
  pop := flat_pop
  absorb := flat_absorb

/-- **Rows are flat.**  The calls of a run come to what the same calls on flat rows come to, and so
does everything that the rows report then.  A row stays what it is until there is a call on it,
whatever is called on the rows that it shares frames with. -/
theorem refines_flat (calls : List RowCall) :
    (operations.run calls).outcomes = (FlatRow.operations.run calls).outcomes ∧
    (operations.run calls).rows.map report =
      (FlatRow.operations.run calls).rows.map FlatRow.report ∧
    ∀ i row, (operations.run calls).rows[i]? = some row →
      ∀ more : List RowCall, (∀ c ∈ more, c.row? ≠ some i) →
        (operations.run (calls ++ more)).rows[i]? = some row := by
  have hflat := flat_maps.run calls
  refine ⟨?_, ?_, fun i row hrow more hmore => ?_⟩
  · rw [hflat]
    rfl
  · have hreport : FlatRow.report ∘ flat = report := funext report_flat
    rw [hflat, ← hreport]
    exact (List.map_map).symm
  · unfold RowOperations.run
    rw [List.foldl_append]
    exact RowOperations.foldl_call_other hmore hrow

/-- A child gives a column of its parent another value and fails to close two scopes: the column
keeps its place, and the parent sees nothing of it. -/
theorem refines_flat_shadowed :
    let calls : List RowCall := [.new, .set 0 "x" .null, .set 0 "y" .null, .child 0]
    let more : List RowCall := [.set 1 "x" (.bool true), .push 1 "y" .null, .pop 1 2]
    let family := operations.run (calls ++ more)
    family.outcomes = (FlatRow.operations.run (calls ++ more)).outcomes ∧
      family.outcomes.getLast? = some (.error (.invalidArgument (.tooFewScopes 2 1))) ∧
      family.rows.map names = [["x", "y"], ["x", "y"]] ∧
      family.rows[0]? = some ⟨[("x", .null), ("y", .null)], [], []⟩ := by
  intro calls more family
  have hmore : ∀ c ∈ more, c.row? ≠ some 0 := by simp [more, RowCall.row?]
  exact ⟨(refines_flat (calls ++ more)).1, rfl, rfl, (refines_flat calls).2.2 0 _ rfl more hmore⟩

end Row

end PropertyGraph
