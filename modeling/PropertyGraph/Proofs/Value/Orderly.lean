import Mathlib.Data.List.Sort
import PropertyGraph.Proofs.Collections
import PropertyGraph.Value.Basic

/-!
# Values in order

The names of a map ascend, and so do the labels of a vertex; a value is orderly if this holds of
every map and of every vertex in it, however deep.  A map in order is the map of its own entries,
in whatever order they come.

    Value.Orderly              every map in the value, and every set of labels, is in order
    Entries.ofList_eq_of_perm  a map in order is made again of its entries
-/

namespace PropertyGraph

/-! ## Maps and sets in order -/

theorem Entries.mem_of_mem_ofList {α : Type} {pairs : List (String × α)} {p : String × α}
    (h : p ∈ ofList pairs) : p ∈ pairs := by
  have key : ∀ (rest : List (String × α)) (entries : Entries α),
      p ∈ rest.foldl (fun entries q => insert q.1 q.2 entries) entries →
        p ∈ rest ∨ p ∈ entries := by
    intro rest
    induction rest with
    | nil => exact fun _ => Or.inr
    | cons q rest ih =>
      intro entries h
      rcases ih _ h with h | h
      · exact Or.inl (List.mem_cons_of_mem _ h)
      · exact (mem_insert h).imp_left fun h => List.mem_cons.2 (Or.inl h)
  exact (key pairs [] h).resolve_right List.not_mem_nil

/-- A map in order is made of its entries, in whatever order they come. -/
theorem Entries.ofList_eq_of_perm {α : Type} {entries : Entries α} (h : Sorted entries)
    {pairs : List (String × α)} (hperm : pairs.Perm entries) : ofList pairs = entries := by
  have hnodup : (pairs.map Prod.fst).Nodup :=
    (hperm.map Prod.fst).nodup_iff.2 (h.imp fun hlt => hlt.ne)
  have : Std.Irrefl fun p q : String × α => p.1 < q.1 := ⟨fun p => lt_irrefl p.1⟩
  have : Std.Antisymm fun p q : String × α => p.1 < q.1 :=
    ⟨fun p q hpq hqp => absurd hpq (lt_asymm hqp)⟩
  refine (List.pairwise_map.1 (sorted_ofList pairs)).eq_of_mem_iff (List.pairwise_map.1 h) ?_
  exact fun p => ⟨fun hp => hperm.mem_iff.1 (mem_of_mem_ofList hp),
    fun hp => mem_of_get? (get?_ofList hnodup (hperm.mem_iff.2 hp))⟩

/-- A map that is in order is the map of its entries. -/
theorem Entries.ofList_eq_self {α : Type} {entries : Entries α} (h : Sorted entries) :
    ofList entries = entries :=
  ofList_eq_of_perm h (.refl entries)

theorem Names.insert_append {names : Names} {name : String} (h : ∀ x ∈ names, x < name) :
    insert name names = names ++ [name] := by
  induction names with
  | nil => rfl
  | cons first rest ih =>
    have hfirst := h first List.mem_cons_self
    rw [insert, if_neg hfirst.ne, if_neg (not_lt_of_gt hfirst),
      ih fun x hx => h x (List.mem_cons_of_mem _ hx), List.cons_append]

/-- A set of names that is in order is the set of its names. -/
theorem Names.ofList_eq_self {names : Names} (h : names.Pairwise (· < ·)) :
    ofList names = names := by
  have key : ∀ rest done : Names, (done ++ rest).Pairwise (· < ·) →
      rest.foldl (fun set name => insert name set) done = done ++ rest := by
    intro rest
    induction rest with
    | nil => exact fun done _ => (List.append_nil done).symm
    | cons name rest ih =>
      intro done hsorted
      have hnames : ∀ x ∈ done, x < name := fun x hx =>
        (List.pairwise_append.1 hsorted).2.2 x hx name List.mem_cons_self
      rw [List.foldl_cons, insert_append hnames, ih _ (by simpa using hsorted)]
      simp
  exact key names [] h

/-! ## Values in order -/

mutual

/-- Every map in the value is in order, and so are the labels of every vertex in it. -/
def Value.Orderly : Value → Prop
  | .list items => OrderlyItems items
  | .map entries => Entries.Sorted entries ∧ OrderlyEntries entries
  | .node v => v.Orderly
  | .relationship e => e.Orderly
  | .path p => p.Orderly
  | _ => True

/-- All values of a list are orderly. -/
def OrderlyItems : List Value → Prop
  | [] => True
  | v :: rest => v.Orderly ∧ OrderlyItems rest

/-- All values of a map are orderly. -/
def OrderlyEntries : List (String × Value) → Prop
  | [] => True
  | (_, v) :: rest => v.Orderly ∧ OrderlyEntries rest

/-- The labels and the properties are in order, and the values of these are orderly. -/
def Vertex.Orderly : Vertex → Prop
  | ⟨_, labels, properties, _⟩ =>
    labels.Pairwise (· < ·) ∧ Entries.Sorted properties ∧ OrderlyEntries properties

/-- The properties are in order, and their values are orderly. -/
def Edge.Orderly : Edge → Prop
  | ⟨_, _, _, _, properties, _⟩ => Entries.Sorted properties ∧ OrderlyEntries properties

/-- All vertices and edges of the walk are orderly. -/
def Path.Orderly : Path → Prop
  | ⟨start, hops⟩ => start.Orderly ∧ OrderlyHops hops

/-- All vertices and edges of some hops are orderly. -/
def OrderlyHops : List (Edge × Vertex) → Prop
  | [] => True
  | (e, v) :: rest => e.Orderly ∧ v.Orderly ∧ OrderlyHops rest

end

theorem Vertex.orderly_iff {v : Vertex} :
    v.Orderly ↔ v.labels.Pairwise (· < ·) ∧ Entries.Sorted v.properties ∧
      OrderlyEntries v.properties := by
  cases v
  exact Iff.rfl

theorem Edge.orderly_iff {e : Edge} :
    e.Orderly ↔ Entries.Sorted e.properties ∧ OrderlyEntries e.properties := by
  cases e
  exact Iff.rfl

theorem orderlyEntries_iff {entries : List (String × Value)} :
    OrderlyEntries entries ↔ ∀ p ∈ entries, p.2.Orderly := by
  induction entries with
  | nil => simp [OrderlyEntries]
  | cons p rest ih => simp [OrderlyEntries, ih]

theorem orderlyItems_iff {items : List Value} : OrderlyItems items ↔ ∀ v ∈ items, v.Orderly := by
  induction items with
  | nil => simp [OrderlyItems]
  | cons v rest ih => simp [OrderlyItems, ih]

theorem orderlyHops_iff {hops : List (Edge × Vertex)} :
    OrderlyHops hops ↔ ∀ hop ∈ hops, hop.1.Orderly ∧ hop.2.Orderly := by
  induction hops with
  | nil => simp [OrderlyHops]
  | cons hop rest ih => simp [OrderlyHops, ih, and_assoc]

end PropertyGraph
