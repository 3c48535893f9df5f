import PropertyGraph.Proofs.Eval.Scope
import PropertyGraph.Proofs.Pattern.Joined
import PropertyGraph.Run.Matching

/-!
# Names in the row of a solution

The row that a solution makes binds the names of nodes and relationships to what is assigned to
them.  Only the name of a path may hide one of them, and then it is bound to a path.

    Solution.pathValue      the parts of a named path join
    Solution.lookup_node    what the name of a node is bound to
    Solution.lookup_edge    what the name of a single relationship is bound to
-/

namespace PropertyGraph

namespace Row

theorem lookup?_set (row : Row) (hscopes : row.scopes = []) (key name : String) (v : Value) :
    (row.set key v).lookup? name = if key = name then some v else row.lookup? name := by
  unfold lookup? Row.set
  rw [hscopes]
  exact lookupFrames_set key name v row.columns row.ancestors

/-- The last binding of a name counts. -/
theorem lookup?_foldl_set {row : Row} (hscopes : row.scopes = []) (bs : List (String × Value))
    (name : String) :
    (bs.foldl (fun row (p : String × Value) => row.set p.1 p.2) row).lookup? name =
      (Bindings.get? name bs.reverse).or (row.lookup? name) := by
  induction bs generalizing row with
  | nil => rfl
  | cons b rest ih =>
    obtain ⟨k, v⟩ := b
    have hset : (row.set k v).scopes = [] := hscopes
    rw [List.foldl_cons, ih hset, lookup?_set row hscopes,
      List.reverse_cons, Bindings.get?_append, Option.or_assoc]
    congr 1
    rw [Bindings.get?_cons]
    split <;> rfl

theorem lookup?_bound (row : Row) (bs : List (String × Value)) (name : String) :
    (row.bound bs).lookup? name =
      (Bindings.get? name bs.reverse).or (row.child.lookup? name) :=
  lookup?_foldl_set (rfl : row.child.scopes = []) bs name

end Row

/-! ## The bindings of a match -/

namespace Match

variable {P Q : Type}

/-- The values of the names of nodes and relationships. -/
def elementBindings (m : Match) (g : Constraints P) : List (String × Value) :=
  g.nodes.zipIdx.filterMap (fun (n, i) => n.name.map (·, m.nodeValue i)) ++
    g.relationships.zipIdx.filterMap (fun (r, i) => r.name.map (·, m.relationshipValue i))

theorem bindings_eq (m : Match) (g : Constraints P) :
    m.bindings g = m.elementBindings g ++ g.paths.map fun p => (p.name, m.pathValue p) := rfl

theorem names_zipIdx {α : Type} (as : List α) (name : α → Option String) (value : Nat → Value) :
    (as.zipIdx.filterMap fun (a, i) => (name a).map (·, value i)).map Prod.fst =
      as.filterMap name := by
  rw [List.map_filterMap]
  have : (fun p : α × Nat => ((name p.1).map (·, value p.2)).map Prod.fst) =
      name ∘ Prod.fst := by
    funext p
    simp only [Option.map_map, Function.comp_def]
    cases name p.1 <;> rfl
  refine (congrArg (fun f => as.zipIdx.filterMap f) this).trans ?_
  rw [← List.filterMap_map, List.zipIdx_map_fst]

theorem names_elementBindings (m : Match) (g : Constraints P) :
    (m.elementBindings g).map Prod.fst = g.elementNames := by
  unfold elementBindings Constraints.elementNames
  rw [List.map_append, names_zipIdx, names_zipIdx]

/-- Labels and properties have no say in what the names are bound to. -/
theorem bindings_shape (m : Match) {g : Constraints P} {g' : Constraints Q}
    (h : g'.shape = g.shape) : m.bindings g' = m.bindings g := by
  have key : ∀ {R : Type} (k : Constraints R), m.bindings k = m.bindings k.shape := by
    intro R k
    unfold bindings Constraints.shape
    simp only [List.zipIdx_map, List.filterMap_map]
    rfl
  rw [key g', key g, h]

theorem mem_elementBindings_node {m : Match} {g : Constraints P} {i : Nat} {n : NodeConstraint P}
    {x : String} (hn : g.nodes[i]? = some n) (hx : n.name = some x) :
    (x, m.nodeValue i) ∈ m.elementBindings g := by
  refine List.mem_append_left _ (List.mem_filterMap.2 ⟨(n, i), ?_, ?_⟩)
  · exact List.mem_zipIdx_iff_getElem?.2 hn
  · simp only [hx, Option.map_some]

theorem mem_elementBindings_relationship {m : Match} {g : Constraints P} {i : Nat}
    {r : RelationshipConstraint P} {x : String} (hr : g.relationships[i]? = some r)
    (hx : r.name = some x) : (x, m.relationshipValue i) ∈ m.elementBindings g := by
  refine List.mem_append_right _ (List.mem_filterMap.2 ⟨(r, i), ?_, ?_⟩)
  · exact List.mem_zipIdx_iff_getElem?.2 hr
  · simp only [hx, Option.map_some]

end Match

/-! ## The row of a solution -/

namespace Search

variable {q : Search} {σ : Store} {row : Row} {m : Match}

/-- A solution has a path for every named path of its pattern. -/
theorem Solution.pathValue (h : q.Solution σ row m) (hw : q.pattern.WellFormed)
    {p : PathConstraint} (hp : p ∈ q.pattern.paths) : ∃ path, m.pathValue p = .path path := by
  obtain ⟨path, hpath, -⟩ := h.whole.pathValue hw hp
  exact ⟨path, hpath⟩

/-- The row that a match makes. -/
def rowOf (q : Search) (row : Row) (m : Match) : Row :=
  row.bound (m.bindings q.pattern)

/-- A name of an element is bound to its value, or hidden by a path. -/
theorem Solution.lookup_element (h : q.Solution σ row m) (hw : q.pattern.WellFormed) {x : String}
    {v : Value} (hx : (x, v) ∈ m.elementBindings q.pattern) :
    (q.rowOf row m).lookup? x = some v ∨ ∃ p, (q.rowOf row m).lookup? x = some (.path p) := by
  unfold rowOf
  rw [Row.lookup?_bound, Match.bindings_eq, List.reverse_append, Bindings.get?_append]
  cases hpath : Bindings.get? x (q.pattern.paths.map fun p => (p.name, m.pathValue p)).reverse with
  | some w =>
    obtain ⟨p, hp, heq⟩ := List.mem_map.1 (List.mem_reverse.1 (Bindings.mem_of_get? hpath))
    obtain ⟨path, hvalue⟩ := h.pathValue hw hp
    refine Or.inr ⟨path, ?_⟩
    cases heq
    rw [hvalue]
    rfl
  | none =>
    refine Or.inl ?_
    have hnodup : ((m.elementBindings q.pattern).reverse.map Prod.fst).Nodup := by
      rw [List.map_reverse, List.nodup_reverse, Match.names_elementBindings]
      exact hw.names
    rw [Bindings.get?_of_mem hnodup (List.mem_reverse.2 hx)]
    rfl

theorem Solution.lookup_node (h : q.Solution σ row m) (hw : q.pattern.WellFormed) {i : Nat}
    {n : NodeConstraint Value} (hn : q.pattern.nodes[i]? = some n) {x : String}
    (hx : n.name = some x) {v : Vertex} (hv : m.node? i = some (.vertex v)) :
    (q.rowOf row m).lookup? x = some (.node v) ∨
      ∃ p, (q.rowOf row m).lookup? x = some (.path p) := by
  have hvalue : m.nodeValue i = .node v := by
    unfold Match.nodeValue
    rw [Match.vertex?_eq_some.2 hv]
    rfl
  exact h.lookup_element hw (hvalue ▸ Match.mem_elementBindings_node hn hx)

theorem Solution.lookup_edge (h : q.Solution σ row m) (hw : q.pattern.WellFormed) {i : Nat}
    {r : RelationshipConstraint Value} (hr : q.pattern.relationships[i]? = some r) {x : String}
    (hx : r.name = some x) {e : Edge} {first second : String}
    (hb : m.relationship? i = some (.edge e first second)) :
    (q.rowOf row m).lookup? x = some (.relationship e) ∨
      ∃ p, (q.rowOf row m).lookup? x = some (.path p) := by
  have hvalue : m.relationshipValue i = .relationship e := by
    unfold Match.relationshipValue
    rw [hb]
    rfl
  exact h.lookup_element hw (hvalue ▸ Match.mem_elementBindings_relationship hr hx)

end Search

end PropertyGraph
