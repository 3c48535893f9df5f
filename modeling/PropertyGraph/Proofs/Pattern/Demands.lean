import PropertyGraph.Proofs.Eval.Conjunction
import PropertyGraph.Proofs.Store.Reading
import PropertyGraph.Proofs.Value.Symmetry

/-!
# Demands on elements

Whether an element qualifies is decided in two ways.  A constraint admits it by the equality of the
language, and the store finds it by an equality of its own.  The search asks the store first where
it has no other way to a vertex, so that it misses a vertex that only the language lets pass.

    NodeConstraint.Agrees      what the language has equal, the store has equal
    agrees_of_plain            so it is with all values but lists and maps
    admitsVertex_iff_agrees    then the store does not refuse what the constraint admits
    exists_seed                the vertices that the store finds for the constraint
-/

namespace PropertyGraph

/-- Where a property of the vertex equals what the node demands, the store has them equal, too. -/
def NodeConstraint.Agrees (n : NodeConstraint Value) (config : Config) (v : Vertex) : Prop :=
  ∀ p ∈ n.properties, ∀ w, v.property? (config.property p.1) = some w →
    Value.equal? w p.2 = some true → w.storedSame p.2 = true

/-! ## Null -/

theorem Value.equal?_null_left (v : Value) : Value.equal? .null v = none := by
  cases v <;> rfl

theorem Value.equal?_null_right (v : Value) : Value.equal? v .null = none := by
  cases v <;> rfl

theorem equalsProperty_eq_true {found : Option Value} {p : Value} :
    equalsProperty found p = true ↔ ∃ w, found = some w ∧ Value.equal? w p = some true := by
  cases found <;> simp [equalsProperty]

/-- A value that equals another is not null, and neither is the other. -/
theorem Value.not_null_of_equal? {v w : Value} (h : Value.equal? v w = some true) :
    v.isNull = false ∧ w.isNull = false := by
  constructor
  · cases v with
    | null => rw [Value.equal?_null_left] at h; cases h
    | _ => rfl
  · cases w with
    | null => rw [Value.equal?_null_right] at h; cases h
    | _ => rfl

theorem PropertyTest.passes_equal {v : Value} (hv : v.isNull = false) (w : Value) :
    (PropertyTest.equal w).passes (some v) = v.storedSame w := by
  cases v <;> first | rfl | cases hv

/-! ## Plain values -/

/-- Is it a value without items? -/
def Value.isPlain : Value → Bool
  | .list _ | .map _ => false
  | _ => true

/-- The two equalities differ on numbers inside of lists and maps only. -/
theorem Value.storedSame_of_equal? {v w : Value} (hw : w.isPlain = true)
    (h : Value.equal? v w = some true) : v.storedSame w = true := by
  cases w with
  | list ws => cases hw
  | map ws => cases hw
  | null => rw [Value.equal?_null_right] at h; cases h
  | int n => cases v with
    | float x =>
      show (Double.ofInt64 n == x) = true
      rw [double_beq_comm]
      exact Option.some.inj h
    | _ => first | exact Option.some.inj h | cases h
  | float x => cases v with
    | float y =>
      refine Bool.or_eq_true_iff.2 (Or.inl ?_)
      exact Option.some.inj h
    | _ => first | exact Option.some.inj h | cases h
  | _ => cases v <;> first | exact Option.some.inj h | cases h

theorem NodeConstraint.agrees_of_plain {n : NodeConstraint Value}
    (h : ∀ p ∈ n.properties, p.2.isPlain = true) (config : Config) (v : Vertex) :
    n.Agrees config v :=
  fun p hp _ _ hequal => Value.storedSame_of_equal? (h p hp) hequal

/-! ## Values that equal themselves -/

namespace Value

mutual

/-- A value that equals itself in the language is the same as itself. -/
theorem same_self {v : Value} (h : equal? v v = some true) : v.same v = true := by
  cases v with
  | null => rfl
  | list items => exact sameItems_self h
  | map entries => exact sameEntries_self h
  | int n => exact beq_self_eq_true n
  | float x => exact Bool.or_eq_true_iff.2 (Or.inl (Option.some.inj h))
  | _ => exact Option.some.inj h

theorem sameItems_self {items : List Value} (h : equalItems? items items = some true) :
    sameItems items items = true := by
  cases items with
  | nil => rfl
  | cons v rest =>
    obtain ⟨hv, hrest⟩ := Expr.and_eq_true.1 h
    exact Bool.and_eq_true_iff.2 ⟨same_self hv, sameItems_self hrest⟩

theorem sameEntries_self {entries : List (String × Value)}
    (h : equalEntries? entries entries = some true) : sameEntries entries entries = true := by
  cases entries with
  | nil => rfl
  | cons entry rest =>
    obtain ⟨key, v⟩ := entry
    unfold equalEntries? at h
    rw [if_pos rfl] at h
    obtain ⟨hv, hrest⟩ := Expr.and_eq_true.1 h
    unfold sameEntries
    rw [beq_self_eq_true, same_self hv, sameEntries_self hrest]
    rfl

end

/-- The store finds it equal to itself, too. -/
theorem storedSame_self {v : Value} (h : equal? v v = some true) : v.storedSame v = true := by
  have hsame := same_self h
  cases v <;> exact hsame

end Value

/-! ## What the search gives up on -/

namespace Search

variable {s : Store} {reader : Authorizations} {config : Config}

/-- Properties of which one meets no demand, all that are defined being stored. -/
theorem not_all_of_hopeless {demands : List (String × Value)} {properties : Properties}
    (hd : s.Defines properties) (hh : hopeless config s demands = true) :
    ∃ p ∈ demands, equalsProperty (Entries.get? (config.property p.1) properties) p.2 = false := by
  obtain ⟨⟨k, p⟩, hmem, hkp⟩ := List.any_eq_true.1 hh
  refine ⟨(k, p), hmem, ?_⟩
  rw [Bool.eq_false_iff]
  intro heq
  obtain ⟨w, hw, hequal⟩ := equalsProperty_eq_true.1 heq
  obtain ⟨hwn, hpn⟩ := Value.not_null_of_equal? hequal
  have hdef := hd (config.property k, w) (Entries.mem_of_get? hw) hwn
  simp only at hpn hdef
  simp [hpn, hdef] at hkp

theorem vertex_of_hopeless (h : s.Consistent) {n : NodeConstraint Value} {id : String} {v : Vertex}
    (hh : hopeless config s n.properties = true) (hv : s.getVertex? reader id = some v) :
    n.admits config v = false := by
  obtain ⟨-, ⟨i, hi⟩, -⟩ := (Store.getVertex?_eq_some h).1 hv
  obtain ⟨p, hp, heq⟩ := not_all_of_hopeless (h.vertexParts i v hi).2.2 hh
  unfold NodeConstraint.admits
  rw [Bool.and_eq_false_iff]
  exact Or.inr (List.all_eq_false.2 ⟨p, hp, by simpa [Vertex.property?] using heq⟩)

theorem edge_of_hopeless (h : s.Consistent) {r : RelationshipConstraint Value} {id : String}
    {e : Edge} (hh : hopeless config s r.properties = true)
    (he : s.getEdge? reader id = some e) : r.admits config e = false := by
  obtain ⟨-, ⟨i, hi⟩, -⟩ := (Store.getEdge?_eq_some h).1 he
  obtain ⟨p, hp, heq⟩ := not_all_of_hopeless (h.edgeParts i e hi).2 hh
  unfold RelationshipConstraint.admits
  rw [Bool.and_eq_false_iff]
  exact Or.inr (List.all_eq_false.2 ⟨p, hp, by simpa [Edge.property?] using heq⟩)

/-! ## What the store finds -/

/-- The store does not refuse an admitted vertex exactly where the equalities agree on it. -/
theorem admitsVertex_iff_agrees {n : NodeConstraint Value} {v : Vertex}
    (hv : n.admits config v = true) :
    (nodeSelection config n).admitsVertex v = true ↔ n.Agrees config v := by
  unfold NodeConstraint.admits at hv
  rw [Bool.and_eq_true, List.all_eq_true, List.all_eq_true] at hv
  unfold Selection.admitsVertex nodeSelection propertyTests
  rw [Bool.and_eq_true, List.all_eq_true, List.all_eq_true]
  constructor
  · rintro ⟨-, htests⟩ p hp w hw hequal
    have htest := htests _ (List.mem_map.2 ⟨p, hp, rfl⟩)
    simp only [hw, PropertyTest.passes_equal (Value.not_null_of_equal? hequal).1] at htest
    exact htest
  · intro ha
    constructor
    · intro l hl
      obtain ⟨label, hlabel, rfl⟩ := List.mem_map.1 hl
      exact hv.1 label hlabel
    · intro t ht
      obtain ⟨p, hp, rfl⟩ := List.mem_map.1 ht
      obtain ⟨w, hw, hequal⟩ := equalsProperty_eq_true.1 (hv.2 p hp)
      have hsame := ha p hp w hw hequal
      simp only [hw]
      rw [PropertyTest.passes_equal (Value.not_null_of_equal? hequal).1]
      exact hsame

/-- All demands that are not given up on are on properties that are known to the store. -/
theorem testsUndefined_of_hopeful {properties : List (String × Value)} {labels types : List String}
    (h : hopeless config s properties = false) :
    s.testsUndefined ⟨labels, types, propertyTests config properties, none⟩ = false := by
  unfold hopeless at h
  unfold Store.testsUndefined propertyTests
  rw [List.any_eq_false] at h ⊢
  intro test htest hno
  obtain ⟨p, hp, rfl⟩ := List.mem_map.1 htest
  exact h p hp (by simp only [Bool.or_eq_true]; exact Or.inr hno)

/-- The ids that the store finds for a node that is not given up on. -/
theorem exists_seed (h : s.Consistent) (reader : Authorizations) {n : NodeConstraint Value}
    (hh : hopeless config s n.properties = false) :
    ∃ ids, (s.selectVertices reader (nodeSelection config n)).pending = some ids ∧ ids.Nodup ∧
      ∀ id, id ∈ ids ↔ ∃ v, s.getVertex? reader id = some v ∧
        (nodeSelection config n).admitsVertex v = true :=
  Store.selectVertices_pending h rfl (testsUndefined_of_hopeful hh)

end Search

end PropertyGraph
