import PropertyGraph.Value.Order

/-!
# Symmetry of equality

A comparison with a constant may be written either way round, and a demand on a property knows only
one.  That makes no difference, as every equality of values is symmetric.

    same_comm      the equality of grouping
    equal?_comm    the equality of the language
-/

namespace PropertyGraph

/-! ## Numbers -/

open Float.Model in
theorem compare_eq_eq_comm (a b : UnpackedFloat) :
    a.compare b = some .eq ↔ b.compare a = some .eq := by
  have hlex : ∀ (e e' : Int) (k k' : Nat), (compare e e').then (compare k k') = .eq ↔
      (compare e' e).then (compare k' k) = .eq := by
    intro e e' k k'
    rw [Ordering.then_eq_eq, Ordering.then_eq_eq, Std.OrientedCmp.eq_comm,
      @Std.OrientedCmp.eq_comm _ compare _ k k']
  cases a with
  | notANumber => constructor <;> intro h <;> cases b <;> cases h
  | zero s =>
    cases b with
    | zero t => exact Iff.rfl
    | notANumber => constructor <;> intro h <;> cases h
    | infinity t => constructor <;> intro h <;> cases t <;> cases h
    | finite t k e hk => constructor <;> intro h <;> cases t <;> cases h
  | infinity s =>
    cases b with
    | infinity t => cases s <;> cases t <;> decide
    | notANumber => constructor <;> intro h <;> cases s <;> cases h
    | zero t => constructor <;> intro h <;> cases s <;> cases h
    | finite t k e hk => constructor <;> intro h <;> cases s <;> cases t <;> cases h
  | finite s k e hk =>
    cases b with
    | notANumber => constructor <;> intro h <;> cases s <;> cases h
    | zero t => constructor <;> intro h <;> cases s <;> cases h
    | infinity t => constructor <;> intro h <;> cases s <;> cases t <;> cases h
    | finite t k' e' hk' =>
      cases s with
      | positive =>
        cases t with
        | positive => exact Option.some_inj.trans ((hlex e e' k k').trans Option.some_inj.symm)
        | negative => constructor <;> intro h <;> cases h
      | negative =>
        cases t with
        | positive => constructor <;> intro h <;> cases h
        | negative =>
          exact Option.some_inj.trans (Ordering.swap_eq_eq.trans
            ((hlex e e' k k').trans (Ordering.swap_eq_eq.symm.trans Option.some_inj.symm)))

theorem double_beq_comm (x y : Double) : (x == y) = (y == x) := by
  rw [Bool.eq_iff_iff]
  show Float.Model.UnpackedFloat.beq _ _ = true ↔ Float.Model.UnpackedFloat.beq _ _ = true
  unfold Float.Model.UnpackedFloat.beq
  rw [beq_iff_eq, beq_iff_eq]
  exact compare_eq_eq_comm _ _

theorem sameDouble_comm (x y : Double) : sameDouble x y = sameDouble y x := by
  unfold sameDouble
  rw [double_beq_comm x y, Bool.and_comm]

/-! ## The equality of grouping -/

theorem beq_comm_of_lawful {α : Type} [BEq α] [LawfulBEq α] (a b : α) : (a == b) = (b == a) := by
  rw [Bool.eq_iff_iff, beq_iff_eq, beq_iff_eq]
  exact eq_comm

theorem list_beq_comm {α : Type} [BEq α] (h : ∀ a b : α, (a == b) = (b == a)) (as bs : List α) :
    (as == bs) = (bs == as) := by
  induction as generalizing bs with
  | nil => cases bs <;> rfl
  | cons a rest ih =>
    cases bs with
    | nil => rfl
    | cons b more =>
      show (a == b && rest == more) = (b == a && more == rest)
      rw [h a b, ih more]

theorem path_beq_comm (p q : Path) : (p == q) = (q == p) := by
  show (p.start.id == q.start.id && p.hops == q.hops) =
    (q.start.id == p.start.id && q.hops == p.hops)
  rw [beq_comm_of_lawful p.start.id, list_beq_comm fun h k => ?_]
  show (h.1.id == k.1.id && h.2.id == k.2.id) = (k.1.id == h.1.id && k.2.id == h.2.id)
  rw [beq_comm_of_lawful h.1.id, beq_comm_of_lawful h.2.id]

mutual

theorem same_comm (a b : Value) : a.same b = b.same a := by
  cases a <;> cases b <;> unfold Value.same <;> try rfl
  case bool.bool a b => exact beq_comm_of_lawful a b
  case int.int a b => exact beq_comm_of_lawful a b
  case float.float a b => exact sameDouble_comm a b
  case text.text a b => exact beq_comm_of_lawful a b
  case list.list as bs => exact sameItems_comm as bs
  case map.map as bs => exact sameEntries_comm as bs
  case node.node a b => exact beq_comm_of_lawful a.id b.id
  case relationship.relationship a b => exact beq_comm_of_lawful a.id b.id
  case path.path p q => exact path_beq_comm p q
  case duration.duration a b => exact beq_comm_of_lawful a b
  case date.date a b => exact beq_comm_of_lawful a b

theorem sameItems_comm (as bs : List Value) : sameItems as bs = sameItems bs as := by
  cases as <;> cases bs <;> unfold sameItems <;> try rfl
  case cons.cons a as b bs => rw [same_comm a b, sameItems_comm as bs]

theorem sameEntries_comm (as bs : List (String × Value)) :
    sameEntries as bs = sameEntries bs as := by
  cases as <;> cases bs <;> unfold sameEntries <;> try rfl
  case cons.cons p as q bs =>
    obtain ⟨k, a⟩ := p
    obtain ⟨l, b⟩ := q
    simp only
    rw [beq_comm_of_lawful k l, same_comm a b, sameEntries_comm as bs]

end

/-! ## The equality of the language -/

namespace Value

mutual

theorem equal?_comm (a b : Value) : equal? a b = equal? b a := by
  -- numbers of two kinds are compared as doubles, all other values as for grouping
  cases a <;> cases b <;> unfold equal? <;> try rfl
  case list.list as bs => exact equalItems?_comm as bs
  case map.map as bs => exact equalEntries?_comm as bs
  case int.int a b => exact congrArg some (beq_comm_of_lawful a b)
  case int.float n x => exact congrArg some (double_beq_comm _ x)
  case float.int x n => exact congrArg some (double_beq_comm x _)
  case float.float x y => exact congrArg some (double_beq_comm x y)
  all_goals exact congrArg some (same_comm _ _)

theorem equalItems?_comm (as bs : List Value) : equalItems? as bs = equalItems? bs as := by
  cases as <;> cases bs <;> unfold equalItems? <;> try rfl
  case cons.cons a as b bs => rw [equal?_comm a b, equalItems?_comm as bs]

theorem equalEntries?_comm (as bs : List (String × Value)) :
    equalEntries? as bs = equalEntries? bs as := by
  cases as <;> cases bs <;> unfold equalEntries? <;> try rfl
  case cons.cons p as q bs =>
    obtain ⟨k, a⟩ := p
    obtain ⟨l, b⟩ := q
    simp only
    by_cases h : k = l
    · rw [if_pos h, if_pos h.symm, equal?_comm a b, equalEntries?_comm as bs]
    · rw [if_neg h, if_neg (Ne.symm h)]

end

end Value

end PropertyGraph
