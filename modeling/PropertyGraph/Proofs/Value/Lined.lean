import PropertyGraph.Proofs.Calendar.Duration
import PropertyGraph.Proofs.Number.Nearest

/-!
# The line of all values

Sorting puts all values into one line: kinds by rank, texts by their folded keys, lists and maps
item by item.  Three comparisons of three things fit into a line if they are a `Chain`, and chains
are put together as the comparison itself is, part by part.

Numbers are the one place where that can fail.  Two integers are compared exactly and an integer
with a double as doubles, so a double may be equal to two different integers.  Among values where
that does not happen the order is transitive.

    Value.chain_order      three values fit into one line
    Value.order_preorder   the order goes both ways alike, is reflexive and transitive
-/

namespace PropertyGraph

/-! ## Comparisons of three things -/

/-- Comparisons of a first with a second, the second with a third and the first with the third
thing that fit into one line. -/
def Chain (x y z : Ordering) : Prop :=
  (x = .eq → z = y) ∧ (y = .eq → z = x) ∧ (x = y → z = x)

instance (x y z : Ordering) : Decidable (Chain x y z) :=
  inferInstanceAs (Decidable (_ ∧ _))

namespace Chain

variable {x y z x' y' z' : Ordering}

theorem of_cmp {α : Type} (cmp : α → α → Ordering) [Std.TransCmp cmp] (a b c : α) :
    Chain (cmp a b) (cmp b c) (cmp a c) := by
  refine ⟨Std.TransCmp.congr_left, fun h => (Std.TransCmp.congr_right h).symm, fun h => ?_⟩
  cases hab : cmp a b with
  | lt => exact Std.TransCmp.lt_trans hab (h.symm.trans hab)
  | eq => exact Std.TransCmp.eq_trans hab (h.symm.trans hab)
  | gt => exact Std.TransCmp.gt_trans hab (h.symm.trans hab)

/-- What decides where nothing has been decided before. -/
theorem next (h : Chain x y z) (h' : x = .eq → y = .eq → Chain x' y' z') :
    Chain (x.then x') (y.then y') (z.then z') := by
  obtain ⟨hx, hy, hxy⟩ := h
  cases x with
  | eq =>
    rw [hx rfl]
    cases y with
    | eq => exact h' rfl rfl
    | lt => exact ⟨fun _ => rfl, nofun, Eq.symm⟩
    | gt => exact ⟨fun _ => rfl, nofun, Eq.symm⟩
  | lt =>
    cases y with
    | eq =>
      rw [hy rfl]
      exact ⟨nofun, fun _ => rfl, fun _ => rfl⟩
    | lt =>
      rw [hxy rfl]
      exact ⟨nofun, nofun, fun _ => rfl⟩
    | gt => exact ⟨nofun, nofun, nofun⟩
  | gt =>
    cases y with
    | eq =>
      rw [hy rfl]
      exact ⟨nofun, fun _ => rfl, fun _ => rfl⟩
    | gt =>
      rw [hxy rfl]
      exact ⟨nofun, nofun, fun _ => rfl⟩
    | lt => exact ⟨nofun, nofun, nofun⟩

/-- The same three things from the second on. -/
theorem rotate (h : Chain x y z) : Chain y z.swap x.swap := by
  revert h
  cases x <;> cases y <;> cases z <;> decide

/-- The same three things with the first two exchanged. -/
theorem exchange (h : Chain x y z) : Chain x.swap z y := by
  revert h
  cases x <;> cases y <;> cases z <;> decide

theorem ne_gt (h : Chain x y z) (hx : x ≠ .gt) (hy : y ≠ .gt) : z ≠ .gt := by
  revert h hx hy
  cases x <;> cases y <;> cases z <;> decide

end Chain

namespace Value

/-! ## Comparisons of one kind -/

instance : Std.TransCmp compareInt64 :=
  inferInstanceAs (Std.TransCmp (compareOn Int64.toInt))

instance : Std.TransCmp compareBool :=
  inferInstanceAs (Std.TransCmp (compareOn Bool.toNat))

instance : Std.TransCmp Date.compare :=
  inferInstanceAs (Std.TransCmp
    (compareLex (compareOn Date.year) (compareLex (compareOn Date.month) (compareOn Date.day))))

instance : Std.TransCmp orderPaths :=
  inferInstanceAs (Std.TransCmp
    (compareLex (compareOn Path.length) (compareOn fun p : Path => p.vertices.map (·.id))))

instance : Std.TransCmp orderDouble := by
  have hplaces : orderDouble = compareOn Double.place :=
    funext fun x => funext (Double.orderDouble_eq x)
  rw [hplaces]
  infer_instance

/-- The order of two durations, which are never without length. -/
def orderDurations (d e : Duration) : Ordering :=
  (compareDouble? d.approxSeconds e.approxSeconds).getD .eq

instance : Std.TransCmp orderDurations := by
  have hlengths : orderDurations = compareOn fun d => d.approxSeconds.place := by
    funext d e
    unfold orderDurations
    rw [Double.compareDouble?_eq d.isNaN_approxSeconds e.isNaN_approxSeconds]
    rfl
  rw [hlengths]
  infer_instance

theorem orderDouble_swap (x y : Double) : (orderDouble x y).swap = orderDouble y x :=
  Std.OrientedCmp.eq_swap.symm

theorem compareInt64_swap (m n : Int64) : (compareInt64 m n).swap = compareInt64 n m :=
  Std.OrientedCmp.eq_swap.symm

/-! ## Numbers of two kinds -/

theorem orderDouble_mono {m n : Int64} (h : m.toInt ≤ n.toInt) :
    orderDouble (.ofInt64 m) (.ofInt64 n) ≠ .gt := by
  rw [Double.orderDouble_eq]
  exact Ordering.isLE_iff_ne_gt.1 (Double.place_ofInt64_mono h)

theorem chain_of_lt {m n : Int64} {d : Double} (hlt : m.toInt < n.toInt)
    (h : orderDouble (.ofInt64 m) d = .eq → orderDouble (.ofInt64 n) d ≠ .eq) :
    Chain .lt (orderDouble (.ofInt64 n) d) (orderDouble (.ofInt64 m) d) := by
  have hchain := Chain.of_cmp orderDouble (.ofInt64 m) (.ofInt64 n) d
  cases hmn : orderDouble (.ofInt64 m) (.ofInt64 n) with
  | gt => exact absurd hmn (orderDouble_mono (Int.le_of_lt hlt))
  | lt => exact hmn ▸ hchain
  | eq =>
    -- both integers have the same double, which is not `d`
    have hsame := hchain.1 hmn
    rw [hsame] at h ⊢
    exact ⟨nofun, fun heq => absurd heq (h heq), Eq.symm⟩

/-- Two integers and a double that stands for at most one of them. -/
theorem chain_int_int_double {m n : Int64} {d : Double}
    (h : orderDouble (.ofInt64 m) d = .eq → orderDouble (.ofInt64 n) d = .eq → m = n) :
    Chain (compareInt64 m n) (orderDouble (.ofInt64 n) d) (orderDouble (.ofInt64 m) d) := by
  obtain hlt | heq | hgt := Int.lt_trichotomy m.toInt n.toInt
  · rw [compareInt64, Int.compare_eq_lt.2 hlt]
    refine chain_of_lt hlt fun hm hn => ?_
    rw [h hm hn] at hlt
    exact Int.lt_irrefl _ hlt
  · rw [compareInt64, Int.compare_eq_eq.2 heq, Int64.toInt_inj.1 heq]
    exact ⟨fun _ => rfl, id, Eq.symm⟩
  · rw [compareInt64, Int.compare_eq_gt.2 hgt]
    refine (chain_of_lt hgt fun hn hm => ?_).exchange
    rw [h hm hn] at hgt
    exact Int.lt_irrefl _ hgt

/-! ## The numbers in values -/

mutual

/-- The values in a value that are no lists and no maps. -/
def leaves : Value → List Value
  | .list items => leavesOfItems items
  | .map entries => leavesOfEntries entries
  | a => [a]

/-- Those of some values. -/
def leavesOfItems : List Value → List Value
  | [] => []
  | a :: as => leaves a ++ leavesOfItems as

/-- Those of the values of some entries. -/
def leavesOfEntries : List (String × Value) → List Value
  | [] => []
  | (_, a) :: as => leaves a ++ leavesOfEntries as

end

/-- No double of the last values is equal to two different integers of the others. -/
def Discerned (as bs cs : List Value) : Prop :=
  ∀ m n d, .int m ∈ as → .int n ∈ bs → .float d ∈ cs →
    orderDouble (.ofInt64 m) d = .eq → orderDouble (.ofInt64 n) d = .eq → m = n

/-- Whichever of the three the doubles are taken from, they tell the integers apart. -/
structure Distinct (as bs cs : List Value) : Prop where
  third : Discerned as bs cs
  first : Discerned bs cs as
  second : Discerned as cs bs

variable {as bs cs as' bs' cs' : List Value}

theorem Discerned.mono (h : Discerned as bs cs) (ha : as' ⊆ as) (hb : bs' ⊆ bs) (hc : cs' ⊆ cs) :
    Discerned as' bs' cs' :=
  fun m n d hm hn hd => h m n d (ha hm) (hb hn) (hc hd)

theorem Discerned.symm (h : Discerned as bs cs) : Discerned bs as cs :=
  fun m n d hm hn hd hmd hnd => (h n m d hn hm hd hnd hmd).symm

theorem Distinct.mono (h : Distinct as bs cs) (ha : as' ⊆ as) (hb : bs' ⊆ bs) (hc : cs' ⊆ cs) :
    Distinct as' bs' cs' :=
  ⟨h.third.mono ha hb hc, h.first.mono hb hc ha, h.second.mono ha hc hb⟩

theorem Distinct.head (h : Distinct (as ++ as') (bs ++ bs') (cs ++ cs')) : Distinct as bs cs :=
  h.mono (List.subset_append_left _ _) (List.subset_append_left _ _) (List.subset_append_left _ _)

theorem Distinct.tail (h : Distinct (as ++ as') (bs ++ bs') (cs ++ cs')) : Distinct as' bs' cs' :=
  h.mono (List.subset_append_right _ _) (List.subset_append_right _ _)
    (List.subset_append_right _ _)

/-! ## The order of one rank -/

/-- The order of two values of one rank. -/
def orderWithin : Value → Value → Ordering
  | .list as, .list bs => orderItems as bs
  | .map as, .map bs => orderEntries as bs
  | a, b => orderPlain a b

theorem order_eq (a b : Value) : order a b = (compare a.rank b.rank).then (orderWithin a b) := by
  cases a <;> cases b <;> rfl

theorem orderWithin_plain {a b : Value} (hlist : a.rank ≠ 5) (hmap : a.rank ≠ 6) :
    orderWithin a b = orderPlain a b := by
  cases a <;> first | rfl | exact absurd rfl hlist | exact absurd rfl hmap

/-- Three values of one rank are of one kind, or numbers. -/
theorem chain_plain {a b c : Value} (hab : a.rank = b.rank) (hbc : b.rank = c.rank)
    (h : Distinct a.leaves b.leaves c.leaves) :
    Chain (orderPlain a b) (orderPlain b c) (orderPlain a c) := by
  cases a <;> cases b <;> first
    | (cases hab; done)
    | (cases c <;> first | (cases hbc; done) | skip)
  case null.null.null => exact ⟨id, id, id⟩
  case bool.bool.bool x y z => exact Chain.of_cmp compareBool x y z
  case int.int.int k m n => exact Chain.of_cmp compareInt64 k m n
  case float.float.float x y z => exact Chain.of_cmp orderDouble x y z
  case int.float.float k x y => exact Chain.of_cmp orderDouble (.ofInt64 k) x y
  case float.int.float x k y => exact Chain.of_cmp orderDouble x (.ofInt64 k) y
  case float.float.int x y k => exact Chain.of_cmp orderDouble x y (.ofInt64 k)
  case int.int.float m n x =>
    exact chain_int_int_double (h.third m n x (.head _) (.head _) (.head _))
  case int.float.int m x n =>
    have hchain := (chain_int_int_double
      (h.second.symm n m x (.head _) (.head _) (.head _))).rotate
    rwa [orderDouble_swap, compareInt64_swap] at hchain
  case float.int.int x m n =>
    have hchain := (chain_int_int_double
      (h.first m n x (.head _) (.head _) (.head _))).rotate.rotate
    rwa [Ordering.swap_swap, orderDouble_swap, orderDouble_swap] at hchain
  case text.text.text s t u => exact Chain.of_cmp (compareOn Text.foldKey) s t u
  case date.date.date x y z => exact Chain.of_cmp Date.compare x y z
  case duration.duration.duration x y z => exact Chain.of_cmp orderDurations x y z
  case list.list.list => exact ⟨id, id, id⟩
  case map.map.map => exact ⟨id, id, id⟩
  case node.node.node v w x => exact Chain.of_cmp (compareOn Vertex.id) v w x
  case relationship.relationship.relationship d e f => exact Chain.of_cmp (compareOn Edge.id) d e f
  case path.path.path p q r => exact Chain.of_cmp orderPaths p q r

theorem swap_cmp {α : Type} (cmp : α → α → Ordering) [Std.OrientedCmp cmp] (a b : α) :
    cmp b a = (cmp a b).swap :=
  Std.OrientedCmp.eq_swap

theorem orderPlain_swap (a b : Value) : orderPlain b a = (orderPlain a b).swap := by
  cases a <;> cases b <;> try rfl
  case bool.bool x y => exact swap_cmp compareBool x y
  case int.int m n => exact swap_cmp compareInt64 m n
  case float.float x y => exact swap_cmp orderDouble x y
  case int.float m x => exact swap_cmp orderDouble _ x
  case float.int x m => exact swap_cmp orderDouble x _
  case text.text s t => exact swap_cmp (compareOn Text.foldKey) s t
  case date.date x y => exact swap_cmp Date.compare x y
  case duration.duration x y => exact swap_cmp orderDurations x y
  case node.node v w => exact swap_cmp (compareOn Vertex.id) v w
  case relationship.relationship d e => exact swap_cmp (compareOn Edge.id) d e
  case path.path p q => exact swap_cmp orderPaths p q

/-! ## All values -/

mutual

theorem order_swap (a b : Value) : order b a = (order a b).swap := by
  have hwithin : orderWithin b a = (orderWithin a b).swap := by
    cases a <;> cases b <;> unfold orderWithin <;> try exact orderPlain_swap _ _
    case list.list as bs => exact orderItems_swap as bs
    case map.map as bs => exact orderEntries_swap as bs
  rw [order_eq, order_eq, Ordering.swap_then, hwithin, Nat.compare_swap]

theorem orderItems_swap (as bs : List Value) : orderItems bs as = (orderItems as bs).swap := by
  cases as <;> cases bs <;> unfold orderItems <;> try rfl
  case cons.cons a as b bs => rw [order_swap a b, orderItems_swap as bs, Ordering.swap_then]

theorem orderEntries_swap (as bs : List (String × Value)) :
    orderEntries bs as = (orderEntries as bs).swap := by
  cases as <;> cases bs <;> unfold orderEntries <;> try rfl
  case cons.cons p as q bs =>
    obtain ⟨k, a⟩ := p
    obtain ⟨l, b⟩ := q
    simp only
    rw [order_swap a b, orderEntries_swap as bs, swap_cmp compare k l, Ordering.swap_then,
      Ordering.swap_then]

end

theorem order_self (a : Value) : order a a = .eq := by
  have hswap := order_swap a a
  cases hself : order a a <;> rw [hself] at hswap <;> first | rfl | cases hswap

mutual

/-- Three values fit into one line if no double stands for two of their integers. -/
theorem chain_order (a b c : Value) (h : Distinct a.leaves b.leaves c.leaves) :
    Chain (order a b) (order b c) (order a c) := by
  rw [order_eq, order_eq, order_eq]
  refine (Chain.of_cmp (compareOn rank) a b c).next fun hab hbc => ?_
  replace hab : a.rank = b.rank := Nat.compare_eq_eq.1 hab
  replace hbc : b.rank = c.rank := Nat.compare_eq_eq.1 hbc
  cases a
  case list as =>
    cases b <;> first | (cases hab; done) | skip
    case list bs =>
      cases c <;> first | (cases hbc; done) | skip
      case list cs => exact chain_orderItems as bs cs h
  case map as =>
    cases b <;> first | (cases hab; done) | skip
    case map bs =>
      cases c <;> first | (cases hbc; done) | skip
      case map cs => exact chain_orderEntries as bs cs h
  all_goals
    have hplain : b.rank ≠ 5 ∧ b.rank ≠ 6 := by
      rw [← hab]
      exact ⟨by simp only [rank, ne_eq]; decide, by simp only [rank, ne_eq]; decide⟩
    rw [orderWithin_plain hplain.1 hplain.2]
    unfold orderWithin
    exact chain_plain hab hbc h
termination_by structural a

theorem chain_orderItems (as bs cs : List Value)
    (h : Distinct (leavesOfItems as) (leavesOfItems bs) (leavesOfItems cs)) :
    Chain (orderItems as bs) (orderItems bs cs) (orderItems as cs) := by
  cases as <;> cases bs <;> cases cs <;> unfold orderItems
  case cons.cons.cons a as b bs c cs =>
    exact (chain_order a b c h.head).next fun _ _ => chain_orderItems as bs cs h.tail
  case cons.nil.cons => exact ⟨nofun, nofun, nofun⟩
  case cons.cons.nil => exact ⟨fun _ => rfl, nofun, Eq.symm⟩
  case nil.cons.cons => exact ⟨nofun, fun _ => rfl, fun _ => rfl⟩
  all_goals decide
termination_by structural as

theorem chain_orderEntries (as bs cs : List (String × Value))
    (h : Distinct (leavesOfEntries as) (leavesOfEntries bs) (leavesOfEntries cs)) :
    Chain (orderEntries as bs) (orderEntries bs cs) (orderEntries as cs) := by
  cases as <;> cases bs <;> cases cs <;> unfold orderEntries
  case cons.cons.cons p as q bs r cs =>
    obtain ⟨k, a⟩ := p
    obtain ⟨l, b⟩ := q
    obtain ⟨m, c⟩ := r
    exact (Chain.of_cmp compare k l m).next fun _ _ =>
      (chain_order a b c h.head).next fun _ _ => chain_orderEntries as bs cs h.tail
  case cons.nil.cons => exact ⟨nofun, nofun, nofun⟩
  case cons.cons.nil => exact ⟨fun _ => rfl, nofun, Eq.symm⟩
  case nil.cons.cons => exact ⟨nofun, fun _ => rfl, fun _ => rfl⟩
  all_goals decide
termination_by structural as

end

/-- The order of sorting goes both ways alike, puts every value beside itself, and is transitive
for three values among which no double is equal to two different integers. -/
theorem order_preorder (a b c : Value) :
    order b a = (order a b).swap ∧ order a a = .eq ∧
      (Distinct a.leaves b.leaves c.leaves →
        order a b ≠ .gt → order b c ≠ .gt → order a c ≠ .gt) :=
  ⟨order_swap a b, order_self a, fun h => (chain_order a b c h).ne_gt⟩

/-- Integers above the 53 digits of a double, and a double that only one of them is equal to. -/
theorem order_preorder_large :
    order (.list [.int 9007199254740992]) (.list [.int 9007199254740995, .float 0.5]) ≠ .gt := by
  refine (order_preorder _ (.list [.float 9007199254740992.0, .null]) _).2.2 ⟨?_, ?_, ?_⟩
    (by decide +kernel) (by decide +kernel)
  · intro m n d _ hn
    simp [leaves, leavesOfItems] at hn
  · intro m n d hm
    simp [leaves, leavesOfItems] at hm
  · intro m n d _ hn hd _ hnd
    obtain rfl : n = 9007199254740995 := by simpa [leaves, leavesOfItems] using hn
    obtain rfl : d = 9007199254740992.0 := by simpa [leaves, leavesOfItems] using hd
    exact absurd hnd (by decide +kernel)

/-- From 2 to the power of 53 on, two integers with one double are told apart and the double is
equal to both. -/
theorem order_intransitive :
    ¬ ∀ a b c : Value, order a b ≠ .gt → order b c ≠ .gt → order a c ≠ .gt := by
  intro h
  exact h (.int 9007199254740993) (.float 9007199254740992.0) (.int 9007199254740992)
    (by decide +kernel) (by decide +kernel) (by decide)

end Value

end PropertyGraph
