import PropertyGraph.Proofs.Run.Projected
import PropertyGraph.Proofs.Value.Lined

/-!
# Rows in order

The rows of a projection with `ORDER BY` are sorted by insertion, with a comparison that goes
through the sort keys in turn.  Values without doubles fit into one line, and so do rows with such
keys, whichever of the keys descend.  Then what insertion makes of the rows is in order at every
pair of places, and rows that compare as equal stand as they stood before.

    Sorting.pairwise_sorted       sorting puts things that fit into a line in order
    Sorting.filter_sorted         items keep their order if none of them comes before another
    Sorting.eq_of_pairwise        there is only one such order
    Projection.OrderOf            rows in order, rows that compare as equal as they stood
    Projection.arrange_ordered    what a projection with `ORDER BY` gives
-/

namespace PropertyGraph

/-! ## Sorting -/

theorem Chain.swap {x y z : Ordering} (h : Chain x y z) : Chain x.swap y.swap z.swap := by
  revert h
  cases x <;> cases y <;> cases z <;> decide

namespace Sorting

variable {α : Type} {before : α → α → Bool} {cmp : α → α → Ordering} {a : α} {as bs : List α}

/-- Any three of some things fit into a line, and any two are compared both ways alike. -/
structure Lined (cmp : α → α → Ordering) (as : List α) : Prop where
  swap : ∀ a ∈ as, ∀ b ∈ as, cmp b a = (cmp a b).swap
  chain : ∀ a ∈ as, ∀ b ∈ as, ∀ c ∈ as, Chain (cmp a b) (cmp b c) (cmp a c)

theorem Lined.mono (h : Lined cmp as) (hsub : bs ⊆ as) : Lined cmp bs :=
  ⟨fun a ha b hb => h.swap a (hsub ha) b (hsub hb),
    fun a ha b hb c hc => h.chain a (hsub ha) b (hsub hb) c (hsub hc)⟩

theorem Lined.self (h : Lined cmp as) (ha : a ∈ as) : cmp a a = .eq := by
  have hswap := h.swap a ha a ha
  cases haa : cmp a a <;> rw [haa] at hswap <;> first | rfl | cases hswap

theorem mem_place {b : α} : b ∈ place before a bs ↔ b = a ∨ b ∈ bs :=
  (place_perm before a bs).mem_iff.trans List.mem_cons

/-- An item is placed in order.  The last item is written first. -/
theorem pairwise_place (h : Lined cmp (a :: bs))
    (hbs : bs.Pairwise fun later b => cmp b later ≠ .gt) :
    (place (fun a b => cmp a b == .lt) a bs).Pairwise fun later b => cmp b later ≠ .gt := by
  induction bs with
  | nil => exact List.pairwise_singleton _ a
  | cons b bs ih =>
    obtain ⟨hb, hrest⟩ := List.pairwise_cons.1 hbs
    have ha : a ∈ a :: b :: bs := List.mem_cons_self
    have hb' : b ∈ a :: b :: bs := List.mem_cons_of_mem _ List.mem_cons_self
    unfold place
    split
    · next hlt =>
      have hsub : a :: bs ⊆ a :: b :: bs := List.cons_subset_cons _ (List.subset_cons_self _ _)
      refine List.pairwise_cons.2 ⟨fun c hc => ?_, ih (h.mono hsub) hrest⟩
      rcases mem_place.1 hc with rfl | hc
      · rw [beq_iff_eq.1 hlt]
        decide
      · exact hb c hc
    · next hnot =>
      have hba : cmp b a ≠ .gt := by
        rw [h.swap a ha b hb']
        intro hgt
        exact hnot (beq_iff_eq.2 (Ordering.swap_inj.1 hgt))
      refine List.pairwise_cons.2 ⟨fun c hc => ?_, hbs⟩
      rcases List.mem_cons.1 hc with rfl | hrest
      · exact hba
      · have hc' : c ∈ a :: b :: bs := List.mem_cons_of_mem _ hc
        exact (h.chain c hc' b hb' a ha).ne_gt (hb c hrest) hba

theorem pairwise_foldl_place (h : Lined cmp (as ++ bs))
    (hbs : bs.Pairwise fun later b => cmp b later ≠ .gt) :
    (as.foldl (fun placed a => place (fun a b => cmp a b == .lt) a placed) bs).Pairwise
      fun later b => cmp b later ≠ .gt := by
  induction as generalizing bs with
  | nil => exact hbs
  | cons a as ih =>
    have hperm : (as ++ place (fun a b => cmp a b == .lt) a bs).Perm (a :: as ++ bs) :=
      ((place_perm _ a bs).append_left as).trans List.perm_middle
    exact ih (h.mono hperm.subset)
      (pairwise_place (h.mono (List.cons_subset.2
        ⟨List.mem_cons_self, List.subset_append_right _ _⟩)) hbs)

/-- Things that fit into a line are in order at every pair of places. -/
theorem pairwise_sorted (h : Lined cmp as) :
    (sorted (fun a b => cmp a b == .lt) as).Pairwise fun a b => cmp a b ≠ .gt := by
  rw [sorted, List.pairwise_reverse]
  exact pairwise_foldl_place (by rwa [List.append_nil]) .nil

/-- An item is placed behind all those of which some are chosen together with it. -/
theorem filter_place {chosen : α → Bool}
    (h : chosen a = true → ∀ b ∈ bs, before a b = true → chosen b = false) :
    (place before a bs).filter chosen = (a :: bs).filter chosen := by
  induction bs with
  | nil => rfl
  | cons b bs ih =>
    have hrest := ih fun ha c hc => h ha c (List.mem_cons_of_mem _ hc)
    unfold place
    split
    · next hab =>
      rw [List.filter_cons, hrest, List.filter_cons, List.filter_cons, List.filter_cons]
      cases ha : chosen a with
      | false => simp
      | true => simp [h ha b List.mem_cons_self hab]
    · rfl

theorem filter_foldl_place {chosen : α → Bool}
    (h : ∀ a ∈ as, ∀ b ∈ as ++ bs, chosen a = true → before a b = true → chosen b = false) :
    (as.foldl (fun placed a => place before a placed) bs).filter chosen =
      (as.reverse ++ bs).filter chosen := by
  induction as generalizing bs with
  | nil => rfl
  | cons a as ih =>
    have hplace : (place before a bs).filter chosen = (a :: bs).filter chosen :=
      filter_place fun ha b hb =>
        h a List.mem_cons_self b (List.mem_append_right _ hb) ha
    have hmem : ∀ b ∈ as ++ place before a bs, b ∈ a :: as ++ bs := fun b hb =>
      (((place_perm before a bs).append_left as).trans List.perm_middle).subset hb
    rw [List.foldl_cons, ih fun c hc b hb => h c (List.mem_cons_of_mem _ hc) b (hmem b hb),
      List.filter_append, hplace, ← List.filter_append, List.reverse_cons, List.append_assoc]
    rfl

/-- Items keep their order if none of them comes before another. -/
theorem filter_sorted {chosen : α → Bool}
    (h : ∀ a ∈ as, ∀ b ∈ as, chosen a = true → before a b = true → chosen b = false) :
    (sorted before as).filter chosen = as.filter chosen := by
  rw [sorted, List.filter_reverse, filter_foldl_place (by rwa [List.append_nil]),
    List.append_nil, List.filter_reverse, List.reverse_reverse]

/-- Things that compare as equal keep their order. -/
theorem filter_sorted_eq (h : Lined cmp as) (ha : a ∈ as) :
    (sorted (fun a b => cmp a b == .lt) as).filter (fun b => cmp a b == .eq) =
      as.filter fun b => cmp a b == .eq := by
  refine filter_sorted fun b hb c hc hab hbc => ?_
  rw [(h.chain a ha b hb c hc).1 (beq_iff_eq.1 hab), beq_iff_eq.1 hbc]
  rfl

/-- Each of two things that come first is equal to the other, or comes before it. -/
theorem eq_of_first {b : α} (h : Lined cmp (a :: as)) (hperm : (a :: as).Perm (b :: bs))
    (hfirst : ∀ c ∈ as, cmp a c ≠ .gt) (hfirst' : ∀ c ∈ bs, cmp b c ≠ .gt) : cmp a b = .eq := by
  have ha : a ∈ a :: as := List.mem_cons_self
  have hb : b ∈ a :: as := hperm.symm.subset List.mem_cons_self
  rcases List.mem_cons.1 hb with rfl | hb'
  · exact h.self hb
  · rcases List.mem_cons.1 (hperm.subset ha) with rfl | ha'
    · exact h.self ha
    · have hle := hfirst b hb'
      have hge := hfirst' a ha'
      rw [h.swap a ha b hb] at hge
      revert hle hge
      cases cmp a b <;> decide

/-- Things that fit into a line can be put in order in one way only, if those that compare as equal
keep the order that they have. -/
theorem eq_of_pairwise (h : Lined cmp as) (hperm : as.Perm bs)
    (has : as.Pairwise fun a b => cmp a b ≠ .gt) (hbs : bs.Pairwise fun a b => cmp a b ≠ .gt)
    (heq : ∀ c ∈ as, as.filter (cmp c · == .eq) = bs.filter (cmp c · == .eq)) : as = bs := by
  induction as generalizing bs with
  | nil => exact (List.nil_perm.1 hperm).symm
  | cons a as ih =>
    match bs with
    | [] => exact absurd hperm.length_eq (Nat.succ_ne_zero _)
    | b :: bs =>
      obtain ⟨hfirst, hrest⟩ := List.pairwise_cons.1 has
      obtain ⟨hfirst', hrest'⟩ := List.pairwise_cons.1 hbs
      have hab := eq_of_first h hperm hfirst hfirst'
      have hhead : a = b := by
        have hfilter := heq a List.mem_cons_self
        rw [List.filter_cons, List.filter_cons, h.self List.mem_cons_self, hab] at hfilter
        exact (List.cons.inj hfilter).1
      subst hhead
      refine congrArg (a :: ·) (ih (h.mono (List.subset_cons_self a as))
        ((List.perm_cons a).1 hperm) hrest hrest' fun c hc => ?_)
      have hfilter := heq c (List.mem_cons_of_mem a hc)
      rw [List.filter_cons, List.filter_cons] at hfilter
      split at hfilter
      · exact (List.cons.inj hfilter).2
      · exact hfilter

end Sorting

/-! ## Sort keys -/

namespace Value

/-- None of the numbers in a value is a double. -/
def NoDoubles (a : Value) : Prop :=
  ∀ x, .float x ∉ a.leaves

theorem chain_of_noDoubles {a b c : Value} (ha : a.NoDoubles) (hb : b.NoDoubles)
    (hc : c.NoDoubles) : Chain (order a b) (order b c) (order a c) :=
  chain_order a b c ⟨fun _ _ x _ _ hx => absurd hx (hc x), fun _ _ x _ _ hx => absurd hx (ha x),
    fun _ _ x _ _ hx => absurd hx (hb x)⟩

end Value

namespace Projection

/-- The order of two values of one sort key. -/
def compareKey (key : SortKey) (v w : Value) : Ordering :=
  if key.ascending then Value.order v w else (Value.order v w).swap

theorem compareKeys_cons (key : SortKey) (keys : List SortKey) (v w : Value) (vs ws : List Value) :
    compareKeys (key :: keys) (v :: vs) (w :: ws) =
      (compareKey key v w).then (compareKeys keys vs ws) := by
  show (if compareKey key v w = .eq then compareKeys keys vs ws else compareKey key v w) = _
  cases compareKey key v w <;> rfl

theorem compareKey_swap (key : SortKey) (v w : Value) :
    compareKey key w v = (compareKey key v w).swap := by
  unfold compareKey
  split
  · exact Value.order_swap v w
  · rw [Value.order_swap v w]

theorem chain_compareKey (key : SortKey) {u v w : Value} (hu : u.NoDoubles) (hv : v.NoDoubles)
    (hw : w.NoDoubles) :
    Chain (compareKey key u v) (compareKey key v w) (compareKey key u w) := by
  have hchain := Value.chain_of_noDoubles hu hv hw
  unfold compareKey
  split
  · exact hchain
  · exact hchain.swap

theorem compareKeys_swap (keys : List SortKey) (vs ws : List Value) :
    compareKeys keys ws vs = (compareKeys keys vs ws).swap := by
  induction keys generalizing vs ws with
  | nil => rfl
  | cons key keys ih =>
    cases vs <;> cases ws <;> try rfl
    case cons.cons v vs w ws =>
      rw [compareKeys_cons, compareKeys_cons, compareKey_swap key v w, ih vs ws,
        Ordering.swap_then]

/-- Three rows fit into a line by keys without doubles, one for every sort key. -/
theorem chain_compareKeys (keys : List SortKey) {us vs ws : List Value}
    (hus : us.length = keys.length) (hvs : vs.length = keys.length)
    (hws : ws.length = keys.length) (hu : ∀ u ∈ us, u.NoDoubles) (hv : ∀ v ∈ vs, v.NoDoubles)
    (hw : ∀ w ∈ ws, w.NoDoubles) :
    Chain (compareKeys keys us vs) (compareKeys keys vs ws) (compareKeys keys us ws) := by
  induction keys generalizing us vs ws with
  | nil => exact ⟨id, id, id⟩
  | cons key keys ih =>
    match us, vs, ws with
    | u :: us, v :: vs, w :: ws =>
      rw [List.forall_mem_cons] at hu hv hw
      rw [compareKeys_cons, compareKeys_cons, compareKeys_cons]
      exact (chain_compareKey key hu.1 hv.1 hw.1).next fun _ _ =>
        ih (Nat.succ.inj hus) (Nat.succ.inj hvs) (Nat.succ.inj hws) hu.2 hv.2 hw.2

end Projection

/-! ## Arrangement -/

/-- The part of some items that is asked for. -/
def Cut.part {α : Type} (cut : Cut) (as : List α) : List α :=
  match cut.limit with
  | some n => (as.drop cut.skip).take n
  | none => as.drop cut.skip

namespace Projection

variable {p : Projection} {rows : List ProjectedRow}

/-- The order of two rows. -/
def compareRows (p : Projection) (a b : ProjectedRow) : Ordering :=
  compareKeys p.order a.keys b.keys

/-- The rows that are left without repetition, if they are to be distinct: of those with the same
values the first. -/
def withoutRepeats (p : Projection) (rows : List ProjectedRow) : List ProjectedRow :=
  if p.distinct then rows.eraseDupsBy fun r first => r.values == first.values else rows

theorem withoutRepeats_subset (p : Projection) (rows : List ProjectedRow) :
    p.withoutRepeats rows ⊆ rows := by
  unfold withoutRepeats
  split
  · exact fun _ => mem_of_mem_eraseDupsBy
  · exact fun _ => id

/-- Rows in order: those left without repetition, sorted at every pair of places, and rows that
compare as equal as they stood. -/
structure OrderOf (p : Projection) (rows sorted : List ProjectedRow) : Prop where
  perm : sorted.Perm (p.withoutRepeats rows)
  pairwise : sorted.Pairwise fun a b => p.compareRows a b ≠ .gt
  stable : ∀ a ∈ p.withoutRepeats rows, sorted.filter (p.compareRows a · == .eq) =
    (p.withoutRepeats rows).filter (p.compareRows a · == .eq)

theorem lined_compareRows (hlength : ∀ r ∈ rows, r.keys.length = p.order.length)
    (hkeys : ∀ r ∈ rows, ∀ v ∈ r.keys, v.NoDoubles) : Sorting.Lined p.compareRows rows where
  swap a _ b _ := compareKeys_swap p.order a.keys b.keys
  chain a ha b hb c hc := chain_compareKeys p.order (hlength a ha) (hlength b hb) (hlength c hc)
    (hkeys a ha) (hkeys b hb) (hkeys c hc)

/-- Sorting by insertion puts rows in order. -/
theorem orderOf_sorted (h : Sorting.Lined p.compareRows rows) :
    p.OrderOf rows (Sorting.sorted (p.compareRows · · == .lt) (p.withoutRepeats rows)) :=
  have hleft := h.mono (p.withoutRepeats_subset rows)
  ⟨Sorting.sorted_perm _ _, Sorting.pairwise_sorted hleft,
    fun _ ha => Sorting.filter_sorted_eq hleft ha⟩

theorem OrderOf.eq {sorted sorted' : List ProjectedRow} (hs : p.OrderOf rows sorted)
    (hs' : p.OrderOf rows sorted') (h : Sorting.Lined p.compareRows rows) : sorted = sorted' :=
  have hsub : sorted ⊆ p.withoutRepeats rows := hs.perm.subset
  Sorting.eq_of_pairwise (h.mono (List.Subset.trans hsub (p.withoutRepeats_subset rows)))
    (hs.perm.trans hs'.perm.symm) hs.pairwise hs'.pairwise fun c hc =>
    (hs.stable c (hsub hc)).trans (hs'.stable c (hsub hc)).symm

/-- The rows that are given are the part of the sorted rows that is asked for. -/
theorem arrange_eq (horder : p.order ≠ []) (cut : Cut) :
    p.arrange cut rows = (cut.part
      (Sorting.sorted (p.compareRows · · == .lt) (p.withoutRepeats rows))).map (·.row) := by
  unfold arrange withoutRepeats
  rw [distinctRows_eq_eraseDupsBy, List.isEmpty_eq_false_iff.2 horder]
  rfl

/-- A projection with `ORDER BY` gives the part that is asked for of its rows in order.  They can be
in order in one way only.  Rows that a projection gathers have one key for every sort key, as
`complete_gatherRows` says. -/
theorem arrange_ordered (horder : p.order ≠ [])
    (hlength : ∀ r ∈ rows, r.keys.length = p.order.length)
    (hkeys : ∀ r ∈ rows, ∀ v ∈ r.keys, v.NoDoubles) (cut : Cut) :
    (∃ sorted, p.OrderOf rows sorted) ∧
      (∀ sorted, p.OrderOf rows sorted → p.arrange cut rows = (cut.part sorted).map (·.row)) ∧
      ∀ ctx source s t, p.gatherRows ctx source s = (.ok rows, t) →
        p.flow ctx cut source s = .ofList (p.arrange cut rows) t := by
  have hlined := lined_compareRows hlength hkeys
  have hsorted := orderOf_sorted hlined
  refine ⟨⟨_, hsorted⟩, fun sorted hs => ?_, fun ctx source s t hgather => ?_⟩
  · rw [arrange_eq horder, hs.eq hsorted hlined]
  · have hbarrier : p.isBarrier = true := by
      unfold isBarrier
      rw [List.isEmpty_eq_false_iff.2 horder]
      exact Bool.or_true _
    exact flow_of_gatherRows hbarrier hgather cut

/-- Of `DISTINCT x, y ORDER BY [x] DESC SKIP 1 LIMIT 2`: the second of the four rows comes first and
is passed over, the last one repeats it, and the others have equal keys. -/
theorem arrange_ordered_descending :
    let p : Projection :=
      ⟨[⟨.var "x", "x", true⟩, ⟨.var "y", "y", true⟩], true, [⟨.list [.var "x"], false⟩],
        some (.literal (.int 1)), some (.literal (.int 2)), []⟩
    let row := fun x y : Int64 =>
      (⟨p.rowOf [.int x, .int y], [.int x, .int y], [.list [.int x]]⟩ : ProjectedRow)
    p.arrange ⟨1, some 2⟩ [row 1 5, row 2 6, row 1 7, row 2 6] =
      [(row 1 5).row, (row 1 7).row] := by
  intro p row
  have hleft : p.withoutRepeats [row 1 5, row 2 6, row 1 7, row 2 6] =
      [row 1 5, row 2 6, row 1 7] := by cbv
  have hsorted : p.OrderOf [row 1 5, row 2 6, row 1 7, row 2 6] [row 2 6, row 1 5, row 1 7] := by
    refine ⟨?_, ?_, ?_⟩
    · rw [hleft]
      exact .swap _ _ _
    · decide
    · rw [hleft]
      exact List.forall_mem_cons.2 ⟨rfl, List.forall_mem_cons.2
        ⟨rfl, List.forall_mem_singleton.2 rfl⟩⟩
  have hkeys : ∀ x y, ∀ v ∈ (row x y).keys, v.NoDoubles := fun x y =>
    List.forall_mem_singleton.2 (by simp [Value.NoDoubles, Value.leaves, Value.leavesOfItems])
  exact (arrange_ordered (by decide) (by decide) (List.forall_mem_cons.2 ⟨hkeys 1 5,
    List.forall_mem_cons.2 ⟨hkeys 2 6, List.forall_mem_cons.2
      ⟨hkeys 1 7, List.forall_mem_singleton.2 (hkeys 2 6)⟩⟩⟩) ⟨1, some 2⟩).2.1 _ hsorted

end Projection

end PropertyGraph
