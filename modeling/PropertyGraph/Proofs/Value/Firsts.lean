import PropertyGraph.Proofs.Number.Place
import PropertyGraph.Proofs.Value.Symmetry

/-!
# Equal values, and the first of them

The equality of grouping tells apart neither two zeros nor two doubles that are no numbers, so that
equal values need not be the same value.  But it is an equivalence, and of equal items in a list it
makes sense to speak of the first.

    same_trans            the equality of grouping is transitive
    eraseDupsBy_concat    an item at the end is a first one, or it is alike to one before
    sum_length_filter     the items alike to the first ones are all items
-/

namespace PropertyGraph

/-! ## Numbers -/

namespace Double

variable {x y : Double}

theorem sameDouble_iff (x y : Double) : sameDouble x y = true ↔ x.place = y.place := by
  have hnumbers : x.isNaN = true ∨ y.isNaN = true → (x == y) = false := by
    intro h
    show Float.Model.UnpackedFloat.beq x.unpacked y.unpacked = false
    rcases h with h | h
    · rw [(isNaN_iff x).1 h]
      cases y.unpacked <;> rfl
    · rw [(isNaN_iff y).1 h]
      cases x.unpacked with
      | finite s m e hm => cases s <;> rfl
      | infinity s => cases s <;> rfl
      | zero s => rfl
      | notANumber => rfl
  unfold sameDouble
  cases hx : x.isNaN <;> cases hy : y.isNaN
  · rw [Bool.and_false, Bool.or_false, beq_iff_compare_place hx hy]
    exact Std.compare_eq_iff_eq
  · rw [hnumbers (Or.inr hy), place_of_isNaN hy]
    refine iff_of_false (by decide) fun heq => ?_
    have hlt := place_lt hx
    rw [heq, Std.ReflOrd.compare_self] at hlt
    cases hlt
  · rw [hnumbers (Or.inl hx), place_of_isNaN hx]
    refine iff_of_false (by decide) fun heq => ?_
    have hlt := place_lt hy
    rw [← heq, Std.ReflOrd.compare_self] at hlt
    cases hlt
  · rw [place_of_isNaN hx, place_of_isNaN hy]
    simp

end Double

/-! ## Equivalences -/

section Equivalences

variable {α β : Type} [BEq α] [BEq β] [PartialEquivBEq α] [PartialEquivBEq β]

instance Prod.partialEquivBEq : PartialEquivBEq (α × β) where
  symm {a b} h := by
    obtain ⟨h₁, h₂⟩ := Bool.and_eq_true_iff.1 h
    exact Bool.and_eq_true_iff.2 ⟨PartialEquivBEq.symm h₁, PartialEquivBEq.symm h₂⟩
  trans {a b c} h h' := by
    obtain ⟨h₁, h₂⟩ := Bool.and_eq_true_iff.1 h
    obtain ⟨h₁', h₂'⟩ := Bool.and_eq_true_iff.1 h'
    exact Bool.and_eq_true_iff.2 ⟨PartialEquivBEq.trans h₁ h₁', PartialEquivBEq.trans h₂ h₂'⟩

theorem list_beq_trans {as bs cs : List α} (h : (as == bs) = true) (h' : (bs == cs) = true) :
    (as == cs) = true := by
  induction as generalizing bs cs with
  | nil => cases bs with
    | nil => exact h'
    | cons b bs => cases h
  | cons a as ih =>
    cases bs with
    | nil => cases h
    | cons b bs =>
      cases cs with
      | nil => cases h'
      | cons c cs =>
        obtain ⟨hab, h⟩ := Bool.and_eq_true_iff.1 h
        obtain ⟨hbc, h'⟩ := Bool.and_eq_true_iff.1 h'
        exact Bool.and_eq_true_iff.2 ⟨PartialEquivBEq.trans hab hbc, ih h h'⟩

instance List.partialEquivBEq : PartialEquivBEq (List α) where
  symm {as bs} h := by rwa [list_beq_comm fun _ _ => BEq.comm]
  trans := list_beq_trans

end Equivalences

theorem vertex_beq_iff {v w : Vertex} : (v == w) = true ↔ v.id = w.id :=
  @beq_iff_eq String _ _ v.id w.id

theorem edge_beq_iff {e f : Edge} : (e == f) = true ↔ e.id = f.id :=
  @beq_iff_eq String _ _ e.id f.id

instance : EquivBEq Vertex where
  symm h := vertex_beq_iff.2 (vertex_beq_iff.1 h).symm
  trans h h' := vertex_beq_iff.2 ((vertex_beq_iff.1 h).trans (vertex_beq_iff.1 h'))
  rfl := vertex_beq_iff.2 rfl

instance : EquivBEq Edge where
  symm h := edge_beq_iff.2 (edge_beq_iff.1 h).symm
  trans h h' := edge_beq_iff.2 ((edge_beq_iff.1 h).trans (edge_beq_iff.1 h'))
  rfl := edge_beq_iff.2 rfl

mutual

theorem same_refl (a : Value) : a.same a = true := by
  cases a with
  | null => rfl
  | list as => exact sameItems_refl as
  | map as => exact sameEntries_refl as
  | float x => exact (Double.sameDouble_iff x x).2 rfl
  | path p => exact Bool.and_eq_true_iff.2 ⟨BEq.rfl, BEq.rfl⟩
  | bool a | int a | text a | duration a | date a => exact beq_self_eq_true a
  | node v => exact beq_self_eq_true v.id
  | relationship e => exact beq_self_eq_true e.id

theorem sameItems_refl (as : List Value) : sameItems as as = true := by
  cases as with
  | nil => rfl
  | cons a as => exact Bool.and_eq_true_iff.2 ⟨same_refl a, sameItems_refl as⟩

theorem sameEntries_refl (as : List (String × Value)) : sameEntries as as = true := by
  cases as with
  | nil => rfl
  | cons entry as =>
    obtain ⟨k, a⟩ := entry
    refine Bool.and_eq_true_iff.2 ⟨Bool.and_eq_true_iff.2 ⟨beq_self_eq_true k, same_refl a⟩, ?_⟩
    exact sameEntries_refl as

end

mutual

theorem same_trans (a b c : Value) (h : a.same b = true) (h' : b.same c = true) :
    a.same c = true := by
  cases a <;> cases b <;> first
    | (cases h; done)
    | (cases c <;> first | (cases h'; done) | skip)
  case null.null.null => rfl
  case list.list.list as bs cs => exact sameItems_trans as bs cs h h'
  case map.map.map as bs cs => exact sameEntries_trans as bs cs h h'
  case float.float.float x y z =>
    exact (Double.sameDouble_iff x z).2
      (((Double.sameDouble_iff x y).1 h).trans ((Double.sameDouble_iff y z).1 h'))
  case path.path.path p q r =>
    obtain ⟨h₁, h₂⟩ := Bool.and_eq_true_iff.1 h
    obtain ⟨h₁', h₂'⟩ := Bool.and_eq_true_iff.1 h'
    exact Bool.and_eq_true_iff.2 ⟨BEq.trans h₁ h₁', BEq.trans h₂ h₂'⟩
  case bool.bool.bool => exact @BEq.trans Bool _ _ _ _ _ h h'
  case int.int.int => exact @BEq.trans Int64 _ _ _ _ _ h h'
  case text.text.text => exact @BEq.trans String _ _ _ _ _ h h'
  case duration.duration.duration => exact @BEq.trans Duration _ _ _ _ _ h h'
  case date.date.date => exact @BEq.trans Date _ _ _ _ _ h h'
  case node.node.node => exact @BEq.trans Vertex _ _ _ _ _ h h'
  case relationship.relationship.relationship => exact @BEq.trans Edge _ _ _ _ _ h h'
termination_by structural a

theorem sameItems_trans (as bs cs : List Value) (h : sameItems as bs = true)
    (h' : sameItems bs cs = true) : sameItems as cs = true := by
  cases as <;> cases bs <;> first
    | (cases h; done)
    | (cases cs <;> first | (cases h'; done) | skip)
  case nil.nil.nil => rfl
  case cons.cons.cons a as b bs c cs =>
    obtain ⟨hab, h⟩ := Bool.and_eq_true_iff.1 h
    obtain ⟨hbc, h'⟩ := Bool.and_eq_true_iff.1 h'
    exact Bool.and_eq_true_iff.2 ⟨same_trans a b c hab hbc, sameItems_trans as bs cs h h'⟩
termination_by structural as

theorem sameEntries_trans (as bs cs : List (String × Value)) (h : sameEntries as bs = true)
    (h' : sameEntries bs cs = true) : sameEntries as cs = true := by
  cases as <;> cases bs <;> first
    | (cases h; done)
    | (cases cs <;> first | (cases h'; done) | skip)
  case nil.nil.nil => rfl
  case cons.cons.cons p as q bs r cs =>
    obtain ⟨h, has⟩ := Bool.and_eq_true_iff.1 h
    obtain ⟨h', hbs⟩ := Bool.and_eq_true_iff.1 h'
    obtain ⟨hk, hab⟩ := Bool.and_eq_true_iff.1 h
    obtain ⟨hl, hbc⟩ := Bool.and_eq_true_iff.1 h'
    refine Bool.and_eq_true_iff.2 ⟨Bool.and_eq_true_iff.2 ⟨BEq.trans hk hl, same_trans _ _ _ hab hbc⟩, ?_⟩
    exact sameEntries_trans as bs cs has hbs
termination_by structural as

end

instance : EquivBEq Value where
  symm {a b} h := (same_comm b a).trans h
  trans h h' := same_trans _ _ _ h h'
  rfl := same_refl _

/-! ## The first of items that are alike -/

section Firsts

variable {α : Type} {r : α → α → Bool}

theorem loop_concat (as kept : List α) (a : α) :
    List.eraseDupsBy.loop r (as ++ [a]) kept =
      if (List.eraseDupsBy.loop r as kept).any (r a) then List.eraseDupsBy.loop r as kept
      else List.eraseDupsBy.loop r as kept ++ [a] := by
  induction as generalizing kept with
  | nil =>
    rw [List.nil_append, List.eraseDupsBy.loop, List.eraseDupsBy.loop, List.any_reverse]
    cases kept.any (r a) with
    | true => rfl
    | false => simp [List.eraseDupsBy.loop]
  | cons b as ih =>
    rw [List.cons_append, List.eraseDupsBy.loop, List.eraseDupsBy.loop]
    cases kept.any (r b) with
    | true => exact ih kept
    | false => exact ih (b :: kept)

/-- An item at the end comes to the first ones unless it is alike to one of them. -/
theorem eraseDupsBy_concat (as : List α) (a : α) :
    (as ++ [a]).eraseDupsBy r =
      if (as.eraseDupsBy r).any (r a) then as.eraseDupsBy r else as.eraseDupsBy r ++ [a] :=
  loop_concat as [] a

theorem isEmpty_eraseDupsBy (as : List α) : (as.eraseDupsBy r).isEmpty = as.isEmpty := by
  cases as with
  | nil => rfl
  | cons a as => rw [List.eraseDupsBy_cons]; rfl

theorem mem_of_mem_eraseDupsBy {as : List α} {a : α} (h : a ∈ as.eraseDupsBy r) : a ∈ as := by
  induction as using List.reverseRecOn with
  | nil => exact h
  | append_singleton as b ih =>
    rw [eraseDupsBy_concat] at h
    rw [List.mem_append]
    split at h
    · exact Or.inl (ih h)
    · exact (List.mem_append.1 h).imp_left ih

/-- No two of the first items are alike. -/
theorem pairwise_eraseDupsBy (as : List α) :
    (as.eraseDupsBy r).Pairwise fun a b => r b a = false := by
  induction as using List.reverseRecOn with
  | nil => exact List.Pairwise.nil
  | append_singleton as b ih =>
    rw [eraseDupsBy_concat]
    split
    · exact ih
    · next hnone =>
      rw [List.any_eq_true, not_exists] at hnone
      refine List.pairwise_append.2 ⟨ih, List.pairwise_singleton _ _, fun a ha c hc => ?_⟩
      rw [List.mem_singleton.1 hc]
      exact Bool.eq_false_iff.2 fun heq => hnone a ⟨ha, heq⟩

variable (hr : Equivalence fun a b => r a b = true)
include hr

/-- Every item is alike to one of the first ones. -/
theorem any_eraseDupsBy {as : List α} {a : α} (h : a ∈ as) :
    (as.eraseDupsBy r).any (r a) = true := by
  induction as using List.reverseRecOn with
  | nil => cases h
  | append_singleton as b ih =>
    rw [eraseDupsBy_concat]
    split
    · next hany =>
      rcases List.mem_append.1 h with h | h
      · exact ih h
      · rw [List.mem_singleton.1 h]
        exact hany
    · rw [List.any_append, Bool.or_eq_true]
      rcases List.mem_append.1 h with h | h
      · exact Or.inl (ih h)
      · rw [List.mem_singleton.1 h, List.any_cons, hr.refl b]
        exact Or.inr rfl

/-- Every item is alike to exactly one of the first ones. -/
theorem countP_eraseDupsBy {as : List α} {a : α} (h : a ∈ as) :
    (as.eraseDupsBy r).countP (r a) = 1 := by
  have hone : ∀ firsts : List α, firsts.Pairwise (fun b c => r c b = false) →
      firsts.any (r a) = true → firsts.countP (r a) = 1 := by
    intro firsts hfirsts hany
    induction firsts with
    | nil => cases hany
    | cons b rest ih =>
      obtain ⟨hb, hrest⟩ := List.pairwise_cons.1 hfirsts
      rw [List.countP_cons]
      cases hab : r a b with
      | false =>
        rw [List.any_cons, hab, Bool.false_or] at hany
        rw [ih hrest hany]
        rfl
      | true =>
        have hnone : rest.countP (r a) = 0 := List.countP_eq_zero.2 fun c hc hac => by
          exact Bool.eq_false_iff.1 (hb c hc) (hr.trans (hr.symm hac) hab)
        rw [hnone]
        rfl
  exact hone _ (pairwise_eraseDupsBy as) (any_eraseDupsBy hr h)

omit hr in
theorem sum_countP (as bs : List α) :
    (bs.map fun b => as.countP (r · b)).sum = (as.map fun a => bs.countP (r a)).sum := by
  induction as with
  | nil => simp
  | cons a as ih =>
    simp only [List.countP_cons, List.map_cons, List.sum_cons, List.sum_map_add, ih]
    rw [Nat.add_comm]
    congr 1
    clear ih
    induction bs with
    | nil => rfl
    | cons b bs ih => rw [List.map_cons, List.sum_cons, ih, List.countP_cons, Nat.add_comm]

/-- The items alike to the first ones are all items. -/
theorem sum_length_filter (as : List α) :
    ((as.eraseDupsBy r).map fun b => (as.filter (r · b)).length).sum = as.length := by
  simp only [← List.countP_eq_length_filter]
  rw [sum_countP, List.map_congr_left fun a ha => countP_eraseDupsBy hr ha]
  simp

end Firsts

end PropertyGraph
