import Mathlib.Data.List.Basic
import Mathlib.Data.String.Basic
import PropertyGraph.Store.Basic

/-!
# Sorted collections and indices

What the operations on sorted maps, on sets of names and on indices of slots do, said through
look-up and membership.  Two kinds of index are told by what they index:

    Entries.Locates index marked    a name leads to the slot that is marked with it
    SlotIndex.Exact index marked    under a name stand the slots that are marked with it

Both follow the marks through the change of one slot and through an index made anew.
-/

namespace PropertyGraph

/-! ## Maps -/

namespace Entries

variable {α : Type}

/-- The names ascend, so that each occurs once. -/
def Sorted (entries : Entries α) : Prop :=
  (names entries).Pairwise (· < ·)

theorem sorted_nil : Sorted ([] : Entries α) := List.Pairwise.nil

theorem mem_names_insert (name other : String) (a : α) (entries : Entries α) :
    other ∈ names (insert name a entries) ↔ other = name ∨ other ∈ names entries := by
  induction entries with
  | nil => simp [insert, names]
  | cons e rest ih =>
    obtain ⟨key, b⟩ := e
    simp only [names] at ih
    by_cases hk : key = name
    · subst hk; simp [insert, names]
    · by_cases hl : name < key
      · simp [insert, names, hk, hl]
      · simp only [insert, if_neg hk, if_neg hl, names, List.map_cons, List.mem_cons, ih]
        exact or_left_comm

theorem Sorted.insert {entries : Entries α} (h : Sorted entries) (name : String) (a : α) :
    Sorted (insert name a entries) := by
  induction entries with
  | nil => simp [Entries.insert, Sorted, names]
  | cons e rest ih =>
    obtain ⟨key, b⟩ := e
    obtain ⟨hkey, hrest⟩ := List.pairwise_cons.1 h
    unfold Entries.insert
    split
    · next hk => subst hk; exact h
    · next hk =>
      split
      · next hl =>
        refine List.pairwise_cons.2 ⟨fun x hx => ?_, h⟩
        rcases List.mem_cons.1 hx with rfl | hx
        · exact hl
        · exact lt_trans hl (hkey x hx)
      · next hl =>
        refine List.pairwise_cons.2 ⟨fun x hx => ?_, ih hrest⟩
        rcases (mem_names_insert name x a rest).1 hx with rfl | hx
        · exact lt_of_le_of_ne (not_lt.1 hl) hk
        · exact hkey x hx

theorem sorted_ofList (pairs : List (String × α)) : Sorted (ofList pairs) := by
  have key : ∀ entries : Entries α, Sorted entries →
      Sorted (pairs.foldl (fun entries p => insert p.1 p.2 entries) entries) := by
    induction pairs with
    | nil => exact fun _ h => h
    | cons p rest ih => exact fun entries h => ih _ (h.insert p.1 p.2)
  exact key [] sorted_nil

theorem erase_sublist (name : String) (entries : Entries α) :
    (erase name entries).Sublist entries := by
  induction entries with
  | nil => exact List.Sublist.refl _
  | cons e rest ih =>
    obtain ⟨key, b⟩ := e
    unfold erase
    split
    · exact List.sublist_cons_self _ _
    · exact ih.cons_cons _

theorem Sorted.erase {entries : Entries α} (h : Sorted entries) (name : String) :
    Sorted (erase name entries) :=
  List.Pairwise.sublist ((erase_sublist name entries).map Prod.fst) h

theorem get?_eq_none_of_forall_lt {name : String} {entries : Entries α}
    (h : ∀ x ∈ names entries, name < x) : get? name entries = none := by
  induction entries with
  | nil => rfl
  | cons e rest ih =>
    obtain ⟨key, b⟩ := e
    have hk : key ≠ name := (ne_of_lt (h key (by simp [names]))).symm
    simp only [get?, if_neg hk]
    exact ih fun x hx => h x (List.mem_cons_of_mem _ hx)

theorem get?_erase_self {entries : Entries α} (h : Sorted entries) (name : String) :
    get? name (erase name entries) = none := by
  induction entries with
  | nil => rfl
  | cons e rest ih =>
    obtain ⟨key, b⟩ := e
    obtain ⟨hkey, hrest⟩ := List.pairwise_cons.1 h
    by_cases hk : key = name
    · subst hk
      simp only [Entries.erase, if_true]
      exact get?_eq_none_of_forall_lt hkey
    · simp only [Entries.erase, get?, if_neg hk]
      exact ih hrest

theorem get?_erase_of_ne {name other : String} (h : other ≠ name) (entries : Entries α) :
    get? other (erase name entries) = get? other entries := by
  induction entries with
  | nil => rfl
  | cons e rest ih =>
    obtain ⟨key, b⟩ := e
    by_cases hk : key = name
    · subst hk; simp [Entries.erase, get?, h.symm]
    · simp [Entries.erase, get?, hk, ih]

theorem mem_of_get? {name : String} {a : α} {entries : Entries α}
    (h : get? name entries = some a) : (name, a) ∈ entries := by
  induction entries with
  | nil => cases h
  | cons e rest ih =>
    obtain ⟨key, b⟩ := e
    simp only [get?] at h
    split at h
    · next hk => subst hk; simp_all
    · exact List.mem_cons_of_mem _ (ih h)

theorem mem_insert {name : String} {a : α} {p : String × α} {entries : Entries α}
    (h : p ∈ insert name a entries) : p = (name, a) ∨ p ∈ entries := by
  induction entries with
  | nil => exact Or.inl (List.mem_singleton.1 h)
  | cons e rest ih =>
    obtain ⟨key, b⟩ := e
    unfold Entries.insert at h
    split at h
    · rcases List.mem_cons.1 h with h | h
      · exact Or.inl h
      · exact Or.inr (List.mem_cons_of_mem _ h)
    · split at h
      · exact List.mem_cons.1 h
      · rcases List.mem_cons.1 h with rfl | h
        · exact Or.inr (List.mem_cons_self)
        · exact (ih h).imp_right (List.mem_cons_of_mem _)

/-- The names being distinct, each has its value. -/
theorem get?_ofList {pairs : List (String × α)} (hnodup : (pairs.map Prod.fst).Nodup)
    {name : String} {a : α} (h : (name, a) ∈ pairs) : get? name (ofList pairs) = some a := by
  have hkeep : ∀ (pairs : List (String × α)) (entries : Entries α), name ∉ pairs.map Prod.fst →
      get? name (pairs.foldl (fun entries p => insert p.1 p.2 entries) entries) =
        get? name entries := by
    intro pairs
    induction pairs with
    | nil => exact fun _ _ => rfl
    | cons p rest ih =>
      intro entries hnot
      rw [List.map_cons, List.mem_cons, not_or] at hnot
      rw [List.foldl_cons, ih _ hnot.2, get?_insert_of_ne hnot.1]
  suffices ∀ entries : Entries α,
      get? name (pairs.foldl (fun entries p => insert p.1 p.2 entries) entries) = some a from this []
  induction pairs with
  | nil => cases h
  | cons p rest ih =>
    intro entries
    rw [List.map_cons, List.nodup_cons] at hnodup
    rw [List.foldl_cons]
    rcases List.mem_cons.1 h with rfl | h
    · rw [hkeep rest _ hnodup.1, get?_insert_self]
    · exact ih hnodup.2 h _

theorem has_insert (name other : String) (a : α) (entries : Entries α) :
    has other (insert name a entries) = (other == name || has other entries) := by
  by_cases h : other = name
  · subst h; simp [has, get?_insert_self]
  · simp [has, get?_insert_of_ne h, h]

end Entries

/-! ## Sets of names -/

namespace Names

theorem mem_insert (name other : String) (names : Names) :
    other ∈ insert name names ↔ other = name ∨ other ∈ names := by
  induction names with
  | nil => simp [insert]
  | cons first rest ih =>
    unfold insert
    split
    · next h => subst h; simp
    · split
      · simp
      · rw [List.mem_cons, ih, List.mem_cons]
        exact or_left_comm

theorem pairwise_insert {names : Names} (h : names.Pairwise (· < ·)) (name : String) :
    (insert name names).Pairwise (· < ·) := by
  induction names with
  | nil => simp [insert]
  | cons first rest ih =>
    obtain ⟨hfirst, hrest⟩ := List.pairwise_cons.1 h
    unfold insert
    split
    · exact h
    · next hne =>
      split
      · next hl =>
        refine List.pairwise_cons.2 ⟨fun x hx => ?_, h⟩
        rcases List.mem_cons.1 hx with rfl | hx
        · exact hl
        · exact lt_trans hl (hfirst x hx)
      · next hl =>
        refine List.pairwise_cons.2 ⟨fun x hx => ?_, ih hrest⟩
        rcases (mem_insert name x rest).1 hx with rfl | hx
        · exact lt_of_le_of_ne (not_lt.1 hl) hne
        · exact hfirst x hx

theorem mem_ofList {names : List String} {name : String} : name ∈ ofList names ↔ name ∈ names := by
  suffices ∀ set : Names, name ∈ names.foldl (fun set x => insert x set) set ↔
      name ∈ names ∨ name ∈ set from
    (this []).trans (or_iff_left List.not_mem_nil)
  induction names with
  | nil => simp
  | cons x rest ih =>
    intro set
    rw [List.foldl_cons, ih, mem_insert, List.mem_cons]
    tauto

theorem pairwise_ofList (names : List String) : (ofList names).Pairwise (· < ·) := by
  have key : ∀ set : Names, set.Pairwise (· < ·) →
      (names.foldl (fun set name => insert name set) set).Pairwise (· < ·) := by
    induction names with
    | nil => exact fun _ h => h
    | cons name rest ih => exact fun set h => ih _ (pairwise_insert h name)
  exact key [] List.Pairwise.nil

theorem erase_eq (name : String) (names : Names) : erase name names = List.erase names name := by
  induction names with
  | nil => rfl
  | cons first rest ih =>
    unfold erase
    by_cases h : first = name <;> simp [h, ih]

theorem pairwise_erase {names : Names} (h : names.Pairwise (· < ·)) (name : String) :
    (erase name names).Pairwise (· < ·) := by
  rw [erase_eq]
  exact h.sublist List.erase_sublist

theorem mem_erase {names : Names} (h : names.Pairwise (· < ·)) (name other : String) :
    other ∈ erase name names ↔ other ≠ name ∧ other ∈ names := by
  rw [erase_eq]
  exact List.Nodup.mem_erase_iff (h.imp ne_of_lt)

end Names

/-! ## Indices from names to slots -/

/-- A name leads to the slot that is marked with it, if there is one. -/
def Entries.Locates (index : Entries Nat) (marked : Nat → String → Prop) : Prop :=
  index.Sorted ∧ ∀ id i, Entries.get? id index = some i ↔ marked i id

namespace Entries

variable {index : Entries Nat} {marked marked' : Nat → String → Prop}

theorem Locates.congr (h : index.Locates marked) (hm : ∀ i id, marked i id ↔ marked' i id) :
    index.Locates marked' :=
  ⟨h.1, fun id i => (h.2 id i).trans (hm i id)⟩

theorem locates_nil : Locates [] fun _ _ => False :=
  ⟨sorted_nil, by simp [get?]⟩

/-- A name leads to one slot only. -/
theorem Locates.unique (h : index.Locates marked) {i j : Nat} {id : String} (hi : marked i id)
    (hj : marked j id) : i = j := by
  have h1 := (h.2 id i).2 hi
  have h2 := (h.2 id j).2 hj
  rw [h1] at h2
  exact Option.some.inj h2

theorem Locates.insert (h : index.Locates marked) (i : Nat) {id : String}
    (hnew : ∀ j, ¬marked j id) :
    (insert id i index).Locates fun j other => (j = i ∧ other = id) ∨ marked j other := by
  refine ⟨h.1.insert id i, fun other j => ?_⟩
  by_cases ho : other = id
  · subst ho
    rw [get?_insert_self]
    simp [hnew j, eq_comm]
  · rw [get?_insert_of_ne ho, h.2]
    simp [ho]

theorem Locates.erase (h : index.Locates marked) {i : Nat} {id : String} (hi : marked i id) :
    (erase id index).Locates fun j other => ¬(j = i ∧ other = id) ∧ marked j other := by
  refine ⟨h.1.erase id, fun other j => ?_⟩
  by_cases ho : other = id
  · subst ho
    rw [get?_erase_self h.1]
    constructor
    · exact fun hj => by cases hj
    · rintro ⟨hne, hj⟩
      exact absurd ⟨h.unique hj hi, rfl⟩ hne
  · rw [get?_erase_of_ne ho, h.2]
    simp [ho]

/-- Several slots get names, each its own. -/
theorem Locates.insertAll (h : index.Locates marked) (pairs : List (Nat × String))
    (hnodup : (pairs.map Prod.snd).Nodup) (hnew : ∀ p ∈ pairs, ∀ j, ¬marked j p.2) :
    (pairs.foldl (fun index p => Entries.insert p.2 p.1 index) index).Locates fun j other =>
      (j, other) ∈ pairs ∨ marked j other := by
  induction pairs generalizing index marked with
  | nil => exact h.congr (by simp)
  | cons p rest ih =>
    obtain ⟨i, id⟩ := p
    obtain ⟨hid, hrest⟩ := List.nodup_cons.1 hnodup
    refine (ih (h.insert i (hnew _ List.mem_cons_self)) hrest fun q hq j => ?_).congr
      fun j other => ?_
    · rintro (⟨-, hq2⟩ | hm)
      · exact hid (List.mem_map.2 ⟨q, hq, hq2⟩)
      · exact hnew q (List.mem_cons_of_mem _ hq) j hm
    · simp only [List.mem_cons, Prod.mk.injEq]
      tauto

end Entries

/-! ## Indices from names to sets of slots -/

/-- Under every name stand, in ascending order, the slots that are marked with it. -/
def SlotIndex.Exact (index : SlotIndex) (marked : Nat → String → Prop) : Prop :=
  ∀ name, (SlotIndex.slots name index).Pairwise (· < ·) ∧
    ∀ i, i ∈ SlotIndex.slots name index ↔ marked i name

namespace SlotIndex

theorem mem_insertSlot (i j : Nat) (slots : List Nat) :
    j ∈ insertSlot i slots ↔ j = i ∨ j ∈ slots := by
  induction slots with
  | nil => simp [insertSlot]
  | cons k rest ih =>
    unfold insertSlot
    split
    · next h => subst h; simp
    · split
      · simp
      · rw [List.mem_cons, ih, List.mem_cons]
        exact or_left_comm

theorem pairwise_insertSlot {slots : List Nat} (h : slots.Pairwise (· < ·)) (i : Nat) :
    (insertSlot i slots).Pairwise (· < ·) := by
  induction slots with
  | nil => simp [insertSlot]
  | cons k rest ih =>
    obtain ⟨hk, hrest⟩ := List.pairwise_cons.1 h
    unfold insertSlot
    split
    · exact h
    · next hne =>
      split
      · next hl =>
        refine List.pairwise_cons.2 ⟨fun x hx => ?_, h⟩
        rcases List.mem_cons.1 hx with rfl | hx
        · exact hl
        · have := hk x hx; omega
      · next hl =>
        refine List.pairwise_cons.2 ⟨fun x hx => ?_, ih hrest⟩
        rcases (mem_insertSlot i x rest).1 hx with rfl | hx
        · omega
        · exact hk x hx

theorem slots_add (i : Nat) (index : SlotIndex) (name other : String) :
    slots other (add i index name) =
      if other = name then insertSlot i (slots name index) else slots other index := by
  unfold add
  by_cases h : other = name
  · subst h; simp [slots, Entries.get?_insert_self]
  · simp [slots, Entries.get?_insert_of_ne h, h]

theorem slots_remove (i : Nat) (index : SlotIndex) (name other : String) :
    slots other (remove i index name) =
      if other = name then (slots name index).erase i else slots other index := by
  unfold remove
  by_cases h : other = name
  · subst h; simp [slots, Entries.get?_insert_self]
  · simp [slots, Entries.get?_insert_of_ne h, h]

variable {index : SlotIndex} {marked marked' : Nat → String → Prop}

theorem Exact.congr (h : index.Exact marked) (hm : ∀ i name, marked i name ↔ marked' i name) :
    index.Exact marked' :=
  fun name => ⟨(h name).1, fun i => ((h name).2 i).trans (hm i name)⟩

theorem exact_nil : Exact [] fun _ _ => False := by
  intro name
  simp [slots, Entries.get?]

theorem Exact.add (h : index.Exact marked) (i : Nat) (name : String) :
    (add i index name).Exact fun j other => (j = i ∧ other = name) ∨ marked j other := by
  intro other
  rw [slots_add]
  by_cases ho : other = name
  · subst ho
    simp only [if_true]
    refine ⟨pairwise_insertSlot (h other).1 i, fun j => ?_⟩
    rw [mem_insertSlot, (h other).2]
    simp
  · simp only [ho, and_false, false_or, if_false]
    exact h other

theorem Exact.remove (h : index.Exact marked) (i : Nat) (name : String) :
    (remove i index name).Exact fun j other => ¬(j = i ∧ other = name) ∧ marked j other := by
  intro other
  rw [slots_remove]
  by_cases ho : other = name
  · subst ho
    simp only [if_true, and_true]
    refine ⟨(h other).1.sublist List.erase_sublist, fun j => ?_⟩
    rw [List.Nodup.mem_erase_iff ((h other).1.imp ne_of_lt), (h other).2]
  · simp only [ho, and_false, not_false_eq_true, true_and, if_false]
    exact h other

/-- A slot is marked with several names. -/
theorem Exact.addAll (h : index.Exact marked) (i : Nat) (names : List String) :
    (names.foldl (SlotIndex.add i) index).Exact fun j other =>
      (j = i ∧ other ∈ names) ∨ marked j other := by
  induction names generalizing index marked with
  | nil => exact h.congr (by simp)
  | cons name rest ih =>
    refine (ih (h.add i name)).congr fun j other => ?_
    simp only [List.mem_cons]
    tauto

/-- Each of several slots is marked with names of its own. -/
theorem Exact.addEach (h : index.Exact marked) (pairs : List (Nat × List String)) :
    (pairs.foldl (fun index p => p.2.foldl (SlotIndex.add p.1) index) index).Exact fun j other =>
      (∃ names, (j, names) ∈ pairs ∧ other ∈ names) ∨ marked j other := by
  induction pairs generalizing index marked with
  | nil => exact h.congr (by simp)
  | cons p rest ih =>
    obtain ⟨i, names⟩ := p
    refine (ih (h.addAll i names)).congr fun j other => ?_
    simp only [List.mem_cons, Prod.mk.injEq]
    constructor
    · rintro (⟨ns, hmem, ho⟩ | ⟨rfl, ho⟩ | hm)
      · exact Or.inl ⟨ns, Or.inr hmem, ho⟩
      · exact Or.inl ⟨names, Or.inl ⟨rfl, rfl⟩, ho⟩
      · exact Or.inr hm
    · rintro (⟨ns, ⟨rfl, rfl⟩ | hmem, ho⟩ | hm)
      · exact Or.inr (Or.inl ⟨rfl, ho⟩)
      · exact Or.inl ⟨ns, hmem, ho⟩
      · exact Or.inr (Or.inr hm)

/-- A slot loses several of its marks. -/
theorem Exact.removeAll (h : index.Exact marked) (i : Nat) (names : List String) :
    (names.foldl (SlotIndex.remove i) index).Exact fun j other =>
      ¬(j = i ∧ other ∈ names) ∧ marked j other := by
  induction names generalizing index marked with
  | nil => exact h.congr (by simp)
  | cons name rest ih =>
    refine (ih (h.remove i name)).congr fun j other => ?_
    simp only [List.mem_cons]
    tauto

end SlotIndex

end PropertyGraph
