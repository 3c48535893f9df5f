import Mathlib.Data.List.Basic
import PropertyGraph.Store.Slots

/-!
# Sound slots

The free numbers of a collection are its empty slots, each named once.  Then a new element never
takes the slot of another one, and every operation is told by what it does to look-up:

    get?_insert    (s.insert a).get? j = if j = s.next then some a else s.get? j
    get?_erase     (s.erase i).get? j = if j = i then none else s.get? j
-/

namespace PropertyGraph

namespace Slots

variable {α : Type}

/-- The free numbers are those of the empty slots. -/
structure Sound (s : Slots α) : Prop where
  mem_free : ∀ i, i ∈ s.free ↔ i < s.cells.size ∧ s.get? i = none
  nodup_free : s.free.Nodup

/-! ## Look-up -/

theorem lt_size_of_get? {s : Slots α} {i : Nat} {a : α} (h : s.get? i = some a) :
    i < s.cells.size := by
  rcases Nat.lt_or_ge i s.cells.size with hi | hi
  · exact hi
  · rw [get?, Array.getElem?_eq_none hi] at h
    cases h

theorem get?_next {s : Slots α} (hs : s.Sound) : s.get? s.next = none := by
  unfold next
  cases hf : s.free with
  | nil => simp [get?]
  | cons i free => exact ((hs.mem_free i).1 (by rw [hf]; exact List.mem_cons_self)).2

theorem get?_insert {s : Slots α} (hs : s.Sound) (a : α) (j : Nat) :
    (s.insert a).get? j = if j = s.next then some a else s.get? j := by
  unfold insert next get?
  cases hf : s.free with
  | nil =>
    by_cases h : j = s.cells.size <;> simp [Array.getElem?_push, h]
  | cons i free =>
    have hi : i < s.cells.size := ((hs.mem_free i).1 (by rw [hf]; exact List.mem_cons_self)).1
    simp only [Array.getElem?_setIfInBounds, List.headD_cons, hi, if_true]
    by_cases h : i = j
    · subst h; simp
    · simp [h, Ne.symm h]

theorem get?_erase (s : Slots α) (i j : Nat) :
    (s.erase i).get? j = if j = i then none else s.get? j := by
  by_cases h : j = i
  · subst h; rw [get?_erase_self, if_pos rfl]
  · unfold erase
    split
    · rw [if_neg h]
    · simp [get?, Ne.symm h, h]

theorem size_modify (s : Slots α) (i : Nat) (f : α → α) :
    (s.modify i f).cells.size = s.cells.size := by
  simp [modify]

/-! ## Preservation -/

theorem sound_empty : (empty : Slots α).Sound :=
  ⟨by simp [empty], List.nodup_nil⟩

theorem Sound.insert {s : Slots α} (hs : s.Sound) (a : α) : (s.insert a).Sound := by
  have hget := get?_insert hs a
  unfold Slots.insert next at *
  cases hf : s.free with
  | nil =>
    simp only [hf, List.headD_nil] at hget ⊢
    refine ⟨fun i => ?_, List.nodup_nil⟩
    -- no slot was empty, and the new one is not
    have hfull : i < s.cells.size → s.get? i ≠ none := by
      intro hi hn
      have := (hs.mem_free i).2 ⟨hi, hn⟩
      rw [hf] at this
      cases this
    rw [hget]
    simp only [List.not_mem_nil, Array.size_push, false_iff]
    rintro ⟨hi, hn⟩
    split at hn
    · cases hn
    · exact hfull (by omega) hn
  | cons k free =>
    simp only [hf, List.headD_cons] at hget ⊢
    have hnodup := hs.nodup_free
    rw [hf] at hnodup
    obtain ⟨hk, hfree⟩ := List.nodup_cons.1 hnodup
    refine ⟨fun i => ?_, hfree⟩
    rw [hget]
    have hmem := hs.mem_free i
    rw [hf, List.mem_cons] at hmem
    simp only [Array.size_setIfInBounds]
    by_cases hik : i = k
    · subst hik; simp [hk]
    · rw [if_neg hik, ← hmem]
      simp [hik]

theorem Sound.erase {s : Slots α} (hs : s.Sound) (i : Nat) : (s.erase i).Sound := by
  have hget := get?_erase s i
  unfold Slots.erase at *
  cases hi : s.get? i with
  | none => exact hs
  | some a =>
    simp only [hi] at hget ⊢
    have hsize := lt_size_of_get? hi
    refine ⟨fun j => ?_, List.nodup_cons.2 ⟨?_, hs.nodup_free⟩⟩
    · rw [hget, List.mem_cons, hs.mem_free, Array.size_setIfInBounds]
      by_cases hj : j = i
      · subst hj; simp [hsize]
      · simp [hj]
    · rw [hs.mem_free, hi]
      simp

theorem Sound.modify {s : Slots α} (hs : s.Sound) (i : Nat) (f : α → α) : (s.modify i f).Sound := by
  refine ⟨fun j => ?_, hs.nodup_free⟩
  rw [size_modify, get?_modify]
  have : (if i = j then (s.get? j).map f else s.get? j) = none ↔ s.get? j = none := by
    split <;> simp
  rw [this]
  exact hs.mem_free j

/-! ## Occupied slots -/

theorem mem_toList (s : Slots α) (i : Nat) (a : α) : (i, a) ∈ s.toList ↔ s.get? i = some a := by
  unfold toList get?
  rw [List.mem_filterMap]
  constructor
  · rintro ⟨⟨cell, j⟩, hmem, h⟩
    obtain ⟨b, rfl, hb⟩ := Option.map_eq_some_iff.1 h
    obtain ⟨rfl, rfl⟩ := Prod.mk.inj hb
    rw [List.mem_zipIdx_iff_getElem?, Array.getElem?_toList] at hmem
    simp only at hmem
    rw [hmem]
    rfl
  · intro h
    refine ⟨(some a, i), ?_, rfl⟩
    rw [List.mem_zipIdx_iff_getElem?, Array.getElem?_toList]
    exact Option.join_eq_some_iff.1 h

theorem pairwise_toList (s : Slots α) : (s.toList.map Prod.fst).Pairwise (· < ·) := by
  unfold toList
  rw [List.map_filterMap, List.pairwise_filterMap]
  refine List.Pairwise.imp (R := fun a b => a.2 < b.2) ?_ ?_
  · rintro ⟨c, i⟩ ⟨d, j⟩ hij a ha b hb
    obtain ⟨_, hc, rfl⟩ := Option.map_eq_some_iff.1 ha
    obtain ⟨_, hd, rfl⟩ := Option.map_eq_some_iff.1 hb
    obtain ⟨_, _, rfl⟩ := Option.map_eq_some_iff.1 hc
    obtain ⟨_, _, rfl⟩ := Option.map_eq_some_iff.1 hd
    exact hij
  · rw [← List.pairwise_map, List.zipIdx_map_snd]
    exact List.pairwise_lt_range'

end Slots

end PropertyGraph
