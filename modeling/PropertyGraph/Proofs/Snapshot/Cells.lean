import Mathlib.Data.List.Nodup
import Mathlib.Data.List.TakeWhile
import PropertyGraph.Proofs.Snapshot.Element
import PropertyGraph.Proofs.Store.Consistent
import PropertyGraph.Snapshot

/-!
# Slots read back

The vertex slots of a snapshot stand in two lists, the vertices and the numbers of the empty slots
among them; the edge slots stand one by one.  Both are read back as the slots up to the last
element.  The empty slots after it are not written, and look-up does not miss them.

    spread_holes        the two lists give the slots that they were made of
    trimmed_append      the slots that are written, and the empty ones after them
    sound_ofCells       slots made of their contents are sound
-/

namespace PropertyGraph

namespace Snapshot

variable {α : Type}

/-! ## Holes -/

/-- The numbers of the empty slots among some that are numbered from a position on. -/
def holesFrom (position : Nat) (cells : List (Option α)) : List Nat :=
  (cells.zipIdx position).filterMap fun (cell, i) => if cell.isNone then some i else none

theorem holesFrom_none (position : Nat) (cells : List (Option α)) :
    holesFrom position (none :: cells) = position :: holesFrom (position + 1) cells :=
  rfl

theorem holesFrom_some (position : Nat) (a : α) (cells : List (Option α)) :
    holesFrom position (some a :: cells) = holesFrom (position + 1) cells :=
  rfl

theorem mem_holesFrom {position i : Nat} {cells : List (Option α)} :
    i ∈ holesFrom position cells ↔ position ≤ i ∧ cells[i - position]? = some none := by
  unfold holesFrom
  rw [List.mem_filterMap]
  constructor
  · rintro ⟨⟨cell, j⟩, hcell, hj⟩
    rw [List.mk_mem_zipIdx_iff_le_and_getElem?_sub] at hcell
    cases cell with
    | none => cases hj; exact hcell
    | some a => cases hj
  · intro h
    exact ⟨(none, i), List.mk_mem_zipIdx_iff_le_and_getElem?_sub.2 h, rfl⟩

theorem pairwise_holesFrom (position : Nat) (cells : List (Option α)) :
    (holesFrom position cells).Pairwise (· < ·) := by
  induction cells generalizing position with
  | nil => exact List.Pairwise.nil
  | cons cell rest ih =>
    cases cell with
    | none => exact List.pairwise_cons.2 ⟨fun i hi => (mem_holesFrom.1 hi).1, ih (position + 1)⟩
    | some a => exact ih (position + 1)

theorem holesFrom_map {β : Type} (f : α → β) (position : Nat) (cells : List (Option α)) :
    holesFrom position (cells.map (Option.map f)) = holesFrom position cells := by
  induction cells generalizing position with
  | nil => rfl
  | cons cell rest ih =>
    cases cell with
    | none => exact congrArg (position :: ·) (ih (position + 1))
    | some a => exact ih (position + 1)

theorem length_values_add_holes (position : Nat) (cells : List (Option α)) :
    (cells.filterMap id).length + (holesFrom position cells).length = cells.length := by
  induction cells generalizing position with
  | nil => rfl
  | cons cell rest ih =>
    have := ih (position + 1)
    cases cell with
    | none =>
      rw [holesFrom_none, List.filterMap_cons_none rfl, List.length_cons, List.length_cons]
      omega
    | some a =>
      rw [holesFrom_some, List.filterMap_cons_some (show id (some a) = some a from rfl), List.length_cons, List.length_cons]
      omega

/-- An element before all empty slots is the first one. -/
theorem spread_cons {bound position : Nat} {holes : List Nat} (h : ∀ i ∈ holes, position < i)
    (a : α) (rest : List α) :
    spread bound position holes (a :: rest) =
      (spread bound (position + 1) holes rest).map (some a :: ·) := by
  cases holes with
  | nil => rfl
  | cons hole holes =>
    have hhole := h hole List.mem_cons_self
    have hn : hole - position = hole - (position + 1) + 1 := by omega
    have hcond : (position ≤ hole ∧ hole < bound ∧ hole - position ≤ (a :: rest).length) ↔
        (position + 1 ≤ hole ∧ hole < bound ∧ hole - (position + 1) ≤ rest.length) := by
      rw [List.length_cons]
      omega
    unfold spread
    simp only [if_congr hcond rfl rfl]
    split
    · rw [Option.map_map, hn]
      rfl
    · rfl

/-- The elements and the numbers of the empty slots give the slots that they were taken from. -/
theorem spread_holes {bound position : Nat} (cells : List (Option α))
    (hbound : position + cells.length ≤ bound) :
    spread bound position (holesFrom position cells) (cells.filterMap id) = some cells := by
  induction cells generalizing position with
  | nil => rfl
  | cons cell rest ih =>
    rw [List.length_cons] at hbound
    have hrest : spread bound (position + 1) (holesFrom (position + 1) rest)
        (rest.filterMap id) = some rest := ih (by omega)
    cases cell with
    | none =>
      rw [holesFrom_none, List.filterMap_cons_none rfl]
      unfold spread
      rw [if_pos ⟨Nat.le_refl _, by omega, by omega⟩, Nat.sub_self, List.drop_zero, hrest]
      rfl
    | some a =>
      rw [holesFrom_some, List.filterMap_cons_some (show id (some a) = some a from rfl),
        spread_cons (fun i hi => (mem_holesFrom.1 hi).1), hrest]
      rfl

/-! ## Slots up to the last element -/

theorem trimmed_append (slots : Slots α) :
    ∃ n, slots.cells.toList = trimmed slots ++ List.replicate n none := by
  have hsplit := List.takeWhile_append_dropWhile (p := Option.isNone)
    (l := slots.cells.toList.reverse)
  refine ⟨(slots.cells.toList.reverse.takeWhile Option.isNone).length, ?_⟩
  have hempty : (slots.cells.toList.reverse.takeWhile Option.isNone).reverse =
      List.replicate (slots.cells.toList.reverse.takeWhile Option.isNone).length none := by
    rw [List.eq_replicate_iff, List.length_reverse]
    refine ⟨rfl, fun cell hcell => ?_⟩
    exact Option.isNone_iff_eq_none.1 (List.mem_takeWhile_imp (List.mem_reverse.1 hcell))
  rw [← hempty, trimmed, ← List.reverse_append, hsplit, List.reverse_reverse]

theorem getElem?_trimmed (slots : Slots α) (i : Nat) : (trimmed slots)[i]?.join = slots.get? i := by
  obtain ⟨n, hn⟩ := trimmed_append slots
  unfold Slots.get?
  rw [← Array.getElem?_toList, hn, List.getElem?_append]
  split
  · rfl
  · next h =>
    rw [List.getElem?_eq_none (Nat.not_lt.1 h), List.getElem?_replicate]
    split <;> rfl

theorem filterMap_trimmed (slots : Slots α) : (trimmed slots).filterMap id = slots.values := by
  obtain ⟨n, hn⟩ := trimmed_append slots
  unfold Slots.values
  rw [hn, List.filterMap_append]
  simp

theorem length_trimmed_le (slots : Slots α) : (trimmed slots).length ≤ slots.cells.size := by
  obtain ⟨n, hn⟩ := trimmed_append slots
  have := congrArg List.length hn
  rw [List.length_append, Array.length_toList] at this
  omega

theorem lt_length_trimmed {slots : Slots α} {i : Nat} {a : α} (h : slots.get? i = some a) :
    i < (trimmed slots).length := by
  rw [← getElem?_trimmed] at h
  exact (List.getElem?_eq_some_iff.1 (Option.join_eq_some_iff.1 h)).1

end Snapshot

/-! ## Slots of given contents -/

namespace Slots

variable {α : Type}

theorem get?_ofCells (cells : List (Option α)) (i : Nat) :
    (ofCells cells).get? i = cells[i]?.join := by
  unfold get? ofCells
  rw [List.getElem?_toArray]

theorem size_ofCells (cells : List (Option α)) : (ofCells cells).cells.size = cells.length := by
  simp [ofCells]

theorem sound_ofCells (cells : List (Option α)) : (ofCells cells).Sound := by
  have hfree : (ofCells cells).free = (Snapshot.holesFrom 0 cells).reverse := rfl
  refine ⟨fun i => ?_, ?_⟩
  · rw [hfree, List.mem_reverse, Snapshot.mem_holesFrom, get?_ofCells, size_ofCells, Nat.sub_zero]
    cases hi : cells[i]? with
    | none => simp [List.getElem?_eq_none_iff.1 hi]
    | some cell => simp [(List.getElem?_eq_some_iff.1 hi).1]
  · rw [hfree, List.nodup_reverse]
    exact (Snapshot.pairwise_holesFrom 0 cells).imp Nat.ne_of_lt

theorem mem_values (s : Slots α) (a : α) : a ∈ s.values ↔ ∃ i, s.get? i = some a := by
  unfold values get?
  rw [List.mem_filterMap]
  simp only [id_eq, exists_eq_right, List.mem_iff_getElem?, Array.getElem?_toList,
    Option.join_eq_some_iff]

end Slots

/-! ## Edge slots -/

namespace ByteReader

open Bytes (Countable)

theorem length_edgeCell_pos (cell : Option EdgeCell) : 0 < (Snapshot.edgeCell cell).length := by
  cases cell <;> simp [Snapshot.edgeCell]

/-- The slot of an edge is read back if its ends stand in four bytes each. -/
theorem reads_edgeCell {bound : Nat} {cell : Option EdgeCell}
    (hcount : Countable (Snapshot.edgeCell cell)) (hbound : bound ≤ 2 ^ 32)
    (h : ∀ c ∈ cell, c.edge.Orderly ∧ ∀ side, c.slot side < bound) :
    Reads (Snapshot.readEdgeCell bound) (Snapshot.edgeCell cell) cell := by
  unfold Snapshot.readEdgeCell
  cases cell with
  | none => exact fun _ => rfl
  | some c =>
    obtain ⟨horderly, hslots⟩ := h c rfl
    have hsource : c.source < bound := hslots .outgoing
    have htarget : c.target < bound := hslots .incoming
    have hparts : Snapshot.edgeCell (some c) = Bytes.bool true ++ (Bytes.natural 4 c.source ++
        (Bytes.natural 4 c.target ++ (Bytes.edge c.edge ++ []))) := by
      simp [Snapshot.edgeCell, Bytes.bool]
    have hedge : Countable (Bytes.edge c.edge) :=
      hcount.mono (by rw [hparts]; simp only [List.length_append]; omega)
    rw [hparts]
    refine (reads_bool true).bind ?_
    rw [if_pos rfl]
    refine (reads_slot (Nat.lt_of_lt_of_le hsource hbound)).bind ?_
    refine (reads_slot (Nat.lt_of_lt_of_le htarget hbound)).bind ?_
    refine (reads_edge (readsWithin_value hedge) horderly hedge (Nat.le_refl _)).bind ?_
    rw [if_pos ⟨hsource, htarget⟩]
    exact reads_pure (some c)

end ByteReader

end PropertyGraph
