/-!
# Slots

A collection whose elements keep their number for as long as they live.  The number of an erased
element is free, and a new element gets the number that became free last; only where none is free
does it get a new number at the end.
-/

namespace PropertyGraph

/-- Elements by number, and the free numbers from the last freed one on. -/
structure Slots (α : Type) where
  cells : Array (Option α)
  free : List Nat

namespace Slots

variable {α : Type}

/-- No slots. -/
def empty : Slots α := ⟨#[], []⟩

instance : Inhabited (Slots α) := ⟨empty⟩

/-- The element of a slot. -/
def get? (s : Slots α) (i : Nat) : Option α :=
  s.cells[i]?.join

/-- The slot that the next element gets. -/
def next (s : Slots α) : Nat :=
  s.free.headD s.cells.size

/-- Puts an element into the next slot. -/
def insert (s : Slots α) (a : α) : Slots α :=
  match s.free with
  | [] => ⟨s.cells.push (some a), []⟩
  | i :: free => ⟨s.cells.setIfInBounds i (some a), free⟩

/-- Empties a slot. -/
def erase (s : Slots α) (i : Nat) : Slots α :=
  match s.get? i with
  | none => s
  | some _ => ⟨s.cells.setIfInBounds i none, i :: s.free⟩

/-- Changes the element of a slot, if there is one. -/
def modify (s : Slots α) (i : Nat) (f : α → α) : Slots α :=
  { s with cells := s.cells.modify i (Option.map f) }

/-- The occupied slots in ascending order, with their elements. -/
def toList (s : Slots α) : List (Nat × α) :=
  s.cells.toList.zipIdx.filterMap fun (cell, i) => cell.map (i, ·)

/-- The elements in the order of their slots. -/
def values (s : Slots α) : List α :=
  s.cells.toList.filterMap id

/-- The number of elements. -/
def size (s : Slots α) : Nat :=
  s.values.length

/-- The slots with these contents; of the free ones the last is the next to be used. -/
def ofCells (cells : List (Option α)) : Slots α :=
  let free := cells.zipIdx.filterMap fun (cell, i) => if cell.isNone then some i else none
  ⟨cells.toArray, free.reverse⟩

/-! ## Lemmas -/

theorem get?_modify (s : Slots α) (i j : Nat) (f : α → α) :
    (s.modify i f).get? j = if i = j then (s.get? j).map f else s.get? j := by
  unfold get? modify
  by_cases h : i = j
  · subst h
    cases hc : s.cells[i]? with
    | none => simp [Array.getElem?_modify, hc]
    | some c => cases c <;> simp [Array.getElem?_modify, hc]
  · simp [Array.getElem?_modify, h]

theorem get?_erase_self (s : Slots α) (i : Nat) : (s.erase i).get? i = none := by
  unfold erase
  split
  · assumption
  · simp only [get?, Array.getElem?_setIfInBounds]
    by_cases h : i < s.cells.size <;> simp [h]

end Slots

end PropertyGraph
