import Mathlib.Algebra.Group.Nat.Defs
import Mathlib.Data.List.Basic
import PropertyGraph.Snapshot.Bytes

/-!
# Bytes read back

A reader takes the bytes of a thing, and nothing of what follows them, and gives that thing.  This
is said of each elementary form, and it goes from the parts of a form to the whole.

    ByteReader.Reads r bytes a    whatever follows the bytes, `r` takes these and gives `a`
    Reads.bind                    one reader after the other
    reads_sequence                items after their number

Lengths stand in eight bytes, so a form is read back if it is itself shorter than `2 ^ 64` bytes:
then so are its texts, and no sequence in it has more items.
-/

namespace PropertyGraph

/-- The bytes are few enough for their number to stand in eight of them. -/
def Bytes.Countable (bytes : List UInt8) : Prop :=
  bytes.length < 2 ^ 64

theorem Bytes.Countable.mono {p bytes : List UInt8} (h : Bytes.Countable bytes)
    (hpart : p.length ≤ bytes.length) : Bytes.Countable p :=
  Nat.lt_of_le_of_lt hpart h

theorem Bytes.sequence_map {α β : Type} (form : β → List UInt8) (f : α → β) (items : List α) :
    sequence form (items.map f) = sequence (fun a => form (f a)) items := by
  rw [sequence, sequence, List.length_map, List.flatMap_map]

/-- The bytes that have been gone through, and those from a position on. -/
theorem ByteArray.toList_loop (bytes : ByteArray) (i : Nat) (taken : List UInt8) :
    ByteArray.toList.loop bytes i taken = taken.reverse ++ bytes.data.toList.drop i := by
  rw [ByteArray.toList.loop]
  split
  · next hi =>
    have hlength : i < bytes.data.toList.length := hi
    have hget : bytes.get! i = bytes.data.toList[i] := getElem!_pos bytes.data i hi
    rw [ByteArray.toList_loop bytes (i + 1), hget, List.drop_eq_getElem_cons hlength,
      List.reverse_cons, List.append_assoc, List.singleton_append]
  · next hi => rw [List.drop_eq_nil_of_le (Nat.not_lt.1 hi), List.append_nil]
termination_by bytes.size - i

theorem ByteArray.toList_eq (bytes : ByteArray) : bytes.toList = bytes.data.toList :=
  ByteArray.toList_loop bytes 0 []

namespace ByteReader

variable {α β : Type} {r : ByteReader α} {k : α → ByteReader β} {bytes more : List UInt8} {a : α}
  {b : β}

/-- Whatever follows the bytes, the reader takes these and gives the result. -/
def Reads (r : ByteReader α) (bytes : List UInt8) (a : α) : Prop :=
  ∀ rest, r (bytes ++ rest) = some (a, rest)

/-! ## One after the other -/

theorem reads_pure (a : α) : Reads (pure a) [] a :=
  fun _ => rfl

theorem Reads.bind (hr : Reads r bytes a) (hk : Reads (k a) more b) :
    Reads (r >>= k) (bytes ++ more) b := by
  intro rest
  show (r (bytes ++ more ++ rest)).bind (fun p => k p.1 p.2) = _
  rw [List.append_assoc, hr]
  exact hk rest

/-- The last reader decides what is made of what it reads. -/
theorem Reads.map (hr : Reads r bytes a) (f : α → β) : Reads (do return f (← r)) bytes (f a) := by
  intro rest
  show (r (bytes ++ rest)).bind (fun p => some (f p.1, p.2)) = _
  rw [hr]
  rfl

/-- What is read has the form that is looked for. -/
theorem Reads.lift (hr : Reads r bytes a) {f : α → Option β} (hf : f a = some b) :
    Reads (do lift (f (← r))) bytes b := by
  intro rest
  show (r (bytes ++ rest)).bind (fun p => (f p.1).map (·, p.2)) = _
  rw [hr, Option.bind_some, hf]
  rfl

theorem Reads.liftMap {γ : Type} (hr : Reads r bytes a) {f : α → Option β} (hf : f a = some b)
    (g : β → γ) : Reads (do return g (← ByteReader.lift (f (← r)))) bytes (g b) := by
  intro rest
  show (r (bytes ++ rest)).bind (fun p =>
    ((f p.1).map (·, p.2)).bind fun q => some (g q.1, q.2)) = _
  rw [hr, Option.bind_some, hf]
  rfl

/-! ## Elementary forms -/

theorem reads_take {n : Nat} (h : bytes.length = n) : Reads (take n) bytes bytes :=
  take_append h

theorem reads_natural {w n : Nat} (h : n < Nat.pow 256 w) :
    Reads (natural w) (Bytes.natural w n) n :=
  natural_append h

theorem reads_bool (b : Bool) : Reads bool (Bytes.bool b) b := by
  cases b <;> exact fun _ => rfl

/-- A number of bytes stands in eight. -/
theorem reads_count {n : Nat} (h : Bytes.Countable bytes) (hn : n ≤ bytes.length) :
    Reads (natural 8) (Bytes.natural 8 n) n :=
  reads_natural (Nat.lt_of_le_of_lt hn (Nat.lt_of_lt_of_eq h (by decide)))

/-- The number of a slot stands in four bytes. -/
theorem reads_slot {i : Nat} (h : i < 2 ^ 32) : Reads (natural 4) (Bytes.natural 4 i) i :=
  reads_natural (Nat.lt_of_lt_of_eq h (by decide))

theorem reads_text {s : String} (h : Bytes.Countable (Bytes.text s)) :
    Reads text (Bytes.text s) s := by
  have hbytes : s.toUTF8.toList = s.toByteArray.data.toList := ByteArray.toList_eq _
  have hread : String.fromUTF8? ⟨s.toUTF8.toList.toArray⟩ = some s := by
    rw [hbytes, Array.toArray_toList]
    exact dif_pos s.isValidUTF8
  unfold Bytes.text at h ⊢
  exact (reads_count h (by simp)).bind ((reads_take rfl).lift hread)

theorem length_text_pos (s : String) : 0 < (Bytes.text s).length := by
  unfold Bytes.text
  rw [List.length_append, Bytes.length_natural]
  omega

/-! ## Sequences -/

theorem length_le_length_flatMap {form : α → List UInt8} {items : List α}
    (h : ∀ a ∈ items, 0 < (form a).length) : items.length ≤ (items.flatMap form).length := by
  induction items with
  | nil => exact Nat.le_refl 0
  | cons a rest ih =>
    obtain ⟨ha, hrest⟩ := List.forall_mem_cons.1 h
    rw [List.flatMap_cons, List.length_append, List.length_cons]
    have := ih hrest
    omega

theorem length_le_length_flatMap_of_mem {f : α → List UInt8} {items : List α} (h : a ∈ items) :
    (f a).length ≤ (items.flatMap f).length := by
  rw [List.flatMap_def]
  exact (List.sublist_flatten_of_mem (List.mem_map_of_mem h)).length_le

theorem length_le_length_sequence_of_mem {f : α → List UInt8} {items : List α} (h : a ∈ items) :
    (f a).length ≤ (Bytes.sequence f items).length := by
  have := length_le_length_flatMap_of_mem (f := f) h
  rw [Bytes.sequence, List.length_append]
  omega

theorem reads_times {form : α → List UInt8} {items : List α}
    (h : ∀ a ∈ items, Reads r (form a) a) :
    Reads (times r items.length) (items.flatMap form) items := by
  induction items with
  | nil => exact reads_pure []
  | cons a rest ih =>
    obtain ⟨ha, hrest⟩ := List.forall_mem_cons.1 h
    exact ha.bind ((ih hrest).map (a :: ·))

/-- The items of a sequence are read if each of them is. -/
theorem reads_sequence {form : α → List UInt8} {items : List α}
    (hcount : Bytes.Countable (Bytes.sequence form items))
    (hpos : ∀ a ∈ items, 0 < (form a).length) (h : ∀ a ∈ items, Reads r (form a) a) :
    Reads (sequence r) (Bytes.sequence form items) items := by
  have hn := length_le_length_flatMap hpos
  unfold Bytes.sequence at hcount ⊢
  refine (reads_count hcount ?_).bind (reads_times h)
  rw [List.length_append]
  omega

theorem reads_named {name : String} (hname : Bytes.Countable (Bytes.text name))
    (hr : Reads r bytes a) : Reads (named r) (Bytes.text name ++ bytes) (name, a) :=
  (reads_text hname).bind (hr.map (name, ·))

end ByteReader

end PropertyGraph
