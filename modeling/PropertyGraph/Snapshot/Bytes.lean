/-!
# Bytes

The elementary forms of the snapshot format: numbers of fixed width with the least byte first, and
texts and sequences after their length.  A `ByteReader` takes bytes from the front of a list or
fails.
-/

namespace PropertyGraph

/-! ## Writing -/

namespace Bytes

/-- A number in so many bytes, the least first. -/
def natural : (width : Nat) → Nat → List UInt8
  | 0, _ => []
  | width + 1, n => UInt8.ofNat n :: natural width (n / 256)

/-- A text after its length in bytes. -/
def text (s : String) : List UInt8 :=
  let bytes := s.toUTF8.toList
  natural 8 bytes.length ++ bytes

/-- A truth value in one byte. -/
def bool (b : Bool) : List UInt8 :=
  [if b then 1 else 0]

/-- The items of a sequence after their number. -/
def sequence {α : Type} (item : α → List UInt8) (items : List α) : List UInt8 :=
  natural 8 items.length ++ items.flatMap item

/-- The number that some bytes stand for, the least first. -/
def toNat (bytes : List UInt8) : Nat :=
  bytes.foldr (fun b n => b.toNat + 256 * n) 0

end Bytes

/-! ## Reading -/

/-- Takes bytes from the front of a list, or fails. -/
abbrev ByteReader (α : Type) := StateT (List UInt8) Option α

namespace ByteReader

/-- Takes so many bytes. -/
def take (n : Nat) : ByteReader (List UInt8) := fun bytes =>
  let front := bytes.take n
  if front.length = n then some (front, bytes.drop n) else none

/-- A result that may be missing. -/
def lift {α : Type} (a : Option α) : ByteReader α :=
  fun bytes => a.map (·, bytes)

/-- A number of so many bytes. -/
def natural (width : Nat) : ByteReader Nat :=
  return Bytes.toNat (← take width)

/-- A text after its length; its bytes must be valid UTF-8. -/
def text : ByteReader String := do
  let bytes ← take (← natural 8)
  lift (String.fromUTF8? ⟨bytes.toArray⟩)

/-- A truth value, which is one byte, 0 or 1. -/
def bool : ByteReader Bool := do
  match ← natural 1 with
  | 0 => return false
  | 1 => return true
  | _ => failure

/-- So many items. -/
def times {α : Type} (item : ByteReader α) : Nat → ByteReader (List α)
  | 0 => return []
  | n + 1 => do
    let a ← item
    return a :: (← times item n)

/-- Items after their number. -/
def sequence {α : Type} (item : ByteReader α) : ByteReader (List α) := do
  times item (← natural 8)

/-- An item under a name. -/
def named {α : Type} (item : ByteReader α) : ByteReader (String × α) := do
  let name ← text
  return (name, ← item)

end ByteReader

/-! ## Lemmas -/

theorem Bytes.length_natural (width n : Nat) : (Bytes.natural width n).length = width := by
  induction width generalizing n with
  | zero => rfl
  | succ width ih => simp [Bytes.natural, ih]

theorem Bytes.toNat_natural (width n : Nat) (h : n < Nat.pow 256 width) :
    Bytes.toNat (Bytes.natural width n) = n := by
  induction width generalizing n with
  | zero =>
    change n < 1 at h
    simp [Bytes.natural, Bytes.toNat]; omega
  | succ width ih =>
    have hd : n / 256 < Nat.pow 256 width := by
      change n < Nat.pow 256 width * 256 at h
      omega
    have := ih (n / 256) hd
    simp only [Bytes.natural, Bytes.toNat, List.foldr_cons] at this ⊢
    rw [this]
    simp [UInt8.toNat_ofNat']
    omega

theorem ByteReader.take_append {front : List UInt8} {n : Nat} (h : front.length = n)
    (rest : List UInt8) : ByteReader.take n (front ++ rest) = some (front, rest) := by
  subst h
  simp [ByteReader.take]

theorem ByteReader.natural_append {width n : Nat} (h : n < Nat.pow 256 width) (rest : List UInt8) :
    ByteReader.natural width (Bytes.natural width n ++ rest) = some (n, rest) := by
  show ((ByteReader.take width (Bytes.natural width n ++ rest)).bind fun p =>
    some (Bytes.toNat p.1, p.2)) = _
  rw [ByteReader.take_append (Bytes.length_natural width n), Option.bind_some,
    Bytes.toNat_natural width n h]

end PropertyGraph
