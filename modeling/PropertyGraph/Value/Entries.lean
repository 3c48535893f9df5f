/-!
# Sorted collections

Maps from names and sets of names as lists in ascending order of the names.  Every operation here
keeps the order, and a name occurs at most once.
-/

namespace PropertyGraph

/-! ## Maps -/

/-- A map from names, in ascending order of the names. -/
abbrev Entries (α : Type) := List (String × α)

namespace Entries

variable {α β : Type}

/-- The value of a name. -/
def get? (name : String) : Entries α → Option α
  | [] => none
  | (key, a) :: rest => if key = name then some a else get? name rest

/-- Does the map have the name? -/
def has (name : String) (entries : Entries α) : Bool :=
  (get? name entries).isSome

/-- The map with the name's value set. -/
def insert (name : String) (a : α) : Entries α → Entries α
  | [] => [(name, a)]
  | (key, b) :: rest =>
    if key = name then (name, a) :: rest
    else if name < key then (name, a) :: (key, b) :: rest
    else (key, b) :: insert name a rest

/-- The map without the name. -/
def erase (name : String) : Entries α → Entries α
  | [] => []
  | (key, b) :: rest => if key = name then rest else (key, b) :: erase name rest

/-- The map of a list of pairs; of two values of one name the later counts. -/
def ofList (pairs : List (String × α)) : Entries α :=
  pairs.foldl (fun entries (name, a) => insert name a entries) []

/-- The names in ascending order. -/
def names (entries : Entries α) : List String :=
  entries.map Prod.fst

/-- The values in the order of their names. -/
def values (entries : Entries α) : List α :=
  entries.map Prod.snd

/-! ## Lemmas -/

theorem get?_insert_self (name : String) (a : α) (entries : Entries α) :
    get? name (insert name a entries) = some a := by
  induction entries with
  | nil => simp [insert, get?]
  | cons e rest ih =>
    obtain ⟨key, b⟩ := e
    by_cases h : key = name
    · simp [insert, get?, h]
    · by_cases h' : name < key <;> simp [insert, get?, h, h', ih]

theorem get?_insert_of_ne {name other : String} (h : other ≠ name) (a : α) (entries : Entries α) :
    get? other (insert name a entries) = get? other entries := by
  induction entries with
  | nil => simp [insert, get?, h.symm]
  | cons e rest ih =>
    obtain ⟨key, b⟩ := e
    by_cases hk : key = name
    · subst hk; simp [insert, get?, h.symm]
    · by_cases h' : name < key
      · simp [insert, get?, hk, h', h.symm]
      · simp [insert, get?, hk, h', ih]

end Entries

/-! ## Sets -/

/-- A set of names, in ascending order. -/
abbrev Names := List String

namespace Names

/-- The set with the name added. -/
def insert (name : String) : Names → Names
  | [] => [name]
  | first :: rest =>
    if first = name then first :: rest
    else if name < first then name :: first :: rest
    else first :: insert name rest

/-- The set without the name. -/
def erase (name : String) : Names → Names
  | [] => []
  | first :: rest => if first = name then rest else first :: erase name rest

/-- The set of a list of names. -/
def ofList (names : List String) : Names :=
  names.foldl (fun set name => insert name set) []

end Names

end PropertyGraph
