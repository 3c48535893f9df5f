import PropertyGraph.Error
import PropertyGraph.Json.Grammar
import PropertyGraph.Text.Case

/-!
# Configuration

The settings of the engine, and the JSON document that holds them: an object of the fields, or an
array of the fields in the order of the structure.  Absent fields keep their defaults, unknown ones
are passed over, and a field that occurs twice is an error.
-/

namespace PropertyGraph

/-- How names are brought to one case before they reach the store. -/
inductive NameCase where
  | preserve | lower | upper
deriving DecidableEq, Repr

/-- The name in the case. -/
def NameCase.apply : NameCase → String → String
  | .preserve, name => name
  | .lower, name => Text.lower name
  | .upper, name => Text.upper name

/-- The settings of the engine. -/
structure Config where
  /-- The longest walk that a relationship without an upper bound stands for. -/
  maxDepth : Nat
  labelCase : NameCase
  propertyCase : NameCase
  /-- Decides between pattern elements that tie in every other respect. -/
  tieBreakSeed : UInt64
deriving DecidableEq

namespace Config

/-- The settings where a document says nothing. -/
def default : Config := ⟨15, .preserve, .preserve, 0⟩

/-- A label as it is stored. -/
def label (c : Config) (name : String) : String :=
  c.labelCase.apply name

/-- A property name as it is stored. -/
def property (c : Config) (name : String) : String :=
  c.propertyCase.apply name

/-! ## Reading -/

open CharReader

/-- A natural number below a bound. -/
def naturalBelow (bound : Nat) : CharReader Nat := do
  match ← Json.number .used with
  | .int n => if 0 ≤ n ∧ n < bound then return n.toNat else failure
  | _ => failure

/-- The case of a name. -/
def nameCase? : String → Option NameCase
  | "preserve" => some .preserve
  | "lower" => some .lower
  | "upper" => some .upper
  | _ => none

/-- A case by its name, which may also be the only member of an object, with the value null. -/
def nameCase : CharReader NameCase := do
  if ← eat '\x7b' then
    blanks
    let found ← nameCase? (← Json.textLiteral .used)
    blanks
    exactly ':'
    blanks
    literally ['n', 'u', 'l', 'l']
    blanks
    exactly '\x7d'
    return found
  else nameCase? (← Json.textLiteral .used)

/-- The fields in the order of the structure, each by its name and the reader that sets it. -/
def fields : List (String × (Config → CharReader Config)) :=
  [("max_traversal_depth", fun c => return { c with maxDepth := ← naturalBelow (Nat.pow 2 32) }),
    ("label_case", fun c => return { c with labelCase := ← nameCase }),
    ("property_name_case", fun c => return { c with propertyCase := ← nameCase }),
    ("tie_break_seed", fun c => do
      return { c with tieBreakSeed := UInt64.ofNat (← naturalBelow (Nat.pow 2 64)) })]

/-- Members of an object up to its end, at most `steps` of them; `seen` holds the known names that
have occurred. -/
def members (seen : List String) (c : Config) : Nat → CharReader Config
  | 0 => failure
  | steps + 1 => do
    blanks
    let name ← Json.textLiteral .used
    blanks
    exactly ':'
    blanks
    let (seen, c) ← match fields.find? (·.1 == name) with
      | none => do let _ ← Json.skipped; pure (seen, c)
      | some (_, set) =>
        if seen.contains name then failure else pure (name :: seen, ← set c)
    blanks
    if ← eat '\x7d' then return c
    else
      exactly ','
      members seen c steps

/-- Items of an array up to its end, each for the next of the fields. -/
def positions (c : Config) : List (String × (Config → CharReader Config)) → CharReader Config
  | [] => failure
  | (_, set) :: rest => do
    blanks
    let c ← set c
    blanks
    if ← eat ']' then return c
    else
      exactly ','
      positions c rest

/-- A document of settings. -/
def document : CharReader Config := do
  blanks
  if ← eat '\x7b' then
    blanks
    if ← eat '\x7d' then return default else members [] default (← remaining)
  else
    exactly '['
    blanks
    if ← eat ']' then return default else positions default fields

/-- The settings of a JSON text. -/
def parse (s : String) : Except Error Config :=
  match Json.whole? document s with
  | some c => .ok c
  | none => .error (.invalidArgument .badConfig)

end Config

end PropertyGraph
