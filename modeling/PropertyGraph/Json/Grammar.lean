import PropertyGraph.Json.Basic
import PropertyGraph.Number.Binary
import PropertyGraph.Query.Token.Lexer

/-!
# Reading JSON

`Json.value` reads one value from the front of a text.  A value that is only passed over is held to
the grammar but neither its numbers to the range of doubles nor its texts to whole characters nor
its depth to a limit; `Strictness` makes the difference.  `Json.parse?` reads a whole document.

A number without point, exponent or more than 64 bits is an integer.  Any other number is a double
computed from its first digits that fit 64 bits, by one multiplication or division with a power of
ten where one suffices.
-/

namespace PropertyGraph

/-- Takes characters from the front of a text. -/
abbrev CharReader (α : Type) := StateT (List Char) Option α

namespace CharReader

/-- The next character, which stays. -/
def peek : CharReader (Option Char) :=
  fun cs => some (cs.head?, cs)

/-- Takes the next character, which must be this one. -/
def exactly (c : Char) : CharReader Unit
  | d :: rest => if c == d then some ((), rest) else none
  | [] => none

/-- Takes the next character if it is one of these, and says whether it did. -/
def eatOneOf (options : List Char) : CharReader Bool
  | c :: rest => if options.contains c then some (true, rest) else some (false, c :: rest)
  | [] => some (false, [])

/-- Takes the next character if it is this one, and says whether it did. -/
def eat (c : Char) : CharReader Bool :=
  eatOneOf [c]

/-- Takes these characters. -/
def literally (cs : List Char) : CharReader Unit :=
  cs.forM exactly

/-- Takes the digits that come next. -/
def digits : CharReader (List Char) :=
  fun cs => some (cs.takeWhile Char.isDigit, cs.dropWhile Char.isDigit)

/-- Takes one digit or more. -/
def someDigits : CharReader (List Char) := do
  let ds ← digits
  if ds.isEmpty then failure else return ds

/-- Drops the blanks that come next. -/
def blanks : CharReader Unit :=
  modify fun cs => cs.dropWhile fun c => c == ' ' || c == '\n' || c == '\t' || c == '\r'

/-- The number of characters left. -/
def remaining : CharReader Nat :=
  fun cs => some (cs.length, cs)

end CharReader

namespace Json

open CharReader

/-- Whether what is read is used or only passed over. -/
inductive Strictness where
  | used | skipped
deriving DecidableEq

/-! ## Numbers -/

/-- A number as it is written. -/
structure Numeral where
  negative : Bool
  whole : List Char
  fraction : Option (List Char)
  exponent : Option (Bool × List Char)

/-- Takes digits into a 64-bit number while they fit: the number and the digits left. -/
def fill (n : Nat) : List Char → Nat × List Char
  | [] => (n, [])
  | d :: ds =>
    let m := 10 * n + (d.toNat - 48)
    if m < Nat.pow 2 64 then fill m ds else (n, d :: ds)

/-- A power of ten as a double. -/
def powerOfTen (k : Nat) : Double :=
  Number.nearest false (Nat.pow 10 k) 1

/-- A number of 64 bits times a power of ten, in at most `steps` divisions; none past the largest
double. -/
def scaled? : Nat → Double → Int → Option Double
  | 0, x, _ => some x
  | steps + 1, x, e =>
    if e.natAbs ≤ 308 then
      if e < 0 then some (x / powerOfTen e.natAbs)
      else
        let y := x * powerOfTen e.natAbs
        if y.isInfinite then none else some y
    else if x == 0.0 then some x
    else if 0 ≤ e then none
    else scaled? steps (x / powerOfTen 308) (e + 308)

/-- The magnitude of a numeral that is no plain integer. -/
def Numeral.magnitude? (n : Numeral) : Option Double :=
  let (significand, overflow) := fill 0 n.whole
  let fraction := n.fraction.getD []
  let (significand, dropped) := fill significand fraction
  let start : Int := overflow.length - (fraction.length - dropped.length)
  let x := Number.nearest false significand 1
  match n.exponent with
  | none => scaled? 4 x start
  | some (negative, ds) =>
    let e := Number.ofDigits ds
    if Nat.pow 2 31 ≤ e then
      if significand ≠ 0 ∧ !negative then none else some 0.0
    else scaled? 4 x (start + if negative then -(e : Int) else e)

/-- The value of a numeral; none for a double past the largest. -/
def Numeral.value? (n : Numeral) : Option Json :=
  let m := Number.ofDigits n.whole
  let signed := fun x : Double => if n.negative then -x else x
  match n.fraction, n.exponent with
  | none, none =>
    if Nat.pow 2 64 ≤ m then n.magnitude?.map (float ∘ signed)
    else if !n.negative then some (int m)
    else if 0 < m ∧ m ≤ Nat.pow 2 63 then some (int (-(m : Int)))
    else some (float (-(Number.nearest false m 1)))
  | _, _ => n.magnitude?.map (float ∘ signed)

/-- The digits before the point: a lone zero, or digits without a zero in front. -/
def wholeDigits : CharReader (List Char) := do
  let ds ← someDigits
  if ds.head? == some '0' && 1 < ds.length then failure else return ds

/-- The exponent, if there is one: its sign and its digits. -/
def exponentPart : CharReader (Option (Bool × List Char)) := do
  if ← eatOneOf ['e', 'E'] then
    let negative ← eat '-'
    if !negative then let _ ← eat '+'
    return some (negative, ← someDigits)
  else return none

/-- A number as it is written. -/
def numeral : CharReader Numeral := do
  let negative ← eat '-'
  let whole ← wholeDigits
  let fraction ← if ← eat '.' then some <$> someDigits else pure none
  return ⟨negative, whole, fraction, ← exponentPart⟩

/-- A number. -/
def number (mode : Strictness) : CharReader Json := do
  let n ← numeral
  match mode, n.value? with
  | .skipped, _ => return null
  | .used, some v => return v
  | .used, none => failure

/-! ## Texts -/

/-- The character of a short escape. -/
def shortEscape? : Char → Option Char
  | '\x22' => some '\x22'
  | '\\' => some '\\'
  | '/' => some '/'
  | 'b' => some '\x08'
  | 'f' => some '\x0c'
  | 'n' => some '\n'
  | 'r' => some '\r'
  | 't' => some '\t'
  | _ => none

/-- Four hexadecimal digits. -/
def fourHex? (a b c d : Char) : Option Nat :=
  Token.hexNumber? [a, b, c, d]

/-- The code point of a high and a low surrogate. -/
def joinSurrogates (high low : Nat) : Nat :=
  0x10000 + (high - 0xd800) * 0x400 + (low - 0xdc00)

/-- The characters up to the closing quote, and what follows it. -/
def textBody (mode : Strictness) : List Char → Option (List Char × List Char)
  | '\\' :: 'u' :: a :: b :: c :: d :: '\\' :: 'u' :: a' :: b' :: c' :: d' :: rest =>
    match fourHex? a b c d with
    | none => none
    | some n =>
      if mode = .used ∧ 0xd800 ≤ n ∧ n ≤ 0xdbff then
        match fourHex? a' b' c' d' with
        | none => none
        | some m =>
          if 0xdc00 ≤ m ∧ m ≤ 0xdfff then
            (textBody mode rest).map fun (s, rest) => (Char.ofNat (joinSurrogates n m) :: s, rest)
          else none
      else if mode = .used ∧ 0xdc00 ≤ n ∧ n ≤ 0xdfff then none
      else (textBody mode ('\\' :: 'u' :: a' :: b' :: c' :: d' :: rest)).map
        fun (s, rest) => (Char.ofNat n :: s, rest)
  | '\\' :: 'u' :: a :: b :: c :: d :: rest =>
    match fourHex? a b c d with
    | none => none
    | some n =>
      if mode = .used ∧ 0xd800 ≤ n ∧ n ≤ 0xdfff then none
      else (textBody mode rest).map fun (s, rest) => (Char.ofNat n :: s, rest)
  | '\\' :: c :: rest =>
    match shortEscape? c with
    | none => none
    | some x => (textBody mode rest).map fun (s, rest) => (x :: s, rest)
  | '\x22' :: rest => some ([], rest)
  | c :: rest =>
    if c.toNat < 32 then none
    else (textBody mode rest).map fun (s, rest) => (c :: s, rest)
  | [] => none

/-- A text between quotes. -/
def textLiteral (mode : Strictness) : CharReader String := do
  exactly '\x22'
  return String.ofList (← textBody mode)

/-! ## Values -/

/-- Items with commas between them up to a closing bracket, at most `steps` of them. -/
def itemsUpTo {α : Type} (close : Char) (item : CharReader α) : Nat → CharReader (List α)
  | 0 => failure
  | steps + 1 => do
    let first ← item
    blanks
    if ← eat close then return [first]
    else
      exactly ','
      return first :: (← itemsUpTo close item steps)

/-- Items with commas between them and a closing bracket, after the opening one. -/
def bracketed {α : Type} (close : Char) (item : CharReader α) : CharReader (List α) := do
  blanks
  if ← eat close then return [] else itemsUpTo close item (← remaining)

/-- One member of an object. -/
def member (mode : Strictness) (sub : CharReader Json) : CharReader (String × Json) := do
  blanks
  let name ← textLiteral mode
  blanks
  exactly ':'
  return (name, ← sub)

/-- One value, after blanks; containers nest less than `depth` deep. -/
def value (mode : Strictness) : Nat → CharReader Json
  | 0 => failure
  | depth + 1 => do
    blanks
    match ← peek with
    | some 'n' => do literally ['n', 'u', 'l', 'l']; return null
    | some 't' => do literally ['t', 'r', 'u', 'e']; return bool true
    | some 'f' => do literally ['f', 'a', 'l', 's', 'e']; return bool false
    | some '\x22' => return text (← textLiteral mode)
    | some '[' =>
      if depth = 0 then failure
      exactly '['
      return array (← bracketed ']' (value mode depth))
    | some '\x7b' =>
      if depth = 0 then failure
      exactly '\x7b'
      return object (← bracketed '\x7d' (member mode (value mode depth)))
    | _ => number mode

/-- A value that is used: containers nest at most 127 deep. -/
def used : CharReader Json := value .used 128

/-- A value that is passed over: its depth has no limit but the length of the text. -/
def skipped : CharReader Json := do
  value .skipped ((← remaining) + 2)

/-- The result of a reader that takes a whole text, up to blanks at its end. -/
def whole? {α : Type} (reader : CharReader α) (s : String) : Option α :=
  match (do let a ← reader; blanks; return a) s.toList with
  | some (a, []) => some a
  | _ => none

/-- The document of a text. -/
def parse? (s : String) : Option Json :=
  whole? used s

end Json

end PropertyGraph
