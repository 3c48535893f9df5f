/-!
# Blanks and substrings

`isBlank` is the Unicode property White_Space, `isAsciiBlank` its part that separates the words of
a query.  `trim` drops blanks from both ends of a text.

Searching, splitting and replacing are told on lists of characters.  The empty text occurs at every
character boundary, so splitting at it gives an empty piece at either end and replacing it inserts
the new text at every boundary.
-/

namespace PropertyGraph.Text

/-! ## White space -/

/-- The Unicode property White_Space. -/
def isBlank (c : Char) : Bool :=
  let n := c.toNat
  (9 ≤ n && n ≤ 13) || n == 0x20 || n == 0x85 || n == 0xa0 || n == 0x1680 ||
    (0x2000 ≤ n && n ≤ 0x200a) || n == 0x2028 || n == 0x2029 || n == 0x202f || n == 0x205f ||
    n == 0x3000

/-- Space, tab, line feed, form feed and carriage return; the vertical tab is not among them. -/
def isAsciiBlank (c : Char) : Bool :=
  let n := c.toNat
  n == 0x20 || n == 9 || n == 10 || n == 12 || n == 13

/-- The characters without the blanks at either end. -/
def trimChars (cs : List Char) : List Char :=
  ((cs.dropWhile isBlank).reverse.dropWhile isBlank).reverse

/-- The text without the blanks at either end. -/
def trim (s : String) : String :=
  String.ofList (trimChars s.toList)

/-! ## Substrings -/

/-- Does `part` occur in the text? -/
def occursIn (part : List Char) : List Char → Bool
  | [] => part.isEmpty
  | c :: rest => part.isPrefixOf (c :: rest) || occursIn part rest

/-- The pieces between the occurrences of a non-empty separator, leftmost occurrences first;
`piece` holds the current piece backwards, `skip` counts separator characters still to pass. -/
def splitLoop (separator : List Char) (piece : List Char) (skip : Nat) :
    List Char → List (List Char)
  | [] => [piece.reverse]
  | c :: rest =>
    if 0 < skip then splitLoop separator piece (skip - 1) rest
    else if separator.isPrefixOf (c :: rest) then
      piece.reverse :: splitLoop separator [] (separator.length - 1) rest
    else splitLoop separator (c :: piece) 0 rest

/-- The pieces of a text between the occurrences of a separator. -/
def splitAt (separator text : List Char) : List (List Char) :=
  if separator.isEmpty then [] :: text.map ([·]) ++ [[]]
  else splitLoop separator [] 0 text

/-- The text with every occurrence of `old` replaced, leftmost first and without overlap. -/
def replaceAll (old new text : List Char) : List Char :=
  List.intercalate new (splitAt old text)

/-- The pieces of a text between the occurrences of one character. -/
def splitChar (separator : Char) : List Char → List (List Char)
  | [] => [[]]
  | c :: rest =>
    if c == separator then [] :: splitChar separator rest
    else match splitChar separator rest with
      | [] => [[c]]
      | piece :: pieces => (c :: piece) :: pieces

end PropertyGraph.Text
