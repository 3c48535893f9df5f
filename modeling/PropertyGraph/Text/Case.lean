import PropertyGraph.Text.CaseTable

/-!
# Upper and lower case

Full Unicode case mapping: one character may become several, and a capital sigma at the end of a
word becomes the final form.  Single characters map by `upperChar` and `lowerChar`, whole texts by
`upper` and `lower`.
-/

namespace PropertyGraph.Text

/-! ## Table look-up -/

/-- Membership in a table of closed ranges. -/
def inRanges (ranges : Array (Nat × Nat)) (n : Nat) : Bool :=
  ranges.any fun (first, last) => first ≤ n && n ≤ last

/-- The character that a run table assigns to `n`. -/
def shifted? (runs : Array (Nat × Nat × Nat × Int)) (n : Nat) : Option Char :=
  runs.findSome? fun (first, last, step, shift) =>
    if first ≤ n && n ≤ last && (n - first) % step == 0 then
      some (Char.ofNat ((n : Int) + shift).toNat)
    else none

/-- The characters that an expansion table assigns to `n`. -/
def expanded? (table : Array (Nat × List Nat)) (n : Nat) : Option (List Char) :=
  table.findSome? fun (c, cs) => if c == n then some (cs.map Char.ofNat) else none

/-- A character mapping from its two tables; a character in neither stays as it is. -/
def mapChar (table : Array (Nat × List Nat)) (runs : Array (Nat × Nat × Nat × Int)) (c : Char) :
    List Char :=
  match expanded? table c.toNat with
  | some cs => cs
  | none => [(shifted? runs c.toNat).getD c]

/-! ## Characters -/

/-- Upper case of one character, which may be several. -/
def upperChar (c : Char) : List Char :=
  if c.toNat < 128 then [c.toUpper] else mapChar upperExpansions upperRuns c

/-- Lower case of one character on its own, which may be several. -/
def lowerChar (c : Char) : List Char :=
  if c.toNat < 128 then [c.toLower] else mapChar lowerExpansions lowerRuns c

/-! ## Texts -/

/-- Upper case of a text, character by character. -/
def upper (s : String) : String :=
  String.ofList (s.toList.flatMap upperChar)

/-- Is the first character that the sigma rule does not skip a cased one? -/
def startsCased (cs : List Char) : Bool :=
  match cs.dropWhile fun c => inRanges caseIgnorableRanges c.toNat with
  | [] => false
  | c :: _ => inRanges casedRanges c.toNat

/-- Lower case of the rest of a text; `before` holds what precedes it, nearest first. -/
def lowerAfter (before : List Char) : List Char → List Char
  | [] => []
  | c :: rest =>
    let mapped :=
      if c == '\u03a3' then
        [if startsCased before && !startsCased rest then '\u03c2' else '\u03c3']
      else lowerChar c
    mapped ++ lowerAfter (c :: before) rest

/-- Lower case of a text; a capital sigma that ends a word takes the final form. -/
def lower (s : String) : String :=
  String.ofList (lowerAfter [] s.toList)

/-- The key under which texts that differ only in case are neighbours. -/
def foldKey (s : String) : List Char :=
  s.toList.flatMap lowerChar

end PropertyGraph.Text
