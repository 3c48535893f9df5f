import PropertyGraph.Value.Basic

/-!
# The text of a value

How a value reads in a result, in a message and in the name of a column.  Inside a list or a map a
text stands between single quotes; on its own it stands as it is.
-/

namespace PropertyGraph

/-- A walk as its vertex ids joined by arrows; an arrow that enters a hop's vertex backwards is one
whose edge starts there. -/
def Path.text (p : Path) : String :=
  let hop := fun (e, v) =>
    if e.source == v.id then "<-[:" ++ e.type ++ "]-(" ++ v.id ++ ")"
    else "-[:" ++ e.type ++ "]->(" ++ v.id ++ ")"
  "<(" ++ p.start.id ++ ")" ++ String.join (p.hops.map hop) ++ ">"

/-- A vertex as its labels and id. -/
def Vertex.text (v : Vertex) : String :=
  "(" ++ String.join (v.labels.map (":" ++ ·)) ++ " \x7bid: " ++ v.id ++ "\x7d)"

/-- An edge as its type and id. -/
def Edge.text (e : Edge) : String :=
  "[:" ++ e.type ++ " \x7bid: " ++ e.id ++ "\x7d]"

mutual

/-- The text of a value; `inner` says whether the value stands in a list or a map. -/
def Value.textWithin (inner : Bool) : Value → String
  | .null => "null"
  | .bool b => if b then "true" else "false"
  | .int n => toString n.toInt
  | .float x => Number.oneDecimal x
  | .text s => if inner then "'" ++ s ++ "'" else s
  | .list items => "[" ++ itemsText items ++ "]"
  | .map entries => "\x7b" ++ entriesText entries ++ "\x7d"
  | .node v => v.text
  | .relationship e => e.text
  | .path p => p.text
  | .duration d => d.text
  | .date d => d.text

/-- The texts of list items, separated by commas. -/
def itemsText : List Value → String
  | [] => ""
  | [v] => v.textWithin true
  | v :: w :: rest => v.textWithin true ++ ", " ++ itemsText (w :: rest)

/-- The texts of map entries, separated by commas. -/
def entriesText : List (String × Value) → String
  | [] => ""
  | [(k, v)] => k ++ ": " ++ v.textWithin true
  | (k, v) :: e :: rest => k ++ ": " ++ v.textWithin true ++ ", " ++ entriesText (e :: rest)

end

/-- The text of a value that stands on its own. -/
def Value.toText (v : Value) : String :=
  v.textWithin false

end PropertyGraph
