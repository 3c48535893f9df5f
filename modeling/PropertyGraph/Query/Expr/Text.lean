import PropertyGraph.Query.Expr

/-!
# The text of an expression

The text names a column that has no alias and appears in messages.  It keeps no parentheses, and
shows a `CASE` and a pattern by a word only.
-/

namespace PropertyGraph.Expr

/-- A literal: a text between single quotes, any other value as it reads on its own. -/
def literalText : Value → String
  | .text s => "'" ++ s ++ "'"
  | v => v.toText

/-- The sign of an operator before its operand. -/
def unaryText : UnaryOp → String
  | .not => "NOT "
  | .negate => "-"
  | .plus => "+"

mutual

/-- The text of an expression. -/
def text : Expr → String
  | .literal v => literalText v
  | .parameter name => "$" ++ name
  | .var name => name
  | .property target key => target.text ++ "." ++ key
  | .hasLabels target labels => target.text ++ String.join (labels.map (":" ++ ·))
  | .list items => "[" ++ joinedText items ++ "]"
  | .map entries => "\x7b" ++ entriesText entries ++ "\x7d"
  | .index target position => target.text ++ "[" ++ position.text ++ "]"
  | .slice target lower upper =>
    target.text ++ "[" ++ optionText "" lower ++ ".." ++ optionText "" upper ++ "]"
  | .unary op operand => unaryText op ++ operand.text
  | .binary op left right => left.text ++ " " ++ op.symbol ++ " " ++ right.text
  | .isNull operand => operand.text ++ " IS NULL"
  | .isNotNull operand => operand.text ++ " IS NOT NULL"
  | .call function args distinct =>
    function ++ "(" ++ (if distinct then "DISTINCT " else "") ++ joinedText args ++ ")"
  | .countAll => "count(*)"
  | .case _ _ _ => "CASE"
  | .comprehension name source filter result =>
    "[" ++ name ++ " IN " ++ source.text ++ optionText " WHERE " filter ++
      optionText " | " result ++ "]"
  | .quantified kind name source predicate =>
    kind.text ++ "(" ++ name ++ " IN " ++ source.text ++ " WHERE " ++ predicate.text ++ ")"
  | .pattern _ => "<pattern>"

/-- Texts separated by commas. -/
def joinedText : List Expr → String
  | [] => ""
  | [e] => e.text
  | e :: f :: rest => e.text ++ ", " ++ joinedText (f :: rest)

/-- Entries separated by commas. -/
def entriesText : List (String × Expr) → String
  | [] => ""
  | [(k, e)] => k ++ ": " ++ e.text
  | (k, e) :: f :: rest => k ++ ": " ++ e.text ++ ", " ++ entriesText (f :: rest)

/-- The text of an expression after some words, or nothing where there is none. -/
def optionText (words : String) : Option Expr → String
  | none => ""
  | some e => words ++ e.text

end

end PropertyGraph.Expr
