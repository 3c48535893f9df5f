import PropertyGraph.Number.Written
import PropertyGraph.Text.Quoted

/-!
# Tokens

The words of a query: keywords, symbols, parameters, names and literals.  A keyword is written in
any case; where a name is expected it stands for its own lower case text, which is `Keyword.text`.
`Token.label` is the form in which an error message shows a token.
-/

namespace PropertyGraph

/-! ## Keywords -/

/-- A reserved word. -/
inductive Keyword where
  | match_ | optional | where_ | return_ | with_ | order | by_ | as | and | or | not | in_ | is
  | null | limit | skip | unwind | union | all | distinct | create | set | delete | detach
  | merge | remove | on | asc | desc | startsWith | endsWith | contains | case | when | then_
  | else_ | end_ | true_ | false_ | xor | call | yield | foreach
deriving DecidableEq, Repr

namespace Keyword

/-- The word in lower case. -/
def text : Keyword → String
  | .match_ => "match"
  | .optional => "optional"
  | .where_ => "where"
  | .return_ => "return"
  | .with_ => "with"
  | .order => "order"
  | .by_ => "by"
  | .as => "as"
  | .and => "and"
  | .or => "or"
  | .not => "not"
  | .in_ => "in"
  | .is => "is"
  | .null => "null"
  | .limit => "limit"
  | .skip => "skip"
  | .unwind => "unwind"
  | .union => "union"
  | .all => "all"
  | .distinct => "distinct"
  | .create => "create"
  | .set => "set"
  | .delete => "delete"
  | .detach => "detach"
  | .merge => "merge"
  | .remove => "remove"
  | .on => "on"
  | .asc => "asc"
  | .desc => "desc"
  | .startsWith => "starts"
  | .endsWith => "ends"
  | .contains => "contains"
  | .case => "case"
  | .when => "when"
  | .then_ => "then"
  | .else_ => "else"
  | .end_ => "end"
  | .true_ => "true"
  | .false_ => "false"
  | .xor => "xor"
  | .call => "call"
  | .yield => "yield"
  | .foreach => "foreach"

/-- The form of the word in error messages. -/
def label : Keyword → String
  | .match_ => "Match"
  | .optional => "Optional"
  | .where_ => "Where"
  | .return_ => "Return"
  | .with_ => "With"
  | .order => "Order"
  | .by_ => "By"
  | .as => "As"
  | .and => "And"
  | .or => "Or"
  | .not => "Not"
  | .in_ => "In"
  | .is => "Is"
  | .null => "Null"
  | .limit => "Limit"
  | .skip => "Skip"
  | .unwind => "Unwind"
  | .union => "Union"
  | .all => "All"
  | .distinct => "Distinct"
  | .create => "Create"
  | .set => "Set"
  | .delete => "Delete"
  | .detach => "Detach"
  | .merge => "Merge"
  | .remove => "Remove"
  | .on => "On"
  | .asc => "Asc"
  | .desc => "Desc"
  | .startsWith => "StartsWith"
  | .endsWith => "EndsWith"
  | .contains => "Contains"
  | .case => "Case"
  | .when => "When"
  | .then_ => "Then"
  | .else_ => "Else"
  | .end_ => "End"
  | .true_ => "True"
  | .false_ => "False"
  | .xor => "Xor"
  | .call => "Call"
  | .yield => "Yield"
  | .foreach => "Foreach"

/-- The keyword that a word spells, in any case. -/
def ofWord? (word : String) : Option Keyword :=
  match String.ofList (word.toList.map Char.toLower) with
  | "match" => some .match_
  | "optional" => some .optional
  | "where" => some .where_
  | "return" => some .return_
  | "with" => some .with_
  | "order" => some .order
  | "by" => some .by_
  | "as" => some .as
  | "and" => some .and
  | "or" => some .or
  | "not" => some .not
  | "in" => some .in_
  | "is" => some .is
  | "null" => some .null
  | "limit" => some .limit
  | "skip" => some .skip
  | "unwind" => some .unwind
  | "union" => some .union
  | "all" => some .all
  | "distinct" => some .distinct
  | "create" => some .create
  | "set" => some .set
  | "delete" => some .delete
  | "detach" => some .detach
  | "merge" => some .merge
  | "remove" => some .remove
  | "on" => some .on
  | "asc" | "ascending" => some .asc
  | "desc" | "descending" => some .desc
  | "starts" => some .startsWith
  | "ends" => some .endsWith
  | "contains" => some .contains
  | "case" => some .case
  | "when" => some .when
  | "then" => some .then_
  | "else" => some .else_
  | "end" => some .end_
  | "true" => some .true_
  | "false" => some .false_
  | "xor" => some .xor
  | "call" => some .call
  | "yield" => some .yield
  | "foreach" => some .foreach
  | _ => none

end Keyword

/-! ## Symbols -/

/-- A punctuation mark or operator. -/
inductive Symbol where
  | leftParen | rightParen | leftBracket | rightBracket | leftBrace | rightBrace | colon | comma
  | dot | semicolon | dash | greater | less | star | dotDot | equals | notEquals | lessEquals
  | greaterEquals | plus | plusEquals | slash | percent | caret | pipe | matches
deriving DecidableEq, Repr

/-- The form of a symbol in error messages. -/
def Symbol.label : Symbol → String
  | .leftParen => "LParen"
  | .rightParen => "RParen"
  | .leftBracket => "LBracket"
  | .rightBracket => "RBracket"
  | .leftBrace => "LBrace"
  | .rightBrace => "RBrace"
  | .colon => "Colon"
  | .comma => "Comma"
  | .dot => "Dot"
  | .semicolon => "Semicolon"
  | .dash => "Dash"
  | .greater => "GreaterThan"
  | .less => "LessThan"
  | .star => "Star"
  | .dotDot => "DotDot"
  | .equals => "Equals"
  | .notEquals => "NotEquals"
  | .lessEquals => "LessThanEquals"
  | .greaterEquals => "GreaterThanEquals"
  | .plus => "Plus"
  | .plusEquals => "PlusEquals"
  | .slash => "Slash"
  | .percent => "Percent"
  | .caret => "Caret"
  | .pipe => "Pipe"
  | .matches => "RegexMatch"

/-! ## Tokens -/

/-- One word of a query. -/
inductive Token where
  | keyword (k : Keyword)
  | symbol (s : Symbol)
  | parameter (name : String)
  | ident (name : String)
  | text (s : String)
  | int (n : Int64)
  | float (x : Double)

namespace Token

/-- The form of a token in error messages. -/
def label : Token → String
  | .keyword k => k.label
  | .symbol s => s.label
  | .parameter name => "Parameter(" ++ Text.quoted name ++ ")"
  | .ident name => "Identifier(" ++ Text.quoted name ++ ")"
  | .text s => "StringLit(" ++ Text.quoted s ++ ")"
  | .int n => "IntLit(" ++ toString n.toInt ++ ")"
  | .float x => "FloatLit(" ++ Number.compact x ++ ")"

/-- Is the token this keyword? -/
def isKeyword (k : Keyword) : Token → Bool
  | .keyword k' => k == k'
  | _ => false

/-- Is the token this symbol? -/
def isSymbol (s : Symbol) : Token → Bool
  | .symbol s' => s == s'
  | _ => false

/-- The token of a bare word: a keyword where it spells one, else a name. -/
def ofWord (word : String) : Token :=
  match Keyword.ofWord? word with
  | some k => .keyword k
  | none => .ident word

end Token

end PropertyGraph
