import PropertyGraph.Error
import PropertyGraph.Number.Reader
import PropertyGraph.Text.Basic

/-!
# From text to tokens

`Token.scan` cuts a query into tokens.  Blanks and comments separate tokens and are dropped.  Each
step of `lexeme` takes at least one character, so the length of the text bounds their number.
-/

namespace PropertyGraph.Token

/-! ## Character classes -/

/-- May the character start a bare word? -/
def startsWord (c : Char) : Bool := c.isAlpha || c == '_'

/-- May the character stand in a bare word? -/
def continuesWord (c : Char) : Bool := c.isAlphanum || c == '_'

/-! ## Comments -/

/-- What follows the end of a block comment. -/
def afterBlock? : List Char → Option (List Char)
  | '*' :: '/' :: rest => some rest
  | _ :: rest => afterBlock? rest
  | [] => none

/-! ## Texts between quotes -/

/-- The value of a hexadecimal digit. -/
def hexDigit? (c : Char) : Option Nat :=
  if c.isDigit then some (c.toNat - 48)
  else if 'a' ≤ c && c ≤ 'f' then some (c.toNat - 87)
  else if 'A' ≤ c && c ≤ 'F' then some (c.toNat - 55)
  else none

/-- The number of hexadecimal digits, of which there must be one. -/
def hexNumber? (cs : List Char) : Option Nat :=
  if cs.isEmpty then none
  else cs.foldlM (fun n c => (hexDigit? c).map (16 * n + ·)) 0

/-- The character with a code point, unless the code point is no character. -/
def ofCodePoint? (n : Nat) : Option Char :=
  if h : n.isValidChar then some (Char.ofNatAux n h) else none

/-- The character that the four characters after `\u` stand for; a plus sign may come first. -/
def escaped? : List Char → Option Char
  | '+' :: cs => (hexNumber? cs).bind ofCodePoint?
  | cs => (hexNumber? cs).bind ofCodePoint?

/-- The character that stands after a backslash and is not the start of a code point. -/
def unescape (c : Char) : Char :=
  if c == 'n' then '\n' else if c == 't' then '\t' else if c == 'r' then '\r' else c

/-- The characters up to the closing quote, and what follows it.  Four characters after `\u` are
always a code point; with fewer left in the text the `u` stands for itself. -/
def textBody (quote : Char) : List Char → Except SyntaxError (List Char × List Char)
  | [] => .error .unterminatedText
  | '\\' :: 'u' :: a :: b :: c :: d :: rest =>
    match escaped? [a, b, c, d] with
    | none => .error (.badCodePoint (String.ofList [a, b, c, d]))
    | some x => (textBody quote rest).map fun (body, rest) => (x :: body, rest)
  | '\\' :: c :: rest =>
    (textBody quote rest).map fun (body, rest) => (unescape c :: body, rest)
  | c :: rest =>
    if c == quote then .ok ([], rest)
    else (textBody quote rest).map fun (body, rest) => (c :: body, rest)

/-! ## Numbers -/

/-- The number that starts a text of digits: with a decimal point only if a digit follows it. -/
def number (cs : List Char) : Except SyntaxError (Token × List Char) :=
  let whole := cs.takeWhile Char.isDigit
  match cs.dropWhile Char.isDigit with
  | '.' :: d :: rest =>
    if d.isDigit then
      let fraction := (d :: rest).takeWhile Char.isDigit
      .ok (.float (Number.ofDecimal false (whole ++ fraction) (-(fraction.length : Int))),
        (d :: rest).dropWhile Char.isDigit)
    else integer whole ('.' :: d :: rest)
  | rest => integer whole rest
where
  /-- The integer of some digits. -/
  integer (digits rest : List Char) : Except SyntaxError (Token × List Char) :=
    (Number.int64? (Number.ofDigits digits)).elim (.error (.badInteger (String.ofList digits)))
      fun n => .ok (.int n, rest)

/-! ## Symbols -/

/-- The symbol at the start of a text, the longest one first. -/
def symbol? : List Char → Option (Symbol × List Char)
  | '+' :: '=' :: rest => some (.plusEquals, rest)
  | '=' :: '~' :: rest => some (.matches, rest)
  | '!' :: '=' :: rest => some (.notEquals, rest)
  | '<' :: '>' :: rest => some (.notEquals, rest)
  | '<' :: '=' :: rest => some (.lessEquals, rest)
  | '>' :: '=' :: rest => some (.greaterEquals, rest)
  | '.' :: '.' :: rest => some (.dotDot, rest)
  | '(' :: rest => some (.leftParen, rest)
  | ')' :: rest => some (.rightParen, rest)
  | '[' :: rest => some (.leftBracket, rest)
  | ']' :: rest => some (.rightBracket, rest)
  | '\x7b' :: rest => some (.leftBrace, rest)
  | '\x7d' :: rest => some (.rightBrace, rest)
  | ':' :: rest => some (.colon, rest)
  | ',' :: rest => some (.comma, rest)
  | ';' :: rest => some (.semicolon, rest)
  | '*' :: rest => some (.star, rest)
  | '+' :: rest => some (.plus, rest)
  | '%' :: rest => some (.percent, rest)
  | '^' :: rest => some (.caret, rest)
  | '/' :: rest => some (.slash, rest)
  | '|' :: rest => some (.pipe, rest)
  | '=' :: rest => some (.equals, rest)
  | '-' :: rest => some (.dash, rest)
  | '<' :: rest => some (.less, rest)
  | '>' :: rest => some (.greater, rest)
  | '.' :: rest => some (.dot, rest)
  | _ => none

/-! ## Tokens -/

/-- A word: a parameter after its sign, a name between backquotes, or a bare word. -/
def word? (total : Nat) (c : Char) (rest : List Char) :
    Option (Except SyntaxError (Token × List Char)) :=
  if c == '$' then
    let name := rest.takeWhile continuesWord
    if name.isEmpty then some (.error (.namelessParameter (total - rest.length)))
    else some (.ok (.parameter (String.ofList name), rest.dropWhile continuesWord))
  else if c == '\x60' then
    match rest.dropWhile (· != '\x60') with
    | [] => some (.error .unterminatedName)
    | _ :: after => some (.ok (.ident (String.ofList (rest.takeWhile (· != '\x60'))), after))
  else if startsWord c then
    some (.ok (ofWord (String.ofList (c :: rest.takeWhile continuesWord)),
      rest.dropWhile continuesWord))
  else none

/-- A literal: a text between quotes or a number, which may start with its point. -/
def literal? (c : Char) (rest : List Char) : Option (Except SyntaxError (Token × List Char)) :=
  if c == '\x22' || c == '\x27' then
    some ((textBody c rest).map fun (body, rest) => (.text (String.ofList body), rest))
  else if c.isDigit then some (number (c :: rest))
  else match c, rest with
    | '.', d :: _ => if d.isDigit then some (number (c :: rest)) else none
    | _, _ => none

/-- What stands at the start of a text: a token, or nothing where a blank or a comment is passed.
`total` is the length of the whole text, from which the position in a message is computed. -/
def lexeme (total : Nat) (c : Char) (rest : List Char) :
    Except SyntaxError (Option Token × List Char) :=
  if Text.isAsciiBlank c then .ok (none, rest)
  else match c, rest with
    | '/', '/' :: rest => .ok (none, rest.dropWhile (· != '\n'))
    | '/', '*' :: rest =>
      match afterBlock? rest with
      | some rest => .ok (none, rest)
      | none => .error .unterminatedComment
    | c, rest =>
      match ((literal? c rest).or (word? total c rest)), symbol? (c :: rest) with
      | some result, _ => result.map fun (t, rest) => (some t, rest)
      | none, some (s, rest) => .ok (some (.symbol s), rest)
      | none, none => .error (.unexpectedCharacter c (total - (rest.length + 1)))

/-- The tokens of the rest of a text, which takes at most `steps` lexemes. -/
def scanFrom (total : Nat) : Nat → List Char → Except SyntaxError (List Token)
  | _, [] => .ok []
  | 0, _ => .ok []
  | steps + 1, c :: rest => do
    let (token?, rest) ← lexeme total c rest
    let tokens ← scanFrom total steps rest
    pure (token?.toList ++ tokens)

/-- The tokens of a query text. -/
def scan (text : String) : Except Error (List Token) :=
  let cs := text.toList
  (scanFrom cs.length cs.length cs).mapError .syntaxError

end PropertyGraph.Token
