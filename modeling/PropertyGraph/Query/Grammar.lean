import PropertyGraph.Error

/-!
# Readers of tokens

A `Reader` takes tokens from the front of a list or fails with an error.  Here are its elementary
steps; the grammars of expressions and of clauses are built from them.
-/

namespace PropertyGraph

/-- Takes tokens from the front of a list. -/
abbrev Reader (α : Type) := StateT (List Token) (Except Error) α

namespace Reader

/-- Fails for a cause in the query's text. -/
def fail {α : Type} (cause : SyntaxError) : Reader α :=
  fun _ => .error (.syntaxError cause)

/-- The next token, which stays. -/
def peek : Reader (Option Token) :=
  fun tokens => .ok (tokens.head?, tokens)

/-- The token after the next one; both stay. -/
def peekSecond : Reader (Option Token) :=
  fun tokens => .ok (tokens.tail.head?, tokens)

/-- Takes the next token, if there is one. -/
def next : Reader (Option Token) :=
  fun tokens => .ok (tokens.head?, tokens.tail)

/-- Drops the next `n` tokens. -/
def drop (n : Nat) : Reader Unit :=
  fun tokens => .ok ((), tokens.drop n)

/-- The number of tokens left. -/
def remaining : Reader Nat :=
  fun tokens => .ok (tokens.length, tokens)

/-- Takes the next token if it satisfies the test, and says whether it did. -/
def eat (test : Token → Bool) : Reader Bool :=
  fun tokens => match tokens with
    | t :: rest => .ok (if test t then (true, rest) else (false, t :: rest))
    | [] => .ok (false, [])

/-- Takes the next token if it is the keyword. -/
def eatKeyword (k : Keyword) : Reader Bool := eat (·.isKeyword k)

/-- Takes the next token if it is the symbol. -/
def eatSymbol (s : Symbol) : Reader Bool := eat (·.isSymbol s)

/-- Is the next token the keyword? -/
def atKeyword (k : Keyword) : Reader Bool :=
  return (← peek).any (·.isKeyword k)

/-- Is the next token the symbol? -/
def atSymbol (s : Symbol) : Reader Bool :=
  return (← peek).any (·.isSymbol s)

/-- Takes the keyword, or fails. -/
def keyword (k : Keyword) : Reader Unit := do
  unless ← eatKeyword k do fail (.expected k.label (← peek))

/-- Takes the symbol, or fails. -/
def symbol (s : Symbol) : Reader Unit := do
  unless ← eatSymbol s do fail (.expected s.label (← peek))

/-- Takes a name; `what` says in the message what it is a name of. -/
def ident (what : String) : Reader String := do
  match ← next with
  | some (.ident name) => pure name
  | found => fail (.expected what found)

/-- Takes a name or a keyword in its place. -/
def name (what : String) : Reader String := do
  match ← next with
  | some (.ident name) => pure name
  | some (.keyword k) => pure k.text
  | found => fail (.expected what found)

/-- Items with separators between them, at most `steps` after the first. -/
def separated {α : Type} (separator : Symbol) (item : Reader α) : Nat → Reader (List α)
  | 0 => return [← item]
  | steps + 1 => do
    let first ← item
    if ← eatSymbol separator then return first :: (← separated separator item steps)
    else return [first]

/-- One or more items with commas between them. -/
def commaList {α : Type} (item : Reader α) : Reader (List α) := do
  separated .comma item (← remaining)

/-- The item after a keyword, if the keyword comes next. -/
def after? {α : Type} (k : Keyword) (item : Reader α) : Reader (Option α) := do
  if ← eatKeyword k then return some (← item) else return none

end Reader

end PropertyGraph
