import PropertyGraph.Query.Expr
import PropertyGraph.Text.Basic
import PropertyGraph.Value.Convert

/-!
# Functions

The functions that an expression may call, by name in any case.  Each takes a number of arguments
within bounds, except `coalesce`, which takes any.  Aggregates are no functions in this sense: they
need a group of rows.
-/

namespace PropertyGraph

/-- A built-in function. -/
inductive Function where
  | toText | toInteger | toFloat | toBoolean
  | toUpper | toLower | trim | trimStart | trimEnd | replace | split | substring | left | right
  | reverse
  | abs | ceil | floor | round | sqrt | sign | range
  | size | length | head | last | tail | coalesce | keys | properties | exists_
  | id | labels | type | startNode | endNode | nodes | relationships
  | date | duration
deriving DecidableEq, Repr

namespace Function

/-- The function of a name in lower case. -/
def ofLower? : String → Option Function
  | "tostring" => some .toText
  | "tointeger" | "toint" => some .toInteger
  | "tofloat" => some .toFloat
  | "toboolean" => some .toBoolean
  | "toupper" => some .toUpper
  | "tolower" => some .toLower
  | "trim" => some .trim
  | "ltrim" => some .trimStart
  | "rtrim" => some .trimEnd
  | "replace" => some .replace
  | "split" => some .split
  | "substring" => some .substring
  | "left" => some .left
  | "right" => some .right
  | "reverse" => some .reverse
  | "abs" => some .abs
  | "ceil" => some .ceil
  | "floor" => some .floor
  | "round" => some .round
  | "sqrt" => some .sqrt
  | "sign" => some .sign
  | "range" => some .range
  | "size" => some .size
  | "length" => some .length
  | "head" => some .head
  | "last" => some .last
  | "tail" => some .tail
  | "coalesce" => some .coalesce
  | "keys" => some .keys
  | "properties" => some .properties
  | "exists" => some .exists_
  | "id" => some .id
  | "labels" => some .labels
  | "type" => some .type
  | "startnode" => some .startNode
  | "endnode" => some .endNode
  | "nodes" => some .nodes
  | "relationships" | "rels" => some .relationships
  | "date" => some .date
  | "duration" => some .duration
  | _ => none

/-- The least and the greatest number of arguments; none where any number will do. -/
def arity? : Function → Option (Nat × Nat)
  | .coalesce => none
  | .replace => some (3, 3)
  | .split | .left | .right => some (2, 2)
  | .substring | .range => some (2, 3)
  | .date => some (0, 1)
  | _ => some (1, 1)

/-- Bounds of the number of arguments in words. -/
def arityText (least most : Nat) : String :=
  if least = most then toString least else toString least ++ " to " ++ toString most

/-! ## Arguments -/

/-- An integer, or a double without a fraction. -/
def integer (wanted : String) : Value → Except Error Int
  | .int n => .ok n.toInt
  | .float x =>
    if (Number.parts x).isIntegral then .ok x.toFloat.toInt64.toInt
    else .error (.mismatch wanted (.float x))
  | v => .error (.mismatch wanted v)

/-- A function of texts; null stays null. -/
def onText (f : List Char → List Char) : Value → Except Error Value
  | .null => .ok .null
  | .text s => .ok (.text (String.ofList (f s.toList)))
  | v => .error (.mismatch "STRING" v)

/-- A function of doubles; null stays null. -/
def onNumber (f : Double → Double) (v : Value) : Except Error Value :=
  match v, v.toDouble? with
  | .null, _ => .ok .null
  | _, some x => .ok (.float (f x))
  | v, none => .error (.mismatch "a number" v)

/-! ## Texts -/

/-- The part of a text from a start on, with a length if one is given. -/
def substringOf (s start : Value) (length? : Option Value) : Except Error Value :=
  match s with
  | .null => .ok .null
  | .text s => do
    let start ← integer "INTEGER start" start
    if start < 0 then throw (.invalidArgument .negativeSubstringStart)
    let rest := s.toList.drop start.toNat
    match length? with
    | none => return .text (String.ofList rest)
    | some v =>
      let length ← integer "INTEGER length" v
      if length < 0 then throw (.invalidArgument .negativeSubstringLength)
      return .text (String.ofList (rest.take length.toNat))
  | v => .error (.mismatch "STRING" v)

/-- So many characters of a text, from its start or its end; a negative number counts as zero. -/
def sideOf (fromStart : Bool) (s length : Value) : Except Error Value :=
  match s with
  | .null => .ok .null
  | .text s => do
    let n := (← integer "INTEGER length" length).toNat
    let cs := s.toList
    return .text (String.ofList (if fromStart then cs.take n else cs.drop (cs.length - n)))
  | v => .error (.mismatch "STRING" v)

/-- Replaces one text by another within a third. -/
def replaceIn (s old new : Value) : Except Error Value :=
  match s, old, new with
  | .null, _, _ | _, .null, _ | _, _, .null => .ok .null
  | .text s, .text old, .text new =>
    .ok (.text (String.ofList (Text.replaceAll old.toList new.toList s.toList)))
  | v, _, _ => .error (.mismatch "STRING" v)

/-- The pieces of a text between separators. -/
def splitText (s separator : Value) : Except Error Value :=
  match s, separator with
  | .null, _ | _, .null => .ok .null
  | .text s, .text separator =>
    .ok (.list ((Text.splitAt separator.toList s.toList).map (.text <| String.ofList ·)))
  | v, _ => .error (.mismatch "STRING" v)

/-! ## Numbers -/

/-- The sign of a number as an integer; zero for what is no number. -/
def signOf : Value → Except Error Value
  | .null => .ok .null
  | .int n => .ok (.int (if n < 0 then -1 else if 0 < n then 1 else 0))
  | .float x => .ok (.int (if x < 0.0 then -1 else if 0.0 < x then 1 else 0))
  | v => .error (.mismatch "a number" v)

/-- A range in these steps has not passed its stop at `n`. -/
abbrev BeforeStop (stop step n : Int) : Prop :=
  0 < step ∧ n ≤ stop ∨ step < 0 ∧ stop ≤ n

/-- The terms so far and those from `n` on.  The range ends where it has passed its stop, and where
the next term does not fit 64 bits. -/
def rangeLoop (stop step n : Int) (terms : Array Int) : Array Int :=
  if BeforeStop stop step n then
    if Number.fitsInt64 (n + step) then rangeLoop stop step (n + step) (terms.push n)
    else terms.push n
  else terms
-- Each round comes nearer to the stop; the distance is taken in the direction of the step.
termination_by ((if 0 < step then stop - n else n - stop) + 1).toNat
decreasing_by split <;> omega

/-- The terms `start`, `start + step`, and so on, as far as they do not pass the stop. -/
def rangeTerms (start stop step : Int) : List Int :=
  (rangeLoop stop step start #[]).toList

/-- The list of a range of integers. -/
def rangeOf (start stop : Value) (step? : Option Value) : Except Error Value := do
  let start ← integer "INTEGER" start
  let stop ← integer "INTEGER" stop
  let step ← match step? with
    | some v => integer "INTEGER" v
    | none => pure 1
  if step = 0 then throw (.invalidArgument .zeroRangeStep)
  return .list ((rangeTerms start stop step).map (.int <| Int64.ofInt ·))

/-! ## Dates and durations -/

/-- An integer of a map; absent and null count as nothing. -/
def mapInteger? (entries : Properties) (name : String) : Except Error (Option Int) :=
  match Entries.get? name entries with
  | none | some .null => .ok none
  | some v => some <$> integer "INTEGER" v

/-- An integer of a map, zero if it has none. -/
def mapInteger (entries : Properties) (name : String) : Except Error Int :=
  return (← mapInteger? entries name).getD 0

/-- The date of a map of its parts; month and day default to the first. -/
def dateOfMap (entries : Properties) : Except Error Value := do
  let some year ← mapInteger? entries "year" | throw (.invalidArgument .dateWithoutYear)
  let month := (← mapInteger? entries "month").getD 1
  let day := (← mapInteger? entries "day").getD 1
  match Date.ofParts? year month.toNat day.toNat with
  | some d => return .date d
  | none => throw (.invalidArgument (.badDateParts (.ofInt year) (.ofInt month) (.ofInt day)))

/-- The duration of a map of its parts. -/
def durationOfMap (entries : Properties) : Except Error Value := do
  let years ← mapInteger entries "years"
  let months ← mapInteger entries "months"
  let weeks ← mapInteger entries "weeks"
  let days ← mapInteger entries "days"
  let hours ← mapInteger entries "hours"
  let minutes ← mapInteger entries "minutes"
  let seconds ← mapInteger entries "seconds"
  return .duration (.of (years * 12 + months) (weeks * 7 + days)
    (hours * 3600 + minutes * 60 + seconds) 0)

/-- A date from its text, its parts, or itself. -/
def dateOf : Value → Except Error Value
  | .null => .ok .null
  | .date d => .ok (.date d)
  | .text s =>
    match Date.read? s with
    | some d => .ok (.date d)
    | none => .error (.invalidArgument (.badDateText s))
  | .map entries => dateOfMap entries
  | v => .error (.mismatch "STRING or MAP" v)

/-- A duration from its text or its parts. -/
def durationOf : Value → Except Error Value
  | .null => .ok .null
  | .text s =>
    match Duration.read? s with
    | some d => .ok (.duration d)
    | none => .error (.invalidArgument (.badDuration s))
  | .map entries => durationOfMap entries
  | v => .error (.mismatch "STRING or MAP" v)

/-! ## Containers and elements -/

/-- A list of names as a value. -/
def nameList (names : List String) : Value :=
  .list (names.map .text)

/-- A count as a value. -/
def count (n : Nat) : Value :=
  .int (.ofNat n)

/-- The vertex of an id as a value; null if there is none to see. -/
def vertexValue (vertex? : String → Option Vertex) (id : String) : Value :=
  ((vertex? id).map Value.node).getD .null

/-! ## Calls -/

/-- What a function may read besides its arguments: vertices by id, and the day of today. -/
structure World where
  vertex? : String → Option Vertex
  today : Date

/-- A function of one argument other than null. -/
def applyOne (world : World) : Function → Value → Except Error Value
  | .toText, v => v.toTextValue
  | .toInteger, v => v.toInteger
  | .toFloat, v => v.toFloat
  | .toBoolean, v => v.toBoolean
  | .toUpper, v => onText (fun cs => (Text.upper (String.ofList cs)).toList) v
  | .toLower, v => onText (fun cs => (Text.lower (String.ofList cs)).toList) v
  | .trim, v => onText Text.trimChars v
  | .trimStart, v => onText (List.dropWhile Text.isBlank) v
  | .trimEnd, v => onText (fun cs => (cs.reverse.dropWhile Text.isBlank).reverse) v
  | .reverse, .text s => .ok (.text (String.ofList s.toList.reverse))
  | .reverse, .list items => .ok (.list items.reverse)
  | .reverse, v => .error (.mismatch "STRING or LIST" v)
  | .abs, .int n => Value.ofInt n.toInt.natAbs
  | .abs, .float x => .ok (.float x.abs)
  | .abs, v => .error (.mismatch "a number" v)
  | .ceil, v => onNumber Double.ceil v
  | .floor, v => onNumber Double.floor v
  | .round, v => onNumber Double.round v
  | .sqrt, v => onNumber Double.sqrt v
  | .sign, v => signOf v
  | .size, .list items => .ok (count items.length)
  | .size, .text s => .ok (count s.toList.length)
  | .size, .map entries => .ok (count entries.length)
  | .size, v => .error (.mismatch "LIST or STRING" v)
  | .length, .path p => .ok (count p.length)
  | .length, .list items => .ok (count items.length)
  | .length, .text s => .ok (count s.toList.length)
  | .length, v => .error (.mismatch "PATH" v)
  | .head, .list items => .ok (items.head?.getD .null)
  | .last, .list items => .ok (items.getLast?.getD .null)
  | .tail, .list items => .ok (.list items.tail)
  | .head, v | .last, v | .tail, v => .error (.mismatch "LIST" v)
  | .keys, .node v => .ok (nameList (Entries.names v.properties))
  | .keys, .relationship e => .ok (nameList (Entries.names e.properties))
  | .keys, .map entries => .ok (nameList (Entries.names entries))
  | .properties, .node v => .ok (.map v.properties)
  | .properties, .relationship e => .ok (.map e.properties)
  | .properties, .map entries => .ok (.map entries)
  | .keys, v | .properties, v => .error (.mismatch "NODE, RELATIONSHIP or MAP" v)
  | .id, .node v => .ok (.text v.id)
  | .id, .relationship e => .ok (.text e.id)
  | .id, v => .error (.mismatch "NODE or RELATIONSHIP" v)
  | .labels, .node v => .ok (nameList v.labels)
  | .labels, v => .error (.mismatch "NODE" v)
  | .type, .relationship e => .ok (.text e.type)
  | .startNode, .relationship e => .ok (vertexValue world.vertex? e.source)
  | .endNode, .relationship e => .ok (vertexValue world.vertex? e.target)
  | .type, v | .startNode, v | .endNode, v => .error (.mismatch "RELATIONSHIP" v)
  | .nodes, .path p => .ok (.list (p.vertices.map .node))
  | .relationships, .path p => .ok (.list (p.edges.map .relationship))
  | .nodes, v | .relationships, v => .error (.mismatch "PATH" v)
  | .date, v => dateOf v
  | .duration, v => durationOf v
  | _, v => .ok v

/-- A function of arguments whose number is right. -/
def apply (world : World) (f : Function) (args : List Value) : Except Error Value :=
  match f, args with
  | .coalesce, args => .ok ((args.find? (!·.isNull)).getD .null)
  | .exists_, [v] => .ok (.bool !v.isNull)
  | .date, [] => .ok (.date world.today)
  | .replace, [s, old, new] => replaceIn s old new
  | .split, [s, separator] => splitText s separator
  | .substring, s :: start :: rest => substringOf s start rest.head?
  | .left, [s, n] => sideOf true s n
  | .right, [s, n] => sideOf false s n
  | .range, start :: stop :: rest => rangeOf start stop rest.head?
  | _, [.null] => .ok .null
  | f, [v] => applyOne world f v
  | _, _ => .ok .null

/-- Calls a function by its name. -/
def call (world : World) (name : String) (args : List Value) : Except Error Value :=
  match ofLower? (Text.lower name) with
  | none =>
    if isAggregateName name then .error (.invalidArgument (.misplacedAggregate name))
    else .error (.unknownFunction name)
  | some f =>
    match f.arity? with
    | none => f.apply world args
    | some (least, most) =>
      if least ≤ args.length ∧ args.length ≤ most then f.apply world args
      else .error (.invalidArgument (.functionArity name (arityText least most) args.length))

end Function

end PropertyGraph
