import PropertyGraph.Query.Token

/-!
# Errors

Every failure of the engine, by its cause.  The causes fall into syntax errors, which a query's
text alone decides, argument errors, which the values of a run decide, and errors of the store;
`Error.message` is the wording of each and `Error.kind` the coarse class that callers branch on.
-/

namespace PropertyGraph

/-! ## Causes in the text of a query -/

/-- What is wrong with the text of a query. -/
inductive SyntaxError where
  -- words
  | unterminatedComment
  | unexpectedCharacter (c : Char) (position : Nat)
  | unterminatedText
  | badCodePoint (digits : String)
  | badInteger (digits : String)
  | namelessParameter (position : Nat)
  | unterminatedName
  -- grammar
  | expected (what : String) (found : Option Token)
  | notMatchAfterOptional
  | strayWhere
  | notClause (found : Token)
  | emptyQuery
  | twoWayRelationship
  | badPathLength (n : Int64)
  | notExpression (found : Option Token)
  | caseWithoutBranch
  | badMergeAction (found : Option Token)
  | setLabelsOf (target : String)
  | removeLabelsOf (target : String)
  | setWithoutOperator (name : String)
  | badSetTarget (target : String)
  | badRemoveTarget (target : String)
  -- clauses
  | clauseAfterUnion
  | mixedUnions
  | unionWithoutReturn
  | unionColumnsDiffer
  | undefinedVariable (name : String)
  | clauseAfterReturn (clause : String)
  | unexpectedUnion
  | unfinishedQuery (clause : String)
  | starWithoutVariables
  | duplicateColumn (name : String)
  -- patterns
  | relationshipUsedTwice (name : String)
  | boundToNode (name : String)
  | boundToRelationship (name : String)
  | pathAlreadyBound (name : String)
  | badRange (min max : Nat)
  | untypedCreation
  | variableLengthCreation
  | undirectedCreation
  | alreadyDeclared (name : String)
  -- aggregates
  | nestedAggregate (expression : String)
  | aggregateOverIteration (expression : String)
  | aggregateInOrderOnly (expression : String)
  | aggregateInCut

/-- The token that was found, or the end of the query. -/
def SyntaxError.foundText : Option Token → String
  | some t => ", found " ++ t.label
  | none => ", but reached end of query"

/-- What is wrong with a query, in words. -/
def SyntaxError.message : SyntaxError → String
  | .unterminatedComment => "unterminated block comment"
  | .unexpectedCharacter c position =>
    "unexpected character '" ++ c.toString ++ "' at position " ++ toString position
  | .unterminatedText => "unterminated string literal"
  | .badCodePoint digits => "invalid unicode escape \\u" ++ digits
  | .badInteger digits => "invalid integer: " ++ digits
  | .namelessParameter position =>
    "expected parameter name after '$' at position " ++ toString position
  | .unterminatedName => "unterminated quoted identifier"
  | .expected what found => "expected " ++ what ++ foundText found
  | .notMatchAfterOptional => "expected MATCH after OPTIONAL"
  | .strayWhere => "WHERE must follow MATCH, OPTIONAL MATCH or WITH"
  | .notClause found => "unexpected token at start of clause: " ++ found.label
  | .emptyQuery => "empty query"
  | .twoWayRelationship => "relationship cannot point both ways"
  | .badPathLength n => "invalid path length " ++ toString n.toInt
  | .notExpression (some t) => "unexpected token in expression: " ++ t.label
  | .notExpression none => "unexpected end of query in expression"
  | .caseWithoutBranch => "CASE expression requires at least one WHEN clause"
  | .badMergeAction (some t) => "expected CREATE or MATCH after ON, found Some(" ++ t.label ++ ")"
  | .badMergeAction none => "expected CREATE or MATCH after ON, found None"
  | .setLabelsOf target => "cannot set labels on " ++ target
  | .removeLabelsOf target => "cannot remove labels from " ++ target
  | .setWithoutOperator name => "expected '=' or '+=' after " ++ name ++ " in SET"
  | .badSetTarget target => "invalid SET target: " ++ target
  | .badRemoveTarget target => "invalid REMOVE target: " ++ target
  | .clauseAfterUnion => "unexpected clause after UNION query"
  | .mixedUnions => "cannot mix UNION and UNION ALL"
  | .unionWithoutReturn => "each UNION branch must end with RETURN"
  | .unionColumnsDiffer => "all sub queries in a UNION must have the same return column names"
  | .undefinedVariable name => "variable `" ++ name ++ "` not defined"
  | .clauseAfterReturn clause => clause ++ " cannot follow RETURN"
  | .unexpectedUnion => "unexpected UNION"
  | .unfinishedQuery clause =>
    "query cannot conclude with " ++ clause ++ " (must be RETURN or an update clause)"
  | .starWithoutVariables => "RETURN * is not allowed when there are no variables in scope"
  | .duplicateColumn name => "multiple result columns with the same name `" ++ name ++ "`"
  | .relationshipUsedTwice name =>
    "relationship variable `" ++ name ++ "` cannot be used twice in one pattern"
  | .boundToNode name => "variable `" ++ name ++ "` is already bound to a node"
  | .boundToRelationship name =>
    "variable `" ++ name ++ "` is already bound to a relationship"
  | .pathAlreadyBound name => "path variable `" ++ name ++ "` is already bound"
  | .badRange min max => "invalid relationship range *" ++ toString min ++ ".." ++ toString max
  | .untypedCreation => "a relationship must have exactly one type to be created"
  | .variableLengthCreation => "variable length relationships cannot be created"
  | .undirectedCreation => "only directed relationships can be created"
  | .alreadyDeclared name => "variable `" ++ name ++ "` already declared"
  | .nestedAggregate expression => "aggregate functions cannot be nested in " ++ expression
  | .aggregateOverIteration expression =>
    "aggregate functions cannot reference the iteration variable in " ++ expression
  | .aggregateInOrderOnly expression =>
    "ORDER BY " ++ expression ++ " aggregates but the projection does not"
  | .aggregateInCut => "SKIP and LIMIT cannot aggregate"

/-! ## Causes in the values of a run -/

/-- What is wrong with a value that an operation was given. -/
inductive ArgumentError where
  | integerOverflow
  | integerOverflowInSum
  | divisionByZero (operator : String)
  | dateOutOfRange
  | tooFewScopes (wanted present : Nat)
  | nullEndpoint
  | unconnectedPath (name : String)
  | nullMergeProperty (element : String)
  | aggregateArity (function : String) (given : Nat)
  | functionArity (function : String) (wanted : String) (given : Nat)
  | misplacedAggregate (function : String)
  | misplacedCount
  | negativeSubstringStart
  | negativeSubstringLength
  | zeroRangeStep
  | badDateText (text : String)
  | badDateParts (year month day : Int64)
  | dateWithoutYear
  | badDuration (text : String)
  | badConfig

/-- What is wrong with a value, in words. -/
def ArgumentError.message : ArgumentError → String
  | .integerOverflow => "integer overflow"
  | .integerOverflowInSum => "integer overflow in sum()"
  | .divisionByZero operator => operator ++ " by zero"
  | .dateOutOfRange => "date out of range"
  | .tooFewScopes wanted present =>
    "cannot pop " ++ toString wanted ++ " scopes, only " ++ toString present ++ " pushed"
  | .nullEndpoint => "cannot create a relationship to a null node"
  | .unconnectedPath name => "cannot build path `" ++ name ++ "`"
  | .nullMergeProperty element => "cannot merge using null property value for " ++ element
  | .aggregateArity function given =>
    function ++ "() expects 1 argument, got " ++ toString given
  | .functionArity function wanted given =>
    function ++ "() expects " ++ wanted ++ " argument(s), got " ++ toString given
  | .misplacedAggregate function =>
    "aggregate function '" ++ function ++ "' is only allowed in RETURN or WITH"
  | .misplacedCount => "count(*) is only allowed in RETURN or WITH"
  | .negativeSubstringStart => "substring() start must not be negative"
  | .negativeSubstringLength => "substring() length must not be negative"
  | .zeroRangeStep => "range() step must not be zero"
  | .badDateText text => "invalid date '" ++ text ++ "'"
  | .badDateParts year month day =>
    "invalid date " ++ toString year.toInt ++ "-" ++ toString month.toInt ++ "-" ++
      toString day.toInt
  | .dateWithoutYear => "date() map requires 'year'"
  | .badDuration text => "invalid duration '" ++ text ++ "'"
  | .badConfig => "invalid engine config"

/-! ## Causes in the store -/

/-- Why the store refuses an operation. -/
inductive StoreError where
  | notFound (id : String)
  | duplicate (id : String)
  | labelOnRelationship
deriving DecidableEq

/-- Why the store refuses, in words. -/
def StoreError.message : StoreError → String
  | .notFound id => "element not found: " ++ id
  | .duplicate id => "element already exists: " ++ id
  | .labelOnRelationship => "invalid property 'label': relationships carry a type, not labels"

/-! ## All errors -/

/-- A failure of the engine. -/
inductive Error where
  | syntaxError (cause : SyntaxError)
  | unboundVariable (name : String)
  | typeMismatch (wanted actual : String)
  | notImplemented (what : String)
  | stillConnected (id : String)
  | missingParameter (name : String)
  | unknownFunction (name : String)
  | invalidArgument (cause : ArgumentError)
  | store (cause : StoreError)

/-- The coarse class of an error. -/
inductive ErrorKind where
  | syntaxError | unboundVariable | typeMismatch | notImplemented | constraintViolation | argument
  | store
deriving DecidableEq, Repr

namespace Error

/-- The wording of an error. -/
def message : Error → String
  | .syntaxError cause => "syntax error: " ++ cause.message
  | .unboundVariable name => "variable `" ++ name ++ "` is not defined"
  | .typeMismatch wanted actual =>
    "type mismatch: expected " ++ wanted ++ " but was " ++ actual
  | .notImplemented what => "not implemented: " ++ what
  | .stillConnected id =>
    "constraint violation: cannot delete node " ++ id ++
      " because it still has relationships; use DETACH DELETE"
  | .missingParameter name => "expected parameter $" ++ name ++ " to be bound"
  | .unknownFunction name => "unknown function '" ++ name ++ "'"
  | .invalidArgument cause => "invalid argument: " ++ cause.message
  | .store cause => cause.message

/-- The class of an error. -/
def kind : Error → ErrorKind
  | .syntaxError _ => .syntaxError
  | .unboundVariable _ => .unboundVariable
  | .typeMismatch _ _ => .typeMismatch
  | .notImplemented _ => .notImplemented
  | .stillConnected _ => .constraintViolation
  | .missingParameter _ | .unknownFunction _ | .invalidArgument _ => .argument
  | .store _ => .store

end Error

end PropertyGraph
