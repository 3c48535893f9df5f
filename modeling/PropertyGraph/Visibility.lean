import PropertyGraph.Text.Basic
import PropertyGraph.Value.Entries

/-!
# Visibility

An element carries an expression of terms with commas between them, and a reader holds a set of
terms.  The reader sees the element when the set has all of the expression's terms; an expression
without terms hides nothing.
-/

namespace PropertyGraph

/-- The terms of a visibility expression, without blanks around them and without empty ones. -/
def visibilityTerms (expression : String) : List String :=
  ((Text.splitChar ',' expression.toList).map fun cs => String.ofList (Text.trimChars cs)).filter
    (· ≠ "")

/-- Does the expression consist of blanks? -/
def isBlankExpression (expression : String) : Bool :=
  expression.toList.all Text.isBlank

/-- The terms that a reader holds, in ascending order. -/
structure Authorizations where
  terms : Names

namespace Authorizations

/-- The reader who holds the terms of a list. -/
def ofList (terms : List String) : Authorizations :=
  ⟨Names.ofList terms⟩

/-- May the reader see what carries the expression? -/
def canRead (reader : Authorizations) (expression : String) : Bool :=
  (visibilityTerms expression).all reader.terms.contains

/-- The terms between brackets. -/
def text (reader : Authorizations) : String :=
  "[" ++ ",".intercalate reader.terms ++ "]"

end Authorizations

end PropertyGraph
