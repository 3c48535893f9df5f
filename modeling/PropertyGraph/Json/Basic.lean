import PropertyGraph.Number.Double

/-!
# JSON documents

A document keeps the members of an object in the order of the text, repeated names included; who
reads it decides which of them counts.
-/

namespace PropertyGraph

/-- A JSON document. -/
inductive Json where
  | null
  | bool (b : Bool)
  | int (n : Int)
  | float (x : Double)
  | text (s : String)
  | array (items : List Json)
  | object (members : List (String × Json))

instance : Inhabited Json := ⟨.null⟩

end PropertyGraph
