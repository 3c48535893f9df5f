import PropertyGraph.Proofs.Query.Lexeme
import PropertyGraph.Proofs.Query.Rendering
import PropertyGraph.Query.Clause.Grammar

/-!
# How queries are written

The grammar of the query language, without the order in which a reader goes about it: which lexemes
an expression, a pattern or a clause is written with.  How strongly operators bind is left out, so
that some lexemes are written forms of several expressions.  Wherever the grammar takes a name, the
name is what `spell` makes of the word that is written.

    Form              what is written how
    Expr.Written      expressions, and the patterns in them
    Clause.Written    clauses
    Query.Written     queries
-/

namespace PropertyGraph

/-- What is written how. -/
abbrev Form (α : Type) := List Lexeme → α → Prop

/-! ## Elementary forms -/

namespace Form

variable {α : Type}

/-- A name of a variable, which is no keyword. -/
inductive Ident : Form String
  | mk {l : Lexeme} {x : String} (hl : l.token = .ident x) : Ident [l] x

/-- A name that may be a keyword. -/
inductive Name (spell : String → String) : Form String
  | mk {l : Lexeme} {x : String} (hl : l.Names spell x) : Name spell [l] x

/-- A token that may be absent. -/
inductive Flag (t : Token) : Form Bool
  | off : Flag t [] false
  | on {l : Lexeme} (hl : l.token = t) : Flag t [l] true

/-- Something that may be absent. -/
inductive Optional (item : Form α) : Form (Option α)
  | none : Optional item [] none
  | some {ls : List Lexeme} {a : α} (ha : item ls a) : Optional item ls (some a)

/-- Something that may be absent, after a token. -/
inductive After (t : Token) (item : Form α) : Form (Option α)
  | none : After t item [] none
  | some {l : Lexeme} {ls : List Lexeme} {a : α} (hl : l.token = t) (ha : item ls a) :
      After t item (l :: ls) (some a)

/-- Any number of items. -/
inductive Many (item : Form α) : Form (List α)
  | nil : Many item [] []
  | cons {ls ms : List Lexeme} {a : α} {as : List α} (ha : item ls a) (has : Many item ms as) :
      Many item (ls ++ ms) (a :: as)

/-- One item or more with commas between them. -/
inductive Commas (item : Form α) : Form (List α)
  | one {ls : List Lexeme} {a : α} (ha : item ls a) : Commas item ls [a]
  | cons {ls ms : List Lexeme} {a : α} {as : List α} (ha : item ls a) (has : Commas item ms as) :
      Commas item (ls ++ .symbol .comma :: ms) (a :: as)

/-- Any number of items with commas between them. -/
inductive Items (item : Form α) : Form (List α)
  | none : Items item [] []
  | some {ls : List Lexeme} {as : List α} (has : Commas item ls as) : Items item ls as

end Form

open Form

/-! ## Parts of patterns -/

/-- A label or a type after its colon. -/
inductive Label.Written (spell : String → String) : Form String
  | mk {l : Lexeme} {x : String} (hl : l.Names spell x) : Label.Written spell [.symbol .colon, l] x

/-- A further type of a relationship; the colon after its bar may be absent. -/
inductive MoreType.Written (spell : String → String) : Form String
  | mk {xs : List Lexeme} {b : Bool} {l : Lexeme} {x : String}
      (hxs : Flag (.symbol .colon) xs b) (hl : l.Names spell x) :
      MoreType.Written spell (.symbol .pipe :: (xs ++ [l])) x

/-- The types of a relationship. -/
inductive Types.Written (spell : String → String) : Form (List String)
  | none : Types.Written spell [] []
  | some {ls ms : List Lexeme} {x : String} {more : List String} (hx : Label.Written spell ls x)
      (hmore : Many (MoreType.Written spell) ms more) : Types.Written spell (ls ++ ms) (x :: more)

/-- A bound of a length. -/
inductive Bound.Written : Form Nat
  | mk {n : Int64} (hn : 0 ≤ n.toInt) : Bound.Written [.int n] n.toInt.toNat

/-- The lengths of a relationship. -/
inductive LengthRange.Written : Form LengthRange
  | exactly {ls : List Lexeme} {n : Option Nat} (hn : Optional Bound.Written ls n) :
      LengthRange.Written (.symbol .star :: ls) ⟨n, n⟩
  | between {ls ms : List Lexeme} {min max : Option Nat} (hmin : Optional Bound.Written ls min)
      (hmax : Optional Bound.Written ms max) :
      LengthRange.Written (.symbol .star :: (ls ++ .symbol .dotDot :: ms)) ⟨min, max⟩

/-- The arrow heads at the two ends of a relationship. -/
inductive Heading.Arrows : Heading → List Lexeme → List Lexeme → Prop
  | outgoing : Heading.Arrows .outgoing [] [.symbol .greater]
  | incoming : Heading.Arrows .incoming [.symbol .less] []
  | undirected : Heading.Arrows .undirected [] []

/-- The name of a path and its equals sign. -/
inductive PathName.Written : Form String
  | mk {l : Lexeme} {x : String} (hl : l.token = .ident x) :
      PathName.Written [l, .symbol .equals] x

/-- What a quantifier is called. -/
inductive Quantifier.Written : Form Quantifier
  | all {l : Lexeme} (hl : l.token = .keyword .all) : Quantifier.Written [l] .all
  | named {l : Lexeme} {f : String} {kind : Quantifier} (hl : l.token = .ident f)
      (hkind : Expr.quantifier? f = some kind) : Quantifier.Written [l] kind

/-! ## Expressions and patterns -/

mutual

/-- An expression. -/
inductive Expr.Written (spell : String → String) : List Lexeme → Expr → Prop
  | literal {l : Lexeme} {v : Value} (hl : Expr.literal? l.token = some v) :
      Expr.Written spell [l] (.literal v)
  | parameter {x : String} : Expr.Written spell [.parameter x] (.parameter x)
  | var {l : Lexeme} {x : String} (hl : l.token = .ident x) : Expr.Written spell [l] (.var x)
  | parens {ls : List Lexeme} {e : Expr} (he : Expr.Written spell ls e) :
      Expr.Written spell (.symbol .leftParen :: (ls ++ [.symbol .rightParen])) e
  | property {ls : List Lexeme} {l : Lexeme} {e : Expr} {key : String}
      (he : Expr.Written spell ls e) (hkey : l.Names spell key) :
      Expr.Written spell (ls ++ [.symbol .dot, l]) (.property e key)
  | hasLabels {ls ms : List Lexeme} {e : Expr} {labels : List String}
      (he : Expr.Written spell ls e) (hlabels : Many (Label.Written spell) ms labels) :
      Expr.Written spell (ls ++ ms) (.hasLabels e labels)
  | list {ls : List Lexeme} {items : List Expr} (hitems : Items (Expr.Written spell) ls items) :
      Expr.Written spell (.symbol .leftBracket :: (ls ++ [.symbol .rightBracket])) (.list items)
  | map {ls : List Lexeme} {entries : List (String × Expr)}
      (hentries : Entries.Written spell ls entries) : Expr.Written spell ls (.map entries)
  | index {ls ms : List Lexeme} {e i : Expr} (he : Expr.Written spell ls e)
      (hi : Expr.Written spell ms i) :
      Expr.Written spell (ls ++ .symbol .leftBracket :: (ms ++ [.symbol .rightBracket]))
        (.index e i)
  | slice {ls ms ns : List Lexeme} {e : Expr} {lower upper : Option Expr}
      (he : Expr.Written spell ls e) (hlower : Optional (Expr.Written spell) ms lower)
      (hupper : Optional (Expr.Written spell) ns upper) :
      Expr.Written spell (ls ++ .symbol .leftBracket ::
        (ms ++ .symbol .dotDot :: (ns ++ [.symbol .rightBracket]))) (.slice e lower upper)
  | not {l : Lexeme} {ls : List Lexeme} {e : Expr} (hl : l.token = .keyword .not)
      (he : Expr.Written spell ls e) : Expr.Written spell (l :: ls) (.unary .not e)
  | minus {ls : List Lexeme} {e : Expr} (he : Expr.Written spell ls e) :
      Expr.Written spell (.symbol .dash :: ls) (Expr.negative e)
  | plus {ls : List Lexeme} {e : Expr} (he : Expr.Written spell ls e) :
      Expr.Written spell (.symbol .plus :: ls) (.unary .plus e)
  | binary {ls os ms : List Lexeme} {op : BinaryOp} {a b : Expr} (ha : Expr.Written spell ls a)
      (hop : os.map Lexeme.token = op.tokens) (hb : Expr.Written spell ms b) :
      Expr.Written spell (ls ++ (os ++ ms)) (.binary op a b)
  | isNull {ls os : List Lexeme} {e : Expr} (he : Expr.Written spell ls e)
      (hos : os.map Lexeme.token = [.keyword .is, .keyword .null]) :
      Expr.Written spell (ls ++ os) (.isNull e)
  | isNotNull {ls os : List Lexeme} {e : Expr} (he : Expr.Written spell ls e)
      (hos : os.map Lexeme.token = [.keyword .is, .keyword .not, .keyword .null]) :
      Expr.Written spell (ls ++ os) (.isNotNull e)
  | call {l : Lexeme} {ds ls : List Lexeme} {f : String} {distinct : Bool} {args : List Expr}
      (hl : l.token = .ident f) (hdistinct : Flag (.keyword .distinct) ds distinct)
      (hargs : Items (Expr.Written spell) ls args) :
      Expr.Written spell (l :: .symbol .leftParen :: (ds ++ (ls ++ [.symbol .rightParen])))
        (.call f args distinct)
  | countAll {l : Lexeme} {f : String} (hl : l.token = .ident f) (hf : Text.lower f = "count") :
      Expr.Written spell [l, .symbol .leftParen, .symbol .star, .symbol .rightParen] .countAll
  | case {l r : Lexeme} {ls ms ns : List Lexeme} {operand default : Option Expr}
      {branches : List (Expr × Expr)} (hl : l.token = .keyword .case)
      (hoperand : Optional (Expr.Written spell) ls operand)
      (hbranches : Many (Branch.Written spell) ms branches)
      (hdefault : After (.keyword .else_) (Expr.Written spell) ns default)
      (hr : r.token = .keyword .end_) :
      Expr.Written spell (l :: (ls ++ (ms ++ (ns ++ [r])))) (.case operand branches default)
  | comprehension {l i : Lexeme} {ls ms ns : List Lexeme} {x : String} {source : Expr}
      {filter result : Option Expr} (hl : l.token = .ident x) (hi : i.token = .keyword .in_)
      (hsource : Expr.Written spell ls source)
      (hfilter : After (.keyword .where_) (Expr.Written spell) ms filter)
      (hresult : After (.symbol .pipe) (Expr.Written spell) ns result) :
      Expr.Written spell
        (.symbol .leftBracket :: l :: i :: (ls ++ (ms ++ (ns ++ [.symbol .rightBracket]))))
        (.comprehension x source filter result)
  | quantified {qs ls ms : List Lexeme} {l i w : Lexeme} {kind : Quantifier} {x : String}
      {source predicate : Expr} (hkind : Quantifier.Written qs kind) (hl : l.token = .ident x)
      (hi : i.token = .keyword .in_) (hsource : Expr.Written spell ls source)
      (hw : w.token = .keyword .where_) (hpredicate : Expr.Written spell ms predicate) :
      Expr.Written spell
        (qs ++ .symbol .leftParen :: l :: i :: (ls ++ w :: (ms ++ [.symbol .rightParen])))
        (.quantified kind x source predicate)
  | pattern {ls : List Lexeme} {part : PatternPart} (hpart : PatternPart.Written spell ls part) :
      Expr.Written spell ls (.pattern part)

/-- A key of a map and its value. -/
inductive Entry.Written (spell : String → String) : List Lexeme → String × Expr → Prop
  | text {s : String} {ls : List Lexeme} {e : Expr} (he : Expr.Written spell ls e) :
      Entry.Written spell (.text s :: .symbol .colon :: ls) (s, e)
  | name {l : Lexeme} {ls : List Lexeme} {key : String} {e : Expr} (hl : l.Names spell key)
      (he : Expr.Written spell ls e) : Entry.Written spell (l :: .symbol .colon :: ls) (key, e)

/-- A map. -/
inductive Entries.Written (spell : String → String) : List Lexeme → List (String × Expr) → Prop
  | mk {ls : List Lexeme} {entries : List (String × Expr)}
      (hentries : Items (Entry.Written spell) ls entries) :
      Entries.Written spell (.symbol .leftBrace :: (ls ++ [.symbol .rightBrace])) entries

/-- A branch of a `CASE`. -/
inductive Branch.Written (spell : String → String) : List Lexeme → Expr × Expr → Prop
  | mk {l m : Lexeme} {ls ms : List Lexeme} {condition result : Expr}
      (hl : l.token = .keyword .when) (hcondition : Expr.Written spell ls condition)
      (hm : m.token = .keyword .then_) (hresult : Expr.Written spell ms result) :
      Branch.Written spell (l :: (ls ++ m :: ms)) (condition, result)

/-- The properties of a pattern element. -/
inductive Properties.Written (spell : String → String) :
    List Lexeme → List (String × Expr) → Prop
  | none : Properties.Written spell [] []
  | some {ls : List Lexeme} {entries : List (String × Expr)}
      (hentries : Entries.Written spell ls entries) : Properties.Written spell ls entries

/-- A node of a pattern. -/
inductive NodePattern.Written (spell : String → String) : List Lexeme → NodePattern → Prop
  | mk {xs ls ms : List Lexeme} {name : Option String} {labels : List String}
      {properties : List (String × Expr)} (hname : Optional Ident xs name)
      (hlabels : Many (Label.Written spell) ls labels)
      (hproperties : Properties.Written spell ms properties) :
      NodePattern.Written spell
        (.symbol .leftParen :: (xs ++ (ls ++ (ms ++ [.symbol .rightParen]))))
        ⟨name, labels, properties⟩

/-- What stands between the dashes of a relationship; it says nothing about the heading. -/
inductive RelationshipBody.Written (spell : String → String) :
    List Lexeme → RelationshipPattern → Prop
  | none : RelationshipBody.Written spell [] ⟨none, [], .undirected, [], none⟩
  | some {ns ts rs ps : List Lexeme} {name : Option String} {types : List String}
      {range : Option LengthRange} {properties : List (String × Expr)}
      (hname : Optional Ident ns name) (htypes : Types.Written spell ts types)
      (hrange : Optional LengthRange.Written rs range)
      (hproperties : Properties.Written spell ps properties) :
      RelationshipBody.Written spell
        (.symbol .leftBracket :: (ns ++ (ts ++ (rs ++ (ps ++ [.symbol .rightBracket])))))
        ⟨name, types, .undirected, properties, range⟩

/-- A relationship of a pattern. -/
inductive RelationshipPattern.Written (spell : String → String) :
    List Lexeme → RelationshipPattern → Prop
  | mk {xs ls ys : List Lexeme} {heading : Heading} {body : RelationshipPattern}
      (harrows : heading.Arrows xs ys) (hbody : RelationshipBody.Written spell ls body) :
      RelationshipPattern.Written spell (xs ++ .symbol .dash :: (ls ++ .symbol .dash :: ys))
        { body with heading := heading }

/-- A relationship and the node it leads to. -/
inductive Link.Written (spell : String → String) :
    List Lexeme → RelationshipPattern × NodePattern → Prop
  | mk {ls ms : List Lexeme} {r : RelationshipPattern} {n : NodePattern}
      (hr : RelationshipPattern.Written spell ls r) (hn : NodePattern.Written spell ms n) :
      Link.Written spell (ls ++ ms) (r, n)

/-- One walk of a pattern. -/
inductive PatternPart.Written (spell : String → String) : List Lexeme → PatternPart → Prop
  | mk {xs ls ms : List Lexeme} {path : Option String} {start : NodePattern}
      {chain : List (RelationshipPattern × NodePattern)} (hpath : Optional PathName.Written xs path)
      (hstart : NodePattern.Written spell ls start) (hchain : Many (Link.Written spell) ms chain) :
      PatternPart.Written spell (xs ++ (ls ++ ms)) ⟨path, start, chain⟩

end

/-! ## Parts of clauses -/

/-- A column and its alias. -/
inductive ProjectionItem.Written (spell : String → String) : Form ProjectionItem
  | mk {ls ms : List Lexeme} {e : Expr} {alias? : Option String} (he : Expr.Written spell ls e)
      (halias : After (.keyword .as) (Name spell) ms alias?) :
      ProjectionItem.Written spell (ls ++ ms) ⟨e, alias?⟩

/-- A key of an order. -/
inductive SortKey.Written (spell : String → String) : Form SortKey
  | ascending {ls ms : List Lexeme} {e : Expr} {b : Bool} (he : Expr.Written spell ls e)
      (hms : Flag (.keyword .asc) ms b) : SortKey.Written spell (ls ++ ms) ⟨e, true⟩
  | descending {ls : List Lexeme} {l : Lexeme} {e : Expr} (he : Expr.Written spell ls e)
      (hl : l.token = .keyword .desc) : SortKey.Written spell (ls ++ [l]) ⟨e, false⟩

/-- The columns of a projection, after a star that stands for the names in scope. -/
inductive Columns.Written (spell : String → String) :
    List Lexeme → Bool → List ProjectionItem → Prop
  | items {ls : List Lexeme} {items : List ProjectionItem}
      (hitems : Commas (ProjectionItem.Written spell) ls items) :
      Columns.Written spell ls false items
  | star : Columns.Written spell [.symbol .star] true []
  | starAnd {ls : List Lexeme} {items : List ProjectionItem}
      (hitems : Commas (ProjectionItem.Written spell) ls items) :
      Columns.Written spell (.symbol .star :: .symbol .comma :: ls) true items

/-- The keys of an order. -/
inductive Order.Written (spell : String → String) : Form (List SortKey)
  | none : Order.Written spell [] []
  | some {l m : Lexeme} {ls : List Lexeme} {keys : List SortKey} (hl : l.token = .keyword .order)
      (hm : m.token = .keyword .by_) (hkeys : Commas (SortKey.Written spell) ls keys) :
      Order.Written spell (l :: m :: ls) keys

/-- What follows `RETURN` or `WITH`. -/
inductive ProjectionBody.Written (spell : String → String) : Form ProjectionBody
  | mk {ds cs os ss ls : List Lexeme} {distinct star : Bool} {items : List ProjectionItem}
      {order : List SortKey} {skip limit : Option Expr}
      (hdistinct : Flag (.keyword .distinct) ds distinct)
      (hcolumns : Columns.Written spell cs star items) (horder : Order.Written spell os order)
      (hskip : After (.keyword .skip) (Expr.Written spell) ss skip)
      (hlimit : After (.keyword .limit) (Expr.Written spell) ls limit) :
      ProjectionBody.Written spell (ds ++ (cs ++ (os ++ (ss ++ ls))))
        ⟨distinct, star, items, order, skip, limit⟩

/-- A change of `SET`. -/
inductive SetItem.Written (spell : String → String) : Form SetItem
  | property {ls ms : List Lexeme} {target value : Expr} {key : String}
      (htarget : Expr.Written spell ls (.property target key))
      (hvalue : Expr.Written spell ms value) :
      SetItem.Written spell (ls ++ .symbol .equals :: ms) (.property target key value)
  | replace {ls ms : List Lexeme} {x : String} {source : Expr}
      (hx : Expr.Written spell ls (.var x)) (hsource : Expr.Written spell ms source) :
      SetItem.Written spell (ls ++ .symbol .equals :: ms) (.replace x source)
  | merge {ls ms : List Lexeme} {x : String} {source : Expr}
      (hx : Expr.Written spell ls (.var x)) (hsource : Expr.Written spell ms source) :
      SetItem.Written spell (ls ++ .symbol .plusEquals :: ms) (.merge x source)
  | labels {ls : List Lexeme} {x : String} {labels : List String}
      (hlabels : Expr.Written spell ls (.hasLabels (.var x) labels)) :
      SetItem.Written spell ls (.labels x labels)

/-- A change of `REMOVE`. -/
inductive RemoveItem.Written (spell : String → String) : Form RemoveItem
  | property {ls : List Lexeme} {target : Expr} {key : String}
      (htarget : Expr.Written spell ls (.property target key)) :
      RemoveItem.Written spell ls (.property target key)
  | labels {ls : List Lexeme} {x : String} {labels : List String}
      (hlabels : Expr.Written spell ls (.hasLabels (.var x) labels)) :
      RemoveItem.Written spell ls (.labels x labels)

/-- The actions of `MERGE`: those on creation, and those on a match. -/
inductive MergeActions.Written (spell : String → String) : Form (List SetItem × List SetItem)
  | none : MergeActions.Written spell [] ([], [])
  | onCreate {ks ls ms : List Lexeme} {items created matched : List SetItem}
      (hks : ks.map Lexeme.token = [.keyword .on, .keyword .create, .keyword .set])
      (hitems : Commas (SetItem.Written spell) ls items)
      (hmore : MergeActions.Written spell ms (created, matched)) :
      MergeActions.Written spell (ks ++ (ls ++ ms)) (items ++ created, matched)
  | onMatch {ks ls ms : List Lexeme} {items created matched : List SetItem}
      (hks : ks.map Lexeme.token = [.keyword .on, .keyword .match_, .keyword .set])
      (hitems : Commas (SetItem.Written spell) ls items)
      (hmore : MergeActions.Written spell ms (created, matched)) :
      MergeActions.Written spell (ks ++ (ls ++ ms)) (created, items ++ matched)

/-- The further parts of a procedure's name. -/
inductive ProcedureParts.Written (spell : String → String) : Form String
  | nil : ProcedureParts.Written spell [] ""
  | cons {l : Lexeme} {ls : List Lexeme} {x more : String} (hl : l.Names spell x)
      (hmore : ProcedureParts.Written spell ls more) :
      ProcedureParts.Written spell (.symbol .dot :: l :: ls) ("." ++ x ++ more)

/-! ## Clauses -/

/-- A clause that is no union. -/
inductive Clause.Written (spell : String → String) : Form Clause
  | matching {os ls ms : List Lexeme} {l : Lexeme} {optional : Bool} {parts : List PatternPart}
      {condition : Option Expr} (hos : Flag (.keyword .optional) os optional)
      (hl : l.token = .keyword .match_) (hparts : Commas (PatternPart.Written spell) ls parts)
      (hcondition : After (.keyword .where_) (Expr.Written spell) ms condition) :
      Clause.Written spell (os ++ l :: (ls ++ ms)) (.matching optional parts condition)
  | unwind {l a m : Lexeme} {ls : List Lexeme} {source : Expr} {x : String}
      (hl : l.token = .keyword .unwind) (hsource : Expr.Written spell ls source)
      (ha : a.token = .keyword .as) (hm : m.token = .ident x) :
      Clause.Written spell (l :: (ls ++ [a, m])) (.unwind source x)
  | projectWith {l : Lexeme} {ls ms : List Lexeme} {body : ProjectionBody}
      {condition : Option Expr} (hl : l.token = .keyword .with_)
      (hbody : ProjectionBody.Written spell ls body)
      (hcondition : After (.keyword .where_) (Expr.Written spell) ms condition) :
      Clause.Written spell (l :: (ls ++ ms)) (.projectWith body condition)
  | projectReturn {l : Lexeme} {ls : List Lexeme} {body : ProjectionBody}
      (hl : l.token = .keyword .return_) (hbody : ProjectionBody.Written spell ls body) :
      Clause.Written spell (l :: ls) (.projectReturn body)
  | create {l : Lexeme} {ls : List Lexeme} {parts : List PatternPart}
      (hl : l.token = .keyword .create) (hparts : Commas (PatternPart.Written spell) ls parts) :
      Clause.Written spell (l :: ls) (.create parts)
  | merge {l : Lexeme} {ls ms : List Lexeme} {part : PatternPart} {onCreate onMatch : List SetItem}
      (hl : l.token = .keyword .merge) (hpart : PatternPart.Written spell ls part)
      (hactions : MergeActions.Written spell ms (onCreate, onMatch)) :
      Clause.Written spell (l :: (ls ++ ms)) (.merge part onCreate onMatch)
  | set {l : Lexeme} {ls : List Lexeme} {items : List SetItem} (hl : l.token = .keyword .set)
      (hitems : Commas (SetItem.Written spell) ls items) :
      Clause.Written spell (l :: ls) (.set items)
  | remove {l : Lexeme} {ls : List Lexeme} {items : List RemoveItem}
      (hl : l.token = .keyword .remove) (hitems : Commas (RemoveItem.Written spell) ls items) :
      Clause.Written spell (l :: ls) (.remove items)
  | delete {ds ls : List Lexeme} {l : Lexeme} {detach : Bool} {targets : List Expr}
      (hds : Flag (.keyword .detach) ds detach) (hl : l.token = .keyword .delete)
      (htargets : Commas (Expr.Written spell) ls targets) :
      Clause.Written spell (ds ++ l :: ls) (.delete detach targets)
  | call {l m : Lexeme} {ls skipped : List Lexeme} {first more : String}
      (hl : l.token = .keyword .call) (hm : m.Names spell first)
      (hmore : ProcedureParts.Written spell ls more) :
      Clause.Written spell (l :: m :: (ls ++ skipped)) (.call (first ++ more))

/-- The clauses of a query, with semicolons between them.  What follows `UNION` is a query of its
own. -/
inductive Query.Written (spell : String → String) : Form Query
  | nil : Query.Written spell [] []
  | semicolon {ls : List Lexeme} {q : Query} (hq : Query.Written spell ls q) :
      Query.Written spell (.symbol .semicolon :: ls) q
  | clause {ls ms : List Lexeme} {c : Clause} {q : Query} (hc : Clause.Written spell ls c)
      (hq : Query.Written spell ms q) : Query.Written spell (ls ++ ms) (c :: q)
  | union {l : Lexeme} {xs ls : List Lexeme} {all : Bool} {q : Query}
      (hl : l.token = .keyword .union) (hall : Flag (.keyword .all) xs all)
      (hq : Query.Written spell ls q) : Query.Written spell (l :: (xs ++ ls)) [.union all q]

end PropertyGraph
