import PropertyGraph.Query.Expr

/-!
# Equality of expressions

Two expressions are the same when they are written alike; literals are compared by the equality of
grouping, so that two literals that are no number are the same.
-/

namespace PropertyGraph

mutual

/-- Are the expressions written alike? -/
def Expr.same : Expr → Expr → Bool
  | .literal v, .literal w => v.same w
  | .parameter a, .parameter b => a == b
  | .var a, .var b => a == b
  | .property a j, .property b k => j == k && a.same b
  | .hasLabels a ls, .hasLabels b ms => ls == ms && a.same b
  | .list as, .list bs => sameExprs as bs
  | .map as, .map bs => sameFields as bs
  | .index a i, .index b j => a.same b && i.same j
  | .slice a l u, .slice b m v => a.same b && sameOption l m && sameOption u v
  | .unary p a, .unary q b => p == q && a.same b
  | .binary p a c, .binary q b d => p == q && a.same b && c.same d
  | .isNull a, .isNull b => a.same b
  | .isNotNull a, .isNotNull b => a.same b
  | .call f as d, .call g bs e => f == g && d == e && sameExprs as bs
  | .countAll, .countAll => true
  | .case o bs d, .case p cs e => sameOption o p && sameBranches bs cs && sameOption d e
  | .comprehension x a f r, .comprehension y b g s =>
    x == y && a.same b && sameOption f g && sameOption r s
  | .quantified k x a p, .quantified l y b q => k == l && x == y && a.same b && p.same q
  | .pattern p, .pattern q => samePart p q
  | _, _ => false

/-- Are the expressions pairwise written alike? -/
def sameExprs : List Expr → List Expr → Bool
  | [], [] => true
  | a :: as, b :: bs => a.same b && sameExprs as bs
  | _, _ => false

/-- Are the fields pairwise written alike? -/
def sameFields : List (String × Expr) → List (String × Expr) → Bool
  | [], [] => true
  | (j, a) :: as, (k, b) :: bs => j == k && a.same b && sameFields as bs
  | _, _ => false

/-- Are the branches pairwise written alike? -/
def sameBranches : List (Expr × Expr) → List (Expr × Expr) → Bool
  | [], [] => true
  | (a, c) :: as, (b, d) :: bs => a.same b && c.same d && sameBranches as bs
  | _, _ => false

/-- Are both absent, or both written alike? -/
def sameOption : Option Expr → Option Expr → Bool
  | none, none => true
  | some a, some b => a.same b
  | _, _ => false

/-- Are the nodes written alike? -/
def sameNode : NodePattern → NodePattern → Bool
  | ⟨x, ls, as⟩, ⟨y, ms, bs⟩ => x == y && ls == ms && sameFields as bs

/-- Are the relationships written alike? -/
def sameRelationship : RelationshipPattern → RelationshipPattern → Bool
  | ⟨x, ts, h, as, r⟩, ⟨y, us, i, bs, s⟩ =>
    x == y && ts == us && h == i && sameFields as bs && r == s

/-- Are the walks written alike? -/
def sameChain : List (RelationshipPattern × NodePattern) →
    List (RelationshipPattern × NodePattern) → Bool
  | [], [] => true
  | (r, n) :: as, (s, m) :: bs => sameRelationship r s && sameNode n m && sameChain as bs
  | _, _ => false

/-- Are the pattern parts written alike? -/
def samePart : PatternPart → PatternPart → Bool
  | ⟨x, n, as⟩, ⟨y, m, bs⟩ => x == y && sameNode n m && sameChain as bs

end

instance : BEq Expr := ⟨Expr.same⟩

end PropertyGraph
