import PropertyGraph.Plan.Compile
import PropertyGraph.Proofs.Pattern.Built

/-!
# What planning a clause comes to

A clause that is planned adds its stages to those planned before, and leaves a scope.  `Planned`
says what each clause adds and what has been checked for it; nothing else is ever added.
-/

namespace PropertyGraph

theorem ok_bind {ε α β : Type} {x : Except ε α} {a : α} (h : x = .ok a) (f : α → Except ε β) :
    (x >>= f) = f a := by
  rw [h]
  rfl

namespace Plan

/-- The progress that a clause makes of a progress. -/
inductive Planned (p : Progress) : Clause → Progress → Prop
  | matching {optional : Bool} {parts : List PatternPart} {condition : Option Expr}
      {stage : Stage} {scope : Scope} :
    planMatch p.scope optional parts condition = .ok (stage, scope) →
    Planned p (.matching optional parts condition) (p.add stage scope)
  | unwind {source : Expr} {x : String} : p.scope.check source = .ok () →
    Planned p (.unwind source x) (p.add (.unwind source x) (p.scope.declare [x]))
  | projectWith {body : ProjectionBody} {projection : Projection} :
    planProjection p.scope body = .ok projection →
    Planned p (.projectWith body none) (p.add (.project projection) ⟨projection.names⟩)
  | projectWhere {body : ProjectionBody} {e : Expr} {projection : Projection} :
    planProjection p.scope body = .ok projection →
    Scope.check ⟨projection.names⟩ e = .ok () →
    Planned p (.projectWith body (some e))
      ((p.add (.project projection) ⟨projection.names⟩).add (.filter e) ⟨projection.names⟩)
  | projectReturn {body : ProjectionBody} {projection : Projection} :
    planProjection p.scope body = .ok projection →
    Planned p (.projectReturn body)
      { p.add (.project projection) p.scope with returned := some projection.names }
  | create {parts : List PatternPart} {stage : Stage} {scope : Scope} :
    planCreate p.scope parts = .ok (stage, scope) →
    Planned p (.create parts) (p.add stage scope)
  | merge {part : PatternPart} {onCreate onMatch : List SetItem} {stage : Stage} {scope : Scope} :
    planMerge p.scope part onCreate onMatch = .ok (stage, scope) →
    Planned p (.merge part onCreate onMatch) (p.add stage scope)
  | set {items : List SetItem} : items.forM (checkSetItem p.scope) = .ok () →
    Planned p (.set items) (p.add (.set items) p.scope)
  | remove {items : List RemoveItem} : items.forM (checkRemoveItem p.scope) = .ok () →
    Planned p (.remove items) (p.add (.remove items) p.scope)
  | delete {detach : Bool} {targets : List Expr} : p.scope.checkAll targets = .ok () →
    Planned p (.delete detach targets) (p.add (.delete detach targets) p.scope)

theorem planned_of_ok {p p' : Progress} {c : Clause} (h : planClause p c = .ok p') :
    p.returned = none ∧ Planned p c p' := by
  cases hopen : p.returned with
  | some columns =>
    unfold planClause at h
    rw [hopen] at h
    cases c <;> cases h
  | none =>
    refine ⟨rfl, ?_⟩
    unfold planClause at h
    rw [hopen] at h
    cases c with
    | matching optional parts condition =>
      obtain ⟨⟨stage, scope⟩, hplan, h⟩ := ok_of_bind h
      cases h
      exact .matching hplan
    | unwind source x =>
      obtain ⟨_, hcheck, h⟩ := ok_of_bind h
      cases h
      exact .unwind hcheck
    | projectWith body condition =>
      obtain ⟨projection, hplan, h⟩ := ok_of_bind h
      cases condition with
      | none =>
        cases h
        exact .projectWith hplan
      | some e =>
        obtain ⟨_, hcheck, h⟩ := ok_of_bind h
        cases h
        exact .projectWhere hplan hcheck
    | projectReturn body =>
      obtain ⟨projection, hplan, h⟩ := ok_of_bind h
      cases h
      exact .projectReturn hplan
    | create parts =>
      obtain ⟨⟨stage, scope⟩, hplan, h⟩ := ok_of_bind h
      cases h
      exact .create hplan
    | merge part onCreate onMatch =>
      obtain ⟨⟨stage, scope⟩, hplan, h⟩ := ok_of_bind h
      cases h
      exact .merge hplan
    | set items =>
      obtain ⟨_, hcheck, h⟩ := ok_of_bind h
      cases h
      exact .set hcheck
    | remove items =>
      obtain ⟨_, hcheck, h⟩ := ok_of_bind h
      cases h
      exact .remove hcheck
    | delete detach targets =>
      obtain ⟨_, hcheck, h⟩ := ok_of_bind h
      cases h
      exact .delete hcheck
    | union all clauses => cases h
    | call procedure => cases h

end Plan

end PropertyGraph
