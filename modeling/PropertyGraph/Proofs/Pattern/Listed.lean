import PropertyGraph.Proofs.Pattern.Blind
import PropertyGraph.Proofs.Pattern.Linked
import PropertyGraph.Proofs.Run.Gives

/-!
# The matches of a search, as a list

On one store a search gives its matches in one order, which hangs on the estimates.  These are kept
for the whole statement under a text that is made of what is demanded, so they are those of the
constraint only where no other one with the same text has another number.

    Search.Estimates      the numbers that a search asks for, with the texts they are kept under
    Keeping σ book        the store is `σ`, and what is kept is what stands in the book
    Search.listing        the complete matches that extend a partial one, one list
    Search.lists_flow     the search gives these
-/

namespace PropertyGraph

/-- A state with a store in which nothing has been done and nothing is estimated. -/
def RunState.over (σ : Store) : RunState :=
  { initial with store := σ }

/-- The store is the given one, and of what is estimated the numbers are those of a book. -/
structure Keeping (σ : Store) (book : String → Nat) (s : RunState) : Prop where
  store : s.store = σ
  kept : ∀ key n, Entries.get? key s.estimates = some n → n = book key

namespace Keeping

variable {σ : Store} {book : String → Nat}

theorem unmetered : Unmetered (Keeping σ book) :=
  fun _ h _ => ⟨h.store, h.kept⟩

theorem of_store (σ : Store) (book : String → Nat) : Keeping σ book (.over σ) :=
  ⟨rfl, fun _ _ h => by cases h⟩

end Keeping

namespace Search

variable {q : Search} {σ : Store} {book : String → Nat}

/-! ## Estimates -/

/-- What the estimate of a relationship is remembered under. -/
def relationshipKey (r : RelationshipConstraint Value) : String :=
  "e:" ++ "|".intercalate r.types ++ propertiesKey r.properties

/-- The search asks for a number under a text. -/
def Estimates (q : Search) (σ : Store) (key : String) (number : Nat) : Prop :=
  (∃ n ∈ q.pattern.nodes, nodeKey n = key ∧ q.nodeNumber σ n = number) ∨
    ∃ r ∈ q.pattern.relationships, relationshipKey r = key ∧ q.relationshipNumber σ r = number

/-- All numbers that the search asks for stand in the book. -/
def Booked (q : Search) (σ : Store) (book : String → Nat) : Prop :=
  ∀ key number, q.Estimates σ key number → number = book key

/-- An estimate that is kept, or made anew with the number of the book, is that number. -/
theorem blind_kept (key : String) {make : StateM RunState Nat}
    (h : ∀ s, s.store = σ → ∃ k, make s = (book key, { s with stats := k })) :
    Blind (Both (Keeping σ book)) (remembered key make) := by
  have hone : ∀ s, Keeping σ book s →
      (remembered key make s).1 = book key ∧ Keeping σ book (remembered key make s).2 := by
    intro s hs
    unfold remembered
    split
    · next n hn => exact ⟨hs.kept key n hn, hs⟩
    · obtain ⟨k, hk⟩ := h s hs.store
      rw [hk]
      refine ⟨rfl, hs.store, fun other n hn => ?_⟩
      dsimp only at hn
      by_cases hother : other = key
      · subst hother
        rw [Entries.get?_insert_self] at hn
        exact (Option.some.inj hn).symm
      · rw [Entries.get?_insert_of_ne hother] at hn
        exact hs.kept other n hn
  intro s t ⟨hs, ht⟩
  exact ⟨(hone s hs).1.trans (hone t ht).1.symm, trivial, (hone s hs).2, (hone t ht).2⟩

/-- Two states that keep to the book tell a search the same. -/
theorem sees_keeping (hbook : q.Booked σ book) :
    q.Sees (Both (Keeping σ book)) (fun _ => True) (fun _ => True) where
  uncounted := Keeping.unmetered.both
  nodeEstimate n hn := by
    refine blind_kept (nodeKey n) fun s hs => ?_
    obtain ⟨k, hk⟩ := total_unless
      (·.selectVertices q.ctx.reader (nodeSelection q.ctx.config n))
      (hopeless q.ctx.config · n.properties) s
    refine ⟨k, hk.trans ?_⟩
    rw [← hbook _ _ (Or.inl ⟨n, hn, rfl, rfl⟩), hs]
    rfl
  relationshipEstimate r hr := by
    refine blind_kept (relationshipKey r) fun s hs => ?_
    obtain ⟨k, hk⟩ := total_unless
      (·.selectEdges q.ctx.reader (relationshipSelection q.ctx.config r))
      (hopeless q.ctx.config · r.properties) s
    refine ⟨k, hk.trans ?_⟩
    rw [← hbook _ _ (Or.inr ⟨r, hr, rfl, rfl⟩), hs]
    rfl
  givenUp r _ s t hst := Or.inl (by rw [hst.1.store, hst.2.store])
  vertex s t hst id _ := ⟨by rw [hst.1.store, hst.2.store], fun _ _ => trivial⟩
  edges s t hst id _ r _ direction :=
    ⟨by rw [hst.1.store, hst.2.store], fun _ _ _ => trivial⟩
  setNode _ _ _ _ := trivial
  setRelationship _ _ _ _ := trivial
  seed m i n _ _ _ _ _ s t hst := ⟨by rw [hst.1.store, hst.2.store], fun _ _ => trivial⟩

/-! ## The list -/

/-- The vertices that a node without assigned relationships is tried with. -/
def seedVertices (q : Search) (σ : Store) (n : NodeConstraint Value) : List Vertex :=
  (q.seedIds n σ).filterMap fun id =>
    (σ.getVertex? q.ctx.reader id).filter (n.admits q.ctx.config)

/-- The matches that assign one constraint more, if there is such a constraint. -/
def extended (q : Search) (σ : Store) (m : Match) : ConstraintId → Option (List Match)
  | .node i => q.pattern.nodes[i]?.map fun n =>
    let vertices := if n.incident.any fun r => (m.relationship? r).isSome
      then (q.nodeCandidates m n i (.over σ)).1 else q.seedVertices σ n
    vertices.map fun v => m.setNode i (.vertex v)
  | .relationship i => q.pattern.relationships[i]?.map fun r =>
    (q.relationshipCandidates m r (.over σ)).1.map (m.setRelationship i)

/-- The match in which one constraint more stays unmatched. -/
def unmatched (m : Match) : ConstraintId → Match
  | .node i => m.setNode i .null
  | .relationship i => m.setRelationship i .null

/-- The lists of all extended matches, or of `other` where there are none and the pattern is
optional. -/
def listProceed (q : Search) (next : Match → List Match) (other : Match) (ms : List Match) :
    List Match :=
  if ms.isEmpty && q.pattern.optional then next other else ms.flatMap next

/-- The complete matches that extend a partial one with `left` open constraints. -/
def listing (q : Search) (σ : Store) : (left : Nat) → Match → List Match
  | 0, m => [m]
  | left + 1, m => match (q.choose m (.over σ)).1 with
    | none => []
    | some c => match q.extended σ m c with
      | none => []
      | some ms => q.listProceed (q.listing σ left) (unmatched m c) ms

/-- The complete matches under the names of a row. -/
def listed (q : Search) (σ : Store) (row : Row) : Except Error (List Match) :=
  (q.start row).map fun ms => ms.flatMap fun m => q.listing σ m.openCount m

/-! ## The search gives the list -/

open PropertyGraph.Flow (Lists)

section Next

variable {next : Match → Source Match} {list : Match → List Match}
  (hnext : ∀ m, Lists (Keeping σ book) (next m) (list m))

include hnext

theorem lists_proceed (other : Match) (ms : List Match) :
    Lists (Keeping σ book) (q.proceed next other ms) (q.listProceed list other ms) := by
  unfold Search.proceed listProceed
  split
  · exact hnext other
  · rw [List.flatMap_def]
    refine Flow.lists_inTurn ?_
    rw [List.forall₂_map_right_iff]
    exact List.forall₂_same.2 fun m _ => hnext m

theorem lists_seeds (q : Search) (m : Match) (n : NodeConstraint Value) (i : Nat) (matched : Bool)
    (ids : List String) : Lists (Keeping σ book) (q.seeds next m n i matched ids)
      (let vertices := ids.filterMap fun id =>
          (σ.getVertex? q.ctx.reader id).filter (n.admits q.ctx.config)
        if !matched && vertices.isEmpty && q.pattern.optional then list (m.setNode i .null)
        else (vertices.map fun v => m.setNode i (.vertex v)).flatMap list) := by
  induction ids generalizing matched with
  | nil =>
    intro s hs
    have hs' : Keeping σ book (s.closeCursors 1) := Keeping.unmetered s hs _
    unfold Search.seeds
    simp only [List.filterMap_nil, List.isEmpty_nil, Bool.and_true]
    split
    · exact hnext _ _ hs'
    · exact .done hs'
  | cons id rest ih =>
    intro s hs
    unfold Search.seeds
    rw [hs.store]
    dsimp only
    cases hv : (σ.getVertex? q.ctx.reader id).filter (n.admits q.ctx.config) with
    | none =>
      simp only [List.filterMap_cons, hv]
      exact ih matched s hs
    | some v =>
      have hrest := ih true
      simp only [Bool.not_true, Bool.false_and, Bool.false_eq_true, if_false] at hrest
      simp only [List.filterMap_cons, hv, List.isEmpty_cons, Bool.and_false, Bool.false_and,
        Bool.false_eq_true, if_false, List.map_cons, List.flatMap_cons]
      exact (hnext _ s hs).before hrest

/-- A node without assigned relationships is assigned the vertices of a cursor in turn. -/
theorem lists_seedNode (m : Match) (n : NodeConstraint Value) (i : Nat) :
    Lists (Keeping σ book) (q.seedNode next m n i) (q.listProceed list (m.setNode i .null)
      ((q.seedVertices σ n).map fun v => m.setNode i (.vertex v))) := by
  intro s hs
  obtain rfl := hs.store
  unfold seedVertices
  by_cases hnil : q.seedIds n s.store = []
  · obtain ⟨k, hk⟩ := seedNode_of_nil next m i hnil
    rw [hk, hnil]
    exact lists_proceed hnext _ [] _ (Keeping.unmetered s hs k)
  · obtain ⟨k, hk⟩ := seedNode_of_ne next m i hnil
    have hseeds := lists_seeds hnext q m n i false (q.seedIds n s.store) _
      (Keeping.unmetered s hs k)
    rw [hk]
    unfold listProceed
    rw [List.isEmpty_map]
    exact hseeds

theorem lists_expand (hbook : q.Booked σ book) (m : Match) (c : ConstraintId) :
    Lists (Keeping σ book) (q.expand next m c) (match q.extended σ m c with
      | none => []
      | some ms => q.listProceed list (unmatched m c) ms) := by
  intro s hs
  have hsees := sees_keeping hbook
  have hboth : Both (Keeping σ book) s (.over σ) := ⟨hs, .of_store σ book⟩
  unfold Search.expand extended unmatched
  cases c with
  | node i =>
    dsimp only
    cases q.pattern.nodes[i]? with
    | none => exact .done hs
    | some n =>
      dsimp only [Option.map_some]
      split
      · obtain ⟨heq, -, hs', -⟩ := hsees.nodeCandidates m.within_true n i s (.over σ) hboth
        rw [← heq]
        exact lists_proceed hnext _ _ _ hs'
      · exact lists_seedNode hnext m n i s hs
  | relationship i =>
    dsimp only
    cases hr : q.pattern.relationships[i]? with
    | none => exact .done hs
    | some r =>
      dsimp only [Option.map_some]
      obtain ⟨heq, -, hs', -⟩ := hsees.relationshipCandidates m.within_true
        (List.mem_of_getElem? hr) s (.over σ) hboth
      rw [← heq]
      exact lists_proceed hnext _ _ _ hs'

end Next

/-- The search from a partial match on gives the list. -/
theorem lists_complete (hbook : q.Booked σ book) (left : Nat) (m : Match) :
    Lists (Keeping σ book) (q.complete left m) (q.listing σ left m) := by
  induction left generalizing m with
  | zero => exact Flow.lists_single m
  | succ left ih =>
    intro s hs
    obtain ⟨heq, -, hs', -⟩ := (sees_keeping hbook).choose m s (.over σ) ⟨hs, .of_store σ book⟩
    unfold Search.complete listing
    rw [← heq]
    cases hrun : q.choose m s with
    | mk c s' =>
      rw [hrun] at hs'
      cases c with
      | none => exact .done hs'
      | some c => exact lists_expand ih hbook m c s' hs'

/-- Where its numbers stand in a book that is kept, a search gives its list. -/
theorem lists_flow (hbook : q.Booked σ book) {row : Row} {ms : List Match}
    (h : q.listed σ row = .ok ms) : Lists (Keeping σ book) (q.flow row) ms := by
  intro s hs
  unfold listed at h
  unfold Search.flow
  cases hstart : q.start row with
  | error e => rw [hstart] at h; cases h
  | ok starts =>
    rw [hstart] at h
    cases h
    dsimp only
    rw [List.flatMap_def]
    refine Flow.lists_inTurn ?_ s hs
    rw [List.forall₂_map_right_iff]
    exact List.forall₂_same.2 fun m _ => lists_complete hbook m.openCount m

end Search

end PropertyGraph
