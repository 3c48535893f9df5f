import PropertyGraph.Proofs.Run.Cut
import PropertyGraph.Proofs.Store.Growth

/-!
# Runs in which the store only grows

Whatever others do to the graph between two items of a flow, a search leaves it as it is whenever it
is asked for the next match, and a creation only adds to it.

    RunState.Rises       a consistent store stays consistent and keeps what it holds
    Flow.Moves Q f s     asked in `s` or later, flow `f` goes on in the way `Q`
    Search.moves_flow    a search leaves the graph as it is
    RunContext.adds_create    a creation lets the store rise, and leaves the estimates alone
-/

namespace PropertyGraph

open RunState (Like SameGraph)

variable {α β : Type}

namespace RunState

/-- If the store of the first state is consistent, so is that of the second, and it holds as much
and maybe more. -/
def Rises (s t : RunState) : Prop :=
  s.store.Consistent → t.store.Consistent ∧ s.store.Grows t.store

end RunState

/-- A way from one state to a later one that is gone by doing nothing to the graph, and by going it
twice. -/
structure Onward (Q : RunState → RunState → Prop) : Prop where
  same : ∀ s t, s.SameGraph t → Q s t
  trans : ∀ s t u, Q s t → Q t u → Q s u

theorem RunState.SameGraph.onward : Onward SameGraph where
  same _ _ h := h
  trans _ _ _ := SameGraph.trans

theorem RunState.Rises.onward : Onward RunState.Rises where
  same _ _ h := fun hs => h.store ▸ ⟨hs, .refl hs⟩
  trans _ _ _ h h' := fun hs =>
    let ⟨ht, hst⟩ := h hs
    let ⟨hu, htu⟩ := h' ht
    ⟨hu, hst.trans htu⟩

/-! ## Flows -/

namespace Flow

variable {Q : RunState → RunState → Prop}

/-- Asked in the given state, the flow goes on from it in the given way, and so it does from every
state in which it is asked again. -/
def Moves (Q : RunState → RunState → Prop) : Flow α → RunState → Prop
  | .done t, s => Q s t
  | .fail _ t, s => Q s t
  | .emit _ _ t rest, s => Q s t ∧ ∀ u, (rest u).Moves Q u

variable {f : Flow α} {s t : RunState}

theorem Moves.since (h : f.Moves Q t) (hQ : Onward Q) (hst : Q s t) : f.Moves Q s := by
  cases f with
  | done u => exact hQ.trans _ _ _ hst h
  | fail e u => exact hQ.trans _ _ _ hst h
  | emit a held u rest => exact ⟨hQ.trans _ _ _ hst h.1, h.2⟩

theorem moves_single (hQ : Onward Q) (a : α) (s : RunState) : (single a s).Moves Q s :=
  ⟨hQ.same _ _ (.refl s), fun u => hQ.same _ _ (.refl u)⟩

theorem moves_ofList (hQ : Onward Q) (as : List α) (s : RunState) : (ofList as s).Moves Q s := by
  induction as generalizing s with
  | nil => exact hQ.same _ _ (.refl s)
  | cons a rest ih => exact ⟨hQ.same _ _ (.refl s), ih⟩

theorem moves_ofRun (hQ : Onward Q) {r : Run (List α)} (hr : ∀ s, Q s (r s).2) (s : RunState) :
    (ofRun r s).Moves Q s := by
  have hs := hr s
  unfold ofRun
  split
  · next as s' h =>
    rw [h] at hs
    exact (moves_ofList hQ as s').since hQ hs
  · next e s' h =>
    rw [h] at hs
    exact hs

theorem moves_ofOption (hQ : Onward Q) {r : Run (Option α)} (hr : ∀ s, Q s (r s).2)
    (s : RunState) : (ofOption r s).Moves Q s := by
  have hs := hr s
  unfold ofOption
  split
  · next a s' h =>
    rw [h] at hs
    exact (moves_single hQ a s').since hQ hs
  · next s' h =>
    rw [h] at hs
    exact hs
  · next e s' h =>
    rw [h] at hs
    exact hs

theorem Moves.before (h : f.Moves Q s) (hQ : Onward Q) (held : Nat) {next : Source α}
    (hnext : ∀ u, (next u).Moves Q u) : (f.before held next).Moves Q s := by
  induction f generalizing s with
  | done t => exact (hnext t).since hQ h
  | fail e t => exact hQ.trans _ _ _ h (hQ.same _ _ ⟨rfl, rfl, rfl⟩)
  | emit a inner t rest ih => exact ⟨h.1, fun u => ih u (h.2 u)⟩

/-- The flows of the items may go on in another way. -/
theorem Moves.flatMap {Q' : RunState → RunState → Prop} (h : f.Moves Q' s) (hQ : Onward Q)
    (hsub : ∀ s t, Q' s t → Q s t) {k : α → Source β} (hk : ∀ a u, (k a u).Moves Q u) :
    (f.flatMap k).Moves Q s := by
  induction f generalizing s with
  | done t => exact hsub _ _ h
  | fail e t => exact hsub _ _ h
  | emit a held t rest ih =>
    exact ((hk a t).since hQ (hsub _ _ h.1)).before hQ held fun u => ih u (h.2 u)

theorem moves_inTurn (hQ : Onward Q) {k : α → Source β} (hk : ∀ a u, (k a u).Moves Q u)
    (as : List α) (s : RunState) : (inTurn k as s).Moves Q s := by
  induction as generalizing s with
  | nil => exact hQ.same _ _ (.refl s)
  | cons a rest ih => exact (hk a s).before hQ 0 ih

theorem Moves.orElse (h : f.Moves Q s) (hQ : Onward Q) {other : Source α}
    (hother : ∀ u, (other u).Moves Q u) : (f.orElse other).Moves Q s := by
  cases f with
  | done t => exact (hother t).since hQ h
  | fail e t => exact h
  | emit a held t rest => exact h

theorem Moves.counted (h : f.Moves Q s) (hQ : Onward Q) (name : String) :
    (f.counted name).Moves Q s := by
  induction f generalizing s with
  | done t => exact h
  | fail e t => exact h
  | emit a held t rest ih =>
    exact ⟨hQ.trans _ _ _ h.1 (hQ.same _ _ ⟨rfl, rfl, rfl⟩), fun u => ih u (h.2 u)⟩

/-- What is left when everything has been asked for. -/
theorem Moves.drain (h : f.Moves Q s) (hQ : Onward Q) : Q s f.drain.2 := by
  induction f generalizing s with
  | done t => exact h
  | fail e t => exact h
  | emit a held t rest ih => exact hQ.trans _ _ _ h.1 (ih t (h.2 t))

end Flow

/-! ## Searches -/

namespace Search

theorem sameGraph_remembered (key : String) {make : StateM RunState Nat}
    (hmake : ∀ s, (make s).2.SameGraph s) (s : RunState) :
    (remembered key make s).2.SameGraph s := by
  unfold remembered
  split
  · exact .refl s
  · exact ⟨(hmake s).store, (hmake s).vertexIds, (hmake s).edgeIds⟩

theorem sameGraph_unless {c : StateM RunState Nat} (skip : RunState → Bool)
    (h : ∀ s, (c s).2.SameGraph s) (s : RunState) :
    ((fun s => if skip s then (0, s) else c s : StateM RunState Nat) s).2.SameGraph s := by
  dsimp only
  split
  · exact .refl s
  · exact h s

theorem sameGraph_total (find : Store → Cursor) (s : RunState) :
    (total find s).2.SameGraph s := by
  unfold total
  simp only
  split <;> exact ⟨rfl, rfl, rfl⟩

/-- A search asks nothing that would change the graph: what it is told by states that are alike it
is told by states with the graph that there was. -/
theorem sees_same (q : Search) (s₀ : RunState) :
    q.Sees (fun s t => s.Like t ∧ s.SameGraph s₀) (fun _ => True) (fun _ => True) := by
  have hblind : ∀ {α : Type} {c : RunState → α × RunState}, Blind Like c →
      (∀ s, (c s).2.SameGraph s) → Blind (fun s t => s.Like t ∧ s.SameGraph s₀) c := by
    intro α c hc hkeep s t hst
    obtain ⟨heq, -, hlike⟩ := hc s t hst.1
    exact ⟨heq, trivial, hlike, (hkeep s).trans hst.2⟩
  have h := q.sees_like
  exact {
    uncounted := fun s t hst n m => ⟨h.uncounted s t hst.1 n m,
      hst.2.store, hst.2.vertexIds, hst.2.edgeIds⟩
    nodeEstimate := fun n hn => hblind (h.nodeEstimate n hn)
      (sameGraph_remembered _ (sameGraph_unless _ (sameGraph_total _)))
    relationshipEstimate := fun r hr => hblind (h.relationshipEstimate r hr)
      (sameGraph_remembered _ (sameGraph_unless _ (sameGraph_total _)))
    givenUp := fun r hr s t hst => h.givenUp r hr s t hst.1
    vertex := fun s t hst => h.vertex s t hst.1
    edges := fun s t hst => h.edges s t hst.1
    setNode := fun _ _ _ _ => trivial
    setRelationship := fun _ _ _ _ => trivial
    seed := fun m i n hm hw hc hn hfree s t hst => h.seed m i n hm hw hc hn hfree s t hst.1 }

variable {q : Search} {m : Match} {next : Match → Source Match}

theorem sameGraph_choose (q : Search) (m : Match) (s : RunState) : (q.choose m s).2.SameGraph s :=
  ((q.sees_same s).choose m s s ⟨.refl s, .refl s⟩).2.2.2

theorem sameGraph_nodeCandidates (q : Search) (m : Match) (n : NodeConstraint Value) (i : Nat)
    (s : RunState) : (q.nodeCandidates m n i s).2.SameGraph s :=
  ((q.sees_same s).nodeCandidates m.within_true n i s s ⟨.refl s, .refl s⟩).2.2.2

theorem sameGraph_relationshipCandidates (q : Search) (m : Match)
    {r : RelationshipConstraint Value} (hr : r ∈ q.pattern.relationships) (s : RunState) :
    (q.relationshipCandidates m r s).2.SameGraph s :=
  ((q.sees_same s).relationshipCandidates m.within_true hr s s ⟨.refl s, .refl s⟩).2.2.2

section Next

variable {Q : RunState → RunState → Prop} (hQ : Onward Q) (hnext : ∀ m s, (next m s).Moves Q s)

include hQ hnext

theorem moves_proceed (unmatched : Match) (ms : List Match) (s : RunState) :
    (q.proceed next unmatched ms s).Moves Q s := by
  unfold proceed
  split
  · exact hnext unmatched s
  · exact Flow.moves_inTurn hQ hnext ms s

theorem moves_seeds (n : NodeConstraint Value) (i : Nat) (matched : Bool) (ids : List String)
    (s : RunState) : (q.seeds next m n i matched ids s).Moves Q s := by
  induction ids generalizing matched s with
  | nil =>
    have hclosed : Q s (s.closeCursors 1) := hQ.same _ _ ⟨rfl, rfl, rfl⟩
    unfold seeds
    simp only
    split
    · exact (hnext _ _).since hQ hclosed
    · exact hclosed
  | cons id rest ih =>
    unfold seeds
    split
    · exact (hnext _ s).before hQ 1 (ih true)
    · exact ih matched s

theorem moves_seedNode (n : NodeConstraint Value) (i : Nat) (s : RunState) :
    (q.seedNode next m n i s).Moves Q s := by
  have hcounted : ∀ n, Q s { s with stats := n } := fun n => hQ.same _ _ ⟨rfl, rfl, rfl⟩
  unfold seedNode
  simp only
  split
  · exact moves_proceed hQ hnext _ _ s
  · split
    · exact (moves_proceed hQ hnext _ _ _).since hQ (hcounted _)
    · exact (moves_seeds hQ hnext n i false _ _).since hQ (hcounted _)

theorem moves_expand (c : ConstraintId) (s : RunState) : (q.expand next m c s).Moves Q s := by
  unfold expand
  cases c with
  | node i =>
    simp only
    split
    · exact hQ.same _ _ (.refl s)
    · next n _ =>
      split
      · exact (moves_proceed hQ hnext _ _ _).since hQ
          (hQ.same _ _ (sameGraph_nodeCandidates q m n i s).symm)
      · exact moves_seedNode hQ hnext n i s
  | relationship i =>
    simp only
    split
    · exact hQ.same _ _ (.refl s)
    · next r hr =>
      have hmem := List.mem_of_getElem? hr
      exact (moves_proceed hQ hnext _ _ _).since hQ
        (hQ.same _ _ (sameGraph_relationshipCandidates q m hmem s).symm)

end Next

variable {Q : RunState → RunState → Prop} (hQ : Onward Q)

include hQ

theorem moves_complete (q : Search) (left : Nat) (m : Match) (s : RunState) :
    (q.complete left m s).Moves Q s := by
  induction left generalizing m s with
  | zero => exact Flow.moves_single hQ m s
  | succ left ih =>
    have hchoose := hQ.same _ _ (sameGraph_choose q m s).symm
    unfold complete
    split
    · next s' h =>
      rw [h] at hchoose
      exact hchoose
    · next c s' h =>
      rw [h] at hchoose
      exact (moves_expand hQ ih c s').since hQ hchoose

/-- Whenever a search is asked for a match it leaves the graph as it is. -/
theorem moves_flow (q : Search) (row : Row) (s : RunState) : (q.flow row s).Moves Q s := by
  unfold flow
  split
  · exact hQ.same _ _ (.refl s)
  · exact Flow.moves_inTurn hQ (fun m => moves_complete hQ q m.openCount m) _ s

end Search

theorem RunContext.moves_matchRow {Q : RunState → RunState → Prop} (hQ : Onward Q)
    (ctx : RunContext) (pattern : Constraints Expr) (condition : Option Expr) (row : Row)
    (s : RunState) : (ctx.matchRow pattern condition row s).Moves Q s := by
  have hrows : ∀ resolved, (((Search.of ctx resolved).flow row s).flatMap fun m =>
      Flow.ofOption (ctx.matchedRow resolved condition row m)).Moves Q s := fun resolved =>
    ((Search.of ctx resolved).moves_flow hQ row s).flatMap hQ (fun _ _ h => h) fun m =>
      Flow.moves_ofOption hQ fun u => by
        rw [Search.matchedRow_eq]
        exact hQ.same _ _ (.refl u)
  unfold matchRow
  rw [Constraints.mapM_still (f := fun e => ctx.value e row) (fun _ => rfl) pattern]
  cases pattern.mapM (fun e => e.value (ctx.env s.store) row) with
  | error e => exact hQ.same _ _ (.refl s)
  | ok resolved =>
    simp only
    split
    · exact (hrows resolved).orElse hQ (Flow.moves_single hQ _)
    · exact hrows resolved

/-! ## Creation -/

/-- The store may have risen, and the estimates are the same. -/
structure RunState.Adds (s t : RunState) : Prop where
  rises : s.Rises t
  estimates : t.estimates = s.estimates

theorem RunState.Adds.refl (s : RunState) : s.Adds s :=
  ⟨RunState.Rises.onward.same _ _ (.refl s), rfl⟩

theorem RunState.Adds.trans {s t u : RunState} (h : s.Adds t) (h' : t.Adds u) : s.Adds u :=
  ⟨RunState.Rises.onward.trans _ _ _ h.rises h'.rises, h'.estimates.trans h.estimates⟩

/-- The computation only adds to the store and leaves the estimates alone. -/
def Adds (c : Run α) : Prop :=
  ∀ s : RunState, s.Adds (c s).2

namespace Adds

variable {c : Run α} {k : α → Run β}

theorem ok (a : α) : Adds (pure a : Run α) := RunState.Adds.refl

theorem fail (e : Error) : Adds (Run.fail e : Run α) := RunState.Adds.refl

theorem bind (hc : Adds c) (hk : ∀ a, Adds (k a)) : Adds (c >>= k) := by
  intro s
  have hs := hc s
  rw [Run.bind_apply]
  split
  · next a s' h =>
    rw [h] at hs
    exact hs.trans (hk a s')
  · next e s' h =>
    rw [h] at hs
    exact hs

theorem foldlM {k : β → α → Run β} (hk : ∀ b a, Adds (k b a)) (as : List α) (b : β) :
    Adds (as.foldlM k b) := by
  induction as generalizing b with
  | nil => exact ok b
  | cons a rest ih =>
    rw [List.foldlM_cons]
    exact (hk b a).bind ih

/-- A consistent store stays consistent, and grows. -/
theorem grows (hc : Adds c) {r : Except Error α} {s t : RunState} (h : c s = (r, t))
    (hs : s.store.Consistent) : t.store.Consistent ∧ s.store.Grows t.store := by
  have hrises := (hc s).rises hs
  rw [h] at hrises
  exact hrises

/-- Whatever it does to the counters and the numbers of ids. -/
theorem of_store {c : Run α} (h : ∀ s, (c s).2.store = s.store ∧ (c s).2.estimates = s.estimates) :
    Adds c :=
  fun s => ⟨fun hs => (h s).1.symm ▸ ⟨hs, .refl hs⟩, (h s).2⟩

end Adds

namespace RunContext

variable {ctx : RunContext}

theorem adds_write {f : Store → Except StoreError Store}
    (hf : ∀ σ τ, σ.Consistent → f σ = .ok τ → τ.Consistent ∧ σ.Grows τ) : Adds (Run.write f) := by
  intro s
  unfold Run.write
  split
  · next τ h => exact ⟨fun hs => hf s.store τ hs h, rfl⟩
  · exact .refl s

theorem adds_prepare (name : String) (v : Value) : Adds (prepare name v) := by
  intro s
  unfold prepare
  split
  · exact .refl s
  · exact ⟨fun hs => ⟨hs.defineAll [(name, v)], hs.grows_defineAll [(name, v)]⟩, rfl⟩

theorem adds_storedProperties (row : Row) (ps : List (String × Expr)) :
    Adds (ctx.storedProperties row ps) := by
  induction ps with
  | nil => exact .ok []
  | cons p rest ih =>
    unfold storedProperties
    refine .bind (.of_store fun _ => ⟨rfl, rfl⟩) fun v => ?_
    split
    · exact ih
    · exact (adds_prepare _ v).bind fun _ => ih.bind fun more => .ok _

theorem adds_createVertex (n : NodePattern) (row : Row) : Adds (ctx.createVertex n row) := by
  unfold createVertex
  refine (adds_storedProperties row n.properties).bind fun properties => ?_
  refine .bind (.of_store fun _ => ⟨rfl, rfl⟩) fun id => ?_
  refine .bind (adds_write fun σ τ hσ h => ⟨?_, hσ.grows_addVertex h⟩) fun _ => ?_
  · exact hσ.addVertex (Names.pairwise_ofList _) (Entries.sorted_ofList _) h
  · exact .bind (.of_store fun _ => ⟨rfl, rfl⟩) fun _ => .ok _

theorem adds_createNode (n : NodePattern) (row : Row) : Adds (ctx.createNode n row) := by
  unfold createNode
  split
  · exact (adds_createVertex n row).bind fun v => .ok _
  · split
    · split
      · exact .fail _
      · split
        · exact .ok _
        · exact .ok _
        · exact .fail _
    · exact (adds_createVertex n row).bind fun v => .ok _

theorem adds_createNodes (ns : List NodePattern) (row : Row) : Adds (ctx.createNodes row ns) := by
  induction ns generalizing row with
  | nil => exact .ok _
  | cons n rest ih =>
    unfold createNodes
    exact (adds_createNode n row).bind fun p => (ih p.2).bind fun p' => .ok _

theorem adds_createEdge (r : RelationshipPattern) (left right : Option Vertex) (row : Row) :
    Adds (ctx.createEdge r left right row) := by
  unfold createEdge
  simp only
  split
  · exact RunState.Adds.refl
  · split
    · refine (adds_storedProperties row r.properties).bind fun properties => ?_
      refine .bind (.of_store fun _ => ⟨rfl, rfl⟩) fun id => ?_
      refine .bind (adds_write fun σ τ hσ h => ⟨?_, hσ.grows_addEdge h⟩) fun _ => ?_
      · exact hσ.addEdge (Entries.sorted_ofList _) h
      · exact .bind (.of_store fun _ => ⟨rfl, rfl⟩) fun _ => .ok _
    · exact .fail _
    · exact .fail _

theorem adds_createEdges (rs : List RelationshipPattern) (vertices : List (Option Vertex))
    (row : Row) : Adds (ctx.createEdges row rs vertices) := by
  induction rs generalizing vertices row with
  | nil => exact .ok _
  | cons r rest ih =>
    match vertices with
    | [] => exact .ok _
    | [_] => exact .ok _
    | left :: right :: vertices =>
      unfold createEdges
      exact (adds_createEdge r left right row).bind fun p =>
        (ih (right :: vertices) p.2).bind fun p' => .ok _

theorem adds_finishPart (part : PatternPart) (vertices : List (Option Vertex)) (row : Row) :
    Adds (ctx.finishPart part vertices row) := by
  unfold finishPart
  refine (adds_createEdges part.relationships vertices row).bind fun p => ?_
  dsimp only
  split
  · exact .ok _
  · split
    · exact .ok _
    · exact .fail _

theorem adds_startParts (parts : List PatternPart) (row : Row) :
    Adds (ctx.startParts row parts) := by
  induction parts generalizing row with
  | nil => exact .ok _
  | cons part rest ih =>
    unfold startParts
    exact (adds_createNodes part.nodes row).bind fun p => (ih p.2).bind fun p' => .ok _

theorem adds_create (parts : List PatternPart) (row : Row) : Adds (ctx.create parts row) := by
  unfold create
  exact (adds_startParts parts row.child).bind fun p =>
    .foldlM (fun row (part : PatternPart × List (Option Vertex)) =>
      adds_finishPart part.1 part.2 row) _ p.2

theorem adds_createApart (parts : List PatternPart) (row : Row) :
    Adds (ctx.createApart parts row) := by
  unfold createApart
  refine .foldlM (fun joined part => ?_) parts row.child
  exact (adds_create [part] row).bind fun out =>
    .bind (.of_store fun _ => ⟨rfl, rfl⟩) fun _ => .ok _

end RunContext

end PropertyGraph
