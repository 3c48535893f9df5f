import PropertyGraph.Proofs.Run.Rows

/-!
# Open cursors

The counters say how many cursors a statement has opened and how many it has closed.  A computation
closes again what it opens.  A flow may wait with cursors open, but says how many they are, so that
whoever asks it again, or gives it up, knows what there is to be closed.

    RunState.Holds n    exactly `n` of the cursors opened so far are open
    Level c             computation `c` leaves as many cursors open as it found
    Flow.Balanced n f   flow `f` ends with `n` open cursors, and waits with those and the ones that
                        it says it holds
    Search.levels_flow  a search closes its cursors
-/

namespace PropertyGraph

variable {α β : Type}

/-- Exactly so many of the cursors that have been opened are open. -/
def RunState.Holds (n : Nat) (s : RunState) : Prop :=
  s.stats.cursorsOpened = s.stats.cursorsClosed + n

namespace RunState.Holds

variable {n m : Nat} {s : RunState}

theorem openCursor (h : s.Holds n) : s.openCursor.Holds (n + 1) := by
  unfold Holds at h ⊢
  unfold RunState.openCursor
  dsimp only
  omega

theorem closeCursors (h : s.Holds (n + m)) : (s.closeCursors m).Holds n := by
  unfold Holds at h ⊢
  unfold RunState.closeCursors
  dsimp only
  omega

theorem request (h : s.Holds n) (k : Nat) : (s.request k).Holds n := h

theorem countRow (h : s.Holds n) (name : String) : (s.countRow name).Holds n := h

end RunState.Holds

/-! ## Computations -/

/-- The computation leaves as many cursors open as it has found. -/
def Level (c : RunState → α × RunState) : Prop :=
  ∀ n s, s.Holds n → (c s).2.Holds n

namespace Level

/-- A computation that has nothing to do with cursors. -/
theorem quiet {c : RunState → α × RunState}
    (h : ∀ s, (c s).2.stats.cursorsOpened = s.stats.cursorsOpened ∧
      (c s).2.stats.cursorsClosed = s.stats.cursorsClosed) : Level c := by
  intro n s hs
  unfold RunState.Holds at hs ⊢
  rw [(h s).1, (h s).2]
  exact hs

section State

variable {c : StateM RunState α} {k : α → StateM RunState β}

theorem pure (a : α) : Level (Pure.pure a : StateM RunState α) := fun _ _ hs => hs

theorem bind (hc : Level c) (hk : ∀ a, Level (k a)) : Level (c >>= k) :=
  fun n s hs => hk (c s).1 n (c s).2 (hc n s hs)

theorem mapM (h : ∀ a, Level (k a)) (as : List α) : Level (as.mapM k) := by
  induction as with
  | nil => exact pure []
  | cons a rest ih =>
    rw [List.mapM_cons]
    exact (h a).bind fun b => ih.bind fun bs => pure (b :: bs)

theorem filterMapM {k : α → StateM RunState (Option β)} (h : ∀ a, Level (k a)) (as : List α) :
    Level (as.filterMapM k) := by
  induction as with
  | nil => exact pure []
  | cons a rest ih =>
    rw [List.filterMapM_cons]
    refine (h a).bind fun o => ?_
    cases o with
    | none => exact ih
    | some b => exact ih.bind fun bs => pure (b :: bs)

end State

section Failing

variable {c : Run α} {k : α → Run β}

theorem ok (a : α) : Level (Pure.pure a : Run α) := fun _ _ hs => hs

theorem fail (e : Error) : Level (Run.fail e : Run α) := fun _ _ hs => hs

theorem lift (r : Except Error α) : Level (Run.lift r) := fun _ _ hs => hs

theorem andThen (hc : Level c) (hk : ∀ a, Level (k a)) : Level (c >>= k) := by
  intro n s hs
  have hmid := hc n s hs
  rw [Run.bind_apply]
  split
  · next a s' h =>
    rw [h] at hmid
    exact hk a n s' hmid
  · next e s' h =>
    rw [h] at hmid
    exact hmid

theorem runMapM (h : ∀ a, Level (k a)) (as : List α) : Level (as.mapM k) := by
  induction as with
  | nil => exact ok []
  | cons a rest ih =>
    rw [List.mapM_cons]
    exact (h a).andThen fun b => ih.andThen fun bs => ok (b :: bs)

theorem foldlM {k : β → α → Run β} (h : ∀ b a, Level (k b a)) (as : List α) (b : β) :
    Level (as.foldlM k b) := by
  induction as generalizing b with
  | nil => exact ok b
  | cons a rest ih =>
    rw [List.foldlM_cons]
    exact (h b a).andThen ih

theorem forM {k : α → Run Unit} (h : ∀ a, Level (k a)) (as : List α) :
    Level (as.forM k : Run Unit) := by
  induction as with
  | nil => exact ok ()
  | cons a rest ih => exact (h a).andThen fun _ => ih

theorem mapProperties {f : α → Run β} (hf : ∀ a, Level (f a)) (ps : List (String × α)) :
    Level (Constraints.mapProperties f ps) := by
  induction ps with
  | nil => exact ok []
  | cons p rest ih => exact (hf p.2).andThen fun b => ih.andThen fun qs => ok _

theorem constraints {f : α → Run β} (hf : ∀ a, Level (f a)) (g : Constraints α) :
    Level (g.mapM f) := by
  unfold Constraints.mapM
  refine .andThen (.runMapM (fun n => ?_) _) fun nodes =>
    .andThen (.runMapM (fun r => ?_) _) fun rs => .ok _
  · exact (mapProperties hf n.properties).andThen fun ps => .ok _
  · exact (mapProperties hf r.properties).andThen fun ps => .ok _

end Failing

end Level

/-! ## Flows -/

namespace Flow

/-- At its end and at a failure `n` cursors are open.  Where the flow waits, those are open that it
holds besides, and asked again with as many open it is balanced again. -/
def Balanced (n : Nat) : Flow α → Prop
  | .done s => s.Holds n
  | .fail _ s => s.Holds n
  | .emit _ held s rest => s.Holds (n + held) ∧ ∀ t, t.Holds (n + held) → (rest t).Balanced n

/-- However many cursors are open, the flow is balanced with them. -/
def Levels (source : Source α) : Prop :=
  ∀ n s, s.Holds n → (source s).Balanced n

theorem levels_single (a : α) : Levels (single a) :=
  fun _ _ hs => ⟨hs, fun _ ht => ht⟩

theorem levels_ofList (as : List α) : Levels (ofList as) := by
  induction as with
  | nil => exact fun _ _ hs => hs
  | cons a rest ih => exact fun n _ hs => ⟨hs, ih n⟩

theorem levels_ofRun {r : Run (List α)} (hr : Level r) : Levels (ofRun r) := by
  intro n s hs
  have hend := hr n s hs
  unfold ofRun
  split
  · next as s' h =>
    rw [h] at hend
    exact levels_ofList as n s' hend
  · next e s' h =>
    rw [h] at hend
    exact hend

theorem levels_ofOption {r : Run (Option α)} (hr : Level r) : Levels (ofOption r) := by
  intro n s hs
  have hend := hr n s hs
  unfold ofOption
  split
  · next a s' h =>
    rw [h] at hend
    exact levels_single a n s' hend
  · next s' h =>
    rw [h] at hend
    exact hend
  · next e s' h =>
    rw [h] at hend
    exact hend

variable {n : Nat} {f : Flow α}

/-- A flow that runs while another one holds cursors, which goes on at its end. -/
theorem Balanced.before {held : Nat} {next : Source α} (h : f.Balanced (n + held))
    (hnext : ∀ s, s.Holds (n + held) → (next s).Balanced n) : (f.before held next).Balanced n := by
  induction f with
  | done s => exact hnext s h
  | fail e s => exact RunState.Holds.closeCursors h
  | emit a inner s rest ih =>
    unfold Flow.before Balanced
    rw [← Nat.add_assoc]
    exact ⟨h.1, fun t ht => ih t (h.2 t ht)⟩

theorem Balanced.flatMap {k : α → Source β} (h : f.Balanced n) (hk : ∀ a, Levels (k a)) :
    (f.flatMap k).Balanced n := by
  induction f with
  | done s => exact h
  | fail e s => exact h
  | emit a held s rest ih => exact (hk a _ s h.1).before fun t ht => ih t (h.2 t ht)

theorem Balanced.map {k : α → β} (h : f.Balanced n) : (f.map k).Balanced n := by
  induction f with
  | done s => exact h
  | fail e s => exact h
  | emit a held s rest ih => exact ⟨h.1, fun t ht => ih t (h.2 t ht)⟩

theorem levels_inTurn {k : α → Source β} {as : List α} (hk : ∀ a ∈ as, Levels (k a)) :
    Levels (inTurn k as) := by
  induction as with
  | nil => exact fun _ _ hs => hs
  | cons a rest ih =>
    obtain ⟨ha, hrest⟩ := List.forall_mem_cons.1 hk
    intro n s hs
    have hfirst : (k a s).Balanced (n + 0) := ha n s hs
    exact hfirst.before (ih hrest n)

theorem Balanced.orElse {other : Source α} (h : f.Balanced n) (hother : Levels other) :
    (f.orElse other).Balanced n := by
  cases f with
  | done s => exact hother n s h
  | fail e s => exact h
  | emit a held s rest => exact h

theorem Balanced.distinct {κ : Type} [BEq κ] {key : α → κ} (h : f.Balanced n) (seen : List κ) :
    (f.distinct key seen).Balanced n := by
  induction f generalizing seen with
  | done s => exact h
  | fail e s => exact h
  | emit a held s rest ih =>
    unfold Flow.distinct
    split
    · exact ih s (h.2 s h.1) seen
    · exact ⟨h.1, fun t ht => ih t (h.2 t ht) _⟩

theorem Balanced.drop (h : f.Balanced n) (k : Nat) : (f.drop k).Balanced n := by
  induction f generalizing k with
  | done s => cases k <;> exact h
  | fail e s => cases k <;> exact h
  | emit a held s rest ih =>
    cases k with
    | zero => exact h
    | succ k => exact ih s (h.2 s h.1) k

/-- Where the flow stops before its end, it closes the cursors that it holds. -/
theorem Balanced.takeSucc (h : f.Balanced n) (k : Nat) : (f.takeSucc k).Balanced n := by
  induction f generalizing k with
  | done s => cases k <;> exact h
  | fail e s => cases k <;> exact h
  | emit a held s rest ih =>
    cases k with
    | zero => exact ⟨h.1, fun t ht => ht.closeCursors⟩
    | succ k => exact ⟨h.1, fun t ht => ih t (h.2 t ht) k⟩

theorem levels_take {source : Source α} (h : Levels source) (limit : Option Nat) :
    Levels (take limit source) := by
  intro n s hs
  rcases limit with _ | _ | k
  · exact h n s hs
  · exact hs
  · exact (h n s hs).takeSucc k

theorem Balanced.counted (h : f.Balanced n) (name : String) : (f.counted name).Balanced n := by
  induction f with
  | done s => exact h
  | fail e s => exact h
  | emit a held s rest ih => exact ⟨h.1.countRow name, fun t ht => ih t (h.2 t ht)⟩

theorem Balanced.foldRun {k : β → α → Run β} (h : f.Balanced n) (hk : ∀ b a, Level (k b a))
    (b : β) : (f.foldRun k b).2.Holds n := by
  induction f generalizing b with
  | done s => exact h
  | fail e s => exact h
  | emit a held s rest ih =>
    have hstep := hk b a _ s h.1
    unfold Flow.foldRun
    split
    · next b' s' hrun =>
      rw [hrun] at hstep
      exact ih s' (h.2 s' hstep) b'
    · next e s' hrun =>
      rw [hrun] at hstep
      exact hstep.closeCursors

theorem level_foldRun {source : Source α} (h : Levels source) {k : β → α → Run β}
    (hk : ∀ b a, Level (k b a)) (b : β) :
    Level ((fun s => (source s).foldRun k b) : Run β) :=
  fun n s hs => (h n s hs).foldRun hk b

end Flow

/-! ## Searches -/

namespace Search

variable {q : Search} {m : Match} {next : Match → Source Match}

theorem level_remembered (key : String) {make : StateM RunState Nat} (hmake : Level make) :
    Level (remembered key make) := by
  intro n s hs
  unfold remembered
  split
  · exact hs
  · exact hmake n s hs

/-- The cursor of an estimate is closed at once. -/
theorem level_total (find : Store → Cursor) : Level (total find) := by
  intro n s hs
  unfold total
  dsimp only
  split
  · exact hs.request 1
  · exact (hs.request 1).openCursor.closeCursors

theorem level_unless {c : StateM RunState Nat} (skip : RunState → Bool) (h : Level c) :
    Level (fun s => if skip s then (0, s) else c s : StateM RunState Nat) := by
  intro n s hs
  dsimp only
  split
  · exact hs
  · exact h n s hs

theorem level_nodeEstimate (n : NodeConstraint Value) : Level (q.nodeEstimate n) :=
  level_remembered _ (level_unless _ (level_total _))

theorem level_relationshipEstimate (r : RelationshipConstraint Value) :
    Level (q.relationshipEstimate r) :=
  level_remembered _ (level_unless _ (level_total _))

theorem level_openNodes (q : Search) (m : Match) : Level (q.openNodes m) := by
  refine .filterMapM (fun (n, i) => ?_) _
  dsimp only
  split
  · exact .pure none
  · exact .bind (.bind (level_nodeEstimate n) fun _ => .pure _) fun _ => .pure _

theorem level_openRelationships (q : Search) (m : Match) : Level (q.openRelationships m) := by
  refine .filterMapM (fun (r, i) => ?_) _
  dsimp only
  split
  · exact .pure none
  · exact .bind (.bind (level_relationshipEstimate r) fun _ => .pure _) fun _ => .pure _

theorem level_choose (q : Search) (m : Match) : Level (q.choose m) :=
  (level_openNodes q m).bind fun _ => (level_openRelationships q m).bind fun _ => .pure _

theorem level_fetchVertex (id : String) : Level (q.fetchVertex id) :=
  .quiet fun _ => ⟨rfl, rfl⟩

theorem level_neighbourhood (id : String) (direction : Heading) (types : List String) :
    Level (q.neighbourhood id direction types) :=
  .quiet fun _ => ⟨rfl, rfl⟩

theorem level_nodeCandidates (n : NodeConstraint Value) (i : Nat) :
    Level (q.nodeCandidates m n i) := by
  unfold nodeCandidates
  split
  · exact .pure []
  · split
    · refine (level_fetchVertex _).bind fun o => ?_
      cases o <;> exact .pure _
    · exact .pure []

theorem level_longer (r : RelationshipConstraint Value) (direction : Heading) (p : Path) :
    Level (q.longer m r direction p) := by
  unfold longer
  refine (level_neighbourhood _ _ _).bind fun edges => .filterMapM (fun e => ?_) edges
  dsimp only
  split
  · exact .pure none
  · exact (level_fetchVertex _).bind fun o => .pure _

theorem level_walks (r : RelationshipConstraint Value) (direction : Heading) (left : Nat)
    (p : Path) : Level (q.walks m r direction left p) := by
  induction left generalizing p with
  | zero => exact .pure [p]
  | succ left ih =>
    unfold walks
    exact (level_longer r direction p).bind fun next => (Level.mapM ih next).bind fun _ => .pure _

theorem level_walksWithin (r : RelationshipConstraint Value) (o : Origin) (range : HopRange) :
    Level (q.walksWithin m r o range) := by
  unfold walksWithin
  dsimp only
  split
  · exact .pure []
  · exact (level_walks r _ _ _).bind fun paths => .pure _

theorem level_relationshipCandidates (r : RelationshipConstraint Value) :
    Level (q.relationshipCandidates m r) := by
  intro n s hs
  unfold relationshipCandidates
  split
  · exact hs
  · split
    · exact hs
    · split
      · exact ((level_neighbourhood _ _ _).bind fun edges => .pure _ : Level (q.hops m r _)) n s hs
      · exact level_walksWithin r _ _ n s hs

section Next

variable (hnext : ∀ m, Flow.Levels (next m))

include hnext

theorem levels_proceed (unmatched : Match) (ms : List Match) :
    Flow.Levels (q.proceed next unmatched ms) := by
  unfold proceed
  split
  · exact hnext unmatched
  · exact Flow.levels_inTurn fun m _ => hnext m

/-- The cursor is open from the start and is closed at the end. -/
theorem balanced_seeds (node : NodeConstraint Value) (i : Nat) (matched : Bool) (ids : List String)
    {n : Nat} {s : RunState} (hs : s.Holds (n + 1)) :
    (q.seeds next m node i matched ids s).Balanced n := by
  induction ids generalizing matched s with
  | nil =>
    unfold seeds
    dsimp only
    split
    · exact hnext _ n _ hs.closeCursors
    · exact hs.closeCursors
  | cons id rest ih =>
    unfold seeds
    split
    · exact (hnext _ _ s hs).before fun t ht => ih true ht
    · exact ih matched hs

theorem levels_seedNode (node : NodeConstraint Value) (i : Nat) :
    Flow.Levels (q.seedNode next m node i) := by
  intro n s hs
  unfold seedNode
  split
  · exact levels_proceed hnext _ _ n s hs
  · dsimp only
    split
    · exact levels_proceed hnext _ _ n _ (hs.request 1)
    · exact balanced_seeds hnext node i false _ (hs.request 1).openCursor

theorem levels_expand (c : ConstraintId) : Flow.Levels (q.expand next m c) := by
  intro n s hs
  unfold expand
  cases c with
  | node i =>
    dsimp only
    split
    · exact hs
    · next node _ =>
      split
      · exact levels_proceed hnext _ _ n _ (level_nodeCandidates node i n s hs)
      · exact levels_seedNode hnext node i n s hs
  | relationship i =>
    dsimp only
    split
    · exact hs
    · next r _ => exact levels_proceed hnext _ _ n _ (level_relationshipCandidates r n s hs)

end Next

theorem levels_complete (q : Search) (left : Nat) (m : Match) : Flow.Levels (q.complete left m) := by
  induction left generalizing m with
  | zero => exact Flow.levels_single m
  | succ left ih =>
    intro n s hs
    have hchosen := level_choose q m n s hs
    unfold complete
    split
    · next s' h =>
      rw [h] at hchosen
      exact hchosen
    · next c s' h =>
      rw [h] at hchosen
      exact levels_expand ih c n s' hchosen

/-- A search closes its cursors, at its end as well as where another search inside it fails. -/
theorem levels_flow (q : Search) (row : Row) : Flow.Levels (q.flow row) := by
  intro n s hs
  unfold flow
  split
  · exact hs
  · exact Flow.levels_inTurn (fun m _ => levels_complete q m.openCount m) n s hs

end Search

end PropertyGraph
