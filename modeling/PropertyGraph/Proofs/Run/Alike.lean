import PropertyGraph.Proofs.Run.Rows

/-!
# Runs from related states

Two runs of one computation, each from its own state, stay alike where all that the computation
looks at is the same in both states.  What may differ is a relation between the states, which no
step looks into:

    Blind R c           from related states, computation `c` comes to one result and related states
    Flow.Alike R f g    the flows give the same items, end alike and leave related states, if the
                        states are related whenever they are asked for an item
-/

namespace PropertyGraph

variable {α β γ : Type} {R : RunState → RunState → Prop}

/-! ## Computations -/

/-- From related states the computation comes to one result, of which `P` holds, and to related
states. -/
def BlindTo (R : RunState → RunState → Prop) (P : α → Prop) (c : RunState → α × RunState) : Prop :=
  ∀ s t, R s t → (c s).1 = (c t).1 ∧ P (c s).1 ∧ R (c s).2 (c t).2

/-- From related states the computation comes to one result and to related states. -/
abbrev Blind (R : RunState → RunState → Prop) (c : RunState → α × RunState) : Prop :=
  BlindTo R (fun _ => True) c

/-- States that are related stay so whatever happens to their counters. -/
def Uncounted (R : RunState → RunState → Prop) : Prop :=
  ∀ s t, R s t → ∀ n m, R { s with stats := n } { t with stats := m }

namespace BlindTo

variable {c : StateM RunState α} {k : α → StateM RunState β} {P : α → Prop} {Q : β → Prop}

theorem pure {a : α} (h : P a) : BlindTo R P (Pure.pure a : StateM RunState α) :=
  fun _ _ hst => ⟨rfl, h, hst⟩

theorem bind (hc : BlindTo R P c) (hk : ∀ a, P a → BlindTo R Q (k a)) :
    BlindTo R Q (c >>= k) := by
  intro s t h
  obtain ⟨hres, hP, hst⟩ := hc s t h
  show (k (c s).1 (c s).2).1 = (k (c t).1 (c t).2).1 ∧ Q (k (c s).1 (c s).2).1 ∧
    R (k (c s).1 (c s).2).2 (k (c t).1 (c t).2).2
  rw [← hres]
  exact hk _ hP _ _ hst

theorem mapM {as : List α} (h : ∀ a ∈ as, BlindTo R Q (k a)) :
    BlindTo R (∀ b ∈ ·, Q b) (as.mapM k) := by
  induction as with
  | nil => exact pure nofun
  | cons a rest ih =>
    rw [List.mapM_cons]
    refine bind (h a List.mem_cons_self) fun b hb => ?_
    refine bind (ih fun x hx => h x (List.mem_cons_of_mem _ hx)) fun bs hbs => ?_
    exact pure (List.forall_mem_cons.2 ⟨hb, hbs⟩)

theorem filterMapM {as : List α} {k : α → StateM RunState (Option β)}
    (h : ∀ a ∈ as, BlindTo R (∀ b ∈ ·, Q b) (k a)) :
    BlindTo R (∀ b ∈ ·, Q b) (as.filterMapM k) := by
  induction as with
  | nil => exact pure nofun
  | cons a rest ih =>
    rw [List.filterMapM_cons]
    have hrest := ih fun x hx => h x (List.mem_cons_of_mem _ hx)
    refine bind (h a List.mem_cons_self) fun o ho => ?_
    cases o with
    | none => exact hrest
    | some b =>
      exact bind hrest fun bs hbs => pure (List.forall_mem_cons.2 ⟨ho b rfl, hbs⟩)

end BlindTo

namespace Blind

variable {c : Run α} {k : α → Run β}

theorem ok (a : α) : Blind R (Pure.pure a : Run α) :=
  fun _ _ h => ⟨rfl, trivial, h⟩

theorem fail (e : Error) : Blind R (Run.fail e : Run α) :=
  fun _ _ h => ⟨rfl, trivial, h⟩

theorem lift (r : Except Error α) : Blind R (Run.lift r) :=
  fun _ _ h => ⟨rfl, trivial, h⟩

theorem andThen (hc : Blind R c) (hk : ∀ a, Blind R (k a)) : Blind R (c >>= k) := by
  intro s t h
  rw [Run.bind_apply, Run.bind_apply]
  obtain ⟨hres, -, hst⟩ := hc s t h
  cases hs : c s with
  | mk r s' =>
    cases ht : c t with
    | mk r' t' =>
      rw [hs, ht] at hres hst
      cases hres
      cases r with
      | error e => exact ⟨rfl, trivial, hst⟩
      | ok a => exact hk a s' t' hst

theorem foldl {f : β × RunState → α → β × RunState} (hf : ∀ b a, Blind R fun s => f (b, s) a)
    (as : List α) (b : β) : Blind R fun s => as.foldl f (b, s) := by
  induction as generalizing b with
  | nil => exact fun _ _ h => ⟨rfl, trivial, h⟩
  | cons a rest ih =>
    intro s t h
    obtain ⟨heq, -, hst⟩ := hf b a s t h
    dsimp only at heq hst
    simp only [List.foldl_cons]
    cases hs : f (b, s) a with
    | mk b' s' =>
      cases ht : f (b, t) a with
      | mk c t' =>
        rw [hs, ht] at heq hst
        cases heq
        exact ih b' s' t' hst

theorem foldlOk {f : β × RunState → α → β × RunState} (hf : ∀ b a, Blind R fun s => f (b, s) a)
    (as : List α) (b : β) :
    Blind R ((fun s => (.ok (as.foldl f (b, s)).1, (as.foldl f (b, s)).2)) : Run β) :=
  fun s t h => ⟨congrArg Except.ok (foldl hf as b s t h).1, trivial, (foldl hf as b s t h).2.2⟩

theorem runMapM {as : List α} (h : ∀ a ∈ as, Blind R (k a)) : Blind R (as.mapM k) := by
  induction as with
  | nil => exact ok []
  | cons a rest ih =>
    rw [List.mapM_cons]
    refine andThen (h a List.mem_cons_self) fun b => ?_
    exact andThen (ih fun x hx => h x (List.mem_cons_of_mem _ hx)) fun bs => ok _

theorem foldlM {k : β → α → Run β} {as : List α} (h : ∀ b, ∀ a ∈ as, Blind R (k b a)) (b : β) :
    Blind R (as.foldlM k b) := by
  induction as generalizing b with
  | nil => exact ok b
  | cons a rest ih =>
    rw [List.foldlM_cons]
    refine andThen (h b a List.mem_cons_self) fun b' => ?_
    exact ih (fun x y hy => h x y (List.mem_cons_of_mem _ hy)) b'

theorem forM {k : α → Run Unit} {as : List α} (h : ∀ a ∈ as, Blind R (k a)) :
    Blind R (as.forM k : Run Unit) := by
  induction as with
  | nil => exact ok _
  | cons a rest ih =>
    rw [List.forM]
    refine andThen (h a List.mem_cons_self) fun _ => ?_
    exact ih fun x hx => h x (List.mem_cons_of_mem _ hx)

theorem mapProperties {f : α → Run β} (hf : ∀ a, Blind R (f a)) (ps : List (String × α)) :
    Blind R (Constraints.mapProperties f ps) := by
  induction ps with
  | nil => exact ok []
  | cons p rest ih => exact andThen (hf p.2) fun b => andThen ih fun qs => ok _

theorem constraints {f : α → Run β} (hf : ∀ a, Blind R (f a)) (g : Constraints α) :
    Blind R (g.mapM f) := by
  unfold Constraints.mapM
  refine andThen (runMapM fun n _ => ?_) fun nodes => andThen (runMapM fun r _ => ?_) fun rs => ok _
  · exact andThen (mapProperties hf n.properties) fun ps => ok _
  · exact andThen (mapProperties hf r.properties) fun ps => ok _

end Blind

/-! ## Flows -/

namespace Flow

/-- The flows give the same items and end alike, and their states are related at every item and at
the end, if they are whenever an item is asked for. -/
inductive Alike (R : RunState → RunState → Prop) : Flow α → Flow α → Prop
  | done {s t : RunState} : R s t → Alike R (.done s) (.done t)
  | fail {e : Error} {s t : RunState} : R s t → Alike R (.fail e s) (.fail e t)
  | emit {a : α} {held : Nat} {s t : RunState} {rest rest' : RunState → Flow α} : R s t →
    (∀ s t, R s t → Alike R (rest s) (rest' t)) →
    Alike R (.emit a held s rest) (.emit a held t rest')

/-- From related states the sources become flows that are alike. -/
def Twins (R : RunState → RunState → Prop) (f g : Source α) : Prop :=
  ∀ s t, R s t → Alike R (f s) (g t)

section Made

theorem twins_single (a : α) : Twins R (single a) (single a) :=
  fun _ _ h => .emit h fun _ _ h => .done h

theorem twins_ofList (as : List α) : Twins R (ofList as) (ofList as) := by
  induction as with
  | nil => exact fun _ _ h => .done h
  | cons a rest ih => exact fun _ _ h => .emit h ih

theorem twins_ofRun {r : Run (List α)} (hr : Blind R r) : Twins R (ofRun r) (ofRun r) := by
  intro s t h
  obtain ⟨hres, -, hst⟩ := hr s t h
  unfold ofRun
  cases hs : r s with
  | mk o s' =>
    cases ht : r t with
    | mk o' t' =>
      rw [hs, ht] at hres hst
      cases hres
      cases o with
      | error e => exact .fail hst
      | ok as => exact twins_ofList as s' t' hst

theorem twins_ofOption {r : Run (Option α)} (hr : Blind R r) :
    Twins R (ofOption r) (ofOption r) := by
  intro s t h
  obtain ⟨hres, -, hst⟩ := hr s t h
  unfold ofOption
  cases hs : r s with
  | mk o s' =>
    cases ht : r t with
    | mk o' t' =>
      rw [hs, ht] at hres hst
      cases hres
      rcases o with e | _ | a
      · exact .fail hst
      · exact .done hst
      · exact twins_single a s' t' hst

end Made

section Joined

variable {f g : Flow α}

theorem Alike.before {next next' : Source α} {held : Nat} (hR : Uncounted R) (h : Alike R f g)
    (hnext : Twins R next next') : Alike R (f.before held next) (g.before held next') := by
  induction h with
  | done hst => exact hnext _ _ hst
  | fail hst => exact .fail (hR _ _ hst _ _)
  | emit hst _ ih => exact .emit hst ih

theorem Alike.flatMap {k k' : α → Source β} (hR : Uncounted R) (h : Alike R f g)
    (hk : ∀ a, Twins R (k a) (k' a)) : Alike R (f.flatMap k) (g.flatMap k') := by
  induction h with
  | done hst => exact .done hst
  | fail hst => exact .fail hst
  | emit hst _ ih => exact (hk _ _ _ hst).before hR ih

theorem Alike.map {k : α → β} (h : Alike R f g) : Alike R (f.map k) (g.map k) := by
  induction h with
  | done hst => exact .done hst
  | fail hst => exact .fail hst
  | emit hst _ ih => exact .emit hst ih

theorem twins_inTurn {k k' : α → Source β} (hR : Uncounted R) {as : List α}
    (hk : ∀ a ∈ as, Twins R (k a) (k' a)) : Twins R (inTurn k as) (inTurn k' as) := by
  induction as with
  | nil => exact fun _ _ h => .done h
  | cons a rest ih =>
    intro s t h
    refine (hk a List.mem_cons_self s t h).before hR ?_
    exact ih fun x hx => hk x (List.mem_cons_of_mem _ hx)

theorem Alike.orElse {other other' : Source α} (h : Alike R f g) (hother : Twins R other other') :
    Alike R (f.orElse other) (g.orElse other') := by
  cases h with
  | done hst => exact hother _ _ hst
  | fail hst => exact .fail hst
  | emit hst hrest => exact .emit hst hrest

end Joined

section Chosen

variable {f g : Flow α}

theorem Alike.distinct {κ : Type} [BEq κ] {key : α → κ} (h : Alike R f g) (seen : List κ) :
    Alike R (f.distinct key seen) (g.distinct key seen) := by
  induction h generalizing seen with
  | done hst => exact .done hst
  | fail hst => exact .fail hst
  | emit hst _ ih =>
    unfold Flow.distinct
    split
    · exact ih _ _ hst seen
    · exact .emit hst fun s t h => ih s t h _

theorem Alike.drop (h : Alike R f g) (n : Nat) : Alike R (f.drop n) (g.drop n) := by
  induction h generalizing n with
  | done hst => cases n <;> exact .done hst
  | fail hst => cases n <;> exact .fail hst
  | emit hst hrest ih =>
    cases n with
    | zero => exact .emit hst hrest
    | succ n => exact ih _ _ hst n

theorem Alike.takeSucc (hR : Uncounted R) (h : Alike R f g) (n : Nat) :
    Alike R (f.takeSucc n) (g.takeSucc n) := by
  induction h generalizing n with
  | done hst => cases n <;> exact .done hst
  | fail hst => cases n <;> exact .fail hst
  | emit hst _ ih =>
    cases n with
    | zero => exact .emit hst fun s t h => .done (hR _ _ h _ _)
    | succ n => exact .emit hst fun s t h => ih s t h n

theorem Twins.take {f g : Source α} (hR : Uncounted R) (h : Twins R f g) (limit : Option Nat) :
    Twins R (take limit f) (take limit g) := by
  intro s t hst
  rcases limit with _ | _ | n
  · exact h s t hst
  · exact .done hst
  · exact (h s t hst).takeSucc hR n

theorem Alike.counted (hR : Uncounted R) (h : Alike R f g) (name : String) :
    Alike R (f.counted name) (g.counted name) := by
  induction h with
  | done hst => exact .done hst
  | fail hst => exact .fail hst
  | emit hst _ ih => exact .emit (hR _ _ hst _ _) ih

end Chosen

/-! ## Consumed -/

theorem Alike.foldRun (hR : Uncounted R) {f g : Flow α} {step : β → α → Run β}
    (h : Alike R f g) (hstep : ∀ b a, Blind R (step b a)) (b : β) :
    (f.foldRun step b).1 = (g.foldRun step b).1 ∧
      R (f.foldRun step b).2 (g.foldRun step b).2 := by
  induction h generalizing b with
  | done hst => exact ⟨rfl, hst⟩
  | fail hst => exact ⟨rfl, hst⟩
  | @emit a held s t rest rest' hst _ ih =>
    obtain ⟨hres, -, hst'⟩ := hstep b a s t hst
    unfold Flow.foldRun
    cases hs : step b a s with
    | mk r s' =>
      cases ht : step b a t with
      | mk r' t' =>
        rw [hs, ht] at hres hst'
        cases hres
        cases r with
        | error e => exact ⟨rfl, hR _ _ hst' _ _⟩
        | ok b' => exact ih s' t' hst' b'

theorem Twins.foldRun (hR : Uncounted R) {f : Source α} {step : β → α → Run β}
    (h : Twins R f f) (hstep : ∀ b a, Blind R (step b a)) (b : β) :
    Blind R fun s => (f s).foldRun step b := by
  intro s t hst
  obtain ⟨hres, hst'⟩ := (h s t hst).foldRun hR hstep b
  exact ⟨hres, trivial, hst'⟩

/-- All items of a source at once, as a fold and what is made of its result. -/
theorem toList_eq (f : Source α) : toList f =
    ((fun s => (f s).foldRun (fun items a => pure (a :: items)) []) : Run (List α)) >>=
      fun items => pure items.reverse := by
  funext s
  rw [Run.bind_apply]
  unfold toList gather
  cases (f s).foldRun (fun items a => pure (a :: items)) [] with
  | mk r s' => cases r <;> rfl

theorem Twins.toList (hR : Uncounted R) {f : Source α} (h : Twins R f f) :
    Blind R (toList f) := by
  rw [toList_eq]
  exact .andThen (h.foldRun hR (fun items a => Blind.ok (a :: items)) []) fun items => Blind.ok _

end Flow

end PropertyGraph
