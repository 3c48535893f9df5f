import PropertyGraph.Proofs.Run.Alike

/-!
# What a flow gives, as a list

A computation that only reads comes to one result from all states that hold the same store, and a
flow of such computations gives one list of items, whoever asks for them and whatever is done in
between, as long as an invariant of the states is kept:

    Comes I c a         from a state of the invariant, `c` comes to `a` and to such a state
    Flow.Gives I f as   asked from such states only, `f` gives the items `as`, and then it ends
    Flow.Fails I f      asked from such states only, `f` ends with a failure

Each way of putting flows together is an operation on lists.
-/

namespace PropertyGraph

variable {α β : Type} {I : RunState → Prop}

/-! ## Computations -/

/-- What happens to the counters does not touch the invariant. -/
def Unmetered (I : RunState → Prop) : Prop :=
  ∀ s, I s → ∀ n, I { s with stats := n }

/-- From a state of the invariant the computation comes to a result and to such a state. -/
def Comes (I : RunState → Prop) (c : Run α) (a : α) : Prop :=
  ∀ s, I s → ∃ s', c s = (.ok a, s') ∧ I s'

/-- Both states have the invariant. -/
def Both (I : RunState → Prop) (s t : RunState) : Prop :=
  I s ∧ I t

theorem Unmetered.both (h : Unmetered I) : Uncounted (Both I) :=
  fun s t hst n m => ⟨h s hst.1 n, h t hst.2 m⟩

namespace Comes

variable {c : Run α} {k : α → Run β}

theorem pure (a : α) : Comes I (Pure.pure a : Run α) a :=
  fun s hs => ⟨s, rfl, hs⟩

theorem bind {a : α} {b : β} (hc : Comes I c a) (hk : Comes I (k a) b) : Comes I (c >>= k) b := by
  intro s hs
  obtain ⟨s', hrun, hs'⟩ := hc s hs
  rw [Run.bind_apply, hrun]
  exact hk s' hs'

/-- What is blind comes from all states of the invariant to what it comes to from one of them. -/
theorem of_run (hc : Blind (Both I) c) {s t : RunState} (hs : I s) {a : α}
    (h : c s = (.ok a, t)) : Comes I c a := by
  intro u hu
  obtain ⟨hres, -, -, hu'⟩ := hc s u ⟨hs, hu⟩
  rw [h] at hres
  exact ⟨(c u).2, Prod.ext hres.symm rfl, hu'⟩

/-- What the parts of a computation come to that has come to something as a whole. -/
theorem of_bind (hc : Blind (Both I) c) (hk : ∀ a, Blind (Both I) (k a)) {s t : RunState}
    (hs : I s) {b : β} (h : (c >>= k) s = (.ok b, t)) :
    ∃ a, Comes I c a ∧ Comes I (k a) b := by
  rw [Run.bind_apply] at h
  have hkeep := (hc s s ⟨hs, hs⟩).2.2.1
  cases hrun : c s with
  | mk r s' =>
    rw [hrun] at h hkeep
    cases r with
    | error e => cases h
    | ok a => exact ⟨a, of_run hc hs hrun, of_run (hk a) hkeep h⟩

theorem of_mapM {as : List α} (hk : ∀ a ∈ as, Blind (Both I) (k a)) {s t : RunState} (hs : I s)
    {bs : List β} (h : as.mapM k s = (.ok bs, t)) :
    List.Forall₂ (fun a b => Comes I (k a) b) as bs := by
  induction as generalizing bs s t with
  | nil => cases h; exact List.Forall₂.nil
  | cons a rest ih =>
    obtain ⟨ha, hrest⟩ := List.forall_mem_cons.1 hk
    rw [List.mapM_cons] at h
    obtain ⟨b, hb, hmore⟩ := of_bind ha (fun b => .andThen (.runMapM hrest) fun bs => .ok _) hs h
    obtain ⟨s', hs', hrun⟩ := hmore s hs
    obtain ⟨bs', hbs', hlast⟩ := of_bind (.runMapM hrest) (fun bs => .ok _) hs hs'
    obtain ⟨s'', hs'', -⟩ := hbs' s hs
    obtain ⟨_, hpure, -⟩ := hlast s hs
    cases hpure
    exact List.Forall₂.cons hb (ih hrest hs hs'')

end Comes

/-! ## Flows -/

namespace Flow

/-- Asked from states of the invariant only, the flow gives the items of a list and then ends. -/
inductive Gives (I : RunState → Prop) : Flow α → List α → Prop where
  | done {s : RunState} (hs : I s) : Gives I (.done s) []
  | emit {a : α} {held : Nat} {s : RunState} {rest : RunState → Flow α} {as : List α} (hs : I s)
    (hrest : ∀ s', I s' → Gives I (rest s') as) : Gives I (.emit a held s rest) (a :: as)

/-- Started from any state of the invariant, the source gives the items of a list. -/
def Lists (I : RunState → Prop) (f : Source α) (as : List α) : Prop :=
  ∀ s, I s → (f s).Gives I as

variable {f : Flow α} {as : List α} {bs : List β}

/-! ### Making flows -/

theorem lists_single (a : α) : Lists I (single a) [a] :=
  fun _ hs => .emit hs fun _ hs' => .done hs'

theorem lists_ofList (as : List α) : Lists I (ofList as) as := by
  induction as with
  | nil => exact fun _ hs => .done hs
  | cons a rest ih => exact fun _ hs => .emit hs ih

theorem lists_ofRun {c : Run (List α)} (h : Comes I c as) : Lists I (ofRun c) as := by
  intro s hs
  obtain ⟨s', hrun, hs'⟩ := h s hs
  unfold ofRun
  rw [hrun]
  exact lists_ofList as s' hs'

theorem lists_ofOption {c : Run (Option α)} {o : Option α} (h : Comes I c o) :
    Lists I (ofOption c) o.toList := by
  intro s hs
  obtain ⟨s', hrun, hs'⟩ := h s hs
  unfold ofOption
  rw [hrun]
  cases o with
  | none => exact .done hs'
  | some a => exact lists_single a s' hs'

/-! ### Putting flows together -/

theorem Gives.before {next : Source α} {held : Nat} {more : List α} (h : f.Gives I as)
    (hnext : Lists I next more) : (f.before held next).Gives I (as ++ more) := by
  induction h with
  | done hs => exact hnext _ hs
  | emit hs _ ih => exact .emit hs ih

theorem Gives.flatMap {k : α → Source β} {parts : List (List β)} (h : f.Gives I as)
    (hk : List.Forall₂ (fun a part => Lists I (k a) part) as parts) :
    (f.flatMap k).Gives I parts.flatten := by
  induction h generalizing parts with
  | done hs => cases hk; exact .done hs
  | emit hs _ ih =>
    cases hk with
    | cons ha hrest =>
      rw [List.flatten_cons]
      exact (ha _ hs).before fun s' hs' => ih s' hs' hrest

theorem Gives.map {k : α → β} (h : f.Gives I as) : (f.map k).Gives I (as.map k) := by
  induction h with
  | done hs => exact .done hs
  | emit hs _ ih => exact .emit hs ih

theorem lists_inTurn {k : α → Source β} {parts : List (List β)}
    (h : List.Forall₂ (fun a part => Lists I (k a) part) as parts) :
    Lists I (inTurn k as) parts.flatten := by
  induction h with
  | nil => exact fun _ hs => .done hs
  | cons ha _ ih =>
    intro s hs
    rw [List.flatten_cons]
    exact (ha s hs).before ih

theorem Gives.orElse {other : Source α} {more : List α} (h : f.Gives I as)
    (hother : Lists I other more) :
    (f.orElse other).Gives I (if as.isEmpty then more else as) := by
  cases h with
  | done hs => exact hother _ hs
  | emit hs hrest => exact .emit hs hrest

/-! ### Choosing items -/

/-- The items without those the same as an earlier one in what `key` gives; `seen` are the keys so
far. -/
def firsts {κ : Type} [BEq κ] (key : α → κ) (seen : List κ) : List α → List α
  | [] => []
  | a :: rest =>
    if seen.contains (key a) then firsts key seen rest else a :: firsts key (key a :: seen) rest

theorem Gives.distinct {κ : Type} [BEq κ] {key : α → κ} (h : f.Gives I as) (seen : List κ) :
    (f.distinct key seen).Gives I (firsts key seen as) := by
  induction h generalizing seen with
  | done hs => exact .done hs
  | emit hs _ ih =>
    unfold Flow.distinct firsts
    split
    · exact ih _ hs seen
    · exact .emit hs fun s' hs' => ih s' hs' _

theorem Gives.drop (h : f.Gives I as) (n : Nat) : (f.drop n).Gives I (as.drop n) := by
  induction h generalizing n with
  | done hs =>
    rw [List.drop_nil]
    unfold Flow.drop
    exact .done hs
  | emit hs hrest ih =>
    cases n with
    | zero => exact .emit hs hrest
    | succ n => exact ih _ hs n

theorem Gives.takeSucc (hI : Unmetered I) (h : f.Gives I as) (n : Nat) :
    (f.takeSucc n).Gives I (as.take (n + 1)) := by
  induction h generalizing n with
  | done hs =>
    rw [List.take_nil]
    unfold Flow.takeSucc
    exact .done hs
  | emit hs _ ih =>
    rw [List.take_succ_cons]
    unfold Flow.takeSucc
    refine .emit hs fun s' hs' => ?_
    cases n with
    | zero => exact .done (hI _ hs' _)
    | succ n => exact ih s' hs' n

theorem Lists.take {source : Source α} (hI : Unmetered I) (h : Lists I source as) (n : Nat) :
    Lists I (Flow.take (some n) source) (as.take n) := by
  intro s hs
  cases n with
  | zero => exact .done hs
  | succ n => exact (h s hs).takeSucc hI n

theorem Gives.counted (hI : Unmetered I) (h : f.Gives I as) (name : String) :
    (f.counted name).Gives I as := by
  induction h with
  | done hs => exact .done hs
  | emit hs _ ih => exact .emit (hI _ hs _) ih

/-! ### Failing -/

/-- Asked from states of the invariant only, the flow fails sooner or later. -/
inductive Fails (I : RunState → Prop) : Flow α → Prop where
  | fail (e : Error) (s : RunState) : Fails I (.fail e s)
  | emit {a : α} {held : Nat} {s : RunState} {rest : RunState → Flow α} (hs : I s)
    (hrest : ∀ s', I s' → Fails I (rest s')) : Fails I (.emit a held s rest)

theorem fails_ofOption {c : Run (Option α)} {s t : RunState} {e : Error}
    (h : c s = (.error e, t)) : (ofOption c s).Fails I := by
  unfold ofOption
  rw [h]
  exact .fail e t

theorem Fails.before {next : Source α} {held : Nat} (h : f.Fails I) :
    (f.before held next).Fails I := by
  induction h with
  | fail e s => exact .fail e _
  | emit hs _ ih => exact .emit hs ih

theorem Gives.before_fails {next : Source α} {held : Nat} (h : f.Gives I as)
    (hnext : ∀ s, I s → (next s).Fails I) : (f.before held next).Fails I := by
  induction h with
  | done hs => exact hnext _ hs
  | emit hs _ ih => exact .emit hs ih

theorem Fails.orElse {other : Source α} (h : f.Fails I) : (f.orElse other).Fails I := by
  cases h with
  | fail e s => exact .fail e s
  | emit hs hrest => exact .emit hs hrest

/-- The flows of some items in turn fail if what decides which of them fail does so in turn. -/
theorem Gives.flatMap_fails {γ : Type} {k : α → Source β} {d : α → Except Error γ}
    (h : f.Gives I as) (hlists : ∀ a ∈ as, ∀ c, d a = .ok c → ∃ part, Lists I (k a) part)
    (hfails : ∀ a ∈ as, ∀ e, d a = .error e → ∀ s, I s → (k a s).Fails I) {e : Error}
    (hmap : as.mapM d = .error e) : (f.flatMap k).Fails I := by
  induction h with
  | done hs => cases hmap
  | @emit a held s rest as hs _ ih =>
    obtain ⟨hlist, hlists⟩ := List.forall_mem_cons.1 hlists
    obtain ⟨hfail, hfails⟩ := List.forall_mem_cons.1 hfails
    rw [List.mapM_cons] at hmap
    cases ha : d a with
    | error e' => exact (hfail e' ha s hs).before
    | ok c =>
      obtain ⟨part, hpart⟩ := hlist c ha
      refine (hpart s hs).before_fails fun s' hs' => ih s' hs' hlists hfails ?_
      rw [ha] at hmap
      cases hrest : as.mapM d with
      | error e' => rw [hrest] at hmap; exact hmap
      | ok cs => rw [hrest] at hmap; cases hmap

/-- A flow that fails has no list of items. -/
theorem Fails.gather (h : f.Fails I) (acc : List α) :
    ∃ e s, f.foldRun (fun items a => pure (a :: items)) acc = (.error e, s) := by
  induction h generalizing acc with
  | fail e s => exact ⟨e, s, rfl⟩
  | @emit a held s rest hs _ ih =>
    obtain ⟨e, s', hrun⟩ := ih s hs (a :: acc)
    exact ⟨e, s', hrun⟩

theorem not_fails_of_toList {source : Source α} {s t : RunState} {items : List α}
    (h : toList source s = (.ok items, t)) : ¬ (source s).Fails I := by
  intro hfails
  obtain ⟨e, s', hrun⟩ := hfails.gather []
  unfold toList Flow.gather at h
  rw [hrun] at h
  cases h

/-! ### Consumed -/

/-- Items put into a result one after the other. -/
theorem Gives.foldRun {step : β → α → Run β} (hstep : ∀ b a, Blind (Both I) (step b a))
    (h : f.Gives I as) {b b' : β} (hfold : Comes I (as.foldlM step b) b') :
    ∃ s', f.foldRun step b = (.ok b', s') ∧ I s' := by
  induction h generalizing b with
  | @done s hs =>
    obtain ⟨s', hrun, hs'⟩ := hfold s hs
    cases hrun
    exact ⟨s, rfl, hs⟩
  | @emit a held s rest as hs _ ih =>
    obtain ⟨t, hrun, -⟩ := hfold s hs
    rw [List.foldlM_cons] at hrun
    obtain ⟨b₁, hb₁, hmore⟩ := Comes.of_bind (hstep b a)
      (fun b₁ => .foldlM (fun b' a' _ => hstep b' a') b₁) hs hrun
    obtain ⟨s', hs', hI'⟩ := hb₁ s hs
    unfold Flow.foldRun
    rw [hs']
    exact ih s' hI' hmore

theorem Gives.gather (h : f.Gives I as) (acc : List α) :
    ∃ s', f.foldRun (fun items a => pure (a :: items)) acc = (.ok (as.reverse ++ acc), s') ∧
      I s' := by
  induction h generalizing acc with
  | @done s hs => exact ⟨s, rfl, hs⟩
  | @emit a held s rest as hs _ ih =>
    obtain ⟨s', hrun, hs'⟩ := ih s hs (a :: acc)
    rw [List.reverse_cons, List.append_assoc]
    exact ⟨s', hrun, hs'⟩

/-- Asked for everything at once, a flow gives its items. -/
theorem Lists.toList {source : Source α} (h : Lists I source as) : Comes I (toList source) as := by
  intro s hs
  obtain ⟨s', hrun, hs'⟩ := (h s hs).gather []
  refine ⟨s', ?_, hs'⟩
  unfold Flow.toList Flow.gather
  rw [hrun, List.append_nil]
  simp only [List.reverse_reverse]

end Flow

end PropertyGraph
