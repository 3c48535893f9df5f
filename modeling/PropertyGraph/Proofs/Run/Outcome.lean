import Mathlib.Data.List.Forall2
import PropertyGraph.Run.Flow

/-!
# What computations on one store come to

A computation that only reads may still count what it does, and a flow hands the state to others
between two items.  As long as nobody touches the store, what the items are is a matter of the store
alone:

    Reads σ c P         started on store `σ`, computation `c` keeps it and results in some `P`
    Flow.Ensures σ f P  whatever else happens to the state on the way, as long as the store stays
                        `σ`, flow `f` keeps it and comes to an outcome of which `P` holds
-/

namespace PropertyGraph

variable {α β : Type} {σ : Store}

/-! ## Computations -/

/-- The computation keeps the store and results in something of which `P` holds. -/
def Reads (σ : Store) (c : StateM RunState α) (P : α → Prop) : Prop :=
  ∀ s, s.store = σ → P (c s).1 ∧ (c s).2.store = σ

namespace Reads

variable {c : StateM RunState α} {f : α → StateM RunState β} {P Q : α → Prop} {R : β → Prop}

theorem pure {a : α} (h : P a) : Reads σ (Pure.pure a) P :=
  fun _ hs => ⟨h, hs⟩

theorem mono (h : Reads σ c P) (hpq : ∀ a, P a → Q a) : Reads σ c Q :=
  fun s hs => ⟨hpq _ (h s hs).1, (h s hs).2⟩

theorem bind (h : Reads σ c P) (hf : ∀ a, P a → Reads σ (f a) R) : Reads σ (c >>= f) R :=
  fun s hs => hf _ (h s hs).1 _ (h s hs).2

theorem map {g : α → β} (h : Reads σ c P) (hg : ∀ a, P a → R (g a)) : Reads σ (g <$> c) R :=
  fun s hs => ⟨hg _ (h s hs).1, (h s hs).2⟩

theorem mapM {as : List α} {S : α → β → Prop} (h : ∀ a ∈ as, Reads σ (f a) (S a)) :
    Reads σ (as.mapM f) (List.Forall₂ S as) := by
  induction as with
  | nil => exact Reads.pure List.Forall₂.nil
  | cons a rest ih =>
    rw [List.mapM_cons]
    refine (h a List.mem_cons_self).bind fun b hb => ?_
    refine (ih fun x hx => h x (List.mem_cons_of_mem _ hx)).bind fun bs hbs => ?_
    exact Reads.pure (List.Forall₂.cons hb hbs)

/-- The results that there are, one for each item at most. -/
theorem filterMapM {as : List α} {f : α → StateM RunState (Option β)} {S : α → Option β → Prop}
    (h : ∀ a ∈ as, Reads σ (f a) (S a)) :
    Reads σ (as.filterMapM f) fun bs => ∃ os, List.Forall₂ S as os ∧ bs = os.filterMap id := by
  induction as with
  | nil => exact Reads.pure ⟨[], List.Forall₂.nil, rfl⟩
  | cons a rest ih =>
    rw [List.filterMapM_cons]
    refine (h a List.mem_cons_self).bind fun o ho => ?_
    have hrest := ih fun x hx => h x (List.mem_cons_of_mem _ hx)
    cases o with
    | none =>
      refine hrest.mono fun bs hbs => ?_
      obtain ⟨os, hos, rfl⟩ := hbs
      exact ⟨none :: os, List.Forall₂.cons ho hos, rfl⟩
    | some b =>
      refine hrest.bind fun bs hbs => ?_
      obtain ⟨os, hos, rfl⟩ := hbs
      exact Reads.pure ⟨some b :: os, List.Forall₂.cons ho hos, rfl⟩

/-- The results where each is a matter of the item alone. -/
theorem filterMapM_eq {as : List α} {f : α → StateM RunState (Option β)} {g : α → Option β}
    (h : ∀ a ∈ as, Reads σ (f a) (· = g a)) : Reads σ (as.filterMapM f) (· = as.filterMap g) := by
  refine (filterMapM h).mono fun bs hbs => ?_
  obtain ⟨os, hos, rfl⟩ := hbs
  have hmap : os = as.map g := by
    induction hos with
    | nil => rfl
    | cons ho _ ih => rw [List.map_cons, ← ih fun a ha => h a (List.mem_cons_of_mem _ ha), ho]
  rw [hmap, List.filterMap_map, Function.id_comp]

end Reads

/-! ## Results in turn -/

theorem mem_flatten_of_forall₂ {R : α → List β → Prop} {M : α → β → Prop}
    (hR : ∀ a bs, R a bs → ∀ b, b ∈ bs ↔ M a b) {as : List α} {parts : List (List β)}
    (h : List.Forall₂ R as parts) (b : β) : b ∈ parts.flatten ↔ ∃ a ∈ as, M a b := by
  induction h with
  | nil => simp
  | cons hab _ ih =>
    rw [List.flatten_cons, List.mem_append, hR _ _ hab, ih]
    simp

theorem exists_of_forall₂ {γ : Type} {R : α → γ → Prop} {as : List α} {cs : List γ}
    (h : List.Forall₂ R as cs) {c : γ} (hc : c ∈ cs) : ∃ a ∈ as, R a c := by
  induction h with
  | nil => cases hc
  | cons hac _ ih =>
    rcases List.mem_cons.1 hc with rfl | hc
    · exact ⟨_, List.mem_cons_self, hac⟩
    · obtain ⟨a, ha, hr⟩ := ih hc
      exact ⟨a, List.mem_cons_of_mem _ ha, hr⟩

theorem forall₂_with_mem {R : α → β → Prop} {as : List α} {bs : List β}
    (h : List.Forall₂ R as bs) : List.Forall₂ (fun a b => a ∈ as ∧ R a b) as bs := by
  induction h with
  | nil => exact List.Forall₂.nil
  | cons hab _ ih =>
    refine List.Forall₂.cons ⟨List.mem_cons_self, hab⟩ (ih.imp fun a b h => ?_)
    exact ⟨List.mem_cons_of_mem _ h.1, h.2⟩

/-- Results of different items that have nothing in common come without repetition. -/
theorem nodup_flatten_of_forall₂ {R : α → List β → Prop} (hR : ∀ a bs, R a bs → bs.Nodup)
    (hdisj : ∀ a a' bs bs' b, R a bs → R a' bs' → b ∈ bs → b ∈ bs' → a = a') {as : List α}
    {parts : List (List β)} (has : as.Nodup) (h : List.Forall₂ R as parts) :
    parts.flatten.Nodup := by
  induction h with
  | nil => exact List.nodup_nil
  | @cons a bs as parts hab hrest ih =>
    obtain ⟨ha, has⟩ := List.nodup_cons.1 has
    rw [List.flatten_cons, List.nodup_append]
    refine ⟨hR a bs hab, ih has, ?_⟩
    rintro b hb _ hb' rfl
    obtain ⟨bs', hbs', hbmem⟩ := List.mem_flatten.1 hb'
    obtain ⟨a', ha', hab'⟩ := exists_of_forall₂ hrest hbs'
    exact ha (hdisj a a' bs bs' b hab hab' hb hbmem ▸ ha')

/-! ## Flows -/

namespace Flow

/-- The flow keeps the store and comes to an outcome of which `P` holds: the list of its items, or
the failure that it ends with. -/
def Ensures (σ : Store) : Flow α → (Except Error (List α) → Prop) → Prop
  | .done s, P => s.store = σ ∧ P (.ok [])
  | .fail e s, P => s.store = σ ∧ P (.error e)
  | .emit a _ s rest, P =>
    s.store = σ ∧ ∀ s', s'.store = σ → (rest s').Ensures σ fun o => P (o.map (a :: ·))

/-- The flow does not fail, and `P` holds of the list of its items. -/
def Yields (σ : Store) (f : Flow α) (P : List α → Prop) : Prop :=
  f.Ensures σ fun o => ∃ items, o = .ok items ∧ P items

variable {f : Flow α} {P Q : Except Error (List α) → Prop}

theorem Ensures.mono (h : f.Ensures σ P) (hpq : ∀ o, P o → Q o) : f.Ensures σ Q := by
  induction f generalizing P Q with
  | done s => exact ⟨h.1, hpq _ h.2⟩
  | fail e s => exact ⟨h.1, hpq _ h.2⟩
  | emit a held s rest ih => exact ⟨h.1, fun s' hs' => ih s' (h.2 s' hs') fun o => hpq _⟩

theorem Yields.mono {P Q : List α → Prop} (h : f.Yields σ P) (hpq : ∀ items, P items → Q items) :
    f.Yields σ Q :=
  Ensures.mono h fun _ ⟨items, ho, hp⟩ => ⟨items, ho, hpq items hp⟩

/-- After an item the flow gives what was to follow it. -/
theorem Yields.rest {P : List α → Prop} {a : α} {held : Nat} {s s' : RunState}
    {rest : RunState → Flow α} (h : (emit a held s rest).Yields σ P) (hs' : s'.store = σ) :
    (rest s').Yields σ fun items => P (a :: items) := by
  refine Ensures.mono (h.2 s' hs') fun o ho => ?_
  obtain ⟨items, heq, hp⟩ := ho
  cases o with
  | error e => cases heq
  | ok more =>
    cases heq
    exact ⟨more, rfl, hp⟩

theorem map_append_cons (a : α) (items : List α) (o : Except Error (List α)) :
    (o.map (items ++ ·)).map (a :: ·) = o.map ((a :: items) ++ ·) := by
  cases o <;> rfl

/-- A flow, and another one at its end. -/
theorem Ensures.before {next : Source α} {held : Nat} (h : f.Ensures σ P)
    (hend : ∀ items, P (.ok items) → ∀ s, s.store = σ →
      (next s).Ensures σ fun o => Q (o.map (items ++ ·)))
    (hfail : ∀ e, P (.error e) → Q (.error e)) : (f.before held next).Ensures σ Q := by
  induction f generalizing P Q with
  | done s =>
    refine (hend [] h.2 s h.1).mono fun o => ?_
    cases o <;> exact id
  | fail e s => exact ⟨h.1, hfail e h.2⟩
  | emit a inner s rest ih =>
    refine ⟨h.1, fun s' hs' => ih s' (h.2 s' hs') (fun items hp s hs => ?_) fun e => hfail e⟩
    simp only [map_append_cons]
    exact hend (a :: items) hp s hs

theorem Yields.before {next : Source α} {held : Nat} {P Q : List α → Prop} (h : f.Yields σ P)
    (hend : ∀ items, P items → ∀ s, s.store = σ →
      (next s).Yields σ fun more => Q (items ++ more)) : (f.before held next).Yields σ Q := by
  refine Ensures.before h (fun items hp s hs => ?_) (fun e hp => ?_)
  · obtain ⟨_, ⟨rfl⟩, hp⟩ := hp
    refine Ensures.mono (hend _ hp s hs) fun o ho => ?_
    obtain ⟨more, rfl, hq⟩ := ho
    exact ⟨_, rfl, hq⟩
  · obtain ⟨_, he, -⟩ := hp
    cases he

theorem yields_done {s : RunState} (hs : s.store = σ) {P : List α → Prop} (h : P []) :
    (Flow.done s : Flow α).Yields σ P :=
  ⟨hs, [], rfl, h⟩

theorem yields_single {s : RunState} (hs : s.store = σ) {P : List α → Prop} {a : α} (h : P [a]) :
    (single a s).Yields σ P :=
  ⟨hs, fun _ hs' => ⟨hs', [a], rfl, h⟩⟩

/-- The flows of several items in turn. -/
theorem yields_inTurn {g : α → Source β} {as : List α} {R : α → List β → Prop}
    (h : ∀ a ∈ as, ∀ s, s.store = σ → (g a s).Yields σ (R a)) {s : RunState} (hs : s.store = σ) :
    (inTurn g as s).Yields σ fun items => ∃ parts, List.Forall₂ R as parts ∧
      items = parts.flatten := by
  induction as generalizing s with
  | nil => exact yields_done hs ⟨[], List.Forall₂.nil, rfl⟩
  | cons a rest ih =>
    refine (h a List.mem_cons_self s hs).before fun items hp s hs => ?_
    refine (ih (fun x hx => h x (List.mem_cons_of_mem _ hx)) hs).mono fun more hmore => ?_
    obtain ⟨parts, hparts, rfl⟩ := hmore
    exact ⟨items :: parts, List.Forall₂.cons hp hparts, rfl⟩

/-! ## Items made of items -/

/-- A flow comes to some outcome. -/
theorem Ensures.outcome (h : f.Ensures σ P) : ∃ o, P o := by
  induction f generalizing P with
  | done s => exact ⟨_, h.2⟩
  | fail e s => exact ⟨_, h.2⟩
  | emit a held s rest ih =>
    obtain ⟨o, ho⟩ := ih s (h.2 s h.1)
    exact ⟨_, ho⟩

/-- A flow without items is at its end. -/
theorem Yields.eq_done (h : f.Yields σ (· = [])) : ∃ s, f = .done s := by
  cases f with
  | done s => exact ⟨s, rfl⟩
  | fail e s =>
    obtain ⟨-, items, heq, -⟩ := h
    cases heq
  | emit a held s rest =>
    obtain ⟨-, items, -, hnil⟩ := (h.rest h.1).outcome
    cases hnil

/-- One item at most of each item of a flow, up to the first failure. -/
theorem Yields.filterMap {f : Flow α} {P : List α → Prop} (h : f.Yields σ P) {g : α → Source β}
    {r : α → Except Error (Option β)}
    (hg : ∀ a s, s.store = σ → (g a s).Ensures σ (· = (r a).map Option.toList)) :
    (f.flatMap g).Ensures σ fun o => ∃ items, P items ∧
      o = (items.mapM r).map fun os => os.filterMap id := by
  induction f generalizing P with
  | done s =>
    obtain ⟨hs, items, heq, hp⟩ := h
    cases heq
    exact ⟨hs, [], hp, rfl⟩
  | fail e s =>
    obtain ⟨-, items, heq, -⟩ := h
    cases heq
  | emit a held s rest ih =>
    have hrest : ∀ s', s'.store = σ → (rest s').Yields σ fun items => P (a :: items) :=
      fun s' hs' => h.rest hs'
    refine Ensures.before (hg a s h.1) (fun new hnew s' hs' => ?_) fun e he => ?_
    · refine (ih s' (hrest s' hs')).mono fun o ho => ?_
      obtain ⟨items, hp, rfl⟩ := ho
      refine ⟨a :: items, hp, ?_⟩
      rw [List.mapM_cons]
      cases hr : r a with
      | error e => rw [hr] at hnew; cases hnew
      | ok found =>
        rw [hr] at hnew
        cases hnew
        cases items.mapM r with
        | error e => rfl
        | ok os => cases found <;> rfl
    · obtain ⟨-, items, -, hp⟩ := (hrest s h.1).outcome
      refine ⟨a :: items, hp, ?_⟩
      rw [List.mapM_cons]
      cases hr : r a with
      | error e' => rw [hr] at he; cases he; rfl
      | ok found => rw [hr] at he; cases he

/-- A flow, or one item if it gives none. -/
theorem Ensures.orElse (h : f.Ensures σ P) (a : α) : (f.orElse (single a)).Ensures σ fun o =>
    ∃ o', P o' ∧ o = o'.map fun items => if items.isEmpty then [a] else items := by
  cases f with
  | done s => exact ⟨h.1, fun s' hs' => ⟨hs', _, h.2, rfl⟩⟩
  | fail e s => exact ⟨h.1, _, h.2, rfl⟩
  | emit b held s rest =>
    refine ⟨h.1, fun s' hs' => (h.2 s' hs').mono fun o ho => ⟨_, ho, ?_⟩⟩
    cases o <;> rfl

/-! ## Consumed at once -/

theorem gather_of_ensures (h : f.Ensures σ P) (acc : List α) :
    ∃ r s, f.foldRun (fun items a => pure (a :: items)) acc = (r, s) ∧ s.store = σ ∧
      ∃ o, P o ∧ r = o.map fun items => items.reverse ++ acc := by
  induction f generalizing P acc with
  | done s => exact ⟨_, s, rfl, h.1, _, h.2, rfl⟩
  | fail e s => exact ⟨_, s, rfl, h.1, _, h.2, rfl⟩
  | emit a held s rest ih =>
    obtain ⟨r, s', hrun, hs', o, ho, rfl⟩ := ih s (h.2 s h.1) (a :: acc)
    refine ⟨_, s', hrun, hs', _, ho, ?_⟩
    cases o <;> simp [Except.map]

/-- Asked for everything at once, a flow comes to one of its outcomes. -/
theorem toList_of_ensures {source : Source α} {s : RunState} (h : (source s).Ensures σ P) :
    ∃ o s', toList source s = (o, s') ∧ s'.store = σ ∧ P o := by
  obtain ⟨r, s', hrun, hs', o, ho, rfl⟩ := gather_of_ensures h []
  refine ⟨o, s', ?_, hs', ho⟩
  unfold toList gather
  rw [hrun]
  cases o <;> simp [Except.map]

theorem toList_of_yields {source : Source α} {s : RunState} {P : List α → Prop}
    (h : (source s).Yields σ P) :
    ∃ items s', toList source s = (.ok items, s') ∧ s'.store = σ ∧ P items := by
  obtain ⟨o, s', hrun, hs', items, rfl, hp⟩ := toList_of_ensures h
  exact ⟨items, s', hrun, hs', hp⟩

end Flow

end PropertyGraph
