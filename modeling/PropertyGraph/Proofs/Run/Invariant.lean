import PropertyGraph.Proofs.Eval.NameSafe
import PropertyGraph.Proofs.Run.Rows
import PropertyGraph.Run.Statement

/-!
# Invariants of runs

What a computation or a flow keeps, as long as it does not fail: an invariant of the states, and a
property of all its results.  Whatever others do between two items of a flow, they keep the
invariant too.  Nothing is said about failures, so that no step has to give a reason why it does not
fail.

    Run.Keeps I P c       from a state of the invariant, what `c` results in has `P`
    Flow.Keeps I P f      asked from such states only, every item of `f` has `P`
    Run.Results P c       the same from any state: all that `c` can result in has `P`
    Flow.EachOf P source  the same from any state: every item of the source has `P`
-/

namespace PropertyGraph

variable {α β : Type}

/-! ## Invariants -/

/-- The states hold the same graph, and the same writes are counted in them. -/
structure RunState.Unwritten (s t : RunState) : Prop where
  store : t.store = s.store
  writes : t.stats.writes = s.stats.writes

theorem RunState.Unwritten.trans {s t u : RunState} (h : s.Unwritten t) (h' : t.Unwritten u) :
    s.Unwritten u :=
  ⟨h'.store.trans h.store, h'.writes.trans h.writes⟩

/-- An invariant that is about the graph and the counts of writes. -/
class OfWrites (I : RunState → Prop) : Prop where
  unwritten : ∀ {s t : RunState}, s.Unwritten t → I s → I t

instance : OfWrites Anything := ⟨fun _ _ => trivial⟩

/-! ## Computations -/

namespace Run

/-- From a state of the invariant, unless it fails, the computation comes to such a state and to a
result of which `P` holds. -/
def Keeps (I : RunState → Prop) (P : α → Prop) (c : Run α) : Prop :=
  ∀ s, I s → ∀ a t, c s = (.ok a, t) → I t ∧ P a

/-- From any state, what the computation results in has `P`, unless it fails. -/
abbrev Results (P : α → Prop) (c : Run α) : Prop :=
  Keeps Anything P c

namespace Keeps

variable {I : RunState → Prop} {P Q : α → Prop} {R : β → Prop} {c : Run α} {k : α → Run β}

theorem ok {a : α} (h : P a) : Keeps I P (pure a) := by
  rintro s hs _ t ⟨⟩
  exact ⟨hs, h⟩

theorem fail {e : Error} : Keeps I P (Run.fail e) := nofun

theorem mono (h : Keeps I P c) (hpq : ∀ a, P a → Q a) : Keeps I Q c :=
  fun s hs a t hrun => (h s hs a t hrun).imp_right (hpq a)

theorem bind (h : Keeps I P c) (hk : ∀ a, P a → Keeps I R (k a)) : Keeps I R (c >>= k) := by
  intro s hs b t hrun
  obtain ⟨a, s', ha, hb⟩ := Run.ok_of_bind hrun
  obtain ⟨hs', hP⟩ := h s hs a s' ha
  exact hk a hP s' hs' b t hb

theorem mapM {S : α → β → Prop} {as : List α} (h : ∀ a ∈ as, Keeps I (S a) (k a)) :
    Keeps I (List.Forall₂ S as) (as.mapM k) := by
  induction as with
  | nil => exact ok .nil
  | cons a rest ih =>
    obtain ⟨ha, hrest⟩ := List.forall_mem_cons.1 h
    rw [List.mapM_cons]
    exact ha.bind fun b hb => (ih hrest).bind fun bs hbs => ok (.cons hb hbs)

theorem foldlM {f : β → α → Run β} {as : List α} (h : ∀ a ∈ as, ∀ b, R b → Keeps I R (f b a))
    {b : β} (hb : R b) : Keeps I R (as.foldlM f b) := by
  induction as generalizing b with
  | nil => exact ok hb
  | cons a rest ih =>
    obtain ⟨ha, hrest⟩ := List.forall_mem_cons.1 h
    rw [List.foldlM_cons]
    exact (ha b hb).bind fun b' hb' => ih hrest hb'

theorem forM {f : α → Run Unit} {as : List α} (h : ∀ a ∈ as, Keeps I Anything (f a)) :
    Keeps I Anything (as.forM f : Run Unit) := by
  induction as with
  | nil => exact ok trivial
  | cons a rest ih =>
    obtain ⟨ha, hrest⟩ := List.forall_mem_cons.1 h
    exact ha.bind fun _ _ => ih hrest

/-- After a computation of whose result nothing is known. -/
theorem after {c : Run α} {k : α → Run β} (hk : ∀ a, Results R (k a)) : Results R (c >>= k) :=
  bind (P := Anything) (fun _ _ _ _ _ => ⟨trivial, trivial⟩) fun a _ => hk a

/-- The invariant and what holds of the results in any state, together. -/
theorem with_results (h : Keeps I Anything c) (hresults : Results P c) : Keeps I P c :=
  fun s hs a t hrun => ⟨(h s hs a t hrun).1, (hresults s trivial a t hrun).2⟩

end Keeps

end Run

/-! ## Flows -/

namespace Flow

/-- Asked from states of the invariant only, the flow comes to such states and gives items of which
`P` holds, up to its end or a failure. -/
def Keeps (I : RunState → Prop) (P : α → Prop) : Flow α → Prop
  | .done s => I s
  | .fail _ _ => True
  | .emit a _ s rest => I s ∧ P a ∧ ∀ t, I t → (rest t).Keeps I P

/-- A source whose flow keeps the invariant whenever it is asked for in a state that has it. -/
def KeepsFrom (I : RunState → Prop) (P : α → Prop) (source : Source α) : Prop :=
  ∀ s, I s → (source s).Keeps I P

/-- A source whose items have `P` whenever it is asked for, whatever happens to the state on the
way. -/
abbrev EachOf (P : α → Prop) (source : Source α) : Prop :=
  KeepsFrom Anything P source

variable {I : RunState → Prop} {P P' : α → Prop} {Q : β → Prop}

theorem Keeps.mono {f : Flow α} (h : f.Keeps I P) (hp : ∀ a, P a → P' a) : f.Keeps I P' := by
  induction f with
  | done s => exact h
  | fail e s => trivial
  | emit a held s rest ih => exact ⟨h.1, hp a h.2.1, fun t ht => ih t (h.2.2 t ht)⟩

theorem KeepsFrom.mono {source : Source α} (h : KeepsFrom I P source) (hp : ∀ a, P a → P' a) :
    KeepsFrom I P' source :=
  fun s hs => (h s hs).mono hp

/-- The invariant and what holds of the items in any state, together. -/
theorem KeepsFrom.with_each {source : Source α} (h : KeepsFrom I Anything source)
    (heach : EachOf P source) : KeepsFrom I P source := by
  have key : ∀ f : Flow α, f.Keeps I Anything → f.Keeps Anything P → f.Keeps I P := by
    intro f
    induction f with
    | done s => exact fun h _ => h
    | fail e s => exact fun _ _ => trivial
    | emit a held s rest ih =>
      exact fun h hp => ⟨h.1, hp.2.1, fun t ht => ih t (h.2.2 t ht) (hp.2.2 t trivial)⟩
  exact fun s hs => key (source s) (h s hs) (heach s trivial)

theorem each_anything (source : Source α) : EachOf Anything source := by
  have key : ∀ f : Flow α, f.Keeps Anything Anything := by
    intro f
    induction f with
    | done s => trivial
    | fail e s => trivial
    | emit a held s rest ih => exact ⟨trivial, trivial, fun t _ => ih t⟩
  exact fun s _ => key (source s)

theorem keeps_single {a : α} (h : P a) : KeepsFrom I P (single a) :=
  fun _ hs => ⟨hs, h, fun _ ht => ht⟩

theorem keeps_ofList {as : List α} (h : ∀ a ∈ as, P a) : KeepsFrom I P (ofList as) := by
  induction as with
  | nil => exact fun _ hs => hs
  | cons a rest ih =>
    obtain ⟨ha, hrest⟩ := List.forall_mem_cons.1 h
    exact fun _ hs => ⟨hs, ha, ih hrest⟩

theorem keeps_ofRun {c : Run (List α)} (h : c.Keeps I fun as => ∀ a ∈ as, P a) :
    KeepsFrom I P (ofRun c) := by
  intro s hs
  unfold ofRun
  split
  · next as s' hr =>
    obtain ⟨hs', has⟩ := h s hs as s' hr
    exact keeps_ofList has s' hs'
  · trivial

theorem keeps_ofOption {c : Run (Option α)} (h : c.Keeps I fun o => ∀ a ∈ o, P a) :
    KeepsFrom I P (ofOption c) := by
  intro s hs
  unfold ofOption
  split
  · next a s' hr =>
    obtain ⟨hs', ha⟩ := h s hs _ s' hr
    exact keeps_single (ha a rfl) s' hs'
  · next s' hr => exact (h s hs _ s' hr).1
  · trivial

theorem Keeps.before {f : Flow α} (h : f.Keeps I P) {next : Source α} (hnext : KeepsFrom I P next)
    (held : Nat) : (f.before held next).Keeps I P := by
  induction f with
  | done s => exact hnext s h
  | fail e s => trivial
  | emit a inner s rest ih => exact ⟨h.1, h.2.1, fun t ht => ih t (h.2.2 t ht)⟩

theorem Keeps.flatMap {f : Flow α} (h : f.Keeps I P) {g : α → Source β}
    (hg : ∀ a, P a → KeepsFrom I Q (g a)) : (f.flatMap g).Keeps I Q := by
  induction f with
  | done s => exact h
  | fail e s => trivial
  | emit a held s rest ih => exact (hg a h.2.1 s h.1).before (fun t ht => ih t (h.2.2 t ht)) held

theorem Keeps.map {f : Flow α} (h : f.Keeps I P) {g : α → β} (hg : ∀ a, P a → Q (g a)) :
    (f.map g).Keeps I Q := by
  induction f with
  | done s => exact h
  | fail e s => trivial
  | emit a held s rest ih => exact ⟨h.1, hg a h.2.1, fun t ht => ih t (h.2.2 t ht)⟩

theorem keeps_inTurn {g : α → Source β} {as : List α} (h : ∀ a ∈ as, KeepsFrom I Q (g a)) :
    KeepsFrom I Q (inTurn g as) := by
  induction as with
  | nil => exact fun _ hs => hs
  | cons a rest ih =>
    obtain ⟨ha, hrest⟩ := List.forall_mem_cons.1 h
    exact fun s hs => (ha s hs).before (ih hrest) 0

theorem Keeps.orElse {f : Flow α} (h : f.Keeps I P) {other : Source α}
    (hother : KeepsFrom I P other) : (f.orElse other).Keeps I P := by
  cases f with
  | done s => exact hother s h
  | fail e s => trivial
  | emit a held s rest => exact h

theorem Keeps.distinct {κ : Type} [BEq κ] {key : α → κ} {f : Flow α} (h : f.Keeps I P)
    (seen : List κ) : (f.distinct key seen).Keeps I P := by
  induction f generalizing seen with
  | done s => exact h
  | fail e s => trivial
  | emit a held s rest ih =>
    unfold Flow.distinct
    split
    · exact ih s (h.2.2 s h.1) seen
    · exact ⟨h.1, h.2.1, fun t ht => ih t (h.2.2 t ht) _⟩

theorem Keeps.drop {f : Flow α} (h : f.Keeps I P) (n : Nat) : (f.drop n).Keeps I P := by
  induction f generalizing n with
  | done s => cases n <;> exact h
  | fail e s => cases n <;> trivial
  | emit a held s rest ih =>
    cases n with
    | zero => exact h
    | succ n => exact ih s (h.2.2 s h.1) n

section Counted

variable [OfWrites I]

theorem Keeps.takeSucc {f : Flow α} (h : f.Keeps I P) (n : Nat) : (f.takeSucc n).Keeps I P := by
  induction f generalizing n with
  | done s => cases n <;> exact h
  | fail e s => cases n <;> trivial
  | emit a held s rest ih =>
    cases n with
    | zero =>
      refine ⟨h.1, h.2.1, fun t ht => ?_⟩
      have hclosed : t.Unwritten (t.closeCursors held) := ⟨rfl, rfl⟩
      exact OfWrites.unwritten hclosed ht
    | succ n => exact ⟨h.1, h.2.1, fun t ht => ih t (h.2.2 t ht) n⟩

theorem keeps_take {source : Source α} (h : KeepsFrom I P source) (limit : Option Nat) :
    KeepsFrom I P (take limit source) := by
  intro s hs
  unfold take
  split
  · exact h s hs
  · exact hs
  · exact (h s hs).takeSucc _

theorem Keeps.counted {f : Flow α} (h : f.Keeps I P) (name : String) :
    (f.counted name).Keeps I P := by
  induction f with
  | done s => exact h
  | fail e s => trivial
  | emit a held s rest ih =>
    have hcounted : s.Unwritten (s.countRow name) := ⟨rfl, rfl⟩
    exact ⟨OfWrites.unwritten hcounted h.1, h.2.1, fun t ht => ih t (h.2.2 t ht)⟩

end Counted

/-! ## Consumed at once -/

theorem Keeps.foldRun {f : Flow α} (h : f.Keeps I P) {k : β → α → Run β}
    (hk : ∀ b a, Q b → P a → (k b a).Keeps I Q) {b b' : β} (hb : Q b) {s : RunState}
    (hrun : f.foldRun k b = (.ok b', s)) : I s ∧ Q b' := by
  induction f generalizing b with
  | done s => cases hrun; exact ⟨h, hb⟩
  | fail e s => cases hrun
  | emit a held s rest ih =>
    unfold Flow.foldRun at hrun
    split at hrun
    · next c s' hr =>
      obtain ⟨hs', hc⟩ := hk b a hb h.2.1 s h.1 c s' hr
      exact ih s' (h.2.2 s' hs') hc hrun
    · cases hrun

theorem keeps_toList {source : Source α} (h : KeepsFrom I P source) :
    (toList source).Keeps I fun as => ∀ a ∈ as, P a := by
  intro s hs as t hrun
  unfold toList gather at hrun
  split at hrun
  · next items s' hr =>
    cases hrun
    obtain ⟨hs', hitems⟩ := (h s hs).foldRun (Q := fun items => ∀ a ∈ items, P a)
      (fun items a hitems ha => .ok (List.forall_mem_cons.2 ⟨ha, hitems⟩))
      (List.forall_mem_nil P) hr
    exact ⟨hs', fun a ha => hitems a (List.mem_reverse.1 ha)⟩
  · cases hrun

end Flow

end PropertyGraph
