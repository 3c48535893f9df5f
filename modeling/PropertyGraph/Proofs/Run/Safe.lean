import PropertyGraph.Proofs.Eval.NameSafe
import PropertyGraph.Proofs.Pattern.Bindings
import PropertyGraph.Proofs.Run.Rows
import PropertyGraph.Run.Statement

/-!
# Runs in which all names have values

Whether a name has a value is a matter of the rows alone: whatever the store holds and whatever
others do to it between two rows, a computation or a flow does not fail for want of a name if its
rows bind what its expressions read.

    Run.Safe P c    from every state the computation ends in some `P` or fails for another cause
    Flow.Safe P f   the flow gives items of which `P` holds, and does not fail for want of a name,
                    whatever happens to the state on the way
    Row.Covers      the columns of a row bind some names
-/

namespace PropertyGraph

variable {α β : Type}

/-! ## Computations -/

namespace Run

/-- From every state the computation ends in something of which `P` holds, or it fails for another
cause than a name without a value. -/
def Safe (P : α → Prop) (c : Run α) : Prop :=
  ∀ s, NameSafe P (c s).1

namespace Safe

variable {P Q : α → Prop} {R : β → Prop} {c : Run α} {k : α → Run β}

theorem ok {a : α} (h : P a) : Safe P (pure a) := fun _ => h

theorem fail {e : Error} (h : ∀ x, e ≠ .unboundVariable x) : Safe P (Run.fail e) := fun _ => h

theorem lift {r : Except Error α} (h : NameSafe P r) : Safe P (Run.lift r) := fun _ => h

theorem mono (h : Safe P c) (hpq : ∀ a, P a → Q a) : Safe Q c := fun s => (h s).mono hpq

theorem bind (h : Safe P c) (hk : ∀ a, P a → Safe R (k a)) : Safe R (c >>= k) := by
  intro s
  have hc := h s
  rw [Run.bind_apply]
  split
  · next a s' hr =>
    rw [hr] at hc
    exact hk a hc s'
  · next e s' hr =>
    rw [hr] at hc
    exact hc

theorem mapM {S : α → β → Prop} {as : List α} (h : ∀ a ∈ as, Safe (S a) (k a)) :
    Safe (List.Forall₂ S as) (as.mapM k) := by
  induction as with
  | nil => exact ok .nil
  | cons a rest ih =>
    rw [List.mapM_cons]
    refine (h a List.mem_cons_self).bind fun b hb => ?_
    refine (ih fun x hx => h x (List.mem_cons_of_mem _ hx)).bind fun bs hbs => ?_
    exact ok (.cons hb hbs)

theorem foldlM {f : β → α → Run β} {as : List α} (h : ∀ b, R b → ∀ a ∈ as, Safe R (f b a)) {b : β}
    (hb : R b) : Safe R (as.foldlM f b) := by
  induction as generalizing b with
  | nil => exact ok hb
  | cons a rest ih =>
    rw [List.foldlM_cons]
    refine (h b hb a List.mem_cons_self).bind fun b' hb' => ?_
    exact ih (fun b hb x hx => h b hb x (List.mem_cons_of_mem _ hx)) hb'

theorem forM {f : α → Run Unit} {as : List α} (h : ∀ a ∈ as, Safe Anything (f a)) :
    Safe Anything (as.forM f : Run Unit) := by
  induction as with
  | nil => exact ok trivial
  | cons a rest ih =>
    exact (h a List.mem_cons_self).bind fun _ _ => ih fun x hx => h x (List.mem_cons_of_mem _ hx)

end Safe

theorem safe_update (f : RunState → RunState) : Safe Anything (update f) := fun _ => trivial

theorem safe_store : Safe Anything store := fun _ => trivial

theorem safe_countWrites (f : WriteCounts → WriteCounts) : Safe Anything (countWrites f) :=
  fun _ => trivial

theorem safe_write (f : Store → Except StoreError Store) : Safe Anything (write f) := by
  intro s
  unfold write
  split
  · trivial
  · exact nofun

theorem safe_nextVertexId : Safe Anything nextVertexId := fun _ => trivial

theorem safe_nextEdgeId : Safe Anything nextEdgeId := fun _ => trivial

end Run

/-! ## Flows -/

namespace Flow

/-- Whatever happens to the state on the way, the flow gives items of which `P` holds and does not
fail for want of a name. -/
def Safe (P : α → Prop) : Flow α → Prop
  | .done _ => True
  | .fail e _ => ∀ x, e ≠ .unboundVariable x
  | .emit a _ _ rest => P a ∧ ∀ s, (rest s).Safe P

/-- A source whose flow is safe whenever it is asked for. -/
def SafeSource (P : α → Prop) (source : Source α) : Prop :=
  ∀ s, (source s).Safe P

variable {P P' : α → Prop} {Q : β → Prop}

theorem Safe.mono {f : Flow α} (h : f.Safe P) (hp : ∀ a, P a → P' a) : f.Safe P' := by
  induction f with
  | done s => trivial
  | fail e s => exact h
  | emit a held s rest ih => exact ⟨hp a h.1, fun s => ih s (h.2 s)⟩

theorem safe_single {a : α} (h : P a) : SafeSource P (single a) :=
  fun _ => ⟨h, fun _ => trivial⟩

theorem safe_ofList {as : List α} (h : ∀ a ∈ as, P a) : SafeSource P (ofList as) := by
  induction as with
  | nil => exact fun _ => trivial
  | cons a rest ih =>
    obtain ⟨ha, hrest⟩ := List.forall_mem_cons.1 h
    exact fun _ => ⟨ha, ih hrest⟩

theorem safe_ofRun {c : Run (List α)} (h : c.Safe fun as => ∀ a ∈ as, P a) :
    SafeSource P (ofRun c) := by
  intro s
  have hc := h s
  unfold ofRun
  split
  · next as s' hr =>
    rw [hr] at hc
    exact safe_ofList hc s'
  · next e s' hr =>
    rw [hr] at hc
    exact hc

theorem safe_ofOption {c : Run (Option α)} (h : c.Safe fun o => ∀ a ∈ o, P a) :
    SafeSource P (ofOption c) := by
  intro s
  have hc := h s
  unfold ofOption
  split
  · next a s' hr =>
    rw [hr] at hc
    exact safe_single (hc a rfl) s'
  · trivial
  · next e s' hr =>
    rw [hr] at hc
    exact hc

theorem Safe.before {f : Flow α} (h : f.Safe P) {next : Source α} (hnext : SafeSource P next)
    (held : Nat) : (f.before held next).Safe P := by
  induction f with
  | done s => exact hnext s
  | fail e s => exact h
  | emit a inner s rest ih => exact ⟨h.1, fun s => ih s (h.2 s)⟩

theorem Safe.flatMap {f : Flow α} (h : f.Safe P) {g : α → Source β}
    (hg : ∀ a, P a → SafeSource Q (g a)) : (f.flatMap g).Safe Q := by
  induction f with
  | done s => trivial
  | fail e s => exact h
  | emit a held s rest ih => exact (hg a h.1 s).before (fun s => ih s (h.2 s)) held

theorem Safe.map {f : Flow α} (h : f.Safe P) {g : α → β} (hg : ∀ a, P a → Q (g a)) :
    (f.map g).Safe Q := by
  induction f with
  | done s => trivial
  | fail e s => exact h
  | emit a held s rest ih => exact ⟨hg a h.1, fun s => ih s (h.2 s)⟩

theorem safe_inTurn {g : α → Source β} {as : List α} (h : ∀ a ∈ as, SafeSource Q (g a)) :
    SafeSource Q (inTurn g as) := by
  induction as with
  | nil => exact fun _ => trivial
  | cons a rest ih =>
    obtain ⟨ha, hrest⟩ := List.forall_mem_cons.1 h
    exact fun s => (ha s).before (ih hrest) 0

theorem Safe.orElse {f : Flow α} (h : f.Safe P) {other : Source α} (hother : SafeSource P other) :
    (f.orElse other).Safe P := by
  cases f with
  | done s => exact hother s
  | fail e s => exact h
  | emit a held s rest => exact h

theorem Safe.distinct {κ : Type} [BEq κ] {key : α → κ} {f : Flow α} (h : f.Safe P)
    (seen : List κ) : (f.distinct key seen).Safe P := by
  induction f generalizing seen with
  | done s => trivial
  | fail e s => exact h
  | emit a held s rest ih =>
    unfold Flow.distinct
    split
    · exact ih s (h.2 s) seen
    · exact ⟨h.1, fun s => ih s (h.2 s) _⟩

theorem Safe.drop {f : Flow α} (h : f.Safe P) (n : Nat) : (f.drop n).Safe P := by
  induction f generalizing n with
  | done s => cases n <;> trivial
  | fail e s => cases n <;> exact h
  | emit a held s rest ih =>
    cases n with
    | zero => exact h
    | succ n => exact ih s (h.2 s) n

theorem Safe.takeSucc {f : Flow α} (h : f.Safe P) (n : Nat) : (f.takeSucc n).Safe P := by
  induction f generalizing n with
  | done s => cases n <;> trivial
  | fail e s => cases n <;> exact h
  | emit a held s rest ih =>
    cases n with
    | zero => exact ⟨h.1, fun _ => trivial⟩
    | succ n => exact ⟨h.1, fun s => ih s (h.2 s) n⟩

theorem safe_take {source : Source α} (h : SafeSource P source) (limit : Option Nat) :
    SafeSource P (take limit source) := by
  intro s
  unfold take
  split
  · exact h s
  · trivial
  · exact (h s).takeSucc _

theorem Safe.counted {f : Flow α} (h : f.Safe P) (name : String) : (f.counted name).Safe P := by
  induction f with
  | done s => trivial
  | fail e s => exact h
  | emit a held s rest ih => exact ⟨h.1, fun s => ih s (h.2 s)⟩

/-! ## Consumed at once -/

theorem Safe.foldRun {f : Flow α} (h : f.Safe P) {k : β → α → Run β}
    (hk : ∀ b a, Q b → P a → (k b a).Safe Q) {b : β} (hb : Q b) :
    NameSafe Q (f.foldRun k b).1 := by
  induction f generalizing b with
  | done s => exact hb
  | fail e s => exact h
  | emit a held s rest ih =>
    have hstep := hk b a hb h.1 s
    unfold Flow.foldRun
    split
    · next b' s' hr =>
      rw [hr] at hstep
      exact ih s' (h.2 s') hstep
    · next e s' hr =>
      rw [hr] at hstep
      exact hstep

theorem safe_toList {source : Source α} (h : SafeSource P source) :
    (toList source).Safe fun as => ∀ a ∈ as, P a := by
  intro s
  have hfold := (h s).foldRun (k := fun items a => pure (a :: items))
    (Q := fun items => ∀ a ∈ items, P a)
    (fun items a hitems ha => .ok (List.forall_mem_cons.2 ⟨ha, hitems⟩)) (b := []) nofun
  unfold toList gather
  split
  · next items s' hr =>
    rw [hr] at hfold
    exact fun a ha => hfold a (List.mem_reverse.1 ha)
  · next e s' hr =>
    rw [hr] at hfold
    exact hfold

end Flow

/-! ## Rows -/

namespace Row

variable {row : Row} {x y : String} {v : Value} {names more : List String}

/-- No temporary scope is open, and the columns bind all the names. -/
structure Covers (row : Row) (names : List String) : Prop where
  closed : row.scopes = []
  hasAll : row.HasAll names

theorem has_set : (row.set y v).has x = true ↔ x = y ∨ row.has x = true := by
  unfold Row.has lookup? Row.set
  rw [lookupFrames_set]
  by_cases h : y = x
  · rw [if_pos h, h]
    cases Bindings.get? x row.scopes <;> simp
  · simp [if_neg h, Ne.symm h]

theorem Covers.has_child (h : row.Covers names) : row.child.has x = row.has x := by
  unfold Row.has lookup? Row.child
  rw [h.closed]
  rfl

theorem covers_empty : Row.empty.Covers [] := ⟨rfl, nofun⟩

theorem Covers.child (h : row.Covers names) : row.child.Covers names :=
  ⟨rfl, fun x hx => h.has_child.trans (h.hasAll x hx)⟩

theorem Covers.sub (h : row.Covers names) (hsub : ∀ x ∈ more, x ∈ names) : row.Covers more :=
  ⟨h.closed, fun x hx => h.hasAll x (hsub x hx)⟩

theorem Covers.append (h : row.Covers names) (h' : row.Covers more) :
    row.Covers (names ++ more) :=
  ⟨h.closed, hasAll_append.2 ⟨h.hasAll, h'.hasAll⟩⟩

theorem Covers.set (h : row.Covers names) (y : String) (v : Value) : (row.set y v).Covers names :=
  ⟨h.closed, fun x hx => has_set.2 (Or.inr (h.hasAll x hx))⟩

theorem Covers.set_cons (h : row.Covers names) (y : String) (v : Value) :
    (row.set y v).Covers (y :: names) :=
  ⟨h.closed, List.forall_mem_cons.2 ⟨has_set.2 (Or.inl rfl), (h.set y v).hasAll⟩⟩

theorem Covers.foldl_set (bs : List (String × Value)) (h : row.Covers names) :
    (bs.foldl (fun row (name, v) => row.set name v) row).Covers (names ++ bs.map Prod.fst) := by
  induction bs generalizing row names with
  | nil => exact h.sub fun x hx => by simpa using hx
  | cons b rest ih =>
    obtain ⟨name, v⟩ := b
    refine (ih (h.set_cons name v)).sub fun x hx => ?_
    simp only [List.mem_append, List.map_cons, List.mem_cons] at hx ⊢
    tauto

theorem Covers.bound (h : row.Covers names) (bs : List (String × Value)) :
    (row.bound bs).Covers (names ++ bs.map Prod.fst) :=
  h.child.foldl_set bs

theorem Covers.nulls (h : row.Covers names) (new : List String) :
    (row.nulls new).Covers (names ++ new) := by
  have hbound := h.bound ((new.filter (!row.has ·)).map (·, Value.null))
  refine ⟨hbound.closed, fun x hx => ?_⟩
  by_cases hhas : row.has x = true
  · exact (h.append ⟨h.closed, List.forall_mem_singleton.2 hhas⟩).bound _ |>.hasAll x (by simp)
  · refine hbound.hasAll x ?_
    rw [List.mem_append] at hx ⊢
    refine hx.imp_right fun hx => ?_
    simpa [hhas] using hx

end Row

end PropertyGraph
