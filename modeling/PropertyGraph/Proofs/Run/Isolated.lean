import PropertyGraph.Proofs.Eval.Local
import PropertyGraph.Proofs.Pattern.Grown

/-!
# Rows before writes

Rows are given one by one, and each is written before the next one is asked for.  Where what has
been written does not make the later rows other ones, all rows might as well be given first, and
then all be written.

    Search.Steady     the condition is as true later as at the beginning
    alike_matchRow    a pattern gives the same rows while the store grows
    Alike.collected   rows first and writes then leave the same graph
-/

namespace PropertyGraph

open RunState (SameGraph)

variable {α β : Type}

namespace Flow

variable {R : RunState → RunState → Prop} {f g : Flow α} {σ : Store}

/-! ## Flows that are alike -/

/-- Only what the items of the first flow are made into has to be alike. -/
theorem Alike.flatMap_yields {k k' : α → Source β} {S : α → Prop} (hR : Uncounted R)
    (hσ : ∀ s t, R s t → s.store = σ) (h : Alike R f g) (hf : f.Yields σ fun as => ∀ a ∈ as, S a)
    (hk : ∀ a, S a → Twins R (k a) (k' a)) : Alike R (f.flatMap k) (g.flatMap k') := by
  induction h with
  | done hst => exact .done hst
  | fail hst => exact .fail hst
  | @emit a held s t rest rest' hst _ ih =>
    have hrest : ∀ s', s'.store = σ → (rest s').Yields σ fun as => ∀ b ∈ a :: as, S b :=
      fun s' hs' => hf.rest hs'
    obtain ⟨-, items, -, hitems⟩ := (hrest s (hσ s t hst)).outcome
    refine (hk a (hitems a List.mem_cons_self) s t hst).before hR fun s' t' hst' => ?_
    exact ih s' t' hst' ((hrest s' (hσ s' t' hst')).mono fun as has b hb =>
      has b (List.mem_cons_of_mem a hb))

/-- Counting the rows of one of the flows changes counters only. -/
theorem Alike.counted_right (hR : Uncounted R) (h : Alike R f g) (name : String) :
    Alike R f (g.counted name) := by
  induction h with
  | done hst => exact .done hst
  | fail hst => exact .fail hst
  | emit hst _ ih => exact .emit (hR _ _ hst _ _) ih

/-! ## Rows first -/

theorem toList_of_foldRun {source : Source α} {s s' : RunState} {items : List α}
    (h : (source s).foldRun (fun items a => pure (a :: items)) [] = (.ok (items.reverse ++ []), s')) :
    toList source s = (.ok items, s') := by
  unfold toList gather
  rw [h]
  simp

theorem toList_of_drain {source : Source α} {s s' : RunState}
    (h : (source s).drain = (.ok (), s')) : ∃ items, toList source s = (.ok items, s') := by
  obtain ⟨r, hlist, hend⟩ := toList_drain source s
  rw [h] at hlist hend
  cases r with
  | ok items => exact ⟨items, hlist⟩
  | error e => cases hend

/-- Items that are written as they are given only let the store rise. -/
theorem rises_drain {make : α → Run β} (hadds : ∀ a, Adds (make a)) {s s' : RunState}
    (hmoves : g.Moves SameGraph s)
    (hdrain : (g.flatMap fun a => ofRun do return [← make a]).drain = (.ok (), s')) :
    s.Rises s' := by
  have hwritten : (g.flatMap fun a => ofRun do return [← make a]).Moves RunState.Rises s :=
    hmoves.flatMap RunState.Rises.onward RunState.Rises.onward.same fun a =>
      moves_ofRun RunState.Rises.onward fun u =>
        (((hadds a).bind fun b => Adds.ok [b]) u).rises
  have hend := hwritten.drain RunState.Rises.onward
  rw [hdrain] at hend
  exact hend

/-- Each item is written when it is given, or all are given first.  The latter flow gives the same
items as long as its state is related to the one in which something has been written, and the
writes are the same from one graph on. -/
theorem Alike.collected {make : α → Run β} {s' : RunState} (h : Alike R f g)
    (hconsistent : ∀ s t, R s t → t.store.Consistent)
    (honward : ∀ s t u, R s t → t.Adds u → u.store.Grows s'.store → R s u)
    (hmake : ∀ a, Blind SameGraph (make a)) (hadds : ∀ a, Adds (make a)) {t₀ : RunState}
    (hmoves : g.Moves SameGraph t₀)
    (hdrain : (g.flatMap fun a => ofRun do return [← make a]).drain = (.ok (), s'))
    (acc : List α) :
    ∃ rows s₁ t₁, f.foldRun (fun items a => pure (a :: items)) acc =
        (.ok (rows.reverse ++ acc), s₁) ∧ R s₁ t₁ ∧ ∀ u, u.SameGraph t₀ → ∃ u',
          ((ofList rows u).flatMap fun a => ofRun do return [← make a]).drain = (.ok (), u') ∧
            u'.SameGraph s' := by
  induction h generalizing t₀ acc with
  | done hst =>
    cases hdrain
    exact ⟨[], _, _, rfl, hst, fun u hu => ⟨u, rfl, hu.trans hmoves⟩⟩
  | fail => cases hdrain
  | @emit a held s t rest rest' hst _ ih =>
    change ((ofRun _ t).before held _).drain = _ at hdrain
    rw [drain_before, drain_ofRun_map] at hdrain
    have hadd := hadds a t
    cases hrun : make a t with
    | mk r t₁ =>
      rw [hrun] at hdrain hadd
      cases r with
      | error e => cases hdrain
      | ok b =>
        change ((rest' t₁).flatMap _).drain = _ at hdrain
        obtain ⟨ht₁, -⟩ := hadd.rises (hconsistent s t hst)
        -- what is left to be written adds to the store that there is now
        have hrises : t₁.Rises s' := rises_drain hadds (hmoves.2 t₁) hdrain
        obtain ⟨rows, s₁, u₁, hfold, hlast, hwrites⟩ :=
          ih s t₁ (honward s t t₁ hst hadd (hrises ht₁).2) (hmoves.2 t₁) hdrain (a :: acc)
        refine ⟨a :: rows, s₁, u₁, ?_, hlast, fun u hu => ?_⟩
        · rw [List.reverse_cons, List.append_assoc]
          exact hfold
        · obtain ⟨hres, -, hsame⟩ := hmake a u t (hu.trans hmoves.1)
          rw [hrun] at hres hsame
          show ∃ u', (((ofRun _ u).before 0 _).drain = _) ∧ _
          rw [drain_before, drain_ofRun_map, hres]
          exact hwrites _ hsame

end Flow

/-! ## Rows of matches -/

namespace Search

variable {q : Search} {σ ρ : Store} {s₀ : RunState}

/-- The condition is as true in the row of each solution while the store grows as it was at the
beginning. -/
def Steady (q : Search) (σ ρ : Store) (condition : Option Expr) : Prop :=
  ∀ m τ, q.Solution σ .empty m → τ.Consistent → σ.Grows τ → τ.Grows ρ →
    Expr.conditionTruth (q.ctx.env τ) (q.rowOf .empty m) condition =
      Expr.conditionTruth (q.ctx.env σ) (q.rowOf .empty m) condition

/-- A condition that looks up no vertices does not notice that the store grows. -/
theorem steady_of_calls {condition : Option Expr}
    (h : Expr.NoneLooksUp (Expr.optionCalls condition)) : q.Steady σ ρ condition := by
  intro m τ _ _ _ _
  cases condition with
  | none => rfl
  | some e =>
    have heval : Expr.eval (q.ctx.env τ) e = Expr.eval (q.ctx.env σ) e :=
      Expr.eval_withWorld (by rfl) e h
    show (Expr.eval (q.ctx.env τ) e _).1.bind _ = (Expr.eval (q.ctx.env σ) e _).1.bind _
    rw [heval]

theorem Beside.onward {s t u : RunState} (h : q.Beside s₀ ρ s t) (hadd : t.Adds u)
    (hlater : u.store.Grows ρ) : q.Beside s₀ ρ s u := by
  obtain ⟨hu, hgrows⟩ := hadd.rises h.consistent
  refine ⟨h.same, h.estimates.trans hadd.estimates.symm, hu, h.since.trans hgrows, hlater,
    fun hope n hn => (h.known hope n hn).imp_left fun hremembers => ?_⟩
  unfold RunState.Remembers
  rw [hadd.estimates]
  exact hremembers

theorem Steady.outcome {condition : Option Expr} (h : q.Steady s₀.store ρ condition) {m : Match}
    (hm : q.Solution s₀.store .empty m) {s t : RunState} (hst : q.Beside s₀ ρ s t) :
    q.outcome t.store condition .empty m = q.outcome s.store condition .empty m := by
  unfold Search.outcome
  rw [hst.same.store, h m t.store hm hst.consistent hst.since hst.later]

end Search

/-- A pattern whose properties have no values makes no rows. -/
theorem RunContext.matchRow_of_error {ctx : RunContext} {pattern : Constraints Expr} {row : Row}
    {s : RunState} {e : Error} (condition : Option Expr)
    (h : pattern.mapM (fun e => e.value (ctx.env s.store) row) = .error e) :
    ctx.matchRow pattern condition row s = .fail e s := by
  unfold matchRow
  rw [Constraints.mapM_still (f := fun e => ctx.value e row) (fun _ => rfl) pattern, h]

/-- A pattern makes the same rows of the empty one while the store grows. -/
theorem RunContext.alike_matchRow {ctx : RunContext} {pattern : Constraints Expr}
    {resolved : Constraints Value} {condition : Option Expr} {s : RunState} {ρ : Store}
    (hσ : s.store.Consistent) (hρ : ρ.Consistent) (hgrows : s.store.Grows ρ)
    (hw : pattern.WellFormed) (hplain : pattern.optional = false)
    (hvalues : pattern.mapM (fun e => e.value (ctx.env s.store) .empty) = .ok resolved)
    (hapart : (Search.of ctx resolved).Apart s.store ρ)
    (hsteady : (Search.of ctx resolved).Steady s.store ρ condition) :
    Flow.Alike ((Search.of ctx resolved).Beside s ρ) (ctx.matchRow pattern condition .empty s)
      (ctx.matchRow pattern condition .empty s) := by
  have hshape := Constraints.shape_of_mapM hvalues
  have hw' : (Search.of ctx resolved).pattern.WellFormed := hw.of_shape hshape
  have hplain' : (Search.of ctx resolved).pattern.optional = false :=
    (congrArg (·.optional) hshape).trans hplain
  unfold matchRow
  rw [Constraints.mapM_still (f := fun e => ctx.value e .empty) (fun _ => rfl) pattern, hvalues]
  simp only [hplain, Bool.false_eq_true, if_false]
  refine Flow.Alike.flatMap_yields Search.Beside.uncounted (fun s t hst => hst.same.store)
    (Search.alike_flow hσ hρ hgrows hapart hw' hplain') (Search.yields_empty hσ hw' hplain')
    fun m hm s' t' hst => ?_
  have houtcome := hsteady.outcome hm.1 hst
  unfold Flow.ofOption
  rw [Search.matchedRow_eq, Search.matchedRow_eq, houtcome]
  cases (Search.of ctx resolved).outcome s'.store condition .empty m with
  | error e => exact .fail hst
  | ok o =>
    cases o with
    | none => exact .done hst
    | some row => exact Flow.twins_single row s' t' hst

end PropertyGraph
