import PropertyGraph.Proofs.Plan.Scoped
import PropertyGraph.Proofs.Run.Asks

/-!
# Results that have been closed

Closing a result gives up its flow, and with it the rows that are still to be computed.  Rows in
store are no part of the flow: they stay, and are given out afterwards.  So a closed result is
finished unless its statement writes, gives columns, and has rows that nobody has asked for.

    ResultStream.stored             the rows in store
    ResultStream.stored_askNext     every question for the next row takes one of them
    Over.silent_iff                 no flow and no rows left to give
    Plan.finished_of_close          what closing comes to, after any number of questions
-/

namespace PropertyGraph

namespace ResultStream

/-- The rows that have been computed and not been asked for. -/
def stored (r : ResultStream) : List Row :=
  match r.supply with
  | .ready rows => rows
  | _ => []

/-- Whatever the result is asked for, nothing comes of it and nothing changes. -/
def Silent (r : ResultStream) : Prop :=
  ∀ asks s, (r.askAll asks s).2 = s ∧ ∀ answer ∈ (r.askAll asks s).1.1, answer = none

variable {r : ResultStream}

/-! ## One question -/

theorem columns_close (r : ResultStream) (s : RunState) : (r.close s).1.columns = r.columns := by
  unfold close
  split <;> rfl

theorem stored_close (r : ResultStream) (s : RunState) : (r.close s).1.stored = r.stored := by
  unfold close
  split
  · next hsupply =>
    unfold stored
    rw [hsupply]
  · rfl

theorem columns_next (r : ResultStream) (s : RunState) : (r.next s).1.2.columns = r.columns := by
  unfold next
  split
  · exact columns_close r s
  · split
    · rfl
    · rfl
    · rfl
    · split <;> rfl

theorem stored_next (hcolumns : r.columns ≠ []) (s : RunState) :
    (r.next s).1.2.stored = r.stored.tail := by
  obtain ⟨columns, supply⟩ := r
  unfold next
  rw [if_neg (by rwa [List.isEmpty_iff])]
  cases supply with
  | closed => rfl
  | ready rows => cases rows <;> rfl
  | waiting held source =>
    dsimp only
    split <;> rfl

theorem answer_next_of_noColumns (hcolumns : r.columns = []) (s : RunState) :
    (r.next s).1.1 = none := by
  unfold next
  rw [if_pos (List.isEmpty_iff.2 hcolumns)]
  rfl

/-- Without a flow the next row is the first one in store. -/
theorem Over.answer_next (h : r.Over) (hcolumns : r.columns ≠ []) (s : RunState) :
    (r.next s).1.1 = r.stored.head?.map fun row => .ok (r.project row) := by
  obtain ⟨columns, supply⟩ := r
  unfold next
  rw [if_neg (by rwa [List.isEmpty_iff])]
  cases supply with
  | closed => rfl
  | ready rows => cases rows <;> rfl
  | waiting held source => exact absurd rfl (h held source)

/-! ## Questions in turn -/

/-- What is left after some questions for the next row and then being closed. -/
def closedAfter (k : Nat) (r : ResultStream) (s : RunState) : ResultStream :=
  (r.askAll (List.replicate k .next ++ [.close]) s).1.2

/-- Every question for the next row takes one of the rows in store. -/
theorem stored_askNext (k : Nat) (r : ResultStream) (s : RunState) :
    (r.closedAfter k s).Over ∧ (r.closedAfter k s).columns = r.columns ∧
      (r.columns ≠ [] → (r.closedAfter k s).stored = r.stored.drop k) := by
  induction k generalizing r s with
  | zero => exact ⟨over_close r s, columns_close r s, fun _ => stored_close r s⟩
  | succ k ih =>
    have hstep : r.closedAfter (k + 1) s = (r.next s).1.2.closedAfter k (r.next s).2 := rfl
    obtain ⟨hover, hcolumns, hstored⟩ := ih (r.next s).1.2 (r.next s).2
    rw [columns_next] at hcolumns hstored
    rw [hstep]
    refine ⟨hover, hcolumns, fun hnonempty => ?_⟩
    rw [hstored hnonempty, stored_next hnonempty, List.drop_tail]

/-- Without a flow nothing comes any more exactly if there are no columns or no rows in store. -/
theorem Over.silent_iff (h : r.Over) : r.Silent ↔ r.columns = [] ∨ r.stored = [] := by
  constructor
  · intro hsilent
    by_contra hleft
    obtain ⟨hcolumns, hrows⟩ := not_or.1 hleft
    obtain ⟨row, rest, hstored⟩ := List.exists_cons_of_ne_nil hrows
    have hanswer : (r.next .initial).1.1 = none :=
      (hsilent [.next] .initial).2 _ List.mem_cons_self
    rw [h.answer_next hcolumns, hstored] at hanswer
    cases hanswer
  · intro hnothing asks s
    refine ⟨(h.askAll asks s).2, ?_⟩
    induction asks generalizing r s with
    | nil => exact nofun
    | cons a rest ih =>
      rw [askAll_cons]
      cases a with
      | close =>
        refine List.forall_mem_cons.2 ⟨rfl, ih (over_close r s) ?_ _⟩
        rw [columns_close, stored_close]
        exact hnothing
      | next =>
        refine List.forall_mem_cons.2 ⟨?_, ih (h.ask .next s).1 ?_ _⟩
        · by_cases hcolumns : r.columns = []
          · exact answer_next_of_noColumns hcolumns s
          · rw [ask_next, h.answer_next hcolumns, hnothing.resolve_left hcolumns]
            rfl
        · rw [ask_next, columns_next]
          refine or_iff_not_imp_left.2 fun hcolumns => ?_
          rw [stored_next hcolumns, hnothing.resolve_left hcolumns, List.tail_nil]

end ResultStream

namespace Plan

/-- A result has the columns of its plan, and rows in store only if the plan writes. -/
theorem result_of_start {plan : Plan} {ctx : RunContext} {s t : RunState} {r : ResultStream}
    (h : plan.start ctx s = (.ok r, t)) :
    r.columns = plan.columns ∧ (plan.body.isWrite = false → r.stored = []) := by
  rw [start_eq] at h
  split at h
  · cases h
  · split at h
    · next hwrite =>
      split at h
      · cases h
        exact ⟨rfl, fun hread => by rw [hread] at hwrite; cases hwrite⟩
      · cases h
    · cases h
      exact ⟨rfl, fun _ => rfl⟩

/-- A result that is closed after any number of questions for the next row is not changed by being
closed again.  It gives nothing any more, whatever it is asked for, exactly if the statement has no
columns, or only reads, or if all rows that it had in store have been asked for. -/
theorem finished_of_close (plan : Plan) (ctx : RunContext) (s : RunState) :
    match plan.start ctx s with
    | (.error _, _) => True
    | (.ok r, t) => ∀ k,
      (∀ u, (r.closedAfter k t).close u = (r.closedAfter k t, u)) ∧
        ((r.closedAfter k t).Silent ↔
          plan.columns = [] ∨ plan.body.isWrite = false ∨ r.stored.length ≤ k) := by
  cases hstart : plan.start ctx s with
  | mk x t =>
    cases x with
    | error e => trivial
    | ok r =>
      intro k
      obtain ⟨hresult, hread⟩ := result_of_start hstart
      obtain ⟨hover, hcolumns, hstored⟩ := r.stored_askNext k t
      refine ⟨hover.close, hover.silent_iff.trans ?_⟩
      rw [hcolumns, hresult]
      by_cases hnone : plan.columns = []
      · simp only [hnone, true_or]
      · rw [hstored (hresult ▸ hnone), List.drop_eq_nil_iff]
        refine or_congr_right ⟨Or.inr, ?_⟩
        rintro (hreads | hlength)
        · rw [hread hreads]
          exact Nat.zero_le k
        · exact hlength

/-- `UNWIND [1, 2] AS x CREATE () RETURN x`. -/
def creatingTwo : Query :=
  [.unwind (.list [.literal (.int 1), .literal (.int 2)]) "x",
    .create [⟨none, ⟨none, [], []⟩, []⟩],
    .projectReturn ⟨false, false, [⟨.var "x", none⟩], [], none, none⟩]

/-- The rows of a statement that writes are given out also after its result has been closed. -/
theorem row_after_close : ¬ ∀ (query : Query) (plan : Plan) (ctx : RunContext) (s t : RunState)
    (r : ResultStream), ofQuery query = .ok plan → plan.start ctx s = (.ok r, t) →
    ∀ k, (r.closedAfter k t).Silent := by
  intro h
  obtain ⟨plan, hplan⟩ : ∃ plan, ofQuery creatingTwo = .ok plan := ⟨_, rfl⟩
  have hanswer : (match plan.start Search.plainContext .initial with
      | (.ok r, t) => ((r.closedAfter 1 t).next t).1.1.isSome
      | (.error _, _) => false) = true := by
    cases hplan
    decide +kernel
  split at hanswer
  · next r t hstart =>
    have hsilent : ((r.closedAfter 1 t).next t).1.1 = none :=
      (h creatingTwo plan _ _ t r hplan hstart 1 [.next] t).2 _ List.mem_cons_self
    rw [hsilent] at hanswer
    cases hanswer
  · cases hanswer

end Plan

end PropertyGraph
