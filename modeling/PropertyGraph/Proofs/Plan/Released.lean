import PropertyGraph.Proofs.Run.Assembled
import PropertyGraph.Proofs.Run.Asks
import PropertyGraph.Proofs.Run.Releasing

/-!
# Every cursor is closed

Between two questions to the result of a statement as many cursors are open as its flow holds.  So
when the flow has come to its end or to a failure, or has been closed, none is open, and as nothing
is left that could open one, none will be.  A statement that writes asks its flow for everything
before it gives its result.

    ResultStream.Holding        what is open between two questions
    Plan.cursors_released       never more closed than opened; in the end, as many
-/

namespace PropertyGraph

/-! ## Plans -/

/-- The flow of a plan is balanced, whatever its stages are. -/
theorem assembly_levels (ctx : RunContext) (s : RunState) :
    Assembly ctx s s (fun _ => True) fun f _ => Flow.Levels f where
  cut _ _ := rfl
  first := Flow.levels_single .empty
  project p cut _ _ _ hf n t ht := (p.levels_flow hf cut n t ht).counted _
  other stage _ _ _ hf n t ht := (stage.levels_flow hf n t ht).counted _
  union all fs gs h n t ht := by
    have hrows : Flow.Levels (PlanBody.inTurn fs) := Flow.levels_inTurn fun f hf => by
      obtain ⟨_, _, hlevels⟩ := exists_of_forall₂ h.flip hf
      exact hlevels
    unfold PlanBody.unionRows
    cases all with
    | true => exact (hrows n t ht).counted _
    | false => exact ((hrows n t ht).distinct []).counted _

/-! ## Results -/

namespace ResultStream

/-- Between two questions exactly those cursors are open that the flow of the result holds, and
asked for the next row it is balanced. -/
def Holding (r : ResultStream) (s : RunState) : Prop :=
  match r.supply with
  | .waiting held source => s.Holds held ∧ ∀ t, t.Holds held → (source t).Balanced 0
  | _ => s.Holds 0

variable {r : ResultStream} {s : RunState}

theorem Holding.closed_le (h : r.Holding s) : s.stats.cursorsClosed ≤ s.stats.cursorsOpened := by
  unfold Holding RunState.Holds at h
  split at h <;> omega

theorem Holding.of_over (hover : r.Over) (h : s.Holds 0) : r.Holding s := by
  unfold Holding
  split
  · next held source hsupply => exact absurd hsupply (hover held source)
  · exact h

theorem Holding.holds_zero (h : r.Holding s) (hover : r.Over) : s.Holds 0 := by
  unfold Holding at h
  split at h
  · next held source hsupply => exact absurd hsupply (hover held source)
  · exact h

theorem Holding.close (h : r.Holding s) : (r.close s).1.Holding (r.close s).2 := by
  refine .of_over (over_close r s) ?_
  unfold Holding at h
  unfold ResultStream.close
  split
  · next held source hsupply =>
    rw [hsupply] at h
    have hheld : s.Holds (0 + held) := (Nat.zero_add held).symm ▸ h.1
    exact hheld.closeCursors
  · next hother =>
    split at h
    · next held source hsupply => exact absurd hsupply (hother held source)
    · exact h

theorem Holding.next (h : r.Holding s) : (r.next s).1.2.Holding (r.next s).2 := by
  unfold ResultStream.next
  split
  · exact h.close.holds_zero (over_close r s)
  · split
    · exact h
    · exact h
    · next row rest hsupply =>
      unfold Holding at h
      rw [hsupply] at h
      exact h
    · next held source hsupply =>
      unfold Holding at h
      rw [hsupply] at h
      have hflow := h.2 s h.1
      split
      · next s' hrun =>
        rw [hrun] at hflow
        exact hflow
      · next e s' hrun =>
        rw [hrun] at hflow
        exact hflow
      · next row held' s' rest hrun =>
        rw [hrun] at hflow
        unfold Flow.Balanced at hflow
        rw [Nat.zero_add] at hflow
        exact hflow

theorem Holding.ask (h : r.Holding s) (a : Ask) : (r.ask a s).1.2.Holding (r.ask a s).2 := by
  cases a with
  | next => exact h.next
  | close => exact h.close

theorem Holding.askAll (h : r.Holding s) (asks : List Ask) :
    (r.askAll asks s).1.2.Holding (r.askAll asks s).2 := by
  induction asks generalizing r s with
  | nil => exact h
  | cons a rest ih =>
    rw [askAll_cons]
    exact ih (h.ask a)

end ResultStream

namespace Plan

variable {plan : Plan} {ctx : RunContext} {s t : RunState} {r : ResultStream}

/-- When a statement has been started no cursor is open, and if it writes nothing is left to be
computed. -/
theorem holding_start (plan : Plan) (ctx : RunContext) (s : RunState) :
    match plan.start ctx s with
    | (.error _, t) => t.Holds 0
    | (.ok r, t) => r.Holding t ∧ (plan.body.isWrite = true → r.Over) := by
  obtain ⟨x, y, hx, -, hlevels⟩ := (assembly_levels ctx s.begin).flow plan.body
    fun _ _ _ _ => trivial
  have hbegin : s.begin.Holds 0 := rfl
  rw [start_eq, hx]
  match x, y, hlevels with
  | .error e, .error _, _ => exact hbegin
  | .ok source, .ok _, hlevels =>
    have hsource : Flow.Levels source := hlevels
    by_cases hwrite : plan.body.isWrite = true
    · have hend := Flow.level_toList hsource 0 s.begin hbegin
      simp only [hwrite, if_true]
      cases hrun : Flow.toList source s.begin with
      | mk z u =>
        rw [hrun] at hend
        cases z with
        | error e => exact hend
        | ok rows => exact ⟨hend, fun _ => nofun⟩
    · simp only [hwrite]
      exact ⟨⟨hbegin, hsource 0⟩, nofun⟩

/-- Never are more cursors closed than opened.  As soon as the result has been closed, or asked for
the next row has answered with the end or a failure, and for a statement that writes from its start
on, as many are closed as opened, and nothing that the result is asked for changes that any more. -/
theorem cursors_released (plan : Plan) (ctx : RunContext) (s : RunState) :
    match plan.start ctx s with
    | (.error _, t) => t.stats.cursorsOpened = t.stats.cursorsClosed
    | (.ok r, t) => ∀ asks,
      let ((answers, left), u) := r.askAll asks t
      u.stats.cursorsClosed ≤ u.stats.cursorsOpened ∧
        (plan.body.isWrite = true ∨ (∃ answer ∈ answers, answer.isLast = true) →
          u.stats.cursorsOpened = u.stats.cursorsClosed ∧
            ∀ more, (left.askAll more u).2 = u) := by
  have hstart := holding_start plan ctx s
  cases hrun : plan.start ctx s with
  | mk x t =>
    rw [hrun] at hstart
    cases x with
    | error e => exact hstart
    | ok r =>
      obtain ⟨hholding, hwritten⟩ := hstart
      intro asks
      have hleft := hholding.askAll asks
      refine ⟨hleft.closed_le, fun hsettled => ?_⟩
      have hover : (r.askAll asks t).1.2.Over := by
        rcases hsettled with hwrite | hlast
        · exact ((hwritten hwrite).askAll asks t).1
        · exact ResultStream.over_askAll hlast
      exact ⟨hleft.holds_zero hover, fun more => (hover.askAll more _).2⟩

end Plan

end PropertyGraph
