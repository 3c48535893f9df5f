import PropertyGraph.Run.Statement

/-!
# Asking a result

Who holds the result of a statement asks it for one row after the other, and may close it at any
time and any number of times.

    ResultStream.askAll   the answers to questions in turn, and what is left of the result
    Answer.isLast         the end, a failure, or what closing gives
    ResultStream.Over     there is no flow left, so that no question has an effect any more
-/

namespace PropertyGraph

/-- What a result can be asked for: the next row, or to give up the rest. -/
inductive Ask where
  | next
  | close
deriving DecidableEq, Repr

/-- What a question is answered with: a row or a failure; nothing at the end and for closing. -/
abbrev Answer := Option (Except Error (List Value))

/-- Is it the end, a failure, or what closing gives? -/
def Answer.isLast : Answer → Bool
  | some (.ok _) => false
  | _ => true

namespace ResultStream

/-- The answer to a question, and what is left of the result. -/
def ask (r : ResultStream) : Ask → StateM RunState (Answer × ResultStream)
  | .next => r.next
  | .close => fun s => ((none, (r.close s).1), (r.close s).2)

/-- The answers to questions in turn, and what is left of the result. -/
def askAll (r : ResultStream) : List Ask → StateM RunState (List Answer × ResultStream)
  | [] => fun s => (([], r), s)
  | a :: rest => fun s =>
    let ((answer, r), s) := r.ask a s
    let ((answers, r), s) := r.askAll rest s
    ((answer :: answers, r), s)

variable {r : ResultStream}

@[simp] theorem ask_next (r : ResultStream) (s : RunState) : r.ask .next s = r.next s := rfl

@[simp] theorem ask_close (r : ResultStream) (s : RunState) :
    r.ask .close s = ((none, (r.close s).1), (r.close s).2) :=
  rfl

theorem askAll_cons (r : ResultStream) (a : Ask) (asks : List Ask) (s : RunState) :
    r.askAll (a :: asks) s =
      (((r.ask a s).1.1 :: ((r.ask a s).1.2.askAll asks (r.ask a s).2).1.1,
        ((r.ask a s).1.2.askAll asks (r.ask a s).2).1.2),
        ((r.ask a s).1.2.askAll asks (r.ask a s).2).2) :=
  rfl

/-- There is no flow left to be asked. -/
def Over (r : ResultStream) : Prop :=
  ∀ held source, r.supply ≠ .waiting held source

theorem Over.close (h : r.Over) (s : RunState) : r.close s = (r, s) := by
  unfold ResultStream.close
  split
  · next held source hsupply => exact absurd hsupply (h held source)
  · rfl

theorem over_close (r : ResultStream) (s : RunState) : (r.close s).1.Over := by
  unfold ResultStream.close
  split
  · exact nofun
  · next h => exact h

theorem Over.ask (h : r.Over) (a : Ask) (s : RunState) :
    (r.ask a s).1.2.Over ∧ (r.ask a s).2 = s := by
  cases a with
  | close => exact ⟨over_close r s, congrArg Prod.snd (h.close s)⟩
  | next =>
    rw [ask_next]
    unfold ResultStream.next
    split
    · exact ⟨nofun, congrArg Prod.snd (h.close s)⟩
    · split
      · exact ⟨h, rfl⟩
      · exact ⟨h, rfl⟩
      · exact ⟨nofun, rfl⟩
      · next held source hsupply => exact absurd hsupply (h held source)

/-- Once there is no flow left, questions have no effect. -/
theorem Over.askAll (h : r.Over) (asks : List Ask) (s : RunState) :
    (r.askAll asks s).1.2.Over ∧ (r.askAll asks s).2 = s := by
  induction asks generalizing r s with
  | nil => exact ⟨h, rfl⟩
  | cons a rest ih =>
    obtain ⟨hover, hstate⟩ := h.ask a s
    rw [askAll_cons, hstate]
    exact ih hover s

/-- Where a question is answered with something else than a row, there is no flow left. -/
theorem over_of_isLast (a : Ask) (s : RunState) :
    (r.ask a s).1.1.isLast = true → (r.ask a s).1.2.Over := by
  cases a with
  | close => exact fun _ => over_close r s
  | next =>
    rw [ask_next]
    unfold ResultStream.next
    split
    · exact fun _ => nofun
    · split
      · next hsupply => exact fun _ held source heq => by cases hsupply.symm.trans heq
      · next hsupply => exact fun _ held source heq => by cases hsupply.symm.trans heq
      · exact nofun
      · split
        · exact fun _ => nofun
        · exact fun _ => nofun
        · exact nofun

/-- After an answer that is no row there is no flow left, whatever is asked for then. -/
theorem over_askAll {asks : List Ask} {s : RunState}
    (h : ∃ answer ∈ (r.askAll asks s).1.1, answer.isLast = true) :
    (r.askAll asks s).1.2.Over := by
  induction asks generalizing r s with
  | nil =>
    obtain ⟨answer, hmem, -⟩ := h
    cases hmem
  | cons a rest ih =>
    rw [askAll_cons] at h ⊢
    obtain ⟨answer, hmem, hlast⟩ := h
    rcases List.mem_cons.1 hmem with rfl | hmem
    · exact ((over_of_isLast a s hlast).askAll rest _).1
    · exact ih ⟨answer, hmem, hlast⟩

end ResultStream

end PropertyGraph
