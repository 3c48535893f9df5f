import PropertyGraph.Proofs.Plan.Sight
import PropertyGraph.Proofs.Run.Eager

/-!
# Plans on lists of rows

A plan that only reads can be carried out one stage after the other, each for the whole list of rows
that the stage before has made.  The rows of its result are those of the last list, in this order,
however many of them are asked for; the rows that nobody asks for are left out at the end.

    Plan.eagerRows            the rows of a plan, carried out stage by stage
    PlanBody.Estimates        the estimates that are asked for on the way
    ResultStream.served       the answers of a result with these rows
    Plan.start_eager          rows that are asked for are the rows of the list
-/

namespace PropertyGraph

open PropertyGraph.Flow (Lists)

variable {ctx : RunContext} {σ : Store} {book : String → Nat}

/-! ## On lists -/

/-- All rows that come out of stages one behind the other. -/
def Stage.allEagerly (ctx : RunContext) (stages : List Stage) : Run (List Row) :=
  stages.foldlM (Stage.eagerly ctx) [.empty]

/-- All rows of a plan. -/
def PlanBody.eagerly (ctx : RunContext) : PlanBody → Run (List Row)
  | .series stages => Stage.allEagerly ctx stages
  | .union all branches => do
    let rows := (← branches.mapM (Stage.allEagerly ctx)).flatten
    return if all then rows else Flow.firsts rowValues [] rows

/-- The rows of a plan's result on a store; a plan without columns has none. -/
def Plan.eagerRows (plan : Plan) (ctx : RunContext) (σ : Store) :
    Except Error (List (List Value)) :=
  (plan.body.eagerly ctx (.over σ)).1.map fun rows =>
    if plan.columns.isEmpty then [] else rows.map (ResultStream.project ⟨plan.columns, .closed⟩)

/-- One of the stages asks for a number under a text, each for the rows that come to it. -/
def Stage.AllEstimate (ctx : RunContext) (σ : Store) (key : String) (number : Nat) :
    List Stage → List Row → Prop
  | [], _ => False
  | stage :: rest, rows => stage.Estimates ctx σ rows key number ∨
    ∃ out, (stage.eagerly ctx rows (.over σ)).1 = .ok out ∧
      Stage.AllEstimate ctx σ key number rest out

/-- The plan asks for a number under a text. -/
def PlanBody.Estimates (ctx : RunContext) (σ : Store) (key : String) (number : Nat)
    (body : PlanBody) : Prop :=
  ∃ stages ∈ body.branches, Stage.AllEstimate ctx σ key number stages [.empty]

/-! ## Stages in turn -/

namespace Stage

variable {stages : List Stage} {source : Source Row} {rows out : List Row} {s t : RunState}

theorem blind_allEagerly (hread : ∀ stage ∈ stages, stage.isWrite = false) (rows : List Row) :
    Blind (Both (Keeping σ book)) (stages.foldlM (eagerly ctx) rows) :=
  .foldlM (fun _ stage hstage => blind_eagerly (hread stage hstage)) rows

theorem lists_attachAll (hread : ∀ stage ∈ stages, stage.isWrite = false)
    (hbook : ∀ key number, AllEstimate ctx σ key number stages rows → number = book key)
    (hsource : Lists (Keeping σ book) source rows) (hs : Keeping σ book s)
    (h : stages.foldlM (eagerly ctx) rows (.over σ) = (.ok out, t)) :
    ∃ source', stages.foldlM (attach ctx) source s = (.ok source', s) ∧
      Lists (Keeping σ book) source' out := by
  induction stages generalizing source rows t with
  | nil => cases h; exact ⟨source, rfl, hsource⟩
  | cons stage rest ih =>
    obtain ⟨hstage, hrest⟩ := List.forall_mem_cons.1 hread
    rw [List.foldlM_cons] at h
    obtain ⟨next, hnext, hlast⟩ := Comes.of_bind (blind_eagerly hstage) (blind_allEagerly hrest)
      (Keeping.of_store σ book) h
    obtain ⟨u, hover, -⟩ := hnext _ (Keeping.of_store σ book)
    obtain ⟨v, hlast, -⟩ := hlast _ (Keeping.of_store σ book)
    obtain ⟨u', hrun, -⟩ := hnext s hs
    obtain ⟨source', hattach, hsource'⟩ := lists_attach hstage
      (fun key number hnumber => hbook key number (Or.inl hnumber)) hsource hs hrun
    rw [List.foldlM_cons, Run.bind_apply, hattach]
    exact ih hrest (fun key number hnumber => hbook key number
      (Or.inr ⟨next, congrArg Prod.fst hover, hnumber⟩)) hsource' hlast

end Stage

namespace PlanBody

variable {s t : RunState} {rows : List Row}

theorem lists_branches {branches : List (List Stage)} {parts : List (List Row)}
    (hread : ∀ stages ∈ branches, ∀ stage ∈ stages, stage.isWrite = false)
    (hbook : ∀ stages ∈ branches, ∀ key number,
      Stage.AllEstimate ctx σ key number stages [.empty] → number = book key)
    (hs : Keeping σ book s) (h : List.Forall₂ (fun stages part =>
      Comes (Keeping σ book) (Stage.allEagerly ctx stages) part) branches parts) :
    ∃ sources, branches.mapM (Stage.attachAll ctx) s = (.ok sources, s) ∧
      List.Forall₂ (Lists (Keeping σ book)) sources parts := by
  induction h with
  | nil => exact ⟨[], rfl, List.Forall₂.nil⟩
  | cons hpart _ ih =>
    obtain ⟨hstages, hrest⟩ := List.forall_mem_cons.1 hread
    obtain ⟨hfirst, hbook⟩ := List.forall_mem_cons.1 hbook
    obtain ⟨t, hrun, -⟩ := hpart _ (Keeping.of_store σ book)
    obtain ⟨source, hattach, hsource⟩ := Stage.lists_attachAll hstages hfirst
      (Flow.lists_single Row.empty) hs hrun
    obtain ⟨sources, hattachs, hsources⟩ := ih hrest hbook
    refine ⟨source :: sources, ?_, List.Forall₂.cons hsource hsources⟩
    rw [List.mapM_cons, Run.bind_apply, show Stage.attachAll ctx _ s = _ from hattach]
    dsimp only
    rw [Run.bind_apply, hattachs]
    rfl

/-- The flow of a plan that only reads gives the rows of the plan. -/
theorem lists_flow {body : PlanBody} (hread : body.isWrite = false)
    (hbook : ∀ key number, body.Estimates ctx σ key number → number = book key)
    (hs : Keeping σ book s) (h : body.eagerly ctx (.over σ) = (.ok rows, t)) :
    ∃ source, body.flow ctx s = (.ok source, s) ∧ Lists (Keeping σ book) source rows := by
  have hstages := reads_of_isWrite hread
  have hbooks : ∀ stages ∈ body.branches, ∀ key number,
      Stage.AllEstimate ctx σ key number stages [.empty] → number = book key :=
    fun stages hmem key number hnumber => hbook key number ⟨stages, hmem, hnumber⟩
  cases body with
  | series stages =>
    exact Stage.lists_attachAll (hstages stages List.mem_cons_self)
      (hbooks stages List.mem_cons_self) (Flow.lists_single Row.empty) hs h
  | union all branches =>
    have hblind : ∀ stages ∈ branches,
        Blind (Both (Keeping σ book)) (Stage.allEagerly ctx stages) :=
      fun stages hmem => Stage.blind_allEagerly (hstages stages hmem) _
    obtain ⟨parts, hparts, hrows⟩ := Comes.of_bind (.runMapM hblind) (fun _ => .ok _)
      (Keeping.of_store σ book) h
    obtain ⟨u, hrun, -⟩ := hparts _ (Keeping.of_store σ book)
    obtain ⟨_, hpure, -⟩ := hrows _ (Keeping.of_store σ book)
    cases hpure
    obtain ⟨sources, hattach, hsources⟩ := lists_branches hstages hbooks hs
      (Comes.of_mapM hblind (Keeping.of_store σ book) hrun)
    change branches.mapM (Stage.attachAll ctx) s = (.ok sources, s) at hattach
    have hinTurn : Lists (Keeping σ book) (inTurn sources) parts.flatten :=
      Flow.lists_inTurn hsources
    refine ⟨unionRows all sources, ?_, fun u hu => ?_⟩
    · rw [flow_union, Run.bind_apply, hattach]
      rfl
    · unfold unionRows
      cases all with
      | true => exact (hinTurn u hu).counted Keeping.unmetered _
      | false => exact ((hinTurn u hu).distinct []).counted Keeping.unmetered _

end PlanBody

/-! ## Results -/

namespace ResultStream

variable {I : RunState → Prop} {r : ResultStream} {rows : List (List Value)} {s : RunState}

/-- The answers of a result that has some rows left: these in turn, until it is closed or at its
end. -/
def served (rows : List (List Value)) : List Ask → List Answer
  | [] => []
  | .close :: asks => none :: served [] asks
  | .next :: asks => match rows with
    | [] => none :: served [] asks
    | row :: rest => some (.ok row) :: served rest asks

theorem served_nil (asks : List Ask) : served [] asks = asks.map fun _ => none := by
  induction asks with
  | nil => rfl
  | cons a rest ih => cases a <;> exact congrArg (none :: ·) ih

/-- Asked for the next row so many times, a result gives that many first rows and then its end. -/
theorem served_nexts (rows : List (List Value)) (k : Nat) (asks : List Ask) :
    served rows (List.replicate k .next ++ asks) = (rows.take k).map (some ∘ Except.ok) ++
      List.replicate (k - rows.length) none ++ served (rows.drop k) asks := by
  induction k generalizing rows with
  | zero => simp
  | succ k ih =>
    rw [List.replicate_succ, List.cons_append]
    cases rows with
    | nil =>
      have hend := ih []
      rw [served, hend]
      simp [List.replicate_succ]
    | cons row rest =>
      rw [served, ih rest, List.take_succ_cons, List.drop_succ_cons, List.length_cons,
        Nat.add_sub_add_right]
      rfl

/-- The result has these rows left: as a flow, or it is closed and there are none. -/
inductive Offers (I : RunState → Prop) : ResultStream → List (List Value) → Prop where
  | closed (columns : List String) : Offers I ⟨columns, .closed⟩ []
  | bare (held : Nat) (source : Source Row) : Offers I ⟨[], .waiting held source⟩ []
  | waiting {columns : List String} (hcolumns : columns.isEmpty = false) (held : Nat)
    {source : Source Row} {rows : List Row} (hsource : Lists I source rows) :
    Offers I ⟨columns, .waiting held source⟩ (rows.map (project ⟨columns, .closed⟩))

theorem Offers.close (hI : Unmetered I) (h : r.Offers I rows) (hs : I s) :
    (r.close s).1.Offers I [] ∧ I (r.close s).2 := by
  cases h with
  | closed columns => exact ⟨.closed columns, hs⟩
  | bare held source => exact ⟨.closed [], hI s hs _⟩
  | waiting hcolumns held hsource => exact ⟨.closed _, hI s hs _⟩

/-- A result offers its rows one by one. -/
theorem Offers.next (hI : Unmetered I) (h : r.Offers I rows) (hs : I s) :
    I (r.next s).2 ∧ match rows with
      | [] => (r.next s).1.1 = none ∧ (r.next s).1.2.Offers I []
      | row :: rest => (r.next s).1.1 = some (.ok row) ∧ (r.next s).1.2.Offers I rest := by
  cases h with
  | closed columns =>
    unfold ResultStream.next
    split <;> exact ⟨hs, rfl, .closed columns⟩
  | bare held source => exact ⟨hI s hs _, rfl, .closed []⟩
  | @waiting columns hcolumns held source rows hsource =>
    unfold ResultStream.next
    rw [if_neg (by rw [hcolumns]; exact Bool.false_ne_true)]
    have hflow := hsource s hs
    dsimp only
    generalize source s = f at hflow
    cases hflow with
    | done hs' => exact ⟨hs', rfl, .closed columns⟩
    | emit hs' hrest => exact ⟨hs', rfl, .waiting hcolumns _ hrest⟩

theorem Offers.askAll (hI : Unmetered I) (h : r.Offers I rows) (hs : I s) (asks : List Ask) :
    (r.askAll asks s).1.1 = served rows asks := by
  induction asks generalizing r rows s with
  | nil => rfl
  | cons a rest ih =>
    rw [askAll_cons]
    cases a with
    | close =>
      obtain ⟨hleft, hs'⟩ := h.close hI hs
      exact congrArg (none :: ·) (ih hleft hs')
    | next =>
      obtain ⟨hs', hanswer⟩ := h.next hI hs
      rw [ask_next]
      cases rows with
      | nil =>
        obtain ⟨hnone, hleft⟩ := hanswer
        rw [hnone, served, ih hleft hs']
      | cons row more =>
        obtain ⟨hrow, hleft⟩ := hanswer
        rw [hrow, served, ih hleft hs']

theorem Offers.collect (h : r.Offers I rows) (hs : I s) :
    (r.collect s).1 = .ok rows := by
  cases h with
  | closed columns =>
    unfold ResultStream.collect
    split <;> rfl
  | bare held source => rfl
  | @waiting columns hcolumns held source rows hsource =>
    unfold ResultStream.collect
    rw [if_neg (by rw [hcolumns]; exact Bool.false_ne_true)]
    obtain ⟨s', hrun, -⟩ := hsource.toList s hs
    dsimp only
    rw [Run.bind_apply, hrun]
    rfl

end ResultStream

/-! ## Plans -/

namespace Plan

variable {plan : Plan} {s : RunState} {rows : List (List Value)}

/-- Where constraints whose estimates are kept under one text have one number, the rows of a plan
that only reads are those of its stages carried out one after the other on whole lists: all of them
in this order when the result is asked for everything, and however often it is asked for the next
one before it is closed, so many first ones. -/
theorem start_eager (hread : plan.body.isWrite = false)
    (hkeys : ∀ key n n', plan.body.Estimates ctx s.store key n →
      plan.body.Estimates ctx s.store key n' → n = n')
    (h : plan.eagerRows ctx s.store = .ok rows) :
    ∃ r s', plan.start ctx s = (.ok r, s') ∧ r.columns = plan.columns ∧
      (r.collect s').1 = .ok rows ∧
      ∀ k asks, (r.askAll (List.replicate k .next ++ .close :: asks) s').1.1 =
        (rows.take k).map (some ∘ Except.ok) ++ List.replicate (k - rows.length) none ++
          none :: asks.map fun _ => none := by
  classical
  -- the book that the statement keeps
  let book : String → Nat := fun key =>
    if hkey : ∃ n, plan.body.Estimates ctx s.store key n then hkey.choose else 0
  have hbook : ∀ key number, plan.body.Estimates ctx s.store key number → number = book key := by
    intro key number hnumber
    have hkey : ∃ n, plan.body.Estimates ctx s.store key n := ⟨number, hnumber⟩
    show number = if hkey : ∃ n, plan.body.Estimates ctx s.store key n then hkey.choose else 0
    rw [dif_pos hkey]
    exact hkeys key number _ hnumber hkey.choose_spec
  have hbegin : Keeping s.store book s.begin := ⟨rfl, fun _ _ hkept => by cases hkept⟩
  unfold eagerRows at h
  cases hrun : plan.body.eagerly ctx (.over s.store) with
  | mk x t =>
    rw [hrun] at h
    cases x with
    | error e => cases h
    | ok out =>
      cases h
      obtain ⟨source, hflow, hsource⟩ := PlanBody.lists_flow hread hbook hbegin hrun
      have hoffers : ResultStream.Offers (Keeping s.store book) ⟨plan.columns, .waiting 0 source⟩
          (if plan.columns.isEmpty then []
            else out.map (ResultStream.project ⟨plan.columns, .closed⟩)) := by
        cases hcolumns : plan.columns with
        | nil => exact .bare 0 source
        | cons x more => exact .waiting rfl 0 hsource
      refine ⟨⟨plan.columns, .waiting 0 source⟩, s.begin, ?_, rfl,
        hoffers.collect hbegin, fun k asks => ?_⟩
      · rw [start_eq, hflow, hread]
        rfl
      · rw [hoffers.askAll Keeping.unmetered hbegin, ResultStream.served_nexts,
          ResultStream.served, ResultStream.served_nil]

/-! ## Texts and numbers -/

/-- Vertices that have the number 0 or 1 or the text 1 as `k`, and edges from some of them. -/
def mixed : RunState :=
  let vertex := fun id labels properties =>
    Store.Call.addVertex id labels (("n", .text id) :: properties) ""
  let edge := fun id source target => Store.Call.addEdge id "R" source target [] ""
  { RunState.initial with
    store := [vertex "z" [] [("k", .int 0)], vertex "t" [] [("k", .text "1")],
      vertex "a1" [] [("k", .int 1)], vertex "a2" [] [("k", .int 1)], vertex "a3" [] [("k", .int 1)],
      vertex "b1" ["L"] [], vertex "b2" ["L"] [], edge "e0" "z" "b1", edge "e1" "a1" "b2",
      edge "e2" "a2" "b1"].foldl Store.after .empty }

/-- Two values, and for each the starts of edges that have it. -/
def starts : Query :=
  let node := fun name labels properties => (⟨some name, labels, properties⟩ : NodePattern)
  [.unwind (.list [.literal (.int 0), .literal (.int 1)]) "x",
    .matching false [⟨none, node "a" [] [("k", .var "x")],
      [(⟨none, ["R"], .outgoing, [], none⟩, node "b" ["L"] [])]⟩] none,
    .projectReturn ⟨false, false, [⟨.property (.var "a") "n", none⟩], [], none, none⟩]

/-- One vertex has the number 0, three have the number 1; there are two ends and three edges. -/
theorem estimates_starts {plan : Plan} (hplan : ofQuery starts = .ok plan) {key : String}
    {number : Nat} (h : plan.body.Estimates Search.plainContext mixed.store key number) :
    number = if key = "v|k=0" then 1 else if key = "v:L" then 2 else 3 := by
  cases hplan
  obtain ⟨stages, hstages, hnumber⟩ := h
  cases List.mem_singleton.1 hstages
  rcases hnumber with hfalse | ⟨out, hout, ⟨row, hrow, resolved, hresolved, hnumber⟩ |
    ⟨out, -, hfalse | ⟨_, -, hfalse⟩⟩⟩
  · cases hfalse
  · cases hout
    rcases List.mem_cons.1 hrow with rfl | hrow
    on_goal 2 => cases List.mem_singleton.1 hrow
    all_goals
      cases hresolved
      rcases hnumber with ⟨c, hc, rfl, rfl⟩ | ⟨r, hr, rfl, rfl⟩
      · rcases List.mem_cons.1 hc with rfl | hc
        · decide +kernel
        · cases List.mem_singleton.1 hc
          decide +kernel
      · cases List.mem_singleton.1 hr
        decide +kernel
  · cases hfalse
  · cases hfalse

/-- Of three rows, as many as are asked for are given. -/
theorem start_eager_starts : ∃ plan rows, ofQuery starts = .ok plan ∧
    plan.body.isWrite = false ∧
    (∀ key n n', plan.body.Estimates Search.plainContext mixed.store key n →
      plan.body.Estimates Search.plainContext mixed.store key n' → n = n') ∧
    plan.eagerRows Search.plainContext mixed.store = .ok rows ∧
    rows.map (·.map Value.toText) = [["z"], ["a2"], ["a1"]] ∧
    ∃ r s', plan.start Search.plainContext mixed = (.ok r, s') ∧ r.columns = plan.columns ∧
      (r.collect s').1 = .ok rows ∧
      ∀ k asks, (r.askAll (List.replicate k .next ++ .close :: asks) s').1.1 =
        (rows.take k).map (some ∘ Except.ok) ++ List.replicate (k - rows.length) none ++
          none :: asks.map fun _ => none := by
  obtain ⟨plan, hplan⟩ : ∃ plan, ofQuery starts = .ok plan := ⟨_, rfl⟩
  have hread : plan.body.isWrite = false := by cases hplan; rfl
  have hkeys : ∀ key n n', plan.body.Estimates Search.plainContext mixed.store key n →
      plan.body.Estimates Search.plainContext mixed.store key n' → n = n' :=
    fun key n n' h h' => (estimates_starts hplan h).trans (estimates_starts hplan h').symm
  have htexts : (plan.eagerRows Search.plainContext mixed.store).toOption.map
      (·.map (·.map Value.toText)) = some [["z"], ["a2"], ["a1"]] := by
    cases hplan
    decide +kernel
  obtain ⟨rows, hrows, hrowTexts⟩ := ok_of_toOption_map htexts
  exact ⟨plan, rows, hplan, hread, hkeys, hrows, hrowTexts, start_eager hread hkeys hrows⟩

/-! ## One text for two numbers -/

/-- Pairs of values, the first of which the start of an edge has, the second one more vertex. -/
def pairs : Query :=
  let node := fun name labels properties => (⟨some name, labels, properties⟩ : NodePattern)
  let int := fun n => Expr.literal (.int n)
  [.unwind (.list [.list [int 0, .literal (.text "1")], .list [int 1, int 0]]) "x",
    .matching false [⟨none, node "a" [] [("k", .index (.var "x") (int 0))],
      [(⟨none, ["R"], .outgoing, [], none⟩, node "b" ["L"] [])]⟩] none,
    .matching false [⟨none, node "c" [] [("k", .index (.var "x") (int 1))], []⟩] none,
    .projectReturn ⟨false, false, [⟨.property (.var "a") "n", none⟩], [], none, none⟩]

/-- The number of vertices that have the text 1 is kept for those that have the number 1, when the
rows are asked for one by one; so the search for these takes another way. -/
theorem kept_under_one_text : ¬ ∀ (plan : Plan) (ctx : RunContext) (s : RunState)
    (rows : List (List Value)), plan.body.isWrite = false →
    (∃ calls : List Store.Call, s.store = calls.foldl Store.after .empty) →
    plan.eagerRows ctx s.store = .ok rows →
    ((plan.start ctx >>= ResultStream.collect : Run (List (List Value))) s).1 = .ok rows := by
  intro h
  obtain ⟨plan, hplan⟩ : ∃ plan, ofQuery pairs = .ok plan := ⟨_, rfl⟩
  cases heager : plan.eagerRows Search.plainContext mixed.store with
  | error e =>
    have hok : (plan.eagerRows Search.plainContext mixed.store).isOk = true := by
      cases hplan
      decide +kernel
    rw [heager] at hok
    cases hok
  | ok rows =>
    have hsame := congrArg (fun rows => rows.toOption.map (·.map (·.map Value.toText)))
      ((h plan Search.plainContext mixed rows (by cases hplan; rfl) ⟨_, rfl⟩ heager).trans
        heager.symm)
    cases hplan
    exact absurd hsame (by decide +kernel)

end Plan

end PropertyGraph
