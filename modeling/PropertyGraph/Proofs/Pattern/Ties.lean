import PropertyGraph.Proofs.Pattern.Exact

/-!
# Ties

Ties between constraints are broken by a hash of a seed, so that the order of the constraints is
hardly under anybody's control.  It makes no difference to the matches in full as long as the store
agrees with the language about what is equal, and the row binds the ends of walks to vertices that
are stored.

    Solution.retie       whether a match is a solution does not depend on how ties are broken
    same_matches         then neither does what is found
    order_matters        without either of the two it does
-/

namespace PropertyGraph

namespace Search

variable {q : Search} {σ : Store} {row : Row} {m : Match}

/-- The same search with ties broken in another way. -/
def retie (q : Search) (tie : ConstraintId → UInt64) : Search := { q with tie := tie }

/-- The same matches in full, each as often, or the same failure. -/
def SameMatches : Except Error (List Match) → Except Error (List Match) → Prop
  | .ok ms, .ok ms' => (ms.filter (!·.hasNull)).Perm (ms'.filter (!·.hasNull))
  | .error e, .error e' => e = e'
  | _, _ => False

section Retie

variable (tie : ConstraintId → UInt64)

/-! ## Solutions -/

theorem Solution.retie (h : q.Solution σ row m) : (q.retie tie).Solution σ row m := by
  exact ⟨h.nodeCount, h.relationshipCount, h.node, fun _ _ hr => h.relationship_of_ctx (by rfl) hr,
    h.distinct⟩

/-! ## The names of the row -/

theorem startNodes_retie (row : Row) (l : List (NodeConstraint Value × Nat)) (m : Match) :
    (q.retie tie).startNodes row l m = q.startNodes row l m := by
  induction l generalizing m with
  | nil => rfl
  | cons p rest ih =>
    obtain ⟨n, i⟩ := p
    unfold startNodes
    simp only [ih]
    rfl

theorem startRelationships_retie (row : Row) (l : List (RelationshipConstraint Value × Nat))
    (ms : List Match) :
    (q.retie tie).startRelationships row l ms = q.startRelationships row l ms := by
  induction l generalizing ms with
  | nil => rfl
  | cons p rest ih =>
    obtain ⟨r, i⟩ := p
    unfold startRelationships
    simp only [ih]
    rfl

theorem start_retie (row : Row) : (q.retie tie).start row = q.start row := by
  unfold start
  simp only [startNodes_retie, startRelationships_retie]
  rfl

end Retie

/-! ## The matches in full -/

/-- What is found in full from the same partial match is the same. -/
theorem Found.perm {q' : Search} {found found' : List Match}
    (hq : ∀ m', q.Solution σ row m' ↔ q'.Solution σ row m')
    (hp : q.Passable σ ↔ q'.Passable σ) (ha : q.Agreement σ row) (ha' : q'.Agreement σ row)
    (h : q.Found σ row m found) (h' : q'.Found σ row m found') :
    (found.filter (!·.hasNull)).Perm (found'.filter (!·.hasNull)) := by
  rw [List.perm_ext_iff_of_nodup h.nodup h'.nodup]
  intro m'
  rw [List.mem_filter, List.mem_filter, Bool.not_eq_true']
  constructor
  · rintro ⟨hm, hn⟩
    obtain ⟨hs, hpass⟩ := h.sound m' hm hn
    exact ⟨h'.complete ha' (hp.1 hpass) m' ((hq m').1 hs) (h.extending m' hm), hn⟩
  · rintro ⟨hm, hn⟩
    obtain ⟨hs, hpass⟩ := h'.sound m' hm hn
    exact ⟨h.complete ha (hp.2 hpass) m' ((hq m').2 hs) (h'.extending m' hm), hn⟩

/-- How ties are broken makes no difference where the store agrees with the language.  It does so
exactly if its cursors find the vertices that the nodes admit. -/
theorem same_matches {parts : List PatternPart} {optional : Bool} {g : Constraints Expr}
    {f : Expr → Except Error Value} {s : RunState}
    (hparts : Constraints.ofParts parts optional = .ok g) (hvalues : g.mapM f = .ok q.pattern)
    (hσ : s.store.Consistent) (hends : q.WalkEndsStored s.store row)
    (tie : ConstraintId → UInt64) :
    (q.Agreement s.store row →
      SameMatches (Flow.toList (q.flow row) s).1 (Flow.toList ((q.retie tie).flow row) s).1) ∧
    ∀ n ∈ q.pattern.nodes, hopeless q.ctx.config s.store n.properties = false → ∃ ids,
      (s.store.selectVertices q.ctx.reader (nodeSelection q.ctx.config n)).pending = some ids ∧
        ((∀ v, s.store.getVertex? q.ctx.reader v.id = some v → n.admits q.ctx.config v = true →
            v.id ∈ ids) ↔
          ∀ v, s.store.getVertex? q.ctx.reader v.id = some v → n.admits q.ctx.config v = true →
            n.Agrees q.ctx.config v) := by
  obtain ⟨hwf, -⟩ := Constraints.wellFormed_of_ofParts hparts
  have hw : q.pattern.WellFormed := hwf.of_shape (Constraints.shape_of_mapM hvalues)
  constructor
  · intro ha
    cases hstart : q.start row with
    | error e =>
      have hrun : (Flow.toList (q.flow row) s).1 = .error e := by
        unfold Flow.toList flow
        rw [hstart]
        rfl
      have hrun' : (Flow.toList ((q.retie tie).flow row) s).1 = .error e := by
        unfold Flow.toList flow
        rw [start_retie, hstart]
        rfl
      rw [hrun, hrun']
      rfl
    | ok ms =>
      obtain ⟨found, s₁, hrun, -, hfound⟩ :=
        Flow.toList_of_yields (yields_flow hσ hw hends hstart rfl)
      obtain ⟨found', s₂, hrun', -, hfound'⟩ := Flow.toList_of_yields
        (yields_flow (q := q.retie tie) hσ hw hends ((start_retie tie row).trans hstart) rfl)
      rw [hrun, hrun']
      exact hfound.perm (fun m' => ⟨fun h => h.retie tie, fun h => h.retie q.tie⟩) Iff.rfl ha ha
        hfound'
  · intro n hn hhopeless
    obtain ⟨ids, hids, -, hseeds⟩ := exists_seed hσ q.ctx.reader hhopeless
    refine ⟨ids, hids, forall_congr' fun v => forall_congr' fun hv => forall_congr' fun hmeets => ?_⟩
    rw [hseeds, ← admitsVertex_iff_agrees hmeets]
    constructor
    · rintro ⟨w, hw, hseed⟩
      rw [hv] at hw
      rwa [Option.some.inj hw]
    · exact fun hseed => ⟨v, hv, hseed⟩

/-- One constraint comes first among those that tie. -/
def favour (first : ConstraintId) : ConstraintId → UInt64 :=
  fun t => if t = first then 0 else 1

/-- The number of matches in full. -/
def countInFull (r : Except Error (List Match)) : Option Nat :=
  r.toOption.map fun ms => (ms.filter (!·.hasNull)).length

theorem SameMatches.countInFull {r r' : Except Error (List Match)} (h : SameMatches r r') :
    countInFull r = countInFull r' := by
  cases r with
  | error e => cases r' with
    | error e' => rfl
    | ok ms' => cases h
  | ok ms => cases r' with
    | error e' => cases h
    | ok ms' => exact congrArg some h.length_eq

/-- The search for the matches in which the edge of type `R` comes first. -/
def twofoldTied : Search := twofoldSearch.retie (favour (.relationship 0))

/-- The vertex at the first node of each match. -/
def firstIds (ms : List Match) : List (Option String) :=
  ms.map fun m => (m.vertex? 0).map (·.id)

/-- The matches come in another order if the other of two single relationships is the first, and the
store finds all that the nodes admit. -/
theorem same_matches_twofold : ∃ ms ms',
    ((Flow.toList (twofoldTied.flow twofoldRow) twofold).1 = .ok ms ∧
      (Flow.toList ((twofoldTied.retie (favour (.relationship 1))).flow twofoldRow) twofold).1 =
        .ok ms' ∧ ms.length = 8 ∧ firstIds ms ≠ firstIds ms' ∧
      (ms.filter (!·.hasNull)).Perm (ms'.filter (!·.hasNull))) ∧
    ∀ n ∈ twofoldTied.pattern.nodes, ∃ ids,
      (twofold.store.selectVertices twofoldTied.ctx.reader
        (nodeSelection twofoldTied.ctx.config n)).pending = some ids ∧
        ∀ v, twofold.store.getVertex? twofoldTied.ctx.reader v.id = some v →
          n.admits twofoldTied.ctx.config v = true → v.id ∈ ids := by
  obtain ⟨g, hparts, hvalues⟩ := twofold_values
  have hends : twofoldTied.WalkEndsStored twofold.store twofoldRow := twofold_ends
  have hagree : twofoldTied.Agreement twofold.store twofoldRow := twofold_agreement
  have hhopeful : ∀ n ∈ twofoldTied.pattern.nodes,
      hopeless twofoldTied.ctx.config twofold.store n.properties = false := by
    decide +kernel
  have horder : (Flow.toList (twofoldTied.flow twofoldRow) twofold).1.toOption.map firstIds ≠
      (Flow.toList ((twofoldTied.retie (favour (.relationship 1))).flow twofoldRow)
        twofold).1.toOption.map firstIds := by
    decide +kernel
  have hsame := same_matches (q := twofoldTied) hparts hvalues consistent_twofold hends
    (favour (.relationship 1))
  obtain ⟨ms, hrun, hlength⟩ := ok_of_toOption_map
    (show (Flow.toList (twofoldTied.flow twofoldRow) twofold).1.toOption.map List.length = some 8 by
      decide +kernel)
  obtain ⟨ms', hrun', -⟩ := ok_of_toOption_map
    (show (Flow.toList ((twofoldTied.retie (favour (.relationship 1))).flow twofoldRow)
        twofold).1.toOption.map List.length = some 8 by
      decide +kernel)
  rw [hrun, hrun'] at horder hsame
  refine ⟨ms, ms', ⟨hrun, hrun', hlength, fun h => horder (congrArg some h), hsame.1 hagree⟩,
    fun n hn => ?_⟩
  obtain ⟨ids, hids, hall⟩ := hsame.2 n hn (hhopeful n hn)
  exact ⟨ids, hids, hall.2 fun v _ _ => NodeConstraint.agrees_of_plain (twofold_plain n hn) _ v⟩

/-! ## Where the order matters -/

/-- The double 1. -/
def oneDouble : Double := ⟨0x3ff0000000000000⟩

/-- A store with a list of an integer and one of a double. -/
def mixed : RunState :=
  { RunState.initial with
    store := [.addVertex "x" [] [("l", .list [.int 1])] "",
      .addVertex "z" [] [("l", .list [.float oneDouble])] "", .addVertex "y" ["B"] [] "",
      .addEdge "e" "R" "y" "x" [] ""].foldl Store.after .empty }

/-- The search for a vertex with such a list and its neighbour, the former first. -/
def listSearch : Search :=
  ⟨plainContext,
    ⟨false, [⟨0, some "a", [], [("l", .list [.float oneDouble])], false, [0]⟩,
        ⟨1, some "b", ["B"], [], false, [0]⟩],
      [⟨0, none, ["R"], [], .incoming, none, false, 0, 1⟩], []⟩, favour (.node 0)⟩

/-- A chain of three vertices, the last of which is hidden. -/
def chain : RunState :=
  { RunState.initial with
    store := [.addVertex "x" [] [] "", .addVertex "y" [] [] "", .addVertex "z" [] [] "t",
      .addEdge "e" "R" "x" "y" [] "", .addEdge "f" "R" "y" "z" [] ""].foldl Store.after .empty }

/-- A row that binds the ends of the chain. -/
def chainRow : Row :=
  (Row.empty.set "a" (.node ⟨"x", [], [], ""⟩)).set "c" (.node ⟨"z", [], [], "t"⟩)

/-- The search for two walks between the ends, the first walk first. -/
def chainSearch : Search :=
  ⟨plainContext,
    ⟨false, [⟨0, some "a", [], [], false, [0]⟩, ⟨1, some "b", [], [], false, [0, 1]⟩,
        ⟨2, some "c", [], [], false, [1]⟩],
      [⟨0, none, [], [], .outgoing, some ⟨1, some 1⟩, false, 0, 1⟩,
        ⟨1, none, [], [], .outgoing, some ⟨1, some 1⟩, false, 1, 2⟩], []⟩, favour (.relationship 0)⟩

theorem list_ends : listSearch.WalkEndsStored mixed.store .empty := by
  intro r hr hwalk
  rw [List.mem_singleton.1 hr] at hwalk
  cases hwalk

theorem chain_agreement : chainSearch.Agreement chain.store chainRow := by
  intro n hn _ id v _ _ p hp
  have hnone : ∀ n ∈ chainSearch.pattern.nodes, n.properties = [] := by
    decide +kernel
  rw [hnone n hn] at hp
  cases hp

/-- The patterns of these searches are built from parts. -/
theorem built_patterns : ∀ pattern ∈ [listSearch.pattern, chainSearch.pattern],
    ∃ (parts : List PatternPart) (g : Constraints Expr) (f : Expr → Except Error Value),
      Constraints.ofParts parts false = .ok g ∧ g.mapM f = .ok pattern := by
  have list : ∃ (parts : List PatternPart) (g : Constraints Expr) (f : Expr → Except Error Value),
      Constraints.ofParts parts false = .ok g ∧ g.mapM f = .ok listSearch.pattern :=
    ⟨[⟨none, ⟨some "a", [], [("l", .list [.literal (.float oneDouble)])]⟩,
      [(⟨none, ["R"], .incoming, [], none⟩, ⟨some "b", ["B"], []⟩)]⟩], _,
      fun _ => .ok (.list [.float oneDouble]), rfl, rfl⟩
  have chain : ∃ (parts : List PatternPart) (g : Constraints Expr) (f : Expr → Except Error Value),
      Constraints.ofParts parts false = .ok g ∧ g.mapM f = .ok chainSearch.pattern :=
    ⟨[⟨none, ⟨some "a", [], []⟩,
      [(⟨none, [], .outgoing, [], some ⟨some 1, some 1⟩⟩, ⟨some "b", [], []⟩),
        (⟨none, [], .outgoing, [], some ⟨some 1, some 1⟩⟩, ⟨some "c", [], []⟩)]⟩], _,
      fun _ => .ok .null, rfl, rfl⟩
  intro pattern hp
  rcases List.mem_cons.1 hp with rfl | hp
  · exact list
  · rw [List.mem_singleton.1 hp]
    exact chain

/-- A list of an integer equals one of a double for the language and not for the store, and a row
may bind a vertex that the reader does not see. -/
theorem order_matters : (∀ pattern ∈ [listSearch.pattern, chainSearch.pattern],
      ∃ (parts : List PatternPart) (g : Constraints Expr) (f : Expr → Except Error Value),
        Constraints.ofParts parts false = .ok g ∧ g.mapM f = .ok pattern) ∧
    (listSearch.WalkEndsStored mixed.store .empty ∧ mixed.store.Consistent ∧
      ¬ SameMatches (Flow.toList (listSearch.flow .empty) mixed).1
        (Flow.toList ((listSearch.retie (favour (.node 1))).flow .empty) mixed).1) ∧
    (chainSearch.Agreement chain.store chainRow ∧ chain.store.Consistent ∧
      ¬ SameMatches (Flow.toList (chainSearch.flow chainRow) chain).1
        (Flow.toList ((chainSearch.retie (favour (.relationship 1))).flow chainRow) chain).1) := by
  refine ⟨built_patterns, ⟨list_ends, Store.consistent_empty.foldl_after _, fun h => ?_⟩,
    ⟨chain_agreement, Store.consistent_empty.foldl_after _, fun h => ?_⟩⟩
  · have hfirst : countInFull (Flow.toList (listSearch.flow .empty) mixed).1 = some 0 := by
      decide +kernel
    have hsecond : countInFull (Flow.toList
        ((listSearch.retie (favour (.node 1))).flow .empty) mixed).1 = some 1 := by
      decide +kernel
    have := h.countInFull
    rw [hfirst, hsecond] at this
    cases this
  · have hfirst : countInFull (Flow.toList (chainSearch.flow chainRow) chain).1 = some 0 := by
      decide +kernel
    have hsecond : countInFull (Flow.toList
        ((chainSearch.retie (favour (.relationship 1))).flow chainRow) chain).1 = some 1 := by
      decide +kernel
    have := h.countInFull
    rw [hfirst, hsecond] at this
    cases this

end Search

end PropertyGraph
