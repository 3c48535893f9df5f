import Mathlib.Data.List.Perm.Subperm
import PropertyGraph.Proofs.Pattern.Exact
import PropertyGraph.Proofs.Store.Sight

/-!
# The expansion of a relationship

A relationship with a range is expanded from an assigned node in rounds.  Each takes the next path
from a stack, puts it down as an assignment if it qualifies, and puts its extensions by one hop on
the stack if there may be more hops:

    rounds_walks                the rounds that a path and all its extensions take
    exists_rounds               after some round the stack is empty, and all walks are found
    Followable.length_le        a path has no more hops than there are vertices to be seen
    perm_walksWithin_turned     from either end the same walks are found

So the expansion is exact, and it ends whatever cycles there are.
-/

namespace PropertyGraph

namespace Search

variable {q : Search} {σ : Store} {m : Match} {r : RelationshipConstraint Value}

/-! ## Rounds -/

/-- The paths that are still to be followed, the next one first, and the assignments found so far. -/
structure Expansion where
  stack : List Path
  found : List RelationshipBinding

/-- The most hops that a range allows. -/
def most (q : Search) (range : HopRange) : Nat :=
  range.max.getD q.ctx.config.maxDepth

/-- The assignments among some paths from the origin. -/
def qualifying (o : Origin) (range : HopRange) (paths : List Path) : List RelationshipBinding :=
  (paths.filter fun p => range.min ≤ p.length && o.goal.all p.endsAt).map fun p =>
    .walk (o.along p)

/-- One round. -/
def round (q : Search) (m : Match) (r : RelationshipConstraint Value) (o : Origin)
    (range : HopRange) : Expansion → StateM RunState Expansion
  | ⟨[], found⟩ => return ⟨[], found⟩
  | ⟨p :: rest, found⟩ => do
    let found := found ++ qualifying o range [p]
    if p.length < q.most range then
      let next ← q.longer m r (o.direction r) p
      return ⟨next ++ rest, found⟩
    else return ⟨rest, found⟩

/-- So many rounds. -/
def rounds (q : Search) (m : Match) (r : RelationshipConstraint Value) (o : Origin)
    (range : HopRange) : Nat → Expansion → StateM RunState Expansion
  | 0, x => return x
  | n + 1, x => do
    let x ← q.round m r o range x
    rounds q m r o range n x

theorem qualifying_append (o : Origin) (range : HopRange) (paths more : List Path) :
    qualifying o range (paths ++ more) = qualifying o range paths ++ qualifying o range more := by
  unfold qualifying
  rw [List.filter_append, List.map_append]

section Rounds

variable (q m r) (o : Origin) (range : HopRange)

theorem round_cons (p : Path) (rest : List Path) (found : List RelationshipBinding) (s : RunState) :
    q.round m r o range ⟨p :: rest, found⟩ s =
      if p.length < q.most range then
        (⟨(q.longer m r (o.direction r) p s).1 ++ rest, found ++ qualifying o range [p]⟩,
          (q.longer m r (o.direction r) p s).2)
      else (⟨rest, found ++ qualifying o range [p]⟩, s) := by
  unfold round
  simp only
  split <;> rfl

theorem rounds_add (n k : Nat) (x : Expansion) (s : RunState) :
    q.rounds m r o range (n + k) x s =
      q.rounds m r o range k (q.rounds m r o range n x s).1 (q.rounds m r o range n x s).2 := by
  induction n generalizing x s with
  | zero => rw [Nat.zero_add]; rfl
  | succ n ih =>
    rw [Nat.succ_add]
    exact ih (q.round m r o range x s).1 (q.round m r o range x s).2

/-- An extension by one hop is one hop longer. -/
theorem length_of_longer (direction : Heading) (p : Path) (s : RunState) :
    ∀ p' ∈ (q.longer m r direction p s).1, p'.length = p.length + 1 := by
  have hreads : Reads s.store (q.longer m r direction p) fun ps =>
      ∀ p' ∈ ps, p'.length = p.length + 1 := by
    unfold longer
    refine (reads_neighbourhood q s.store _ _ _).bind fun edges _ => ?_
    refine (Reads.filterMapM (S := fun _ found => ∀ p', found = some p' →
      p'.length = p.length + 1) fun e _ => ?_).mono fun ps hps => ?_
    · by_cases hc : (p.hasEdge e.id || !q.usable m r e ||
          p.hasVertex (e.otherEnd p.finish.id)) = true
      · simp only [hc, if_true]
        exact Reads.pure nofun
      · simp only [if_neg hc]
        refine (reads_fetchVertex q s.store _).map fun found _ p' hp' => ?_
        obtain ⟨v, -, rfl⟩ := Option.map_eq_some_iff.1 hp'
        simp [Path.extend, Path.length]
    · obtain ⟨results, hresults, rfl⟩ := hps
      intro p' hp'
      obtain ⟨found, hfound, heq⟩ := List.mem_filterMap.1 hp'
      obtain ⟨e, -, hlength⟩ := exists_of_forall₂ hresults hfound
      exact hlength p' heq
  exact (hreads s rfl).1

/-- If each of some paths takes as many rounds as it has walks, then so do all of them. -/
theorem rounds_each {left : Nat} {paths : List Path} (rest : List Path)
    (hpaths : ∀ p ∈ paths, ∀ (rest : List Path) (found : List RelationshipBinding) (s : RunState),
      q.rounds m r o range (q.walks m r (o.direction r) left p s).1.length ⟨p :: rest, found⟩ s =
        (⟨rest, found ++ qualifying o range (q.walks m r (o.direction r) left p s).1⟩,
          (q.walks m r (o.direction r) left p s).2))
    (found : List RelationshipBinding) (s : RunState) :
    q.rounds m r o range (paths.mapM (q.walks m r (o.direction r) left) s).1.flatten.length
        ⟨paths ++ rest, found⟩ s =
      (⟨rest, found ++ qualifying o range
        (paths.mapM (q.walks m r (o.direction r) left) s).1.flatten⟩,
        (paths.mapM (q.walks m r (o.direction r) left) s).2) := by
  induction paths generalizing found s with
  | nil =>
    have hnone : found ++ qualifying o range [] = found := List.append_nil found
    change (Expansion.mk rest found, s) = (⟨rest, found ++ qualifying o range []⟩, s)
    rw [hnone]
  | cons p paths ih =>
    have hcons : ∀ s, (p :: paths).mapM (q.walks m r (o.direction r) left) s =
        ((q.walks m r (o.direction r) left p s).1 ::
          (paths.mapM (q.walks m r (o.direction r) left)
            (q.walks m r (o.direction r) left p s).2).1,
          (paths.mapM (q.walks m r (o.direction r) left)
            (q.walks m r (o.direction r) left p s).2).2) := fun s => by
      rw [List.mapM_cons]
      rfl
    have hfirst := hpaths p List.mem_cons_self (paths ++ rest) found s
    rw [hcons, List.flatten_cons, List.length_append, List.cons_append, rounds_add, hfirst,
      ih (fun p' hp' => hpaths p' (List.mem_cons_of_mem _ hp')), List.append_assoc,
      ← qualifying_append]

/-- A path and its extensions take as many rounds as there are, after which the rest of the stack
is next. -/
theorem rounds_walks (left : Nat) (p : Path) (hleft : p.length + left = q.most range)
    (rest : List Path) (found : List RelationshipBinding) (s : RunState) :
    q.rounds m r o range (q.walks m r (o.direction r) left p s).1.length ⟨p :: rest, found⟩ s =
      (⟨rest, found ++ qualifying o range (q.walks m r (o.direction r) left p s).1⟩,
        (q.walks m r (o.direction r) left p s).2) := by
  induction left generalizing p rest found s with
  | zero =>
    have hwalks : q.walks m r (o.direction r) 0 p s = ([p], s) := rfl
    have hround : q.round m r o range ⟨p :: rest, found⟩ s =
        (⟨rest, found ++ qualifying o range [p]⟩, s) := by
      rw [round_cons, if_neg (by omega)]
    rw [hwalks]
    exact hround
  | succ left ih =>
    let next := q.longer m r (o.direction r) p s
    have hwalks : q.walks m r (o.direction r) (left + 1) p s =
        (p :: (next.1.mapM (q.walks m r (o.direction r) left) next.2).1.flatten,
          (next.1.mapM (q.walks m r (o.direction r) left) next.2).2) := rfl
    have hround : q.round m r o range ⟨p :: rest, found⟩ s =
        (⟨next.1 ++ rest, found ++ qualifying o range [p]⟩, next.2) := by
      rw [round_cons, if_pos (by omega)]
    have hlonger : ∀ p' ∈ next.1, p'.length = p.length + 1 :=
      length_of_longer q m r (o.direction r) p s
    have heach := rounds_each q m r o range rest
      (fun p' hp' => ih p' (by rw [hlonger p' hp']; omega))
      (found ++ qualifying o range [p]) next.2
    rw [hwalks, List.length_cons]
    -- a round for the path itself, and then those for its extensions
    change q.rounds m r o range _ (q.round m r o range ⟨p :: rest, found⟩ s).1
      (q.round m r o range ⟨p :: rest, found⟩ s).2 = _
    rw [hround, heach, List.append_assoc, ← qualifying_append]
    rfl

/-- Where the rounds start: with the origin alone, unless the range allows nothing. -/
def opening (q : Search) (o : Origin) (range : HopRange) : Expansion :=
  if q.most range < range.min then ⟨[], []⟩ else ⟨[.single o.vertex], []⟩

/-- At some point the stack is empty, and then the walks for the relationship are found. -/
theorem exists_rounds (s : RunState) : ∃ n, q.rounds m r o range n (q.opening o range) s =
    (⟨[], (q.walksWithin m r o range s).1⟩, (q.walksWithin m r o range s).2) := by
  unfold opening
  by_cases hnone : q.most range < range.min
  · have hwithin : q.walksWithin m r o range s = ([], s) := by
      unfold walksWithin
      simp only
      rw [if_pos (by exact hnone)]
      rfl
    rw [if_pos hnone, hwithin]
    exact ⟨0, rfl⟩
  · let paths := q.walks m r (o.direction r) (q.most range) (.single o.vertex) s
    have hwithin : q.walksWithin m r o range s = (qualifying o range paths.1, paths.2) := by
      unfold walksWithin
      simp only
      rw [if_neg (by exact hnone)]
      rfl
    rw [if_neg hnone, hwithin]
    exact ⟨paths.1.length, rounds_walks q m r o range (q.most range) (.single o.vertex)
      (Nat.zero_add _) [] [] s⟩

end Rounds

/-! ## The length of a path -/

/-- However many hops a range allows, a path has no more of them than there are vertices to be
seen. -/
theorem Followable.length_le (hσ : σ.Consistent) {direction : Heading} {p : Path}
    (h : q.Followable σ m r direction p) :
    p.length ≤ (σ.seenVertices q.ctx.reader).length := by
  have hnodup : ((p.hops.map Prod.snd).map (·.id)).Nodup := (List.nodup_cons.1 h.simple.1).2
  have hseen : (p.hops.map Prod.snd).map (·.id) ⊆ (σ.seenVertices q.ctx.reader).map (·.id) := by
    intro id hid
    obtain ⟨v, hv, rfl⟩ := List.mem_map.1 hid
    have hmem := ((Store.getVertex?_eq_some_iff_seen hσ).1 (h.vertices v hv)).2
    exact List.mem_map.2 ⟨v, hmem, rfl⟩
  have hle := (List.subperm_of_subset hnodup hseen).length_le
  rw [List.length_map, List.length_map, List.length_map] at hle
  exact hle

/-! ## From either end -/

theorem Origin.ends_of_along (o : Origin) (p : Path) :
    ((o.along p).start, (o.along p).finish) = o.order p.start p.finish := by
  unfold Origin.along Origin.order
  split
  · rfl
  · rw [Path.start_reverse, Path.finish_reverse]

theorem Origin.order_order (o : Origin) (v w : Vertex) :
    o.order (o.order v w).1 (o.order v w).2 = (v, w) := by
  unfold Origin.order
  split <;> rfl

/-- Between two vertices that the reader sees, it does not show in a walk which end it was found
from. -/
theorem walk_between {o : Origin} {far : Vertex} (range : HopRange)
    (hnear : σ.getVertex? q.ctx.reader o.vertex.id = some o.vertex)
    (hfar : σ.getVertex? q.ctx.reader far.id = some far) (hgoal : o.goal = some far.id)
    (b : RelationshipBinding) :
    (∃ p, b = .walk (o.along p) ∧ q.Followable σ m r (o.direction r) p ∧ p.start = o.vertex ∧
      range.min ≤ p.length ∧ p.length ≤ q.most range ∧ ∀ id, o.goal = some id → p.finish.id = id) ↔
    ∃ p, b = .walk p ∧ q.Walkable σ m r r.heading p ∧
      (p.start, p.finish) = o.order o.vertex far ∧ range.min ≤ p.length ∧
      p.length ≤ q.most range := by
  constructor
  · rintro ⟨p, rfl, hp, hstart, hmin, hmax, hend⟩
    have hwalk : q.Walkable σ m r (o.direction r) p :=
      walkable_iff.2 ⟨hp, by rw [hstart]; exact hnear⟩
    have hfinish : p.finish = far := by
      -- both are the vertex of that id which the reader sees
      have hseen := hwalk.vertices _ (List.mem_of_getLast? p.getLast?_vertices)
      rw [hend far.id hgoal, hfar] at hseen
      exact (Option.some.inj hseen).symm
    refine ⟨o.along p, rfl, o.walkable_along.2 hwalk, ?_, ?_, ?_⟩
    · rw [o.ends_of_along, hstart, hfinish]
    · rw [o.length_along]
      exact hmin
    · rw [o.length_along]
      exact hmax
  · rintro ⟨p, rfl, hp, hends, hmin, hmax⟩
    have hwalk : q.Walkable σ m r (o.direction r) (o.along p) := by
      rw [← o.walkable_along, o.along_along]
      exact hp
    have hturned : ((o.along p).start, (o.along p).finish) = (o.vertex, far) := by
      have hstart : p.start = (o.order o.vertex far).1 := congrArg Prod.fst hends
      have hfinish : p.finish = (o.order o.vertex far).2 := congrArg Prod.snd hends
      rw [o.ends_of_along, hstart, hfinish, o.order_order]
    obtain ⟨hstart, hfinish⟩ := Prod.mk.inj hturned
    refine ⟨o.along p, by rw [o.along_along], (walkable_iff.1 hwalk).1, hstart, ?_, ?_,
      fun id hid => ?_⟩
    · rw [o.length_along]
      exact hmin
    · rw [o.length_along]
      exact hmax
    · rw [hfinish]
      exact Option.some.inj (hgoal.symm.trans hid)

/-- Expanded from either of two vertices towards the other one, a relationship comes to the same
walks. -/
theorem perm_walksWithin_turned (hσ : σ.Consistent) (range : HopRange) {v w : Vertex}
    (hv : σ.getVertex? q.ctx.reader v.id = some v) (hw : σ.getVertex? q.ctx.reader w.id = some w)
    {s s' : RunState} (hs : s.store = σ) (hs' : s'.store = σ) :
    (q.walksWithin m r ⟨v, true, some w.id⟩ range s).1.Perm
      (q.walksWithin m r ⟨w, false, some v.id⟩ range s').1 := by
  obtain ⟨⟨hnodup, hmem⟩, -⟩ := reads_walksWithin (q := q) (m := m) (r := r) hσ
    ⟨v, true, some w.id⟩ range s hs
  obtain ⟨⟨hnodup', hmem'⟩, -⟩ := reads_walksWithin (q := q) (m := m) (r := r) hσ
    ⟨w, false, some v.id⟩ range s' hs'
  refine (List.perm_ext_iff_of_nodup hnodup hnodup').2 fun b => ?_
  have hfirst := walk_between (m := m) (r := r) (o := ⟨v, true, some w.id⟩) range hv hw rfl b
  have hsecond := walk_between (m := m) (r := r) (o := ⟨w, false, some v.id⟩) range hw hv rfl b
  exact (hmem b).trans (hfirst.trans (hsecond.symm.trans (hmem' b).symm))

/-! ## All of it -/

/-- What the expansion of a relationship with a range comes to. -/
structure Expands (q : Search) (σ : Store) (m : Match) (r : RelationshipConstraint Value)
    (range : HopRange) : Prop where
  /-- From any origin, exactly the paths that the range and the goal allow come out, each once. -/
  found : ∀ o : Origin, Reads σ (q.walksWithin m r o range) fun bs => bs.Nodup ∧ ∀ b, b ∈ bs ↔
    ∃ p, b = .walk (o.along p) ∧ q.Followable σ m r (o.direction r) p ∧ p.start = o.vertex ∧
      range.min ≤ p.length ∧ p.length ≤ q.most range ∧ ∀ id, o.goal = some id → p.finish.id = id
  /-- The search with a stack ends, and these are what it finds. -/
  ends : ∀ (o : Origin) (s : RunState), ∃ n, q.rounds m r o range n (q.opening o range) s =
    (⟨[], (q.walksWithin m r o range s).1⟩, (q.walksWithin m r o range s).2)
  /-- The paths are no longer than the number of vertices, whatever the range. -/
  bounded : ∀ (direction : Heading) (p : Path), q.Followable σ m r direction p →
    p.length ≤ (σ.seenVertices q.ctx.reader).length
  /-- Between two stored vertices that the reader sees, both directions come to the same. -/
  turned : ∀ v w, σ.getVertex? q.ctx.reader v.id = some v →
    σ.getVertex? q.ctx.reader w.id = some w → ∀ s s' : RunState, s.store = σ → s'.store = σ →
      (q.walksWithin m r ⟨v, true, some w.id⟩ range s).1.Perm
        (q.walksWithin m r ⟨w, false, some v.id⟩ range s').1

/-- The expansion of a relationship is exact, ends, and comes to the same from either end. -/
theorem walksWithin_expands (hσ : σ.Consistent) (q : Search) (m : Match)
    (r : RelationshipConstraint Value) (range : HopRange) : q.Expands σ m r range where
  found o := reads_walksWithin hσ o range
  ends o s := exists_rounds q m r o range s
  bounded _ _ hp := hp.length_le hσ
  turned _ _ hv hw _ _ hs hs' := perm_walksWithin_turned hσ range hv hw hs hs'

/-- Two vertices with an edge each way, and a vertex that is hidden from most. -/
def circle : Store :=
  [.addVertex "v" [] [] "", .addVertex "w" [] [] "", .addVertex "h" [] [] "secret",
    .addEdge "e" "R" "v" "w" [] "", .addEdge "f" "R" "w" "v" [] ""].foldl Store.after .empty

/-- A search without a pattern. -/
def aimless : Search := .of plainContext ⟨false, [], [], []⟩

theorem walksWithin_expands_circle :
    circle.Consistent ∧ aimless.Expands circle ⟨[], []⟩
      ⟨0, none, [], [], .undirected, some ⟨0, none⟩, false, 0, 1⟩ ⟨0, none⟩ :=
  have hconsistent : circle.Consistent := Store.consistent_empty.foldl_after _
  ⟨hconsistent, walksWithin_expands hconsistent aimless _ _ _⟩

/-- From a vertex that the reader does not see, paths are found nevertheless. -/
theorem hidden_origin_expanded : ¬ ∀ (calls : List Store.Call) (q : Search) (m : Match)
    (r : RelationshipConstraint Value) (o : Origin) (range : HopRange) (s : RunState),
    s.store = calls.foldl Store.after .empty →
    ∀ p, .walk p ∈ (q.walksWithin m r o range s).1 →
      ∀ v ∈ p.vertices, s.store.getVertex? q.ctx.reader v.id = some v := by
  intro h
  let hidden : Vertex := ⟨"h", [], [], "secret"⟩
  have hfound : (aimless.walksWithin ⟨[], []⟩ ⟨0, none, [], [], .outgoing, some ⟨0, some 0⟩, false, 0, 0⟩
      ⟨hidden, true, some "h"⟩ ⟨0, some 0⟩ { RunState.initial with store := circle }).1 =
        [.walk (.single hidden)] := by rfl
  have hseen := h _ aimless ⟨[], []⟩ ⟨0, none, [], [], .outgoing, some ⟨0, some 0⟩, false, 0, 0⟩
    ⟨hidden, true, some "h"⟩ ⟨0, some 0⟩ { RunState.initial with store := circle } rfl
    (.single hidden) (by rw [hfound]; exact List.mem_singleton_self _) hidden List.mem_cons_self
  have hunseen : circle.getVertex? ⟨[]⟩ "h" = none := by rfl
  exact absurd (hunseen.symm.trans hseen) (by simp)

end Search

end PropertyGraph
