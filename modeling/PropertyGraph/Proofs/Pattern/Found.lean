import PropertyGraph.Proofs.Pattern.Candidates
import PropertyGraph.Proofs.Pattern.Choice
import PropertyGraph.Proofs.Pattern.Start

/-!
# What a search finds

A step of the search replaces a partial match by others that assign one constraint more.  No two of
those have a common extension, and every solution that extends the match extends one of them.  So
whatever the order of the constraints, the complete matches that are found in the end are the
solutions, each of them once, besides those of an optional pattern that leave something unmatched.

    AgreesOn           the store refuses none of the vertices of a match
    Branches           the partial matches that a step goes on with
    Found              what is to be found from a partial match
    yields_complete    the search finds it
-/

namespace PropertyGraph

namespace Search

variable {q : Search} {σ : Store} {row : Row} {m : Match}

/-- Where a node that the row leaves open admits a visible vertex, the store does not refuse it. -/
def Agreement (q : Search) (σ : Store) (row : Row) : Prop :=
  ∀ n ∈ q.pattern.nodes, n.name.bind row.lookup? = none →
    ∀ id v, σ.getVertex? q.ctx.reader id = some v → n.admits q.ctx.config v = true →
      n.Agrees q.ctx.config v

/-- Where the row leaves a node open, the store does not refuse the vertex assigned to it. -/
def AgreesOn (q : Search) (row : Row) (m : Match) : Prop :=
  ∀ (i : Nat) n v, q.pattern.nodes[i]? = some n → n.name.bind row.lookup? = none →
    m.vertex? i = some v → n.Agrees q.ctx.config v

theorem Agreement.agreesOn (ha : q.Agreement σ row) (hs : q.Solution σ row m) :
    q.AgreesOn row m := by
  intro i n v hn hname hv
  obtain ⟨w, hw, hmeets, hget⟩ := hs.node i n hn
  rw [Match.vertex?_eq_some.2 hw] at hv
  cases hv
  rw [hname] at hget
  exact ha n (List.mem_of_getElem? hn) hname v.id v hget hmeets

/-- The complete matches that a partial match leads to. -/
structure Found (q : Search) (σ : Store) (row : Row) (m : Match) (found : List Match) : Prop where
  extending : ∀ m' ∈ found, m.Extends m'
  sound : ∀ m' ∈ found, m'.hasNull = false → q.Solution σ row m' ∧ q.Passable σ
  matched : q.pattern.optional = false → ∀ m' ∈ found, m'.hasNull = false
  nodup : (found.filter (!·.hasNull)).Nodup
  reaches : q.Passable σ → ∀ m', q.Solution σ row m' → q.AgreesOn row m' → m.Extends m' →
    m' ∈ found

theorem Found.complete {found : List Match} (h : q.Found σ row m found) (ha : q.Agreement σ row)
    (hp : q.Passable σ) (m' : Match) (hs : q.Solution σ row m') (hext : m.Extends m') :
    m' ∈ found :=
  h.reaches hp m' hs (ha.agreesOn hs) hext

/-- The partial matches that the search goes on with instead of one. -/
structure Branches (q : Search) (σ : Store) (row : Row) (m : Match) (ms : List Match) : Prop where
  nodup : ms.Nodup
  fits : ∀ m₁ ∈ ms, q.Partial σ row m₁
  extending : ∀ m₁ ∈ ms, m.Extends m₁
  apart : ∀ m₁ ∈ ms, ∀ m₂ ∈ ms, ∀ m', m₁.Extends m' → m₂.Extends m' → m₁ = m₂
  covers : q.Passable σ → ∀ m', q.Solution σ row m' → q.AgreesOn row m' → m.Extends m' →
    ∃ m₁ ∈ ms, m₁.Extends m'

/-- What is found from each of the branches is what is to be found. -/
theorem Branches.found {ms : List Match} {parts : List (List Match)}
    (h : q.Branches σ row m ms)
    (hparts : List.Forall₂ (q.Found σ row) ms parts) : q.Found σ row m parts.flatten := by
  have hmem := forall₂_with_mem hparts
  have hpart : ∀ m' ∈ parts.flatten, ∃ m₁ ∈ ms, ∃ found, q.Found σ row m₁ found ∧ m' ∈ found := by
    intro m' hm'
    obtain ⟨found, hfound, hm'⟩ := List.mem_flatten.1 hm'
    obtain ⟨m₁, h₁, -, hf⟩ := exists_of_forall₂ hmem hfound
    exact ⟨m₁, h₁, found, hf, hm'⟩
  refine ⟨fun m' hm' => ?_, fun m' hm' hn => ?_, fun ho m' hm' => ?_, ?_,
    fun hp m' hs ha hext => ?_⟩
  · obtain ⟨m₁, h₁, found, hf, hmem⟩ := hpart m' hm'
    exact (h.extending m₁ h₁).trans (hf.extending m' hmem)
  · obtain ⟨m₁, h₁, found, hf, hmem⟩ := hpart m' hm'
    exact hf.sound m' hmem hn
  · obtain ⟨m₁, h₁, found, hf, hmem⟩ := hpart m' hm'
    exact hf.matched ho m' hmem
  · rw [List.filter_flatten]
    refine nodup_flatten_of_forall₂
      (R := fun m₁ bs => m₁ ∈ ms ∧ bs.Nodup ∧ ∀ m' ∈ bs, m₁.Extends m') (fun _ _ hr => hr.2.1)
      (fun m₁ m₂ _ _ m' hr hr' hb hb' => h.apart m₁ hr.1 m₂ hr'.1 m' (hr.2.2 m' hb) (hr'.2.2 m' hb'))
      h.nodup ?_
    rw [List.forall₂_map_right_iff]
    refine hmem.imp fun m₁ found hf => ⟨hf.1, hf.2.nodup, fun m' hm' => ?_⟩
    exact hf.2.extending m' (List.mem_filter.1 hm').1
  · obtain ⟨m₁, h₁, hext₁⟩ := h.covers hp m' hs ha hext
    obtain ⟨found, hfound, hf⟩ : ∃ found ∈ parts, q.Found σ row m₁ found := by
      obtain ⟨i, hi, rfl⟩ := List.getElem_of_mem h₁
      have hi' : i < parts.length := hparts.length_eq ▸ hi
      exact ⟨parts[i], List.getElem_mem hi', hparts.get hi hi'⟩
    exact List.mem_flatten.2 ⟨found, hfound, hf.reaches hp m' hs ha hext₁⟩

/-! ## Branches -/

theorem branches_nodes {i : Nat} (hi : i < m.nodes.length) (ho : m.node? i = none)
    {vs : List Vertex} (hnodup : vs.Nodup)
    (hfits : ∀ v ∈ vs, q.Partial σ row (m.setNode i (.vertex v)))
    (hcovers : ∀ m', q.Solution σ row m' → q.AgreesOn row m' → m.Extends m' →
      ∃ v ∈ vs, m'.vertex? i = some v) :
    q.Branches σ row m (vs.map fun v => m.setNode i (.vertex v)) := by
  have hvertex : ∀ v m', (m.setNode i (.vertex v)).Extends m' → m'.vertex? i = some v := by
    intro v m' hext
    refine Match.vertex?_eq_some.2 (hext.1 i _ ?_)
    rw [Match.node?_setNode m i i _ hi, if_pos rfl]
  refine ⟨hnodup.map_on fun v _ w _ hvw => ?_, fun m₁ h₁ => ?_, fun m₁ h₁ => ?_,
    fun m₁ h₁ m₂ h₂ m' he₁ he₂ => ?_, fun _ m' hs ha hext => ?_⟩
  · have hv := hvertex v _ (Match.Extends.refl _)
    rw [hvw, hvertex w _ (Match.Extends.refl _)] at hv
    exact (Option.some.inj hv).symm
  · obtain ⟨v, hv, rfl⟩ := List.mem_map.1 h₁
    exact hfits v hv
  · obtain ⟨v, hv, rfl⟩ := List.mem_map.1 h₁
    exact Match.extends_setNode hi ho _
  · obtain ⟨v, hv, rfl⟩ := List.mem_map.1 h₁
    obtain ⟨w, hw, rfl⟩ := List.mem_map.1 h₂
    have := hvertex v m' he₁
    rw [hvertex w m' he₂] at this
    rw [Option.some.inj this]
  · obtain ⟨v, hv, hm'⟩ := hcovers m' hs ha hext
    exact ⟨_, List.mem_map.2 ⟨v, hv, rfl⟩, hext.setNode hi (Match.vertex?_eq_some.1 hm')⟩

theorem branches_relationships {i : Nat} (hi : i < m.relationships.length)
    (ho : m.relationship? i = none) {bs : List RelationshipBinding} (hnodup : bs.Nodup)
    (hfits : ∀ b ∈ bs, q.Partial σ row (m.setRelationship i b))
    (hcovers : q.Passable σ → ∀ m', q.Solution σ row m' → m.Extends m' →
      ∃ b ∈ bs, m'.relationship? i = some b) :
    q.Branches σ row m (bs.map (m.setRelationship i)) := by
  have hbinding : ∀ b m', (m.setRelationship i b).Extends m' → m'.relationship? i = some b := by
    intro b m' hext
    refine hext.2 i _ ?_
    rw [Match.relationship?_setRelationship m i i _ hi, if_pos rfl]
  refine ⟨hnodup.map_on fun b _ c _ hbc => ?_, fun m₁ h₁ => ?_, fun m₁ h₁ => ?_,
    fun m₁ h₁ m₂ h₂ m' he₁ he₂ => ?_, fun hp m' hs _ hext => ?_⟩
  · have hb := hbinding b _ (Match.Extends.refl _)
    rw [hbc, hbinding c _ (Match.Extends.refl _)] at hb
    exact (Option.some.inj hb).symm
  · obtain ⟨b, hb, rfl⟩ := List.mem_map.1 h₁
    exact hfits b hb
  · obtain ⟨b, hb, rfl⟩ := List.mem_map.1 h₁
    exact Match.extends_setRelationship hi ho _
  · obtain ⟨b, hb, rfl⟩ := List.mem_map.1 h₁
    obtain ⟨c, hc, rfl⟩ := List.mem_map.1 h₂
    have := hbinding b m' he₁
    rw [hbinding c m' he₂] at this
    rw [Option.some.inj this]
  · obtain ⟨b, hb, hm'⟩ := hcovers hp m' hs hext
    exact ⟨_, List.mem_map.2 ⟨b, hb, rfl⟩, hext.setRelationship hi hm'⟩

/-! ## One step -/

section Step

variable {next : Match → Source Match} {left : Nat}

/-- What is found from a match is what is to be found from it. -/
abbrev FindsFrom (q : Search) (σ : Store) (row : Row) (left : Nat) (next : Match → Source Match) :
    Prop :=
  ∀ m, q.Partial σ row m → m.openCount = left → ∀ s, s.store = σ →
    (next m s).Yields σ (q.Found σ row m)

/-- From an unmatched constraint on there is nothing that a solution extends. -/
theorem Branches.found_unmatched (h : q.Branches σ row m []) {unmatched : Match}
    (hext : m.Extends unmatched) {found : List Match} (hf : q.Found σ row unmatched found) :
    q.Found σ row m found := by
  refine ⟨fun m' hm' => hext.trans (hf.extending m' hm'), hf.sound, hf.matched, hf.nodup,
    fun hp m' hs ha hm' => ?_⟩
  obtain ⟨m₁, h₁, -⟩ := h.covers hp m' hs ha hm'
  cases h₁

theorem yields_proceed (hnext : q.FindsFrom σ row left next) {ms : List Match}
    (h : q.Branches σ row m ms) (hleft : ∀ m₁ ∈ ms, m₁.openCount = left) {unmatched : Match}
    (hun : q.pattern.optional = true →
      q.Partial σ row unmatched ∧ unmatched.openCount = left ∧ m.Extends unmatched)
    {s : RunState} (hs : s.store = σ) :
    (q.proceed next unmatched ms s).Yields σ (q.Found σ row m) := by
  unfold proceed
  split
  · next hnone =>
    rw [Bool.and_eq_true, List.isEmpty_iff] at hnone
    obtain ⟨rfl, hopt⟩ := hnone
    obtain ⟨hpart, hcount, hext⟩ := hun hopt
    exact (hnext unmatched hpart hcount s hs).mono fun found hf => h.found_unmatched hext hf
  · refine (Flow.yields_inTurn (fun m₁ h₁ s hs =>
      hnext m₁ (h.fits m₁ h₁) (hleft m₁ h₁) s hs) hs).mono fun items hitems => ?_
    obtain ⟨parts, hparts, rfl⟩ := hitems
    exact h.found hparts

/-- What comes of a cursor: something from each vertex that qualifies, or from an unmatched node if
none does. -/
theorem yields_seeds (hnext : ∀ m', q.Partial σ row m' → m'.openCount = left → ∀ s, s.store = σ →
      (next m' s).Yields σ (q.Found σ row m')) {n : NodeConstraint Value} {i : Nat}
    (hun : q.pattern.optional = true → q.Partial σ row (m.setNode i .null))
    (hcount : ∀ b, (m.setNode i b).openCount = left) {ids : List String} {vs : List Vertex}
    (hvs : vs = ids.filterMap fun id =>
      (σ.getVertex? q.ctx.reader id).filter (n.admits q.ctx.config))
    (hfits : ∀ v ∈ vs, q.Partial σ row (m.setNode i (.vertex v))) (matched : Bool) {s : RunState}
    (hs : s.store = σ) :
    (q.seeds next m n i matched ids s).Yields σ fun items =>
      if !matched && vs.isEmpty && q.pattern.optional
      then q.Found σ row (m.setNode i .null) items
      else ∃ parts, List.Forall₂ (q.Found σ row) (vs.map fun v => m.setNode i (.vertex v)) parts ∧
        items = parts.flatten := by
  induction ids generalizing vs matched s with
  | nil =>
    subst hvs
    unfold seeds
    simp only [List.filterMap_nil, List.isEmpty_nil, Bool.and_true]
    split
    · next hcond =>
      rw [Bool.and_eq_true] at hcond
      exact hnext _ (hun hcond.2) (hcount _) _ hs
    · exact Flow.yields_done hs ⟨[], List.Forall₂.nil, rfl⟩
  | cons id rest ih =>
    unfold seeds
    rw [hs]
    split
    · next v hv =>
      simp only [List.filterMap_cons, hv] at hvs
      subst hvs
      have hrest := fun w hw => hfits w (List.mem_cons_of_mem _ hw)
      refine (hnext _ (hfits v List.mem_cons_self) (hcount _) s hs).before
        fun items hitems s hs => ?_
      refine (ih rfl hrest true hs).mono fun more hmore => ?_
      simp only [Bool.not_true, Bool.false_and, Bool.false_eq_true, if_false, List.isEmpty_cons,
        Bool.and_false] at hmore ⊢
      obtain ⟨parts, hparts, rfl⟩ := hmore
      exact ⟨items :: parts, List.Forall₂.cons hitems hparts, rfl⟩
    · next hnone =>
      simp only [List.filterMap_cons, hnone] at hvs
      exact ih hvs hfits matched hs

end Step

end Search

end PropertyGraph
