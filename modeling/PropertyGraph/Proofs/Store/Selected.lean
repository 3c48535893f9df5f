import Mathlib.Data.List.Duplicate
import PropertyGraph.Proofs.Store.Sight

/-!
# What a selection gives

A selection looks only at the smallest index that applies, and at nothing where it tests a property
that no element ever had.  As long as nothing is written its cursor nevertheless gives what a scan
over all elements finds:

    Cursor.ask_eq           the answers of a cursor, request by request
    selectVertices_scan     the vertices that a scan finds, up to the limit
    selectEdges_scan        the edges that a scan finds, as often as their type is demanded
-/

namespace PropertyGraph

/-! ## Requests to a cursor -/

namespace Cursor

variable {α : Type} (get : String → Option α)

/-- The answers to so many requests for the next element, and the cursor after them. -/
def ask : Nat → Cursor → List (Option α) × Cursor
  | 0, c => ([], c)
  | n + 1, c =>
    let (a, c) := c.next get
    let (as, c) := ask n c
    (a :: as, c)

theorem fetch_of_nil {ids : List String} (h : ids.filterMap get = []) :
    fetch get ids = Option.none := by
  induction ids with
  | nil => rfl
  | cons id rest ih =>
    rw [List.filterMap_cons] at h
    unfold fetch
    cases hid : get id with
    | none =>
      rw [hid] at h
      exact ih h
    | some a =>
      rw [hid] at h
      cases h

theorem fetch_of_cons {ids : List String} {a : α} {more : List α}
    (h : ids.filterMap get = a :: more) :
    ∃ rest, fetch get ids = some (a, rest) ∧ rest.filterMap get = more := by
  induction ids with
  | nil => cases h
  | cons id rest ih =>
    rw [List.filterMap_cons] at h
    unfold fetch
    cases hid : get id with
    | none =>
      rw [hid] at h
      exact ih h
    | some b =>
      rw [hid] at h
      obtain ⟨rfl, hmore⟩ := List.cons.inj h
      exact ⟨rest, rfl, hmore⟩

/-- Where nothing is left the answer is none, and the cursor is closed. -/
theorem next_of_nil {c : Cursor} (h : c.remaining get = []) : c.next get = (Option.none, c.close) := by
  have hfetch : c.pending.bind (fetch get) = Option.none := by
    unfold remaining at h
    cases hp : c.pending with
    | none => rfl
    | some ids =>
      rw [hp] at h
      exact fetch_of_nil get h
  unfold next
  rw [hfetch]

/-- Otherwise it is the first element that is left, and the others are left then. -/
theorem next_of_cons {c : Cursor} {a : α} {more : List α} (h : c.remaining get = a :: more) :
    ∃ c', c.next get = (some a, c') ∧ c'.remaining get = more := by
  unfold remaining at h
  cases hp : c.pending with
  | none =>
    rw [hp] at h
    cases h
  | some ids =>
    rw [hp, Option.getD_some] at h
    obtain ⟨rest, hfetch, hrest⟩ := fetch_of_cons get h
    refine ⟨{ c with pending := some rest }, ?_, hrest⟩
    unfold next
    rw [hp, Option.bind_some, hfetch]

/-- Asked again and again, a cursor gives what is left one by one, and then nothing any more. -/
theorem ask_eq (n : Nat) (c : Cursor) :
    (c.ask get n).1 = (List.range n).map fun i => (c.remaining get)[i]? := by
  induction n generalizing c with
  | zero => rfl
  | succ n ih =>
    rw [List.range_succ_eq_map, List.map_cons, List.map_map]
    unfold ask
    cases hleft : c.remaining get with
    | nil =>
      have hnext := next_of_nil get hleft
      have hclosed : c.close.remaining get = [] := rfl
      simp [hnext, ih, hclosed, Function.comp_def]
    | cons a more =>
      obtain ⟨c', hnext, hmore⟩ := next_of_cons get hleft
      simp [hnext, ih, hmore]

end Cursor

/-- A list up to the limit of a selection. -/
def Selection.upTo {α : Type} (sel : Selection) (items : List α) : List α :=
  match sel.limit with
  | some n => items.take n
  | none => items

namespace Store

variable {s : Store} {reader : Authorizations}

/-! ## Elements found by their ids -/

/-- A cursor over the ids of some elements gives these elements, if each is found by its id. -/
theorem remaining_ofIds {α : Type} {get : String → Option α} {idOf : α → String} {items : List α}
    (hget : ∀ a ∈ items, get (idOf a) = some a) (sel : Selection) :
    (Cursor.ofIds (items.map idOf) sel.limit).remaining get = sel.upTo items := by
  have hall : ∀ l : List α, (∀ a ∈ l, get (idOf a) = some a) →
      (l.map idOf).filterMap get = l := by
    intro l hl
    have hsome : l.filterMap (get ∘ idOf) = l.filterMap some := List.filterMap_congr hl
    rw [List.filterMap_map, hsome, List.filterMap_some]
  unfold Cursor.ofIds Cursor.remaining Selection.upTo
  cases sel.limit with
  | none => exact hall items hget
  | some n =>
    simp only [Option.getD_some, ← List.map_take]
    exact hall _ fun a ha => hget a (List.mem_of_mem_take ha)

/-- Elements that are located by their ids have different ones. -/
theorem nodup_ids {α β : Type} {slots : Slots β} {at? : Nat → Option α} {idOf : α → String}
    {index : Entries Nat} (h : index.Locates fun i id => ∃ a, at? i = some a ∧ idOf a = id) :
    (((slots.toList.map Prod.fst).filterMap at?).map idOf).Nodup := by
  rw [List.map_filterMap]
  refine List.Nodup.filterMap (fun i j id hi hj => ?_)
    ((Slots.pairwise_toList slots).imp fun hlt => Nat.ne_of_lt hlt)
  obtain ⟨a, ha, haid⟩ := Option.map_eq_some_iff.1 hi
  obtain ⟨b, hb, hbid⟩ := Option.map_eq_some_iff.1 hj
  exact h.unique ⟨a, ha, haid⟩ ⟨b, hb, hbid⟩

theorem nodup_seenVertices (h : s.Consistent) : ((s.seenVertices reader).map (·.id)).Nodup := by
  have hall : (s.allVertices.map (·.id)).Nodup := by
    rw [allVertices_eq]
    exact nodup_ids h.vertexSlots
  exact hall.sublist (List.filter_sublist.map _)

theorem nodup_seenEdges (h : s.Consistent) : ((s.seenEdges reader).map (·.id)).Nodup := by
  have hall : (s.allEdges.map (·.id)).Nodup := by
    rw [allEdges_eq]
    exact nodup_ids h.edgeSlots
  exact hall.sublist (List.filter_sublist.map _)

/-! ## Vertices -/

/-- A selection of vertices is a scan: it counts the vertices that the reader sees and that meet the
demands, and its cursor gives them in the order of their slots, each once, up to the limit. -/
theorem selectVertices_scan (h : s.Consistent) (reader : Authorizations) (sel : Selection) :
    let scan := (s.seenVertices reader).filter sel.admitsVertex
    (s.selectVertices reader sel).total = scan.length ∧ (scan.map (·.id)).Nodup ∧
      ∀ n, ((s.selectVertices reader sel).ask (s.getVertex? reader) n).1 =
        (List.range n).map fun i => (sel.upTo scan)[i]? := by
  intro scan
  have hmem : ∀ v ∈ scan, s.getVertex? reader v.id = some v := fun v hv =>
    (getVertex?_eq_some_iff_seen h).2 ⟨rfl, (List.mem_filter.1 hv).1⟩
  have hnodup : (scan.map (·.id)).Nodup :=
    (nodup_seenVertices h).sublist (List.filter_sublist.map _)
  simp only [Cursor.ask_eq]
  rw [selectVertices_eq h]
  cases hdefined : s.testsUndefined sel with
  | true =>
    have hnone : scan = [] := List.filter_eq_nil_iff.2 fun v hv => by
      rw [admitsVertex_of_undefined h hdefined hv]
      exact Bool.false_ne_true
    have hcut : sel.upTo scan = [] := by
      unfold Selection.upTo
      rw [hnone]
      cases sel.limit <;> simp
    rw [if_pos rfl, hcut]
    exact ⟨by rw [hnone]; rfl, hnodup, fun n => rfl⟩
  | false =>
    rw [if_neg Bool.false_ne_true, remaining_ofIds hmem sel]
    exact ⟨List.length_map _, hnodup, fun n => rfl⟩

/-- Three vertices of the same two labels, of which the second one is hidden from most. -/
def labelled : Store :=
  [.addVertex "x" ["A", "B"] [("k", .int 1)] "", .addVertex "y" ["A", "B"] [("k", .int 1)] "secret",
    .addVertex "z" ["B", "A"] [("k", .int 1)] ""].foldl after .empty

theorem selectVertices_scan_labelled :
    let sel : Selection := ⟨["A", "B", "A"], [], [("k", .equal (.int 1))], some 1⟩
    let scan := (labelled.seenVertices ⟨[]⟩).filter sel.admitsVertex
    scan.map (·.id) = ["x", "z"] ∧ labelled.Consistent ∧
      (labelled.selectVertices ⟨[]⟩ sel).total = scan.length ∧ (scan.map (·.id)).Nodup ∧
      ∀ n, ((labelled.selectVertices ⟨[]⟩ sel).ask (labelled.getVertex? ⟨[]⟩) n).1 =
        (List.range n).map fun i => (sel.upTo scan)[i]? :=
  have hconsistent : labelled.Consistent := consistent_empty.foldl_after _
  ⟨by rfl, hconsistent, selectVertices_scan hconsistent ⟨[]⟩ _⟩

/-! ## Edges -/

/-- The edges of several types in turn come without repetition exactly if no type that some of them
have stands there twice. -/
theorem nodup_flatMap_types {edges : List Edge} (hedges : edges.Nodup) (types : List String) :
    (types.flatMap fun type => edges.filter fun e => e.type == type).Nodup ↔
      ∀ e ∈ edges, types.count e.type ≤ 1 := by
  rw [List.nodup_flatMap, List.pairwise_iff_forall_sublist]
  constructor
  · rintro ⟨-, hdisjoint⟩ e he
    by_contra hcount
    have htwice : [e.type, e.type].Sublist types :=
      List.replicate_sublist_iff.2 (Nat.lt_of_not_le hcount)
    have hmem : e ∈ edges.filter fun f => f.type == e.type := List.mem_filter.2 ⟨he, by simp⟩
    exact hdisjoint htwice hmem hmem
  · intro hcount
    refine ⟨fun type _ => hedges.filter _, fun {type type'} hsub e he he' => ?_⟩
    obtain ⟨hmem, htype⟩ := List.mem_filter.1 he
    have htype' := (List.mem_filter.1 he').2
    rw [beq_iff_eq] at htype htype'
    rw [← htype, ← htype'] at hsub
    have htwo : 2 ≤ types.count e.type := List.replicate_sublist_iff.1 hsub
    have hone := hcount e hmem
    omega

/-- The edges that a selection finds, type by type, are those that a scan finds, each as often as
its type is demanded. -/
theorem filter_seenOfTypes (sel : Selection) :
    (s.seenOfTypes reader sel.types).filter sel.admitsEdge =
      if sel.types.isEmpty then (s.seenEdges reader).filter sel.admitsEdge
      else sel.types.flatMap fun type =>
        ((s.seenEdges reader).filter sel.admitsEdge).filter fun e => e.type == type := by
  unfold seenOfTypes
  split
  · rfl
  · rw [List.filter_flatMap]
    simp only [List.filter_filter, Bool.and_comm]

theorem mem_filter_seenOfTypes (sel : Selection) (e : Edge) :
    e ∈ (s.seenOfTypes reader sel.types).filter sel.admitsEdge ↔
      e ∈ (s.seenEdges reader).filter sel.admitsEdge := by
  constructor
  · intro he
    obtain ⟨hmem, hadmits⟩ := List.mem_filter.1 he
    exact List.mem_filter.2 ⟨seen_of_seenOfTypes hmem, hadmits⟩
  · intro he
    rw [filter_seenOfTypes]
    split
    · exact he
    · next hsome =>
      have hadmits := (List.mem_filter.1 he).2
      unfold Selection.admitsEdge admitsType at hadmits
      simp only [Bool.and_eq_true, Bool.or_eq_true, hsome, Bool.false_eq_true, false_or,
        List.contains_iff_mem] at hadmits
      exact List.mem_flatMap.2 ⟨e.type, hadmits.1, List.mem_filter.2 ⟨he, by simp⟩⟩

/-- A selection of edges without a limit gives the edges that the reader sees and that meet the
demands, and no others.  Each comes once, and the total counts them, exactly if none of their types
is demanded twice. -/
theorem selectEdges_scan (h : s.Consistent) (reader : Authorizations) {sel : Selection}
    (hlimit : sel.limit = none) :
    let scan := (s.seenEdges reader).filter sel.admitsEdge
    (scan.map (·.id)).Nodup ∧ ∃ found : List Edge,
      (s.selectEdges reader sel).total = found.length ∧
      (∀ n, ((s.selectEdges reader sel).ask (s.getEdge? reader) n).1 =
        (List.range n).map fun i => found[i]?) ∧
      (∀ e, e ∈ found ↔ e ∈ scan) ∧
      (found.Perm scan ↔ ∀ e ∈ scan, sel.types.count e.type ≤ 1) := by
  intro scan
  have hids : (scan.map (·.id)).Nodup := (nodup_seenEdges h).sublist (List.filter_sublist.map _)
  have hscan : scan.Nodup := List.Nodup.of_map _ hids
  have hmem : ∀ e, e ∈ (s.seenOfTypes reader sel.types).filter sel.admitsEdge ↔ e ∈ scan :=
    mem_filter_seenOfTypes sel
  let found := (s.seenOfTypes reader sel.types).filter sel.admitsEdge
  have hget : ∀ e ∈ found, s.getEdge? reader e.id = some e := fun e he =>
    (getEdge?_eq_some_iff_seen h).2 ⟨rfl, (List.mem_filter.1 ((hmem e).1 he)).1⟩
  have honce : found.Nodup ↔ ∀ e ∈ scan, sel.types.count e.type ≤ 1 := by
    simp only [found, filter_seenOfTypes]
    split
    · next hnone =>
      rw [List.isEmpty_iff.1 hnone]
      exact iff_of_true hscan fun e _ => by simp
    · exact nodup_flatMap_types hscan sel.types
  have hperm : found.Perm scan ↔ found.Nodup :=
    ⟨fun hp => hp.nodup_iff.2 hscan, fun hn => (List.perm_ext_iff_of_nodup hn hscan).2 hmem⟩
  have hcut : sel.upTo found = found := by
    unfold Selection.upTo
    rw [hlimit]
  refine ⟨hids, found, ?_⟩
  simp only [Cursor.ask_eq]
  rw [selectEdges_eq h]
  cases hdefined : s.testsUndefined sel with
  | true =>
    have hnone : found = [] := List.filter_eq_nil_iff.2 fun e he => by
      rw [admitsEdge_of_undefined h hdefined (seen_of_seenOfTypes he)]
      exact Bool.false_ne_true
    rw [if_pos rfl]
    exact ⟨by rw [hnone]; rfl, fun n => by rw [hnone]; rfl, hmem, hperm.trans honce⟩
  | false =>
    rw [if_neg Bool.false_ne_true, remaining_ofIds hget sel, hcut]
    exact ⟨List.length_map _, fun n => rfl, hmem, hperm.trans honce⟩

/-- A vertex with an edge to itself. -/
def looped : Store :=
  [.addVertex "x" [] [] "", .addEdge "e" "R" "x" "x" [] ""].foldl after .empty

theorem selectEdges_scan_looped :
    let sel : Selection := ⟨[], ["R", "S"], [], none⟩
    let scan := (looped.seenEdges ⟨[]⟩).filter sel.admitsEdge
    (looped.Consistent ∧ sel.limit = none) ∧ (scan.map (·.id)).Nodup ∧ ∃ found : List Edge,
      (looped.selectEdges ⟨[]⟩ sel).total = found.length ∧
      (∀ n, ((looped.selectEdges ⟨[]⟩ sel).ask (looped.getEdge? ⟨[]⟩) n).1 =
        (List.range n).map fun i => found[i]?) ∧
      (∀ e, e ∈ found ↔ e ∈ scan) ∧
      (found.Perm scan ↔ ∀ e ∈ scan, sel.types.count e.type ≤ 1) :=
  have hconsistent : looped.Consistent := consistent_empty.foldl_after _
  ⟨⟨hconsistent, rfl⟩, selectEdges_scan hconsistent ⟨[]⟩ rfl⟩

/-- An edge whose type is demanded twice is counted and given twice. -/
theorem edge_given_twice :
    (¬ ∀ (calls : List Call) (reader : Authorizations) (sel : Selection), sel.limit = none →
      let s := calls.foldl after .empty
      ∃ found : List Edge, found.Perm ((s.seenEdges reader).filter sel.admitsEdge) ∧
        ∀ n, ((s.selectEdges reader sel).ask (s.getEdge? reader) n).1 =
          (List.range n).map fun i => found[i]?) ∧
    ¬ ∀ (calls : List Call) (reader : Authorizations) (sel : Selection), sel.limit = none →
      let s := calls.foldl after .empty
      (s.selectEdges reader sel).total = ((s.seenEdges reader).filter sel.admitsEdge).length := by
  let calls : List Call := [.addVertex "x" [] [] "", .addEdge "e" "R" "x" "x" [] ""]
  let sel : Selection := ⟨[], ["R", "R"], [], none⟩
  let e : Edge := ⟨"e", "R", "x", "x", [], ""⟩
  have hscan : (looped.seenEdges ⟨[]⟩).filter sel.admitsEdge = [e] := by rfl
  have hselect : looped.selectEdges ⟨[]⟩ sel = ⟨2, some ["e", "e"]⟩ := by rfl
  have hget : looped.getEdge? ⟨[]⟩ "e" = some e := by rfl
  constructor
  · intro h
    obtain ⟨found, hperm, hask⟩ := h calls ⟨[]⟩ sel rfl
    have hfound : found = [e] := List.perm_singleton.1 (hscan ▸ hperm)
    have hsecond := hask 2
    change ((looped.selectEdges ⟨[]⟩ sel).ask (looped.getEdge? ⟨[]⟩) 2).1 = _ at hsecond
    rw [hselect, hfound, Cursor.ask_eq] at hsecond
    simp [Cursor.remaining, hget, List.range_succ] at hsecond
  · intro h
    have htotal := h calls ⟨[]⟩ sel rfl
    change (looped.selectEdges ⟨[]⟩ sel).total = ((looped.seenEdges ⟨[]⟩).filter _).length at htotal
    rw [hselect, hscan] at htotal
    cases htotal

end Store

end PropertyGraph
