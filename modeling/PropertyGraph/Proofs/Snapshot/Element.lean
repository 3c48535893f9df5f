import PropertyGraph.Proofs.Calendar.Date
import PropertyGraph.Proofs.Snapshot.Bytes
import PropertyGraph.Proofs.Value.Orderly
import PropertyGraph.Snapshot.Element

/-!
# Values, vertices and edges read back

A value of any kind, however deep it is nested, is read back from its bytes, and so are a vertex
and an edge, if the maps inside are in order.  The reader of a container takes the reader of the
values in it, which need not read values that are longer than the container.

    ReadsWithin           the reader reads every value back that is not too long
    reads_vertex          a vertex is read back over such a reader
    readsWithin_value     every value is read back
-/

namespace PropertyGraph

/-! ## Bytes of sequences -/

namespace Bytes

theorem values_eq (items : List Value) : values items = items.flatMap value := by
  induction items with
  | nil => rfl
  | cons v rest ih => rw [values, ih, List.flatMap_cons]

/-- The bytes of a property: its name and its value. -/
def property (p : String × Value) : List UInt8 :=
  text p.1 ++ value p.2

theorem properties_eq (entries : List (String × Value)) :
    properties entries = entries.flatMap property := by
  induction entries with
  | nil => rfl
  | cons p rest ih => rw [properties, ih, List.flatMap_cons, property]

theorem hopVertices_eq (hops : List (Edge × Vertex)) :
    hopVertices hops = (hops.map Prod.snd).flatMap vertex := by
  induction hops with
  | nil => rfl
  | cons p rest ih => rw [hopVertices, ih, List.map_cons, List.flatMap_cons]

theorem hopEdges_eq (hops : List (Edge × Vertex)) :
    hopEdges hops = (hops.map Prod.fst).flatMap edge := by
  induction hops with
  | nil => rfl
  | cons p rest ih => rw [hopEdges, ih, List.map_cons, List.flatMap_cons]

theorem length_value_pos (v : Value) : 0 < (value v).length := by
  cases v <;> simp [value, length_natural]

theorem length_vertex_pos (v : Vertex) : 0 < (vertex v).length := by
  obtain ⟨id, labels, properties, visibility⟩ := v
  have := ByteReader.length_text_pos id
  simp only [vertex, List.length_append]
  omega

theorem length_edge_pos (e : Edge) : 0 < (edge e).length := by
  obtain ⟨id, type, source, target, properties, visibility⟩ := e
  have := ByteReader.length_text_pos id
  simp only [edge, List.length_append]
  omega

theorem length_property_pos (p : String × Value) : 0 < (property p).length := by
  have := length_value_pos p.2
  rw [property, List.length_append]
  omega

end Bytes

namespace ByteReader

open Bytes (Countable)

/-! ## Scalars -/

theorem reads_int64 (n : Int64) : Reads int64 (Bytes.int64 n) n := by
  have hread := (reads_natural (w := 8) (n := n.toUInt64.toNat) n.toUInt64.toNat_lt).map
    fun m => (UInt64.ofNat m).toInt64
  rw [UInt64.ofNat_toNat, Int64.toInt64_toUInt64] at hread
  exact hread

theorem reads_int32 (n : Int32) :
    Reads (do return (UInt32.ofNat (← natural 4)).toInt32) (Bytes.natural 4 n.toUInt32.toNat) n := by
  have hread := (reads_natural (w := 4) (n := n.toUInt32.toNat) n.toUInt32.toNat_lt).map
    fun m => (UInt32.ofNat m).toInt32
  rw [UInt32.ofNat_toNat, Int32.toInt32_toUInt32] at hread
  exact hread

theorem reads_duration (d : Duration) : Reads duration (Bytes.duration d) d := by
  have hnanos := (reads_int32 d.nanos).map fun nanos =>
    (⟨d.months, d.days, d.seconds, nanos⟩ : Duration)
  unfold Bytes.duration
  rw [List.append_assoc, List.append_assoc]
  exact (reads_int64 d.months).bind ((reads_int64 d.days).bind ((reads_int64 d.seconds).bind hnanos))

theorem reads_float (x : Double) :
    Reads (do return Value.float ⟨.ofNat (← natural 8)⟩) (Bytes.natural 8 x.bits.toNat)
      (.float x) := by
  have hread := (reads_natural (w := 8) (n := x.bits.toNat) x.bits.toNat_lt).map
    fun m => Value.float ⟨.ofNat m⟩
  rw [UInt64.ofNat_toNat] at hread
  exact hread

/-! ## Elements over a reader of values -/

/-- The reader reads every value back that takes at most so many bytes. -/
def ReadsWithin (r : ByteReader Value) (n : Nat) : Prop :=
  ∀ v : Value, v.Orderly → (Bytes.value v).length ≤ n → Reads r (Bytes.value v) v

theorem reads_texts {texts : List String} (hcount : Countable (Bytes.sequence Bytes.text texts)) :
    Reads (sequence text) (Bytes.sequence Bytes.text texts) texts :=
  reads_sequence hcount (fun s _ => length_text_pos s) fun _ hs =>
    reads_text (hcount.mono (length_le_length_sequence_of_mem hs))

theorem ofParts?_hops (start : Vertex) (hops : List (Edge × Vertex)) :
    Path.ofParts? (start :: hops.map Prod.snd) (hops.map Prod.fst) = some ⟨start, hops⟩ := by
  simp [Path.ofParts?, List.zip_map']

section Elements

variable {r : ByteReader Value} {n : Nat}

theorem reads_values (hr : ReadsWithin r n) {items : List Value} (hitems : OrderlyItems items)
    (hcount : Countable (Bytes.natural 8 items.length ++ Bytes.values items))
    (hn : (Bytes.values items).length ≤ n) :
    Reads (sequence r) (Bytes.natural 8 items.length ++ Bytes.values items) items := by
  rw [Bytes.values_eq] at hcount hn ⊢
  refine reads_sequence hcount (fun v _ => Bytes.length_value_pos v) fun v hv => ?_
  have hlength := length_le_length_flatMap_of_mem (f := Bytes.value) hv
  exact hr v (orderlyItems_iff.1 hitems v hv) (Nat.le_trans hlength hn)

/-- Properties in order are read back. -/
theorem reads_properties (hr : ReadsWithin r n) {entries : List (String × Value)}
    (hsorted : Entries.Sorted entries) (hentries : OrderlyEntries entries)
    (hcount : Countable (Bytes.natural 8 entries.length ++ Bytes.properties entries))
    (hn : (Bytes.properties entries).length ≤ n) :
    Reads (properties r) (Bytes.natural 8 entries.length ++ Bytes.properties entries) entries := by
  rw [Bytes.properties_eq] at hcount hn ⊢
  have hread : Reads (sequence (named r)) (Bytes.sequence Bytes.property entries) entries := by
    refine reads_sequence hcount (fun p _ => Bytes.length_property_pos p) fun p hp => ?_
    have hlength := length_le_length_flatMap_of_mem (f := Bytes.property) hp
    rw [Bytes.property, List.length_append] at hlength
    have hname : Countable (Bytes.text p.1) := hcount.mono (by rw [List.length_append]; omega)
    exact reads_named hname (hr p.2 (orderlyEntries_iff.1 hentries p hp) (by omega))
  have hmap := hread.map Entries.ofList
  rw [Entries.ofList_eq_self hsorted] at hmap
  exact hmap

theorem reads_vertex (hr : ReadsWithin r n) {v : Vertex} (hv : v.Orderly)
    (hcount : Countable (Bytes.vertex v)) (hn : (Bytes.vertex v).length ≤ n) :
    Reads (vertex r) (Bytes.vertex v) v := by
  obtain ⟨id, labels, props, visibility⟩ := v
  obtain ⟨hlabels, hsorted, hprops⟩ := hv
  have hparts : Bytes.vertex ⟨id, labels, props, visibility⟩ =
      Bytes.text id ++ (Bytes.sequence Bytes.text labels ++
        ((Bytes.natural 8 props.length ++ Bytes.properties props) ++ Bytes.text visibility)) := by
    simp [Bytes.vertex]
  rw [hparts] at hcount hn ⊢
  have hlength : ∀ part : List UInt8, part.length ≤ _ → Countable part := fun _ => hcount.mono
  simp only [List.length_append] at hlength hn
  refine (reads_text (hlength _ (by omega))).bind ?_
  refine (reads_texts (hlength _ (by omega))).bind ?_
  refine (reads_properties hr hsorted hprops (hlength _ (by rw [List.length_append]; omega))
    (by omega)).bind ?_
  rw [Names.ofList_eq_self hlabels]
  exact (reads_text (hlength (Bytes.text visibility) (by omega))).map
    fun text => (⟨id, labels, props, text⟩ : Vertex)

theorem reads_edge (hr : ReadsWithin r n) {e : Edge} (he : e.Orderly)
    (hcount : Countable (Bytes.edge e)) (hn : (Bytes.edge e).length ≤ n) :
    Reads (edge r) (Bytes.edge e) e := by
  obtain ⟨id, type, source, target, props, visibility⟩ := e
  have hparts : Bytes.edge ⟨id, type, source, target, props, visibility⟩ =
      Bytes.text id ++ (Bytes.text type ++ (Bytes.text source ++ (Bytes.text target ++
        ((Bytes.natural 8 props.length ++ Bytes.properties props) ++ Bytes.text visibility)))) := by
    simp [Bytes.edge]
  rw [hparts] at hcount hn ⊢
  have hlength : ∀ part : List UInt8, part.length ≤ _ → Countable part := fun _ => hcount.mono
  simp only [List.length_append] at hlength hn
  refine (reads_text (hlength _ (by omega))).bind ?_
  refine (reads_text (hlength _ (by omega))).bind ?_
  refine (reads_text (hlength _ (by omega))).bind ?_
  refine (reads_text (hlength _ (by omega))).bind ?_
  refine (reads_properties hr he.1 he.2 (hlength _ (by rw [List.length_append]; omega))
    (by omega)).bind ?_
  exact (reads_text (hlength (Bytes.text visibility) (by omega))).map
    fun text => (⟨id, type, source, target, props, text⟩ : Edge)

/-- A walk is read back: its vertices, and then its edges. -/
theorem reads_path (hr : ReadsWithin r n) {p : Path} (hp : p.Orderly)
    (hcount : Countable (Bytes.path p)) (hn : (Bytes.path p).length ≤ n) :
    Reads (path r) (Bytes.path p) p := by
  obtain ⟨start, hops⟩ := p
  obtain ⟨hstart, hhops⟩ := hp
  have hparts : Bytes.path ⟨start, hops⟩ =
      Bytes.sequence Bytes.vertex (start :: hops.map Prod.snd) ++
        Bytes.sequence Bytes.edge (hops.map Prod.fst) := by
    simp [Bytes.path, Bytes.sequence, Bytes.hopVertices_eq, Bytes.hopEdges_eq]
  rw [hparts, List.length_append] at hn
  rw [hparts] at hcount ⊢
  have hlength : ∀ part : List UInt8, part.length ≤ _ → Countable part := fun _ => hcount.mono
  rw [List.length_append] at hlength
  have hvertices : ∀ v ∈ start :: hops.map Prod.snd, Reads (vertex r) (Bytes.vertex v) v := by
    intro v hv
    have horderly : v.Orderly := by
      rcases List.mem_cons.1 hv with rfl | hmem
      · exact hstart
      · obtain ⟨hop, hhop, rfl⟩ := List.mem_map.1 hmem
        exact (orderlyHops_iff.1 hhops hop hhop).2
    have hsmall := length_le_length_sequence_of_mem (f := Bytes.vertex) hv
    exact reads_vertex hr horderly (hlength _ (by omega)) (by omega)
  have hedges : ∀ e ∈ hops.map Prod.fst, Reads (edge r) (Bytes.edge e) e := by
    intro e he
    obtain ⟨hop, hhop, rfl⟩ := List.mem_map.1 he
    have hsmall := length_le_length_sequence_of_mem (f := Bytes.edge) he
    exact reads_edge hr (orderlyHops_iff.1 hhops hop hhop).1 (hlength _ (by omega)) (by omega)
  have hfirst := reads_sequence (hlength _ (by omega)) (fun v _ => Bytes.length_vertex_pos v)
    hvertices
  have hsecond := reads_sequence (hlength _ (by omega)) (fun e _ => Bytes.length_edge_pos e) hedges
  exact hfirst.bind (hsecond.lift (ofParts?_hops start hops))

end Elements

/-! ## Values -/

/-- A value is read back if there is a level for each of its bytes. -/
theorem readsWithin_valueWithin {depth : Nat} : ∀ {n : Nat}, n ≤ depth → n < 2 ^ 64 →
    ReadsWithin (valueWithin depth) n := by
  induction depth with
  | zero =>
    intro n hn _ v _ hlength
    exact absurd (Bytes.length_value_pos v) (by omega)
  | succ depth ih =>
    intro n hn hcountable v hv hlength
    have hinner : ReadsWithin (valueWithin depth) (n - 1) := ih (by omega) (by omega)
    have hcount : Countable (Bytes.value v) := Nat.lt_of_le_of_lt hlength hcountable
    cases v with
    | null => exact (reads_natural (by decide)).bind (reads_pure Value.null)
    | bool b => exact (reads_natural (by decide)).bind ((reads_bool b).map Value.bool)
    | int m => exact (reads_natural (by decide)).bind ((reads_int64 m).map Value.int)
    | float x => exact (reads_natural (by decide)).bind (reads_float x)
    | text s =>
      rw [Bytes.value] at hcount ⊢
      refine (reads_natural (by decide)).bind ((reads_text ?_).map Value.text)
      exact hcount.mono (by simp)
    | list items =>
      rw [Bytes.value, List.append_assoc] at hcount hlength ⊢
      have hn : (Bytes.values items).length ≤ n - 1 := by
        simp only [List.length_append, Bytes.length_natural] at hlength
        omega
      refine (reads_natural (by decide)).bind (Reads.map ?_ Value.list)
      exact reads_values hinner hv (hcount.mono (by simp)) hn
    | map entries =>
      rw [Bytes.value, List.append_assoc] at hcount hlength ⊢
      have hn : (Bytes.properties entries).length ≤ n - 1 := by
        simp only [List.length_append, Bytes.length_natural] at hlength
        omega
      refine (reads_natural (by decide)).bind (Reads.map ?_ Value.map)
      exact reads_properties hinner hv.1 hv.2 (hcount.mono (by simp)) hn
    | node v =>
      rw [Bytes.value] at hcount hlength ⊢
      rw [List.length_append, Bytes.length_natural] at hlength
      refine (reads_natural (by decide)).bind (Reads.map ?_ Value.node)
      exact reads_vertex hinner hv (hcount.mono (by simp)) (by omega)
    | relationship e =>
      rw [Bytes.value] at hcount hlength ⊢
      rw [List.length_append, Bytes.length_natural] at hlength
      refine (reads_natural (by decide)).bind (Reads.map ?_ Value.relationship)
      exact reads_edge hinner hv (hcount.mono (by simp)) (by omega)
    | path p =>
      rw [Bytes.value] at hcount hlength ⊢
      rw [List.length_append, Bytes.length_natural] at hlength
      refine (reads_natural (by decide)).bind (Reads.map ?_ Value.path)
      exact reads_path hinner hv (hcount.mono (by simp)) (by omega)
    | duration d => exact (reads_natural (by decide)).bind ((reads_duration d).map Value.duration)
    | date d =>
      rw [Bytes.value] at hcount ⊢
      have htext := reads_text (hcount.mono (p := Bytes.text d.text) (by simp))
      exact (reads_natural (by decide)).bind
        (htext.liftMap (Date.readStored?_text d) Value.date)

/-- Every value whose bytes can be counted is read back. -/
theorem readsWithin_value {n : Nat} (hn : n < 2 ^ 64) : ReadsWithin value n := by
  intro v hv hlength rest
  have hlevels : (Bytes.value v).length ≤ (Bytes.value v ++ rest).length := by simp
  exact readsWithin_valueWithin hlevels (Nat.lt_of_le_of_lt hlength hn) v hv (Nat.le_refl _) rest

end ByteReader

end PropertyGraph
