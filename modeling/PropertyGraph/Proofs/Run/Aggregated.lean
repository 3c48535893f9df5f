import PropertyGraph.Proofs.Value.Firsts
import PropertyGraph.Proofs.Value.Lined
import PropertyGraph.Run.Accumulate

/-!
# What accumulators compute

An accumulator takes in one value after the other.  What it has computed in the end is a function of
the values that count: those that are not null and, where the aggregate is distinct, the first of
equal ones; where rows are counted, all of them.  That function is told without accumulators, by the
mean, the deviation and the extremes of a whole list.

    Double.dispersion          the deviation of numbers from their mean
    Value.extreme              the least or the greatest of some values
    Value.extreme_first        it lies beyond all before it, and none behind it lies beyond it
    AggregateKind.kept         the values that count
    AggregateKind.aggregate    what a kind of aggregate is, as a function of a list
    Aggregate.over             the aggregate of the values of a group
    Accumulator.result_foldlM  what an accumulator computes is that aggregate
-/

namespace PropertyGraph

/-! ## Statistics of doubles -/

namespace Double

/-- The sum of numbers, from the first one on. -/
def total (xs : List Double) : Double :=
  xs.foldl (· + ·) 0.0

/-- The mean of numbers. -/
def mean (xs : List Double) : Double :=
  total xs / ofNat xs.length

/-- The root of the squared distances from the mean, shared out among `n`; zero among none. -/
def dispersion (n : Nat) (xs : List Double) : Double :=
  if n = 0 then 0.0
  else (total (xs.map fun x => (x - mean xs) * (x - mean xs)) / ofNat n).sqrt

end Double

/-! ## Extremes of values -/

namespace Value

variable {beyond : Ordering} {vs : List Value}

/-- The first value, and from there on always the next one that lies beyond; null if there is no
value at all. -/
def extreme (beyond : Ordering) : List Value → Value
  | [] => .null
  | v :: vs => vs.foldl (fun best w => if order w best = beyond then w else best) v

/-- A value with all values before it strictly inside and none behind it beyond. -/
def FirstAtEnd (beyond : Ordering) (vs : List Value) (v : Value) : Prop :=
  ∃ before behind, vs = before ++ v :: behind ∧
    (∀ w ∈ before, order v w = beyond) ∧ ∀ w ∈ behind, order w v ≠ beyond

theorem extreme_concat (hvs : vs ≠ []) (w : Value) : extreme beyond (vs ++ [w]) =
    if order w (extreme beyond vs) = beyond then w else extreme beyond vs := by
  cases vs with
  | nil => exact absurd rfl hvs
  | cons v rest =>
    show (rest ++ [w]).foldl _ v = _
    rw [List.foldl_append]
    rfl

/-- What is beyond a value is beyond all that is not beyond that value. -/
theorem order_of_beyond {u v w : Value} (h : Distinct w.leaves v.leaves u.leaves)
    (hbeyond : beyond ≠ .eq) (hw : order w v = beyond) (hu : order u v ≠ beyond) :
    order w u = beyond := by
  have hchain := chain_order w v u h
  rw [order_swap] at hu
  revert hchain
  rw [hw]
  generalize order v u = y at hu ⊢
  generalize order w u = z
  revert hbeyond hu
  cases beyond <;> cases y <;> cases z <;> decide

/-- Where the order is transitive, an extreme is the first of the values at its end. -/
theorem extreme_first (hbeyond : beyond ≠ .eq) (hvs : vs ≠ [])
    (hdistinct : ∀ u ∈ vs, ∀ v ∈ vs, ∀ w ∈ vs, Distinct u.leaves v.leaves w.leaves) :
    FirstAtEnd beyond vs (extreme beyond vs) := by
  induction vs using List.reverseRecOn with
  | nil => exact absurd rfl hvs
  | append_singleton vs w ih =>
    by_cases hnil : vs = []
    · subst hnil
      exact ⟨[], [], rfl, nofun, nofun⟩
    have hmem : ∀ {u}, u ∈ vs → u ∈ vs ++ [w] := List.mem_append_left _
    obtain ⟨before, behind, hsplit, hbefore, hbehind⟩ := ih hnil fun u hu v hv x hx =>
      hdistinct u (hmem hu) v (hmem hv) x (hmem hx)
    rw [extreme_concat hnil]
    generalize extreme beyond vs = best at hsplit hbefore hbehind ⊢
    have hbest : best ∈ vs := hsplit ▸ List.mem_append_right _ List.mem_cons_self
    split
    · next hw =>
      refine ⟨vs, [], rfl, fun u hu => ?_, nofun⟩
      refine order_of_beyond (hdistinct w (List.mem_append_right _ (List.mem_singleton.2 rfl)) _
        (hmem hbest) u (hmem hu)) hbeyond hw ?_
      rw [hsplit, List.mem_append, List.mem_cons] at hu
      rcases hu with hu | rfl | hu
      · rw [order_swap, hbefore u hu]
        intro hswap
        cases beyond <;> cases hswap
        exact hbeyond rfl
      · rw [order_self]
        exact hbeyond.symm
      · exact hbehind u hu
    · next hw =>
      refine ⟨before, behind ++ [w], ?_, hbefore, ?_⟩
      · rw [hsplit, List.append_assoc, List.cons_append]
      · exact List.forall_mem_append.2 ⟨hbehind, List.forall_mem_singleton.2 hw⟩

/-! ## Aggregates of lists -/

/-- A number as a double. -/
def number : Value → Except Error Double
  | .int n => .ok (.ofInt64 n)
  | .float x => .ok x
  | v => .error (.mismatch "NUMBER" v)

theorem sample_eq_number : sample = number := by
  funext v
  cases v <;> rfl

end Value

/-- The sum so far, which is an integer until there is a double, and one more number. -/
def Value.addTo : Value → Value → Except Error Value
  | .int n, .int m =>
    match Number.int64? (n.toInt + m.toInt) with
    | some total => .ok (.int total)
    | none => .error (.invalidArgument .integerOverflowInSum)
  | .int n, .float x => .ok (.float (Double.ofInt64 n + x))
  | .float x, v => v.number.map fun y => .float (x + y)
  | _, v => .error (.mismatch "NUMBER" v)

namespace AggregateKind

/-- The values that count. -/
def kept (kind : AggregateKind) (distinct : Bool) (vs : List Value) : List Value :=
  if kind = .rows then vs
  else if distinct then (vs.filter (!·.isNull)).eraseDups
  else vs.filter (!·.isNull)

/-- The end of the order at which a kind of aggregate looks. -/
def end? : AggregateKind → Option Ordering
  | .least => some .lt
  | .greatest => some .gt
  | _ => none

/-- The aggregate of the values that count: of equal extreme values the first, and items in their
order. -/
def aggregate (kind : AggregateKind) (vs : List Value) : Except Error Value :=
  match kind with
  | .rows | .count => .ok (.int (.ofNat vs.length))
  | .sum => vs.foldlM Value.addTo (.int 0)
  | .average => do
    let xs ← vs.mapM Value.number
    return if xs.isEmpty then .null else .float (Double.mean xs)
  | .least => .ok (Value.extreme .lt vs)
  | .greatest => .ok (Value.extreme .gt vs)
  | .collect => .ok (.list vs)
  | .sampleDeviation => do
    let xs ← vs.mapM Value.number
    return .float (Double.dispersion (xs.length - 1) xs)
  | .deviation => do
    let xs ← vs.mapM Value.number
    return .float (Double.dispersion xs.length xs)

/-- Where the order is transitive on the values, the least or greatest of them is the first of the
values at its end. -/
theorem aggregate_end {kind : AggregateKind} {beyond : Ordering} (hkind : kind.end? = some beyond)
    {vs : List Value} (hvs : vs ≠ [])
    (hdistinct : ∀ u ∈ vs, ∀ v ∈ vs, ∀ w ∈ vs, Value.Distinct u.leaves v.leaves w.leaves)
    {v : Value} (hv : kind.aggregate vs = .ok v) : Value.FirstAtEnd beyond vs v := by
  cases kind with
  | least | greatest =>
    cases hkind
    cases hv
    exact Value.extreme_first (by decide) hvs hdistinct
  | _ => cases hkind

end AggregateKind

/-- The aggregate of the values that its argument has in the rows of a group. -/
def Aggregate.over (a : Aggregate) (vs : List Value) : Except Error Value :=
  a.kind.aggregate (a.kind.kept a.distinct vs)

/-! ## Tallies -/

namespace Tally

variable {kind : AggregateKind}

/-- The tally with some more values. -/
def addAll (kind : AggregateKind) (t : Tally) (vs : List Value) : Except Error Tally :=
  vs.foldlM (fun (t : Tally) v => t.add kind v) t

theorem addAll_cons (t : Tally) (v : Value) (vs : List Value) :
    addAll kind t (v :: vs) = t.add kind v >>= fun t => addAll kind t vs :=
  List.foldlM_cons

theorem addAll_concat (t : Tally) (vs : List Value) (v : Value) :
    addAll kind t (vs ++ [v]) = addAll kind t vs >>= fun t => t.add kind v := by
  unfold addAll
  rw [List.foldlM_append]
  congr 1
  funext t
  rw [List.foldlM_cons]
  exact bind_pure _

theorem addAll_count (n : Nat) (vs : List Value) :
    addAll kind (.count n) vs = .ok (.count (n + vs.length)) := by
  induction vs generalizing n with
  | nil => rfl
  | cons v vs ih =>
    rw [List.length_cons, Nat.add_comm vs.length, ← Nat.add_assoc]
    exact ih (n + 1)

theorem addAll_items (ws vs : List Value) :
    addAll kind (.items ws) vs = .ok (.items (vs.reverse ++ ws)) := by
  induction vs generalizing ws with
  | nil => rfl
  | cons v vs ih =>
    rw [List.reverse_cons, List.append_assoc]
    exact ih (v :: ws)

/-- A tally of an extreme value goes on to each value that lies beyond it. -/
theorem addAll_best {beyond : Ordering} (hkind : kind.end? = some beyond) (best : Value)
    (vs : List Value) : addAll kind (.extreme (some best)) vs = .ok (.extreme (some
      (vs.foldl (fun best w => if Value.order w best = beyond then w else best) best))) := by
  induction vs generalizing best with
  | nil => rfl
  | cons v vs ih =>
    have hadd : (Tally.extreme (some best)).add kind v =
        .ok (.extreme (some (if Value.order v best = beyond then v else best))) := by
      have hreplaces : kind.replaces v (some best) = decide (Value.order v best = beyond) := by
        cases kind with
        | least | greatest =>
          cases hkind
          show (Value.order v best == _) = _
          cases Value.order v best <;> rfl
        | _ => cases hkind
      show Except.ok (Tally.extreme (if kind.replaces v (some best) then _ else _)) = _
      rw [hreplaces]
      by_cases hbeyond : Value.order v best = beyond <;> simp [hbeyond]
    rw [addAll_cons, hadd]
    exact ih _

theorem result_addAll_extreme {beyond : Ordering} (hkind : kind.end? = some beyond)
    (vs : List Value) :
    (addAll kind (.extreme none) vs).map (result kind) = .ok (Value.extreme beyond vs) := by
  cases vs with
  | nil => rfl
  | cons v vs =>
    show (addAll kind (.extreme (some v)) vs).map _ = _
    rw [addAll_best hkind]
    rfl

/-- A tally of numbers takes them one after the other, up to the first value that is none. -/
theorem addAll_of_sample (tally : List Double → Tally)
    (htally : ∀ xs v, (tally xs).add kind v = v.sample.map fun x => tally (xs ++ [x]))
    (xs : List Double) (vs : List Value) :
    addAll kind (tally xs) vs = (vs.mapM Value.number).map fun ys => tally (xs ++ ys) := by
  rw [← Value.sample_eq_number]
  induction vs generalizing xs with
  | nil =>
    show Except.ok (tally xs) = Except.ok (tally (xs ++ []))
    rw [List.append_nil]
  | cons v vs ih =>
    rw [addAll_cons, List.mapM_cons, htally]
    cases v.sample with
    | error e => rfl
    | ok x =>
      show addAll kind (tally (xs ++ [x])) vs = _
      rw [ih]
      show _ = (vs.mapM Value.sample >>= fun ys => .ok (x :: ys)).map _
      cases vs.mapM Value.sample with
      | error e => rfl
      | ok ys =>
        show Except.ok (tally (xs ++ [x] ++ ys)) = Except.ok (tally (xs ++ x :: ys))
        rw [List.append_assoc, List.singleton_append]

theorem addAll_samples (vs : List Value) :
    addAll kind (.samples []) vs =
      (vs.mapM Value.number).map fun xs => .samples xs.reverse := by
  refine addAll_of_sample (fun xs => .samples xs.reverse) (fun xs v => ?_) [] vs
  simp only [List.reverse_append]
  rfl

theorem addAll_average (vs : List Value) :
    addAll kind (.average 0.0 0) vs =
      (vs.mapM Value.number).map fun xs => .average (Double.total xs) xs.length := by
  refine addAll_of_sample (fun xs => .average (Double.total xs) xs.length) (fun xs v => ?_) [] vs
  simp only [Double.total, List.foldl_append, List.length_append]
  rfl

/-- The deviation that is computed from numbers is their distance from the mean. -/
theorem deviation_eq (whole : Bool) (xs : List Double) : deviation whole xs =
    Double.dispersion (if whole then xs.length else xs.length - 1) xs := by
  unfold deviation Double.dispersion Double.mean Double.total
  simp only [List.foldl_map]

example : (deviation true [2.0, 4.0]).bits = (1.0 : Double).bits := by decide +kernel

/-- A sum so far, as an integer or as a double. -/
def IsSum : Tally → Prop
  | .integerSum _ | .floatSum _ => True
  | _ => False

theorem add_sum {t : Tally} (ht : t.IsSum) (v : Value) :
    (t.add .sum v).map (result .sum) = (t.result .sum).addTo v ∧
      ∀ t', t.add .sum v = .ok t' → t'.IsSum := by
  cases t with
  | integerSum n =>
    cases v with
    | int m =>
      unfold add Value.addTo
      dsimp only [result]
      cases Number.int64? (n.toInt + m.toInt) with
      | none => exact ⟨rfl, nofun⟩
      | some total => exact ⟨rfl, fun t' h => by cases h; trivial⟩
    | float x => exact ⟨rfl, fun t' h => by cases h; trivial⟩
    | _ => exact ⟨rfl, nofun⟩
  | floatSum x =>
    show (v.sample.map fun y => floatSum (x + y)).map _ = v.number.map _ ∧
      ∀ t', (v.sample.map fun y => floatSum (x + y)) = .ok t' → _
    rw [Value.sample_eq_number]
    cases v.number with
    | error e => exact ⟨rfl, nofun⟩
    | ok y => exact ⟨rfl, fun t' h => by cases h; trivial⟩
  | _ => cases ht

theorem addAll_sum {t : Tally} (ht : t.IsSum) (vs : List Value) :
    (addAll .sum t vs).map (result .sum) = vs.foldlM Value.addTo (t.result .sum) := by
  induction vs generalizing t with
  | nil => rfl
  | cons v vs ih =>
    obtain ⟨hadd, hsum⟩ := add_sum ht v
    rw [addAll_cons, List.foldlM_cons, ← hadd]
    cases hv : t.add .sum v with
    | error e => rfl
    | ok t' => exact ih (hsum t' hv)

/-- A tally gives in the end what the aggregate is. -/
theorem result_addAll (kind : AggregateKind) (vs : List Value) :
    (addAll kind kind.start vs).map (result kind) = kind.aggregate vs := by
  cases kind with
  | rows | count =>
    rw [AggregateKind.start, addAll_count, Nat.zero_add]
    rfl
  | sum => exact addAll_sum (t := .integerSum 0) trivial vs
  | average =>
    rw [AggregateKind.start, addAll_average, AggregateKind.aggregate]
    cases vs.mapM Value.number with
    | error e => rfl
    | ok xs => cases xs <;> rfl
  | least | greatest => exact result_addAll_extreme rfl vs
  | collect =>
    rw [AggregateKind.start, addAll_items, List.append_nil]
    show Except.ok (Value.list vs.reverse.reverse) = _
    rw [List.reverse_reverse]
    rfl
  | sampleDeviation | deviation =>
    rw [AggregateKind.start, addAll_samples, AggregateKind.aggregate]
    cases vs.mapM Value.number with
    | error e => rfl
    | ok xs =>
      show Except.ok (Value.float (deviation _ xs.reverse.reverse)) = _
      rw [List.reverse_reverse, deviation_eq]
      rfl

end Tally

/-! ## Accumulators -/

namespace Accumulator

variable {a : Aggregate}

/-- One more value counts unless it is null or, where the aggregate is distinct, is equal to one
that counts already; where rows are counted it counts in any case. -/
theorem kept_concat (kind : AggregateKind) (distinct : Bool) (vs : List Value) (v : Value) :
    kind.kept distinct (vs ++ [v]) =
      if kind ≠ .rows ∧ (v.isNull || (distinct && (kind.kept distinct vs).contains v)) = true then
        kind.kept distinct vs
      else kind.kept distinct vs ++ [v] := by
  unfold AggregateKind.kept
  by_cases hrows : kind = .rows
  · rw [if_pos hrows, if_pos hrows, if_neg fun h => h.1 hrows]
  · simp only [hrows, if_false, ne_eq, not_false_eq_true, true_and, List.filter_append,
      List.filter_singleton]
    cases v.isNull with
    | true => simp
    | false =>
      cases distinct with
      | false => simp
      | true =>
        simp only [Bool.not_false, cond_true, if_true, Bool.false_or, Bool.true_and]
        unfold List.eraseDups
        rw [eraseDupsBy_concat, List.any_beq]

/-- An accumulator that knows a tally and which values count so far. -/
def knowing (a : Aggregate) (ks : List Value) (t : Tally) : Accumulator :=
  ⟨a.kind, a.distinct, if a.kind ≠ .rows ∧ a.distinct = true then ks.reverse else [], t⟩

theorem add_knowing (a : Aggregate) (ks : List Value) (t : Tally) (v : Value) :
    (knowing a ks t).add v =
      if a.kind ≠ .rows ∧ (v.isNull || (a.distinct && ks.contains v)) = true then
        .ok (knowing a ks t)
      else (t.add a.kind v).map (knowing a (ks ++ [v])) := by
  unfold add knowing
  by_cases hrows : a.kind = .rows
  · simp [hrows]
  · cases hdistinct : a.distinct <;> simp [hrows]

theorem foldlM_singleton (acc : Accumulator) (v : Value) : [v].foldlM add acc = acc.add v := by
  rw [List.foldlM_cons]
  exact bind_pure _

/-- What an accumulator knows that has taken in some values. -/
theorem foldlM_start (a : Aggregate) (vs : List Value) :
    vs.foldlM add (start a) =
      (Tally.addAll a.kind a.kind.start (a.kind.kept a.distinct vs)).map
        (knowing a (a.kind.kept a.distinct vs)) := by
  induction vs using List.reverseRecOn with
  | nil =>
    have hnil : a.kind.kept a.distinct [] = [] := by
      unfold AggregateKind.kept
      cases a.distinct <;> split <;> rfl
    have hstart : start a = knowing a [] a.kind.start := by
      unfold start knowing
      rw [List.reverse_nil, ite_self]
    rw [hnil, hstart]
    rfl
  | append_singleton vs v ih =>
    rw [List.foldlM_append, ih, kept_concat]
    simp only [foldlM_singleton]
    generalize a.kind.kept a.distinct vs = ks
    cases htally : Tally.addAll a.kind a.kind.start ks with
    | error e =>
      split
      · rw [htally]; rfl
      · rw [Tally.addAll_concat, htally]; rfl
    | ok t =>
      show (knowing a ks t).add v = _
      rw [add_knowing]
      split
      · rw [htally]; rfl
      · rw [Tally.addAll_concat, htally]; rfl

/-- What an accumulator computes is the aggregate of the values taken in. -/
theorem result_foldlM (a : Aggregate) (vs : List Value) :
    (vs.foldlM add (start a)).map result = a.over vs := by
  rw [foldlM_start, Aggregate.over, ← Tally.result_addAll]
  cases Tally.addAll a.kind a.kind.start (a.kind.kept a.distinct vs) <;> rfl

/-- The accumulator that has taken in some values, as far as it takes them. -/
def taken (a : Aggregate) (vs : List Value) : Accumulator :=
  match vs.foldlM add (start a) with
  | .ok acc => acc
  | .error _ => start a

theorem result_taken {vs : List Value} {v : Value} (h : a.over vs = .ok v) :
    (taken a vs).result = v := by
  rw [← result_foldlM] at h
  unfold taken
  cases hacc : vs.foldlM add (start a) with
  | error e => rw [hacc] at h; cases h
  | ok acc => rw [hacc] at h; cases h; rfl

/-- Where the values can be aggregated, an accumulator takes in each after those before it. -/
theorem add_taken {vs vs' more : List Value} {v w : Value} (htaken : vs' = vs ++ v :: more)
    (h : a.over vs' = .ok w) : (taken a vs).add v = .ok (taken a (vs ++ [v])) := by
  have hsplit : vs' = (vs ++ [v]) ++ more := by rw [htaken, List.append_cons]
  rw [← result_foldlM, hsplit, List.foldlM_append, List.foldlM_append] at h
  unfold taken
  rw [List.foldlM_append]
  cases hacc : vs.foldlM add (start a) with
  | error e => rw [hacc] at h; cases h
  | ok acc =>
    rw [hacc] at h
    show acc.add v = .ok (match [v].foldlM add acc with | .ok acc => acc | .error _ => start a)
    rw [foldlM_singleton]
    cases hadd : acc.add v with
    | ok acc' => rfl
    | error e =>
      replace h : (([v].foldlM add acc >>= fun acc => more.foldlM add acc).map result) = .ok w := h
      rw [foldlM_singleton, hadd] at h
      cases h

end Accumulator

end PropertyGraph
