import PropertyGraph.Eval.Function

/-!
# Ranges of integers

A range ends where it has passed its stop and where its next term would not fit 64 bits.  The stop
fits, so in the second case the next term would pass it as well, and nothing is lost: term `k` of a
range is `start + k * step` for as long as that does not pass the stop.

    rangeTerms_eq           the first term of a range and the range that follows it
    getElem?_rangeTerms     the term at each place
    call_range              the same of the function, for all integers of 64 bits
-/

namespace PropertyGraph.Function

variable {start stop step : Int}

/-! ## Terms -/

theorem rangeLoop_append (before terms : Array Int) (n : Int) :
    rangeLoop stop step n (before ++ terms) = before ++ rangeLoop stop step n terms := by
  fun_induction rangeLoop stop step n terms with
  | case1 n terms hbefore hfits ih =>
    rw [rangeLoop, if_pos hbefore, if_pos hfits, ← Array.append_push, ih]
  | case2 n terms hbefore hfits =>
    rw [rangeLoop, if_pos hbefore, if_neg hfits, Array.append_push]
  | case3 n terms hpassed =>
    rw [rangeLoop, if_neg hpassed]

theorem rangeTerms_eq : rangeTerms start stop step =
    if BeforeStop stop step start then
      start :: if Number.fitsInt64 (start + step) then rangeTerms (start + step) stop step else []
    else [] := by
  rw [rangeTerms, rangeLoop]
  split
  · split
    · have hpush : #[].push start = #[start] ++ #[] := rfl
      rw [hpush, rangeLoop_append, Array.toList_append]
      rfl
    · rfl
  · rfl

/-- A term before the stop lies between the start and the stop. -/
theorem BeforeStop.between {k : Nat} (h : BeforeStop stop step (start + k * step)) :
    0 < step ∧ start ≤ start + k * step ∧ start + k * step ≤ stop ∨
      step < 0 ∧ stop ≤ start + k * step ∧ start + k * step ≤ start := by
  have hk : (0 : Int) ≤ k := Int.natCast_nonneg k
  rcases h with ⟨hstep, hle⟩ | ⟨hstep, hle⟩
  · have := Int.mul_nonneg hk (Int.le_of_lt hstep)
    exact .inl ⟨hstep, by omega, hle⟩
  · have := Int.mul_nonpos_of_nonneg_of_nonpos hk (Int.le_of_lt hstep)
    exact .inr ⟨hstep, hle, by omega⟩

/-- Once the stop is passed, later terms pass it too. -/
theorem BeforeStop.of_later {k : Nat} (h : BeforeStop stop step (start + k * step)) :
    BeforeStop stop step start := by
  rcases h.between with ⟨hstep, hfrom, hto⟩ | ⟨hstep, hto, hfrom⟩
  · exact .inl ⟨hstep, Int.le_trans hfrom hto⟩
  · exact .inr ⟨hstep, Int.le_trans hto hfrom⟩

/-- A term before the stop fits if the start and the stop do. -/
theorem BeforeStop.fits {k : Nat} (h : BeforeStop stop step (start + k * step))
    (hstart : Number.fitsInt64 start) (hstop : Number.fitsInt64 stop) :
    Number.fitsInt64 (start + k * step) := by
  obtain ⟨hstartLow, hstartHigh⟩ := of_decide_eq_true hstart
  obtain ⟨hstopLow, hstopHigh⟩ := of_decide_eq_true hstop
  refine decide_eq_true ?_
  have := h.between
  omega

/-- The terms of a range stand in order, up to the last that does not pass the stop. -/
theorem getElem?_rangeTerms (hstart : Number.fitsInt64 start) (hstop : Number.fitsInt64 stop)
    (k : Nat) : (rangeTerms start stop step)[k]? =
      if BeforeStop stop step (start + k * step) then some (start + k * step) else none := by
  induction k generalizing start with
  | zero =>
    rw [rangeTerms_eq, Int.natCast_zero, Int.zero_mul, Int.add_zero]
    split <;> rfl
  | succ k ih =>
    have hterm : start + (k + 1 : Nat) * step = start + step + k * step := by
      rw [Int.natCast_succ, Int.add_mul, Int.one_mul]
      omega
    rw [rangeTerms_eq]
    split
    · split
      · next hfits => rw [List.getElem?_cons_succ, ih hfits, hterm]
      · next hfits =>
        -- The loop ends for want of a next term.  Were a later term before the stop, so would be
        -- the next one, and it would fit.
        refine (if_neg fun hlater => hfits ?_).symm
        rw [hterm] at hlater
        have hone : start + step = start + (1 : Nat) * step := by
          rw [Int.natCast_one, Int.one_mul]
        rw [hone]
        exact BeforeStop.fits (hone ▸ hlater.of_later) hstart hstop
    · next hpassed => exact (if_neg fun hlater => hpassed hlater.of_later).symm

/-! ## The function -/

theorem fitsInt64_toInt (n : Int64) : Number.fitsInt64 n.toInt :=
  decide_eq_true ⟨n.le_toInt, n.toInt_lt⟩

theorem toInt_ofInt_of_fits {n : Int} (h : Number.fitsInt64 n) : (Int64.ofInt n).toInt = n := by
  obtain ⟨hlow, hhigh⟩ := of_decide_eq_true h
  exact Int64.toInt_ofInt_of_le hlow hhigh

theorem rangeOf_int {step : Int64} (hstep : step ≠ 0) (start stop : Int64) :
    rangeOf (.int start) (.int stop) (some (.int step)) =
      .ok (.list ((rangeTerms start.toInt stop.toInt step.toInt).map (.int <| Int64.ofInt ·))) := by
  have hzero : step.toInt ≠ 0 := fun h => hstep (Int64.toInt_inj.1 h)
  show (do
    if step.toInt = 0 then throw (.invalidArgument .zeroRangeStep)
    return _ : Except Error Value) = _
  rw [if_neg hzero]
  rfl

/-- A range of integers with a step other than zero never fails, and lists exactly the integers
`start + k * step` that do not pass the stop, in order, also where the next one does not fit. -/
theorem call_range (world : World) {name : String} (hname : Text.lower name = "range")
    (start stop step : Int64) (hstep : step ≠ 0) :
    ∃ terms : List Int64,
      call world name [.int start, .int stop, .int step] = .ok (.list (terms.map .int)) ∧
        ∀ k : Nat, terms[k]?.map Int64.toInt =
          if 0 < step.toInt ∧ start.toInt + k * step.toInt ≤ stop.toInt ∨
              step.toInt < 0 ∧ stop.toInt ≤ start.toInt + k * step.toInt
          then some (start.toInt + k * step.toInt) else none := by
  refine ⟨(rangeTerms start.toInt stop.toInt step.toInt).map Int64.ofInt, ?_, fun k => ?_⟩
  · unfold call
    rw [hname, List.map_map]
    exact rangeOf_int hstep start stop
  · have hstart := fitsInt64_toInt start
    have hstop := fitsInt64_toInt stop
    rw [List.getElem?_map, getElem?_rangeTerms hstart hstop]
    split
    · next hbefore =>
      exact congrArg some (toInt_ofInt_of_fits (BeforeStop.fits hbefore hstart hstop))
    · rfl

/-- Downwards to the least integer of 64 bits, below which the next term would lie. -/
theorem call_range_to_least : ∃ terms : List Int64,
    call ⟨fun _ => none, ⟨1970, 1, 1, by decide⟩⟩ "Range"
        [.int (-9223372036854775800), .int (-9223372036854775808), .int (-4)] =
        .ok (.list (terms.map .int)) ∧
      terms.map Int64.toInt =
        [-9223372036854775800, -9223372036854775804, -9223372036854775808] := by
  have hname : Text.lower "Range" = "range" := by decide
  have hstep : (-4 : Int64) ≠ 0 := by decide
  obtain ⟨terms, hcall, hterms⟩ := call_range ⟨fun _ => none, ⟨1970, 1, 1, by decide⟩⟩ hname
    (-9223372036854775800) (-9223372036854775808) (-4) hstep
  refine ⟨terms, hcall, List.ext_getElem? fun k => ?_⟩
  rw [List.getElem?_map, hterms]
  match k with
  | 0 | 1 | 2 => rfl
  | k + 3 =>
    refine if_neg ?_
    rintro (⟨hup, -⟩ | ⟨-, hle⟩)
    · exact absurd hup (by decide)
    · replace hle : (-9223372036854775808 : Int) ≤ -9223372036854775800 + (k + 3 : Nat) * -4 := hle
      omega

end PropertyGraph.Function
