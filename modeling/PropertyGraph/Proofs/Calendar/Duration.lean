import PropertyGraph.Calendar.Duration
import PropertyGraph.Proofs.Number.Bounded
import PropertyGraph.Proofs.Number.Exact

/-!
# Length and clock time of durations

The parts of a duration are integers of 64 bits, so its length in seconds stays far below the
infinities and is always a number: any two durations can be compared.

The clock part of a duration is written in hours, minutes and seconds, all with the sign of the
whole, and the nanoseconds follow the point of the seconds.  There they take the sign that the
seconds have, which is not their own where the seconds are negative.  Reading is done in doubles,
which come close enough to whole nanoseconds up to 2²³ seconds, and to whole seconds up to 2⁵³.

    within_approxSeconds       how far the length of a duration can be from zero
    of_congr                   seconds and nanoseconds of a duration count together
    ofClock_eq                 seconds that are read nearly exactly
    Counts                     a unit of the clock part
    readClock?_part            a number with its unit
    readClock?_secondsText     the seconds with their nanoseconds
    readClock?_clockText       the whole clock part
-/

namespace PropertyGraph.Duration

section Length

open Float.Model.UnpackedFloat

/-! ## The constants -/

theorem within_month : (2629746.0 : Double).Within 22 := by
  have hmonth : (2629746.0 : Double).unpacked =
      .finite .positive (2629746 * 2 ^ 31) (-31) (by decide) := rfl
  unfold Double.Within
  rw [hmonth]
  exact ⟨by decide, by decide⟩

theorem within_day : (86400.0 : Double).Within 17 := by
  have hday : (86400.0 : Double).unpacked =
      .finite .positive (86400 * 2 ^ 36) (-36) (by decide) := rfl
  unfold Double.Within
  rw [hday]
  exact ⟨by decide, by decide⟩

theorem unpacked_billion : (1e9 : Double).unpacked =
    .finite .positive (1000000000 * 2 ^ 23) (-23) (by decide) :=
  rfl

/-! ## The length -/

theorem within_approxSeconds (d : Duration) : d.approxSeconds.Within 94 := by
  have hmonths : (Double.ofInt64 d.months * 2629746.0).Within 88 :=
    (Double.within_ofInt64 _).mul within_month (by decide) (by decide)
  have hdays : (Double.ofInt64 d.days * 86400.0).Within 88 :=
    ((Double.within_ofInt64 _).mul within_day (by decide) (by decide)).mono (by decide)
  have hseconds : (Double.ofInt64 d.seconds).Within 90 :=
    (Double.within_ofInt64 _).mono (by decide)
  have hnanos : (Double.ofInt64 d.nanos.toInt64 / 1e9).Within 92 :=
    (Double.within_ofInt64 _).div unpacked_billion (by decide) (by decide) (by decide)
  have hdate := hmonths.add hdays (by decide) (by decide)
  exact (hdate.add hseconds (by decide) (by decide)).add hnanos (by decide) (by decide)

theorem isNaN_approxSeconds (d : Duration) : d.approxSeconds.isNaN = false :=
  d.within_approxSeconds.isNaN

end Length

/-! ## Carrying -/

/-- A duration depends on the sum of its seconds and nanoseconds only. -/
theorem of_eq (months days seconds nanos : Int) : of months days seconds nanos =
    ⟨.ofInt months, .ofInt days, .ofInt ((seconds * 1000000000 + nanos) / 1000000000),
      .ofInt ((seconds * 1000000000 + nanos) % 1000000000)⟩ := by
  have hsum := Int.mul_tdiv_add_tmod nanos 1000000000
  have hless := Int.tmod_lt_of_pos nanos (show (0 : Int) < 1000000000 by decide)
  have habove := Int.lt_tmod_of_pos nanos (show (0 : Int) < 1000000000 by decide)
  unfold of
  dsimp only
  generalize nanos.tdiv 1000000000 = carried at *
  generalize nanos.tmod 1000000000 = rest at *
  split
  · have hseconds : (seconds * 1000000000 + nanos) / 1000000000 = seconds + carried - 1 := by omega
    have hnanos : (seconds * 1000000000 + nanos) % 1000000000 = rest + 1000000000 := by omega
    rw [hseconds, hnanos]
  · have hseconds : (seconds * 1000000000 + nanos) / 1000000000 = seconds + carried := by omega
    have hnanos : (seconds * 1000000000 + nanos) % 1000000000 = rest := by omega
    rw [hseconds, hnanos]

theorem of_congr {seconds nanos seconds' nanos' : Int} (months days : Int)
    (h : seconds * 1000000000 + nanos = seconds' * 1000000000 + nanos') :
    of months days seconds nanos = of months days seconds' nanos' := by
  rw [of_eq, of_eq, h]

/-- The nanoseconds of a duration are those that its seconds leave. -/
theorem nanos_of (months days seconds nanos : Int) :
    0 ≤ (of months days seconds nanos).nanos.toInt ∧
      (of months days seconds nanos).nanos.toInt < 1000000000 := by
  rw [of_eq]
  show 0 ≤ (Int32.ofInt _).toInt ∧ (Int32.ofInt _).toInt < 1000000000
  rw [Int32.toInt_ofInt_of_le] <;> omega

/-- A duration with such nanoseconds is built of its own parts. -/
theorem of_toInt {d : Duration} (h : 0 ≤ d.nanos.toInt) (h' : d.nanos.toInt < 1000000000) :
    of d.months.toInt d.days.toInt d.seconds.toInt d.nanos.toInt = d := by
  have hseconds :
      (d.seconds.toInt * 1000000000 + d.nanos.toInt) / 1000000000 = d.seconds.toInt := by
    omega
  have hnanos : (d.seconds.toInt * 1000000000 + d.nanos.toInt) % 1000000000 = d.nanos.toInt := by
    omega
  rw [of_eq, hseconds, hnanos, Int64.ofInt_toInt, Int64.ofInt_toInt, Int64.ofInt_toInt,
    Int32.ofInt_toInt]

/-! ## Clock time -/

/-- The nanoseconds behind the point of a double are rounded to a whole number of them. -/
theorem exists_nanos {clock : Double} {a r : ℚ}
    (hr : Number.value? (Number.fraction clock) = some r) (hrounds : Number.Rounds a r)
    (ha : |a| < 1) : ∃ n : ℤ, |(n : ℚ) - a * 1000000000| ≤ 501 / 1000 ∧
      let nanos := Number.parts (Number.times (Number.fraction clock) 1000000000)
      nanos.clamp Int32.minValue.toInt Int32.maxValue.toInt nanos.roundedMagnitude = n := by
  have hfraction : |r - a| ≤ (2 : ℚ) ^ (0 - 54 : ℤ) :=
    hrounds.abs_sub_le (by rwa [zpow_zero]) (by decide)
  have hproduct : |r * (1000000000 : ℕ)| < (2 : ℚ) ^ (30 : ℤ) := by
    rw [abs_lt] at ha ⊢
    norm_num [abs_le] at hfraction ⊢
    constructor <;> linarith
  obtain ⟨q, hq, hrounds⟩ := Number.value?_times hr 1000000000 (hproduct.trans (by norm_num))
  have hnanos : |q - r * (1000000000 : ℕ)| ≤ (2 : ℚ) ^ (30 - 54 : ℤ) :=
    hrounds.abs_sub_le hproduct (by decide)
  obtain ⟨n, hn, hround⟩ := Number.clamp_roundedMagnitude hq
  have hclose : |(n : ℚ) - a * 1000000000| ≤ 501 / 1000 := by
    norm_num [abs_le] at hfraction hnanos hn ⊢
    constructor <;> linarith
  have hsize : n.natAbs ≤ 1000000001 := Number.abs_cast_le_iff.1 (by
    norm_num [abs_le, abs_lt] at hclose ha ⊢
    constructor <;> linarith)
  refine ⟨n, hclose, hround _ _ ?_ ?_⟩
  · exact le_trans (show _ ≤ -1000000001 by decide) (by omega)
  · exact le_trans (show n ≤ 1000000001 by omega) (by decide)

/-- Seconds that come within 0.49 nanoseconds of a whole number of nanoseconds are that number. -/
theorem ofClock_eq {clock : Double} {a : ℚ} {total : ℤ} (months days : Int)
    (h : Number.value? clock = some a) (ha : |a| ≤ (2 ^ 53 : ℕ))
    (hclose : |a * 1000000000 - total| ≤ 49 / 100) :
    ofClock months days clock = of months days 0 total := by
  obtain ⟨w, hless, hw, ⟨r, hr, hrounds⟩, hwhole⟩ := Number.value?_fraction h
  obtain ⟨n, hn, hnanos⟩ := exists_nanos hr hrounds hless
  have hcarry : w * 1000000000 + n = total := by
    refine Number.int_eq_of_abs_sub_lt_one ?_
    have hsum : ((w * 1000000000 + n : ℤ) : ℚ) - total =
        (n - (a - w) * 1000000000) + (a * 1000000000 - total) := by
      push_cast
      ring
    calc |((w * 1000000000 + n : ℤ) : ℚ) - total|
        ≤ |n - (a - w) * 1000000000| + |a * 1000000000 - total| := hsum ▸ abs_add_le _ _
      _ ≤ 501 / 1000 + 49 / 100 := add_le_add hn hclose
      _ < 1 := by norm_num
  have hsize : w.natAbs ≤ 2 ^ 53 := Number.abs_cast_le_iff.1 (hw.trans ha)
  unfold ofClock
  dsimp only at hnanos ⊢
  rw [hwhole _ _ (le_trans (show _ ≤ -2 ^ 53 by decide) (by omega))
    (le_trans (show w ≤ 2 ^ 53 by omega) (by decide)), hnanos]
  exact of_congr months days (by omega)

/-! ## Reading the clock part -/

/-- The characters of a number are gathered up to one that is none of them. -/
theorem readClock?_append {cs : List Char}
    (hcs : ∀ c ∈ cs, (c.isDigit || c == '-' || c == '.') = true) (s : Double)
    (number rest : List Char) :
    readClock? s number (cs ++ rest) = readClock? s (cs.reverse ++ number) rest := by
  induction cs generalizing number with
  | nil => rfl
  | cons c cs ih =>
    rw [List.cons_append, readClock?, if_pos (hcs c List.mem_cons_self),
      ih fun d hd => hcs d (List.mem_cons_of_mem c hd), List.reverse_cons, List.append_assoc]
    rfl

/-- A unit of so many seconds: the number before it is turned into seconds and added. -/
def Counts (unit : Char) (k : Nat) : Prop :=
  ∃ f : Double → Double,
    (∀ (s x : Double) (number rest : List Char),
      Number.readDouble? (String.ofList number.reverse) = some x →
      readClock? s number (unit :: rest) = readClock? (Number.plus s (f x)) [] rest) ∧
    ∀ (x : Double) (n : Int), Number.value? x = some (n : ℚ) → (n * k).natAbs ≤ 2 ^ 53 →
      Number.value? (f x) = some ((n * k : Int) : ℚ)

theorem value?_times_int {x : Double} {n : Int} {k : Nat} (hx : Number.value? x = some (n : ℚ))
    (hn : (n * k).natAbs ≤ 2 ^ 53) :
    Number.value? (Number.times x k) = some ((n * k : Int) : ℚ) := by
  have hcast : (n : ℚ) * k = ((n * k : Int) : ℚ) := by push_cast; rfl
  obtain ⟨r, hr, hrounds⟩ := Number.value?_times hx k (by
    rw [hcast]
    exact Number.abs_int_lt hn)
  rw [hcast] at hrounds
  rw [hr, hrounds.eq_of_int hn]

theorem counts_hours : Counts 'H' 3600 := by
  refine ⟨fun x => Number.times x 3600, fun s x number rest hx => ?_, fun x n => value?_times_int⟩
  rw [readClock?, if_neg (by decide), hx]
  rfl

theorem counts_minutes : Counts 'M' 60 := by
  refine ⟨fun x => Number.times x 60, fun s x number rest hx => ?_, fun x n => value?_times_int⟩
  rw [readClock?, if_neg (by decide), hx]
  rfl

theorem readClock?_seconds {s x : Double} {number rest : List Char}
    (hx : Number.readDouble? (String.ofList number.reverse) = some x) :
    readClock? s number ('S' :: rest) = readClock? (Number.plus s x) [] rest := by
  rw [readClock?, if_neg (by decide), hx]
  rfl

theorem counts_seconds : Counts 'S' 1 := by
  refine ⟨id, fun s x number rest => readClock?_seconds, fun x n hx _ => ?_⟩
  rw [id, hx, Int.natCast_one, Int.mul_one]

theorem toList_part {n : Int} (hn : n ≠ 0) (unit : String) :
    (part n unit).toList = (toString n).toList ++ unit.toList := by
  unfold part
  rw [if_neg hn, String.toList_append]

/-- A number with its unit is added to the seconds. -/
theorem readClock?_part {unit : Char} {k : Nat} (h : Counts unit k) {s : Double} {m n : Int}
    (hs : Number.value? s = some (m : ℚ)) (hn : n.natAbs ≤ 2 ^ 53)
    (hnk : (n * k).natAbs ≤ 2 ^ 53) (hsum : (m + n * k).natAbs ≤ 2 ^ 53) :
    ∃ s', Number.value? s' = some ((m + n * k : Int) : ℚ) ∧
      ∀ rest, readClock? s [] ((part n unit.toString).toList ++ rest) = readClock? s' [] rest := by
  obtain ⟨f, hread, hvalue⟩ := h
  by_cases hzero : n = 0
  · refine ⟨s, ?_, fun rest => ?_⟩
    · rw [hzero, Int.zero_mul, Int.add_zero, hs]
    · rw [part, if_pos hzero]
      rfl
  obtain ⟨x, hx, hxvalue⟩ := Number.value?_readDouble?_int hn
  have hcast : (m : ℚ) + ((n * k : Int) : ℚ) = ((m + n * k : Int) : ℚ) := by push_cast; rfl
  obtain ⟨r, hr, hrounds⟩ := Number.value?_plus hs (hvalue x n hxvalue hnk)
    (by rw [hcast]; exact Number.abs_int_lt hsum)
  rw [hcast] at hrounds
  refine ⟨Number.plus s (f x), hrounds.eq_of_int hsum ▸ hr, fun rest => ?_⟩
  have hnumeric : ∀ c ∈ (toString n).toList, (c.isDigit || c == '-' || c == '.') = true := by
    intro c hc
    rw [Number.mem_toString_int hc]
    rfl
  rw [toList_part hzero, Char.toString_eq_singleton, String.toList_singleton, List.append_assoc,
    readClock?_append hnumeric]
  exact hread s x _ rest (by rw [List.append_nil, List.reverse_reverse, String.ofList_toList, hx])

/-- The seconds under a minute and the nanoseconds that are written behind their point. -/
def joined (seconds nanos : Int) : Int :=
  seconds * 1000000000 + if seconds < 0 then -nanos else nanos

theorem withSign_joined {seconds nanos : Int} (hpos : 0 ≤ nanos) :
    Number.withSign (seconds < 0) (seconds.natAbs * 10 ^ 9 + nanos.toNat) =
      joined seconds nanos := by
  unfold Number.withSign joined
  by_cases hneg : seconds < 0
  · rw [decide_eq_true hneg, if_pos rfl, if_pos hneg]
    omega
  · rw [decide_eq_false hneg, if_neg Bool.false_ne_true, if_neg hneg]
    omega

theorem toList_secondsText {seconds nanos : Int} (hpos : 0 < nanos) :
    (secondsText seconds nanos).toList =
      Number.nineChars (seconds < 0) seconds.natAbs nanos.toNat ++ ['S'] := by
  have hnine : (nineDigits nanos).toList = Date.paddedDigits 9 nanos.toNat := by
    unfold nineDigits
    rw [if_neg (by omega), Date.toList_padded, show nanos.natAbs = nanos.toNat by omega]
  unfold secondsText
  rw [if_neg (by omega)]
  dsimp only
  rw [hnine]
  simp only [String.toList_append, Number.toList_toString_int, String.toList_ofList]
  simp [Number.nineChars, Number.dropZeros]

/-- The number of seconds with a point is read with an error in the 48th digit behind it. -/
theorem readClock?_secondsText {seconds nanos : Int} (hseconds : seconds.natAbs < 60)
    (hpos : 0 < nanos) (hnanos : nanos < 1000000000) :
    ∃ x r, Number.value? x = some r ∧ |r - joined seconds nanos / 1000000000| ≤ 1 / 2 ^ 48 ∧
      ∀ s, readClock? s [] (secondsText seconds nanos).toList = some (Number.plus s x) := by
  obtain ⟨x, r, hx, hr, hrounds⟩ := Number.value?_readDouble?_nine (seconds < 0)
    (m := seconds.natAbs) (n := nanos.toNat) (by omega) (by omega)
  rw [withSign_joined hpos.le] at hrounds
  have hjoined : |(joined seconds nanos : ℚ)| ≤ (60000000000 : ℕ) :=
    Number.abs_cast_le_iff.2 (by unfold joined; split <;> omega)
  have hsmall : |(joined seconds nanos : ℚ) / 10 ^ 9| < (2 : ℚ) ^ (6 : ℤ) := by
    rw [abs_div, div_lt_iff₀ (by norm_num)]
    exact hjoined.trans_lt (by norm_num)
  have herror := hrounds.abs_sub_le hsmall (by decide)
  norm_num at herror
  refine ⟨x, r, hr, by norm_num; exact herror, fun s => ?_⟩
  rw [toList_secondsText hpos, readClock?_append fun c => Number.mem_nineChars, List.append_nil,
    readClock?_seconds (by rw [List.reverse_reverse, hx])]
  rfl

/-- Added to whole seconds it comes within 0.49 nanoseconds of what is written. -/
theorem value?_plus_joined {s x : Double} {r : ℚ} {m seconds nanos : Int}
    (hs : Number.value? s = some (m : ℚ)) (hx : Number.value? x = some r)
    (hr : |r - joined seconds nanos / 1000000000| ≤ 1 / 2 ^ 48) (hpos : 0 ≤ nanos)
    (hnanos : nanos < 1000000000) (hm : (m + seconds).natAbs < 2 ^ 23) :
    ∃ a, Number.value? (Number.plus s x) = some a ∧ |a| ≤ (2 ^ 53 : ℕ) ∧
      |a * 1000000000 - (m * 1000000000 + joined seconds nanos : Int)| ≤ 49 / 100 := by
  have htotal : |((m * 1000000000 + joined seconds nanos : ℤ) : ℚ)| ≤
      (2 ^ 23 * 1000000000 - 1 : ℕ) :=
    Number.abs_cast_le_iff.2 (by unfold joined; split <;> omega)
  push_cast at htotal ⊢
  generalize (joined seconds nanos : ℚ) = j at *
  have hsum : |(m : ℚ) + r| < (2 : ℚ) ^ (23 : ℤ) := by
    norm_num [abs_le, abs_lt] at htotal hr ⊢
    constructor <;> linarith
  obtain ⟨a, ha, hrounds⟩ := Number.value?_plus hs hx (hsum.trans (by norm_num))
  have herror := hrounds.abs_sub_le hsum (by decide)
  refine ⟨a, ha, ?_, ?_⟩ <;> norm_num [abs_le, abs_lt] at htotal hr herror hsum ⊢ <;>
    constructor <;> linarith

/-! ## The clock part -/

/-- Hours, minutes and seconds have the sign of the whole. -/
theorem clock_parts (seconds : Int) :
    seconds.tdiv 3600 * 3600 + (seconds.tmod 3600).tdiv 60 * 60 + seconds.tmod 60 = seconds ∧
      (seconds.tdiv 3600 * 3600).natAbs ≤ seconds.natAbs ∧
      ((seconds.tmod 3600).tdiv 60 * 60).natAbs ≤ seconds.natAbs ∧
      (seconds.tdiv 3600 * 3600 + (seconds.tmod 3600).tdiv 60 * 60).natAbs ≤ seconds.natAbs ∧
      (seconds.tmod 60).natAbs < 60 ∧ (seconds.tmod 60).natAbs ≤ seconds.natAbs := by
  rcases Int.le_total 0 seconds with hpos | hneg
  · have hrest : 0 ≤ seconds % 3600 := Int.emod_nonneg _ (by decide)
    rw [Int.tdiv_eq_ediv_of_nonneg hpos, Int.tmod_eq_emod_of_nonneg hpos,
      Int.tdiv_eq_ediv_of_nonneg hrest, Int.tmod_eq_emod_of_nonneg hpos]
    omega
  · obtain ⟨n, rfl⟩ : ∃ n, seconds = -n := ⟨-seconds, (Int.neg_neg _).symm⟩
    have hpos : 0 ≤ n := Int.neg_nonpos_iff n |>.1 hneg
    have hrest : 0 ≤ n % 3600 := Int.emod_nonneg _ (by decide)
    rw [Int.neg_tdiv, Int.neg_tmod, Int.neg_tdiv, Int.neg_tmod, Int.tdiv_eq_ediv_of_nonneg hpos,
      Int.tmod_eq_emod_of_nonneg hpos, Int.tdiv_eq_ediv_of_nonneg hrest,
      Int.tmod_eq_emod_of_nonneg hpos]
    omega

theorem value?_zero : Number.value? (Number.nearest false 0 1) = some ((0 : Int) : ℚ) := by
  have hzero : (Number.withSign false 0 : ℚ) / (1 : ℕ) = ((0 : Int) : ℚ) := by
    simp [Number.withSign]
  obtain ⟨r, hr, hrounds⟩ := Number.value?_nearest (by decide) hzero (by simp)
  rw [hr, hrounds.eq_of_int (by decide)]

/-- Hours and minutes are read as whole seconds. -/
theorem readClock?_hours_minutes (seconds : Int) (h : seconds.natAbs ≤ 2 ^ 53) :
    ∃ s, Number.value? s = some ((seconds - seconds.tmod 60 : Int) : ℚ) ∧
      ∀ rest, readClock? (Number.nearest false 0 1) [] ((part (seconds.tdiv 3600) "H").toList ++
        ((part ((seconds.tmod 3600).tdiv 60) "M").toList ++ rest)) = readClock? s [] rest := by
  obtain ⟨hparts, hhours, hminutes, hboth, -, -⟩ := clock_parts seconds
  obtain ⟨s, hs, hreadHours⟩ := readClock?_part counts_hours value?_zero
    (n := seconds.tdiv 3600) (by omega) (by push_cast; omega) (by push_cast; omega)
  obtain ⟨s', hs', hreadMinutes⟩ := readClock?_part counts_minutes hs
    (n := (seconds.tmod 3600).tdiv 60) (by omega) (by push_cast; omega) (by push_cast; omega)
  refine ⟨s', ?_, fun rest => (hreadHours _).trans (hreadMinutes rest)⟩
  rw [hs']
  congr 2
  push_cast
  omega

theorem toList_clockText {seconds nanos : Int} (hne : ¬ (seconds = 0 ∧ nanos = 0)) :
    (clockText seconds nanos).toList = 'T' :: ((part (seconds.tdiv 3600) "H").toList ++
      ((part ((seconds.tmod 3600).tdiv 60) "M").toList ++
        (secondsText (seconds.tmod 60) nanos).toList)) := by
  unfold clockText
  rw [if_neg hne]
  simp [String.toList_append]

/-- The clock part of a text is read as the nanoseconds that are written in it. -/
theorem readClock?_clockText {seconds nanos : Int} (hpos : 0 ≤ nanos) (hnanos : nanos < 1000000000)
    (hne : ¬ (seconds = 0 ∧ nanos = 0))
    (hlimit : nanos = 0 ∧ seconds.natAbs ≤ 2 ^ 53 ∨ seconds.natAbs < 2 ^ 23) (months days : Int) :
    ∃ body clock, (clockText seconds nanos).toList = 'T' :: body ∧
      readClock? (Number.nearest false 0 1) [] body = some clock ∧
      ofClock months days clock =
        of months days seconds (if seconds.tmod 60 < 0 then -nanos else nanos) := by
  obtain ⟨hparts, -, -, -, hminute, hrest⟩ := clock_parts seconds
  obtain ⟨s, hs, hread⟩ := readClock?_hours_minutes seconds (by omega)
  have htext := toList_clockText hne
  rcases Int.le_iff_lt_or_eq.1 hpos with hpos | rfl
  · obtain ⟨x, r, hx, hr, hreadSeconds⟩ := readClock?_secondsText hminute hpos hnanos
    obtain ⟨a, ha, hsize, hclose⟩ := value?_plus_joined hs hx hr hpos.le hnanos
      (by rw [Int.sub_add_cancel]; omega)
    refine ⟨_, _, htext, (hread _).trans (hreadSeconds s), ?_⟩
    rw [ofClock_eq months days ha hsize hclose]
    refine of_congr months days ?_
    unfold joined
    split <;> omega
  · obtain ⟨s', hs', hreadSeconds⟩ := readClock?_part counts_seconds hs
      (n := seconds.tmod 60) (by omega) (by push_cast; omega) (by push_cast; omega)
    have hsum : seconds - seconds.tmod 60 + seconds.tmod 60 * (1 : ℕ) = seconds := by
      push_cast
      omega
    rw [hsum] at hs'
    refine ⟨_, s', htext, ?_, ?_⟩
    · rw [hread, secondsText, if_pos rfl]
      have := hreadSeconds []
      rwa [List.append_nil] at this
    · have hexact : |(seconds : ℚ) * 1000000000 - (seconds * 1000000000 : Int)| ≤ 49 / 100 := by
        push_cast
        norm_num
      rw [ofClock_eq months days hs' (Number.abs_cast_le_iff.2 (by omega)) hexact]
      refine of_congr months days ?_
      split <;> omega

end PropertyGraph.Duration
