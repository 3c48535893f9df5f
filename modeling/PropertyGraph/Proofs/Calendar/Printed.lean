import PropertyGraph.Proofs.Calendar.Duration

/-!
# Durations read back

A duration is read back from its text, except one whose nanoseconds stand behind a negative number
of seconds: they are positive in the duration, and are read with the sign of the number.

    Dates                  a unit of the calendar part
    readCalendar?_part     a number with its unit
    toList_text            the text of a duration is its calendar part and its clock part
    read?_text             what the text of a duration is read as
-/

namespace PropertyGraph

namespace Text

/-- A text without blanks is not trimmed. -/
theorem trimChars_eq_self {cs : List Char} (h : ∀ c ∈ cs, isBlank c = false) :
    trimChars cs = cs := by
  have hdrop : ∀ ds : List Char, (∀ c ∈ ds, isBlank c = false) → ds.dropWhile isBlank = ds := by
    intro ds hds
    cases ds with
    | nil => rfl
    | cons c ds =>
      exact List.dropWhile_cons_of_neg (Bool.eq_false_iff.1 (hds c List.mem_cons_self))
  unfold trimChars
  rw [hdrop cs h, hdrop _ fun c hc => h c (List.mem_reverse.1 hc), List.reverse_reverse]

end Text

namespace Duration

/-! ## Reading the calendar part -/

/-- The characters of a number are gathered up to one that is none of them. -/
theorem readCalendar?_append {cs : List Char}
    (hcs : ∀ c ∈ cs, (c.isDigit || c == '-') = true) (months days : Int)
    (number rest : List Char) :
    readCalendar? months days number (cs ++ rest) =
      readCalendar? months days (cs.reverse ++ number) rest := by
  induction cs generalizing number with
  | nil => rfl
  | cons c cs ih =>
    rw [List.cons_append, readCalendar?, if_pos (hcs c List.mem_cons_self),
      ih fun d hd => hcs d (List.mem_cons_of_mem c hd), List.reverse_cons, List.append_assoc]
    rfl

/-- A unit of so many months and so many days. -/
def Dates (unit : Char) (inMonths inDays : Int) : Prop :=
  ∀ (months days n : Int) (number rest : List Char),
    (Number.readInt? number.reverse).filter Number.fitsInt64 = some n →
    readCalendar? months days number (unit :: rest) =
      readCalendar? (months + n * inMonths) (days + n * inDays) [] rest

theorem dates_years : Dates 'Y' 12 0 := by
  intro months days n number rest hn
  rw [readCalendar?, if_neg (by decide), hn, Int.mul_zero, Int.add_zero]
  rfl

theorem dates_months : Dates 'M' 1 0 := by
  intro months days n number rest hn
  rw [readCalendar?, if_neg (by decide), hn, Int.mul_zero, Int.add_zero, Int.mul_one]
  rfl

theorem dates_days : Dates 'D' 0 1 := by
  intro months days n number rest hn
  rw [readCalendar?, if_neg (by decide), hn, Int.mul_zero, Int.add_zero, Int.mul_one]
  rfl

/-- A number with its unit is added to the months and the days. -/
theorem readCalendar?_part {unit : Char} {inMonths inDays : Int} (h : Dates unit inMonths inDays)
    {n : Int} (hn : Number.fitsInt64 n = true) (months days : Int) (rest : List Char) :
    readCalendar? months days [] ((part n unit.toString).toList ++ rest) =
      readCalendar? (months + n * inMonths) (days + n * inDays) [] rest := by
  by_cases hzero : n = 0
  · rw [part, if_pos hzero, hzero, Int.zero_mul, Int.zero_mul, Int.add_zero, Int.add_zero]
    rfl
  rw [toList_part hzero, Char.toString_eq_singleton, String.toList_singleton, List.append_assoc,
    readCalendar?_append fun c => Number.mem_toString_int, List.append_nil]
  refine h months days n _ rest ?_
  rw [List.reverse_reverse, Number.readInt?_toString, Option.filter_some, if_pos hn]

/-- The calendar part of a text. -/
def calendarChars (months days : Int) : List Char :=
  (part (months.tdiv 12) "Y").toList ++ ((part (months.tmod 12) "M").toList ++
    ((part days "D").toList ++ []))

/-- The calendar part of a text is read as the months and the days that are written in it. -/
theorem readCalendar?_calendarChars (months days : Int64) :
    readCalendar? 0 0 [] (calendarChars months.toInt days.toInt) =
      some (months.toInt, days.toInt) := by
  have hlow := months.le_toInt
  have hhigh := months.toInt_lt
  have hyears : Number.fitsInt64 (months.toInt.tdiv 12) = true := by
    have hdiv : (months.toInt.tdiv 12).natAbs = months.toInt.natAbs / 12 := Int.natAbs_tdiv _ _
    exact decide_eq_true (by omega)
  have hmonths : Number.fitsInt64 (months.toInt.tmod 12) = true := by
    have hmod : (months.toInt.tmod 12).natAbs = months.toInt.natAbs % 12 := Int.natAbs_tmod _ _
    exact decide_eq_true (by omega)
  have hdays : Number.fitsInt64 days.toInt = true := decide_eq_true ⟨days.le_toInt, days.toInt_lt⟩
  have hsum := Int.mul_tdiv_add_tmod months.toInt 12
  refine (readCalendar?_part dates_years hyears _ _ _).trans ?_
  refine (readCalendar?_part dates_months hmonths _ _ _).trans ?_
  refine (readCalendar?_part dates_days hdays _ _ _).trans ?_
  show some (_, _) = _
  congr 2 <;> omega

/-! ## The text -/

/-- A duration that is not zero is written as its calendar part and its clock part. -/
theorem toList_text {d : Duration} (hne : ¬ (d.months.toInt = 0 ∧ d.days.toInt = 0 ∧
    d.seconds.toInt = 0 ∧ d.nanos.toInt = 0)) :
    d.text.toList = 'P' :: (calendarChars d.months.toInt d.days.toInt ++
      (clockText d.seconds.toInt d.nanos.toInt).toList) := by
  have hclock : ∀ seconds nanos, (clockText seconds nanos).isEmpty = true →
      seconds = 0 ∧ nanos = 0 := by
    intro seconds nanos h
    unfold clockText at h
    split at h
    · next hzero => exact hzero
    · simp at h
  unfold text
  dsimp only
  rw [if_neg fun h => hne ⟨h.2.1, h.2.2, hclock _ _ h.1⟩]
  unfold calendarChars
  simp [String.toList_append]

theorem mem_part (unit : Char) {n : Int} {c : Char} (hc : c ∈ (part n unit.toString).toList) :
    (c.isDigit || c == '-') = true ∨ c = unit := by
  by_cases hzero : n = 0
  · rw [part, if_pos hzero] at hc
    cases hc
  · rw [toList_part hzero, Char.toString_eq_singleton, String.toList_singleton,
      List.mem_append] at hc
    exact hc.imp Number.mem_toString_int List.mem_singleton.1

theorem mem_calendarChars {months days : Int} {c : Char} (hc : c ∈ calendarChars months days) :
    (c.isDigit || c == '-') = true ∨ c ∈ ['Y', 'M', 'D'] := by
  have hpart : ∀ (unit : Char) (n : Int), unit ∈ ['Y', 'M', 'D'] →
      c ∈ (part n unit.toString).toList → (c.isDigit || c == '-') = true ∨ c ∈ ['Y', 'M', 'D'] :=
    fun unit n hunit hc => (mem_part unit hc).imp_right fun h : c = unit => h ▸ hunit
  simp only [calendarChars, List.mem_append, List.not_mem_nil, or_false] at hc
  rcases hc with hc | hc | hc
  · exact hpart 'Y' _ (by decide) hc
  · exact hpart 'M' _ (by decide) hc
  · exact hpart 'D' _ (by decide) hc

theorem isBlank_of_isNumeric {c : Char} (hc : (c.isDigit || c == '-' || c == '.') = true) :
    Text.isBlank c = false := by
  rcases Bool.or_eq_true_iff.1 hc with hc | hc
  · rcases Bool.or_eq_true_iff.1 hc with hc | hc
    · exact Text.isBlank_eq_false_of_isDigit hc
    · rw [beq_iff_eq.1 hc]
      rfl
  · rw [beq_iff_eq.1 hc]
    rfl

theorem isBlank_of_mem_part {unit : Char} (hunit : Text.isBlank unit = false) {n : Int} {c : Char}
    (hc : c ∈ (part n unit.toString).toList) : Text.isBlank c = false := by
  rcases mem_part unit hc with h | rfl
  · exact isBlank_of_isNumeric (by rw [h]; rfl)
  · exact hunit

theorem isBlank_of_mem_secondsText {seconds nanos : Int} (hpos : 0 ≤ nanos) {c : Char}
    (hc : c ∈ (secondsText seconds nanos).toList) : Text.isBlank c = false := by
  rcases Int.le_iff_lt_or_eq.1 hpos with hpos | rfl
  · rw [toList_secondsText hpos] at hc
    rcases List.mem_append.1 hc with hc | hc
    · exact isBlank_of_isNumeric (Number.mem_nineChars hc)
    · rw [List.mem_singleton.1 hc]
      rfl
  · rw [secondsText, if_pos rfl] at hc
    exact isBlank_of_mem_part (show Text.isBlank 'S' = false from rfl) hc

theorem isBlank_of_mem_clockText {seconds nanos : Int} (hpos : 0 ≤ nanos) {c : Char}
    (hc : c ∈ (clockText seconds nanos).toList) : Text.isBlank c = false := by
  by_cases hzero : seconds = 0 ∧ nanos = 0
  · rw [clockText, if_pos hzero] at hc
    cases hc
  rw [toList_clockText hzero] at hc
  rcases List.mem_cons.1 hc with rfl | hc
  · rfl
  rcases List.mem_append.1 hc with hc | hc
  · exact isBlank_of_mem_part (show Text.isBlank 'H' = false from rfl) hc
  rcases List.mem_append.1 hc with hc | hc
  · exact isBlank_of_mem_part (show Text.isBlank 'M' = false from rfl) hc
  · exact isBlank_of_mem_secondsText hpos hc

/-! ## The text read back -/

/-- The calendar part ends where the clock part starts. -/
theorem readBody?_calendarChars (months days : Int64) {clock : List Char}
    (hclock : ∀ c ∈ clock.head?, c = 'T') :
    readBody? (calendarChars months.toInt days.toInt ++ clock) = match clock with
      | [] => some (of months.toInt days.toInt 0 0)
      | _ :: clock => (readClock? (Number.nearest false 0 1) [] clock).map
        (ofClock months.toInt days.toInt) := by
  have hcalendar : ∀ c ∈ calendarChars months.toInt days.toInt,
      (!(c == 'T' || c == 't')) = true := by
    intro c hc
    rcases mem_calendarChars hc with h | h
    · have hne : c ≠ 'T' ∧ c ≠ 't' := by
        constructor <;> rintro rfl <;> cases h
      simp [hne.1, hne.2]
    · simp only [List.mem_cons, List.not_mem_nil, or_false] at h
      rcases h with rfl | rfl | rfl <;> rfl
  have htake : (calendarChars months.toInt days.toInt ++ clock).takeWhile
      (fun c => !(c == 'T' || c == 't')) = calendarChars months.toInt days.toInt := by
    rw [List.takeWhile_append_of_pos hcalendar]
    cases clock with
    | nil => exact List.append_nil _
    | cons c clock =>
      rw [hclock c rfl, List.takeWhile_cons_of_neg (by decide), List.append_nil]
  have hdrop : (calendarChars months.toInt days.toInt ++ clock).dropWhile
      (fun c => !(c == 'T' || c == 't')) = clock := by
    rw [List.dropWhile_append_of_pos hcalendar]
    cases clock with
    | nil => rfl
    | cons c clock => rw [hclock c rfl, List.dropWhile_cons_of_neg (by decide)]
  unfold readBody?
  dsimp only
  rw [htake, hdrop, readCalendar?_calendarChars]
  cases clock <;> rfl

/-- The text of a duration is read as its own parts, but for the sign of the nanoseconds: it is that
of the seconds under a minute, behind whose point they stand. -/
theorem read?_text {d : Duration} (hpos : 0 ≤ d.nanos.toInt) (hnanos : d.nanos.toInt < 1000000000)
    (hlimit : d.nanos.toInt = 0 ∧ d.seconds.toInt.natAbs ≤ 2 ^ 53 ∨
      d.seconds.toInt.natAbs < 2 ^ 23) :
    read? d.text = some (of d.months.toInt d.days.toInt d.seconds.toInt
      (if d.seconds.toInt.tmod 60 < 0 then -d.nanos.toInt else d.nanos.toInt)) := by
  by_cases hzero : d.months.toInt = 0 ∧ d.days.toInt = 0 ∧ d.seconds.toInt = 0 ∧ d.nanos.toInt = 0
  · obtain ⟨hmonths, hdays, hseconds, hnanos⟩ := hzero
    have htext : d.text = "PT0S" := by
      unfold text
      rw [hmonths, hdays, hseconds, hnanos]
      rfl
    rw [htext, hmonths, hdays, hseconds, hnanos]
    decide +kernel
  have hblank : ∀ c ∈ d.text.toList, Text.isBlank c = false := by
    rw [toList_text hzero]
    intro c hc
    rcases List.mem_cons.1 hc with rfl | hc
    · rfl
    rcases List.mem_append.1 hc with hc | hc
    · rcases mem_calendarChars hc with h | h
      · exact isBlank_of_isNumeric (by rw [h]; rfl)
      · simp only [List.mem_cons, List.not_mem_nil, or_false] at h
        rcases h with rfl | rfl | rfl <;> rfl
    · exact isBlank_of_mem_clockText hpos hc
  have hbody : read? d.text = readBody? (calendarChars d.months.toInt d.days.toInt ++
      (clockText d.seconds.toInt d.nanos.toInt).toList) := by
    unfold read?
    rw [Text.trimChars_eq_self hblank, toList_text hzero]
    rfl
  rw [hbody]
  by_cases hclock : d.seconds.toInt = 0 ∧ d.nanos.toInt = 0
  · have hempty : (clockText d.seconds.toInt d.nanos.toInt).toList = [] := by
      rw [clockText, if_pos hclock]
      rfl
    have hnone : ∀ c ∈ ([] : List Char).head?, c = 'T' := fun c hc => by cases hc
    rw [hempty, readBody?_calendarChars _ _ hnone, hclock.1, hclock.2]
    rfl
  · obtain ⟨body, clock, htext, hread, hof⟩ :=
      readClock?_clockText hpos hnanos hclock hlimit d.months.toInt d.days.toInt
    have hmark : ∀ c ∈ ('T' :: body).head?, c = 'T' := fun c hc => (Option.some.inj hc).symm
    rw [htext, readBody?_calendarChars _ _ hmark]
    dsimp only
    rw [hread, Option.map_some, hof]

/-- Nanoseconds that are counted backwards give another duration. -/
theorem of_neg_ne {d : Duration} (hpos : 0 < d.nanos.toInt) (hnanos : d.nanos.toInt < 1000000000)
    (hseconds : d.seconds.toInt.natAbs ≤ 2 ^ 53) :
    of d.months.toInt d.days.toInt d.seconds.toInt (-d.nanos.toInt) ≠ d := by
  intro heq
  have hone : (d.seconds.toInt * 1000000000 + -d.nanos.toInt) / 1000000000 =
      d.seconds.toInt - 1 := by
    omega
  rw [of_eq, hone] at heq
  have hseconds' : (Int64.ofInt (d.seconds.toInt - 1)).toInt = d.seconds.toInt :=
    congrArg (fun d : Duration => d.seconds.toInt) heq
  rw [Int64.toInt_ofInt_of_le (by omega) (by omega)] at hseconds'
  omega

/-- A duration within the reach of doubles is read back from its text unless its seconds are
negative and no whole minutes and it has nanoseconds; those are then read with the sign of the
seconds. -/
theorem text_read_back (months days seconds nanos : Int) :
    let d : Duration := of months days seconds nanos
    d.nanos.toInt = 0 ∧ d.seconds.toInt.natAbs ≤ 2 ^ 53 ∨ d.seconds.toInt.natAbs < 2 ^ 23 →
    (read? d.text = some d ↔ 0 ≤ d.seconds.toInt ∨ d.nanos.toInt = 0 ∨ 60 ∣ d.seconds.toInt) ∧
      (read? d.text ≠ some d →
        read? d.text =
          some (of d.months.toInt d.days.toInt d.seconds.toInt (-d.nanos.toInt))) := by
  intro d hlimit
  obtain ⟨hpos, hnanos⟩ := nanos_of months days seconds nanos
  change 0 ≤ d.nanos.toInt at hpos
  change d.nanos.toInt < 1000000000 at hnanos
  have hself := of_toInt hpos hnanos
  rw [read?_text hpos hnanos hlimit]
  by_cases hneg : d.seconds.toInt.tmod 60 < 0
  · have hbelow : d.seconds.toInt < 0 := by
      by_contra hge
      exact absurd (Int.tmod_nonneg 60 (Int.not_lt.1 hge)) (Int.not_le.2 hneg)
    have hdvd : ¬ 60 ∣ d.seconds.toInt := fun h => by
      rw [Int.tmod_eq_zero_of_dvd h] at hneg
      exact absurd hneg (by decide)
    rw [if_pos hneg]
    refine ⟨⟨fun heq => ?_, fun h => ?_⟩, fun _ => rfl⟩
    · by_contra hnot
      exact of_neg_ne (by omega) hnanos (by omega) (Option.some.inj heq)
    · have hzero : d.nanos.toInt = 0 := by omega
      rw [hzero, Int.neg_zero, ← hzero, hself]
  · rw [if_neg hneg, hself]
    refine ⟨iff_of_true rfl ?_, fun h => absurd rfl h⟩
    by_cases hge : 0 ≤ d.seconds.toInt
    · exact .inl hge
    · have hzero : d.seconds.toInt.tmod 60 = 0 := by
        obtain ⟨n, hn⟩ : ∃ n, d.seconds.toInt = -n := ⟨_, (Int.neg_neg _).symm⟩
        rw [hn, Int.neg_tmod] at hneg ⊢
        have := Int.tmod_nonneg 60 (show 0 ≤ n by omega)
        omega
      exact .inr (.inr (Int.dvd_of_tmod_eq_zero hzero))

/-- A duration with hours, minutes and half a second. -/
theorem half_second_read_back :
    read? (of 14 3 3661 500000000).text = some (of 14 3 3661 500000000) :=
  (text_read_back 14 3 3661 500000000 (by decide)).1.2 (by decide)

/-- Half a second backwards is read as one and a half. -/
theorem half_second_backwards_misread :
    (of 0 0 0 (-500000000)).text = "PT-1.5S" ∧
      read? (of 0 0 0 (-500000000)).text = some (of 0 0 (-2) 500000000) ∧
      of 0 0 (-2) 500000000 ≠ of 0 0 0 (-500000000) := by
  decide +kernel

example : read? (of 0 0 1000000000 1).text = some (of 0 0 1000000000 0) := by decide +kernel

end Duration

end PropertyGraph
