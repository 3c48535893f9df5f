import PropertyGraph.Calendar.Date

/-!
# Durations

A duration keeps months, days and clock time apart, because the length of the first two depends on
the date they are added to.  `Duration.of` brings the nanoseconds into the range from 0 to a
second.  A duration is written and read in the ISO 8601 form, as in `P1Y2M10DT2H30M15.5S`.
-/

namespace PropertyGraph

/-- A span of calendar and clock time. -/
structure Duration where
  months : Int64
  days : Int64
  seconds : Int64
  nanos : Int32
deriving DecidableEq

namespace Duration

/-- The duration with these parts, whole seconds carried out of the nanoseconds. -/
def of (months days seconds nanos : Int) : Duration :=
  let carried := seconds + nanos.tdiv 1000000000
  let rest := nanos.tmod 1000000000
  let (seconds, nanos) := if rest < 0 then (carried - 1, rest + 1000000000) else (carried, rest)
  ⟨.ofInt months, .ofInt days, .ofInt seconds, .ofInt nanos⟩

/-- No time at all. -/
def zero : Duration := ⟨0, 0, 0, 0⟩

/-- The sum, part by part. -/
def add (a b : Duration) : Duration :=
  of (a.months.toInt + b.months.toInt) (a.days.toInt + b.days.toInt)
    (a.seconds.toInt + b.seconds.toInt) (a.nanos.toInt + b.nanos.toInt)

/-- The same span backwards. -/
def negate (d : Duration) : Duration :=
  of (-d.months.toInt) (-d.days.toInt) (-d.seconds.toInt) (-d.nanos.toInt)

/-- Length in seconds with months of average length; it serves to compare durations. -/
def approxSeconds (d : Duration) : Double :=
  Double.ofInt64 d.months * 2629746.0 + Double.ofInt64 d.days * 86400.0 +
    Double.ofInt64 d.seconds + Double.ofInt64 d.nanos.toInt64 / 1e9

/-- The date shifted by the months, then by the days and the whole days of the clock time. -/
def addToDate? (d : Duration) (date : Date) : Option Date :=
  (date.shiftMonths? d.months.toInt).bind fun shifted =>
    shifted.shiftDays? (d.days.toInt + d.seconds.toInt.fdiv 86400)

/-! ## Text -/

/-- A number and its unit, or nothing for zero. -/
def part (n : Int) (unit : String) : String :=
  if n = 0 then "" else toString n ++ unit

/-- Nine digits of a fraction, a minus sign counting as one of them. -/
def nineDigits (n : Int) : String :=
  if n < 0 then "-" ++ Date.padded 8 n.natAbs else Date.padded 9 n.natAbs

/-- Seconds with their fraction. -/
def secondsText (seconds nanos : Int) : String :=
  if nanos = 0 then part seconds "S"
  else
    let fraction := ((nineDigits nanos).toList.reverse.dropWhile (· == '0')).reverse
    toString seconds ++ "." ++ String.ofList fraction ++ "S"

/-- The clock part after `T`, absent when it is zero. -/
def clockText (seconds nanos : Int) : String :=
  if seconds = 0 ∧ nanos = 0 then ""
  else
    "T" ++ part (seconds.tdiv 3600) "H" ++ part ((seconds.tmod 3600).tdiv 60) "M" ++
      secondsText (seconds.tmod 60) nanos

/-- The ISO 8601 text; the empty duration is `PT0S`. -/
def text (d : Duration) : String :=
  let months := d.months.toInt
  let days := d.days.toInt
  let clock := clockText d.seconds.toInt d.nanos.toInt
  if clock.isEmpty ∧ months = 0 ∧ days = 0 then "PT0S"
  else
    "P" ++ part (months.tdiv 12) "Y" ++ part (months.tmod 12) "M" ++ part days "D" ++ clock

/-! ## Reading -/

/-- The calendar part: months and days read so far, and the digits of the number under way,
backwards. -/
def readCalendar? (months days : Int) (number : List Char) : List Char → Option (Int × Int)
  | [] => if number.isEmpty then some (months, days) else none
  | c :: rest =>
    if c.isDigit || c == '-' then readCalendar? months days (c :: number) rest
    else
      let n? := (Number.readInt? number.reverse).filter Number.fitsInt64
      match c.toLower, n? with
      | 'y', some n => readCalendar? (months + n * 12) days [] rest
      | 'm', some n => readCalendar? (months + n) days [] rest
      | 'w', some n => readCalendar? months (days + n * 7) [] rest
      | 'd', some n => readCalendar? months (days + n) [] rest
      | _, _ => none

/-- The clock part: the seconds so far, and the characters of the number under way, backwards. -/
def readClock? (seconds : Double) (number : List Char) : List Char → Option Double
  | [] => if number.isEmpty then some seconds else none
  | c :: rest =>
    if c.isDigit || c == '-' || c == '.' then readClock? seconds (c :: number) rest
    else
      match c.toLower, Number.readDouble? (String.ofList number.reverse) with
      | 'h', some x => readClock? (Number.plus seconds (Number.times x 3600)) [] rest
      | 'm', some x => readClock? (Number.plus seconds (Number.times x 60)) [] rest
      | 's', some x => readClock? (Number.plus seconds x) [] rest
      | _, _ => none

/-- The duration of a calendar part and the seconds of a clock part, whose fraction is rounded to
nanoseconds. -/
def ofClock (months days : Int) (clock : Double) : Duration :=
  let whole := Number.parts clock
  let nanos := Number.parts (Number.times (Number.fraction clock) 1000000000)
  of months days
    (whole.clamp Int64.minValue.toInt Int64.maxValue.toInt whole.wholeMagnitude)
    (nanos.clamp Int32.minValue.toInt Int32.maxValue.toInt nanos.roundedMagnitude)

/-- The duration after the leading `P`. -/
def readBody? (cs : List Char) : Option Duration := do
  let isMark := fun c => c == 'T' || c == 't'
  let (months, days) ← readCalendar? 0 0 [] (cs.takeWhile fun c => !isMark c)
  match cs.dropWhile fun c => !isMark c with
  | [] => some (of months days 0 0)
  | _ :: clock => (readClock? (Number.nearest false 0 1) [] clock).map (ofClock months days)

/-- Reads an ISO 8601 duration; a leading minus sign negates the whole. -/
def read? (s : String) : Option Duration :=
  let unsigned := fun
    | 'P' :: body | 'p' :: body => readBody? body
    | _ => none
  match Text.trimChars s.toList with
  | '-' :: cs => (unsigned cs).map negate
  | cs => unsigned cs

end Duration

end PropertyGraph
