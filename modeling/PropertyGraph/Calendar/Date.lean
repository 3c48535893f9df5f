import PropertyGraph.Number.Reader
import PropertyGraph.Number.Written
import PropertyGraph.Text.Basic

/-!
# Dates

Days of the proleptic Gregorian calendar from -262143-01-01 to 262142-12-31.  A date is written as
`2024-02-29`; a year outside 0 to 9999 carries a sign.  `shiftMonths?` keeps the day of the month
where the new month has it and takes the month's last day otherwise.
-/

namespace PropertyGraph

/-! ## The calendar -/

/-- Years divisible by 4, except full centuries not divisible by 400. -/
def isLeapYear (year : Int) : Bool :=
  year % 4 == 0 && (year % 100 != 0 || year % 400 == 0)

/-- The number of days of a month; 0 for a number that names no month. -/
def daysInMonth (year : Int) (month : Nat) : Nat :=
  match month with
  | 1 | 3 | 5 | 7 | 8 | 10 | 12 => 31
  | 4 | 6 | 9 | 11 => 30
  | 2 => if isLeapYear year then 29 else 28
  | _ => 0

/-- Is there such a day, in a year within range? -/
def isCivil (year : Int) (month day : Nat) : Bool :=
  -262143 ≤ year && year ≤ 262142 && 1 ≤ day && day ≤ daysInMonth year month

/-- A day of the calendar. -/
structure Date where
  year : Int
  month : Nat
  day : Nat
  valid : isCivil year month day = true
deriving DecidableEq

namespace Date

/-- The day with these parts, if there is one. -/
def ofParts? (year : Int) (month day : Nat) : Option Date :=
  if h : isCivil year month day = true then some ⟨year, month, day, h⟩ else none

/-- Earlier dates are less. -/
def compare (a b : Date) : Ordering :=
  (Ord.compare a.year b.year).then ((Ord.compare a.month b.month).then (Ord.compare a.day b.day))

/-! ## Counting days -/

/-- Days since the first of March of the year 0. -/
def dayNumber (d : Date) : Int :=
  let year := if d.month ≤ 2 then d.year - 1 else d.year
  let era := year.fdiv 400
  let yearOfEra := year - era * 400
  let dayOfYear := (153 * ((d.month + 9) % 12) + 2) / 5 + d.day - 1
  era * 146097 + yearOfEra * 365 + yearOfEra / 4 - yearOfEra / 100 + (dayOfYear : Int)

/-- The date that lies this many days after the first of March of the year 0, if in range. -/
def ofDayNumber? (n : Int) : Option Date :=
  let era := n.fdiv 146097
  let dayOfEra := n - era * 146097
  let yearOfEra := (dayOfEra - dayOfEra / 1460 + dayOfEra / 36524 - dayOfEra / 146096) / 365
  let dayOfYear := dayOfEra - (365 * yearOfEra + yearOfEra / 4 - yearOfEra / 100)
  let shifted := (5 * dayOfYear + 2) / 153
  let day := dayOfYear - (153 * shifted + 2) / 5 + 1
  let month := if shifted < 10 then shifted + 3 else shifted - 9
  let year := yearOfEra + era * 400 + if month ≤ 2 then 1 else 0
  ofParts? year month.toNat day.toNat

/-- The date so many days later, if in range. -/
def shiftDays? (d : Date) (days : Int) : Option Date :=
  ofDayNumber? (d.dayNumber + days)

/-- The same day so many months later, or the last day of that month; none out of range. -/
def shiftMonths? (d : Date) (months : Int) : Option Date :=
  let count := d.year * 12 + (d.month : Int) - 1 + months
  let year := count.fdiv 12
  let month := (count.fmod 12).toNat + 1
  ofParts? year month (min d.day (daysInMonth year month))

/-! ## Text -/

/-- Decimal digits with zeros in front up to a width. -/
def padded (width : Nat) (n : Nat) : String :=
  let text := toString n
  Number.zeros (width - text.length) ++ text

/-- The year with four digits, and with a sign outside 0 to 9999. -/
def yearText (year : Int) : String :=
  if 0 ≤ year ∧ year ≤ 9999 then padded 4 year.toNat
  else (if year < 0 then "-" else "+") ++ padded 4 year.natAbs

/-- Year, month and day, as in `2024-02-29`. -/
def text (d : Date) : String :=
  yearText d.year ++ "-" ++ padded 2 d.month ++ "-" ++ padded 2 d.day

/-- At least one and at most `most` digits, and what follows them. -/
def readDigits? (most : Nat) (cs : List Char) : Option (Nat × List Char) :=
  let digits := (cs.take most).takeWhile Char.isDigit
  if digits.isEmpty then none else some (Number.ofDigits digits, cs.drop digits.length)

/-- A year: a sign and any number of digits, or up to four digits. -/
def readYear? : List Char → Option (Int × List Char)
  | '-' :: cs => (readDigits? cs.length cs).map fun (n, rest) => (-(n : Int), rest)
  | '+' :: cs => (readDigits? cs.length cs).map fun (n, rest) => ((n : Int), rest)
  | cs => (readDigits? 4 cs).map fun (n, rest) => ((n : Int), rest)

/-- The text after a dash; `spaced` allows blanks before it. -/
def readDash? (spaced : Bool) (cs : List Char) : Option (List Char) :=
  match if spaced then cs.dropWhile Text.isBlank else cs with
  | '-' :: rest => some rest
  | _ => none

/-- Reads a date; blanks may precede each number, and with `spaced` also each dash and the end. -/
def readChars? (spaced : Bool) (cs : List Char) : Option Date := do
  let (year, cs) ← readYear? (cs.dropWhile Text.isBlank)
  let cs ← readDash? spaced cs
  let (month, cs) ← readDigits? 2 (cs.dropWhile Text.isBlank)
  let cs ← readDash? spaced cs
  let (day, cs) ← readDigits? 2 (cs.dropWhile Text.isBlank)
  if (if spaced then cs.dropWhile Text.isBlank else cs).isEmpty then ofParts? year month day
  else none

/-- The date that a user wrote, with blanks around it dropped. -/
def read? (s : String) : Option Date :=
  readChars? false (Text.trimChars s.toList)

/-- The date of a stored text. -/
def readStored? (s : String) : Option Date :=
  readChars? true s.toList

end Date

end PropertyGraph
