/-!
# Dates

The civil calendar over the whole range of years: seconds since the beginning of 1970 against years,
months and days.  There are no leap seconds and no time zones here.
-/

namespace LuaHost

structure Date where
  year : Int
  /-- From 1 to 12. -/
  month : Nat
  /-- From 1 to 31. -/
  day : Nat
  hour : Nat
  minute : Nat
  second : Nat
  /-- Days since Sunday. -/
  weekday : Nat
  /-- Days since the first of January. -/
  yearday : Nat
deriving DecidableEq, Inhabited

namespace Date

/-- The days from 1970 to a date; the month may lie outside its range, which moves the year. -/
def dayNumber (year month day : Int) : Int :=
  let year := year + (month - 1) / 12
  let month := (month - 1) % 12 + 1
  let y := if month ≤ 2 then year - 1 else year
  let era := y / 400
  let yearOfEra := y % 400
  let shifted := (month + 9) % 12
  let dayOfYear := (153 * shifted + 2) / 5 + day - 1
  era * 146097 + yearOfEra * 365 + yearOfEra / 4 - yearOfEra / 100 + dayOfYear - 719468

/-- The date of a day, by its number: year, month and day. -/
def ofDayNumber (n : Int) : Int × Nat × Nat :=
  let z := n + 719468
  let era := z / 146097
  let dayOfEra := z % 146097
  let yearOfEra :=
    (dayOfEra - dayOfEra / 1460 + dayOfEra / 36524 - dayOfEra / 146096) / 365
  let dayOfYear := dayOfEra - (365 * yearOfEra + yearOfEra / 4 - yearOfEra / 100)
  let shifted := (5 * dayOfYear + 2) / 153
  let day := dayOfYear - (153 * shifted + 2) / 5 + 1
  let month := if shifted < 10 then shifted + 3 else shifted - 9
  let year := yearOfEra + era * 400 + (if month ≤ 2 then 1 else 0)
  (year, month.toNat, day.toNat)

/-- The seconds since 1970 of a date whose parts may lie outside their ranges. -/
def seconds (year month day hour minute second : Int) : Int :=
  dayNumber year month day * 86400 + hour * 3600 + minute * 60 + second

/-- The date at a number of seconds since 1970. -/
def ofSeconds (s : Int) : Date :=
  let days := s / 86400
  let rest := (s % 86400).toNat
  let (year, month, day) := ofDayNumber days
  { year, month, day
    hour := rest / 3600
    minute := rest / 60 % 60
    second := rest % 60
    weekday := ((days + 4) % 7).toNat
    yearday := (days - dayNumber year 1 1).toNat }

/-! ## Names and week numbers -/

def weekdays : List String :=
  ["Sunday", "Monday", "Tuesday", "Wednesday", "Thursday", "Friday", "Saturday"]

def months : List String :=
  ["January", "February", "March", "April", "May", "June", "July", "August", "September",
    "October", "November", "December"]

/-- The first three letters of a name. -/
def short (s : String) : String := String.ofList (s.toList.take 3)

/-- The week of the year, when weeks begin on a given weekday. -/
def week (d : Date) (first : Nat) : Nat := (d.yearday + 7 - (d.weekday + 7 - first) % 7) / 7

def isLeap (y : Int) : Bool := y % 4 == 0 && (y % 100 != 0 || y % 400 == 0)

/-- How many weeks that begin on Monday a year has, by the rule that a week belongs to the year of
its Thursday. -/
def weeksOf (y : Int) : Int :=
  let first := (ofSeconds (seconds y 1 1 0 0 0)).weekday
  if first == 4 || (first == 3 && isLeap y) then 53 else 52

/-- The year and week that a date belongs to by its Thursday. -/
def weekYear (d : Date) : Int × Int :=
  let w := ((d.yearday : Int) + 1 - ((d.weekday + 6) % 7 + 1 : Nat) + 10) / 7
  if w < 1 then (d.year - 1, weeksOf (d.year - 1))
  else if w > weeksOf d.year then (d.year + 1, 1)
  else (d.year, w)

/-! ## Formatting -/

def pad (width : Nat) (fill : Char) (n : Int) : String :=
  let s := toString n
  "".pushn fill (width - s.length) ++ s

def time (d : Date) : String :=
  pad 2 '0' d.hour ++ ":" ++ pad 2 '0' d.minute ++ ":" ++ pad 2 '0' d.second

def monthDayYear (d : Date) : String :=
  pad 2 '0' d.month ++ "/" ++ pad 2 '0' d.day ++ "/" ++ pad 2 '0' (d.year % 100)

def hour12 (d : Date) : Nat := if d.hour % 12 == 0 then 12 else d.hour % 12

/-- The text of a date under a conversion letter. -/
def field (d : Date) (c : Char) : Option String :=
  let weekday := weekdays.getD d.weekday ""
  let month := months.getD (d.month - 1) ""
  match c with
  | 'a' => some (short weekday)
  | 'A' => some weekday
  | 'b' | 'h' => some (short month)
  | 'B' => some month
  | 'c' => some (short weekday ++ " " ++ short month ++ " " ++ pad 2 ' ' d.day ++ " " ++ d.time
      ++ " " ++ toString d.year)
  | 'C' => some (pad 2 '0' (d.year / 100))
  | 'd' => some (pad 2 '0' d.day)
  | 'D' | 'x' => some d.monthDayYear
  | 'e' => some (pad 2 ' ' d.day)
  | 'F' => some (toString d.year ++ "-" ++ pad 2 '0' d.month ++ "-" ++ pad 2 '0' d.day)
  | 'g' => some (pad 2 '0' (d.weekYear.1 % 100))
  | 'G' => some (toString d.weekYear.1)
  | 'H' => some (pad 2 '0' d.hour)
  | 'I' => some (pad 2 '0' d.hour12)
  | 'j' => some (pad 3 '0' (d.yearday + 1 : Nat))
  | 'm' => some (pad 2 '0' d.month)
  | 'M' => some (pad 2 '0' d.minute)
  | 'n' => some "\n"
  | 'p' => some (if d.hour < 12 then "AM" else "PM")
  | 'r' => some (pad 2 '0' d.hour12 ++ ":" ++ pad 2 '0' d.minute ++ ":" ++ pad 2 '0' d.second
      ++ (if d.hour < 12 then " AM" else " PM"))
  | 'R' => some (pad 2 '0' d.hour ++ ":" ++ pad 2 '0' d.minute)
  | 's' => some (toString (seconds d.year d.month d.day d.hour d.minute d.second))
  | 'S' => some (pad 2 '0' d.second)
  | 't' => some "\t"
  | 'T' | 'X' => some d.time
  | 'u' => some (toString (if d.weekday == 0 then 7 else d.weekday))
  | 'U' => some (pad 2 '0' (d.week 0))
  | 'V' => some (pad 2 '0' d.weekYear.2)
  | 'w' => some (toString d.weekday)
  | 'W' => some (pad 2 '0' (d.week 1))
  | 'y' => some (pad 2 '0' (d.year % 100))
  | 'Y' => some (toString d.year)
  | 'z' => some "+0000"
  | 'Z' => some "GMT"
  | '%' => some "%"
  | _ => none

end Date

end LuaHost
