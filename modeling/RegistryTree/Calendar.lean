import RegistryTree.Text.Digit

/-!
# Dates and times of day

Dates of the Gregorian calendar in the years 1 to 9999, and moments: a date with a time of day, to
the microsecond, and with the offset from universal time if that is known. Impossible dates and
times are refused, the first impossible field from the year down to the second being the one that
is named.
-/

namespace RegistryTree

/-- A day of the Gregorian calendar. -/
structure Date where
  year : Nat
  month : Nat
  day : Nat
  deriving DecidableEq, Repr

/-- A day and a time of day; the offset from universal time is in seconds. -/
structure Moment where
  date : Date
  hour : Nat
  minute : Nat
  second : Nat
  microsecond : Nat
  offset : Option Int
  deriving DecidableEq, Repr

/-- Why there is no such day or time. -/
inductive CalendarFault where
  | year (value : Nat)
  | month
  | day
  | hour
  | minute
  | second
  /-- The offset, in seconds, reaches a whole day. -/
  | offset (seconds : Int)
  deriving DecidableEq, Repr

/-- Whether a year has a twenty-ninth of February. -/
def isLeapYear (year : Nat) : Bool :=
  year % 4 = 0 && (year % 100 ≠ 0 || year % 400 = 0)

/-- The number of days of a month. -/
def daysInMonth (year month : Nat) : Nat :=
  if month = 2 then (if isLeapYear year then 29 else 28)
  else if month = 4 ∨ month = 6 ∨ month = 9 ∨ month = 11 then 30
  else 31

/-- A length of time as days and the seconds of the day, with the days rounded down. -/
def daysAndSeconds (seconds : Int) : String :=
  let days := seconds.fdiv 86400
  let rest := seconds.fmod 86400
  if rest = 0 then "days=" ++ toString days
  else if days = 0 then "seconds=" ++ toString rest
  else "days=" ++ toString days ++ ", seconds=" ++ toString rest

/-- The words a fault is reported with. -/
def CalendarFault.message : CalendarFault → String
  | .year value => "year " ++ toString value ++ " is out of range"
  | .month => "month must be in 1..12"
  | .day => "day is out of range for month"
  | .hour => "hour must be in 0..23"
  | .minute => "minute must be in 0..59"
  | .second => "second must be in 0..59"
  | .offset seconds =>
    "offset must be a timedelta strictly between -timedelta(hours=24) and timedelta(hours=24), " ++
      "not datetime.timedelta(" ++ daysAndSeconds seconds ++ ")."

/-- The day with the given parts, if there is one. -/
def Date.ofParts (year month day : Nat) : Except CalendarFault Date :=
  if year < 1 ∨ 9999 < year then .error (.year year)
  else if month < 1 ∨ 12 < month then .error .month
  else if day < 1 ∨ daysInMonth year month < day then .error .day
  else .ok ⟨year, month, day⟩

/-- The offset of so many seconds; it stays short of a day in either direction. -/
def checkOffset (offset : Option Int) : Except CalendarFault Unit :=
  match offset with
  | some s => if -86400 < s ∧ s < 86400 then .ok () else .error (.offset s)
  | none => .ok ()

/-- The moment with the given parts, if there is one. -/
def Moment.ofParts (year month day hour minute second microsecond : Nat) (offset : Option Int) :
    Except CalendarFault Moment := do
  checkOffset offset
  let date ← Date.ofParts year month day
  if 23 < hour then .error .hour
  else if 59 < minute then .error .minute
  else if 59 < second then .error .second
  else .ok ⟨date, hour, minute, second, microsecond, offset⟩

/-- A number with zeros in front of it up to the given width. -/
def padded (width n : Nat) : List Char :=
  let ds := Nat.toDigits 10 n
  List.replicate (width - ds.length) '0' ++ ds

/-- The text of a day. -/
def Date.toText (d : Date) : List Char :=
  padded 4 d.year ++ '-' :: padded 2 d.month ++ '-' :: padded 2 d.day

/-- The text of an offset from universal time; its seconds are left out when there are none. -/
def offsetText (seconds : Int) : List Char :=
  let n := seconds.natAbs
  let seconds' := if n % 60 = 0 then [] else ':' :: padded 2 (n % 60)
  (if seconds < 0 then '-' else '+') :: padded 2 (n / 3600) ++ ':' :: padded 2 (n / 60 % 60) ++
    seconds'

/-- The text of a moment, with the given character between the day and the time. The fraction is
left out when it is zero. -/
def Moment.toText (separator : Char) (t : Moment) : List Char :=
  t.date.toText ++ separator :: padded 2 t.hour ++ ':' :: padded 2 t.minute ++ ':' ::
    padded 2 t.second ++
    (if t.microsecond = 0 then [] else '.' :: padded 6 t.microsecond) ++
    (match t.offset with | some s => offsetText s | none => [])

/-- The number of days before a day, counted from a fixed day long ago. -/
def Date.ordinal (d : Date) : Nat :=
  let y := d.year - 1
  let before := (List.range (d.month - 1)).foldl (fun n m => n + daysInMonth d.year (m + 1)) 0
  y * 365 + y / 4 - y / 100 + y / 400 + before + d.day

/-- The microseconds from a fixed moment to this one, by its own clock or, where the offset is
known, by universal time. -/
def Moment.instant (t : Moment) : Int :=
  let seconds : Int := ((t.date.ordinal * 24 + t.hour) * 60 + t.minute : Nat) * 60 + t.second
  (seconds - t.offset.getD 0) * 1000000 + t.microsecond

end RegistryTree
