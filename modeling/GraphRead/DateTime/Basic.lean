import GraphRead.Power
/-!
Date-times with an offset: a reading of calendar and clock, and the instant it names.

A date-time keeps the reading it was written with. Two readings with different offsets can name
one instant; comparison looks at the instant, with nanoseconds. Within a leap second the
nanoseconds go on counting, so it lies between the second that it follows and the next one.
-/

namespace GraphRead

/-- The fields of a date-time as the clock on the spot shows them: a date of the Gregorian calendar,
which is continued to all years, the time of day, the nanoseconds since the last second that is not
a leap second, and the seconds by which the clock is ahead of universal time. -/
structure DateTime.Fields where
  year : Int
  month : Nat
  day : Nat
  hour : Nat
  minute : Nat
  second : Nat
  nano : Nat
  offset : Int
  deriving DecidableEq, Repr

namespace DateTime

/-- Whether a year has a 29 February. -/
def isLeap (year : Int) : Bool := year % 4 = 0 && (year % 100 ≠ 0 || year % 400 = 0)

/-- The number of days of a month. -/
def daysIn (year : Int) (month : Nat) : Nat :=
  if month = 2 then (if isLeap year then 29 else 28)
  else if month = 4 ∨ month = 6 ∨ month = 9 ∨ month = 11 then 30
  else 31

/-- The fields name a day of the calendar, a time of day and an offset of less than a day. A leap
second may follow any second: if the offset is no whole number of minutes, the clock on the spot
does not show it at the end of a minute. -/
def Fields.Valid (f : Fields) : Prop :=
  (1 ≤ f.month ∧ f.month ≤ 12) ∧ (1 ≤ f.day ∧ f.day ≤ daysIn f.year f.month) ∧
    f.hour < 24 ∧ f.minute < 60 ∧ f.second < 60 ∧ f.nano < 2 * pow10 9 ∧
    (-86400 < f.offset ∧ f.offset < 86400)

instance (f : Fields) : Decidable f.Valid := by unfold Fields.Valid; infer_instance

end DateTime

/-- A date-time: fields that are valid. -/
structure DateTime where
  fields : DateTime.Fields
  valid : fields.Valid
  deriving DecidableEq, Repr

namespace DateTime

/-- The date-time of some fields, if they are valid. -/
def ofFields? (fields : Fields) : Option DateTime :=
  if valid : fields.Valid then some ⟨fields, valid⟩ else none

/-- The number of days from the first day of the year zero to the first day of a year, which is
negative for the years before. -/
def daysBeforeYear (year : Int) : Int :=
  365 * year + (year + 3) / 4 - (year + 99) / 100 + (year + 399) / 400

/-- The number of days of the months before a month. -/
def daysBeforeMonth (year : Int) (month : Nat) : Nat :=
  (List.range (month - 1)).foldl (fun days m => days + daysIn year (m + 1)) 0

/-- The second that an instant lies in, counted in universal time. A leap second counts with the
second before it. -/
def seconds (t : DateTime) : Int :=
  let f := t.fields
  let days := daysBeforeYear f.year + (daysBeforeMonth f.year f.month + (f.day - 1) : Nat)
  ((days * 24 + f.hour) * 60 + f.minute) * 60 + f.second - f.offset

/-- The nanoseconds since the start of that second; a leap second goes on counting. -/
def nanos (t : DateTime) : Nat := t.fields.nano

/-- The order of the instants. -/
def compare (left right : DateTime) : Ordering :=
  (Ord.compare left.seconds right.seconds).then (Ord.compare left.nanos right.nanos)

/-- Whether two date-times name one instant. -/
def same (left right : DateTime) : Bool :=
  left.seconds == right.seconds && left.nanos == right.nanos

end DateTime

end GraphRead
