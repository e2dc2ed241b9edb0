import GraphRead.DateTime.Basic
import GraphRead.Text.Digits
import GraphRead.Text.Reader
/-!
The text of a date-time, in the internet profile of the calendar format: date, `T`, time, fraction
and offset.

Writing always gives three places of the fraction, the rest cut off, an offset in minutes, rounded
to the nearest, and `Z` for an offset of zero. A leap second is written as the second after the one
that it follows, and so as the sixtieth where it ends its minute. Years of more than four digits,
and those before the year zero, are written with a sign.

Reading wants a year of four digits. It also takes a lower-case `t` or a space between date and
time, a lower-case `z`, the minus sign U+2212 before an offset, and any number of places, of which
nine count.
-/

namespace GraphRead.DateTime

/-! ### Writing -/

/-- A year: four digits, and a sign where these do not suffice. -/
def yearText (year : Int) : List Char :=
  if 0 ≤ year ∧ year < 10000 then Digits.padded 4 year.natAbs
  else (if year < 0 then '-' else '+') :: Digits.padded 4 year.natAbs

/-- The whole minutes that are nearest to an offset, whatever its sign; halves are rounded up. -/
def offsetMinutes (offset : Int) : Nat := (offset.natAbs + 30) / 60

/-- An offset: `Z` for zero, else sign, hours and minutes. -/
def offsetText (offset : Int) : List Char :=
  if offset = 0 then ['Z']
  else
    (if offset < 0 then '-' else '+') :: (Digits.padded 2 (offsetMinutes offset / 60) ++
      ':' :: Digits.padded 2 (offsetMinutes offset % 60))

/-- The seconds and nanoseconds that the clock shows: a leap second is shown as a second. -/
def Fields.clock (f : Fields) : Nat × Nat :=
  if f.nano < pow10 9 then (f.second, f.nano) else (f.second + 1, f.nano - pow10 9)

/-- A date-time in its written offset, to the millisecond. -/
def text (t : DateTime) : List Char :=
  let f := t.fields
  yearText f.year ++ '-' :: (Digits.padded 2 f.month ++ '-' :: (Digits.padded 2 f.day ++
    'T' :: (Digits.padded 2 f.hour ++ ':' :: (Digits.padded 2 f.minute ++
    ':' :: (Digits.padded 2 f.clock.1 ++ '.' :: (Digits.padded 3 (f.clock.2 / pow10 6) ++
    offsetText f.offset))))))

/-! ### Reading -/

/-- Reads a number of exactly so many digits. -/
def number (width : Nat) : Reader Char Nat := fun input =>
  let digits := input.take width
  if digits.length = width ∧ digits.all Digits.isDigit then
    some (Digits.value digits, input.drop width)
  else none

/-- Reads a fraction of a second behind its point, in nanoseconds: at least one digit, and only
the first nine count. Without a point the fraction is zero. -/
def fraction : Reader Char Nat
  | '.' :: rest =>
    let run := rest.takeWhile Digits.isDigit
    let counted := run.take 9
    if run.isEmpty then none
    else some (Digits.value counted * pow10 (9 - counted.length), rest.dropWhile Digits.isDigit)
  | input => some (0, input)

/-- Reads the sign of an offset: whether it is negative. -/
def offsetSign : Reader Char Bool :=
  Reader.token fun c =>
    if c = '+' then some false else if c = '-' ∨ c = '\u2212' then some true else none

/-- Reads an offset in hours and minutes. -/
def offset : Reader Char Int
  | 'Z' :: rest => some (0, rest)
  | 'z' :: rest => some (0, rest)
  | input => (do
      let negative ← offsetSign
      let hours ← number 2
      Reader.word [':']
      let minutes ← number 2
      if minutes < 60 then
        let total : Int := (hours * 60 + minutes) * 60
        return if negative then -total else total
      else Reader.refuse : Reader Char Int) input

/-- The second and the nanoseconds of what a clock shows: the sixtieth second of a minute is a leap
second. -/
def ofClock (second nano : Nat) : Nat × Nat :=
  if second = 60 then (59, nano + pow10 9) else (second, nano)

/-- Reads the fields of a date-time. -/
def fieldsReader : Reader Char Fields := do
  let year ← number 4
  Reader.word ['-']
  let month ← number 2
  Reader.word ['-']
  let day ← number 2
  let _ ← Reader.satisfy fun c => c = 'T' || c = 't' || c = ' '
  let hour ← number 2
  Reader.word [':']
  let minute ← number 2
  Reader.word [':']
  let second ← number 2
  let nano ← fraction
  let offset ← offset
  let shown := ofClock second nano
  return ⟨year, month, day, hour, minute, shown.1, shown.2, offset⟩

/-- Reads a date-time. -/
def read (text : List Char) : Option DateTime := do ofFields? (← fieldsReader.whole text)

end GraphRead.DateTime
