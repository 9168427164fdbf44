import TraitFactory.Failure
import TraitFactory.Number.Places

/-!
# Clock

Moments and their place in the calendar, in universal time. The clock tells moments as
floating-point seconds, of which those of the years 1 to 9999 have a date. Days are counted in
eras of four hundred years, each of which starts on the first of March, so that a leap day ends
a year.
-/

namespace TraitFactory

/-- **A moment**, counted from the start of the year 1970. -/
structure Moment where
  seconds : Int
  micros : Nat := 0
  deriving DecidableEq, Repr

/-- A day of the calendar. -/
structure Date where
  year : Int
  month : Nat
  day : Nat
  deriving DecidableEq, Repr

namespace Date

/-- Days from the first of March of the year 0 to the first of January 1970. -/
def epochDays : Int := 719468

def daysPerEra : Int := 146097

/-- **The date of a day**, by its number since the start of the year 1970. -/
def ofDays (days : Int) : Date :=
  let z := days + epochDays
  let era := z / daysPerEra
  let dayOfEra := z % daysPerEra
  let yearOfEra :=
    (dayOfEra - dayOfEra / 1460 + dayOfEra / 36524 - dayOfEra / 146096) / 365
  let dayOfYear := dayOfEra - (365 * yearOfEra + yearOfEra / 4 - yearOfEra / 100)
  let monthFromMarch := (5 * dayOfYear + 2) / 153
  let day := dayOfYear - (153 * monthFromMarch + 2) / 5 + 1
  let month := if monthFromMarch < 10 then monthFromMarch + 3 else monthFromMarch - 9
  let year := yearOfEra + era * 400 + (if month ≤ 2 then 1 else 0)
  ⟨year, month.toNat, day.toNat⟩

example : ofDays 0 = ⟨1970, 1, 1⟩ := by decide

example : ofDays 19782 = ⟨2024, 2, 29⟩ := by decide

example : ofDays (-1) = ⟨1969, 12, 31⟩ := by decide

end Date

namespace Moment

def digits (width n : Nat) : String := Number.padLeft width '0' (toString n)

/-- **The moment of some floating-point seconds**, to the nearest microsecond. -/
def ofSeconds (x : Double) : Moment :=
  let whole := x.truncated
  let micros := ((x.add (Double.ofInt (-whole))).mul (Double.ofInt 1000000)).rounded
  if 1000000 ≤ micros then ⟨whole + 1, (micros - 1000000).toNat⟩
  else if micros < 0 then ⟨whole - 1, (micros + 1000000).toNat⟩
  else ⟨whole, micros.toNat⟩

/-- The floating-point seconds of a moment. -/
def toSeconds (t : Moment) : Double :=
  (Double.ofInt t.seconds).add ((Double.ofInt t.micros).div (Double.ofInt 1000000))

def days (t : Moment) : Int := t.seconds / 86400

def secondOfDay (t : Moment) : Nat := (t.seconds % 86400).toNat

def date (t : Moment) : Date := Date.ofDays t.days

/-- Hours, minutes and seconds. -/
def timeText (t : Moment) : String :=
  let s := t.secondOfDay
  digits 2 (s / 3600) ++ ":" ++ digits 2 (s / 60 % 60) ++ ":" ++ digits 2 (s % 60)

def dateText (t : Moment) : String :=
  let d := t.date
  digits 4 d.year.toNat ++ "-" ++ digits 2 d.month ++ "-" ++ digits 2 d.day

/-! ## Limits -/

/-- Seconds are counted by a signed machine integer of sixty-four bits. -/
def isCounted (t : Moment) : Bool :=
  -(Number.pow2 63 : Int) ≤ t.seconds && t.seconds < Number.pow2 63

/-- Years are counted from 1900 on by a signed machine integer of thirty-two bits. -/
def hasYear (t : Moment) : Bool :=
  -(Number.pow2 31 : Int) ≤ t.date.year - 1900 && t.date.year - 1900 < Number.pow2 31

/-- The year as such an integer, counted from the year 0. -/
def machineYear (t : Moment) : Int := t.date.year.bmod (Number.pow2 32)

/-- Fails unless the moment's year is one of 1 to 9999. -/
def requireDate (t : Moment) : Except Cause Unit :=
  let year := t.machineYear
  if !t.isCounted then .error (.overflow "timestamp out of range for platform time_t")
  else if !t.hasYear then
    .error (.other "OSError" "[Errno 75] Value too large for defined data type")
  else if year < 1 || 9999 < year then .error (.badValue s!"year {year} is out of range")
  else .ok ()

/-- A day before a moment, by which a clock is compared with itself. -/
def dayBefore (t : Moment) : Moment := { t with seconds := t.seconds - 86400 }

/-- **Fails unless the moment has a date**; to be told in local time the day before it must have
one too. -/
def requireLocalDate (t : Moment) : Except Cause Unit := do
  t.requireDate
  t.dayBefore.requireDate

/-- **Date and time with the offset of universal time**; fractions of a second are written only
where there are any. -/
def text (t : Moment) : String :=
  let fraction := if t.micros = 0 then "" else "." ++ digits 6 t.micros
  t.dateText ++ "T" ++ t.timeText ++ fraction ++ "+00:00"

end Moment

end TraitFactory
