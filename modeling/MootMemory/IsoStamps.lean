import MootMemory.CivilCalendar
import MootMemory.DecimalText
import MootMemory.IngestQueue

namespace MootMemory

/-- A time of the calendar, to the second. -/
structure TimeComponents where
  year : Int
  month : Int
  day : Int
  hour : Int
  minute : Int
  second : Int
deriving DecidableEq, Repr

/-- `{:04}-{:02}-{:02}T{:02}:{:02}:{:02}.{:03}Z`. -/
def stampBytes (c : TimeComponents) (millis : Int) : List UInt8 :=
  zeroPadded 4 c.year ++ '-'.toUInt8 :: (zeroPadded 2 c.month ++ '-'.toUInt8 ::
    (zeroPadded 2 c.day ++ 'T'.toUInt8 :: (zeroPadded 2 c.hour ++ ':'.toUInt8 ::
      (zeroPadded 2 c.minute ++ ':'.toUInt8 :: (zeroPadded 2 c.second ++ '.'.toUInt8 ::
        (zeroPadded 3 millis ++ ['Z'.toUInt8]))))))

def stampText (c : TimeComponents) (millis : Int) : String := asciiText (stampBytes c millis)

/-- `str::parse`, which checks the range as well. -/
def parseI64 (bytes : List UInt8) : Option Int :=
  (parseInt bytes).filter fun value => -2 ^ 63 ≤ value ∧ value < 2 ^ 63

/-- The bytes from `i` to before `j`. -/
def byteRange (b : List UInt8) (i j : Nat) : List UInt8 := (b.take j).drop i

/-- The date of a day. The store and the queue have the same. -/
def civilFromDays (z : Int) : Int × Int × Int :=
  let z := z + 719468
  let era := (if 0 ≤ z then z else z - 146096).tdiv 146097
  let doe := z - era * 146097
  let yoe := (doe - doe.tdiv 1460 + doe.tdiv 36524 - doe.tdiv 146096).tdiv 365
  let y := yoe + era * 400
  let doy := doe - (365 * yoe + yoe.tdiv 4 - yoe.tdiv 100)
  let mp := (5 * doy + 2).tdiv 153
  let d := doy - (153 * mp + 2).tdiv 5 + 1
  let m := if mp < 10 then mp + 3 else mp - 9
  (if m ≤ 2 then y + 1 else y, m, d)

namespace EstateVerbs

def isLeap (year : Int) : Bool :=
  (year.tmod 4 = 0 ∧ year.tmod 100 ≠ 0) ∨ year.tmod 400 = 0

def daysInYear (year : Int) : Int := if isLeap year then 366 else 365

/-- The loop over the years, with the days that are left in the last one. -/
def yearLoop (year days : Int) : Int × Int :=
  if days < daysInYear year then (year, days) else yearLoop (year + 1) (days - daysInYear year)
termination_by days.toNat
decreasing_by
  unfold daysInYear at *
  split at * <;> omega

def months (year : Int) : List Int :=
  [31, if isLeap year then 29 else 28, 31, 30, 31, 30, 31, 31, 30, 31, 30, 31]

/-- The loop over the months, with the days that are left in the last one. -/
def monthLoop (month days : Int) : List Int → Int × Int
  | [] => (month, days)
  | daysInMonth :: months =>
    if days < daysInMonth then (month, days)
    else monthLoop (month + 1) (days - daysInMonth) months

def epochToComponents (epoch : Int) : TimeComponents :=
  let second := epoch.tmod 60
  let epoch := epoch.tdiv 60
  let minute := epoch.tmod 60
  let epoch := epoch.tdiv 60
  let hour := epoch.tmod 24
  let years := yearLoop 1970 (epoch.tdiv 24)
  let months := monthLoop 1 years.2 (months years.1)
  { year := years.1, month := months.1, day := months.2 + 1, hour, minute, second }

def epochToIso8601 (epochMs : Int) : String :=
  stampText (epochToComponents (epochMs / 1000)) (epochMs % 1000)

end EstateVerbs

namespace DrawerStoreInmemory

def componentsToEpoch (y m d hh mm ss : Int) : Int :=
  daysFromCivil y m d * 86400 + hh * 3600 + mm * 60 + ss

def epochToComponents (t : Int) : TimeComponents :=
  let days := t / 86400
  let secs := t % 86400
  let date := civilFromDays days
  { year := date.1, month := date.2.1, day := date.2.2,
    hour := secs.tdiv 3600, minute := (secs.tmod 3600).tdiv 60, second := secs.tmod 60 }

def formatIso8601 (epochMs : Int) : String :=
  stampText (epochToComponents (epochMs / 1000)) (epochMs % 1000)

/-- The milliseconds of a fraction, brought to three digits. -/
def parseFraction (bytes : List UInt8) : Option Int :=
  if 20 < bytes.length ∧ bytes[19]? = some '.'.toUInt8 then
    let digits := (bytes.drop 20).takeWhile isAsciiDigit
    (parseI64 digits).map fun ms => ms * 10 ^ (3 - digits.length)
  else some 0

/-- The sum wraps around if the fraction is that long. -/
def parseIso8601 (s : String) : Option Int :=
  let bytes := strBytes s
  if bytes.length < 20 then none
  else do
    let year ← parseI64 (byteRange bytes 0 4)
    let month ← parseI64 (byteRange bytes 5 7)
    let day ← parseI64 (byteRange bytes 8 10)
    let hour ← parseI64 (byteRange bytes 11 13)
    let minute ← parseI64 (byteRange bytes 14 16)
    let second ← parseI64 (byteRange bytes 17 19)
    let millis ← parseFraction bytes
    some ((componentsToEpoch year month day hour minute second * 1000 + millis).bmod (2 ^ 64))

end DrawerStoreInmemory

namespace CorpusIngestQueue

def millisToIso8601 (millis : Int) : String :=
  let secs := millis / 1000
  let fracMillis := millis % 1000
  let days := secs / 86400
  let secsOfDay := secs % 86400
  let date := civilFromDays days
  stampText
    { year := date.1, month := date.2.1, day := date.2.2,
      hour := secsOfDay.tdiv 3600, minute := (secsOfDay.tmod 3600).tdiv 60,
      second := secsOfDay.tmod 60 } fracMillis

end CorpusIngestQueue

end MootMemory
