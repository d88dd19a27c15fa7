import Mathlib.Algebra.Group.Nat.Defs
import Mathlib.Algebra.GroupWithZero.Nat
import FastapiBoilerplate.Lib.Text

/-!
# Datetimes

A UTC `datetime` is a number of microseconds since 0001-01-01T00:00, below the end of the year
9999 (`Utc`); an aware one has an offset from it (`Aware`). The calendar is the proleptic
Gregorian one, computed as `datetime` computes it.

`isoformat` writes an aware one; `fromisoformat` reads what `datetime.fromisoformat` reads, which is a
good deal more than `isoformat` writes: dates with or without dashes, ISO weeks, any character
for the `T`, times down to the hour, offsets down to the microsecond. It follows the C
implementation, which scans the UTF-8 of the string for ASCII digits, taking what is past the
end of it for NUL. That is why the oddities of that scan are here too: a third digit after the
hour is ignored if an offset follows, an offset of less than a second counts as none.
-/

namespace Lib

/-! ## The calendar -/

def isLeap (year : ℕ) : Bool := year % 4 == 0 && (year % 100 != 0 || year % 400 == 0)

/-- The days before the first of January; `year` is at least 1. -/
def daysBeforeYear (year : ℕ) : ℕ :=
  (year - 1) * 365 + (year - 1) / 4 - (year - 1) / 100 + (year - 1) / 400

def monthLengths : List ℕ := [0, 31, 28, 31, 30, 31, 30, 31, 31, 30, 31, 30, 31]

def monthLength (leap : Bool) (month : ℕ) : ℕ :=
  if month = 2 ∧ leap then 29 else monthLengths.getD month 0

/-- The days of a year before the first of `month`. -/
def daysBefore (leap : Bool) (month : ℕ) : ℕ :=
  (monthLengths.take month).sum + if month > 2 ∧ leap then 1 else 0

def daysInMonth (year month : ℕ) : ℕ := monthLength (isLeap year) month

def daysBeforeMonth (year month : ℕ) : ℕ := daysBefore (isLeap year) month

/-- The ordinal of a date, 0001-01-01 being 1. -/
def ymd2ord (year month day : ℕ) : ℕ :=
  daysBeforeYear year + daysBeforeMonth year month + day

/-- The month of the day `n` of a year, the first being day 0. -/
def monthOfDay (leap : Bool) (n : ℕ) : ℕ :=
  let month := (n + 50) / 32
  -- the estimate is exact or one too large
  if daysBefore leap month > n then month - 1 else month

/-- The date of an ordinal, by 400-, 100-, 4- and 1-year cycles. -/
def ord2ymd (ordinal : ℕ) : ℕ × ℕ × ℕ :=
  let n := ordinal - 1
  let n400 := n / 146097
  let n := n % 146097
  let n100 := n / 36524
  let n := n % 36524
  let n4 := n / 1461
  let n := n % 1461
  let n1 := n / 365
  let n := n % 365
  let year := n400 * 400 + 1 + n100 * 100 + n4 * 4 + n1
  if n1 = 4 ∨ n100 = 4 then (year - 1, 12, 31)
  else
    let leap := n1 = 3 ∧ (n4 ≠ 24 ∨ n100 = 3)
    let month := monthOfDay leap n
    (year, month, n - daysBefore leap month + 1)

/-! ## Instants -/

def microsPerDay : ℕ := 86400000000

/-- The days of the years 1 to 9999. -/
def maxOrdinal : ℕ := 3652059

/-- A UTC datetime: microseconds since 0001-01-01T00:00. -/
abbrev Utc := Fin (maxOrdinal * microsPerDay)

/-- A count of microseconds as a datetime; `none` is `OverflowError`. -/
def utcOf (micros : ℤ) : Option Utc :=
  if h : 0 ≤ micros ∧ micros < maxOrdinal * microsPerDay then
    some ⟨micros.toNat, by omega⟩
  else none

/-- An aware `datetime`: local microseconds since 0001-01-01T00:00, and an offset from UTC of
    less than a day. -/
structure Aware where
  wall : Utc
  offset : ℤ
  bounded : offset.natAbs < microsPerDay
  deriving DecidableEq

/-- A UTC datetime as an aware one. -/
def Utc.aware (t : Utc) : Aware := ⟨t, 0, by decide⟩

/-- Microseconds of UTC since 0001-01-01T00:00. -/
def Aware.micros (t : Aware) : ℤ := t.wall.val - t.offset

/-- `t.astimezone(UTC)`; `none` is `OverflowError`. -/
def Aware.toUtc (t : Aware) : Option Utc := utcOf t.micros

/-! ## `isoformat` -/

/-- `n` in `width` digits; the fields of a datetime fit theirs. -/
def padded : ℕ → ℕ → Text
  | 0, _ => []
  | width + 1, n => padded width (n / 10) ++ [Fin.ofNat _ (0x30 + n % 10)]

/-- Hours, minutes and seconds; without the seconds if `short`. -/
def isoClock (seconds : ℕ) (short : Bool) : Text :=
  padded 2 (seconds / 3600) ++ lit ":" ++ padded 2 (seconds / 60 % 60) ++
    if short then [] else lit ":" ++ padded 2 (seconds % 60)

/-- The fraction of a second, left out if it is zero. -/
def isoFraction (fraction : ℕ) : Text :=
  if fraction = 0 then [] else lit "." ++ padded 6 fraction

/-- The offset: its seconds are left out if there are none. -/
def isoOffset (offset : ℤ) : Text :=
  let micros := offset.natAbs
  let seconds := micros / 1000000
  lit (if offset < 0 then "-" else "+") ++ isoClock seconds (micros % 60000000 = 0) ++
    isoFraction (micros % 1000000)

/-- `t.isoformat()`. -/
def isoformat (t : Aware) : Text :=
  let (year, month, day) := ord2ymd (t.wall.val / microsPerDay + 1)
  let micros := t.wall.val % microsPerDay
  padded 4 year ++ lit "-" ++ padded 2 month ++ lit "-" ++ padded 2 day ++ lit "T" ++
    isoClock (micros / 1000000) false ++ isoFraction (micros % 1000000) ++ isoOffset t.offset

/-! ## `fromisoformat` -/

/-- The byte at a place, NUL past the end. -/
def byteAt (s : Bytes) (i : ℕ) : ℕ := (s.getD i 0).val

def digitAt (s : Bytes) (i : ℕ) : Option ℕ :=
  if 0x30 ≤ byteAt s i ∧ byteAt s i ≤ 0x39 then some (byteAt s i - 0x30) else none

/-- `count` digits from `i`. -/
def digitsAt (s : Bytes) (i : ℕ) : ℕ → Option ℕ
  | 0 => some 0
  | count + 1 => (digitsAt s i count).bind fun n => (digitAt s (i + count)).map fun d => n * 10 + d

/-- The place after the digits that start at `i`. -/
def skipDigits (s : Bytes) (i : ℕ) : ℕ :=
  i + ((s.drop i).takeWhile fun b => 0x30 ≤ b.val && b.val ≤ 0x39).length

/-- The weekday of a date, Monday being 0. -/
def weekday (year month day : ℕ) : ℕ := (ymd2ord year month day + 6) % 7

/-- The ordinal of the Monday of ISO week 1. -/
def isoWeek1Monday (year : ℕ) : ℤ :=
  let firstDay : ℤ := ymd2ord year 1 1
  let firstWeekday := weekday year 1 1
  let monday := firstDay - firstWeekday
  if firstWeekday > 3 then monday + 7 else monday

def isoToYmd (year week day : ℕ) : Option (ℕ × ℕ × ℕ) :=
  let longYear := weekday year 1 1 = 3 ∨ (weekday year 1 1 = 2 ∧ isLeap year)
  if year < 1 ∨ 9999 < year then none
  else if week = 0 ∨ 53 < week ∨ (week = 53 ∧ ¬ longYear) then none
  else if day = 0 ∨ 7 < day then none
  else some (ord2ymd (isoWeek1Monday year + (week - 1) * 7 + day - 1).toNat)

/-- Where the date ends and the separator stands. -/
def separatorAt (s : Bytes) : Option ℕ :=
  let digit (i : ℕ) : Bool := (digitAt s i).isSome
  if s.length = 7 then some 7
  else if byteAt s 4 = 0x2d then
    if byteAt s 5 = 0x57 then
      if byteAt s 8 = 0x2d then
        -- YYYY-Www-d, or YYYY-Www with a dash before the hour
        if s.length = 9 then none
        else if 10 < s.length ∧ digit 10 then some 8
        else some 10
      else some 8
    else some 10
  else if byteAt s 4 = 0x57 then
    -- an odd number of digits after the week's leaves one for the day
    let stop := skipDigits s 7
    if stop < 9 then some stop else if stop % 2 = 0 then some 7 else some 8
  else some 8

def readDate (s : Bytes) (stop : ℕ) : Option (ℕ × ℕ × ℕ) :=
  (digitsAt s 0 4).bind fun year =>
    let dashed := byteAt s 4 = 0x2d
    let i := if dashed then 5 else 4
    if byteAt s i = 0x57 then
      (digitsAt s (i + 1) 2).bind fun week =>
        if i + 3 < stop then
          if dashed ∧ byteAt s (i + 3) ≠ 0x2d then none
          else
            let j := if dashed then i + 4 else i + 3
            (digitsAt s j 1).bind fun day => isoToYmd year week day
        else isoToYmd year week 1
    else
      (digitsAt s i 2).bind fun month =>
        if dashed ∧ byteAt s (i + 2) ≠ 0x2d then none
        else
          let j := if dashed then i + 3 else i + 2
          (digitsAt s j 2).map fun day => (year, month, day)

/-- A time of day or the size of an offset, as read. -/
structure Clock where
  hour : ℕ := 0
  minute : ℕ := 0
  second : ℕ := 0
  micros : ℕ := 0

/-- The fraction of a second from `i` to `stop`, and whether anything follows its digits. -/
def readFraction (s : Bytes) (i stop : ℕ) : Option (ℕ × Bool) :=
  let count := min 6 (stop - i)
  (digitsAt s i count).map fun n =>
    (n * 10 ^ (6 - count), byteAt s (skipDigits s (i + count)) ≠ 0)

/-- What the character after a component of `HH[:?MM[:?SS]]` says to do. -/
inductive Mark
  | stop (more : Bool)
  | next (i : ℕ)
  | fraction (i : ℕ)

/-- The character at `i`, after a component; `colon` says that the hour was followed by one. -/
def markAt (s : Bytes) (stop i : ℕ) (colon : Bool) : Option Mark :=
  let c := byteAt s i
  if stop ≤ i + 1 then some (.stop (c ≠ 0))
  else if colon ∧ c = 0x3a then some (.next (i + 1))
  else if c = 0x2e ∨ c = 0x2c then some (.fraction (i + 1))
  else if !colon then some (.next i)
  else none

/-- The fraction that follows what has been read. -/
def withFraction (s : Bytes) (i stop : ℕ) (clock : Clock) : Option (Clock × Bool) :=
  (readFraction s i stop).map fun (micros, more) => ({ clock with micros }, more)

/-- `HH[:?MM[:?SS[:?{.,}fff[fff]]]]` between `start` and `stop`, and whether the scan stopped
    short of the end of the string. A fraction may follow any of the components. -/
def readClock (s : Bytes) (start stop : ℕ) : Option (Clock × Bool) :=
  (digitsAt s start 2).bind fun hour =>
  let colon : Bool := byteAt s (start + 2) = 0x3a
  (markAt s stop (start + 2) colon).bind fun mark =>
  match mark with
  | .stop more => some ({ hour }, more)
  | .fraction i => withFraction s i stop { hour }
  | .next i =>
    (digitsAt s i 2).bind fun minute =>
    (markAt s stop (i + 2) colon).bind fun mark =>
    match mark with
    | .stop more => some ({ hour, minute }, more)
    | .fraction i => withFraction s i stop { hour, minute }
    | .next i =>
      (digitsAt s i 2).bind fun second =>
      (markAt s stop (i + 2) colon).bind fun mark =>
      match mark with
      | .stop more => some ({ hour, minute, second }, more)
      | .fraction i => withFraction s i stop { hour, minute, second }
      | .next i => withFraction s i stop { hour, minute, second }

/-- The bytes an offset starts with. -/
def isZone (b : Byte) : Bool := b.val == 0x2b || b.val == 0x2d || b.val == 0x5a

/-- The time from `start` on, and the offset in microseconds if there is one. -/
def readTime (s : Bytes) (start : ℕ) : Option (Clock × Option ℤ) :=
  let zone := start + ((s.drop start).takeWhile fun b => !isZone b).length
  (readClock s start zone).bind fun (clock, more) =>
    if zone = s.length then if more then none else some (clock, none)
    else if byteAt s zone = 0x5a then
      if byteAt s (zone + 1) ≠ 0 then none else some (clock, some 0)
    else
      (readClock s (zone + 1) s.length).bind fun (offset, more) =>
        let seconds := offset.hour * 3600 + offset.minute * 60 + offset.second
        let size : ℤ := if seconds = 0 then 0 else seconds * 1000000 + offset.micros
        if more then none
        else some (clock, some (if byteAt s zone = 0x2d then -size else size))

/-- How many bytes the UTF-8 of the separator takes. -/
def separatorWidth (b : ℕ) : ℕ :=
  if b < 0x80 then 1 else if 0xE0 ≤ b ∧ b < 0xF0 then 3 else if 0xF0 ≤ b then 4 else 2

/-- A `datetime`, naive or aware. -/
inductive Datetime
  | naive (wall : Utc)
  | aware (t : Aware)

/-- The fields as local microseconds, if they are in range. -/
def wallOf (date : ℕ × ℕ × ℕ) (clock : Clock) : Option Utc :=
  let (year, month, day) := date
  if year < 1 ∨ 9999 < year ∨ month < 1 ∨ 12 < month ∨ day < 1 ∨ daysInMonth year month < day ∨
      23 < clock.hour ∨ 59 < clock.minute ∨ 59 < clock.second then none
  else
    let seconds := clock.hour * 3600 + clock.minute * 60 + clock.second
    utcOf ((ymd2ord year month day - 1) * microsPerDay + seconds * 1000000 + clock.micros)

/-- The fields as a datetime, if they are in range. -/
def datetimeOf (date : ℕ × ℕ × ℕ) (clock : Clock) (offset : Option ℤ) : Option Datetime :=
  match offset with
  | none => (wallOf date clock).map .naive
  | some offset =>
    if h : offset.natAbs < microsPerDay then
      (wallOf date clock).map fun wall => .aware ⟨wall, offset, h⟩
    else none

/-- `datetime.fromisoformat` of the string with this UTF-8; `none` is `ValueError`. -/
def fromisoformat (s : Bytes) : Option Datetime :=
  if s.length < 7 then none
  else
    (separatorAt s).bind fun separator =>
    (readDate s separator).bind fun date =>
    if separator < s.length then
      (readTime s (separator + separatorWidth (byteAt s separator))).bind fun (clock, offset) =>
        datetimeOf date clock offset
    else datetimeOf date {} none

end Lib
