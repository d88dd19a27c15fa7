import FastapiBoilerplate.Lib.Calendar
import FastapiBoilerplate.Resilience.Transport

/-!
# When a `Retry-After` header cannot be read

`retry_after_seconds` catches what it expects of `int` and of `parsedate_to_datetime`, and lets
three things through: the `OverflowError` of an integer no float can hold; that of a date with a
zone or a field beyond the range of a C integer; and whatever `timestamp()` raises, which stands
outside of the `try`. To say which headers these are, the date parser is modelled here as the
standard library has it (`email.utils`), with the conversions of `datetime` behind it.

The fields of a date are words, and `_parsedate_tz` puts them in their places by what they look
like. A date whose zone is unknown is taken for local time: the offset of the host's zone at each
instant is a parameter (`zone`).
-/

namespace Resilience

open Lib List

/-! ## The words of a date -/

def dayNames : List Text := ["mon", "tue", "wed", "thu", "fri", "sat", "sun"].map lit

/-- `_monthnames`: the short names, and the long ones. -/
def monthNames : List Text :=
  ["jan", "feb", "mar", "apr", "may", "jun", "jul", "aug", "sep", "oct", "nov", "dec",
    "january", "february", "march", "april", "may", "june", "july", "august", "september",
    "october", "november", "december"].map lit

def timezones : List (Text × ℤ) :=
  [("UT", 0), ("UTC", 0), ("GMT", 0), ("Z", 0), ("AST", -400), ("ADT", -300), ("EST", -500),
    ("EDT", -400), ("CST", -600), ("CDT", -500), ("MST", -700), ("MDT", -600), ("PST", -800),
    ("PDT", -700)].map fun (name, offset) => (lit name, offset)

/-- `tz.upper()`, as far as it can be the name of a zone: a long s and its ligatures are letters
    of the names too. -/
def upperZone (tz : Text) : Text :=
  tz.flatMap fun c =>
    if c.val = 0x17f then lit "S"
    else if c.val = 0xfb05 ∨ c.val = 0xfb06 then lit "ST"
    else upperAscii [c]

/-- The words of the text, without the name of the day. -/
def dateWords (value : Text) : List Text :=
  match (value.splitOnP isSpace).filter (· ≠ []) with
  | [] => []
  | word :: words =>
    if word.getLast? = some 0x2c ∨ lowerAscii word ∈ dayNames then words
    else (word.reverse.takeWhile (· ≠ 0x2c)).reverse :: words

/-- Day, month, year, time and zone, if the words are that many. -/
def dateFields : List Text → Option (Text × Text × Text × Text × Text)
  -- RFC 850, which has dashes in the date
  | [date, tm, tz] =>
    match date.splitOn 0x2d with
    | [dd, mm, yy] => some (dd, mm, yy, tm, tz)
    | _ => none
  -- a time with its zone behind it, or no zone
  | [dd, mm, yy, s] =>
    match (s.idxOf? 0x2b).or (s.idxOf? 0x2d) with
    | some (i + 1) => some (dd, mm, yy, s.take (i + 1), s.drop (i + 1))
    | _ => some (dd, mm, yy, s, [])
  | dd :: mm :: yy :: tm :: tz :: _ => some (dd, mm, yy, tm, tz)
  | _ => none

/-- A word without the comma it may end with. -/
def dropComma (word : Text) : Text :=
  if word.getLast? = some 0x2c then word.dropLast else word

def clockFields (tm : Text) : Option (Text × Text × Text) :=
  match tm.splitOn 0x3a with
  | [thh, tmm] => some (thh, tmm, lit "0")
  | [thh, tmm, tss] => some (thh, tmm, tss)
  | [_] =>
    match tm.splitOn 0x2e with
    | [thh, tmm] => some (thh, tmm, lit "0")
    | [thh, tmm, tss] => some (thh, tmm, tss)
    | _ => none
  | _ => none

/-- The offset in seconds of a zone such as `GMT` or `-0500`; none if it is unknown, as that of
    `-0000` is. -/
def zoneOffset (tz : Text) : Option ℤ :=
  let hundreds := (timezones.lookup (upperZone tz)).or
    ((readInt tz).filter fun n => ¬ (n = 0 ∧ tz.head? = some 0x2d))
  hundreds.map fun n => n.sign * (n.natAbs / 100 * 3600 + n.natAbs % 100 * 60)

/-- What `_parsedate_tz` returns. -/
structure ParsedDate where
  year : ℤ
  month : ℕ
  day : ℤ
  hour : ℤ
  minute : ℤ
  second : ℤ
  offset : Option ℤ

def parsedateTz (value : Text) : Option ParsedDate := do
  let (dd, mm, yy, tm, tz) ← dateFields (dateWords value)
  guard (dd ≠ [] ∧ mm ≠ [] ∧ yy ≠ [])
  -- the month may come first
  let (dd, mm) := if lowerAscii mm ∈ monthNames then (dd, mm) else (mm, dd)
  let month ← monthNames.idxOf? (lowerAscii mm)
  -- the time may come before the year, and the zone as well
  let (yy, tm) := if (yy.findIdx? (· = 0x3a)).any (0 < ·) then (tm, yy) else (yy, tm)
  let yy := dropComma yy
  guard (yy ≠ [])
  let (yy, tz) := if isDigit (yy.take 1) then (yy, tz) else (tz, yy)
  let (thh, tmm, tss) ← clockFields (dropComma tm)
  let year ← readInt yy
  let day ← readInt (dropComma dd)
  let hour ← readInt thh
  let minute ← readInt tmm
  let second ← readInt tss
  return {
    year := if year < 100 then if 68 < year then year + 1900 else year + 2000 else year
    month := month % 12 + 1
    day, hour, minute, second
    offset := zoneOffset tz }

/-! ## From the fields to a timestamp -/

/-- What an argument of `datetime` must be to get as far as its own check. -/
def CInt (n : ℤ) : Prop := -2 ^ 31 ≤ n ∧ n < 2 ^ 31

instance (n : ℤ) : Decidable (CInt n) := inferInstanceAs (Decidable (_ ∧ _))

namespace ParsedDate

variable (date : ParsedDate)

/-- All of them fit a C integer; the month does. -/
def Fits : Prop :=
  CInt date.year ∧ CInt date.day ∧ CInt date.hour ∧ CInt date.minute ∧ CInt date.second

/-- They are a date and a time of day. -/
def Valid : Prop :=
  (1 ≤ date.year ∧ date.year ≤ 9999) ∧
    (1 ≤ date.day ∧ date.day ≤ daysInMonth date.year.toNat date.month) ∧
    (0 ≤ date.hour ∧ date.hour ≤ 23) ∧ (0 ≤ date.minute ∧ date.minute ≤ 59) ∧
    0 ≤ date.second ∧ date.second ≤ 59

instance : Decidable date.Fits := inferInstanceAs (Decidable (_ ∧ _))

instance : Decidable date.Valid := inferInstanceAs (Decidable (_ ∧ _))

/-- Seconds since the day before 0001-01-01, as `utc_to_seconds` counts them. -/
def seconds : ℤ :=
  ymd2ord date.year.toNat date.month date.day.toNat * 86400 + date.hour * 3600 +
    date.minute * 60 + date.second

end ParsedDate

/-- `local`: the local time of an instant, unless it is outside of the years 1 to 9999. -/
def localSeconds (zone : ℤ → ℤ) (u : ℤ) : Option ℤ :=
  let t := u + zone u
  if 86400 ≤ t ∧ t < (maxOrdinal + 1) * 86400 then some t else none

/-- `local_to_seconds`: the instant of a local time, the earlier of two, looked for by the offsets
    around it; none is `ValueError`. -/
def localToSeconds (zone : ℤ → ℤ) (t : ℤ) : Option ℤ := do
  let a := (← localSeconds zone t) - t
  let u₁ := t - a
  let t₁ ← localSeconds zone u₁
  let b ←
    if t₁ = t then (localSeconds zone (u₁ - 86400)).map (· - (u₁ - 86400)) else some (t₁ - u₁)
  if t₁ = t ∧ a = b then return u₁
  let u₂ := t - b
  let t₂ ← localSeconds zone u₂
  return if t₂ = t then u₂ else if t₁ = t then u₁ else max u₁ u₂

/-- 1970-01-01. -/
def epoch : ℤ := 62135683200

/-- `timedelta(seconds=offset)` has no more days than this. -/
def maxDays : ℤ := 999999999

/-- `parsedate_to_datetime(value).timestamp()`. The zone is made before the date is. -/
def httpDate (zone : ℤ → ℤ) (value : Text) : Except DateError ℚ :=
  match parsedateTz value with
  | none => .error .typeOrValueError
  | some date =>
    match date.offset with
    | some offset =>
      if maxDays < |offset / 86400| then .error .other
      else if 86400 ≤ |offset| then .error .typeOrValueError
      else if ¬ date.Fits then .error .other
      else if ¬ date.Valid then .error .typeOrValueError
      else .ok ((date.seconds - offset - epoch : ℤ) : ℚ)
    | none =>
      if ¬ date.Fits then .error .other
      else if ¬ date.Valid then .error .typeOrValueError
      else
        match localToSeconds zone date.seconds with
        | none => .error .other
        | some u => .ok ((u - epoch : ℤ) : ℚ)

/-! ## The headers that are read -/

/-- A date that `datetime` refuses with more than a `ValueError` that is caught: its zone is of
    too many days; or its zone is none or less than a day, and a field is beyond a C integer; or it
    is local time, and an instant that is looked at for it is outside of the years 1 to 9999. -/
def ParsedDate.Escapes (zone : ℤ → ℤ) (date : ParsedDate) : Prop :=
  (∃ offset ∈ date.offset, maxDays < |offset / 86400|) ∨
    (∀ offset ∈ date.offset, |offset| < 86400) ∧ ¬ date.Fits ∨
    date.offset = none ∧ date.Valid ∧ localToSeconds zone date.seconds = none

theorem httpDate_eq_other {zone : ℤ → ℤ} {value : Text} :
    httpDate zone value = .error .other ↔
      ∃ date, parsedateTz value = some date ∧ date.Escapes zone := by
  unfold httpDate
  cases parsedateTz value with
  | none => simp
  | some date =>
    simp only [Option.some.injEq, exists_eq_left', ParsedDate.Escapes]
    by_cases hfits : date.Fits
    all_goals by_cases hvalid : date.Valid
    all_goals cases date.offset with
      | none => cases hlocal : localToSeconds zone date.seconds <;> simp [hfits, hvalid]
      | some offset =>
        by_cases hdays : maxDays < |offset / 86400|
        · simp [hdays]
        · by_cases hday : |offset| < 86400
          · simp [hdays, not_le.mpr hday, hday, hfits, hvalid]
          · simp [hdays, not_lt.mp hday, hday]

/-- A header is read without an exception, and a wait is computed, unless it is a number that no
    float can hold, or no number and a date that escapes. -/
theorem retry_after_total_iff (zone : ℤ → ℤ) (now : ℚ) (response : Response) :
    (∃ answer, retryAfterSeconds (httpDate zone) now response = some answer ∧
        (∀ seconds ∈ answer, 0 ≤ seconds) ∧
        ∀ (policy : RetryPolicy) (attempt : ℕ) (readings : Readings), readings.wallClock = now →
          (policy.delayFor (httpDate zone) attempt (some response) readings).isSome ∧
            (answer = none → policy.delayFor (httpDate zone) attempt (some response) readings =
              some (some (backoffDelay attempt policy readings.draw)))) ↔
      ∀ raw, response.retryAfter = some raw →
        (∀ n, readInt (strip raw) = some n → |n| < 2 ^ 1024 - 2 ^ 970) ∧
          (readInt (strip raw) = none →
            ∀ date, parsedateTz (strip raw) = some date → ¬ date.Escapes zone) := by
  constructor
  · rintro ⟨answer, hanswer, -⟩ raw hraw
    simp only [retryAfterSeconds, hraw] at hanswer
    constructor
    · intro n hn
      rw [hn] at hanswer
      obtain ⟨seconds, hseconds, -⟩ := Option.map_eq_some_iff.mp hanswer
      unfold floatOfInt at hseconds
      split at hseconds
      · cases hseconds
      · next hlt => exact not_le.mp hlt
    · intro hn date hdate hescapes
      rw [hn, httpDate_eq_other.mpr ⟨date, hdate, hescapes⟩] at hanswer
      cases hanswer
  intro h
  obtain ⟨answer, hanswer, hnonneg⟩ : ∃ answer, retryAfterSeconds (httpDate zone) now response =
      some answer ∧ ∀ seconds ∈ answer, 0 ≤ seconds := by
    unfold retryAfterSeconds
    cases hraw : response.retryAfter with
    | none => exact ⟨none, rfl, nofun⟩
    | some raw =>
      obtain ⟨hint, hdate⟩ := h raw hraw
      dsimp only
      cases hn : readInt (strip raw) with
      | some n =>
        have hfloat : floatOfInt n = some (n : ℚ) := if_neg (not_le.mpr (hint n hn))
        dsimp only
        rw [hfloat]
        exact ⟨_, rfl, by simp⟩
      | none =>
        dsimp only
        split
        · exact ⟨none, rfl, nofun⟩
        · next hother =>
          obtain ⟨date, hparsed, hescapes⟩ := httpDate_eq_other.mp hother
          exact absurd hescapes (hdate hn date hparsed)
        · exact ⟨_, rfl, by simp⟩
  refine ⟨answer, hanswer, hnonneg, ?_⟩
  rintro policy attempt readings rfl
  simp only [RetryPolicy.delayFor, hanswer]
  constructor
  · split <;> rfl
  · rintro rfl
    split <;> rfl

/-- Ten to the power of 309; a year, an hour and a zone that are too large; and the first hours of
    the year 1, at a place nine hours east. -/
theorem retry_after_overflows :
    [lit "1" ++ replicate 309 0x30, lit "Mon, 01 Jan 99999999999999999999 00:00:00 GMT",
        lit "Mon, 01 Jan 2024 99999999999:00:00 GMT",
        lit "Mon, 01 Jan 2024 00:00:00 +9999999999999999999", lit "1 Jan X 00:00:00 -1999"].map
          (fun value => retryAfterSeconds (httpDate fun _ => 32400) 0 ⟨503, some value⟩) =
      replicate 5 none := by
  decide +kernel

end Resilience
