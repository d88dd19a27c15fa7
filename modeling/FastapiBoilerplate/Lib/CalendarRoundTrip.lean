import FastapiBoilerplate.Lib.Calendar

/-!
# What `isoformat` writes, `fromisoformat` reads

For a UTC datetime: `fromisoformat` accepts a great many texts, and for those `isoformat` writes
it gives back the instant they were written from. The dates first (an ordinal taken to a date and
back), then the scan of the text, whose nineteen characters before the fraction stand at fixed
places.

An ordinal is taken apart by cycles of 400, 100 and 4 years and of one. The quotients are the years
except on the last day of a leap year (`last_day`), so that day is a case of its own. A clock is
read to the minute, the second or the microsecond, and the same scan reads an offset.
-/

namespace Lib

open List Option

/-! ## Dates -/

theorem monthOfDay_spec : ∀ leap : Bool, ∀ n < 365 + leap.toNat,
    1 ≤ monthOfDay leap n ∧ monthOfDay leap n ≤ 12 ∧ daysBefore leap (monthOfDay leap n) ≤ n ∧
      n - daysBefore leap (monthOfDay leap n) < monthLength leap (monthOfDay leap n) := by
  decide +kernel

section
variable (n400 : ℕ) {n100 n4 n1 : ℕ} (h100 : n100 < 4) (h4 : n4 < 25) (h1 : n1 < 4)
include h100 h4 h1

theorem isLeap_cycles : isLeap (n400 * 400 + 1 + n100 * 100 + n4 * 4 + n1) =
    decide (n1 = 3 ∧ (n4 ≠ 24 ∨ n100 = 3)) := by
  rw [Bool.eq_iff_iff]
  simp only [isLeap, Bool.and_eq_true, Bool.or_eq_true, beq_iff_eq, bne_iff_ne, decide_eq_true_eq]
  omega

theorem daysBeforeYear_cycles : daysBeforeYear (n400 * 400 + 1 + n100 * 100 + n4 * 4 + n1) =
    n400 * 146097 + n100 * 36524 + n4 * 1461 + n1 * 365 := by
  simp only [daysBeforeYear]
  omega

end

/-- The last day of a leap year, which the cycles put at the start of a fifth one. -/
theorem last_day {ordinal n400 n100 n4 : ℕ} (h100 : n100 < 4) (h4 : n4 < 25)
    (hleap : n4 ≠ 24 ∨ n100 = 3) (h : ordinal = n400 * 146097 + n100 * 36524 + n4 * 1461 + 1461) :
    isLeap (n400 * 400 + 1 + n100 * 100 + n4 * 4 + 3) = true ∧
      ymd2ord (n400 * 400 + 1 + n100 * 100 + n4 * 4 + 3) 12 31 = ordinal := by
  have hyear : isLeap (n400 * 400 + 1 + n100 * 100 + n4 * 4 + 3) = true := by
    rw [isLeap_cycles n400 h100 h4 (by omega)]
    simpa using hleap
  refine ⟨hyear, ?_⟩
  rw [ymd2ord, daysBeforeYear_cycles n400 h100 h4 (by omega), daysBeforeMonth, hyear]
  have : daysBefore true 12 = 335 := by decide
  omega

/-- What `ord2ymd` answers is a date of the calendar, and `ymd2ord` takes it back. -/
theorem ord2ymd_spec {ordinal : ℕ} (hpos : 1 ≤ ordinal) (hmax : ordinal ≤ maxOrdinal) :
    ∃ year month day, ord2ymd ordinal = (year, month, day) ∧ (1 ≤ year ∧ year ≤ 9999) ∧
      (1 ≤ month ∧ month ≤ 12) ∧ (1 ≤ day ∧ day ≤ daysInMonth year month) ∧
      ymd2ord year month day = ordinal := by
  simp only [maxOrdinal] at hmax
  obtain ⟨n, rfl⟩ : ∃ n, ordinal = n + 1 := ⟨ordinal - 1, by omega⟩
  obtain ⟨n400, h400⟩ : ∃ n400, n / 146097 = n400 := ⟨_, rfl⟩
  obtain ⟨n100, h100⟩ : ∃ n100, n % 146097 / 36524 = n100 := ⟨_, rfl⟩
  obtain ⟨n4, h4⟩ : ∃ n4, n % 146097 % 36524 / 1461 = n4 := ⟨_, rfl⟩
  obtain ⟨n1, h1⟩ : ∃ n1, n % 146097 % 36524 % 1461 / 365 = n1 := ⟨_, rfl⟩
  obtain ⟨d, hd⟩ : ∃ d, n % 146097 % 36524 % 1461 % 365 = d := ⟨_, rfl⟩
  simp only [ord2ymd, Nat.add_sub_cancel, h400, h100, h4, h1, hd]
  by_cases hlast : n1 = 4 ∨ n100 = 4
  · -- the year ended one day ago: the day is the last of the leap year before
    have hyear : ∃ b c, b < 4 ∧ c < 25 ∧ (c ≠ 24 ∨ b = 3) ∧
        n + 1 = n400 * 146097 + b * 36524 + c * 1461 + 1461 ∧
        n400 * 400 + 1 + n100 * 100 + n4 * 4 + n1 - 1 =
          n400 * 400 + 1 + b * 100 + c * 4 + 3 := by
      by_cases h : n100 = 4
      · exact ⟨3, 24, by omega, by omega, .inr rfl, by omega, by omega⟩
      · exact ⟨n100, n4, by omega, by omega, by omega, by omega, by omega⟩
    obtain ⟨b, c, hb, hc, hleap, hn, hyear⟩ := hyear
    obtain ⟨hleap, hord⟩ := last_day hb hc hleap hn
    rw [if_pos hlast, hyear]
    refine ⟨_, 12, 31, rfl, by omega, by omega, ⟨by omega, ?_⟩, hord⟩
    rw [daysInMonth, hleap]
    decide
  · rw [if_neg hlast]
    have hb : n100 < 4 := by omega
    have hc : n4 < 25 := by omega
    have he : n1 < 4 := by omega
    have hleap := isLeap_cycles n400 hb hc he
    obtain ⟨hmonth, hmonth', hbefore, hday⟩ :=
      monthOfDay_spec (decide (n1 = 3 ∧ (n4 ≠ 24 ∨ n100 = 3))) d (by omega)
    refine ⟨_, _, _, rfl, by omega, ⟨hmonth, hmonth'⟩, ⟨by omega, ?_⟩, ?_⟩
    · rw [daysInMonth, hleap]
      exact hday
    · rw [ymd2ord, daysBeforeYear_cycles n400 hb hc he, daysBeforeMonth, hleap]
      omega

/-! ## Digits -/

theorem asciiBytes_append (a b : Text) : asciiBytes (a ++ b) = asciiBytes a ++ asciiBytes b :=
  map_append

theorem length_asciiBytes (text : Text) : (asciiBytes text).length = text.length :=
  length_map _

theorem length_padded (width n : ℕ) : (padded width n).length = width := by
  induction width generalizing n with
  | zero => rfl
  | succ width ih => simp [padded, ih]

section
variable {p : CodePoint → Prop} (hdigit : ∀ d < 10, p (Fin.ofNat _ (0x30 + d)))
include hdigit

theorem forall_mem_padded (width n : ℕ) : ∀ c ∈ padded width n, p c := by
  induction width generalizing n with
  | zero => exact nofun
  | succ width ih =>
    rw [padded, forall_mem_append]
    exact ⟨ih _, forall_mem_singleton.mpr (hdigit _ (Nat.mod_lt _ (by decide)))⟩

theorem forall_mem_isoClock (hcolon : p 0x3a) (seconds : ℕ) (short : Bool) :
    ∀ c ∈ isoClock seconds short, p c := by
  have hpadded := forall_mem_padded hdigit
  have hcolon : ∀ c ∈ lit ":", p c := forall_mem_singleton.mpr hcolon
  have hseconds : ∀ c ∈ (if short then [] else lit ":" ++ padded 2 (seconds % 60)), p c := by
    split
    · nofun
    · exact forall_mem_append.mpr ⟨hcolon, hpadded _ _⟩
  simp only [isoClock, forall_mem_append]
  exact ⟨⟨⟨hpadded _ _, hcolon⟩, hpadded _ _⟩, hseconds⟩

theorem forall_mem_isoFraction (hpoint : p 0x2e) (fraction : ℕ) :
    ∀ c ∈ isoFraction fraction, p c := by
  unfold isoFraction
  split
  · nofun
  · exact forall_mem_cons.mpr ⟨hpoint, forall_mem_padded hdigit _ _⟩

end

/-- The byte of the last digit of `n`. -/
def digit (n : ℕ) : Byte := Fin.ofNat _ (0x30 + n % 10)

theorem asciiBytes_padded_succ (width n : ℕ) :
    asciiBytes (padded (width + 1) n) = asciiBytes (padded width (n / 10)) ++ [digit n] := by
  have : (Fin.ofNat 256 (Fin.ofNat 0x110000 (0x30 + n % 10)).val) = digit n := by
    apply Fin.ext
    simp only [digit, Fin.val_ofNat]
    omega
  rw [padded, asciiBytes_append]
  exact congrArg (fun b => _ ++ [b]) this

variable {s : Bytes} {day fraction month n year seconds : ℕ}

theorem digitsAt_padded {i width : ℕ} (h : (s.drop i).take width = asciiBytes (padded width n))
    (hn : n < 10 ^ width) : digitsAt s i width = some n := by
  induction width generalizing n with
  | zero =>
    have : n = 0 := by simpa using hn
    simp [digitsAt, this]
  | succ width ih =>
    have hlen : (asciiBytes (padded width (n / 10))).length = width := by
      simp [asciiBytes, length_padded]
    rw [padded, asciiBytes_append] at h
    have hlast : s[i + width]? = some (Fin.ofNat _ (0x30 + n % 10)) := by
      have := congrArg (fun l => l[width]?) h
      simp only [getElem?_take, getElem?_drop, Nat.lt_succ_self, if_true,
        getElem?_append_right (Nat.le_of_eq hlen), hlen, Nat.sub_self] at this
      rw [this]
      simp only [asciiBytes, map_cons, getElem?_cons_zero, some.injEq]
      ext
      simp
    have hfront : (s.drop i).take width = asciiBytes (padded width (n / 10)) := by
      have := congrArg (List.take width) h
      rwa [take_take, Nat.min_eq_left (Nat.le_succ width),
        take_left' hlen] at this
    have hdigit : digitAt s (i + width) = some (n % 10) := by
      have : byteAt s (i + width) = 0x30 + n % 10 := by
        simp [byteAt, List.getD, hlast]
        omega
      simp [digitAt, this]
      omega
    simp [digitsAt, ih hfront (by omega), hdigit]
    omega

theorem digitsAt_two {i : ℕ} (h : (s.drop i).take 2 = [digit (n / 10), digit n]) (hn : n < 100) :
    digitsAt s i 2 = some n := by
  apply digitsAt_padded _ hn
  rw [h, asciiBytes_padded_succ, asciiBytes_padded_succ]
  rfl

theorem asciiBytes_colon : asciiBytes (lit ":") = [0x3a] := by decide

theorem asciiBytes_isoClock (seconds : ℕ) (short : Bool) : asciiBytes (isoClock seconds short) =
    digit (seconds / 3600 / 10) :: digit (seconds / 3600) :: 0x3a ::
      digit (seconds / 60 % 60 / 10) :: digit (seconds / 60 % 60) ::
      if short then [] else [0x3a, digit (seconds % 60 / 10), digit (seconds % 60)] := by
  rw [isoClock]
  cases short with
  | true | false =>
    simp only [asciiBytes_append, asciiBytes_colon, asciiBytes_padded_succ, Bool.false_eq_true,
      if_true, if_false]
    rfl

theorem asciiBytes_isoFraction (h : fraction ≠ 0) :
    asciiBytes (isoFraction fraction) = 0x2e :: asciiBytes (padded 6 fraction) := by
  rw [isoFraction, if_neg h]
  rfl

/-- The date as `isoformat` writes it, with the `T`. -/
def dateBytes (year month day : ℕ) : Bytes :=
  [digit (year / 10 / 10 / 10), digit (year / 10 / 10), digit (year / 10), digit year, 0x2d,
    digit (month / 10), digit month, 0x2d, digit (day / 10), digit day, 0x54]

/-- A time of day or the size of an offset as `isoformat` writes it. -/
def clockBytes (seconds fraction : ℕ) (short : Bool) : Bytes :=
  asciiBytes (isoClock seconds short) ++ asciiBytes (isoFraction fraction)

theorem asciiBytes_isoformat (t : Aware) (year month day : ℕ)
    (h : ord2ymd (t.wall.val / microsPerDay + 1) = (year, month, day)) :
    asciiBytes (isoformat t) = dateBytes year month day ++
      (clockBytes (t.wall.val % microsPerDay / 1000000) (t.wall.val % 1000000) false ++
        asciiBytes (isoOffset t.offset)) := by
  have hdash : asciiBytes (lit "-") = [0x2d] := by decide
  have hT : asciiBytes (lit "T") = [0x54] := by decide
  have hfraction : t.wall.val % microsPerDay % 1000000 = t.wall.val % 1000000 := by
    simp only [microsPerDay]
    omega
  simp only [isoformat, h, clockBytes, asciiBytes_append, hdash, hT, asciiBytes_padded_succ,
    hfraction, append_assoc]
  rfl

theorem readDate_dateBytes (rest : Bytes) (hyear : year < 10 ^ 4) (hmonth : month < 10 ^ 2)
    (hday : day < 10 ^ 2) :
    readDate (dateBytes year month day ++ rest) 10 = some (year, month, day) := by
  set s := dateBytes year month day ++ rest with hs
  have hy : digitsAt s 0 4 = some year := by
    apply digitsAt_padded _ hyear
    simp only [asciiBytes_padded_succ]
    rfl
  have hm : digitsAt s 5 2 = some month := digitsAt_two rfl hmonth
  have hd : digitsAt s 8 2 = some day := digitsAt_two rfl hday
  have h4 : byteAt s 4 = 0x2d := rfl
  have h5 : byteAt s 5 = 0x30 + month / 10 % 10 := by
    show (0x30 + month / 10 % 10) % 256 = _
    omega
  have h7 : byteAt s 7 = 0x2d := rfl
  simp [readDate, hy, hm, hd, h4, h5, h7]
  omega

theorem markAt_stop (s : Bytes) (stop i : ℕ) (colon : Bool) (h : stop ≤ i + 1) :
    markAt s stop i colon = some (.stop (byteAt s i ≠ 0)) := if_pos h

theorem markAt_colon (s : Bytes) (stop i : ℕ) (h : i + 1 < stop) (hc : byteAt s i = 0x3a) :
    markAt s stop i true = some (.next (i + 1)) := by
  simp [markAt, hc, Nat.not_le.mpr h]

theorem markAt_point (s : Bytes) (stop i : ℕ) (h : i + 1 < stop) (hc : byteAt s i = 0x2e) :
    markAt s stop i true = some (.fraction (i + 1)) := by
  simp [markAt, hc, Nat.not_le.mpr h]

section
variable {s : Bytes} {start hour minute second t : ℕ}
  (hhour : digitsAt s start 2 = some hour) (hcolon : byteAt s (start + 2) = 0x3a)
  (hminute : digitsAt s (start + 3) 2 = some minute)
include hhour hcolon hminute

theorem readClock_minutes (hstop : t = start + 5) :
    readClock s start t = some ({ hour, minute }, decide (byteAt s (start + 5) ≠ 0)) := by
  have hfirst := markAt_colon s t (start + 2) (by omega) hcolon
  have hsecond := markAt_stop s t (start + 3 + 2) true (by omega)
  simp only [readClock, hhour, hcolon, decide_true, bind_some, hfirst, hminute, hsecond]

variable (hcolon' : byteAt s (start + 5) = 0x3a)
  (hsecond : digitsAt s (start + 6) 2 = some second)
include hcolon' hsecond

theorem readClock_seconds (hstop : t = start + 8) :
    readClock s start t =
      some ({ hour, minute, second }, decide (byteAt s (start + 8) ≠ 0)) := by
  have h₁ := markAt_colon s t (start + 2) (by omega) hcolon
  have h₂ := markAt_colon s t (start + 3 + 2) (by omega) hcolon'
  have h₃ := markAt_stop s t (start + 6 + 2) true (by omega)
  simp only [readClock, hhour, hcolon, decide_true, bind_some, h₁, hminute, h₂, hsecond, h₃]

theorem readClock_micros {micros : ℕ} (hstop : t = start + 15)
    (hpoint : byteAt s (start + 8) = 0x2e) (hmicros : digitsAt s (start + 9) 6 = some micros) :
    readClock s start t = some ({ hour, minute, second, micros },
      decide (byteAt s (skipDigits s (start + 15)) ≠ 0)) := by
  have h₁ := markAt_colon s t (start + 2) (by omega) hcolon
  have h₂ := markAt_colon s t (start + 3 + 2) (by omega) hcolon'
  have h₃ := markAt_point s t (start + 6 + 2) (by omega) hpoint
  have hcount : min 6 (t - (start + 9)) = 6 := by omega
  simp only [readClock, hhour, hcolon, decide_true, bind_some, h₁, hminute, h₂, hsecond, h₃,
    withFraction, readFraction, hcount, hmicros, map_some, Nat.sub_self, Nat.pow_zero,
    Nat.mul_one]

end

theorem byteAt_drop (s : Bytes) (i k : ℕ) : byteAt (s.drop i) k = byteAt s (i + k) := by
  simp [byteAt, List.getD]

/-- A clock is read back, whatever follows; the scan ends no sooner than the clock. -/
theorem readClock_clockBytes {start : ℕ} {short : Bool} {rest : Bytes}
    (h : s.drop start = clockBytes seconds fraction short ++ rest)
    (hshort : short = true → seconds % 60 = 0 ∧ fraction = 0) (hseconds : seconds < 86400)
    (hfraction : fraction < 10 ^ 6) :
    ∃ j, start + (clockBytes seconds fraction short).length ≤ j ∧
      readClock s start (start + (clockBytes seconds fraction short).length) =
        some (⟨seconds / 3600, seconds / 60 % 60, seconds % 60, fraction⟩,
          decide (byteAt s j ≠ 0)) := by
  have hdigits {k n : ℕ} (hk : ((s.drop start).drop k).take 2 = [digit (n / 10), digit n])
      (hn : n < 100) : digitsAt s (start + k) 2 = some n :=
    digitsAt_two (by rwa [drop_drop] at hk) hn
  rw [clockBytes, asciiBytes_isoClock] at h ⊢
  have hh : digitsAt s start 2 = some (seconds / 3600) :=
    hdigits (k := 0) (by rw [h]; rfl) (by omega)
  have hm : digitsAt s (start + 3) 2 = some (seconds / 60 % 60) :=
    hdigits (by rw [h]; rfl) (by omega)
  have h2 : byteAt s (start + 2) = 0x3a := by rw [← byteAt_drop, h]; rfl
  cases short with
  | true =>
    obtain ⟨hzero, rfl⟩ := hshort rfl
    rw [hzero]
    exact ⟨start + 5, Nat.le_refl _, readClock_minutes hh h2 hm rfl⟩
  | false =>
    have hs : digitsAt s (start + 6) 2 = some (seconds % 60) :=
      hdigits (by rw [h]; rfl) (by omega)
    have h5 : byteAt s (start + 5) = 0x3a := by rw [← byteAt_drop, h]; rfl
    by_cases hf : fraction = 0
    · subst hf
      exact ⟨start + 8, Nat.le_refl _, readClock_seconds hh h2 hm h5 hs rfl⟩
    have hlength : (asciiBytes (padded 6 fraction)).length = 6 := by
      rw [length_asciiBytes, length_padded]
    rw [asciiBytes_isoFraction hf] at h ⊢
    have hpoint : byteAt s (start + 8) = 0x2e := by rw [← byteAt_drop, h]; rfl
    have hmicros : digitsAt s (start + 9) 6 = some fraction := by
      apply digitsAt_padded _ hfraction
      rw [← drop_drop, h]
      exact take_left' hlength
    refine ⟨skipDigits s (start + 15), ?_, readClock_micros hh h2 hm h5 hs ?_ hpoint hmicros⟩
    · simp [hlength, skipDigits]
    · simp [hlength]

theorem not_isZone_clockBytes (seconds fraction : ℕ) :
    ∀ b ∈ clockBytes seconds fraction false, isZone b = false := by
  rw [clockBytes, ← asciiBytes_append]
  exact forall_mem_map.mpr (forall_mem_append.mpr ⟨forall_mem_isoClock (by decide) (by decide) _ _,
    forall_mem_isoFraction (by decide) (by decide) _⟩)

/-- An offset of less than a second is not kept. -/
def readOffset (offset : ℤ) : ℤ := if offset.natAbs < 1000000 then 0 else offset

theorem asciiBytes_isoOffset (offset : ℤ) : asciiBytes (isoOffset offset) =
    (if offset < 0 then 0x2d else 0x2b) ::
      clockBytes (offset.natAbs / 1000000) (offset.natAbs % 1000000)
        (offset.natAbs % 60000000 = 0) := by
  rw [isoOffset, clockBytes]
  simp only [asciiBytes_append]
  split <;> rfl

theorem readTime_clockBytes {start : ℕ} {offset : ℤ}
    (h : s.drop start = clockBytes seconds fraction false ++ asciiBytes (isoOffset offset))
    (hseconds : seconds < 86400) (hfraction : fraction < 10 ^ 6)
    (hoffset : offset.natAbs < microsPerDay) :
    readTime s start = some (⟨seconds / 3600, seconds / 60 % 60, seconds % 60, fraction⟩,
      some (readOffset offset)) := by
  obtain ⟨more, -, hclock⟩ := readClock_clockBytes h nofun hseconds hfraction
  rw [asciiBytes_isoOffset] at h
  have htail := congrArg (List.drop (clockBytes seconds fraction false).length) h
  rw [drop_drop, drop_left] at htail
  have hstop : start + ((s.drop start).takeWhile fun b => !isZone b).length =
      start + (clockBytes seconds fraction false).length := by
    rw [h, takeWhile_append_of_pos (by simpa using not_isZone_clockBytes seconds fraction)]
    split
    · exact congrArg _ (congrArg _ (append_nil _))
    · exact congrArg _ (congrArg _ (append_nil _))
  generalize start + (clockBytes seconds fraction false).length = zone at hclock htail hstop
  have hsign : byteAt s zone = if offset < 0 then 0x2d else 0x2b := by
    have := byteAt_drop s zone 0
    rw [htail] at this
    refine this.symm.trans ?_
    split <;> rfl
  have hlength := congrArg List.length htail
  rw [length_drop, length_cons] at hlength
  have hafter := congrArg List.tail htail
  rw [tail_drop, tail_cons, ← append_nil (clockBytes _ _ _)] at hafter
  obtain ⟨j, hj, hsize⟩ := readClock_clockBytes hafter (by simp; omega)
    (by simp only [microsPerDay] at hoffset; omega) (by omega)
  have hlast : byteAt s j = 0 := by
    simp [byteAt, getElem?_eq_none (show s.length ≤ j by omega)]
  rw [← show s.length = zone + 1 + _ by omega, hlast] at hsize
  simp only [readTime, hstop, hclock, hsize, hsign, bind_some]
  rw [if_neg (by omega), if_neg (by split <;> decide), if_neg (by decide)]
  have hwhole : offset.natAbs / 1000000 / 3600 * 3600 + offset.natAbs / 1000000 / 60 % 60 * 60 +
      offset.natAbs / 1000000 % 60 = offset.natAbs / 1000000 := by omega
  rw [hwhole, readOffset]
  congr 3
  split <;> split <;> split <;> omega

/-! ## The round trip -/

theorem wallOf_of_valid (micros : ℕ) {hour minute second : ℕ} (hyear : 1 ≤ year ∧ year ≤ 9999)
    (hmonth : 1 ≤ month ∧ month ≤ 12) (hday : 1 ≤ day ∧ day ≤ daysInMonth year month)
    (hclock : hour < 24 ∧ minute < 60 ∧ second < 60) :
    wallOf (year, month, day) ⟨hour, minute, second, micros⟩ =
      utcOf ((ymd2ord year month day - 1) * microsPerDay +
        ((hour * 3600 + minute * 60 + second : ℕ) : ℤ) * 1000000 + micros) := by
  show (if _ then _ else _) = _
  rw [if_neg]
  dsimp only
  omega

theorem utcOf_val (t : Utc) : utcOf t.val = some t := by
  have h : (0 : ℤ) ≤ t.val ∧ (t.val : ℤ) < maxOrdinal * microsPerDay := by
    have := t.isLt
    omega
  rw [utcOf, dif_pos h]
  rfl

theorem toUtc_aware (t : Utc) : t.aware.toUtc = some t := by
  have : t.aware.micros = t.val := by
    rw [Aware.micros]
    exact Int.sub_zero _
  rw [Aware.toUtc, this, utcOf_val]

theorem length_of_month_le (leap : Bool) (month : ℕ) (h : month ≤ 12) :
    monthLength leap month ≤ 31 := by
  revert leap month
  decide

/-- An aware datetime without an offset of less than a second. -/
def Aware.asRead (t : Aware) : Aware where
  wall := t.wall
  offset := readOffset t.offset
  bounded := by
    unfold readOffset
    split
    · decide
    · exact t.bounded

theorem fromisoformat_dateBytes {rest : Bytes} {clock : Clock} {offset : Option ℤ}
    (hyear : year < 10 ^ 4) (hmonth : month < 10 ^ 2) (hday : day < 10 ^ 2)
    (htime : readTime (dateBytes year month day ++ rest) 11 = some (clock, offset)) :
    fromisoformat (dateBytes year month day ++ rest) =
      datetimeOf (year, month, day) clock offset := by
  have hdate := readDate_dateBytes rest hyear hmonth hday
  have hlength : (dateBytes year month day ++ rest).length = 11 + rest.length := by
    rw [length_append]
    rfl
  set s := dateBytes year month day ++ rest
  have hseparator : separatorAt s = some 10 := by
    have h4 : byteAt s 4 = 0x2d := rfl
    have h5 : byteAt s 5 = 0x30 + month / 10 % 10 := by
      show (0x30 + month / 10 % 10) % 256 = _
      omega
    simp only [separatorAt, h4, h5, if_true]
    rw [if_neg (by omega), if_neg (by omega)]
  have hT : byteAt s 10 = 0x54 := rfl
  simp only [fromisoformat, hseparator, hdate, bind_some, hT]
  rw [if_neg (by omega), if_pos (by omega)]
  simp only [separatorWidth, show (0x54 : ℕ) < 0x80 by decide, if_true, htime, bind_some]

/-- `datetime.fromisoformat(t.isoformat())` is `t`, but for an offset of less than a second. -/
theorem fromisoformat_isoformat (t : Aware) :
    fromisoformat (asciiBytes (isoformat t)) = some (.aware t.asRead) := by
  have ht := t.wall.isLt
  obtain ⟨year, month, day, hymd, hyear, hmonth, hday, hord⟩ :=
    ord2ymd_spec (Nat.le_add_left 1 (t.wall.val / microsPerDay))
      (by simp only [maxOrdinal, microsPerDay] at ht ⊢; omega)
  have hlength : daysInMonth year month ≤ 31 := length_of_month_le _ _ hmonth.2
  have hseconds : t.wall.val % microsPerDay / 1000000 < 86400 := by
    simp only [microsPerDay]
    omega
  have hclock : t.wall.val % microsPerDay / 1000000 / 3600 < 24 ∧
      t.wall.val % microsPerDay / 1000000 / 60 % 60 < 60 ∧
      t.wall.val % microsPerDay / 1000000 % 60 < 60 := by omega
  have hwall := wallOf_of_valid (t.wall.val % 1000000) hyear hmonth hday hclock
  have hmicros : ((ymd2ord year month day : ℤ) - 1) * microsPerDay +
      ((t.wall.val % microsPerDay / 1000000 / 3600 * 3600 +
        t.wall.val % microsPerDay / 1000000 / 60 % 60 * 60 +
        t.wall.val % microsPerDay / 1000000 % 60 : ℕ) : ℤ) * 1000000 +
        (t.wall.val % 1000000 : ℕ) = t.wall.val := by
    rw [hord]
    simp only [microsPerDay]
    omega
  rw [hmicros, utcOf_val] at hwall
  rw [asciiBytes_isoformat t year month day hymd]
  refine (fromisoformat_dateBytes (by omega) (by omega) (by omega)
    (readTime_clockBytes rfl hseconds (by omega) t.bounded)).trans ?_
  simp only [datetimeOf, hwall]
  exact dif_pos t.asRead.bounded

/-! ## What is written is ASCII -/

theorem isoformat_ascii (t : Aware) : ∀ c ∈ isoformat t, c.val < 0x80 := by
  let p (c : CodePoint) : Prop := c.val < 0x80
  have hdigit : ∀ d < 10, p (Fin.ofNat _ (0x30 + d)) := by decide
  have hpadded := forall_mem_padded hdigit
  have hclock := forall_mem_isoClock hdigit (show p 0x3a by decide)
  have hfraction := forall_mem_isoFraction hdigit (show p 0x2e by decide)
  have hplus : ∀ c ∈ lit "+", c.val < 0x80 := forall_mem_singleton.mpr (by decide)
  have hdash : ∀ c ∈ lit "-", c.val < 0x80 := forall_mem_singleton.mpr (by decide)
  have hT : ∀ c ∈ lit "T", c.val < 0x80 := forall_mem_singleton.mpr (by decide)
  have hsign : ∀ c ∈ lit (if t.offset < 0 then "-" else "+"), c.val < 0x80 := by
    split
    · exact hdash
    · exact hplus
  simp only [isoformat, isoOffset, forall_mem_append]
  exact ⟨⟨⟨⟨⟨⟨⟨⟨hpadded _ _, hdash⟩, hpadded _ _⟩, hdash⟩, hpadded _ _⟩, hT⟩, hclock _ _⟩,
    hfraction _⟩, ⟨hsign, hclock _ _⟩, hfraction _⟩

end Lib
