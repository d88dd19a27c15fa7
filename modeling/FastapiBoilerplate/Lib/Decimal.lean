import FastapiBoilerplate.Lib.Calendar
import FastapiBoilerplate.Lib.JsonText
import Mathlib.Algebra.Order.Field.Power
import Mathlib.Algebra.Order.Field.Rat
import Mathlib.Data.Nat.Cast.Field
import Mathlib.Tactic.FieldSimp
import Mathlib.Tactic.Ring

/-!
# Decimals as Python computes with them

A finite `decimal.Decimal` is a sign, a coefficient and an exponent. Reading one from a text keeps
all its digits. Arithmetic does not: a result is made to fit the context, here the default one, of
28 digits and exponents up to 999999. What has more digits is rounded to the nearest, a tie to the
even one, and says nothing; what has too large an exponent raises `Overflow` (`fit`).

Rounding keeps a whole number whole (`whole_fit`), but may make one of a number that is none, or
another one. It changes nothing exactly where the digits beyond the 28th are zeros
(`value_shorten_iff`).
-/

namespace Lib

structure Decimal where
  negative : Bool
  coefficient : ℕ
  exponent : ℤ
  deriving DecidableEq

namespace Decimal

/-! ## Values -/

def magnitude (d : Decimal) : ℚ := d.coefficient * 10 ^ d.exponent

def value (d : Decimal) : ℚ := if d.negative then -d.magnitude else d.magnitude

/-- How many digits the coefficient has. -/
def digits (d : Decimal) : ℕ := (decimal d.coefficient).length

/-- The exponent of the first digit. -/
def adjusted (d : Decimal) : ℤ := d.exponent + d.digits - 1

/-- The same digits, with the point elsewhere. -/
def scale (d : Decimal) (places : ℤ) : Decimal := { d with exponent := d.exponent + places }

/-- `n / 10 ** places`, to the nearest, a tie to the even one. -/
def roundShift (n places : ℕ) : ℕ :=
  let q := n / 10 ^ places
  let r := n % 10 ^ places
  if 2 * r < 10 ^ places ∨ 2 * r = 10 ^ places ∧ q % 2 = 0 then q else q + 1

/-- Without the last digits. -/
def cut (d : Decimal) (places : ℕ) : Decimal :=
  { d with
    coefficient := roundShift d.coefficient places
    exponent := d.exponent + places }

/-- `to_integral_value`. -/
def toIntegralValue (d : Decimal) : Decimal :=
  if 0 ≤ d.exponent then d else d.cut (-d.exponent).toNat

/-- The digits before the point. -/
def wholePart (d : Decimal) : ℕ :=
  if 0 ≤ d.exponent then d.coefficient * 10 ^ d.exponent.toNat
  else d.coefficient / 10 ^ (-d.exponent).toNat

/-- `int(d)`, towards zero. -/
def toInt (d : Decimal) : ℤ := if d.negative then -d.wholePart else d.wholePart

/-! ## The default context -/

def precision : ℕ := 28
def maxExponent : ℤ := 999999
def minExponent : ℤ := -999999

/-- The exponent of the last digit of a subnormal number. -/
def tinyExponent : ℤ := minExponent - (precision - 1)

/-- What is left of more digits than there are; nines may go up to a power of ten. -/
def shorten (d : Decimal) : Decimal :=
  let r := d.cut (d.digits - precision)
  if r.coefficient = 10 ^ precision then
    { r with
      coefficient := 10 ^ (precision - 1)
      exponent := r.exponent + 1 }
  else r

/-- The result of an operation, made to fit the context; none is `Overflow`. -/
def fit (d : Decimal) : Option Decimal :=
  if d.coefficient = 0 then
    some { d with exponent := min (max d.exponent tinyExponent) maxExponent }
  else if maxExponent < d.adjusted then none
  else if d.adjusted < minExponent then
    some (if d.exponent < tinyExponent then d.cut (tinyExponent - d.exponent).toNat else d)
  else if precision < d.digits then
    if maxExponent < d.shorten.adjusted then none else some d.shorten
  else some d

/-- `scaleb`. -/
def scaleb (d : Decimal) (places : ℤ) : Option Decimal := (d.scale places).fit

/-! ## Reading and writing -/

/-- The digits of a number, as they are written. -/
structure Literal where
  negative : Bool
  whole : Text
  fraction : Text
  exponent : ℤ

def digitsValue (text : Text) : ℕ := text.foldl (fun v c => v * 10 + (c.val - 48)) 0

/-- The number that is written. -/
def Literal.decimal (l : Literal) : Decimal :=
  ⟨l.negative, digitsValue (l.whole ++ l.fraction), l.exponent - l.fraction.length⟩

/-- What a text may denote. -/
inductive Numeral
  | finite (literal : Literal)
  | infinite (negative : Bool)
  | nan

def isSign (c : CodePoint) : Bool := c.val = 0x2b || c.val = 0x2d

/-- The exponent after the digits, if there is one; none if there is something else. -/
def scanPower : Text → Option ℤ
  | [] => some 0
  | c :: rest =>
    let (sign, digits) := Json.scanSign isSign rest
    if (c.val = 0x65 ∨ c.val = 0x45) ∧ digits ≠ [] ∧ digits.all Json.isAsciiDigit then
      some (if sign = [0x2d] then -(digitsValue digits : ℤ) else digitsValue digits)
    else none

/-- The digits after the point, if there is one. -/
def scanPlaces : Text → Text × Text
  | [] => ([], [])
  | c :: rest => if c.val = 0x2e then rest.span Json.isAsciiDigit else ([], c :: rest)

def scanLiteral (negative : Bool) (body : Text) : Option Literal :=
  let (whole, rest) := body.span Json.isAsciiDigit
  let (fraction, rest) := scanPlaces rest
  if whole ++ fraction = [] then none
  else (scanPower rest).map fun exponent => ⟨negative, whole, fraction, exponent⟩

/-- White space around it and underscores in it do not count, and digits may be of any script. -/
def plainText (text : Text) : Option Text :=
  ((strip text).filter (·.val ≠ 0x5f)).mapM fun c =>
    if 0 < c.val ∧ c.val < 0x80 then some c
    else if isSpace c then some 0x20
    else (decimalValue c).map digitPoint

/-- A sign, and a word or digits. -/
def scanNumeral (text : Text) : Option Numeral :=
  let (sign, body) := Json.scanSign isSign text
  let negative : Bool := sign = [0x2d]
  let lower := lowerAscii body
  let payload := (Json.after (lit "nan") lower).orElse fun _ => Json.after (lit "snan") lower
  if lower = lit "inf" ∨ lower = lit "infinity" then some (.infinite negative)
  else if payload.any (·.all Json.isAsciiDigit) then some .nan
  else (scanLiteral negative body).map .finite

/-- What a text denotes; none if it is no numeral. -/
def readNumeral (text : Text) : Option Numeral := (plainText text).bind scanNumeral

/-- The limits of the implementation itself, beyond any context. -/
def Literal.Fits (l : Literal) : Prop :=
  l.fraction.length ≤ 999999999999999999 ∧ l.decimal.digits ≤ 999999999999999999 ∧
    l.decimal.adjusted ≤ 999999999999999999 ∧ -1999999999999999997 ≤ l.decimal.exponent

instance (l : Literal) : Decidable l.Fits := inferInstanceAs (Decidable (_ ∧ _))

/-- `Decimal(text)`; none is `InvalidOperation`. -/
def ofText (text : Text) : Option Numeral :=
  match readNumeral text with
  | some (.finite l) => if l.Fits then some (.finite l) else none
  | numeral => numeral

/-- The coefficient at so many places, to the nearest. -/
def atPlaces (d : Decimal) (places : ℕ) : ℕ :=
  if -(places : ℤ) ≤ d.exponent then d.coefficient * 10 ^ (d.exponent + places).toNat
  else roundShift d.coefficient (-(places : ℤ) - d.exponent).toNat

/-- A number of the smallest unit, with the point before the last places. -/
def fixed (n places : ℕ) : Text :=
  if places = 0 then Lib.decimal n
  else Lib.decimal (n / 10 ^ places) ++ [0x2e] ++ padded places (n % 10 ^ places)

/-- `format(d, ".2f")`, of so many places. -/
def formatFixed (d : Decimal) (places : ℕ) : Text :=
  (if d.negative then [0x2d] else []) ++ fixed (d.atPlaces places) places

/-! ## Rounding -/

theorem le_roundShift (n places : ℕ) : n / 10 ^ places ≤ roundShift n places := by
  unfold roundShift
  dsimp only
  split
  · exact Nat.le_refl _
  · exact Nat.le_succ _

variable {n places : ℕ} {d r d' : Decimal}

theorem roundShift_of_dvd (h : 10 ^ places ∣ n) : roundShift n places = n / 10 ^ places := by
  have hpos : 0 < 10 ^ places := Nat.pow_pos (by decide)
  unfold roundShift
  dsimp only
  rw [Nat.mod_eq_zero_of_dvd h, if_pos (.inl (by omega))]

theorem roundShift_mul_iff : roundShift n places * 10 ^ places = n ↔ 10 ^ places ∣ n := by
  constructor
  · intro h
    exact ⟨roundShift n places, by rw [Nat.mul_comm, h]⟩
  · intro h
    rw [roundShift_of_dvd h, Nat.div_mul_cancel h]

theorem ten_zpow_pos (x : ℤ) : (0 : ℚ) < 10 ^ x := zpow_pos (by norm_num) x

theorem magnitude_nonneg (d : Decimal) : 0 ≤ d.magnitude :=
  mul_nonneg (Nat.cast_nonneg _) (ten_zpow_pos _).le

theorem magnitude_pos : 0 < d.magnitude ↔ d.coefficient ≠ 0 := by
  rw [magnitude, mul_pos_iff_of_pos_right (ten_zpow_pos _), Nat.cast_pos, Nat.pos_iff_ne_zero]

theorem value_eq_iff (h : d'.negative = d.negative) :
    d'.value = d.value ↔ d'.magnitude = d.magnitude := by
  rw [value, value, h]
  split
  · exact neg_inj
  · exact Iff.rfl

theorem value_pos : 0 < d.value ↔ d.negative = false ∧ d.coefficient ≠ 0 := by
  rw [← magnitude_pos, value]
  have hnonneg := d.magnitude_nonneg
  cases d.negative with
  | true =>
    refine iff_of_false ?_ nofun
    exact not_lt.mpr (neg_nonpos.mpr hnonneg)
  | false => exact (and_iff_right rfl).symm

theorem magnitude_cut (d : Decimal) (places : ℕ) :
    (d.cut places).magnitude =
      ((roundShift d.coefficient places * 10 ^ places : ℕ) : ℚ) * 10 ^ d.exponent := by
  rw [magnitude, cut, zpow_add₀ (by norm_num), zpow_natCast]
  push_cast
  ring

theorem value_cut_iff (d : Decimal) (places : ℕ) :
    (d.cut places).value = d.value ↔ 10 ^ places ∣ d.coefficient := by
  have hsign : (d.cut places).negative = d.negative := rfl
  rw [value_eq_iff hsign, magnitude_cut, magnitude, mul_left_inj' (ten_zpow_pos _).ne', Nat.cast_inj,
    roundShift_mul_iff]

/-! ## Whole numbers -/

def Whole (d : Decimal) : Prop := ∃ n : ℤ, d.value = n

theorem magnitude_of_nonneg (h : 0 ≤ d.exponent) :
    d.magnitude = (d.coefficient * 10 ^ d.exponent.toNat : ℕ) := by
  obtain ⟨x, hx⟩ := Int.eq_ofNat_of_zero_le h
  rw [magnitude, hx, Int.toNat_natCast, zpow_natCast]
  push_cast
  rfl

theorem magnitude_of_neg (h : d.exponent < 0) :
    d.magnitude = d.coefficient / (10 ^ (-d.exponent).toNat : ℕ) := by
  obtain ⟨x, hx⟩ := Int.eq_ofNat_of_zero_le (neg_nonneg.mpr h.le)
  have hexp : d.exponent = -(x : ℤ) := by omega
  rw [magnitude, hexp, neg_neg, Int.toNat_natCast, zpow_neg, zpow_natCast]
  push_cast
  rfl

theorem whole_iff_magnitude : d.Whole ↔ ∃ n : ℤ, d.magnitude = n := by
  unfold Whole value
  split
  · constructor
    · rintro ⟨n, hn⟩
      exact ⟨-n, by rw [Int.cast_neg, ← hn, neg_neg]⟩
    · rintro ⟨n, hn⟩
      exact ⟨-n, by rw [Int.cast_neg, hn]⟩
  · exact Iff.rfl

theorem whole_of_nonneg (h : 0 ≤ d.exponent) : d.Whole :=
  whole_iff_magnitude.mpr ⟨(d.coefficient * 10 ^ d.exponent.toNat : ℕ), by
    rw [magnitude_of_nonneg h, Int.cast_natCast]⟩

theorem whole_iff_dvd (h : d.exponent < 0) :
    d.Whole ↔ 10 ^ (-d.exponent).toNat ∣ d.coefficient := by
  have hpos : (0 : ℚ) < (10 ^ (-d.exponent).toNat : ℕ) := by
    rw [Nat.cast_pos]
    exact Nat.pow_pos (by decide)
  rw [whole_iff_magnitude, magnitude_of_neg h]
  constructor
  · rintro ⟨n, hn⟩
    rw [div_eq_iff hpos.ne'] at hn
    apply Int.natCast_dvd_natCast.mp
    exact ⟨n, by rw [Int.mul_comm]; exact_mod_cast hn⟩
  · rintro ⟨n, hn⟩
    refine ⟨n, ?_⟩
    rw [div_eq_iff hpos.ne', hn]
    push_cast
    ring

theorem value_toIntegralValue_iff (d : Decimal) : d.toIntegralValue.value = d.value ↔ d.Whole := by
  unfold toIntegralValue
  split
  · exact iff_of_true rfl (whole_of_nonneg ‹_›)
  · rename_i h
    rw [value_cut_iff, whole_iff_dvd (not_le.mp h)]

theorem cast_wholePart (h : d.Whole) : (d.wholePart : ℚ) = d.magnitude := by
  unfold wholePart
  split
  · rw [magnitude_of_nonneg ‹_›]
  rename_i hneg
  have hdvd := (whole_iff_dvd (not_le.mp hneg)).mp h
  rw [magnitude_of_neg (not_le.mp hneg), Nat.cast_div hdvd]
  rw [Nat.cast_ne_zero]
  exact (Nat.pow_pos (by decide)).ne'

theorem cast_toInt (h : d.Whole) : (d.toInt : ℚ) = d.value := by
  unfold toInt value
  rw [← cast_wholePart h]
  cases d.negative <;> simp

/-! ## What fits -/

theorem digits_le (hn : 0 < n) : d.digits ≤ n ↔ d.coefficient < 10 ^ n :=
  length_decimal_le hn

theorem lt_digits (hn : 0 < n) : n < d.digits ↔ 10 ^ n ≤ d.coefficient := by
  rw [← not_le, digits_le hn, not_lt]

theorem digits_pos (d : Decimal) : 0 < d.digits :=
  List.length_pos_iff.mpr (decimal_ne_nil _)

/-- At most 28 digits, and zeros. -/
def Short (d : Decimal) : Prop := 10 ^ (d.digits - precision) ∣ d.coefficient

theorem negative_shorten (d : Decimal) : d.shorten.negative = d.negative := by
  unfold shorten
  dsimp only
  split <;> rfl

theorem magnitude_shorten (d : Decimal) :
    d.shorten.magnitude = (d.cut (d.digits - precision)).magnitude := by
  unfold shorten
  dsimp only
  split
  · rename_i hcarry
    rw [magnitude, magnitude, hcarry, zpow_add₀ (by norm_num)]
    norm_num [precision]
    ring
  · rfl

theorem value_shorten_iff (d : Decimal) : d.shorten.value = d.value ↔ d.Short := by
  have hsign : (d.cut (d.digits - precision)).negative = d.negative := rfl
  rw [value_eq_iff d.negative_shorten, magnitude_shorten, ← value_eq_iff hsign, value_cut_iff]
  rfl

/-- The first digit says between which powers of ten a number is. -/
theorem magnitude_bounds (h : d.coefficient ≠ 0) :
    10 ^ d.adjusted ≤ d.magnitude ∧ d.magnitude < 10 ^ (d.adjusted + 1) := by
  have hpos := ten_zpow_pos d.exponent
  have hupper : d.coefficient < 10 ^ d.digits := (digits_le d.digits_pos).mp (Nat.le_refl _)
  have hlower : 10 ^ (d.digits - 1) ≤ d.coefficient := by
    by_cases hone : d.digits = 1
    · rw [hone]
      exact Nat.pos_of_ne_zero h
    · have hlt : 0 < d.digits - 1 := by have := d.digits_pos; omega
      exact (lt_digits hlt).mp (by omega)
  have hdigits : d.adjusted = ((d.digits - 1 : ℕ) : ℤ) + d.exponent := by
    have := d.digits_pos
    unfold adjusted
    omega
  have hdigits' : d.adjusted + 1 = (d.digits : ℤ) + d.exponent := by
    unfold adjusted
    omega
  constructor
  · rw [hdigits, zpow_add₀ (by norm_num), zpow_natCast, magnitude]
    exact mul_le_mul_of_nonneg_right (by exact_mod_cast hlower) hpos.le
  · rw [hdigits', zpow_add₀ (by norm_num), zpow_natCast, magnitude]
    exact mul_lt_mul_of_pos_right (by exact_mod_cast hupper) hpos

theorem adjusted_eq (hpos : d.coefficient ≠ 0) (h : d'.magnitude = d.magnitude) :
    d'.adjusted = d.adjusted := by
  have hpos' : d'.coefficient ≠ 0 := by
    rw [← magnitude_pos, h, magnitude_pos]
    exact hpos
  obtain ⟨hlower, hupper⟩ := magnitude_bounds hpos
  obtain ⟨hlower', hupper'⟩ := magnitude_bounds hpos'
  have hten : (1 : ℚ) < 10 := by norm_num
  rw [h] at hlower' hupper'
  have hle := (zpow_lt_zpow_iff_right₀ hten).mp (hlower'.trans_lt hupper)
  have hge := (zpow_lt_zpow_iff_right₀ hten).mp (hlower.trans_lt hupper')
  omega

theorem negative_fit (h : d.fit = some r) : r.negative = d.negative := by
  unfold fit at h
  split at h
  · cases h
    rfl
  split at h
  · cases h
  split at h
  · cases h
    split <;> rfl
  split at h
  · split at h <;> cases h
    exact d.negative_shorten
  · cases h
    rfl

theorem adjusted_nonneg_of_whole (hpos : d.coefficient ≠ 0) (h : d.Whole) : 0 ≤ d.adjusted := by
  have hdigits := d.digits_pos
  by_cases hx : 0 ≤ d.exponent
  · unfold adjusted
    omega
  · have hdvd := (whole_iff_dvd (not_le.mp hx)).mp h
    have hle := Nat.le_of_dvd (Nat.pos_of_ne_zero hpos) hdvd
    have hlt := (lt_digits (by omega)).mpr hle
    unfold adjusted
    omega

theorem whole_shorten (h : d.Whole) : d.shorten.Whole := by
  rw [whole_iff_magnitude, magnitude_shorten, ← whole_iff_magnitude]
  by_cases hx : 0 ≤ (d.cut (d.digits - precision)).exponent
  · exact whole_of_nonneg hx
  -- the last digits are behind the point, and a whole number has none there
  have hx' : d.exponent + (d.digits - precision : ℕ) < 0 := not_le.mp hx
  have hneg : d.exponent < 0 := by omega
  have hdvd := (whole_iff_dvd hneg).mp h
  have hcut : (d.cut (d.digits - precision)).value = d.value := by
    rw [value_cut_iff]
    exact (pow_dvd_pow 10 (by omega)).trans hdvd
  obtain ⟨n, hn⟩ := h
  exact ⟨n, hcut.trans hn⟩

theorem coefficient_shorten (hlong : precision < d.digits) : d.shorten.coefficient ≠ 0 := by
  rw [← magnitude_pos, magnitude_shorten, magnitude_pos]
  have hle := le_roundShift d.coefficient (d.digits - precision)
  have hlong' : 10 ^ (d.digits - 1) ≤ d.coefficient :=
    (lt_digits (by unfold precision at hlong; omega)).mp (by omega)
  have hpow : 10 ^ (d.digits - precision) ≤ 10 ^ (d.digits - 1) :=
    Nat.pow_le_pow_right (by decide) (by unfold precision at hlong ⊢; omega)
  have hdiv : 0 < d.coefficient / 10 ^ (d.digits - precision) :=
    Nat.div_pos (hpow.trans hlong') (Nat.pow_pos (by decide))
  exact (hdiv.trans_le hle).ne'

theorem fit_of_whole (h : d.fit = some r) (hpos : d.coefficient ≠ 0) (hwhole : d.Whole) :
    r.adjusted ≤ maxExponent ∧ (r = d ∧ d.digits ≤ precision ∨ r = d.shorten ∧ precision < d.digits) := by
  unfold fit at h
  rw [if_neg hpos] at h
  split at h
  · cases h
  split at h
  · rename_i hsmall
    have := adjusted_nonneg_of_whole hpos hwhole
    unfold minExponent at hsmall
    omega
  split at h
  · rename_i hlong
    split at h <;> cases h
    exact ⟨not_lt.mp ‹_›, .inr ⟨rfl, hlong⟩⟩
  · cases h
    exact ⟨not_lt.mp ‹_›, .inl ⟨rfl, not_lt.mp ‹_›⟩⟩

theorem whole_fit (h : d.fit = some r) (hpos : d.coefficient ≠ 0) (hwhole : d.Whole) :
    r.Whole ∧ r.coefficient ≠ 0 := by
  obtain ⟨-, ⟨rfl, -⟩ | ⟨rfl, hlong⟩⟩ := fit_of_whole h hpos hwhole
  · exact ⟨hwhole, hpos⟩
  · exact ⟨whole_shorten hwhole, coefficient_shorten hlong⟩

theorem fit_of_short (hpos : d.coefficient ≠ 0) (hnormal : minExponent ≤ d.adjusted)
    (hmax : d.adjusted ≤ maxExponent) (h : d.Short) : ∃ r, d.fit = some r ∧ r.value = d.value := by
  have hvalue := d.value_shorten_iff.mpr h
  have hadjusted := adjusted_eq hpos ((value_eq_iff d.negative_shorten).mp hvalue)
  unfold fit
  rw [if_neg hpos, if_neg (not_lt.mpr hmax), if_neg (not_lt.mpr hnormal), hadjusted,
    if_neg (not_lt.mpr hmax)]
  split
  · exact ⟨_, rfl, hvalue⟩
  · exact ⟨_, rfl, rfl⟩

end Decimal

end Lib
