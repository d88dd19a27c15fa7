import FastapiBoilerplate.Lib.DecimalText
import FastapiBoilerplate.Payments.Base

/-!
# An amount is exact or refused

`from_decimal_string` reads all the digits of a text, and then multiplies by a power of ten with
`scaleb`, which rounds to 28 digits and has an exponent limit. Whether the amount is a whole number
of the smallest unit is asked only afterwards. So an amount is exact or refused exactly where
rounding leaves it as it is, or leaves something that is refused as well (`Unrounded`).

Writing an amount down and reading it back is exact exactly for those with at most 28 digits before
their last zeros, and at most a million in all (`roundTrips_iff`).
-/

namespace Payments

open Lib Decimal
open Decimal (readNumeral fixed)

/-- A positive number of the smallest unit. -/
def Settles (d : Decimal) : Prop := 0 < d.value ∧ d.Whole

/-- The text denotes a decimal, and that is `n` of the smallest unit. -/
def Denotes (value : Text) (c : Currency) (n : ℕ) : Prop :=
  0 < n ∧ ∃ l, readNumeral value = some (.finite l) ∧ l.decimal.value * 10 ^ c.exponent = n

/-- What is returned is the amount that the text denotes; a text that is refused denotes none, and
    the refusal is a `BadRequestError`. -/
def ExactOrRefused [Casing] (value : Text) (c : Currency) : Prop :=
  match Money.fromDecimalString value c.code with
  | .ok m => Denotes value c m.amountMinor ∧ m.currency = c
  | .error (.badRequest _) => ∀ n, ¬ Denotes value c n
  | .error .overflow => False

/-- What rounding leaves of the amount is the amount, or is no amount either. A text with more
    digits than the implementation has room for is refused. -/
def Unrounded (value : Text) (c : Currency) : Prop :=
  ∀ l, readNumeral value = some (.finite l) →
    if l.Fits then ∃ r, (l.decimal.scale c.exponent).fit = some r ∧
      (r.value = (l.decimal.scale c.exponent).value ∨ ¬ Settles r)
    else ¬ Settles (l.decimal.scale c.exponent)

def RoundTrips [Casing] (m : Money) : Prop :=
  ∃ text, m.toDecimalString = .ok text ∧ Money.fromDecimalString text m.currency.code = .ok m

/-- So many of the smallest unit. -/
def units (n : ℕ) : Decimal := ⟨false, n, 0⟩

/-! ## What a rounded number is -/

section
variable {d r : Decimal} {n : ℕ}

theorem value_scale (d : Decimal) (places : ℕ) : (d.scale places).value = d.value * 10 ^ places := by
  have hmagnitude : (d.scale places).magnitude = d.magnitude * 10 ^ places := by
    rw [magnitude, scale, zpow_add₀ (by norm_num), zpow_natCast, ← mul_assoc]
    rfl
  rw [value, value, hmagnitude, ite_mul, neg_mul]
  rfl

theorem settles_iff : Settles d ↔ ∃ n : ℕ, 0 < n ∧ d.value = n := by
  constructor
  · rintro ⟨hpos, z, hz⟩
    rw [hz, Int.cast_pos] at hpos
    obtain ⟨n, rfl⟩ := Int.eq_ofNat_of_zero_le hpos.le
    exact ⟨n, by omega, by rw [hz, Int.cast_natCast]⟩
  · rintro ⟨n, hpos, hn⟩
    exact ⟨by rw [hn]; exact_mod_cast hpos, n, by rw [hn, Int.cast_natCast]⟩

/-- Rounding keeps a positive number of the smallest unit one. -/
theorem settles_fit (h : d.fit = some r) (hd : Settles d) : Settles r := by
  obtain ⟨hsign, hpos⟩ := value_pos.mp hd.1
  obtain ⟨hwhole, hpos'⟩ := whole_fit h hpos hd.2
  exact ⟨value_pos.mpr ⟨(negative_fit h).trans hsign, hpos'⟩, hwhole⟩

theorem value_units (n : ℕ) : (units n).value = n := by
  simp [units, value, magnitude]

theorem coefficient_shorten_lt (d : Decimal) :
    d.shorten.coefficient < 10 ^ precision ∧ d.exponent ≤ d.shorten.exponent := by
  have hround : ∀ n places, roundShift n places ≤ n / 10 ^ places + 1 := by
    intro n places
    unfold roundShift
    dsimp only
    split <;> omega
  have hcut := hround d.coefficient (d.digits - precision)
  have hlt : d.coefficient / 10 ^ (d.digits - precision) < 10 ^ precision := by
    rw [Nat.div_lt_iff_lt_mul (Nat.pow_pos (by decide)), ← pow_add]
    refine lt_of_lt_of_le ((digits_le d.digits_pos).mp (Nat.le_refl _)) ?_
    exact Nat.pow_le_pow_right (by decide) (by omega)
  unfold shorten
  dsimp only
  split
  · refine ⟨Nat.pow_lt_pow_right (by decide) (by decide), ?_⟩
    simp only [cut]
    omega
  rename_i hne
  refine ⟨?_, ?_⟩
  · simp only [cut] at hne ⊢
    omega
  · simp only [cut]
    omega

/-- What fits of a whole number has 28 digits at most, and then zeros. -/
theorem short_of_fit {k : ℕ} (h : (units k).fit = some r) (hn : n ≠ 0) (hvalue : r.value = n) :
    (units n).Short ∧ (units n).digits ≤ 1000000 := by
  have hsign : r.negative = (units n).negative := (negative_fit h).trans rfl
  have hmagnitude := (value_eq_iff hsign).mp (hvalue.trans (value_units n).symm)
  have hadjusted := adjusted_eq (d := units n) hn hmagnitude
  have hk : k ≠ 0 := by
    rintro rfl
    cases h
    simp only [value, magnitude, units, Nat.cast_zero, zero_mul, neg_zero,
      ite_self] at hvalue
    exact hn (Nat.cast_eq_zero.mp hvalue.symm)
  obtain ⟨hmax, hcases⟩ := fit_of_whole h hk (whole_of_nonneg (le_refl _))
  have hbounds : r.digits ≤ precision ∧ 0 ≤ r.exponent := by
    rcases hcases with ⟨rfl, hdigits⟩ | ⟨rfl, -⟩
    · exact ⟨hdigits, le_refl _⟩
    · obtain ⟨hcoefficient, hexponent⟩ := coefficient_shorten_lt (units k)
      exact ⟨(digits_le (by decide)).mpr hcoefficient, hexponent⟩
  obtain ⟨hdigits, hexponent⟩ := hbounds
  rw [magnitude_of_nonneg hexponent, magnitude_of_nonneg (le_refl _),
    Nat.cast_inj] at hmagnitude
  unfold adjusted maxExponent at *
  have hdvd : 10 ^ r.exponent.toNat ∣ n :=
    ⟨r.coefficient, by simpa [units, mul_comm] using hmagnitude.symm⟩
  simp only [units] at hadjusted
  refine ⟨(pow_dvd_pow 10 ?_).trans hdvd, ?_⟩
  · simp only [units]
    omega
  · simp only [units]
    omega

end

/-! ## Reading -/

section
variable {value : Text} {c : Currency} {l : Decimal.Literal} {r : Decimal} {n : ℕ}

/-- What becomes of a text, and why. -/
inductive Reads (value : Text) (c : Currency) : Except MoneyError Money → Prop
  | unread (error : BadRequestError) (h : ∀ l, readNumeral value = some (.finite l) → ¬ l.Fits) :
      Reads value c (.error (.badRequest error))
  | overflow {l : Decimal.Literal} (hread : readNumeral value = some (.finite l)) (hfits : l.Fits)
      (hfit : (l.decimal.scale c.exponent).fit = none) : Reads value c (.error .overflow)
  | refused {l : Decimal.Literal} {r : Decimal} (error : BadRequestError)
      (hread : readNumeral value = some (.finite l)) (hfits : l.Fits)
      (hfit : (l.decimal.scale c.exponent).fit = some r) (hr : ¬ Settles r) :
      Reads value c (.error (.badRequest error))
  | settled {l : Decimal.Literal} {r : Decimal} (m : Money)
      (hread : readNumeral value = some (.finite l)) (hfits : l.Fits)
      (hfit : (l.decimal.scale c.exponent).fit = some r) (hr : Settles r)
      (hamount : (m.amountMinor : ℚ) = r.value) (hcurrency : m.currency = c) :
      Reads value c (.ok m)

theorem reads_ofLiteral [Casing] (hread : readNumeral value = some (.finite l)) (hfits : l.Fits) :
    Reads value c (Money.ofLiteral value c l) := by
  unfold Money.ofLiteral Money.make
  rw [normalised_code, Currency.find?_code]
  dsimp only
  split
  · exact .overflow hread hfits ‹_›
  rename_i r hfit
  split
  · rename_i hne
    exact .refused _ hread hfits hfit fun h => hne (r.value_toIntegralValue_iff.mpr h.2).symm
  rename_i heq
  have hwhole : r.Whole := r.value_toIntegralValue_iff.mp (not_not.mp heq).symm
  have hsettles : Settles r ↔ 0 < r.toInt := by
    rw [Settles, and_iff_left hwhole, ← cast_toInt hwhole, Int.cast_pos]
  split
  · rename_i hneg
    exact .refused _ hread hfits hfit (hsettles.not.mpr (not_lt.mpr hneg))
  · rename_i hpos
    refine .settled _ hread hfits hfit (hsettles.mpr (not_le.mp hpos)) ?_ rfl
    rw [← cast_toInt hwhole, ← Int.cast_natCast, Int.toNat_of_nonneg (not_le.mp hpos).le]

theorem reads [Casing] (value : Text) (c : Currency) :
    Reads value c (Money.fromDecimalString value c.code) := by
  unfold Money.fromDecimalString ofText
  rw [normalised_code, Currency.find?_code]
  cases hread : readNumeral value with
  | none => exact .unread _ fun l hl => (by cases hread.symm.trans hl)
  | some numeral =>
    cases numeral with
    | finite l =>
      by_cases hfits : l.Fits
      · simpa only [if_pos hfits] using reads_ofLiteral hread hfits
      simp only [if_neg hfits]
      refine .unread _ fun l' hl => ?_
      cases hread.symm.trans hl
      exact hfits
    | infinite | nan => exact .unread _ fun l hl => (by cases hread.symm.trans hl)

section

variable (hread : readNumeral value = some (.finite l))

include hread

theorem denotes_iff : Denotes value c n ↔ 0 < n ∧ (l.decimal.scale c.exponent).value = n := by
  rw [Denotes, hread, value_scale]
  constructor
  · rintro ⟨hn, l', hl, hvalue⟩
    cases hl
    exact ⟨hn, hvalue⟩
  · rintro ⟨hn, hvalue⟩
    exact ⟨hn, l, rfl, hvalue⟩

theorem not_denotes_iff : (∀ n, ¬ Denotes value c n) ↔ ¬ Settles (l.decimal.scale c.exponent) := by
  rw [settles_iff, ← not_exists]
  exact not_congr (exists_congr fun n => denotes_iff hread)

theorem unrounded_iff :
    Unrounded value c ↔ if l.Fits then ∃ r, (l.decimal.scale c.exponent).fit = some r ∧
      (r.value = (l.decimal.scale c.exponent).value ∨ ¬ Settles r)
    else ¬ Settles (l.decimal.scale c.exponent) := by
  rw [Unrounded, hread]
  simp only [Option.some.injEq, Decimal.Numeral.finite.injEq, forall_eq']

end

theorem exactOrRefused_iff [Casing] (value : Text) (c : Currency) :
    ExactOrRefused value c ↔ Unrounded value c := by
  have hreads := reads value c
  unfold ExactOrRefused
  generalize Money.fromDecimalString value c.code = outcome at hreads
  cases hreads with
  | unread error h =>
    by_cases hfinite : ∃ l, readNumeral value = some (.finite l)
    · obtain ⟨l, hread⟩ := hfinite
      rw [unrounded_iff hread, if_neg (h l hread)]
      exact not_denotes_iff hread
    · refine iff_of_true ?_ fun l hl => absurd ⟨l, hl⟩ hfinite
      rintro n ⟨-, l, hl, -⟩
      exact hfinite ⟨l, hl⟩
  | overflow hread hfits hfit => simp [unrounded_iff hread, if_pos hfits, hfit]
  | @refused _ r _ hread hfits hfit hr =>
    rw [unrounded_iff hread, if_pos hfits]
    refine iff_of_true ?_ ⟨r, hfit, .inr hr⟩
    exact (not_denotes_iff hread).mpr fun hd => hr (settles_fit hfit hd)
  | @settled _ _ m hread hfits hfit hr hamount hcurrency =>
    rw [unrounded_iff hread, if_pos hfits, hfit]
    simp only [Option.some.injEq, exists_eq_left', not_true_eq_false, or_false, hr]
    rw [denotes_iff hread, hamount]
    exact ⟨fun h => h.1.2.symm, fun h => ⟨⟨m.positive, h.symm⟩, hcurrency⟩⟩

end

/-! ## Writing and reading back -/

theorem read_fixed (n : ℕ) (c : Currency) : ∃ l, readNumeral (fixed n c.exponent) = some (.finite l) ∧
    l.decimal.scale c.exponent = units n ∧ l.fraction.length = c.exponent := by
  refine ⟨_, readNumeral_fixed n c.exponent, ?_, length_padded _ _⟩
  unfold Decimal.Literal.decimal scale units
  simp only [digitsValue_fixed, length_padded]
  congr 1
  omega

theorem atPlaces_of_value {d : Decimal} {places n : ℕ} (hsign : d.negative = false)
    (h : (d.scale places).value = n) : d.atPlaces places = n := by
  have hwhole : (d.scale places).Whole := ⟨n, by rw [h, Int.cast_natCast]⟩
  have hpart := cast_wholePart hwhole
  rw [value, show (d.scale places).negative = false from hsign, if_neg (by decide)] at h
  rw [h, Nat.cast_inj] at hpart
  rw [← hpart]
  unfold atPlaces wholePart
  by_cases hexponent : 0 ≤ (d.scale places).exponent
  · rw [if_pos hexponent, if_pos (by simp only [scale] at hexponent; omega)]
    rfl
  have hdvd := (whole_iff_dvd (not_le.mp hexponent)).mp hwhole
  have hplaces : -(places : ℤ) - d.exponent = -(d.scale places).exponent := by
    simp only [scale]
    omega
  rw [if_neg hexponent, if_neg (by simp only [scale] at hexponent; omega), hplaces]
  exact roundShift_of_dvd hdvd

theorem roundTrips_iff [Casing] (m : Money) :
    RoundTrips m ↔ (units m.amountMinor).Short ∧ (units m.amountMinor).digits ≤ 1000000 := by
  have hpos : m.amountMinor ≠ 0 := m.positive.ne'
  have hexponent := m.currency.exponent_le
  constructor
  · rintro ⟨text, htext, hfrom⟩
    unfold Money.toDecimalString at htext
    split at htext
    · cases htext
    rename_i d hd
    cases htext
    have hsign : d.negative = false := negative_fit hd
    rw [formatFixed, hsign] at hfrom
    obtain ⟨l, hread, hunits, -⟩ := read_fixed (d.atPlaces m.exponent) m.currency
    have hreads := reads (fixed (d.atPlaces m.exponent) m.exponent) m.currency
    have hfrom' : Money.fromDecimalString (fixed (d.atPlaces m.exponent) m.exponent)
        m.currency.code = .ok m := hfrom
    rw [hfrom'] at hreads
    cases hreads with
    | settled _ hread' _ hfit _ hamount =>
      cases hread.symm.trans hread'
      rw [hunits] at hfit
      exact short_of_fit hfit hpos hamount.symm
  · rintro ⟨hshort, hdigits⟩
    have hlong := (units m.amountMinor).digits_pos
    -- `scaleb` divides by a power of ten, and then multiplies by it: neither rounds
    have hfit : ∀ places : ℕ, places ≤ 3 → ∃ r,
        ((units m.amountMinor).scale (-places)).fit = some r ∧
          r.value = ((units m.amountMinor).scale (-places)).value := by
      intro places hplaces
      have hadjusted : ((units m.amountMinor).scale (-places)).adjusted =
          -places + (units m.amountMinor).digits - 1 := congrArg (· + _ - 1) (zero_add _)
      refine fit_of_short hpos ?_ ?_ hshort
      · rw [hadjusted, minExponent]
        omega
      · rw [hadjusted, maxExponent]
        omega
    obtain ⟨d, hd, hvalue⟩ := hfit m.exponent hexponent
    have hback : (d.scale m.exponent).value = m.amountMinor := by
      rw [value_scale, hvalue, ← value_scale, ← value_units]
      simp [scale, units]
    have htext : m.toDecimalString = .ok (fixed m.amountMinor m.exponent) := by
      have hsign : d.negative = false := negative_fit hd
      unfold Money.toDecimalString
      rw [show (mk false m.amountMinor 0).scaleb (-m.exponent) = some d from hd]
      dsimp only
      rw [formatFixed, hsign, atPlaces_of_value hsign hback]
      rfl
    obtain ⟨l, hread, hunits, hfraction⟩ := read_fixed m.amountMinor m.currency
    obtain ⟨r, hr, hamount⟩ := hfit 0 (by decide)
    rw [show (units m.amountMinor).scale (-(0 : ℕ)) = units m.amountMinor from rfl] at hr hamount
    rw [value_units] at hamount
    have hfits : l.Fits := by
      have hcoefficient := congrArg digits hunits
      change l.decimal.digits = _ at hcoefficient
      have hplaces : l.decimal.exponent + m.currency.exponent = 0 :=
        congrArg exponent hunits
      unfold Decimal.Literal.Fits adjusted
      omega
    refine ⟨_, htext, ?_⟩
    have hreads := reads (fixed m.amountMinor m.exponent) m.currency
    generalize Money.fromDecimalString _ _ = outcome at hreads ⊢
    cases hreads with
    | unread _ h => exact absurd hfits (h l hread)
    | overflow hread' _ hfit =>
      cases hread.symm.trans hread'
      cases (hunits ▸ hfit).symm.trans hr
    | refused _ hread' _ hfit h =>
      cases hread.symm.trans hread'
      cases (hunits ▸ hfit).symm.trans hr
      exact absurd (settles_iff.mpr ⟨_, m.positive, hamount⟩) h
    | settled m' hread' _ hfit _ hminor hcurrency =>
      cases hread.symm.trans hread'
      cases (hunits ▸ hfit).symm.trans hr
      rw [hamount, Nat.cast_inj] at hminor
      cases m
      cases m'
      cases hminor
      cases hcurrency
      rfl

/-- A text is read exactly or refused if and only if rounding leaves its amount alone, and an
    amount comes back from what it is written as if and only if it has no more digits than
    `decimal` keeps. -/
theorem money_exact_iff [Casing] :
    (∀ value c, ExactOrRefused value c ↔ Unrounded value c) ∧
    (∀ m, RoundTrips m ↔
      (units m.amountMinor).Short ∧ (units m.amountMinor).digits ≤ 1000000) :=
  ⟨exactOrRefused_iff, roundTrips_iff⟩

/-- A little over a cent is taken for one cent. -/
theorem fraction_of_a_cent_is_lost : ∃ casing : Casing,
    Money.fromDecimalString (lit "0.010000000000000000000000000001") (lit "USD") =
      .ok ⟨1, .usd, by decide⟩ ∧
    ¬ ExactOrRefused (lit "0.010000000000000000000000000001") .usd := by
  let casing : Casing := ⟨fun c => upperAscii [c], fun _ _ => rfl⟩
  have hfrom : Money.fromDecimalString (lit "0.010000000000000000000000000001") (lit "USD") =
      .ok ⟨1, .usd, by decide⟩ := by
    decide +kernel
  refine ⟨casing, hfrom, ?_⟩
  rw [ExactOrRefused, show Currency.usd.code = lit "USD" from rfl, hfrom]
  rintro ⟨⟨-, l, hl, hvalue⟩, -⟩
  cases hl
  revert hvalue
  decide +kernel

end Payments
