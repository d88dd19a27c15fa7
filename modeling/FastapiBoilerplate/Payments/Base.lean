import FastapiBoilerplate.Lib.Decimal

/-!
# Money

`payments/base.py`: the currencies and their exponents, and `Money`. An amount is a positive number
of a currency's smallest unit; neither another amount nor another currency can be built, so both
are fields here. The constructor checks what it is given (`Money.make`).

A `Money` goes to a provider and comes back from it as a decimal string. Both ways go through
`decimal` under its default context, and `scaleb` is an operation that rounds.
-/

namespace Payments

open Lib

/-! ## Currencies -/

inductive Currency
  | aud | bhd | cad | chf | eur | gbp | jpy | krw | kwd | nzd | sek | sgd | tnd | usd
  deriving DecidableEq

namespace Currency

def all : List Currency :=
  [aud, bhd, cad, chf, eur, gbp, jpy, krw, kwd, nzd, sek, sgd, tnd, usd]

def code : Currency → Text
  | aud => lit "AUD"
  | bhd => lit "BHD"
  | cad => lit "CAD"
  | chf => lit "CHF"
  | eur => lit "EUR"
  | gbp => lit "GBP"
  | jpy => lit "JPY"
  | krw => lit "KRW"
  | kwd => lit "KWD"
  | nzd => lit "NZD"
  | sek => lit "SEK"
  | sgd => lit "SGD"
  | tnd => lit "TND"
  | usd => lit "USD"

/-- `CURRENCY_EXPONENTS`. -/
def exponent : Currency → ℕ
  | jpy | krw => 0
  | bhd | kwd | tnd => 3
  | aud | cad | chf | eur | gbp | nzd | sek | sgd | usd => 2

/-- The entry of the table with this key. -/
def find? (code : Text) : Option Currency := all.find? (·.code = code)

theorem find?_code (c : Currency) : find? c.code = some c := by
  cases c <;> decide +kernel

theorem exponent_le (c : Currency) : c.exponent ≤ 3 := by
  cases c <;> decide

end Currency

/-- `code.strip().upper()`. -/
def normalised [Casing] (code : Text) : Text := upper (strip code)

theorem normalised_code [Casing] (c : Currency) : normalised c.code = c.code := by
  have hupper : ∀ text : Text, text.all (·.val < 0x80) = true → upper text = upperAscii text := by
    intro text htext
    induction text with
    | nil => rfl
    | cons c text ih =>
      rw [List.all_cons, Bool.and_eq_true, decide_eq_true_eq] at htext
      rw [upper, List.flatMap_cons, Casing.upper_ascii c htext.1]
      exact congrArg (upperAscii [c] ++ ·) (ih htext.2)
  rw [normalised, hupper]
  all_goals cases c <;> decide +kernel

/-! ## Money -/

/-- What an exception carries beside its message. -/
inductive Detail
  | text (value : Text)
  | number (n : ℤ)
  | texts (values : List Text)
  deriving DecidableEq

structure BadRequestError where
  errorCode : Text := lit "BAD_REQUEST"
  message : Text
  details : List (Text × Detail)
  deriving DecidableEq

def unsupportedCurrencyError (currency : Text) : BadRequestError where
  errorCode := lit "UNSUPPORTED_CURRENCY"
  message := lit "Currency '" ++ currency ++ lit "' is not supported."
  details := [(lit "currency", .text currency),
    (lit "supported", .texts (Currency.all.map (·.code)))]

/-- What the operations on money raise; the second is `decimal.Overflow`. -/
inductive MoneyError
  | badRequest (error : BadRequestError)
  | overflow
  deriving DecidableEq

structure Money where
  amountMinor : ℕ
  currency : Currency
  positive : 0 < amountMinor
  deriving DecidableEq

namespace Money

def exponent (m : Money) : ℕ := m.currency.exponent

/-- The constructor. -/
def make [Casing] (amountMinor : ℤ) (currency : Text) : Except MoneyError Money :=
  match Currency.find? (normalised currency) with
  | none => .error (.badRequest (unsupportedCurrencyError (normalised currency)))
  | some currency =>
    if h : amountMinor ≤ 0 then
      .error (.badRequest {
        message := lit "Payment amount must be positive."
        details := [(lit "amount_minor", .number amountMinor)] })
    else .ok ⟨amountMinor.toNat, currency, by omega⟩

def toDecimalString (m : Money) : Except MoneyError Text :=
  match (Decimal.mk false m.amountMinor 0).scaleb (-m.exponent) with
  | none => .error .overflow
  | some value => .ok (value.formatFixed m.exponent)

/-- The digits that were read, in the smallest unit. -/
def ofLiteral [Casing] (value : Text) (currency : Currency) (literal : Decimal.Literal) :
    Except MoneyError Money :=
  match literal.decimal.scaleb currency.exponent with
  | none => .error .overflow
  | some scaled =>
    if scaled.value ≠ scaled.toIntegralValue.value then
      .error (.badRequest {
        message := lit "Payment amount '" ++ value ++ lit "' has more precision than " ++
          currency.code ++ lit " settles in."
        details := [(lit "value", .text value), (lit "currency", .text currency.code)] })
    else make scaled.toInt currency.code

def fromDecimalString [Casing] (value currency : Text) : Except MoneyError Money :=
  match Currency.find? (normalised currency) with
  | none => .error (.badRequest (unsupportedCurrencyError (normalised currency)))
  | some currency =>
    match Decimal.ofText value with
    | none =>
      .error (.badRequest {
        message := lit "Payment amount is not a decimal number."
        details := [(lit "value", .text value)] })
    | some (.finite literal) => ofLiteral value currency literal
    | some (.infinite _) | some .nan =>
      .error (.badRequest {
        message := lit "Payment amount is not a finite number."
        details := [(lit "value", .text value)] })

end Money

end Payments
