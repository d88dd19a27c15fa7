import FastapiBoilerplate.Lib.CalendarRoundTrip
import FastapiBoilerplate.Lib.Decimal

/-!
# A decimal that is written is read back

`Decimal.fixed n places` is `n` of a smallest unit, written in the unit that has `10 ** places` of
it. It is a numeral, and denotes what was written (`readNumeral_fixed`).
-/

namespace Lib

open List

namespace Decimal

/-- A digit or the point. -/
def isNumeric (c : CodePoint) : Bool := Json.isAsciiDigit c || c.val = 0x2e

theorem isAsciiDigit_digitPoint : ∀ d < 10, Json.isAsciiDigit (digitPoint d) = true := by
  decide

variable {c : CodePoint}

theorem isAsciiDigit_of_mem_decimal {n : ℕ} (h : c ∈ Lib.decimal n) :
    Json.isAsciiDigit c = true := by
  obtain ⟨d, hd, rfl⟩ := digitPoint_of_mem_decimal h
  exact isAsciiDigit_digitPoint d hd

theorem padded_succ (width n : ℕ) :
    padded (width + 1) n = padded width (n / 10) ++ [digitPoint (n % 10)] := rfl

theorem isAsciiDigit_of_mem_padded {width n : ℕ} (h : c ∈ padded width n) :
    Json.isAsciiDigit c = true :=
  forall_mem_padded (p := fun c => Json.isAsciiDigit c = true) isAsciiDigit_digitPoint width n c h

theorem isNumeric_of_mem_fixed {n places : ℕ} (h : c ∈ fixed n places) : isNumeric c = true := by
  unfold fixed at h
  unfold isNumeric
  split at h
  · rw [isAsciiDigit_of_mem_decimal h]
    rfl
  rcases mem_append.mp h with h | h
  · rcases mem_append.mp h with h | h
    · rw [isAsciiDigit_of_mem_decimal h]
      rfl
    · cases mem_singleton.mp h
      rfl
  · rw [isAsciiDigit_of_mem_padded h]
    rfl

/-! ## Digits and a point are read as they are -/

theorem mapM_eq_self {f : CodePoint → Option CodePoint} {text : Text} (h : ∀ c ∈ text, f c = some c)
    : text.mapM f = some text := by
  induction text with
  | nil => rfl
  | cons c text ih =>
    rw [forall_mem_cons] at h
    rw [mapM_cons, h.1, ih h.2]
    rfl

section
variable {text : Text} (h : ∀ c ∈ text, isNumeric c = true)

include h

theorem isNumeric_val (hc : c ∈ text) : 0x2e ≤ c.val ∧ c.val ≤ 0x39 := by
  have hnumeric := h c hc
  simp only [isNumeric, Json.isAsciiDigit, Bool.or_eq_true, Bool.and_eq_true,
    decide_eq_true_eq] at hnumeric
  omega

theorem strip_of_numeric : strip text = text := by
  have hkept : ∀ l : Text, (∀ c ∈ l, c ∈ text) → l.dropWhile isSpace = l := by
    intro l hl
    cases l with
    | nil => rfl
    | cons c =>
      have hval := isNumeric_val h (hl c mem_cons_self)
      apply dropWhile_cons_of_neg
      simp only [isSpace, isBlank, Bool.or_eq_true, Bool.and_eq_true, decide_eq_true_eq, beq_iff_eq]
      omega
  rw [strip, stripBy, hkept text (fun c hc => hc), hkept text.reverse (fun c hc => by simpa using hc),
    reverse_reverse]

theorem plainText_of_numeric : plainText text = some text := by
  have hunderscore : text.filter (·.val ≠ 0x5f) = text := by
    rw [filter_eq_self]
    intro c hc
    have hval := isNumeric_val h hc
    exact decide_eq_true (by omega)
  have hchar : ∀ c ∈ text, (if 0 < c.val ∧ c.val < 0x80 then some c
      else if isSpace c then some 0x20 else (decimalValue c).map digitPoint) = some c := by
    intro c hc
    have hval := isNumeric_val h hc
    exact if_pos (by omega)
  rw [plainText, strip_of_numeric h, hunderscore]
  exact mapM_eq_self hchar

end

/-! ## The digits around the point -/

theorem digitsValue_append (a b : Text) :
    digitsValue (a ++ b) = b.foldl (fun v c => v * 10 + (c.val - 48)) (digitsValue a) :=
  foldl_append ..

theorem foldl_padded (v width n : ℕ) :
    (padded width n).foldl (fun v c => v * 10 + (c.val - 48)) v = v * 10 ^ width + n % 10 ^ width := by
  induction width generalizing n with
  | zero => simp [padded, Nat.mod_one]
  | succ width ih =>
    have hval : ∀ d < 10, (digitPoint d).val - 48 = d := by decide
    rw [padded_succ, foldl_append, ih, foldl_cons, foldl_nil,
      hval _ (Nat.mod_lt _ (by decide)), pow_succ', Nat.mod_mul]
    ring

theorem digitsValue_fixed (n places : ℕ) :
    digitsValue (Lib.decimal (n / 10 ^ places) ++ padded places (n % 10 ^ places)) = n := by
  rw [digitsValue_append, foldl_padded, digitsValue, foldl_decimal, Nat.mod_mod,
    Nat.div_add_mod']

/-- The digits before the point, and what is left. -/
theorem fixed_eq (n places : ℕ) : ∃ tail, fixed n places = Lib.decimal (n / 10 ^ places) ++ tail ∧
    (∀ c ∈ tail.head?, Json.isAsciiDigit c = false) ∧
    scanPlaces tail = (padded places (n % 10 ^ places), []) := by
  unfold fixed
  split
  · rename_i hplaces
    subst hplaces
    refine ⟨[], ?_, nofun, rfl⟩
    rw [pow_zero, Nat.div_one, append_nil]
  refine ⟨0x2e :: padded places (n % 10 ^ places), ?_, ?_, ?_⟩
  · rw [append_assoc, singleton_append]
  · rintro c ⟨⟩
    rfl
  · have hpadded : ∀ c ∈ padded places (n % 10 ^ places), Json.isAsciiDigit c = true :=
      fun c hc => isAsciiDigit_of_mem_padded hc
    have hspan := span_of_all [] hpadded nofun
    rw [append_nil] at hspan
    exact hspan

theorem scanLiteral_fixed (n places : ℕ) :
    scanLiteral false (fixed n places) =
      some ⟨false, Lib.decimal (n / 10 ^ places), padded places (n % 10 ^ places), 0⟩ := by
  obtain ⟨tail, hfixed, hhead, htail⟩ := fixed_eq n places
  have hdigits : ∀ c ∈ Lib.decimal (n / 10 ^ places), Json.isAsciiDigit c = true :=
    fun c hc => isAsciiDigit_of_mem_decimal hc
  have hne : Lib.decimal (n / 10 ^ places) ++ padded places (n % 10 ^ places) ≠ [] :=
    append_ne_nil_of_left_ne_nil (decimal_ne_nil _) _
  unfold scanLiteral
  rw [hfixed, span_of_all tail hdigits hhead]
  dsimp only
  rw [htail]
  dsimp only
  rw [if_neg hne]
  rfl

/-- What starts with a digit has no sign, and is no word. -/
theorem scanNumeral_of_digit {rest : Text} (hc : Json.isAsciiDigit c = true) :
    scanNumeral (c :: rest) = (scanLiteral false (c :: rest)).map .finite := by
  simp only [Json.isAsciiDigit, Bool.and_eq_true, decide_eq_true_eq] at hc
  have hsign : Json.scanSign isSign (c :: rest) = ([], c :: rest) := by
    rw [Json.scanSign, if_neg]
    simp only [isSign, Bool.or_eq_true, decide_eq_true_eq]
    omega
  have hlower : lowerAscii (c :: rest) = c :: lowerAscii rest := by
    rw [lowerAscii, map_cons, if_neg (by omega)]
    rfl
  have hword : ∀ (first : CodePoint) (word : Text), 0x39 < first.val →
      Json.after (first :: word) (c :: lowerAscii rest) = none ∧
        c :: lowerAscii rest ≠ first :: word := by
    intro first word hfirst
    have hne : c ≠ first := by
      rintro rfl
      omega
    refine ⟨?_, fun h => hne (List.cons.inj h).1⟩
    unfold Json.after
    rw [if_neg]
    simp [List.isPrefixOf, hne.symm]
  unfold scanNumeral
  rw [hsign]
  dsimp only
  rw [hlower]
  have hinf : c :: lowerAscii rest ≠ lit "inf" := (hword 0x69 (lit "nf") (by decide)).2
  have hinfinity : c :: lowerAscii rest ≠ lit "infinity" :=
    (hword 0x69 (lit "nfinity") (by decide)).2
  have hnan : Json.after (lit "nan") (c :: lowerAscii rest) = none :=
    (hword 0x6e (lit "an") (by decide)).1
  have hsnan : Json.after (lit "snan") (c :: lowerAscii rest) = none :=
    (hword 0x73 (lit "nan") (by decide)).1
  have hpayload : (Json.after (lit "nan") (c :: lowerAscii rest)).orElse
      (fun _ => Json.after (lit "snan") (c :: lowerAscii rest)) = none := by
    rw [hnan, hsnan]
    rfl
  rw [hpayload, if_neg (not_or.mpr ⟨hinf, hinfinity⟩)]
  rfl

theorem readNumeral_fixed (n places : ℕ) :
    readNumeral (fixed n places) = some (.finite
      ⟨false, Lib.decimal (n / 10 ^ places), padded places (n % 10 ^ places), 0⟩) := by
  rw [readNumeral, plainText_of_numeric fun c hc => isNumeric_of_mem_fixed hc, Option.bind_some,
    ← Option.map_some, ← scanLiteral_fixed]
  obtain ⟨tail, hfixed, -, -⟩ := fixed_eq n places
  cases hdecimal : Lib.decimal (n / 10 ^ places) with
  | nil => exact absurd hdecimal (decimal_ne_nil _)
  | cons =>
    rw [hfixed, hdecimal, cons_append]
    apply scanNumeral_of_digit
    apply isAsciiDigit_of_mem_decimal
    rw [hdecimal]
    exact mem_cons_self

end Decimal

end Lib
