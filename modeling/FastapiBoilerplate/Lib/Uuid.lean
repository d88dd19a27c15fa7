import Mathlib.Algebra.Group.Int.Defs
import Mathlib.Algebra.Group.Nat.Defs
import FastapiBoilerplate.Lib.Text

/-!
# UUIDs and their texts

A `uuid.UUID` is a number of 128 bits. It is written in one way, 32 hexadecimal digits in five
groups, and read in many: `urn:`, `uuid:`, braces and hyphens are dropped wherever they stand, and
what is left is 32 characters that `int(_, 16)` accepts, which is more than 32 digits (`0x`, a
sign, blanks and underscores are characters too). So writing is injective (`UUID.str_injective`)
and reading is not.
-/

namespace Lib

open List

abbrev UUID := BitVec 128

/-! ## Reading -/

/-- The value of a hexadecimal digit; decimal digits are of any script. -/
def hexValue (c : CodePoint) : Option ℕ :=
  if 0x61 ≤ c.val ∧ c.val ≤ 0x66 then some (c.val - 0x61 + 10)
  else if 0x41 ≤ c.val ∧ c.val ≤ 0x46 then some (c.val - 0x41 + 10)
  else decimalValue c

/-- Hexadecimal digits with single underscores between them. -/
def readHexDigits (value : ℕ) (afterDigit : Bool) : Text → Option ℕ
  | [] => if afterDigit then some value else none
  | c :: cs =>
    match hexValue c with
    | some d => readHexDigits (value * 16 + d) true cs
    | none => if c.val = 0x5f ∧ afterDigit then readHexDigits value false cs else none

/-- The digits after `0x` and the one underscore that may follow it. -/
def dropHexMark : Text → Text
  | zero :: x :: cs =>
    if decimalValue zero = some 0 ∧ (x.val = 0x78 ∨ x.val = 0x58) then
      match cs with
      | c :: rest => if c.val = 0x5f then rest else c :: rest
      | [] => []
    else zero :: x :: cs
  | text => text

/-- `int(text, 16)`; `none` is `ValueError`. -/
def readHex (text : Text) : Option ℤ :=
  match stripBy isBlank text with
  | c :: cs =>
    if c.val = 0x2d then (readHexDigits 0 false (dropHexMark cs)).map fun n => -(n : ℤ)
    else if c.val = 0x2b then (readHexDigits 0 false (dropHexMark cs)).map Int.ofNat
    else (readHexDigits 0 false (dropHexMark (c :: cs))).map Int.ofNat
  | [] => none

namespace UUID

/-- `uuid.UUID(text)`; `none` is `ValueError`. -/
def parse (text : Text) : Option UUID :=
  let bare := removeAll (lit "uuid:") 0 (removeAll (lit "urn:") 0 text)
  let digits := removeAll (lit "-") 0 (stripBy (fun c => c.val == 0x7b || c.val == 0x7d) bare)
  if digits.length ≠ 32 then none
  else
    match readHex digits with
    | some n => if 0 ≤ n ∧ n < 2 ^ 128 then some (BitVec.ofInt 128 n) else none
    | none => none

/-! ## Writing -/

/-- `str(id)`. -/
def str (id : UUID) : Text :=
  let digits := hex 32 id.toNat
  digits.take 8 ++ lit "-" ++ (digits.drop 8).take 4 ++ lit "-" ++ (digits.drop 12).take 4 ++
    lit "-" ++ (digits.drop 16).take 4 ++ lit "-" ++ digits.drop 20

end UUID

example : UUID.parse (UUID.str 0xaaaaaaaa000000000000000000000001) =
    some 0xaaaaaaaa000000000000000000000001 := by decide +kernel

example : UUID.parse (lit "\x7b0x000000000000000000000000000001\x7d") = some 1 := by
  decide +kernel

/-! ## Writing is injective -/

theorem hexDigit_injective : ∀ d < 16, ∀ e < 16,
    (Fin.ofNat 0x110000 (Nat.digitChar d).toNat) = Fin.ofNat 0x110000 (Nat.digitChar e).toNat →
      d = e := by
  decide

theorem hex_injective (width : ℕ) : ∀ {n m : ℕ}, n < 16 ^ width → m < 16 ^ width →
    hex width n = hex width m → n = m := by
  induction width with
  | zero =>
    intro n m hn hm _
    omega
  | succ width ih =>
    intro n m hn hm h
    simp only [hex] at h
    obtain ⟨hinit, hlast⟩ := append_inj' h rfl
    have hquot : n / 16 = m / 16 := by
      apply ih _ _ hinit
      · rw [Nat.div_lt_iff_lt_mul (by omega)]
        rwa [Nat.pow_succ] at hn
      · rw [Nat.div_lt_iff_lt_mul (by omega)]
        rwa [Nat.pow_succ] at hm
    have hrem : n % 16 = m % 16 :=
      hexDigit_injective _ (Nat.mod_lt _ (by omega)) _ (Nat.mod_lt _ (by omega))
        (singleton_inj.mp hlast)
    rw [← Nat.div_add_mod n 16, ← Nat.div_add_mod m 16, hquot, hrem]

theorem dash_not_mem_hex (width n : ℕ) : ∀ c ∈ hex width n, c.val ≠ 0x2d :=
  forall_mem_hex (by decide) width n

namespace UUID

theorem filter_str (id : UUID) : (str id).filter (·.val ≠ 0x2d) = hex 32 id.toNat := by
  have hdigits (l : Text) (h : ∀ c ∈ l, c ∈ hex 32 id.toNat) : l.filter (·.val ≠ 0x2d) = l := by
    apply filter_eq_self.mpr
    intro c hc
    simpa using dash_not_mem_hex _ _ c (h c hc)
  have hdash : (lit "-").filter (·.val ≠ 0x2d) = [] := by decide
  have hpart (k : ℕ) : ∀ c ∈ (hex 32 id.toNat).drop k, c ∈ hex 32 id.toNat :=
    fun c hc => mem_of_mem_drop hc
  simp only [str, filter_append, hdash, append_nil]
  rw [hdigits _ (fun c hc => mem_of_mem_take hc),
    hdigits _ (fun c hc => hpart 8 c (mem_of_mem_take hc)),
    hdigits _ (fun c hc => hpart 12 c (mem_of_mem_take hc)),
    hdigits _ (fun c hc => hpart 16 c (mem_of_mem_take hc)), hdigits _ (hpart 20)]
  have hcut (k : ℕ) : ((hex 32 id.toNat).drop k).take 4 ++ (hex 32 id.toNat).drop (k + 4) =
      (hex 32 id.toNat).drop k := by
    rw [← drop_drop, take_append_drop]
  rw [append_assoc, hcut 16, append_assoc, hcut 12, append_assoc, hcut 8,
    take_append_drop]

theorem mem_str {id : UUID} {c : CodePoint} (h : c ∈ str id) :
    c.val = 0x2d ∨ ∃ d < 16, c = Fin.ofNat 0x110000 (Nat.digitChar d).toNat := by
  by_cases hdash : c.val = 0x2d
  · exact .inl hdash
  have hmem : c ∈ (str id).filter (·.val ≠ 0x2d) := by simp [h, hdash]
  rw [filter_str] at hmem
  apply forall_mem_hex (p := fun c => c.val = 0x2d ∨ _) _ 32 id.toNat c hmem
  exact fun d hd => .inr ⟨d, hd, rfl⟩

theorem str_injective : Function.Injective str := by
  intro a b h
  have hdigits : hex 32 a.toNat = hex 32 b.toNat := by rw [← filter_str, ← filter_str, h]
  apply BitVec.eq_of_toNat_eq
  apply hex_injective 32 _ _ hdigits
  · simpa using a.isLt
  · simpa using b.isLt

end UUID

end Lib
