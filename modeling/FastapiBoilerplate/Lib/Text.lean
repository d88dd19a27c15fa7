import Mathlib.Data.Int.Notation
import Mathlib.Data.List.Basic

/-!
# Python text

A `str` is a sequence of code points, lone surrogates included; that they cannot be encoded is
visible in programs that encode whatever text they are handed, so they are here. `bytes` are
octets. UTF-8 is the strict codec: encoding fails on a surrogate, decoding on anything but the
shortest form of a scalar value.

Integers are read the way `int(text)` reads them: blanks around, a sign, decimal digits of any
script, single underscores between digits, at most 4300 digits; and written the way `str` writes
them, with the same limit. `repr` leaves alone what the Unicode database calls printable, which
is a parameter (`Unicode`): the property is a table of some seven hundred ranges, and nothing
here depends on which.
-/

namespace Lib

abbrev CodePoint := Fin 0x110000
abbrev Text := List CodePoint
abbrev Byte := Fin 256
abbrev Bytes := List Byte

instance neZero_codePoints : @NeZero ℕ Zero.ofOfNat0 0x110000 := ⟨by decide⟩
instance neZero_bytes : @NeZero ℕ Zero.ofOfNat0 256 := ⟨by decide⟩
instance lawfulBEq_text : LawfulBEq Text := inferInstance

/-- The text a literal stands for. -/
def lit (s : String) : Text := s.toList.map fun c => Fin.ofNat _ c.toNat

/-- `text.encode("ascii")`, of a text that is ASCII. -/
def asciiBytes (text : Text) : Bytes := text.map fun c => Fin.ofNat _ c.val

/-- What the Unicode database says of characters, as far as `repr` asks it. -/
class Unicode where
  printable : CodePoint → Bool

/-- As far as ASCII goes, for runs by hand. -/
@[reducible] def Unicode.ascii : Unicode := ⟨fun c => c.val < 0x7f⟩

/-! ## UTF-8 -/

/-- The code points that stand for no character, which UTF-8 does not encode. -/
def isSurrogate (c : CodePoint) : Bool := 0xD800 ≤ c.val && c.val < 0xE000

def utf8Point (c : CodePoint) : Option Bytes :=
  let n := c.val
  let byte (k : ℕ) : Byte := Fin.ofNat _ k
  if n < 0x80 then some [byte n]
  else if n < 0x800 then some [byte (0xC0 + n / 64), byte (0x80 + n % 64)]
  else if n < 0x10000 then
    if 0xD800 ≤ n ∧ n < 0xE000 then none
    else some [byte (0xE0 + n / 4096), byte (0x80 + n / 64 % 64), byte (0x80 + n % 64)]
  else some [byte (0xF0 + n / 262144), byte (0x80 + n / 4096 % 64), byte (0x80 + n / 64 % 64),
    byte (0x80 + n % 64)]

/-- `text.encode("utf-8")`; `none` is `UnicodeEncodeError`. -/
def utf8Encode : Text → Option Bytes
  | [] => some []
  | c :: cs => (utf8Point c).bind fun b => (utf8Encode cs).map fun bs => b ++ bs

/-- The payload of a continuation byte. -/
def continuation (b : Byte) : Option ℕ :=
  if 0x80 ≤ b.val ∧ b.val < 0xC0 then some (b.val - 0x80) else none

/-- A decoded value, refused if a shorter form would have done or if it is no scalar value. -/
def scalar (least n : ℕ) : Option CodePoint :=
  if h : n < 0x110000 then
    if n < least ∨ (0xD800 ≤ n ∧ n < 0xE000) then none else some ⟨n, h⟩
  else none

/-- `raw.decode("utf-8")`; `none` is `UnicodeDecodeError`. -/
def utf8Decode : Bytes → Option Text
  | [] => some []
  | b :: bs =>
    if b.val < 0x80 then (utf8Decode bs).map fun cs => Fin.ofNat _ b.val :: cs
    else if b.val < 0xC0 then none
    else
      match bs with
      | [] => none
      | b₁ :: bs =>
        (continuation b₁).bind fun n₁ =>
          if b.val < 0xE0 then
            (scalar 0x80 ((b.val - 0xC0) * 64 + n₁)).bind fun c =>
              (utf8Decode bs).map fun cs => c :: cs
          else
            match bs with
            | [] => none
            | b₂ :: bs =>
              (continuation b₂).bind fun n₂ =>
                if b.val < 0xF0 then
                  (scalar 0x800 ((b.val - 0xE0) * 4096 + n₁ * 64 + n₂)).bind fun c =>
                    (utf8Decode bs).map fun cs => c :: cs
                else
                  match bs with
                  | [] => none
                  | b₃ :: bs =>
                    (continuation b₃).bind fun n₃ =>
                      if b.val < 0xF8 then
                        (scalar 0x10000
                            ((b.val - 0xF0) * 262144 + n₁ * 4096 + n₂ * 64 + n₃)).bind fun c =>
                          (utf8Decode bs).map fun cs => c :: cs
                      else none

/-- What may follow a lead byte: how many bytes after the second, and the range of the second. -/
def leadByte (n : ℕ) : Option (ℕ × ℕ × ℕ) :=
  if n < 0xC2 then none
  else if n < 0xE0 then some (0, 0x80, 0xBF)
  else if n = 0xE0 then some (1, 0xA0, 0xBF)
  else if n = 0xED then some (1, 0x80, 0x9F)
  else if n < 0xF0 then some (1, 0x80, 0xBF)
  else if n = 0xF0 then some (2, 0x90, 0xBF)
  else if n < 0xF4 then some (2, 0x80, 0xBF)
  else if n = 0xF4 then some (2, 0x80, 0x8F)
  else none

/-- Decoding where a sequence that breaks off is replaced by U+FFFD, up to the byte that breaks
    it. -/
def utf8Replace : Bytes → Text
  | [] => []
  | b :: bs =>
    if b.val < 0x80 then Fin.ofNat _ b.val :: utf8Replace bs
    else
      match leadByte b.val, bs with
      | none, bs => 0xFFFD :: utf8Replace bs
      | some _, [] => [0xFFFD]
      | some (more, low, high), b₁ :: bs₁ =>
        if b₁.val < low ∨ high < b₁.val then 0xFFFD :: utf8Replace (b₁ :: bs₁)
        else if more = 0 then
          Fin.ofNat _ ((b.val - 0xC0) * 64 + (b₁.val - 0x80)) :: utf8Replace bs₁
        else
          match bs₁ with
          | [] => [0xFFFD]
          | b₂ :: bs₂ =>
            match continuation b₂ with
            | none => 0xFFFD :: utf8Replace (b₂ :: bs₂)
            | some n₂ =>
              if more = 1 then
                Fin.ofNat _ ((b.val - 0xE0) * 4096 + (b₁.val - 0x80) * 64 + n₂) :: utf8Replace bs₂
              else
                match bs₂ with
                | [] => [0xFFFD]
                | b₃ :: bs₃ =>
                  match continuation b₃ with
                  | none => 0xFFFD :: utf8Replace (b₃ :: bs₃)
                  | some n₃ =>
                    Fin.ofNat _ ((b.val - 0xF0) * 262144 + (b₁.val - 0x80) * 4096 + n₂ * 64 + n₃) ::
                      utf8Replace bs₃

/-- `raw.decode("utf-8", "replace")`: the handler is only asked where the strict codec fails. -/
def utf8DecodeReplace (raw : Bytes) : Text := (utf8Decode raw).getD (utf8Replace raw)

/-! ## Digits -/

/-- The zeros of the scripts that have decimal digits; the other nine follow each of them. -/
def decimalZeros : List ℕ :=
  [0x30, 0x660, 0x6f0, 0x7c0, 0x966, 0x9e6, 0xa66, 0xae6, 0xb66, 0xbe6, 0xc66, 0xce6, 0xd66,
    0xde6, 0xe50, 0xed0, 0xf20, 0x1040, 0x1090, 0x17e0, 0x1810, 0x1946, 0x19d0, 0x1a80, 0x1a90,
    0x1b50, 0x1bb0, 0x1c40, 0x1c50, 0xa620, 0xa8d0, 0xa900, 0xa9d0, 0xa9f0, 0xaa50, 0xabf0,
    0xff10, 0x104a0, 0x10d30, 0x11066, 0x110f0, 0x11136, 0x111d0, 0x112f0, 0x11450, 0x114d0,
    0x11650, 0x116c0, 0x11730, 0x118e0, 0x11950, 0x11c50, 0x11d50, 0x11da0, 0x11f50, 0x16a60,
    0x16ac0, 0x16b50, 0x1d7ce, 0x1d7d8, 0x1d7e2, 0x1d7ec, 0x1d7f6, 0x1e140, 0x1e2f0, 0x1e4f0,
    0x1e950, 0x1fbf0]

/-- Digits that are not decimal: superscripts, circled digits and the like. -/
def otherDigits : List (ℕ × ℕ) :=
  [(0xb2, 0xb3), (0xb9, 0xb9), (0x1369, 0x1371), (0x19da, 0x19da), (0x2070, 0x2070),
    (0x2074, 0x2079), (0x2080, 0x2089), (0x2460, 0x2468), (0x2474, 0x247c), (0x2488, 0x2490),
    (0x24ea, 0x24ea), (0x24f5, 0x24fd), (0x24ff, 0x24ff), (0x2776, 0x277e), (0x2780, 0x2788),
    (0x278a, 0x2792), (0x10a40, 0x10a43), (0x10e60, 0x10e68), (0x11052, 0x1105a),
    (0x1f100, 0x1f10a)]

/-- The value of a decimal digit. -/
def decimalValue (c : CodePoint) : Option ℕ :=
  (decimalZeros.find? fun z => z ≤ c.val && c.val < z + 10).map fun z => c.val - z

/-- `text.isdigit()`. -/
def isDigit (text : Text) : Bool :=
  !text.isEmpty && text.all fun c =>
    (decimalValue c).isSome || otherDigits.any fun r => r.1 ≤ c.val && c.val ≤ r.2

/-- `str(n)` for a natural number, without the limit. -/
def decimal (n : ℕ) : Text := (Nat.toDigits 10 n).map fun c => Fin.ofNat _ c.toNat

/-- The digits past which `int` and `str` refuse (`sys.int_info.default_max_str_digits`). -/
def maxStrDigits : ℕ := 4300

/-- `str(n)`; `none` is the `ValueError` of the digit limit. -/
def strInt (n : ℤ) : Option Text :=
  let digits := decimal n.natAbs
  if maxStrDigits < digits.length then none
  else some (if n < 0 then lit "-" ++ digits else digits)

/-- The blanks `int` skips. -/
def isBlank (c : CodePoint) : Bool :=
  (0x09 ≤ c.val && c.val ≤ 0x0d) || c.val == 0x20 || c.val == 0x85 || c.val == 0xa0 ||
    c.val == 0x1680 || (0x2000 ≤ c.val && c.val ≤ 0x200a) || c.val == 0x2028 ||
    c.val == 0x2029 || c.val == 0x202f || c.val == 0x205f || c.val == 0x3000

/-- Digits with single underscores between them: the value so far, the number of digits so far,
    and whether the last character was a digit. -/
def readDigits (value count : ℕ) (afterDigit : Bool) : Text → Option (ℕ × ℕ)
  | [] => if afterDigit then some (value, count) else none
  | c :: cs =>
    match decimalValue c with
    | some d => readDigits (value * 10 + d) (count + 1) true cs
    | none => if c.val = 0x5f ∧ afterDigit then readDigits value count false cs else none

/-- `int(text)`; `none` is `ValueError`. -/
def readInt (text : Text) : Option ℤ :=
  let body := ((text.dropWhile isBlank).reverse.dropWhile isBlank).reverse
  let (negative, digits) : Bool × Text :=
    match body with
    | c :: cs => if c.val = 0x2d then (true, cs) else if c.val = 0x2b then (false, cs)
      else (false, c :: cs)
    | [] => (false, [])
  match readDigits 0 0 false digits with
  | some (value, count) =>
    if maxStrDigits < count then none
    else some (if negative then -(value : ℤ) else value)
  | none => none

/-! ## `repr`, suffixes and separators -/

/-- `n` in hexadecimal, `width` digits. -/
def hex : ℕ → ℕ → Text
  | 0, _ => []
  | width + 1, n => hex width (n / 16) ++ [Fin.ofNat _ (Nat.digitChar (n % 16)).toNat]

theorem forall_mem_hex {p : CodePoint → Prop}
    (hp : ∀ d < 16, p (Fin.ofNat _ (Nat.digitChar d).toNat)) (width n : ℕ) :
    ∀ c ∈ hex width n, p c := by
  induction width generalizing n with
  | zero => exact nofun
  | succ width ih =>
    rw [hex, List.forall_mem_append]
    exact ⟨ih _, List.forall_mem_singleton.mpr (hp _ (Nat.mod_lt _ (by decide)))⟩

section
variable [Unicode]

/-- One character of a `repr` whose quote is `quote`. -/
def reprPoint (quote c : CodePoint) : Text :=
  if c = quote ∨ c.val = 0x5c then lit "\\" ++ [c]
  else if c.val = 0x09 then lit "\\t"
  else if c.val = 0x0a then lit "\\n"
  else if c.val = 0x0d then lit "\\r"
  else if Unicode.printable c then [c]
  else if c.val < 0x100 then lit "\\x" ++ hex 2 c.val
  else if c.val < 0x10000 then lit "\\u" ++ hex 4 c.val
  else lit "\\U" ++ hex 8 c.val

/-- `repr(text)`. -/
def reprText (text : Text) : Text :=
  let quote : CodePoint :=
    if text.any (·.val == 0x27) && !text.any (·.val == 0x22) then 0x22 else 0x27
  [quote] ++ text.flatMap (reprPoint quote) ++ [quote]

end

/-- What `str.isspace` and `str.strip` call white space: the blanks, and the four separators. -/
def isSpace (c : CodePoint) : Bool := isBlank c || (0x1c ≤ c.val && c.val ≤ 0x1f)

/-- `text.strip(chars)`, of the characters that `drop` picks. -/
def stripBy (drop : CodePoint → Bool) (text : Text) : Text :=
  ((text.dropWhile drop).reverse.dropWhile drop).reverse

/-- `text.strip()`. -/
def strip (text : Text) : Text := stripBy isSpace text

/-- `text.replace(old, "")`, of a text that is not empty: occurrences from the left that do not
    overlap. The counter is what is left of the occurrence being dropped. -/
def removeAll (old : Text) : ℕ → Text → Text
  | _, [] => []
  | skip + 1, _ :: cs => removeAll old skip cs
  | 0, c :: cs =>
    if old.isPrefixOf (c :: cs) then removeAll old (old.length - 1) cs
    else c :: removeAll old 0 cs

/-- `text.lower()`, of the letters of ASCII. -/
def lowerAscii (text : Text) : Text :=
  text.map fun c => if 0x41 ≤ c.val ∧ c.val ≤ 0x5a then c + 32 else c

/-- `text.upper()`, of the letters of ASCII. -/
def upperAscii (text : Text) : Text :=
  text.map fun c => if 0x61 ≤ c.val ∧ c.val ≤ 0x7a then c - 32 else c

/-- What the Unicode database says of upper case. A letter may become several, and one that is not
    ASCII may become one that is. -/
class Casing where
  upper : CodePoint → Text
  upper_ascii : ∀ c : CodePoint, c.val < 0x80 → upper c = upperAscii [c]

/-- `text.upper()`. -/
def upper [Casing] (text : Text) : Text := text.flatMap Casing.upper

/-- `text.startswith(start)`. -/
def startsWith (text start : Text) : Bool := start.isPrefixOf text

/-- `text.endswith(ending)`. -/
def endsWith (text ending : Text) : Bool := ending.isSuffixOf text

/-- `text.partition(marker)` at the first occurrence; `none` when there is none. -/
def partition (marker : Text) : Text → Option (Text × Text)
  | [] => if marker.isEmpty then some ([], []) else none
  | c :: cs =>
    if marker.isPrefixOf (c :: cs) then some ([], (c :: cs).drop marker.length)
    else (partition marker cs).map fun (head, tail) => (c :: head, tail)

/-- `text.rpartition(marker)`, around the last occurrence. -/
def rpartition (marker text : Text) : Option (Text × Text) :=
  (partition marker.reverse text.reverse).map fun (head, tail) => (tail.reverse, head.reverse)

end Lib
