import FastapiBoilerplate.Lib.Except
import FastapiBoilerplate.Lib.Lists
import FastapiBoilerplate.Lib.TextRoundTrip

/-!
# JSON as Python writes it

`json.dumps` with `allow_nan=False` and no blanks. A float is written by its `repr`, of which the
writer knows no more than that a finite one is made of digits, signs, a point and an exponent; the
float type is a parameter. A whole number is written by `str`, and has its limit of digits. How a
string is written and how many levels of lists and objects the stack has room for are parameters
of the writer (`writeWith`); `gives_writeWith` says which characters it writes.

`dumps` is the writer with `ensure_ascii=False` on a stack without a limit. Strings are escaped
only where they must be: a quote, a backslash, the controls below U+0020. What it guarantees a
format that separates texts by control characters is `Json.printable_dumps`: there is none in what
it writes.
-/

namespace Lib

open List

/-- What JSON asks of a float. -/
class PyFloat (φ : Type) where
  finite : φ → Bool
  repr : φ → Text
  repr_chars : ∀ x, finite x = true → ∀ c ∈ repr x, c ∈ lit "0123456789+-.e"

/-- A value that is handed to the writer. `foreign` is any object it does not know. -/
inductive Json (φ : Type)
  | null
  | bool (b : Bool)
  | int (n : ℤ)
  | float (x : φ)
  | str (text : Text)
  | array (items : List (Json φ))
  | object (fields : List (Text × Json φ))
  | foreign

/-- `ValueError` of a number that is not finite or has too many digits, `TypeError` of a value
    the writer does not know, `RecursionError` of one that nests too deep. -/
inductive WriteError
  | value
  | type
  | recursion

namespace Json

/-- No object that JSON does not know is in the value. -/
inductive Plain {φ : Type} : Json φ → Prop
  | null : Plain .null
  | bool (b : Bool) : Plain (.bool b)
  | int (n : ℤ) : Plain (.int n)
  | float (x : φ) : Plain (.float x)
  | str (text : Text) : Plain (.str text)
  | array {items : List (Json φ)} : (∀ item ∈ items, Plain item) → Plain (.array items)
  | object {fields : List (Text × Json φ)} : (∀ field ∈ fields, Plain field.2) →
      Plain (.object fields)

/-- The levels that are left inside a list or an object; a stack without a limit is none. -/
def descend : Option ℕ → Option (Option ℕ)
  | none => some none
  | some 0 => none
  | some (levels + 1) => some (some levels)

section
variable {φ : Type} [PyFloat φ] (quote : Text → Text)

mutual

/-- The writer, with what it makes of a string and the levels that are left. -/
def writeWith : Option ℕ → Json φ → Except WriteError Text
  | _, .null => .ok (lit "null")
  | _, .bool b => .ok (if b then lit "true" else lit "false")
  | _, .int n =>
    match strInt n with
    | some text => .ok text
    | none => .error .value
  | _, .float x => if PyFloat.finite x then .ok (PyFloat.repr x) else .error .value
  | _, .str text => .ok (quote text)
  | levels, .array items =>
    match descend levels with
    | none => .error .recursion
    | some levels => do
      let texts ← writeItems levels items
      return lit "[" ++ (lit ",").intercalate texts ++ lit "]"
  | levels, .object fields =>
    match descend levels with
    | none => .error .recursion
    | some levels => do
      let texts ← writeFields levels fields
      return lit "\x7b" ++ (lit ",").intercalate texts ++ lit "\x7d"
  | _, .foreign => .error .type

def writeItems : Option ℕ → List (Json φ) → Except WriteError (List Text)
  | _, [] => .ok []
  | levels, item :: items => do
    let text ← writeWith levels item
    let texts ← writeItems levels items
    return text :: texts

def writeFields : Option ℕ → List (Text × Json φ) → Except WriteError (List Text)
  | _, [] => .ok []
  | levels, (key, item) :: fields => do
    let text ← writeWith levels item
    let texts ← writeFields levels fields
    return (quote key ++ lit ":" ++ text) :: texts

end

/-! ## What is written -/

/-- What is written outside of strings. -/
def signs : Text := lit "0123456789+-.e[]\x7b\x7d,:nultrfas"

section
variable {quote} {p : CodePoint → Prop} (hquote : ∀ text, ∀ c ∈ quote text, p c)
  (hsigns : ∀ c ∈ signs, p c)

include hsigns in
theorem forall_mem_of_signs {text : Text} (h : text ⊆ signs) : ∀ c ∈ text, p c :=
  fun c hc => hsigns c (h hc)

include hsigns in
theorem forall_mem_bracketed {opening closing : Text} {texts : List Text}
    (ho : opening ⊆ signs) (hc : closing ⊆ signs) (h : ∀ text ∈ texts, ∀ c ∈ text, p c) :
    ∀ c ∈ opening ++ (lit ",").intercalate texts ++ closing, p c := by
  have hcomma : ∀ c ∈ lit ",", p c := forall_mem_of_signs hsigns (by decide +kernel)
  refine forall_mem_append.mpr ⟨forall_mem_append.mpr ⟨forall_mem_of_signs hsigns ho, ?_⟩,
    forall_mem_of_signs hsigns hc⟩
  exact forall_mem_intercalate hcomma h

include hquote hsigns

set_option linter.unusedSectionVars false in
mutual

/-- What is written is made of the strings and of `signs`, and `TypeError` is for objects that
    JSON does not know. -/
theorem gives_writeWith : ∀ (levels : Option ℕ) (v : Json φ),
    Gives (fun text => ∀ c ∈ text, p c) (fun e => Plain v → e ≠ .type) (writeWith quote levels v)
  | _, .null => by
    rw [writeWith]
    exact .ok (forall_mem_of_signs hsigns (by decide +kernel))
  | _, .bool b => by
    rw [writeWith]
    cases b <;> exact .ok (forall_mem_of_signs hsigns (by decide +kernel))
  | _, .int n => by
    rw [writeWith]
    split
    · have hdigit : ∀ d < 10, digitPoint d ∈ signs := by decide +kernel
      exact .ok (forall_mem_strInt (hsigns _ (by decide +kernel))
        (fun d hd => hsigns _ (hdigit d hd)) ‹_›)
    · exact .error nofun
  | _, .float x => by
    rw [writeWith]
    split
    · have hchars : ∀ c ∈ lit "0123456789+-.e", p c :=
        forall_mem_of_signs hsigns (by decide +kernel)
      exact .ok fun c hc => hchars c (PyFloat.repr_chars x ‹_› c hc)
    · exact .error nofun
  | _, .str s => by
    rw [writeWith]
    exact .ok (hquote s)
  | levels, .array items => by
    rw [writeWith]
    split
    · exact .error nofun
    refine (gives_writeItems _ items).bind (fun _ h => ?_) fun texts htexts => .ok ?_
    · rintro (_ | _ | _ | _ | _ | hplain)
      exact h hplain
    · exact forall_mem_bracketed hsigns (by decide +kernel) (by decide +kernel) htexts
  | levels, .object fields => by
    rw [writeWith]
    split
    · exact .error nofun
    refine (gives_writeFields _ fields).bind (fun _ h => ?_) fun texts htexts => .ok ?_
    · rintro (_ | _ | _ | _ | _ | _ | hplain)
      exact h hplain
    · exact forall_mem_bracketed hsigns (by decide +kernel) (by decide +kernel) htexts
  | _, .foreign => by
    rw [writeWith]
    refine .error ?_
    rintro ⟨⟩

theorem gives_writeItems : ∀ (levels : Option ℕ) (items : List (Json φ)),
    Gives (fun texts => ∀ text ∈ texts, ∀ c ∈ text, p c)
      (fun e => (∀ item ∈ items, Plain item) → e ≠ .type) (writeItems quote levels items)
  | _, [] => by
    rw [writeItems]
    exact .ok nofun
  | levels, item :: items => by
    rw [writeItems]
    simp only [forall_mem_cons]
    refine (gives_writeWith levels item).bind (fun _ h hplain => h hplain.1) fun text htext => ?_
    refine (gives_writeItems levels items).bind (fun _ h hplain => h hplain.2)
      fun texts htexts => .ok ?_
    exact forall_mem_cons.mpr ⟨htext, htexts⟩

theorem gives_writeFields : ∀ (levels : Option ℕ) (fields : List (Text × Json φ)),
    Gives (fun texts => ∀ text ∈ texts, ∀ c ∈ text, p c)
      (fun e => (∀ field ∈ fields, Plain field.2) → e ≠ .type) (writeFields quote levels fields)
  | _, [] => by
    rw [writeFields]
    exact .ok nofun
  | levels, (key, item) :: fields => by
    rw [writeFields]
    have hcolon : ∀ c ∈ lit ":", p c := forall_mem_of_signs hsigns (by decide +kernel)
    simp only [forall_mem_cons]
    refine (gives_writeWith levels item).bind (fun _ h hplain => h hplain.1) fun text htext => ?_
    refine (gives_writeFields levels fields).bind (fun _ h hplain => h hplain.2)
      fun texts htexts => .ok ?_
    exact forall_mem_cons.mpr ⟨forall_mem_append.mpr
      ⟨forall_mem_append.mpr ⟨hquote key, hcolon⟩, htext⟩, htexts⟩

end

end

end

/-! ## Escapes where there must be -/

/-- One character of a string. -/
def escape (c : CodePoint) : Text :=
  if c.val = 0x22 then lit "\\\""
  else if c.val = 0x5c then lit "\\\\"
  else if c.val = 0x08 then lit "\\b"
  else if c.val = 0x09 then lit "\\t"
  else if c.val = 0x0a then lit "\\n"
  else if c.val = 0x0c then lit "\\f"
  else if c.val = 0x0d then lit "\\r"
  else if c.val < 0x20 then lit "\\u" ++ hex 4 c.val
  else [c]

def quoted (text : Text) : Text := lit "\"" ++ text.flatMap escape ++ lit "\""

/-- `json.dumps(value, separators=(",", ":"), ensure_ascii=False, allow_nan=False)`. -/
def dumps {φ : Type} [PyFloat φ] (v : Json φ) : Except WriteError Text := v.writeWith quoted none

/-- No character of the text is a control below U+0020. -/
def Printable (text : Text) : Prop := ∀ c ∈ text, 0x20 ≤ c.val

-- Over the text: the instance that is found otherwise goes over all code points.
instance (text : Text) : Decidable (Printable text) :=
  decidable_of_iff ((text.all fun c => 0x20 ≤ c.val) = true) (by simp [Printable])

theorem Printable.append {a b : Text} (ha : Printable a) (hb : Printable b) : Printable (a ++ b) :=
  forall_mem_append.mpr ⟨ha, hb⟩

theorem printable_hex (width n : ℕ) : Printable (hex width n) :=
  forall_mem_hex (by decide +kernel) width n

theorem printable_escape (c : CodePoint) : Printable (escape c) := by
  unfold escape
  repeat' split
  iterate 7 decide +kernel
  · exact Printable.append (by decide +kernel) (printable_hex 4 _)
  · intro c' hc'
    cases mem_singleton.mp hc'
    omega

theorem printable_quoted (text : Text) : Printable (quoted text) := by
  have hquote : Printable (lit "\"") := by decide +kernel
  refine (hquote.append ?_).append hquote
  intro c hc
  obtain ⟨c', -, hc⟩ := mem_flatMap.mp hc
  exact printable_escape c' c hc

theorem printable_dumps {φ : Type} [PyFloat φ] {v : Json φ} {text : Text}
    (h : v.dumps = .ok text) : Printable text :=
  (gives_writeWith printable_quoted (by decide +kernel : Printable signs) none v).of_ok h

end Json

end Lib
