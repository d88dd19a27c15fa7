import FastapiBoilerplate.Lib.Json

/-!
# JSON texts: what Python reads, and what it writes in ASCII

`json.loads` and `json.dumps`, the second with its default of escaping whatever is not ASCII and
with `allow_nan=False`. Both go one level down the stack for every list or object they enter, and
raise `RecursionError` when the interpreter has no level left: how many there are is a parameter.
Reading a number that is written with a point or an exponent is the float type's business, and so
is what comes of `NaN` and the infinities, for which the reader has a hook.

The reader goes through the text by fuel. A call takes at least a character for every two steps it
makes, so there is enough of it (`scan_isSome`).
-/

namespace Lib

open List Option

/-- What the reader asks of a float: `float(literal)`. -/
class ReadFloat (φ : Type) extends PyFloat φ where
  read : Text → φ

/-- `ValueError`, `RecursionError`, or whatever the hook for constants raises. -/
inductive ReadError
  | value
  | recursion
  | constant (literal : Text)

namespace Json

/-! ## Words, strings and numbers -/

def isGap (c : CodePoint) : Bool :=
  c.val = 0x20 || c.val = 0x09 || c.val = 0x0a || c.val = 0x0d

def skipGap (text : Text) : Text := text.dropWhile isGap

/-- What follows a word the text starts with. -/
def after (word text : Text) : Option Text :=
  if word.isPrefixOf text then some (text.drop word.length) else none

/-- The first of some words that the text starts with: what it stands for, and what follows. -/
def scanWord {α : Type} (words : List (Text × α)) (text : Text) : Option (α × Text) :=
  words.findSome? fun (word, meaning) => (after word text).map fun rest => (meaning, rest)

def hexDigit (c : CodePoint) : Option ℕ :=
  if 0x30 ≤ c.val ∧ c.val ≤ 0x39 then some (c.val - 0x30)
  else if 0x41 ≤ c.val ∧ c.val ≤ 0x46 then some (c.val - 0x37)
  else if 0x61 ≤ c.val ∧ c.val ≤ 0x66 then some (c.val - 0x57)
  else none

/-- The code unit of four hexadecimal digits. -/
def codeUnit (d₁ d₂ d₃ d₄ : CodePoint) : Option ℕ := do
  let a ← hexDigit d₁
  let b ← hexDigit d₂
  let c ← hexDigit d₃
  let d ← hexDigit d₄
  return ((a * 16 + b) * 16 + c) * 16 + d

/-- A high surrogate and the escape of a low one after it are one character. -/
def joined (high : ℕ) (slash u d₁ d₂ d₃ d₄ : CodePoint) : Option CodePoint :=
  if 0xd800 ≤ high ∧ high < 0xdc00 ∧ slash.val = 0x5c ∧ u.val = 0x75 then
    match codeUnit d₁ d₂ d₃ d₄ with
    | some low =>
      if 0xdc00 ≤ low ∧ low < 0xe000 then
        some (Fin.ofNat _ (0x10000 + (high - 0xd800) * 0x400 + (low - 0xdc00)))
      else none
    | none => none
  else none

/-- The escapes of one letter. -/
def unescape (c : CodePoint) : Option CodePoint :=
  if c.val = 0x22 ∨ c.val = 0x5c ∨ c.val = 0x2f then some c
  else if c.val = 0x62 then some 0x08
  else if c.val = 0x66 then some 0x0c
  else if c.val = 0x6e then some 0x0a
  else if c.val = 0x72 then some 0x0d
  else if c.val = 0x74 then some 0x09
  else none

/-- A character before what has been read of a string. -/
def push (c : CodePoint) (scanned : Text × Text) : Text × Text := (c :: scanned.1, scanned.2)

/-- A string from behind its opening quote: what it says and what follows; none is
    `ValueError`. -/
def scanString : Text → Option (Text × Text)
  | [] => none
  | c :: rest =>
    if c.val = 0x22 then some ([], rest)
    else if c.val = 0x5c then
      match rest with
      | [] => none
      | e :: rest =>
        if e.val = 0x75 then
          match rest with
          | d₁ :: d₂ :: d₃ :: d₄ :: rest =>
            match codeUnit d₁ d₂ d₃ d₄ with
            | none => none
            | some unit =>
              let alone := (scanString rest).map (push (Fin.ofNat _ unit))
              match rest with
              | slash :: u :: e₁ :: e₂ :: e₃ :: e₄ :: rest =>
                match joined unit slash u e₁ e₂ e₃ e₄ with
                | some point => (scanString rest).map (push point)
                | none => alone
              | _ => alone
          | _ => none
        else
          match unescape e with
          | some point => (scanString rest).map (push point)
          | none => none
    else if c.val < 0x20 then none
    else (scanString rest).map (push c)

def isAsciiDigit (c : CodePoint) : Bool := 0x30 ≤ c.val && c.val ≤ 0x39

/-- A point and digits, if they are there. -/
def scanFraction : Text → Text × Text
  | [] => ([], [])
  | c :: rest =>
    let (digits, rest') := rest.span isAsciiDigit
    if c.val = 0x2e ∧ digits ≠ [] then (c :: digits, rest') else ([], c :: rest)

/-- A sign, if there is one. -/
def scanSign (isSign : CodePoint → Bool) : Text → Text × Text
  | [] => ([], [])
  | c :: rest => if isSign c then ([c], rest) else ([], c :: rest)

/-- An exponent, if there is one. -/
def scanExponent : Text → Text × Text
  | [] => ([], [])
  | c :: rest =>
    let (sign, body) := scanSign (fun s => s.val = 0x2b || s.val = 0x2d) rest
    let (digits, rest') := body.span isAsciiDigit
    if (c.val = 0x65 ∨ c.val = 0x45) ∧ digits ≠ [] then (c :: sign ++ digits, rest')
    else ([], c :: rest)

/-- The digits before the point: a zero stands alone. -/
def scanWhole : Text → Option (Text × Text)
  | [] => none
  | c :: rest =>
    if c.val = 0x30 then some ([c], rest)
    else if isAsciiDigit c then
      let (digits, rest') := rest.span isAsciiDigit
      some (c :: digits, rest')
    else none

/-- A number: whether it is a float, how it is written, and what follows; none if there is
    none. -/
def scanNumber (text : Text) : Option (Bool × Text × Text) :=
  let (sign, body) := scanSign (·.val = 0x2d) text
  (scanWhole body).map fun (digits, rest) =>
    let (fraction, rest) := scanFraction rest
    let (exponent, rest) := scanExponent rest
    (fraction ≠ [] || exponent ≠ [], sign ++ digits ++ fraction ++ exponent, rest)

/-! ## Values -/

section
variable {φ : Type}

/-- `d[key] = value`, of the pairs of an object: a key that comes again keeps its place. -/
def setField (fields : List (Text × Json φ)) (key : Text) (value : Json φ) :
    List (Text × Json φ) :=
  if fields.any (·.1 = key) then
    fields.map fun field => if field.1 = key then (key, value) else field
  else fields ++ [(key, value)]

/-- `dict(pairs)`. -/
def collapse (pairs : List (Text × Json φ)) : List (Text × Json φ) :=
  pairs.foldl (fun fields pair => setField fields pair.1 pair.2) []

/-- What a step of the reader answers; the outer none is a reader that is out of fuel. -/
abbrev Scanned (α : Type) := Option (Except ReadError (α × Text))

/-- What has been read, made into something else. -/
def Scanned.map {α β : Type} (f : α → β) : Scanned α → Scanned β
  | none => none
  | some (.error e) => some (.error e)
  | some (.ok (value, rest)) => some (.ok (f value, rest))

/-- What is read after what has been read. -/
def Scanned.bind {α β : Type} (more : α → Text → Scanned β) : Scanned α → Scanned β
  | none => none
  | some (.error e) => some (.error e)
  | some (.ok (value, rest)) => more value rest

/-- Behind an opening bracket: a level down, nothing or what there is up to the closing one. -/
def enter {α : Type} (close : Text) (f : List α → Json φ) (more : ℕ → Text → Scanned (List α)) :
    ℕ → Text → Scanned (Json φ)
  | 0, _ => some (.error .recursion)
  | limit + 1, text =>
    match after close (skipGap text) with
    | some rest => some (.ok (f [], rest))
    | none => Scanned.map f (more limit (skipGap text))

/-- Behind a member: the closing bracket, or a comma and more of them. -/
def proceed {α : Type} (close : CodePoint) (more : Text → Scanned (List α)) (member : α)
    (text : Text) : Scanned (List α) :=
  match skipGap text with
  | [] => some (.error .value)
  | c :: rest =>
    if c = close then some (.ok ([member], rest))
    else if c.val = 0x2c then Scanned.map (member :: ·) (more (skipGap rest))
    else some (.error .value)

/-- A key and the colon behind it. -/
def scanKey (text : Text) : Option (Text × Text) :=
  match (after (lit "\"") text).bind scanString with
  | some (key, rest) => (after (lit ":") (skipGap rest)).map fun rest => (key, rest)
  | none => none

variable [ReadFloat φ] (constant : Text → Option φ)

/-- What goes to the hook. -/
def constants : List Text := [lit "NaN", lit "Infinity", lit "-Infinity"]

/-- A number, as an `int` or a `float`. -/
def number (isFloat : Bool) (literal : Text) : Except ReadError (Json φ) :=
  if isFloat then .ok (.float (ReadFloat.read literal))
  else
    match readInt literal with
    | some n => .ok (.int n)
    | none => .error .value

/-- What is no string, list or object. -/
def scanLeaf (text : Text) : Except ReadError (Json φ × Text) :=
  match scanWord [(lit "null", .null), (lit "true", .bool true), (lit "false", .bool false)] text
    with
  | some (value, rest) => .ok (value, rest)
  | none =>
  match scanWord (constants.map fun word => (word, word)) text with
  | some (word, rest) =>
    match constant word with
    | some x => .ok (.float x, rest)
    | none => .error (.constant word)
  | none =>
  match scanNumber text with
  | some (isFloat, literal, rest) => (number isFloat literal).map fun value => (value, rest)
  | none => .error .value

mutual

/-- `scan_once`, by fuel and with the levels that are left. -/
def scan : ℕ → ℕ → Text → Scanned (Json φ)
  | 0, _, _ => none
  | _ + 1, _, [] => some (.error .value)
  | fuel + 1, limit, c :: rest =>
    if c.val = 0x22 then
      match scanString rest with
      | some (s, rest) => some (.ok (.str s, rest))
      | none => some (.error .value)
    else if c.val = 0x7b then
      enter (lit "\x7d") (fun pairs => .object (collapse pairs)) (scanFields fuel) limit rest
    else if c.val = 0x5b then enter (lit "]") .array (scanItems fuel) limit rest
    else some (scanLeaf constant (c :: rest))

/-- The items of a list, from the first on. -/
def scanItems : ℕ → ℕ → Text → Scanned (List (Json φ))
  | 0, _, _ => none
  | fuel + 1, limit, text =>
    Scanned.bind (proceed 0x5d (scanItems fuel limit)) (scan fuel limit text)

/-- The fields of an object, from the first on. -/
def scanFields : ℕ → ℕ → Text → Scanned (List (Text × Json φ))
  | 0, _, _ => none
  | fuel + 1, limit, text =>
    match scanKey text with
    | none => some (.error .value)
    | some (key, rest) =>
      Scanned.bind (fun value => proceed 0x7d (scanFields fuel limit) (key, value))
        (scan fuel limit (skipGap rest))

end

end

/-! ## There is enough fuel, and what is read is made of what JSON has -/

theorem length_skipGap (text : Text) : (skipGap text).length ≤ text.length :=
  (dropWhile_suffix _).length_le

variable {text : Text} {α β φ : Type} {m n : ℕ} {scanned : Scanned α} {p : α → Prop}

theorem length_after {word rest : Text} (hword : word ≠ []) (h : after word text = some rest) :
    rest.length < text.length := by
  unfold after at h
  split at h <;> cases h
  rename_i hpre
  have hpre := isPrefixOf_iff_prefix.mp hpre
  have hle := hpre.length_le
  have hpos := length_pos_iff.mpr hword
  rw [length_drop]
  omega

variable {words : List (Text × α)} {meaning : α} {close key literal : Text}
  {more : α → Text → Scanned β} {f : List α → Json φ} {q : β → Prop} {isFloat : Bool}

theorem exists_of_scanWord {rest : Text} (h : scanWord words text = some (meaning, rest)) :
    ∃ word, (word, meaning) ∈ words ∧ after word text = some rest := by
  obtain ⟨⟨word, meaning'⟩, hmem, hafter⟩ := exists_of_findSome?_eq_some h
  obtain ⟨rest', hrest, heq⟩ := map_eq_some_iff.mp hafter
  cases heq
  exact ⟨word, hmem, hrest⟩

theorem length_scanWord {rest : Text} (hwords : ∀ word ∈ words, word.1 ≠ [])
    (h : scanWord words text = some (meaning, rest)) : rest.length < text.length := by
  obtain ⟨word, hmem, hafter⟩ := exists_of_scanWord h
  exact length_after (hwords _ hmem) hafter

theorem length_of_push {c : CodePoint} {scanned : Option (Text × Text)} {s rest : Text}
    (ih : ∀ {s rest : Text}, scanned = some (s, rest) → rest.length < n) (hn : n ≤ m)
    (h : scanned.map (push c) = some (s, rest)) : rest.length < m := by
  obtain ⟨⟨s', rest'⟩, hscanned, heq⟩ := map_eq_some_iff.mp h
  cases heq
  exact Nat.lt_of_lt_of_le (ih hscanned) hn

theorem length_scanString {s rest : Text} (h : scanString text = some (s, rest)) :
    rest.length < text.length := by
  fun_induction scanString text generalizing s rest with
  | case2 c rest' hquote =>
    cases h
    exact Nat.lt_succ_self _
  | case5 | case6 | case7 | case9 | case12 =>
    refine length_of_push (by assumption) ?_ h
    simp only [length_cons]
    omega
  | case1 | case3 | case4 | case8 | case10 | case11 => cases h

theorem length_scanKey {rest : Text} (h : scanKey text = some (key, rest)) :
    rest.length < text.length := by
  unfold scanKey at h
  split at h
  · rename_i key' behind hstring
    obtain ⟨opened, hquote, hscan⟩ := bind_eq_some_iff.mp hstring
    obtain ⟨rest', hcolon, heq⟩ := map_eq_some_iff.mp h
    cases heq
    calc rest.length
        < (skipGap behind).length := length_after (by decide) hcolon
      _ ≤ behind.length := length_skipGap behind
      _ < opened.length := length_scanString hscan
      _ < text.length := length_after (by decide) hquote
  · cases h

theorem length_span (p : CodePoint → Bool) (text : Text) :
    (text.span p).2.length ≤ text.length := by
  rw [span_eq_takeWhile_dropWhile]
  exact (dropWhile_suffix p).length_le

theorem length_scanFraction (text : Text) : (scanFraction text).2.length ≤ text.length := by
  cases text with
  | nil => exact Nat.le_refl _
  | cons c rest =>
    unfold scanFraction
    dsimp only
    split
    · exact Nat.le_succ_of_le (length_span _ rest)
    · exact Nat.le_refl _

theorem length_scanSign (isSign : CodePoint → Bool) (text : Text) :
    (scanSign isSign text).2.length ≤ text.length := by
  cases text with
  | nil => exact Nat.le_refl _
  | cons =>
    rw [scanSign]
    split
    · exact Nat.le_succ _
    · exact Nat.le_refl _

theorem length_scanExponent (text : Text) : (scanExponent text).2.length ≤ text.length := by
  cases text with
  | nil => exact Nat.le_refl _
  | cons c rest =>
    unfold scanExponent
    dsimp only
    split
    · exact Nat.le_succ_of_le (Nat.le_trans (length_span _ _) (length_scanSign _ rest))
    · exact Nat.le_refl _

theorem length_scanWhole {digits rest : Text} (h : scanWhole text = some (digits, rest)) :
    rest.length < text.length := by
  cases text with
  | nil => cases h
  | cons c body =>
    rw [scanWhole] at h
    split at h
    · cases h
      exact Nat.lt_succ_self _
    · split at h <;> cases h
      exact Nat.lt_succ_of_le (length_span _ body)

theorem length_scanNumber {rest : Text} (h : scanNumber text = some (isFloat, literal, rest)) :
    rest.length < text.length := by
  obtain ⟨⟨digits, behind⟩, hwhole, heq⟩ := map_eq_some_iff.mp h
  cases heq
  calc (scanExponent (scanFraction behind).2).2.length
      ≤ (scanFraction behind).2.length := length_scanExponent _
    _ ≤ behind.length := length_scanFraction behind
    _ < (scanSign (·.val = 0x2d) text).2.length := length_scanWhole hwhole
    _ ≤ text.length := length_scanSign _ text

theorem plain_setField {fields : List (Text × Json φ)} {value : Json φ}
    (hfields : ∀ field ∈ fields, Plain field.2) (hvalue : Plain value) :
    ∀ field ∈ setField fields key value, Plain field.2 := by
  unfold setField
  split
  · intro field hfield
    obtain ⟨old, hold, rfl⟩ := mem_map.mp hfield
    split
    · exact hvalue
    · exact hfields old hold
  · exact forall_mem_append.mpr ⟨hfields, forall_mem_singleton.mpr hvalue⟩

theorem plain_collapse {pairs : List (Text × Json φ)} (h : ∀ pair ∈ pairs, Plain pair.2) :
    ∀ field ∈ collapse pairs, Plain field.2 := by
  refine List.foldlRecOn (motive := fun fields : List (Text × Json φ) =>
    ∀ field ∈ fields, Plain field.2) pairs _ nofun ?_
  intro fields hfields pair hpair
  exact plain_setField hfields (h pair hpair)

/-- A reader that has had enough fuel. If it returns, it has read something of a text of `n`
    characters, and what it returns is as `p` says. -/
inductive Progress {α : Type} (p : α → Prop) (n : ℕ) : Scanned α → Prop
  | error (e : ReadError) : Progress p n (some (.error e))
  | ok {value : α} {rest : Text} :
      p value → rest.length < n → Progress p n (some (.ok (value, rest)))

theorem Progress.map {f : α → β} (h : Progress p n scanned) (hle : n ≤ m)
    (hf : ∀ value, p value → q (f value)) : Progress q m (Scanned.map f scanned) := by
  cases h with
  | error e => exact .error e
  | ok hvalue hrest => exact .ok (hf _ hvalue) (Nat.lt_of_lt_of_le hrest hle)

theorem Progress.bind (h : Progress p n scanned)
    (hmore : ∀ value rest, p value → rest.length < n → Progress q m (more value rest)) :
    Progress q m (Scanned.bind more scanned) := by
  cases h with
  | error e => exact .error e
  | ok hvalue hrest => exact hmore _ _ hvalue hrest

theorem Progress.isSome (h : Progress p n scanned) : isSome scanned := by
  cases h <;> rfl

theorem progress_enter
    {more : ℕ → Text → Scanned (List α)} (hclose : close ≠ []) (limit : ℕ) (text : Text)
    (hf : ∀ members, (∀ member ∈ members, p member) → Plain (f members))
    (hmore : ∀ limit, Progress (fun members => ∀ member ∈ members, p member)
      (skipGap text).length (more limit (skipGap text))) :
    Progress Plain (text.length + 1) (enter close f more limit text) := by
  have hgap := Nat.le_succ_of_le (length_skipGap text)
  cases limit with
  | zero => exact .error _
  | succ limit =>
    rw [enter]
    split
    · rename_i hafter
      exact .ok (hf [] (by intros; contradiction)) (Nat.lt_of_lt_of_le (length_after hclose hafter) hgap)
    · exact (hmore limit).map hgap hf

theorem progress_proceed {close : CodePoint} {more : Text → Scanned (List α)} {member : α}
    (hmember : p member) (htext : text.length < n)
    (hmore : ∀ rest, rest.length + 1 < n →
      Progress (fun members => ∀ member ∈ members, p member) rest.length (more rest)) :
    Progress (fun members => ∀ member ∈ members, p member) n
      (proceed close more member text) := by
  have hgap := length_skipGap text
  rw [proceed]
  split
  · exact .error _
  rename_i c rest hskip
  have hrest := length_skipGap rest
  rw [hskip, length_cons] at hgap
  split
  · exact .ok (forall_mem_singleton.mpr hmember) (by omega)
  split
  · exact (hmore _ (by omega)).map (by omega) fun members h =>
      forall_mem_cons.mpr ⟨hmember, h⟩
  · exact .error _

section
variable {φ : Type} [ReadFloat φ] (constant : Text → Option φ)

variable {value : Json φ}

theorem plain_number (h : number isFloat literal = .ok value) : Plain value := by
  unfold number at h
  split at h
  · cases h
    exact .float _
  split at h <;> cases h
  exact .int _

variable {text : Text}

theorem progress_scanLeaf (text : Text) :
    Progress Plain text.length (some (scanLeaf constant text)) := by
  unfold scanLeaf
  split
  · rename_i hword
    have hwords : ∀ word ∈ [(lit "null", Json.null (φ := φ)), (lit "true", .bool true),
        (lit "false", .bool false)], Plain word.2 := by
      simp [Plain.null, Plain.bool]
    obtain ⟨word, hmem, -⟩ := exists_of_scanWord hword
    exact .ok (hwords _ hmem) (length_scanWord (by simp [lit]) hword)
  split
  · rename_i word rest' hword
    split
    · exact .ok (.float _) (length_scanWord (by decide) hword)
    · exact .error _
  split
  · rename_i isFloat literal rest' hnumber
    cases hvalue : number (φ := φ) isFloat literal with
    | error e => exact .error e
    | ok => exact .ok (plain_number hvalue) (length_scanNumber hnumber)
  · exact .error _

/-- One level of lists or objects takes two steps, and at least the bracket. -/
theorem progress_scan (fuel : ℕ) :
    (∀ (limit : ℕ) (text : Text), 2 * text.length + 1 ≤ fuel →
      Progress Plain text.length (scan constant fuel limit text)) ∧
    (∀ (limit : ℕ) (text : Text), 2 * text.length + 2 ≤ fuel →
      Progress (fun items => ∀ item ∈ items, Plain item) text.length
        (scanItems constant fuel limit text)) ∧
    ∀ (limit : ℕ) (text : Text), 2 * text.length + 2 ≤ fuel →
      Progress (fun pairs => ∀ pair ∈ pairs, Plain pair.2) text.length
        (scanFields constant fuel limit text) := by
  induction fuel with
  | zero => refine ⟨?_, ?_, ?_⟩ <;> intro _ _ h <;> omega
  | succ fuel ih =>
    obtain ⟨ihScan, ihItems, ihFields⟩ := ih
    refine ⟨fun limit text hfuel => ?_, fun limit text hfuel => ?_, fun limit text hfuel => ?_⟩
    · cases text with
      | nil => exact .error _
      | cons c rest =>
        have hgap := length_skipGap rest
        rw [length_cons] at hfuel
        rw [scan]
        split
        · split
          · rename_i hstring
            exact .ok (.str _) (Nat.lt_succ_of_lt (length_scanString hstring))
          · exact .error _
        split
        · exact progress_enter (by decide) limit rest (fun pairs h => .object (plain_collapse h))
            fun limit => ihFields limit _ (by omega)
        split
        · exact progress_enter (by decide) limit rest (fun items h => .array h)
            fun limit => ihItems limit _ (by omega)
        · exact progress_scanLeaf constant _
    · rw [scanItems]
      refine (ihScan limit text (by omega)).bind fun item rest hitem hrest => ?_
      exact progress_proceed hitem hrest fun rest hlt => ihItems limit rest (by omega)
    · rw [scanFields]
      split
      · exact .error _
      rename_i key behind hkey
      have hbehind := length_scanKey hkey
      have hgap := length_skipGap behind
      refine (ihScan limit _ (by omega)).bind fun value rest hvalue hrest => ?_
      exact progress_proceed hvalue (by omega) fun rest hlt => ihFields limit rest (by omega)

/-- The reader never runs out of fuel. -/
theorem scan_isSome (limit : ℕ) (text : Text) :
    (scan constant (2 * text.length + 1) limit text).isSome :=
  ((progress_scan constant _).1 limit text (Nat.le_refl _)).isSome

/-- `json.loads(text)`. A byte order mark is refused. -/
def loads (limit : ℕ) (text : Text) : Except ReadError (Json φ) :=
  if startsWith text [0xfeff] then .error .value
  else
    let start := skipGap text
    match (scan constant _ limit start).get (scan_isSome constant limit start) with
    | .error e => .error e
    | .ok (value, rest) => if skipGap rest = [] then .ok value else .error .value

theorem plain_of_loads {limit : ℕ} (h : loads constant limit text = .ok value) : Plain value := by
  unfold loads at h
  split at h
  · cases h
  dsimp only at h
  split at h
  · cases h
  rename_i value' rest hscan
  split at h <;> cases h
  have hsome := (some_get _).symm.trans (congrArg some hscan)
  have hprogress := (progress_scan constant _).1 limit (skipGap text) (Nat.le_refl _)
  rw [hsome] at hprogress
  cases hprogress with
  | ok hvalue => exact hvalue

end

/-! ## Writing -/

/-- One character of a string in ASCII; one beyond the basic plane is a pair of surrogates. -/
def escapeAscii (c : CodePoint) : Text :=
  if c.val ≤ 0x7e then escape c
  else if c.val < 0x10000 then lit "\\u" ++ hex 4 c.val
  else
    lit "\\u" ++ hex 4 (0xd800 + (c.val - 0x10000) / 0x400) ++
      lit "\\u" ++ hex 4 (0xdc00 + (c.val - 0x10000) % 0x400)

def quotedAscii (text : Text) : Text := lit "\"" ++ text.flatMap escapeAscii ++ lit "\""

section
variable {φ : Type} [PyFloat φ]

/-- `json.dumps(value, allow_nan=False, separators=(",", ":"))`, with the levels that are left. -/
def write (limit : ℕ) (v : Json φ) : Except WriteError Text := v.writeWith quotedAscii (some limit)

end

/-! ## What is written, and what is not -/

section
variable {φ : Type} [PyFloat φ]

variable {limit : ℕ}

variable {fields : List (Text × Json φ)}

theorem returns_writeFields :
    Returns (writeFields quotedAscii (some limit) fields) ↔
      ∀ field ∈ fields, Returns (field.2.write limit) := by
  induction fields with
  | nil =>
    rw [writeFields]
    simp [returns_ok]
  | cons field fields ih =>
    rw [writeFields, forall_mem_cons, ← ih]
    apply returns_bind
    intro text htext
    exact returns_bind_pure

theorem returns_write_object :
    Returns ((object fields).write (limit + 1)) ↔
      ∀ field ∈ fields, Returns (field.2.write limit) := by
  rw [write, writeWith]
  exact returns_bind_pure.trans returns_writeFields

theorem returns_write_str (limit : ℕ) (text : Text) : Returns ((str text : Json φ).write limit) := by
  rw [write, writeWith]
  exact returns_ok _

theorem returns_write_float {x : φ} :
    Returns ((float x : Json φ).write limit) ↔ PyFloat.finite x = true := by
  rw [write, writeWith]
  split
  · exact iff_of_true (returns_ok _) ‹_›
  · exact iff_of_false (not_returns_error _) ‹_›

theorem returns_write_nat {n : ℕ} (h : n < 10 ^ maxStrDigits) :
    Returns ((int n : Json φ).write limit) := by
  obtain ⟨text, htext⟩ := isSome_iff_exists.mp ((isSome_strInt n).mpr h)
  rw [write, writeWith, htext]
  exact returns_ok _

end

/-! ## What is written is ASCII -/

def Ascii (text : Text) : Prop := ∀ c ∈ text, c.val < 0x80

-- Over the text: the instance that is found otherwise goes over all code points.
instance (text : Text) : Decidable (Ascii text) :=
  decidable_of_iff ((text.all fun c => c.val < 0x80) = true) (by simp [Ascii])

theorem Ascii.append {a b : Text} (ha : Ascii a) (hb : Ascii b) : Ascii (a ++ b) :=
  forall_mem_append.mpr ⟨ha, hb⟩

theorem Ascii.isSome_utf8Encode (h : Ascii text) : (utf8Encode text).isSome := by
  rw [utf8Encode_ascii h]
  rfl

theorem ascii_hex (width n : ℕ) : Ascii (hex width n) := forall_mem_hex (by decide) width n

theorem ascii_escapeAscii (c : CodePoint) : Ascii (escapeAscii c) := by
  have hu : Ascii (lit "\\u") := by decide
  unfold escapeAscii
  split
  · unfold escape
    repeat' split
    iterate 7 decide
    · exact hu.append (ascii_hex 4 _)
    · intro c' hc'
      cases mem_singleton.mp hc'
      omega
  split
  · exact hu.append (ascii_hex 4 _)
  · exact ((hu.append (ascii_hex 4 _)).append hu).append (ascii_hex 4 _)

theorem ascii_quotedAscii (text : Text) : Ascii (quotedAscii text) := by
  have hquote : Ascii (lit "\"") := by decide
  refine (hquote.append ?_).append hquote
  intro c hc
  obtain ⟨c', -, hc⟩ := mem_flatMap.mp hc
  exact ascii_escapeAscii c' c hc

/-- What the writer writes is ASCII, and `TypeError` is for objects that JSON does not know. -/
theorem gives_write {φ : Type} [PyFloat φ] (limit : ℕ) (v : Json φ) :
    Gives Ascii (fun e => Plain v → e ≠ .type) (write limit v) :=
  gives_writeWith ascii_quotedAscii (by decide +kernel : Ascii signs) _ v

end Json

end Lib
