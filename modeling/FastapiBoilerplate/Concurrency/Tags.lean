import FastapiBoilerplate.Lib.Lists
import FastapiBoilerplate.Lib.TextRoundTrip
import FastapiBoilerplate.Lib.Uuid

/-!
# Entity tags

`src/concurrency/tags.py`, and `resource_version_tag` of `etag.py`: the opaque text a client is
handed for a version of a row, and the scanner that reads a list of such texts back out of a
header. A tag that could not be written into a header is not built (`EntityTag.valid` is the check
of `__post_init__`).

The scanner is the loop of `parse_entity_tag_list`, one element a turn. A comma may stand inside a
tag, so the list is not split at commas.
-/

namespace Concurrency

open Lib List

/-- An `AppException`, with the response it becomes. -/
structure AppException where
  statusCode : ℕ
  errorCode : String
  message : Text
  headers : List (String × Text) := []
  deriving DecidableEq

/-- `MalformedPreconditionError`. -/
def malformedPrecondition (message : Text) : AppException :=
  { statusCode := 400, errorCode := "MALFORMED_PRECONDITION", message }

/-! ## The grammar -/

/-- `etagc`: `[\x21\x23-\x7e\x80-\xff]`. -/
def isEtagc (c : CodePoint) : Bool :=
  c.val == 0x21 || (0x23 ≤ c.val && c.val ≤ 0x7e) || (0x80 ≤ c.val && c.val ≤ 0xff)

/-- `OWS`. -/
def isOws (c : CodePoint) : Bool := c.val == 0x20 || c.val == 0x09

def quotationMark : CodePoint := 0x22

def comma : CodePoint := 0x2c

structure EntityTag where
  value : Text
  weak : Bool := false
  /-- `__post_init__`. -/
  valid : value.all isEtagc = true

namespace EntityTag

variable (tag other : EntityTag)

/-- `serialize`. -/
def serialize : Text :=
  if tag.weak then lit "W/" ++ quotationMark :: tag.value ++ [quotationMark]
  else quotationMark :: tag.value ++ [quotationMark]

/-- `strongly_matches`. -/
def stronglyMatches : Bool := !tag.weak && !other.weak && tag.value == other.value

/-- `weakly_matches`. -/
def weaklyMatches : Bool := tag.value == other.value

end EntityTag

/-- What stands between two quotation marks, and what follows the second. -/
def matchOpaque (weak : Bool) : Text → Option (EntityTag × Text)
  | [] => none
  | c :: cs =>
    if c = quotationMark then
      match cs.dropWhile isEtagc with
      | [] => none
      | d :: rest =>
        if d = quotationMark then
          some (⟨cs.takeWhile isEtagc, weak, all_takeWhile⟩, rest)
        else none
    else none

/-- `_ENTITY_TAG.match`: the tag that starts here, and what is left after it. -/
def matchEntityTag : Text → Option (EntityTag × Text)
  | c :: d :: cs =>
    if c = 0x57 ∧ d = 0x2f then matchOpaque true cs else matchOpaque false (c :: d :: cs)
  | text => matchOpaque false text

/-! ## The list -/

/-- What stands before a comma or the end: a tag or nothing, with blanks around it. -/
structure Element where
  before : Text
  tag : Option EntityTag
  after : Text
  beforeBlank : ∀ c ∈ before, isOws c = true
  afterBlank : ∀ c ∈ after, isOws c = true

def Element.text (element : Element) : Text :=
  element.before ++ (element.tag.elim [] EntityTag.serialize ++ element.after)

/-- What follows an element: the end, or a comma and another list. -/
def following (rest : Option Text) : Text := rest.elim [] (comma :: ·)

/-- `#entity-tag` of RFC 9110: the texts that are lists, each with the tags it lists. -/
inductive TagList : Option Text → List EntityTag → Prop
  | done : TagList none []
  | element (element : Element) {rest : Option Text} {tags : List EntityTag}
      (h : TagList rest tags) :
      TagList (some (element.text ++ following rest)) (element.tag.toList ++ tags)

section
variable [Unicode]

/-- One turn of the loop: the tag it appends, if any, and where the next turn starts. -/
def scanElement (field : String) (raw text : Text) :
    Except AppException (Option EntityTag × Text) :=
  match text.dropWhile isOws with
  | [] => .ok (none, [])
  | c :: cs =>
    if c = comma then .ok (none, cs)
    else
      match matchEntityTag (c :: cs) with
      | none =>
        .error (malformedPrecondition (lit field ++
          lit " is not a valid entity-tag list at offset " ++
          decimal (raw.length - (c :: cs).length) ++ lit ": " ++ reprText raw))
      | some (tag, rest) =>
        match rest.dropWhile isOws with
        | [] => .ok (some tag, [])
        | d :: ds =>
          if d = comma then .ok (some tag, ds)
          else .error (malformedPrecondition (lit field ++
            lit " entity tags must be comma-separated: " ++ reprText raw))

/-- The loop. The counter is what is left of the characters the last turn has taken. -/
def scanList (field : String) (raw : Text) : ℕ → Text → Except AppException (List EntityTag)
  | _, [] => .ok []
  | taken + 1, _ :: cs => scanList field raw taken cs
  | 0, c :: cs =>
    match scanElement field raw (c :: cs) with
    | .error error => .error error
    | .ok (tag, rest) =>
      (scanList field raw (cs.length - rest.length) cs).map fun tags => tag.toList ++ tags

/-- `parse_entity_tag_list`. -/
def parseEntityTagList (raw : Text) (field : String) : Except AppException (List EntityTag) :=
  scanList field raw 0 raw

/-! ## A tag by itself -/

variable {field : String} {raw text : Text} {tag : EntityTag}

theorem scanList_skip (taken : ℕ) :
    scanList field raw taken text = scanList field raw 0 (text.drop taken) := by
  induction text generalizing taken with
  | nil => cases taken <;> rfl
  | cons c cs ih =>
    cases taken with
    | zero => rfl
    | succ taken => exact ih taken

omit [Unicode] in
theorem matchOpaque_quoted (weak : Bool) (h : text.all isEtagc = true) (rest : Text) :
    matchOpaque weak (quotationMark :: text ++ quotationMark :: rest) =
      some (⟨text, weak, h⟩, rest) := by
  have hmark : isEtagc quotationMark = false := by decide
  have hall : ∀ c ∈ text, isEtagc c = true := all_eq_true.mp h
  have hdrop : (text ++ quotationMark :: rest).dropWhile isEtagc = quotationMark :: rest := by
    rw [dropWhile_append_of_pos hall, dropWhile_cons, hmark]
    rfl
  have htake : (text ++ quotationMark :: rest).takeWhile isEtagc = text := by
    rw [takeWhile_append_of_pos hall, takeWhile_cons, hmark]
    simp
  simp [matchOpaque, hdrop, htake]

omit [Unicode] in
theorem matchEntityTag_quotationMark (cs : Text) :
    matchEntityTag (quotationMark :: cs) = matchOpaque false (quotationMark :: cs) := by
  have hmark : quotationMark ≠ 0x57 := by decide
  cases cs with
  | nil => rfl
  | cons => simp [matchEntityTag, hmark]

omit [Unicode] in
theorem matchEntityTag_serialize (tag : EntityTag) (rest : Text) :
    matchEntityTag (tag.serialize ++ rest) = some (tag, rest) := by
  obtain ⟨value, weak, valid⟩ := tag
  cases weak with
  | true =>
    have hlit : lit "W/" = [0x57, 0x2f] := by decide
    simpa [EntityTag.serialize, hlit, matchEntityTag] using matchOpaque_quoted true valid rest
  | false =>
    simpa [EntityTag.serialize, matchEntityTag_quotationMark] using
      matchOpaque_quoted false valid rest

omit [Unicode] in
/-- A serialized tag starts with neither a blank nor a comma. -/
theorem serialize_eq_cons (tag : EntityTag) :
    ∃ c cs, tag.serialize = c :: cs ∧ isOws c = false ∧ c ≠ comma := by
  unfold EntityTag.serialize
  split
  · exact ⟨0x57, _, rfl, by decide, by decide⟩
  · exact ⟨quotationMark, _, rfl, by decide, by decide⟩

/-! ## The language of lists -/

omit [Unicode] in
theorem eq_of_matchOpaque {weak : Bool} {rest : Text}
    (h : matchOpaque weak text = some (tag, rest)) :
    tag.weak = weak ∧ text = quotationMark :: tag.value ++ quotationMark :: rest := by
  unfold matchOpaque at h
  split at h <;> [cases h; split at h <;> [split at h; cases h]]
  · cases h
  · split at h <;> cases h
    rename_i cs hmark _ _ hend hdrop
    refine ⟨rfl, ?_⟩
    rw [hmark, cons_append, ← hend, ← hdrop, takeWhile_append_dropWhile]

omit [Unicode] in
theorem eq_of_matchEntityTag {rest : Text} (h : matchEntityTag text = some (tag, rest)) : text = tag.serialize ++ rest := by
  have hlit : lit "W/" = [0x57, 0x2f] := by decide
  unfold matchEntityTag at h
  split at h <;> [split at h; skip]
  all_goals obtain ⟨hweak, htext⟩ := eq_of_matchOpaque h
  · rename_i hmark
    simp [EntityTag.serialize, hweak, htext, hlit, hmark]
  all_goals simp [EntityTag.serialize, hweak, htext]

variable {rest : Text} {tag : Option EntityTag}

theorem scanElement_text (element : Element) (rest : Option Text) :
    scanElement field raw (element.text ++ following rest) =
      .ok (element.tag, rest.getD []) := by
  obtain ⟨before, tag, after, hbefore, hafter⟩ := element
  have hcomma : isOws comma = false := by decide
  have hblank : (after ++ following rest).dropWhile isOws = following rest := by
    rw [dropWhile_append_of_pos hafter]
    cases rest <;> simp [following, hcomma]
  rw [scanElement, Element.text, append_assoc, dropWhile_append_of_pos hbefore]
  cases tag with
  | none =>
    simp only [Option.elim, nil_append, hblank]
    cases rest <;> simp [following]
  | some tag =>
    obtain ⟨c, cs, htag, hows, hne⟩ := serialize_eq_cons tag
    have hmatch := matchEntityTag_serialize tag (after ++ following rest)
    rw [htag, cons_append] at hmatch
    simp only [Option.elim, append_assoc, htag, cons_append, dropWhile_cons, hows, hne, hmatch,
      hblank, Bool.false_eq_true, if_false]
    cases rest <;> simp [following]

theorem text_of_scanElement (h : scanElement field raw text = .ok (tag, rest)) :
    ∃ (element : Element) (next : Option Text), element.tag = tag ∧ rest = next.getD [] ∧
      text = element.text ++ following next := by
  have hblank (text : Text) : ∀ c ∈ text.takeWhile isOws, isOws c = true :=
    all_eq_true.mp all_takeWhile
  have htext := takeWhile_append_dropWhile (p := isOws) (l := text)
  unfold scanElement at h
  split at h <;> [skip; split at h <;> [skip; split at h <;> [cases h; skip]]]
  · cases h
    rename_i hend
    exact ⟨⟨_, none, [], hblank text, nofun⟩, none, rfl, rfl, by
      simpa [Element.text, following, hend] using htext.symm⟩
  · cases h
    rename_i hend hcomma
    exact ⟨⟨_, none, [], hblank text, nofun⟩, some _, rfl, rfl, by
      simpa [Element.text, following, hend, hcomma] using htext.symm⟩
  · rename_i hdrop _ _ tag after hmatch
    rw [hdrop, eq_of_matchEntityTag hmatch,
      ← takeWhile_append_dropWhile (p := isOws) (l := after)] at htext
    split at h <;> [skip; split at h] <;> cases h
    · rename_i hend
      exact ⟨⟨_, some tag, _, hblank text, hblank after⟩, none, rfl, rfl, by
        simpa [Element.text, following, hend] using htext.symm⟩
    · rename_i hcomma hend
      exact ⟨⟨_, some tag, _, hblank text, hblank after⟩, some _, rfl, rfl, by
        simpa [Element.text, following, hend, hcomma] using htext.symm⟩

theorem malformed_of_scanList {error : AppException} (taken : ℕ)
    (h : scanList field raw taken text = .error error) :
    ∃ message, error = malformedPrecondition message := by
  induction text generalizing taken with
  | nil => cases taken <;> cases h
  | cons c cs ih =>
    cases taken with
    | succ taken => exact ih taken h
    | zero =>
      rw [scanList] at h
      split at h
      · cases h
        rename_i h
        unfold scanElement at h
        repeat' split at h
        all_goals cases h
        all_goals exact ⟨_, rfl⟩
      · unfold Except.map at h
        split at h <;> cases h
        exact ih _ ‹_›

/-- One turn of the loop: what an element leaves is what the next turn starts with. -/
theorem scanList_element {c : CodePoint} {cs : Text}
    (h : scanElement field raw (c :: cs) = .ok (tag, rest)) :
    scanList field raw 0 (c :: cs) =
      (scanList field raw 0 rest).map fun tags => tag.toList ++ tags := by
  obtain ⟨element, next, -, rfl, htext⟩ := text_of_scanElement h
  have hsuffix : next.getD [] <:+ cs := by
    cases next with
    | none => exact nil_suffix
    | some rest =>
      have hcons : comma :: rest <:+ c :: cs := ⟨element.text, htext.symm⟩
      rcases suffix_cons_iff.mp hcons with heq | hcs
      · cases heq
        exact suffix_rfl
      · exact (suffix_cons comma rest).trans hcs
  rw [scanList, h]
  dsimp only
  rw [scanList_skip, ← suffix_iff_eq_drop.mp hsuffix]

theorem tagList_of_scanList {tags : List EntityTag} (h : scanList field raw 0 text = .ok tags) :
    TagList (some text) tags := by
  -- By induction on the length: an element may leave any shorter text.
  induction hn : text.length using Nat.strong_induction_on generalizing text tags with
  | _ n ih =>
    cases text with
    | nil =>
      cases h
      exact .element ⟨[], none, [], nofun, nofun⟩ .done
    | cons c cs =>
      cases helement : scanElement field raw (c :: cs) with
      | error => simp [scanList, helement] at h
      | ok result =>
        rw [scanList_element helement, Except.map.eq_def] at h
        obtain ⟨element, next, htag, hrest, htext⟩ := text_of_scanElement helement
        split at h <;> cases h
        rename_i htail
        rw [htext] at hn ⊢
        rw [← htag]
        refine .element element ?_
        rw [hrest] at htail
        cases next with
        | none =>
          cases htail
          exact .done
        | some rest =>
          refine ih rest.length ?_ htail rfl
          simp only [following, Option.elim, length_append, length_cons] at hn
          omega

theorem scanList_of_tagList {next : Option Text} {tags : List EntityTag}
    (h : TagList next tags) : scanList field raw 0 (next.getD []) = .ok tags := by
  induction h with
  | done => rfl
  | @element element rest tags _ ih =>
    have helement : scanElement field raw (element.text ++ following rest) =
        .ok (element.tag, rest.getD []) := scanElement_text element rest
    rw [Option.getD_some]
    cases htext : element.text ++ following rest with
    | nil =>
      -- Nothing is left of an empty list, so the loop takes no turn for it.
      obtain ⟨-, hrest⟩ := append_eq_nil_iff.mp htext
      rw [htext] at helement
      cases rest with
      | none =>
        obtain ⟨htag, -⟩ := Prod.mk.inj (Except.ok.inj helement)
        rw [← htag]
        exact ih
      | some => cases hrest
    | cons c cs =>
      rw [htext] at helement
      rw [scanList_element helement, ih]
      rfl

omit [Unicode] in
theorem tagList_join (tags : List EntityTag) :
    TagList (some ([comma].intercalate (tags.map EntityTag.serialize))) tags := by
  induction tags with
  | nil => exact .element ⟨[], none, [], nofun, nofun⟩ .done
  | cons tag tags ih =>
    have helement := @TagList.element ⟨[], some tag, [], nofun, nofun⟩
    cases tags with
    | nil => simpa [Element.text, following] using helement .done
    | cons => simpa [Element.text, following, intercalate] using helement ih

/-- What a client is handed reads back as what was meant. -/
theorem parseEntityTagList_serialize (tag : EntityTag) (field : String) :
    parseEntityTagList tag.serialize field = .ok [tag] := by
  simpa [parseEntityTagList] using scanList_of_tagList (tagList_join [tag])

/-- **A list is parsed to the grammar.** The tags of every text of the language are returned,
    every other text is refused, and what is joined reads back. -/
theorem parseEntityTagList_grammar (raw : Text) (field : String) (tags : List EntityTag) :
    (parseEntityTagList raw field = .ok tags ↔ TagList (some raw) tags) ∧
      ((∃ message, parseEntityTagList raw field = .error (malformedPrecondition message)) ↔
        ¬∃ tags, TagList (some raw) tags) ∧
      parseEntityTagList ([comma].intercalate (tags.map EntityTag.serialize)) field =
        .ok tags := by
  refine ⟨⟨tagList_of_scanList, scanList_of_tagList⟩, ⟨?_, ?_⟩,
    scanList_of_tagList (tagList_join tags)⟩
  · rintro ⟨message, herror⟩ ⟨tags, htags⟩
    cases herror.symm.trans (scanList_of_tagList htags)
  · intro hnone
    cases hscan : scanList field raw 0 raw with
    | error error =>
      obtain ⟨message, rfl⟩ := malformed_of_scanList 0 hscan
      exact ⟨message, hscan⟩
    | ok tags => exact absurd ⟨tags, tagList_of_scanList hscan⟩ hnone

end

/-! ## The tag of a version -/

/-- `resource_version_tag`. The version is a 32 bit column, so its digits are never refused. -/
def resourceVersionTag (resourceId : UUID) (version : ℕ) : EntityTag where
  value := UUID.str resourceId ++ lit "." ++ decimal version
  valid := by
    have hhex : ∀ d < 16, isEtagc (Fin.ofNat 0x110000 (Nat.digitChar d).toNat) = true := by decide
    have hdecimal : ∀ d < 10, isEtagc (digitPoint d) = true := by decide
    have hdot : (lit ".").all isEtagc = true := by decide
    simp only [all_append, hdot, Bool.and_true, Bool.and_eq_true, all_eq_true]
    constructor
    · intro c hc
      rcases UUID.mem_str hc with hdash | ⟨d, hd, rfl⟩
      · simp [isEtagc, hdash]
      · exact hhex d hd
    · intro c hc
      obtain ⟨d, hd, rfl⟩ := digitPoint_of_mem_decimal hc
      exact hdecimal d hd

/-- **A tag names one version of one row.** The text of a UUID has no dot in it, so the first dot
    is where the version begins. -/
theorem resourceVersionTag_value_inj {a b : UUID} {n m : ℕ} :
    (resourceVersionTag a n).value = (resourceVersionTag b m).value ↔ a = b ∧ n = m := by
  have hdot (id : UUID) : (0x2e : CodePoint) ∉ UUID.str id := by
    intro hmem
    have hhex : ∀ d < 16, (0x2e : CodePoint) ≠ Fin.ofNat 0x110000 (Nat.digitChar d).toNat := by
      decide
    rcases UUID.mem_str hmem with hdash | ⟨d, hd, heq⟩
    · exact absurd hdash (by decide)
    · exact hhex d hd heq
  constructor
  · intro h
    have hlit : lit "." = [0x2e] := by decide
    simp only [resourceVersionTag, hlit, append_assoc, singleton_append] at h
    obtain ⟨hid, hversion⟩ := append_cons_inj (hdot a) (hdot b) h
    exact ⟨UUID.str_injective hid, decimal_injective hversion⟩
  · rintro ⟨rfl, rfl⟩
    rfl

end Concurrency
