import FastapiBoilerplate.Concurrency.Tags

/-!
# `If-Match` and `If-None-Match`

`src/concurrency/etag.py` and `conditional.py`. The two headers are parsed alike and compared
differently: `If-Match` guards a write and takes strong tags only, `If-None-Match` guards a read
and does not look at weakness. A header that is missing is a value of its own, so that a route
cannot take it for a header that allows everything.
-/

namespace Concurrency

open Lib

/-- `PreconditionRequiredError`. -/
def preconditionRequired (message : String) : AppException :=
  { statusCode := 428, errorCode := "PRECONDITION_REQUIRED", message := lit message }

/-- `PreconditionFailedError`, of a resource whose tag is known. -/
def preconditionFailed (message : String) (current : EntityTag) : AppException :=
  { statusCode := 412, errorCode := "PRECONDITION_FAILED", message := lit message
    headers := [("ETag", current.serialize)] }

/-- A parsed header of either kind, including the case where there was none. -/
structure Precondition where
  present : Bool
  wildcard : Bool := false
  tags : List EntityTag := []

namespace Precondition

/-- `absent`. -/
def absent : Precondition := { present := false }

section
variable [Unicode]

/-- `parse`, of the header called `field`. -/
def parse (field : String) : Option Text → Except AppException Precondition
  | none => .ok absent
  | some raw =>
    if stripBy isOws raw = lit "*" then .ok { present := true, wildcard := true }
    else
      match parseEntityTagList raw field with
      | .error error => .error error
      | .ok [] => .error (malformedPrecondition (lit field ++
          lit " must be '*' or a non-empty list of entity tags"))
      | .ok (tag :: tags) => .ok { present := true, tags := tag :: tags }

/-- `get_if_match` and `get_if_none_match`: the lines of the header are joined. -/
def ofLines (field : String) : List Text → Except AppException Precondition
  | [] => .ok absent
  | lines => parse field (some (List.intercalate (lit ", ") lines))

end
end Precondition

/-! ## `If-Match` -/

namespace IfMatch

variable (precondition : Precondition) (current : EntityTag)

section
variable [Unicode]

def parse : Option Text → Except AppException Precondition := Precondition.parse "If-Match"

def ofLines : List Text → Except AppException Precondition := Precondition.ofLines "If-Match"

end

/-- `matches`. -/
def matchesTag : Bool :=
  precondition.wildcard || precondition.tags.any (·.stronglyMatches current)

/-- `require_match`. -/
def requireMatch : Except AppException Unit :=
  if !precondition.present then
    .error (preconditionRequired ("This request must be made conditional with an If-Match " ++
      "header carrying the ETag of the version you are updating"))
  else if !matchesTag precondition current then
    .error (preconditionFailed
      "The resource has changed since the version your If-Match refers to" current)
  else .ok ()

variable {precondition current}

theorem requireMatch_eq_ok :
    requireMatch precondition current = .ok () ↔
      precondition.present = true ∧ matchesTag precondition current = true := by
  unfold requireMatch
  cases precondition.present <;> cases matchesTag precondition current <;> simp

theorem matchesTag_iff (hstrong : current.weak = false) :
    matchesTag precondition current = true ↔
      precondition.wildcard = true ∨
        ∃ tag ∈ precondition.tags, tag.weak = false ∧ tag.value = current.value := by
  simp [matchesTag, EntityTag.stronglyMatches, hstrong]

variable [Unicode]

/-- A header is `*`, or its tags are those of its list. -/
theorem of_parse {raw : Text} (h : parse (some raw) = .ok precondition) :
    precondition.present = true ∧
      (precondition.wildcard = true ↔ stripBy isOws raw = lit "*") ∧
      (precondition.wildcard = false →
        parseEntityTagList raw "If-Match" = .ok precondition.tags) := by
  unfold parse Precondition.parse at h
  dsimp only at h
  split at h
  · next hstar =>
    obtain rfl := Except.ok.inj h
    simp [hstar]
  · next hstar =>
    split at h
    · cases h
    · cases h
    · next tag tags hlist =>
      obtain rfl := Except.ok.inj h
      simp [hstar, hlist]

theorem parse_serialize (tag : EntityTag) :
    parse (some tag.serialize) = .ok { present := true, tags := [tag] } := by
  have hstar : stripBy isOws tag.serialize ≠ lit "*" := by
    intro h
    have hmark : quotationMark ∈ tag.serialize := by
      unfold EntityTag.serialize
      split <;> simp
    have hmem := mem_stripBy hmark (show isOws quotationMark = false by decide)
    rw [h] at hmem
    exact absurd hmem (by decide)
  simp [parse, Precondition.parse, hstar, parseEntityTagList_serialize]

end IfMatch

/-! ## `If-None-Match` -/

inductive ConditionalOutcome
  | proceed
  | notModified

namespace IfNoneMatch

variable (precondition : Precondition) (current : EntityTag)

section
variable [Unicode]

def parse : Option Text → Except AppException Precondition := Precondition.parse "If-None-Match"

def ofLines : List Text → Except AppException Precondition :=
  Precondition.ofLines "If-None-Match"

end

/-- `matches`. -/
def matchesTag : Bool :=
  precondition.wildcard || precondition.tags.any (·.weaklyMatches current)

/-- `_SAFE_METHODS`. -/
def safeMethods : List String := ["GET", "HEAD"]

/-- `evaluate`. -/
def evaluate (method : String) : Except AppException ConditionalOutcome :=
  if !matchesTag precondition current then .ok .proceed
  else if method ∈ safeMethods then .ok .notModified
  else .error (preconditionFailed ("The resource already exists with the entity tag your " ++
    "If-None-Match refers to") current)

end IfNoneMatch
end Concurrency
