import FastapiBoilerplate.Lib.Except
import FastapiBoilerplate.Lib.Lists
import FastapiBoilerplate.Lib.TextRoundTrip

/-!
# The signature scheme of webhook deliveries

`src/webhooks/signature.py`: the bytes a delivery is signed over, the header that carries the
signature, and the name a delivery has for the replay guard, which is a digest of the signed bytes
and not of the signature. The signed bytes determine the timestamp and the body
(`signedMaterial_injective`), so under a digest that does not collide so does the name.

HMAC-SHA256 and SHA-256 are parameters, with hexadecimal texts for values.
-/

namespace Webhooks

open Lib

/-- The digests, by their `hexdigest()`. -/
structure Digests where
  hmac : Text → Bytes → Text
  sha256 : Bytes → Text

/-- `signed_material`. -/
def signedMaterial (timestamp : ℕ) (body : Bytes) : Bytes :=
  asciiBytes (decimal timestamp) ++ asciiBytes (lit ".") ++ body

section
variable (digests : Digests)

/-- `compute_digest`. -/
def computeDigest (secret : Text) (timestamp : ℕ) (body : Bytes) : Text :=
  digests.hmac secret (signedMaterial timestamp body)

/-- `sign`. -/
def sign (secret : Text) (timestamp : ℕ) (body : Bytes) : Text :=
  lit "t=" ++ decimal timestamp ++ lit ",v1=" ++ computeDigest digests secret timestamp body

/-- `delivery_fingerprint`. -/
def deliveryFingerprint (timestamp : ℕ) (body : Bytes) : Text :=
  digests.sha256 (signedMaterial timestamp body)

end

/-! ## The header -/

structure ParsedSignature where
  timestamp : ℕ
  digests : List Text

/-- `SignatureHeaderMalformedError`. -/
structure Malformed where
  message : Text
  details : List (Text × ℕ) := []

def maxHeaderLength : ℕ := 4096

def maxPairs : ℕ := 16

def digestHexLength : ℕ := 64

def isDecimalDigit (c : CodePoint) : Bool := 0x30 ≤ c.val && c.val ≤ 0x39

/-- `re.match(r"^[0-9]{1,19}$", value)`, of a value without white space around it. -/
def isTimestamp (value : Text) : Bool :=
  1 ≤ value.length && value.length ≤ 19 && value.all isDecimalDigit

/-- `int(value)`, of ASCII digits. -/
def digitsValue (value : Text) : ℕ := value.foldl (fun n c => n * 10 + (c.val - 48)) 0

/-- `re.match(r"^[0-9a-f]+$", candidate)` and the length check. No letter outside ASCII has one of
    these in its lower case, so the candidate may be lowered as ASCII. -/
def isDigest (candidate : Text) : Bool :=
  candidate.length == digestHexLength &&
    candidate.all fun c => isDecimalDigit c || (0x61 ≤ c.val && c.val ≤ 0x66)

/-- One element of the header: what has been read so far, and what it adds. -/
def readElement (read : Option ℕ × List Text) (element : Text) :
    Except Malformed (Option ℕ × List Text) :=
  match partition (lit "=") element with
  | none => .error ⟨lit "Every signature element must be 'name=value'.", []⟩
  | some (name, value) =>
    let name := strip name
    let value := strip value
    if name = lit "t" then
      if read.1 ≠ none then
        .error ⟨lit "Signature header carries more than one timestamp.", []⟩
      else if !isTimestamp value then
        .error ⟨lit "Signature timestamp must be unix seconds in decimal ASCII.", []⟩
      else .ok (some (digitsValue value), read.2)
    else if name = lit "v1" then
      if !isDigest (lowerAscii value) then
        .error ⟨lit "Each 'v1' must be a hex sha256 digest.", []⟩
      else .ok (read.1, read.2 ++ [lowerAscii value])
    else .ok read

/-- `parse_signature_header`. -/
def parseSignatureHeader (raw : Text) : Except Malformed ParsedSignature :=
  if maxHeaderLength < raw.length then
    .error ⟨lit "Signature header is too long.", [(lit "max_length", maxHeaderLength)]⟩
  else
    let elements := ((raw.splitOn 0x2c).map strip).filter fun part => !part.isEmpty
    if elements.isEmpty then .error ⟨lit "Signature header is empty.", []⟩
    else if maxPairs < elements.length then
      .error ⟨lit "Signature header has too many elements.", [(lit "max_elements", maxPairs)]⟩
    else do
      let (timestamp, digests) ← elements.foldlM readElement (none, [])
      match timestamp with
      | none => throw ⟨lit "Signature header has no 't' element.", []⟩
      | some timestamp =>
        if digests.isEmpty then throw ⟨lit "Signature header has no 'v1' element.", []⟩
        else return ⟨timestamp, digests⟩

/-- `digest_matches`. -/
def digestMatches (expected : Text) (candidates : List Text) : Bool :=
  candidates.any fun candidate => expected == candidate

/-! ## The signed bytes -/

theorem dot_notMem_decimal (n : ℕ) : (0x2e : Byte) ∉ asciiBytes (decimal n) := by
  have hdigit : ∀ d < 10, Fin.ofNat 256 (digitPoint d).val ≠ 0x2e := by decide
  intro hmem
  obtain ⟨c, hc, hdot⟩ := List.mem_map.mp hmem
  obtain ⟨d, hd, rfl⟩ := digitPoint_of_mem_decimal hc
  exact hdigit d hd hdot

theorem asciiBytes_decimal_injective {n m : ℕ} (h : asciiBytes (decimal n) = asciiBytes (decimal m))
    : n = m := by
  have hn := utf8Decode_ascii (decimal_ascii n)
  rw [h, utf8Decode_ascii (decimal_ascii m), Option.some.injEq] at hn
  rw [← foldl_decimal n, ← foldl_decimal m, hn]

theorem signedMaterial_injective {t₁ t₂ : ℕ} {body₁ body₂ : Bytes}
    (h : signedMaterial t₁ body₁ = signedMaterial t₂ body₂) : t₁ = t₂ ∧ body₁ = body₂ := by
  have hdot : asciiBytes (lit ".") = [0x2e] := by decide
  simp only [signedMaterial, hdot, List.append_assoc, List.singleton_append] at h
  obtain ⟨htime, hbody⟩ := append_cons_inj (dot_notMem_decimal t₁) (dot_notMem_decimal t₂) h
  exact ⟨asciiBytes_decimal_injective htime, hbody⟩

end Webhooks
