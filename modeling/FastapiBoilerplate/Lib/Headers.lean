import FastapiBoilerplate.Lib.Text

/-!
# HTTP headers as ASGI hands them over

A list of pairs of bytes, in the order they arrived and with their repetitions; names are in lower
case already. `Headers.get` of Starlette answers the first value under a name, decoded from
latin-1.
-/

namespace Lib

abbrev Octets := List UInt8

abbrev RawHeaders := List (Octets × Octets)

/-- `name.lower().encode("latin-1")`, of an ASCII name. -/
def headerName (name : String) : Octets :=
  name.toList.map fun c =>
    if 'A' ≤ c ∧ c ≤ 'Z' then UInt8.ofNat (c.toNat + 32) else UInt8.ofNat c.toNat

/-- `bytes.decode("latin-1")`. -/
def latin1 (bytes : Octets) : Text := bytes.map fun b => Fin.ofNat _ b.toNat

/-- The bytes of the first header under a name. -/
def RawHeaders.getRaw (headers : RawHeaders) (name : String) : Option Octets :=
  headers.lookup (headerName name)

/-- `headers.get(name)`. -/
def RawHeaders.get (headers : RawHeaders) (name : String) : Option Text :=
  (headers.getRaw name).map latin1

end Lib
