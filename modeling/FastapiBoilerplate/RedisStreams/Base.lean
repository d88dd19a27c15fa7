import Mathlib.Algebra.Order.Ring.Rat
import Mathlib.Data.List.Sort
import Mathlib.Data.Prod.Lex
import FastapiBoilerplate.Lib.Dict
import FastapiBoilerplate.Lib.Text

/-!
# Entry ids, messages and pending entries

`src/redis_streams/base.py`. An entry id is a pair of numbers and is ordered as one. Seconds are
rationals. The `bytes` of a field value are a type here, so of the two refusals of
`validate_fields` the first is left; the `details` of an error, which repeat the names of the
stream and the group, are left out.
-/

namespace RedisStreams

open Lib

abbrev Seconds := ℚ

/-- `int(x)` of a float. -/
def truncate (x : ℚ) : ℤ := x.num.tdiv x.den

/-- The failures of `StreamError`, with their messages. -/
inductive StreamError
  | unavailable (message : Text)
  | publish (message : Text)
  | group (message : Text)
  | decode (message : Text)
  | lifecycle (message : Text)
  deriving DecidableEq

/-- What an operation can raise. -/
inductive Exc
  | stream (error : StreamError)
  | value (message : Text)
  deriving DecidableEq

/-! ## Ids -/

/-- `StreamEntryId`. -/
structure StreamEntryId where
  ms : ℕ
  seq : ℕ
  deriving DecidableEq

namespace StreamEntryId

def tuple (id : StreamEntryId) : ℕ ×ₗ ℕ := toLex (id.ms, id.seq)

theorem tuple_injective : Function.Injective tuple := by
  intro a b h
  obtain ⟨hms, hseq⟩ := Prod.mk.inj (toLex.injective h)
  cases a
  cases b
  simp_all

/-- `order=True`: the fields are compared in turn. -/
instance : LinearOrder StreamEntryId := LinearOrder.lift' tuple tuple_injective

theorem lt_iff {a b : StreamEntryId} : a < b ↔ a.ms < b.ms ∨ a.ms = b.ms ∧ a.seq < b.seq :=
  Prod.Lex.toLex_lt_toLex

/-- `str(id)`. -/
def str (id : StreamEntryId) : Option Text :=
  match strInt id.ms, strInt id.seq with
  | some ms, some seq => some (ms ++ lit "-" ++ seq)
  | _, _ => none

end StreamEntryId

section
variable {ν : Type}

theorem pairwise_sort (items : List (StreamEntryId × ν)) :
    (items.insertionSort fun a b => a.1 ≤ b.1).Pairwise fun a b => a.1 ≤ b.1 := by
  have htotal : Std.Total fun a b : StreamEntryId × ν => a.1 ≤ b.1 := ⟨fun a b => le_total a.1 b.1⟩
  have htrans : IsTrans (StreamEntryId × ν) fun a b => a.1 ≤ b.1 := ⟨fun _ _ _ => le_trans⟩
  exact List.pairwise_insertionSort _ _

theorem nodup_sort (d : Dict StreamEntryId ν) :
    ((d.items.insertionSort fun a b => a.1 ≤ b.1).map Prod.fst).Nodup :=
  ((List.perm_insertionSort _ _).map _).nodup_iff.mpr d.nodup

end

/-! ## Messages -/

abbrev Fields := Dict Text Bytes

/-- `StreamMessage`. -/
structure StreamMessage where
  stream : Text
  id : StreamEntryId
  fields : Fields
  deliveryCount : ℕ
  claimed : Bool := false
  deriving DecidableEq

/-- `PendingEntry`. -/
structure PendingEntry where
  id : StreamEntryId
  consumer : Text
  idle : Seconds
  deliveryCount : ℕ
  deriving DecidableEq

/-- `ClaimedMessage`. -/
structure ClaimedMessage where
  messages : List StreamMessage
  missing : List StreamEntryId
  deriving DecidableEq

/-- `validate_fields`. -/
def validateFields (fields : Fields) : Except Exc Unit :=
  if fields.items = [] then .error (.value (lit "A stream message needs at least one field."))
  else .ok ()

/-! ## Names for examples -/

def letter (c : Char) : Text := [Fin.ofNat _ c.toNat]

theorem letter_ne (c : Char) : letter c ≠ [] := List.cons_ne_nil _ _

end RedisStreams
