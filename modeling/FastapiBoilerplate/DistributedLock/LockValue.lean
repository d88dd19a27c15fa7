import Mathlib.Data.Nat.Digits.Defs
import FastapiBoilerplate.Lib.TextRoundTrip
import FastapiBoilerplate.DistributedLock.Redis

/-!
# `token:owner`

The Redis backend compares ownership as a formatted string where the in-memory one compares a
number. That is the same as long as the string can be read back: the digits of a token hold no
colon, so the first colon is the one between token and owner, whatever the owner holds.
-/

namespace DistributedLock.Redis

open Lib

/-- `token:owner` in bytes, the owner encoded already. -/
def claimBytes (token : ℤ) (owner : Bytes) : Bytes :=
  asciiBytes (plain token) ++ (asciiBytes (lit ":") ++ owner)

/-- What a counter can be after fewer than 10^14 acquisitions. -/
def Token (token : ℤ) : Prop := 1 ≤ token ∧ token < 10 ^ 14

variable {token token' : ℤ} {owner owner' : Text} {b b' : Bytes}

theorem plain_of_nonneg (h : 0 ≤ token) : plain token = decimal token.natAbs := by
  rw [plain, if_neg (not_lt.mpr h)]

section

variable (h : Token token)

include h

theorem Token.length_decimal : (decimal token.natAbs).length ≤ maxStrDigits := by
  have hlt : token.natAbs < 10 ^ 14 := by
    obtain ⟨hpos, hlt⟩ := h
    omega
  have hlen := Nat.toDigits_length 10 token.natAbs 14 (by decide) hlt
  rw [decimal, List.length_map]
  exact le_trans hlen (by decide)

theorem Token.plain : plain token = decimal token.natAbs :=
  plain_of_nonneg (le_trans (by decide) h.1)

theorem Token.strInt : strInt token = some (Redis.plain token) := by
  have hneg : ¬ token < 0 := not_lt.mpr (le_trans (by decide) h.1)
  rw [h.plain, Lib.strInt]
  simp only [if_neg (not_lt.mpr h.length_decimal), if_neg hneg]

theorem Token.readInt : readInt (Redis.plain token) = some token := by
  rw [h.plain, readInt_decimal h.length_decimal]
  exact congrArg some (Int.natAbs_of_nonneg (le_trans (by decide) h.1))

theorem Token.utf8Decode :
    utf8Decode (asciiBytes (Redis.plain token)) = some (Redis.plain token) := by
  rw [h.plain]
  exact utf8Decode_ascii (decimal_ascii _)

theorem Token.splitLockValue (owner : Text) :
    splitLockValue (Redis.plain token ++ (lit ":" ++ owner)) = .ok (token, owner) := by
  have hdigits : (0x3a : CodePoint) ∉ Redis.plain token := by
    rw [h.plain]
    intro hc
    obtain ⟨d, hd, he⟩ := digitPoint_of_mem_decimal hc
    have hval : 0x3a = (48 + d) % 0x110000 := congrArg Fin.val he
    omega
  have hcolon : lit ":" = [0x3a] := by decide
  rw [Redis.splitLockValue, hcolon, partition_append hdigits]
  simp only [h.readInt]

theorem Token.utf8Encode (hb : utf8Encode owner = some b) :
    utf8Encode (Redis.plain token ++ (lit ":" ++ owner)) = some (claimBytes token b) := by
  have hcolon : Lib.utf8Encode (lit ":") = some (asciiBytes (lit ":")) := by decide
  rw [utf8Encode_append, utf8Encode_append, hb, hcolon, h.plain,
    utf8Encode_ascii (decimal_ascii _), claimBytes, h.plain]
  rfl

theorem Token.split_claimBytes (hb : Lib.utf8Encode owner = some b) :
    Redis.splitLockValue (utf8DecodeReplace (claimBytes token b)) = .ok (token, owner) := by
  rw [utf8DecodeReplace_utf8Encode (h.utf8Encode hb)]
  exact h.splitLockValue owner

theorem Token.claimBytes_inj (h' : Token token') (hb : Lib.utf8Encode owner = some b)
    (hb' : Lib.utf8Encode owner' = some b') (he : claimBytes token b = claimBytes token' b') :
    token = token' ∧ owner = owner' := by
  have hsplit := h.split_claimBytes hb
  rw [he, h'.split_claimBytes hb'] at hsplit
  cases hsplit
  exact ⟨rfl, rfl⟩

end

theorem Token.lockBytes {lease : Lease} (h : Token lease.token)
    (hb : Lib.utf8Encode lease.owner = some b) :
    Redis.lockBytes lease = .ok (claimBytes lease.token b) := by
  rw [Redis.lockBytes, h.strInt]
  simp only [h.utf8Encode hb]

/-! ## Keys -/

variable {ns name name' : Text}

theorem lockKey_inj (h : lockKey ns name = lockKey ns name') : name = name' := by
  have h : lit ":lock:" ++ name = lit ":lock:" ++ name' := List.append_cancel_left h
  exact List.append_cancel_left h

theorem lockKey_ne (h : name ≠ name') : lockKey ns name ≠ lockKey ns name' :=
  fun he => h (lockKey_inj he)

theorem fenceKey_ne (h : name ≠ name') : fenceKey ns name ≠ fenceKey ns name' := by
  intro he
  have he : lit ":fence:" ++ name = lit ":fence:" ++ name' := List.append_cancel_left he
  exact h (List.append_cancel_left he)

theorem lockKey_ne_fenceKey (name name' : Text) : lockKey ns name ≠ fenceKey ns name' := by
  intro he
  have h : lit ":lock:" ++ name = lit ":fence:" ++ name' := List.append_cancel_left he
  have hget := congrArg (fun l => l[1]?) h
  rw [List.getElem?_append_left (by decide), List.getElem?_append_left (by decide)] at hget
  exact absurd hget (by decide)

end DistributedLock.Redis
