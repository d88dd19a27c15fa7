import FastapiBoilerplate.Dlq.Router
import FastapiBoilerplate.Lib.TextRoundTrip

/-!
# A stamped envelope is read back

What `stamp` writes, `read` takes back: the same envelope, with its instants in UTC and the error
cut to what fits in its header. So a record that has been put on a tier is on the same ladder when it comes off it.
-/

open Lib Kafka

namespace Dlq

section
variable [Unicode] {text : Text}

theorem decode_encode {bytes : Bytes} (name : Text) (h : encode text = .ok bytes) :
    decode name bytes = .ok text := by
  unfold encode at h
  split at h <;> cases h
  rename_i hencode
  rw [decode, utf8Decode_utf8Encode hencode]

theorem decode_ascii (name : Text) (h : ∀ c ∈ text, c.val < 0x80) :
    decode name (asciiBytes text) = .ok text := by
  rw [decode, utf8Decode_ascii h]

theorem decodeInt_str {n : ℕ} (name : Text) (h : str n = .ok text) :
    decodeInt name (asciiBytes text) = .ok n := by
  unfold str at h
  split at h <;> cases h
  rename_i hstr
  obtain ⟨hread, hascii⟩ := readInt_strInt hstr
  rw [decodeInt, decode_ascii name hascii]
  simp only [ok_bind, hread]
  rfl

theorem decodeTime_isoformat (name : Text) {t : Aware} {utc : Utc}
    (h : t.asRead.toUtc = some utc) : decodeTime name (asciiBytes (isoformat t)) = .ok utc := by
  rw [decodeTime_aware name (fromisoformat_isoformat t) h, decode_ascii name (isoformat_ascii _)]
  rfl

omit [Unicode] in
theorem make_self (envelope : DeadLetterEnvelope) (error : Text) :
    DeadLetterEnvelope.make envelope.originTopic envelope.originPartition envelope.originOffset
      envelope.attempts envelope.firstFailedAt envelope.notBefore error envelope.replays =
        .ok { envelope with error } := by
  have hattempts := envelope.one_le_attempts
  unfold DeadLetterEnvelope.make
  rw [dif_neg (by omega), if_neg (by omega), if_neg (by omega), if_neg (by omega)]
  simp only [Int.toNat_natCast]

variable {headers out more : Headers} {envelope : DeadLetterEnvelope} {message : ConsumedMessage}

/-- Whatever follows the stamped headers. -/
theorem read_stamped {first due : Utc} (hfirst : envelope.firstFailedAt.asRead.toUtc = some first)
    (hdue : envelope.notBefore.asRead.toUtc = some due) (hstamp : stamp headers envelope = .ok out)
    (hheaders : message.headers = out ++ more) :
    ∃ error, truncateError envelope.error = .ok error ∧ read message = .ok (some
      { envelope with firstFailedAt := first.aware, notBefore := due.aware, error }) := by
  obtain ⟨own, hown, h⟩ := bind_eq_ok.mp hstamp
  obtain rfl := pure_eq_ok.mp h
  -- `strip` has taken the old headers out, so the first of a name is the new one
  have hlookup (name raw) (hname : startsWith name headerPrefix = true)
      (hraw : own.lookup name = some raw) : message.header name = some raw := by
    show message.headers.lookup name = some raw
    rw [hheaders, List.lookup_append, List.lookup_append, lookup_strip hname, hraw]
    rfl
  simp only [DeadLetterEnvelope.toHeaders, bind_eq_ok] at hown
  obtain ⟨originTopic, htopic, originPartition, hpartition, originOffset, hoffset, attempts,
    hattempts, error, herror, errorBytes, herrorBytes, replays, hreplays, hown⟩ := hown
  obtain rfl := pure_eq_ok.mp hown
  refine ⟨error, herror, ?_⟩
  have hfields : readFields message envelope.attempts originTopic (asciiBytes originPartition)
      (asciiBytes originOffset) (asciiBytes (isoformat envelope.firstFailedAt))
      (asciiBytes (isoformat envelope.notBefore)) = .ok
        { envelope with firstFailedAt := first.aware, notBefore := due.aware, error } := by
    have hreadError : readError message = .ok error := by
      rw [readError, hlookup headerError errorBytes (by decide) rfl]
      exact decode_encode _ herrorBytes
    have hreadReplays : readReplays message = .ok (envelope.replays : ℤ) := by
      rw [readReplays, hlookup headerReplays (asciiBytes replays) (by decide) rfl]
      exact decodeInt_str _ hreplays
    rw [readFields, decode_encode _ htopic, decodeInt_str _ hpartition, decodeInt_str _ hoffset,
      decodeTime_isoformat _ hfirst, decodeTime_isoformat _ hdue, hreadError, hreadReplays]
    exact make_self { envelope with firstFailedAt := first.aware, notBefore := due.aware } error
  unfold read
  rw [hlookup headerAttempts (asciiBytes attempts) (by decide) rfl,
    hlookup headerFirstFailedAt (asciiBytes (isoformat envelope.firstFailedAt)) (by decide) rfl,
    hlookup headerNotBefore (asciiBytes (isoformat envelope.notBefore)) (by decide) rfl,
    hlookup headerOriginTopic originTopic (by decide) rfl,
    hlookup headerOriginPartition (asciiBytes originPartition) (by decide) rfl,
    hlookup headerOriginOffset (asciiBytes originOffset) (by decide) rfl]
  dsimp only
  rw [decodeInt_str _ hattempts]
  simp only [ok_bind, hfields]
  rfl

theorem read_stamp (hutc : envelope.InUtc) (hstamp : stamp headers envelope = .ok out)
    (hheaders : message.headers = out ++ more) :
    ∃ error, truncateError envelope.error = .ok error ∧
      read message = .ok (some { envelope with error }) := by
  obtain ⟨⟨first, hfirst⟩, ⟨due, hdue⟩⟩ := hutc
  have hread := read_stamped (by rw [hfirst]; exact toUtc_aware first)
    (by rw [hdue]; exact toUtc_aware due) hstamp hheaders
  rwa [← hfirst, ← hdue] at hread

end

end Dlq
