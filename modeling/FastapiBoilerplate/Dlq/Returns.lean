import FastapiBoilerplate.Dlq.RoundTrip

/-!
# When the steps of routing return

Before `route` comes to its publish it decodes headers, builds a ladder, adds up times and encodes
texts, and each of these has exceptions of its own. For each step, the condition under which it
returns, in terms of what is on the record, in the policy or in the exception; and for reading,
which alone has its exceptions caught, what it raises.

Steps are put together with `returns_bind`, so each condition is stated without what the step gives.
For reading the same is done with `Strays`. Nearly everything that is wrong with headers is a
`MalformedEnvelopeError`, which the router knows what to do with; the exception is a timestamp that
is well formed and has no instant on the calendar of UTC (`IsStray`), whose `OverflowError` is not
caught. The complaint about a header quotes the header, so whether the complaint can be written in
its turn is part of the question.
-/

open Lib Kafka List

namespace Dlq

/-! ## Texts and numbers that can be written -/

def Encodable (text : Text) : Prop := ∀ c ∈ text, isSurrogate c = false

variable {text : Text} {now : Utc} {delay : ℚ} {previous : Option DeadLetterEnvelope} {replays : ℤ}

theorem all_eq_true_iff_encodable : text.all (fun c => !isSurrogate c) = true ↔ Encodable text := by
  simp [Encodable]

instance (text : Text) : Decidable (Encodable text) :=
  decidable_of_iff _ all_eq_true_iff_encodable

theorem encodable_append {a b : Text} : Encodable (a ++ b) ↔ Encodable a ∧ Encodable b :=
  forall_mem_append

theorem returns_encode (text : Text) : Returns (encode text) ↔ Encodable text := by
  unfold encode
  rw [Encodable, ← isSome_utf8Encode]
  cases utf8Encode text with
  | none => simpa using not_returns_error _
  | some bytes => simpa using returns_ok bytes

/-- `str` writes the number. -/
def Short (n : ℕ) : Prop := n < 10 ^ maxStrDigits

theorem returns_str (n : ℕ) : Returns (str n) ↔ Short n := by
  unfold str
  rw [Short, ← isSome_strInt]
  cases strInt n with
  | none => simpa using not_returns_error _
  | some text => simpa using returns_ok text

theorem short_of_le_one {n : ℕ} (h : n ≤ 1) : Short n :=
  Nat.lt_of_le_of_lt h (Nat.one_lt_pow (by decide) (by decide))

/-! ## Descriptions of exceptions -/

/-- What is left of a description in its header. -/
def shown (text : Text) : Text :=
  if text.length ≤ maxErrorLength then text
  else text.take (maxErrorLength - truncationMarker.length) ++ truncationMarker

theorem truncateError_eq (text : Text) : truncateError text = .ok (shown text) := by
  unfold truncateError shown
  rw [if_neg (by decide)]
  split
  · rfl
  · rw [if_neg (by decide)]

theorem length_shown (text : Text) : (shown text).length ≤ maxErrorLength := by
  unfold shown
  split
  · assumption
  rw [length_append, length_take]
  have hmarker : truncationMarker.length ≤ maxErrorLength := by decide
  omega

theorem shown_shown (text : Text) : shown (shown text) = shown text := by
  rw [shown, if_pos (length_shown text)]

/-- The part of a description that its header repeats. -/
def kept (text : Text) : Text :=
  text.take (if text.length ≤ maxErrorLength then maxErrorLength
    else maxErrorLength - truncationMarker.length)

theorem encodable_shown : Encodable (shown text) ↔ Encodable (kept text) := by
  unfold shown kept
  split
  · next h => rw [take_of_length_le h]
  · rw [encodable_append, and_iff_left]
    decide

theorem encodable_kept (h : Encodable text) : Encodable (kept text) :=
  fun c hc => h c (mem_of_mem_take hc)

/-! ## Stamping -/

/-- Every field of an envelope can be written into its header. -/
structure Stampable (envelope : DeadLetterEnvelope) : Prop where
  originTopic : Encodable envelope.originTopic
  originPartition : Short envelope.originPartition
  originOffset : Short envelope.originOffset
  attempts : Short envelope.attempts
  error : Encodable (kept envelope.error)
  replays : Short envelope.replays

theorem returns_toHeaders (envelope : DeadLetterEnvelope) :
    Returns envelope.toHeaders ↔ Stampable envelope := by
  unfold DeadLetterEnvelope.toHeaders
  simp only [truncateError_eq, ok_bind]
  refine (returns_bind fun _ _ => returns_bind fun _ _ => returns_bind fun _ _ =>
    returns_bind fun _ _ => returns_bind fun _ _ => returns_bind fun _ _ =>
      iff_true_intro (returns_pure _)).trans ?_
  simp only [returns_encode, returns_str, encodable_shown, and_true]
  exact ⟨fun ⟨h₁, h₂, h₃, h₄, h₅, h₆⟩ => ⟨h₁, h₂, h₃, h₄, h₅, h₆⟩,
    fun ⟨h₁, h₂, h₃, h₄, h₅, h₆⟩ => ⟨h₁, h₂, h₃, h₄, h₅, h₆⟩⟩

theorem returns_stamp (headers : Headers) (envelope : DeadLetterEnvelope) :
    Returns (stamp headers envelope) ↔ Stampable envelope := by
  rw [← returns_toHeaders]
  exact returns_bind_pure

theorem returns_republish (message : ConsumedMessage) (topic : Text) (envelope : DeadLetterEnvelope)
    : Returns (republish message topic envelope) ↔ Stampable envelope := by
  have hstamp := returns_stamp message.headers envelope
  have hkey : Returns (republishKey message envelope) ↔ Stampable envelope := by
    rw [← hstamp, republishKey]
    refine (returns_bind (p := (Stampable envelope)) ?_).trans ?_
    · intro headers hheaders
      have hstampable := hstamp.mp ⟨headers, hheaders⟩
      refine iff_of_true ?_ hstampable
      split
      · exact returns_pure _
      -- the numbers of the synthetic key are in the stamped headers already
      obtain ⟨partition, hpartition⟩ := (returns_str _).mpr hstampable.originPartition
      obtain ⟨offset, hoffset⟩ := (returns_str _).mpr hstampable.originOffset
      rw [hpartition, hoffset]
      exact returns_pure _
    · rw [hstamp, and_self]
  rw [← hkey]
  exact returns_bind_pure

/-! ## The ladder -/

namespace RetryPolicy

/-- No tier's power leaves the range of floats. -/
def Bounded (policy : RetryPolicy) : Prop :=
  ∀ i < policy.tiers, policy.multiplier ^ min i maxTierExponent < floatLimit

instance (policy : RetryPolicy) : Decidable policy.Bounded :=
  inferInstanceAs (Decidable (∀ i < policy.tiers, _))

/-- What a record waits on tier `k`. -/
def wait (policy : RetryPolicy) (k : ℕ) : ℚ :=
  min policy.maxDelay (policy.baseDelay * policy.multiplier ^ min (k - 1) maxTierExponent)

theorem wait_pos (policy : RetryPolicy) (k : ℕ) : 0 < policy.wait k := by
  have hpower : 0 < policy.multiplier ^ min (k - 1) maxTierExponent :=
    pow_pos (lt_of_lt_of_le one_pos policy.one_le_multiplier) _
  exact lt_min (lt_of_lt_of_le policy.baseDelay_pos policy.baseDelay_le_maxDelay)
    (mul_pos policy.baseDelay_pos hpower)

theorem tierDelay_eq {policy : RetryPolicy} {i : ℕ}
    (h : policy.multiplier ^ min i maxTierExponent < floatLimit) :
    policy.tierDelay (i + 1) = .ok (policy.wait (i + 1)) := by
  unfold tierDelay
  rw [if_neg (by omega)]
  simp only [Nat.add_sub_cancel, not_le.mpr h, if_false]
  rfl

theorem returns_tier (policy : RetryPolicy) (origin : Text) (i : ℕ) :
    Returns (policy.tier origin (i + 1)) ↔
      policy.multiplier ^ min i maxTierExponent < floatLimit := by
  refine returns_bind_pure.trans ?_
  constructor
  · rintro ⟨delay, hdelay⟩
    by_contra hover
    unfold tierDelay at hdelay
    rw [if_neg (by omega)] at hdelay
    simp only [Nat.add_sub_cancel, not_lt.mp hover, if_true] at hdelay
    cases hdelay
  · intro h
    exact ⟨_, tierDelay_eq h⟩

/-- A topic that a ladder can be built for. -/
structure Usable (policy : RetryPolicy) (origin : Text) : Prop where
  ne_nil : origin ≠ []
  notLadder : policy.originOf origin = none
  bounded : policy.Bounded

variable [Unicode]

theorem returns_ladderFor (policy : RetryPolicy) (origin : Text) :
    Returns (policy.ladderFor origin) ↔ policy.Usable origin := by
  unfold ladderFor
  split
  · next hnil =>
    refine iff_of_false (not_returns_error _) fun h => h.ne_nil (List.isEmpty_iff.mp hnil)
  · next hnil =>
    split
    · next hladder =>
      refine iff_of_false (not_returns_error _) fun h => ?_
      simp [isLadderTopic, h.notLadder] at hladder
    · next hladder =>
      have htiers : Returns ((List.range policy.tiers).mapM fun i => policy.tier origin (i + 1)) ↔
          policy.Bounded := by
        rw [returns_mapM]
        simp only [returns_tier, mem_range]
        rfl
      refine returns_bind_pure.trans ?_
      rw [htiers]
      refine ⟨fun h => ⟨?_, ?_, h⟩, fun h => h.bounded⟩
      · simpa using hnil
      · simpa [isLadderTopic] using hladder

end RetryPolicy

/-! ## The next hop's envelope -/

theorem roundHalfEven_nonneg {x : ℚ} (h : 0 ≤ x) : 0 ≤ roundHalfEven x := by
  have hfloor : 0 ≤ ⌊x⌋ := Int.floor_nonneg.mpr h
  simp only [roundHalfEven]
  split
  · exact hfloor
  split
  · omega
  · split <;> omega

/-- A record that waits `delay` from `now` on is due before the calendar ends. -/
def InTime (now : Utc) (delay : ℚ) : Prop :=
  now.val + roundHalfEven (delay * 1000000) < (maxOrdinal * microsPerDay : ℕ)

instance (now : Utc) (delay : ℚ) : Decidable (InTime now delay) := Int.decLt _ _

theorem roundHalfEven_zero : roundHalfEven 0 = 0 := by decide +kernel

theorem inTime_zero (now : Utc) : InTime now 0 := by
  have hnow := now.isLt
  rw [InTime, zero_mul, roundHalfEven_zero]
  omega

theorem dueAt_eq (hdelay : 0 ≤ delay) (h : InTime now delay) :
    ∃ due : Utc, dueAt now delay = .ok due.aware ∧
      (due.val : ℤ) = now.val + roundHalfEven (delay * 1000000) := by
  have hnonneg := roundHalfEven_nonneg (mul_nonneg hdelay (by norm_num : (0 : ℚ) ≤ 1000000))
  unfold dueAt
  split
  · next hle =>
    obtain rfl := le_antisymm hle hdelay
    exact ⟨now, rfl, by rw [zero_mul, roundHalfEven_zero, add_zero]⟩
  have hspan : timedelta delay = .ok (roundHalfEven (delay * 1000000)) := by
    unfold timedelta
    rw [if_pos]
    unfold InTime at h
    have := now.isLt
    simp only [maxOrdinal, microsPerDay] at *
    omega
  have hutc : ∃ due : Utc, utcOf (now.val + roundHalfEven (delay * 1000000)) = some due ∧
      (due.val : ℤ) = now.val + roundHalfEven (delay * 1000000) := by
    unfold InTime at h
    rw [utcOf, dif_pos ⟨by omega, by simpa using h⟩]
    exact ⟨_, rfl, Int.toNat_of_nonneg (by omega)⟩
  obtain ⟨due, hutc, hval⟩ := hutc
  refine ⟨due, ?_, hval⟩
  rw [hspan, ok_bind, hutc]
  rfl

theorem returns_dueAt (hdelay : 0 ≤ delay) : Returns (dueAt now delay) ↔ InTime now delay := by
  constructor
  · rintro ⟨due, hdue⟩
    unfold dueAt at hdue
    split at hdue
    · next hle =>
      obtain rfl := le_antisymm hle hdelay
      exact inTime_zero now
    obtain ⟨micros, hmicros, hdue⟩ := bind_eq_ok.mp hdue
    have hspan : micros = roundHalfEven (delay * 1000000) := by
      simp only [timedelta] at hmicros
      split at hmicros
      · exact (Except.ok.inj hmicros).symm
      split at hmicros
      · obtain ⟨_, -, hmicros⟩ := bind_eq_ok.mp hmicros
        cases hmicros
      · cases hmicros
    split at hdue
    · next t ht =>
      unfold utcOf at ht
      split at ht
      · next hrange =>
        rw [InTime, ← hspan]
        simpa using hrange.2
      · cases ht
    · cases hdue
  · intro h
    obtain ⟨due, hdue, -⟩ := dueAt_eq hdelay h
    exact ⟨_, hdue⟩

/-- The envelope of the next hop, once its times are known. -/
def nextEnvelope (message : ConsumedMessage) (origin : Text) (now : Utc) (due : Aware)
    (error : Text) (replays : ℕ) : Option DeadLetterEnvelope → DeadLetterEnvelope
  | none =>
    { originTopic := origin, originPartition := message.partition.number
      originOffset := message.offset, attempts := 1, one_le_attempts := Nat.one_pos
      firstFailedAt := now.aware, notBefore := due, error, replays }
  | some previous =>
    { previous with
      attempts := previous.attempts + 1, one_le_attempts := Nat.succ_pos _
      notBefore := due, error }

theorem advance_eq {due : Aware} (message : ConsumedMessage) (error : Text) (origin : Option Text)
    (hdue : dueAt now delay = .ok due) (hreplays : previous = none → 0 ≤ replays) :
    advance previous message now delay error replays origin =
      .ok (nextEnvelope message (origin.getD message.topic) now due error replays.toNat
        previous) := by
  unfold advance
  cases previous with
  | none =>
    have hnonneg := hreplays rfl
    simp only [hdue, ok_bind]
    unfold DeadLetterEnvelope.make
    rw [dif_neg (by decide), if_neg (by omega), if_neg (by omega), if_neg (by omega)]
    rfl
  | some =>
    simp only [hdue]
    rfl

theorem returns_advance (message : ConsumedMessage) (error : Text) (origin : Option Text)
    (hdelay : 0 ≤ delay) :
    Returns (advance previous message now delay error replays origin) ↔
      InTime now delay ∧ (previous = none → 0 ≤ replays) := by
  constructor
  · rintro ⟨envelope, h⟩
    cases previous with
    | none =>
      obtain ⟨due, hdue, h⟩ := bind_eq_ok.mp h
      refine ⟨(returns_dueAt hdelay).mp ⟨due, hdue⟩, fun _ => ?_⟩
      by_contra hneg
      unfold DeadLetterEnvelope.make at h
      rw [dif_neg (by decide), if_neg (by omega), if_neg (by omega), if_pos (by omega)] at h
      cases h
    | some =>
      obtain ⟨due, hdue, h⟩ := bind_eq_ok.mp h
      exact ⟨(returns_dueAt hdelay).mp ⟨due, hdue⟩, nofun⟩
  · rintro ⟨htime, hreplays⟩
    obtain ⟨due, hdue, -⟩ := dueAt_eq hdelay htime
    exact ⟨_, advance_eq message error origin hdue hreplays⟩

/-! ## Reading the headers -/

/-- Bytes that `int` reads. -/
def IsInt (raw : Bytes) : Prop := ∃ text, utf8Decode raw = some text ∧ (readInt text).isSome

/-- An aware timestamp whose instant in UTC is on the calendar. -/
def IsTime (raw : Bytes) : Prop :=
  (utf8Decode raw).isSome ∧ ∃ t, fromisoformat raw = some (.aware t) ∧ t.toUtc.isSome

/-- An aware timestamp whose instant in UTC is before the year 1 or after 9999. -/
def IsStray (raw : Bytes) : Prop :=
  (utf8Decode raw).isSome ∧ ∃ t, fromisoformat raw = some (.aware t) ∧ t.toUtc = none

section
variable [Unicode]

theorem returns_decode (name : Text) (raw : Bytes) :
    Returns (decode name raw) ↔ (utf8Decode raw).isSome := by
  unfold decode
  cases utf8Decode raw with
  | none => simpa using not_returns_error _
  | some text => simpa using returns_ok text

variable {name text : Text} {raw : Bytes} {message : ConsumedMessage} {exc : Exc}
  {envelope : DeadLetterEnvelope}

theorem decode_eq_ok : decode name raw = .ok text ↔ utf8Decode raw = some text := by
  unfold decode
  cases utf8Decode raw <;> simp

theorem returns_decodeInt (name : Text) (raw : Bytes) :
    Returns (decodeInt name raw) ↔ IsInt raw := by
  constructor
  · rintro ⟨n, h⟩
    obtain ⟨text, htext, h⟩ := bind_eq_ok.mp h
    refine ⟨text, decode_eq_ok.mp htext, ?_⟩
    split at h
    · next hn => simp [hn]
    · cases h
  · rintro ⟨text, htext, hint⟩
    obtain ⟨n, hn⟩ := Option.isSome_iff_exists.mp hint
    rw [decodeInt, decode_eq_ok.mpr htext, ok_bind, hn]
    exact returns_pure n

theorem returns_decodeTime (name : Text) (raw : Bytes) :
    Returns (decodeTime name raw) ↔ IsTime raw := by
  constructor
  · rintro ⟨n, h⟩
    obtain ⟨text, htext, h⟩ := bind_eq_ok.mp h
    refine ⟨(returns_decode name raw).mp ⟨text, htext⟩, ?_⟩
    split at h
    · cases h
    · cases h
    · next t ht =>
      split at h
      · next utc hutc => exact ⟨t, ht, by simp [hutc]⟩
      · cases h
  · rintro ⟨htext, t, ht, hutc⟩
    obtain ⟨text, htext⟩ := (returns_decode name raw).mpr htext
    obtain ⟨utc, hutc⟩ := Option.isSome_iff_exists.mp hutc
    rw [decodeTime_aware name ht hutc, htext]
    exact returns_pure utc

/-- What reading a record's headers raises that `route` does not catch. -/
def Strays {α : Type} (x : Except Exc α) : Prop :=
  ∃ exc, x = .error exc ∧ exc.isInstance .malformedEnvelopeError = false ∧
    exc.isInstance .valueError = false

omit [Unicode] in
theorem strays_bind {α β : Type} {x : Except Exc α} {f : α → Except Exc β} {p : Prop}
    (h : ∀ a, x = .ok a → (Strays (f a) ↔ p)) : Strays (x >>= f) ↔ Strays x ∨ Returns x ∧ p := by
  cases x with
  | error =>
    refine ⟨fun ⟨e, he, hp⟩ => .inl ⟨e, ?_, hp⟩, fun h => ?_⟩
    · rcases bind_eq_error.mp he with he | ⟨a, ha, -⟩
      · exact he
      · cases ha
    · obtain ⟨e, he, hp⟩ := h.resolve_right fun h => not_returns_error _ h.1
      exact ⟨e, bind_eq_error.mpr (.inl he), hp⟩
  | ok a =>
    rw [ok_bind, h a rfl]
    refine ⟨fun hp => .inr ⟨returns_ok a, hp⟩, fun h => (h.resolve_left ?_).2⟩
    rintro ⟨e, he, -⟩
    cases he

omit [Unicode] in
theorem not_strays_of_malformed {α : Type} {x : Except Exc α}
    (h : ∀ exc, x = .error exc → exc.isInstance .malformedEnvelopeError = true) : ¬ Strays x := by
  rintro ⟨exc, hexc, hno, -⟩
  rw [h exc hexc] at hno
  cases hno

theorem strays_decodeTime (name : Text) (raw : Bytes) :
    Strays (decodeTime name raw) ↔ IsStray raw := by
  constructor
  · rintro ⟨exc, h, hmalformed, -⟩
    rcases bind_eq_error.mp h with h | ⟨text, htext, h⟩
    · rw [decode_error h] at hmalformed
      cases hmalformed
    refine ⟨(returns_decode name raw).mp ⟨text, htext⟩, ?_⟩
    split at h
    · cases h
      cases hmalformed
    · cases h
      cases hmalformed
    · next t ht =>
      split at h
      · cases h
      · next hutc => exact ⟨t, ht, hutc⟩
  · rintro ⟨htext, t, ht, hutc⟩
    obtain ⟨text, htext⟩ := (returns_decode name raw).mpr htext
    refine ⟨ExcClass.overflowError.error (lit "date value out of range"), ?_, rfl, rfl⟩
    rw [decodeTime, htext, ok_bind, ht]
    dsimp only
    rw [hutc]

theorem strays_readFields (message : ConsumedMessage) (attempts : ℤ)
    (topic partition offset firstFailed notBefore : Bytes) :
    Strays (readFields message attempts topic partition offset firstFailed notBefore) ↔
      (utf8Decode topic).isSome ∧ IsInt partition ∧ IsInt offset ∧
        (IsStray firstFailed ∨ IsTime firstFailed ∧ IsStray notBefore) := by
  have hmake (originTopic error : Text) (originPartition originOffset replays : ℤ)
      (first due : Aware) : Strays (DeadLetterEnvelope.make originTopic originPartition
        originOffset attempts first due error replays) ↔ False := by
    refine iff_false_intro ?_
    rintro ⟨exc, hexc, -, hvalue⟩
    rw [make_error hexc] at hvalue
    cases hvalue
  have hdecode (name : Text) (raw : Bytes) : ¬ Strays (decode name raw) :=
    not_strays_of_malformed fun _ => decode_error
  have hdecodeInt (name : Text) (raw : Bytes) : ¬ Strays (decodeInt name raw) :=
    not_strays_of_malformed fun _ => decodeInt_error
  have herror : ¬ Strays (readError message) := not_strays_of_malformed fun _ => readError_error
  have hreplays : ¬ Strays (readReplays message) :=
    not_strays_of_malformed fun _ => readReplays_error
  unfold readFields
  refine (strays_bind fun _ _ => strays_bind fun _ _ => strays_bind fun _ _ =>
    strays_bind fun _ _ => strays_bind fun _ _ => strays_bind fun _ _ => strays_bind fun _ _ =>
      hmake _ _ _ _ _ _ _).trans ?_
  simp only [hdecode, hdecodeInt, herror, hreplays, strays_decodeTime, returns_decode,
    returns_decodeInt, returns_decodeTime, false_or, and_false, or_false]

/-- A record with an envelope whose timestamps cannot both be brought to UTC. What is read before
    the timestamps can be read. -/
def HasStray (message : ConsumedMessage) : Prop :=
  ∃ attempts firstFailed notBefore topic partition offset,
    message.header headerAttempts = some attempts ∧
    message.header headerFirstFailedAt = some firstFailed ∧
    message.header headerNotBefore = some notBefore ∧
    message.header headerOriginTopic = some topic ∧
    message.header headerOriginPartition = some partition ∧
    message.header headerOriginOffset = some offset ∧
    IsInt attempts ∧ (utf8Decode topic).isSome ∧ IsInt partition ∧ IsInt offset ∧
    (IsStray firstFailed ∨ IsTime firstFailed ∧ IsStray notBefore)

/-- It is then that `read` raises something else. -/
theorem read_of_hasStray (h : HasStray message) :
    ∃ exc, read message = .error exc ∧ exc.isInstance .malformedEnvelopeError = false := by
  obtain ⟨_, _, _, _, _, _, h₀, h₁, h₂, h₃, h₄, h₅, hint, hrest⟩ := h
  obtain ⟨attempts, hattempts⟩ := (returns_decodeInt headerAttempts _).mpr hint
  obtain ⟨exc, hfields, hmalformed, hvalue⟩ :=
    (strays_readFields message attempts _ _ _ _ _).mpr hrest
  refine ⟨exc, ?_, hmalformed⟩
  unfold read
  rw [h₀]
  dsimp only
  rw [hattempts, ok_bind, h₁, h₂, h₃, h₄, h₅]
  dsimp only
  rw [hfields]
  simp [hvalue]

/-- `read` raises `MalformedEnvelopeError` or it has met such a timestamp. -/
theorem read_error_iff (h : read message = .error exc) :
    exc.isInstance .malformedEnvelopeError = true ↔ ¬ HasStray message := by
  constructor
  · intro hmalformed hstray
    obtain ⟨e, he, hnot⟩ := read_of_hasStray hstray
    cases h.symm.trans he
    rw [hmalformed] at hnot
    cases hnot
  intro hnone
  unfold read at h
  split at h
  · cases h
  next rawAttempts hattempts =>
  rcases bind_eq_error.mp h with h | ⟨attempts, hint, h⟩
  · exact decodeInt_error h
  -- from here on only a timestamp can raise anything else
  have hint := (returns_decodeInt headerAttempts rawAttempts).mp ⟨attempts, hint⟩
  split at h
  · next h₁ h₂ h₃ h₄ h₅ =>
    split at h
    · cases h
    next hfields =>
    split at h
    · cases h
      exact ExcClass.isInstance_error _ _ _
    next hvalue =>
    cases h
    by_contra hmalformed
    have hstrays := (strays_readFields message attempts _ _ _ _ _).mp
      ⟨exc, hfields, by simpa using hmalformed, by simpa using hvalue⟩
    exact hnone ⟨_, _, _, _, _, _, hattempts, h₁, h₂, h₃, h₄, h₅, hint, hstrays⟩
  · cases h
    exact ExcClass.isInstance_error _ _ _

theorem read_eq_none : read message = .ok none ↔ message.header headerAttempts = none := by
  constructor
  · intro h
    unfold read at h
    split at h
    · assumption
    obtain ⟨attempts, -, h⟩ := bind_eq_ok.mp h
    split at h
    · split at h
      · cases h
      · split at h <;> cases h
    · cases h
  · intro h
    rw [read, h]

theorem read_classifies_iff (message : ConsumedMessage) :
    ((read message = .ok none ↔ message.header headerAttempts = none) ∧
        (∀ envelope, read message = .ok (some envelope) → envelope.InUtc) ∧
        ∀ exc, read message = .error exc → exc.isInstance .malformedEnvelopeError = true) ↔
      ¬ HasStray message := by
  constructor
  · rintro ⟨-, -, hraises⟩ hstray
    obtain ⟨exc, hexc, hnot⟩ := read_of_hasStray hstray
    rw [hraises exc hexc] at hnot
    cases hnot
  · intro hnone
    exact ⟨read_eq_none, fun _ h => (readOff_of_read h).inUtc,
      fun _ h => (read_error_iff h).mpr hnone⟩

omit [Unicode] in
/-- An hour past midnight of the first day, in a zone that is two hours ahead. -/
theorem read_raises_before_year_one :
    letI : Unicode := .ascii
    read ⟨⟨lit "orders", 0⟩, 0, none, none,
      [(headerAttempts, asciiBytes (lit "1")), (headerOriginTopic, asciiBytes (lit "orders")),
        (headerOriginPartition, asciiBytes (lit "0")), (headerOriginOffset, asciiBytes (lit "0")),
        (headerFirstFailedAt, asciiBytes (lit "0001-01-01T01:00+02:00")),
        (headerNotBefore, asciiBytes (lit "0001-01-01T01:00+02:00"))]⟩ =
      .error (ExcClass.overflowError.error (lit "date value out of range")) := by
  decide +kernel

theorem readHeaders_error_iff (h : DeadLetterRouter.readHeaders message = .error exc) :
    exc.isInstance .malformedEnvelopeError = true ↔ ¬ HasStray message := by
  rcases bind_eq_error.mp h with h | ⟨previous, hread, h⟩
  · exact read_error_iff h
  cases previous with
  | none =>
    have hreplays : readReplays message = .error exc := by
      rcases bind_eq_error.mp h with h | ⟨replays, -, h⟩
      · exact h
      · cases h
    refine iff_of_true (readReplays_error hreplays) fun hstray => ?_
    obtain ⟨e, he, -⟩ := read_of_hasStray hstray
    cases hread.symm.trans he
  | some =>
    rw [(readOff_of_read hread).replays] at h
    cases h

/-! ## What was read can be written -/

theorem decodeInt_lt {n : ℤ} (h : decodeInt name raw = .ok n) : Short n.toNat := by
  obtain ⟨text, -, h⟩ := bind_eq_ok.mp h
  split at h
  · next m hm =>
    obtain rfl := pure_eq_ok.mp h
    exact Nat.lt_of_le_of_lt (by omega) (readInt_lt hm)
  · cases h

theorem readReplays_lt (h : readReplays message = .ok replays) : Short replays.toNat := by
  unfold readReplays at h
  split at h
  · cases h
    exact short_of_le_one (by decide)
  · exact decodeInt_lt h

theorem fits_of_read (h : read message = .ok (some envelope)) : Encodable envelope.originTopic ∧
      Short envelope.originPartition ∧ Short envelope.originOffset ∧ Short envelope.replays := by
  have hread := readOff_of_read h
  obtain ⟨_, htopic⟩ := hread.originTopic
  obtain ⟨_, hpartition⟩ := hread.originPartition
  obtain ⟨_, hoffset⟩ := hread.originOffset
  exact ⟨utf8Decode_not_surrogate (decode_eq_ok.mp htopic), decodeInt_lt hpartition,
    decodeInt_lt hoffset, readReplays_lt hread.replays⟩

/-! ## What the complaint about unreadable headers says -/

omit [Unicode] in
theorem encodable_hex (width n : ℕ) : Encodable (hex width n) := forall_mem_hex (by decide) width n

theorem encodable_repr (h : Encodable text) : Encodable (reprText text) := by
  have hpoint (quote c : CodePoint) (hc : isSurrogate c = false) :
      Encodable (reprPoint quote c) := by
    have hself : Encodable [c] := by
      intro c' hc'
      rw [mem_singleton.mp hc', hc]
    have hescape (head : Text) (width n : ℕ) (hhead : Encodable head) :
        Encodable (head ++ hex width n) := encodable_append.mpr ⟨hhead, encodable_hex width n⟩
    unfold reprPoint
    split
    · exact encodable_append.mpr ⟨by decide, hself⟩
    split
    · decide
    split
    · decide
    split
    · decide
    split
    · exact hself
    split
    · exact hescape _ _ _ (by decide)
    split
    · exact hescape _ _ _ (by decide)
    · exact hescape _ _ _ (by decide)
  have hquote (b : Bool) : Encodable [if b then 0x22 else (0x27 : CodePoint)] := by
    cases b <;> decide
  simp only [reprText]
  refine encodable_append.mpr ⟨encodable_append.mpr ⟨hquote _, ?_⟩, hquote _⟩
  intro c hc
  obtain ⟨c', hc', hc⟩ := mem_flatMap.mp hc
  exact hpoint _ c' (h c' hc') c hc

/-- An exception that can be described in a header. -/
structure Worded (exc : Exc) : Prop where
  name : Encodable exc.cls.name
  text : Encodable exc.text

omit [Unicode] in
theorem Worded.describe (h : Worded exc) : Encodable (describe exc) :=
  encodable_append.mpr ⟨encodable_append.mpr ⟨h.name, by decide⟩, h.text⟩

omit [Unicode] in
theorem worded_malformed (h : Encodable text) (details : List (Text × Detail)) :
    Worded (malformedEnvelopeError text details) :=
  ⟨show Encodable ExcClass.malformedEnvelopeError.name by decide, h⟩

section

variable (hname : Encodable name)

include hname

theorem worded_decode (raw : Bytes) : ∀ exc, decode name raw = .error exc → Worded exc := by
  intro exc h
  unfold decode at h
  split at h
  · cases h
  cases h
  apply worded_malformed
  exact encodable_append.mpr ⟨encodable_append.mpr ⟨by decide, encodable_repr hname⟩, by decide⟩

theorem encodable_complaint {middle : Text} (htext : decode name raw = .ok text)
    (hmiddle : Encodable middle) :
    Encodable (lit "Header " ++ reprText name ++ middle ++ reprText text ++ lit ".") := by
  have hquoted : Encodable (reprText text) :=
    encodable_repr (utf8Decode_not_surrogate (decode_eq_ok.mp htext))
  simp only [encodable_append]
  exact ⟨⟨⟨⟨by decide, encodable_repr hname⟩, hmiddle⟩, hquoted⟩, by decide⟩

theorem worded_decodeInt (raw : Bytes) : ∀ exc, decodeInt name raw = .error exc → Worded exc := by
  refine bind_raises (worded_decode hname raw) fun text htext exc h => ?_
  split at h <;> cases h
  exact worded_malformed (encodable_complaint hname htext (by decide)) _

theorem worded_decodeTime (raw : Bytes) : ∀ exc, decodeTime name raw = .error exc → Worded exc := by
  refine bind_raises (worded_decode hname raw) fun text htext exc h => ?_
  split at h
  · cases h
    exact worded_malformed (encodable_complaint hname htext (by decide)) _
  · cases h
    exact worded_malformed (encodable_complaint hname htext (by decide)) _
  · split at h <;> cases h
    exact ⟨by decide, by decide⟩

end

omit [Unicode] in
theorem worded_make {originTopic error : Text} {originPartition originOffset attempts : ℤ}
    {firstFailedAt notBefore : Aware} :
    ∀ exc, DeadLetterEnvelope.make originTopic originPartition originOffset attempts firstFailedAt
      notBefore error replays = .error exc → Worded exc := by
  intro exc h
  unfold DeadLetterEnvelope.make at h
  split at h
  · cases h
    exact ⟨by decide, by decide⟩
  split at h
  · cases h
    exact ⟨by decide, by decide⟩
  split at h
  · cases h
    exact ⟨by decide, by decide⟩
  · split at h <;> cases h
    exact ⟨by decide, by decide⟩

section

variable (message : ConsumedMessage)

theorem worded_readReplays : ∀ exc, readReplays message = .error exc → Worded exc := by
  intro exc h
  unfold readReplays at h
  split at h
  · cases h
  · exact worded_decodeInt (by decide) _ exc h

theorem worded_readFields (attempts : ℤ) (topic partition offset firstFailed notBefore : Bytes) :
    ∀ exc, readFields message attempts topic partition offset firstFailed notBefore = .error exc →
      Worded exc := by
  have herror : ∀ exc, readError message = .error exc → Worded exc := by
    intro exc h
    unfold readError at h
    split at h
    · cases h
    · exact worded_decode (by decide) _ exc h
  refine bind_raises (worded_decode (by decide) _) fun _ _ => ?_
  refine bind_raises (worded_decodeInt (by decide) _) fun _ _ => ?_
  refine bind_raises (worded_decodeInt (by decide) _) fun _ _ => ?_
  refine bind_raises (worded_decodeTime (by decide) _) fun _ _ => ?_
  refine bind_raises (worded_decodeTime (by decide) _) fun _ _ => ?_
  refine bind_raises herror fun _ _ => ?_
  exact bind_raises (worded_readReplays message) fun _ _ => worded_make

theorem worded_read : ∀ exc, read message = .error exc → Worded exc := by
  unfold read
  split
  · exact nofun
  refine bind_raises (worded_decodeInt (by decide) _) fun attempts _ exc h => ?_
  split at h
  · split at h
    · cases h
    · next raised hfields =>
      have hworded := worded_readFields _ _ _ _ _ _ _ raised hfields
      split at h
      · cases h
        exact worded_malformed (encodable_append.mpr ⟨by decide, hworded.text⟩) _
      · cases h
        exact hworded
  · cases h
    exact worded_malformed (by decide) _

theorem worded_readHeaders :
    ∀ exc, DeadLetterRouter.readHeaders message = .error exc → Worded exc :=
  bind_raises (worded_read message) fun _ _ =>
    bind_raises (worded_readReplays message) nofun

end

/-! ## What was republished is read back -/

theorem read_republish {topic : Text} {record : Outgoing} (hutc : envelope.InUtc)
    (h : republish message topic envelope = .ok record) (number offset : ℕ) :
    read (record.consumed number offset) =
      .ok (some { envelope with error := shown envelope.error }) := by
  obtain ⟨-, -, hkey⟩ := republish_eq_ok h
  obtain ⟨out, hstamp, hout⟩ := bind_eq_ok.mp hkey
  have hheaders : ∃ more, (record.consumed number offset).headers = out ++ more := by
    split at hout
    · have hsame : out = record.headers := congrArg Prod.snd (pure_eq_ok.mp hout)
      exact ⟨[], by rw [append_nil, hsame]; rfl⟩
    · obtain ⟨_, -, hout⟩ := bind_eq_ok.mp hout
      obtain ⟨_, -, hout⟩ := bind_eq_ok.mp hout
      exact ⟨_, (congrArg Prod.snd (pure_eq_ok.mp hout)).symm⟩
  obtain ⟨more, hmore⟩ := hheaders
  obtain ⟨error, herror, hread⟩ := read_stamp hutc hstamp hmore
  cases (truncateError_eq envelope.error).symm.trans herror
  exact hread

end

end Dlq
