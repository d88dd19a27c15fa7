import Mathlib.Tactic.Linarith

/-!
# A connection's inbound budget

`src/ws/ratelimit.py`: two token buckets that are refilled whenever they are looked at, one of
messages and one of bytes, and a count of rejections in a row. Times, rates and tokens are exact
rationals; what will never be affordable has to wait for `⊤`, the source's `inf`.

A bucket looks at the clock for itself, so that one `offer` takes up to four readings: they are
parameters, in the order in which they are taken.
-/

namespace Ws

structure TokenBucket where
  capacity : ℚ
  rate : ℚ
  tokens : ℚ
  updated : ℚ
  capacity_pos : 0 < capacity
  rate_pos : 0 < rate
  tokens_nonneg : 0 ≤ tokens
  tokens_le : tokens ≤ capacity

namespace TokenBucket

/-- The balance after a refill. -/
def tokensAt (b : TokenBucket) (now : ℚ) : ℚ :=
  min b.capacity (b.tokens + max 0 (now - b.updated) * b.rate)

theorem tokens_le_tokensAt (b : TokenBucket) (now : ℚ) : b.tokens ≤ b.tokensAt now := by
  apply le_min b.tokens_le
  have hrefill := mul_nonneg (le_max_left 0 (now - b.updated)) b.rate_pos.le
  linarith

theorem tokensAt_le (b : TokenBucket) (now : ℚ) : b.tokensAt now ≤ b.capacity := min_le_left _ _

/-- `_refill`. The clock may have gone backwards. -/
def refill (b : TokenBucket) (now : ℚ) : TokenBucket :=
  { b with
    tokens := b.tokensAt now
    updated := now
    tokens_nonneg := b.tokens_nonneg.trans (b.tokens_le_tokensAt now)
    tokens_le := b.tokensAt_le now }

/-- `take`. -/
def take (b : TokenBucket) (now cost : ℚ) (hcost : 0 ≤ cost) : Bool × TokenBucket :=
  let b := b.refill now
  if h : b.tokens < cost then (false, b)
  else
    (true, { b with
      tokens := b.tokens - cost
      tokens_nonneg := sub_nonneg.mpr (not_lt.mp h)
      tokens_le := (sub_le_self _ hcost).trans b.tokens_le })

/-- `retry_after`: the wait, and the bucket it has refilled to say it. -/
def retryAfter (b : TokenBucket) (now cost : ℚ) : WithTop ℚ × TokenBucket :=
  if b.capacity < cost then (⊤, b)
  else
    let b := b.refill now
    if cost ≤ b.tokens then (0, b) else (((cost - b.tokens) / b.rate : ℚ), b)

section

variable (b : TokenBucket) (now cost : ℚ)

@[simp] theorem capacity_retryAfter : (b.retryAfter now cost).2.capacity = b.capacity := by
  unfold retryAfter
  dsimp only
  split
  · rfl
  · split <;> rfl

@[simp] theorem capacity_take (hcost : 0 ≤ cost) :
    (b.take now cost hcost).2.capacity = b.capacity := by
  unfold take
  dsimp only
  split <;> rfl

/-- There is nothing to wait for exactly when the balance is enough. -/
theorem retryAfter_pos_iff : 0 < (b.retryAfter now cost).1 ↔ b.tokensAt now < cost := by
  unfold retryAfter
  dsimp only
  split
  · rename_i hnever
    exact iff_of_true (WithTop.coe_lt_top 0) ((b.tokensAt_le now).trans_lt hnever)
  split
  · rename_i henough
    exact iff_of_false (lt_irrefl _) (not_lt.mpr henough)
  · rename_i hshort
    have hlt : b.tokensAt now < cost := not_le.mp hshort
    refine iff_of_true ?_ hlt
    exact WithTop.coe_pos.mpr (div_pos (sub_pos.mpr hlt) b.rate_pos)

/-- The wait stays below a bound exactly when the cost fits and what is missing is that soon
    there. -/
theorem retryAfter_lt_iff {bound : ℚ} (hbound : 0 < bound) :
    (b.retryAfter now cost).1 < bound ↔
      cost ≤ b.capacity ∧ (cost - b.tokensAt now) / b.rate < bound := by
  unfold retryAfter
  dsimp only
  split
  · rename_i hnever
    refine iff_of_false not_top_lt ?_
    exact fun h => absurd h.1 (not_le.mpr hnever)
  rename_i hfits
  split
  · rename_i henough
    refine iff_of_true (WithTop.coe_pos.mpr hbound) ⟨not_lt.mp hfits, ?_⟩
    exact (div_nonpos_of_nonpos_of_nonneg (sub_nonpos.mpr henough) b.rate_pos.le).trans_lt hbound
  · exact WithTop.coe_lt_coe.trans (and_iff_right (not_lt.mp hfits)).symm

end

end TokenBucket

/-- The outcome of offering one message. -/
structure Decision where
  allowed : Bool
  retryAfter : WithTop ℚ
  disconnect : Bool

/-- The message burst is a positive number of messages, so that one message fits it. -/
structure RateLimiter where
  messages : TokenBucket
  bytes : TokenBucket
  maxViolations : ℕ
  violations : ℕ
  one_le_burst : 1 ≤ messages.capacity
  maxViolations_pos : 1 ≤ maxViolations

/-- What the clock says, each time that one `offer` may look at it. -/
structure Readings where
  messages : ℚ
  bytes : ℚ
  takeMessages : ℚ
  takeBytes : ℚ

namespace RateLimiter

def byteCapacity (l : RateLimiter) : ℚ := l.bytes.capacity

/-- `offer`. -/
def offer (l : RateLimiter) (clock : Readings) (size : ℕ) : Decision × RateLimiter :=
  let messages := l.messages.retryAfter clock.messages 1
  let bytes := l.bytes.retryAfter clock.bytes size
  let wait := max messages.1 bytes.1
  have hmessages : 1 ≤ messages.2.capacity := by
    rw [TokenBucket.capacity_retryAfter]
    exact l.one_le_burst
  if 0 < wait then
    let l := { l with
      messages := messages.2
      bytes := bytes.2
      violations := l.violations + 1
      one_le_burst := hmessages }
    (⟨false, wait, l.maxViolations ≤ l.violations⟩, l)
  else
    (⟨true, 0, false⟩, { l with
      messages := (messages.2.take clock.takeMessages 1 zero_le_one).2
      bytes := (bytes.2.take clock.takeBytes size (Nat.cast_nonneg size)).2
      violations := 0
      one_le_burst := by
        rw [TokenBucket.capacity_take]
        exact hmessages })

/-- Whether a message of this size is within both budgets. -/
def Affordable (l : RateLimiter) (clock : Readings) (size : ℕ) : Prop :=
  1 ≤ l.messages.tokensAt clock.messages ∧ (size : ℚ) ≤ l.bytes.tokensAt clock.bytes

instance (l : RateLimiter) (clock : Readings) (size : ℕ) : Decidable (l.Affordable clock size) :=
  inferInstanceAs (Decidable (_ ∧ _))

@[simp] theorem byteCapacity_offer (l : RateLimiter) (clock : Readings) (size : ℕ) :
    (l.offer clock size).2.byteCapacity = l.byteCapacity := by
  unfold offer
  dsimp only
  split
  · exact l.bytes.capacity_retryAfter _ _
  · exact (TokenBucket.capacity_take _ _ _ _).trans (l.bytes.capacity_retryAfter _ _)

theorem wait_pos_iff (l : RateLimiter) (clock : Readings) (size : ℕ) :
    0 < max (l.messages.retryAfter clock.messages 1).1 (l.bytes.retryAfter clock.bytes size).1 ↔
      ¬ l.Affordable clock size := by
  rw [lt_max_iff, TokenBucket.retryAfter_pos_iff, TokenBucket.retryAfter_pos_iff, Affordable,
    not_and_or, not_le, not_le]

variable {clock : Readings} {l : RateLimiter} {size : ℕ}

theorem offer_of_affordable (h : l.Affordable clock size) :
    (l.offer clock size).1 = ⟨true, 0, false⟩ := by
  unfold offer
  dsimp only
  rw [if_neg (fun hpos => (l.wait_pos_iff clock size).mp hpos h)]

theorem offer_of_not_affordable (h : ¬ l.Affordable clock size) :
    (l.offer clock size).1 =
      ⟨false,
        max (l.messages.retryAfter clock.messages 1).1 (l.bytes.retryAfter clock.bytes size).1,
        l.maxViolations ≤ l.violations + 1⟩ := by
  unfold offer
  dsimp only
  rw [if_pos ((l.wait_pos_iff clock size).mpr h)]

end RateLimiter

end Ws
