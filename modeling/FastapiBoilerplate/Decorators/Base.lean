import Mathlib.Data.Rat.Defs
import Mathlib.Algebra.Order.Ring.Unbundled.Rat

/-!
# What the retry loops share

`backoff_delay` of `src/decorators/base.py`: the one policy by which the relay of the outbox, the
consumer of Kafka and the HTTP transport wait before another attempt, each with the numbers of its
own configuration.
-/

namespace Decorators

/-- `MAX_BACKOFF_EXPONENT`. -/
def maxBackoffExponent : ℕ := 32

/-- `backoff_delay`; `draw` is the fraction of the ceiling the generator gives. -/
def backoffDelay (attempt : ℕ) (baseDelay maxDelay : ℚ) (jitter : Bool) (draw : ℚ) : ℚ :=
  let ceiling := min maxDelay (baseDelay * 2 ^ min (attempt - 1) maxBackoffExponent)
  if jitter then ceiling * draw else ceiling

end Decorators
