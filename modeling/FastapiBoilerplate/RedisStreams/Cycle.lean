import Mathlib.Data.Rat.Floor
import FastapiBoilerplate.RedisStreams.Consumer
import FastapiBoilerplate.RedisStreams.Redis

/-!
# The bounds of a cycle

How long a read of `consume_once` waits when its group is a `RedisStreamGroup`. The server takes
`BLOCK 0` for a wait without end.
-/

namespace RedisStreams

open Lib Redis

/-- What `read` sends as `BLOCK` ends the wait, and no later than the timeout. -/
def Bounded (timeout : Seconds) : Option ℕ → Prop
  | none => True
  | some ms => 0 < ms ∧ (ms : Seconds) / 1000 ≤ timeout

theorem toMs_eq_floor {t : Seconds} (h : 0 ≤ t) : toMs t = ⌊t * 1000⌋₊ := by
  have hnum : 0 ≤ (t * 1000).num := Rat.num_nonneg.mpr (by positivity)
  rw [toMs, truncate, Int.tdiv_eq_ediv_of_nonneg hnum, ← Rat.floor_def]
  exact Int.floor_toNat (t * 1000)

theorem bounded_block_iff (r : Runner) :
    (∀ claimed, Bounded r.config.blockTimeout (RedisStreamGroup.blockMs (r.block claimed))) ↔
      1 / 1000 ≤ r.config.blockTimeout := by
  have hpos := r.config.blockTimeout_pos
  have hms : Bounded r.config.blockTimeout (RedisStreamGroup.blockMs r.config.blockTimeout) ↔
      1 / 1000 ≤ r.config.blockTimeout := by
    have hle := Nat.floor_le (mul_pos hpos (show (0 : ℚ) < 1000 by norm_num)).le
    rw [RedisStreamGroup.blockMs, if_pos hpos, toMs_eq_floor hpos.le, Bounded, Nat.floor_pos,
      div_le_iff₀ (by norm_num), div_le_iff₀ (by norm_num)]
    exact and_iff_left hle
  refine ⟨fun h => hms.mp (h []), fun h claimed => ?_⟩
  cases claimed with
  | nil => exact hms.mpr h
  | cons => trivial

/-- Half a millisecond passes `__post_init__` and is sent as `BLOCK 0`. -/
theorem half_a_millisecond_unbounded :
    let r : Runner :=
      { group := { stream := lit "s", group := lit "g", consumer := lit "c" }
        config := { blockTimeout := 1 / 2000, blockTimeout_pos := by norm_num } }
    RedisStreamGroup.blockMs (r.block []) = some 0 ∧
      ¬ Bounded r.config.blockTimeout (RedisStreamGroup.blockMs (r.block [])) := by
  intro r
  have hzero : RedisStreamGroup.blockMs (r.block []) = some 0 := by decide +kernel
  exact ⟨hzero, fun h => absurd (hzero ▸ h).1 (lt_irrefl 0)⟩

end RedisStreams
