import Mathlib
import FastapiBoilerplate.Kafka.Base
import FastapiBoilerplate.Lib.Except
import FastapiBoilerplate.Lib.TextRoundTrip

/-!
# The ladder: which topic a record goes to next

`src/dlq/base.py`. A `RetryPolicy` is one its `__post_init__` lets through; the checks are
fields. Delays are rationals: a float is one, and what is lost is the rounding of the products.
What is kept of floats is that `**` raises `OverflowError` when its result is out of range.

A ladder is known by the names of its topics alone. The index behind the last dot tells the tiers
apart (`index_of_retryTopic`), and `originOf` finds the way back from all of them unless a tier's
name happens to end as a dead-letter topic's does, which is what it looks for first.
-/

open Lib Kafka List

namespace Dlq

def maxTierExponent : ℕ := 32

structure RetryTier where
  index : ℕ
  topic : Text
  delay : ℚ
  deriving DecidableEq

structure RetryLadder where
  originTopic : Text
  tiers : List RetryTier
  deadLetterTopic : Text
  deriving DecidableEq

namespace RetryLadder

def retryTopics (ladder : RetryLadder) : List Text := ladder.tiers.map (·.topic)

/-- The tier for a record that has now failed `attempts` times, none at the end of the ladder. -/
def destination (ladder : RetryLadder) (attempts : ℕ) : Except Exc (Option RetryTier) :=
  if attempts < 1 then
    .error (ExcClass.valueError.error
      (lit "attempts is 1-based and counts the failure just seen."))
  else .ok ladder.tiers[attempts - 1]?

end RetryLadder

structure RetryPolicy where
  baseDelay : ℚ := 5
  multiplier : ℚ := 5
  tiers : ℕ := 3
  maxDelay : ℚ := 900
  retrySuffix : Text := lit ".retry"
  deadLetterSuffix : Text := lit ".dlt"
  baseDelay_pos : 0 < baseDelay := by norm_num
  one_le_multiplier : 1 ≤ multiplier := by norm_num
  baseDelay_le_maxDelay : baseDelay ≤ maxDelay := by norm_num
  retrySuffix_ne_nil : retrySuffix ≠ [] := by decide
  deadLetterSuffix_ne_nil : deadLetterSuffix ≠ [] := by decide
  suffixes_ne : retrySuffix ≠ deadLetterSuffix := by decide

/-- The first number that rounds to a float that is not finite. -/
def floatLimit : ℚ := 2 ^ 1024 - 2 ^ 970

namespace RetryPolicy

/-- The fixed wait of a tier. -/
def tierDelay (policy : RetryPolicy) (index : ℕ) : Except Exc ℚ :=
  if index < 1 then .error (ExcClass.valueError.error (lit "Tier indexes are 1-based."))
  else
    let power := policy.multiplier ^ min (index - 1) maxTierExponent
    if floatLimit ≤ power then
      .error (ExcClass.overflowError.error (lit "(34, 'Numerical result out of range')"))
    else .ok (min policy.maxDelay (policy.baseDelay * power))

def retryTopic (policy : RetryPolicy) (origin : Text) (index : ℕ) : Text :=
  origin ++ policy.retrySuffix ++ lit "." ++ decimal index

def deadLetterTopic (policy : RetryPolicy) (origin : Text) : Text :=
  origin ++ policy.deadLetterSuffix

/-- The origin topic that `topic` belongs to, none if it is one itself. -/
def originOf (policy : RetryPolicy) (topic : Text) : Option Text :=
  if endsWith topic policy.deadLetterSuffix then
    let head := topic.take (topic.length - policy.deadLetterSuffix.length)
    if head.isEmpty then none else some head
  else
    match rpartition (policy.retrySuffix ++ lit ".") topic with
    | some (head, tail) => if !head.isEmpty && isDigit tail then some head else none
    | none => none

def isLadderTopic (policy : RetryPolicy) (topic : Text) : Bool := (policy.originOf topic).isSome

def tier (policy : RetryPolicy) (origin : Text) (index : ℕ) : Except Exc RetryTier := do
  let delay ← policy.tierDelay index
  return { index, topic := policy.retryTopic origin index, delay }

def ladderFor [Unicode] (policy : RetryPolicy) (origin : Text) : Except Exc RetryLadder :=
  if origin.isEmpty then
    .error (ExcClass.valueError.error (lit "origin_topic must not be empty."))
  else if policy.isLadderTopic origin then
    .error (ExcClass.valueError.error (reprText origin ++ lit
      " is already a retry or dead-letter topic. Build the ladder from the origin topic recorded in the record's x-dlq-origin-topic header."))
  else do
    let tiers ← (List.range policy.tiers).mapM fun i => policy.tier origin (i + 1)
    return { originTopic := origin, tiers, deadLetterTopic := policy.deadLetterTopic origin }

/-- What is known of a ladder that could be built: it is that of its origin, one tier per
    index, each named after it. -/
theorem ladderFor_eq_ok [Unicode] {policy : RetryPolicy} {origin : Text} {ladder : RetryLadder}
    (h : policy.ladderFor origin = .ok ladder) :
    ladder.originTopic = origin ∧ ladder.deadLetterTopic = policy.deadLetterTopic origin ∧
      ladder.tiers.length = policy.tiers ∧
      ∀ (i : ℕ) (tier : RetryTier), ladder.tiers[i]? = some tier →
        policy.tier origin (i + 1) = .ok tier := by
  unfold ladderFor at h
  split at h
  · cases h
  split at h
  · cases h
  obtain ⟨tiers, htiers, h⟩ := bind_eq_ok.mp h
  obtain rfl := pure_eq_ok.mp h
  obtain ⟨hlength, hget⟩ := mapM_eq_ok htiers
  refine ⟨rfl, rfl, by simpa using hlength, ?_⟩
  intro i tier htier
  obtain ⟨j, hj, htier⟩ := hget i tier htier
  obtain ⟨-, rfl⟩ : i < policy.tiers ∧ i = j := by
    simpa [List.getElem?_eq_some_iff] using hj
  exact htier

/-! ## The names of the topics -/

variable {policy : RetryPolicy} {origin : Text}

theorem index_of_retryTopic {origin origin' : Text} {k k' : ℕ}
    (h : policy.retryTopic origin k = policy.retryTopic origin' k') : k = k' := by
  have hdot (n : ℕ) : ∀ c ∈ (decimal n).reverse, (c != 0x2e) = true := by
    intro c hc
    rw [bne_iff_ne]
    rintro rfl
    exact point_notMem_decimal n (mem_reverse.mp hc)
  -- the digits are what follows the last full stop
  have htail (o : Text) (n : ℕ) :
      (policy.retryTopic o n).reverse.takeWhile (· != 0x2e) = (decimal n).reverse := by
    have hlit : (lit ".").reverse = [0x2e] := by decide
    rw [retryTopic, reverse_append, reverse_append, hlit,
      takeWhile_append_of_pos (hdot n)]
    simp
  have hdigits : (decimal k).reverse = (decimal k').reverse := by rw [← htail, ← htail, h]
  exact decimal_injective (reverse_injective hdigits)

theorem endsWith_deadLetterTopic (policy : RetryPolicy) (head : Text) :
    endsWith (policy.deadLetterTopic head) policy.deadLetterSuffix = true :=
  isSuffixOf_iff_suffix.mpr (suffix_append ..)

theorem originOf_deadLetterTopic (policy : RetryPolicy) (head : Text) :
    policy.originOf (policy.deadLetterTopic head) = if head.isEmpty then none else some head := by
  rw [originOf, if_pos (endsWith_deadLetterTopic policy head), deadLetterTopic, length_append,
    Nat.add_sub_cancel, take_left]

/-- The last marker in a tier's topic is the one its index stands behind. -/
theorem originOf_retryTopic {k : ℕ} (horigin : origin ≠ [])
    (hends : endsWith (policy.retryTopic origin k) policy.deadLetterSuffix = false) :
    policy.originOf (policy.retryTopic origin k) = some origin := by
  have hpartition : rpartition (policy.retrySuffix ++ lit ".") (policy.retryTopic origin k) =
      some (origin, decimal k) := by
    rw [retryTopic, append_assoc, append_assoc]
    exact rpartition_append (point_notMem_decimal k)
  have hdigit : isDigit (decimal k) = true := by
    rw [isDigit, isEmpty_eq_false_iff.mpr (decimal_ne_nil k), Bool.not_false, Bool.true_and,
      List.all_eq_true]
    intro c hc
    obtain ⟨d, hd, rfl⟩ := digitPoint_of_mem_decimal hc
    rw [decimalValue_digitPoint d hd]
    rfl
  rw [originOf, hends, hpartition]
  simp [horigin, hdigit]

theorem retryTopics_of_ladderFor [Unicode] {ladder : RetryLadder}
    (h : policy.ladderFor origin = .ok ladder) :
    ladder.retryTopics = (List.range policy.tiers).map fun i => policy.retryTopic origin (i + 1) := by
  obtain ⟨-, -, hlength, htiers⟩ := ladderFor_eq_ok h
  apply ext_getElem (by simp [RetryLadder.retryTopics, hlength])
  intro i hi _
  have hi : i < ladder.tiers.length := by simpa [RetryLadder.retryTopics] using hi
  obtain ⟨delay, -, htier⟩ := bind_eq_ok.mp (htiers i _ (getElem?_eq_getElem hi))
  simp [RetryLadder.retryTopics, ← pure_eq_ok.mp htier]

theorem ladder_invertible_iff [Unicode] (policy : RetryPolicy) (origin : Text)
    (ladder : RetryLadder) (h : policy.ladderFor origin = .ok ladder) :
    ((ladder.originTopic :: ladder.retryTopics ++ [ladder.deadLetterTopic]).Nodup ∧
        ∀ topic ∈ ladder.retryTopics ++ [ladder.deadLetterTopic],
          policy.originOf topic = some origin) ↔
      ∀ i < policy.tiers,
        endsWith (policy.retryTopic origin (i + 1)) policy.deadLetterSuffix = false := by
  have horigin : origin ≠ [] := by
    rintro rfl
    cases h
  obtain ⟨htopic, hdead, -⟩ := ladderFor_eq_ok h
  rw [htopic, hdead, retryTopics_of_ladderFor h]
  constructor
  · rintro ⟨hnodup, horigins⟩ i hi
    have hmem := mem_map_of_mem (f := fun i => policy.retryTopic origin (i + 1))
      (mem_range.mpr hi)
    by_contra hends
    obtain ⟨head, hhead⟩ := isSuffixOf_iff_suffix.mp (Bool.of_not_eq_false hends)
    -- what is before the suffix is taken for the origin, so it is the dead-letter topic
    have hback := horigins _ (mem_append_left _ hmem)
    have hfirst := originOf_deadLetterTopic policy head
    rw [deadLetterTopic, hhead, hback] at hfirst
    split at hfirst
    · cases hfirst
    cases hfirst
    have hlast := (nodup_append.mp (nodup_cons.mp hnodup).2).2.2 _ hmem _
      (mem_singleton_self _)
    exact hlast hhead.symm
  · intro hends
    have hdistinct : ∀ i < policy.tiers,
        policy.retryTopic origin (i + 1) ≠ policy.deadLetterTopic origin := by
      intro i hi heq
      have hno := hends i hi
      rw [heq, endsWith_deadLetterTopic] at hno
      cases hno
    constructor
    · have hinjective : Function.Injective fun i => policy.retryTopic origin (i + 1) :=
        fun _ _ heq => Nat.succ_injective (index_of_retryTopic heq)
      refine nodup_cons.mpr ⟨?_, nodup_append.mpr
        ⟨nodup_range.map hinjective, nodup_singleton _, ?_⟩⟩
      · simp [retryTopic, deadLetterTopic, policy.deadLetterSuffix_ne_nil, decimal_ne_nil]
      · simpa using hdistinct
    · intro topic htopic
      rcases mem_append.mp htopic with htopic | htopic
      · obtain ⟨i, hi, rfl⟩ := mem_map.mp htopic
        exact originOf_retryTopic horigin (hends i (mem_range.mp hi))
      · cases mem_singleton.mp htopic
        rw [originOf_deadLetterTopic]
        simp [horigin]

/-- The topic of the first tier ends with the suffix of dead letters. -/
theorem ladder_not_invertible :
    letI : Unicode := .ascii
    let policy : RetryPolicy := { deadLetterSuffix := lit ".1" }
    (policy.ladderFor (lit "orders")).map (fun ladder => ladder.retryTopics.map policy.originOf) =
      .ok [some (lit "orders.retry"), some (lit "orders"), some (lit "orders")] := by
  decide +kernel

theorem ladder_invertible_default :
    letI : Unicode := .ascii
    ∃ ladder, ({} : RetryPolicy).ladderFor (lit "orders") = .ok ladder ∧
      (ladder.originTopic :: ladder.retryTopics ++ [ladder.deadLetterTopic]).Nodup := by
  let : Unicode := .ascii
  have hladder : ({} : RetryPolicy).ladderFor (lit "orders") =
      .ok ⟨lit "orders", [⟨1, lit "orders.retry.1", 5⟩, ⟨2, lit "orders.retry.2", 25⟩,
        ⟨3, lit "orders.retry.3", 125⟩], lit "orders.dlt"⟩ := by
    decide +kernel
  exact ⟨_, hladder, ((ladder_invertible_iff _ _ _ hladder).mpr (by decide)).1⟩

end RetryPolicy

end Dlq
