import FastapiBoilerplate.Idempotency.Redis

/-!
# Whose entry an execution ends

A reservation does not say who made it. `release` deletes and `complete` overwrites whatever
stands under the key, in both stores; that the entry is the execution's own is a fact about
timing, not a check. It holds as long as every execution issues its last store operation
before its own reservation lapses — and it has to be *every* execution: one late operation
deletes a stranger's reservation, and from then on that stranger, however punctual, ends
somebody else's.

What a reservation lifetime below the slowest request costs is shown last: the first
execution comes back with a 500 after its retry has started, and frees the key under it.
-/

namespace Idempotency

open Lib

variable {ttl : Ttl} {cfg : IdempotencyConfig} {i : ℕ} {now : Time}

/-- An execution that ends in time touches the entry it wrote itself, and no other. -/
theorem settle_own {s s' : Sys} (hh : Lease.Honest s.table) (hok : Punctual s (.settle i now))
    (hstep : s.step ttl cfg (.settle i now) = some s') (k : String)
    (hk : s'.store.lookup k ≠ s.store.lookup k) : s.writer.lookup k = some i := by
  cases step_move hstep with
  | @settle _ r op d _ hi hnow =>
    have hclaim : s.table.claim i = some ⟨r.fullKey, r.reservation, d⟩ :=
      Lease.claims_of_getElem? hi
    have hcell := hh i _ hclaim (hnow.trans_lt (hok _ hi d rfl))
    have hkk : k = r.fullKey := by
      by_contra hne
      cases op with
      | release => exact hk (AList.lookup_erase_ne hne)
      | complete => exact hk (AList.lookup_insert_ne hne)
    rw [hkk]
    exact (Lease.cells_eq_some hcell).2
  | progress ha => cases ha

theorem Redis.settle_own {cfg : Redis.Settings} {s s' : Redis.Sys} {r : Request} {op : StoreOp}
    {d : Time} {fault : Redis.Fault} (hh : Lease.Honest (s.table cfg))
    (hi : s.reqs[i]? = some ⟨r, .finishing op d⟩) (hok : Redis.Punctual s (.command i now fault))
    (hstep : s.step cfg (.command i now fault) = some s') (k : String)
    (hk : s'.db.lookup k ≠ s.db.lookup k) : s.writer.lookup k = some i := by
  have hclaim : (s.table cfg).claim i =
      some ⟨Redis.Sys.name cfg r, .record r.reservation, d⟩ := Lease.claims_of_getElem? hi
  simp only [Redis.Sys.step, hi] at hstep
  obtain ⟨hnow, ⟨⟩⟩ := Option.ite_none_right_eq_some.mp hstep
  have hcell := hh i _ hclaim (hnow.trans_lt (hok r op d hi))
  have hkk : k = Redis.Sys.name cfg r := by
    by_contra hne
    unfold Redis.Sys.settle at hk
    split at hk
    · exact hk rfl
    cases op with
    | release => exact hk (AList.lookup_erase_ne hne)
    | complete => exact hk (AList.lookup_insert_ne hne)
  rw [hkk]
  exact (Lease.cells_eq_some hcell).2

/-- **Executions that end in time finish only their own reservation.** In every run of
    either store in which each release and each completion is issued before the issuing
    execution's own reservation lapses, an entry that such an operation deletes or
    overwrites was written by that execution. For Redis, on a server that holds no value of
    another schema. -/
theorem finishes_only_its_own (ttl : Ttl) (cfg : IdempotencyConfig) (settings : Redis.Settings) :
    (∀ (s s' : Sys) (i : ℕ) (now : Time), Run (Sys.step ttl cfg) Punctual {} s →
      Punctual s (.settle i now) → s.step ttl cfg (.settle i now) = some s' →
      ∀ k, s'.store.lookup k ≠ s.store.lookup k → s.writer.lookup k = some i) ∧
    (∀ (s₀ s s' : Redis.Sys) (i : ℕ) (r : Request) (op : StoreOp) (d now : Time)
        (fault : Redis.Fault),
      Redis.Ours s₀ → s₀.reqs = [] → Run (Redis.Sys.step settings) Redis.Punctual s₀ s →
      s.reqs[i]? = some ⟨r, .finishing op d⟩ → Redis.Punctual s (.command i now fault) →
      s.step settings (.command i now fault) = some s' →
      ∀ k, s'.db.lookup k ≠ s.db.lookup k → s.writer.lookup k = some i) := by
  constructor
  · intro s s' i now hrun hok hstep k hk
    exact settle_own (honest_of_punctual hrun) hok hstep k hk
  · intro s₀ s s' i r op d now fault h₀ hreqs hrun hi hok hstep k hk
    exact Redis.settle_own (Redis.honest_of_punctual h₀ hreqs hrun).2 hi hok hstep k hk

/-- A punctual release: the request frees the key it reserved. -/
theorem finishes_only_its_own_release :
    ∃ s s' : Sys, Run (Sys.step {} {}) Punctual {} s ∧
      s.step {} {} (.settle 0 59) = some s' ∧ s'.store.lookup "anon:k" = none ∧
      s.writer.lookup "anon:k" = some 0 := by
  let r : Request := ⟨"anon:k", "k", "a"⟩
  obtain ⟨s, s', hrun, hstep, hfree, hpunctual, hchanged⟩ : ∃ s s' : Sys,
      Run (Sys.step {} {}) Punctual {} s ∧ s.step {} {} (.settle 0 59) = some s' ∧
      s'.store.lookup "anon:k" = none ∧ Punctual s (.settle 0 59) ∧
      s'.store.lookup "anon:k" ≠ s.store.lookup "anon:k" :=
    Run.exists_step_of_replay [.arrive r, .reserve 0 0 0, .appRaises 0] (by decide +kernel)
  exact ⟨s, s', hrun, hstep, hfree, (finishes_only_its_own {} {} {}).1 s s' 0 59 hrun hpunctual
    hstep "anon:k" hchanged⟩

/-- The late release: request 0 reserves at 0 for 60 seconds and is still running at 61 when
    its retry, request 1, finds the reservation lapsed and makes its own; request 0 then
    answers 500 and deletes the reservation request 1 is executing under. -/
theorem retry_loses_its_reservation :
    ∃ s s' : Sys, Run (Sys.step {} {}) Always {} s ∧
      s.step {} {} (.settle 0 62) = some s' ∧
      s.writer.lookup "anon:k" = some 1 ∧
      s.store.lookup "anon:k" = some ({ fingerprint := "a" }, 121) ∧
      s'.store.lookup "anon:k" = none ∧
      s'.reqs[1]? = some ⟨⟨"anon:k", "k", "a"⟩, .executing {} 121⟩ := by
  let r : Request := ⟨"anon:k", "k", "a"⟩
  refine Run.exists_step_of_replay
    [.arrive r, .reserve 0 0 0, .arrive r, .reserve 1 61 61, .send 0 (.responseStart 500 []),
      .send 0 (.responseBody [] false), .appReturns 0] ?_
  decide +kernel

end Idempotency
