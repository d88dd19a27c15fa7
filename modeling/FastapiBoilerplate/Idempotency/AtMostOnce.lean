import FastapiBoilerplate.Idempotency.Memory

/-!
# A key executes at most once

The runs here are those in which executions end in time: no clock is read past the expiry
of a reservation whose execution has not ended (`InTime`). That is more than being
punctual — it rules out a second execution starting beside a slow one — and it is all that
is assumed.

Everything rests on one fact about the store, that an unlapsed claim is what stands under
the key: a running execution's reservation is still there, so `reserve` finds it; a stored
response is still there until its own expiry, so `reserve` finds that. What the request is
then answered is `_handle_existing` on the record, and the record is known.
-/

namespace Idempotency

open Lib List

/-- No reservation lapses under a running execution. -/
def InTime (s : Sys) (a : Action) : Prop :=
  ∀ t ∈ a.reading, ∀ h ∈ s.reqs, ∀ d ∈ h.phase.deadline, t < d

instance (s : Sys) (a : Action) : Decidable (InTime s a) :=
  inferInstanceAs (Decidable (∀ t ∈ a.reading, ∀ h ∈ s.reqs, ∀ d ∈ h.phase.deadline, t < d))

variable {ttl : Ttl} {cfg : IdempotencyConfig} {s s' u : Sys} {a : Action} {i j : ℕ}
  {r r' : Request} {p : Phase} {d now now' : Time}

theorem InTime.punctual (h : InTime s a) : Punctual s a := by
  cases a with
  | settle i now =>
    intro x hx d hd
    exact h now rfl x (mem_of_getElem? hx) d hd
  | arrive => trivial
  | reserve => trivial
  | send => trivial
  | appReturns => trivial
  | appRaises => trivial
  | abandon => trivial

theorem honest_of_inTime (hrun : Run (Sys.step ttl cfg) InTime {} s) : Lease.Honest s.table :=
  honest_of_punctual (hrun.weaken fun _ _ h => h.punctual)

/-! ## What `reserve` answers -/

/-- What a claim says stands under its key, as the store has it. -/
theorem lookup_of_claim (h : Lease.Honest s.table) {x : Handling}
    {c : Lease.Claim String IdempotencyRecord Time} (hi : s.reqs[i]? = some x)
    (hc : x.claim = some c) (hlt : s.clock < c.expires) :
    s.store.lookup c.key = some (c.value, c.expires) :=
  (Lease.cells_eq_some (h i c ((Lease.claims_of_getElem? hi).trans hc) hlt)).1

variable {record : IdempotencyRecord} {e : Time} {ok : Sys → Action → Prop}

theorem reserve_answers (h : Lease.Honest s.table) {x : Handling}
    {c : Lease.Claim String IdempotencyRecord Time} (hi : s.reqs[i]? = some x)
    (hc : x.claim = some c) (hj : s.reqs[j]? = some ⟨r', .arrived⟩) (hkey : r'.fullKey = c.key)
    (hlt : now ≤ now' → now < c.expires) (hstep : s.step ttl cfg (.reserve j now now') = some s') :
    s'.reqs[j]? = some ⟨r', .answered (handleExisting c.value r'.key r'.fingerprint)⟩ := by
  cases step_move hstep with
  | @reserve _ r _ _ hj' hnow hnow' =>
    obtain rfl : r = r' := by simpa using (hj.symm.trans hj').symm
    have hlook := lookup_of_claim h hi hc (hnow.trans_lt (hlt hnow'))
    rw [← hkey] at hlook
    rcases s.reserve_cases ttl j r now now' with ⟨record, expires, hl, -, e⟩ | ⟨hfree, -⟩
    · obtain ⟨rfl, -⟩ : record = c.value ∧ expires = c.expires := by
        simpa using hl.symm.trans hlook
      rw [e]
      exact getElem?_set_self (lt_of_getElem? hj)
    · exact absurd (hfree _ hlook) (not_le.mpr (hlt hnow'))
  | progress ha => cases ha

/-! ## At most one execution -/

/-- Two running executions of one key are one. -/
def Solo (s : Sys) : Prop :=
  ∀ (i j : ℕ) (x y : Handling), s.reqs[i]? = some x → s.reqs[j]? = some y →
    x.phase.deadline ≠ none → y.phase.deadline ≠ none →
    x.request.fullKey = y.request.fullKey → i = j

/-- Moving a request on keeps the executions apart if it was running before, or if nobody
    else runs under its key. -/
theorem Solo.set (h : Solo s) {p' : Phase} (hi : s.reqs[i]? = some ⟨r, p⟩)
    (hs' : s'.reqs = s.reqs.set i ⟨r, p'⟩)
    (hy : p'.deadline ≠ none → p.deadline ≠ none ∨
      ∀ (j : ℕ) (z : Handling), j ≠ i → s.reqs[j]? = some z → z.phase.deadline ≠ none →
        z.request.fullKey ≠ r.fullKey) : Solo s' := by
  -- `other` does the work for a pair of which `i` is one
  have other : ∀ (j : ℕ) (z : Handling), j ≠ i → s.reqs[j]? = some z →
      p'.deadline ≠ none → z.phase.deadline ≠ none → z.request.fullKey ≠ r.fullKey := by
    intro j z hji hz hyd hzd hk
    rcases hy hyd with hx | hnone
    · exact hji (h j i z ⟨r, p⟩ hz hi hzd hx hk)
    · exact hnone j z hji hz hzd hk
  intro m n v w hv hw hvd hwd hk
  rw [hs'] at hv hw
  rcases getElem?_set_cases hv with ⟨hm, ev⟩ | ⟨hm, hv'⟩
  · rcases getElem?_set_cases hw with ⟨hn, -⟩ | ⟨hn, hw'⟩
    · rw [hm, hn]
    · subst ev
      exact absurd hk.symm (other n w hn hw' hvd hwd)
  · rcases getElem?_set_cases hw with ⟨-, ew⟩ | ⟨hn, hw'⟩
    · subst ew
      exact absurd hk (other m v hm hv' hwd hvd)
    · exact h m n v w hv' hw' hvd hwd hk

theorem Solo.step (h : Solo s) (hh : Lease.Honest s.table) (hok : InTime s a)
    (hstep : s.step ttl cfg a = some s') : Solo s' := by
  cases step_move hstep with
  | arrive =>
    intro m n v w hv hw hvd hwd hk
    rcases getElem?_append_cases hv with ⟨-, rfl⟩ | ⟨-, hv⟩
    · exact absurd rfl hvd
    rcases getElem?_append_cases hw with ⟨-, rfl⟩ | ⟨-, hw⟩
    · exact absurd rfl hwd
    · exact h m n v w hv hw hvd hwd hk
  | @reserve i r now now' hi hnow hnow' =>
    rcases s.reserve_cases ttl i r now now' with ⟨record, _, -, -, e⟩ | ⟨hfree, m', -, -, e⟩ <;>
      rw [e]
    · exact h.set hi rfl (fun hd => absurd rfl hd)
    refine h.set hi rfl (fun _ => .inr ?_)
    -- a running execution's reservation would still stand, and is not free
    intro j z hji hz hzd hk
    obtain ⟨d, hd⟩ := Option.ne_none_iff_exists'.mp hzd
    have hlt : now' < d := hok now' rfl z (mem_of_getElem? hz) d hd
    have hlook := lookup_of_claim hh hz (Handling.claim_of_deadline hd)
      ((hnow.trans hnow').trans_lt hlt)
    exact absurd (hfree _ (hk ▸ hlook)) (not_le.mpr (hnow'.trans_lt hlt))
  | @progress _ i r p p' d _ hi hd hd' _ =>
    exact h.set hi rfl (fun _ => .inl (by rw [hd]; simp))
  | @settle i r op d now hi hnow =>
    cases op with
    | release | complete => exact h.set hi rfl (fun hd => absurd rfl hd)
  | @abandon i r op d hi =>
    exact h.set hi rfl (fun hd => absurd rfl hd)

theorem solo_of_run (hrun : Run (Sys.step ttl cfg) InTime {} s) : Solo s := by
  refine hrun.invariant_with (fun hh hok hstep => Lease.honest_of_run
    (table_refines (InTime.punctual hok) hstep) hh) (fun hh h => h.step hh) honest_init ?_
  intro m n v w hv
  cases hv

/-! ## Where stored responses come from -/

/-- What a request completes with is a finished record of its own fingerprint. -/
def Shaped (reqs : List Handling) : Prop :=
  ∀ (i : ℕ) (r : Request) (p : Phase), reqs[i]? = some ⟨r, p⟩ → ∀ record,
    p.completed = some record →
      record.fingerprint = r.fingerprint ∧ ∃ stored, record.response = some stored

theorem Shaped.set {reqs : List Handling} (h : Shaped reqs) {p' : Phase}
    (hp' : ∀ record, p'.completed = some record →
      record.fingerprint = r.fingerprint ∧ ∃ stored, record.response = some stored) :
    Shaped (reqs.set i ⟨r, p'⟩) := by
  intro m r₁ p₁ hm
  rcases getElem?_set_cases hm with ⟨-, e⟩ | ⟨-, hm⟩
  · cases e
    exact hp'
  · exact h m r₁ p₁ hm

theorem Shaped.step (h : Shaped s.reqs) (hstep : s.step ttl cfg a = some s') : Shaped s'.reqs := by
  cases step_move hstep with
  | arrive =>
    intro m r₁ p₁ hm
    rcases getElem?_append_cases hm with ⟨-, e⟩ | ⟨-, hm⟩
    · cases e
      exact nofun
    · exact h m r₁ p₁ hm
  | @reserve i r now now' hi hnow hnow' =>
    rcases s.reserve_cases ttl i r now now' with ⟨record, _, -, -, e⟩ | ⟨-, m', -, -, e⟩ <;> rw [e]
    · exact h.set (by simp [Phase.completed])
    · exact h.set (by simp [Phase.completed])
  | @progress _ i r p p' d _ hi hd hd' hp' => exact h.set hp'
  | @settle i r op d now hi hnow =>
    cases op with
    | release => exact h.set (by simp [Phase.completed])
    | complete record =>
      refine h.set ?_
      rintro record' ⟨⟩
      exact h i r _ hi record rfl
  | @abandon i r op d hi => exact h.set (by simp [Phase.completed])

/-- Every finished record in the store is what some request stored under its key. -/
def Sourced (s : Sys) : Prop :=
  ∀ (k : String) (record : IdempotencyRecord) (e : Time),
    s.store.lookup k = some (record, e) → record.response ≠ none →
    ∃ (i : ℕ) (r : Request), s.reqs[i]? = some ⟨r, .stored record e⟩ ∧ r.fullKey = k

theorem stored_set {x : Handling} (hi : s.reqs[i]? = some ⟨r, .stored record e⟩)
    (hj : s.reqs[j]? = some x) (hx : ∀ record e, x.phase ≠ .stored record e) (y : Handling) :
    (s.reqs.set j y)[i]? = some ⟨r, .stored record e⟩ := by
  refine getElem?_set_of_ne hj hi ?_
  rintro rfl
  exact hx record e rfl

theorem stored_step (hi : s.reqs[i]? = some ⟨r, .stored record e⟩)
    (hstep : s.step ttl cfg a = some s') : s'.reqs[i]? = some ⟨r, .stored record e⟩ := by
  cases step_move hstep with
  | arrive =>
    exact getElem?_append_of hi
  | @reserve j r' now now' hj _ _ =>
    rcases s.reserve_cases ttl j r' now now' with ⟨_, _, -, -, e⟩ | ⟨-, m', -, -, e⟩ <;> rw [e]
    · exact stored_set hi hj (by simp) _
    · exact stored_set hi hj (by simp) _
  | @progress _ j r' p p' d _ hj hd _ _ =>
    refine stored_set hi hj ?_ _
    rintro record e rfl
    cases hd
  | @settle j r' op d now hj _ =>
    cases op with
    | release => exact stored_set hi hj (by simp) _
    | complete _ => exact stored_set hi hj (by simp) _
  | abandon hj => exact stored_set hi hj (by simp) _

theorem stored_run (hrun : Run (Sys.step ttl cfg) ok s s')
    (hi : s.reqs[i]? = some ⟨r, .stored record e⟩) : s'.reqs[i]? = some ⟨r, .stored record e⟩ :=
  hrun.invariant (fun h _ hstep => stored_step h hstep) hi

theorem Sourced.step (h : Sourced s) (hstep : s.step ttl cfg a = some s') : Sourced s' := by
  -- an entry the step left alone has its source still
  have kept : ∀ k record e, s.store.lookup k = some (record, e) → record.response ≠ none →
      ∃ (i : ℕ) (r : Request), s'.reqs[i]? = some ⟨r, .stored record e⟩ ∧ r.fullKey = k := by
    intro k record e hk hres
    obtain ⟨m, r₁, hm, hk'⟩ := h k record e hk hres
    exact ⟨m, r₁, stored_step hm hstep, hk'⟩
  intro k record e hk hres
  cases step_move hstep with
  | arrive | progress | abandon => exact kept k record e hk hres
  | @reserve i r now now' hi _ _ =>
    rcases s.reserve_cases ttl i r now now' with
      ⟨_, _, -, -, e'⟩ | ⟨-, m', hkey, hother, e'⟩ <;> rw [e'] at hk
    · exact kept k record e hk hres
    by_cases hkk : k = r.fullKey
    · -- the entry just written is a reservation
      subst hkk
      obtain ⟨rfl, -⟩ := Prod.mk.inj (Option.some.inj (hkey.symm.trans hk))
      exact absurd rfl hres
    · exact kept k record e ((hother k hkk).symm.trans hk) hres
  | @settle i r op d now hi _ =>
    cases op with
    | release =>
      have hkk : k ≠ r.fullKey := by
        rintro rfl
        exact absurd ((AList.lookup_erase ..).symm.trans hk) (by simp)
      exact kept k record e ((AList.lookup_erase_ne hkk).symm.trans hk) hres
    | complete =>
      by_cases hkk : k = r.fullKey
      · subst hkk
        obtain ⟨rfl, rfl⟩ := Prod.mk.inj
          (Option.some.inj ((AList.lookup_insert s.store).symm.trans hk))
        have hlen := lt_of_getElem? hi
        exact ⟨i, r, getElem?_set_self hlen, rfl⟩
      · exact kept k record e ((AList.lookup_insert_ne hkk).symm.trans hk) hres

theorem shaped_of_run (hrun : Run (Sys.step ttl cfg) ok {} s) : Shaped s.reqs := by
  refine hrun.invariant (fun h _ hstep => Shaped.step h hstep) fun i r p hi => ?_
  cases hi

theorem sourced_of_run (hrun : Run (Sys.step ttl cfg) ok {} s) : Sourced s := by
  refine hrun.invariant (fun h _ hstep => h.step hstep) fun k r e hk => ?_
  cases hk

/-! ## The theorem -/

theorem handleExisting_finished {stored : StoredResponse} (hres : record.response = some stored)
    (key fingerprint : String) :
    handleExisting record key fingerprint =
      if fingerprint = record.fingerprint then .sent (sendStored stored key)
      else .error (idempotencyKeyReusedError key) := by
  by_cases hf : fingerprint = record.fingerprint
  · simp [handleExisting, hf, hres]
  · simp [handleExisting, hf, Ne.symm hf]

theorem handleExisting_running (r : Request) (key fingerprint : String) :
    handleExisting r.reservation key fingerprint =
      .error (if fingerprint = r.fingerprint then idempotencyKeyInProgressError key
        else idempotencyKeyReusedError key) := by
  by_cases hf : fingerprint = r.fingerprint
  · simp [handleExisting, Request.reservation, hf]
  · simp [handleExisting, Request.reservation, hf, Ne.symm hf]

theorem reserve_while_running (hh : Lease.Honest s.table) (hi : s.reqs[i]? = some ⟨r, p⟩)
    (hd : p.deadline = some d) (hj : s.reqs[j]? = some ⟨r', .arrived⟩)
    (hkey : r'.fullKey = r.fullKey) (hok : InTime s (.reserve j now now'))
    (hstep : s.step ttl cfg (.reserve j now now') = some s') :
    s'.reqs[j]? = some ⟨r', .answered (.error
      (if r'.fingerprint = r.fingerprint then idempotencyKeyInProgressError r'.key
        else idempotencyKeyReusedError r'.key))⟩ := by
  have hlt : now' < d := hok now' rfl _ (mem_of_getElem? hi) d hd
  rw [← handleExisting_running]
  exact reserve_answers hh hi (Handling.claim_of_deadline hd) hj hkey (·.trans_lt hlt) hstep

theorem reserve_after_stored (hh : Lease.Honest s.table) (hsh : Shaped s.reqs)
    (hi : s.reqs[i]? = some ⟨r, .stored record e⟩) (hj : s.reqs[j]? = some ⟨r', .arrived⟩)
    (hkey : r'.fullKey = r.fullKey) (hlt : now < e)
    (hstep : s.step ttl cfg (.reserve j now now') = some s') :
    ∃ stored, record.response = some stored ∧
      s'.reqs[j]? = some ⟨r', .answered
        (if r'.fingerprint = r.fingerprint then .sent (sendStored stored r'.key)
          else .error (idempotencyKeyReusedError r'.key))⟩ := by
  obtain ⟨hfp, stored, hres⟩ := hsh i r _ hi record rfl
  refine ⟨stored, hres, ?_⟩
  rw [← hfp, ← handleExisting_finished hres]
  exact reserve_answers hh hi rfl hj hkey (fun _ => hlt) hstep

/-- A request is replayed only what a request of its key and fingerprint stored. -/
theorem replay_source {messages : List Message} (hsh : Shaped s.reqs) (hso : Sourced s)
    (hj : s.reqs[j]? = some ⟨r', .arrived⟩) (hstep : s.step ttl cfg (.reserve j now now') = some s')
    (hans : s'.reqs[j]? = some ⟨r', .answered (.sent messages)⟩) :
    ∃ (i : ℕ) (r : Request) (record : IdempotencyRecord) (e : Time) (stored : StoredResponse),
      s.reqs[i]? = some ⟨r, .stored record e⟩ ∧ r.fullKey = r'.fullKey ∧
      r.fingerprint = r'.fingerprint ∧ record.response = some stored ∧
      messages = sendStored stored r'.key := by
  cases step_move hstep with
  | @reserve _ r₁ _ _ hi _ _ =>
    obtain rfl : r₁ = r' := by simpa using (hj.symm.trans hi).symm
    have hlen := lt_of_getElem? hj
    rcases s.reserve_cases ttl j r₁ now now' with
      ⟨record, e, hlook, -, e'⟩ | ⟨-, m', -, -, e'⟩ <;>
      rw [e'] at hans <;> have hself := (getElem?_set_self hlen).symm.trans hans
    · have hex : handleExisting record r₁.key r₁.fingerprint = .sent messages := by
        simpa using hself
      unfold handleExisting at hex
      split at hex
      · cases hex
      rename_i hfp
      split at hex
      · cases hex
      rename_i stored hres
      obtain ⟨i, r, hr, hk⟩ := hso _ record e hlook (by simp [hres])
      refine ⟨i, r, record, e, stored, hr, hk, ?_, hres, by simpa using hex.symm⟩
      rw [← (hsh i r _ hr record rfl).1]
      exact not_not.mp hfp
    · cases hself
  | progress ha => cases ha

/-- **Requests of one key execute at most once**, as long as executions end in time. No two
    executions of a key run at once. A request that meets one running gets the 409, or the
    422 if it is a different request. From the moment an execution stores its response until
    the record's lifetime is over, every request of the key is answered that response, or
    the 422. And nobody is ever replayed the response of a different request. -/
theorem executes_at_most_once (hrun : Run (Sys.step ttl cfg) InTime {} s) :
    (∀ (i j : ℕ) (x y : Handling), s.reqs[i]? = some x → s.reqs[j]? = some y →
      x.phase.deadline ≠ none → y.phase.deadline ≠ none →
      x.request.fullKey = y.request.fullKey → i = j) ∧
    (∀ (i j : ℕ) (r r' : Request) (p : Phase) (now now' : Time) (s' : Sys),
      s.reqs[i]? = some ⟨r, p⟩ → p.deadline ≠ none → s.reqs[j]? = some ⟨r', .arrived⟩ →
      r'.fullKey = r.fullKey → InTime s (.reserve j now now') →
      s.step ttl cfg (.reserve j now now') = some s' →
      s'.reqs[j]? = some ⟨r', .answered (.error
        (if r'.fingerprint = r.fingerprint then idempotencyKeyInProgressError r'.key
          else idempotencyKeyReusedError r'.key))⟩) ∧
    (∀ (i j : ℕ) (r r' : Request) (record : IdempotencyRecord) (d now t t' : Time)
        (s₁ u u' : Sys),
      s.reqs[i]? = some ⟨r, .finishing (.complete record) d⟩ → InTime s (.settle i now) →
      s.step ttl cfg (.settle i now) = some s₁ → Run (Sys.step ttl cfg) InTime s₁ u →
      u.reqs[j]? = some ⟨r', .arrived⟩ → r'.fullKey = r.fullKey → t < now + ttl.record →
      u.step ttl cfg (.reserve j t t') = some u' →
      ∃ stored, record.response = some stored ∧
        u'.reqs[j]? = some ⟨r', .answered
          (if r'.fingerprint = r.fingerprint then .sent (sendStored stored r'.key)
            else .error (idempotencyKeyReusedError r'.key))⟩) ∧
    (∀ (j : ℕ) (r' : Request) (now now' : Time) (s' : Sys) (messages : List Message),
      s.reqs[j]? = some ⟨r', .arrived⟩ → s.step ttl cfg (.reserve j now now') = some s' →
      s'.reqs[j]? = some ⟨r', .answered (.sent messages)⟩ →
      ∃ (i : ℕ) (r : Request) (record : IdempotencyRecord) (e : Time) (stored : StoredResponse),
        s.reqs[i]? = some ⟨r, .stored record e⟩ ∧ r.fullKey = r'.fullKey ∧
        r.fingerprint = r'.fingerprint ∧ record.response = some stored ∧
        messages = sendStored stored r'.key) := by
  have hh := honest_of_inTime hrun
  refine ⟨solo_of_run hrun, ?_, ?_, ?_⟩
  · intro i j r r' p now now' s' hi hp hj hkey hok hstep
    obtain ⟨d, hd⟩ := Option.ne_none_iff_exists'.mp hp
    exact reserve_while_running hh hi hd hj hkey hok hstep
  · intro i j r r' record d now t t' s₁ u u' hi hok hset hrun' hj hkey hlt hstep
    have hrun₁ := hrun.snoc hok hset
    -- the step has stored the response, and stored it stays to the end of the run
    have hstored : s₁.reqs[i]? = some ⟨r, .stored record (now + ttl.record)⟩ := by
      cases step_move hset with
      | @settle _ r₁ op d₁ _ hi₁ _ =>
        obtain ⟨rfl, rfl, rfl⟩ : r₁ = r ∧ op = .complete record ∧ d₁ = d := by
          simpa using (hi.symm.trans hi₁).symm
        exact getElem?_set_at hi
      | progress ha => cases ha
    have hrun₂ := hrun₁.trans hrun'
    exact reserve_after_stored (honest_of_inTime hrun₂) (shaped_of_run hrun₂)
      (stored_run hrun' hstored) hj hkey hlt hstep
  · intro j r' now now' s' messages hj hstep hans
    exact replay_source (shaped_of_run hrun) (sourced_of_run hrun) hj hstep hans

/-- Two requests of one key and different fingerprints, the first executing: the second is
    refused with the 422. -/
theorem executes_at_most_once_second_request :
    ∃ s s' : Sys,
      Run (Sys.step {} {}) InTime {} s ∧ s.step {} {} (.reserve 1 1 1) = some s' ∧
      s'.reqs[1]? = some ⟨⟨"anon:k", "k", "b"⟩,
        .answered (.error (idempotencyKeyReusedError "k"))⟩ := by
  let r : Request := ⟨"anon:k", "k", "a"⟩
  let r' : Request := ⟨"anon:k", "k", "b"⟩
  obtain ⟨s, s', hrun, hstep, hfirst, hsecond, htime⟩ : ∃ s s' : Sys, Run (Sys.step {} {}) InTime {} s ∧
      s.step {} {} (.reserve 1 1 1) = some s' ∧ s.reqs[0]? = some ⟨r, .executing {} 60⟩ ∧
      s.reqs[1]? = some ⟨r', .arrived⟩ ∧ InTime s (.reserve 1 1 1) :=
    Run.exists_step_of_replay [.arrive r, .reserve 0 0 0, .arrive r'] (by decide +kernel)
  exact ⟨s, s', hrun, hstep, (executes_at_most_once hrun).2.1 0 1 r r' (.executing {} 60) 1 1 s'
    hfirst (by simp [Phase.deadline]) hsecond rfl htime hstep⟩

end Idempotency
