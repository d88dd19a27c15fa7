import FastapiBoilerplate.Idempotency.Memory
import FastapiBoilerplate.Idempotency.Request
import FastapiBoilerplate.Tenancy.Resolver

/-!
# Which requests can tell that another was made

What a keyed request is answered depends on the entry under its own storage key and on nothing
else in the store, so on the steps of the requests that share the key: `along_agree` takes the
steps of all the others out of a run. A storage key is a credential's digest and the client's key
(`fullKey_eq_iff`), and the tenant is in neither. Two tenants' requests are kept apart when they
bring different credentials, which they do when both tenants were read from tokens, and share their
records when the tenant came from the header and the credential is the same, or missing
(`idempotency_scoped_iff`).
-/

namespace Idempotency

open Lib List Option

variable {ttl : Ttl} {cfg : IdempotencyConfig} {s s' t u : Sys} {a : Action} {i j : ℕ}
  {key : String}

/-! ## What a step reads and what it leaves -/

/-- The request that takes an action. -/
def Action.actor : Action → Option ℕ
  | .arrive _ => none
  | .reserve i _ _ => some i
  | .send i _ => some i
  | .appReturns i => some i
  | .appRaises i => some i
  | .settle i _ => some i
  | .abandon i => some i

/-- The storage key of request `i`. -/
def Sys.keyOf (s : Sys) (i : ℕ) : Option String := s.reqs[i]?.map (·.request.fullKey)

/-- A step of request `i` moves it from one phase to another and touches its own entry only, and
    any state with the same phase, the same entry and no later clock answers it alike. -/
structure Step (ttl : Ttl) (cfg : IdempotencyConfig) (a : Action) (i : ℕ) (s s' : Sys) (r : Request)
    (p p' : Phase) : Prop where
  before : s.reqs[i]? = some ⟨r, p⟩
  after : s'.reqs = s.reqs.set i ⟨r, p'⟩
  clock : s.clock ≤ s'.clock
  others : ∀ key ≠ r.fullKey, s'.store.lookup key = s.store.lookup key
  alike : ∀ t : Sys, t.reqs[i]? = some ⟨r, p⟩ → t.clock ≤ s.clock →
    t.store.lookup r.fullKey = s.store.lookup r.fullKey →
    ∃ t', t.step ttl cfg a = some t' ∧ t'.reqs = t.reqs.set i ⟨r, p'⟩ ∧ t'.clock ≤ s'.clock ∧
      t'.store.lookup r.fullKey = s'.store.lookup r.fullKey

theorem Step.of_setPhase {r : Request} {p p' : Phase} (hi : s.reqs[i]? = some ⟨r, p⟩)
    (hstep : ∀ t : Sys, t.reqs[i]? = some ⟨r, p⟩ → t.step ttl cfg a = some (t.setPhase i r p')) :
    Step ttl cfg a i s (s.setPhase i r p') r p p' where
  before := hi
  after := rfl
  clock := le_refl _
  others _ _ := rfl
  alike t ht hclock hstore := ⟨_, hstep t ht, rfl, hclock, hstore⟩

theorem Step.reserve {r : Request} {now now' : Time} (hi : s.reqs[i]? = some ⟨r, .arrived⟩)
    (hnow : s.clock ≤ now) (hnow' : now ≤ now') :
    ∃ p', Step ttl cfg (.reserve i now now') i s (s.reserve ttl i r now now') r .arrived p' := by
  have hstep : ∀ t : Sys, t.reqs[i]? = some ⟨r, .arrived⟩ → t.clock ≤ s.clock →
      t.step ttl cfg (.reserve i now now') = some (t.reserve ttl i r now now') := by
    intro t ht hclock
    simp only [Sys.step, ht]
    exact if_pos ⟨hclock.trans hnow, hnow'⟩
  rcases s.reserve_cases ttl i r now now' with ⟨record, expires, hfound, hlt, hs⟩ |
      ⟨hfree, m, hkey, hothers, hs⟩
  · refine ⟨.answered (handleExisting record r.key r.fingerprint), hi, ?_, ?_, ?_, ?_⟩
    · rw [hs]
      rfl
    · rw [hs]
      exact hnow.trans hnow'
    · intro key _
      rw [hs]
      rfl
    intro t ht hclock hstore
    refine ⟨_, hstep t ht hclock, ?_⟩
    rcases t.reserve_cases ttl i r now now' with ⟨record', expires', hfound', -, ht'⟩ |
        ⟨hfree', -, -, -, -⟩
    · obtain ⟨rfl, rfl⟩ : record' = record ∧ expires' = expires := by
        simpa using hfound'.symm.trans (hstore.trans hfound)
      rw [ht', hs]
      exact ⟨rfl, le_refl _, hstore⟩
    · exact absurd (hfree' _ (hstore.trans hfound)) (not_le.mpr hlt)
  · refine ⟨.executing {} (now' + ttl.reservation), hi, ?_, ?_, ?_, ?_⟩
    · rw [hs]
      rfl
    · rw [hs]
      exact hnow.trans hnow'
    · intro key hne
      rw [hs]
      exact hothers key hne
    · intro t ht hclock hstore
      refine ⟨_, hstep t ht hclock, ?_⟩
      rcases t.reserve_cases ttl i r now now' with ⟨record', expires', hfound', hlt', -⟩ |
          ⟨-, m', hkey', -, ht'⟩
      · exact absurd (hfree _ (hstore.symm.trans hfound')) (not_le.mpr hlt')
      · rw [ht', hs]
        exact ⟨rfl, le_refl _, hkey'.trans hkey.symm⟩

theorem Step.settle {r : Request} {op : StoreOp} {d now : Time}
    (hi : s.reqs[i]? = some ⟨r, .finishing op d⟩) (hnow : s.clock ≤ now) :
    ∃ p', Step ttl cfg (.settle i now) i s (s.settle ttl i r op now) r (.finishing op d) p' := by
  have hstep : ∀ t : Sys, t.reqs[i]? = some ⟨r, .finishing op d⟩ → t.clock ≤ s.clock →
      t.step ttl cfg (.settle i now) = some (t.settle ttl i r op now) := by
    intro t ht hclock
    simp only [Sys.step, ht]
    exact if_pos (hclock.trans hnow)
  cases op with
  | release =>
    refine ⟨.released, hi, rfl, hnow, ?_, ?_⟩
    · exact fun key hne => AList.lookup_erase_ne hne
    intro t ht hclock hstore
    refine ⟨_, hstep t ht hclock, rfl, le_refl _, ?_⟩
    show (t.store.erase r.fullKey).lookup _ = (s.store.erase r.fullKey).lookup _
    rw [AList.lookup_erase, AList.lookup_erase]
  | complete record =>
    refine ⟨.stored record (now + ttl.record), hi, rfl, hnow, ?_, ?_⟩
    · exact fun key hne => AList.lookup_insert_ne hne
    intro t ht hclock hstore
    refine ⟨_, hstep t ht hclock, rfl, le_refl _, ?_⟩
    show (t.store.insert r.fullKey _).lookup _ = (s.store.insert r.fullKey _).lookup _
    rw [AList.lookup_insert, AList.lookup_insert]

theorem step_spec (hactor : a.actor = some i) (h : s.step ttl cfg a = some s') :
    ∃ r p p', Step ttl cfg a i s s' r p p' := by
  cases a with
  | arrive => cases hactor
  | reserve =>
    cases hactor
    cases step_move h with
    | reserve hi hnow hnow' =>
      obtain ⟨p', hp'⟩ := Step.reserve hi hnow hnow'
      exact ⟨_, _, p', hp'⟩
    | progress ha => cases ha
  | settle =>
    cases hactor
    cases step_move h with
    | settle hi hnow =>
      obtain ⟨p', hp'⟩ := Step.settle hi hnow
      exact ⟨_, _, p', hp'⟩
    | progress ha => cases ha
  | send | appReturns | appRaises | abandon =>
    cases hactor
    simp only [Sys.step] at h
    split at h <;> cases h
    rename_i hi
    exact ⟨_, _, _, .of_setPhase hi fun t ht => by simp only [Sys.step, ht]⟩

/-! ## Runs without the other keys -/

/-- Two states agree on a key: on the requests that use it and on its entry. -/
structure Agree (key : String) (s t : Sys) : Prop where
  length : t.reqs.length = s.reqs.length
  reqs : ∀ i, s.keyOf i = some key → t.reqs[i]? = s.reqs[i]?
  clock : t.clock ≤ s.clock
  store : t.store.lookup key = s.store.lookup key

theorem Agree.refl (key : String) (s : Sys) : Agree key s s := ⟨rfl, fun _ _ => rfl, le_refl _, rfl⟩

variable {r : Request} {p p' : Phase}

theorem Step.keyOf (h : Step ttl cfg a i s s' r p p') : s.keyOf i = some r.fullKey := by
  simp [Sys.keyOf, h.before]

theorem Step.keyOf_eq (h : Step ttl cfg a i s s' r p p') (k : ℕ) : s'.keyOf k = s.keyOf k := by
  unfold Sys.keyOf
  rw [h.after]
  by_cases hk : i = k
  · subst hk
    obtain ⟨hlt, -⟩ := List.getElem?_eq_some_iff.mp h.before
    rw [getElem?_set_self hlt, h.before]
    rfl
  · rw [getElem?_set_ne hk]

theorem Agree.step_same (h : Agree r.fullKey s t) (hstep : Step ttl cfg a i s s' r p p') :
    ∃ t', t.step ttl cfg a = some t' ∧ Agree r.fullKey s' t' := by
  have ht : t.reqs[i]? = some ⟨r, p⟩ := (h.reqs i hstep.keyOf).trans hstep.before
  obtain ⟨t', hnext, hreqs, hclock, hstore⟩ := hstep.alike t ht h.clock h.store
  refine ⟨t', hnext, ?_, ?_, hclock, hstore⟩
  · rw [hreqs, hstep.after, length_set, length_set, h.length]
  intro k hk
  rw [hstep.keyOf_eq k] at hk
  rw [hreqs, hstep.after]
  by_cases hik : i = k
  · subst hik
    have hlt := lt_of_getElem? ht
    rw [getElem?_set_self hlt, getElem?_set_self (h.length ▸ hlt)]
  · rw [getElem?_set_ne hik, getElem?_set_ne hik, h.reqs k hk]

theorem Agree.step_other (h : Agree key s t) (hstep : Step ttl cfg a i s s' r p p')
    (hne : r.fullKey ≠ key) : Agree key s' t := by
  refine ⟨?_, ?_, h.clock.trans hstep.clock, ?_⟩
  · rw [hstep.after, length_set, h.length]
  · intro k hk
    rw [hstep.keyOf_eq k] at hk
    have hik : i ≠ k := by
      rintro rfl
      exact hne (some.inj (hstep.keyOf.symm.trans hk))
    rw [hstep.after, getElem?_set_ne hik, h.reqs k hk]
  · rw [hstep.others key hne.symm, h.store]

theorem keyOf_arrive {k : ℕ} {key : String} (h : s.keyOf k = some key) (new : Handling) :
    ({ s with reqs := s.reqs ++ [new] } : Sys).keyOf k = some key := by
  obtain ⟨x, hx, -⟩ := map_eq_some_iff.mp h
  have hlt := lt_of_getElem? hx
  simpa [Sys.keyOf, getElem?_append_left hlt] using h

theorem Agree.arrive (h : Agree key s t) (new : Handling) :
    Agree key { s with reqs := s.reqs ++ [new] } { t with reqs := t.reqs ++ [new] } := by
  refine ⟨by simp [h.length], ?_, h.clock, h.store⟩
  intro k hk
  by_cases hlt : k < s.reqs.length
  · have hlt' : k < t.reqs.length := h.length ▸ hlt
    simp only [Sys.keyOf, getElem?_append_left hlt] at hk
    simp only [getElem?_append_left hlt, getElem?_append_left hlt', h.reqs k hk]
  · have hge : s.reqs.length ≤ k := not_lt.mp hlt
    have hge' : t.reqs.length ≤ k := h.length ▸ hge
    simp only [getElem?_append_right hge, getElem?_append_right hge', h.length]

theorem keyOf_run {k : ℕ} (hrun : Run (Sys.step ttl cfg) Always s u) (h : s.keyOf k = some key) :
    u.keyOf k = some key := by
  apply hrun.invariant ?_ h
  intro t t' a ht _ hstep
  cases hactor : a.actor with
  | none =>
    cases a with
    | arrive =>
      cases hstep
      exact keyOf_arrive ht _
    | _ => cases hactor
  | some =>
    obtain ⟨r, p, p', hspec⟩ := step_spec hactor hstep
    exact (hspec.keyOf_eq k).trans ht

/-- **A run without the steps of other keys.** From states that agree on a key, a run can be
    followed with the same steps of the requests under the key and none of those under others. -/
theorem along_agree {actions : List Action} (h : Along (Sys.step ttl cfg) Always s actions u)
    (hagree : Agree key s t) :
    ∃ actions' u', Along (Sys.step ttl cfg) Always t actions' u' ∧ Agree key u u' ∧
      (∀ i, s.keyOf i = some key →
        actions'.filter (·.actor = some i) = actions.filter (·.actor = some i)) ∧
      ∀ j other, s.keyOf j = some other → other ≠ key → ∀ a ∈ actions', a.actor ≠ some j := by
  induction h generalizing t with
  | nil => exact ⟨[], t, .nil t, hagree, fun _ _ => rfl, by simp⟩
  | @cons s s₁ u a actions _ next rest ih =>
    cases hactor : a.actor with
    | none =>
      cases a with
      | arrive new =>
        cases next
        obtain ⟨actions', u', hrun, hend, hsame, hnone⟩ := ih (hagree.arrive ⟨new, .arrived⟩)
        refine ⟨.arrive new :: actions', u', .cons trivial rfl hrun, hend, ?_, ?_⟩
        · intro i hi
          simp [hactor, hsame i (keyOf_arrive hi _)]
        · intro j other hj hne a ha
          rcases mem_cons.mp ha with rfl | ha
          · simp [hactor]
          · exact hnone j other (keyOf_arrive hj _) hne a ha
      | _ => cases hactor
    | some k =>
      obtain ⟨r, p, p', hstep⟩ := step_spec hactor next
      by_cases hkey : r.fullKey = key
      · subst hkey
        -- a step under the key is taken on the other side as well
        obtain ⟨t₁, hnext, hagree₁⟩ := hagree.step_same hstep
        obtain ⟨actions', u', hrun, hend, hsame, hnone⟩ := ih hagree₁
        refine ⟨a :: actions', u', .cons trivial hnext hrun, hend, ?_, ?_⟩
        · intro i hi
          rw [← hstep.keyOf_eq i] at hi
          simp only [filter_cons, hsame i hi]
        intro j other hj hne b hb
        rcases mem_cons.mp hb with rfl | hb
        · rintro hb
          obtain rfl : k = j := some.inj (hactor.symm.trans hb)
          exact hne (some.inj (hj.symm.trans hstep.keyOf))
        · exact hnone j other ((hstep.keyOf_eq j).trans hj) hne b hb
      -- a step under another key is left out, and what the key sees stays as it was
      · obtain ⟨actions', u', hrun, hend, hsame, hnone⟩ := ih (hagree.step_other hstep hkey)
        refine ⟨actions', u', hrun, hend, ?_, ?_⟩
        · intro i hi
          have hik : k ≠ i := by
            rintro rfl
            exact hkey (some.inj (hstep.keyOf.symm.trans hi))
          rw [← hstep.keyOf_eq i] at hi
          rw [hsame i hi, filter_cons_of_neg]
          simpa [hactor] using hik
        · intro j other hj hne b hb
          exact hnone j other ((hstep.keyOf_eq j).trans hj) hne b hb

/-- Whatever happens from `s`, request `i` can take the same steps, and come to the same end, when
    request `j` takes none. -/
def Unaffected (ttl : Ttl) (cfg : IdempotencyConfig) (s : Sys) (i j : ℕ) : Prop :=
  ∀ actions u, Along (Sys.step ttl cfg) Always s actions u →
    ∃ actions' u', Along (Sys.step ttl cfg) Always s actions' u' ∧
      (∀ a ∈ actions', a.actor ≠ some j) ∧
      actions'.filter (·.actor = some i) = actions.filter (·.actor = some i) ∧
      u'.reqs[i]? = u.reqs[i]?

theorem unaffected_of_keys {key other : String} (hi : s.keyOf i = some key)
    (hj : s.keyOf j = some other) (hne : other ≠ key) : Unaffected ttl cfg s i j := by
  intro actions u hrun
  obtain ⟨actions', u', hrun', hend, hsame, hnone⟩ := along_agree hrun (Agree.refl key s)
  refine ⟨actions', u', hrun', hnone j other hj hne, hsame i hi, ?_⟩
  exact hend.reqs i (keyOf_run hrun.run hi)

/-! ## Two tenants -/

/-- An HTTP request's ASGI scope. -/
def HttpRequest.scope (q : HttpRequest) : Tenancy.Scope := { type := .http, headers := q.headers }

/-- Two requests have nothing of each other's records: their storage keys differ, and in any state
    of the store and among any other requests, neither's course depends on the other. -/
def Apart (ttl : Ttl) (cfg : IdempotencyConfig) (sha256 : Bytes → BitVec 256)
    (policy : RequestPolicy) (q₁ q₂ : HttpRequest) : Prop :=
  ∀ r₁ r₂, prologue sha256 policy q₁ = .keyed r₁ → prologue sha256 policy q₂ = .keyed r₂ →
    r₁.fullKey ≠ r₂.fullKey ∧
    ∀ s i j, s.reqs[i]? = some ⟨r₁, .arrived⟩ → s.reqs[j]? = some ⟨r₂, .arrived⟩ →
      Unaffected ttl cfg s i j ∧ Unaffected ttl cfg s j i

variable {sha256 : Bytes → BitVec 256} {policy : RequestPolicy} {q₁ q₂ : HttpRequest}

theorem apart_iff (hdigest : NoCollision sha256 q₁ q₂) :
    Apart ttl cfg sha256 policy q₁ q₂ ↔
      ¬ (Keyed policy q₁ ∧ Keyed policy q₂ ∧ q₁.credential = q₂.credential ∧
        q₁.header "Idempotency-Key" = q₂.header "Idempotency-Key") := by
  constructor
  · rintro hapart ⟨hkeyed₁, hkeyed₂, hsame⟩
    obtain ⟨r₁, h₁⟩ := prologue_of_keyed sha256 hkeyed₁
    obtain ⟨r₂, h₂⟩ := prologue_of_keyed sha256 hkeyed₂
    exact (hapart r₁ r₂ h₁ h₂).1 ((fullKey_eq_iff h₁ h₂ hdigest).mpr hsame)
  · intro hcondition r₁ r₂ h₁ h₂
    have hne : r₁.fullKey ≠ r₂.fullKey := by
      intro heq
      exact hcondition ⟨(keyed_of_prologue h₁).1, (keyed_of_prologue h₂).1,
        (fullKey_eq_iff h₁ h₂ hdigest).mp heq⟩
    refine ⟨hne, ?_⟩
    intro s i j hi hj
    have hkey₁ : s.keyOf i = some r₁.fullKey := by simp [Sys.keyOf, hi]
    have hkey₂ : s.keyOf j = some r₂.fullKey := by simp [Sys.keyOf, hj]
    exact ⟨unaffected_of_keys hkey₁ hkey₂ hne.symm, unaffected_of_keys hkey₂ hkey₁ hne⟩

/-! Tokens that name different tenants are different credentials. -/

theorem decodeLatin1_injective : Function.Injective decodeLatin1 := by
  have hnat (z : UInt8) : (Char.ofNat z.toNat).toNat = z.toNat := by
    have hvalid : z.toNat.isValidChar := Or.inl (by have := z.toNat_lt; omega)
    rw [Char.ofNat, dif_pos hvalid]
    rfl
  have hchar : Function.Injective fun z : UInt8 => Char.ofNat z.toNat := by
    intro x y hxy
    apply UInt8.toNat_inj.mp
    rw [← hnat x, ← hnat y]
    exact congrArg Char.toNat hxy
  intro a b h
  apply map_injective_iff.mpr hchar
  simpa [decodeLatin1] using congrArg String.toList h

/-- The bytes of a credential. -/
def HttpRequest.rawCredential (q : HttpRequest) : Option Octets :=
  (q.headers.getRaw "authorization").filter fun bytes => !bytes.isEmpty

theorem credential_eq_map (q : HttpRequest) : q.credential = q.rawCredential.map decodeLatin1 := by
  unfold HttpRequest.credential HttpRequest.rawCredential HttpRequest.header
  cases q.headers.getRaw "authorization" with
  | none => rfl
  | some bytes =>
    cases bytes with
    | nil => rfl
    | cons b bytes =>
      have hempty : (decodeLatin1 (b :: bytes)).isEmpty = false := by
        simp [decodeLatin1]
      simp [Option.filter, hempty]

theorem bearerToken_eq_raw (q : HttpRequest) :
    Tenancy.bearerToken (q.headers.get "authorization") =
      Tenancy.bearerToken (q.rawCredential.map latin1) := by
  unfold HttpRequest.rawCredential RawHeaders.get
  cases q.headers.getRaw "authorization" with
  | none => rfl
  | some bytes =>
    cases bytes with
    | nil => rfl
    | cons => rfl

theorem bearerToken_eq_of_credential (h : q₁.credential = q₂.credential) :
    Tenancy.bearerToken (q₁.headers.get "authorization") =
      Tenancy.bearerToken (q₂.headers.get "authorization") := by
  rw [credential_eq_map, credential_eq_map] at h
  have hraw := map_injective decodeLatin1_injective h
  rw [bearerToken_eq_raw, bearerToken_eq_raw, hraw]

variable {φ δ : Type} {tenancy : Tenancy.Config} {lib : Auth.TokenLibrary φ δ} {now now₁ now₂ : ℤ}
  {tenant tenant₁ tenant₂ : UUID} {source₁ source₂ : Tenancy.TenantSource}

theorem credential_ne_of_tokens (h₁ : tenancy.resolve lib now q₁.scope = .ok ⟨some tenant₁, .token⟩)
    (h₂ : tenancy.resolve lib now q₂.scope = .ok ⟨some tenant₂, .token⟩) (hne : tenant₁ ≠ tenant₂) :
    q₁.credential ≠ q₂.credential := by
  intro hsame
  have hfrom₁ := Tenancy.tenantFromToken_of_resolve h₁
  have hfrom₂ := Tenancy.tenantFromToken_of_resolve h₂
  have hbearer : Tenancy.bearerToken (q₁.scope.headers.get "authorization") =
      Tenancy.bearerToken (q₂.scope.headers.get "authorization") :=
    bearerToken_eq_of_credential hsame
  rw [hbearer, hfrom₂] at hfrom₁
  exact hne (by simpa using hfrom₁.symm)

/-- **The records of two tenants' requests are kept apart if and only if** the requests are not both
    keyed under the same key with the same credential, or none. When both tenants were read from
    tokens, at the same time, the credentials differ. -/
theorem idempotency_scoped_iff
    (h₁ : tenancy.resolve lib now₁ q₁.scope = .ok ⟨some tenant₁, source₁⟩)
    (h₂ : tenancy.resolve lib now₂ q₂.scope = .ok ⟨some tenant₂, source₂⟩)
    (hne : tenant₁ ≠ tenant₂) (hdigest : NoCollision sha256 q₁ q₂) :
    (Apart ttl cfg sha256 policy q₁ q₂ ↔
      ¬ (Keyed policy q₁ ∧ Keyed policy q₂ ∧ q₁.credential = q₂.credential ∧
        q₁.header "Idempotency-Key" = q₂.header "Idempotency-Key")) ∧
    (source₁ = .token → source₂ = .token → now₁ = now₂ →
      Apart ttl cfg sha256 policy q₁ q₂) := by
  refine ⟨apart_iff hdigest, ?_⟩
  rintro rfl rfl rfl
  apply (apart_iff hdigest).mpr
  rintro ⟨-, -, hsame, -⟩
  exact credential_ne_of_tokens h₁ h₂ hne hsame

/-- A keyed request to the header's tenant, without a credential. -/
def anonymous (tenant : UUID) : HttpRequest where
  method := "POST"
  path := "/api/v1/orders"
  headers := [(headerName "idempotency-key", encode "k"),
    (headerName "x-tenant-id", (UUID.str tenant).map fun c => UInt8.ofNat c.val)]
  received := [.request [] false]

theorem idempotency_scoped_iff_headers :
    Tenancy.Config.resolve {} (⟨fun _ _ => none, fun _ => none⟩ : Auth.TokenLibrary Empty Empty) 0
        (anonymous 1).scope = .ok ⟨some 1, .header⟩ ∧
    ((Apart {} {} (fun _ => 0) {} (anonymous 1) (anonymous 2) ↔
      ¬ (Keyed {} (anonymous 1) ∧ Keyed {} (anonymous 2) ∧
        (anonymous 1).credential = (anonymous 2).credential ∧
        (anonymous 1).header "Idempotency-Key" = (anonymous 2).header "Idempotency-Key")) ∧
    (Tenancy.TenantSource.header = .token → Tenancy.TenantSource.header = .token → (0 : ℤ) = 0 →
      Apart {} {} (fun _ => 0) {} (anonymous 1) (anonymous 2))) := by
  have h₁ : Tenancy.Config.resolve {}
      (⟨fun _ _ => none, fun _ => none⟩ : Auth.TokenLibrary Empty Empty) 0
      (anonymous 1).scope = .ok ⟨some 1, .header⟩ := by decide +kernel
  have h₂ : Tenancy.Config.resolve {}
      (⟨fun _ _ => none, fun _ => none⟩ : Auth.TokenLibrary Empty Empty) 0
      (anonymous 2).scope = .ok ⟨some 2, .header⟩ := by decide +kernel
  refine ⟨h₁, idempotency_scoped_iff h₁ h₂ (by decide) ?_⟩
  have hnone : (anonymous 1).credential = none := by decide +kernel
  intro a ha
  rw [hnone] at ha
  cases ha

/-- Two tenants, no credential, one key: the second tenant's request is answered with the response
    that was made for the first. -/
theorem replay_crosses_tenants :
    Tenancy.Config.resolve {} (⟨fun _ _ => none, fun _ => none⟩ : Auth.TokenLibrary Empty Empty) 0
        (anonymous 1).scope = .ok ⟨some 1, .header⟩ ∧
    Tenancy.Config.resolve {} (⟨fun _ _ => none, fun _ => none⟩ : Auth.TokenLibrary Empty Empty) 0
        (anonymous 2).scope = .ok ⟨some 2, .header⟩ ∧
    ¬ Apart {} {} (fun _ => 0) {} (anonymous 1) (anonymous 2) ∧
    ∃ r, prologue (fun _ => 0) {} (anonymous 1) = .keyed r ∧
      prologue (fun _ => 0) {} (anonymous 2) = .keyed r ∧
      ∃ s, Along (Sys.step {} {}) Always {}
        [.arrive r, .arrive r, .reserve 0 0 0, .send 0 (.responseStart 201 []),
          .send 0 (.responseBody [7] false), .appReturns 0, .settle 0 0, .reserve 1 1 1] s ∧
        s.reqs[1]? = some ⟨r, .answered (.sent (sendStored ⟨201, [], [7]⟩ "k"))⟩ := by
  let r : Request := ⟨"anon:k", "k", hexdigest 0⟩
  have hr₁ : prologue (fun _ => 0) {} (anonymous 1) = .keyed r := by decide +kernel
  have hr₂ : prologue (fun _ => 0) {} (anonymous 2) = .keyed r := by decide +kernel
  refine ⟨by decide +kernel, by decide +kernel, ?_, r, hr₁, hr₂,
    Along.exists_of_replay _ (by decide +kernel)⟩
  intro hapart
  exact (hapart r r hr₁ hr₂).1 rfl

end Idempotency
