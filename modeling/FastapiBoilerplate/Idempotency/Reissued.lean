import FastapiBoilerplate.Idempotency.Tenants

/-!
# A retry with another token

`request_fingerprint` leaves the credential out: "a retry ... with ... a re-issued bearer token, is
still the same request". And it is: the two requests have one fingerprint
(`fingerprint_of_same`). But the record is looked up under the storage key first, and the storage
key is derived from the whole Authorization header. With a token that was issued again the lookup
finds nothing, and the app is executed a second time; the stored response is replayed exactly when
the digests of the two headers agree (`replays_iff`).
-/

namespace Idempotency

open Lib

variable {ttl : Ttl} {cfg : IdempotencyConfig} {sha256 : Bytes → BitVec 256}
  {policy : RequestPolicy} {q₁ q₂ : HttpRequest} {r₁ r₂ : Request} {s s' : Sys} {i j : ℕ}
  {now now' : Time}

/-! ## The same request -/

/-- The same request again, the credential apart. -/
structure SameRequest (policy : RequestPolicy) (q₁ q₂ : HttpRequest) : Prop where
  key : q₁.header "Idempotency-Key" = q₂.header "Idempotency-Key"
  method : q₁.method = q₂.method
  path : q₁.path = q₂.path
  query : q₁.query = q₂.query
  contentType : q₁.header "content-type" = q₂.header "content-type"
  body : bufferRequest policy.maxRequestBodyBytes [] q₁.received =
    bufferRequest policy.maxRequestBodyBytes [] q₂.received

/-- The Authorization header carries a valid access token of the account. -/
def Authorizes {φ δ : Type} (lib : Auth.TokenLibrary φ δ) (now : ℤ) (q : HttpRequest)
    (token : Text) (account : UUID) : Prop :=
  Tenancy.bearerToken (q.headers.get "authorization") = some token ∧
    ∃ claims, Auth.verifyAccessToken lib now token = .ok claims ∧ claims.subject = account

section

variable (hsame : SameRequest policy q₁ q₂) (h₁ : prologue sha256 policy q₁ = .keyed r₁)
  (h₂ : prologue sha256 policy q₂ = .keyed r₂)

include hsame h₁ h₂

theorem fingerprint_of_same : r₁.fingerprint = r₂.fingerprint := by
  obtain ⟨-, -, -, body₁, hbody₁, hprint₁⟩ := keyed_of_prologue h₁
  obtain ⟨-, -, -, body₂, hbody₂, hprint₂⟩ := keyed_of_prologue h₂
  obtain rfl : body₁ = body₂ := by
    simpa using hbody₁.symm.trans (hsame.body.trans hbody₂)
  rw [hprint₁, hprint₂, hsame.method, hsame.path, hsame.query, hsame.contentType]

theorem key_of_same : r₁.key = r₂.key := by
  obtain ⟨-, hkey₁, -⟩ := keyed_of_prologue h₁
  obtain ⟨-, hkey₂, -⟩ := keyed_of_prologue h₂
  exact Option.some.inj (hkey₁.symm.trans (hsame.key.trans hkey₂))

end

/-! ## The retry -/

/-- Request `i` has stored its response and the record is still there. -/
structure Stands (s : Sys) (i : ℕ) (r : Request) (stored : StoredResponse) (expires : Time) :
    Prop where
  phase : s.reqs[i]? = some ⟨r, .stored ⟨r.fingerprint, some stored⟩ expires⟩
  entry : s.store.lookup r.fullKey = some (⟨r.fingerprint, some stored⟩, expires)

/-- Whenever the second request turns to the store after the first has stored its response and
    before the record expires, it is answered with that response. -/
def Replays (ttl : Ttl) (cfg : IdempotencyConfig) (r₁ r₂ : Request) : Prop :=
  ∀ s i j stored expires now now' s', Run (Sys.step ttl cfg) Always {} s →
    Stands s i r₁ stored expires → s.reqs[j]? = some ⟨r₂, .arrived⟩ → now < expires →
    s.step ttl cfg (.reserve j now now') = some s' →
    s'.reqs[j]? = some ⟨r₂, .answered (.sent (sendStored stored r₂.key))⟩

theorem reserve_of_step (hj : s.reqs[j]? = some ⟨r₂, .arrived⟩)
    (h : s.step ttl cfg (.reserve j now now') = some s') : s' = s.reserve ttl j r₂ now now' := by
  simp only [Sys.step, hj] at h
  split at h
  · exact (Option.some.inj h).symm
  · cases h

theorem phase_setPhase {p p' : Phase} (hj : s.reqs[j]? = some ⟨r₂, p⟩) :
    (s.setPhase j r₂ p').reqs[j]? = some ⟨r₂, p'⟩ := by
  have hlt := lt_of_getElem? hj
  exact List.getElem?_set_self hlt

theorem replays_of_key (hkey : r₁.fullKey = r₂.fullKey) (hprint : r₁.fingerprint = r₂.fingerprint) :
    Replays ttl cfg r₁ r₂ := by
  intro s i j stored expires now now' s' _ hstands hj hlt hstep
  have hentry := hstands.entry
  rw [hkey, hprint] at hentry
  rw [reserve_of_step hj hstep]
  rcases s.reserve_cases ttl j r₂ now now' with ⟨record, expires', hfound, -, hs⟩ | ⟨hfree, -⟩
  · obtain ⟨rfl, -⟩ : record = ⟨r₂.fingerprint, some stored⟩ ∧ expires' = expires := by
      simpa using hfound.symm.trans hentry
    rw [hs]
    have hanswer : handleExisting ⟨r₂.fingerprint, some stored⟩ r₂.key r₂.fingerprint =
        .sent (sendStored stored r₂.key) := by
      simp [handleExisting]
    rw [hanswer]
    exact phase_setPhase hj
  · exact absurd (hfree _ hentry) (not_le.mpr hlt)

/-! ## The app runs again -/

/-- The first request comes, is executed and stores its response, and the second comes. -/
def retried (r₁ r₂ : Request) : List Action :=
  [.arrive r₁, .reserve 0 0 0, .send 0 (.responseStart 201 []), .send 0 (.responseBody [] false),
    .appReturns 0, .settle 0 0, .arrive r₂]

theorem step_reserve (hi : s.reqs[i]? = some ⟨r₁, .arrived⟩) (hnow : s.clock ≤ now)
    (hnow' : now ≤ now') :
    s.step ttl cfg (.reserve i now now') = some (s.reserve ttl i r₁ now now') := by
  simp only [Sys.step, hi]
  exact if_pos ⟨hnow, hnow'⟩

theorem step_settle {op : StoreOp} {d : Time} (hi : s.reqs[i]? = some ⟨r₁, .finishing op d⟩)
    (hnow : s.clock ≤ now) : s.step ttl cfg (.settle i now) = some (s.settle ttl i r₁ op now) := by
  simp only [Sys.step, hi]
  exact if_pos hnow

theorem exists_retried (ttl : Ttl) (cfg : IdempotencyConfig) (r₁ r₂ : Request) :
    ∃ s, Along (Sys.step ttl cfg) Always {} (retried r₁ r₂) s ∧
      Stands s 0 r₁ ⟨201, [], []⟩ (0 + ttl.record) ∧ s.reqs[1]? = some ⟨r₂, .arrived⟩ ∧
      s.clock = 0 ∧ ∀ key ≠ r₁.fullKey, s.store.lookup key = none := by
  let reserved : Memory := (∅ : Memory).insert r₁.fullKey (r₁.reservation, 0 + ttl.reservation)
  let record : IdempotencyRecord := ⟨r₁.fingerprint, some ⟨201, [], []⟩⟩
  refine ⟨{ store := reserved.complete ttl r₁.fullKey record 0
            reqs := [⟨r₁, .stored record (0 + ttl.record)⟩, ⟨r₂, .arrived⟩]
            writer := ((∅ : AList fun _ : String => ℕ).insert r₁.fullKey 0).insert r₁.fullKey 0 },
    ?_, ⟨rfl, AList.lookup_insert _⟩, rfl, rfl, ?_⟩
  · refine .cons trivial rfl (.cons trivial (step_reserve rfl (le_refl _) (le_refl _)) ?_)
    refine .cons trivial rfl (.cons trivial rfl (.cons trivial rfl ?_))
    exact .cons trivial (step_settle rfl (le_refl _)) (.cons trivial rfl (.nil _))
  · intro key hne
    show (AList.insert _ _ _).lookup key = none
    rw [AList.lookup_insert_ne hne, AList.lookup_insert_ne hne]
    rfl

theorem executes_of_key (ttl : Ttl) (cfg : IdempotencyConfig) (hne : r₁.fullKey ≠ r₂.fullKey) :
    ∃ s s', Along (Sys.step ttl cfg) Always {} (retried r₁ r₂) s ∧
      Stands s 0 r₁ ⟨201, [], []⟩ (0 + ttl.record) ∧ s.reqs[1]? = some ⟨r₂, .arrived⟩ ∧
      s.step ttl cfg (.reserve 1 0 0) = some s' ∧
      s'.reqs[1]? = some ⟨r₂, .executing {} (0 + ttl.reservation)⟩ := by
  obtain ⟨s, hrun, hstands, hj, hclock, hnone⟩ := exists_retried ttl cfg r₁ r₂
  refine ⟨s, s.reserve ttl 1 r₂ 0 0, hrun, hstands, hj,
    step_reserve hj hclock.le (le_refl _), ?_⟩
  rcases s.reserve_cases ttl 1 r₂ 0 0 with ⟨record, expires, hfound, -⟩ | ⟨-, m, -, -, hs⟩
  · rw [hnone r₂.fullKey hne.symm] at hfound
    cases hfound
  · rw [hs]
    exact phase_setPhase hj

theorem not_replays_of_key (hrecord : 0 < ttl.record) (hne : r₁.fullKey ≠ r₂.fullKey) :
    ¬ Replays ttl cfg r₁ r₂ := by
  intro h
  obtain ⟨s, s', hrun, hstands, hj, hstep, hexecuting⟩ := executes_of_key ttl cfg hne
  have hlt : 0 < 0 + ttl.record := by simpa using hrecord
  have hanswer := h s 0 1 _ _ 0 0 s' hrun.run hstands hj hlt hstep
  rw [hexecuting] at hanswer
  cases hanswer

/-- **A retry is answered from the record of the first attempt if and only if** the two Authorization
    headers have the same scope. Different tokens have different ones, unless their digests agree in
    the first half. -/
theorem replays_iff {φ δ : Type} {lib : Auth.TokenLibrary φ δ} {now₁ now₂ : ℤ} {account : UUID}
    {token₁ token₂ : Text} (hrecord : 0 < ttl.record) (hsame : SameRequest policy q₁ q₂)
    (h₁ : prologue sha256 policy q₁ = .keyed r₁) (h₂ : prologue sha256 policy q₂ = .keyed r₂)
    (hauth₁ : Authorizes lib now₁ q₁ token₁ account)
    (hauth₂ : Authorizes lib now₂ q₂ token₂ account) :
    (Replays ttl cfg r₁ r₂ ↔
      scopeFingerprint sha256 q₁.credential = scopeFingerprint sha256 q₂.credential) ∧
    (token₁ ≠ token₂ → NoCollision sha256 q₁ q₂ → ¬ Replays ttl cfg r₁ r₂) := by
  obtain ⟨-, -, hfull₁, -⟩ := keyed_of_prologue h₁
  obtain ⟨-, -, hfull₂, -⟩ := keyed_of_prologue h₂
  have hkey := key_of_same hsame h₁ h₂
  have hiff : Replays ttl cfg r₁ r₂ ↔
      scopeFingerprint sha256 q₁.credential = scopeFingerprint sha256 q₂.credential := by
    constructor
    · intro hreplays
      by_contra hscope
      refine not_replays_of_key hrecord ?_ hreplays
      intro hfull
      rw [hfull₁, hfull₂] at hfull
      exact hscope (storageKey_inj hfull).1
    · intro hscope
      apply replays_of_key
      · rw [hfull₁, hfull₂, hscope, hkey]
      · exact fingerprint_of_same hsame h₁ h₂
  refine ⟨hiff, ?_⟩
  intro hne hdigest hreplays
  have hcredential := credential_eq_of_scope hdigest (hiff.mp hreplays)
  have hbearer := bearerToken_eq_of_credential hcredential
  rw [hauth₁.1, hauth₂.1] at hbearer
  exact hne (Option.some.inj hbearer)

/-! ## Two tokens of one account -/

/-- A library that knows two tokens, both of user 7. -/
def twoTokens : Auth.TokenLibrary Empty Unit where
  decode _ token :=
    if token = lit "t1" ∨ token = lit "t2" then
      some (((∅ : Dict Text (Json Empty)).set (lit "type") (.str (lit "access"))).set (lit "sub")
        (.str (UUID.str 7)) |>.set (lit "exp") (.int 9))
    else none
  fromTimestamp _ := some ()

/-- The number that the bytes are, in the place where it is not cut off. -/
def bytesDigest (bytes : Bytes) : BitVec 256 :=
  BitVec.ofNat 256 (bytes.foldl (fun n byte => n * 256 + byte.toNat) 0 * 2 ^ 128)

/-- An order, placed with a token. -/
def orderWith (token : String) : HttpRequest where
  method := "POST"
  path := "/api/v1/orders"
  headers := [(headerName "idempotency-key", encode "k"),
    (headerName "authorization", encode ("Bearer " ++ token))]
  received := [.request [] false]

theorem authorizes_orderWith (token : String) (h : token = "t1" ∨ token = "t2") :
    Authorizes twoTokens 0 (orderWith token) (lit token) 7 := by
  obtain rfl | rfl := h
  · exact ⟨by decide +kernel, ⟨7, [], [], (), none⟩, by decide +kernel, rfl⟩
  · exact ⟨by decide +kernel, ⟨7, [], [], (), none⟩, by decide +kernel, rfl⟩

theorem keyed_orderWith (token : String) (h : token = "t1" ∨ token = "t2") :
    Keyed {} (orderWith token) := by
  obtain rfl | rfl := h
  · exact ⟨rfl, by decide +kernel, ⟨"k", by decide +kernel, by decide +kernel⟩, [], rfl⟩
  · exact ⟨rfl, by decide +kernel, ⟨"k", by decide +kernel, by decide +kernel⟩, [], rfl⟩

theorem same_orderWith : SameRequest {} (orderWith "t1") (orderWith "t2") :=
  ⟨by decide +kernel, rfl, rfl, rfl, by decide +kernel, rfl⟩

theorem replays_iff_orderWith : ∃ r₁ r₂,
    prologue bytesDigest {} (orderWith "t1") = .keyed r₁ ∧
    prologue bytesDigest {} (orderWith "t2") = .keyed r₂ ∧
    (Replays {} {} r₁ r₂ ↔ scopeFingerprint bytesDigest (orderWith "t1").credential =
      scopeFingerprint bytesDigest (orderWith "t2").credential) ∧
    (lit "t1" ≠ lit "t2" → NoCollision bytesDigest (orderWith "t1") (orderWith "t2") →
      ¬ Replays {} {} r₁ r₂) := by
  obtain ⟨r₁, h₁⟩ := prologue_of_keyed bytesDigest (keyed_orderWith "t1" (.inl rfl))
  obtain ⟨r₂, h₂⟩ := prologue_of_keyed bytesDigest (keyed_orderWith "t2" (.inr rfl))
  exact ⟨r₁, r₂, h₁, h₂, replays_iff (by decide +kernel) same_orderWith h₁ h₂
    (authorizes_orderWith "t1" (.inl rfl)) (authorizes_orderWith "t2" (.inr rfl))⟩

/-- Two valid tokens of one account, the same request and the same key, and the second request is
    not answered with the response to the first: it is executed again. -/
theorem executed_again_with_other_token :
    SameRequest {} (orderWith "t1") (orderWith "t2") ∧
    Authorizes twoTokens 0 (orderWith "t1") (lit "t1") 7 ∧
    Authorizes twoTokens 0 (orderWith "t2") (lit "t2") 7 ∧
    ∃ r₁ r₂, prologue bytesDigest {} (orderWith "t1") = .keyed r₁ ∧
      prologue bytesDigest {} (orderWith "t2") = .keyed r₂ ∧ ¬ Replays {} {} r₁ r₂ ∧
      ∃ s s', Along (Sys.step {} {}) Always {} (retried r₁ r₂) s ∧
        s.step {} {} (.reserve 1 0 0) = some s' ∧ s'.reqs[1]? = some ⟨r₂, .executing {} 60⟩ := by
  obtain ⟨r₁, h₁⟩ := prologue_of_keyed bytesDigest (keyed_orderWith "t1" (.inl rfl))
  obtain ⟨r₂, h₂⟩ := prologue_of_keyed bytesDigest (keyed_orderWith "t2" (.inr rfl))
  have hne : r₁.fullKey ≠ r₂.fullKey := by
    obtain ⟨-, -, hfull₁, -⟩ := keyed_of_prologue h₁
    obtain ⟨-, -, hfull₂, -⟩ := keyed_of_prologue h₂
    rw [hfull₁, hfull₂]
    intro hfull
    exact absurd (storageKey_inj hfull).1 (by decide +kernel)
  obtain ⟨s, s', hrun, -, -, hstep, hexecuting⟩ := executes_of_key {} {} hne
  have hsixty : (0 : Time) + 60 = 60 := zero_add 60
  exact ⟨same_orderWith, authorizes_orderWith "t1" (.inl rfl),
    authorizes_orderWith "t2" (.inr rfl), r₁, r₂, h₁, h₂,
    not_replays_of_key (by decide +kernel) hne, s, s', hrun, hstep, hsixty ▸ hexecuting⟩

end Idempotency
