import FastapiBoilerplate.Webhooks.Verifier

/-!
# A delivery is accepted at most once, while its claim stands

The window bounds when a delivery can be *checked*, and the claim is made later: a delivery that
was claimed at `c` is refused until `c + ttl`, and from that very instant on it is claimed again
(`expires_at > now`). So a delivery is accepted at most once exactly in the runs where no copy
reaches the guard `ttl` or more after an accepted one (`accepted_once_iff`).

The constructor's `2 * tolerance ≤ ttl` is not enough for that: a copy checked at the first instant
of the closed window and one checked at its last are `2 * tolerance` apart. What is enough is that
every call reaches the guard less than `ttl - 2 * tolerance` after its check (`Prompt.fresh`).
-/

namespace Webhooks

open Lib List

variable {v : Verifier} {digests : Digests} {epoch : Seconds} {s s' : Sys} {a : Action}

/-! ## What a step does -/

variable {d d' delivery : VerifiedDelivery} {p : Phase} {i : ℕ}
  {checked now claimed clock : Seconds} {body : Bytes}

theorem authenticate_spec {signature : Option Text} {wall : Seconds}
    (h : v.authenticate digests signature body wall = .ok delivery) :
    delivery.fingerprint = deliveryFingerprint digests delivery.timestamp delivery.body ∧
      |wall - delivery.timestamp| ≤ v.tolerance := by
  unfold Verifier.authenticate at h
  split at h
  · cases h
  · cases h
  split at h
  · cases h
  rename_i parsed _
  obtain ⟨_, hwindow, h⟩ := bind_eq_ok.mp h
  split at h
  · cases h
  obtain rfl := pure_eq_ok.mp h
  refine ⟨rfl, ?_⟩
  unfold Verifier.checkWindow at hwindow
  split at hwindow
  · assumption
  · cases hwindow

/-- The key that a delivery is claimed under. -/
def VerifiedDelivery.key (v : Verifier) (delivery : VerifiedDelivery) : Text :=
  v.claimKey delivery.fingerprint

/-- What a step does to the system. -/
inductive Effect (v : Verifier) (digests : Digests) (epoch : Seconds) (s : Sys) : Action → Sys → Prop
  | refused {signature : Option Text} {body : Bytes} {now : Seconds} (exc : VerifyError)
      (later : s.clock ≤ now) :
      Effect v digests epoch s (.verify signature body now)
        { s with calls := s.calls ++ [.refused exc], clock := now }
  | authenticated {signature : Option Text} {body : Bytes} {now : Seconds}
      (delivery : VerifiedDelivery) (later : s.clock ≤ now)
      (named : delivery.fingerprint = deliveryFingerprint digests delivery.timestamp delivery.body)
      (window : |epoch + now - delivery.timestamp| ≤ v.tolerance) :
      Effect v digests epoch s (.verify signature body now)
        { s with calls := s.calls ++ [.claiming delivery now], clock := now }
  | accepted {i : ℕ} {now : Seconds} (delivery : VerifiedDelivery) (checked : Seconds)
      (call : s.calls[i]? = some (.claiming delivery checked)) (later : s.clock ≤ now)
      (free : ∀ e, s.guard.get (delivery.key v) = some e → e ≤ now) :
      Effect v digests epoch s (.claim i now)
        ⟨s.guard.record v.ttl (delivery.key v) now,
          s.calls.set i (.accepted delivery checked now), now⟩
  | replayed {i : ℕ} {now : Seconds} (delivery : VerifiedDelivery) (checked expires : Seconds)
      (call : s.calls[i]? = some (.claiming delivery checked)) (later : s.clock ≤ now)
      (held : s.guard.get (delivery.key v) = some expires) (live : now < expires) :
      Effect v digests epoch s (.claim i now)
        ⟨s.guard, s.calls.set i (.refused .replayed), now⟩
  | cancelled {i : ℕ} (delivery : VerifiedDelivery) (checked : Seconds)
      (call : s.calls[i]? = some (.claiming delivery checked)) :
      Effect v digests epoch s (.cancel i) { s with calls := s.calls.set i .cancelled }

theorem effect_of_step (h : s.step v digests epoch a = some s') :
    Effect v digests epoch s a s' := by
  cases a with simp only [Sys.step] at h
  | verify signature body now =>
    obtain ⟨hlater, ⟨⟩⟩ := Option.ite_none_right_eq_some.mp h
    cases hauth : v.authenticate digests signature body (epoch + now) with
    | error exc => exact .refused exc hlater
    | ok delivery =>
      obtain ⟨hnamed, hwindow⟩ := authenticate_spec hauth
      exact .authenticated delivery hlater hnamed hwindow
  | claim =>
    split at h <;> [skip; cases h]
    rename_i delivery checked hcall
    obtain ⟨hlater, h⟩ := Option.ite_none_right_eq_some.mp h
    unfold Guard.claim at h
    split at h <;> cases h <;> rename_i guard hclaim
    · split at hclaim
      · rename_i expires hheld
        split at hclaim <;> cases hclaim
        rename_i hlapsed
        refine .accepted delivery checked hcall hlater ?_
        intro e he
        obtain rfl : expires = e := Option.some.inj (hheld.symm.trans he)
        exact not_lt.mp hlapsed
      · rename_i hfree
        cases hclaim
        refine .accepted delivery checked hcall hlater ?_
        intro e he
        cases hfree.symm.trans he
    · split at hclaim <;> [split at hclaim; skip] <;> cases hclaim
      exact .replayed delivery checked _ hcall hlater ‹_› ‹_›
  | cancel =>
    split at h <;> cases h
    exact .cancelled _ _ ‹_›

/-! ## What the guard remembers -/

namespace Guard

variable {guard : Guard} {ttl now e : Seconds} {key other : Text}

theorem get_record_self : (guard.record ttl key now).get key = some (now + ttl) :=
  Dict.get_set_self _ _ _

theorem get_record_of_live (hne : other ≠ key) (h : guard.get other = some e) (hlive : now < e) :
    (guard.record ttl key now).get other = some e := by
  unfold record
  rw [Dict.get_set_of_ne _ _ hne]
  split
  · exact Dict.get_filterValues.mpr ⟨h, by simpa using hlive⟩
  · exact h

theorem get_of_get_record (hne : other ≠ key) (h : (guard.record ttl key now).get other = some e) :
    guard.get other = some e := by
  unfold record at h
  rw [Dict.get_set_of_ne _ _ hne] at h
  split at h
  · exact (Dict.get_filterValues.mp h).1
  · exact h

end Guard

/-- What is known of a call by its phase: the delivery's name, that it was in the window when it was
    checked, and the order of the readings. -/
def Phase.Genuine (v : Verifier) (digests : Digests) (epoch clock : Seconds) : Phase → Prop
  | .claiming d checked =>
    d.fingerprint = deliveryFingerprint digests d.timestamp d.body ∧
      |epoch + checked - d.timestamp| ≤ v.tolerance ∧ checked ≤ clock
  | .accepted d checked claimed =>
    d.fingerprint = deliveryFingerprint digests d.timestamp d.body ∧
      |epoch + checked - d.timestamp| ≤ v.tolerance ∧ checked ≤ claimed ∧ claimed ≤ clock
  | _ => True

theorem Phase.Genuine.later {clock' : Seconds} (h : p.Genuine v digests epoch clock)
    (hle : clock ≤ clock') : p.Genuine v digests epoch clock' := by
  cases p with
  | claiming => exact ⟨h.1, h.2.1, h.2.2.trans hle⟩
  | accepted => exact ⟨h.1, h.2.1, h.2.2.1, h.2.2.2.trans hle⟩
  | refused => trivial
  | cancelled => trivial

/-- The guard and the accepted calls agree: an acceptance is on record until it lapses, and every
    record is of an acceptance. -/
structure Inv (v : Verifier) (digests : Digests) (epoch : Seconds) (s : Sys) : Prop where
  genuine : ∀ p ∈ s.calls, p.Genuine v digests epoch s.clock
  recorded : ∀ d checked claimed, .accepted d checked claimed ∈ s.calls →
    claimed + v.ttl ≤ s.clock ∨ ∃ e, s.guard.get (d.key v) = some e ∧ claimed + v.ttl ≤ e
  written : ∀ key e, s.guard.get key = some e → ∃ d checked claimed,
    .accepted d checked claimed ∈ s.calls ∧ key = d.key v ∧ e = claimed + v.ttl

theorem inv_initial : Inv v digests epoch {} where
  genuine := by simp
  recorded := by simp
  written key e h := by cases h

/-- A call that is added or moves on, unless it is accepted, leaves the records as they are. -/
theorem Inv.pass (h : Inv v digests epoch s) {calls : List Phase}
    (hclock : s.clock ≤ clock)
    (hgenuine : ∀ p ∈ calls, p ∈ s.calls ∨ p.Genuine v digests epoch clock)
    (hsame : ∀ d checked claimed, .accepted d checked claimed ∈ calls ↔
      .accepted d checked claimed ∈ s.calls) :
    Inv v digests epoch { s with calls, clock } where
  genuine p hp := by
    rcases hgenuine p hp with hold | hnew
    · exact (h.genuine p hold).later hclock
    · exact hnew
  recorded d checked claimed hmem := by
    rcases h.recorded d checked claimed ((hsame _ _ _).mp hmem) with hlapsed | hheld
    · exact .inl (hlapsed.trans hclock)
    · exact .inr hheld
  written key e hget := by
    obtain ⟨d, checked, claimed, hmem, hrest⟩ := h.written key e hget
    exact ⟨d, checked, claimed, (hsame _ _ _).mpr hmem, hrest⟩

/-- Who is accepted after a waiting call moves on to something else. -/
theorem accepted_mem_set {checked' : Seconds} (hcall : s.calls[i]? = some (.claiming d' checked')) :
    .accepted d checked claimed ∈ s.calls.set i p ↔
      .accepted d checked claimed ∈ s.calls ∨ .accepted d checked claimed = p := by
  constructor
  · intro hmem
    rcases mem_or_eq_of_mem_set hmem with hmem | heq
    · exact .inl hmem
    · exact .inr heq
  · rintro (hmem | rfl)
    · exact mem_set_of_mem hcall hmem (by simp)
    · have hlt := lt_of_getElem? hcall
      exact mem_of_getElem? (getElem?_set_self hlt)

theorem Inv.accept (h : Inv v digests epoch s)
    (hcall : s.calls[i]? = some (.claiming delivery checked)) (hlater : s.clock ≤ now) :
    Inv v digests epoch ⟨s.guard.record v.ttl (delivery.key v) now,
      s.calls.set i (.accepted delivery checked now), now⟩ where
  genuine := by
    obtain ⟨hnamed, hwindow, hchecked⟩ := h.genuine _ (mem_of_getElem? hcall)
    exact forall_mem_set (fun p hp => (h.genuine p hp).later hlater)
      ⟨hnamed, hwindow, hchecked.trans hlater, le_refl _⟩
  recorded d w c hmem := by
    rcases (accepted_mem_set hcall).mp hmem with hold | hnew
    · have hc : c ≤ now := (h.genuine _ hold).2.2.2.trans hlater
      by_cases hkey : d.key v = delivery.key v
      · refine .inr ⟨now + v.ttl, ?_, by linarith⟩
        rw [hkey]
        exact Guard.get_record_self
      · rcases h.recorded d w c hold with hlapsed | ⟨e, hget, hle⟩
        · exact .inl (hlapsed.trans hlater)
        rcases lt_or_ge now e with hlive | hdead
        · exact .inr ⟨e, Guard.get_record_of_live hkey hget hlive, hle⟩
        · exact .inl (hle.trans hdead)
    · cases hnew
      exact .inr ⟨now + v.ttl, Guard.get_record_self, le_refl _⟩
  written key e hget := by
    by_cases hkey : key = delivery.key v
    · rw [hkey, Guard.get_record_self] at hget
      exact ⟨delivery, checked, now, (accepted_mem_set hcall).mpr (.inr rfl), hkey,
        (Option.some.inj hget).symm⟩
    · obtain ⟨d, w, c, hmem, hrest⟩ := h.written key e (Guard.get_of_get_record hkey hget)
      exact ⟨d, w, c, (accepted_mem_set hcall).mpr (.inl hmem), hrest⟩

theorem Inv.step (h : Inv v digests epoch s) (hstep : s.step v digests epoch a = some s') :
    Inv v digests epoch s' := by
  cases effect_of_step hstep with
  | refused exc hlater =>
    apply h.pass hlater
    · exact forall_mem_snoc (fun _ => .inl) (.inr trivial)
    · simp
  | authenticated delivery hlater hnamed hwindow =>
    apply h.pass hlater
    · exact forall_mem_snoc (fun _ => .inl) (.inr ⟨hnamed, hwindow, le_refl _⟩)
    · simp
  | accepted delivery checked hcall hlater => exact h.accept hcall hlater
  | replayed delivery checked e hcall hlater _ _ =>
    apply h.pass hlater
    · exact forall_mem_set (fun _ => .inl) (.inr trivial)
    intro d w c
    rw [accepted_mem_set hcall]
    simp
  | cancelled delivery checked hcall =>
    apply h.pass (le_refl _)
    · exact forall_mem_set (fun _ => .inl) (.inr trivial)
    intro d w c
    rw [accepted_mem_set hcall]
    simp

/-! ## When a delivery is accepted once -/

/-- No copy of a delivery reaches the guard `ttl` or more after an accepted one was claimed. -/
def Fresh (v : Verifier) (s : Sys) : Action → Prop
  | .claim i now => ∀ d checked, s.calls[i]? = some (.claiming d checked) →
      ∀ d' checked' claimed, .accepted d' checked' claimed ∈ s.calls →
        d'.timestamp = d.timestamp → d'.body = d.body → now < claimed + v.ttl
  | _ => True

/-- Every delivery has been accepted at most once. -/
def Once (s : Sys) : Prop := ∀ timestamp body, s.acceptances timestamp body ≤ 1

/-- Deliveries with one name are copies of each other. -/
theorem copy_of_key (hsha : Function.Injective digests.sha256)
    (hd : d.fingerprint = deliveryFingerprint digests d.timestamp d.body)
    (hd' : d'.fingerprint = deliveryFingerprint digests d'.timestamp d'.body)
    (hkey : d.key v = d'.key v) : d.timestamp = d'.timestamp ∧ d.body = d'.body := by
  have hname : d.fingerprint = d'.fingerprint := append_cancel_left hkey
  rw [hd, hd'] at hname
  exact signedMaterial_injective (hsha hname)

theorem key_of_copy (hd : d.fingerprint = deliveryFingerprint digests d.timestamp d.body)
    (hd' : d'.fingerprint = deliveryFingerprint digests d'.timestamp d'.body)
    (htime : d'.timestamp = d.timestamp) (hbody : d'.body = d.body) : d'.key v = d.key v := by
  unfold VerifiedDelivery.key
  rw [hd, hd', htime, hbody]

section

variable (hcall : s.calls[i]? = some (.claiming d checked)) (hcalls : s'.calls = s.calls.set i p)

include hcall hcalls

theorem acceptances_set (timestamp : ℕ) (body : Bytes) :
    s'.acceptances timestamp body =
      s.acceptances timestamp body + if p.accepts timestamp body = true then 1 else 0 := by
  have hcount := countP_set (Phase.accepts timestamp body) hcall p
  rw [if_neg (by simp [Phase.accepts]), Nat.add_zero] at hcount
  unfold Sys.acceptances
  rw [hcalls, hcount]

/-- A call that moves on without being accepted counts for nothing. -/
theorem once_iff_of_set (hp : ∀ timestamp body, p.accepts timestamp body = false) :
    Once s' ↔ Once s := by
  have hsame : ∀ timestamp body, s'.acceptances timestamp body = s.acceptances timestamp body := by
    intro timestamp body
    rw [acceptances_set hcall hcalls, if_neg (by simp [hp]), Nat.add_zero]
  simp only [Once, hsame]

end

theorem acceptances_pos {timestamp : ℕ} (h : .accepted d checked claimed ∈ s.calls)
    (htime : d.timestamp = timestamp) (hbody : d.body = body) : 0 < s.acceptances timestamp body :=
  countP_pos_iff.mpr ⟨_, h, by simp [Phase.accepts, htime, hbody]⟩

section Claim

variable (h : Inv v digests epoch s) (hcall : s.calls[i]? = some (.claiming delivery checked))

include h hcall

/-- A fresh claim that is accepted is the first of its delivery. -/
theorem Inv.first (hlater : s.clock ≤ now)
    (hfree : ∀ e, s.guard.get (delivery.key v) = some e → e ≤ now)
    (hfresh : Fresh v s (.claim i now)) : s.acceptances delivery.timestamp delivery.body = 0 := by
  apply Nat.eq_zero_of_not_pos
  intro hpos
  obtain ⟨p, hp, haccepts⟩ := countP_pos_iff.mp hpos
  cases p with
  | accepted d w c =>
    obtain ⟨htime, hbody⟩ : d.timestamp = delivery.timestamp ∧ d.body = delivery.body := by
      simpa [Phase.accepts] using haccepts
    have hlive := hfresh delivery checked hcall d w c hp htime hbody
    have hkey : d.key v = delivery.key v :=
      key_of_copy (h.genuine _ (mem_of_getElem? hcall)).1 (h.genuine _ hp).1 htime hbody
    rcases h.recorded d w c hp with hlapsed | ⟨e, hget, hle⟩
    · linarith
    · have hdead := hfree e (hkey ▸ hget)
      linarith
  | claiming | refused | cancelled => cases haccepts

/-- A claim that is refused because of a record was fresh, if the delivery was accepted once. -/
theorem Inv.fresh_of_held (hsha : Function.Injective digests.sha256) {e : Seconds}
    (hheld : s.guard.get (delivery.key v) = some e) (hlive : now < e) (honce : Once s) :
    Fresh v s (.claim i now) := by
  intro d w hd d' w' c hmem htime hbody
  obtain ⟨rfl, rfl⟩ : delivery = d ∧ checked = w := by
    simpa using hcall.symm.trans hd
  obtain ⟨d₁, w₁, c₁, hmem₁, hkey, rfl⟩ := h.written _ _ hheld
  obtain ⟨htime₁, hbody₁⟩ := copy_of_key hsha (h.genuine _ (mem_of_getElem? hcall)).1
    (h.genuine _ hmem₁).1 hkey
  -- the one who made the record is the one acceptance there is
  have hsame : Phase.accepted d' w' c = .accepted d₁ w₁ c₁ :=
    eq_of_countP_le_one (honce delivery.timestamp delivery.body) hmem hmem₁
      (by simp [Phase.accepts, htime, hbody]) (by simp [Phase.accepts, htime₁, hbody₁])
  cases hsame
  exact hlive

/-- An accepted claim keeps every delivery at one acceptance if and only if it is fresh. -/
theorem once_accept_iff (hlater : s.clock ≤ now)
    (hfree : ∀ e, s.guard.get (delivery.key v) = some e → e ≤ now)
    (hcalls : s'.calls = s.calls.set i (.accepted delivery checked now)) :
    Once s' ↔ Once s ∧ Fresh v s (.claim i now) := by
  have hcount := acceptances_set hcall hcalls
  have hthis : (Phase.accepted delivery checked now).accepts delivery.timestamp delivery.body =
      true := by
    simp [Phase.accepts]
  constructor
  · intro hs
    have hold : Once s := by
      intro timestamp body
      exact (Nat.le_add_right _ _).trans ((hcount timestamp body).symm.trans_le (hs _ _))
    refine ⟨hold, ?_⟩
    intro d w hd d' w' c hmem htime hbody
    obtain ⟨rfl, rfl⟩ : delivery = d ∧ checked = w := by
      simpa using hcall.symm.trans hd
    -- an earlier acceptance of the same delivery would make it two
    have hpos := acceptances_pos hmem htime hbody
    have htwo := hs delivery.timestamp delivery.body
    rw [hcount, if_pos hthis] at htwo
    omega
  · rintro ⟨hs, hfresh⟩ timestamp body
    rw [hcount]
    by_cases haccepts : (Phase.accepted delivery checked now).accepts timestamp body = true
    · obtain ⟨rfl, rfl⟩ : delivery.timestamp = timestamp ∧ delivery.body = body := by
        simpa [Phase.accepts] using haccepts
      rw [if_pos hthis, h.first hcall hlater hfree hfresh]
    · rw [if_neg haccepts]
      exact hs timestamp body

end Claim

theorem once_step_iff (hsha : Function.Injective digests.sha256) (h : Inv v digests epoch s)
    (hstep : s.step v digests epoch a = some s') : Once s' ↔ Once s ∧ Fresh v s a := by
  cases effect_of_step hstep with
  | refused | authenticated =>
    simp [Once, Sys.acceptances, Phase.accepts, Fresh]
  | accepted delivery checked hcall hlater hfree => exact once_accept_iff h hcall hlater hfree rfl
  | replayed delivery checked e hcall hlater hheld hlive =>
    rw [once_iff_of_set hcall rfl fun _ _ => rfl]
    exact ⟨fun hs => ⟨hs, h.fresh_of_held hcall hsha hheld hlive hs⟩, fun hs => hs.1⟩
  | cancelled delivery checked hcall =>
    rw [once_iff_of_set hcall rfl fun _ _ => rfl]
    exact (and_iff_left trivial).symm

/-- **Every delivery is accepted at most once along a run if and only if** no copy of a delivery
    reaches the guard `ttl` or more after an accepted one. -/
theorem accepted_once_iff (hsha : Function.Injective digests.sha256) {actions : List Action}
    (hrun : Along (Sys.step v digests epoch) Always {} actions s) :
    (∀ timestamp body, s.acceptances timestamp body ≤ 1) ↔
      Along (Sys.step v digests epoch) (Fresh v) {} actions s := by
  constructor
  · intro honce
    have hback : Along (Sys.step v digests epoch) (Fresh v) {} actions s ∧ Once {} :=
      hrun.strengthen (fun hinv _ hstep => Inv.step hinv hstep)
        (fun hinv _ hstep hgood => ((once_step_iff hsha hinv hstep).mp hgood).symm)
        inv_initial honce
    exact hback.1
  · intro hfresh
    exact hfresh.run.invariant_with (fun hinv _ => Inv.step hinv)
      (fun hinv honce hok hstep => (once_step_iff hsha hinv hstep).mpr ⟨honce, hok⟩)
      inv_initial (by simp [Once, Sys.acceptances])

/-- A verifier whose guard remembers for exactly twice the tolerance. -/
def tight : Verifier where
  secrets := [⟨lit "k", lit "s"⟩]
  tolerance := 1
  ttl := 2
  secrets_ne_nil := by simp
  one_le_tolerance := Nat.one_pos
  covers := by norm_num [replayTtlMultiple]

/-- Digests for runs by hand: one signature for everything, and every text its own digest. -/
def plainDigests : Digests where
  hmac _ _ := List.replicate 64 0x30
  sha256 bytes := bytes.map (Fin.castLE (by decide))

/-- A header for the timestamp 10, signed under `plainDigests`. -/
def signedAtTen : Option Text := some (sign plainDigests [] 10 [])

/-- A copy that comes a second after the first is refused. -/
theorem accepted_once_iff_copy : ∃ s, Along (Sys.step tight plainDigests 0) Always {}
      [.verify signedAtTen [] 9, .claim 0 9, .verify signedAtTen [] 10, .claim 1 10] s ∧
    s.acceptances 10 [] = 1 ∧
    ((∀ timestamp body, s.acceptances timestamp body ≤ 1) ↔
      Along (Sys.step tight plainDigests 0) (Fresh tight) {}
        [.verify signedAtTen [] 9, .claim 0 9, .verify signedAtTen [] 10, .claim 1 10] s) := by
  have hsha : Function.Injective plainDigests.sha256 := by
    apply map_injective_iff.mpr
    intro x y hxy
    exact Fin.ext (congrArg (fun c => c.val) hxy)
  refine Along.exists_of_replay_and _ (by decide +kernel) fun hrun _ => ?_
  exact accepted_once_iff hsha hrun

/-- The first and the last instant of the window, with no time between check and claim: the delivery
    stamped 10 is accepted at 9, its claim lapses at 11, and at 11 it is accepted again. -/
theorem accepted_twice_at_window_ends : ∃ s, Along (Sys.step tight plainDigests 0) Always {}
      [.verify signedAtTen [] 9, .claim 0 9, .verify signedAtTen [] 11, .claim 1 11] s ∧
    s.acceptances 10 [] = 2 := by
  refine Along.exists_of_replay _ ?_
  decide +kernel

/-! ## When the claim follows the check promptly -/

/-- When a call that waits for the guard was checked. -/
def Phase.checkedAt : Phase → Option Seconds
  | .claiming _ checked => some checked
  | _ => none

/-- Every call reaches the guard less than `ttl - 2 * tolerance` after its check. -/
def Prompt (v : Verifier) (s : Sys) : Action → Prop
  | .claim i now => ∀ checked ∈ s.calls[i]?.bind Phase.checkedAt,
      now - checked < v.ttl - 2 * v.tolerance
  | _ => True

instance (v : Verifier) (s : Sys) (a : Action) : Decidable (Prompt v s a) := by
  cases a <;> unfold Prompt <;> infer_instance

theorem Prompt.fresh (hprompt : Prompt v s a) (h : Inv v digests epoch s) : Fresh v s a := by
  cases a with
  | claim =>
    intro d w hcall d' w' c hmem htime hbody
    have hsoon := hprompt w (by rw [hcall]; rfl)
    obtain ⟨-, hwindow, -⟩ := h.genuine _ (mem_of_getElem? hcall)
    obtain ⟨-, hwindow', hclaimed, -⟩ := h.genuine _ hmem
    rw [htime] at hwindow'
    have hlast := (abs_le.mp hwindow).2
    have hfirst := (abs_le.mp hwindow').1
    linarith
  | verify => trivial
  | cancel => trivial

/-- **When every call is prompt**, a delivery is accepted at most once. -/
theorem accepted_once_of_prompt (hsha : Function.Injective digests.sha256)
    (hrun : Run (Sys.step v digests epoch) (Prompt v) {} s) :
    ∀ timestamp body, s.acceptances timestamp body ≤ 1 :=
  hrun.invariant_with (fun h _ => Inv.step h)
    (fun h honce hprompt hstep => (once_step_iff hsha h hstep).mpr ⟨honce, hprompt.fresh h⟩)
    inv_initial (by simp [Once, Sys.acceptances])

/-- A guard that remembers for a second more. -/
def roomy : Verifier :=
  { tight with ttl := 3, covers := by norm_num [tight, replayTtlMultiple] }

theorem accepted_once_of_prompt_window_ends : ∃ s,
    Run (Sys.step roomy plainDigests 0) (Prompt roomy) {} s ∧ s.acceptances 10 [] = 1 ∧
    ∀ timestamp body, s.acceptances timestamp body ≤ 1 := by
  have hsha : Function.Injective plainDigests.sha256 :=
    map_injective_iff.mpr fun x y hxy => Fin.ext (congrArg (fun c => c.val) hxy)
  exact Run.exists_of_replay_and
    [.verify signedAtTen [] 9, .claim 0 9, .verify signedAtTen [] 11, .claim 1 11]
    (by decide +kernel) fun hrun _ => accepted_once_of_prompt hsha hrun

end Webhooks
