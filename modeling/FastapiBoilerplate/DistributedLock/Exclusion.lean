import FastapiBoilerplate.DistributedLock.Memory

/-!
# Mutual exclusion and fencing tokens, in memory

Every history the in-memory backend can produce is lawful, whoever calls it with whatever lease
and however late. What the `LockBackend` protocol promises is read off from that: one live lease
a name, tokens that increase, and a `RELEASED` only to a holder nobody has come after.
-/

namespace DistributedLock.Memory

open Lib List
open Fencing (Grant standing granted Live Lawful Allowed)

variable {s s' : Sys} {m' : Memory} {x : Exchange} {now now' : Time}

/-- The invariant of a run. -/
structure Kept (s : Sys) : Prop where
  lawful : Lawful (events s.history)
  time : ∀ e ∈ events s.history, e.time ≤ s.clock
  counted : ∀ g ∈ granted (events s.history), g.token ≤ (s.memory.counters.lookup g.name).getD 0
  tied : Tied s.clock (standing (events s.history)) s.memory

section

variable (h : Kept s)

include h

theorem Kept.later (hle : s.clock ≤ now) : ∀ e ∈ events s.history, e.time ≤ now :=
  fun e he => le_trans (h.time e he) hle

theorem Kept.snoc (hle : s.clock ≤ now) (hle' : now ≤ now') (htime : x.time = now)
    (allowed : Allowed (events s.history) x.event)
    (counted : ∀ g ∈ granted (events s.history) ++ x.event.act.granted.toList,
      g.token ≤ (m'.counters.lookup g.name).getD 0)
    (tied : Tied now' (Fencing.settle (standing (events s.history)) x.event.act) m') :
    Kept { memory := m', clock := now', history := s.history ++ [x] } where
  lawful := by
    rw [events_snoc]
    exact .snoc h.lawful allowed
  time := by
    rw [events_snoc]
    exact forall_mem_snoc (fun e he => le_trans (h.later hle e he) hle') (le_of_eq_of_le htime hle')
  counted := by
    rw [events_snoc, Fencing.granted_snoc]
    exact counted
  tied := by
    rw [events_snoc, Fencing.standing_snoc]
    exact tied

/-- A call that moves no lease leaves the backend, or purges a claim that had run out. -/
theorem Kept.nothing (hle : s.clock ≤ now) (hle' : now ≤ now')
    (hm : m' = s.memory ∨ ∃ name, Purged name now s.memory m') (htime : x.time = now)
    (hact : x.event.act = .nothing) :
    Kept { memory := m', clock := now', history := s.history ++ [x] } := by
  have hevent : x.event = ⟨now, .nothing⟩ := by
    rw [← htime, ← hact]
    rfl
  have hcounters : m'.counters = s.memory.counters := by
    rcases hm with rfl | ⟨name, hp⟩
    · rfl
    · exact hp.counters
  have htied : Tied now (standing (events s.history)) m' := by
    rcases hm with rfl | ⟨name, hp⟩
    · exact h.tied.later hle
    · exact h.tied.purged hle hp
  refine h.snoc hle hle' htime ?_ ?_ ?_
  · rw [hevent]
    exact .nothing (h.later hle)
  · rw [hact, hcounters]
    simpa [Fencing.Act.granted] using h.counted
  · rw [hact]
    exact htied.later hle'

theorem Kept.live_of_row {name : Text} {row : Held} (hrow : s.memory.held.lookup name = some row)
    (hlt : now < row.expiresAt) : Live (events s.history) name row.token now :=
  ⟨_, h.tied.row name row hrow, rfl, rfl, hlt⟩

section

variable (hle : s.clock ≤ now) (hle' : now ≤ now')

include hle hle'

theorem Kept.acquire (name owner : Text) (ttlSeconds : Time) :
    Kept (s.exchange (.acquire name owner ttlSeconds) now now') := by
  cases hvalid : validateLockName name with
  | error error =>
    have hserve : s.memory.acquire name owner ttlSeconds now now' =
        (s.memory, .invalid error) := by
      simp [Memory.acquire, hvalid]
    simp only [Sys.exchange, serve, hserve]
    exact h.nothing hle hle' (.inl rfl) rfl rfl
  | ok =>
    rcases s.memory.acquire_cases hvalid owner ttlSeconds now now' with
      ⟨row, -, -, hserve⟩ | ⟨m, token, hp, htoken, hserve⟩ <;>
      simp only [Sys.exchange, serve, hserve]
    · exact h.nothing hle hle' (.inl rfl) rfl rfl
    have hfree : ∀ x ∈ standing (events s.history), x.name = name → x.expires ≤ now := by
      intro x hx hname
      by_contra hlt
      obtain ⟨row, hrow, -, hexpires⟩ :=
        h.tied.live x hx (lt_of_le_of_lt hle (not_le.mp hlt))
      exact hlt (hexpires ▸ hp.expired row (hname ▸ hrow))
    have hfresh : ∀ g ∈ granted (events s.history), g.name = name → g.token < token := by
      intro g hg hname
      rw [htoken, ← hname]
      exact Int.lt_add_one_of_le (h.counted g hg)
    have hcounted : ∀ g ∈ granted (events s.history) ++ [⟨name, token, now' + ttlSeconds⟩],
        g.token ≤ ((s.memory.counters.insert name token).lookup g.name).getD 0 := by
      intro g hg
      by_cases hname : g.name = name
      · rw [hname, AList.lookup_insert]
        rcases mem_append.mp hg with hg | hg
        · exact le_of_lt (hfresh g hg hname)
        · exact le_of_eq (congrArg Grant.token (mem_singleton.mp hg))
      · rw [AList.lookup_insert_ne hname]
        rcases mem_append.mp hg with hg | hg
        · exact h.counted g hg
        · exact absurd (congrArg Grant.name (mem_singleton.mp hg)) hname
    refine h.snoc hle hle' rfl ?_ hcounted ?_
    · refine ⟨h.later hle, ?_, ?_, (by intros; contradiction), (by intros; contradiction)⟩
      · rintro g ⟨⟩
        exact hfree
      · rintro g ⟨⟩
        exact hfresh
    · exact (h.tied.purged hle hp).grant hle' hp.gone owner _ _

theorem Kept.extend (lease : Lease) (ttlSeconds : Time) :
    Kept (s.exchange (.extend lease ttlSeconds) now now') := by
  rcases s.memory.owner_cases lease now with
    ⟨row, hrow, hlt, htoken, hext, -⟩ | ⟨row, -, -, -, hext, -⟩ | ⟨m, hp, hext, -⟩ <;>
    simp only [Sys.exchange, serve, hext, Prod.map]
  · refine h.snoc hle hle' rfl ?_ ?_ ?_
    · refine ⟨h.later hle, nofun, nofun, ?_, nofun⟩
      rintro g ⟨⟩
      exact htoken ▸ h.live_of_row hrow hlt
    · simpa [Exchange.event, act, Fencing.Act.granted] using h.counted
    · exact (h.tied.later hle).renew hle' hrow htoken (now' + ttlSeconds)
  · exact h.nothing hle hle' (.inl rfl) rfl rfl
  · exact h.nothing hle hle' (.inr ⟨_, hp⟩) rfl rfl

theorem Kept.release (lease : Lease) : Kept (s.exchange (.release lease) now now') := by
  rcases s.memory.owner_cases lease now with
    ⟨row, hrow, hlt, htoken, -, hrel⟩ | ⟨row, -, -, -, -, hrel⟩ | ⟨m, hp, -, hrel⟩ <;>
    simp only [Sys.exchange, serve, hrel, Prod.map]
  · refine h.snoc hle hle' rfl ?_ ?_ ?_
    · refine ⟨h.later hle, nofun, nofun, nofun, ?_⟩
      rintro name token ⟨⟩
      exact htoken ▸ h.live_of_row hrow hlt
    · simpa [Exchange.event, act, Fencing.Act.granted] using h.counted
    · exact ((h.tied.later hle).takeBack hrow htoken).later hle'
  · exact h.nothing hle hle' (.inl rfl) rfl rfl
  · exact h.nothing hle hle' (.inr ⟨_, hp⟩) rfl rfl

theorem Kept.inspect (name : Text) : Kept (s.exchange (.inspect name) now now') := by
  rcases s.memory.inspect_cases name now now' with ⟨row, -, -, hins⟩ | ⟨m, hp, hins⟩ <;>
    simp only [Sys.exchange, serve, hins, Prod.map]
  · exact h.nothing hle hle' (.inl rfl) rfl rfl
  · exact h.nothing hle hle' (.inr ⟨_, hp⟩) rfl rfl

end

theorem Kept.clear : Kept (s.exchange .clear s.clock s.clock) := by
  refine h.snoc (le_refl _) (le_refl _) rfl ?_ ?_ ?_
  · refine ⟨h.time, ?_, ?_, ?_, ?_⟩ <;> intros <;> contradiction
  · intro g hg
    exact h.counted g (by simpa [Exchange.event, act, serve, Fencing.Act.granted] using hg)
  · exact ⟨(by intros; contradiction), (by intros; contradiction)⟩

theorem step_kept {a : Action} (hstep : s.step a = some s') : Kept s' := by
  cases a with
  | clear =>
    cases hstep
    exact h.clear
  | call request =>
    simp only [Sys.step] at hstep
    obtain ⟨hclock, hstep⟩ := Option.ite_none_right_eq_some.mp hstep
    obtain ⟨hle, hle'⟩ := hclock
    obtain ⟨call, hcall, rfl⟩ := Option.map_eq_some_iff.mp hstep
    cases call with
    | acquire name owner ttlSeconds => exact h.acquire hle hle' name owner ttlSeconds
    | extend lease ttlSeconds => exact h.extend hle hle' lease ttlSeconds
    | release lease => exact h.release hle hle' lease
    | inspect name => exact h.inspect hle hle' name
    | clear => cases request <;> simp [Request.call] at hcall

end

theorem kept_fresh (t : Time) : Kept { clock := t } where
  lawful := .nil
  time _ he := by cases he
  counted _ hg := by cases hg
  tied := ⟨nofun, nofun⟩

theorem kept_of_run {t : Time} (h : Run Sys.step Always { clock := t } s) : Kept s :=
  h.invariant (fun hk _ hstep => step_kept hk hstep) (kept_fresh t)

/-! ## What the callers can rely on -/

section

variable (h : Kept s) (hle : s.clock ≤ now) {lease : Lease}

include h hle

/-- A lease is live in the history exactly when `_live` finds its token. -/
theorem Kept.live_iff (name : Text) (token : ℤ) :
    Live (events s.history) name token now ↔
      ∃ row, s.memory.held.lookup name = some row ∧ now < row.expiresAt ∧ row.token = token := by
  constructor
  · rintro ⟨x, hx, rfl, rfl, hlt⟩
    obtain ⟨row, hrow, htoken, hexpires⟩ := h.tied.live x hx (lt_of_le_of_lt hle hlt)
    exact ⟨row, hrow, hexpires ▸ hlt, htoken⟩
  · rintro ⟨row, hrow, hlt, rfl⟩
    exact h.live_of_row hrow hlt

theorem Kept.stale (hstale : ¬ Live (events s.history) lease.name lease.token now) :
    (∀ ttlSeconds now', ∃ m', s.memory.extend lease ttlSeconds now now' = (m', none) ∧
      Unchanged now s.memory m') ∧
    ∃ m' outcome, s.memory.release lease now = (m', outcome) ∧ outcome ≠ .released ∧
      Unchanged now s.memory m' := by
  rcases s.memory.owner_cases lease now with
    ⟨row, hrow, hlt, htoken, -⟩ | ⟨row, -, -, -, hext, hrel⟩ | ⟨m', hp, hext, hrel⟩
  · exact absurd ((h.live_iff hle _ _).mpr ⟨row, hrow, hlt, htoken⟩) hstale
  · exact ⟨fun _ _ => ⟨_, hext _ _, .refl now _⟩, _, _, hrel, by simp, .refl now _⟩
  · exact ⟨fun _ _ => ⟨_, hext _ _, hp.unchanged⟩, _, _, hrel, by simp, hp.unchanged⟩

/-- `RELEASED` goes to the holder of the last acquisition. -/
theorem Kept.last_acquired (hlease : lease ∈ issued s.history)
    (hreleased : (s.memory.release lease now).2 = .released) :
    ∃ before x after, s.history = before ++ x :: after ∧
      (∃ first, x.acquired = some first ∧ first.name = lease.name ∧
        first.token = lease.token) ∧
      ∀ y ∈ after, ∀ other, y.acquired = some other → other.name ≠ lease.name := by
  obtain ⟨before, x, after, hsplit, first, hfirst, hname, htoken⟩ :=
    exists_acquired h.lawful hlease
  refine ⟨before, x, after, hsplit, ⟨first, hfirst, hname, htoken⟩, ?_⟩
  intro y hy other hother hsame
  -- had the release been made, the history would still be lawful
  have hlawful := (h.release hle (le_refl now) lease).lawful
  obtain ⟨m', hrel⟩ : ∃ m', s.memory.release lease now = (m', .released) := by
    exact ⟨_, Prod.ext rfl hreleased⟩
  have hback : Exchange.event ⟨.release lease, .released .released, now, now⟩ =
      ⟨now, .takeBack first.name first.token⟩ := by
    rw [hname, htoken]
    rfl
  simp only [Sys.exchange, serve, hrel, Prod.map, deadline] at hlawful
  rw [events_snoc, hback, hsplit, events, map_append, map_cons,
    Exchange.event_of_acquired hfirst] at hlawful
  exact hlawful.exclusive.2 y.event (mem_map_of_mem hy) _
    (congrArg Fencing.Event.act (Exchange.event_of_acquired hother)) (hsame.trans hname.symm)

end

/-- **Mutual exclusion and fencing tokens.** After any calls by any callers, with a clock that
    does not go backwards: at most one lease of a name is live; the tokens of a name's
    acquisitions increase; a lease that is not the live one extends and releases nothing; and a
    release is answered `RELEASED` only if nobody has acquired the name since. -/
theorem exclusive_and_fenced {t : Time} (h : Run Sys.step Always { clock := t } s) :
    (∀ name now, s.clock ≤ now →
      ((standing (events s.history)).filter fun x => x.name = name ∧ now < x.expires).length ≤ 1) ∧
    (∀ name, (acquisitions s.history name).Pairwise fun l l' => l.token < l'.token) ∧
    (∀ (lease : Lease) (now : Time), s.clock ≤ now →
      ¬ Live (events s.history) lease.name lease.token now →
      (∀ ttlSeconds now', ∃ m', s.memory.extend lease ttlSeconds now now' = (m', none) ∧
        Unchanged now s.memory m') ∧
      ∃ m' outcome, s.memory.release lease now = (m', outcome) ∧ outcome ≠ .released ∧
        Unchanged now s.memory m') ∧
    ∀ lease ∈ issued s.history, ∀ now, s.clock ≤ now →
      (s.memory.release lease now).2 = .released →
      ∃ before x after, s.history = before ++ x :: after ∧
        (∃ first, x.acquired = some first ∧ first.name = lease.name ∧
          first.token = lease.token) ∧
        ∀ y ∈ after, ∀ other, y.acquired = some other → other.name ≠ lease.name := by
  have hkept := kept_of_run h
  refine ⟨?_, ?_, ?_, ?_⟩
  · exact fun name now hle => hkept.lawful.live_unique name (hkept.later hle)
  · exact tokens_increase hkept.lawful
  · exact fun lease now hle hstale => hkept.stale hle hstale
  · exact fun lease hlease now hle hreleased => hkept.last_acquired hle hlease hreleased

/-- Two holders of `job`: the first outlives its lease, tries to extend and to release it when
    the second holds the name, and is refused both; the second is released. -/
theorem exclusive_and_fenced_two_holders :
    ∃ s, Run Sys.step Always { clock := 0 } s ∧
      ((standing (events s.history)).filter fun x =>
        x.name = lit "job" ∧ (13 : Time) < x.expires).length ≤ 1 ∧
      (acquisitions s.history (lit "job")).map Lease.token = [1, 2] ∧
      s.history.map Exchange.answer =
        [.acquired (some ⟨lit "job", 1, lit "a", 10, 10⟩),
         .acquired (some ⟨lit "job", 2, lit "b", 10, 22⟩),
         .extended none, .released .notOwner, .released .released] := by
  have hrun := Along.get_replay Sys.step Always { clock := 0 }
    [.call (.acquire (lit "job") (lit "a") 10) 0 0,
     .call (.acquire (lit "job") (lit "b") 10) 12 12,
     .call (.extend 0 10) 13 13, .call (.release 0) 13 13, .call (.release 1) 13 13]
    (by decide +kernel)
  exact ⟨_, hrun.run, (exclusive_and_fenced hrun.run).1 _ _ (by decide +kernel),
    by decide +kernel⟩

end DistributedLock.Memory
