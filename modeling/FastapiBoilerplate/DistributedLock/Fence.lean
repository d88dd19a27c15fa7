import FastapiBoilerplate.DistributedLock.Exclusion

/-!
# A resource behind fencing tokens

`fence_is_current` and `require_fence` of `src/distributed_lock/base.py`, and a resource that
applies a write exactly when its token passes, whoever holds the lease it is made under and
however late. The comparison is strict, so a lease is good for one write only.
-/

namespace DistributedLock

open Lib List Option
open Fencing (Live Lawful)

/-- `fence_is_current`. -/
def fenceIsCurrent (token : ℤ) (lastAccepted : Option ℤ) : Bool :=
  lastAccepted.all fun last => last < token

/-- `StaleFencingTokenError`, with its details. -/
structure StaleFencingTokenError where
  message : Text
  resource : Text
  token : ℤ
  lastAccepted : Option ℤ

/-- `require_fence`. -/
def requireFence (token : ℤ) (lastAccepted : Option ℤ) (resource : Text) :
    Except StaleFencingTokenError Unit :=
  if fenceIsCurrent token lastAccepted then .ok ()
  else .error ⟨lit "This fencing token is no longer current; the lock was lost.", resource, token,
    lastAccepted⟩

/-- A resource: the token it accepted last, and the tokens of the writes it was sent and of those
    it applied, in order. -/
structure Resource where
  label : Text
  lastAccepted : Option ℤ := none
  sent : List ℤ := []
  applied : List ℤ := []

def Resource.write (r : Resource) (token : ℤ) : Resource :=
  match requireFence token r.lastAccepted r.label with
  | .ok () =>
    { r with lastAccepted := some token, sent := r.sent ++ [token], applied := r.applied ++ [token] }
  | .error _ => { r with sent := r.sent ++ [token] }

/-- What the resource knows of the writes it was sent. -/
structure Resource.Fits (r : Resource) : Prop where
  fresh : r.lastAccepted = none → r.sent = []
  accepted : ∀ last, r.lastAccepted = some last → last ∈ r.sent ∧ ∀ token ∈ r.sent, token ≤ last
  within : ∀ token ∈ r.applied, token ∈ r.sent
  ordered : r.applied.Pairwise (· ≤ ·)

theorem Resource.Fits.current_iff {r : Resource} (h : r.Fits) (token : ℤ) :
    fenceIsCurrent token r.lastAccepted = true ↔ ∀ other ∈ r.sent, other < token := by
  cases hlast : r.lastAccepted with
  | none =>
    rw [h.fresh hlast]
    exact ⟨fun _ => nofun, fun _ => rfl⟩
  | some last =>
    obtain ⟨hmem, hmax⟩ := h.accepted last hlast
    refine decide_eq_true_iff.trans ⟨?_, fun hall => hall last hmem⟩
    exact fun hlt other hother => lt_of_le_of_lt (hmax other hother) hlt

theorem Resource.write_cases (r : Resource) (token : ℤ) :
    (fenceIsCurrent token r.lastAccepted = true ∧ r.write token =
      { r with
        lastAccepted := some token, sent := r.sent ++ [token], applied := r.applied ++ [token] }) ∨
    (fenceIsCurrent token r.lastAccepted = false ∧
      r.write token = { r with sent := r.sent ++ [token] }) := by
  unfold Resource.write requireFence
  cases fenceIsCurrent token r.lastAccepted with
  | true => exact .inl ⟨rfl, rfl⟩
  | false => exact .inr ⟨rfl, rfl⟩

theorem Resource.Fits.write {r : Resource} (h : r.Fits) (token : ℤ) : (r.write token).Fits := by
  obtain ⟨hcurrent, hw⟩ | ⟨hcurrent, hw⟩ := r.write_cases token <;> rw [hw]
  · have hlt := (h.current_iff token).mp hcurrent
    refine ⟨nofun, ?_, ?_, ?_⟩
    · rintro last ⟨⟩
      refine ⟨mem_append_right _ mem_cons_self, ?_⟩
      simpa [or_imp, forall_and] using fun other hother => (hlt other hother).le
    · simpa [or_imp, forall_and] using fun other hother => Or.inl (h.within other hother)
    · exact pairwise_snoc h.ordered fun other hother => (hlt other (h.within other hother)).le
  · refine ⟨fun hnone => ?_, fun last hlast => ?_, fun other hother => ?_, h.ordered⟩
    · rw [hnone] at hcurrent
      cases hcurrent
    · obtain ⟨hmem, hmax⟩ := h.accepted last hlast
      rw [hlast] at hcurrent
      refine ⟨mem_append_left _ hmem, ?_⟩
      simpa [or_imp, forall_and] using ⟨hmax, not_lt.mp (of_decide_eq_false hcurrent)⟩
    · exact mem_append_left _ (h.within other hother)

/-! ## Locks and writes -/

/-- A later lease of the name has the second token. -/
def Later (history : List Exchange) (name : Text) (token token' : ℤ) : Prop :=
  ∃ before first after, acquisitions history name = before ++ first :: after ∧
    first.token = token ∧ ∃ second ∈ after, second.token = token'

variable {history : List Exchange} {lease : Lease}

theorem mem_acquisitions (h : Lawful (events history)) (hlease : lease ∈ issued history) :
    ∃ first ∈ acquisitions history lease.name, first.token = lease.token := by
  obtain ⟨before, x, after, rfl, first, hfirst, hname, htoken⟩ := exists_acquired h hlease
  refine ⟨first, mem_filter.mpr ⟨?_, decide_eq_true hname⟩, htoken⟩
  exact mem_filterMap.mpr ⟨x, by simp, hfirst⟩

theorem later_of_lt (h : Lawful (events history)) {other : Lease} (hlease : lease ∈ issued history)
    (hother : other ∈ issued history) (hname : other.name = lease.name)
    (hlt : lease.token < other.token) : Later history lease.name lease.token other.token := by
  obtain ⟨first, hfirst, htoken⟩ := mem_acquisitions h hlease
  obtain ⟨second, hsecond, htoken'⟩ := mem_acquisitions h hother
  have hsorted := tokens_increase h lease.name
  rw [hname] at hsecond
  obtain ⟨before, after, hsplit⟩ := append_of_mem hfirst
  rw [hsplit] at hsorted hsecond
  refine ⟨before, first, after, hsplit, htoken, second, ?_, htoken'⟩
  obtain hin | rfl | hin := (mem_append.mp hsecond).imp_right mem_cons.mp
  · have := (pairwise_append.mp hsorted).2.2 second hin first mem_cons_self
    omega
  · omega
  · exact hin

/-- A lock and a resource that its holders write to. -/
structure Guarded (σ : Type) where
  lock : σ
  resource : Resource

/-- A holder writes under any lease of the name that was handed out, by its place among them. -/
inductive Guarded.Action (α : Type)
  | lock (a : α)
  | write (lease : ℕ)

section Guarded

variable {σ α : Type} (backend : σ → α → Option σ) (history : σ → List Exchange) (name : Text)

def Guarded.step (s : Guarded σ) : Action α → Option (Guarded σ)
  | .lock a => (backend s.lock a).map fun lock => { s with lock }
  | .write i =>
    ((issued (history s.lock)).filter fun lease => lease.name = name)[i]?.map fun lease =>
      { s with resource := s.resource.write lease.token }

/-- The resource is up to date and was written to by holders of the name only. -/
structure Guarded.Kept (s : Guarded σ) : Prop where
  fits : s.resource.Fits
  held : ∀ token ∈ s.resource.sent, ∃ lease ∈ issued (history s.lock),
    lease.name = name ∧ lease.token = token

/-- What fencing promises of a write under `lease` at `now`. -/
structure Guarded.Fenced (s : Guarded σ) (lease : Lease) (now : Time) : Prop where
  ordered : (s.resource.write lease.token).applied.Pairwise (· ≤ ·)
  stale : (∃ token ∈ s.resource.applied, lease.token < token) →
    (s.resource.write lease.token).applied = s.resource.applied
  holder : Live (events (history s.lock)) lease.name lease.token now →
    (∀ token ∈ s.resource.sent, ¬ Later (history s.lock) lease.name lease.token token) →
    (s.resource.write lease.token).applied = s.resource.applied ++ [lease.token]

variable {backend history name} {s₀ : σ} {label : Text} {s s' : Guarded σ}

theorem Guarded.Kept.step {a : Action α} (h : s.Kept history name)
    (grows : ∀ {t t' a}, backend t a = some t' → history t <+: history t')
    (hstep : s.step backend history name a = some s') : s'.Kept history name := by
  cases a with
  | lock =>
    obtain ⟨t, ht, rfl⟩ := map_eq_some_iff.mp hstep
    refine ⟨h.fits, fun token htoken => ?_⟩
    obtain ⟨lease, hlease, hof⟩ := h.held token htoken
    exact ⟨lease, ((grows ht).sublist.filterMap _).subset hlease, hof⟩
  | write =>
    obtain ⟨lease, hi, rfl⟩ := map_eq_some_iff.mp hstep
    obtain ⟨hlease, hname⟩ := mem_filter.mp (mem_of_getElem? hi)
    refine ⟨h.fits.write lease.token, fun token htoken => ?_⟩
    have hsent : (s.resource.write lease.token).sent = s.resource.sent ++ [lease.token] := by
      obtain ⟨-, hw⟩ | ⟨-, hw⟩ := s.resource.write_cases lease.token <;> rw [hw]
    rw [hsent] at htoken
    obtain hold | hnew := mem_append.mp htoken
    · exact h.held token hold
    · exact ⟨lease, hlease, of_decide_eq_true hname, (mem_singleton.mp hnew).symm⟩

theorem Guarded.lock_of_run (h : Run (Guarded.step backend history name) Always ⟨s₀, { label }⟩ s) :
    Run backend Always s₀ s.lock := by
  refine h.simulate Guarded.lock fun {t u a} _ hstep => ?_
  cases a with
  | lock =>
    obtain ⟨t', ht, rfl⟩ := map_eq_some_iff.mp hstep
    exact .single trivial ht
  | write =>
    obtain ⟨lease, -, rfl⟩ := map_eq_some_iff.mp hstep
    exact .refl

/-- **Fencing, of whoever writes.** Over any lock whose histories are lawful, as those of the
    in-memory one are, a write keeps the order of what is applied and none is applied below a
    token that was. A holder that nobody has come after is let in on its first write under the
    lease, renewed or not, and on no other. -/
theorem fenced_iff_first_write
    (grows : ∀ {t t' a}, backend t a = some t' → history t <+: history t')
    (lawful : ∀ {t}, Run backend Always s₀ t → Lawful (events (history t)))
    (h : Run (Guarded.step backend history name) Always ⟨s₀, { label }⟩ s)
    {lease : Lease} (hlease : lease ∈ issued (history s.lock)) (hname : lease.name = name)
    (now : Time) :
    s.Fenced history lease now ↔
      (Live (events (history s.lock)) name lease.token now →
        (∀ token ∈ s.resource.sent, ¬ Later (history s.lock) name lease.token token) →
        lease.token ∉ s.resource.sent) := by
  subst hname
  have hkept : s.Kept history lease.name :=
    h.invariant (fun hk _ hstep => hk.step grows hstep) ⟨⟨fun _ => rfl, nofun, nofun, .nil⟩, nofun⟩
  have hlawful := lawful (Guarded.lock_of_run h)
  have hiff := hkept.fits.current_iff lease.token
  constructor
  · intro hfenced hlive hlast hsent
    have happlied := hfenced.holder hlive hlast
    obtain ⟨hcurrent, -⟩ | ⟨-, hw⟩ := s.resource.write_cases lease.token
    · exact lt_irrefl _ (hiff.mp hcurrent _ hsent)
    · rw [hw] at happlied
      simp at happlied
  · intro hfirst
    refine ⟨(hkept.fits.write lease.token).ordered, ?_, fun hlive hlast => ?_⟩
    · rintro ⟨token, htoken, hlt⟩
      obtain ⟨hcurrent, -⟩ | ⟨-, hw⟩ := s.resource.write_cases lease.token
      · exact absurd (hiff.mp hcurrent token (hkept.fits.within token htoken)) hlt.asymm
      · rw [hw]
    have hcurrent : fenceIsCurrent lease.token s.resource.lastAccepted = true := by
      refine hiff.mpr fun token htoken => ?_
      obtain ⟨other, hother, hsame, rfl⟩ := hkept.held token htoken
      -- what was sent is of other leases, and none of these is later
      have hne : other.token ≠ lease.token := fun heq => hfirst hlive hlast (heq ▸ htoken)
      have hle := mt (later_of_lt hlawful hlease hother hsame) (hlast _ htoken)
      omega
    obtain ⟨-, hw⟩ | ⟨hfalse, -⟩ := s.resource.write_cases lease.token
    · rw [hw]
    · exact absurd hcurrent (by rw [hfalse]; exact nofun)

end Guarded

instance (es : List (Fencing.Event Text Time)) (name : Text) (token : ℤ) (now : Time) :
    Decidable (Live es name token now) :=
  inferInstanceAs (Decidable (∃ x ∈ Fencing.standing es, x.name = name ∧ x.token = token ∧
    now < x.expires))

/-- Under one lease, which stands and is the only one, the first write is applied and the second
    is not. -/
theorem second_write_fenced_out :
    ∃ s, Run (Guarded.step Memory.Sys.step Memory.Sys.history (lit "job")) Always
        ⟨{ clock := 0 }, { label := lit "jobs" }⟩ s ∧
      (acquisitions s.lock.history (lit "job")).map Lease.token = [1] ∧
      Live (events s.lock.history) (lit "job") 1 1 ∧
      s.resource.sent = [1, 1] ∧ s.resource.applied = [1] := by
  refine Run.exists_of_replay
    [.lock (.call (.acquire (lit "job") (lit "a") 10) 0 0), .write 0, .write 0] ?_
  decide +kernel

theorem Memory.history_grows {s s' : Memory.Sys} {a : Memory.Action} (h : s.step a = some s') :
    s.history <+: s'.history := by
  cases a with
  | clear =>
    cases h
    exact prefix_append _ _
  | call =>
    simp only [Memory.Sys.step] at h
    split at h
    · obtain ⟨call, -, rfl⟩ := map_eq_some_iff.mp h
      exact prefix_append _ _
    · cases h

/-- The first write under a renewed lease of the in-memory lock. -/
theorem fenced_iff_first_write_renewed :
    ∃ s, Run (Guarded.step Memory.Sys.step Memory.Sys.history (lit "job")) Always
        ⟨{ clock := 0 }, { label := lit "jobs" }⟩ s ∧
      s.Fenced Memory.Sys.history ⟨lit "job", 1, lit "a", 10, 15⟩ 12 := by
  have hrun := (Along.get_replay (Guarded.step Memory.Sys.step Memory.Sys.history (lit "job")) Always
    ⟨{ clock := 0 }, { label := lit "jobs" }⟩
    [.lock (.call (.acquire (lit "job") (lit "a") 10) 0 0), .lock (.call (.extend 0 10) 5 5)]
    (by decide +kernel)).run
  exact ⟨_, hrun, (fenced_iff_first_write Memory.history_grows
    (fun h => (Memory.kept_of_run h).lawful) hrun (by decide +kernel) rfl 12).mpr
      fun _ _ => by decide +kernel⟩

end DistributedLock
