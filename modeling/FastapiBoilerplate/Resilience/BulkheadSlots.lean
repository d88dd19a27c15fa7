import FastapiBoilerplate.Lib.Lists
import FastapiBoilerplate.Resilience.Bulkhead

/-!
# Slots are conserved, and handed out in turn

Two invariants, kept apart because they move for different reasons.

`Room` is the ledger. A unit of capacity is in one of three places — a slot somebody holds,
a waiter that was handed one and has not run yet, or, for the length of one call to
`_release`, nowhere. `Room cfg s k` counts the last kind with `k`: every operation that
gives a unit up reaches `Room cfg s 1`, and `_release` takes that back to `Room cfg s 0`
by finding the unit a new home or lowering `_in_flight`.

`Queue` is the order. Waiters are numbered as they arrive, the deque is sorted, every
pending future is in it, and everyone served so far is older than everyone in it. Fairness
is read off: the first pending waiter in a sorted deque is the oldest pending one.
-/

namespace Resilience.Bulkhead

open Lib List

/-! ## The ledger and the order -/

/-- A waiter that was handed a slot and has not run since. -/
def Waiter.holds (x : Waiter) : Bool := x.future.wasHandedASlot && !x.resumed

/-- The slots handed out and not released. -/
def Sys.unreleased (s : Sys) : ℕ := s.slots.countP (fun released => !released)

/-- The waiters handed a slot and not yet resumed. -/
def Sys.handedOver (s : Sys) : ℕ := s.waits.countP Waiter.holds

/-- `k` units of capacity are unaccounted for; the compartment is within its bounds, and
    nobody queues in front of a free slot. -/
structure Room (cfg : BulkheadConfig) (s : Sys) (k : ℕ) : Prop where
  balance : s.inFlight = s.unreleased + s.handedOver + k
  inFlight_le : s.inFlight ≤ cfg.limit
  queue_le : s.waiters.length ≤ cfg.maxQueue
  full : s.waiters ≠ [] → s.inFlight = cfg.limit

/-- The deque is in arrival order, holds every pending waiter, and is younger than anyone
    served. -/
structure Queue (s : Sys) : Prop where
  sorted : s.waiters.Pairwise (· < ·)
  inRange : ∀ w ∈ s.waiters, w < s.waits.length
  pending_mem : ∀ (w : ℕ) (x : Waiter), s.waits[w]? = some x → x.future = .pending → w ∈ s.waiters
  pending_unresumed : ∀ (w : ℕ) (x : Waiter), s.waits[w]? = some x → x.future = .pending →
    x.resumed = false
  served_sorted : s.served.Pairwise (· < ·)
  served_inRange : ∀ v ∈ s.served, v < s.waits.length
  served_lt : ∀ v ∈ s.served, ∀ w ∈ s.waiters, v < w

variable {cfg : BulkheadConfig} {s s' : Sys} {w : ℕ} {x y : Waiter} {k : ℕ}

theorem Future.done_iff {f : Future} : f.done = true ↔ f ≠ .pending := by
  cases f <;> simp [Future.done]

theorem Future.cancel_ne_pending (f : Future) : f.cancel ≠ .pending := by
  cases f <;> simp [Future.cancel]

theorem Future.wasHandedASlot_cancel (f : Future) : f.cancel.wasHandedASlot = f.wasHandedASlot := by
  cases f <;> rfl

/-! ## `_release` -/

/-- None of these waiters is pending. -/
def Dead (waits : List Waiter) (ws : List ℕ) : Prop :=
  ∀ d ∈ ws, ∀ y, waits[d]? = some y → y.future ≠ .pending

variable {i v : ℕ} {a : Action}

theorem Dead.cons {waits : List Waiter} {ws : List ℕ}
    (hv : ∀ y, waits[v]? = some y → y.future ≠ .pending) (h : Dead waits ws) :
    Dead waits (v :: ws) :=
  forall_mem_cons.mpr ⟨hv, h⟩

/-- The loop stops at the first pending waiter, or empties the deque. -/
theorem nextLive_cases (waits : List Waiter) (ws : List ℕ) :
    (∃ dead w x rest, ws = dead ++ w :: rest ∧ Dead waits dead ∧
      waits[w]? = some x ∧ x.future = .pending ∧
      Sys.nextLive waits ws = (rest, some (w, x))) ∨
    (Dead waits ws ∧ Sys.nextLive waits ws = ([], none)) := by
  induction ws with
  | nil => exact .inr ⟨forall_mem_nil _, rfl⟩
  | cons v ws ih =>
    by_cases hlive : ∃ x, waits[v]? = some x ∧ x.future = .pending
    · obtain ⟨x, hx, hp⟩ := hlive
      refine .inl ⟨[], v, x, ws, rfl, forall_mem_nil _, hx, hp, ?_⟩
      simp [Sys.nextLive, hx, hp, Future.done]
    -- passed over: it joins the dead ones in front
    have hv : ∀ y, waits[v]? = some y → y.future ≠ .pending :=
      fun y hy hp => hlive ⟨y, hy, hp⟩
    have e : Sys.nextLive waits (v :: ws) = Sys.nextLive waits ws := by
      cases hx : waits[v]? with
      | none => simp only [Sys.nextLive, hx]
      | some x => simp only [Sys.nextLive, hx, Future.done_iff.mpr (hv x hx), if_true]
    rw [e]
    rcases ih with ⟨dead, w, x, rest, rfl, hdead, hx, hp, e'⟩ | ⟨hdead, e'⟩
    · exact .inl ⟨v :: dead, w, x, rest, rfl, hdead.cons hv, hx, hp, e'⟩
    · exact .inr ⟨hdead.cons hv, e'⟩

/-- `_release` hands the slot to the first pending waiter of the deque, or empties the
    deque and gives the slot back. -/
theorem release_cases (s : Sys) :
    (∃ dead w x rest, s.waiters = dead ++ w :: rest ∧ Dead s.waits dead ∧
      s.waits[w]? = some x ∧ x.future = .pending ∧
      s.release = { s with
        waiters := rest
        waits := s.waits.set w { x with future := .result }
        served := s.served ++ [w] }) ∨
    (Dead s.waits s.waiters ∧
      s.release = { s with waiters := [], inFlight := s.inFlight - 1 }) := by
  rcases nextLive_cases s.waits s.waiters with ⟨dead, w, x, rest, hws, hd, hx, hp, e⟩ | ⟨hd, e⟩
  · exact .inl ⟨dead, w, x, rest, hws, hd, hx, hp, by rw [Sys.release, e]⟩
  · exact .inr ⟨hd, by rw [Sys.release, e]⟩

theorem Room.release (h : Room cfg s 1) (hq : Queue s) : Room cfg s.release 0 := by
  obtain ⟨hb, hle, hql, hf⟩ := h
  rcases release_cases s with ⟨dead, w, x, rest, hws, -, hx, hp, e⟩ | ⟨-, e⟩ <;> rw [e]
  · have hne : s.waiters ≠ [] := by rw [hws]; simp
    have hres : x.resumed = false := hq.pending_unresumed w x hx hp
    have hcount := countP_set Waiter.holds hx { x with future := .result }
    rw [if_neg (by simp [Waiter.holds, hp, Future.wasHandedASlot]),
      if_pos (by simp [Waiter.holds, hres, Future.wasHandedASlot])] at hcount
    refine ⟨?_, hle, ?_, fun _ => hf hne⟩
    · simp only [Sys.unreleased, Sys.handedOver] at hb ⊢
      omega
    · rw [hws] at hql
      simp only [length_append, length_cons] at hql
      show rest.length ≤ cfg.maxQueue
      omega
  · refine ⟨?_, Nat.le_trans (Nat.sub_le _ _) hle, Nat.zero_le _, fun h => absurd rfl h⟩
    simp only [Sys.unreleased, Sys.handedOver] at hb ⊢
    omega

/-! ## Updates that keep the order -/

/-- Writing to a waiter that is done, or that this settles. -/
theorem Queue.set (h : Queue s) (hy : y.future ≠ .pending) :
    Queue { s with waits := s.waits.set w y } where
  __ := h
  inRange v hv := by rw [length_set]; exact h.inRange v hv
  pending_mem v z hz hp := by
    rcases getElem?_set_cases hz with ⟨-, rfl⟩ | ⟨-, hz⟩
    · exact absurd hp hy
    · exact h.pending_mem v z hz hp
  pending_unresumed v z hz hp := by
    rcases getElem?_set_cases hz with ⟨-, rfl⟩ | ⟨-, hz⟩
    · exact absurd hp hy
    · exact h.pending_unresumed v z hz hp
  served_inRange v hv := by rw [length_set]; exact h.served_inRange v hv

theorem Queue.discard (h : Queue s) (hw : ∀ x, s.waits[w]? = some x → x.future ≠ .pending) :
    Queue (s.discard w) where
  sorted := h.sorted.sublist erase_sublist
  inRange v hv := h.inRange v (mem_of_mem_erase hv)
  pending_mem v z hz hp := by
    have hne : v ≠ w := by
      rintro rfl
      exact hw z hz hp
    exact (mem_erase_of_ne hne).mpr (h.pending_mem v z hz hp)
  __ := h
  served_lt v hv u hu := h.served_lt v hv u (mem_of_mem_erase hu)

theorem Room.discard (h : Room cfg s k) (w : ℕ) : Room cfg (s.discard w) k where
  __ := h
  queue_le := Nat.le_trans (length_erase_le) h.queue_le
  full hne := by
    apply h.full
    intro he
    exact hne (by rw [Sys.discard, he, erase_nil])

theorem Queue.release (h : Queue s) : Queue s.release := by
  rcases release_cases s with ⟨dead, w, x, rest, hws, hdead, hx, hp, e⟩ | ⟨hdead, e⟩ <;> rw [e]
  · have hsorted := h.sorted
    rw [hws] at hsorted
    have hrest := (pairwise_append.mp hsorted).2.1
    have hin : ∀ v ∈ w :: rest, v ∈ s.waiters := fun v hv => by
      rw [hws]; exact mem_append_right dead hv
    have hset : Queue { s with waits := s.waits.set w { x with future := .result } } :=
      h.set (by simp)
    refine ⟨hrest.of_cons, fun v hv => hset.inRange v (hin v (mem_cons_of_mem w hv)), ?_,
      hset.pending_unresumed, ?_, ?_, ?_⟩
    · intro v z hz hpz
      have hmem := hset.pending_mem v z hz hpz
      rcases getElem?_set_cases hz with ⟨-, rfl⟩ | ⟨hne, hz'⟩
      · cases hpz
      have hmem' : v ∈ dead ++ w :: rest := hws ▸ hmem
      rcases mem_append.mp hmem' with hd | hd
      · exact absurd hpz (hdead v hd z hz')
      rcases mem_cons.mp hd with rfl | hd
      · exact absurd rfl hne
      · exact hd
    · exact pairwise_snoc h.served_sorted fun v hv =>
        h.served_lt v hv w (hin w mem_cons_self)
    · rw [length_set]
      exact forall_mem_snoc h.served_inRange (h.inRange w (hin w mem_cons_self))
    · exact forall_mem_snoc
        (fun v hv u hu => h.served_lt v hv u (hin u (mem_cons_of_mem w hu)))
        fun u hu => rel_of_pairwise_cons hrest hu
  · refine { h with
      sorted := .nil, inRange := nofun, pending_mem := ?_, served_lt := fun _ _ => nofun }
    intro v z hz hpz
    exact absurd hpz (hdead v (h.pending_mem v z hz hpz) z hz)

theorem Queue.enqueue (h : Queue s) (armed : Bool) (started : Time) :
    Queue { s with
      waiters := s.waiters ++ [s.waits.length]
      waits := s.waits ++ [{ armed := armed, started := started }] } where
  sorted := pairwise_snoc h.sorted h.inRange
  inRange := by
    rw [length_append]
    exact forall_mem_snoc (fun v hv => Nat.lt_succ_of_lt (h.inRange v hv)) (Nat.lt_succ_self _)
  pending_mem v z hz hp := by
    rcases getElem?_append_cases hz with ⟨rfl, -⟩ | ⟨-, hz⟩
    · exact mem_concat_self
    · exact mem_append_left _ (h.pending_mem v z hz hp)
  pending_unresumed v z hz hp := by
    rcases getElem?_append_cases hz with ⟨-, rfl⟩ | ⟨-, hz⟩
    · rfl
    · exact h.pending_unresumed v z hz hp
  served_sorted := h.served_sorted
  served_inRange v hv := by
    rw [length_append]
    exact Nat.lt_succ_of_lt (h.served_inRange v hv)
  served_lt v hv := forall_mem_snoc (h.served_lt v hv) (h.served_inRange v hv)

/-! ## The other ledger entries -/

theorem Room.grant (h : Room cfg s 1) : Room cfg s.grant.1 0 := by
  refine { h with balance := ?_ }
  have hb := h.balance
  simp only [Sys.grant, Sys.unreleased, Sys.handedOver, countP_append,
    countP_singleton, Bool.not_false, if_true] at hb ⊢
  omega

theorem Room.set {k' : ℕ} (h : Room cfg s k) (hx : s.waits[w]? = some x)
    (hk : (if x.holds = true then 1 else 0) + k = (if y.holds = true then 1 else 0) + k') :
    Room cfg { s with waits := s.waits.set w y } k' := by
  refine ⟨?_, h.inFlight_le, h.queue_le, h.full⟩
  have hb := h.balance
  have hcount := countP_set Waiter.holds hx y
  simp only [Sys.unreleased, Sys.handedOver] at hb ⊢
  omega

/-- A waiter runs again: the slot it was handed, if any, is in its hands. -/
theorem Room.run (h : Room cfg s 0) (hx : s.waits[w]? = some x) (hr : x.resumed = false) :
    Room cfg { s with waits := s.waits.set w { x with resumed := true } }
      (if x.future.wasHandedASlot = true then 1 else 0) := by
  apply h.set hx
  simp [Waiter.holds, hr]

theorem Room.unslot (h : Room cfg s 0) (hi : s.slots[i]? = some false) :
    Room cfg { s with slots := s.slots.set i true } 1 := by
  refine ⟨?_, h.inFlight_le, h.queue_le, h.full⟩
  have hb := h.balance
  have hcount := countP_set (fun released : Bool => !released) hi true
  simp only [Bool.not_false, Bool.not_true, if_true, Bool.false_eq_true, if_false] at hcount
  simp only [Sys.unreleased, Sys.handedOver] at hb ⊢
  omega

/-- A newcomer queues, in a full compartment whose queue is not. -/
theorem Room.enqueue (h : Room cfg s 0) (armed : Bool) (started : Time)
    (hlimit : s.inFlight = cfg.limit) (hlt : s.waiters.length < cfg.maxQueue) :
    Room cfg { s with
      waiters := s.waiters ++ [s.waits.length]
      waits := s.waits ++ [{ armed := armed, started := started }] } 0 := by
  refine ⟨?_, h.inFlight_le, ?_, fun _ => hlimit⟩
  · have hb := h.balance
    simp only [Sys.unreleased, Sys.handedOver, countP_append, countP_singleton,
      Waiter.holds, Future.wasHandedASlot, Bool.false_and, Bool.false_eq_true, if_false] at hb ⊢
    omega
  · rw [length_append]
    exact hlt

/-! ## One step -/

theorem acquire_kept (hq : Queue s) (h : Room cfg s 0) (remaining : Option Time) (started : Time) :
    Queue (s.acquire cfg remaining started).1 ∧ Room cfg (s.acquire cfg remaining started).1 0 := by
  unfold Sys.acquire
  by_cases hfast : s.inFlight < cfg.limit ∧ s.waiters = []
  · rw [if_pos hfast]
    have hin : Room cfg { s with inFlight := s.inFlight + 1 } 1 :=
      ⟨by rw [h.balance]; rfl, hfast.1, h.queue_le, fun hne => absurd hfast.2 hne⟩
    exact ⟨{ hq with }, hin.grant⟩
  rw [if_neg hfast]
  have hrej : ∀ reason, Queue (s.reject cfg reason 0).1 ∧ Room cfg (s.reject cfg reason 0).1 0 :=
    fun _ => ⟨{ hq with }, { h with }⟩
  by_cases hfull : cfg.maxQueue ≤ s.waiters.length
  · rw [if_pos hfull]
    exact hrej _
  rw [if_neg hfull]
  cases Sys.waitBudget cfg remaining with
  | error reason => exact hrej reason
  | ok =>
    have hlimit : s.inFlight = cfg.limit := by
      by_cases hw : s.waiters = []
      · exact Nat.le_antisymm h.inFlight_le (Nat.le_of_not_lt fun hlt => hfast ⟨hlt, hw⟩)
      · exact h.full hw
    exact ⟨hq.enqueue _ _, h.enqueue _ _ hlimit (Nat.lt_of_not_le hfull)⟩

/-- The system once waiter `w` runs again and before it acts. -/
def Sys.wake (s : Sys) (w : ℕ) (x : Waiter) : Sys :=
  { s with waits := s.waits.set w { x with resumed := true } }

/-- A resumed waiter passes the slot it was handed on, if it was cancelled, or keeps it; or it
    has none. -/
theorem resume_eq (cfg : BulkheadConfig) (s : Sys) (w : ℕ) (x : Waiter) (now : Time) :
    (s.resume cfg w x now).1 = Sys.discard
      (if x.future.wasHandedASlot then
        if x.cancelRequested then (s.wake w x).release else (s.wake w x).grant.1
      else { s.wake w x with
        rejected := s.rejected + if x.ending = .timeoutError then 1 else 0 }) w := by
  obtain ⟨future, armed, started, timedOut, cancelRequested, resumed⟩ := x
  cases cancelRequested <;> cases timedOut <;> cases future <;> rfl

theorem release_not_pending (hw : ∀ z, s.waits[w]? = some z → z.future ≠ .pending) :
    ∀ z, s.release.waits[w]? = some z → z.future ≠ .pending := by
  intro z hz
  rcases release_cases s with ⟨_, v, y, _, -, -, -, -, e⟩ | ⟨-, e⟩ <;> rw [e] at hz
  · rcases getElem?_set_cases hz with ⟨-, rfl⟩ | ⟨-, hz⟩
    · simp
    · exact hw z hz
  · exact hw z hz

theorem wake_not_pending (hnp : x.future ≠ .pending) :
    ∀ z, (s.wake w x).waits[w]? = some z → z.future ≠ .pending := by
  intro z hz
  rcases getElem?_set_cases hz with ⟨-, rfl⟩ | ⟨hne, -⟩
  · exact hnp
  · exact absurd rfl hne

section

variable (hq : Queue s) (h : Room cfg s 0)

include hq h

theorem resume_kept {now : Time} (hx : s.waits[w]? = some x) (hd : x.future.done = true)
    (hr : x.resumed = false) :
    Queue (s.resume cfg w x now).1 ∧ Room cfg (s.resume cfg w x now).1 0 := by
  have hnp : x.future ≠ .pending := Future.done_iff.mp hd
  have hq₁ : Queue (s.wake w x) := hq.set hnp
  have h₁ : Room cfg (s.wake w x) (if x.future.wasHandedASlot = true then 1 else 0) := h.run hx hr
  have hw := wake_not_pending (s := s) (w := w) hnp
  rw [resume_eq]
  by_cases hh : x.future.wasHandedASlot = true
  · rw [if_pos hh] at h₁ ⊢
    split
    · exact ⟨hq₁.release.discard (release_not_pending hw), (h₁.release hq₁).discard w⟩
    · have hq₂ : Queue (s.wake w x).grant.1 := { hq₁ with }
      exact ⟨hq₂.discard hw, h₁.grant.discard w⟩
  · rw [if_neg hh] at h₁ ⊢
    refine ⟨Queue.discard { hq₁ with } hw, Room.discard ?_ w⟩
    exact { h₁ with }

theorem releaseSlot_kept {released : Bool} (hi : s.slots[i]? = some released) :
    Queue (s.releaseSlot i released) ∧ Room cfg (s.releaseSlot i released) 0 := by
  cases released with
  | true => exact ⟨hq, h⟩
  | false =>
    have hq₁ : Queue { s with slots := s.slots.set i true } := { hq with }
    exact ⟨hq₁.release, (h.unslot hi).release hq₁⟩

theorem interrupt_kept (hx : s.waits[w]? = some x) (hf : y.future = x.future)
    (hr : y.resumed = x.resumed) : Queue (s.interrupt w y) ∧ Room cfg (s.interrupt w y) 0 := by
  refine ⟨hq.set (Future.cancel_ne_pending _), h.set hx ?_⟩
  simp [Waiter.holds, Future.wasHandedASlot_cancel, hf, hr]

end

/-- What a step is, action by action; a wait is interrupted by its timeout or by a
    cancellation. -/
inductive Move (cfg : BulkheadConfig) (s : Sys) : Action → Sys → Prop
  | acquire {remaining : Option Time} {started : Time} :
    Move cfg s (.acquire remaining started) (s.acquire cfg remaining started).1
  | release {i : ℕ} {released : Bool} (hi : s.slots[i]? = some released) :
    Move cfg s (.release i) (s.releaseSlot i released)
  | interrupt {a : Action} {w : ℕ} {x y : Waiter} (hx : s.waits[w]? = some x)
    (hf : y.future = x.future) (hr : y.resumed = x.resumed) (ha : a = .timeout w ∨ a = .cancel w) :
    Move cfg s a (s.interrupt w y)
  | resume {w : ℕ} {now : Time} {x : Waiter} (hx : s.waits[w]? = some x)
    (hd : x.future.done = true) (hr : x.resumed = false) :
    Move cfg s (.resume w now) (s.resume cfg w x now).1
  | reset : Move cfg s .reset (s.reset cfg)

theorem step_move (h : s.step cfg a = some s') : Move cfg s a s' := by
  cases a with simp only [Sys.step] at h
  | acquire =>
    cases h
    exact .acquire
  | release =>
    split at h <;> cases h
    exact .release ‹_›
  | timeout =>
    split at h
    · obtain ⟨-, ⟨⟩⟩ := Option.ite_none_right_eq_some.mp h
      exact .interrupt ‹_› (by rfl) (by rfl) (.inl rfl)
    · cases h
  | cancel =>
    split at h
    · obtain ⟨-, ⟨⟩⟩ := Option.ite_none_right_eq_some.mp h
      exact .interrupt ‹_› (by rfl) (by rfl) (.inr rfl)
    · cases h
  | resume =>
    split at h
    · obtain ⟨hok, ⟨⟩⟩ := Option.ite_none_right_eq_some.mp h
      exact .resume ‹_› hok.1 hok.2
    · cases h
  | reset =>
    cases h
    exact .reset

theorem step_kept (hq : Queue s) (h : Room cfg s 0) (ha : NoReset s a)
    (hstep : s.step cfg a = some s') : Queue s' ∧ Room cfg s' 0 := by
  cases step_move hstep with
  | acquire => exact acquire_kept hq h _ _
  | release hi => exact releaseSlot_kept hq h hi
  | interrupt hx hf hr => exact interrupt_kept hq h hx hf hr
  | resume hx hd hr => exact resume_kept hq h hx hd hr
  | reset => exact absurd rfl ha

theorem kept_init (cfg : BulkheadConfig) : Queue {} ∧ Room cfg {} 0 := by
  refine ⟨?_, ⟨rfl, Nat.zero_le _, Nat.zero_le _, fun h => absurd rfl h⟩⟩
  constructor <;> simp

/-- Both invariants, along every run without `reset`. -/
theorem kept_of_run (hrun : Run (Sys.step cfg) NoReset {} s) : Queue s ∧ Room cfg s 0 :=
  hrun.invariant (fun h ha hstep => step_kept h.1 h.2 ha hstep) (kept_init cfg)

/-! ## Fairness -/

/-- `v` is live, and nobody who arrived before it is. -/
def Oldest (s : Sys) (v : ℕ) : Prop :=
  (∃ x, s.waits[v]? = some x ∧ x.future = .pending) ∧
    ∀ u y, u < v → s.waits[u]? = some y → y.future ≠ .pending

/-- Whoever `_release` serves is the oldest live waiter. -/
theorem Queue.release_serves (h : Queue s) (hv : v ∈ s.release.served) (hnew : v ∉ s.served) :
    Oldest s v := by
  rcases release_cases s with ⟨dead, w, x, rest, hws, hdead, hx, hp, e⟩ | ⟨-, e⟩ <;> rw [e] at hv
  · obtain rfl : v = w := (mem_snoc.mp hv).resolve_left hnew
    refine ⟨⟨x, hx, hp⟩, fun u y hlt hy hpu => ?_⟩
    -- a live waiter is in the deque, and in front of `v` there are only dead ones
    have hu : u ∈ dead ++ v :: rest := hws ▸ h.pending_mem u y hy hpu
    have hsorted := h.sorted
    rw [hws] at hsorted
    have hrest := (pairwise_append.mp hsorted).2.1
    rcases mem_append.mp hu with hu | hu
    · exact hdead u hu y hy hpu
    rcases mem_cons.mp hu with rfl | hu
    · exact Nat.lt_irrefl _ hlt
    · exact Nat.lt_asymm hlt (rel_of_pairwise_cons hrest hu)
  · exact absurd hv hnew

theorem Oldest.of_wake (hnp : x.future ≠ .pending) (hx : s.waits[w]? = some x)
    (h : Oldest (s.wake w x) v) : Oldest s v := by
  obtain ⟨⟨z, hz, hp⟩, hold⟩ := h
  constructor
  · rcases getElem?_set_cases hz with ⟨-, rfl⟩ | ⟨-, hz⟩
    · exact absurd hp hnp
    · exact ⟨z, hz, hp⟩
  · intro u y hlt hy hpu
    refine hold u y hlt (getElem?_set_of_ne hx hy ?_) hpu
    rintro rfl
    exact hnp hpu

theorem step_serves (hq : Queue s) (ha : NoReset s a) (hstep : s.step cfg a = some s')
    (hv : v ∈ s'.served) (hnew : v ∉ s.served) : Oldest s v := by
  cases step_move hstep with
  | @acquire remaining started =>
    have e : (s.acquire cfg remaining started).1.served = s.served := by
      unfold Sys.acquire
      split
      · rfl
      split
      · rfl
      · cases Sys.waitBudget cfg remaining <;> rfl
    rw [e] at hv
    exact absurd hv hnew
  | @release i released =>
    cases released with
    | true => exact absurd hv hnew
    | false =>
      have hq₁ : Queue { s with slots := s.slots.set i true } := { hq with }
      exact hq₁.release_serves hv hnew
  | interrupt => exact absurd hv hnew
  | @resume w now x hx hd =>
    have hnp : x.future ≠ .pending := Future.done_iff.mp hd
    have hq₁ : Queue (s.wake w x) := hq.set hnp
    rw [resume_eq] at hv
    split at hv
    · split at hv
      · exact (hq₁.release_serves hv hnew).of_wake hnp hx
      · exact absurd hv hnew
    · exact absurd hv hnew
  | reset => exact absurd rfl ha

theorem acquire_fast (hq : Queue s) {remaining : Option Time} {started : Time}
    (hslot : (s.acquire cfg remaining started).1.slots.length ≠ s.slots.length) :
    ∀ x ∈ s.waits, x.future ≠ .pending := by
  unfold Sys.acquire at hslot
  by_cases hfast : s.inFlight < cfg.limit ∧ s.waiters = []
  · intro x hx hp
    obtain ⟨w, hw⟩ := mem_iff_getElem?.mp hx
    have hmem := hq.pending_mem w x hw hp
    rw [hfast.2] at hmem
    cases hmem
  · rw [if_neg hfast] at hslot
    refine absurd ?_ hslot
    split
    · rfl
    · cases Sys.waitBudget cfg remaining <;> rfl

/-- **Slots are conserved and handed out fairly.** In every state of every run without
    `reset`: `in_flight` is the unreleased slots plus the waiters handed one and not yet
    resumed; it is within `limit` and the queue within `max_queue`; nobody queues in front
    of a free slot; once every slot is released and every waiter has run, `in_flight` is
    zero; waiters were served in arrival order. And whatever happens next serves only the
    oldest live waiter, and admits a newcomer at once only if no waiter is live. -/
theorem bulkhead_conserves_slots (hrun : Run (Sys.step cfg) NoReset {} s) :
    s.inFlight = s.unreleased + s.handedOver ∧
    s.inFlight ≤ cfg.limit ∧
    s.waiters.length ≤ cfg.maxQueue ∧
    (s.waiters ≠ [] → s.inFlight = cfg.limit) ∧
    ((∀ released ∈ s.slots, released = true) → (∀ x ∈ s.waits, x.resumed = true) →
      s.inFlight = 0) ∧
    s.served.Pairwise (· < ·) ∧
    (∀ a s', NoReset s a → s.step cfg a = some s' →
      (∀ v ∈ s'.served, v ∉ s.served → Oldest s v) ∧
      (∀ remaining started, a = .acquire remaining started →
        s'.slots.length ≠ s.slots.length → ∀ x ∈ s.waits, x.future ≠ .pending)) := by
  obtain ⟨hq, h⟩ := kept_of_run hrun
  refine ⟨h.balance, h.inFlight_le, h.queue_le, h.full, ?_, hq.served_sorted, ?_⟩
  · intro hslots hwaits
    have hu : s.unreleased = 0 := countP_eq_zero.mpr fun r hr => by simp [hslots r hr]
    have hh : s.handedOver = 0 :=
      countP_eq_zero.mpr fun x hx => by simp [Waiter.holds, hwaits x hx]
    rw [h.balance, hu, hh]
  · intro a s' ha hstep
    refine ⟨fun v hv hnew => step_serves hq ha hstep hv hnew, ?_⟩
    rintro remaining started rfl hslot
    obtain rfl : (s.acquire cfg remaining started).1 = s' := Option.some.inj hstep
    exact acquire_fast hq hslot

/-- One slot, two callers behind it, the first of them cancelled in the queue and the
    second handed the slot and cancelled before it runs: nothing is lost. -/
theorem bulkhead_conserves_slots_cancelled_waiters :
    let cfg : BulkheadConfig := { limit := 1 }
    ∃ s, Run (Sys.step cfg) NoReset {} s ∧ s.served = [1] ∧ s.inFlight = 0 ∧
      s.inFlight = s.unreleased + s.handedOver := by
  intro cfg
  refine Run.exists_of_replay_and₂ [.acquire none 0, .acquire none 0, .acquire none 0, .cancel 0,
    .release 0, .release 0, .cancel 1, .resume 0 1, .resume 1 1] (by decide +kernel) ?_
  intro s hrun _ _
  exact (bulkhead_conserves_slots hrun).1

end Resilience.Bulkhead
