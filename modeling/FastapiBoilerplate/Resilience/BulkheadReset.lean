import FastapiBoilerplate.Resilience.BulkheadSlots

/-!
# What a reset does to the accounting

`reset` zeroes `_in_flight`, but the slots handed out before it are still in somebody's hands, and
so are the hand-offs to waiters that have not run yet. When one of those is given back, `_release`
takes it for one of the slots counted since: a compartment that is full lets one more in.

`Aged` marks what dates from before the last reset; `Aged.current` is the compartment with that
struck from the books, and its ledger is what the limit is about. As long as nothing old is given
back while somebody new is in flight, every step is one of the struck compartment too, or does
not touch its ledger, and `Room` carries over.
-/

namespace Resilience.Bulkhead

open Lib List Option

/-- The compartment, and the slots and waiters from before the last reset. -/
structure Aged where
  sys : Sys := {}
  oldSlots : List ℕ := []
  oldWaits : List ℕ := []

/-- The compartment with these slots taken as released and these waiters as having run. -/
def Sys.strike (s : Sys) (slots waits : List ℕ) : Sys :=
  { s with
    slots := s.slots.mapIdx fun i released => released || decide (i ∈ slots)
    waits := s.waits.mapIdx fun w x => { x with resumed := x.resumed || decide (w ∈ waits) } }

namespace Aged

/-- The compartment without what dates from before the last reset. -/
def current (t : Aged) : Sys := t.sys.strike t.oldSlots t.oldWaits

/-- The calls admitted since the last reset whose slot has not been released. -/
def admitted (t : Aged) : ℕ := t.current.unreleased + t.current.handedOver

/-- What is old after an action: everything after a `reset`, and the slot of an old waiter. -/
def step (cfg : BulkheadConfig) (t : Aged) (a : Action) : Option Aged :=
  (t.sys.step cfg a).map fun s =>
    match a with
    | .reset =>
      { sys := s, oldSlots := List.range s.slots.length, oldWaits := List.range s.waits.length }
    | .resume w _ =>
      { t with
        sys := s
        oldSlots := if w ∈ t.oldWaits then
          t.oldSlots ++ List.range' t.sys.slots.length (s.slots.length - t.sys.slots.length)
          else t.oldSlots }
    | _ => { t with sys := s }

/-- Nothing old is given back while a new call is in flight: neither by the release of an old
    slot nor by an old waiter that was handed one and is cancelled. -/
def NothingOldBack (t : Aged) : Action → Prop
  | .release i => i ∈ t.oldSlots → t.sys.slots[i]? = some false → t.sys.inFlight = 0
  | .resume w _ => w ∈ t.oldWaits →
      (t.sys.waits[w]?).any (fun x => x.future.wasHandedASlot && x.cancelRequested) = true →
      t.sys.inFlight = 0
  | _ => True

instance (t : Aged) (a : Action) : Decidable (t.NothingOldBack a) := by
  unfold NothingOldBack
  split <;> infer_instance

end Aged

/-! ## Striking and stepping -/

section
variable {cfg : BulkheadConfig} {s : Sys} {O W : List ℕ}

theorem nextLive_mapIdx (g : ℕ → Waiter → Waiter) (hg : ∀ w x, (g w x).future = x.future)
    (waits : List Waiter) (ws : List ℕ) : Sys.nextLive (waits.mapIdx g) ws =
      ((Sys.nextLive waits ws).1, (Sys.nextLive waits ws).2.map fun found =>
        (found.1, g found.1 found.2)) := by
  induction ws with
  | nil => rfl
  | cons w ws ih =>
    simp only [Sys.nextLive, getElem?_mapIdx]
    cases hw : waits[w]? with
    | none => exact ih
    | some =>
      simp only [map_some, hg]
      split
      · exact ih
      · rfl

section

variable (s : Sys)

theorem strike_release (O W : List ℕ) : s.release.strike O W = (s.strike O W).release := by
  have hnext := nextLive_mapIdx (fun w x => { x with resumed := x.resumed || decide (w ∈ W) })
    (fun _ _ => rfl) s.waits s.waiters
  unfold Sys.release
  rw [show Sys.nextLive (s.strike O W).waits (s.strike O W).waiters = _ from hnext]
  rcases Sys.nextLive s.waits s.waiters with ⟨ws, found⟩
  cases found with
  | none => rfl
  | some => simp [Sys.strike, mapIdx_set]

theorem strike_releaseSlot (O W : List ℕ) (i : ℕ) (released : Bool) :
    (s.releaseSlot i released).strike O W = (s.strike O W).releaseSlot i released := by
  unfold Sys.releaseSlot
  split
  · rfl
  rw [strike_release]
  congr 1
  simp [Sys.strike, mapIdx_set]

theorem strike_grant (hO : ∀ i ∈ O, i < s.slots.length) (W : List ℕ) :
    s.grant.1.strike O W = (s.strike O W).grant.1 := by
  have hnew : s.slots.length ∉ O := fun h => Nat.lt_irrefl _ (hO _ h)
  simp [Sys.grant, Sys.strike, mapIdx_concat, hnew]

theorem strike_acquire (hO : ∀ i ∈ O, i < s.slots.length) (hW : ∀ w ∈ W, w < s.waits.length)
    (remaining : Option Time) (started : Time) :
    (s.acquire cfg remaining started).1.strike O W =
      ((s.strike O W).acquire cfg remaining started).1 := by
  have hnew : s.waits.length ∉ W := fun h => Nat.lt_irrefl _ (hW _ h)
  have hin : (s.strike O W).inFlight = s.inFlight := rfl
  have hwaiters : (s.strike O W).waiters = s.waiters := rfl
  unfold Sys.acquire
  rw [hin, hwaiters]
  split
  · exact strike_grant { s with inFlight := s.inFlight + 1 } hO W
  split
  · rfl
  cases Sys.waitBudget cfg remaining with
  | error => rfl
  | ok => simp [Sys.strike, mapIdx_concat, hnew]

theorem strike_wake (O W : List ℕ) (w : ℕ) (x : Waiter) :
    (s.wake w x).strike O W = (s.strike O W).wake w x := by
  simp [Sys.wake, Sys.strike, mapIdx_set]

theorem strike_resume (hO : ∀ i ∈ O, i < s.slots.length) (W : List ℕ) (w : ℕ) (x : Waiter)
    (now : Time) : (s.resume cfg w x now).1.strike O W = ((s.strike O W).resume cfg w x now).1 := by
  rw [resume_eq, resume_eq, ← strike_wake]
  split
  · split
    · rw [← strike_release]
      rfl
    · rw [← strike_grant (s.wake w x) hO W]
      rfl
  · rfl

theorem strike_interrupt (O W : List ℕ) (w : ℕ) (x : Waiter) :
    (s.interrupt w x).strike O W =
      (s.strike O W).interrupt w { x with resumed := x.resumed || decide (w ∈ W) } := by
  simp [Sys.interrupt, Sys.strike, mapIdx_set]

theorem getElem?_strike_slots (O W : List ℕ) (i : ℕ) : (s.strike O W).slots[i]? =
    (s.slots[i]?).map fun released => released || decide (i ∈ O) := by
  simp [Sys.strike, getElem?_mapIdx]

theorem getElem?_strike_waits (O W : List ℕ) (w : ℕ) : (s.strike O W).waits[w]? =
    (s.waits[w]?).map fun x => { x with resumed := x.resumed || decide (w ∈ W) } := by
  simp [Sys.strike, getElem?_mapIdx]

end

/-! ## One step -/

/-- What holds after any number of resets: the struck compartment is in order and its ledger is
    square, and what is old is there. -/
structure Aged.Kept (cfg : BulkheadConfig) (t : Aged) : Prop where
  queue : Queue t.current
  room : Room cfg t.current 0
  slots_lt : ∀ i ∈ t.oldSlots, i < t.sys.slots.length
  waits_lt : ∀ w ∈ t.oldWaits, w < t.sys.waits.length

variable {t : Aged}

theorem Aged.Kept.idle (h : t.Kept cfg) (hzero : t.sys.inFlight = 0) : t.sys.waiters = [] := by
  by_contra hne
  have hfull := h.room.full hne
  have hlimit := cfg.one_le_limit
  have : t.current.inFlight = 0 := hzero
  omega

theorem release_idle (hzero : s.inFlight = 0) (hwaiters : s.waiters = []) : s.release = s := by
  obtain ⟨inFlight, waiters, rejected, waits, slots, served⟩ := s
  obtain rfl : inFlight = 0 := hzero
  obtain rfl : waiters = [] := hwaiters
  rfl

theorem lengths_release (s : Sys) :
    s.release.slots.length = s.slots.length ∧ s.release.waits.length = s.waits.length := by
  rcases release_cases s with ⟨_, w, x, _, -, -, -, -, e⟩ | ⟨-, e⟩
  · rw [e]
    exact ⟨rfl, length_set⟩
  · rw [e]
    exact ⟨rfl, rfl⟩

theorem length_failWaiters (waits : List Waiter) (ws : List ℕ) :
    (s.failWaiters cfg waits ws).length = waits.length := by
  induction ws generalizing waits with
  | nil => rfl
  | cons w ws ih =>
    rw [Sys.failWaiters, ih, Sys.failWaiter]
    split
    · split
      · rfl
      · exact length_set
    · rfl

variable {a : Action} {w : ℕ} {x : Waiter} {now : Time}

theorem lengths_step {s' : Sys} (h : s.step cfg a = some s') :
    s.slots.length ≤ s'.slots.length ∧ s.waits.length ≤ s'.waits.length := by
  cases step_move h with
  | @acquire remaining =>
    unfold Sys.acquire
    split
    · simp [Sys.grant]
    split
    · exact ⟨Nat.le_refl _, Nat.le_refl _⟩
    cases Sys.waitBudget cfg remaining with
    | error => exact ⟨Nat.le_refl _, Nat.le_refl _⟩
    | ok => simp
  | @release i =>
    unfold Sys.releaseSlot
    split
    · exact ⟨Nat.le_refl _, Nat.le_refl _⟩
    obtain ⟨hslots, hwaits⟩ := lengths_release { s with slots := s.slots.set i true }
    rw [hslots, hwaits, length_set]
    exact ⟨Nat.le_refl _, Nat.le_refl _⟩
  | interrupt => simp [Sys.interrupt]
  | @resume w now x =>
    have hwake : (s.wake w x).waits.length = s.waits.length := length_set
    rw [resume_eq]
    split
    · split
      · obtain ⟨hslots, hwaits⟩ := lengths_release (s.wake w x)
        exact ⟨hslots.ge, (hwaits.trans hwake).ge⟩
      · simp [Sys.discard, Sys.grant, Sys.wake]
    · exact ⟨Nat.le_refl _, hwake.ge⟩
  | reset => exact ⟨Nat.le_refl _, (length_failWaiters s.waits s.waiters).ge⟩

theorem Aged.Kept.follow (h : t.Kept cfg) {s' : Sys} (hstep : t.sys.step cfg a = some s')
    (hcurrent : Queue (s'.strike t.oldSlots t.oldWaits) ∧
      Room cfg (s'.strike t.oldSlots t.oldWaits) 0) :
    Aged.Kept cfg { t with sys := s' } := by
  obtain ⟨hslots, hwaits⟩ := lengths_step hstep
  exact ⟨hcurrent.1, hcurrent.2, fun i hi => Nat.lt_of_lt_of_le (h.slots_lt i hi) hslots,
    fun w hw => Nat.lt_of_lt_of_le (h.waits_lt w hw) hwaits⟩

theorem Aged.Kept.release (h : t.Kept cfg) {i : ℕ} {released : Bool}
    (hi : t.sys.slots[i]? = some released) (hok : t.NothingOldBack (.release i)) :
    Queue ((t.sys.releaseSlot i released).strike t.oldSlots t.oldWaits) ∧
      Room cfg ((t.sys.releaseSlot i released).strike t.oldSlots t.oldWaits) 0 := by
  cases released with
  | true => exact ⟨h.queue, h.room⟩
  | false =>
    have hget := getElem?_strike_slots t.sys t.oldSlots t.oldWaits i
    rw [hi, map_some, Bool.false_or] at hget
    rw [strike_releaseSlot]
    by_cases hold : i ∈ t.oldSlots
    · -- the struck compartment is empty, and has the slot down as released
      have hzero := hok hold hi
      rw [decide_eq_true hold] at hget
      have hstruck : t.current.releaseSlot i false = t.current := by
        show Sys.release { t.current with slots := t.current.slots.set i true } = t.current
        rw [set_of_getElem? (show t.current.slots[i]? = _ from hget)]
        exact release_idle hzero (h.idle hzero)
      show Queue (t.current.releaseSlot i false) ∧ Room cfg (t.current.releaseSlot i false) 0
      rw [hstruck]
      exact ⟨h.queue, h.room⟩
    · rw [decide_eq_false hold] at hget
      exact releaseSlot_kept h.queue h.room hget

/-- That an old waiter runs is nothing the struck compartment sees: there it has run already. -/
theorem strike_wake_old (hx : t.sys.waits[w]? = some x) (hold : w ∈ t.oldWaits) :
    (t.sys.wake w x).strike t.oldSlots t.oldWaits = t.current := by
  have hget := getElem?_strike_waits t.sys t.oldSlots t.oldWaits w
  rw [hx, map_some, decide_eq_true hold, Bool.or_true] at hget
  rw [strike_wake]
  show { t.current with waits := t.current.waits.set w { x with resumed := true } } = t.current
  rw [set_of_getElem? (show t.current.waits[w]? = _ from hget)]

theorem current_not_pending (hx : t.sys.waits[w]? = some x) (hnp : x.future ≠ .pending) :
    ∀ z, t.current.waits[w]? = some z → z.future ≠ .pending := by
  intro z hz
  rw [Aged.current, getElem?_strike_waits, hx, map_some] at hz
  cases hz
  exact hnp

/-- The slot of an old waiter is old itself. -/
theorem Aged.Kept.grant_old (h : t.Kept cfg)
    (hwake : (t.sys.wake w x).strike t.oldSlots t.oldWaits = t.current)
    (hlength : (t.sys.wake w x).waits.length = t.sys.waits.length)
    (hnp : ∀ z, t.current.waits[w]? = some z → z.future ≠ .pending) :
    Aged.Kept cfg { t with
      sys := (t.sys.wake w x).grant.1.discard w
      oldSlots := t.oldSlots ++ List.range' t.sys.slots.length
        (((t.sys.wake w x).grant.1.discard w).slots.length - t.sys.slots.length) } := by
  have hone : ((t.sys.wake w x).grant.1.discard w).slots.length - t.sys.slots.length = 1 := by
    simp [Sys.discard, Sys.grant, Sys.wake]
  rw [hone]
  -- in the struck compartment the new slot is one that has been released
  have hslots : ((t.sys.wake w x).grant.1.discard w).strike
      (t.oldSlots ++ List.range' t.sys.slots.length 1) t.oldWaits =
        Sys.discard { t.current with slots := t.current.slots ++ [true] } w := by
    rw [← hwake]
    have hsame : t.sys.slots.mapIdx (fun i released => released ||
        decide (i ∈ t.oldSlots ++ List.range' t.sys.slots.length 1)) =
          t.sys.slots.mapIdx fun i released => released || decide (i ∈ t.oldSlots) := by
      apply mapIdx_eq_mapIdx_iff.mpr
      intro i hi
      have : i ≠ t.sys.slots.length := Nat.ne_of_lt hi
      simp [this]
    simp only [Sys.discard, Sys.grant, Sys.wake, Sys.strike, mapIdx_concat, hsame]
    simp
  constructor
  case queue =>
    show Queue (((t.sys.wake w x).grant.1.discard w).strike _ _)
    rw [hslots]
    have hq : Queue { t.current with slots := t.current.slots ++ [true] } := { h.queue with }
    exact hq.discard hnp
  case room =>
    show Room cfg (((t.sys.wake w x).grant.1.discard w).strike _ _) 0
    rw [hslots]
    have hr : Room cfg { t.current with slots := t.current.slots ++ [true] } 0 := by
      refine { h.room with balance := ?_ }
      have hb := h.room.balance
      simp only [Sys.unreleased, Sys.handedOver, countP_append] at hb ⊢
      simpa using hb
    exact hr.discard w
  case slots_lt =>
    intro i hi
    show i < (t.sys.slots ++ [false]).length
    rw [length_append]
    rcases mem_append.mp hi with hi | hi
    · exact Nat.lt_succ_of_lt (h.slots_lt i hi)
    · have : i = t.sys.slots.length := by simpa using hi
      exact this ▸ Nat.lt_succ_self _
  case waits_lt => exact fun v hv => hlength ▸ h.waits_lt v hv

theorem Aged.Kept.resume_old (h : t.Kept cfg) (hx : t.sys.waits[w]? = some x)
    (hdone : x.future.done = true) (hold : w ∈ t.oldWaits) (hok : t.NothingOldBack (.resume w now)) :
    Aged.Kept cfg { t with
      sys := (t.sys.resume cfg w x now).1
      oldSlots := t.oldSlots ++ List.range' t.sys.slots.length
        ((t.sys.resume cfg w x now).1.slots.length - t.sys.slots.length) } := by
  have hnp := current_not_pending hx (Future.done_iff.mp hdone)
  have hwake := strike_wake_old hx hold
  -- apart from the slot, the struck compartment only sees the waiter leave the queue
  have hleft : ∀ (s' : Sys) (n : ℕ),
      s'.strike t.oldSlots t.oldWaits = Sys.discard { t.current with rejected := n } w →
      s'.slots.length = t.sys.slots.length → s'.waits.length = t.sys.waits.length →
      Aged.Kept cfg { t with
        sys := s'
        oldSlots := t.oldSlots ++ List.range' t.sys.slots.length
          (s'.slots.length - t.sys.slots.length) } := by
    intro s' n hs' hslots hwaits
    have hq : Queue { t.current with rejected := n } := { h.queue with }
    have hr : Room cfg { t.current with rejected := n } 0 := { h.room with }
    rw [hslots, Nat.sub_self, range'_zero, append_nil]
    refine ⟨?_, ?_, fun i hi => hslots ▸ h.slots_lt i hi, fun v hv => hwaits ▸ h.waits_lt v hv⟩
    · show Queue (s'.strike t.oldSlots t.oldWaits)
      rw [hs']
      exact hq.discard hnp
    · show Room cfg (s'.strike t.oldSlots t.oldWaits) 0
      rw [hs']
      exact hr.discard w
  have hlength : (t.sys.wake w x).waits.length = t.sys.waits.length := length_set
  rw [resume_eq]
  split
  · next hhanded =>
    split
    · next hcancel =>
      have hzero := hok hold (by simp [hx, hhanded, hcancel])
      have hidle : (t.sys.wake w x).release = t.sys.wake w x :=
        release_idle hzero (h.idle hzero)
      rw [hidle]
      exact hleft _ t.current.rejected (by rw [← hwake]; rfl) rfl hlength
    · exact h.grant_old hwake hlength hnp
  · exact hleft _ _ (by rw [← hwake]; rfl) rfl hlength

/-- After the loop of `reset` whoever is pending was so before, and not in the deque. -/
theorem pending_of_failWaiters {waits : List Waiter} {ws : List ℕ}
    (hx : (s.failWaiters cfg waits ws)[w]? = some x) (hp : x.future = .pending) :
    waits[w]? = some x ∧ w ∉ ws := by
  induction ws generalizing waits with
  | nil => exact ⟨hx, by simp⟩
  | cons v ws ih =>
    obtain ⟨hget, hnot⟩ := ih hx
    suffices h : waits[w]? = some x ∧ w ≠ v from
      ⟨h.1, not_mem_cons_of_ne_of_not_mem h.2 hnot⟩
    unfold Sys.failWaiter at hget
    split at hget
    · rename_i y hy
      split at hget
      · rename_i hdone
        refine ⟨hget, ?_⟩
        rintro rfl
        obtain rfl : y = x := some.inj (hy.symm.trans hget)
        exact Future.done_iff.mp hdone hp
      · rcases getElem?_set_cases hget with ⟨-, rfl⟩ | ⟨hne, hget⟩
        · cases hp
        · exact ⟨hget, hne⟩
    · rename_i hnone
      refine ⟨hget, ?_⟩
      rintro rfl
      rw [hnone] at hget
      cases hget

/-- After a `reset` everything is old: the struck compartment is empty. -/
theorem Aged.Kept.reset (h : t.Kept cfg) :
    Aged.Kept cfg {
      sys := t.sys.reset cfg
      oldSlots := List.range (t.sys.reset cfg).slots.length
      oldWaits := List.range (t.sys.reset cfg).waits.length } := by
  let r := t.sys.reset cfg
  let struck := r.strike (List.range r.slots.length) (List.range r.waits.length)
  have hlength : r.waits.length = t.sys.waits.length :=
    length_failWaiters t.sys.waits t.sys.waiters
  -- nobody is pending: who was, was in the deque
  have hdone : ∀ (w : ℕ) (x : Waiter), r.waits[w]? = some x → x.future ≠ .pending := by
    intro w x hx hp
    obtain ⟨hget, hnot⟩ := pending_of_failWaiters hx hp
    have hcurrent : t.current.waits[w]? =
        some { x with resumed := x.resumed || decide (w ∈ t.oldWaits) } := by
      rw [Aged.current, getElem?_strike_waits, hget]
      rfl
    exact hnot (h.queue.pending_mem w _ hcurrent hp)
  have hcurrent : ∀ (w : ℕ) (x : Waiter), struck.waits[w]? = some x →
      x.future ≠ .pending ∧ x.resumed = true := by
    intro w x hx
    rw [getElem?_strike_waits] at hx
    obtain ⟨y, hy, rfl⟩ := map_eq_some_iff.mp hx
    have hlt := lt_of_getElem? hy
    exact ⟨hdone w y hy, by simp [hlt]⟩
  constructor
  case queue =>
    refine ⟨List.Pairwise.nil, by simp [Sys.reset, Sys.strike, Aged.current], ?_, ?_,
      h.queue.served_sorted, ?_, by simp [Sys.reset, Sys.strike, Aged.current]⟩
    · exact fun w x hx hp => absurd hp (hcurrent w x hx).1
    · exact fun w x hx hp => absurd hp (hcurrent w x hx).1
    intro v hv
    have hlt : v < t.current.waits.length := h.queue.served_inRange v hv
    simp only [Aged.current, Sys.strike, length_mapIdx] at hlt ⊢
    exact hlength ▸ hlt
  case room =>
    refine ⟨?_, Nat.zero_le _, Nat.zero_le _, fun hne => absurd rfl hne⟩
    have hslots : struck.unreleased = 0 := by
      apply countP_eq_zero.mpr
      intro released hmem
      obtain ⟨i, hi⟩ := mem_iff_getElem?.mp hmem
      rw [getElem?_strike_slots] at hi
      obtain ⟨old, hold, rfl⟩ := map_eq_some_iff.mp hi
      simp [lt_of_getElem? hold]
    have hwaits : struck.handedOver = 0 := by
      apply countP_eq_zero.mpr
      intro x hmem
      obtain ⟨w, hw⟩ := mem_iff_getElem?.mp hmem
      simp [Waiter.holds, (hcurrent w x hw).2]
    show 0 = _ + _ + 0
    rw [Aged.current, hslots, hwaits]
  case slots_lt => exact fun i hi => mem_range.mp hi
  case waits_lt => exact fun w hw => mem_range.mp hw

theorem Aged.step_kept {t' : Aged} (h : t.Kept cfg) (hok : t.NothingOldBack a)
    (hstep : t.step cfg a = some t') : t'.Kept cfg := by
  obtain ⟨s', hs', rfl⟩ := map_eq_some_iff.mp hstep
  cases step_move hs' with
  | acquire =>
    apply h.follow hs'
    rw [strike_acquire t.sys h.slots_lt h.waits_lt]
    exact acquire_kept h.queue h.room _ _
  | release hi => exact h.follow hs' (h.release hi hok)
  | @interrupt _ w _ y hx hf hr ha =>
    have hkept : Aged.Kept cfg { t with sys := t.sys.interrupt w y } := by
      apply h.follow hs'
      rw [strike_interrupt]
      have hget := getElem?_strike_waits t.sys t.oldSlots t.oldWaits w
      rw [hx, map_some] at hget
      exact interrupt_kept h.queue h.room hget hf (by simp [hr])
    rcases ha with rfl | rfl
    · exact hkept
    · exact hkept
  | @resume w now x hx hd hr =>
    by_cases hold : w ∈ t.oldWaits
    · simp only [hold, if_true]
      exact h.resume_old hx hd hold hok
    simp only [hold, if_false]
    apply h.follow hs'
    rw [strike_resume t.sys h.slots_lt]
    have hget := getElem?_strike_waits t.sys t.oldSlots t.oldWaits w
    rw [hx, map_some, decide_eq_false hold, Bool.or_false] at hget
    exact resume_kept h.queue h.room hget hd hr
  | reset => exact h.reset

theorem Aged.kept_init (cfg : BulkheadConfig) : Aged.Kept cfg {} := by
  obtain ⟨hq, hr⟩ := Bulkhead.kept_init cfg
  exact ⟨hq, hr, by simp, by simp⟩

end

/-! ## The limit -/

/-- If nothing from before a reset is given back while a call admitted after it is in flight, the
    calls admitted since the last reset stay within the limit, whatever else happens. -/
theorem admitted_since_reset_le_limit {cfg : BulkheadConfig} {t : Aged}
    (hrun : Run (Aged.step cfg) Aged.NothingOldBack {} t) : t.admitted ≤ cfg.limit := by
  have h : t.Kept cfg := hrun.invariant (fun h hok hstep => Aged.step_kept h hok hstep)
    (Aged.kept_init cfg)
  have hbalance := h.room.balance
  have hle := h.room.inFlight_le
  unfold Aged.admitted
  omega

/-- One slot: it is taken, the compartment is reset, the slot is given back while nobody is in
    flight, and taken again. -/
theorem admitted_since_reset_le_limit_idle :
    let cfg : BulkheadConfig := { limit := 1 }
    ∃ t, Run (Aged.step cfg) Aged.NothingOldBack {} t ∧ t.sys.slots = [true, false] ∧
      t.admitted ≤ cfg.limit := by
  intro cfg
  refine Run.exists_of_replay_and [.acquire none 0, .reset, .release 0, .acquire none 0]
    (by decide +kernel) fun hrun _ => ?_
  exact admitted_since_reset_le_limit hrun

/-- One slot: it is taken, the compartment is reset, a second call is admitted, the first gives
    its slot back, and a third call is admitted next to the second. -/
theorem admitted_since_reset_two_of_one :
    let cfg : BulkheadConfig := { limit := 1 }
    ∃ t, Run (Aged.step cfg) Always {} t ∧ t.admitted = 2 ∧ cfg.limit < t.admitted := by
  intro cfg
  refine Run.exists_of_replay
    [.acquire none 0, .reset, .acquire none 0, .release 0, .acquire none 0] ?_
  decide +kernel

end Resilience.Bulkhead
