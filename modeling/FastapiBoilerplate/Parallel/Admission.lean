import FastapiBoilerplate.Parallel.Cpu

/-!
# Slots and work

Every call that is admitted takes one slot, and gives it back when its wrapper is done. The wrapper
is done when the work has ended, with one exception: it is cancelled with the caller who awaits it,
and if the executor's future counts as running by then, the slot is given back while the call runs
on, or waits on the queue of the workers, and the next call is admitted on top of it
(`admission_overrun`). As long as every cancellation finds the future pending, or over, the slots
are the bound they are meant to be (`admission_bounded`).
-/

namespace Parallel

open Lib List Option

section
variable {ρ ε : Type}

/-- The calls whose work has not ended. -/
def Sys.unfinished (s : Sys ρ ε) : ℕ := s.calls.countP fun c => !c.work.hasEnded

/-- No cancellation is passed on to a future that is running: not to a call in a worker, and not to
    one on the queue of the workers. -/
def Uncut (s : Sys ρ ε) : Action ρ ε → Prop
  | .check i => (s.calls[i]?).all fun c => !c.work.isRunning
  | _ => True

instance (s : Sys ρ ε) (a : Action ρ ε) : Decidable (Uncut s a) := by
  unfold Uncut
  split <;> infer_instance

/-- A wrapper that is done stands for work that has ended. -/
def Call.Honest (c : Call ρ ε) : Prop :=
  c.wrapper = .done ∨ c.wrapper = .released → c.work.hasEnded = true

/-- What happens to a call while it keeps its slot, or has given it back. -/
structure Call.Goes (c c' : Call ρ ε) : Prop where
  released : c'.wrapper = .released ↔ c.wrapper = .released
  honest : c.Honest → c'.Honest

theorem Call.Goes.refl (c : Call ρ ε) : c.Goes c := ⟨Iff.rfl, id⟩

variable {c : Call ρ ε} {i : ℕ}

variable {result : Option (Result ρ ε)} {next : Call ρ ε → Option (Call ρ ε)}

theorem Call.Goes.work {work : Work ρ ε} (h : c.work.hasEnded = true → work.hasEnded = true) :
    c.Goes { c with work, result } :=
  ⟨Iff.rfl, fun hc hdone => h (hc hdone)⟩

theorem Call.Goes.cancel (c : Call ρ ε) :
    c.Goes { c with wrapper := c.wrapper.cancel, result } := by
  cases hwrapper : c.wrapper with
  | pending => exact ⟨by simp [hwrapper, Wrapper.cancel], by simp [Honest, Wrapper.cancel]⟩
  | cancelled | done | released =>
    exact ⟨by simp [hwrapper, Wrapper.cancel], by simp [Honest, hwrapper, Wrapper.cancel]⟩

variable {pool : CpuPool} {s s' : Sys ρ ε} {a : Action ρ ε}

/-- What a step does to the slots. -/
inductive Sys.Effect (s : Sys ρ ε) : Sys ρ ε → Prop
  | quiet {s' : Sys ρ ε} (slots : s'.slots = s.slots) (returned : s'.returned = s.returned)
      (calls : List.Forall₂ Call.Goes s.calls s'.calls) : Effect s s'
  | enter (free : 0 < s.slots) (x : ℕ) (timeout : Option Seconds) :
      Effect s { s with slots := s.slots - 1, calls := s.calls ++ [{ executor := x, timeout }] }
  | callback {i : ℕ} {c : Call ρ ε} (there : s.calls[i]? = some c) (done : c.wrapper = .done) :
      Effect s (s.callback i c)

theorem quiet_update (hstep : s.update i next = some s')
    (hnext : ∀ c c', s.calls[i]? = some c → next c = some c' → c.Goes c') : s.Effect s' := by
  obtain ⟨c, hget, hstep⟩ := bind_eq_some_iff.mp hstep
  obtain ⟨c', hc', rfl⟩ := map_eq_some_iff.mp hstep
  exact .quiet rfl rfl (forall₂_set Call.Goes.refl hget (hnext c c' hget hc'))

theorem quiet_same (hslots : s'.slots = s.slots) (hreturned : s'.returned = s.returned)
    (hcalls : s'.calls = s.calls) : s.Effect s' :=
  .quiet hslots hreturned (hcalls ▸ forall₂_same.mpr fun c _ => Call.Goes.refl c)

theorem replace_same (s : Sys ρ ε) (x : ℕ) :
    (s.replaceBrokenExecutor x).slots = s.slots ∧
      (s.replaceBrokenExecutor x).returned = s.returned ∧
      (s.replaceBrokenExecutor x).calls = s.calls := by
  unfold Sys.replaceBrokenExecutor
  split <;> exact ⟨rfl, rfl, rfl⟩

theorem submit_effect (offloadable : Bool) (timeout : Option Seconds) :
    s.Effect (s.submit pool offloadable timeout).1 := by
  unfold Sys.submit
  split
  · exact quiet_same rfl rfl rfl
  split
  · exact quiet_same rfl rfl rfl
  split
  · exact quiet_same rfl rfl rfl
  rename_i hslots
  split
  · exact .enter (Nat.pos_of_ne_zero hslots) _ timeout
  · obtain ⟨h₁, h₂, h₃⟩ := replace_same s _
    exact quiet_same h₁ h₂ h₃
  · exact quiet_same rfl rfl rfl
  · exact quiet_same rfl rfl rfl

theorem die_effect (x : ℕ) : s.Effect (s.die x) := by
  refine .quiet rfl rfl ?_
  rw [Sys.die, forall₂_map_right_iff, forall₂_same]
  intro c _
  split
  · refine Call.Goes.work fun hended => ?_
    cases hwork : c.work <;> rfl
  · exact Call.Goes.refl c

theorem resume_effect (hget : s.calls[i]? = some c) (ending : Ending ρ ε) :
    s.Effect (s.resume i c ending) := by
  have hcalls : List.Forall₂ Call.Goes s.calls
      (s.calls.set i { c with result := some (c.outcome ending) }) :=
    forall₂_set Call.Goes.refl hget (Call.Goes.work id)
  unfold Sys.resume
  split
  · obtain ⟨h₁, h₂, h₃⟩ := replace_same
      { s with calls := s.calls.set i { c with result := some (c.outcome _) } } c.executor
    exact .quiet h₁ h₂ (h₃ ▸ hcalls)
  · exact .quiet rfl rfl hcalls

theorem effect_of_step (hok : Uncut s a) (hstep : s.step pool a = some s') : s.Effect s' := by
  cases a with
  | start =>
    cases hstep
    unfold Sys.start
    split <;> exact quiet_same rfl rfl rfl
  | shutdown =>
    cases hstep
    unfold Sys.shutdown
    split <;> exact quiet_same rfl rfl rfl
  | submit offloadable timeout =>
    cases hstep
    exact submit_effect offloadable timeout
  | enqueue =>
    refine quiet_update hstep fun c c' _ hc' => ?_
    obtain ⟨hqueued, ⟨⟩⟩ := ite_none_right_eq_some.mp hc'
    exact Call.Goes.work (by cases hwork : c.work <;> simp_all [Work.hasEnded])
  | begin =>
    refine quiet_update hstep fun c c' _ hc' => ?_
    split at hc' <;> cases hc'
    exact Call.Goes.work (by simp [*, Work.hasEnded])
  | finish =>
    refine quiet_update hstep fun c c' _ hc' => ?_
    obtain ⟨-, ⟨⟩⟩ := ite_none_right_eq_some.mp hc'
    exact Call.Goes.work fun _ => rfl
  | die x =>
    simp only [Sys.step] at hstep
    split at hstep <;> cases hstep
    exact die_effect x
  | notice =>
    refine quiet_update hstep fun c c' _ hc' => ?_
    split at hc' <;> cases hc'
    rename_i hended
    rw [Bool.and_eq_true, decide_eq_true_eq] at hended
    exact ⟨by simp [hended.2], fun _ _ => hended.1⟩
  | check =>
    refine quiet_update hstep fun c c' hget hc' => ?_
    split at hc' <;> cases hc'
    rename_i hcancelled
    refine ⟨by simp [hcancelled], fun _ _ => ?_⟩
    rw [Uncut, hget] at hok
    cases hwork : c.work with
    | queued | ended => rfl
    | called | running => simp [hwork, Work.isRunning] at hok
  | callback =>
    obtain ⟨c, hget, hstep⟩ := bind_eq_some_iff.mp hstep
    split at hstep <;> cases hstep
    exact .callback hget ‹_›
  | timeout =>
    refine quiet_update hstep fun c c' _ hc' => ?_
    split at hc' <;> cases hc'
    exact Call.Goes.work id
  | cancel =>
    refine quiet_update hstep fun c c' _ hc' => ?_
    split at hc' <;> cases hc'
    split
    · exact Call.Goes.cancel c
    · exact Call.Goes.work id
  | resume =>
    obtain ⟨c, hget, hstep⟩ := bind_eq_some_iff.mp hstep
    split at hstep <;> cases hstep
    · exact resume_effect hget _
    · exact resume_effect hget _

/-- The slots that are taken are those of the calls that have not given theirs back, and those that
    have are over. -/
structure Accounted (pool : CpuPool) (s : Sys ρ ε) : Prop where
  slots : s.slots + s.calls.countP (fun c => c.wrapper ≠ .released) = pool.capacity
  total : s.slots + s.calls.length = pool.capacity + s.returned.length
  honest : ∀ c ∈ s.calls, c.Honest
  returned : ∀ i, i ∈ s.returned ↔ ∃ c, s.calls[i]? = some c ∧ c.wrapper = .released
  nodup : s.returned.Nodup

section

variable (h : Accounted pool s)

include h

theorem Accounted.quiet (hslots : s'.slots = s.slots) (hreturned : s'.returned = s.returned)
    (hcalls : List.Forall₂ Call.Goes s.calls s'.calls) : Accounted pool s' where
  slots := by
    rw [hslots, countP_of_forall₂ hcalls]
    · exact h.slots
    · intro c c' hgoes
      rw [decide_eq_decide, ne_eq, ne_eq, hgoes.released]
  total := by
    rw [hslots, hreturned, ← hcalls.length_eq]
    exact h.total
  honest c' hc' := by
    obtain ⟨i, hi⟩ := getElem?_of_mem hc'
    obtain ⟨c, hget, hgoes⟩ := getElem?_of_forall₂ hcalls hi
    exact hgoes.honest (h.honest c (mem_of_getElem? hget))
  returned i := by
    rw [hreturned, h.returned i]
    constructor
    · intro ⟨c, hget, hc⟩
      obtain ⟨c', hget', hgoes⟩ := getElem?_of_forall₂ hcalls.flip hget
      exact ⟨c', hget', hgoes.released.mpr hc⟩
    · intro ⟨c', hget', hc'⟩
      obtain ⟨c, hget, hgoes⟩ := getElem?_of_forall₂ hcalls hget'
      exact ⟨c, hget, hgoes.released.mp hc'⟩
  nodup := hreturned ▸ h.nodup

theorem Accounted.enter (hfree : 0 < s.slots) (x : ℕ) (timeout : Option Seconds) : Accounted pool
      { s with slots := s.slots - 1, calls := s.calls ++ [{ executor := x, timeout }] } where
  slots := by
    have hslots := h.slots
    rw [countP_append, countP_singleton, if_pos (by simp)]
    show s.slots - 1 + _ = _
    omega
  total := by
    have htotal := h.total
    rw [length_append, length_singleton]
    show s.slots - 1 + _ = pool.capacity + s.returned.length
    omega
  honest := forall_mem_snoc h.honest (by simp [Call.Honest])
  returned i := by
    rw [h.returned i]
    constructor
    · intro ⟨c, hget, hc⟩
      exact ⟨c, getElem?_append_of hget, hc⟩
    · intro ⟨c, hget, hc⟩
      rcases getElem?_append_cases hget with ⟨-, rfl⟩ | ⟨-, hget⟩
      · cases hc
      · exact ⟨c, hget, hc⟩
  nodup := h.nodup

theorem Accounted.callback (hget : s.calls[i]? = some c) (hdone : c.wrapper = .done) :
    Accounted pool (s.callback i c) where
  slots := by
    have hslots := h.slots
    have hcount := countP_set (fun c => decide (c.wrapper ≠ .released)) hget
      { c with wrapper := .released }
    rw [if_pos (by simp [hdone]), if_neg (by simp)] at hcount
    show s.slots + 1 + (s.calls.set i _).countP _ = _
    omega
  total := by
    have htotal := h.total
    simp only [Sys.callback, length_set, length_append, length_singleton]
    omega
  honest := forall_mem_set h.honest fun _ =>
    h.honest c (mem_of_getElem? hget) (.inl hdone)
  returned j := by
    show j ∈ s.returned ++ [i] ↔ ∃ c', (s.calls.set i _)[j]? = some c' ∧ c'.wrapper = .released
    rw [mem_append, mem_singleton, h.returned j]
    by_cases hij : j = i
    · subst hij
      have hlt := lt_of_getElem? hget
      rw [getElem?_set_self hlt]
      exact ⟨fun _ => ⟨_, rfl, rfl⟩, fun _ => .inr rfl⟩
    · rw [getElem?_set_ne (Ne.symm hij)]
      exact or_iff_left hij
  nodup := by
    refine List.Nodup.append h.nodup (nodup_singleton i) ?_
    rw [disjoint_singleton, h.returned i]
    intro ⟨c', hget', hc'⟩
    cases hget.symm.trans hget'
    rw [hdone] at hc'
    cases hc'

theorem Accounted.step (hok : Uncut s a) (hstep : s.step pool a = some s') : Accounted pool s' := by
  cases effect_of_step hok hstep with
  | quiet slots returned calls => exact h.quiet slots returned calls
  | enter free x timeout => exact h.enter free x timeout
  | callback there done => exact h.callback there done

end

theorem Accounted.initial : Accounted pool (Sys.initial pool : Sys ρ ε) where
  slots := rfl
  total := rfl
  honest := forall_mem_nil _
  returned := by simp [Sys.initial]
  nodup := nodup_nil

theorem Accounted.bound (h : Accounted pool s) : s.unfinished ≤ pool.capacity := by
  calc s.unfinished
      ≤ s.calls.countP (fun c => c.wrapper ≠ .released) := by
        refine countP_mono_left fun c hc hwork => ?_
        rw [decide_eq_true_eq]
        intro hreleased
        rw [h.honest c hc (.inr hreleased)] at hwork
        cases hwork
    _ ≤ pool.capacity := by
        have hslots := h.slots
        omega

theorem update_eq {c' : Call ρ ε} (hget : s.calls[i]? = some c) (hnext : next c = some c') :
    s.update i next = some { s with calls := s.calls.set i c' } := by
  rw [Sys.update, hget, bind_some, hnext, map_some]

/-- What the loop does about a call: it is told of the end, and runs the callbacks. -/
def About (i : ℕ) (a : Action ρ ε) : Prop := a = .notice i ∨ a = .check i ∨ a = .callback i

/-- The loop can run what there is to run for a call, until its slot is back. -/
def Returns (pool : CpuPool) (s : Sys ρ ε) (i : ℕ) : Prop :=
  ∃ as s', (∀ a ∈ as, About i a) ∧ Along (Sys.step pool) Uncut s as s' ∧ i ∈ s'.returned

theorem returns_of_done (hget : s.calls[i]? = some c) (hdone : c.wrapper = .done) :
    Returns pool s i := by
  refine ⟨[.callback i], s.callback i c, ?_, .cons trivial ?_ (.nil _), ?_⟩
  · simp [About]
  · rw [Sys.step, hget, bind_some, if_pos hdone]
  · exact mem_append_right _ (mem_singleton_self i)

theorem Returns.cons (habout : About i a) (hok : Uncut s a) (hstep : s.step pool a = some s')
    (h : Returns pool s' i) : Returns pool s i := by
  obtain ⟨as, t, has, hrun, hmem⟩ := h
  exact ⟨a :: as, t, forall_mem_cons.mpr ⟨habout, has⟩, .cons hok hstep hrun, hmem⟩

theorem Accounted.returns (h : Accounted pool s) (hget : s.calls[i]? = some c)
    (hended : c.work.hasEnded = true) (hnot : i ∉ s.returned) : Returns pool s i := by
  have hlt := lt_of_getElem? hget
  cases hwrapper : c.wrapper with
  | pending =>
    have hstep : s.step pool (.notice i) =
        some { s with calls := s.calls.set i { c with wrapper := .done } } :=
      update_eq hget (by simp [hended, hwrapper])
    exact .cons (.inl rfl) trivial hstep (returns_of_done (getElem?_set_self hlt) rfl)
  | cancelled =>
    have hok : Uncut s (.check i) := by
      rw [Uncut, hget]
      cases hwork : c.work with
      | queued | called | running => simp [hwork, Work.hasEnded] at hended
      | ended => simp [hwork, Work.isRunning]
    have hstep : s.step pool (.check i) = some { s with
        calls := s.calls.set i { c with wrapper := .done, work := c.work.cancel } } :=
      update_eq hget (by simp [hwrapper])
    exact .cons (.inr (.inl rfl)) hok hstep (returns_of_done (getElem?_set_self hlt) rfl)
  | done => exact returns_of_done hget hwrapper
  | released => exact absurd ((h.returned i).mpr ⟨c, hget, hwrapper⟩) hnot

/-- **Admission to the pool.** Calls are submitted, begin, end, overrun their deadline, die with
    their workers, are no longer waited for and are cancelled, in any order. If no cancellation is
    passed on to a future that is running, the calls whose work has not ended are never more than
    the capacity; no slot is given back twice, or before its work has ended; the slots that are free
    are those that are not taken or were given back; and the loop gives the slot of a call whose work
    has ended back. -/
theorem admission_bounded (hrun : Run (Sys.step pool) Uncut (Sys.initial pool) s) :
    s.unfinished ≤ pool.capacity ∧
    s.returned.Nodup ∧
    (∀ i ∈ s.returned, ∃ c, s.calls[i]? = some c ∧ c.work.hasEnded = true) ∧
    s.slots + s.calls.length = pool.capacity + s.returned.length ∧
    ∀ i c, s.calls[i]? = some c → c.work.hasEnded = true → i ∉ s.returned → Returns pool s i := by
  have h : Accounted pool s :=
    hrun.invariant (fun h hok hstep => Accounted.step h hok hstep) Accounted.initial
  refine ⟨h.bound, h.nodup, fun i hi => ?_, h.total, fun i c hget => h.returns hget⟩
  obtain ⟨c, hget, hreleased⟩ := (h.returned i).mp hi
  exact ⟨c, hget, h.honest c (mem_of_getElem? hget) (.inr hreleased)⟩

end

/-- One worker, and three calls may wait for it, two of them on its queue. -/
def oneWorker : CpuPool := ⟨1, 3, true, Nat.one_pos⟩

/-- One call runs to its end, two are on the queue, and the one behind them is cancelled. -/
def cancelledInTime : List (Action ℕ ℕ) :=
  [.start, .submit true none, .submit true none, .submit true none, .submit true (some 1),
    .enqueue 0, .begin 0, .enqueue 1, .enqueue 2, .cancel 3, .check 3, .callback 3,
    .finish 0 (.returned 7), .notice 0, .callback 0, .resume 0]

theorem admission_bounded_in_time : ∃ s : Sys ℕ ℕ,
    Run (Sys.step oneWorker) Uncut (Sys.initial oneWorker) s ∧ s.returned = [3, 0] ∧ s.slots = 2 ∧
    s.calls.map Call.result = [some (.returned 7), none, none, some .cancelled] ∧
    s.unfinished ≤ oneWorker.capacity := by
  refine Run.exists_of_replay_and₃ cancelledInTime (by decide +kernel) fun hrun _ _ _ => ?_
  exact (admission_bounded hrun).1

/-- One worker, and nothing may wait. -/
def noQueue : CpuPool := ⟨1, 0, true, Nat.one_pos⟩

/-- A caller is cancelled while the call runs, and the next one comes. -/
def cancelledTooLate : List (Action ℕ ℕ) :=
  [.start, .submit true none, .enqueue 0, .begin 0, .cancel 0, .check 0, .callback 0, .submit true none]

theorem admission_overrun : ∃ s : Sys ℕ ℕ,
    Run (Sys.step noQueue) Always (Sys.initial noQueue) s ∧ noQueue.capacity = 1 ∧
    s.unfinished = 2 ∧ s.returned = [0] ∧ s.calls.map Call.work = [.running, .queued] := by
  refine Run.exists_of_replay cancelledTooLate ?_
  decide +kernel

end Parallel
