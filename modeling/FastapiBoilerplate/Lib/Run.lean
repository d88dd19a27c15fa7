import Mathlib.Data.List.Basic

/-!
# Runs of a guarded step function

Every stateful component of this development is a *partial step function*
`step : σ → α → Option σ`: an action of the environment or of one party either is enabled
and answers the next state, or is not and answers `none`. An interleaving is then nothing
but a list of actions, and "for every interleaving" is "for every `Run`".

A `Run` carries a guard `ok : σ → α → Prop`, read in the state *before* each step. With
`ok` trivially true it is plain reachability; with a guard it is reachability under an
environment assumption ("the clock never passes a deadline"), or under the exact condition
that keeps a run away from a defect. Both readings use the same rule: `Run.invariant` (what
one step keeps, a run keeps).

`replay` is the computable side: it executes a list of actions and checks the guard, so
that a concrete interleaving is a closed term the kernel evaluates (`Run.of_replay`).
-/

namespace Lib

universe u v w

variable {σ : Type u} {α : Type v}

/-- `Run step ok s t`: some sequence of actions leads from `s` to `t`, each enabled and
    each admitted by the guard in the state it was taken in. -/
inductive Run (step : σ → α → Option σ) (ok : σ → α → Prop) (s : σ) : σ → Prop
  | refl : Run step ok s s
  | snoc {t u : σ} {a : α} (run : Run step ok s t) (guard : ok t a)
      (next : step t a = some u) : Run step ok s u

/-- Every action is admitted: plain reachability. -/
def Always : σ → α → Prop := fun _ _ => True

variable {step : σ → α → Option σ} {ok : σ → α → Prop} {s t : σ}

theorem Run.single {a : α} (guard : ok s a) (next : step s a = some t) : Run step ok s t :=
  .snoc .refl guard next

theorem Run.trans {u : σ} (h₁ : Run step ok s t) (h₂ : Run step ok t u) : Run step ok s u := by
  induction h₂ with
  | refl => exact h₁
  | snoc _ guard next ih => exact .snoc ih guard next

variable {Inv Good : σ → Prop} {ok' : σ → α → Prop} {as : List α} {τ : Type w} {β : Type v}

/-- **The invariant rule**: what holds at the start and is kept by every admitted step
    holds at the end of every run. -/
theorem Run.invariant (keep : ∀ {t u : σ} {a : α}, Inv t → ok t a → step t a = some u → Inv u)
    {s t : σ} (h : Run step ok s t) (hs : Inv s) : Inv t := by
  induction h with
  | refl => exact hs
  | snoc _ guard next ih => exact keep ih guard next

theorem Run.invariant_with {Inv' : σ → Prop}
    (keep : ∀ {t u : σ} {a : α}, Inv t → ok t a → step t a = some u → Inv u)
    (keep' : ∀ {t u : σ} {a : α}, Inv t → Inv' t → ok t a → step t a = some u → Inv' u) {s t : σ}
    (h : Run step ok s t) (hs : Inv s) (hs' : Inv' s) : Inv' t := by
  have hboth : Inv t ∧ Inv' t := by
    induction h with
    | refl => exact ⟨hs, hs'⟩
    | snoc _ guard next ih => exact ⟨keep ih.1 guard next, keep' ih.1 ih.2 guard next⟩
  exact hboth.2

theorem Run.weaken (imp : ∀ s a, ok s a → ok' s a) (h : Run step ok s t) : Run step ok' s t := by
  induction h with
  | refl => exact .refl
  | snoc _ guard next ih => exact .snoc ih (imp _ _ guard) next

theorem Run.backward {P : σ → Prop} (back : ∀ {t u : σ} {a : α}, step t a = some u → P u → P t)
    {s t : σ} (h : Run step ok s t) (ht : P t) : P s := by
  induction h with
  | refl => exact ht
  | snoc _ _ next ih => exact ih (back next ht)

/-- **The simulation rule**: when every concrete step is matched by a run of the abstract
    system, so is every concrete run. -/
theorem Run.simulate {astep : τ → β → Option τ}
    {aok : τ → β → Prop} (abs : σ → τ)
    (one : ∀ {t u : σ} {a : α}, ok t a → step t a = some u →
      Run astep aok (abs t) (abs u))
    (h : Run step ok s t) : Run astep aok (abs s) (abs t) := by
  induction h with
  | refl => exact .refl
  | snoc _ guard next ih => exact ih.trans (one guard next)

/-- `Along step ok s as t`: the run from `s` that takes exactly the actions `as` ends in `t`. Two
    systems that are given the same actions are compared along them. -/
inductive Along (step : σ → α → Option σ) (ok : σ → α → Prop) : σ → List α → σ → Prop
  | nil (s : σ) : Along step ok s [] s
  | cons {s t u : σ} {a : α} {as : List α} (guard : ok s a) (next : step s a = some t)
      (rest : Along step ok t as u) : Along step ok s (a :: as) u

theorem Along.run (h : Along step ok s as t) : Run step ok s t := by
  induction h with
  | nil => exact .refl
  | cons guard next _ ih => exact (Run.single guard next).trans ih

theorem Along.weaken (imp : ∀ s a, ok s a → ok' s a) (h : Along step ok s as t) :
    Along step ok' s as t := by
  induction h with
  | nil s => exact .nil s
  | cons guard next _ ih => exact .cons (imp _ _ guard) next ih

/-- **Backward strengthening**: when the end of a run is good only if every step into it was taken
    under the guard, from a state that was good, the run was under the guard. -/
theorem Along.strengthen (keep : ∀ {s t : σ} {a : α}, Inv s → ok s a → step s a = some t → Inv t)
    (back : ∀ {s t : σ} {a : α}, Inv s → ok s a → step s a = some t → Good t → ok' s a ∧ Good s)
    (h : Along step ok s as t) (hs : Inv s) (ht : Good t) : Along step ok' s as t ∧ Good s := by
  induction h with
  | nil s => exact ⟨.nil s, ht⟩
  | cons guard next _ ih =>
    obtain ⟨rest, hgood⟩ := ih (keep hs guard next) ht
    obtain ⟨guard', hgood⟩ := back hs guard next hgood
    exact ⟨.cons guard' next rest, hgood⟩

/-- **Lockstep**: when every step of one system is matched by a step of the other on the matching
    action, so is every run. -/
theorem Along.lockstep {step' : τ → β → Option τ} {R : σ → τ → Prop}
    {act : β → α} {Ok : β → Prop} {s' : σ} {t : τ} {bs : List β}
    (h : Along step ok s (bs.map act) s')
    (good : ∀ {s t : σ} {a : α}, step s a = some t → Good t → Good s)
    (one : ∀ {s s' : σ} {t : τ} {b : β}, R s t → Ok b → ok s (act b) → step s (act b) = some s' →
      Good s' → ∃ t', step' t b = some t' ∧ R s' t')
    (hgood : Good s') (hbs : ∀ b ∈ bs, Ok b) (hR : R s t) :
    ∃ t', Along step' Always t bs t' ∧ R s' t' := by
  induction bs generalizing s t with
  | nil =>
    cases h
    exact ⟨t, .nil t, hR⟩
  | cons b bs ih =>
    cases h with
    | cons guard next rest =>
      rename_i u
      have hback : Good u := rest.run.backward good hgood
      obtain ⟨t₁, hstep, hR₁⟩ := one hR (hbs b List.mem_cons_self) guard next hback
      obtain ⟨t', halong, hR'⟩ := ih rest (fun b' hb' => hbs b' (List.mem_cons_of_mem _ hb')) hR₁
      exact ⟨t', .cons trivial hstep halong, hR'⟩

/-- Execute a list of actions, refusing at the first one that the guard or the step
    refuses. -/
def replay (step : σ → α → Option σ) (ok : σ → α → Prop)
    [∀ s a, Decidable (ok s a)] : σ → List α → Option σ
  | s, [] => some s
  | s, a :: as =>
    if ok s a then
      match step s a with
      | some t => replay step ok t as
      | none => none
    else none

theorem Along.of_replay [∀ s a, Decidable (ok s a)] :
    ∀ {as : List α} {s t : σ}, replay step ok s as = some t → Along step ok s as t
  | [], s, t, h => by
    rw [replay, Option.some.injEq] at h
    exact h ▸ .nil s
  | a :: as, s, t, h => by
    rw [replay] at h
    split at h
    · rename_i guard
      split at h
      · rename_i u next
        exact .cons guard next (Along.of_replay h)
      · exact absurd h (by simp)
    · exact absurd h (by simp)

theorem Run.of_replay [∀ s a, Decidable (ok s a)] (h : replay step ok s as = some t) :
    Run step ok s t :=
  (Along.of_replay h).run

/-- A list of actions that executes is a run to where it ends. -/
theorem Along.get_replay (step : σ → α → Option σ) (ok : σ → α → Prop)
    [∀ s a, Decidable (ok s a)] (s : σ) (as : List α) (h : (replay step ok s as).isSome) :
    Along step ok s as ((replay step ok s as).get h) :=
  .of_replay (Option.some_get h).symm

section Replayed

variable [∀ s a, Decidable (ok s a)] {P Q : σ → Prop} [DecidablePred P] {s : σ} (as : List α)

section

variable (h : (replay step ok s as).any (P ·) = true)

include h

/-- A list of actions that executes, to a state one can test, is a run to such a state. -/
theorem Along.exists_of_replay : ∃ t, Along step ok s as t ∧ P t := by
  obtain ⟨t, ht, hP⟩ := (Option.any_eq_true _ _).mp h
  exact ⟨t, .of_replay ht, of_decide_eq_true hP⟩

theorem Run.exists_of_replay : ∃ t, Run step ok s t ∧ P t := by
  obtain ⟨t, halong, hP⟩ := Along.exists_of_replay as h
  exact ⟨t, halong.run, hP⟩

theorem Along.exists_of_replay_and (hQ : ∀ {t}, Along step ok s as t → P t → Q t) :
    ∃ t, Along step ok s as t ∧ P t ∧ Q t := by
  obtain ⟨t, halong, hP⟩ := Along.exists_of_replay as h
  exact ⟨t, halong, hP, hQ halong hP⟩

theorem Run.exists_of_replay_and (hQ : ∀ {t}, Run step ok s t → P t → Q t) :
    ∃ t, Run step ok s t ∧ P t ∧ Q t := by
  obtain ⟨t, hrun, hP⟩ := Run.exists_of_replay as h
  exact ⟨t, hrun, hP, hQ hrun hP⟩

end

theorem Run.exists_step_of_replay {R : σ → σ → Prop} [∀ t t', Decidable (R t t')] {a : α}
    (h : (replay step ok s as).any (fun t => (step t a).any (R t ·)) = true) :
    ∃ t t', Run step ok s t ∧ step t a = some t' ∧ R t t' := by
  obtain ⟨t, ht, hnext⟩ := (Option.any_eq_true _ _).mp h
  obtain ⟨t', ht', hR⟩ := (Option.any_eq_true _ _).mp hnext
  exact ⟨t, t', .of_replay ht, ht', of_decide_eq_true hR⟩

theorem Run.exists_of_replay_and₂ {A B : σ → Prop} [DecidablePred A] [DecidablePred B]
    (h : (replay step ok s as).any (fun t => A t ∧ B t) = true)
    (hQ : ∀ {t}, Run step ok s t → A t → B t → Q t) :
    ∃ t, Run step ok s t ∧ A t ∧ B t ∧ Q t := by
  obtain ⟨t, hrun, hA, hB⟩ := Run.exists_of_replay as h
  exact ⟨t, hrun, hA, hB, hQ hrun hA hB⟩

theorem Run.exists_of_replay_and₃ {A B C : σ → Prop} [DecidablePred A] [DecidablePred B]
    [DecidablePred C] (h : (replay step ok s as).any (fun t => A t ∧ B t ∧ C t) = true)
    (hQ : ∀ {t}, Run step ok s t → A t → B t → C t → Q t) :
    ∃ t, Run step ok s t ∧ A t ∧ B t ∧ C t ∧ Q t := by
  obtain ⟨t, hrun, hA, hB, hC⟩ := Run.exists_of_replay as h
  exact ⟨t, hrun, hA, hB, hC, hQ hrun hA hB hC⟩

end Replayed

instance (s : σ) (a : α) : Decidable (Always s a) := inferInstanceAs (Decidable True)

end Lib
