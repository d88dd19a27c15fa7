import Mathlib.Data.List.Basic

/-!
# Inverting computations that may raise

From the result of a sequence of fallible steps to the results of the steps: a `bind` that is
`ok` has both parts `ok`, and a `mapM` that is `ok` has mapped every element.
-/

namespace Lib

variable {ε α β : Type}

variable {x : Except ε α} {f : α → Except ε β} {l : List α} {e : ε}

theorem bind_eq_ok {b : β} : (x >>= f) = .ok b ↔ ∃ a, x = .ok a ∧ f a = .ok b := by
  cases x with
  | error => simp [bind, Except.bind]
  | ok => simp [bind, Except.bind]

theorem bind_eq_error : (x >>= f) = .error e ↔ x = .error e ∨ ∃ a, x = .ok a ∧ f a = .error e := by
  cases x with
  | error => simp [bind, Except.bind]
  | ok => simp [bind, Except.bind]

theorem ok_bind (a : α) (f : α → Except ε β) : (.ok a >>= f) = f a := rfl

theorem pure_eq_ok {a b : α} : (pure a : Except ε α) = .ok b ↔ a = b := by
  simp [pure, Except.pure]

/-- A `mapM` that succeeds gives, at each place, what the function gave for the element there. -/
theorem mapM_eq_ok {r : List β} (h : l.mapM f = .ok r) :
    r.length = l.length ∧
      ∀ (i : ℕ) (b : β), r[i]? = some b → ∃ a, l[i]? = some a ∧ f a = .ok b := by
  induction l generalizing r with
  | nil =>
    rw [List.mapM_nil] at h
    obtain rfl := pure_eq_ok.mp h
    exact ⟨rfl, by simp⟩
  | cons a l ih =>
    rw [List.mapM_cons] at h
    obtain ⟨b, hb, h⟩ := bind_eq_ok.mp h
    obtain ⟨bs, hbs, h⟩ := bind_eq_ok.mp h
    obtain rfl := pure_eq_ok.mp h
    obtain ⟨hlength, hget⟩ := ih hbs
    refine ⟨by simp [hlength], ?_⟩
    intro i c hc
    cases i with
    | zero =>
      obtain rfl : b = c := by simpa using hc
      exact ⟨a, rfl, hb⟩
    | succ i => exact hget i c hc

theorem bind_raises {p : ε → Prop} (hx : ∀ e, x = .error e → p e)
    (hf : ∀ a, x = .ok a → ∀ e, f a = .error e → p e) : ∀ e, (x >>= f) = .error e → p e := by
  intro e he
  rcases bind_eq_error.mp he with he | ⟨a, ha, he⟩
  · exact hx e he
  · exact hf a ha e he

/-! ## What is returned, and what is raised -/

/-- What the computation returns is as `p` says, and what it raises as `q` says. -/
inductive Gives (p : α → Prop) (q : ε → Prop) : Except ε α → Prop
  | ok {a : α} : p a → Gives p q (.ok a)
  | error {e : ε} : q e → Gives p q (.error e)

section
variable {p : α → Prop} {p' : β → Prop} {q q' : ε → Prop}

theorem Gives.bind (hx : Gives p q x) (hq : ∀ e, q e → q' e) (hf : ∀ a, p a → Gives p' q' (f a)) :
    Gives p' q' (x >>= f) := by
  cases hx with
  | ok ha => exact hf _ ha
  | error he => exact .error (hq _ he)

theorem Gives.of_ok {a : α} (h : Gives p q x) (hx : x = .ok a) : p a := by
  subst hx
  cases h
  assumption

theorem Gives.of_error (h : Gives p q x) (hx : x = .error e) : q e := by
  subst hx
  cases h
  assumption

end

/-! ## Computations that return -/

/-- The computation does not raise. -/
def Returns (x : Except ε α) : Prop := ∃ a, x = .ok a

theorem returns_ok (a : α) : Returns (.ok a : Except ε α) := ⟨a, rfl⟩

theorem returns_pure (a : α) : Returns (pure a : Except ε α) := ⟨a, rfl⟩

theorem not_returns_error (e : ε) : ¬ Returns (.error e : Except ε α) := by
  rintro ⟨a, h⟩
  cases h

/-- A step and what follows it, if whether that returns does not depend on what the step gave. -/
theorem returns_bind {p : Prop} (h : ∀ a, x = .ok a → (Returns (f a) ↔ p)) :
    Returns (x >>= f) ↔ Returns x ∧ p := by
  constructor
  · rintro ⟨b, hb⟩
    obtain ⟨a, ha, hb⟩ := bind_eq_ok.mp hb
    exact ⟨⟨a, ha⟩, (h a ha).mp ⟨b, hb⟩⟩
  · rintro ⟨⟨a, ha⟩, hp⟩
    obtain ⟨b, hb⟩ := (h a ha).mpr hp
    exact ⟨b, bind_eq_ok.mpr ⟨a, ha, hb⟩⟩

theorem returns_bind_pure {f : α → β} : Returns (x >>= fun a => pure (f a)) ↔ Returns x :=
  (returns_bind fun _ _ => iff_true_intro (returns_pure _)).trans (and_iff_left trivial)

theorem map_eq_ok {f : α → β} {b : β} : f <$> x = .ok b ↔ ∃ a, x = .ok a ∧ f a = b := by
  cases x with
  | error => simp [Functor.map, Except.map]
  | ok => simp [Functor.map, Except.map]

theorem returns_map {f : α → β} : Returns (f <$> x) ↔ Returns x := by
  rw [map_eq_pure_bind]
  exact returns_bind_pure

theorem returns_mapM : Returns (l.mapM f) ↔ ∀ a ∈ l, Returns (f a) := by
  induction l with
  | nil =>
    rw [List.mapM_nil]
    simp [returns_pure]
  | cons a l ih =>
    rw [List.mapM_cons, List.forall_mem_cons, ← ih]
    apply returns_bind
    intro b hb
    exact returns_bind_pure

end Lib
