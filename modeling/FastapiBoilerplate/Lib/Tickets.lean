import Mathlib.Data.List.Nodup
import Mathlib.Logic.Relation
import FastapiBoilerplate.Lib.Lists

/-!
# Tickets that are used once

Tickets are issued to holders, each ticket to one holder and never again; a holder uses a ticket
or drops it, and a ticket that has been used or dropped does not come back. However many holders
there are and in whatever order they act, no ticket is used twice: `Honest` is kept by every
`Move`.
-/

namespace Lib

open List Function

universe u v

structure Desk (κ : Type u) (τ : Type v) where
  issued : List τ
  held : κ → List τ
  used : List τ

namespace Desk

variable {κ : Type u} {τ : Type v} [DecidableEq κ] {rest ts : List τ}

inductive Move : Desk κ τ → Desk κ τ → Prop
  | issue {d : Desk κ τ} (k : κ) (ts : List τ) (fresh : ∀ t ∈ ts, t ∉ d.issued)
      (distinct : ts.Nodup) :
      Move d { d with
        issued := d.issued ++ ts
        held := update d.held k (d.held k ++ ts) }
  | use {d : Desk κ τ} (k : κ) (t : τ) (rest : List τ) (next : d.held k = t :: rest) :
      Move d { d with held := update d.held k rest, used := d.used ++ [t] }
  | drop {d : Desk κ τ} (k : κ) (rest : List τ) (left : rest.Sublist (d.held k)) :
      Move d { d with held := update d.held k rest }

theorem exchange {is us : List τ} {held : κ → List τ} (k : κ) (left : rest.Sublist (held k))
    (fresh : ∀ t ∈ ts, t ∉ is) (distinct : ts.Nodup) :
    Relation.ReflTransGen Move ⟨is, held, us⟩
      ⟨is ++ ts, update held k (rest ++ ts), us⟩ := by
  have hdrop : Move ⟨is, held, us⟩ ⟨is, update held k rest, us⟩ := .drop k rest left
  have hissue : Move ⟨is, update held k rest, us⟩ _ := .issue k ts fresh distinct
  simp only [update_idem, update_self] at hissue
  exact .tail (.single hdrop) hissue

structure Honest (d : Desk κ τ) : Prop where
  held_issued : ∀ k, ∀ t ∈ d.held k, t ∈ d.issued
  used_issued : ∀ t ∈ d.used, t ∈ d.issued
  held_nodup : ∀ k, (d.held k).Nodup
  used_nodup : d.used.Nodup
  apart : ∀ k k', k ≠ k' → ∀ t ∈ d.held k, t ∉ d.held k'
  unused : ∀ k, ∀ t ∈ d.held k, t ∉ d.used

variable {d d' : Desk κ τ}

section

variable (h : Honest d) {k : κ}

include h

/-- Every holder has what it had, except for one, who has less. -/
theorem Honest.drop (left : rest.Sublist (d.held k)) :
    Honest { d with held := update d.held k rest } := by
  have hless : ∀ j, (update d.held k rest j).Sublist (d.held j) := by
    intro j
    by_cases hj : j = k
    · subst hj
      rw [update_self]
      exact left
    · rw [update_of_ne hj]
  exact
    { held_issued := fun j t ht => h.held_issued j t ((hless j).subset ht)
      used_issued := h.used_issued
      held_nodup := fun j => (h.held_nodup j).sublist (hless j)
      used_nodup := h.used_nodup
      apart := fun j j' hne t ht ht' =>
        h.apart j j' hne t ((hless j).subset ht) ((hless j').subset ht')
      unused := fun j t ht => h.unused j t ((hless j).subset ht) }

/-- What a holder has after an issue is what it had or new. -/
theorem Honest.issue (fresh : ∀ t ∈ ts, t ∉ d.issued) (distinct : ts.Nodup) :
    Honest { d with
      issued := d.issued ++ ts
      held := update d.held k (d.held k ++ ts) } := by
  have hheld : ∀ j t, t ∈ update d.held k (d.held k ++ ts) j →
      t ∈ d.held j ∨ j = k ∧ t ∈ ts := by
    intro j t ht
    by_cases hj : j = k
    · subst hj
      rw [update_self] at ht
      exact (mem_append.mp ht).imp_right fun hts => ⟨rfl, hts⟩
    · rw [update_of_ne hj] at ht
      exact .inl ht
  refine ⟨?_, ?_, ?_, h.used_nodup, ?_, ?_⟩
  · intro j t ht
    rcases hheld j t ht with hold | ⟨-, hnew⟩
    · exact mem_append_left _ (h.held_issued j t hold)
    · exact mem_append_right _ hnew
  · exact fun t ht => mem_append_left _ (h.used_issued t ht)
  · intro j
    by_cases hj : j = k
    · subst hj
      simp only [update_self]
      refine List.Nodup.append (h.held_nodup j) distinct ?_
      exact fun t ht hts => fresh t hts (h.held_issued j t ht)
    · simp only [update_of_ne hj]
      exact h.held_nodup j
  · intro j j' hne t ht ht'
    rcases hheld j t ht with hold | ⟨rfl, hnew⟩ <;> rcases hheld j' t ht' with hold' | ⟨rfl, hnew'⟩
    · exact h.apart j j' hne t hold hold'
    · exact fresh t hnew' (h.held_issued j t hold)
    · exact fresh t hnew (h.held_issued j' t hold')
    · exact hne rfl
  · intro j t ht hused
    rcases hheld j t ht with hold | ⟨-, hnew⟩
    · exact h.unused j t hold hused
    · exact fresh t hnew (h.used_issued t hused)

theorem Honest.use {t : τ} (next : d.held k = t :: rest) :
    Honest { d with held := update d.held k rest, used := d.used ++ [t] } := by
  have hmem : t ∈ d.held k := next ▸ mem_cons_self
  have hnodup : t ∉ rest := by
    have hnodup := h.held_nodup k
    rw [next, nodup_cons] at hnodup
    exact hnodup.1
  have hless := h.drop (next ▸ sublist_cons_self t rest)
  refine ⟨hless.held_issued, ?_, hless.held_nodup, ?_, hless.apart, ?_⟩
  · exact forall_mem_snoc h.used_issued (h.held_issued k t hmem)
  · refine List.Nodup.append h.used_nodup (nodup_singleton t) fun t' hold hnew => ?_
    obtain rfl := mem_singleton.mp hnew
    exact h.unused k t' hmem hold
  intro j t' ht' hused
  rcases mem_snoc.mp hused with hold | rfl
  · exact hless.unused j t' ht' hold
  by_cases hj : j = k
  · subst hj
    simp only [update_self] at ht'
    exact hnodup ht'
  · simp only [update_of_ne hj] at ht'
    exact h.apart j k hj t' ht' hmem

theorem Honest.move (hmove : Move d d') : Honest d' := by
  cases hmove with
  | issue k ts fresh distinct => exact h.issue fresh distinct
  | use k t rest next => exact h.use next
  | drop k rest left => exact h.drop left

/-- **No ticket is used twice**, whatever the sequence of moves. -/
theorem Honest.moves (hmoves : Relation.ReflTransGen Move d d') : Honest d' := by
  induction hmoves with
  | refl => exact h
  | tail _ hmove ih => exact ih.move hmove

end

end Desk

end Lib
