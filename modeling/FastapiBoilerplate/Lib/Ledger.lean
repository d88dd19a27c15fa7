import Mathlib.Data.Set.Insert

/-!
# A log read by a group

Entries are appended to a log under ever greater names, and may be removed from it at any time. A
group reads the log with one cursor: what is past the cursor has not been read, what has been read
is owed until it is settled. A debt may also be written off, but only when its entry is no longer
in the log.

`Covered` is what such a group is for: nothing appended since the group was opened gets lost. It
is kept by every `Move`, so by every sequence of them, and a component that reads a log this way
has only to show which moves its operations are made of.
-/

namespace Lib

universe u

structure Ledger (ι : Type u) where
  /-- The entries in the log. -/
  kept : Set ι
  /-- The last name given out. -/
  top : ι
  /-- How far the group has read; `none` before it is opened. -/
  cursor : Option ι
  /-- What has been read and not settled. -/
  owed : Set ι
  /-- What was appended since the group was opened. -/
  born : Set ι
  /-- What was taken out of the log. -/
  gone : Set ι

namespace Ledger

variable {ι : Type u} [LinearOrder ι]

/-- What can happen to a ledger when the entries of `done` may be settled. -/
inductive Move (done : Set ι) : Ledger ι → Ledger ι → Prop
  | append {l : Ledger ι} (i : ι) (next : l.top < i) :
      Move done l
        { l with kept := insert i l.kept, top := i, born := l.born ∪ {j | j = i ∧ l.cursor ≠ none} }
  | remove {l : Ledger ι} (i : ι) (there : i ∈ l.kept) :
      Move done l { l with kept := l.kept \ {i}, gone := insert i l.gone }
  | start {l : Ledger ι} (new : l.cursor = none) : Move done l { l with cursor := some l.top }
  | deliver {l : Ledger ι} (c i : ι) (at' : l.cursor = some c) (past : c < i) (there : i ∈ l.kept)
      (first : ∀ j ∈ l.kept, c < j → i ≤ j) :
      Move done l { l with cursor := some i, owed := insert i l.owed }
  | settle {l : Ledger ι} (i : ι) (why : i ∈ done) : Move done l { l with owed := l.owed \ {i} }
  | writeOff {l : Ledger ι} (i : ι) (lost : i ∉ l.kept) : Move done l { l with owed := l.owed \ {i} }

abbrev Moves (done : Set ι) : Ledger ι → Ledger ι → Prop := Relation.ReflTransGen (Move done)

/-- Where an entry is: ahead of the cursor, owed, settled or out of the log. -/
def Covers (done : Set ι) (l : Ledger ι) (i : ι) : Prop :=
  (i ∈ l.kept ∧ ∃ c, l.cursor = some c ∧ c < i) ∨ i ∈ l.owed ∨ i ∈ done ∨ i ∈ l.gone

structure Covered (done : Set ι) (l : Ledger ι) : Prop where
  kept_le : ∀ i ∈ l.kept, i ≤ l.top
  gone_le : ∀ i ∈ l.gone, i ≤ l.top
  gone_kept : ∀ i ∈ l.gone, i ∉ l.kept
  cursor_le : ∀ c, l.cursor = some c → c ≤ l.top
  born_kept : ∀ i ∈ l.born, i ∈ l.kept ∨ i ∈ l.gone
  covers : ∀ i ∈ l.born, Covers done l i

variable {done : Set ι} {l l' : Ledger ι} {i : ι}

theorem Covered.mono {done' : Set ι} (h : Covered done l) (hdone : done ⊆ done') :
    Covered done' l := by
  refine { h with covers := fun i hi => ?_ }
  rcases h.covers i hi with hahead | howed | hd | hgone
  · exact .inl hahead
  · exact .inr (.inl howed)
  · exact .inr (.inr (.inl (hdone hd)))
  · exact .inr (.inr (.inr hgone))

/-- Everything but what is covered by a debt stays covered when debts are dropped. -/
theorem Covers.drop {j : ι} (h : Covers done l j) (hi : j = i → i ∈ done ∨ i ∈ l.gone) :
    Covers done { l with owed := l.owed \ {i} } j := by
  rcases h with hahead | howed | hrest
  · exact .inl hahead
  · by_cases hji : j = i
    · exact .inr (.inr (hji ▸ hi hji))
    · exact .inr (.inl ⟨howed, hji⟩)
  · exact .inr (.inr hrest)

section

variable (h : Covered done l)

include h

theorem Covered.append (next : l.top < i) :
    Covered done
      { l with kept := insert i l.kept, top := i, born := l.born ∪ {j | j = i ∧ l.cursor ≠ none} }
    where
  kept_le j hj := by
    rcases hj with rfl | hj
    · exact le_rfl
    · exact (h.kept_le j hj).trans next.le
  gone_le j hj := (h.gone_le j hj).trans next.le
  gone_kept j hj := by
    rintro (rfl | hkept)
    · exact absurd (h.gone_le j hj) (not_le.mpr next)
    · exact h.gone_kept j hj hkept
  cursor_le c hc := (h.cursor_le c hc).trans next.le
  born_kept j hj := by
    rcases hj with hj | ⟨rfl, -⟩
    · exact (h.born_kept j hj).imp_left (Set.mem_insert_of_mem i)
    · exact .inl (Set.mem_insert j _)
  covers j hj := by
    rcases hj with hj | ⟨rfl, hopen⟩
    · rcases h.covers j hj with ⟨hkept, hahead⟩ | hrest
      · exact .inl ⟨Set.mem_insert_of_mem i hkept, hahead⟩
      · exact .inr hrest
    · obtain ⟨c, hc⟩ := Option.ne_none_iff_exists'.mp hopen
      exact .inl ⟨Set.mem_insert j _, c, hc, (h.cursor_le c hc).trans_lt next⟩

theorem Covered.remove (there : i ∈ l.kept) :
    Covered done { l with kept := l.kept \ {i}, gone := insert i l.gone } where
  kept_le j hj := h.kept_le j hj.1
  gone_le j hj := by
    rcases hj with rfl | hj
    · exact h.kept_le j there
    · exact h.gone_le j hj
  gone_kept j hj := by
    rintro ⟨hkept, hne⟩
    rcases hj with rfl | hj
    · exact hne rfl
    · exact h.gone_kept j hj hkept
  cursor_le := h.cursor_le
  born_kept j hj := by
    by_cases hji : j = i
    · exact .inr (.inl hji)
    · exact (h.born_kept j hj).imp (fun hkept => ⟨hkept, hji⟩) (Set.mem_insert_of_mem i)
  covers j hj := by
    rcases h.covers j hj with ⟨hkept, hahead⟩ | howed | hd | hgone
    · by_cases hji : j = i
      · exact .inr (.inr (.inr (.inl hji)))
      · exact .inl ⟨⟨hkept, hji⟩, hahead⟩
    · exact .inr (.inl howed)
    · exact .inr (.inr (.inl hd))
    · exact .inr (.inr (.inr (Set.mem_insert_of_mem i hgone)))

theorem Covered.start (new : l.cursor = none) : Covered done { l with cursor := some l.top } := by
  refine { h with cursor_le := fun c hc => ?_, covers := fun j hj => ?_ }
  · obtain rfl : l.top = c := Option.some.inj hc
    exact le_rfl
  · rcases h.covers j hj with ⟨-, c, hc, -⟩ | hrest
    · rw [new] at hc
      cases hc
    · exact .inr hrest

theorem Covered.deliver {c : ι} (at' : l.cursor = some c) (there : i ∈ l.kept)
    (first : ∀ j ∈ l.kept, c < j → i ≤ j) :
    Covered done { l with cursor := some i, owed := insert i l.owed } := by
  refine { h with cursor_le := fun d hd => ?_, covers := fun j hj => ?_ }
  · obtain rfl : i = d := Option.some.inj hd
    exact h.kept_le i there
  rcases h.covers j hj with ⟨hkept, d, hd, hlt⟩ | howed | hrest
  · obtain rfl : c = d := Option.some.inj (at'.symm.trans hd)
    rcases (first j hkept hlt).eq_or_lt with rfl | hij
    · exact .inr (.inl (Set.mem_insert i _))
    · exact .inl ⟨hkept, i, rfl, hij⟩
  · exact .inr (.inl (Set.mem_insert_of_mem i howed))
  · exact .inr (.inr hrest)

theorem Covered.settle (why : i ∈ done) : Covered done { l with owed := l.owed \ {i} } :=
  { h with covers := fun j hj => (h.covers j hj).drop fun _ => .inl why }

theorem Covered.writeOff (lost : i ∉ l.kept) : Covered done { l with owed := l.owed \ {i} } := by
  refine { h with covers := fun j hj => (h.covers j hj).drop fun hji => .inr ?_ }
  subst hji
  exact (h.born_kept j hj).resolve_left lost

theorem Covered.move (hmove : Move done l l') : Covered done l' := by
  cases hmove with
  | append i next => exact h.append next
  | remove i there => exact h.remove there
  | start new => exact h.start new
  | deliver c i at' past there first => exact h.deliver at' there first
  | settle i why => exact h.settle why
  | writeOff i lost => exact h.writeOff lost

/-- **Nothing is lost**, whatever the sequence of moves. -/
theorem Covered.moves (hmoves : Moves done l l') : Covered done l' := by
  induction hmoves with
  | refl => exact h
  | tail _ hmove ih => exact ih.move hmove

end

end Ledger

end Lib
