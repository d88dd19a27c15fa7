import Mathlib.Order.Lattice
import FastapiBoilerplate.Lib.Lists
import FastapiBoilerplate.Lib.Run

/-!
# Leases without owners

A table of cells that expire, and parties that each believe they wrote one. The table does
not know who wrote a cell: a party that overwrites or deletes "its" cell goes by what it
remembers, not by what is there. Two disciplines make that safe:

* a cell is *taken* only when it is free or has lapsed, and
* a party rewrites or gives up its cell only before the expiry it wrote itself.

Under them what an unlapsed claim remembers is what the table holds (`Honest`), so no party
ever touches a cell somebody else wrote. The table here is the specification side — cells
carry their writer, which the stores that refine it do not — and is classical: a store is
shown to refine it by mapping its states to tables and its steps to actions.
-/

namespace Lib.Lease

open List Function Option

universe u v w

variable {κ : Type u} {ν : Type v} {τ : Type w}

/-- What stands under a key: who wrote it, what, and until when. -/
structure Cell (ν : Type v) (τ : Type w) where
  writer : ℕ
  value : ν
  expires : τ

/-- What a party believes it wrote. -/
structure Claim (κ : Type u) (ν : Type v) (τ : Type w) where
  key : κ
  value : ν
  expires : τ

/-- The cells, the parties' beliefs, and the clock. -/
structure Table (κ : Type u) (ν : Type v) (τ : Type w) where
  cell : κ → Option (Cell ν τ)
  claim : ℕ → Option (Claim κ ν τ)
  clock : τ

inductive Action (κ : Type u) (ν : Type v) (τ : Type w)
  | pass (now : τ)
  | take (i : ℕ) (c : Claim κ ν τ) (now : τ)
  | rewrite (i : ℕ) (value : ν) (expires : τ) (now : τ)
  | giveUp (i : ℕ) (now : τ)
  | forget (i : ℕ)

variable [LinearOrder τ] {t t' : Table κ ν τ}

/-- An unlapsed claim is what the table holds. -/
def Honest (t : Table κ ν τ) : Prop :=
  ∀ i c, t.claim i = some c → t.clock < c.expires →
    t.cell c.key = some ⟨i, c.value, c.expires⟩

variable {i : ℕ} {c : Claim κ ν τ}

theorem Honest.unique (h : Honest t) {j : ℕ} {d : Claim κ ν τ} (hi : t.claim i = some c)
    (hj : t.claim j = some d) (hk : c.key = d.key) (hc : t.clock < c.expires)
    (hd : t.clock < d.expires) : i = j := by
  have e := (h i c hi hc).symm.trans (hk ▸ h j d hj hd)
  simpa using congrArg (Option.map Cell.writer) e

variable [DecidableEq κ]

/-- Nothing unlapsed stands under `k`. -/
def Table.Free (t : Table κ ν τ) (k : κ) (now : τ) : Prop :=
  ∀ c, t.cell k = some c → c.expires ≤ now

open Classical in
/-- The disciplined steps. -/
noncomputable def Table.step (t : Table κ ν τ) : Action κ ν τ → Option (Table κ ν τ)
  | .pass now => if t.clock ≤ now then some { t with clock := now } else none
  | .take i c now =>
    if t.clock ≤ now ∧ t.claim i = none ∧ t.Free c.key now then
      some
        { cell := update t.cell c.key (some ⟨i, c.value, c.expires⟩)
          claim := update t.claim i (some c)
          clock := now }
    else none
  | .rewrite i value expires now =>
    match t.claim i with
    | some c =>
      if t.clock ≤ now ∧ now < c.expires then
        some
          { cell := update t.cell c.key (some ⟨i, value, expires⟩)
            claim := update t.claim i (some ⟨c.key, value, expires⟩)
            clock := now }
      else none
    | none => none
  | .giveUp i now =>
    match t.claim i with
    | some c =>
      if t.clock ≤ now ∧ now < c.expires then
        some
          { cell := update t.cell c.key none
            claim := update t.claim i none
            clock := now }
      else none
    | none => none
  | .forget i => some { t with claim := update t.claim i none }

/-! ## Building disciplined runs

A refining store knows its next state, not the action; these say which equations between
two tables make one step of them. -/

theorem run_of_eq {a : Action κ ν τ} {cell : κ → Option (Cell ν τ)}
    {claim : ℕ → Option (Claim κ ν τ)} (hcell : t'.cell = cell) (hclaim : t'.claim = claim)
    (hstep : t.step a = some ⟨cell, claim, t'.clock⟩) : Run Table.step Always t t' := by
  subst hcell hclaim
  exact .single trivial hstep

section

variable (hle : t.clock ≤ t'.clock)

include hle

theorem run_pass (hcell : t'.cell = t.cell) (hclaim : t'.claim = t.claim) :
    Run Table.step Always t t' :=
  run_of_eq (a := .pass t'.clock) hcell hclaim (if_pos hle)

theorem run_take {i : ℕ} {c : Claim κ ν τ} (hnone : t.claim i = none)
    (hfree : t.Free c.key t'.clock)
    (hcell : t'.cell = update t.cell c.key (some ⟨i, c.value, c.expires⟩))
    (hclaim : t'.claim = update t.claim i (some c)) : Run Table.step Always t t' := by
  exact run_of_eq (a := .take i c t'.clock) hcell hclaim (if_pos ⟨hle, hnone, hfree⟩)

theorem run_rewrite {value : ν} {expires : τ} (hi : t.claim i = some c) (hlt : t'.clock < c.expires)
    (hcell : t'.cell = update t.cell c.key (some ⟨i, value, expires⟩))
    (hclaim : t'.claim = update t.claim i (some ⟨c.key, value, expires⟩)) :
    Run Table.step Always t t' := by
  refine run_of_eq (a := .rewrite i value expires t'.clock) hcell hclaim ?_
  simp only [Table.step, hi]
  exact if_pos ⟨hle, hlt⟩

theorem run_giveUp (hi : t.claim i = some c) (hlt : t'.clock < c.expires)
    (hcell : t'.cell = update t.cell c.key none)
    (hclaim : t'.claim = update t.claim i none) : Run Table.step Always t t' := by
  refine run_of_eq (a := .giveUp i t'.clock) hcell hclaim ?_
  simp only [Table.step, hi]
  exact if_pos ⟨hle, hlt⟩

end

theorem run_forget (hcell : t'.cell = t.cell) (hclaim : t'.claim = update t.claim i none)
    (hclock : t'.clock = t.clock) : Run Table.step Always t t' := by
  refine run_of_eq (a := .forget i) hcell hclaim ?_
  rw [hclock]
  rfl

/-! ## Claims stay honest -/

/-- Writing under `k` disturbs no other party's unlapsed claim, if none has one on `k`. -/
theorem Honest.write (h : Honest t) {k : κ} {cell : Option (Cell ν τ)}
    {claim : Option (Claim κ ν τ)} {now : τ} (hnow : t.clock ≤ now)
    (hother : ∀ j c, j ≠ i → t.claim j = some c → now < c.expires → c.key ≠ k)
    (hself : ∀ c, claim = some c → c.key = k ∧ cell = some ⟨i, c.value, c.expires⟩) :
    Honest { cell := update t.cell k cell, claim := update t.claim i claim,
             clock := now : Table κ ν τ } := by
  intro j c (hj : update t.claim i claim j = some c) (hc : now < c.expires)
  by_cases hij : j = i
  · subst hij
    rw [update_self] at hj
    obtain ⟨rfl, rfl⟩ := hself c hj
    exact update_self ..
  · rw [update_of_ne hij] at hj
    have hne : c.key ≠ k := hother j c hij hj hc
    show update t.cell k cell c.key = _
    rw [update_of_ne hne]
    exact h j c hj (lt_of_le_of_lt hnow hc)

theorem Honest.step (h : Honest t) {a : Action κ ν τ} (hstep : t.step a = some t') : Honest t' := by
  cases a with simp only [Table.step] at hstep
  | pass =>
    obtain ⟨hle, ⟨⟩⟩ := ite_none_right_eq_some.mp hstep
    exact fun i c hi hc => h i c hi (lt_of_le_of_lt hle hc)
  | take =>
    obtain ⟨hok, hstep⟩ := ite_none_right_eq_some.mp hstep
    obtain ⟨hle, -, hfree⟩ := hok
    cases hstep
    refine h.write hle ?_ ?_
    · intro j d hij hj hd hk
      have hcell := h j d hj (lt_of_le_of_lt hle hd)
      exact absurd (hfree _ (hk ▸ hcell)) (not_le.mpr hd)
    · rintro d ⟨⟩
      exact ⟨rfl, rfl⟩
  | rewrite | giveUp =>
    split at hstep
    · rename_i c hi
      obtain ⟨hok, ⟨⟩⟩ := ite_none_right_eq_some.mp hstep
      refine h.write hok.1 ?_ ?_
      · intro j d hij hj hd hk
        exact hij (h.unique hj hi hk (lt_of_le_of_lt hok.1 hd) (lt_of_le_of_lt hok.1 hok.2))
      · rintro d ⟨⟩ <;> exact ⟨rfl, rfl⟩
    · cases hstep
  | forget i =>
    cases hstep
    intro j c (hj : update t.claim i none j = some c) hc
    by_cases hij : j = i
    · subst hij
      rw [update_self] at hj
      cases hj
    · rw [update_of_ne hij] at hj
      exact h j c hj hc

theorem honest_of_run {ok : Table κ ν τ → Action κ ν τ → Prop} (hrun : Run Table.step ok t t')
    (h : Honest t) : Honest t' :=
  hrun.invariant (fun hi _ hstep => hi.step hstep) h

/-! ## Tables read off a store

A store keeps its entries in one finite map; who wrote them is kept, for the proof only, in
another. Parties are the positions of a list. -/

/-- The cells of a map of entries and a map of writers. -/
def cells (entries : AList fun _ : κ => ν × τ) (writer : AList fun _ : κ => ℕ) (k : κ) :
    Option (Cell ν τ) :=
  (entries.lookup k).bind fun e => (writer.lookup k).map fun w => ⟨w, e.1, e.2⟩

variable {entries entries' : AList fun _ : κ => ν × τ} {writer : AList fun _ : κ => ℕ} {key : κ}

omit [LinearOrder τ] in
theorem cells_eq_some {c : Cell ν τ} (h : cells entries writer key = some c) :
    entries.lookup key = some (c.value, c.expires) ∧ writer.lookup key = some c.writer := by
  obtain ⟨e, he, hmap⟩ := bind_eq_some_iff.mp h
  obtain ⟨w, hw, rfl⟩ := map_eq_some_iff.mp hmap
  exact ⟨he, hw⟩

omit [LinearOrder τ] in
theorem cells_insert {e : ν × τ} (hkey : entries'.lookup key = some e)
    (hother : ∀ k, k ≠ key → entries'.lookup k = entries.lookup k) :
    cells entries' (writer.insert key i) =
      update (cells entries writer) key (some ⟨i, e.1, e.2⟩) := by
  funext k
  by_cases hk : k = key
  · subst hk
    rw [update_self]
    simp only [cells, hkey, AList.lookup_insert, bind_some, map_some]
  · rw [update_of_ne hk]
    simp only [cells, hother k hk, AList.lookup_insert_ne hk]

omit [LinearOrder τ] in
theorem cells_erase (entries : AList fun _ : κ => ν × τ) (writer : AList fun _ : κ => ℕ) (key : κ) :
    cells (entries.erase key) (writer.erase key) =
      update (cells entries writer) key none := by
  funext k
  by_cases hk : k = key
  · subst hk
    rw [update_self]
    simp only [cells, AList.lookup_erase, bind_none]
  · rw [update_of_ne hk]
    simp only [cells, AList.lookup_erase_ne hk]

/-- The claims of a list of parties. -/
def claims {α : Type u} (claim : α → Option (Claim κ ν τ)) (parties : List α) (i : ℕ) :
    Option (Claim κ ν τ) :=
  parties[i]?.bind claim

section Claims

variable {α : Type u} {claim : α → Option (Claim κ ν τ)} {parties : List α} {i : ℕ} {x : α}

omit [LinearOrder τ] [DecidableEq κ] in
theorem claims_of_getElem? (hi : parties[i]? = some x) : claims claim parties i = claim x := by
  rw [claims, hi, bind_some]

omit [LinearOrder τ] [DecidableEq κ] in
theorem claims_set (hi : parties[i]? = some x) (y : α) :
    claims claim (parties.set i y) = update (claims claim parties) i (claim y) := by
  have hlt := lt_of_getElem? hi
  funext j
  by_cases hij : j = i
  · subst hij
    rw [update_self, claims, getElem?_set_self hlt, bind_some]
  · rw [update_of_ne hij, claims, getElem?_set_ne (Ne.symm hij)]
    rfl

omit [LinearOrder τ] [DecidableEq κ] in
theorem claims_set_eq (hi : parties[i]? = some x) {y : α} (hy : claim y = claim x) :
    claims claim (parties.set i y) = claims claim parties := by
  have hx : claim x = claims claim parties i := (claims_of_getElem? hi).symm
  rw [claims_set hi, hy, hx, update_eq_self]

omit [LinearOrder τ] [DecidableEq κ] in
theorem claims_append {y : α} (hy : claim y = none) :
    claims claim (parties ++ [y]) = claims claim parties := by
  funext j
  unfold claims
  cases hj : (parties ++ [y])[j]? with
  | none =>
    have hle := List.getElem?_eq_none_iff.mp hj
    rw [length_append] at hle
    rw [getElem?_eq_none (Nat.le_of_lt (Nat.lt_of_succ_le hle))]
  | some =>
    rcases getElem?_append_cases hj with ⟨rfl, rfl⟩ | ⟨-, hz⟩
    · rw [getElem?_eq_none (Nat.le_refl _), bind_some, hy, bind_none]
    · rw [hz]

end Claims

end Lib.Lease
