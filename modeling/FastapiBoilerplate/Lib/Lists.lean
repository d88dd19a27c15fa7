import Mathlib.Data.List.AList
import Mathlib.Data.List.DropRight
import Mathlib.Data.List.TakeDrop

/-!
# Lists and finite maps as stores

Calls, slots, waiters, requests and transactions are all kept in lists and addressed by
position: the position is the identity, appending creates, `List.set` updates. The lemmas
here say what one such update does to a count and to a lookup; bounded deques are the
suffixes `List.rtake` cuts. Keyed stores are `AList`s.
-/

namespace Lib

open List

universe u

variable {α : Type u} {l : List α} {i : ℕ} {x : α}

theorem countP_set (p : α → Bool) (h : l[i]? = some x) (y : α) :
    (l.set i y).countP p + (if p x = true then 1 else 0) =
      l.countP p + if p y = true then 1 else 0 := by
  obtain ⟨hlt, rfl⟩ := List.getElem?_eq_some_iff.mp h
  rw [countP_set hlt]
  by_cases hx : p l[i] = true
  · have hpos : 0 < l.countP p := countP_pos_iff.mpr ⟨_, getElem_mem hlt, hx⟩
    rw [if_pos hx]
    omega
  · rw [if_neg hx]
    omega

variable {j : ℕ} {y z : α} {p : α → Bool} {R : α → α → Prop} {l' l₁ : List α} {P : α → Prop}

theorem getElem?_set_cases (h : (l.set i y)[j]? = some z) :
    (j = i ∧ z = y) ∨ (j ≠ i ∧ l[j]? = some z) := by
  rw [getElem?_set] at h
  split at h
  · obtain ⟨-, ⟨⟩⟩ := Option.ite_none_right_eq_some.mp h
    exact .inl ⟨Eq.symm ‹_›, rfl⟩
  · exact .inr ⟨Ne.symm ‹_›, h⟩

theorem lt_of_getElem? (h : l[i]? = some x) : i < l.length :=
  (List.getElem?_eq_some_iff.mp h).1

theorem getElem?_set_at (h : l[i]? = some x) : (l.set i y)[i]? = some y :=
  getElem?_set_self (lt_of_getElem? h)

theorem getElem?_append_of (h : l[i]? = some x) : (l ++ l')[i]? = some x :=
  (getElem?_append_left (lt_of_getElem? h)).trans h

theorem getElem?_set_of_ne (hi : l[i]? = some x) (hj : l[j]? = some y) (hne : x ≠ y) :
    (l.set i z)[j]? = some y := by
  have hij : i ≠ j := by
    rintro rfl
    exact hne (Option.some.inj (hi.symm.trans hj))
  rw [getElem?_set_ne hij, hj]

theorem mem_snoc : y ∈ l ++ [x] ↔ y ∈ l ∨ y = x := by
  rw [mem_append, mem_singleton]

theorem forall_mem_snoc (h : ∀ y ∈ l, P y) (hx : P x) : ∀ y ∈ l ++ [x], P y :=
  forall_mem_append.mpr ⟨h, forall_mem_singleton.mpr hx⟩

theorem pairwise_snoc (h : l.Pairwise R) (hx : ∀ y ∈ l, R y x) : (l ++ [x]).Pairwise R :=
  pairwise_append.mpr ⟨h, pairwise_singleton _ _, by simpa using hx⟩

theorem forall_mem_set (h : ∀ y ∈ l, P y) (hx : P x) : ∀ y ∈ l.set i x, P y := by
  intro y hy
  rcases mem_or_eq_of_mem_set hy with hy | rfl
  · exact h y hy
  · exact hx

theorem mem_set_of_mem (h : l[i]? = some x) (hy : y ∈ l) (hne : y ≠ x) : y ∈ l.set i z := by
  obtain ⟨j, hj⟩ := mem_iff_getElem?.mp hy
  exact mem_of_getElem? (getElem?_set_of_ne h hj hne.symm)

theorem eq_of_countP_le_one (h : l.countP p ≤ 1) (hx : x ∈ l) (hy : y ∈ l) (hpx : p x = true)
    (hpy : p y = true) : x = y := by
  rw [countP_eq_length_filter] at h
  have hxf := mem_filter.mpr ⟨hx, hpx⟩
  have hyf := mem_filter.mpr ⟨hy, hpy⟩
  match hl : l.filter p, h with
  | [], _ =>
    rw [hl] at hxf
    cases hxf
  | [z], _ =>
    rw [hl, mem_singleton] at hxf hyf
    rw [hxf, hyf]

theorem set_of_getElem? (h : l[i]? = some x) : l.set i x = l := by
  obtain ⟨hlt, rfl⟩ := List.getElem?_eq_some_iff.mp h
  exact set_getElem_self hlt

/-- An element in the place of another that a function cannot tell from it. -/
theorem map_getElem?_set {β : Type*} {f : α → β} (h : l[i]? = some x) (hf : f y = f x) (j : ℕ) :
    ((l.set i y)[j]?).map f = (l[j]?).map f := by
  have hset : (l.set i y).map f = l.map f := by
    rw [map_set, hf]
    apply set_of_getElem?
    rw [getElem?_map, h]
    rfl
  rw [← getElem?_map, hset, getElem?_map]

theorem getElem?_append_cases (h : (l ++ [y])[j]? = some z) :
    (j = l.length ∧ z = y) ∨ (j < l.length ∧ l[j]? = some z) := by
  rw [getElem?_append] at h
  split at h
  · exact .inr ⟨‹_›, h⟩
  · rw [getElem?_singleton] at h
    obtain ⟨hj, ⟨⟩⟩ := Option.ite_none_right_eq_some.mp h
    exact .inl ⟨by omega, rfl⟩

/-- What is before a position, and the element there, begin everything longer. -/
theorem take_split {r : ℕ} (h : l[i]? = some x) (hir : i < r) :
    ∃ mid, l.take r = l.take i ++ x :: mid := by
  obtain ⟨hlt, rfl⟩ := List.getElem?_eq_some_iff.mp h
  refine ⟨(l.drop (i + 1)).take (r - i - 1), ?_⟩
  obtain ⟨k, rfl⟩ : ∃ k, r = i + (k + 1) := ⟨r - i - 1, by omega⟩
  rw [take_add, drop_eq_getElem_cons hlt, take_succ_cons]
  simp

/-- What holds of every element of the separator and of the parts holds of every element of what
    is joined. -/
theorem forall_mem_intercalate {p : α → Prop} {sep : List α} {parts : List (List α)}
    (hsep : ∀ x ∈ sep, p x) (h : ∀ part ∈ parts, ∀ x ∈ part, p x) :
    ∀ x ∈ sep.intercalate parts, p x := by
  induction parts with
  | nil => exact nofun
  | cons part parts ih =>
    rw [forall_mem_cons] at h
    cases parts with
    | nil => simpa using h.1
    | cons =>
      rw [intercalate_cons_cons]
      exact forall_mem_append.mpr ⟨forall_mem_append.mpr ⟨h.1, hsep⟩, ih h.2⟩

/-! Lists that are related element by element. -/

theorem forall₂_set (hrefl : ∀ x, R x x) (h : l[i]? = some x) (hxy : R x y) :
    List.Forall₂ R l (l.set i y) := by
  induction l generalizing i with
  | nil => cases h
  | cons z l ih =>
    cases i with
    | zero =>
      cases h
      exact .cons hxy (forall₂_same.mpr fun x _ => hrefl x)
    | succ => exact .cons (hrefl z) (ih h)

theorem getElem?_of_forall₂ {β : Type*} {S : α → β → Prop} {l' : List β} {y : β}
    (h : List.Forall₂ S l l') (hy : l'[i]? = some y) : ∃ x, l[i]? = some x ∧ S x y := by
  obtain ⟨hlt', rfl⟩ := List.getElem?_eq_some_iff.mp hy
  have hlt : i < l.length := h.length_eq ▸ hlt'
  exact ⟨l[i], getElem?_eq_getElem hlt, h.get hlt hlt'⟩

theorem countP_of_forall₂ (h : List.Forall₂ R l l') (hp : ∀ x y, R x y → p x = p y) :
    l'.countP p = l.countP p := by
  induction h with
  | nil => rfl
  | cons hxy _ ih => rw [countP_cons, countP_cons, ih, hp _ _ hxy]

/-- "First `x`, later `y`", in a list that grows at its end. -/
theorem pair_sublist_append :
    [x, y].Sublist (l ++ l') ↔ [x, y].Sublist l ∨ (x ∈ l ∧ y ∈ l') ∨ [x, y].Sublist l' := by
  constructor
  · intro h
    obtain ⟨l₁, l₂, heq, h₁, h₂⟩ := sublist_append_iff.mp h
    match l₁, heq with
    | [], heq =>
      cases heq
      exact .inr (.inr h₂)
    | [_], heq =>
      cases heq
      exact .inr (.inl ⟨singleton_sublist.mp h₁, singleton_sublist.mp h₂⟩)
    | [_, _], heq =>
      cases heq
      exact .inl h₁
  · rintro (h | ⟨hx, hy⟩ | h)
    · exact h.trans (sublist_append_left _ _)
    · exact (singleton_sublist.mpr hx).append (singleton_sublist.mpr hy)
    · exact h.trans (sublist_append_right _ _)

theorem rtake_append_rtake (l : List α) (x : α) (n : ℕ) :
    (l.rtake n ++ [x]).rtake n = (l ++ [x]).rtake n := by
  simp only [rtake_eq_reverse_take_reverse, reverse_append, reverse_singleton,
    singleton_append, reverse_reverse]
  cases n with
  | zero => simp
  | succ n => simp only [take_succ_cons, take_take, Nat.min_eq_left (Nat.le_succ n)]

theorem modify_append_left (f : α → α) (l₂ : List α) (h : j < l₁.length) :
    (l₁ ++ l₂).modify j f = l₁.modify j f ++ l₂ := by
  induction l₁ generalizing j with
  | nil => exact absurd h (Nat.not_lt_zero j)
  | cons a l₁ ih =>
    cases j with
    | zero => rfl
    | succ => simp [ih (Nat.lt_of_succ_lt_succ h)]

theorem getElem?_foldl_modify {f : ℕ → α → α} {places : List ℕ} (h : places.Nodup) (l : List α)
    (j : ℕ) :
    (places.foldl (fun l i => l.modify i (f i)) l)[j]? =
      if j ∈ places then l[j]?.map (f j) else l[j]? := by
  induction places generalizing l with
  | nil => simp
  | cons i places ih =>
    obtain ⟨hi, hplaces⟩ := nodup_cons.mp h
    rw [foldl_cons, ih hplaces, getElem?_modify]
    by_cases hij : i = j
    · subst hij
      simp [hi]
    · simp [hij, Ne.symm hij]

theorem append_eq_append_cons {l₂ pre post : List α} (h : l₁ ++ l₂ = pre ++ x :: post) :
    (∃ rest, l₁ = pre ++ x :: rest) ∨ ∃ before, pre = l₁ ++ before ∧ l₂ = before ++ x :: post := by
  rcases append_eq_append_iff.mp h with ⟨before, hpre, hl₂⟩ | ⟨after, hl₁, hpost⟩
  · exact .inr ⟨before, hpre, hl₂⟩
  cases after with
  | nil =>
    rw [append_nil] at hl₁
    exact .inr ⟨[], by rw [hl₁, append_nil], by simpa using hpost.symm⟩
  | cons y after =>
    obtain ⟨rfl, -⟩ := List.cons.inj hpost
    exact .inl ⟨after, hl₁⟩

/-- What stands before the first separator, and what after it, is read off a joined list. -/
theorem append_cons_inj {sep : α} {x₁ x₂ z₁ z₂ : List α} (h₁ : sep ∉ x₁) (h₂ : sep ∉ x₂)
    (h : x₁ ++ sep :: z₁ = x₂ ++ sep :: z₂) : x₁ = x₂ ∧ z₁ = z₂ := by
  rcases append_eq_append_cons h with ⟨rest, rfl⟩ | ⟨before, rfl, hrest⟩
  · exact absurd (by simp) h₁
  cases before with
  | nil => exact ⟨(append_nil x₁).symm, tail_eq_of_cons_eq hrest⟩
  | cons =>
    obtain ⟨rfl, -⟩ := List.cons.inj hrest
    exact absurd (by simp) h₂

/-- What the one at place `i` of `n` gets when a list is dealt out one by one. -/
def dealt (n i : ℕ) (l : List α) : List α :=
  (l.zipIdx.filter fun entry => entry.2 % n = i).map Prod.fst

theorem mem_dealt {n : ℕ} : x ∈ dealt n i l ↔ ∃ k, l[k]? = some x ∧ k % n = i := by
  simp only [dealt, mem_map, mem_filter, decide_eq_true_eq]
  constructor
  · rintro ⟨⟨y, k⟩, ⟨hmem, hk⟩, rfl⟩
    exact ⟨k, mem_zipIdx_iff_getElem?.mp hmem, hk⟩
  · rintro ⟨k, hx, hk⟩
    exact ⟨(x, k), ⟨mem_zipIdx_iff_getElem?.mpr hx, hk⟩, rfl⟩

/-- A span ends where the first element is that is not of it. -/
theorem span_of_all {first : List α} (rest : List α) (h : ∀ x ∈ first, p x = true)
    (hrest : ∀ x ∈ rest.head?, p x = false) : (first ++ rest).span p = (first, rest) := by
  rw [span_eq_takeWhile_dropWhile, takeWhile_append_of_pos h,
    dropWhile_append_of_pos h]
  cases rest with
  | nil => simp
  | cons x =>
    have hx : p x = false := hrest x rfl
    rw [takeWhile_cons_of_neg (by simp [hx]), dropWhile_cons_of_neg (by simp [hx]),
      append_nil]

end Lib
