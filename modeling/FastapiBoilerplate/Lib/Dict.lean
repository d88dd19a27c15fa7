import Mathlib.Data.List.Induction
import Mathlib.Data.List.Nodup

/-!
# Dictionaries in insertion order

A Python `dict`: each key once, in the order the keys first came in. Setting a key that is there
changes its value in place, setting a new one appends it. `collect` is the loop
`d.setdefault(key(x), []).append(x)`, and what it makes is the items of each key, in their order.
-/

namespace Lib

open List

universe u v

structure Dict (κ : Type u) (ν : Type v) where
  items : List (κ × ν)
  nodup : (items.map Prod.fst).Nodup
  deriving DecidableEq

namespace Dict

variable {κ : Type u} {ν : Type v}

instance : EmptyCollection (Dict κ ν) := ⟨⟨[], nodup_nil⟩⟩

instance : Inhabited (Dict κ ν) := ⟨∅⟩

variable [DecidableEq κ]

def get (d : Dict κ ν) (k : κ) : Option ν := d.items.lookup k

/-- The items with `k` set to `v`. -/
def setItems (k : κ) (v : ν) : List (κ × ν) → List (κ × ν)
  | [] => [(k, v)]
  | (k', v') :: items => if k' = k then (k, v) :: items else (k', v') :: setItems k v items

theorem keys_setItems (k : κ) (v : ν) (items : List (κ × ν)) :
    (setItems k v items).map Prod.fst =
      if k ∈ items.map Prod.fst then items.map Prod.fst else items.map Prod.fst ++ [k] := by
  induction items with
  | nil => rfl
  | cons item items ih =>
    obtain ⟨k', v'⟩ := item
    by_cases h : k' = k
    · simp [setItems, h]
    have h' : ¬ k = k' := fun e => h e.symm
    simp only [setItems, h, if_false, map_cons, ih, mem_cons, h', false_or]
    split <;> rfl

/-- `d[k] = v`. -/
def set (d : Dict κ ν) (k : κ) (v : ν) : Dict κ ν where
  items := setItems k v d.items
  nodup := by
    rw [keys_setItems]
    split
    · exact d.nodup
    rename_i hnew
    refine nodup_append.mpr ⟨d.nodup, nodup_singleton k, ?_⟩
    intro a ha b hb hab
    obtain rfl := mem_singleton.mp hb
    exact hnew (hab ▸ ha)

/-- `d.pop(k, None)`. -/
def erase (d : Dict κ ν) (k : κ) : Dict κ ν where
  items := d.items.filter fun item => item.1 ≠ k
  nodup := d.nodup.sublist (filter_sublist.map _)

theorem get_empty (k : κ) : (∅ : Dict κ ν).get k = none := rfl

theorem get_set (d : Dict κ ν) (k k' : κ) (v : ν) :
    (d.set k v).get k' = if k' = k then some v else d.get k' := by
  show (setItems k v d.items).lookup k' = if k' = k then some v else d.items.lookup k'
  have hcons (k v) (items : List (κ × ν)) :
      ((k, v) :: items).lookup k' = if k' = k then some v else items.lookup k' := by
    by_cases h : k' = k
    · simp [h]
    · simp [h, lookup_cons, beq_eq_false_iff_ne.mpr h]
  induction d.items with
  | nil => exact hcons k v []
  | cons item items ih =>
    obtain ⟨k₁, v₁⟩ := item
    by_cases h₁ : k₁ = k
    · subst h₁
      rw [setItems, if_pos rfl, hcons, hcons]
      split <;> rfl
    · rw [setItems, if_neg h₁, hcons, hcons, ih]
      split <;> simp_all

theorem get_set_self (d : Dict κ ν) (k : κ) (v : ν) : (d.set k v).get k = some v := by
  rw [get_set, if_pos rfl]

variable {k : κ} {α : Type v} {d : Dict κ ν} {v : ν}

theorem get_set_of_ne (d : Dict κ ν) {k' : κ} (v : ν) (hne : k' ≠ k) :
    (d.set k v).get k' = d.get k' := by
  rw [get_set, if_neg hne]

theorem mem_of_lookup {items : List (κ × ν)} (h : items.lookup k = some v) : (k, v) ∈ items := by
  obtain ⟨before, after, rfl, -⟩ := lookup_eq_some_iff.mp h
  exact mem_append_right before mem_cons_self

theorem get_of_mem (h : (k, v) ∈ d.items) : d.get k = some v := by
  cases hget : d.get k with
  | none => simpa using lookup_eq_none_iff.mp hget _ h
  | some =>
    obtain ⟨-, rfl⟩ := Prod.mk.inj (inj_on_of_nodup_map d.nodup (mem_of_lookup hget) h rfl)
    rfl

theorem mem_items : (k, v) ∈ d.items ↔ d.get k = some v :=
  ⟨get_of_mem, mem_of_lookup⟩

theorem get_erase (d : Dict κ ν) (k k' : κ) :
    (d.erase k).get k' = if k' = k then none else d.get k' := by
  ext v
  rw [← mem_items, erase, mem_filter, mem_items]
  by_cases h : k' = k
  · simp [h]
  · simp [h]

/-- The entry of a dictionary of lists that keeps no empty ones. -/
def listed {α : Type v} (l : List α) : Option (List α) := if l = [] then none else some l

theorem getD_listed (l : List α) : (listed l).getD [] = l := by
  unfold listed
  split
  · exact Eq.symm ‹l = []›
  · rfl

theorem listed_ne_some_nil (l : List α) : listed l ≠ some [] := by
  unfold listed
  split
  · nofun
  · rename_i h
    exact fun heq => h (Option.some.inj heq)

/-- `d[k] = l`, and `del d[k]` once there is nothing in it. -/
theorem get_set_or_erase (d : Dict κ (List α)) (k k' : κ) (l : List α) [DecidableEq α] :
    (if l = [] then d.erase k else d.set k l).get k' = if k' = k then listed l else d.get k' := by
  unfold listed
  split
  · rw [get_erase]
  · rw [get_set]

theorem get_of_get_erase {k' : κ} (h : (d.erase k').get k = some v) : d.get k = some v := by
  rw [get_erase] at h
  split at h
  · cases h
  · exact h

theorem get_of_get_foldl_erase {keys : List κ} (h : (keys.foldl erase d).get k = some v) :
    d.get k = some v := by
  induction keys generalizing d with
  | nil => exact h
  | cons key keys ih => exact get_of_get_erase (ih h)

/-- `{k: v for k, v in d.items() if keep(v)}`. -/
def filterValues (keep : ν → Bool) (d : Dict κ ν) : Dict κ ν where
  items := d.items.filter fun item => keep item.2
  nodup := d.nodup.sublist (filter_sublist.map _)

theorem get_filterValues {keep : ν → Bool} :
    (d.filterValues keep).get k = some v ↔ d.get k = some v ∧ keep v = true := by
  rw [← mem_items, ← mem_items]
  exact mem_filter

theorem erase_of_get_eq_none (h : d.get k = none) : d.erase k = d := by
  have hkeep : d.items.filter (fun item => item.1 ≠ k) = d.items := by
    refine filter_eq_self.mpr fun item hitem => ?_
    refine decide_eq_true fun hk => ?_
    rw [← hk, get_of_mem hitem] at h
    cases h
  obtain ⟨items, hnodup⟩ := d
  simpa [erase] using hkeep

theorem mem_set {k' : κ} {v' : ν} (h : (k', v') ∈ (d.set k v).items) :
    (k' = k ∧ v' = v) ∨ (k', v') ∈ d.items := by
  have hget := get_of_mem h
  rw [get_set] at hget
  split at hget
  · exact .inl ⟨‹_›, (Option.some.inj hget).symm⟩
  · exact .inr (mem_of_lookup hget)

/-- `{k: f(k) for k in keys}`. -/
def ofKeys (keys : List κ) (f : κ → ν) : Dict κ ν := keys.foldl (fun d k => d.set k (f k)) ∅

theorem get_ofKeys (keys : List κ) (f : κ → ν) (k : κ) :
    (ofKeys keys f).get k = if k ∈ keys then some (f k) else none := by
  unfold ofKeys
  induction keys using List.reverseRecOn with
  | nil => rfl
  | append_singleton keys k' ih =>
    rw [foldl_append, foldl_cons, foldl_nil, get_set, ih]
    by_cases h : k = k'
    · simp [h]
    · simp [h]

/-! ## Grouping -/

variable {α : Type u}

/-- The items of `xs` under each of their keys. -/
def collect (key : α → κ) (xs : List α) : Dict κ (List α) :=
  xs.foldl (fun d x => d.set (key x) ((d.get (key x)).getD [] ++ [x])) ∅

theorem collect_append (key : α → κ) (xs : List α) (x : α) :
    collect key (xs ++ [x]) =
      (collect key xs).set (key x) (((collect key xs).get (key x)).getD [] ++ [x]) := by
  simp [collect]

theorem getD_collect (key : α → κ) (xs : List α) (k : κ) :
    ((collect key xs).get k).getD [] = xs.filter fun x => key x = k := by
  induction xs using List.reverseRecOn with
  | nil => rfl
  | append_singleton xs x ih =>
    rw [collect_append, get_set]
    by_cases h : k = key x
    · subst h
      simp [ih]
    · have h' : ¬ key x = k := fun e => h e.symm
      simp [h, h', ih]

theorem eq_filter_of_mem_collect {key : α → κ} {xs ys : List α}
    (h : (k, ys) ∈ (collect key xs).items) : ys = xs.filter fun x => key x = k := by
  rw [← getD_collect, get_of_mem h]
  rfl

theorem exists_group (key : α → κ) {xs : List α} {x : α} (h : x ∈ xs) :
    ∃ ys, (key x, ys) ∈ (collect key xs).items ∧ x ∈ ys := by
  have hx : x ∈ ((collect key xs).get (key x)).getD [] := by
    rw [getD_collect]
    simp [h]
  cases hget : (collect key xs).get (key x) with
  | none => simp [hget] at hx
  | some ys => exact ⟨ys, mem_of_lookup hget, by simpa [hget] using hx⟩

end Dict

end Lib
