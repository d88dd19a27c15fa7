import FastapiBoilerplate.Lib.Lists

/-!
# A table under READ COMMITTED

One table, any number of transactions, and no more isolation than this:

* a statement reads the rows that are committed when it runs, and nothing anyone else has
  written since;
* `UPDATE` locks the row it writes, and whoever wants to write that row next waits until the
  holder commits or rolls back;
* `INSERT` is refused (or waits) while a row with the same unique key exists or is on its way.

A row keeps its committed version and, while a transaction holds its lock, the version that
transaction would commit. There is one place for the latter, so two holders of one lock cannot
be written down. A row's place in the table is its primary key; rows are never deleted.

The rules at the end are for tables whose writes only move rows along a relation `R` ("same
key, and never un-revoked"): committed rows then move along `R` too, whatever the transactions
do (`Along`), and a lookup that has found its row keeps finding it.
-/

namespace Lib.ReadCommitted

open List Option

universe u

variable {ν : Type u}

/-- A row: what is committed, and what the transaction that has it locked would commit. -/
structure Slot (ν : Type u) where
  committed : ν
  pending : Option (ℕ × ν) := none

/-- The version transaction `t` would write over, if the row is not locked by another. -/
def Slot.current (t : ℕ) (s : Slot ν) : Option ν :=
  match s.pending with
  | none => some s.committed
  | some (t', v) => if t' = t then some v else none

/-- The version its holder sees. -/
def Slot.latest (s : Slot ν) : ν := (s.pending.map (·.2)).getD s.committed

/-- The row when `t` has committed. -/
def Slot.settle (t : ℕ) (s : Slot ν) : Slot ν :=
  match s.pending with
  | none => s
  | some (t', v) => if t' = t then ⟨v, none⟩ else s

/-- The row when `t` has rolled back. -/
def Slot.drop (t : ℕ) (s : Slot ν) : Slot ν :=
  match s.pending with
  | none => s
  | some (t', _) => if t' = t then ⟨s.committed, none⟩ else s

variable {t t' : ℕ} {v w : ν} {s : Slot ν}

theorem Slot.settle_of_pending (h : t' ≠ t) :
    (⟨v, some (t', w)⟩ : Slot ν).settle t = ⟨v, some (t', w)⟩ :=
  if_neg h

theorem Slot.settle_self : (⟨v, some (t, w)⟩ : Slot ν).settle t = ⟨w, none⟩ :=
  if_pos rfl

theorem Slot.drop_of_pending (h : t' ≠ t) :
    (⟨v, some (t', w)⟩ : Slot ν).drop t = ⟨v, some (t', w)⟩ :=
  if_neg h

/-- A lock that outlives a commit of `t` is another's. -/
theorem Slot.of_settle (h : s.settle t = ⟨v, some (t', w)⟩) : s = ⟨v, some (t', w)⟩ ∧ t' ≠ t := by
  obtain ⟨committed, _ | ⟨t'', version⟩⟩ := s
  · cases h
  by_cases ht : t'' = t
  · simp [Slot.settle, ht] at h
  rw [Slot.settle_of_pending ht] at h
  cases h
  exact ⟨rfl, ht⟩

theorem Slot.of_drop (h : s.drop t = ⟨v, some (t', w)⟩) : s = ⟨v, some (t', w)⟩ ∧ t' ≠ t := by
  obtain ⟨committed, _ | ⟨t'', version⟩⟩ := s
  · cases h
  by_cases ht : t'' = t
  · simp [Slot.drop, ht] at h
  rw [Slot.drop_of_pending ht] at h
  cases h
  exact ⟨rfl, ht⟩

/-- The table, and the rows inserted by transactions that have not committed. -/
structure Db (ν : Type u) where
  slots : List (Slot ν) := []
  inserts : List (ℕ × ν) := []

namespace Db

variable (db : Db ν) (t : ℕ)

/-- What a statement reads. -/
def rows : List ν := db.slots.map (·.committed)

/-- `SELECT … WHERE key = …` on a unique key: the row's place and the row. -/
def find (p : ν → Bool) : Option (ℕ × ν) :=
  (db.rows.findIdx? p).bind fun i => db.rows[i]?.map fun v => (i, v)

/-- `SELECT … WHERE …`: the places of the rows it returns. -/
def select (p : ν → Bool) : List ℕ :=
  (List.range db.rows.length).filter fun i => db.rows[i]?.any p

/-- `UPDATE … WHERE id = i`; `none` while another transaction holds the row. -/
def update (i : ℕ) (f : ν → ν) : Option (Db ν) :=
  db.slots[i]?.bind fun s => (s.current t).map fun v =>
    { db with slots := db.slots.set i ⟨s.committed, some (t, f v)⟩ }

/-- `INSERT`; `none` if a row that clashes with the new one is stored or about to be. -/
def insert (clash : ν → Bool) (v : ν) : Option (Db ν) :=
  if db.rows.any clash || db.inserts.any (fun w => clash w.2) then none
  else some { db with inserts := db.inserts ++ [(t, v)] }

/-- The rows `t` has inserted and not committed. -/
def insertsOf : List ν := (db.inserts.filter (·.1 = t)).map (·.2)

/-- `COMMIT`. -/
def commit : Db ν where
  slots := db.slots.map (Slot.settle t) ++ (db.insertsOf t).map fun v => ⟨v, none⟩
  inserts := db.inserts.filter (·.1 ≠ t)

/-- `ROLLBACK`, and what becomes of a session that is closed without a commit. -/
def rollback : Db ν where
  slots := db.slots.map (Slot.drop t)
  inserts := db.inserts.filter (·.1 ≠ t)

variable {db : Db ν} {db' : Db ν} {t : ℕ}

/-! ## What is read -/

theorem rows_getElem? (i : ℕ) : db.rows[i]? = db.slots[i]?.map (·.committed) := by
  rw [rows, getElem?_map]

variable {i : ℕ} {s : Slot ν} {clash p : ν → Bool} {f : ν → ν} {places : List ℕ} {v : ν}

theorem rows_of_slot (h : db.slots[i]? = some s) : db.rows[i]? = some s.committed := by
  rw [rows_getElem?, h]
  rfl

theorem slot_of_row (h : db.rows[i]? = some v) :
    ∃ s : Slot ν, db.slots[i]? = some s ∧ s.committed = v := by
  rw [rows_getElem?] at h
  exact map_eq_some_iff.mp h

theorem find_eq_some :
    db.find p = some (i, v) ↔ db.rows.findIdx? p = some i ∧ db.rows[i]? = some v := by
  rw [find, bind_eq_some_iff]
  constructor
  · rintro ⟨j, hj, h⟩
    obtain ⟨w, hw, e⟩ := map_eq_some_iff.mp h
    cases e
    exact ⟨hj, hw⟩
  · rintro ⟨hi, hv⟩
    exact ⟨i, hi, by rw [hv]; rfl⟩

theorem findIdx?_of_find_eq_none (h : db.find p = none) : db.rows.findIdx? p = none := by
  cases hi : db.rows.findIdx? p with
  | none => rfl
  | some =>
    obtain ⟨hlt, -⟩ := findIdx?_eq_some_iff_getElem.mp hi
    simp [find, hi, getElem?_eq_getElem hlt] at h

theorem mem_select : i ∈ db.select p ↔ ∃ v, db.rows[i]? = some v ∧ p v = true := by
  rw [select, mem_filter, mem_range, any_eq_true_iff_get]
  constructor
  · rintro ⟨hlt, hsome, hp⟩
    exact ⟨_, (some_get hsome).symm, hp⟩
  · rintro ⟨v, hv, hp⟩
    refine ⟨lt_of_getElem? hv, by rw [hv]; rfl, ?_⟩
    simpa only [hv, get_some] using hp

/-! ## What is written -/

theorem update_eq_some (h : db.update t i f = some db') :
    ∃ (s : Slot ν) (v : ν), db.slots[i]? = some s ∧ s.current t = some v ∧
      db' = { db with slots := db.slots.set i ⟨s.committed, some (t, f v)⟩ } := by
  obtain ⟨s, hs, h⟩ := bind_eq_some_iff.mp h
  obtain ⟨v, hv, rfl⟩ := map_eq_some_iff.mp h
  exact ⟨s, v, hs, hv, rfl⟩

theorem insert_eq_some (h : db.insert t clash v = some db') :
    db' = { db with inserts := db.inserts ++ [(t, v)] } := by
  unfold insert at h
  split at h
  · cases h
  · exact (some.inj h).symm

theorem rows_update (h : db.update t i f = some db') : db'.rows = db.rows := by
  obtain ⟨s, v, hs, -, rfl⟩ := update_eq_some h
  have hrow := rows_of_slot hs
  rw [rows, map_set]
  exact set_of_getElem? hrow

theorem slots_insert (h : db.insert t clash v = some db') : db'.slots = db.slots := by
  rw [insert_eq_some h]

theorem rows_insert (h : db.insert t clash v = some db') : db'.rows = db.rows := by
  rw [insert_eq_some h]
  rfl

theorem rows_rollback : (db.rollback t).rows = db.rows := by
  have hdrop : ∀ s : Slot ν, (s.drop t).committed = s.committed := by
    intro s
    unfold Slot.drop
    split
    · rfl
    · split <;> rfl
  rw [rows, rollback, List.map_map]
  exact map_congr_left fun s _ => hdrop s

theorem rows_commit :
    (db.commit t).rows = db.slots.map (fun s => (s.settle t).committed) ++ db.insertsOf t := by
  simp [rows, commit, Function.comp_def]

theorem rows_commit_getElem? (h : db.insertsOf t = []) (i : ℕ) :
    (db.commit t).rows[i]? = db.slots[i]?.map fun s => (s.settle t).committed := by
  rw [rows_commit, h, append_nil, getElem?_map]

theorem slots_commit (h : db.slots[i]? = some s) : (db.commit t).slots[i]? = some (s.settle t) := by
  have hlt := lt_of_getElem? h
  rw [commit, getElem?_append_left (by simpa using hlt), getElem?_map, h]
  rfl

theorem slots_rollback (h : db.slots[i]? = some s) :
    (db.rollback t).slots[i]? = some (s.drop t) := by
  rw [rollback, getElem?_map, h]
  rfl

/-- A row found after a commit was there before it, or is one the transaction inserted. -/
theorem slots_commit_cases (h : (db.commit t).slots[i]? = some s) :
    (∃ s₀, db.slots[i]? = some s₀ ∧ s = s₀.settle t) ∨
      (db.slots.length ≤ i ∧ s.pending = none ∧
        (db.insertsOf t)[i - db.slots.length]? = some s.committed) := by
  rw [commit] at h
  by_cases hlt : i < db.slots.length
  · rw [getElem?_append_left (by simpa using hlt), getElem?_map] at h
    obtain ⟨s₀, hs₀, rfl⟩ := map_eq_some_iff.mp h
    exact .inl ⟨s₀, hs₀, rfl⟩
  · rw [getElem?_append_right (by simpa using hlt), getElem?_map,
      length_map] at h
    obtain ⟨v, hv, rfl⟩ := map_eq_some_iff.mp h
    exact .inr ⟨Nat.le_of_not_lt hlt, rfl, hv⟩

/-- A lock that is there after a commit or a rollback was there before, and is another's. -/
theorem slots_of_commit (h : (db.commit t).slots[i]? = some ⟨v, some (t', w)⟩) :
    db.slots[i]? = some ⟨v, some (t', w)⟩ ∧ t' ≠ t := by
  rcases slots_commit_cases h with ⟨s₀, hs₀, heq⟩ | ⟨-, hnone, -⟩
  · obtain ⟨rfl, hne⟩ := Slot.of_settle heq.symm
    exact ⟨hs₀, hne⟩
  · cases hnone

theorem slots_of_rollback (h : (db.rollback t).slots[i]? = some ⟨v, some (t', w)⟩) :
    db.slots[i]? = some ⟨v, some (t', w)⟩ ∧ t' ≠ t := by
  rw [rollback, getElem?_map] at h
  obtain ⟨s₀, hs₀, heq⟩ := map_eq_some_iff.mp h
  obtain ⟨rfl, hne⟩ := Slot.of_drop heq
  exact ⟨hs₀, hne⟩

theorem insertsOf_update (h : db.update t i f = some db') (t' : ℕ) :
    db'.insertsOf t' = db.insertsOf t' := by
  obtain ⟨s, v, -, -, rfl⟩ := update_eq_some h
  rfl

theorem insertsOf_insert (h : db.insert t clash v = some db') (t' : ℕ) :
    db'.insertsOf t' = if t' = t then db.insertsOf t' ++ [v] else db.insertsOf t' := by
  rw [insert_eq_some h, insertsOf, filter_append, map_append]
  split
  · next e =>
    subst e
    simp [insertsOf]
  · next e => simp [insertsOf, Ne.symm e]

/-- Whether it commits or rolls back, a transaction's inserts stop being pending, and nobody
    else's do. -/
theorem insertsOf_settled (h : db'.inserts = db.inserts.filter (·.1 ≠ t)) (t' : ℕ) :
    db'.insertsOf t' = if t' = t then [] else db.insertsOf t' := by
  rw [insertsOf, h, List.filter_filter]
  split
  · next e =>
    subst e
    simp
  · next e =>
    rw [insertsOf]
    congr 1
    apply filter_congr
    intro w _
    by_cases hw : w.1 = t'
    · simp [hw, e]
    · simp [hw]

/-! ## Locks -/

/-- A step of `t` leaves every lock another transaction holds, and what it holds it for. -/
def KeepsLocks (t : ℕ) (db db' : Db ν) : Prop :=
  ∀ (i : ℕ) (v : ν) (t' : ℕ) (w : ν), t' ≠ t → db.slots[i]? = some ⟨v, some (t', w)⟩ →
    db'.slots[i]? = some ⟨v, some (t', w)⟩

theorem KeepsLocks.of_slots_eq (h : db'.slots = db.slots) : KeepsLocks t db db' := by
  intro i v t' w _ hi
  rw [h]
  exact hi

theorem KeepsLocks.update (h : db.update t i f = some db') : KeepsLocks t db db' := by
  obtain ⟨s, v, hs, hv, rfl⟩ := update_eq_some h
  intro j u t' w hne hj
  refine getElem?_set_of_ne hs hj ?_
  -- another's row: the `UPDATE` would have waited
  rintro rfl
  exact absurd hv (by simp [Slot.current, hne])

theorem KeepsLocks.commit : KeepsLocks t db (db.commit t) := by
  intro i v t' w hne hi
  rw [slots_commit hi, Slot.settle_of_pending hne]

theorem KeepsLocks.rollback : KeepsLocks t db (db.rollback t) := by
  intro i v t' w hne hi
  rw [slots_rollback hi, Slot.drop_of_pending hne]

theorem slots_update (h : db.update t i f = some db') :
    ∃ v w, db.rows[i]? = some v ∧ db'.slots[i]? = some ⟨v, some (t, w)⟩ := by
  obtain ⟨s, v, hs, -, rfl⟩ := update_eq_some h
  exact ⟨s.committed, f v, rows_of_slot hs,
    getElem?_set_at hs⟩

/-! ## Rows that only move along a relation -/

variable {R : ν → ν → Prop} {l l' : List ν}

/-- Whatever waits to be committed lies along `R` from what is. -/
def Within (R : ν → ν → Prop) (db : Db ν) : Prop :=
  ∀ (i : ℕ) (s : Slot ν) (t : ℕ) (v : ν), db.slots[i]? = some s → s.pending = some (t, v) →
    R s.committed v

/-- Every row is still in its place, moved along `R`. -/
def Along (R : ν → ν → Prop) (l l' : List ν) : Prop :=
  ∀ (i : ℕ) (v : ν), l[i]? = some v → ∃ v', l'[i]? = some v' ∧ R v v'

theorem Along.of_eq (refl : ∀ v, R v v) (h : l' = l) : Along R l l' := by
  intro i v hv
  exact ⟨v, h ▸ hv, refl v⟩

/-- A lookup by something `R` never changes keeps finding the row it has found. -/
theorem Along.findIdx? (h : Along R l l') (hp : ∀ {v v' : ν}, R v v' → p v' = p v)
    (hi : l.findIdx? p = some i) : l'.findIdx? p = some i := by
  obtain ⟨hlt, hpi, hbefore⟩ := findIdx?_eq_some_iff_getElem.mp hi
  have look : ∀ {j : ℕ} (hj : j < l.length), ∃ hj' : j < l'.length, p l'[j] = p l[j] := by
    intro j hj
    obtain ⟨v', hv', hr⟩ := h j _ (getElem?_eq_getElem hj)
    obtain ⟨hj', rfl⟩ := List.getElem?_eq_some_iff.mp hv'
    exact ⟨hj', hp hr⟩
  obtain ⟨hlt', hpi'⟩ := look hlt
  refine findIdx?_eq_some_iff_getElem.mpr ⟨hlt', by rw [hpi', hpi], ?_⟩
  intro j hj
  obtain ⟨hj', hpj⟩ := look (hj.trans hlt)
  rw [hpj]
  exact hbefore j hj

/-- `f` is applied to the committed version, or to one the same transaction wrote before. -/
theorem Within.update (h : Within R db) (hf : ∀ {v w : ν}, v = w ∨ R v w → R v (f w))
    (hu : db.update t i f = some db') : Within R db' := by
  obtain ⟨s, v, hs, hv, rfl⟩ := update_eq_some hu
  intro j s' t' v' hj hp
  rcases Lib.getElem?_set_cases hj with ⟨-, rfl⟩ | ⟨-, hj⟩
  · cases hp
    apply hf
    unfold Slot.current at hv
    split at hv
    · cases hv
      exact .inl rfl
    · next t' w hw =>
      split at hv <;> cases hv
      exact .inr (h i s t' _ hs hw)
  · exact h j s' t' v' hj hp

theorem Within.commit (h : Within R db) : Within R (db.commit t) := by
  rintro i ⟨v, _⟩ t' w hi rfl
  exact h i _ t' w (slots_of_commit hi).1 rfl

theorem Within.rollback (h : Within R db) : Within R (db.rollback t) := by
  rintro i ⟨v, _⟩ t' w hi rfl
  exact h i _ t' w (slots_of_rollback hi).1 rfl

/-- **Commits move rows along `Q`** when everything that waits lies along it. -/
theorem Within.along_commit {Q : ν → ν → Prop} (h : Within R db) (refl : ∀ v, Q v v)
    (sub : ∀ {v w}, R v w → Q v w) : Along Q db.rows (db.commit t).rows := by
  intro i v hv
  obtain ⟨s, hs, rfl⟩ := slot_of_row hv
  refine ⟨(s.settle t).committed, rows_of_slot (slots_commit hs), ?_⟩
  unfold Slot.settle
  split
  · exact refl _
  · next t' w hw =>
    split
    · exact sub (h i s t' w hs hw)
    · exact refl _

/-! ## `SELECT … FOR UPDATE SKIP LOCKED` -/

/-- The rows nobody holds, each with its place. -/
def unlocked (db : Db ν) : List (ℕ × ν) :=
  (List.range db.slots.length).filterMap fun i =>
    db.slots[i]?.bind fun s => if s.pending.isNone then some (i, s.committed) else none

/-- The locks on rows that nobody held. -/
def lock (t : ℕ) (places : List ℕ) (db : Db ν) : Db ν :=
  { db with slots := db.slots.mapIdx fun i s =>
      if i ∈ places then ⟨s.committed, some (t, s.committed)⟩ else s }

theorem unlocked_at {w : ℕ × ν}
    (h : (db.slots[i]?.bind fun s => if s.pending.isNone then some (i, s.committed) else none) =
      some w) : w.1 = i ∧ db.slots[i]? = some ⟨w.2, none⟩ := by
  obtain ⟨⟨v, pending⟩, hslot, h⟩ := bind_eq_some_iff.mp h
  cases pending with
  | none =>
    cases h
    exact ⟨rfl, hslot⟩
  | some => cases h

theorem mem_unlocked : (i, v) ∈ db.unlocked ↔ db.slots[i]? = some ⟨v, none⟩ := by
  rw [unlocked, mem_filterMap]
  constructor
  · rintro ⟨j, -, hj⟩
    obtain ⟨rfl, hslot⟩ := unlocked_at hj
    exact hslot
  · intro h
    refine ⟨i, mem_range.mpr (lt_of_getElem? h), ?_⟩
    rw [h]
    rfl

theorem slots_lock (i : ℕ) :
    (db.lock t places).slots[i]? = db.slots[i]?.map fun s =>
      if i ∈ places then ⟨s.committed, some (t, s.committed)⟩ else s := by
  rw [lock, getElem?_mapIdx]

theorem rows_lock : (db.lock t places).rows = db.rows := by
  apply ext_getElem?
  intro i
  rw [rows_getElem?, rows_getElem?, slots_lock]
  cases db.slots[i]? with
  | none => rfl
  | some =>
    simp only [map_some, some.injEq]
    split <;> rfl

theorem KeepsLocks.lock (h : ∀ i ∈ places, ∃ v, db.slots[i]? = some ⟨v, none⟩) :
    KeepsLocks t db (db.lock t places) := by
  intro i v t' w _ hi
  have hfree : i ∉ places := by
    intro hmem
    obtain ⟨u, hu⟩ := h i hmem
    cases hi.symm.trans hu
  rw [slots_lock, hi, map_some, if_neg hfree]

/-- No other transaction holds a lock or has inserted a row. -/
structure Sole (t : ℕ) (db : Db ν) : Prop where
  pending : ∀ s ∈ db.slots, ∀ w, s.pending = some w → w.1 = t
  inserts : ∀ w ∈ db.inserts, w.1 = t

/-- The table as the one transaction would leave it. -/
def latest (db : Db ν) : List ν := db.slots.map Slot.latest ++ db.inserts.map (·.2)

/-- A table nobody is writing to. -/
def quiet (rows : List ν) : Db ν := { slots := rows.map fun v => ⟨v, none⟩ }

theorem Sole.quiet (t : ℕ) (rows : List ν) : Sole t (quiet rows) where
  pending := by simp [Db.quiet]
  inserts := by simp [Db.quiet]

theorem rows_quiet (rows : List ν) : (quiet rows).rows = rows := by
  simp [Db.rows, quiet, Function.comp_def]

theorem latest_quiet (rows : List ν) : (quiet rows).latest = rows := by
  simp [latest, quiet, Slot.latest, Function.comp_def]

theorem Sole.update (h : Sole t db) (hi : i < db.slots.length) (f : ν → ν) :
    ∃ db', db.update t i f = some db' ∧ Sole t db' ∧ db'.inserts = db.inserts ∧
      db'.slots.length = db.slots.length ∧ db'.latest = db.latest.modify i f := by
  have hslot := getElem?_eq_getElem hi
  have hcurrent : db.slots[i].current t = some db.slots[i].latest := by
    unfold Slot.current Slot.latest
    cases hp : db.slots[i].pending with
    | none => rfl
    | some w => simp [h.pending _ (getElem_mem hi) w hp]
  refine ⟨{ db with slots := db.slots.set i ⟨db.slots[i].committed,
    some (t, f db.slots[i].latest)⟩ }, ?_, ⟨?_, h.inserts⟩, rfl, length_set, ?_⟩
  · rw [Db.update, hslot, bind_some, hcurrent, map_some]
  · intro s hs w hw
    rcases mem_or_eq_of_mem_set hs with hs | rfl
    · exact h.pending s hs w hw
    · cases hw
      rfl
  have hslots : (db.slots.set i ⟨db.slots[i].committed,
      some (t, f db.slots[i].latest)⟩).map Slot.latest =
        (db.slots.map Slot.latest).modify i f := by
    rw [map_set]
    apply ext_getElem?
    intro j
    rw [getElem?_modify, getElem?_set]
    by_cases hij : i = j
    · subst hij
      simp [hi, Slot.latest]
    · simp [hij]
  rw [latest, latest, hslots, Lib.modify_append_left _ _ (by simpa using hi)]

theorem Sole.insert (h : Sole t db) (v : ν)
    (hclash : (db.rows.any clash || db.inserts.any fun w => clash w.2) = false) :
    ∃ db', db.insert t clash v = some db' ∧ Sole t db' ∧ db'.latest = db.latest ++ [v] := by
  refine ⟨{ db with inserts := db.inserts ++ [(t, v)] }, ?_, ⟨h.pending, ?_⟩, ?_⟩
  · rw [Db.insert, hclash]
    rfl
  · exact Lib.forall_mem_snoc h.inserts rfl
  · simp [latest]

theorem Sole.rows_commit (h : Sole t db) : (db.commit t).rows = db.latest := by
  have hslots : ∀ s ∈ db.slots, (s.settle t).committed = s.latest := by
    intro s hs
    unfold Slot.settle Slot.latest
    cases hp : s.pending with
    | none => rfl
    | some w => simp [h.pending s hs w hp]
  have hinserts : db.insertsOf t = db.inserts.map (·.2) := by
    rw [insertsOf, filter_eq_self.mpr fun w hw => by simpa using h.inserts w hw]
  rw [Db.rows_commit, hinserts, latest, map_congr_left hslots]

end Db
end Lib.ReadCommitted
