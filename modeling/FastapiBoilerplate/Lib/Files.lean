import FastapiBoilerplate.Lib.Text

/-!
# A file system, one step at a time

Names lead to files, and a file has its bytes whatever name leads to it: a process that has opened
one goes on reading or writing it after another process has renamed or removed the name. There are
no further links, so a file has one name at most. Opening for writing empties the file that is there
or makes a new one; writing is at an offset, and pads with zeros; renaming replaces what the new name
led to, in one step.
-/

namespace Lib

open Function

structure Files (ν : Type) where
  names : ν → Option ℕ := fun _ => none
  contents : ℕ → Bytes := fun _ => []
  fresh : ℕ := 0
  lt_fresh : ∀ {n : ν} {file : ℕ}, names n = some file → file < fresh := by nofun
  one_name : ∀ {m n : ν} {file : ℕ}, names m = some file → names n = some file → m = n := by nofun

/-- What is in a file once `chunk` was written at `offset`. -/
def splice (old : Bytes) (offset : ℕ) (chunk : Bytes) : Bytes :=
  old.take offset ++ List.replicate (offset - old.length) 0 ++ chunk ++
    old.drop (offset + chunk.length)

theorem splice_end {old : Bytes} {offset : ℕ} (h : old.length = offset) (chunk : Bytes) :
    splice old offset chunk = old ++ chunk := by
  subst h
  rw [splice, List.take_length, Nat.sub_self, List.drop_of_length_le (Nat.le_add_right _ _),
    List.replicate_zero, List.append_nil, List.append_nil]

namespace Files

variable {ν : Type} [DecidableEq ν]

/-- What a reader of this name would find. -/
def lookup (fs : Files ν) (n : ν) : Option Bytes := (fs.names n).map fs.contents

/-- `unlink`, of a name that may be missing. -/
def unlink (fs : Files ν) (n : ν) : Files ν where
  names := update fs.names n none
  contents := fs.contents
  fresh := fs.fresh
  lt_fresh := by
    intro m file h
    rw [update_apply] at h
    split at h
    · cases h
    · exact fs.lt_fresh h
  one_name := by
    intro m m' file h h'
    rw [update_apply] at h h'
    split at h
    · cases h
    split at h'
    · cases h'
    exact fs.one_name h h'

/-- `write` at an offset of a file that is open. -/
def write (fs : Files ν) (file offset : ℕ) (chunk : Bytes) : Files ν where
  names := fs.names
  contents := update fs.contents file (splice (fs.contents file) offset chunk)
  fresh := fs.fresh
  lt_fresh := fs.lt_fresh
  one_name := fs.one_name

/-- `open(n, "wb")`: which file it is, and the file system after it. -/
def create (fs : Files ν) (n : ν) : ℕ × Files ν :=
  match h : fs.names n with
  | some file => (file, { fs with contents := update fs.contents file [] })
  | none =>
    (fs.fresh, {
      names := update fs.names n (some fs.fresh)
      contents := update fs.contents fs.fresh []
      fresh := fs.fresh + 1
      lt_fresh := by
        intro m file hm
        rw [update_apply] at hm
        split at hm
        · cases hm
          exact Nat.lt_succ_self _
        · exact Nat.lt_succ_of_lt (fs.lt_fresh hm)
      one_name := by
        intro m m' file hm hm'
        rw [update_apply] at hm hm'
        split at hm <;> split at hm'
        · exact ‹m = n›.trans ‹m' = n›.symm
        · cases hm
          exact absurd (fs.lt_fresh hm') (Nat.lt_irrefl _)
        · cases hm'
          exact absurd (fs.lt_fresh hm) (Nat.lt_irrefl _)
        · exact fs.one_name hm hm' })

/-- `replace`; none is `FileNotFoundError`. -/
def rename (fs : Files ν) (source target : ν) : Option (Files ν) :=
  match h : fs.names source with
  | none => none
  | some file =>
    some {
      names := update (update fs.names source none) target (some file)
      contents := fs.contents
      fresh := fs.fresh
      lt_fresh := by
        intro m other hm
        rw [update_apply, update_apply] at hm
        split at hm
        · cases hm
          exact fs.lt_fresh h
        · split at hm
          · cases hm
          · exact fs.lt_fresh hm
      one_name := by
        intro m m' other hm hm'
        rw [update_apply, update_apply] at hm hm'
        split at hm <;> split at hm'
        · exact ‹m = target›.trans ‹m' = target›.symm
        · cases hm
          split at hm'
          · cases hm'
          · exact absurd (fs.one_name hm' h) ‹¬m' = source›
        · cases hm'
          split at hm
          · cases hm
          · exact absurd (fs.one_name hm h) ‹¬m = source›
        · split at hm
          · cases hm
          split at hm'
          · cases hm'
          exact fs.one_name hm hm' }

/-! ## What each operation does -/

variable {fs : Files ν} {m n : ν} {file other : ℕ}

theorem names_unlink_self : (fs.unlink n).names n = none := update_self ..

theorem names_unlink_of_ne (h : m ≠ n) : (fs.unlink n).names m = fs.names m :=
  update_of_ne h ..

theorem lookup_unlink_of_ne (h : m ≠ n) : (fs.unlink n).lookup m = fs.lookup m := by
  rw [lookup, names_unlink_of_ne h]
  rfl

omit [DecidableEq ν] in
theorem contents_write_of_ne {offset : ℕ} {chunk : Bytes} (h : other ≠ file) :
    (fs.write file offset chunk).contents other = fs.contents other :=
  update_of_ne h ..

/-- All that opening for writing does: the name leads to an empty file that no other name leads to
    and that nobody who reads another file than the one it led to has. -/
structure Created (fs : Files ν) (n : ν) (made : ℕ × Files ν) : Prop where
  name : made.2.names n = some made.1
  others : ∀ m, m ≠ n → made.2.names m = fs.names m
  empty : made.2.contents made.1 = []
  kept : ∀ other, other ≠ made.1 → made.2.contents other = fs.contents other
  which : fs.names n = some made.1 ∨ made.1 = fs.fresh
  fresh : fs.fresh ≤ made.2.fresh

theorem created (fs : Files ν) (n : ν) : Created fs n (fs.create n) := by
  unfold create
  split
  · rename_i file h
    exact {
      name := h
      others := fun _ _ => rfl
      empty := update_self ..
      kept := fun _ hother => update_of_ne hother ..
      which := .inl h
      fresh := Nat.le_refl _ }
  · exact {
      name := update_self ..
      others := fun _ hm => update_of_ne hm ..
      empty := update_self ..
      kept := fun _ hother => update_of_ne hother ..
      which := .inr rfl
      fresh := Nat.le_succ _ }

omit [DecidableEq ν] in
theorem Created.lookup_of_ne {made : ℕ × Files ν} (h : Created fs n made) (hm : m ≠ n) :
    made.2.lookup m = fs.lookup m := by
  rw [lookup, lookup, h.others m hm]
  cases hfile : fs.names m with
  | none => rfl
  | some file =>
    -- the file of another name is neither the one that was there nor a new one
    have hne : file ≠ made.1 := by
      intro heq
      cases h.which with
      | inl hold => exact hm (fs.one_name hfile (heq ▸ hold))
      | inr hnew => exact absurd (fs.lt_fresh hfile) (by rw [heq, hnew]; exact Nat.lt_irrefl _)
    rw [Option.map_some, Option.map_some, h.kept file hne]

theorem rename_eq_none {source target : ν} (h : fs.names source = none) :
    fs.rename source target = none := by
  unfold rename
  split
  · rfl
  rename_i file hfile
  rw [h] at hfile
  cases hfile

/-- All that renaming does. -/
structure Renamed (fs : Files ν) (source target : ν) (file : ℕ) (fs' : Files ν) : Prop where
  name : fs'.names target = some file
  gone : source ≠ target → fs'.names source = none
  contents : fs'.contents = fs.contents
  fresh : fs'.fresh = fs.fresh

theorem renamed {source : ν} (target : ν) (h : fs.names source = some file) :
    ∃ fs', fs.rename source target = some fs' ∧ Renamed fs source target file fs' := by
  unfold rename
  split
  · rename_i hnone
    rw [h] at hnone
    cases hnone
  rename_i other hother
  rw [h] at hother
  cases hother
  exact ⟨_, rfl, {
    name := update_self ..
    gone := fun hne => by
      show update (update fs.names source none) target (some file) source = none
      rw [update_of_ne hne, update_self]
    contents := rfl
    fresh := rfl }⟩

end Files

end Lib
