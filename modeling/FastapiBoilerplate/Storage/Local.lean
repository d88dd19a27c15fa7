import FastapiBoilerplate.Lib.Files
import FastapiBoilerplate.Lib.Run

/-!
# Objects as files

`storage/local.py`, for one key: any number of `put`, `get` and `delete` calls, whose file-system
steps run in threads of their own and interleave. A `put` writes a sibling file, renames it over the
object and then unlinks the sibling, which by then is gone if all went well. The sibling's name is
made from the key, so all puts of a key use the same one.

A step may raise `OSError`, except for the unlink of a `finally`. A write adds any number of bytes,
and a read takes any number; `get` has read all when there is nothing left.

`changes` is not in the code: what the calls did to the object, the latest first.
-/

namespace Storage

open Lib

/-- The path of the object, and the one of its sibling. -/
inductive Name
  | object
  | temp
  deriving DecidableEq

inductive Op
  | put (data : Bytes)
  | get
  | delete
  deriving DecidableEq

/-- "Failed to write object", "Failed to read object", "Failed to delete object". -/
inductive Verb
  | write
  | read
  | delete
  deriving DecidableEq

inductive Result
  | stored
  | found (data : Bytes)
  | deleted
  | objectNotFound
  | storageError (verb : Verb)
  deriving DecidableEq

/-- What a call does next; the last two are the reads and the unlink of `get` and `delete`. A file
    that is open is held by the file, not by its name. -/
inductive Phase
  | mkdir (data : Bytes)
  | create (data : Bytes)
  | write (data : Bytes) (file offset : ℕ)
  | rename (data : Bytes)
  | cleanup (failed : Bool)
  | find
  | read (file : ℕ) (got : Bytes)
  | remove
  | ended (result : Result)
  deriving DecidableEq

structure Call where
  op : Op
  phase : Phase

def Op.start : Op → Phase
  | .put data => .mkdir data
  | .get => .find
  | .delete => .remove

/-- Calls are named by position. -/
structure Sys where
  files : Files Name := {}
  calls : List Call := []
  changes : List (ℕ × Option Bytes) := []

inductive Action
  | call (op : Op)
  | advance (i count : ℕ)
  | fail (i : ℕ)

namespace Sys

def setPhase (s : Sys) (i : ℕ) (call : Call) (phase : Phase) : Sys :=
  { s with calls := s.calls.set i { call with phase } }

/-- The next step of a call, which moves `count` bytes if it writes or reads. -/
def advance (s : Sys) (i : ℕ) (call : Call) (count : ℕ) : Option Sys :=
  match call.phase with
  | .mkdir data => some (s.setPhase i call (.create data))
  | .create data =>
    let (file, files) := s.files.create .temp
    some ({ s with files }.setPhase i call (.write data file 0))
  | .write data file offset =>
    if offset < data.length then
      let chunk := (data.drop offset).take count
      some ({ s with files := s.files.write file offset chunk }.setPhase i call
        (.write data file (offset + chunk.length)))
    else some (s.setPhase i call (.rename data))
  | .rename data =>
    match s.files.rename .temp .object with
    | none => some (s.setPhase i call (.cleanup true))
    | some files =>
      some ({ s with files, changes := (i, some data) :: s.changes }.setPhase i call
        (.cleanup false))
  | .cleanup failed =>
    some ({ s with files := s.files.unlink .temp }.setPhase i call
      (.ended (if failed then .storageError .write else .stored)))
  | .find =>
    match s.files.names .object with
    | none => some (s.setPhase i call (.ended .objectNotFound))
    | some file => some (s.setPhase i call (.read file []))
  | .read file got =>
    let rest := (s.files.contents file).drop got.length
    if rest = [] then some (s.setPhase i call (.ended (.found got)))
    else some (s.setPhase i call (.read file (got ++ rest.take count)))
  | .remove =>
    match s.files.names .object with
    | none => some (s.setPhase i call (.ended .objectNotFound))
    | some _ =>
      some ({ s with files := s.files.unlink .object, changes := (i, none) :: s.changes }.setPhase
        i call (.ended .deleted))
  | .ended _ => none

/-- The next step of a call raises `OSError`. The directory is made outside of the `try`. -/
def fail (s : Sys) (i : ℕ) (call : Call) : Option Sys :=
  match call.phase with
  | .mkdir _ => some (s.setPhase i call (.ended (.storageError .write)))
  | .create _ | .write .. | .rename _ => some (s.setPhase i call (.cleanup true))
  | .find | .read .. => some (s.setPhase i call (.ended (.storageError .read)))
  | .remove => some (s.setPhase i call (.ended (.storageError .delete)))
  | .cleanup _ | .ended _ => none

def step (s : Sys) : Action → Option Sys
  | .call op => some { s with calls := s.calls ++ [⟨op, op.start⟩] }
  | .advance i count => s.calls[i]?.bind fun call => s.advance i call count
  | .fail i => s.calls[i]?.bind fun call => s.fail i call

/-- What a reader of the object would find. -/
def object (s : Sys) : Option Bytes := s.files.lookup .object

end Sys

/-! ## What a step is -/

/-- The steps that do nothing to the files. -/
inductive Quiet (files : Files Name) : Phase → Phase → Prop
  | mkdir (data : Bytes) : Quiet files (.mkdir data) (.create data)
  | written {data : Bytes} {file offset : ℕ} (h : data.length ≤ offset) :
      Quiet files (.write data file offset) (.rename data)
  | lost {data : Bytes} (h : files.names .temp = none) :
      Quiet files (.rename data) (.cleanup true)
  | find {file : ℕ} (h : files.names .object = some file) : Quiet files .find (.read file [])
  | read {file : ℕ} {got : Bytes} (count : ℕ) : Quiet files (.read file got)
      (.read file (got ++ ((files.contents file).drop got.length).take count))
  | found {file : ℕ} {got : Bytes} (h : (files.contents file).drop got.length = []) :
      Quiet files (.read file got) (.ended (.found got))
  | notFound {phase : Phase} (h : phase = .find ∨ phase = .remove) :
      Quiet files phase (.ended .objectNotFound)
  | failMkdir (data : Bytes) : Quiet files (.mkdir data) (.ended (.storageError .write))
  | failCreate (data : Bytes) : Quiet files (.create data) (.cleanup true)
  | failWrite (data : Bytes) (file offset : ℕ) : Quiet files (.write data file offset)
      (.cleanup true)
  | failRename (data : Bytes) : Quiet files (.rename data) (.cleanup true)
  | failRead {phase : Phase} (h : phase = .find ∨ ∃ file got, phase = .read file got) :
      Quiet files phase (.ended (.storageError .read))
  | failRemove : Quiet files .remove (.ended (.storageError .delete))

/-- All that a step of a call does: to the files, to the call, and to the object. -/
inductive Move (i : ℕ) (files : Files Name) (changes : List (ℕ × Option Bytes)) :
    Phase → Files Name → List (ℕ × Option Bytes) → Phase → Prop
  | quiet {phase phase' : Phase} (h : Quiet files phase phase') :
      Move i files changes phase files changes phase'
  | create {data : Bytes} {made : ℕ × Files Name} (h : files.Created .temp made) :
      Move i files changes (.create data) made.2 changes (.write data made.1 0)
  | write {data : Bytes} {file offset : ℕ} (count : ℕ) :
      Move i files changes (.write data file offset)
        (files.write file offset ((data.drop offset).take count)) changes
        (.write data file (offset + ((data.drop offset).take count).length))
  | rename {data : Bytes} {file : ℕ} {files' : Files Name} (hname : files.names .temp = some file)
      (h : files.Renamed .temp .object file files') :
      Move i files changes (.rename data) files' ((i, some data) :: changes) (.cleanup false)
  | cleanup (failed : Bool) :
      Move i files changes (.cleanup failed) (files.unlink .temp) changes
        (.ended (if failed then .storageError .write else .stored))
  | remove {file : ℕ} (h : files.names .object = some file) :
      Move i files changes .remove (files.unlink .object) ((i, none) :: changes) (.ended .deleted)

namespace Sys

/-- A step of a call that is under way. -/
structure Moves (s : Sys) (i : ℕ) (call : Call) (s' : Sys) : Prop where
  at_i : s.calls[i]? = some call
  move : ∃ phase, Move i s.files s.changes call.phase s'.files s'.changes phase ∧
    s'.calls = s.calls.set i { call with phase }

variable {s s' : Sys} {i count : ℕ} {call : Call}

theorem moves_of_advance (hat : s.calls[i]? = some call) (h : s.advance i call count = some s') :
    s.Moves i call s' := by
  obtain ⟨op, phase⟩ := call
  cases phase with simp only [advance] at h
  | mkdir data =>
    cases h
    exact ⟨hat, _, .quiet (.mkdir data), rfl⟩
  | create =>
    cases h
    exact ⟨hat, _, .create (Files.created _ _), rfl⟩
  | write =>
    split at h <;> cases h
    · exact ⟨hat, _, .write count, rfl⟩
    · exact ⟨hat, _, .quiet (.written (Nat.le_of_not_lt ‹_›)), rfl⟩
  | rename =>
    cases htemp : s.files.names .temp with
    | none =>
      rw [Files.rename_eq_none htemp] at h
      cases h
      exact ⟨hat, _, .quiet (.lost htemp), rfl⟩
    | some =>
      obtain ⟨files, hfiles, hrenamed⟩ := Files.renamed .object htemp
      rw [hfiles] at h
      cases h
      exact ⟨hat, _, .rename htemp hrenamed, rfl⟩
  | cleanup failed =>
    cases h
    exact ⟨hat, _, .cleanup failed, rfl⟩
  | find =>
    split at h <;> cases h
    · exact ⟨hat, _, .quiet (.notFound (.inl rfl)), rfl⟩
    · exact ⟨hat, _, .quiet (.find ‹_›), rfl⟩
  | read =>
    split at h <;> cases h
    · exact ⟨hat, _, .quiet (.found ‹_›), rfl⟩
    · exact ⟨hat, _, .quiet (.read count), rfl⟩
  | remove =>
    split at h <;> cases h
    · exact ⟨hat, _, .quiet (.notFound (.inr rfl)), rfl⟩
    · exact ⟨hat, _, .remove ‹_›, rfl⟩
  | ended => cases h

theorem moves_of_fail (hat : s.calls[i]? = some call) (h : s.fail i call = some s') :
    s.Moves i call s' := by
  obtain ⟨op, phase⟩ := call
  cases phase <;> cases h
  case mkdir data => exact ⟨hat, _, .quiet (.failMkdir data), rfl⟩
  case create data => exact ⟨hat, _, .quiet (.failCreate data), rfl⟩
  case write data file offset => exact ⟨hat, _, .quiet (.failWrite data file offset), rfl⟩
  case rename data => exact ⟨hat, _, .quiet (.failRename data), rfl⟩
  case find => exact ⟨hat, _, .quiet (.failRead (.inl rfl)), rfl⟩
  case read file got => exact ⟨hat, _, .quiet (.failRead (.inr ⟨file, got, rfl⟩)), rfl⟩
  case remove => exact ⟨hat, _, .quiet .failRemove, rfl⟩

theorem step_cases {a : Action} (h : s.step a = some s') :
    (∃ op, a = .call op ∧ s' = { s with calls := s.calls ++ [⟨op, op.start⟩] }) ∨
      ∃ i call, s.Moves i call s' := by
  cases a with
  | call op =>
    cases h
    exact .inl ⟨op, rfl, rfl⟩
  | advance i =>
    obtain ⟨call, hat, hstep⟩ := Option.bind_eq_some_iff.mp h
    exact .inr ⟨i, call, moves_of_advance hat hstep⟩
  | fail i =>
    obtain ⟨call, hat, hstep⟩ := Option.bind_eq_some_iff.mp h
    exact .inr ⟨i, call, moves_of_fail hat hstep⟩

end Sys

end Storage
