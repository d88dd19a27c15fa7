import FastapiBoilerplate.Lib.Lists
import FastapiBoilerplate.Storage.Local

/-!
# A put is seen whole or not at all

As long as the puts of a key come one after the other, whatever gets and deletes run beside them:
the object is what the latest put or delete left (`Atomic.visible`), a put that returned is one of
those and a put that raised is none (`returned`, `raised`), and a get returns the bytes of one put
(`found`).

The file of the sibling's name is the put's own. Nobody reads it, since it was never the object and a
reader opens the object; and once it is the object nobody writes it, since its put is over. Two puts
that overlap share that file, and then each of these can fail: the second empties what the first is
about to rename, and goes on writing the object after it.
-/

namespace Storage

open Lib List Option

/-- What the latest change made of the object. -/
def latest : List (ℕ × Option Bytes) → Option Bytes
  | [] => none
  | change :: _ => change.2

/-- What the calls are promised, of a state. -/
structure Sys.Atomic (s : Sys) : Prop where
  found : ∀ (i : ℕ) (call : Call) (data : Bytes), s.calls[i]? = some call → call.phase = .ended (.found data) →
    ∃ (j : ℕ) (put : Call), s.calls[j]? = some put ∧ put.op = .put data ∧ (j, some data) ∈ s.changes
  raised : ∀ (i : ℕ) (call : Call) (data : Bytes) (verb : Verb), s.calls[i]? = some call →
    call.op = .put data → call.phase = .ended (.storageError verb) → ∀ change ∈ s.changes, change.1 ≠ i
  returned : ∀ (i : ℕ) (call : Call) (data : Bytes), s.calls[i]? = some call → call.op = .put data →
    call.phase = .ended .stored → (i, some data) ∈ s.changes
  visible : s.object = latest s.changes

/-- Between the call of a put and its end. -/
def Phase.putting : Phase → Bool
  | .mkdir _ | .create _ | .write .. | .rename _ | .cleanup _ => true
  | .find | .read .. | .remove | .ended _ => false

/-- A put starts when no other is under way. -/
def Serial (s : Sys) : Action → Prop
  | .call (.put _) => ∀ call ∈ s.calls, call.phase.putting = false
  | _ => True

instance (s : Sys) (a : Action) : Decidable (Serial s a) := by
  unfold Serial
  split <;> infer_instance

/-! ## What a call can rely on -/

/-- Some put made these bytes the object. -/
def Made (changes : List (ℕ × Option Bytes)) (data : Bytes) : Prop := ∃ j, (j, some data) ∈ changes

/-- The call has not changed the object. -/
def Untouched (changes : List (ℕ × Option Bytes)) (i : ℕ) : Prop := ∀ change ∈ changes, change.1 ≠ i

/-- A put owns what the sibling's name leads to; a reader reads a file that is not that one and that
    a put had made the object. -/
def Stands (files : Files Name) (changes : List (ℕ × Option Bytes)) (i : ℕ) (op : Op) :
    Phase → Prop
  | .mkdir data | .create data => op = .put data ∧ Untouched changes i
  | .write data file offset => (op = .put data ∧ Untouched changes i) ∧ offset ≤ data.length ∧
      files.names .temp = some file ∧ files.contents file = data.take offset
  | .rename data => (op = .put data ∧ Untouched changes i) ∧
      ∃ file, files.names .temp = some file ∧ files.contents file = data
  | .cleanup failed => ∃ data, op = .put data ∧
      if failed then Untouched changes i else (i, some data) ∈ changes
  | .read file got => op = .get ∧ files.names .temp ≠ some file ∧ file < files.fresh ∧
      got <+: files.contents file ∧ Made changes (files.contents file)
  | .find => op = .get
  | .remove => op = .delete
  | .ended .stored => ∃ data, op = .put data ∧ (i, some data) ∈ changes
  | .ended (.found data) => op = .get ∧ Made changes data
  | .ended (.storageError .write) => Untouched changes i
  | .ended (.storageError .read) => op = .get
  | .ended (.storageError .delete) => op = .delete
  | .ended .deleted => op = .delete
  | .ended .objectNotFound => True

/-- What a step leaves of the files that somebody may be reading. -/
structure Keeps (files files' : Files Name) : Prop where
  fresh : files.fresh ≤ files'.fresh
  aside : ∀ file < files.fresh, files.names .temp ≠ some file →
    files'.names .temp ≠ some file ∧ files'.contents file = files.contents file

theorem Keeps.refl (files : Files Name) : Keeps files files :=
  ⟨Nat.le_refl _, fun _ _ h => ⟨h, rfl⟩⟩

variable {files files' : Files Name} {changes changes' : List (ℕ × Option Bytes)} {i j : ℕ} {op : Op}
  {phase phase' : Phase}

theorem Made.mono {data : Bytes} (h : Made changes data) (hsub : changes ⊆ changes') :
    Made changes' data := by
  obtain ⟨j, hj⟩ := h
  exact ⟨j, hsub hj⟩

/-- What a call relies on, the steps of others leave alone. -/
theorem Stands.frame (h : Stands files changes j op phase) (hkeeps : Keeps files files')
    (hput : phase.putting = true →
      files'.names .temp = files.names .temp ∧ files'.contents = files.contents)
    (hsub : changes ⊆ changes') (hmine : Untouched changes j → Untouched changes' j) :
    Stands files' changes' j op phase := by
  cases phase with
  | mkdir | create => exact ⟨h.1, hmine h.2⟩
  | write =>
    obtain ⟨hname, hcontents⟩ := hput rfl
    refine ⟨⟨h.1.1, hmine h.1.2⟩, h.2.1, ?_⟩
    rw [hname, hcontents]
    exact h.2.2
  | rename =>
    obtain ⟨hname, hcontents⟩ := hput rfl
    refine ⟨⟨h.1.1, hmine h.1.2⟩, ?_⟩
    rw [hname, hcontents]
    exact h.2
  | cleanup failed =>
    obtain ⟨data, hop, hfailed⟩ := h
    refine ⟨data, hop, ?_⟩
    cases failed with
    | true => exact hmine hfailed
    | false => exact hsub hfailed
  | find | remove => exact h
  | read file =>
    obtain ⟨hop, htemp, hfile, hgot, hmade⟩ := h
    obtain ⟨htemp', hcontents⟩ := hkeeps.aside file hfile htemp
    refine ⟨hop, htemp', Nat.lt_of_lt_of_le hfile hkeeps.fresh, ?_⟩
    rw [hcontents]
    exact ⟨hgot, hmade.mono hsub⟩
  | ended result =>
    cases result with
    | stored =>
      obtain ⟨data, hop, hchange⟩ := h
      exact ⟨data, hop, hsub hchange⟩
    | found => exact ⟨h.1, h.2.mono hsub⟩
    | deleted | objectNotFound => exact h
    | storageError verb =>
      cases verb with
      | write => exact hmine h
      | read | delete => exact h

/-! ## What a step of a call keeps -/

/-- The object is what the latest change made of it. -/
def Visible (files : Files Name) (changes : List (ℕ × Option Bytes)) : Prop :=
  files.lookup .object = latest changes

theorem Visible.made (h : Visible files changes) {file : ℕ}
    (hfile : files.names .object = some file) : Made changes (files.contents file) := by
  unfold Visible Files.lookup at h
  rw [hfile, map_some] at h
  cases changes with
  | nil => cases h
  | cons change =>
    obtain ⟨j, data⟩ := change
    have hdata : some (files.contents file) = data := h
    rw [← hdata]
    exact ⟨j, mem_cons_self⟩

theorem take_add_take_drop (data : Bytes) (offset count : ℕ) :
    data.take offset ++ (data.drop offset).take count =
      data.take (offset + ((data.drop offset).take count).length) := by
  rw [take_add, length_take]
  congr 1
  rw [take_eq_take_iff, Nat.min_assoc, Nat.min_self]

theorem Quiet.stands (hstands : Stands files changes i op phase) (hvisible : Visible files changes)
    (h : Quiet files phase phase') : Stands files changes i op phase' := by
  cases h with
  | mkdir | failRemove => exact hstands
  | written hle =>
    obtain ⟨hput, hoffset, htemp, hcontents⟩ := hstands
    refine ⟨hput, _, htemp, ?_⟩
    rw [hcontents, take_of_length_le hle]
  | lost hnone =>
    obtain ⟨-, file, htemp, -⟩ := hstands
    rw [hnone] at htemp
    cases htemp
  | find hfile =>
    refine ⟨hstands, ?_, files.lt_fresh hfile, nil_prefix, hvisible.made hfile⟩
    intro htemp
    cases files.one_name hfile htemp
  | read =>
    obtain ⟨hop, htemp, hfresh, ⟨rest, hrest⟩, hmade⟩ := hstands
    refine ⟨hop, htemp, hfresh, ?_, hmade⟩
    rw [← hrest, drop_left, prefix_append_right_inj]
    exact take_prefix _ _
  | found hnil =>
    obtain ⟨hop, -, -, ⟨rest, hrest⟩, hmade⟩ := hstands
    rw [← hrest, drop_left] at hnil
    rw [← hrest, hnil, append_nil] at hmade
    exact ⟨hop, hmade⟩
  | notFound => trivial
  | failMkdir => exact hstands.2
  | failCreate data => exact ⟨data, hstands.1, hstands.2⟩
  | failWrite data | failRename data => exact ⟨data, hstands.1.1, hstands.1.2⟩
  | failRead hphase =>
    rcases hphase with rfl | ⟨file, got, rfl⟩
    · exact hstands
    · exact hstands.1

/-- All that a step of a call keeps, and what it may change for the others. -/
structure Kept (i : ℕ) (op : Op) (files : Files Name) (changes : List (ℕ × Option Bytes))
    (phase : Phase) (files' : Files Name) (changes' : List (ℕ × Option Bytes)) (phase' : Phase) :
    Prop where
  stands : Stands files' changes' i op phase'
  visible : Visible files' changes'
  keeps : Keeps files files'
  others : phase.putting = false →
    files'.names .temp = files.names .temp ∧ files'.contents = files.contents
  putting : phase'.putting = true → phase.putting = true
  changes : changes' = changes ∨ ∃ data, changes' = (i, data) :: changes ∧
    ∀ bytes, data = some bytes → op = .put bytes

theorem Quiet.putting (h : Quiet files phase phase') (hphase : phase'.putting = true) :
    phase.putting = true := by
  cases h with
  | mkdir | written | lost | failMkdir | failCreate | failWrite | failRename => rfl
  | find | read | found | failRemove => exact hphase
  | notFound | failRead => cases hphase

theorem Move.kept (hstands : Stands files changes i op phase) (hvisible : Visible files changes)
    (h : Move i files changes phase files' changes' phase') :
    Kept i op files changes phase files' changes' phase' := by
  cases h with
  | quiet hquiet => exact {
      stands := hquiet.stands hstands hvisible
      visible := hvisible
      keeps := .refl _
      others := fun _ => ⟨rfl, rfl⟩
      putting := hquiet.putting
      changes := .inl rfl }
  | @create data made hcreated => exact {
      stands := ⟨hstands, Nat.zero_le _, hcreated.name, hcreated.empty⟩
      visible := (hcreated.lookup_of_ne Name.noConfusion).trans hvisible
      keeps := {
        fresh := hcreated.fresh
        aside := by
          intro file hfile htemp
          -- the file that `open` gave is the one under the name, or a new one
          have hne : file ≠ made.1 := by
            rintro rfl
            cases hcreated.which with
            | inl hold => exact htemp hold
            | inr hnew => exact absurd (hnew ▸ hfile) (Nat.lt_irrefl _)
          refine ⟨?_, hcreated.kept file hne⟩
          rw [hcreated.name]
          exact fun heq => hne (some.inj heq).symm }
      others := by intros; contradiction
      putting := fun _ => rfl
      changes := .inl rfl }
  | @write data file offset count =>
    obtain ⟨hput, hoffset, htemp, hcontents⟩ := hstands
    have hlength : (files.contents file).length = offset := by
      rw [hcontents, length_take, Nat.min_eq_left hoffset]
    exact {
      stands := by
        refine ⟨hput, ?_, htemp, ?_⟩
        · rw [length_take, length_drop]
          omega
        · show Function.update files.contents file _ file = _
          rw [Function.update_self, splice_end hlength, hcontents, take_add_take_drop]
      visible := by
        refine Eq.trans ?_ hvisible
        unfold Files.lookup
        cases hobject : files.names .object with
        | none =>
          show Option.map _ (files.names .object) = _
          rw [hobject]
          rfl
        | some other =>
          -- a file has one name, so the one that is written is not the object
          have hne : other ≠ file := by
            rintro rfl
            cases files.one_name hobject htemp
          show Option.map _ (files.names .object) = _
          rw [hobject, map_some, map_some, Files.contents_write_of_ne hne]
      keeps := ⟨Nat.le_refl _, fun other _ hother =>
        ⟨hother, Files.contents_write_of_ne fun heq => hother (heq ▸ htemp)⟩⟩
      others := by intros; contradiction
      putting := fun _ => rfl
      changes := .inl rfl }
  | @rename data file _ hname hrenamed =>
    obtain ⟨⟨hop, -⟩, file', htemp, hcontents⟩ := hstands
    rw [hname] at htemp
    cases htemp
    -- the put makes the change here: the name moves over the object's
    have hgone : files'.names .temp = none := hrenamed.gone Name.noConfusion
    exact {
      stands := ⟨data, hop, mem_cons_self⟩
      visible := by
        unfold Visible Files.lookup
        rw [hrenamed.name, hrenamed.contents, map_some, hcontents]
        rfl
      keeps := {
        fresh := Nat.le_of_eq hrenamed.fresh.symm
        aside := fun other _ _ => ⟨by rw [hgone]; rintro ⟨⟩, by rw [hrenamed.contents]⟩ }
      others := by intros; contradiction
      putting := fun _ => rfl
      changes := .inr ⟨some data, rfl, fun bytes hbytes => by cases hbytes; exact hop⟩ }
  | cleanup failed =>
    obtain ⟨data, hop, hfailed⟩ := hstands
    exact {
      stands := by
        cases failed with
        | true => exact hfailed
        | false => exact ⟨data, hop, hfailed⟩
      visible := (Files.lookup_unlink_of_ne Name.noConfusion).trans hvisible
      keeps := ⟨Nat.le_refl _, fun _ _ _ => ⟨by rw [Files.names_unlink_self]; rintro ⟨⟩, rfl⟩⟩
      others := by intros; contradiction
      putting := by intros; contradiction
      changes := .inl rfl }
  | remove =>
    have hname : (files.unlink .object).names .temp = files.names .temp :=
      Files.names_unlink_of_ne Name.noConfusion
    exact {
      stands := hstands
      visible := by
        unfold Visible Files.lookup
        rw [Files.names_unlink_self]
        rfl
      keeps := ⟨Nat.le_refl _, fun _ _ htemp => ⟨by rw [hname]; exact htemp, rfl⟩⟩
      others := fun _ => ⟨hname, rfl⟩
      putting := by intros; contradiction
      changes := .inr ⟨none, rfl, (by intros; contradiction)⟩ }

/-! ## Runs -/

structure Inv (s : Sys) : Prop where
  stands : ∀ (i : ℕ) (call : Call), s.calls[i]? = some call →
    Stands s.files s.changes i call.op call.phase
  visible : Visible s.files s.changes
  alone : ∀ (i j : ℕ) (call call' : Call), s.calls[i]? = some call →
    s.calls[j]? = some call' → call.phase.putting = true → call'.phase.putting = true → i = j
  known : ∀ change ∈ s.changes, ∃ call : Call, s.calls[change.1]? = some call ∧
    ∀ data, change.2 = some data → call.op = .put data

theorem inv_start : Inv {} where
  stands := nofun
  visible := rfl
  alone := nofun
  known := nofun

theorem stands_start {s : Sys} (h : Inv s) (op : Op) :
    Stands s.files s.changes s.calls.length op op.start := by
  have huntouched : Untouched s.changes s.calls.length := by
    intro change hchange
    obtain ⟨call, hcall, -⟩ := h.known change hchange
    exact Nat.ne_of_lt (lt_of_getElem? hcall)
  cases op with
  | put => exact ⟨rfl, huntouched⟩
  | get | delete => rfl

theorem inv_call {s : Sys} (h : Inv s) {op : Op} (hserial : Serial s (.call op)) :
    Inv { s with calls := s.calls ++ [⟨op, op.start⟩] } := by
  have hquiet : op.start.putting = true → ∀ (i : ℕ) (call : Call), s.calls[i]? = some call →
      call.phase.putting = false := by
    intro hput i call hcall
    cases op with
    | put => exact hserial call (mem_of_getElem? hcall)
    | get | delete => cases hput
  exact {
    stands := by
      intro i call hcall
      rcases getElem?_append_cases hcall with ⟨rfl, rfl⟩ | ⟨-, hold⟩
      · exact stands_start h op
      · exact h.stands i call hold
    visible := h.visible
    alone := by
      intro i j call call' hcall hcall' hput hput'
      rcases getElem?_append_cases hcall with ⟨rfl, rfl⟩ | ⟨-, hold⟩ <;>
        rcases getElem?_append_cases hcall' with ⟨rfl, rfl⟩ | ⟨-, hold'⟩
      · rfl
      · rw [hquiet hput j call' hold'] at hput'
        cases hput'
      · rw [hquiet hput' i call hold] at hput
        cases hput
      · exact h.alone i j call call' hold hold' hput hput'
    known := by
      intro change hchange
      obtain ⟨call, hcall, hop⟩ := h.known change hchange
      exact ⟨call, getElem?_append_of hcall, hop⟩ }

theorem inv_moves {s s' : Sys} {i : ℕ} {call : Call} (h : Inv s) (hmoves : s.Moves i call s') :
    Inv s' := by
  obtain ⟨hat, phase, hmove, hcalls⟩ := hmoves
  have hkept := hmove.kept (h.stands i call hat) h.visible
  have hlt := lt_of_getElem? hat
  have hcases : ∀ (j : ℕ) (call' : Call), s'.calls[j]? = some call' →
      j = i ∧ call' = { call with phase } ∨ j ≠ i ∧ s.calls[j]? = some call' :=
    fun j call' hcall' => getElem?_set_cases (hcalls ▸ hcall')
  exact {
    stands := by
      intro j call' hcall'
      rcases hcases j call' hcall' with ⟨rfl, rfl⟩ | ⟨hne, hold⟩
      · exact hkept.stands
      refine (h.stands j call' hold).frame hkept.keeps ?_ ?_ ?_
      · -- if the other one is a put, the one that moved is none
        intro hput
        apply hkept.others
        cases hmine : call.phase.putting with
        | false => rfl
        | true => exact absurd (h.alone j i call' call hold hat hput hmine) hne
      · rcases hkept.changes with heq | ⟨data, heq, -⟩ <;> rw [heq]
        · exact List.Subset.refl _
        · exact subset_cons_self _ _
      · intro huntouched
        rcases hkept.changes with heq | ⟨data, heq, -⟩ <;> rw [heq]
        · exact huntouched
        · exact forall_mem_cons.mpr ⟨hne.symm, huntouched⟩
    visible := hkept.visible
    alone := by
      intro j k call₁ call₂ hcall₁ hcall₂ hput₁ hput₂
      rcases hcases j call₁ hcall₁ with ⟨rfl, rfl⟩ | ⟨hne₁, hold₁⟩ <;>
        rcases hcases k call₂ hcall₂ with ⟨rfl, rfl⟩ | ⟨hne₂, hold₂⟩
      · rfl
      · exact h.alone j k call call₂ hat hold₂ (hkept.putting hput₁) hput₂
      · exact h.alone j k call₁ call hold₁ hat hput₁ (hkept.putting hput₂)
      · exact h.alone j k call₁ call₂ hold₁ hold₂ hput₁ hput₂
    -- the change is entered under the call that made it, with the data of its put
    known := by
      have hmem : ∀ (j : ℕ) (call' : Call), s.calls[j]? = some call' →
          ∃ call'' : Call, s'.calls[j]? = some call'' ∧ call''.op = call'.op := by
        intro j call' hcall'
        by_cases hj : j = i
        · subst hj
          rw [hat] at hcall'
          cases hcall'
          exact ⟨{ call with phase }, by rw [hcalls, getElem?_set_self hlt], rfl⟩
        · exact ⟨call', by rw [hcalls, getElem?_set_ne (Ne.symm hj)]; exact hcall', rfl⟩
      have hold : ∀ change ∈ s.changes, ∃ call' : Call, s'.calls[change.1]? = some call' ∧
          ∀ data, change.2 = some data → call'.op = .put data := by
        intro change hchange
        obtain ⟨call', hcall', hop⟩ := h.known change hchange
        obtain ⟨call'', hcall'', heq⟩ := hmem _ _ hcall'
        exact ⟨call'', hcall'', fun data hdata => heq.trans (hop data hdata)⟩
      rcases hkept.changes with heq | ⟨data, heq, hop⟩ <;> rw [heq]
      · exact hold
      refine forall_mem_cons.mpr ⟨?_, hold⟩
      obtain ⟨call', hcall', hcall'op⟩ := hmem i call hat
      exact ⟨call', hcall', fun bytes hbytes => hcall'op.trans (hop bytes hbytes)⟩ }

theorem inv_of_run {s : Sys} (h : Run Sys.step Serial {} s) : Inv s := by
  refine h.invariant ?_ inv_start
  intro t u a hinv hserial hstep
  rcases Sys.step_cases hstep with ⟨op, rfl, rfl⟩ | ⟨i, call, hmoves⟩
  · exact inv_call hinv hserial
  · exact inv_moves hinv hmoves

namespace Sys

/-- **Puts that do not overlap are atomic**, whatever gets and deletes run beside them. -/
theorem atomic_of_serial {s : Sys} (h : Run step Serial {} s) : s.Atomic := by
  have hinv := inv_of_run h
  exact {
    found := by
      intro i call data hcall hphase
      have hstands := hinv.stands i call hcall
      rw [hphase] at hstands
      obtain ⟨-, j, hj⟩ := hstands
      obtain ⟨put, hput, hop⟩ := hinv.known _ hj
      exact ⟨j, put, hput, hop data rfl, hj⟩
    raised := by
      intro i call data verb hcall hop hphase
      have hstands := hinv.stands i call hcall
      rw [hphase, hop] at hstands
      cases verb with
      | write => exact hstands
      | read | delete => cases hstands
    returned := by
      intro i call data hcall hop hphase
      have hstands := hinv.stands i call hcall
      rw [hphase, hop] at hstands
      obtain ⟨data', hdata, hchange⟩ := hstands
      cases hdata
      exact hchange
    visible := hinv.visible }

/-- Two puts, one after the other, and a get of the second. -/
def oneByOne : List Action :=
  [.call (.put [1, 2]), .advance 0 0, .advance 0 0, .advance 0 1, .advance 0 1, .advance 0 0,
    .advance 0 0, .advance 0 0, .call (.put [3]), .call .get, .advance 1 0, .advance 1 0,
    .advance 1 1, .advance 1 0, .advance 1 0, .advance 2 0, .advance 2 1, .advance 2 0]

theorem atomic_of_serial_oneByOne : ∃ s : Sys, Run step Serial {} s ∧
    s.calls[2]?.map (·.phase) = some (.ended (.found [3])) ∧ s.Atomic := by
  refine Run.exists_of_replay_and oneByOne (by decide +kernel) fun hrun _ => ?_
  exact atomic_of_serial hrun

/-- The second put empties the file that the first is about to rename. -/
def overlapping : List Action :=
  [.call (.put [1, 2]), .call (.put [3]), .call .get, .advance 0 0, .advance 0 0, .advance 0 2,
    .advance 0 0, .advance 1 0, .advance 1 0, .advance 0 0, .advance 2 0, .advance 2 0]

/-- A get returns what no put had written. -/
theorem not_atomic_of_overlapping : ∃ s : Sys, Run step Always {} s ∧ ¬ s.Atomic := by
  have hrun := Along.get_replay step Always {} overlapping (by decide +kernel)
  refine ⟨_, hrun.run, fun hatomic => ?_⟩
  obtain ⟨j, put, hput, hop, -⟩ := hatomic.found 2 _ [] (getElem?_eq_getElem (by decide +kernel))
    (by decide +kernel)
  have hmem := mem_map_of_mem (f := fun call => call.op) (mem_of_getElem? hput)
  rw [hop] at hmem
  exact absurd hmem (by decide +kernel)

end Sys

end Storage
