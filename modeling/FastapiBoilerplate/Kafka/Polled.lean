import FastapiBoilerplate.Kafka.Runner
import FastapiBoilerplate.Lib.Lists

/-!
# What a runner may have polled

A poll moves the positions past records nobody has handled. What makes the commits safe is said
here of one runner at a time, `Runner.Fits`: of every partition it has records of, those records
are the next in line, everything before them has been handled; its positions are past nothing but
what was handled or is still pending in its batch; and its commits are earned. One lemma for each
thing a runner does.
-/

open Lib List Kafka.Source

namespace Kafka

/-- Every record below `n` has been handled in the group. -/
def Below (handled : List Delivery) (group : Text) (partition : Partition) (n : ℕ) : Prop :=
  ∀ k < n, ⟨group, partition, k⟩ ∈ handled

variable {partition : Partition} {behind messages : List ConsumedMessage}
  {message : ConsumedMessage} {records : List Record} {group : Text} {handled : List Delivery}
  {n k : ℕ}

theorem Below.mono {handled' : List Delivery} (h : Below handled group partition n)
    (hsub : handled ⊆ handled') : Below handled' group partition n :=
  fun k hk => hsub (h k hk)

theorem Below.succ (h : Below handled group partition n) (hn : ⟨group, partition, n⟩ ∈ handled) :
    Below handled group partition (n + 1) := by
  intro k hk
  rcases Nat.lt_succ_iff_lt_or_eq.mp hk with hk | rfl
  · exact h k hk
  · exact hn

/-- The records of a partition, one after the other from an offset on. -/
def Consecutive (broker : Broker) (partition : Partition) : ℕ → List ConsumedMessage → Prop
  | _, [] => True
  | first, message :: messages =>
    (∃ record, broker.recordAt partition first = some record ∧
      message = record.consumed partition first) ∧
      Consecutive broker partition (first + 1) messages

namespace Consecutive

variable {broker : Broker} {partition : Partition} {first : ℕ}

variable {messages : List ConsumedMessage}

theorem mono {broker' : Broker} (h : Consecutive broker partition first messages)
    (hextends : broker.Extends broker') : Consecutive broker' partition first messages := by
  induction messages generalizing first with
  | nil => trivial
  | cons message messages ih =>
    obtain ⟨record, hrecord, hmessage⟩ := h.1
    exact ⟨⟨record, hextends _ _ _ hrecord, hmessage⟩, ih h.2⟩

theorem append {a b : List ConsumedMessage} (ha : Consecutive broker partition first a)
    (hb : Consecutive broker partition (first + a.length) b) :
    Consecutive broker partition first (a ++ b) := by
  induction a generalizing first with
  | nil => simpa [Consecutive] using hb
  | cons message a ih =>
    refine ⟨ha.1, ih ha.2 ?_⟩
    rw [length_cons] at hb
    rwa [Nat.add_assoc, Nat.add_comm 1]

theorem partition_eq (h : Consecutive broker partition first messages) (hmem : message ∈ messages) :
    message.partition = partition := by
  induction messages generalizing first with
  | nil => cases hmem
  | cons head messages ih =>
    rcases mem_cons.mp hmem with rfl | hmem
    · obtain ⟨record, -, rfl⟩ := h.1
      rfl
    · exact ih h.2 hmem

theorem exists_offset (h : Consecutive broker partition first messages) (hlow : first ≤ k)
    (hhigh : k < first + messages.length) :
    ∃ message ∈ messages, message.partition = partition ∧ message.offset = k := by
  induction messages generalizing first with
  | nil => simp at hhigh; omega
  | cons message messages ih =>
    by_cases hk : k = first
    · obtain ⟨record, -, rfl⟩ := h.1
      exact ⟨_, mem_cons_self, rfl, hk.symm⟩
    · rw [length_cons] at hhigh
      obtain ⟨found, hmem, hfound⟩ := ih h.2 (by omega) (by omega)
      exact ⟨found, mem_cons_of_mem _ hmem, hfound⟩

theorem of_records (partition : Partition) (first : ℕ)
    (h : ∀ (i : ℕ) (record : Record), records[i]? = some record →
      broker.recordAt partition (first + i) = some record) :
    Consecutive broker partition first
      (records.mapIdx fun i record => record.consumed partition (first + i)) := by
  induction records generalizing first with
  | nil => trivial
  | cons record records ih =>
    rw [mapIdx_cons]
    refine ⟨⟨record, h 0 record rfl, rfl⟩, ?_⟩
    have hrest := ih (first + 1) fun i record' hrecord' => by
      rw [Nat.add_assoc, Nat.add_comm 1]
      exact h (i + 1) record' hrecord'
    simpa [Nat.add_assoc, Nat.add_comm 1] using hrest

end Consecutive

/-! ## What a drain takes -/

/-- What a drain took, and where it left the positions: of each partition the records from its
    position on, and the position after them. -/
structure Drained (broker : Broker) (positions : Dict Partition ℕ) (assignment : List Partition)
    (messages : List ConsumedMessage) (positions' : Dict Partition ℕ) : Prop where
  consecutive : ∀ p, Consecutive broker p (positionOf positions p)
    (messages.filter fun message => message.partition = p)
  advanced : ∀ p, positionOf positions' p = positionOf positions p +
    (messages.filter fun message => message.partition = p).length
  assigned : ∀ p, (positions'.get p).isSome → (positions.get p).isSome ∨ p ∈ assignment

theorem Drained.nothing (broker : Broker) (positions : Dict Partition ℕ)
    (assignment : List Partition) : Drained broker positions assignment [] positions :=
  ⟨fun _ => trivial, fun _ => rfl, fun _ => .inl⟩

theorem Drained.cons {broker : Broker} {positions positions₁ positions' : Dict Partition ℕ}
    {rest : List Partition}
    (hrecords : ∀ (i : ℕ) (record : Record), records[i]? = some record →
      broker.recordAt partition (positionOf positions partition + i) = some record)
    (hget : ∀ p, positions₁.get p = if p = partition ∧ records ≠ [] then
      some (positionOf positions partition + records.length) else positions.get p)
    (h : Drained broker positions₁ rest messages positions') :
    Drained broker positions (partition :: rest)
      (records.mapIdx (fun i record =>
        record.consumed partition (positionOf positions partition + i)) ++ messages)
      positions' := by
  have htaken := Consecutive.of_records partition _ hrecords
  set taken := records.mapIdx fun i record =>
    record.consumed partition (positionOf positions partition + i) with htakendef
  have hlength : taken.length = records.length := length_mapIdx
  have hpartition : ∀ message ∈ taken, message.partition = partition := by
    intro message hmem
    obtain ⟨i, hi, rfl⟩ := mem_mapIdx.mp hmem
    rfl
  have hmoved : positionOf positions₁ partition =
      positionOf positions partition + records.length := by
    rw [positionOf, hget]
    by_cases hnil : records = []
    · simp [hnil, positionOf]
    · simp [hnil]
  have hother : ∀ p, p ≠ partition →
      positionOf positions₁ p = positionOf positions p := by
    intro p hp
    rw [positionOf, hget, if_neg (fun e => hp e.1), positionOf]
  -- the records taken now are all of this partition, those of `rest` may be as well
  have hsame : ∀ p, (taken.filter fun message => message.partition = p) =
      if p = partition then taken else [] := by
    intro p
    split
    · subst_vars
      exact filter_eq_self.mpr fun message hmem => by simpa using hpartition message hmem
    · rename_i hp
      apply filter_eq_nil_iff.mpr
      intro message hmem
      simpa [hpartition message hmem] using fun e => hp e.symm
  constructor
  case consecutive =>
    intro p
    rw [filter_append, hsame]
    split
    · subst_vars
      apply htaken.append
      rw [hlength, ← hmoved]
      exact h.consecutive p
    · rw [nil_append, ← hother p ‹_›]
      exact h.consecutive p
  case advanced =>
    intro p
    rw [filter_append, hsame, length_append, h.advanced]
    split
    · subst_vars
      rw [hmoved, hlength]
      omega
    · rw [hother p ‹_›, length_nil, Nat.zero_add]
  case assigned =>
    intro p hp
    rcases h.assigned p hp with hp | hp
    · rw [hget] at hp
      split at hp
      · exact .inr (by simp_all)
      · exact .inl hp
    · exact .inr (mem_cons_of_mem _ hp)

theorem drained (broker : Broker) (positions : Dict Partition ℕ) (limit : ℕ)
    (assignment : List Partition) :
    Drained broker positions assignment (drainFrom broker positions limit assignment).1
      (drainFrom broker positions limit assignment).2 := by
  induction assignment generalizing positions limit with
  | nil => exact .nothing _ _ _
  | cons partition rest ih =>
    rw [drainFrom]
    split
    · exact .nothing _ _ _
    apply Drained.cons (fun _ _ => Broker.recordAt_of_read) _ (ih _ _)
    intro p
    split
    · rename_i hnil
      simp_all
    · rename_i hnil
      rw [Dict.get_set]
      simp_all

/-! ## What a runner holds -/

namespace Phase

/-- The records of a batch that have not been dealt with, by partition. -/
def groups : Phase → List (List ConsumedMessage)
  | handling batch record behind => (record :: behind) :: batch.rest.map Prod.snd
  | seeking batch record behind => (record :: behind) :: batch.rest.map Prod.snd
  | idle | committing _ | leaving => []

/-- What a batch has to commit so far. -/
def commits : Phase → List (Partition × ℕ)
  | handling batch _ _ => batch.commits.items
  | seeking batch _ _ => batch.commits.items
  | committing batch => batch.commits.items
  | idle | leaving => []

end Phase

/-- The record is among those a runner has polled and not dealt with. -/
def Pending (phase : Phase) (partition : Partition) (offset : ℕ) : Prop :=
  ∃ group ∈ phase.groups, ∃ message ∈ group,
    message.partition = partition ∧ message.offset = offset

/-- Records next in line: everything before them has been handled. -/
def InLine (broker : Broker) (handled : List Delivery) (group : Text)
    (messages : List ConsumedMessage) : Prop :=
  ∃ partition first, Below handled group partition first ∧
    Consecutive broker partition first messages

/-- What holds of a runner at any time. A source that is not started has nothing; its commits are
    earned; what it has polled is next in line; and its positions are past nothing but what was
    handled or is pending here. -/
structure Runner.Fits (broker : Broker) (handled : List Delivery) (runner : Runner) : Prop where
  unstarted : runner.source.started = false → runner.source.assignment = []
  assigned : ∀ p, (runner.source.positions.get p).isSome → p ∈ runner.source.assignment
  earned : ∀ p n, (p, n) ∈ runner.phase.commits → Below handled runner.source.groupId p n
  inLine : ∀ messages ∈ runner.phase.groups, InLine broker handled runner.source.groupId messages
  positioned : runner.phase ≠ .leaving → ∀ p, ∀ k < positionOf runner.source.positions p,
    ⟨runner.source.groupId, p, k⟩ ∈ handled ∨ Pending runner.phase p k

section
variable {broker broker' : Broker} {handled handled' : List Delivery} {runner : Runner}

theorem InLine.mono (h : InLine broker handled group messages) (hextends : broker.Extends broker')
    (hsub : handled ⊆ handled') : InLine broker' handled' group messages := by
  obtain ⟨p, first, hbelow, hrun⟩ := h
  exact ⟨p, first, hbelow.mono hsub, hrun.mono hextends⟩

theorem Runner.Fits.mono (h : runner.Fits broker handled) (hextends : broker.Extends broker')
    (hsub : handled ⊆ handled') : runner.Fits broker' handled' where
  unstarted := h.unstarted
  assigned := h.assigned
  earned p n hmem := (h.earned p n hmem).mono hsub
  inLine messages hmem := (h.inLine messages hmem).mono hextends hsub
  positioned hphase p k hk := (h.positioned hphase p k hk).imp_left fun hmem => hsub hmem

theorem Runner.Fits.recordAt (h : runner.Fits broker handled) {batch : Batch}
    (hphase : runner.phase = .handling batch message behind) :
    ∃ record, broker.recordAt message.partition message.offset = some record ∧
      message = record.consumed message.partition message.offset := by
  obtain ⟨p, first, -, ⟨record, hrecord, rfl⟩, -⟩ :=
    h.inLine (message :: behind) (by simp [hphase, Phase.groups])
  exact ⟨record, hrecord, rfl⟩

end

/-! ### Going on with a batch -/

section
variable {batch : Batch} {rest : List (Partition × List ConsumedMessage)}

theorem commits_nextPartition : (batch.nextPartition rest).commits = batch.commits.items := by
  induction rest with
  | nil => rfl
  | cons entry rest ih =>
    obtain ⟨p, messages⟩ := entry
    cases messages with
    | nil => exact ih
    | cons => rfl

variable {messages : List ConsumedMessage}

theorem mem_of_groups_nextPartition (h : messages ∈ (batch.nextPartition rest).groups) :
    messages ∈ rest.map Prod.snd := by
  induction rest with
  | nil => cases h
  | cons entry rest ih =>
    obtain ⟨p, group⟩ := entry
    cases group with
    | nil => exact mem_cons_of_mem _ (ih h)
    | cons => exact h

theorem pending_nextPartition (batch : Batch) (hgroup : messages ∈ rest.map Prod.snd)
    (hmem : message ∈ messages) :
    Pending (batch.nextPartition rest) message.partition message.offset := by
  induction rest with
  | nil => cases hgroup
  | cons entry rest ih =>
    obtain ⟨p, group⟩ := entry
    cases group with
    | nil =>
      rcases mem_cons.mp hgroup with rfl | hgroup
      · cases hmem
      · exact ih hgroup
    | cons => exact ⟨messages, hgroup, message, hmem, rfl, rfl⟩

/-- Nothing of a batch is lost on the way to its next record but the one just dealt with. -/
theorem pending_nextRecord {b : Batch} {record : ConsumedMessage}
    (hrest : b.rest = batch.rest) {p : Partition}
    (h : ∃ messages ∈ (record :: behind) :: batch.rest.map Prod.snd, ∃ message ∈ messages,
      message.partition = p ∧ message.offset = k) :
    (record.partition = p ∧ record.offset = k) ∨ Pending (b.nextRecord behind) p k := by
  obtain ⟨messages, hgroup, message, hmem, rfl, rfl⟩ := h
  cases behind with
  | nil =>
    rcases mem_cons.mp hgroup with rfl | hgroup
    · obtain rfl := mem_singleton.mp hmem
      exact .inl ⟨rfl, rfl⟩
    · rw [← hrest] at hgroup
      exact .inr (pending_nextPartition b hgroup hmem)
  | cons =>
    rcases mem_cons.mp hgroup with rfl | hgroup
    · rcases mem_cons.mp hmem with rfl | hmem
      · exact .inl ⟨rfl, rfl⟩
      · exact .inr ⟨_, mem_cons_self, message, hmem, rfl, rfl⟩
    · exact .inr ⟨messages, mem_cons_of_mem _ (hrest ▸ hgroup), message, hmem, rfl, rfl⟩

theorem commits_nextRecord (behind : List ConsumedMessage) :
    (batch.nextRecord behind).commits = batch.commits.items := by
  cases behind with
  | nil => exact commits_nextPartition
  | cons => rfl

theorem mem_of_groups_nextRecord (h : messages ∈ (batch.nextRecord behind).groups) :
    messages = behind ∨ messages ∈ batch.rest.map Prod.snd := by
  cases behind with
  | nil => exact .inr (mem_of_groups_nextPartition h)
  | cons => exact mem_cons.mp h

end

/-! ### One step of one runner -/

section
variable {broker : Broker} {handled : List Delivery} {runner : Runner}

theorem Runner.Fits.poll (h : runner.Fits broker handled) (hidle : runner.phase = .idle) :
    (runner.poll broker).Fits broker handled := by
  obtain ⟨config, source, phase, failures, last⟩ := runner
  cases hidle
  have hbelow : ∀ p, Below handled source.groupId p (positionOf source.positions p) := by
    intro p k hk
    rcases h.positioned Phase.noConfusion p k hk with hmem | ⟨group, hgroup, -⟩
    · exact hmem
    · cases hgroup
  have hdrained := drained broker source.positions config.maxRecords source.assignment
  unfold Runner.poll drain
  generalize drainFrom broker source.positions config.maxRecords source.assignment =
    result at hdrained
  obtain ⟨messages, positions⟩ := result
  have hassigned : ∀ p, (positions.get p).isSome → p ∈ source.assignment := by
    intro p hp
    rcases hdrained.assigned p hp with hp | hp
    · exact h.assigned p hp
    · exact hp
  dsimp only at hdrained ⊢
  split
  · rename_i hempty
    obtain rfl := List.isEmpty_iff.mp hempty
    refine ⟨h.unstarted, hassigned, by intros; contradiction, by intros; contradiction, ?_⟩
    intro _ p k hk
    have hsame : positionOf positions p = positionOf source.positions p := hdrained.advanced p
    exact .inl (hbelow p k (hsame ▸ hk))
  refine ⟨h.unstarted, hassigned, ?_, ?_, ?_⟩
  · intro p n hmem
    simp only [Batch.begin, commits_nextPartition] at hmem
    cases hmem
  · intro group hgroup
    obtain ⟨⟨p, group'⟩, hitem, rfl⟩ := mem_map.mp (mem_of_groups_nextPartition hgroup)
    refine ⟨p, _, hbelow p, ?_⟩
    rw [Dict.eq_filter_of_mem_collect hitem]
    exact hdrained.consecutive p
  -- a position moved past exactly the records that are now pending
  intro _ p k hk
  rcases Nat.lt_or_ge k (positionOf source.positions p) with hlow | hhigh
  · exact .inl (hbelow p k hlow)
  have hk' : k < positionOf positions p := hk
  rw [hdrained.advanced p] at hk'
  obtain ⟨message, hmem, hp, hoffset⟩ := (hdrained.consecutive p).exists_offset hhigh hk'
  obtain ⟨group, hitem, hgroup⟩ :=
    Dict.exists_group ConsumedMessage.partition (mem_filter.mp hmem).1
  have := pending_nextPartition { polled := messages.length, rest := [] }
    (mem_map_of_mem hitem) hgroup
  rw [hp, hoffset] at this
  exact .inr this

variable {batch : Batch} {record : ConsumedMessage} {behind : List ConsumedMessage}

section

variable (h : runner.Fits broker handled)

include h

section

variable (hphase : runner.phase = .handling batch record behind)

include hphase

/-- A handler that returned: the record is handled, and committed with everything before it. -/
theorem Runner.Fits.returned (draw : ℚ) :
    (runner.settle batch record behind .returned draw).Fits broker
      (handled ++ [⟨runner.source.groupId, record.partition, record.offset⟩]) := by
  obtain ⟨config, source, phase, failures, last⟩ := runner
  cases hphase
  have hsub : handled ⊆ handled ++ [⟨source.groupId, record.partition, record.offset⟩] :=
    subset_append_left _ _
  have hnew : (⟨source.groupId, record.partition, record.offset⟩ : Delivery) ∈
      handled ++ [⟨source.groupId, record.partition, record.offset⟩] :=
    mem_append_right _ mem_cons_self
  obtain ⟨p, first, hbelow, ⟨entry, -, rfl⟩, hbehind⟩ := h.inLine (record :: behind) mem_cons_self
  have hbelow' := (hbelow.mono hsub).succ hnew
  refine ⟨h.unstarted, h.assigned, ?_, ?_, ?_⟩
  · intro q n hmem
    simp only [Runner.settle, commits_nextRecord] at hmem
    rcases Dict.mem_set hmem with ⟨rfl, rfl⟩ | hmem
    · exact hbelow'
    · exact (h.earned q n hmem).mono hsub
  · intro messages hgroup
    rcases mem_of_groups_nextRecord hgroup with rfl | hgroup
    · exact ⟨p, _, hbelow', hbehind⟩
    · exact (h.inLine messages (mem_cons_of_mem _ hgroup)).mono (.refl broker) hsub
  · intro _ q k hk
    rcases h.positioned nofun q k hk with hmem | hpending
    · exact .inl (hsub hmem)
    · refine (pending_nextRecord (by rfl) hpending).imp_left ?_
      rintro ⟨rfl, rfl⟩
      exact hnew

/-- A handler that did not return: nothing changes but what the runner does next. -/
theorem Runner.Fits.seeking {batch' : Batch} (hrest : batch'.rest = batch.rest)
    (hcommits : batch'.commits = batch.commits) (failures : Dict Partition ℕ) :
    ({ runner with phase := .seeking batch' record behind, failures } : Runner).Fits broker
      handled := by
  obtain ⟨config, source, phase, failures, last⟩ := runner
  cases hphase
  obtain ⟨polled, rest, commits⟩ := batch
  obtain ⟨polled', rest', commits'⟩ := batch'
  cases hrest
  cases hcommits
  exact ⟨h.unstarted, h.assigned, h.earned, h.inLine, fun _ => h.positioned nofun⟩

theorem Runner.Fits.settle (outcome : Outcome) (draw : ℚ) :
    (runner.settle batch record behind outcome draw).Fits broker
      (if outcome = .returned then
        handled ++ [⟨runner.source.groupId, record.partition, record.offset⟩] else handled) := by
  cases outcome with
  | returned => exact h.returned hphase draw
  | raised | timedOut | retryAfter =>
    rw [if_neg (by simp)]
    apply h.seeking hphase <;> rfl

end

/-- After the seek the position is at the record, or there is none: the partition went to
    somebody else. -/
theorem Runner.Fits.seekBack (hphase : runner.phase = .seeking batch record behind) :
    (runner.seekBack batch record).Fits broker handled := by
  obtain ⟨config, source, phase, failures, last⟩ := runner
  cases hphase
  obtain ⟨p, first, hbelow, hrun⟩ := h.inLine (record :: behind) mem_cons_self
  obtain ⟨entry, -, hentry⟩ := hrun.1
  obtain rfl : record.partition = p := by rw [hentry]; rfl
  obtain rfl : record.offset = first := by rw [hentry]; rfl
  have hearned : ∀ q n, (q, n) ∈ (batch.nextPartition batch.rest).commits →
      Below handled source.groupId q n := by
    intro q n hmem
    rw [commits_nextPartition] at hmem
    exact h.earned q n hmem
  have hinLine : ∀ messages ∈ (batch.nextPartition batch.rest).groups,
      InLine broker handled source.groupId messages := by
    intro messages hmem
    exact h.inLine messages (mem_cons_of_mem _ (mem_of_groups_nextPartition hmem))
  -- what is pending in another partition stays so
  have hpositioned : ∀ q, q ≠ record.partition → ∀ k < positionOf source.positions q,
      ⟨source.groupId, q, k⟩ ∈ handled ∨ Pending (batch.nextPartition batch.rest) q k := by
    intro q hq k hk
    refine (h.positioned nofun q k hk).imp_right ?_
    rintro ⟨messages, hgroup, message, hmem, rfl, rfl⟩
    rcases mem_cons.mp hgroup with rfl | hgroup
    · exact absurd (hrun.partition_eq hmem) hq
    · exact pending_nextPartition batch hgroup hmem
  have hoffset : ¬ (record.offset : ℤ) < 0 := by omega
  unfold Runner.seekBack seek
  by_cases hassigned : record.partition ∈ source.assignment
  · simp only [hassigned, not_true_eq_false, if_false, hoffset, Int.toNat_natCast]
    refine ⟨h.unstarted, ?_, hearned, hinLine, ?_⟩
    · intro q hq
      rw [Dict.get_set] at hq
      split at hq
      · rwa [‹q = _›]
      · exact h.assigned q hq
    · intro _ q k hk
      simp only [positionOf, Dict.get_set] at hk
      split at hk
      · exact .inl (‹q = _› ▸ hbelow k hk)
      · exact hpositioned q ‹_› k hk
  · simp only [hassigned, not_false_eq_true, if_true]
    refine ⟨h.unstarted, h.assigned, hearned, hinLine, ?_⟩
    intro _ q k hk
    by_cases hq : q = record.partition
    · -- an unassigned partition has no position
      have hnone : source.positions.get q = none := by
        rw [← Option.not_isSome_iff_eq_none]
        exact fun hsome => hassigned (hq ▸ h.assigned q hsome)
      simp [positionOf, hnone] at hk
    · exact hpositioned q hq k hk

/-- A runner whose source is anew at the committed offsets, whatever it is doing. -/
theorem Runner.Fits.assign
    (hstarted : runner.source.started = true) {group : Group}
    (hcommitted : ∀ p n, group.committed.get p = some n →
      Below handled runner.source.groupId p n) (assignment : List Partition) :
    ({ runner with source := runner.source.applyAssignment assignment group } : Runner).Fits
      broker handled := by
  refine ⟨?_, ?_, h.earned, h.inLine, ?_⟩
  · intro hstopped
    rw [show runner.source.started = false from hstopped] at hstarted
    cases hstarted
  · intro p hp
    simp only [applyAssignment, Dict.get_ofKeys] at hp ⊢
    by_contra hmem
    simp [hmem] at hp
  · intro _ p k hk
    simp only [applyAssignment, positionOf, Dict.get_ofKeys] at hk
    split at hk
    · simp only [Option.getD_some, startingPosition] at hk
      cases hget : group.committed.get p with
      | none => simp [hget] at hk
      | some n => exact .inl (hcommitted p n hget k (by simpa [hget] using hk))
    · simp at hk

/-- A runner whose source has nothing assigned: its positions are past nothing. -/
theorem Runner.Fits.reset {runner' : Runner} (hid : runner'.source.groupId = runner.source.groupId)
    (hassignment : runner'.source.assignment = [])
    (hassigned : ∀ p, (runner'.source.positions.get p).isSome → p ∈ runner'.source.assignment)
    (hphase : runner'.phase = runner.phase ∨ runner'.phase = .idle) :
    runner'.Fits broker handled := by
  have hnone : ∀ p, runner'.source.positions.get p = none := by
    intro p
    rw [← Option.not_isSome_iff_eq_none]
    intro hsome
    have hmem := hassigned p hsome
    rw [hassignment] at hmem
    cases hmem
  refine ⟨fun _ => hassignment, hassigned, ?_, ?_, ?_⟩
  · intro p n hmem
    rcases hphase with hphase | hphase
    · exact hid ▸ h.earned p n (hphase ▸ hmem)
    · simp [hphase, Phase.commits] at hmem
  · intro messages hmem
    rcases hphase with hphase | hphase
    · exact hid ▸ h.inLine messages (hphase ▸ hmem)
    · simp [hphase, Phase.groups] at hmem
  · intro _ p k hk
    simp [positionOf, hnone] at hk

theorem Runner.Fits.finish (hphase : runner.phase = .committing batch)
    (result : Option ConsumeResult) :
    ({ runner with phase := .idle, result } : Runner).Fits broker handled := by
  obtain ⟨config, source, phase, failures, last⟩ := runner
  cases hphase
  refine ⟨h.unstarted, h.assigned, nofun, nofun, fun _ p k hk => ?_⟩
  rcases h.positioned nofun p k hk with hmem | ⟨group, hgroup, -⟩
  · exact .inl hmem
  · cases hgroup

theorem Runner.Fits.cancel : ({ runner with phase := .leaving } : Runner).Fits broker handled :=
  ⟨h.unstarted, h.assigned, nofun, nofun, fun hne => absurd rfl hne⟩

end

end

end Kafka
