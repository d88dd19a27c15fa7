import FastapiBoilerplate.Kafka.Polled

/-!
# At least once

Whatever a group has committed was handled: for every record below a committed offset some handler
of the group returned. The commit, the seek and the rebalance of several runners come in any order,
so this is an invariant of the whole system (`Kept`), kept by each step.

A rebalance changes nothing of a runner but what its source is assigned; `Runner.frame` is the
rest of it.
-/

open Lib List Option

namespace Kafka

/-- A runner without what a rebalance gives it. -/
def Runner.frame (runner : Runner) : Runner :=
  { runner with source := { runner.source with assignment := [], positions := ∅ } }

variable {broker broker' : Broker} {runners runners' : List Runner} {i : ℕ}

variable {id name : Text} {members : List ℕ}

/-! ## Rebalancing -/

/-- A rebalance: the groups stay, the logs are extended, and of the runners all stays but what
    their sources are assigned. -/
structure Rebalanced (broker broker' : Broker) (runners runners' : List Runner) : Prop where
  groups : broker'.groups = broker.groups
  logs : broker.Extends broker'
  frame : runners'.map Runner.frame = runners.map Runner.frame

theorem Rebalanced.refl (broker : Broker) (runners : List Runner) :
    Rebalanced broker broker runners runners :=
  ⟨rfl, .refl broker, rfl⟩

theorem frame_set {runner runner' : Runner} (hrunner : runners[i]? = some runner)
    (hframe : runner'.frame = runner.frame) :
    (runners.set i runner').map Runner.frame = runners.map Runner.frame := by
  rw [map_set, hframe]
  apply set_of_getElem?
  rw [getElem?_map, hrunner]
  rfl

theorem rebalanceFrom_rebalanced (group : Group) (index : ℕ) (members : List ℕ) (broker : Broker)
    (runners : List Runner) :
    Rebalanced broker (rebalanceFrom group index members broker runners).1 runners
      (rebalanceFrom group index members broker runners).2 := by
  induction members generalizing index broker runners with
  | nil => exact .refl broker runners
  | cons member members ih =>
    rw [rebalanceFrom]
    split
    · exact .refl broker runners
    rename_i runner hrunner
    split
    · exact .refl broker runners
    rename_i partitions broker₁ hpartitions
    have hrest := ih (index + 1) broker₁ (runners.set member { runner with
      source := runner.source.applyAssignment ((partitions.zipIdx.filter fun entry =>
        entry.2 % group.members.length = index).map Prod.fst) group })
    have hgrown := Broker.grown_partitionsOf hpartitions
    refine ⟨hrest.groups.trans hgrown.groups, hgrown.logs.trans hrest.logs,
      hrest.frame.trans ?_⟩
    exact frame_set hrunner rfl

/-- The members of a group have started sources of that group. -/
def Members (id : Text) (members : List ℕ) (runners : List Runner) : Prop :=
  ∀ m ∈ members, ∃ runner, runners[m]? = some runner ∧ runner.source.groupId = id ∧
    runner.source.started = true

theorem Members.of_frame (h : Members id members runners)
    (hframe : runners'.map Runner.frame = runners.map Runner.frame) :
    Members id members runners' := by
  intro m hm
  obtain ⟨runner, hrunner, hid, hstarted⟩ := h m hm
  have hi : (runners'.map Runner.frame)[m]? = (runners.map Runner.frame)[m]? := by rw [hframe]
  rw [getElem?_map, getElem?_map, hrunner] at hi
  obtain ⟨runner', hrunner', hsame⟩ := map_eq_some_iff.mp hi
  exact ⟨runner', hrunner', (congrArg (·.source.groupId) hsame).trans hid,
    (congrArg (·.source.started) hsame).trans hstarted⟩

theorem rebalanceFrom_fits {handled : List Delivery} {group : Group}
    (hcommitted : ∀ p n, group.committed.get p = some n → Below handled id p n) {index : ℕ}
    (hmembers : Members id members runners) (hfits : ∀ runner ∈ runners, runner.Fits broker handled)
    :
    ∀ runner ∈ (rebalanceFrom group index members broker runners).2,
      runner.Fits (rebalanceFrom group index members broker runners).1 handled := by
  induction members generalizing index broker runners with
  | nil => exact hfits
  | cons member members ih =>
    obtain ⟨runner, hrunner, hid, hstarted⟩ := hmembers member mem_cons_self
    rw [rebalanceFrom, hrunner]
    dsimp only
    split
    · exact hfits
    rename_i partitions broker₁ hpartitions
    have hextends := (Broker.grown_partitionsOf hpartitions).logs
    apply ih
    · have hrest : Members id members runners :=
        fun m hm => hmembers m (mem_cons_of_mem _ hm)
      exact hrest.of_frame (frame_set hrunner rfl)
    · have hmono := fun r hr => (hfits r hr).mono hextends (List.Subset.refl _)
      have hold := hmono runner (mem_of_getElem? hrunner)
      exact forall_mem_set hmono (hold.assign hstarted (hid ▸ hcommitted) _)

/-! ## The invariant -/

/-- What holds of the system at any time: a group's members are sources of it that are started,
    nothing is committed that was not handled, and every runner fits. -/
structure Kept (s : Sys) : Prop where
  members : ∀ id, Members id (s.broker.group id).members s.runners
  nodup : ∀ id, (s.broker.group id).members.Nodup
  committed : ∀ id p n, s.broker.committed id p = some n → Below s.handled id p n
  fits : ∀ runner ∈ s.runners, runner.Fits s.broker s.handled

section
variable {s : Sys} {r : ℕ} {runner runner' : Runner}

/-- A change to the broker that the consumers see nothing of but longer logs. -/
theorem Kept.setBroker (h : Kept s) {broker : Broker} (hgroups : broker.groups = s.broker.groups)
    (hextends : s.broker.Extends broker) : Kept { s with broker } := by
  have hgroup : ∀ id, broker.group id = s.broker.group id := by
    intro id
    rw [Broker.group, hgroups, Broker.group]
  constructor
  case members => exact fun id => (hgroup id).symm ▸ h.members id
  case nodup => exact fun id => (hgroup id).symm ▸ h.nodup id
  case committed =>
    intro id p n hn
    rw [Broker.committed, hgroup id] at hn
    exact h.committed id p n hn
  case fits => exact fun runner hmem => (h.fits runner hmem).mono hextends (List.Subset.refl _)

theorem rebalance_rebalanced (s : Sys) (id : Text) :
    Rebalanced s.broker (s.rebalance id).broker s.runners (s.rebalance id).runners :=
  rebalanceFrom_rebalanced _ 0 _ s.broker s.runners

theorem Kept.rebalance (h : Kept s) (id : Text) : Kept (s.rebalance id) := by
  have hbalanced := rebalance_rebalanced s id
  have hbroker := h.setBroker hbalanced.groups hbalanced.logs
  exact ⟨fun id' => (hbroker.members id').of_frame hbalanced.frame, hbroker.nodup,
    hbroker.committed, rebalanceFrom_fits (h.committed id) (h.members id) h.fits⟩

variable {handled : List Delivery} {offsets : List (Partition × ℤ)} {s' : Sys} {p : Partition}
  {batch : Batch}

section

variable (h : Kept s) (hrunner : s.runners[r]? = some runner)
  (hfits : runner'.Fits s.broker handled)

include h hrunner hfits

/-- One runner takes a step, and perhaps a handler has returned. If it is a member of a group it
    still can be. -/
theorem Kept.replace
    (hmember : ∀ id, r ∈ (s.broker.group id).members →
      runner'.source.groupId = id ∧ runner'.source.started = true)
    (hsub : s.handled ⊆ handled) :
    Kept { s with runners := s.runners.set r runner', handled } := by
  have hlt := lt_of_getElem? hrunner
  constructor
  case members =>
    intro id m hm
    by_cases hmr : r = m
    · subst hmr
      exact ⟨runner', getElem?_set_self hlt, hmember id hm⟩
    · obtain ⟨member, hget, hsource⟩ := h.members id m hm
      exact ⟨member, (getElem?_set_ne hmr).trans hget, hsource⟩
  case nodup => exact h.nodup
  case committed => exact fun id p n hn => (h.committed id p n hn).mono hsub
  case fits => exact forall_mem_set (fun r hr => (h.fits r hr).mono (.refl _) hsub) hfits

theorem Kept.setRunner (hid : runner'.source.groupId = runner.source.groupId)
    (hstarted : runner'.source.started = runner.source.started) (hsub : s.handled ⊆ handled) :
    Kept { s with runners := s.runners.set r runner', handled } := by
  refine h.replace hrunner hfits ?_ hsub
  intro id hm
  obtain ⟨member, hget, hgroup, hmember⟩ := h.members id r hm
  obtain rfl : runner = member := some.inj (hrunner.symm.trans hget)
  exact ⟨hid.trans hgroup, hstarted.trans hmember⟩

end

/-- Another group in the place of `id`: its members are of it, and what it has committed was
    handled. -/
theorem Kept.setGroup (h : Kept s) {id : Text} {g : Group}
    (hmembers : Members id g.members s.runners) (hnodup : g.members.Nodup)
    (hcommitted : ∀ p n, g.committed.get p = some n → Below s.handled id p n) :
    Kept { s with broker := s.broker.setGroup id g } := by
  constructor
  case members =>
    intro id'
    show Members id' ((s.broker.setGroup id g).group id').members s.runners
    rw [group_setGroup]
    split
    · exact ‹id' = id› ▸ hmembers
    · exact h.members id'
  case nodup =>
    intro id'
    show ((s.broker.setGroup id g).group id').members.Nodup
    rw [group_setGroup]
    split
    · exact hnodup
    · exact h.nodup id'
  case committed =>
    intro id' p n hn
    rw [Broker.committed, group_setGroup] at hn
    split at hn
    · exact ‹id' = id› ▸ hcommitted p n hn
    · exact h.committed id' p n hn
  case fits =>
    intro runner hmem
    exact (h.fits runner hmem).mono (.of_topics rfl) (List.Subset.refl _)

theorem Kept.join (h : Kept s) (hrunner : s.runners[r]? = some runner) :
    Kept (s.join r runner) := by
  apply Kept.rebalance
  have hlt := lt_of_getElem? hrunner
  have hold := h.fits runner (mem_of_getElem? hrunner)
  have hopened : ({ runner with source := runner.source.opened } : Runner).Fits s.broker
      s.handled :=
    ⟨by simp [Source.opened], hold.assigned, hold.earned, hold.inLine, hold.positioned⟩
  have hstarted : Kept { s with
      runners := s.runners.set r { runner with source := runner.source.opened } } := by
    refine h.replace hrunner hopened ?_ (List.Subset.refl _)
    intro id hm
    obtain ⟨member, hget, hgroup, -⟩ := h.members id r hm
    obtain rfl : runner = member := some.inj (hrunner.symm.trans hget)
    exact ⟨hgroup, rfl⟩
  refine Kept.setGroup hstarted (g := { s.broker.group _ with members := _ }) ?_ ?_ (h.committed _)
  · intro m hm
    split at hm
    · exact hstarted.members _ m hm
    rcases mem_snoc.mp hm with hm | rfl
    · exact hstarted.members _ m hm
    · exact ⟨_, getElem?_set_self hlt, rfl, rfl⟩
  · dsimp only
    split
    · exact h.nodup _
    · rw [← concat_eq_append]
      exact (h.nodup _).concat ‹_›

/-- A source that leaves: it is dropped from its group, and was in no other. -/
theorem Kept.leave (h : Kept s) (hrunner : s.runners[r]? = some runner)
    (hphase : runner'.phase = runner.phase ∨ runner'.phase = .idle)
    (hsource : runner'.source = runner.source) : Kept (s.leave r runner') := by
  apply Kept.rebalance
  have hid : runner'.source.groupId = runner.source.groupId := by rw [hsource]
  have hold := h.fits runner (mem_of_getElem? hrunner)
  have hleft := Kept.setGroup h
    (g := { s.broker.group runner'.source.groupId with
      members := (s.broker.group runner'.source.groupId).members.erase r })
    (fun m hm => h.members runner'.source.groupId m (mem_of_mem_erase hm))
    ((h.nodup _).erase r) (h.committed _)
  have hclosed : ({ runner' with source := runner'.source.closed } : Runner).Fits s.broker
      s.handled :=
    hold.reset hid rfl nofun hphase
  refine hleft.replace hrunner (hclosed.mono (.of_topics rfl) (List.Subset.refl _)) ?_
    (List.Subset.refl _)
  intro id hm
  exfalso
  rw [group_setGroup] at hm
  split at hm
  · exact (h.nodup _).not_mem_erase hm
  rename_i hne
  obtain ⟨member, hget, hgroup, -⟩ := h.members id r hm
  obtain rfl : runner = member := some.inj (hrunner.symm.trans hget)
  exact hne (hgroup.symm.trans hid.symm)

/-! ## Committing -/

theorem get_commitFrom {assignment : List Partition} {committed : Dict Partition ℕ} {n : ℕ}
    (h : (Source.commitFrom assignment committed offsets).1.get p = some n) :
    committed.get p = some n ∨ (p, (n : ℤ)) ∈ offsets := by
  induction offsets generalizing committed with
  | nil => exact .inl h
  | cons entry offsets ih =>
    obtain ⟨q, offset⟩ := entry
    rw [Source.commitFrom] at h
    split at h
    · exact .inl h
    split at h
    · exact .inl h
    rename_i hpos
    rcases ih h with hold | hlater
    · rw [Dict.get_set] at hold
      split at hold
      · obtain rfl := ‹p = q›
        obtain rfl : offset.toNat = n := some.inj hold
        exact .inr (by simp [Int.toNat_of_nonneg (Int.not_lt.mp hpos)])
      · exact .inl hold
    · exact .inr (mem_cons_of_mem _ hlater)

/-- A commit writes nothing but what its batch has earned, however far it gets. -/
theorem Kept.commit (h : Kept s) (hrunner : s.runners[r]? = some runner)
    (hphase : runner.phase = .committing batch)
    (hoffsets : ∀ (p : Partition) (n : ℕ), (p, (n : ℤ)) ∈ offsets → (p, n) ∈ batch.commits.items) :
    Kept { s with broker := (runner.source.commit s.broker offsets).1 } := by
  have hold := h.fits runner (mem_of_getElem? hrunner)
  unfold Source.commit
  split
  · exact h
  split
  · exact h
  refine Kept.setGroup h (g := { s.broker.group _ with committed := _ }) (h.members _)
    (h.nodup _) ?_
  intro p n hn
  rcases get_commitFrom hn with hn | hn
  · exact h.committed _ p n hn
  · exact hold.earned p n (by simpa [hphase, Phase.commits] using hoffsets p n hn)

/-! ## Steps and runs -/

theorem source_poll (runner : Runner) (broker : Broker) :
    ∃ positions, (runner.poll broker).source = { runner.source with positions } := by
  unfold Runner.poll Source.drain
  dsimp only
  split <;> exact ⟨_, rfl⟩

theorem source_seekBack (runner : Runner) (batch : Batch) (record : ConsumedMessage) :
    ∃ positions, (runner.seekBack batch record).source = { runner.source with positions } := by
  unfold Runner.seekBack Source.seek
  dsimp only
  split
  · rename_i source hsource
    split at hsource
    · cases hsource
    split at hsource <;> cases hsource
    exact ⟨_, rfl⟩
  · exact ⟨_, rfl⟩

theorem Kept.newRunner (h : Kept s) (config : ConsumerConfig) (source : Source)
    (hassignment : source.assignment = []) (hpositions : source.positions = ∅) :
    Kept { s with runners := s.runners ++ [{ config, source }] } := by
  refine ⟨?_, h.nodup, h.committed, ?_⟩
  · intro id m hm
    obtain ⟨member, hget, hsource⟩ := h.members id m hm
    exact ⟨member, getElem?_append_of hget, hsource⟩
  · refine forall_mem_snoc h.fits ?_
    exact ⟨fun _ => hassignment, by simp [hpositions, Dict.get_empty], by simp [Phase.commits],
      by simp [Phase.groups], by simp [Source.positionOf, hpositions, Dict.get_empty]⟩

theorem mem_items_of_commitOffsets {n : ℕ} (h : (p, (n : ℤ)) ∈ batch.commitOffsets) :
    (p, n) ∈ batch.commits.items := by
  obtain ⟨⟨q, m⟩, hmem, heq⟩ := mem_map.mp h
  simp only [Prod.mk.injEq, Int.natCast_inj] at heq
  exact heq.1 ▸ heq.2 ▸ hmem

theorem step_kept {a : Action} (h : Kept s) (hstep : step s a = some s') : Kept s' := by
  have hfits : ∀ {r : ℕ} {runner : Runner}, s.runners[r]? = some runner →
      runner.Fits s.broker s.handled :=
    fun hrunner => h.fits _ (mem_of_getElem? hrunner)
  cases step_move hstep with
  | createTopic hbroker =>
    have hgrown := Broker.grown_createTopic hbroker
    exact h.setBroker hgrown.groups hgrown.logs
  | publishers => exact ⟨h.members, h.nodup, h.committed, h.fits⟩
  | publish p out =>
    have hgrown := s.broker.grown_publish out
    exact h.setBroker hgrown.groups hgrown.logs
  | newRunner _ config source hassignment hpositions =>
    exact h.newRunner config source hassignment hpositions
  | started => exact h
  | join hrunner => exact h.join hrunner
  | leave hrunner hrested => exact h.leave hrunner hrested.phase hrested.source
  | @rest _ runner runner' hrunner hrested hunstarted =>
    have hold := hfits hrunner
    have hid : runner'.source.groupId = runner.source.groupId := by rw [hrested.source]
    have hassignment : runner'.source.assignment = [] := by
      rw [hrested.source]
      exact hold.unstarted hunstarted
    exact h.setRunner hrunner
      (hold.reset hid hassignment (hrested.source ▸ hold.assigned) hrested.phase) hid
      (by rw [hrested.source]) (List.Subset.refl _)
  | @poll _ runner hrunner hidle =>
    obtain ⟨positions, hsource⟩ := source_poll runner s.broker
    exact h.setRunner hrunner ((hfits hrunner).poll hidle) (by rw [hsource]) (by rw [hsource])
      (List.Subset.refl _)
  | handle hrunner hphase outcome draw =>
    refine h.setRunner hrunner ((hfits hrunner).settle hphase outcome draw) ?_ ?_ ?_
    · cases outcome <;> rfl
    · cases outcome <;> rfl
    split
    · exact subset_append_left _ _
    · exact List.Subset.refl _
  | @seek _ runner batch record _ hrunner hphase =>
    obtain ⟨positions, hsource⟩ := source_seekBack runner batch record
    exact h.setRunner hrunner ((hfits hrunner).seekBack hphase) (by rw [hsource]) (by rw [hsource])
      (List.Subset.refl _)
  | @commit _ runner _ broker hrunner hphase hbroker result =>
    have hkept : Kept { s with broker } := by
      rcases hbroker with rfl | rfl
      · exact h
      · exact h.commit hrunner hphase fun _ _ => mem_items_of_commitOffsets
    have hold := hkept.fits runner (mem_of_getElem? hrunner)
    exact hkept.setRunner hrunner (hold.finish hphase _) rfl rfl (List.Subset.refl _)
  | cancel hrunner =>
    exact h.setRunner hrunner (hfits hrunner).cancel rfl rfl (List.Subset.refl _)

end

/-- A broker that nobody has used, and nobody there to use it. -/
def Sys.fresh (defaultPartitions : ℕ) : Sys := { broker := { defaultPartitions } }

theorem kept_fresh (defaultPartitions : ℕ) : Kept (Sys.fresh defaultPartitions) := by
  exact ⟨nofun, fun id => nodup_nil, nofun, nofun⟩

/-- However producers, joins, leaves, polls, handlers, seeks and commits of any number of
    runners interleave: below a committed offset everything has been handled in that group. -/
theorem at_least_once {defaultPartitions : ℕ} {s : Sys}
    (hrun : Run step Always (Sys.fresh defaultPartitions) s) (group : Text)
    (partition : Partition) (n k : ℕ) (hcommitted : s.broker.committed group partition = some n)
    (hk : k < n) : ⟨group, partition, k⟩ ∈ s.handled :=
  (hrun.invariant (fun h _ => step_kept h) (kept_fresh defaultPartitions)).committed
    group partition n hcommitted k hk

/-- Two records, the second of which fails; a second runner joins while the first is at it. -/
def twoRecords : List Action :=
  let out : Outgoing :=
    { topic := lit "orders", key := some (lit "k"), value := none, headers := [] }
  [.createTopic (lit "orders") (some 1), .newPublisher, .startPublisher 0, .publish 0 out,
    .publish 0 out, .newRunner .defaults [lit "orders"] (lit "billing"),
    .newRunner .defaults [lit "orders"] (lit "billing"), .start 0, .poll 0, .handle 0 .returned 0,
    .start 1, .handle 0 .raised 0, .seek 0, .commit 0]

theorem at_least_once_two_records : ∃ s, Run step Always (Sys.fresh 2) s ∧
    s.broker.committed (lit "billing") ⟨lit "orders", 0⟩ = some 1 ∧
    ⟨lit "billing", ⟨lit "orders", 0⟩, 0⟩ ∈ s.handled := by
  refine Run.exists_of_replay_and twoRecords (by decide +kernel) fun hrun hcommitted => ?_
  exact at_least_once hrun _ _ 1 0 hcommitted Nat.zero_lt_one

end Kafka
