import FastapiBoilerplate.Kafka.AtLeastOnce

/-!
# Who is assigned what

A rebalance gives every member its share of the partitions *it* subscribes to: the one at place
`i` of `n` takes those whose position in its own list is `i` modulo `n`. Shares of one and the same
list cut it up; shares of different lists need not fit together, and a list that names a topic
twice has every partition of it at two positions.

So the assignment is a partition of what the group subscribes to (`Partitioned`) along every run
in which whoever joins a group subscribes to what its members do and names no topic twice
(`JoinsAlike`). The invariant is `Dealt`: all shares are cut from one list, and the list is still
what the broker would answer. Topics are made as they are asked for, so a topic that nobody can
make is excluded with the rest.
-/

open Lib List Option

namespace Kafka

namespace Broker

/-! ## How many partitions there are -/

/-- A topic that is there, or would be made. -/
def Makeable (broker : Broker) (name : Text) : Prop :=
  0 < broker.width name ∨ 1 ≤ broker.defaultPartitions

instance (broker : Broker) (name : Text) : Decidable (broker.Makeable name) :=
  inferInstanceAs (Decidable (_ ∨ _))

/-- The partitions of topics that are there, in this order. -/
def listing (broker : Broker) (names : List Text) : List Partition :=
  names.flatMap fun name => (List.range (broker.width name)).map fun number => ⟨name, number⟩

variable {broker broker' : Broker} {name : Text} {names : List Text}

theorem Keeps.setGroup (broker : Broker) (id : Text) (group : Group) :
    broker.Keeps (broker.setGroup id group) :=
  ⟨rfl, fun _ _ => rfl⟩

theorem Makeable.mono (h : broker.Makeable name) (hkeeps : broker.Keeps broker') :
    broker'.Makeable name := by
  rcases h with h | h
  · exact .inl ((hkeeps.width name h).symm ▸ h)
  · exact .inr (hkeeps.defaults.symm ▸ h)

theorem exists_topic (h : broker.Makeable name) :
    ∃ topic broker', broker.topic name = some (topic, broker') := by
  unfold Broker.topic
  cases hget : broker.topics.get name with
  | some topic => exact ⟨topic, broker, rfl⟩
  | none =>
    have hdefault : 1 ≤ broker.defaultPartitions := by
      rcases h with h | h
      · rw [width, hget] at h
        cases h
      · exact h
    rw [Topic.make, dif_neg (Nat.not_lt.mpr hdefault)]
    exact ⟨_, _, rfl⟩

theorem partitionsOf_eq_some (h : ∀ name ∈ names, broker.Makeable name) :
    ∃ broker', broker.partitionsOf names = some (broker'.listing names, broker') ∧
      broker.Keeps broker' ∧ ∀ name ∈ names, 0 < broker'.width name := by
  induction names generalizing broker with
  | nil => exact ⟨broker, rfl, .refl _, nofun⟩
  | cons name names ih =>
    obtain ⟨topic, broker₁, htopic⟩ := exists_topic (h name mem_cons_self)
    obtain ⟨⟨-, -, hkeeps₁⟩, hget⟩ := grown_topic htopic
    have hwidth : broker₁.width name = topic.logs.length := by
      rw [width, hget]
      rfl
    obtain ⟨broker₂, hrest, hkeeps₂, hpos⟩ :=
      ih fun other hother => (h other (mem_cons_of_mem _ hother)).mono hkeeps₁
    have hpos₁ : 0 < broker₁.width name := hwidth.symm ▸ Nat.zero_lt_of_lt topic.cursor_lt
    have hwidth₂ : broker₂.width name = topic.logs.length :=
      (hkeeps₂.width name hpos₁).trans hwidth
    refine ⟨broker₂, ?_, hkeeps₁.trans hkeeps₂, ?_⟩
    · rw [partitionsOf, htopic]
      show (broker₁.partitionsOf names).bind _ = _
      rw [hrest]
      have hcons : broker₂.listing (name :: names) =
          topic.partitions name ++ broker₂.listing names := by
        rw [listing, flatMap_cons, hwidth₂]
        rfl
      rw [hcons]
      rfl
    · intro other hother
      rcases mem_cons.mp hother with rfl | hother
      · rw [hwidth₂]
        exact Nat.zero_lt_of_lt topic.cursor_lt
      · exact hpos other hother

theorem mem_listing {partition : Partition} :
    partition ∈ broker.listing names ↔
      partition.topic ∈ names ∧ partition.number < broker.width partition.topic := by
  simp only [listing, mem_flatMap, List.mem_map, mem_range]
  constructor
  · rintro ⟨name, hname, number, hlt, rfl⟩
    exact ⟨hname, hlt⟩
  · intro ⟨hname, hlt⟩
    exact ⟨partition.topic, hname, partition.number, hlt, rfl⟩

theorem nodup_listing (h : names.Nodup) : (broker.listing names).Nodup := by
  rw [listing, nodup_flatMap]
  refine ⟨?_, h.imp ?_⟩
  · intro name _
    exact nodup_range.map fun _ _ heq => congrArg Partition.number heq
  · intro a b hab p hpa hpb
    obtain ⟨_, -, rfl⟩ := mem_map.mp hpa
    obtain ⟨_, -, heq⟩ := mem_map.mp hpb
    exact hab (congrArg Partition.topic heq).symm

theorem listing_of_keeps (hkeeps : broker.Keeps broker')
    (hpos : ∀ name ∈ names, 0 < broker.width name) :
    broker'.listing names = broker.listing names := by
  apply flatMap_congr
  intro name hname
  rw [hkeeps.width name (hpos name hname)]

end Broker

/-! ## Subscriptions and shares -/

/-- The topics a source was made with. -/
def topicsOf (runners : List Runner) (r : ℕ) : List Text :=
  ((runners[r]?).map fun runner => runner.source.topics).getD []

def assignmentOf (runners : List Runner) (r : ℕ) : List Partition :=
  ((runners[r]?).map fun runner => runner.source.assignment).getD []

def Sys.members (s : Sys) (id : Text) : List ℕ := (s.broker.group id).members

/-- Every partition of every topic that a member of the group subscribes to is assigned to one
    member and no other, and that member subscribes to the topic. -/
def Partitioned (s : Sys) (id : Text) : Prop :=
  ∀ partition : Partition, partition.number < s.broker.width partition.topic →
    (∃ r ∈ s.members id, partition.topic ∈ topicsOf s.runners r) →
      ∃ r ∈ s.members id, partition ∈ assignmentOf s.runners r ∧
        partition.topic ∈ topicsOf s.runners r ∧
        ∀ r' ∈ s.members id, partition ∈ assignmentOf s.runners r' → r' = r

/-- The names as `partitions_for` goes through them. -/
def sorted (names : List Text) : List Text := names.insertionSort (· ≤ ·)

theorem sorted_of_perm {names names' : List Text} (h : names.Perm names') :
    sorted names = sorted names' := by
  have hperm : (sorted names).Perm (sorted names') :=
    ((perm_insertionSort _ _).trans h).trans (perm_insertionSort _ _).symm
  exact hperm.eq_of_pairwise' (pairwise_insertionSort _ _) (pairwise_insertionSort _ _)

/-- The shares of a group are cut from one list: its members subscribe to the same `names`, none
    twice unless there is but one member, and every topic is there. -/
structure Dealt (s : Sys) (id : Text) (names : List Text) : Prop where
  alike : ∀ r ∈ s.members id, sorted (topicsOf s.runners r) = names
  distinct : (s.members id).length ≤ 1 ∨ names.Nodup
  wide : ∀ r ∈ s.members id, ∀ name ∈ names, 0 < s.broker.width name
  assigned : ∀ i r, (s.members id)[i]? = some r →
    assignmentOf s.runners r = dealt (s.members id).length i (s.broker.listing names)

section
variable {s s' : Sys} {id : Text} {names : List Text} {r : ℕ} {runner runner' : Runner}
  {broker : Broker}

theorem Dealt.partitioned (h : Dealt s id names) : Partitioned s id := by
  intro p hlt ⟨r₀, hr₀, hsub⟩
  have hname : p.topic ∈ names := by
    rw [← h.alike r₀ hr₀]
    exact (mem_insertionSort _).mpr hsub
  obtain ⟨k, hk, hget⟩ := mem_iff_getElem.mp (Broker.mem_listing.mpr ⟨hname, hlt⟩)
  have hget : (s.broker.listing names)[k]? = some p := List.getElem?_eq_some_iff.mpr ⟨hk, hget⟩
  have hn : 0 < (s.members id).length := length_pos_of_mem hr₀
  obtain ⟨r, hr⟩ : ∃ r, (s.members id)[k % (s.members id).length]? = some r :=
    ⟨_, getElem?_eq_getElem (Nat.mod_lt k hn)⟩
  have hmem := mem_of_getElem? hr
  refine ⟨r, hmem, ?_, ?_, ?_⟩
  · rw [h.assigned _ r hr]
    exact mem_dealt.mpr ⟨k, hget, rfl⟩
  · rw [← h.alike r hmem] at hname
    exact (mem_insertionSort _).mp hname
  intro r' hmem' hp
  obtain ⟨j, hj⟩ := mem_iff_getElem?.mp hmem'
  rw [h.assigned j r' hj] at hp
  obtain ⟨k', hget', rfl⟩ := mem_dealt.mp hp
  -- both positions are the partition's only one, or there is only one member to have it
  have hsame : k' % (s.members id).length = k % (s.members id).length := by
    rcases h.distinct with hone | hnodup
    · have hlength : (s.members id).length = 1 := by omega
      rw [hlength, Nat.mod_one, Nat.mod_one]
    · have hk' : k = k' :=
        (getElem?_inj hk (Broker.nodup_listing hnodup)).mp (hget.trans hget'.symm)
      rw [hk']
  rw [hsame, hr] at hj
  exact (some.inj hj).symm

theorem Dealt.frame (h : Dealt s id names) (hmembers : s'.members id = s.members id)
    (hkeeps : s.broker.Keeps s'.broker)
    (htopics : ∀ r ∈ s.members id, topicsOf s'.runners r = topicsOf s.runners r)
    (hassigned : ∀ r ∈ s.members id, assignmentOf s'.runners r = assignmentOf s.runners r) :
    Dealt s' id names := by
  refine ⟨?_, by rw [hmembers]; exact h.distinct, ?_, ?_⟩
  · intro r hr
    rw [hmembers] at hr
    rw [htopics r hr, h.alike r hr]
  · intro r hr name hname
    rw [hmembers] at hr
    have hpos := h.wide r hr name hname
    rw [hkeeps.width name hpos]
    exact hpos
  · intro i r hr
    rw [hmembers] at hr ⊢
    have hmem := mem_of_getElem? hr
    rw [hassigned r hmem, h.assigned i r hr, Broker.listing_of_keeps hkeeps (h.wide r hmem)]

/-! ## Rebalancing -/

/-- What a rebalance does from the member at place `index` on, to members that subscribe to
    `names`. -/
structure DealtFrom (n index : ℕ) (names : List Text) (members : List ℕ)
    (before after : Broker × List Runner) : Prop where
  keeps : before.1.Keeps after.1
  wide : ∀ r ∈ members, ∀ name ∈ names, 0 < after.1.width name
  assigned : ∀ i r, members[i]? = some r →
    assignmentOf after.2 r = dealt n (index + i) (after.1.listing names)
  others : ∀ r, r ∉ members → after.2[r]? = before.2[r]?

theorem rebalanceFrom_dealt {group : Group} {members : List ℕ} {index : ℕ}
    {runners : List Runner} (hnodup : members.Nodup)
    (hmembers : ∀ r ∈ members, ∃ runner, runners[r]? = some runner ∧
      sorted runner.source.topics = names)
    (hmake : ∀ r ∈ members, ∀ name ∈ names, broker.Makeable name) :
    DealtFrom group.members.length index names members (broker, runners)
      (rebalanceFrom group index members broker runners) := by
  induction members generalizing index broker runners with
  | nil => exact ⟨.refl _, nofun, nofun, fun _ _ => rfl⟩
  | cons member members ih =>
    obtain ⟨hnot, hnodup⟩ := nodup_cons.mp hnodup
    obtain ⟨runner, hrunner, hnames⟩ := hmembers member mem_cons_self
    obtain ⟨broker₁, hpartitions, hkeeps₁, hpos₁⟩ :=
      Broker.partitionsOf_eq_some (hmake member mem_cons_self)
    have hlt := lt_of_getElem? hrunner
    have hfor : broker.partitionsFor runner.source.topics =
        some (broker₁.listing names, broker₁) := by
      rw [Broker.partitionsFor]
      exact hnames.symm ▸ hpartitions
    rw [rebalanceFrom, hrunner]
    dsimp only
    rw [hfor]
    dsimp only
    -- the member is no other, so the rest of the loop leaves it as it is
    generalize hset : runners.set member { runner with
      source := runner.source.applyAssignment (((broker₁.listing names).zipIdx.filter fun entry =>
        entry.2 % group.members.length = index).map Prod.fst) group } = runners₁
    have hrest : DealtFrom group.members.length (index + 1) names members (broker₁, runners₁)
        (rebalanceFrom group (index + 1) members broker₁ runners₁) := by
      refine ih hnodup ?_ fun r hr name hname =>
        (hmake r (mem_cons_of_mem _ hr) name hname).mono hkeeps₁
      intro r hr
      have hne : member ≠ r := fun heq => hnot (heq ▸ hr)
      rw [← hset, getElem?_set_ne hne]
      exact hmembers r (mem_cons_of_mem _ hr)
    have hlisting := Broker.listing_of_keeps hrest.keeps hpos₁
    refine ⟨hkeeps₁.trans hrest.keeps, ?_, ?_, ?_⟩
    · intro r _ name hname
      rw [hrest.keeps.width name (hpos₁ name hname)]
      exact hpos₁ name hname
    · intro i r hr
      cases i with
      | zero =>
        obtain rfl : member = r := some.inj hr
        rw [assignmentOf, hrest.others member hnot, hlisting, ← hset, getElem?_set_self hlt]
        rfl
      | succ i =>
        rw [hrest.assigned i r hr, Nat.add_right_comm]
        rfl
    · intro r hr
      have hne : member ≠ r := fun heq => hr (heq ▸ mem_cons_self)
      rw [hrest.others r fun hmem => hr (mem_cons_of_mem _ hmem), ← hset]
      exact getElem?_set_ne hne

theorem topicsOf_frame {runners runners' : List Runner}
    (hframe : runners'.map Runner.frame = runners.map Runner.frame) (r : ℕ) :
    topicsOf runners' r = topicsOf runners r := by
  have hmap : ∀ l : List Runner, topicsOf l r =
      (((l.map Runner.frame)[r]?).map fun runner => runner.source.topics).getD [] := by
    intro l
    rw [topicsOf, getElem?_map, Option.map_map]
    rfl
  rw [hmap, hframe, ← hmap]

theorem members_rebalance (s : Sys) (id id' : Text) :
    (s.rebalance id).members id' = s.members id' := by
  have hbalanced := rebalance_rebalanced s id
  show (Broker.group _ id').members = _
  rw [Broker.group]
  exact congrArg (fun groups : Dict Text Group => ((groups.get id').getD {}).members)
    hbalanced.groups

theorem Kept.members_of_rebalance (h : Kept (s.rebalance id)) (id' : Text) :
    (s.members id').Nodup ∧ Members id' (s.members id') s.runners := by
  have hbalanced := rebalance_rebalanced s id
  constructor
  · rw [← members_rebalance s id id']
    exact h.nodup id'
  · have hmembers : Members id' ((s.rebalance id).members id') (s.rebalance id).runners :=
      h.members id'
    rw [members_rebalance] at hmembers
    exact hmembers.of_frame hbalanced.frame.symm

theorem rebalance_dealt (h : Kept (s.rebalance id)) :
    (∀ r ∈ s.members id, sorted (topicsOf s.runners r) = names) →
    (∀ r ∈ s.members id, ∀ name ∈ names, s.broker.Makeable name) →
      DealtFrom (s.members id).length 0 names (s.members id) (s.broker, s.runners)
        ((s.rebalance id).broker, (s.rebalance id).runners) := by
  intro halike hmake
  obtain ⟨hnodup, hmembers⟩ := h.members_of_rebalance id
  refine rebalanceFrom_dealt hnodup ?_ hmake
  intro r hr
  obtain ⟨runner, hrunner, -⟩ := hmembers r hr
  refine ⟨runner, hrunner, ?_⟩
  rw [← halike r hr, topicsOf, hrunner]
  rfl

theorem Dealt.of_rebalance (h : Kept (s.rebalance id))
    (halike : ∀ r ∈ s.members id, sorted (topicsOf s.runners r) = names)
    (hdistinct : (s.members id).length ≤ 1 ∨ names.Nodup)
    (hmake : ∀ r ∈ s.members id, ∀ name ∈ names, s.broker.Makeable name) :
    Dealt (s.rebalance id) id names := by
  have hdealt := rebalance_dealt h halike hmake
  have hbalanced := rebalance_rebalanced s id
  have hmembers := members_rebalance s id id
  refine ⟨?_, by rw [hmembers]; exact hdistinct, ?_, ?_⟩
  · intro r hr
    rw [hmembers] at hr
    rw [← halike r hr]
    exact congrArg sorted (topicsOf_frame hbalanced.frame r)
  · intro r hr
    rw [hmembers] at hr
    exact hdealt.wide r hr
  · intro i r hr
    rw [hmembers] at hr ⊢
    rw [hdealt.assigned i r hr, Nat.zero_add]

theorem Dealt.rebalance_other {id' : Text} {names' : List Text} (h : Dealt s id' names')
    (hne : id' ≠ id) (hkept : Kept (s.rebalance id))
    (hdealt : DealtFrom (s.members id).length 0 names (s.members id) (s.broker, s.runners)
      ((s.rebalance id).broker, (s.rebalance id).runners)) :
    Dealt (s.rebalance id) id' names' := by
  have hbalanced := rebalance_rebalanced s id
  refine h.frame (members_rebalance s id id') hdealt.keeps
    (fun r _ => topicsOf_frame hbalanced.frame r) ?_
  intro r hr
  have hnot : r ∉ s.members id := by
    intro hmem
    obtain ⟨runner, hrunner, hid, -⟩ := (hkept.members_of_rebalance id).2 r hmem
    obtain ⟨runner', hrunner', hid', -⟩ := (hkept.members_of_rebalance id').2 r hr
    obtain rfl : runner = runner' := some.inj (hrunner.symm.trans hrunner')
    exact hne (hid'.symm.trans hid)
  have hsame : (s.rebalance id).runners[r]? = s.runners[r]? := hdealt.others r hnot
  rw [assignmentOf, hsame, assignmentOf]

/-! ## Joining and leaving -/

/-- A source that may join: its topics are there or can be made, and if its group has members it
    names no topic twice and subscribes to what they do. -/
def Sys.Alike (s : Sys) (runner : Runner) : Prop :=
  (∀ name ∈ runner.source.topics, s.broker.Makeable name) ∧
    (s.members runner.source.groupId = [] ∨ runner.source.topics.Nodup ∧
      ∀ r ∈ s.members runner.source.groupId,
        (topicsOf s.runners r).Perm runner.source.topics)

instance (s : Sys) (runner : Runner) : Decidable (s.Alike runner) :=
  inferInstanceAs (Decidable (_ ∧ _))

/-- Whoever joins a group is like its members. -/
def JoinsAlike (s : Sys) : Action → Prop
  | .start r => ∀ runner ∈ s.runners[r]?, runner.source.started = false → s.Alike runner
  | _ => True

def AllDealt (s : Sys) : Prop := ∀ id, ∃ names, Dealt s id names

theorem topicsOf_set (hrunner : s.runners[r]? = some runner)
    (htopics : runner'.source.topics = runner.source.topics) (m : ℕ) :
    topicsOf (s.runners.set r runner') m = topicsOf s.runners m := by
  rw [topicsOf, map_getElem?_set (f := fun runner => runner.source.topics) hrunner htopics m,
    topicsOf]

theorem assignmentOf_set (hrunner : s.runners[r]? = some runner)
    (hassignment : runner'.source.assignment = runner.source.assignment) (m : ℕ) :
    assignmentOf (s.runners.set r runner') m = assignmentOf s.runners m := by
  rw [assignmentOf,
    map_getElem?_set (f := fun runner => runner.source.assignment) hrunner hassignment m,
    assignmentOf]

theorem members_setGroup (broker : Broker) (group : Group) (id' : Text) :
    ((broker.setGroup id group).group id').members =
      if id' = id then group.members else (broker.group id').members := by
  rw [group_setGroup]
  split <;> rfl

section

variable (h : AllDealt s)

include h

/-- A group changes its members and is rebalanced; nobody else's members or shares change. -/
theorem AllDealt.regroup {s₁ : Sys} (names : List Text) (hkept : Kept (s₁.rebalance id))
    (hkeeps : s.broker.Keeps s₁.broker)
    (htopics : ∀ m, topicsOf s₁.runners m = topicsOf s.runners m)
    (hothers : ∀ id', id' ≠ id → s₁.members id' = s.members id' ∧
      ∀ m ∈ s.members id', assignmentOf s₁.runners m = assignmentOf s.runners m)
    (hnames : ∀ m ∈ s₁.members id, sorted (topicsOf s.runners m) = names)
    (hdistinct : (s₁.members id).length ≤ 1 ∨ names.Nodup)
    (hmake : ∀ m ∈ s₁.members id, ∀ name ∈ names, s.broker.Makeable name) :
    AllDealt (s₁.rebalance id) := by
  have hnames₁ : ∀ m ∈ s₁.members id, sorted (topicsOf s₁.runners m) = names := by
    intro m hm
    rw [htopics, hnames m hm]
  have hmake₁ : ∀ m ∈ s₁.members id, ∀ name ∈ names, s₁.broker.Makeable name :=
    fun m hm name hname => (hmake m hm name hname).mono hkeeps
  intro id'
  by_cases hid : id' = id
  · subst hid
    exact ⟨names, .of_rebalance hkept hnames₁ hdistinct hmake₁⟩
  · obtain ⟨names', hdealt⟩ := h id'
    obtain ⟨hmembers, hassigned⟩ := hothers id' hid
    have hframed := hdealt.frame hmembers hkeeps (fun m _ => htopics m) hassigned
    exact ⟨names', hframed.rebalance_other hid hkept (rebalance_dealt hkept hnames₁ hmake₁)⟩

theorem AllDealt.join (hkept : Kept s) (hrunner : s.runners[r]? = some runner)
    (hunstarted : runner.source.started = false) (halike : s.Alike runner) :
    AllDealt (s.join r runner) := by
  have hjoined := hkept.join hrunner
  obtain ⟨hmake, halike⟩ := halike
  have hnot : r ∉ (s.broker.group runner.source.groupId).members := by
    intro hmem
    obtain ⟨member, hget, -, hstarted⟩ := hkept.members _ r hmem
    obtain rfl : runner = member := some.inj (hrunner.symm.trans hget)
    rw [hunstarted] at hstarted
    cases hstarted
  unfold Sys.join at hjoined ⊢
  dsimp only at hjoined ⊢
  rw [if_neg hnot] at hjoined ⊢
  -- the list that all shares are cut from is that of the one that joins
  refine h.regroup (sorted runner.source.topics) hjoined (.setGroup _ _ _)
    (topicsOf_set hrunner (by rfl)) ?_ ?_ ?_ ?_
  · intro id hid
    refine ⟨?_, fun m _ => assignmentOf_set hrunner (by rfl) m⟩
    rw [Sys.members, members_setGroup, if_neg hid, Sys.members]
  · intro m hm
    rw [Sys.members, members_setGroup, if_pos rfl] at hm
    rcases mem_snoc.mp hm with hm | rfl
    · rcases halike with hempty | ⟨-, hperm⟩
      · rw [Sys.members] at hempty
        rw [hempty] at hm
        cases hm
      · exact sorted_of_perm (hperm m hm)
    · rw [topicsOf, hrunner]
      rfl
  · rw [Sys.members, members_setGroup, if_pos rfl]
    rcases halike with hempty | ⟨hnodup, -⟩
    · rw [Sys.members] at hempty
      exact .inl (by rw [hempty]; exact Nat.le_refl 1)
    · exact .inr ((perm_insertionSort _ _).nodup_iff.mpr hnodup)
  · exact fun m _ name hname => hmake name ((mem_insertionSort _).mp hname)

theorem AllDealt.leave (hkept : Kept s) (hrunner : s.runners[r]? = some runner)
    (hsource : runner'.source = runner.source) (hleft : Kept (s.leave r runner')) :
    AllDealt (s.leave r runner') := by
  obtain ⟨names, hdealt⟩ := h runner'.source.groupId
  have hsub := (s.members runner'.source.groupId).erase_sublist (a := r)
  refine h.regroup names hleft (.setGroup _ _ _)
    (topicsOf_set hrunner (by rw [← hsource]; rfl)) ?_ ?_ ?_ ?_
  · intro id hid
    refine ⟨?_, fun m hm => ?_⟩
    · rw [Sys.members, members_setGroup, if_neg hid, Sys.members]
    -- the one that leaves is of another group
    have hne : r ≠ m := by
      rintro rfl
      obtain ⟨member, hget, hmember, -⟩ := hkept.members id r hm
      obtain rfl : runner = member := some.inj (hrunner.symm.trans hget)
      exact hid (hmember.symm.trans (by rw [hsource]))
    rw [assignmentOf, getElem?_set_ne hne, assignmentOf]
  all_goals rw [Sys.members, members_setGroup, if_pos rfl]
  · exact fun m hm => hdealt.alike m (hsub.subset hm)
  · exact hdealt.distinct.imp_left hsub.length_le.trans
  · exact fun m hm name hname => .inl (hdealt.wide m (hsub.subset hm) name hname)

/-! ## Steps and runs -/

theorem AllDealt.setBroker (hmembers : ∀ id, (broker.group id).members = s.members id)
    (hkeeps : s.broker.Keeps broker) : AllDealt { s with broker } := by
  intro id
  obtain ⟨names, hdealt⟩ := h id
  exact ⟨names, hdealt.frame (hmembers id) hkeeps (fun _ _ => rfl) fun _ _ => rfl⟩

theorem AllDealt.setRunner (hrunner : s.runners[r]? = some runner)
    (htopics : runner'.source.topics = runner.source.topics)
    (hassignment : runner'.source.assignment = runner.source.assignment) {handled : List Delivery} :
    AllDealt { s with runners := s.runners.set r runner', handled } := by
  intro id
  obtain ⟨names, hdealt⟩ := h id
  exact ⟨names, hdealt.frame rfl (.refl _) (fun m _ => topicsOf_set hrunner htopics m)
    fun m _ => assignmentOf_set hrunner hassignment m⟩

theorem AllDealt.newRunner (hkept : Kept s) (runner : Runner) :
    AllDealt { s with runners := s.runners ++ [runner] } := by
  intro id
  obtain ⟨names, hdealt⟩ := h id
  have hold : ∀ m ∈ s.members id, (s.runners ++ [runner])[m]? = s.runners[m]? := by
    intro m hm
    obtain ⟨member, hget, -⟩ := hkept.members id m hm
    exact getElem?_append_left (lt_of_getElem? hget)
  refine ⟨names, hdealt.frame rfl (.refl _) ?_ ?_⟩
  · intro m hm
    rw [topicsOf, hold m hm, topicsOf]
  · intro m hm
    rw [assignmentOf, hold m hm, assignmentOf]

end

theorem members_of_groups (h : broker.groups = s.broker.groups) (id : Text) :
    (broker.group id).members = s.members id := by
  rw [Broker.group, h, Sys.members, Broker.group]

theorem AllDealt.commit (h : AllDealt s) (source : Source) (offsets : List (Partition × ℤ)) :
    AllDealt { s with broker := (source.commit s.broker offsets).1 } := by
  unfold Source.commit
  split
  · exact h
  split
  · exact h
  refine h.setBroker ?_ (.setGroup _ _ _)
  intro id
  rw [members_setGroup]
  split
  · rw [‹id = source.groupId›]
    rfl
  · rfl

theorem step_allDealt {a : Action} (h : AllDealt s) (hkept : Kept s) (halike : JoinsAlike s a)
    (hstep : step s a = some s') : AllDealt s' := by
  have hnext := step_kept hkept hstep
  cases step_move hstep with
  | createTopic hbroker =>
    have hgrown := Broker.grown_createTopic hbroker
    exact h.setBroker (members_of_groups hgrown.groups) hgrown.keeps
  | publishers =>
    intro id
    obtain ⟨names, hdealt⟩ := h id
    exact ⟨names, hdealt.frame rfl (.refl _) (fun _ _ => rfl) fun _ _ => rfl⟩
  | publish p out =>
    have hgrown := s.broker.grown_publish out
    exact h.setBroker (members_of_groups hgrown.groups) hgrown.keeps
  | newRunner => exact h.newRunner hkept _
  | started => exact h
  | @join _ runner hrunner hunstarted =>
    -- the guard is for this step: who joins subscribes to what the members do
    exact h.join hkept hrunner hunstarted (halike runner hrunner hunstarted)
  | leave hrunner hrested => exact h.leave hkept hrunner hrested.source hnext
  | rest hrunner hrested =>
    exact h.setRunner hrunner (congrArg Source.topics hrested.source)
      (congrArg Source.assignment hrested.source)
  | @poll _ runner hrunner =>
    obtain ⟨positions, hsource⟩ := source_poll runner s.broker
    exact h.setRunner hrunner (by rw [hsource]) (by rw [hsource])
  | handle hrunner _ outcome =>
    refine h.setRunner hrunner ?_ ?_
    · cases outcome <;> rfl
    · cases outcome <;> rfl
  | @seek _ runner batch record _ hrunner =>
    obtain ⟨positions, hsource⟩ := source_seekBack runner batch record
    exact h.setRunner hrunner (by rw [hsource]) (by rw [hsource])
  | @commit _ _ _ broker hrunner _ hbroker =>
    have hcommitted : AllDealt { s with broker } := by
      rcases hbroker with rfl | rfl
      · exact h
      · exact h.commit _ _
    exact AllDealt.setRunner hcommitted hrunner (by rfl) (by rfl)
  | cancel hrunner => exact h.setRunner hrunner (by rfl) (by rfl)

end

theorem allDealt_fresh (defaultPartitions : ℕ) : AllDealt (Sys.fresh defaultPartitions) :=
  fun _ => ⟨[], nofun, .inr nodup_nil, nofun, nofun⟩

/-- Along every run in which members of a group are alike, what a group subscribes to is divided
    between its members. -/
theorem assignment_partitions {defaultPartitions : ℕ} {s : Sys}
    (hrun : Run step JoinsAlike (Sys.fresh defaultPartitions) s) (id : Text) :
    Partitioned s id := by
  have hdealt := hrun.invariant_with (fun hkept _ => step_kept hkept)
    (fun hkept hdealt => step_allDealt hdealt hkept) (kept_fresh defaultPartitions)
    (allDealt_fresh defaultPartitions)
  obtain ⟨names, hdealt⟩ := hdealt id
  exact hdealt.partitioned

instance (s : Sys) (a : Action) : Decidable (JoinsAlike s a) :=
  match a with
  | .start r => inferInstanceAs (Decidable (∀ runner ∈ s.runners[r]?, _))
  | .createTopic _ _ | .newPublisher | .startPublisher _ | .stopPublisher _ | .publish _ _
  | .newRunner _ _ _ | .stop _ | .poll _ | .handle _ _ _ | .seek _ | .commit _ | .cancel _ =>
    inferInstanceAs (Decidable True)

/-- Two members name the same two topics, in either order. -/
theorem assignment_partitions_two_members : ∃ s,
    Run step JoinsAlike (Sys.fresh 2) s ∧ s.members (lit "billing") = [0, 1] ∧
      topicsOf s.runners 0 = [lit "orders", lit "refunds"] ∧
      topicsOf s.runners 1 = [lit "refunds", lit "orders"] ∧ Partitioned s (lit "billing") := by
  refine Run.exists_of_replay_and₃ [.newRunner {} [lit "orders", lit "refunds"] (lit "billing"),
    .newRunner {} [lit "refunds", lit "orders"] (lit "billing"), .start 0, .start 1] ?_
    fun hrun _ _ _ => assignment_partitions hrun _
  decide +kernel

/-- Two members with a topic each: the second's only partition is at position 0 of its list, which
    is the first member's turn. -/
theorem assignment_leaves_a_gap : ∃ s, Run step Always (Sys.fresh 1) s ∧
    s.members (lit "billing") = [0, 1] ∧ ¬ Partitioned s (lit "billing") := by
  have hrun := Along.get_replay step Always (Sys.fresh 1)
    [.newRunner {} [lit "orders"] (lit "billing"), .newRunner {} [lit "refunds"] (lit "billing"),
      .start 0, .start 1] (by decide +kernel)
  refine ⟨_, hrun.run, by decide +kernel, fun hpartitioned => ?_⟩
  obtain ⟨r, hr, hassigned, -⟩ := hpartitioned ⟨lit "refunds", 0⟩ (by decide +kernel)
    ⟨1, by decide +kernel, by decide +kernel⟩
  revert r
  decide +kernel

end Kafka
