import FastapiBoilerplate.Lib.Ledger
import FastapiBoilerplate.RedisStreams.Consumer

/-!
# No entry of a stream is lost

The runners of one group, the producers and whoever deletes or trims entries take any number of
steps in any order. Every entry appended after the group was created is then ahead of the group's
cursor, pending, acknowledged for a reason, or out of the stream; and the group reads the entries
in the order of their ids, so no entry is read twice (`reader_unique`).

What the server holds for the group is a `Ledger` of the library (`ledger`), and each operation is
a sequence of its moves: a read delivers one entry after the other, an append trims after it
appended, a claim writes off the rows whose entries have gone, an acknowledgement settles. What is
left to prove about the runners is that an id comes to `acked` with a reason (`Reason`), and that
they have the fields of the entry in hand when they copy it.
-/

namespace RedisStreams

open Lib Ledger List Option

/-! ## Reasons -/

/-- `copy` is what `_dead_letter` makes of the entry. -/
def CopyOf (stream : Text) (id : StreamEntryId) (fields copy : Fields) : Prop :=
  ∃ (group : InMemoryStreamGroup) (message : StreamMessage), message.stream = stream ∧
    message.id = id ∧ message.fields = fields ∧ deadLetterFields group message = some copy

/-- What has to have happened before an entry is acknowledged. -/
inductive Cause (stream : Text) (id : StreamEntryId) (log : List Event) : Event → Prop
  | handled : Cause stream id log (.returned id)
  | deadLettered {suffix : Text} {copyId : StreamEntryId} {fields copy : Fields}
      (entry : .appended stream id fields ∈ log) (copied : CopyOf stream id fields copy)
      (suffix_ne : suffix ≠ []) : Cause stream id log (.appended (stream ++ suffix) copyId copy)

def Reason (stream : Text) (log : List Event) (id : StreamEntryId) : Prop :=
  ∃ cause ∈ log, Cause stream id log cause

/-- Acknowledged, and for a reason. -/
def Settled (stream : Text) (log : List Event) : Set StreamEntryId :=
  { id | ∃ cause, Cause stream id log cause ∧ [cause, .acked id].Sublist log }

section
variable {stream : Text} {log : List Event} {id : StreamEntryId}

theorem Cause.mono {cause : Event} (h : Cause stream id log cause) (events : List Event) :
    Cause stream id (log ++ events) cause := by
  cases h with
  | handled => exact .handled
  | deadLettered entry copied suffix_ne =>
    exact .deadLettered (mem_append_left _ entry) copied suffix_ne

theorem Reason.mono (h : Reason stream log id) (events : List Event) :
    Reason stream (log ++ events) id := by
  obtain ⟨cause, hmem, hcause⟩ := h
  exact ⟨cause, mem_append_left _ hmem, hcause.mono events⟩

theorem settled_mono (events : List Event) : Settled stream log ⊆ Settled stream (log ++ events) := by
  rintro id ⟨cause, hcause, hbefore⟩
  exact ⟨cause, hcause.mono events, hbefore.trans (sublist_append_left _ _)⟩

theorem Reason.settled {events : List Event} (h : Reason stream log id)
    (hacked : .acked id ∈ events) : id ∈ Settled stream (log ++ events) := by
  obtain ⟨cause, hmem, hcause⟩ := h
  exact ⟨cause, hcause.mono events, pair_sublist_append.mpr (.inr (.inl ⟨hmem, hacked⟩))⟩

end

/-! ## The ledger of a group -/

/-- What the group `g` of the stream and the log say about its entries. -/
def ledger (stream : Text) (st : Stream) (g : Option Group) (log : List Event) :
    Ledger StreamEntryId where
  kept := { id | ∃ fields, st.entries.get id = some fields }
  top := st.lastId
  cursor := g.map Group.lastDelivered
  owed := { id | ∃ g', g = some g' ∧ ∃ row, g'.pending.get id = some row }
  born := { id | ∃ fields, [.created, .appended stream id fields].Sublist log }
  gone := { id | .removed stream id ∈ log }

/-- The events that the ledger of a stream is made from. -/
def Event.Shapes (stream : Text) : Event → Prop
  | .created => True
  | .appended name _ _ | .removed name _ => name = stream
  | .read _ _ | .claimed _ _ _ | .invoked _ _ | .returned _ | .acked _ => False

variable {out : Group × List StreamMessage} {entries : List PendingEntry} {minIdle : Seconds}
  {fields : Fields}

section
variable {stream : Text} {st : Stream} {og : Option Group} {g : Group} {log events : List Event}
  {id : StreamEntryId}

theorem ledger_append_log (h : ∀ e ∈ events, ¬ e.Shapes stream) :
    ledger stream st og (log ++ events) = ledger stream st og log := by
  have happended : ∀ id fields, .appended stream id fields ∉ events :=
    fun id fields hmem => h _ hmem rfl
  have hremoved : ∀ id, .removed stream id ∉ events := fun id hmem => h _ hmem rfl
  unfold ledger
  congr 1
  · ext id
    refine exists_congr fun fields => ?_
    rw [pair_sublist_append]
    constructor
    · rintro (hpair | ⟨-, hmem⟩ | hpair)
      · exact hpair
      · exact absurd hmem (happended id fields)
      · exact absurd (hpair.subset (by simp)) (happended id fields)
    · exact .inl
  · ext id
    exact ⟨fun hmem => (mem_append.mp hmem).resolve_right (hremoved id),
      fun hmem => mem_append_left _ hmem⟩

variable {fields : Fields}

theorem ledger_add (hcreated : og = none ↔ .created ∉ log) :
    ledger stream (st.add id fields) og (log ++ [.appended stream id fields]) =
      { ledger stream st og log with
        kept := insert id (ledger stream st og log).kept
        top := id
        born := (ledger stream st og log).born ∪
          {j | j = id ∧ (ledger stream st og log).cursor ≠ none} } := by
  unfold ledger
  congr 1
  · ext j
    by_cases hj : j = id <;> simp [Stream.add, Dict.get_set, hj]
  · ext j
    simp [pair_sublist_append, hcreated, exists_or, and_comm]
  · ext j
    simp

theorem ledger_erase :
    ledger stream { st with entries := st.entries.erase id } og (log ++ [.removed stream id]) =
      { ledger stream st og log with
        kept := (ledger stream st og log).kept \ {id}
        gone := insert id (ledger stream st og log).gone } := by
  unfold ledger
  congr 1
  · ext j
    by_cases hj : j = id <;> simp [Dict.get_erase, hj]
  · ext j
    simp [pair_sublist_append]
  · ext j
    simp [or_comm]

variable {consumer : Text} {now : Seconds}

theorem ledger_deliver :
    ledger stream st (some (g.deliver consumer now id)) log =
      { ledger stream st (some g) log with
        cursor := some id
        owed := insert id (ledger stream st (some g) log).owed } := by
  unfold ledger
  congr 1
  ext j
  by_cases hj : j = id <;> simp [Group.deliver, Dict.get_set, hj]

theorem ledger_pop :
    ledger stream st (some { g with pending := g.pending.erase id }) log =
      { ledger stream st (some g) log with
        owed := (ledger stream st (some g) log).owed \ {id} } := by
  unfold ledger
  congr 1
  ext j
  by_cases hj : j = id <;> simp [Dict.get_erase, hj]

theorem ledger_claim {row row' : Pending} (hrow : g.pending.get id = some row) :
    ledger stream st (some { g with pending := g.pending.set id row' }) log =
      ledger stream st (some g) log := by
  unfold ledger
  congr 1
  ext j
  by_cases hj : j = id <;> simp [Dict.get_set, hj, hrow]

/-! ## The operations as moves -/

variable {done : Set StreamEntryId}

theorem moves_removes (ids : List StreamEntryId) (hnodup : ids.Nodup)
    (hthere : ∀ id ∈ ids, ∃ fields, st.entries.get id = some fields) :
    Moves done (ledger stream st og log)
      (ledger stream { st with entries := ids.foldl Dict.erase st.entries } og
        (log ++ ids.map (.removed stream))) := by
  induction ids generalizing st log with
  | nil => simpa using .refl
  | cons id ids ih =>
    rw [nodup_cons] at hnodup
    have hfirst : Move done (ledger stream st og log) _ := .remove id (hthere id mem_cons_self)
    rw [← ledger_erase] at hfirst
    have hkept : ∀ j ∈ ids, ∃ fields, (st.entries.erase id).get j = some fields := by
      intro j hj
      obtain ⟨fields, hfields⟩ := hthere j (mem_cons_of_mem _ hj)
      have hne : j ≠ id := fun e => hnodup.1 (e ▸ hj)
      exact ⟨fields, by rw [Dict.get_erase, if_neg hne, hfields]⟩
    have hrest := @ih { st with entries := st.entries.erase id } (log ++ [.removed stream id])
      hnodup.2 hkept
    rw [append_assoc] at hrest
    exact .head hfirst hrest

theorem moves_append (hcreated : og = none ↔ .created ∉ log) (ids : List StreamEntryId)
    (hnodup : ids.Nodup)
    (hthere : ∀ id ∈ ids, ∃ f, (st.add (st.nextId now) fields).entries.get id = some f) :
    Moves done (ledger stream st og log)
      (ledger stream { st with
        entries := ids.foldl Dict.erase (st.add (st.nextId now) fields).entries
        lastId := st.nextId now } og
        (log ++ .appended stream (st.nextId now) fields :: ids.map (.removed stream))) := by
  have hfirst : Move done (ledger stream st og log) _ := .append (st.nextId now) st.lastId_lt_nextId
  rw [← ledger_add hcreated] at hfirst
  have hrest : Moves done (ledger stream (st.add (st.nextId now) fields) og
      (log ++ [.appended stream (st.nextId now) fields])) _ := moves_removes ids hnodup hthere
  rw [append_assoc] at hrest
  exact .head hfirst hrest

theorem moves_read {count : ℕ} (hread : g.readLoop stream consumer now count st.sorted [] = out) :
    Moves done (ledger stream st (some g) log) (ledger stream st (some out.1) log) := by
  subst hread
  refine Group.readLoop_induction
    (P := fun g' _ => Moves done (ledger stream st (some g) log) (ledger stream st (some g') log))
    st.pairwise_sorted ?_ .refl
  intro g' messages id fields hmem hpast hfirst hmoves
  have hmove : Move done (ledger stream st (some g') log) _ :=
    .deliver g'.lastDelivered id rfl hpast ⟨fields, Stream.mem_sorted.mp hmem⟩
      fun j ⟨fields', hj⟩ hlt => hfirst (j, fields') (Stream.mem_sorted.mpr hj) hlt
  rw [← ledger_deliver] at hmove
  exact hmoves.tail hmove

theorem moves_claim {out : Group × ClaimedMessage}
    (hclaim : g.claimLoop st.entries stream consumer now minIdle entries = out) :
    Moves done (ledger stream st (some g) log) (ledger stream st (some out.1) log) := by
  subst hclaim
  refine Group.claimLoop_induction
    (P := fun g' _ => Moves done (ledger stream st (some g) log) (ledger stream st (some g') log))
    ?_ ?_ entries .refl
  · intro g' messages id hnone hmoves
    have hmove : Move done (ledger stream st (some g') log) _ :=
      .writeOff id fun ⟨fields, hfields⟩ => by simp [hnone] at hfields
    rw [← ledger_pop] at hmove
    exact hmoves.tail hmove
  · intro g' messages id row fields hrow hfields hmoves
    rw [ledger_claim hrow]
    exact hmoves

theorem moves_ack {ids : List StreamEntryId} {out : Group × List StreamEntryId}
    (hpop : g.ackLoop ids = out) (hdone : ∀ id ∈ out.2, id ∈ done) :
    Moves done (ledger stream st (some g) log) (ledger stream st (some out.1) log) := by
  subst hpop
  refine Group.ackLoop_induction
    (Q := fun g' popped => (∀ id ∈ popped, id ∈ done) →
      Moves done (ledger stream st (some g) log) (ledger stream st (some g') log))
    ids ?_ (fun _ => .refl) hdone
  intro g' popped id row hid hrow hmoves hdone
  have hmove : Move done (ledger stream st (some g') log) _ :=
    .settle id (hdone id (mem_append_right _ (mem_singleton_self id)))
  rw [← ledger_pop] at hmove
  exact (hmoves fun j hj => hdone j (mem_append_left _ hj)).tail hmove

end

/-! ## What the log says about the server -/

/-- Entries are logged as they come in, under ids that are never used again. -/
structure Recorded (stream : Text) (st : Stream) (log : List Event) : Prop where
  known : ∀ id fields, st.entries.get id = some fields → .appended stream id fields ∈ log
  below : ∀ id fields, .appended stream id fields ∈ log → id ≤ st.lastId
  once : ∀ id fields fields', .appended stream id fields ∈ log →
    .appended stream id fields' ∈ log → fields = fields'

/-- The ids that were read, in the order of the reads. -/
def readIds (log : List Event) : List StreamEntryId :=
  log.filterMap fun
    | .read _ id => some id
    | _ => none

structure Tally (stream : Text) (st : Stream) (og : Option Group) (log : List Event) : Prop where
  created : og = none ↔ .created ∉ log
  recorded : Recorded stream st log
  covered : Covered (Settled stream log) (ledger stream st og log)
  reads : (readIds log).Pairwise (· < ·)
  reads_le : ∀ id ∈ readIds log, ∃ g, og = some g ∧ id ≤ g.lastDelivered

section
variable {stream : Text} {st : Stream} {og : Option Group} {g : Group} {log events : List Event}

theorem Recorded.append_log {kept : Dict StreamEntryId Fields} (h : Recorded stream st log)
    (hevents : ∀ id fields, .appended stream id fields ∉ events)
    (hkept : ∀ id fields, kept.get id = some fields → st.entries.get id = some fields) :
    Recorded stream { st with entries := kept } (log ++ events) := by
  have hold : ∀ {id fields}, .appended stream id fields ∈ log ++ events →
      .appended stream id fields ∈ log :=
    fun hmem => (mem_append.mp hmem).resolve_right (hevents _ _)
  exact
    { known := fun id fields hget => mem_append_left _ (h.known id fields (hkept id fields hget))
      below := fun id fields hmem => h.below id fields (hold hmem)
      once := fun id fields fields' hmem hmem' => h.once id fields fields' (hold hmem) (hold hmem') }

theorem Recorded.quiet (h : Recorded stream st log) (hevents : ∀ e ∈ events, ¬ e.Shapes stream) :
    Recorded stream st (log ++ events) :=
  h.append_log (fun _ _ hmem => hevents _ hmem rfl) fun _ _ => id

theorem Tally.moves {st' : Stream} {og' : Option Group} (h : Tally stream st og log)
    (hcreated : og' = none ↔ .created ∉ log ++ events) (hrecorded : Recorded stream st' (log ++ events))
    (hmoves : Moves (Settled stream (log ++ events)) (ledger stream st og log)
      (ledger stream st' og' (log ++ events)))
    (hread : readIds events = [])
    (hcursor : ∀ g, og = some g → ∃ g', og' = some g' ∧ g'.lastDelivered = g.lastDelivered) :
    Tally stream st' og' (log ++ events) := by
  have hids : readIds (log ++ events) = readIds log := by
    rw [readIds, filterMap_append]
    exact (congrArg _ hread).trans (append_nil _)
  refine ⟨hcreated, hrecorded, (h.covered.mono (settled_mono events)).moves hmoves,
    hids ▸ h.reads, fun id hid => ?_⟩
  obtain ⟨g, hg, hle⟩ := h.reads_le id (hids ▸ hid)
  obtain ⟨g', hg', heq⟩ := hcursor g hg
  exact ⟨g', hg', heq ▸ hle⟩

theorem Tally.quiet (h : Tally stream st og log) (hevents : ∀ e ∈ events, ¬ e.Shapes stream)
    (hread : readIds events = []) : Tally stream st og (log ++ events) := by
  refine h.moves ?_ (h.recorded.quiet hevents) ?_ hread fun g hg => ⟨g, hg, rfl⟩
  · have hnew : .created ∉ events := fun hmem => hevents _ hmem trivial
    rw [h.created, mem_append, or_iff_left hnew]
  · rw [ledger_append_log hevents]

variable {now : Seconds} {fields : Fields} {ids : List StreamEntryId}

theorem Recorded.append (h : Recorded stream st log) :
    Recorded stream
      { st with
        entries := ids.foldl Dict.erase (st.add (st.nextId now) fields).entries
        lastId := st.nextId now }
      (log ++ .appended stream (st.nextId now) fields :: ids.map (.removed stream)) := by
  have hlt : st.lastId < st.nextId now := st.lastId_lt_nextId
  have hold : ∀ {id f}, .appended stream id f ∈
      log ++ .appended stream (st.nextId now) fields :: ids.map (.removed stream) →
      .appended stream id f ∈ log ∨ id = st.nextId now ∧ f = fields := by
    intro id f hmem
    simpa using hmem
  refine ⟨?_, ?_, ?_⟩
  · intro id f hget
    have hadded := Dict.get_of_get_foldl_erase hget
    rw [Stream.add, Dict.get_set] at hadded
    split at hadded
    · cases hadded
      subst_vars
      simp
    · exact mem_append_left _ (h.known id f hadded)
  · intro id f hmem
    rcases hold hmem with hmem | ⟨rfl, -⟩
    · exact (h.below id f hmem).trans hlt.le
    · exact le_rfl
  · intro id f f' hmem hmem'
    rcases hold hmem with hin | ⟨hid, hf⟩ <;> rcases hold hmem' with hin' | ⟨hid', hf'⟩
    · exact h.once id f f' hin hin'
    · exact absurd (hid' ▸ h.below id f hin) (not_le.mpr hlt)
    · exact absurd (hid ▸ h.below id f' hin') (not_le.mpr hlt)
    · exact hf.trans hf'.symm

theorem Tally.append (h : Tally stream st og log) (hnodup : ids.Nodup)
    (hthere : ∀ id ∈ ids, ∃ f, (st.add (st.nextId now) fields).entries.get id = some f) :
    Tally stream
      { st with
        entries := ids.foldl Dict.erase (st.add (st.nextId now) fields).entries
        lastId := st.nextId now } og
      (log ++ .appended stream (st.nextId now) fields :: ids.map (.removed stream)) := by
  refine h.moves ?_ h.recorded.append (moves_append h.created ids hnodup hthere) ?_
    fun g hg => ⟨g, hg, rfl⟩
  · rw [h.created]
    simp
  · simp [readIds]

theorem Tally.delete {id : StreamEntryId} (h : Tally stream st og log)
    (hthere : st.entries.get id = some fields) :
    Tally stream { st with entries := st.entries.erase id } og (log ++ [.removed stream id]) := by
  refine h.moves ?_ (h.recorded.append_log (by simp) fun _ _ => Dict.get_of_get_erase) ?_ rfl
    fun g hg => ⟨g, hg, rfl⟩
  · rw [h.created]
    simp
  · rw [ledger_erase]
    exact .single (.remove id ⟨fields, hthere⟩)

theorem Tally.create (h : Tally stream st none log) :
    Tally stream st (some ⟨st.lastId, ∅⟩) (log ++ [.created]) := by
  have hnew : .created ∉ log := h.created.mp rfl
  refine h.moves (by simp) (h.recorded.append_log (by simp) fun _ _ => id) (.single ?_) rfl nofun
  have hstart : Move (Settled stream (log ++ [.created])) (ledger stream st none log) _ :=
    .start rfl
  convert hstart using 1
  unfold ledger
  congr 1
  · ext id
    simp [Dict.get_empty]
  · ext id
    have hfresh : ∀ fields, ¬ [.created, .appended stream id fields].Sublist log :=
      fun fields hpair => hnew (hpair.subset (by simp))
    simp [pair_sublist_append, hfresh]
  · ext id
    simp

variable {consumer : Text}

section

variable (h : Tally stream st (some g) log)

include h

theorem Tally.read {count : ℕ} (hread : g.readLoop stream consumer now count st.sorted [] = out) :
    Tally stream st (some out.1) (log ++ out.2.map fun m => .read consumer m.id) := by
  have hevents : ∀ e ∈ out.2.map (fun m => Event.read consumer m.id), ¬ e.Shapes stream := by
    simp [Event.Shapes]
  have hids : readIds (log ++ out.2.map fun m => .read consumer m.id) =
      readIds log ++ out.2.map StreamMessage.id := by
    rw [readIds, filterMap_append]
    congr 1
    simp [filterMap_map]
  have horder : (readIds log ++ out.2.map StreamMessage.id).Pairwise (· < ·) ∧
      ∀ id ∈ readIds log ++ out.2.map StreamMessage.id, id ≤ out.1.lastDelivered := by
    subst hread
    refine Group.readLoop_induction (P := fun g' messages =>
      (readIds log ++ messages.map StreamMessage.id).Pairwise (· < ·) ∧
        ∀ id ∈ readIds log ++ messages.map StreamMessage.id, id ≤ g'.lastDelivered)
      st.pairwise_sorted ?_ ?_
    · intro g' messages id fields _ hpast _ horder
      have hbelow : ∀ i ∈ readIds log ++ messages.map StreamMessage.id, i < id :=
        fun i hi => (horder.2 i hi).trans_lt hpast
      rw [map_append, ← append_assoc]
      exact ⟨pairwise_snoc horder.1 hbelow, forall_mem_snoc (fun i hi => (hbelow i hi).le) le_rfl⟩
    · simp only [map_nil, append_nil]
      refine ⟨h.reads, fun id hid => ?_⟩
      obtain ⟨g', hg', hle⟩ := h.reads_le id hid
      cases hg'
      exact hle
  refine ⟨?_, h.recorded.quiet hevents, ?_, ?_, ?_⟩
  · have hcreated := h.created
    simpa using hcreated
  · rw [ledger_append_log hevents]
    exact (h.covered.mono (settled_mono _)).moves (moves_read hread)
  · rw [hids]
    exact horder.1
  · rw [hids]
    exact fun id hid => ⟨out.1, rfl, horder.2 id hid⟩

theorem Tally.turn {g' : Group} (hevents : ∀ e ∈ events, ¬ e.Shapes stream)
    (hmoves : Moves (Settled stream (log ++ events)) (ledger stream st (some g) log)
      (ledger stream st (some g') log))
    (hread : readIds events = []) (hcursor : g'.lastDelivered = g.lastDelivered) :
    Tally stream st (some g') (log ++ events) := by
  have hcreated : .created ∉ events := fun hmem => hevents _ hmem trivial
  refine h.moves ?_ (h.recorded.quiet hevents) ?_ hread ?_
  · simpa [hcreated] using h.created
  · rwa [ledger_append_log hevents]
  · rintro _ ⟨⟩
    exact ⟨g', rfl, hcursor⟩

theorem Tally.claim {out : Group × ClaimedMessage}
    (hclaim : g.claimLoop st.entries stream consumer now minIdle entries = out) :
    Tally stream st (some out.1)
      (log ++ out.2.messages.map fun m => .claimed consumer m.id m.deliveryCount) := by
  refine h.turn (by simp [Event.Shapes]) (moves_claim hclaim) (by simp [readIds]) ?_
  exact hclaim ▸ Group.lastDelivered_claimLoop entries

theorem Tally.ack {out : Group × List StreamEntryId} (hpop : g.ackLoop ids = out)
    (hreason : ∀ id ∈ ids, Reason stream log id) :
    Tally stream st (some out.1) (log ++ out.2.map .acked) := by
  have hsub : ∀ id ∈ out.2, id ∈ ids := by
    subst hpop
    refine Group.ackLoop_induction (Q := fun _ popped => ∀ id ∈ popped, id ∈ ids) ids ?_
      (nofun)
    exact fun g' popped id row hid _ hpopped => forall_mem_snoc hpopped hid
  refine h.turn (by simp [Event.Shapes]) (moves_ack hpop fun id hid => ?_) (by simp [readIds]) ?_
  · exact (hreason id (hsub id hid)).settled (mem_map_of_mem hid)
  · exact hpop ▸ Group.lastDelivered_ackLoop ids

end

end

/-! ## The runs -/

/-- The fields a runner has in hand are those of the entry. -/
def Known (stream : Text) (log : List Event) (m : StreamMessage) : Prop :=
  m.stream = stream ∧ .appended stream m.id m.fields ∈ log

structure Kept (stream group : Text) (s : Sys) : Prop where
  names : ∀ r ∈ s.runners, r.group.stream = stream ∧ r.group.group = group
  tally : Tally stream (s.server.streamFor stream) (s.server.groupFor stream group) s.log
  known : ∀ r ∈ s.runners, ∀ m ∈ r.phase.inHand, Known stream s.log m
  reasons : ∀ r ∈ s.runners, ∀ id ∈ r.phase.acked, Reason stream s.log id

section
variable {stream group : Text} {server server' : Server} {now : Seconds} {log : List Event}

variable {name : Text} {id : StreamEntryId} {r' : Runner}

section

variable (h : Tally stream (server.streamFor stream) (server.groupFor stream group) log)

include h

theorem Tally.publish {maxlen : ℕ}
    (happend : server.append now name fields maxlen = .ok (server', id)) :
    Tally stream (server'.streamFor stream) (server'.groupFor stream group)
      (log ++ appendEvents server now name fields maxlen) := by
  obtain rfl := server.append_eq_ok name happend
  by_cases hname : stream = name
  · subst hname
    rw [Server.groupFor, Server.streamFor_put_self]
    exact h.append (server.overflow_nodup stream) fun id hid => server.get_of_mem_overflow stream hid
  · rw [Server.streamFor_put_of_ne _ _ _ hname, Server.groupFor_put_of_ne _ _ _ hname]
    have hne : ¬ name = stream := fun e => hname e.symm
    refine h.quiet ?_ ?_
    · simp [appendEvents, Event.Shapes, hne]
    · simp [appendEvents, readIds]

theorem Tally.unpublish :
    Tally stream ((server.delete name id).1.streamFor stream)
      ((server.delete name id).1.groupFor stream group)
      (log ++ if (server.delete name id).2 = 1 then [.removed name id] else []) := by
  unfold Server.delete
  dsimp only
  by_cases hname : stream = name
  · subst hname
    rw [Server.groupFor] at h
    rw [Server.groupFor, Server.streamFor_put_self]
    rcases eq_none_or_eq_some ((server.streamFor stream).entries.get id) with
      hnone | ⟨fields, hthere⟩
    · simpa [hnone, Dict.erase_of_get_eq_none hnone] using h
    · simpa [hthere] using h.delete hthere
  · rw [Server.streamFor_put_of_ne _ _ _ hname, Server.groupFor_put_of_ne _ _ _ hname]
    have hne : ¬ name = stream := fun e => hname e.symm
    refine h.quiet ?_ ?_
    · split <;> simp [Event.Shapes, hne]
    · split <;> rfl

end

theorem Tally.setGroup {g : Group} (h : Tally stream (server.streamFor stream) (some g) log) :
    Tally stream ((server.setGroup stream group g).streamFor stream)
      ((server.setGroup stream group g).groupFor stream group) log := by
  rw [Server.groupFor_setGroup, Server.streamFor_setGroup]
  exact ⟨h.created, ⟨h.recorded.known, h.recorded.below, h.recorded.once⟩, h.covered, h.reads,
    h.reads_le⟩

variable {r : Runner} {events : List Event}

theorem Tally.effect (h : Tally stream (server.streamFor stream) (server.groupFor stream group) log)
    (hname : r.group.stream = stream ∧ r.group.group = group)
    (hreasons : ∀ id ∈ r.phase.acked, Reason stream log id)
    (heffect : Effect r server now server' r' events) :
    Tally stream (server'.streamFor stream) (server'.groupFor stream group) (log ++ events) := by
  obtain ⟨rfl, rfl⟩ := hname
  cases heffect with
  | rests => simpa using h
  | creates new =>
    rw [new] at h
    exact h.create.setGroup
  | claims entries found claim =>
    rw [found] at h
    exact (h.claim claim).setGroup
  | reads count found read =>
    rw [found] at h
    exact (h.read read).setGroup
  | invokes | returns =>
    exact h.quiet (by simp [Event.Shapes]) rfl
  | copies message mem copy append => exact h.publish append
  | acks ids found pop mem =>
    rw [found] at h
    exact (h.ack pop fun id hid => hreasons id (mem hid)).setGroup

/-- What the runner has in hand after a turn, and what it will acknowledge. -/
theorem hand_effect (hrecorded : Recorded stream (server.streamFor stream) log)
    (hname : r.group.stream = stream) (hknown : ∀ m ∈ r.phase.inHand, Known stream log m)
    (hreasons : ∀ id ∈ r.phase.acked, Reason stream log id)
    (heffect : Effect r server now server' r' events) :
    (∀ m ∈ r'.phase.inHand, Known stream (log ++ events) m) ∧
      ∀ id ∈ r'.phase.acked, Reason stream (log ++ events) id := by
  subst hname
  have hknown' : ∀ m ∈ r.phase.inHand, Known r.group.stream (log ++ events) m :=
    fun m hm => ⟨(hknown m hm).1, mem_append_left _ (hknown m hm).2⟩
  have hreasons' : ∀ id ∈ r.phase.acked, Reason r.group.stream (log ++ events) id :=
    fun id hid => (hreasons id hid).mono events
  cases heffect with
  | rests inHand uncalled acked =>
    exact ⟨fun m hm => hknown' m (inHand hm), fun id hid => hreasons' id (acked hid)⟩
  | creates new phase =>
    rw [phase]
    exact ⟨hknown', hreasons'⟩
  | claims entries found claim inHand uncalled acked =>
    rw [inHand, acked]
    refine ⟨fun m hm => ?_, nofun⟩
    obtain ⟨hstream, hget⟩ := Group.claimLoop_message (claim ▸ hm)
    exact ⟨hstream, mem_append_left _ (hrecorded.known _ _ hget)⟩
  | reads count found read inHand uncalled acked =>
    rw [inHand, acked]
    refine ⟨fun m hm => ?_, nofun⟩
    rcases mem_append.mp hm with hm | hm
    · exact hknown' m hm
    · obtain ⟨hstream, hget, -⟩ := Group.readLoop_message (read ▸ hm)
      exact ⟨hstream, mem_append_left _ (hrecorded.known _ _ hget)⟩
  | invokes message within inHand uncalled acked =>
    rw [inHand, acked]
    exact ⟨hknown', hreasons'⟩
  | returns message inHand uncalled acked =>
    rw [acked]
    exact ⟨fun m hm => hknown' m (inHand hm),
      forall_mem_snoc hreasons' ⟨.returned message.id, by simp, .handled⟩⟩
  | copies message mem copy append inHand uncalled acked =>
    refine ⟨fun m hm => hknown' m (inHand hm), fun id hid => ?_⟩
    rcases mem_snoc.mp (acked hid) with hid | rfl
    · exact hreasons' id hid
    -- the copy is in the log before the entry is put on the list to acknowledge
    obtain ⟨hstream, hentry⟩ := hknown' message mem
    refine ⟨.appended (r.group.stream ++ r.config.deadLetterSuffix) _ _,
      mem_append_right _ mem_cons_self, ?_⟩
    exact .deadLettered hentry ⟨r.group, message, hstream, rfl, rfl, copy⟩
      r.config.deadLetterSuffix_ne
  | acks ids found pop mem phase =>
    rw [phase]
    exact ⟨nofun, nofun⟩

variable {s s' : Sys}

theorem Kept.outside (h : Kept stream group s)
    (htally : Tally stream (server.streamFor stream) (server.groupFor stream group)
      (s.log ++ events)) :
    Kept stream group { s with server, log := s.log ++ events } where
  names := h.names
  tally := htally
  known r hr m hm := ⟨(h.known r hr m hm).1, mem_append_left _ (h.known r hr m hm).2⟩
  reasons r hr id hid := (h.reasons r hr id hid).mono events

theorem Kept.turn {i : ℕ} {t : Turn} {out : Server × Runner × List Event} (h : Kept stream group s)
    (hr : s.runners[i]? = some r) (hturn : r.turn s.server s.now t = some out) :
    Kept stream group
      { s with server := out.1, runners := s.runners.set i out.2.1, log := s.log ++ out.2.2 } := by
  have hmem : r ∈ s.runners := mem_of_getElem? hr
  have heffect := Runner.turn_effect hturn
  have hkin := Runner.turn_kin hturn
  have hhand := hand_effect h.tally.recorded (h.names r hmem).1 (h.known r hmem) (h.reasons r hmem)
    heffect
  refine ⟨forall_mem_set h.names ?_, h.tally.effect (h.names r hmem) (h.reasons r hmem) heffect,
    forall_mem_set (fun q hq m hm => ?_) hhand.1,
    forall_mem_set (fun q hq id hid => (h.reasons q hq id hid).mono _) hhand.2⟩
  · rw [hkin.1, hkin.2.1]
    exact h.names r hmem
  · exact ⟨(h.known q hq m hm).1, mem_append_left _ (h.known q hq m hm).2⟩

theorem step_kept {a : Action} (h : Kept stream group s) (hstep : s.step a = some s') :
    Kept stream group s' := by
  cases a with
  | tick =>
    simp only [Sys.step] at hstep
    split at hstep <;> cases hstep
    exact ⟨h.names, h.tally, h.known, h.reasons⟩
  | publish =>
    cases hstep
    unfold Sys.publish
    split
    · exact h
    · rename_i happend
      exact h.outside (h.tally.publish happend)
  | delete =>
    cases hstep
    exact h.outside h.tally.unpublish
  | turn =>
    simp only [Sys.step] at hstep
    split at hstep
    · cases hstep
    rename_i r hr
    obtain ⟨out, hturn, rfl⟩ := map_eq_some_iff.mp hstep
    exact h.turn hr hturn

theorem Sys.Initial.kept (h : s.Initial stream group) : Kept stream group s := by
  have hempty : s.server.streamFor stream = {} := by
    rw [h.server]
    rfl
  have hnone : s.server.groupFor stream group = none := by
    rw [Server.groupFor, hempty]
    rfl
  refine ⟨fun r hr => ⟨(h.runners r hr).1, (h.runners r hr).2.1⟩, ?_, ?_, ?_⟩
  · rw [hempty, hnone, h.log]
    refine ⟨by simp, ⟨?_, ?_, ?_⟩, ⟨?_, ?_, ?_, ?_, ?_, ?_⟩, .nil, ?_⟩ <;>
      simp [ledger, readIds, Dict.get_empty]
  · intro r hr m hm
    rw [(h.runners r hr).2.2] at hm
    cases hm
  · intro r hr id hid
    rw [(h.runners r hr).2.2] at hid
    cases hid

theorem kept_of_run (hinit : s.Initial stream group) (hrun : Run Sys.step Always s s') :
    Kept stream group s' :=
  hrun.invariant (fun h _ hstep => step_kept h hstep) hinit.kept

end

/-! ## The result -/

/-- What `_dead_letter` does not overwrite, it copies. -/
theorem get_deadLetterFields {group : InMemoryStreamGroup} {message : StreamMessage} {copy : Fields}
    (h : deadLetterFields group message = some copy) {name : Text}
    (hname : startsWith name deadLetterMark = false) : copy.get name = message.fields.get name := by
  have hne : ∀ rest, name ≠ deadLetterMark ++ rest := by
    rintro rest rfl
    have hstarts : startsWith (deadLetterMark ++ rest) deadLetterMark = true :=
      isPrefixOf_iff_prefix.mpr (prefix_append _ _)
    rw [hstarts] at hname
    cases hname
  simp only [deadLetterFields, bind_eq_bind, bind_eq_some_iff] at h
  obtain ⟨_, _, _, _, _, _, _, _, _, _, h⟩ := h
  cases h
  simp only [Dict.get_set_of_ne _ _ (hne _)]

/-- Where an entry of the stream can be, as far as the group is concerned. -/
inductive Standing (stream group : Text) (s : Sys) (id : StreamEntryId) (fields : Fields) : Prop
  | undelivered {g : Group} (found : s.server.groupFor stream group = some g)
      (there : (s.server.streamFor stream).entries.get id = some fields)
      (ahead : g.lastDelivered < id)
  | pending {g : Group} {row : Pending} (found : s.server.groupFor stream group = some g)
      (owed : g.pending.get id = some row)
  | handled (before : [.returned id, .acked id].Sublist s.log)
  | deadLettered {suffix : Text} {copyId : StreamEntryId} {copy : Fields} (suffix_ne : suffix ≠ [])
      (before : [.appended (stream ++ suffix) copyId copy, .acked id].Sublist s.log)
      (carries : ∀ name, startsWith name deadLetterMark = false → copy.get name = fields.get name)
  | gone (removed : .removed stream id ∈ s.log)
      (absent : (s.server.streamFor stream).entries.get id = none)

variable {id : StreamEntryId}

theorem Kept.standing {stream group : Text} {s : Sys} (h : Kept stream group s)
    (hborn : [.created, .appended stream id fields].Sublist s.log) :
    Standing stream group s id fields := by
  have hentry : .appended stream id fields ∈ s.log := hborn.subset (by simp)
  rcases h.tally.covered.covers id ⟨fields, hborn⟩ with
    ⟨⟨fields', hget⟩, c, hc, hlt⟩ | ⟨g, hg, row, hrow⟩ | ⟨cause, hcause, hbefore⟩ | hgone
  · obtain ⟨g, hg, rfl⟩ := map_eq_some_iff.mp hc
    obtain rfl := h.tally.recorded.once id fields fields' hentry (h.tally.recorded.known id _ hget)
    exact .undelivered hg hget hlt
  · exact .pending hg hrow
  · cases hcause with
    | handled => exact .handled hbefore
    | deadLettered entry copied suffix_ne =>
      obtain ⟨client, message, -, rfl, rfl, hcopy⟩ := copied
      obtain rfl := h.tally.recorded.once _ _ _ hentry entry
      exact .deadLettered suffix_ne hbefore fun name hname => get_deadLetterFields hcopy hname
  · refine .gone hgone (eq_none_iff_forall_ne_some.mpr fun f hf => ?_)
    exact h.tally.covered.gone_kept id hgone ⟨f, hf⟩

/-- An entry that is read twice is read by one consumer: it is not read twice. -/
theorem reader_unique {log : List Event} (h : (readIds log).Pairwise (· < ·)) {c c' : Text}
    (hread : .read c id ∈ log) (hread' : .read c' id ∈ log) : c = c' := by
  have hmem : ∀ {l : List Event} {c : Text}, .read c id ∈ l → id ∈ readIds l :=
    fun hl => mem_filterMap.mpr ⟨_, hl, rfl⟩
  obtain ⟨before, after, rfl⟩ := append_of_mem hread
  have hsplit : readIds (before ++ .read c id :: after) = readIds before ++ id :: readIds after := by
    simp [readIds]
  rw [hsplit, pairwise_append, pairwise_cons] at h
  rcases mem_append.mp hread' with hbefore | hrest
  · exact absurd (h.2.2 id (hmem hbefore) id mem_cons_self) (lt_irrefl id)
  rcases mem_cons.mp hrest with heq | hafter
  · cases heq
    rfl
  · exact absurd (h.2.1.1 id (hmem hafter)) (lt_irrefl id)

/-- **No loss.** After any steps of the runners of a group, of producers and of whoever deletes,
    each entry appended since the group was created is undelivered, pending, acknowledged after a
    handler returned or after a copy of it went to a dead-letter stream, or out of the stream; and
    the group reads in the order of the ids, each entry for one consumer. -/
theorem no_entry_lost {stream group : Text} {s₀ s : Sys} (hinit : s₀.Initial stream group)
    (hrun : Run Sys.step Always s₀ s) :
    (∀ id fields, [.created, .appended stream id fields].Sublist s.log →
      Standing stream group s id fields) ∧
    (readIds s.log).Pairwise (· < ·) ∧
    ∀ c c' id, .read c id ∈ s.log → .read c' id ∈ s.log → c = c' := by
  have hkept := kept_of_run hinit hrun
  exact ⟨fun id fields hborn => hkept.standing hborn, hkept.tally.reads,
    fun c c' id hread hread' => reader_unique hkept.tally.reads hread hread'⟩

/-- Two runners of a group, which call the handler once per entry. -/
def pair : Sys where
  runners := [.unused 's' 'g' 'a' 1 Nat.one_pos, .unused 's' 'g' 'b' 1 Nat.one_pos]

/-- The handler returns for one entry and raises for the next, which the other runner claims and
    puts aside. -/
def putAside : List Action :=
  [.turn 0 .start, .turn 1 .start,
    .publish (lit "s") (Dict.set ∅ (lit "n") [1]) 0, .publish (lit "s") (Dict.set ∅ (lit "n") [2]) 0,
    .turn 0 .scan, .turn 0 .read, .turn 0 .next, .turn 0 (.handled .returned), .turn 0 .next,
    .turn 0 (.handled .raised), .turn 0 (.ack .landed),
    .tick 60,
    .turn 1 .scan, .turn 1 .claim, .turn 1 .read, .turn 1 .next, .turn 1 (.deadLetter .landed),
    .turn 1 (.ack .landed)]

theorem no_entry_lost_put_aside : ∃ s, Run Sys.step Always pair s ∧
    [.created, .appended (lit "s") ⟨0, 2⟩ (Dict.set ∅ (lit "n") [2])].Sublist s.log ∧
    .acked ⟨0, 2⟩ ∈ s.log ∧ Standing (lit "s") (lit "g") s ⟨0, 2⟩ (Dict.set ∅ (lit "n") [2]) := by
  have hinit : pair.Initial (lit "s") (lit "g") := ⟨rfl, rfl, by decide⟩
  refine Run.exists_of_replay_and₂ putAside (by decide +kernel) fun hrun hborn _ => ?_
  exact (no_entry_lost hinit hrun).1 _ _ hborn

end RedisStreams
