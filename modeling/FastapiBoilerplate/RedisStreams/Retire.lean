import FastapiBoilerplate.RedisStreams.Redis

/-!
# Leaving a stream group

`RedisStreamGroup.stop` counts what its consumer owes and removes the consumer if that is nothing.
The two are commands of their own, and an entry that comes to the consumer in between is dropped
with it, unacknowledged. It can come by one way only, a read of the consumer that still blocks at
the server: a cancelled client stays there until the server has noticed, and an `XADD` serves it
(`retire_drops_unacked`). If no read of the consumer blocks when `stop` counts, nothing is
dropped, whatever the producers and the other consumers do (`retire_drops_nothing`).
-/

namespace RedisStreams.Redis

open Lib List Option

/-- A read of the client's consumer blocks at the server, be it cancelled or not. -/
def Sys.waits (s : Sys) (i : ℕ) : Bool :=
  (s.clients[i]?).any fun c => s.db.blocked.any fun b => b.consumer = c.group.consumer

/-- `stop` counts only when no read of its consumer blocks. -/
def Noticed (s : Sys) : Action → Prop
  | .count i => s.waits i = false
  | _ => True

instance (s : Sys) (a : Action) : Decidable (Noticed s a) := by
  unfold Noticed
  split <;> infer_instance

/-- No row of the group is the consumer's. -/
def Free (name : Text) (g : ConsumerGroup) : Prop :=
  ∀ id row, g.pel.get id = some row → row.consumer ≠ name

section
variable {name : Text} {g g' : ConsumerGroup} {es : List Event} {names : List Text}

theorem Free.set {id' lastId : StreamEntryId} {row' : Nack} (h : Free name g)
    (hrow' : row'.consumer ≠ name) : Free name ⟨lastId, g.pel.set id' row'⟩ := by
  intro id row hrow
  rw [Dict.get_set] at hrow
  split at hrow
  · cases hrow
    exact hrow'
  · exact h id row hrow

/-- A consumer gets no row that goes to others. -/
theorem Free.moves (h : Free name g) (hmoves : PelMoves g es g') (hes : ∀ e ∈ es, e.To names)
    (hname : name ∉ names) : Free name g' := by
  induction hmoves with
  | nil => exact h
  | cons move rest ih =>
    rw [forall_mem_cons] at hes
    refine ih ?_ hes.2
    cases move with
    | deliver | claim =>
      exact h.set fun e => hname (e ▸ hes.1)
    | ack | vanish | drop => exact fun id row hrow => h id row (Dict.get_of_get_erase hrow)

theorem free_iff_owed : Free name g ↔ g.owed name = [] := by
  rw [ConsumerGroup.owed, map_eq_nil_iff, filter_eq_nil_iff]
  constructor
  · intro h row hrow
    simpa using h row.1 row.2 (Dict.get_of_mem hrow)
  · intro h id row hrow
    simpa using h (id, row) (Dict.mem_items.mpr hrow)

end

/-! ## The runs -/

/-- A consumer that is being removed owes nothing and waits for nothing. -/
structure Safe (s : Sys) : Prop where
  names : (s.clients.map fun c => c.group.consumer).Nodup
  waits : ∀ c ∈ s.clients, c.phase = .retiring → ∀ b ∈ s.db.blocked,
    b.consumer ≠ c.group.consumer
  owes : ∀ c ∈ s.clients, c.phase = .retiring → ∀ g, s.db.group = some g →
    Free c.group.consumer g
  dropped : ∀ name id, .dropped name id ∉ s.log

section
variable {s s' : Sys} {i : ℕ} {c c' : Client} {names : List Text} {g : ConsumerGroup}

/-- What a step must do to keep `Safe`: it starts no removal, it serves no consumer that is being
    removed, and it blocks no read of one. -/
theorem Safe.step (h : Safe s)
    (hnames : s'.clients.map (fun c => c.group.consumer) = s.clients.map fun c => c.group.consumer)
    (hretiring : ∀ c' ∈ s'.clients, c'.phase = .retiring →
      ∃ c ∈ s.clients, c.phase = .retiring ∧ c.group.consumer = c'.group.consumer)
    (hblocked : ∀ b ∈ s'.db.blocked, b ∈ s.db.blocked ∨ b.consumer ∈ names)
    (hfollows : Sys.Follows (Event.To names) s s')
    (hother : ∀ c ∈ s.clients, c.phase = .retiring → c.group.consumer ∉ names) : Safe s' where
  names := hnames ▸ h.names
  waits c' hc' hphase b hb := by
    obtain ⟨c, hc, hphase, hname⟩ := hretiring c' hc' hphase
    rw [← hname]
    rcases hblocked b hb with hold | hnew
    · exact h.waits c hc hphase b hold
    · exact fun e => hother c hc hphase (e ▸ hnew)
  owes c' hc' hphase g' hg' := by
    obtain ⟨c, hc, hphase, hname⟩ := hretiring c' hc' hphase
    rw [← hname]
    cases hgroup : s.db.group with
    | none =>
      intro id row hrow
      rw [(hfollows.fresh hgroup).2 g' hg'] at hrow
      cases hrow
    | some g =>
      obtain ⟨g'', es, hg'', -, hmoves, hes⟩ := hfollows.rows g hgroup
      cases hg'.symm.trans hg''
      exact (h.owes c hc hphase g hgroup).moves hmoves hes (hother c hc hphase)
  dropped name id := by
    cases hgroup : s.db.group with
    | none =>
      rw [(hfollows.fresh hgroup).1]
      exact h.dropped name id
    | some g =>
      obtain ⟨g', es, -, hlog, -, hes⟩ := hfollows.rows g hgroup
      rw [hlog, mem_append, not_or]
      exact ⟨h.dropped name id, fun hmem => hes _ hmem⟩

/-- The name of a client that is free is not the name of one that is being removed. -/
theorem Safe.other (h : Safe s) (hc : s.free i = some c) (hc' : c' ∈ s.clients)
    (hphase : c'.phase = .retiring) : c'.group.consumer ∉ [c.group.consumer] := by
  obtain ⟨hmem, hidle⟩ := Sys.free_eq_some.mp hc
  intro hname
  have heq := inj_on_of_nodup_map h.names hc' (mem_of_getElem? hmem)
    (mem_singleton.mp hname)
  rw [heq, hidle] at hphase
  cases hphase

/-- A client calls a method of its group, other than `stop`: it gets rows and blocks reads for its
    own consumer only. -/
theorem Safe.call (h : Safe s) (hget : s.clients[i]? = some c)
    (hclients : s'.clients = s.clients.set i c') (hname : c'.group.consumer = c.group.consumer)
    (hphase : c'.phase ≠ .retiring)
    (hblocked : ∀ b ∈ s'.db.blocked, b ∈ s.db.blocked ∨ b.consumer ∈ names)
    (hfollows : Sys.Follows (Event.To names) s s')
    (hother : ∀ c ∈ s.clients, c.phase = .retiring → c.group.consumer ∉ names) : Safe s' := by
  refine h.step ?_ ?_ hblocked hfollows hother
  · rw [hclients, map_set, hname]
    apply set_of_getElem?
    rw [getElem?_map, hget, map_some]
  · intro c'' hc'' hretiring
    rw [hclients] at hc''
    rcases mem_or_eq_of_mem_set hc'' with hold | rfl
    · exact ⟨c'', hold, hretiring, rfl⟩
    · exact absurd hretiring hphase

theorem wake_consumer (blocked : List Blocked) (c : Client) :
    (Sys.wake blocked c).group.consumer = c.group.consumer := by
  unfold Sys.wake
  split
  · split <;> rfl
  · rfl

theorem retiring_of_wake {blocked : List Blocked} (h : (Sys.wake blocked c).phase = .retiring) :
    c.phase = .retiring := by
  unfold Sys.wake at h
  split at h
  · split at h
    · exact h
    · cases h
  · exact h

theorem serve_blocked {now : ℕ} {entries : Dict StreamEntryId RawFields} (blocked : List Blocked) :
    (g.serve now entries blocked).2.1 ⊆ blocked := by
  induction blocked generalizing g with
  | nil => exact List.Subset.refl []
  | cons b blocked ih =>
    rw [ConsumerGroup.serve]
    split
    · exact cons_subset_cons b ih
    · exact subset_cons_of_subset b ih

theorem xadd_blocked (fields : RawFields) : (s.xadd fields).db.blocked ⊆ s.db.blocked := by
  show (s.db.xadd s.now fields).1.blocked ⊆ s.db.blocked
  unfold Db.xadd
  split
  · exact List.Subset.refl _
  · exact serve_blocked s.db.blocked

theorem Safe.xadd (h : Safe s) (fields : RawFields) : Safe (s.xadd fields) := by
  refine h.step ?_ ?_ (fun b hb => .inl (xadd_blocked fields hb)) (Sys.xadd_follows fields) ?_
  · show (s.clients.map _).map _ = _
    rw [List.map_map]
    exact map_congr_left fun c _ => wake_consumer _ c
  · intro c' hc' hphase
    obtain ⟨c, hc, rfl⟩ := mem_map.mp hc'
    exact ⟨c, hc, retiring_of_wake hphase, (wake_consumer _ c).symm⟩
  · intro c hc hphase hname
    obtain ⟨b, hb, hbc⟩ := mem_map.mp hname
    exact h.waits c hc hphase b hb hbc

section

variable (c : RedisStreamGroup) (db : Db) (now : ℕ) (entries : List PendingEntry)
  (minIdle : Seconds)

theorem claim_consumer : (c.claim db now entries minIdle).2.2.1.consumer = c.consumer := by
  unfold RedisStreamGroup.claim
  split
  · rfl
  split
  · rfl
  · split <;> rfl

theorem claim_blocked : (c.claim db now entries minIdle).1.blocked = db.blocked := by
  rcases c.claim_cases db now entries minIdle with ⟨_, _, h, -⟩ | ⟨g, _, -, rfl, h⟩ <;> rw [h]

end

section

variable (h : Safe s)

include h

theorem Safe.claim (hc : s.free i = some c) (entries : List PendingEntry) (minIdle : Seconds) :
    Safe (s.claim i c entries minIdle) := by
  obtain ⟨hget, hidle⟩ := Sys.free_eq_some.mp hc
  refine h.call hget rfl (claim_consumer _ _ _ _ _) ?_ ?_ (Sys.claim_follows entries minIdle)
    fun c' => h.other hc
  · simp [hidle]
  intro b hb
  have hsame := claim_blocked c.group s.db s.now entries minIdle
  exact .inl (hsame ▸ hb)

theorem Safe.read (hc : s.free i = some c) (count : ℕ) (block : Seconds) :
    Safe (s.read i c count block) := by
  obtain ⟨hget, hidle⟩ := Sys.free_eq_some.mp hc
  have hother : ∀ c' ∈ s.clients, c'.phase = .retiring →
      c'.group.consumer ∉ [c.group.consumer] := fun c' => h.other hc
  have hfollows : Sys.Follows _ s (s.read i c count block) := Sys.read_follows count block
  have hsame : s.clients = s.clients.set i c := (set_of_getElem? hget).symm
  have hphase : c.phase ≠ .retiring := by
    rw [hidle]
    exact nofun
  unfold Sys.read at hfollows ⊢
  split at hfollows
  · exact h.call hget rfl rfl hphase (fun b hb => .inl hb) hfollows hother
  split at hfollows
  · split at hfollows
    · exact h
    refine h.call hget rfl rfl nofun (fun b hb => ?_) hfollows hother
    rcases mem_snoc.mp hb with hold | rfl
    · exact .inl hold
    · exact .inr (mem_singleton_self _)
  · exact h.call hget hsame rfl hphase (fun b hb => .inl hb) hfollows hother

theorem Safe.ack (ids : List StreamEntryId) : Safe (s.ack ids) := by
  refine h.step ?_ ?_ ?_ (Sys.ack_follows ids) fun _ _ _ => not_mem_nil
  · unfold Sys.ack
    split <;> rfl
  · unfold Sys.ack
    split <;> exact fun c hc hphase => ⟨c, hc, hphase, rfl⟩
  · unfold Sys.ack
    split <;> exact fun b hb => .inl hb

section

variable (hget : s.clients[i]? = some c)

include hget

theorem Safe.leave : Safe (s.leave i c) :=
  h.call hget rfl rfl nofun (fun _ hb => .inl hb) (.same rfl rfl) fun _ _ _ => not_mem_nil

/-- A consumer that owes nothing and waits for nothing may be removed. -/
theorem Safe.retire (hg : s.db.group = some g) (howed : g.owed c.group.consumer = [])
    (hwaits : s.waits i = false) :
    Safe { s with clients := s.clients.set i { c with phase := .retiring } } where
  names := by
    rw [map_set, set_of_getElem? (by rw [getElem?_map, hget, map_some])]
    exact h.names
  waits c' hc' hphase b hb := by
    rcases mem_or_eq_of_mem_set hc' with hold | rfl
    · exact h.waits c' hold hphase b hb
    · simp only [Sys.waits, hget, any_some, List.any_eq_false, decide_eq_true_eq] at hwaits
      exact hwaits b hb
  owes c' hc' hphase g' hg' := by
    rcases mem_or_eq_of_mem_set hc' with hold | rfl
    · exact h.owes c' hold hphase g' hg'
    · cases hg.symm.trans hg'
      exact free_iff_owed.mpr howed
  dropped := h.dropped

theorem Safe.count (hwaits : s.waits i = false) : Safe (s.count i c) := by
  unfold Sys.count
  split
  · exact h.leave hget
  split
  · exact h.retire hget ‹_› ‹_› hwaits
  · exact h.leave hget

/-- The removal: there is nothing to drop. -/
theorem Safe.remove (hphase : c.phase = .retiring) : Safe (s.remove i c) := by
  unfold Sys.remove
  split
  · exact h.leave hget
  rename_i g hg
  have howed : g.owed c.group.consumer = [] :=
    free_iff_owed.mp (h.owes c (mem_of_getElem? hget) hphase g hg)
  rw [ConsumerGroup.delConsumer, howed]
  exact h.call hget rfl rfl nofun (fun _ hb => .inl hb) (.same hg.symm (append_nil _))
    fun _ _ _ => not_mem_nil

end

theorem Safe.forget (ticket : ℕ) :
    Safe { s with db := { s.db with blocked := s.db.blocked.filter fun b => b.ticket ≠ ticket } } :=
  h.step rfl (fun c hc hphase => ⟨c, hc, hphase, rfl⟩)
    (fun _ hb => .inl (mem_filter.mp hb).1) (.same rfl rfl) fun _ _ _ => not_mem_nil

theorem Safe.set (hget : s.clients[i]? = some c) (hname : c'.group.consumer = c.group.consumer)
    (hphase : c'.phase ≠ .retiring) : Safe { s with clients := s.clients.set i c' } :=
  h.call hget rfl hname hphase (fun _ hb => .inl hb) (.same rfl rfl) fun _ _ _ => not_mem_nil

theorem Safe.of_step {a : Action} (hok : Noticed s a) (hstep : s.step a = some s') : Safe s' := by
  cases a with
  | tick | discard =>
    cases hstep
    exact ⟨h.names, h.waits, h.owes, h.dropped⟩
  | xadd fields =>
    cases hstep
    exact h.xadd fields
  | start =>
    obtain ⟨c, hc, rfl⟩ := map_eq_some_iff.mp hstep
    obtain ⟨hget, hidle⟩ := Sys.free_eq_some.mp hc
    have hblocked : s.db.create.blocked = s.db.blocked := by
      unfold Db.create
      split <;> rfl
    refine h.call hget rfl rfl ?_ (fun b hb => .inl (hblocked ▸ hb)) Sys.start_follows
      fun _ _ _ => not_mem_nil
    simp [hidle]
  | claim i entries minIdle =>
    obtain ⟨c, hc, rfl⟩ := map_eq_some_iff.mp hstep
    exact h.claim hc entries minIdle
  | read i count block =>
    obtain ⟨c, hc, hstep⟩ := bind_eq_some_iff.mp hstep
    split at hstep <;> cases hstep
    exact h.read hc count block
  | ack i ids =>
    obtain ⟨c, -, hstep⟩ := bind_eq_some_iff.mp hstep
    split at hstep <;> cases hstep
    exact h.ack ids
  | timeout =>
    obtain ⟨c, hget, hstep⟩ := bind_eq_some_iff.mp hstep
    split at hstep <;> cases hstep
    exact (h.forget _).set hget rfl nofun
  | cancel =>
    obtain ⟨c, hget, rfl⟩ := map_eq_some_iff.mp hstep
    exact h.set hget rfl nofun
  | notice ticket =>
    simp only [Sys.step] at hstep
    split at hstep <;> cases hstep
    exact h.forget ticket
  | count =>
    obtain ⟨c, hc, hstep⟩ := bind_eq_some_iff.mp hstep
    split at hstep <;> cases hstep
    -- the guard is used here alone: no read of the consumer blocks when it is counted
    exact h.count (Sys.free_eq_some.mp hc).1 hok
  | remove =>
    obtain ⟨c, hget, hstep⟩ := bind_eq_some_iff.mp hstep
    split at hstep <;> cases hstep
    exact h.remove hget ‹_›

end

theorem Safe.initial (h : s.Initial) : Safe s where
  names := h.names
  waits c hc hphase := by
    rw [h.idle c hc] at hphase
    cases hphase
  owes c hc hphase := by
    rw [h.idle c hc] at hphase
    cases hphase
  dropped name id := by
    rw [h.log]
    exact not_mem_nil

end

/-- Two consumers of a group. -/
def leavers : Sys where
  clients := [member 's' 'g' 'a', member 's' 'g' 'b']

theorem leavers_initial : leavers.Initial := ⟨rfl, rfl, by decide, by decide⟩

/-- **Leaving a group.** Producers append, consumers read, claim and acknowledge, reads block, time
    out and are cancelled, and consumers stop, in any order. If `stop` never counts while a read of
    its consumer blocks at the server, no removal of a consumer drops an entry that was owed. -/
theorem retire_drops_nothing {s₀ s : Sys} (hinit : s₀.Initial) (hrun : Run Sys.step Noticed s₀ s)
    (name : Text) (id : StreamEntryId) : .dropped name id ∉ s.log :=
  (hrun.invariant (fun hsafe hok hstep => Safe.of_step hsafe hok hstep)
    (Safe.initial hinit)).dropped name id

/-- A consumer acknowledges what it read and leaves, while another one waits and is served. -/
def leavesClean : List Action :=
  [.start 0, .start 1, .xadd (Dict.set ∅ [110] [1]), .read 0 10 0, .ack 0 [⟨0, 1⟩], .read 1 10 1,
    .count 0, .xadd (Dict.set ∅ [110] [2]), .remove 0]

theorem retire_drops_nothing_served : ∃ s, Run Sys.step Noticed leavers s ∧
    s.log = [.delivered (lit "a") ⟨0, 1⟩, .acked ⟨0, 1⟩, .delivered (lit "b") ⟨0, 2⟩] ∧
    (s.clients.map fun c => c.group.started) = [false, true] ∧
    ∀ name id, .dropped name id ∉ s.log := by
  refine Run.exists_of_replay_and₂ leavesClean (by decide +kernel) fun hrun _ _ => ?_
  exact retire_drops_nothing leavers_initial hrun

/-- A read blocks and is cancelled; `stop` counts, the read is served, and `stop` removes. -/
def leavesServed : List Action :=
  [.start 0, .read 0 10 1, .cancel 0, .count 0, .xadd (Dict.set ∅ [110] [1]), .remove 0]

theorem retire_drops_unacked : ∃ s, Run Sys.step Always leavers s ∧
    .dropped (lit "a") ⟨0, 1⟩ ∈ s.log ∧ .acked ⟨0, 1⟩ ∉ s.log ∧
    s.db.entries.get ⟨0, 1⟩ = some (Dict.set ∅ [110] [1]) ∧
    s.db.group = some ⟨⟨0, 1⟩, ∅⟩ := by
  refine Run.exists_of_replay leavesServed ?_
  decide +kernel

end RedisStreams.Redis
