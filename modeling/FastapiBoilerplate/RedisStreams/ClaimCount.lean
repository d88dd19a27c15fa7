import FastapiBoilerplate.RedisStreams.Redis

/-!
# The delivery count of a claimed message

`RedisStreamGroup.claim` does not get the count from the server: it adds one to the count that the
scan before it found. The two are the same number exactly when nobody claimed the entry in between
(`claimed_count_iff`). A claim in between raises the row's count and resets its idle time, which
does not keep a slow consumer from claiming once the idle time has gone by again; its message then
says less than the row (`claimed_count_stale`).
-/

namespace RedisStreams.Redis

open Lib List Option

/-- The count in the pending entries list. -/
def Db.count (db : Db) (id : StreamEntryId) : Option ℕ :=
  db.group.bind fun g => (g.pel.get id).map Nack.deliveryCount

/-- How often the entry was claimed. -/
def claims (id : StreamEntryId) (es : List Event) : ℕ :=
  es.countP fun
    | .claimed _ id' => id' = id
    | _ => false

theorem claims_eq_zero {id : StreamEntryId} {es : List Event} :
    claims id es = 0 ↔ ∀ consumer, .claimed consumer id ∉ es := by
  rw [claims, countP_eq_zero]
  constructor
  · intro h consumer hmem
    simpa using h _ hmem
  · intro h e he
    cases e with
    | claimed consumer =>
      simp only [decide_eq_true_eq]
      rintro rfl
      exact h consumer he
    | _ => simp

/-! ## The rows along a run -/

/-- An entry that was read has the count `n`, if it is still pending. -/
def Counts (id : StreamEntryId) (n : ℕ) (g : ConsumerGroup) : Prop :=
  id ≤ g.lastId ∧ ∀ row, g.pel.get id = some row → row.deliveryCount = n

variable {id' : StreamEntryId}

section
variable {g g' : ConsumerGroup} {id : StreamEntryId} {n : ℕ} {es : List Event}

theorem Counts.move {e : Event} (h : Counts id n g) (hmove : PelMove g e g') :
    Counts id (n + claims id [e]) g' := by
  cases hmove with
  | deliver consumer id' now past =>
    have hne : id ≠ id' := (h.1.trans_lt past).ne
    refine ⟨h.1.trans past.le, fun row hrow => ?_⟩
    rw [Dict.get_set_of_ne _ _ hne] at hrow
    exact h.2 row hrow
  | claim consumer id' now row' there =>
    refine ⟨h.1, fun row hrow => ?_⟩
    rw [Dict.get_set] at hrow
    split at hrow
    · rename_i heq
      subst heq
      cases hrow
      simp [claims, h.2 row' there]
    · rename_i hne
      have hne' : ¬ id' = id := fun e => hne e.symm
      simp [claims, hne', h.2 row hrow]
  | ack | vanish | drop => exact ⟨h.1, fun row hrow => h.2 row (Dict.get_of_get_erase hrow)⟩

theorem Counts.moves (h : Counts id n g) (hmoves : PelMoves g es g') :
    Counts id (n + claims id es) g' := by
  induction hmoves generalizing n with
  | nil => exact h
  | cons move rest ih =>
    have hrest := ih (h.move move)
    rw [Nat.add_assoc, claims, claims, ← countP_append] at hrest
    exact hrest

/-- What is pending has been read. -/
def Behind (g : ConsumerGroup) : Prop := ∀ id row, g.pel.get id = some row → id ≤ g.lastId

theorem Behind.moves (h : Behind g) (hmoves : PelMoves g es g') : Behind g' := by
  induction hmoves with
  | nil => exact h
  | cons move rest ih =>
    apply ih
    cases move with
    | deliver consumer id' now past =>
      intro id row hrow
      rw [Dict.get_set] at hrow
      split at hrow
      · exact le_of_eq ‹_›
      · exact (h id row hrow).trans past.le
    | claim consumer id' now row' there =>
      intro id row hrow
      rw [Dict.get_set] at hrow
      split at hrow
      · rename_i heq
        exact heq ▸ h id' row' there
      · exact h id row hrow
    | ack | vanish | drop => exact fun id row hrow => h id row (Dict.get_of_get_erase hrow)

end

/-! ## From the scan to the claim -/

section
variable {s s' : Sys}

theorem behind_of_run (hinit : s.Initial) (hrun : Run Sys.step Always s s') :
    ∀ g, s'.db.group = some g → Behind g := by
  apply hrun.invariant
  · intro t u a hbehind _ hstep g hg
    have hfollows := Sys.step_follows hstep
    cases hgroup : t.db.group with
    | none =>
      intro id row hrow
      rw [(hfollows.fresh hgroup).2 g hg] at hrow
      cases hrow
    | some g₀ =>
      obtain ⟨g', es, hg', -, hmoves, -⟩ := hfollows.rows g₀ hgroup
      cases hg.symm.trans hg'
      exact (hbehind g₀ hgroup).moves hmoves
  · intro g hg
    rw [hinit.db] at hg
    cases hg

/-- A run from a state with a group is a sequence of moves of its rows. -/
theorem moves_of_run {g : ConsumerGroup} (hg : s.db.group = some g)
    (hrun : Run Sys.step Always s s') :
    ∃ g' es, s'.db.group = some g' ∧ s'.log = s.log ++ es ∧ PelMoves g es g' := by
  induction hrun with
  | refl => exact ⟨g, [], hg, (append_nil _).symm, .nil g⟩
  | snoc _ _ hstep ih =>
    obtain ⟨g₁, es₁, hg₁, hlog₁, hmoves₁⟩ := ih
    obtain ⟨g₂, es₂, hg₂, hlog₂, hmoves₂, -⟩ := (Sys.step_follows hstep).rows g₁ hg₁
    exact ⟨g₂, es₁ ++ es₂, hg₂, by rw [hlog₂, hlog₁, append_assoc], hmoves₁.append hmoves₂⟩

end

section
variable {c : RedisStreamGroup} {db : Db} {now : ℕ} {minIdle : Seconds} {entries : List PendingEntry}

theorem stalled_spec {count : ℕ} {start : Option StreamEntryId}
    (h : (c.stalled db now minIdle count start).2 = .ok entries) :
    ∃ g, db.group = some g ∧ (entries.map PendingEntry.id).Nodup ∧
      ∀ entry ∈ entries, ∃ row, g.pel.get entry.id = some row ∧
        entry.deliveryCount = row.deliveryCount := by
  unfold RedisStreamGroup.stalled at h
  split at h
  · cases h
  split at h
  · cases h
  split at h
  · cases h
  rename_i g hg
  cases h
  refine ⟨g, hg, ?_, fun entry hentry => ?_⟩
  · rw [List.map_map]
    exact (nodup_sort g.pel).sublist (((take_sublist _ _).trans filter_sublist).map _)
  · obtain ⟨⟨id, row⟩, hrow, rfl⟩ := mem_map.mp hentry
    have hmem := (mem_filter.mp (mem_of_mem_take hrow)).1
    exact ⟨row, Dict.get_of_mem ((mem_insertionSort _).mp hmem), rfl⟩

theorem mem_of_get_wanted {id : StreamEntryId} {entry : PendingEntry}
    (h : (RedisStreamGroup.wanted entries).get id = some entry) :
    entry ∈ entries ∧ entry.id = id := by
  unfold RedisStreamGroup.wanted at h
  induction entries using List.reverseRecOn with
  | nil => cases h
  | append_singleton entries last ih =>
    rw [foldl_append, foldl_cons, foldl_nil, Dict.get_set] at h
    split at h
    · cases h
      exact ⟨mem_append_right _ mem_cons_self, Eq.symm ‹_›⟩
    · exact ⟨mem_append_left _ (ih h).1, (ih h).2⟩

/-- A message of a reply carries one more than the count of the entry it was wanted for. -/
theorem claimReply_spec {reply : List (StreamEntryId × RawFields)}
    {wanted : Dict StreamEntryId PendingEntry}
    {out : List StreamMessage × Dict StreamEntryId PendingEntry}
    (h : c.claimReply reply wanted = .ok out) {m : StreamMessage} (hm : m ∈ out.1) :
    m.id ∈ reply.map Prod.fst ∧
      ∃ entry, wanted.get m.id = some entry ∧ m.deliveryCount = entry.deliveryCount + 1 := by
  induction reply generalizing wanted out with
  | nil =>
    cases h
    cases hm
  | cons first reply ih =>
    obtain ⟨id, raw⟩ := first
    rw [RedisStreamGroup.claimReply] at h
    split at h
    · obtain ⟨hmem, hentry⟩ := ih h hm
      exact ⟨mem_cons_of_mem _ hmem, hentry⟩
    rename_i entry hentry
    split at h
    · cases h
    split at h
    · cases h
    rename_i hrest
    cases h
    rcases mem_cons.mp hm with rfl | hm
    · exact ⟨mem_cons_self, entry, hentry, rfl⟩
    obtain ⟨hmem, entry', hentry', hcount⟩ := ih hrest hm
    exact ⟨mem_cons_of_mem _ hmem, entry', Dict.get_of_get_erase hentry', hcount⟩

end

section
variable {g : ConsumerGroup} {entries : Dict StreamEntryId RawFields} {consumer : Text}
  {now minIdle : ℕ} {id : StreamEntryId} {ids : List StreamEntryId}

/-- `XCLAIM` of other ids leaves a row alone. -/
theorem get_claimOne_of_ne (hne : id ≠ id') :
    (g.claimOne now entries consumer minIdle id').1.pel.get id = g.pel.get id := by
  unfold ConsumerGroup.claimOne
  split
  · rfl
  split
  · rw [Dict.get_erase, if_neg hne]
  split
  · rfl
  · rw [Dict.get_set_of_ne _ _ hne]

theorem get_claim_of_not_mem (h : id ∉ ids) :
    (g.claim now entries consumer minIdle ids).1.pel.get id = g.pel.get id := by
  induction ids generalizing g with
  | nil => rfl
  | cons id' ids ih =>
    rw [mem_cons, not_or] at h
    exact (ih h.2).trans (get_claimOne_of_ne h.1)

theorem claimOne_spec {fields : RawFields}
    (h : (g.claimOne now entries consumer minIdle id).2.1 = some fields) :
    ∃ row, g.pel.get id = some row ∧
      (g.claimOne now entries consumer minIdle id).1.pel.get id =
        some ⟨consumer, now, row.deliveryCount + 1⟩ := by
  unfold ConsumerGroup.claimOne at h ⊢
  split at h
  · cases h
  rename_i row hrow
  refine ⟨row, hrow, ?_⟩
  split at h
  · cases h
  split at h
  · cases h
  · rename_i hidle
    simp only [if_neg hidle, Dict.get_set_self]

theorem mem_of_mem_claim (h : id ∈ (g.claim now entries consumer minIdle ids).2.1.map Prod.fst) :
    id ∈ ids := by
  induction ids generalizing g with
  | nil => cases h
  | cons id' ids ih =>
    rw [ConsumerGroup.claim, map_append] at h
    rcases mem_append.mp h with hfirst | hrest
    · obtain ⟨⟨_, _⟩, hmem, rfl⟩ := mem_map.mp hfirst
      obtain ⟨fields, -, heq⟩ := map_eq_some_iff.mp (mem_toList.mp hmem)
      cases heq
      exact mem_cons_self
    · exact mem_cons_of_mem _ (ih hrest)

/-- An id in the reply of `XCLAIM` had a row, and has one with the next count. -/
theorem claim_spec (hnodup : ids.Nodup)
    (h : id ∈ (g.claim now entries consumer minIdle ids).2.1.map Prod.fst) :
    ∃ row row', g.pel.get id = some row ∧
      (g.claim now entries consumer minIdle ids).1.pel.get id = some row' ∧
      row'.deliveryCount = row.deliveryCount + 1 := by
  induction ids generalizing g with
  | nil => cases h
  | cons id' ids ih =>
    rw [nodup_cons] at hnodup
    rw [ConsumerGroup.claim, map_append] at h
    rcases mem_append.mp h with hfirst | hrest
    · obtain ⟨⟨_, _⟩, hmem, rfl⟩ := mem_map.mp hfirst
      obtain ⟨fields, hfields, heq⟩ := map_eq_some_iff.mp (mem_toList.mp hmem)
      cases heq
      obtain ⟨row, hrow, hrow'⟩ := claimOne_spec hfields
      exact ⟨row, _, hrow, (get_claim_of_not_mem hnodup.1).trans hrow', rfl⟩
    · have hne : id ≠ id' := by
        rintro rfl
        exact hnodup.1 (mem_of_mem_claim hrest)
      obtain ⟨row, row', hrow, hrow', hcount⟩ := ih hnodup.2 hrest
      exact ⟨row, row', (get_claimOne_of_ne hne).symm.trans hrow, hrow', hcount⟩

end

/-- **The count of a claimed message.** A scan lists entries, anything happens, and the entries are
    claimed. A message of the claim carries the count that the row has right after it if and only
    if nobody claimed the entry in between. -/
theorem claimed_count_iff {s₀ s₁ s₂ : Sys} {c₁ c₂ : RedisStreamGroup} {minIdle minIdle' : Seconds}
    {count : ℕ} {start : Option StreamEntryId} {entries : List PendingEntry} {out : ClaimedMessage}
    {m : StreamMessage} (hinit : s₀.Initial) (hbefore : Run Sys.step Always s₀ s₁)
    (hscan : (c₁.stalled s₁.db s₁.now minIdle count start).2 = .ok entries)
    (hbetween : Run Sys.step Always s₁ s₂)
    (hclaim : (c₂.claim s₂.db s₂.now entries minIdle').2.2.2 = .ok out) (hm : m ∈ out.messages) :
    (c₂.claim s₂.db s₂.now entries minIdle').1.count m.id = some m.deliveryCount ↔
      ∀ consumer, .claimed consumer m.id ∉ s₂.log.drop s₁.log.length := by
  obtain ⟨g₁, hg₁, hnodup, hentries⟩ := stalled_spec hscan
  obtain ⟨g₂, es, hg₂, hlog, hmoves⟩ := moves_of_run hg₁ hbetween
  rcases c₂.claim_cases s₂.db s₂.now entries minIdle' with ⟨_, _, h, hempty⟩ | ⟨g, _, hg, rfl, h⟩
  · rw [h] at hclaim
    rw [hempty out hclaim] at hm
    cases hm
  cases hg₂.symm.trans hg
  rw [h] at hclaim ⊢
  cases hreply : c₂.claimReply (g₂.claim s₂.now s₂.db.entries c₂.consumer (toMs minIdle')
      (entries.map PendingEntry.id)).2.1 (RedisStreamGroup.wanted entries) with
  | error =>
    rw [hreply] at hclaim
    cases hclaim
  | ok =>
    rw [hreply] at hclaim
    cases hclaim
    obtain ⟨hmem, entry, hentry, hm⟩ := claimReply_spec hreply hm
    obtain ⟨hlisted, hid⟩ := mem_of_get_wanted hentry
    obtain ⟨row₁, hrow₁, hcount₁⟩ := hentries entry hlisted
    obtain ⟨row, row', hrow, hrow', hcount⟩ := claim_spec hnodup hmem
    rw [hid] at hrow₁
    -- the count that was listed, and what each claim since has added to it
    have hcounts : Counts m.id entry.deliveryCount g₁ :=
      ⟨behind_of_run hinit hbefore g₁ hg₁ _ _ hrow₁, fun r hr => by
        cases hrow₁.symm.trans hr
        exact hcount₁.symm⟩
    have hrow₂ := (hcounts.moves hmoves).2 row hrow
    have hafter : (Db.mk s₂.db.entries s₂.db.lastId (some (g₂.claim s₂.now s₂.db.entries
        c₂.consumer (toMs minIdle') (entries.map PendingEntry.id)).1) s₂.db.blocked).count m.id =
        some (m.deliveryCount + claims m.id es) := by
      simp only [Db.count, bind_some, hrow', map_some, hcount, hrow₂, hm]
      congr 1
      omega
    rw [hafter, hlog, drop_left, ← claims_eq_zero, some.injEq]
    omega

def trio : Sys where
  clients := [member 's' 'g' 'a', member 's' 'g' 'b', member 's' 'g' 'c']

/-- The third of them, once it has started. -/
def third : RedisStreamGroup := { (member 's' 'g' 'c').group with started := true }

/-- An entry is read, and left alone for a minute. -/
def leftAlone : List Action :=
  [.start 0, .start 1, .start 2, .xadd (Dict.set ∅ [110] [1]), .read 0 10 0, .tick 60000]

/-- What a scan lists then. -/
def listed : List PendingEntry := [⟨⟨0, 1⟩, lit "a", 60, 1⟩]

/-- What a claim of it returns. -/
def second : StreamMessage := ⟨lit "s", ⟨0, 1⟩, Dict.set ∅ (lit "n") [1], 2, true⟩

theorem trio_initial : trio.Initial := ⟨rfl, rfl, by decide, by decide⟩

theorem claimed_count_iff_alone : ∃ s₁, Run Sys.step Always trio s₁ ∧
    (third.stalled s₁.db s₁.now 60 20 none).2 = .ok listed ∧
    (third.claim s₁.db s₁.now listed 60).2.2.2 = .ok ⟨[second], []⟩ ∧
    (third.claim s₁.db s₁.now listed 60).1.count second.id = some second.deliveryCount := by
  refine Run.exists_of_replay_and₂ leftAlone (by decide +kernel) fun hrun hscan hclaim => ?_
  have hiff := claimed_count_iff trio_initial hrun hscan .refl hclaim mem_cons_self
  exact hiff.mpr (by simp)

/-- Another consumer claims the entry after the scan, and leaves it alone for a minute. -/
def overtake : List Action := [.claim 1 listed 60, .tick 60000]

theorem claimed_count_stale : ∃ s₁ s₂, Run Sys.step Always trio s₁ ∧
    (third.stalled s₁.db s₁.now 60 20 none).2 = .ok listed ∧ Run Sys.step Always s₁ s₂ ∧
    (third.claim s₂.db s₂.now listed 60).2.2.2 = .ok ⟨[second], []⟩ ∧
    second.deliveryCount = 2 ∧
    (third.claim s₂.db s₂.now listed 60).1.count second.id = some 3 := by
  obtain ⟨s₁, hrun₁, hscan, hs₁⟩ : ∃ s₁, Run Sys.step Always trio s₁ ∧
      (third.stalled s₁.db s₁.now 60 20 none).2 = .ok listed ∧
      (replay Sys.step Always s₁ overtake).any (fun s₂ =>
        (third.claim s₂.db s₂.now listed 60).2.2.2 = .ok ⟨[second], []⟩ ∧
          (third.claim s₂.db s₂.now listed 60).1.count second.id = some 3) = true :=
    Run.exists_of_replay leftAlone (by decide +kernel)
  obtain ⟨s₂, hrun₂, hclaim, hcount⟩ := Run.exists_of_replay _ hs₁
  exact ⟨s₁, s₂, hrun₁, hscan, hrun₂, hclaim, rfl, hcount⟩

end RedisStreams.Redis
