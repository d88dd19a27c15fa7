import Mathlib.Data.List.Range
import FastapiBoilerplate.Lib.Tickets
import FastapiBoilerplate.RedisStreams.Consumer

/-!
# How often the handler is called for an entry

A delivery count of an entry is a ticket: a read issues the first, a claim the next, to whoever
reads or claims, and the handler is called with a ticket at most once. The row of the entry keeps
the last count that was issued, so no count is issued twice, even when runners claim the entry
from each other while its handler is running; and the entry is never issued again once its row is
gone. With the cap on the counts a handler is called with, there are no more calls than the cap
(`handler_calls_capped`).
-/

namespace RedisStreams

open Lib Desk Relation List

abbrev Ticket := StreamEntryId × ℕ

def StreamMessage.ticket (m : StreamMessage) : Ticket := (m.id, m.deliveryCount)

/-- The tickets that reads and claims issued. -/
def issued (log : List Event) : List Ticket :=
  log.filterMap fun
    | .read _ id => some (id, 1)
    | .claimed _ id n => some (id, n)
    | _ => none

/-- The tickets that the handler was called with. -/
def invocations (log : List Event) : List Ticket :=
  log.filterMap fun
    | .invoked id n => some (id, n)
    | _ => none

section
variable {log events : List Event}

theorem issued_append : issued (log ++ events) = issued log ++ issued events :=
  filterMap_append

theorem invocations_append : invocations (log ++ events) = invocations log ++ invocations events :=
  filterMap_append

theorem issued_quiet (h : issued events = []) : issued (log ++ events) = issued log := by
  rw [issued_append, h, append_nil]

theorem invocations_quiet (h : invocations events = []) :
    invocations (log ++ events) = invocations log := by
  rw [invocations_append, h, append_nil]

end

/-! ## Counts -/

/-- Every count issued for an entry is at most the one in its row. -/
structure Counted (og : Option Group) (ts : List Ticket) : Prop where
  issued : ∀ t ∈ ts, 1 ≤ t.2 ∧ ∃ g, og = some g ∧ t.1 ≤ g.lastDelivered ∧
    ∀ row, g.pending.get t.1 = some row → t.2 ≤ row.deliveryCount
  pending : ∀ g, og = some g → ∀ id row, g.pending.get id = some row → id ≤ g.lastDelivered

/-- New tickets, next to those issued before. -/
structure Issue (old new : List Ticket) : Prop where
  fresh : ∀ t ∈ new, t ∉ old
  distinct : new.Nodup

theorem Issue.snoc {old new : List Ticket} {t : Ticket} (h : Issue old new) (ht : t ∉ old ++ new) :
    Issue old (new ++ [t]) := by
  rw [mem_append, not_or] at ht
  refine ⟨forall_mem_snoc h.fresh ht.1, ?_⟩
  · refine List.Nodup.append h.distinct (nodup_singleton t) fun t' hold hnew => ?_
    exact ht.2 (mem_singleton.mp hnew ▸ hold)

variable {out : Group × List StreamMessage} {consumer stream : Text} {count : ℕ} {st : Stream}

section
variable {g : Group} {ts : List Ticket} {id : StreamEntryId}

theorem Counted.deliver (consumer : Text) (now : Seconds) (h : Counted (some g) ts)
    (hpast : g.lastDelivered < id) :
    (id, 1) ∉ ts ∧ Counted (some (g.deliver consumer now id)) (ts ++ [(id, 1)]) := by
  have hbelow : ∀ t ∈ ts, t.1 < id := by
    intro t ht
    obtain ⟨-, g', hg', hle, -⟩ := h.issued t ht
    cases hg'
    exact hle.trans_lt hpast
  refine ⟨fun ht => lt_irrefl id (hbelow _ ht), ⟨?_, ?_⟩⟩
  · refine forall_mem_snoc (fun t hold => ?_) ?_
    · refine ⟨(h.issued t hold).1, _, rfl, (hbelow t hold).le, fun row hrow => ?_⟩
      obtain ⟨-, g', hg', -, hcount⟩ := h.issued t hold
      cases hg'
      rw [Group.deliver, Dict.get_set_of_ne _ _ (hbelow t hold).ne] at hrow
      exact hcount row hrow
    · refine ⟨le_rfl, _, rfl, le_rfl, fun row hrow => ?_⟩
      rw [Group.deliver, Dict.get_set_self] at hrow
      cases hrow
      exact le_rfl
  · intro g' hg' j row hrow
    cases hg'
    rw [Group.deliver, Dict.get_set] at hrow
    split at hrow
    · exact le_of_eq ‹_›
    · exact (h.pending g rfl j row hrow).trans hpast.le

theorem Counted.claim {row : Pending} (consumer : Text) (now : Seconds) (h : Counted (some g) ts)
    (hrow : g.pending.get id = some row) :
    (id, row.deliveryCount + 1) ∉ ts ∧
      Counted (some { g with pending := g.pending.set id (row.claimedBy consumer now) })
        (ts ++ [(id, row.deliveryCount + 1)]) := by
  have hbelow : ∀ t ∈ ts, t.1 = id → t.2 ≤ row.deliveryCount := by
    intro t ht heq
    obtain ⟨-, g', hg', -, hcount⟩ := h.issued t ht
    cases hg'
    exact hcount row (heq ▸ hrow)
  refine ⟨fun ht => Nat.not_succ_le_self _ (hbelow _ ht rfl), ⟨?_, ?_⟩⟩
  · refine forall_mem_snoc (fun t hold => ?_) ?_
    · obtain ⟨hpos, g', hg', hle, hcount⟩ := h.issued t hold
      cases hg'
      refine ⟨hpos, _, rfl, hle, fun row' hrow' => ?_⟩
      rw [Dict.get_set] at hrow'
      split at hrow'
      · cases hrow'
        exact Nat.le_succ_of_le (hbelow t hold ‹_›)
      · exact hcount row' hrow'
    · refine ⟨Nat.succ_pos _, _, rfl, h.pending g rfl id row hrow, fun row' hrow' => ?_⟩
      rw [Dict.get_set_self] at hrow'
      cases hrow'
      exact le_rfl
  · intro g' hg' j row' hrow'
    cases hg'
    rw [Dict.get_set] at hrow'
    split at hrow'
    · subst_vars
      exact h.pending g rfl j row hrow
    · exact h.pending g rfl j row' hrow'

section

variable (h : Counted (some g) ts)

include h

theorem Counted.pop : Counted (some { g with pending := g.pending.erase id }) ts := by
  refine ⟨fun t ht => ?_, fun g' hg' j row hrow => ?_⟩
  · obtain ⟨hpos, g', hg', hle, hcount⟩ := h.issued t ht
    cases hg'
    exact ⟨hpos, _, rfl, hle, fun row hrow => hcount row (Dict.get_of_get_erase hrow)⟩
  · cases hg'
    exact h.pending g rfl j row (Dict.get_of_get_erase hrow)

/-- A read issues the count 1 of entries that had none. -/
theorem Counted.read {now : Seconds}
    (hread : g.readLoop stream consumer now count st.sorted [] = out) :
    Counted (some out.1) (ts ++ out.2.map StreamMessage.ticket) ∧
      Issue ts (out.2.map StreamMessage.ticket) := by
  subst hread
  refine Group.readLoop_induction (P := fun g' messages =>
    Counted (some g') (ts ++ messages.map StreamMessage.ticket) ∧
      Issue ts (messages.map StreamMessage.ticket)) st.pairwise_sorted ?_ ?_
  · intro g' messages id fields _ hpast _ ⟨hcounted, hissue⟩
    obtain ⟨hfresh, hnext⟩ := hcounted.deliver consumer now hpast
    rw [map_append, ← append_assoc]
    exact ⟨hnext, hissue.snoc hfresh⟩
  · simpa using ⟨h, (⟨by simp, by simp⟩ : Issue ts [])⟩

/-- A claim issues the next count of each entry. -/
theorem Counted.claims {now minIdle : Seconds} {entries : Dict StreamEntryId Fields}
    {rest : List PendingEntry} {out : Group × ClaimedMessage}
    (hclaim : g.claimLoop entries stream consumer now minIdle rest = out) :
    Counted (some out.1) (ts ++ out.2.messages.map StreamMessage.ticket) ∧
      Issue ts (out.2.messages.map StreamMessage.ticket) := by
  subst hclaim
  refine Group.claimLoop_induction (P := fun g' messages =>
    Counted (some g') (ts ++ messages.map StreamMessage.ticket) ∧
      Issue ts (messages.map StreamMessage.ticket)) ?_ ?_ rest ?_
  · exact fun g' messages id _ ⟨hcounted, hissue⟩ => ⟨hcounted.pop, hissue⟩
  · intro g' messages id row fields hrow _ ⟨hcounted, hissue⟩
    obtain ⟨hfresh, hnext⟩ := hcounted.claim consumer now hrow
    rw [map_append, ← append_assoc]
    exact ⟨hnext, hissue.snoc hfresh⟩
  · simpa using ⟨h, (⟨by simp, by simp⟩ : Issue ts [])⟩

theorem Counted.ack {ids : List StreamEntryId} {out : Group × List StreamEntryId}
    (hpop : g.ackLoop ids = out) : Counted (some out.1) ts := by
  subst hpop
  exact Group.ackLoop_induction (Q := fun g' _ => Counted (some g') ts) ids
    (fun g' _ _ _ _ _ hcounted => hcounted.pop) h

end

end

/-! ## The runs -/

/-- The tickets of the messages that a runner may still call its handler for. -/
def Runner.tickets (r : Runner) : List Ticket := r.phase.uncalled.map StreamMessage.ticket

def Sys.desk (s : Sys) : Desk ℕ Ticket where
  issued := issued s.log
  held i := (s.runners[i]?).elim [] Runner.tickets
  used := invocations s.log

structure Capped (stream group : Text) (cap : ℕ) (s : Sys) : Prop where
  names : ∀ r ∈ s.runners,
    r.group.stream = stream ∧ r.group.group = group ∧ r.config.maxDeliveries = cap
  counted : Counted (s.server.groupFor stream group) (issued s.log)
  honest : Honest s.desk
  within : ∀ t ∈ invocations s.log, t.2 ≤ cap

section
variable {stream group name : Text} {cap : ℕ} {s s' : Sys} {server server' : Server} {now : Seconds}
  {r r' : Runner} {events : List Event} {id : StreamEntryId}

theorem groupFor_put {st : Stream} (h : st.groups = (server.streamFor name).groups) :
    (server.put name st).groupFor stream group = server.groupFor stream group := by
  by_cases hname : stream = name
  · subst hname
    rw [Server.groupFor, Server.streamFor_put_self, h, Server.groupFor]
  · rw [Server.groupFor_put_of_ne _ _ _ hname]

theorem groupFor_append {fields : Fields} {maxlen : ℕ}
    (h : server.append now name fields maxlen = .ok (server', id)) :
    server'.groupFor stream group = server.groupFor stream group := by
  obtain rfl := server.append_eq_ok name h
  exact groupFor_put rfl

theorem issued_claimed (messages : List StreamMessage) :
    issued (messages.map fun m => .claimed consumer m.id m.deliveryCount) =
      messages.map StreamMessage.ticket := by
  induction messages with
  | nil => rfl
  | cons m messages ih => exact congrArg (m.ticket :: ·) ih

theorem issued_read {g : Group} (hread : g.readLoop stream consumer now count st.sorted [] = out) :
    issued (out.2.map fun m => .read consumer m.id) = out.2.map StreamMessage.ticket := by
  have hone : ∀ m ∈ out.2, m.deliveryCount = 1 := by
    subst hread
    exact fun m hm => (Group.readLoop_message hm).2.2
  generalize out.2 = messages at hone
  induction messages with
  | nil => rfl
  | cons m messages ih =>
    rw [forall_mem_cons] at hone
    have hticket : m.ticket = (m.id, 1) := by rw [StreamMessage.ticket, hone.1]
    rw [map_cons, map_cons, hticket, ← ih hone.2]
    rfl

variable {log : List Event} {i : ℕ} {held : ℕ → List Ticket}

theorem moves_quiet (hheld : held i = r.tickets)
    (hless : r'.phase.uncalled.Sublist r.phase.uncalled)
    (hissued : issued events = []) (hused : invocations events = []) :
    ReflTransGen Move ⟨issued log, held, invocations log⟩
      ⟨issued (log ++ events), Function.update held i r'.tickets, invocations (log ++ events)⟩ := by
  have hless : r'.tickets.Sublist (held i) := hheld ▸ hless.map _
  rw [issued_quiet hissued, invocations_quiet hused]
  exact .single (.drop i r'.tickets hless)

theorem moves_effect (hheld : held i = r.tickets)
    (hcounted : Counted (server.groupFor r.group.stream r.group.group) (issued log))
    (heffect : Effect r server now server' r' events) :
    ReflTransGen Move ⟨issued log, held, invocations log⟩
      ⟨issued (log ++ events), Function.update held i r'.tickets, invocations (log ++ events)⟩ := by
  cases heffect with
  | rests inHand uncalled => exact moves_quiet hheld uncalled rfl rfl
  | creates new phase => exact moves_quiet hheld (phase ▸ .refl _) rfl rfl
  | claims entries found claim inHand uncalled =>
    rw [found] at hcounted
    obtain ⟨-, hissue⟩ := hcounted.claims claim
    rw [issued_append, issued_claimed, invocations_quiet, Runner.tickets, uncalled]
    · exact exchange i (nil_sublist _) hissue.fresh hissue.distinct
    · simp [invocations]
  | reads count found read inHand uncalled =>
    rw [found] at hcounted
    obtain ⟨-, hissue⟩ := hcounted.read read
    rw [issued_append, issued_read read, invocations_quiet, Runner.tickets, uncalled, map_append]
    · refine exchange i ?_ hissue.fresh hissue.distinct
      rw [hheld]
      exact List.Sublist.refl _
    · simp [invocations]
  | invokes message within inHand uncalled =>
    have hnext : held i = message.ticket :: r'.tickets := by
      rw [hheld, Runner.tickets, uncalled]
      rfl
    rw [issued_quiet rfl, invocations_append]
    exact .single (.use i message.ticket r'.tickets hnext)
  | returns message inHand uncalled => exact moves_quiet hheld (uncalled ▸ .refl _) rfl rfl
  | copies message mem copy append inHand uncalled =>
    exact moves_quiet hheld (uncalled ▸ .refl _) (by simp [issued, appendEvents])
      (by simp [invocations, appendEvents])
  | acks ids found pop mem phase =>
    exact moves_quiet hheld (phase ▸ nil_sublist _) (by simp [issued]) (by simp [invocations])

theorem counted_effect
    (hcounted : Counted (server.groupFor r.group.stream r.group.group) (issued log))
    (heffect : Effect r server now server' r' events) :
    Counted (server'.groupFor r.group.stream r.group.group) (issued (log ++ events)) := by
  cases heffect with
  | creates new =>
    rw [new] at hcounted
    have hnone : issued log = [] := by
      refine eq_nil_iff_forall_not_mem.mpr fun t ht => ?_
      obtain ⟨-, g, hg, -⟩ := hcounted.issued t ht
      cases hg
    rw [Server.groupFor_setGroup, issued_append, hnone]
    refine ⟨nofun, fun g hg id row hrow => ?_⟩
    cases hg
    simp [Dict.get_empty] at hrow
  | claims entries found claim =>
    rw [found] at hcounted
    rw [Server.groupFor_setGroup, issued_append, issued_claimed]
    exact (hcounted.claims claim).1
  | reads count found read =>
    rw [found] at hcounted
    rw [Server.groupFor_setGroup, issued_append, issued_read read]
    exact (hcounted.read read).1
  | copies message mem copy append =>
    rw [groupFor_append append, issued_quiet (by simp [issued, appendEvents])]
    exact hcounted
  | acks ids found pop =>
    rw [found] at hcounted
    rw [Server.groupFor_setGroup, issued_quiet (by simp [issued])]
    exact hcounted.ack pop
  | rests | invokes | returns =>
    rw [issued_quiet rfl]
    exact hcounted

theorem within_effect (heffect : Effect r server now server' r' events) :
    ∀ t ∈ invocations events, t.2 ≤ r.config.maxDeliveries := by
  cases heffect with
  | invokes message within => simpa [invocations] using within
  | _ => simp [invocations, appendEvents]

section

variable (h : Capped stream group cap s)

include h

theorem Capped.outside {server : Server}
    (hgroup : server.groupFor stream group = s.server.groupFor stream group)
    (hissued : issued events = []) (hused : invocations events = []) :
    Capped stream group cap { s with server, log := s.log ++ events } := by
  have hdesk : Sys.desk { s with server, log := s.log ++ events } = s.desk := by
    simp [Sys.desk, issued_quiet hissued, invocations_quiet hused]
  refine ⟨h.names, ?_, ?_, ?_⟩
  · rw [hgroup, issued_quiet hissued]
    exact h.counted
  · rw [hdesk]
    exact h.honest
  · rw [invocations_quiet hused]
    exact h.within

theorem Capped.turn {t : Turn} {out : Server × Runner × List Event} (hr : s.runners[i]? = some r)
    (hturn : r.turn s.server s.now t = some out) :
    Capped stream group cap
      { s with server := out.1, runners := s.runners.set i out.2.1, log := s.log ++ out.2.2 } := by
  have hmem : r ∈ s.runners := mem_of_getElem? hr
  have hi := lt_of_getElem? hr
  have heffect := Runner.turn_effect hturn
  have hkin := Runner.turn_kin hturn
  obtain ⟨rfl, rfl, rfl⟩ := h.names r hmem
  have hheld : s.desk.held i = r.tickets := by simp [Sys.desk, hr]
  have hafter : Sys.desk { s with
      server := out.1, runners := s.runners.set i out.2.1, log := s.log ++ out.2.2 } =
      ⟨issued (s.log ++ out.2.2), Function.update s.desk.held i out.2.1.tickets,
        invocations (s.log ++ out.2.2)⟩ := by
    unfold Sys.desk
    congr 1
    funext j
    by_cases hj : j = i
    · subst hj
      simp [hi]
    · rw [Function.update_of_ne hj]
      simp [getElem?_set_ne fun e => hj e.symm]
  refine ⟨?_, counted_effect h.counted heffect, ?_, ?_⟩
  · refine forall_mem_set h.names ?_
    rw [hkin.1, hkin.2.1, hkin.2.2]
    exact ⟨rfl, rfl, rfl⟩
  · rw [hafter]
    exact h.honest.moves (moves_effect hheld h.counted heffect)
  · rw [invocations_append]
    exact forall_mem_append.mpr ⟨h.within, within_effect heffect⟩

theorem step_capped {a : Action} (hstep : s.step a = some s') : Capped stream group cap s' := by
  cases a with
  | tick =>
    simp only [Sys.step] at hstep
    split at hstep <;> cases hstep
    exact ⟨h.names, h.counted, h.honest, h.within⟩
  | publish =>
    cases hstep
    unfold Sys.publish
    split
    · exact h
    rename_i happend
    exact h.outside (groupFor_append happend) (by simp [issued, appendEvents])
      (by simp [invocations, appendEvents])
  | delete =>
    cases hstep
    refine h.outside (groupFor_put rfl) ?_ ?_
    all_goals split <;> rfl
  | turn =>
    simp only [Sys.step] at hstep
    split at hstep
    · cases hstep
    rename_i r hr
    obtain ⟨out, hturn, rfl⟩ := Option.map_eq_some_iff.mp hstep
    exact h.turn hr hturn

end

theorem Sys.Initial.capped (h : s.Initial stream group)
    (hcap : ∀ r ∈ s.runners, r.config.maxDeliveries = cap) : Capped stream group cap s := by
  obtain ⟨server, now, runners, log⟩ := s
  obtain ⟨rfl, rfl, hrunners⟩ := h
  refine ⟨fun r hr => ⟨(hrunners r hr).1, (hrunners r hr).2.1, hcap r hr⟩, ⟨nofun, nofun⟩, ?_,
    nofun⟩
  have hheld : ∀ i, (Sys.desk ⟨{}, now, runners, []⟩).held i = [] := by
    intro i
    unfold Sys.desk
    cases hr : runners[i]? with
    | none => simp [hr]
    | some r => simp [hr, Runner.tickets, (hrunners r (mem_of_getElem? hr)).2.2, Phase.uncalled]
  have hused : (Sys.desk ⟨{}, now, runners, []⟩).used = [] := rfl
  refine ⟨?_, ?_, ?_, ?_, ?_, ?_⟩ <;> simp [hheld, hused]

theorem capped_of_run (hinit : s.Initial stream group)
    (hcap : ∀ r ∈ s.runners, r.config.maxDeliveries = cap) (hrun : Run Sys.step Always s s') :
    Capped stream group cap s' :=
  hrun.invariant (fun h _ hstep => step_capped h hstep) (hinit.capped hcap)

end

/-! ## The result -/

/-- The delivery counts that the handler was called with for an entry, in the order of the calls. -/
def callsFor (log : List Event) (id : StreamEntryId) : List ℕ :=
  ((invocations log).filter fun t => t.1 = id).map Prod.snd

section
variable {stream group : Text} {cap : ℕ} {s : Sys} {id : StreamEntryId}

theorem Capped.callsFor_nodup (h : Capped stream group cap s) : (callsFor s.log id).Nodup := by
  refine List.Nodup.map_on ?_ (h.honest.used_nodup.filter _)
  intro t ht t' ht' hcount
  have hid : t.1 = id := of_decide_eq_true (mem_filter.mp ht).2
  have hid' : t'.1 = id := of_decide_eq_true (mem_filter.mp ht').2
  exact Prod.ext (hid.trans hid'.symm) hcount

theorem Capped.callsFor_range (h : Capped stream group cap s) {n : ℕ} (hn : n ∈ callsFor s.log id) :
    1 ≤ n ∧ n ≤ cap := by
  obtain ⟨t, ht, rfl⟩ := mem_map.mp hn
  have hused : t ∈ invocations s.log := (mem_filter.mp ht).1
  exact ⟨(h.counted.issued t (h.honest.used_issued t hused)).1, h.within t hused⟩

end

/-- **The delivery cap.** Whatever the runners of a group do, if all have the same cap, the handler
    is called for an entry at most that many times, each time with another count from 1 to the
    cap. -/
theorem handler_calls_capped {stream group : Text} {cap : ℕ} {s₀ s : Sys}
    (hinit : s₀.Initial stream group) (hcap : ∀ r ∈ s₀.runners, r.config.maxDeliveries = cap)
    (hrun : Run Sys.step Always s₀ s) (id : StreamEntryId) :
    (callsFor s.log id).length ≤ cap ∧ (callsFor s.log id).Nodup ∧
      ∀ n ∈ callsFor s.log id, 1 ≤ n ∧ n ≤ cap := by
  have h := capped_of_run hinit hcap hrun
  refine ⟨?_, h.callsFor_nodup, fun n hn => h.callsFor_range hn⟩
  have hsub : callsFor s.log id ⊆ range' 1 cap := by
    intro n hn
    have hrange := h.callsFor_range hn
    rw [mem_range'_1]
    omega
  simpa using (subperm_of_subset h.callsFor_nodup hsub).length_le

/-- Two runners of a group with a cap of two. -/
def twice : Sys where
  runners := [.unused 's' 'g' 'a' 2 Nat.two_pos, .unused 's' 'g' 'b' 2 Nat.two_pos]

/-- The second runner claims an entry whose handler is still running at the first. -/
def overtaken : List Action :=
  [.turn 0 .start, .turn 1 .start, .publish (lit "s") (Dict.set ∅ (lit "n") [1]) 0,
    .turn 0 .scan, .turn 0 .read, .turn 0 .next,
    .tick 60,
    .turn 1 .scan, .turn 1 .claim, .turn 1 .read, .turn 1 .next, .turn 1 (.handled .raised)]

theorem handler_calls_capped_overtaken : ∃ s, Run Sys.step Always twice s ∧
    callsFor s.log ⟨0, 1⟩ = [1, 2] ∧ (callsFor s.log ⟨0, 1⟩).length ≤ 2 := by
  have hinit : twice.Initial (lit "s") (lit "g") := ⟨rfl, rfl, by decide⟩
  refine Run.exists_of_replay_and overtaken (by decide +kernel) fun hrun _ => ?_
  exact (handler_calls_capped hinit (by decide) hrun _).1

end RedisStreams
