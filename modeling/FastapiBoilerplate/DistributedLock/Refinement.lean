import FastapiBoilerplate.DistributedLock.Joint

/-!
# The Redis backend refines the in-memory one

Call by call the two keep in step. With the TTLs rounded up to whole milliseconds on both sides the
deadlines are equal, and the two always answer alike. With the TTLs as they are, they answer alike
as long as no call on a name comes within the millisecond after its claim has run out.

The stores are related by `Joint`. For each call one lemma serves it on both sides, keeps the
relation and compares the answers (`Joint.acquire` and its like). `InStep` adds the histories, whose
leases correspond one to one, and a history is then followed call by call (`InStep.step`).
-/

namespace DistributedLock.Redis

open Lib List Option
open Memory (Purged)

variable {ns name : Text} {close : Time → Time → Prop} {clock now ttlSeconds : Time} {m m' : Memory}
  {db db' : Db} {ls : List Lease}

/-! ## The same answers -/

/-- The milliseconds `_ttl_milliseconds` makes of a TTL, in seconds: the TTL, rounded up to the
    next whole millisecond. -/
def wholeMilliseconds (ttlSeconds : Time) : Time := (max 1 ⌈ttlSeconds * 1000⌉ : ℤ) / 1000

theorem le_wholeMilliseconds (ttlSeconds : Time) : ttlSeconds ≤ wholeMilliseconds ttlSeconds := by
  have hceil : ttlSeconds * 1000 ≤ (⌈ttlSeconds * 1000⌉ : ℤ) := Int.le_ceil _
  have hmax : (⌈ttlSeconds * 1000⌉ : ℚ) ≤ ((max 1 ⌈ttlSeconds * 1000⌉ : ℤ) : ℚ) :=
    Int.cast_le.mpr (le_max_right _ _)
  rw [wholeMilliseconds, le_div_iff₀ (by norm_num)]
  exact le_trans hceil hmax

theorem wholeMilliseconds_lt (h : 0 < ttlSeconds) :
    wholeMilliseconds ttlSeconds < ttlSeconds + 1 / 1000 := by
  have hpos : 0 < ⌈ttlSeconds * 1000⌉ := Int.ceil_pos.mpr (by linarith)
  have hmax : max 1 ⌈ttlSeconds * 1000⌉ = ⌈ttlSeconds * 1000⌉ := max_eq_right hpos
  have hceil : (⌈ttlSeconds * 1000⌉ : ℚ) < ttlSeconds * 1000 + 1 := Int.ceil_lt_add_one _
  rw [wholeMilliseconds, hmax, div_lt_iff₀ (by norm_num)]
  linarith

/-- The in-memory backend's lease `l` and the Redis backend's `l'`: the same name, token and owner;
    the TTL asked for, `round`ed in memory; and each deadline counted from the backend's own
    reading. -/
def Matches (round : Time → Time) (served started : Time) (l l' : Lease) : Prop :=
  (l'.name = l.name ∧ l'.token = l.token ∧ l'.owner = l.owner) ∧
    l.ttlSeconds = round l'.ttlSeconds ∧ l.expiresAt = served + l.ttlSeconds ∧
    l'.expiresAt = started + l'.ttlSeconds

/-- The two backends answered alike. -/
def Agree (round : Time → Time) (served started : Time) : Answer → Answer → Prop
  | .invalid error, .invalid error' => error = error'
  | .acquired none, .acquired none => True
  | .acquired (some l), .acquired (some l') => Matches round served started l l'
  | .extended none, .extended none => True
  | .extended (some l), .extended (some l') => Matches round served started l l'
  | .released outcome, .released outcome' => outcome = outcome'
  | .inspected none, .inspected none => True
  | .inspected (some state), .inspected (some state') =>
    state'.name = state.name ∧ state'.token = state.token ∧ state'.owner = state.owner
  | _, _ => False

section Serve

variable {round : Time → Time} {started served : Time}

theorem ttlMilliseconds_eq (h : 0 < ttlSeconds) :
    ttlMilliseconds ttlSeconds = .ok (max 1 ⌈ttlSeconds * 1000⌉) :=
  if_neg (not_le.mpr h)

variable {owner valid : Text} {b : Bytes} {ttlSeconds : Time} {lease : Lease}

section

variable (hvalid : validateLockName name = .ok valid) (hpos : 0 < ttlSeconds)
  (hb : utf8Encode owner = some b)

include hvalid hpos hb

theorem acquire_held {entry : Entry} (hfind : db.find (lockKey ns name) served = some entry) :
    Redis.acquire ns started served db name owner ttlSeconds = (db, .ok (.acquired none)) := by
  simp [Redis.acquire, hvalid, ttlMilliseconds_eq hpos, hb, acquireLua, Db.get, hfind,
    acquireReply]

theorem acquire_free {token : ℤ} (htoken : Token token)
    (hget : db.get (lockKey ns name) served = none)
    (hincr : db.incr (fenceKey ns name) served = some (db', token)) :
    Redis.acquire ns started served db name owner ttlSeconds =
      (db'.insert (lockKey ns name)
        ⟨claimBytes token b, some (served + wholeMilliseconds ttlSeconds)⟩,
       .ok (.acquired (some ⟨name, token, owner, ttlSeconds, started + ttlSeconds⟩))) := by
  have hsplit : splitLockValue (utf8DecodeReplace
      (asciiBytes (plain token) ++ (asciiBytes (lit ":") ++ b))) = .ok (token, owner) :=
    htoken.split_claimBytes hb
  simp only [Redis.acquire, hvalid, ttlMilliseconds_eq hpos, hb, acquireLua, hget, hincr,
    map_some, acquireReply, hsplit]
  rfl

end

theorem Joint.acquire (h : Joint ns close clock m db ls) (hclose : ∀ a e, close a e → a ≤ e)
    (hround : ∀ ttl t, 0 < ttl → close (t + round ttl) (t + wholeMilliseconds ttl))
    (hclock : clock ≤ served) (hstart : started ≤ served)
    (hvalid : validateLockName name = .ok valid) (hb : utf8Encode owner = some b)
    (hpos : 0 < ttlSeconds)
    (hbound : ∀ n, ((m.acquire name owner (round ttlSeconds) served served).1.counters.lookup
      n).getD 0 < 10 ^ 14)
    (hclear : Clear close m name served) :
    ∃ db' answer, Redis.acquire ns started served db name owner ttlSeconds = (db', .ok answer) ∧
      Joint ns close served (m.acquire name owner (round ttlSeconds) served served).1 db'
        (ls ++ answer.lease.toList) ∧
      Agree round served started (m.acquire name owner (round ttlSeconds) served served).2
        answer := by
  rcases m.acquire_cases hvalid owner (round ttlSeconds) served served with
    ⟨row, hrow, hlt, hacq⟩ | ⟨m', token, hp, htoken, hacq⟩
  · obtain ⟨b', e, -, -, hfind⟩ := h.find_row hclose hrow hlt
    rw [hacq]
    refine ⟨db, _, acquire_held hvalid hpos hb hfind, ?_, trivial⟩
    simpa [Answer.lease] using h.later hclock
  have hj := h.purged hclock hp hclear
  have hcount : (m'.counters.lookup name).getD 0 + 1 = token := by rw [hp.counters, htoken]
  have hsmall : token < 10 ^ 14 := by
    have := hbound name
    rwa [hacq, AList.lookup_insert, getD_some] at this
  have hincr := hj.incr name served (hcount ▸ hsmall)
  rw [hcount] at hincr
  have hgrant := hj.grant ⟨name, token, owner, ttlSeconds, started + ttlSeconds⟩ hcount.symm
    hsmall hb (hround ttlSeconds served hpos) rfl rfl rfl
    (add_le_add hstart (le_wholeMilliseconds ttlSeconds))
  rw [hp.counters] at hgrant
  have htok : Token token := hgrant.token (l := ⟨name, token, owner, _, _⟩)
    mem_concat_self (by rwa [hacq] at hbound)
  rw [hacq]
  exact ⟨_, _, acquire_free hvalid hpos hb htok (h.get_purged hclock hp hclear) hincr, hgrant,
    ⟨rfl, rfl, rfl⟩, rfl, rfl, rfl⟩

/-! What `extend` and `release` answer, by what they find under the key. -/

section Found

variable {found : Option Entry} (htoken : Token lease.token) (hb : utf8Encode lease.owner = some b)

include htoken hb

theorem extend_eq (hpos : 0 < ttlSeconds)
    (hfind : db.find (lockKey ns lease.name) served = found) :
    Redis.extend ns started served db lease ttlSeconds =
      if found.any (·.value = claimBytes lease.token b) then
        (db.insert (lockKey ns lease.name)
          ⟨claimBytes lease.token b, some (served + wholeMilliseconds ttlSeconds)⟩,
         .ok (.extended (some (lease.renewedFor ttlSeconds (started + ttlSeconds)))))
      else (db, .ok (.extended none)) := by
  simp only [Redis.extend, ttlMilliseconds_eq hpos, htoken.lockBytes hb, extendLua, Db.get, hfind]
  cases found with
  | none => simp
  | some entry =>
    by_cases hvalue : entry.value = claimBytes lease.token b <;>
      simp [hvalue, hfind, Db.pexpire, wholeMilliseconds]

theorem release_eq (hfind : db.find (lockKey ns lease.name) served = found) :
    Redis.release ns served db lease =
      if found.any (·.value = claimBytes lease.token b) then
        (db.erase (lockKey ns lease.name), .ok (.released .released))
      else (db, .ok (.released (if found.isSome then .notOwner else .expired))) := by
  simp only [Redis.release, htoken.lockBytes hb, releaseLua, Db.get, hfind]
  cases found with
  | none => simp [releaseOutcome]
  | some entry =>
    by_cases hvalue : entry.value = claimBytes lease.token b <;>
      simp [hvalue, Db.del, releaseOutcome]

end Found

section

variable (h : Joint ns close clock m db ls)

include h

theorem Joint.row_token (hbound : ∀ n, (m.counters.lookup n).getD 0 < 10 ^ 14) {row : Held}
    (hrow : m.held.lookup name = some row) : Token row.token := by
  obtain ⟨hpos, hle⟩ := (h.row name row hrow).1
  exact ⟨hpos, lt_of_le_of_lt hle (hbound _)⟩

/-- The key of a live row holds the lease's value exactly when the row has its token. -/
theorem Joint.value_iff (hbound : ∀ n, (m.counters.lookup n).getD 0 < 10 ^ 14) (hlease : lease ∈ ls)
    {row : Held} (hrow : m.held.lookup lease.name = some row) {b' : Bytes}
    (hb : utf8Encode row.owner = some b) (hb' : utf8Encode lease.owner = some b') :
    claimBytes row.token b = claimBytes lease.token b' ↔ row.token = lease.token := by
  constructor
  · exact fun he => ((h.row_token hbound hrow).claimBytes_inj (h.token hlease hbound) hb hb' he).1
  · intro htoken
    have howner := (h.known lease hlease).2.2.2 row hrow htoken
    rw [howner, hb'] at hb
    rw [htoken, some.inj hb]

section

variable {lease' : Lease} (hclose : ∀ a e, close a e → a ≤ e) (hclock : clock ≤ served)
  (hbound : ∀ n, (m.counters.lookup n).getD 0 < 10 ^ 14)

include hclose hclock hbound

theorem Joint.extend (hround : ∀ ttl t, 0 < ttl → close (t + round ttl) (t + wholeMilliseconds ttl))
    (hstart : started ≤ served) (hlease : lease' ∈ ls)
    (hsame : lease'.name = lease.name ∧ lease'.token = lease.token ∧ lease'.owner = lease.owner)
    (hpos : 0 < ttlSeconds) (hclear : Clear close m lease.name served) :
    ∃ db' answer, Redis.extend ns started served db lease' ttlSeconds = (db', .ok answer) ∧
      Joint ns close served (m.extend lease (round ttlSeconds) served served).1 db'
        (ls ++ answer.lease.toList) ∧
      Agree round served started
        (.extended (m.extend lease (round ttlSeconds) served served).2) answer := by
  obtain ⟨b, hb⟩ := (h.known lease' hlease).1
  have htok := h.token hlease hbound
  obtain ⟨hname, htoken, howner⟩ := hsame
  rw [← hname] at hclear
  rcases m.owner_cases lease served with
    ⟨row, hrow, hlt, hrtoken, hext, -⟩ | ⟨row, hrow, hlt, hrtoken, hext, -⟩ | ⟨m', hp, hext, -⟩ <;>
    rw [hext]
  · rw [← hname] at hrow ⊢
    obtain ⟨b', e, hb', -, hfind⟩ := h.find_row hclose hrow hlt
    have hrtoken : row.token = lease'.token := hrtoken.trans htoken.symm
    have hvalue := (h.value_iff hbound hlease hrow hb' hb).mpr hrtoken
    refine ⟨_, _, (extend_eq htok hb hpos hfind).trans (if_pos (by simpa)), ?_, ⟨hname, htoken, howner⟩, rfl, rfl, rfl⟩
    exact (h.later hclock).renew hbound hlease hrow hrtoken hb (hround ttlSeconds served hpos)
      rfl rfl rfl (add_le_add hstart (le_wholeMilliseconds ttlSeconds))
  · rw [← hname] at hrow
    obtain ⟨b', e, hb', -, hfind⟩ := h.find_row hclose hrow hlt
    have hvalue : claimBytes row.token b' ≠ claimBytes lease'.token b := fun he =>
      hrtoken (((h.value_iff hbound hlease hrow hb' hb).mp he).trans htoken)
    refine ⟨_, _, (extend_eq htok hb hpos hfind).trans (if_neg (by simpa)), ?_, trivial⟩
    simpa [Answer.lease] using h.later hclock
  · rw [← hname] at hp
    have hfind := find_eq_none fun _ hentry => h.vanished hclock hp hclear hentry
    refine ⟨_, _, extend_eq htok hb hpos hfind, ?_, trivial⟩
    simpa [Answer.lease] using h.purged hclock hp hclear

theorem Joint.release (hlease : lease' ∈ ls) (hname : lease'.name = lease.name)
    (htoken : lease'.token = lease.token)
    (hclear : Clear close m lease.name served) :
    ∃ db' answer, Redis.release ns served db lease' = (db', .ok answer) ∧
      Joint ns close served (m.release lease served).1 db' (ls ++ answer.lease.toList) ∧
      Agree round served started (.released (m.release lease served).2) answer := by
  obtain ⟨b, hb⟩ := (h.known lease' hlease).1
  have htok := h.token hlease hbound
  rw [← hname] at hclear
  rcases m.owner_cases lease served with
    ⟨row, hrow, hlt, hrtoken, -, hrel⟩ | ⟨row, hrow, hlt, hrtoken, -, hrel⟩ | ⟨m', hp, -, hrel⟩ <;>
    rw [hrel]
  · rw [← hname] at hrow ⊢
    obtain ⟨b', e, hb', -, hfind⟩ := h.find_row hclose hrow hlt
    have hvalue := (h.value_iff hbound hlease hrow hb' hb).mpr (hrtoken.trans htoken.symm)
    refine ⟨_, _, (release_eq htok hb hfind).trans (if_pos (by simpa)), ?_, rfl⟩
    simpa [Answer.lease] using (h.later hclock).takeBack lease'.name
  · rw [← hname] at hrow
    obtain ⟨b', e, hb', -, hfind⟩ := h.find_row hclose hrow hlt
    have hvalue : claimBytes row.token b' ≠ claimBytes lease'.token b := fun he =>
      hrtoken (((h.value_iff hbound hlease hrow hb' hb).mp he).trans htoken)
    refine ⟨_, _, (release_eq htok hb hfind).trans (if_neg (by simpa)), ?_, rfl⟩
    simpa [Answer.lease] using h.later hclock
  · rw [← hname] at hp
    have hfind := find_eq_none fun _ hentry => h.vanished hclock hp hclear hentry
    refine ⟨_, _, release_eq htok hb hfind, ?_, rfl⟩
    simpa [Answer.lease] using h.purged hclock hp hclear

theorem Joint.inspect (hclear : Clear close m name served) :
    Joint ns close served (m.inspect name served served).1 db ls ∧
      Agree round served started (.inspected (m.inspect name served served).2)
        (.inspected (Redis.inspect ns served db name)) := by
  rcases m.inspect_cases name served served with ⟨row, hrow, hlt, hins⟩ | ⟨m', hp, hins⟩
  · obtain ⟨b, e, hb, -, hfind⟩ := h.find_row hclose hrow hlt
    have htoken := h.row_token hbound hrow
    rw [hins]
    refine ⟨h.later hclock, ?_⟩
    simp only [Redis.inspect, Db.get, hfind, map_some, htoken.split_claimBytes hb]
    exact ⟨rfl, rfl, rfl⟩
  · rw [hins]
    refine ⟨h.purged hclock hp hclear, ?_⟩
    simp only [Redis.inspect, h.get_purged hclock hp hclear, map_none]
    trivial

end

end

end Serve

/-! ## The counter counts -/

/-- The counter of a name is the number of its acquisitions. -/
def Counted (s : Memory.Sys) : Prop :=
  ∀ n, (s.memory.counters.lookup n).getD 0 = (acquisitions s.history n).length

theorem acquisitions_snoc (history : List Exchange) (x : Exchange) (n : Text) :
    acquisitions (history ++ [x]) n =
      acquisitions history n ++ (x.acquired.toList.filter fun lease => lease.name = n) := by
  unfold acquisitions
  rw [filterMap_append, filter_append]
  cases h : x.acquired <;> simp [h]

variable {history : List Exchange} {s : Memory.Sys} {round : Time → Time} {x : Exchange}

theorem Counted.acquired (h : Counted ⟨m, clock, history⟩) {lease : Lease}
    (hx : x.acquired = some lease)
    (htoken : lease.token = (m.counters.lookup lease.name).getD 0 + 1)
    (hcounters : m'.counters = m.counters.insert lease.name lease.token) :
    Counted ⟨m', now, history ++ [x]⟩ := by
  intro n
  have hn : (m.counters.lookup n).getD 0 = (acquisitions history n).length := h n
  show (m'.counters.lookup n).getD 0 = ((acquisitions (history ++ [x]) n).length : ℤ)
  rw [acquisitions_snoc, hx, hcounters]
  by_cases hne : lease.name = n
  · subst hne
    rw [AList.lookup_insert, getD_some, htoken, hn]
    simp
  · rw [AList.lookup_insert_ne (Ne.symm hne), hn]
    simp [hne]

theorem Counted.other (h : Counted ⟨m, clock, history⟩) (hx : x.acquired = none)
    (hcounters : m'.counters = m.counters) : Counted ⟨m', now, history ++ [x]⟩ := by
  intro n
  show (m'.counters.lookup n).getD 0 = ((acquisitions (history ++ [x]) n).length : ℤ)
  rw [acquisitions_snoc, hx, hcounters]
  simpa using h n

theorem Counted.exchange (h : Counted s) (call : Call) (now now' : Time) :
    Counted (s.exchange call now now') := by
  cases call with
  | acquire name owner ttlSeconds =>
    cases hvalid : validateLockName name with
    | error error =>
      have hserve : s.memory.acquire name owner ttlSeconds now now' =
          (s.memory, .invalid error) := by
        simp [Memory.acquire, hvalid]
      simp only [Memory.Sys.exchange, Memory.serve, hserve]
      exact h.other rfl rfl
    | ok =>
      rcases s.memory.acquire_cases hvalid owner ttlSeconds now now' with
        ⟨row, -, -, hserve⟩ | ⟨m', token, -, htoken, hserve⟩ <;>
        simp only [Memory.Sys.exchange, Memory.serve, hserve]
      · exact h.other rfl rfl
      · exact h.acquired rfl htoken rfl
  | extend lease ttlSeconds =>
    rcases s.memory.owner_cases lease now with
      ⟨row, -, -, -, hext, -⟩ | ⟨row, -, -, -, hext, -⟩ | ⟨m', hp, hext, -⟩ <;>
      simp only [Memory.Sys.exchange, Memory.serve, hext, Prod.map]
    · exact h.other rfl rfl
    · exact h.other rfl rfl
    · exact h.other rfl hp.counters
  | release lease =>
    rcases s.memory.owner_cases lease now with
      ⟨row, -, -, -, -, hrel⟩ | ⟨row, -, -, -, -, hrel⟩ | ⟨m', hp, -, hrel⟩ <;>
      simp only [Memory.Sys.exchange, Memory.serve, hrel, Prod.map]
    · exact h.other rfl rfl
    · exact h.other rfl rfl
    · exact h.other rfl hp.counters
  | inspect name =>
    rcases s.memory.inspect_cases name now now' with ⟨row, -, -, hins⟩ | ⟨m', hp, hins⟩ <;>
      simp only [Memory.Sys.exchange, Memory.serve, hins, Prod.map]
    · exact h.other rfl rfl
    · exact h.other rfl hp.counters
  | clear => exact h.other rfl rfl

theorem acquisitions_length_le {s' : Memory.Sys} {a : Memory.Action} (h : s.step a = some s')
    (n : Text) : (acquisitions s.history n).length ≤ (acquisitions s'.history n).length := by
  have hexchange : ∀ call now now', (acquisitions s.history n).length ≤
      (acquisitions (s.exchange call now now').history n).length := by
    intro call now now'
    rw [show (s.exchange call now now').history = s.history ++ _ from rfl, acquisitions_snoc,
      length_append]
    exact Nat.le_add_right _ _
  cases a with
  | clear =>
    cases h
    exact hexchange _ _ _
  | call =>
    simp only [Memory.Sys.step] at h
    split at h
    · obtain ⟨call, -, rfl⟩ := map_eq_some_iff.mp h
      exact hexchange _ _ _
    · cases h

/-! ## Whole histories -/

/-- The request with its TTL rounded. -/
def roundTtl (round : Time → Time) : Request → Request
  | .acquire name owner ttlSeconds => .acquire name owner (round ttlSeconds)
  | .extend lease ttlSeconds => .extend lease (round ttlSeconds)
  | .release lease => .release lease
  | .inspect name => .inspect name

/-- The request made of the in-memory backend, at the time the Redis server serves it. -/
def Timed.action (round : Time → Time) (t : Timed) : Memory.Action :=
  .call (roundTtl round t.request) t.served t.served

/-- A valid name, a positive TTL, an owner that can be encoded; sent before it is served. -/
def Timed.Valid (t : Timed) : Prop :=
  t.started ≤ t.served ∧
    match t.request with
    | .acquire name owner ttlSeconds =>
      (∃ valid, validateLockName name = .ok valid) ∧ 0 < ttlSeconds ∧
        ∃ b, utf8Encode owner = some b
    | .extend _ ttlSeconds => 0 < ttlSeconds
    | .release _ => True
    | .inspect name => ∃ valid, validateLockName name = .ok valid

/-- No call comes between the deadlines of a row and of its key. -/
def Spaced (close : Time → Time → Prop) (s : Memory.Sys) : Memory.Action → Prop
  | .call request now _ => ∀ call, request.call (issued s.history) = some call →
    Clear close s.memory call.name now
  | .clear => True

/-- The exchange of the one backend and that of the other answered alike. -/
def Agrees (round : Time → Time) (x : Exchange) (y : Sent) : Prop :=
  Agree round x.time y.started x.answer y.answer

/-- The two backends after the same calls. -/
structure InStep (ns : Text) (close : Time → Time → Prop) (round : Time → Time) (s : Memory.Sys)
    (r : Sys) : Prop where
  clock : r.clock = s.clock
  joint : Joint ns close s.clock s.memory r.db (leases r.history)
  counted : Counted s
  agree : List.Forall₂ (Agrees round) s.history r.history

theorem Agree.lease {served started : Time} {a a' : Answer} (h : Agree round served started a a') :
    (a.lease = none ∧ a'.lease = none) ∨ ∃ l l', a.lease = some l ∧ a'.lease = some l' ∧
      l'.name = l.name ∧ l'.token = l.token ∧ l'.owner = l.owner := by
  unfold Agree at h
  split at h
  case h_3 l l' => exact .inr ⟨l, l', rfl, rfl, h.1⟩
  case h_5 l l' => exact .inr ⟨l, l', rfl, rfl, h.1⟩
  case h_9 => exact absurd h id
  all_goals exact .inl ⟨rfl, rfl⟩

theorem leases_agree {sent : List Sent} (h : List.Forall₂ (Agrees round) history sent) :
    List.Forall₂ (fun l l' : Lease => l'.name = l.name ∧ l'.token = l.token ∧ l'.owner = l.owner)
      (issued history) (leases sent) := by
  refine rel_filterMap (fun x y hxy => ?_) h
  rcases Agree.lease hxy with ⟨hx, hy⟩ | ⟨l, l', hx, hy, hsame⟩
  · rw [hx, hy]
    exact .none
  · rw [hx, hy]
    exact .some hsame

section Run

variable {round : Time → Time} {s s' : Memory.Sys} {r : Sys} {t : Timed}

theorem leases_snoc (history : List Sent) (started : Time) (call : Call) (answer : Answer) :
    leases (history ++ [⟨started, call, answer⟩]) = leases history ++ answer.lease.toList := by
  unfold leases
  rw [filterMap_append]
  cases h : answer.lease <;> simp [h]

theorem InStep.snoc (h : InStep ns close round s r) {call call' : Call}
    {answer : Answer} (hstarted : t.started ≤ t.served) (hclock : s.clock ≤ t.served)
    (hcall : t.request.call (leases r.history) = some call')
    (hserve : serve ns t.started t.served r.db call' = some (db', .ok answer))
    (hjoint : Joint ns close t.served (s.memory.serve t.served t.served call).1 db'
      (leases r.history ++ answer.lease.toList))
    (hagree : Agree round t.served t.started (s.memory.serve t.served t.served call).2 answer) :
    ∃ r', r.step ns t = some r' ∧
      InStep ns close round (s.exchange call t.served t.served) r' := by
  refine ⟨⟨db', t.served, r.history ++ [⟨t.started, call', answer⟩]⟩, ?_, ?_⟩
  · rw [Sys.step, if_pos ⟨h.clock ▸ hclock, hstarted⟩, hcall]
    simp only [hserve]
  · refine ⟨rfl, ?_, h.counted.exchange call _ _, ?_⟩
    · rw [leases_snoc]
      exact hjoint
    · exact rel_append h.agree (.cons hagree .nil)

theorem InStep.step (h : InStep ns close round s r) (hclose : ∀ a e, close a e → a ≤ e)
    (hround : ∀ ttl t, 0 < ttl → close (t + round ttl) (t + wholeMilliseconds ttl))
    (hvalid : t.Valid) (hspaced : Spaced close s (t.action round))
    (hstep : s.step (t.action round) = some s')
    (hgood : ∀ n, (acquisitions s'.history n).length < 10 ^ 14) :
    ∃ r', r.step ns t = some r' ∧ InStep ns close round s' r' := by
  obtain ⟨request, started, served⟩ := t
  obtain ⟨hstarted, hvalid⟩ := hvalid
  have hwhole := hstep
  simp only [Timed.action, Memory.Sys.step] at hstep
  split at hstep
  case isFalse => cases hstep
  case isTrue hclock =>
  obtain ⟨hclock, -⟩ := hclock
  obtain ⟨call, hcall, rfl⟩ := map_eq_some_iff.mp hstep
  have hclear : Clear close s.memory call.name served := hspaced call hcall
  have hcounted := h.counted.exchange call served served
  -- a counter is the number of its acquisitions, so a token has 14 digits at most
  have hbound' : ∀ n, ((s.exchange call served served).memory.counters.lookup n).getD 0 <
      10 ^ 14 := by
    intro n
    rw [hcounted n]
    exact_mod_cast hgood n
  have hbound : ∀ n, (s.memory.counters.lookup n).getD 0 < 10 ^ 14 := by
    intro n
    rw [h.counted n]
    exact_mod_cast lt_of_le_of_lt (acquisitions_length_le hwhole n) (hgood n)
  have hleases := leases_agree h.agree
  cases request with
  | acquire =>
    obtain ⟨⟨valid, hname⟩, hpos, b, hb⟩ := hvalid
    cases hcall
    obtain ⟨db', answer, hserve, hjoint, hagree⟩ := h.joint.acquire hclose hround hclock hstarted
      hname hb hpos hbound' hclear
    exact h.snoc hstarted hclock rfl (congrArg some hserve) hjoint hagree
  | extend i ttlSeconds =>
    obtain ⟨lease, hlease, rfl⟩ := map_eq_some_iff.mp hcall
    -- the Redis side goes by the lease that corresponds to this one
    obtain ⟨lease', hlease', hsame⟩ := getElem?_of_forall₂ hleases.flip hlease
    obtain ⟨db', answer, hserve, hjoint, hagree⟩ := h.joint.extend hclose hclock hbound hround
      hstarted (mem_of_getElem? hlease') hsame hvalid hclear
    have hcall' : (Request.extend i ttlSeconds).call (leases r.history) =
        some (.extend lease' ttlSeconds) := by
      simp [Request.call, hlease']
    exact h.snoc hstarted hclock hcall' (congrArg some hserve) hjoint hagree
  | release i =>
    obtain ⟨lease, hlease, rfl⟩ := map_eq_some_iff.mp hcall
    obtain ⟨lease', hlease', hname, htoken, -⟩ := getElem?_of_forall₂ hleases.flip hlease
    obtain ⟨db', answer, hserve, hjoint, hagree⟩ := h.joint.release hclose hclock hbound
      (mem_of_getElem? hlease') hname htoken hclear
    have hcall' : (Request.release i).call (leases r.history) = some (.release lease') := by
      simp [Request.call, hlease']
    exact h.snoc hstarted hclock hcall' (congrArg some hserve) hjoint hagree
  | inspect =>
    cases hcall
    obtain ⟨hjoint, hagree⟩ := h.joint.inspect hclose hclock hbound hclear
    refine h.snoc hstarted hclock rfl rfl ?_ hagree
    simpa [Answer.lease, Memory.serve, Call.name] using hjoint

theorem inStep_fresh (ns : Text) (close : Time → Time → Prop) (round : Time → Time) (t : Time) :
    InStep ns close round { clock := t } { clock := t } where
  clock := rfl
  joint := by
    constructor
    case counter => exact fun _ => rfl
    all_goals exact nofun
  counted _ := rfl
  agree := .nil

end Run

/-- The holder of a claim never takes it for live when the server does not: the lease it was given
    last has run out, by its own reckoning, no later than the key that holds its value. -/
def Punctual (ns : Text) (r : Sys) : Prop :=
  ∀ lease, last (leases r.history) lease.name lease.token = some lease → ∀ bytes entry,
    lockBytes lease = .ok bytes → r.db.lookup (lockKey ns lease.name) = some entry →
    entry.value = bytes → ∃ e, entry.expires = some e ∧ lease.expiresAt ≤ e

theorem lockstep (hclose : ∀ a e, close a e → a ≤ e)
    (hround : ∀ ttl t, 0 < ttl → close (t + round ttl) (t + wholeMilliseconds ttl)) {t₀ : Time}
    {calls : List Timed} (hvalid : ∀ t ∈ calls, t.Valid)
    (hrun : Along Memory.Sys.step (Spaced close) { clock := t₀ } (calls.map (Timed.action round)) s)
    (hgood : ∀ n, (acquisitions s.history n).length < 10 ^ 14) :
    ∃ r, Along (Sys.step ns) Always { clock := t₀ } calls r ∧
      List.Forall₂ (Agrees round) s.history r.history ∧ Punctual ns r := by
  obtain ⟨r, hr, hin⟩ := hrun.lockstep
    (fun hstep hgood n => lt_of_le_of_lt (acquisitions_length_le hstep n) (hgood n))
    (fun h => h.step hclose hround) hgood hvalid (inStep_fresh ns close round t₀)
  refine ⟨r, hr, hin.agree, ?_⟩
  intro lease hlast bytes entry hbytes hentry hvalue
  obtain ⟨hmem, -, -⟩ := mem_of_last hlast
  obtain ⟨b, hb⟩ := (hin.joint.known lease hmem).1
  have htok : Token lease.token := hin.joint.token hmem fun n => by
    rw [hin.counted n]
    exact_mod_cast hgood n
  rw [htok.lockBytes hb] at hbytes
  cases hbytes
  exact hin.joint.punctual _ _ lease hlast b entry hb hentry hvalue

/-- No call on a name comes within the millisecond after its claim has run out. -/
def Apart (s : Memory.Sys) : Memory.Action → Prop
  | .call request now _ => ∀ call, request.call (issued s.history) = some call → ∀ row,
    s.memory.held.lookup call.name = some row → row.expiresAt ≤ now → row.expiresAt + 1 / 1000 ≤ now
  | .clear => True

/-- **The Redis backend refines the in-memory one.** Given any valid calls, served at times that do
    not go backwards and with fewer than 10^14 acquisitions of each name, the Redis backend answers
    every one of them, and as the in-memory backend does at the same times: on the same calls with
    the TTLs rounded up to whole milliseconds, always; on the very same calls, when none falls into
    the millisecond that the rounding adds. And the `expires_at` of a claim's lease is never later
    than the server's expiry of its key. -/
theorem refines_memory (ns : Text) (t₀ : Time) (calls : List Timed)
    (hvalid : ∀ t ∈ calls, t.Valid) (s : Memory.Sys)
    (hgood : ∀ name, (acquisitions s.history name).length < 10 ^ 14) :
    (Along Memory.Sys.step Always { clock := t₀ } (calls.map (Timed.action wholeMilliseconds)) s →
      ∃ r, Along (Sys.step ns) Always { clock := t₀ } calls r ∧
        List.Forall₂ (Agrees wholeMilliseconds) s.history r.history ∧ Punctual ns r) ∧
    (Along Memory.Sys.step Apart { clock := t₀ } (calls.map (Timed.action id)) s →
      ∃ r, Along (Sys.step ns) Always { clock := t₀ } calls r ∧
        List.Forall₂ (Agrees id) s.history r.history ∧ Punctual ns r) := by
  constructor
  · intro hrun
    -- the deadlines are equal, so that no call falls between them
    have hspaced : ∀ (s : Memory.Sys) (a : Memory.Action), Always s a → Spaced Eq s a := by
      intro s a _
      cases a with
      | clear => trivial
      | call =>
        rintro call - row e - rfl hle
        exact hle
    exact lockstep (fun a e h => le_of_eq h) (fun ttl t _ => rfl) hvalid
      (hrun.weaken hspaced) hgood
  · intro hrun
    -- a key is there for less than a millisecond after its row has run out
    have hspaced : ∀ (s : Memory.Sys) (a : Memory.Action), Apart s a →
        Spaced (fun a e => a ≤ e ∧ e < a + 1 / 1000) s a := by
      intro s a hapart
      cases a with
      | clear => trivial
      | call =>
        intro call hcall row e hrow hclose hle
        exact le_trans (le_of_lt hclose.2) (hapart call hcall row hrow hle)
    refine lockstep (fun a e h => h.1) ?_ hvalid (hrun.weaken hspaced) hgood
    intro ttl t hpos
    have hle := le_wholeMilliseconds ttl
    have hlt := wholeMilliseconds_lt hpos
    constructor
    · exact add_le_add (le_refl t) hle
    · show t + wholeMilliseconds ttl < t + ttl + 1 / 1000
      linarith

/-- A holder with a colon in its name takes a lock, renews it, shows it and gives it back. -/
def colonOwner : List Timed :=
  [⟨.acquire (lit "job") (lit "host:7") 30, 0, 0⟩, ⟨.extend 0 30, 5, 6⟩,
   ⟨.inspect (lit "job"), 7, 7⟩, ⟨.release 1, 8, 8⟩]

theorem refines_memory_colon_owner :
    ∃ (s : Memory.Sys) (r : Sys), s.history.map Exchange.answer =
        [.acquired (some ⟨lit "job", 1, lit "host:7", 30, 30⟩),
         .extended (some ⟨lit "job", 1, lit "host:7", 30, 36⟩),
         .inspected (some ⟨lit "job", 1, lit "host:7", some 29⟩), .released .released] ∧
      Along (Sys.step (lit "dlock")) Always { clock := 0 } colonOwner r ∧
      List.Forall₂ (Agrees wholeMilliseconds) s.history r.history ∧ Punctual (lit "dlock") r := by
  have halong := Along.get_replay Memory.Sys.step Always { clock := 0 }
    (colonOwner.map (Timed.action wholeMilliseconds)) (by decide +kernel)
  have hvalid : ∀ t ∈ colonOwner, t.Valid := by
    intro t ht
    simp only [colonOwner, mem_cons, not_mem_nil, or_false] at ht
    rcases ht with rfl | rfl | rfl | rfl
    · exact ⟨le_refl _, ⟨lit "job", by decide +kernel⟩, by norm_num, asciiBytes (lit "host:7"),
        by decide +kernel⟩
    · exact ⟨by norm_num, show (0 : Time) < 30 by norm_num⟩
    · exact ⟨le_refl _, lit "job", by decide +kernel⟩
    · exact ⟨le_refl _, trivial⟩
  have hrefines := fun hgood => (refines_memory (lit "dlock") 0 colonOwner hvalid _ hgood).1 halong
  obtain ⟨r, hr⟩ := hrefines fun name =>
    ((length_filter_le _ _).trans (length_filterMap_le _ _)).trans_lt (by decide +kernel)
  exact ⟨_, r, by decide +kernel, hr⟩

end DistributedLock.Redis
