import FastapiBoilerplate.DistributedLock.Memory
import FastapiBoilerplate.DistributedLock.LockValue

/-!
# How the Redis database stands to `_held` and `_counters`

`Joint`: the counter key holds the counter, the lock key holds `token:owner` of the row, and where
there is no row the lock key is absent or past its deadline. What differs is the deadline itself,
since the in-memory backend does not round the TTL; `close` says how far a row's deadline and its
key's may be apart. Each way the two stores are written together keeps the relation.
-/

namespace DistributedLock.Redis

open Lib Option AList
open Memory (Purged)

theorem last_snoc_self (ls : List Lease) (lease : Lease) :
    last (ls ++ [lease]) lease.name lease.token = some lease := by
  simp [last]

variable {ls : List Lease} {lease : Lease} {key name : Text} {b value : Bytes}
  {e expiresAt : Time} {row : Held}

theorem last_snoc_of_ne {token : ℤ} (h : ¬ (lease.name = name ∧ lease.token = token)) :
    last (ls ++ [lease]) name token = last ls name token := by
  simp [last, h]

theorem mem_of_last {token : ℤ} (h : last ls name token = some lease) :
    lease ∈ ls ∧ lease.name = name ∧ lease.token = token := by
  have hmem := List.mem_of_getLast? h
  obtain ⟨hls, hp⟩ := List.mem_filter.mp hmem
  exact ⟨hls, of_decide_eq_true hp⟩

/-- How the two backends stand to each other: `ls` are the leases handed out by the Redis
    backend. -/
structure Joint (ns : Text) (close : Time → Time → Prop) (clock : Time) (m : Memory) (db : Db)
    (ls : List Lease) : Prop where
  counter : ∀ n, db.lookup (fenceKey ns n) =
    (m.counters.lookup n).map fun k => ⟨asciiBytes (plain k), none⟩
  counted : ∀ n k, m.counters.lookup n = some k → 1 ≤ k
  row : ∀ n row, m.held.lookup n = some row →
    (1 ≤ row.token ∧ row.token ≤ (m.counters.lookup n).getD 0) ∧
    ∃ b e, utf8Encode row.owner = some b ∧ close row.expiresAt e ∧
      db.lookup (lockKey ns n) = some ⟨claimBytes row.token b, some e⟩
  free : ∀ n entry, m.held.lookup n = none → db.lookup (lockKey ns n) = some entry →
    ∃ e, entry.expires = some e ∧ e ≤ clock
  known : ∀ l ∈ ls, (∃ b, utf8Encode l.owner = some b) ∧ 1 ≤ l.token ∧
    l.token ≤ (m.counters.lookup l.name).getD 0 ∧
    ∀ row, m.held.lookup l.name = some row → row.token = l.token → row.owner = l.owner
  punctual : ∀ name token l, last ls name token = some l → ∀ b entry,
    utf8Encode l.owner = some b → db.lookup (lockKey ns name) = some entry →
    entry.value = claimBytes token b → ∃ e, entry.expires = some e ∧ l.expiresAt ≤ e

/-- No call on `name` comes between a row's deadline and its key's. -/
def Clear (close : Time → Time → Prop) (m : Memory) (name : Text) (now : Time) : Prop :=
  ∀ row e, m.held.lookup name = some row → close row.expiresAt e → row.expiresAt ≤ now → e ≤ now

variable {ns name : Text} {close : Time → Time → Prop} {clock now : Time} {m m' : Memory} {db : Db}
  {ls : List Lease}

theorem find_of_lookup (h : db.lookup key = some ⟨value, some e⟩) (hlt : now < e) :
    db.find key now = some ⟨value, some e⟩ := by
  simp [Db.find, h, Option.filter, hlt]

theorem find_eq_none
    (h : ∀ entry, db.lookup key = some entry → ∃ e, entry.expires = some e ∧ e ≤ now) :
    db.find key now = none := by
  unfold Db.find
  cases hentry : db.lookup key with
  | none => rfl
  | some entry =>
    obtain ⟨e, he, hle⟩ := h entry hentry
    simp [Option.filter, he, not_lt.mpr hle]

theorem find_of_noExpiry (h : db.lookup key = some ⟨value, none⟩) :
    db.find key now = some ⟨value, none⟩ := by
  simp [Db.find, h, Option.filter]

/-! ## A claim that has run out -/

section

variable (h : Joint ns close clock m db ls)

include h

section

variable (hle : clock ≤ now) (hp : Purged name now m m') (hclear : Clear close m name now)

include hle hp hclear

theorem Joint.vanished {entry : Entry} (hentry : db.lookup (lockKey ns name) = some entry) :
    ∃ e, entry.expires = some e ∧ e ≤ now := by
  cases hrow : m.held.lookup name with
  | none =>
    obtain ⟨e, he, hclock⟩ := h.free name entry hrow hentry
    exact ⟨e, he, le_trans hclock hle⟩
  | some row =>
    obtain ⟨-, b, e, -, hclose, hlookup⟩ := h.row name row hrow
    rw [hlookup] at hentry
    cases hentry
    exact ⟨e, rfl, hclear row e hrow hclose (hp.expired row hrow)⟩

theorem Joint.get_purged : db.get (lockKey ns name) now = none := by
  rw [Db.get, find_eq_none fun _ hentry => h.vanished hle hp hclear hentry]
  rfl

theorem Joint.purged : Joint ns close now m' db ls := by
  have hheld : ∀ n row, m'.held.lookup n = some row → m.held.lookup n = some row := by
    intro n row hrow
    by_cases hne : n = name
    · rw [hne, hp.gone] at hrow
      cases hrow
    · rwa [hp.others n hne] at hrow
  constructor
  case counter => exact hp.counters ▸ h.counter
  case counted => exact hp.counters ▸ h.counted
  case row =>
    intro n row hrow
    rw [hp.counters]
    exact h.row n row (hheld n row hrow)
  case free =>
    intro n entry hnone hentry
    by_cases hne : n = name
    · subst hne
      exact h.vanished hle hp hclear hentry
    · rw [hp.others n hne] at hnone
      obtain ⟨e, he, hclock⟩ := h.free n entry hnone hentry
      exact ⟨e, he, le_trans hclock hle⟩
  case known =>
    intro l hl
    obtain ⟨howner, hpos, hcount, hsame⟩ := h.known l hl
    rw [hp.counters]
    exact ⟨howner, hpos, hcount, fun row hrow => hsame row (hheld l.name row hrow)⟩
  case punctual => exact h.punctual

end

theorem Joint.later (hle : clock ≤ now) : Joint ns close now m db ls := by
  refine { h with free := fun n entry hnone hentry => ?_ }
  obtain ⟨e, he, hclock⟩ := h.free n entry hnone hentry
  exact ⟨e, he, le_trans hclock hle⟩

theorem Joint.find_row (hclose : ∀ a e, close a e → a ≤ e) (hrow : m.held.lookup name = some row)
    (hlt : now < row.expiresAt) :
    ∃ b e, utf8Encode row.owner = some b ∧
      db.lookup (lockKey ns name) = some ⟨claimBytes row.token b, some e⟩ ∧
      db.find (lockKey ns name) now = some ⟨claimBytes row.token b, some e⟩ := by
  obtain ⟨-, b, e, hb, hce, hlookup⟩ := h.row name row hrow
  exact ⟨b, e, hb, hlookup, find_of_lookup hlookup (lt_of_lt_of_le hlt (hclose _ _ hce))⟩

/-! ## Acquiring -/

theorem Joint.incr (name : Text) (now : Time)
    (hbound : (m.counters.lookup name).getD 0 + 1 < 10 ^ 14) :
    db.incr (fenceKey ns name) now =
      some (db.insert (fenceKey ns name)
          ⟨asciiBytes (plain ((m.counters.lookup name).getD 0 + 1)), none⟩,
        (m.counters.lookup name).getD 0 + 1) := by
  have hlookup := h.counter name
  unfold Db.incr
  cases hk : m.counters.lookup name with
  | none =>
    rw [hk] at hlookup
    have hfind : db.find (fenceKey ns name) now = none := by
      apply find_eq_none
      intro entry hentry
      rw [hlookup] at hentry
      cases hentry
    rw [hfind]
    rfl
  | some k =>
    rw [hk] at hlookup hbound
    have hpos : 1 ≤ k := h.counted name k hk
    have hbound : k + 1 < 10 ^ 14 := hbound
    have htoken : Token k := ⟨hpos, by omega⟩
    rw [find_of_noExpiry hlookup]
    simp only [htoken.utf8Decode, bind_some, htoken.readInt]
    rw [if_pos ⟨trivial, by omega, by omega⟩]
    rfl

theorem Joint.count {token : ℤ} (htoken : token = (m.counters.lookup name).getD 0 + 1) :
    Joint ns close clock { m with counters := m.counters.insert name token }
      (db.insert (fenceKey ns name) ⟨asciiBytes (plain token), none⟩) ls := by
  have hcount : 0 ≤ (m.counters.lookup name).getD 0 := by
    cases hk : m.counters.lookup name with
    | none => exact le_refl _
    | some k => exact le_trans (by decide) (h.counted name k hk)
  have hlock : ∀ n, (db.insert (fenceKey ns name) ⟨asciiBytes (plain token), none⟩).lookup
      (lockKey ns n) = db.lookup (lockKey ns n) :=
    fun n => lookup_insert_ne (lockKey_ne_fenceKey n name)
  -- the counter only goes up, so every token that was below it stays below
  have hmono : ∀ n, (m.counters.lookup n).getD 0 ≤
      ((m.counters.insert name token).lookup n).getD 0 := by
    intro n
    by_cases hne : n = name
    · rw [hne, lookup_insert, getD_some]
      omega
    · rw [lookup_insert_ne hne]
  constructor
  case counter =>
    intro n
    by_cases hne : n = name
    · rw [hne, lookup_insert, lookup_insert, map_some]
    · rw [lookup_insert_ne (fenceKey_ne hne), lookup_insert_ne hne]
      exact h.counter n
  case counted =>
    intro n k hk
    by_cases hne : n = name
    · rw [hne, lookup_insert] at hk
      cases hk
      omega
    · rw [lookup_insert_ne hne] at hk
      exact h.counted n k hk
  case row =>
    intro n row hrow
    obtain ⟨⟨hpos, hle⟩, hkey⟩ := h.row n row hrow
    rw [hlock n]
    exact ⟨⟨hpos, le_trans hle (hmono n)⟩, hkey⟩
  case free =>
    intro n entry hnone hentry
    rw [hlock n] at hentry
    exact h.free n entry hnone hentry
  case known =>
    intro l hl
    obtain ⟨hlb, hpos, hle, hsame⟩ := h.known l hl
    exact ⟨hlb, hpos, le_trans hle (hmono _), hsame⟩
  case punctual =>
    intro n t l hlast b entry hb hentry
    rw [hlock n] at hentry
    exact h.punctual n t l hlast b entry hb hentry

/-- A row and its key are written, with the lease that goes out for them. Whoever has a lease with
    this token is its owner. -/
theorem Joint.put (lease : Lease) (hpos : 1 ≤ lease.token)
    (hle : lease.token ≤ (m.counters.lookup lease.name).getD 0)
    (hbound : (m.counters.lookup lease.name).getD 0 < 10 ^ 14)
    (hb : utf8Encode lease.owner = some b) (hclose : close expiresAt e)
    (hlocal : lease.expiresAt ≤ e)
    (hown : ∀ l ∈ ls, l.name = lease.name → lease.token = l.token → lease.owner = l.owner) :
    Joint ns close clock
      { m with held := m.held.insert lease.name ⟨lease.token, lease.owner, expiresAt⟩ }
      (db.insert (lockKey ns lease.name) ⟨claimBytes lease.token b, some e⟩) (ls ++ [lease]) := by
  have htok : Token lease.token := ⟨hpos, lt_of_le_of_lt hle hbound⟩
  constructor
  case counter =>
    intro n
    rw [lookup_insert_ne (lockKey_ne_fenceKey lease.name n).symm]
    exact h.counter n
  case counted => exact h.counted
  case row =>
    intro n row hrow
    by_cases hne : n = lease.name
    · subst hne
      rw [lookup_insert] at hrow
      cases hrow
      exact ⟨⟨hpos, hle⟩, b, e, hb, hclose, lookup_insert _⟩
    · rw [lookup_insert_ne hne] at hrow
      rw [lookup_insert_ne (lockKey_ne hne)]
      exact h.row n row hrow
  case free =>
    intro n entry hnone hentry
    by_cases hne : n = lease.name
    · rw [hne, lookup_insert] at hnone
      cases hnone
    · rw [lookup_insert_ne hne] at hnone
      rw [lookup_insert_ne (lockKey_ne hne)] at hentry
      exact h.free n entry hnone hentry
  case known =>
    intro l hl
    rcases List.mem_append.mp hl with hl | hl
    · obtain ⟨hlb, hlpos, hlle, hsame⟩ := h.known l hl
      refine ⟨hlb, hlpos, hlle, ?_⟩
      intro row hrow hrtoken
      by_cases hne : l.name = lease.name
      · rw [hne, lookup_insert] at hrow
        cases hrow
        exact hown l hl hne hrtoken
      · rw [lookup_insert_ne hne] at hrow
        exact hsame row hrow hrtoken
    · obtain rfl := List.mem_singleton.mp hl
      refine ⟨⟨b, hb⟩, hpos, hle, ?_⟩
      intro row hrow _
      rw [lookup_insert] at hrow
      cases hrow
      rfl
  case punctual =>
    -- the key holds this lease's bytes, so whoever reads its own value there has its token:
    -- the last lease of that token is this one
    intro n t l hlast b' entry hb' hentry hvalue
    obtain ⟨hl, hln, hlt⟩ := mem_of_last hlast
    by_cases hne : n = lease.name
    · subst hne
      rw [lookup_insert] at hentry
      cases hentry
      have ht : Token t := by
        rcases mem_snoc.mp hl with hl | rfl
        · obtain ⟨-, hlpos, hlle, -⟩ := h.known l hl
          rw [hln] at hlle
          exact hlt ▸ ⟨hlpos, lt_of_le_of_lt hlle hbound⟩
        · exact hlt ▸ htok
      obtain ⟨rfl, -⟩ := htok.claimBytes_inj ht hb hb' hvalue
      have hself := last_snoc_self ls lease
      rw [hlast] at hself
      cases hself
      exact ⟨e, rfl, hlocal⟩
    · rw [lookup_insert_ne (lockKey_ne hne)] at hentry
      rw [last_snoc_of_ne (fun he => hne he.1.symm)] at hlast
      exact h.punctual n t l hlast b' entry hb' hentry hvalue

theorem Joint.grant (lease : Lease) {owner : Text} {token : ℤ}
    (htoken : token = (m.counters.lookup name).getD 0 + 1) (hbound : token < 10 ^ 14)
    (hb : utf8Encode owner = some b) (hclose : close expiresAt e) (hname : lease.name = name)
    (hltoken : lease.token = token) (howner : lease.owner = owner) (hlocal : lease.expiresAt ≤ e) :
    Joint ns close clock
      { held := m.held.insert name { token, owner, expiresAt }
        counters := m.counters.insert name token }
      ((db.insert (fenceKey ns name) ⟨asciiBytes (plain token), none⟩).insert (lockKey ns name)
        ⟨claimBytes token b, some e⟩)
      (ls ++ [lease]) := by
  subst hname hltoken howner
  have hcounted := h.count htoken
  have hcounter : ((m.counters.insert lease.name lease.token).lookup lease.name).getD 0 =
      lease.token := by
    rw [lookup_insert, getD_some]
  have hpos : 1 ≤ lease.token := hcounted.counted lease.name _ (lookup_insert _)
  refine hcounted.put lease hpos hcounter.ge (hcounter.symm ▸ hbound) hb hclose hlocal ?_
  -- the new token is above every token handed out before
  intro l hl hname hsame
  obtain ⟨-, -, hle, -⟩ := h.known l hl
  rw [hname] at hle
  omega

/-! ## Renewing and releasing -/

theorem Joint.token {l : Lease} (hl : l ∈ ls) (hbound : ∀ n, (m.counters.lookup n).getD 0 < 10 ^ 14)
    : Token l.token := by
  obtain ⟨-, hpos, hle, -⟩ := h.known l hl
  exact ⟨hpos, lt_of_le_of_lt hle (hbound _)⟩

theorem Joint.renew {renewed : Lease} (hbound : ∀ n, (m.counters.lookup n).getD 0 < 10 ^ 14)
    (hlease : lease ∈ ls) (hrow : m.held.lookup lease.name = some row)
    (hrtoken : row.token = lease.token) (hb : utf8Encode lease.owner = some b)
    (hclose : close expiresAt e) (hname : renewed.name = lease.name)
    (htoken : renewed.token = lease.token) (howner : renewed.owner = lease.owner)
    (hlocal : renewed.expiresAt ≤ e) :
    Joint ns close clock
      { m with held := m.held.insert lease.name { row with expiresAt } }
      (db.insert (lockKey ns lease.name) ⟨claimBytes lease.token b, some e⟩)
      (ls ++ [renewed]) := by
  obtain ⟨-, hpos, hle, hsame⟩ := h.known lease hlease
  have hrowner : row.owner = lease.owner := hsame row hrow hrtoken
  rw [hrtoken, hrowner, ← hname, ← htoken, ← howner]
  rw [← htoken] at hpos
  rw [← hname, ← htoken] at hle
  rw [← howner] at hb
  refine h.put renewed hpos hle (hbound _) hb hclose hlocal ?_
  -- every lease with the row's token has the row's owner
  intro l hl hlname hltoken
  have hlrow : m.held.lookup l.name = some row := by rw [hlname, hname, hrow]
  have hlowner := (h.known l hl).2.2.2 row hlrow (hrtoken.trans (htoken.symm.trans hltoken))
  exact howner.trans (hrowner.symm.trans hlowner)

theorem Joint.takeBack (name : Text) :
    Joint ns close clock { m with held := m.held.erase name } (db.erase (lockKey ns name)) ls := by
  have hheld : ∀ n row, (m.held.erase name).lookup n = some row →
      n ≠ name ∧ m.held.lookup n = some row := by
    intro n row hrow
    by_cases hne : n = name
    · rw [hne, lookup_erase] at hrow
      cases hrow
    · rw [lookup_erase_ne hne] at hrow
      exact ⟨hne, hrow⟩
  have hdb : ∀ n entry, (db.erase (lockKey ns name)).lookup (lockKey ns n) = some entry →
      n ≠ name ∧ db.lookup (lockKey ns n) = some entry := by
    intro n entry hentry
    by_cases hne : n = name
    · rw [hne, lookup_erase] at hentry
      cases hentry
    · rw [lookup_erase_ne (lockKey_ne hne)] at hentry
      exact ⟨hne, hentry⟩
  constructor
  case counter =>
    intro n
    rw [lookup_erase_ne (lockKey_ne_fenceKey name n).symm]
    exact h.counter n
  case counted => exact h.counted
  case row =>
    intro n row hrow
    obtain ⟨hne, hrow⟩ := hheld n row hrow
    rw [lookup_erase_ne (lockKey_ne hne)]
    exact h.row n row hrow
  case free =>
    intro n entry hnone hentry
    obtain ⟨hne, hentry⟩ := hdb n entry hentry
    exact h.free n entry (by rwa [← lookup_erase_ne hne]) hentry
  case known =>
    intro l hl
    obtain ⟨hlb, hpos, hle, hsame⟩ := h.known l hl
    exact ⟨hlb, hpos, hle, fun row hrow => hsame row (hheld _ row hrow).2⟩
  case punctual =>
    intro n t l hlast b entry hb hentry
    exact h.punctual n t l hlast b entry hb (hdb n entry hentry).2

end

end DistributedLock.Redis
