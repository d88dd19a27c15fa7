import FastapiBoilerplate.Streaming.Ndjson

/-!
# The terminal record

`src/streaming/export.py`: the chunks of `chunk_records`, read ahead, and behind them a record that
says how many records there were and whether they are all.

The number is `counter.emitted`, and a chunk is counted when `chunk_records` yields it, before the
producer has put it anywhere. If the budget runs out while the producer waits for room in the queue,
the chunk is counted and never sent (`terminal_record_overcounts`). That is the only way in which
the terminal record can be wrong (`terminal_record_truthful_iff`).
-/

namespace Streaming

open Lib List

/-- The terminal record, once `with_readahead` has ended. -/
def terminal (φ : Type) (s : Sys Chunker Bytes) : Option (Record φ) :=
  match s.consumer with
  | .ended none => some (completionRecord s.iterator.emitted)
  | .ended (some e) => some (failureRecord s.iterator.emitted e)
  | _ => none

/-- `stream_ndjson_export`: what it has yielded, once it has been iterated to its end. None is also
    a terminal record that cannot be encoded: a failure's message may have a lone surrogate. -/
def streamNdjsonExport (φ : Type) [PyFloat φ] (s : Sys Chunker Bytes) : Option (List Bytes) :=
  match terminal φ s with
  | none => none
  | some record =>
    match encodeLine record with
    | .ok line => some (s.received ++ [line])
    | .error _ => none

section
variable {φ : Type} [PyFloat φ]

/-- The body is the lines and the terminal record, which tells their number, and whether they are
    those of all records of a source that ended without an error. -/
structure Truthful (records : ℕ → Next (Record φ)) (s : Sys Chunker Bytes) (body : List Bytes)
    (lines : List Bytes) (record : Record φ) : Prop where
  terminal : terminal φ s = some record
  encodes : Encodes records lines
  body : ∃ line, encodeLine record = .ok line ∧ body.flatten = lines.flatten ++ line
  count : record.lookup (lit "records") = some (.int (lines.flatten.count newline))
  complete : record.lookup terminalKey = some (.str (lit "complete")) ↔
    records lines.length = .stop ∧ s.iterator.sourceEnded

theorem streamNdjsonExport_eq_some {s : Sys Chunker Bytes} {body : List Bytes}
    (h : streamNdjsonExport φ s = some body) :
    ∃ e record line, s.consumer = .ended e ∧ terminal φ s = some record ∧
      encodeLine record = .ok line ∧ body = s.received ++ [line] := by
  unfold streamNdjsonExport at h
  split at h
  · cases h
  rename_i record hrecord
  split at h <;> cases h
  rename_i line hline
  have hended : ∃ e, s.consumer = .ended e := by
    unfold terminal at hrecord
    split at hrecord
    · exact ⟨_, ‹_›⟩
    · exact ⟨_, ‹_›⟩
    · cases hrecord
  obtain ⟨e, he⟩ := hended
  exact ⟨e, record, line, he, hrecord, hline, rfl⟩

end

section
variable {φ : Type} {s : Sys Chunker Bytes} {record : Record φ}

theorem terminal_records (h : terminal φ s = some record) :
    record.lookup (lit "records") = some (.int s.iterator.emitted) := by
  unfold terminal at h
  split at h <;> cases h
  · rfl
  · rename_i e _
    cases e <;> rfl

theorem terminal_complete {e : Option Exc} (h : terminal φ s = some record)
    (hend : s.consumer = .ended e) :
    record.lookup terminalKey = some (.str (lit "complete")) ↔ e = none := by
  rw [terminal, hend] at h
  cases e with
  | none =>
    cases h
    exact ⟨fun _ => rfl, fun _ => rfl⟩
  | some e =>
    cases h
    have hfailed : (failureRecord s.iterator.emitted e : Record φ).lookup terminalKey =
        some (.str (lit "failed")) := by
      cases e <;> rfl
    rw [hfailed]
    simp only [Option.some.injEq, Json.str.injEq, reduceCtorEq, iff_false]
    decide +kernel

end

section
variable {φ : Type} [PyFloat φ] {records : ℕ → Next (Record φ)}

variable {record : Record φ} {groups : List (List Bytes)} {rest taken : List Bytes} {x : Chunker}
  {e : Option Exc}

theorem Truthful.emitted {s : Sys Chunker Bytes} {body lines : List Bytes}
    (h : Truthful records s body lines record) (hbody : streamNdjsonExport φ s = some body) :
    s.iterator.emitted = s.received.flatten.count newline := by
  obtain ⟨-, _, line, -, hterminal, hline, rfl⟩ := streamNdjsonExport_eq_some hbody
  obtain ⟨line', hline', hlines⟩ := h.body
  cases hterminal.symm.trans h.terminal
  cases hline.symm.trans hline'
  rw [flatten_append, flatten_singleton, append_left_inj] at hlines
  have hcount := (terminal_records hterminal).symm.trans h.count
  rwa [Option.some.injEq, Json.int.injEq, Nat.cast_inj, ← hlines] at hcount

theorem Grouped.count_pos (h : Grouped records groups rest taken x) :
    ∀ chunk ∈ taken, 0 < chunk.count newline := by
  intro chunk hchunk
  rw [h.taken] at hchunk
  obtain ⟨group, hgroup, rfl⟩ := mem_map.mp hchunk
  obtain ⟨line, lines, rfl⟩ := exists_cons_of_ne_nil (h.nonempty group hgroup)
  have hline : line ∈ groups.flatten ++ rest :=
    mem_append_left _ (mem_flatten.mpr ⟨_, hgroup, mem_cons_self⟩)
  rw [flatten_cons, count_append, h.encodes.count line hline]
  omega

theorem Grouped.count_taken (h : Grouped records groups rest taken x) :
    taken.flatten = groups.flatten.flatten ∧ taken.flatten.count newline = x.emitted := by
  have hflatten : taken.flatten = groups.flatten.flatten := by
    rw [h.taken, flatten_flatten]
  have hencodes : Encodes records groups.flatten :=
    h.encodes.of_prefix (prefix_append _ _)
  exact ⟨hflatten, by rw [hflatten, hencodes.count_flatten, h.emitted]⟩

variable [Unicode] [FloatFormat] {chunkBytes : ℕ} {cfg : Config} {as : List Action}
  {s : Sys Chunker Bytes} {body : List Bytes}

theorem grouped_of_run {ok : Sys Chunker Bytes → Action → Prop}
    (hrun : Run (Sys.step cfg (chunkRecords chunkBytes records)) ok (Sys.initial cfg {}) s) :
    ∃ groups rest, Grouped records groups rest s.taken s.iterator := by
  refine Sys.traced_of_run (I := fun taken x => ∃ groups rest, Grouped records groups rest taken x)
    ?_ ?_ hrun
  · rintro taken x y answer ⟨groups, rest, h⟩ hresume
    have h' : ∃ groups rest, Grouped records groups rest
        (taken ++ Next.items ((chunkRecords chunkBytes records).resume x).2) _ := h.resume
    rwa [hresume] at h'
  · refine ⟨[], [], rfl, nofun, nofun, rfl, rfl, rfl, rfl, ?_⟩
    simp [Chunker.sourceEnded]

/-- If the counter counts the lines that were received, every chunk that was taken was. -/
theorem received_of_count
    (hrun : Run (Sys.step cfg (chunkRecords chunkBytes records)) Always (Sys.initial cfg {}) s)
    (hend : s.consumer = .ended e) (hcount : s.iterator.emitted = s.received.flatten.count newline)
    : s.received = s.taken := by
  obtain ⟨groups, rest, hgrouped⟩ := grouped_of_run hrun
  have hconserved : Sys.Conserved s :=
    hrun.invariant (fun h _ hstep => Sys.Conserved.step h hstep) (Sys.conserved_initial _).1
  obtain ⟨lost, hlost⟩ := Sys.onItsWay_of_ended hrun hend ▸ hconserved.1
  have hnone : lost.flatten.count newline = 0 := by
    have htaken := hgrouped.count_taken.2
    rw [← hlost, flatten_append, count_append] at htaken
    omega
  cases lost with
  | nil => rw [← hlost, append_nil]
  | cons chunk =>
    have hpos := hgrouped.count_pos chunk (by simp [← hlost])
    rw [flatten_cons, count_append] at hnone
    omega

/-- If every chunk that was taken was received, and no `put` was cut, the record is right. -/
theorem truthful_of_received
    (hrun : Run (Sys.step cfg (chunkRecords chunkBytes records)) Sys.Spared (Sys.initial cfg {}) s)
    {line : Bytes} (hend : s.consumer = .ended e) (hterminal : terminal φ s = some record)
    (hline : encodeLine record = .ok line) (hall : s.received = s.taken) :
    ∃ lines, Truthful records s (s.received ++ [line]) lines record := by
  obtain ⟨groups, rest, hgrouped⟩ := grouped_of_run hrun
  obtain ⟨hflatten, hcount⟩ := hgrouped.count_taken
  refine ⟨groups.flatten, hterminal, hgrouped.encodes.of_prefix (prefix_append _ _),
    ⟨line, hline, ?_⟩, ?_, ?_⟩
  · rw [flatten_append, hall, hflatten, flatten_singleton]
  · rw [terminal_records hterminal, ← hflatten, hcount]
  have hspared : ∀ {t : Sys Chunker Bytes}, Sys.Spared t .expire →
      ∀ v, t.producer = .putting v → ∀ e, Chunker.Came (some e) t.iterator := by
    intro t ht v hv
    have hhand := ht rfl
    rw [hv] at hhand
    cases hhand
  have hfresh : ¬ ({} : Chunker).sourceEnded := by decide
  rcases Sys.settled_of_run (chunkRecords_verdict chunkBytes records) hspared
    ⟨by decide, by decide⟩ (fun _ => hfresh) hrun with h | h
  · simp [Sys.Abandoned, hend] at h
  have hcame := (h.finished e (.inr hend)).2.2
  rw [terminal_complete hterminal hend]
  cases e with
  | none =>
    have hended : s.iterator.sourceEnded := .inr hcame
    obtain ⟨hstop, rfl⟩ := hgrouped.ended hended
    rw [hgrouped.position, hgrouped.pending, hgrouped.emitted] at hstop
    exact ⟨fun _ => ⟨hstop, hended⟩, fun _ => rfl⟩
  | some => exact ⟨(by intros; contradiction), fun h => absurd h.2 hcame⟩

/-- **The terminal record of an export.** Any source, any sizes and budget, any pace of the consumer:
    if the export is iterated to its end, its terminal record is truthful if and only if the budget
    did not run out while the producer was waiting to put a chunk on a full queue. -/
theorem terminal_record_truthful_iff
    (hrun : Along (Sys.step cfg (chunkRecords chunkBytes records)) Always (Sys.initial cfg {}) as s)
    (hbody : streamNdjsonExport φ s = some body) :
    (∃ lines record, Truthful records s body lines record) ↔
      Along (Sys.step cfg (chunkRecords chunkBytes records)) Sys.Spared (Sys.initial cfg {}) as
        s := by
  obtain ⟨e, record, line, hend, hterminal, hline, rfl⟩ := streamNdjsonExport_eq_some hbody
  have hleft : ¬ s.Abandoned := by simp [Sys.Abandoned, hend]
  have hlossless := Sys.lossless_iff hrun hleft
  rw [Sys.onItsWay_of_ended hrun.run hend] at hlossless
  constructor
  · rintro ⟨lines, record', h⟩
    exact hlossless.mp (received_of_count hrun.run hend (h.emitted hbody))
  · intro hspared
    obtain ⟨lines, h⟩ :=
      truthful_of_received hspared.run hend hterminal hline (hlossless.mpr hspared)
    exact ⟨lines, record, h⟩

end

/-- Users by number, so many of them. -/
def users (n k : ℕ) : Next (Record Empty) :=
  if k < n then .item [(lit "id", .int k)] else .stop

/-- One chunk ahead, and a second. -/
def oneAhead : Config := ⟨1, lit "users", some 1, none⟩

def chunksOf (lines : List String) : List Bytes := lines.map fun line => asciiBytes (lit line)

/-- The producer waits for room, and the consumer reads on in time. -/
def readInTime : List Action :=
  [.start, .advance, .advance, .advance, .get, .resume, .advance, .tick 1, .get, .resume, .get,
    .leave]

theorem terminal_record_truthful_iff_in_time :
    letI : Unicode := .ascii
    letI : FloatFormat := ⟨fun _ => lit "1"⟩
    letI : PyFloat Empty := ⟨nofun, nofun, nofun⟩
    ∃ s body lines record,
      Along (Sys.step oneAhead (chunkRecords 1 (users 2))) Always (Sys.initial oneAhead {})
        readInTime s ∧
      streamNdjsonExport Empty s = some body ∧
      body = chunksOf ["\x7b\"id\":0\x7d\n", "\x7b\"id\":1\x7d\n",
        "\x7b\"_export\":\"complete\",\"records\":2\x7d\n"] ∧
      Truthful (users 2) s body lines record := by
  let : Unicode := .ascii
  let : FloatFormat := ⟨fun _ => lit "1"⟩
  let : PyFloat Empty := ⟨nofun, nofun, nofun⟩
  have hspared := Along.get_replay (Sys.step oneAhead (chunkRecords 1 (users 2))) Sys.Spared
    (Sys.initial oneAhead {}) readInTime (by decide +kernel)
  have hrun : Along _ Always _ _ _ := hspared.weaken fun _ _ _ => trivial
  obtain ⟨lines, record, h⟩ :=
    (terminal_record_truthful_iff hrun (Option.some_get (by decide +kernel)).symm).mpr hspared
  exact ⟨_, _, lines, record, hrun, (Option.some_get _).symm, by decide +kernel, h⟩

/-- The consumer reads one chunk and pauses; the budget runs out while the third waits for room. -/
def readTooSlowly : List Action :=
  [.start, .advance, .advance, .get, .advance, .advance, .tick 1, .expire, .closed none, .get,
    .resume, .get, .leave]

theorem terminal_record_overcounts :
    letI : Unicode := .ascii
    letI : FloatFormat := ⟨fun _ => lit "1"⟩
    letI : PyFloat Empty := ⟨nofun, nofun, nofun⟩
    ∃ s body,
      Along (Sys.step oneAhead (chunkRecords 1 (users 3))) Always (Sys.initial oneAhead {})
        readTooSlowly s ∧
      streamNdjsonExport Empty s = some body ∧
      body = chunksOf ["\x7b\"id\":0\x7d\n", "\x7b\"id\":1\x7d\n",
        "\x7b\"_export\":\"failed\",\"records\":3,\"error\":\"DEADLINE_EXCEEDED\"," ++
        "\"message\":\"Deadline 'users' of 1s exceeded\"\x7d\n"] ∧
      ¬ ∃ lines record, Truthful (users 3) s body lines record := by
  let : Unicode := .ascii
  let : FloatFormat := ⟨fun _ => lit "1"⟩
  let : PyFloat Empty := ⟨nofun, nofun, nofun⟩
  have hrun := Along.get_replay (Sys.step oneAhead (chunkRecords 1 (users 3))) Always
    (Sys.initial oneAhead {}) readTooSlowly (by decide +kernel)
  refine ⟨_, _, hrun, by decide +kernel, rfl, ?_⟩
  rintro ⟨lines, record, h⟩
  exact absurd (h.emitted (by decide +kernel)) (by decide +kernel)

end Streaming
