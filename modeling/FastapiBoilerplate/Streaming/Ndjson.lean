import FastapiBoilerplate.Lib.Json
import FastapiBoilerplate.Streaming.Readahead

/-!
# Lines and chunks

`src/streaming/ndjson.py`: a record is one line, and `chunk_records` gathers lines into chunks.

The generator counts the records of a chunk when it yields the chunk. `Grouped` is what it has done
so far in terms of lines: the chunks are lines put together, none of them empty, the buffer is the
lines since, and the two counts are their numbers.
-/

namespace Streaming

open Lib

/-- `Mapping[str, object]`. -/
abbrev Record (φ : Type) := List (Text × Json φ)

def terminalKey : Text := lit "_export"

/-- `_LINE_SEPARATORS`. -/
def lineSeparators : List (CodePoint × Text) :=
  [(0x2028, lit "\\u2028"), (0x2029, lit "\\u2029")]

/-- `text.replace(raw, escaped)`. -/
def replacePoint (text : Text) (entry : CodePoint × Text) : Text :=
  text.flatMap fun c => if c = entry.1 then entry.2 else [c]

def newline : Byte := 0x0a

section
variable {φ : Type} [PyFloat φ]

/-- `encode_line`. -/
def encodeLine (record : Record φ) : Except Exc Bytes :=
  match (Json.object record).dumps with
  | .error _ => .error .other
  | .ok text =>
    match utf8Encode (lineSeparators.foldl replacePoint text ++ lit "\n") with
    | none => .error .other
    | some line => .ok line

/-- `completion_record`. -/
def completionRecord (emitted : ℕ) : Record φ :=
  [(terminalKey, .str (lit "complete")), (lit "records", .int emitted)]

/-- `failure_record`. -/
def failureRecord (emitted : ℕ) : Exc → Record φ
  | .app errorCode message =>
    [(terminalKey, .str (lit "failed")), (lit "records", .int emitted),
      (lit "error", .str errorCode), (lit "message", .str message)]
  | _ =>
    [(terminalKey, .str (lit "failed")), (lit "records", .int emitted),
      (lit "error", .str (lit "INTERNAL_ERROR")),
      (lit "message", .str (lit "The export stopped before it finished."))]

end

/-- Where `chunk_records` stands: not begun, in its loop, at the `yield` in its `except` or at the
    one after the loop, or at its end. -/
inductive Stage
  | fresh
  | reading
  | failing (error : Exc)
  | flushed
  | returned
  | raised
  deriving DecidableEq

/-- The frame of `chunk_records`, the records it has read, and the counter. -/
structure Chunker where
  stage : Stage := .fresh
  position : ℕ := 0
  buffer : Bytes := []
  pending : ℕ := 0
  emitted : ℕ := 0

namespace Chunker

variable (s : Chunker)

def push (line : Bytes) : Chunker :=
  { s with position := s.position + 1, buffer := s.buffer ++ line, pending := s.pending + 1 }

/-- `yield _take()`. -/
def take (stage : Stage) : Chunker × Option (Next Bytes) :=
  (⟨stage, s.position, [], 0, s.emitted + s.pending⟩, some (.item s.buffer))

/-- The `except` of the loop. -/
def fail (e : Exc) : Chunker × Option (Next Bytes) :=
  if s.buffer = [] then ({ s with stage := .raised }, some (.raises e)) else s.take (.failing e)

/-- The source has ended, and not by an error. -/
def sourceEnded : Prop := s.stage = .flushed ∨ s.stage = .returned

instance : Decidable s.sourceEnded := inferInstanceAs (Decidable (_ ∨ _))

end Chunker

/-- `chunk_records`. -/
def chunkRecords {φ : Type} [PyFloat φ] (chunkBytes : ℕ) (records : ℕ → Next (Record φ)) :
    AsyncIterator Chunker Bytes where
  resume s :=
    match s.stage with
    | .fresh =>
      if chunkBytes < 1 then ({ s with stage := .raised }, some (.raises .other))
      else ({ s with stage := .reading }, none)
    | .reading =>
      match records s.position with
      | .item record =>
        match encodeLine record with
        | .error e => s.fail e
        | .ok line =>
          if chunkBytes ≤ (s.push line).buffer.length then (s.push line).take .reading
          else (s.push line, none)
      | .raises e => s.fail e
      | .stop =>
        if s.buffer = [] then ({ s with stage := .returned }, some .stop) else s.take .flushed
    | .failing e => ({ s with stage := .raised }, some (.raises e))
    | .flushed => ({ s with stage := .returned }, some .stop)
    | .returned | .raised => (s, some .stop)
  awaits s := s.stage = .reading

/-! ## A line is a line -/

section
variable {φ : Type} [PyFloat φ]

variable {text : Text} {record : Record φ} {line : Bytes}

theorem printable_replacePoint {entry : CodePoint × Text} (h : Json.Printable text)
    (hentry : Json.Printable entry.2) : Json.Printable (replacePoint text entry) := by
  intro c hc
  obtain ⟨c', hc', hc⟩ := List.mem_flatMap.mp hc
  split at hc
  · exact hentry c hc
  · cases List.mem_singleton.mp hc
    exact h c hc'

theorem newline_not_mem {bytes : Bytes} (h : utf8Encode text = some bytes)
    (htext : Json.Printable text) : newline ∉ bytes := by
  intro hmem
  obtain ⟨c, hc, hval⟩ := exists_of_mem_utf8Encode h hmem (by decide)
  have hlow := htext c hc
  rw [← hval] at hlow
  exact absurd hlow (by decide)

/-- An encoded line ends with its only newline. -/
theorem encodeLine_eq (h : encodeLine record = .ok line) :
    ∃ bytes, line = bytes ++ [newline] ∧ newline ∉ bytes := by
  unfold encodeLine at h
  split at h
  · cases h
  rename_i text htext
  split at h
  · cases h
  rename_i line' hline
  cases h
  rw [utf8Encode_append] at hline
  obtain ⟨bytes, hbytes, hline⟩ := Option.bind_eq_some_iff.mp hline
  obtain ⟨_, hend, rfl⟩ := Option.map_eq_some_iff.mp hline
  have hlf : utf8Encode (lit "\n") = some [newline] := by decide +kernel
  cases hlf.symm.trans hend
  refine ⟨bytes, rfl, newline_not_mem hbytes ?_⟩
  have htext := Json.printable_dumps htext
  exact printable_replacePoint (printable_replacePoint htext (by decide +kernel))
    (by decide +kernel)

theorem count_newline (h : encodeLine record = .ok line) : line.count newline = 1 := by
  obtain ⟨bytes, rfl, hbytes⟩ := encodeLine_eq h
  rw [List.count_append, List.count_eq_zero_of_not_mem hbytes, List.count_singleton_self]

/-! ## Chunks are lines put together -/

/-- The lines are those of the first records of the source. -/
def Encodes (records : ℕ → Next (Record φ)) (lines : List Bytes) : Prop :=
  ∀ i line, lines[i]? = some line →
    ∃ record, records i = .item record ∧ encodeLine record = .ok line

section
variable {records : ℕ → Next (Record φ)} {lines : List Bytes}

variable {record : Record φ} {line : Bytes} {stage : Stage}

section

variable (h : Encodes records lines)

include h

theorem Encodes.snoc (hrecord : records lines.length = .item record)
    (hline : encodeLine record = .ok line) : Encodes records (lines ++ [line]) := by
  intro i line' hi
  rcases getElem?_append_cases hi with ⟨rfl, rfl⟩ | ⟨-, hi⟩
  · exact ⟨record, hrecord, hline⟩
  · exact h i line' hi

theorem Encodes.of_prefix {first : List Bytes} (hfirst : first <+: lines) :
    Encodes records first := by
  obtain ⟨rest, rfl⟩ := hfirst
  intro i line hi
  exact h i line (getElem?_append_of hi)

theorem Encodes.count : ∀ line ∈ lines, line.count newline = 1 := by
  intro line hline
  obtain ⟨i, hi⟩ := List.getElem?_of_mem hline
  obtain ⟨record, -, hrecord⟩ := h i line hi
  exact count_newline hrecord

/-- There are as many lines as there are newlines. -/
theorem Encodes.count_flatten : lines.flatten.count newline = lines.length := by
  have hcount := h.count
  clear h
  induction lines with
  | nil => rfl
  | cons line lines ih =>
    rw [List.forall_mem_cons] at hcount
    rw [List.flatten_cons, List.count_append, hcount.1, ih hcount.2, List.length_cons, Nat.add_comm]

end

/-- The chunks so far, as groups of lines, and the lines in the buffer. -/
structure Grouped (records : ℕ → Next (Record φ)) (groups : List (List Bytes)) (rest : List Bytes)
    (taken : List Bytes) (s : Chunker) : Prop where
  taken : taken = groups.map List.flatten
  nonempty : ∀ group ∈ groups, group ≠ []
  encodes : Encodes records (groups.flatten ++ rest)
  buffer : s.buffer = rest.flatten
  emitted : s.emitted = groups.flatten.length
  pending : s.pending = rest.length
  position : s.position = s.emitted + s.pending
  ended : s.sourceEnded → records s.position = .stop ∧ rest = []

variable {groups : List (List Bytes)} {rest taken : List Bytes} {s : Chunker}

section

variable (h : Grouped records groups rest taken s)

include h

theorem Grouped.rest_eq_nil (hbuffer : s.buffer = []) : rest = [] := by
  cases rest with
  | nil => rfl
  | cons line =>
    have hcount := h.encodes.count line (by simp)
    rw [h.buffer, List.flatten_cons, List.append_eq_nil_iff] at hbuffer
    rw [hbuffer.1] at hcount
    cases hcount

theorem Grouped.quiet {answer : Option (Next Bytes)} (hanswer : Next.items answer = [])
    (hended : stage = .flushed ∨ stage = .returned → records s.position = .stop ∧ rest = []) :
    ∃ groups rest, Grouped records groups rest (taken ++ Next.items answer) { s with stage } := by
  rw [hanswer, List.append_nil]
  exact ⟨groups, rest, h.taken, h.nonempty, h.encodes, h.buffer, h.emitted, h.pending, h.position,
    hended⟩

theorem Grouped.push (hstage : s.stage = .reading) (hrecord : records s.position = .item record)
    (hline : encodeLine record = .ok line) :
    Grouped records groups (rest ++ [line]) taken (s.push line) where
  taken := h.taken
  nonempty := h.nonempty
  encodes := by
    rw [← List.append_assoc]
    refine h.encodes.snoc ?_ hline
    rw [List.length_append, ← h.emitted, ← h.pending, ← h.position]
    exact hrecord
  buffer := by simp [Chunker.push, h.buffer]
  emitted := h.emitted
  pending := by simp [Chunker.push, h.pending]
  position := by
    simp only [Chunker.push, h.position]
    omega
  ended hended := by simp [Chunker.sourceEnded, Chunker.push, hstage] at hended

theorem Grouped.take
    (hbuffer : s.buffer ≠ []) (hended : stage = .flushed ∨ stage = .returned →
      records s.position = .stop) :
    ∃ groups rest, Grouped records groups rest (taken ++ Next.items (s.take stage).2)
      (s.take stage).1 := by
  have hrest : rest ≠ [] := by
    rintro rfl
    exact hbuffer h.buffer
  refine ⟨groups ++ [rest], [], ?_, ?_, ?_, rfl, ?_, rfl, ?_, fun he => ⟨hended he, rfl⟩⟩
  · simp [Chunker.take, Next.items, h.taken, h.buffer]
  · exact forall_mem_snoc h.nonempty hrest
  · simpa using h.encodes
  · simp [Chunker.take, h.emitted, h.pending]
  · simp [Chunker.take, h.position]

theorem Grouped.fail {e : Exc} :
    ∃ groups rest, Grouped records groups rest (taken ++ Next.items (s.fail e).2) (s.fail e).1 := by
  unfold Chunker.fail
  split
  · exact h.quiet rfl (by simp)
  · exact h.take ‹_› (by simp)

theorem Grouped.resume {chunkBytes : ℕ} :
    ∃ groups rest, Grouped records groups rest
      (taken ++ Next.items ((chunkRecords chunkBytes records).resume s).2)
      ((chunkRecords chunkBytes records).resume s).1 := by
  cases hstage : s.stage with simp only [chunkRecords, hstage]
  | fresh =>
    split
    · exact h.quiet rfl (by simp)
    · exact h.quiet rfl (by simp)
  | reading =>
    split
    · rename_i record hrecord
      split
      · exact h.fail
      rename_i line hline
      -- the line joins the buffer, and with it the buffer may be a chunk
      have hpush := h.push hstage hrecord hline
      split
      · refine hpush.take ?_ (by simp)
        obtain ⟨bytes, rfl, -⟩ := encodeLine_eq hline
        simp [Chunker.push]
      · exact ⟨groups, rest ++ [line], by simpa [Next.items] using hpush⟩
    · exact h.fail
    · rename_i hstop
      split
      · rename_i hbuffer
        exact h.quiet rfl fun _ => ⟨hstop, h.rest_eq_nil hbuffer⟩
      · exact h.take ‹_› fun _ => hstop
  | failing =>
    exact h.quiet rfl (by simp)
  | flushed =>
    exact h.quiet rfl fun _ => h.ended (.inl hstage)
  | returned | raised =>
    exact ⟨groups, rest, by simpa [Next.items] using h⟩

end

/-! ## How the generator ends -/

/-- What is left to resume. -/
def Chunker.Live (s : Chunker) : Prop := s.stage ≠ .returned ∧ s.stage ≠ .raised

/-- An answer of `chunk_records`, and where it stands then. -/
inductive Answered : Option (Next Bytes) → Stage → Prop
  | wait : Answered none .reading
  | item (chunk : Bytes) {stage : Stage} (live : stage ≠ .returned ∧ stage ≠ .raised) :
      Answered (some (.item chunk)) stage
  | stop : Answered (some .stop) .returned
  | raises (e : Exc) : Answered (some (.raises e)) .raised

theorem fail_answered (s : Chunker) (e : Exc) : Answered (s.fail e).2 (s.fail e).1.stage := by
  unfold Chunker.fail
  split
  · exact .raises e
  · exact .item s.buffer (by simp [Chunker.take])

theorem resume_answered (chunkBytes : ℕ) (records : ℕ → Next (Record φ)) (h : s.Live) :
    Answered ((chunkRecords chunkBytes records).resume s).2
      ((chunkRecords chunkBytes records).resume s).1.stage := by
  cases hstage : s.stage with
  | fresh =>
    simp only [chunkRecords, hstage]
    split
    · exact .raises .other
    · exact .wait
  | reading =>
    simp only [chunkRecords, hstage]
    split
    · split
      · exact fail_answered s _
      split
      · exact .item _ (by simp [Chunker.take])
      · rw [Chunker.push, hstage]
        exact .wait
    · exact fail_answered s _
    · split
      · exact .stop
      · exact .item s.buffer (by simp [Chunker.take])
  | failing e =>
    simp only [chunkRecords, hstage]
    exact .raises e
  | flushed =>
    simp only [chunkRecords, hstage]
    exact .stop
  | returned => exact absurd hstage h.1
  | raised => exact absurd hstage h.2

/-- The generator returns when the source has ended, and fails, or is cut, before. -/
def Chunker.Came : Option Exc → Chunker → Prop
  | none, s => s.stage = .returned
  | some _, s => ¬ s.sourceEnded

theorem chunkRecords_verdict (chunkBytes : ℕ) (records : ℕ → Next (Record φ)) :
    Sys.Verdict (chunkRecords chunkBytes records) Chunker.Live Chunker.Came := by
  have hanswered : ∀ {x y : Chunker} {answer : Option (Next Bytes)}, x.Live →
      (chunkRecords chunkBytes records).resume x = (y, answer) →
      ∃ stage, y.stage = stage ∧ Answered answer stage := by
    intro x y answer hlive hx
    have h := resume_answered chunkBytes records hlive
    rw [hx] at h
    exact ⟨_, rfl, h⟩
  refine ⟨?_, ?_, ?_, ?_, ?_⟩
  · intro x y hlive hx
    obtain ⟨stage, hstage, hanswer⟩ := hanswered hlive hx
    cases hanswer
    simp [Chunker.Live, hstage]
  · intro x y v hlive hx
    obtain ⟨stage, hstage, hanswer⟩ := hanswered hlive hx
    cases hanswer with
    | item => rwa [Chunker.Live, hstage]
  · intro x y hlive hx
    obtain ⟨stage, hstage, hanswer⟩ := hanswered hlive hx
    cases hanswer
    exact hstage
  · intro x y e hlive hx
    obtain ⟨stage, hstage, hanswer⟩ := hanswered hlive hx
    cases hanswer
    simp [Chunker.Came, Chunker.sourceEnded, hstage]
  · intro x hawaits e
    have hstage : x.stage = .reading := of_decide_eq_true hawaits
    simp [Chunker.Came, Chunker.sourceEnded, hstage]

end

end

end Streaming
