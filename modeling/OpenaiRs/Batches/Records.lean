import OpenaiRs.Batches.Writer
import Mathlib.Data.List.Forall2

/-!
# The records of a batch file

Over any calls, with an underlying writer that can fail at any byte: what the writer has
accepted are the records of the accepted lines, and behind them at most a part of one more
record, and then the writer is poisoned.
-/

namespace OpenaiRs.Batches

open Rust Serde

namespace BatchJsonlWriter

variable {O R : Type} {json : Json O R} {w w' : BatchJsonlWriter} {line : BatchLine O R}
  {encoded : Bytes} {body newline : WriteAnswer} {e : BatchJsonlError}

section Checks

/-- All checks on a line pass; `encoded` is its encoding. -/
structure Admits (json : Json O R) (w : BatchJsonlWriter) (line : BatchLine O R) (encoded : Bytes) :
    Prop where
  healthy : w.poisoned = false
  lines : saturatingAdd w.lineCount 1 ≤ w.maxLines
  named : line.customId ≠ ""
  fresh : line.customId ∉ w.customIds
  endpoint : ∀ expected ∈ w.endpoint, expected = line.url
  encodes : json.toVec line = .ok encoded
  bytes : saturatingAdd w.byteCount (saturatingAdd encoded.length 1) ≤ w.maxBytes

/-- The writer after an accepted line. -/
def commit (w : BatchJsonlWriter) (line : BatchLine O R) (encoded : Bytes) : BatchJsonlWriter :=
  { w with
    writer := w.writer ++ encoded ++ [lf]
    customIds := line.customId :: w.customIds
    endpoint := w.endpoint.or (some line.url)
    lineCount := saturatingAdd w.lineCount 1
    byteCount := saturatingAdd w.byteCount (saturatingAdd encoded.length 1) }

/-- The writer after a failed write. -/
def poison (w : BatchJsonlWriter) (torn : Bytes) : BatchJsonlWriter :=
  { w with writer := w.writer ++ torn, poisoned := true }

theorem checkLine_error (h : w.checkLine line = .error e) : e.isIo = false := by
  rw [checkLine] at h
  split at h
  · cases h; rfl
  · split at h
    · cases h; rfl
    · split at h
      · cases h; rfl
      · split at h
        · cases h; rfl
        · split at h
          · cases h
          · split at h
            · cases h; rfl
            · cases h

theorem encodeLine_error (h : w.encodeLine json line = .error e) : e.isIo = false := by
  rw [encodeLine] at h
  split at h
  · cases h; rfl
  · split at h
    · cases h; rfl
    · split at h
      · cases h; rfl
      · split at h
        · cases h; rfl
        · split at h
          · cases h; rfl
          · cases h

theorem admits_of_ok (hcheck : w.checkLine line = .ok ()) (hencode : w.encodeLine json line = .ok encoded) :
    Admits json w line encoded := by
  rw [checkLine] at hcheck
  split at hcheck
  · cases hcheck
  · rename_i hhealthy
    split at hcheck
    · cases hcheck
    · rename_i hlines
      split at hcheck
      · cases hcheck
      · rename_i hnamed
        split at hcheck
        · cases hcheck
        · rename_i hfresh
          rw [encodeLine] at hencode
          split at hencode
          · cases hencode
          · rename_i bytes htoVec
            split at hencode
            · cases hencode
            · split at hencode
              · cases hencode
              · split at hencode
                · cases hencode
                · split at hencode
                  · cases hencode
                  · rename_i hbytes
                    cases hencode
                    refine ⟨by simpa using hhealthy, Nat.le_of_not_lt hlines, ?_, hfresh, ?_, htoVec,
                      Nat.le_of_not_lt hbytes⟩
                    · rintro hempty
                      rw [hempty] at hnamed
                      exact hnamed rfl
                    · intro expected hexpected
                      rw [hexpected] at hcheck
                      by_contra hne
                      simp [hne] at hcheck

/-- What a call of `write_line` does. -/
theorem writeLine_cases (json : Json O R) (w : BatchJsonlWriter) (line : BatchLine O R)
    (body newline : WriteAnswer) :
    (∃ e, e.isIo = false ∧ w.writeLine json line body newline = (w, .error e)) ∨
      ∃ encoded, Admits json w line encoded ∧
        ((∃ torn e, torn <+: encoded ++ [lf] ∧ e.isIo = true ∧
            w.writeLine json line body newline = (w.poison torn, .error e)) ∨
          w.writeLine json line body newline = (w.commit line encoded, .ok ())) := by
  rcases hcheck : w.checkLine line with e | ⟨⟩
  · exact .inl ⟨e, checkLine_error hcheck, by rw [writeLine, hcheck]⟩
  · rcases hencode : w.encodeLine json line with e | encoded
    · exact .inl ⟨e, encodeLine_error hencode, by rw [writeLine, hcheck, hencode]⟩
    · refine .inr ⟨encoded, admits_of_ok hcheck hencode, ?_⟩
      cases body with
      | failed count source =>
          refine .inl ⟨encoded.take count, .io (saturatingAdd w.lineCount 1) source, ?_, rfl, ?_⟩
          · exact (List.take_prefix _ _).trans (List.prefix_append _ _)
          · simp only [writeLine, hcheck, hencode, writeRecord, WriteAnswer.take, poison]
      | accepted =>
          cases newline with
          | failed count source =>
              refine .inl ⟨encoded ++ [lf].take count, .io (saturatingAdd w.lineCount 1) source, ?_, rfl, ?_⟩
              · exact (List.prefix_append_right_inj _).mpr (List.take_prefix _ _)
              · simp only [writeLine, hcheck, hencode, writeRecord, WriteAnswer.take, poison,
                  List.append_assoc]
          | accepted =>
              right
              simp only [writeLine, hcheck, hencode, writeRecord, commit]

/-- What a call of `flush` does. -/
theorem flush_cases (w : BatchJsonlWriter) (failure : Option String) :
    w.flush failure = (w, .ok ()) ∨ w.flush failure = (w, .error .poisoned) ∨
      (w.poisoned = false ∧ ∃ e, e.isIo = true ∧ w.flush failure = (w.poison [], .error e)) := by
  cases hhealthy : w.poisoned with
  | true => exact .inr (.inl (by simp only [flush, hhealthy, if_true]))
  | false =>
      cases failure with
      | none => exact .inl (by simp [flush, hhealthy])
      | some source =>
          refine .inr (.inr ⟨rfl, .io (saturatingAdd w.lineCount 1) source, rfl, ?_⟩)
          simp [flush, hhealthy, poison]

end Checks

section Runs

/-- A call on the writer, with the answers of the underlying writer. -/
inductive Call (O R : Type) where
  | writeLine (line : BatchLine O R) (body newline : WriteAnswer)
  | flush (failure : Option String)

def call (json : Json O R) (w : BatchJsonlWriter) :
    Call O R → BatchJsonlWriter × Except BatchJsonlError Unit
  | .writeLine line body newline => w.writeLine json line body newline
  | .flush failure => w.flush failure

def afterCalls (json : Json O R) (w : BatchJsonlWriter) (calls : List (Call O R)) : BatchJsonlWriter :=
  calls.foldl (fun w c => (w.call json c).1) w

/-- The line that a call writes and that is accepted. -/
def accepts (json : Json O R) (w : BatchJsonlWriter) : Call O R → List (BatchLine O R)
  | .writeLine line body newline =>
      match (w.writeLine json line body newline).2 with
      | .ok () => [line]
      | .error _ => []
  | .flush _ => []

/-- The accepted lines of a run, in order. -/
def accepted (json : Json O R) (w : BatchJsonlWriter) : List (Call O R) → List (BatchLine O R)
  | [] => []
  | c :: rest => w.accepts json c ++ accepted json (w.call json c).1 rest

/-- The bytes of a record. -/
def record (encoded : Bytes) : Bytes := encoded ++ [lf]

/-- The state of a writer that has accepted `lines`, with the given encodings, and behind them a part
of one more record. -/
structure Written (json : Json O R) (w : BatchJsonlWriter) (lines : List (BatchLine O R))
    (encodings : List Bytes) (torn : Bytes) : Prop where
  encodes : List.Forall₂ (fun line encoded => json.toVec line = .ok encoded) lines encodings
  output : w.writer = encodings.flatMap record ++ torn
  torn : torn = [] ∨ (w.poisoned = true ∧
    ∃ line encoded, json.toVec line = .ok encoded ∧ torn <+: record encoded)
  lineCount : w.lineCount = lines.length
  byteCount : w.byteCount = (encodings.flatMap record).length
  lineLimit : w.lineCount ≤ w.maxLines
  byteLimit : w.byteCount ≤ w.maxBytes
  customIds : ∀ id, id ∈ w.customIds ↔ id ∈ lines.map BatchLine.customId
  named : ∀ line ∈ lines, line.customId ≠ ""
  distinct : (lines.map BatchLine.customId).Nodup
  endpoint : w.endpoint = lines.head?.map BatchLine.url
  oneEndpoint : ∀ line ∈ lines, ∀ other ∈ lines, line.url = other.url

variable {lines : List (BatchLine O R)} {encodings : List Bytes} {torn : Bytes}

/-- Both sums that `write_line` checks are exact. -/
theorem Admits.sums (h : Admits json w line encoded) (hlines : w.maxLines < usizeSize - 1)
    (hbytes : w.maxBytes < usizeSize - 1) : saturatingAdd w.lineCount 1 = w.lineCount + 1 ∧
      saturatingAdd w.byteCount (saturatingAdd encoded.length 1) = w.byteCount + (record encoded).length := by
  constructor
  · exact saturatingAdd_of_le hlines h.lines
  · have hsum := saturatingAdd_of_le hbytes h.bytes
    have hfits := h.bytes
    rw [hsum] at hfits ⊢
    have hinner : saturatingAdd encoded.length 1 = encoded.length + 1 := by
      rw [saturatingAdd] at hfits ⊢
      omega
    rw [hinner, record, List.length_append, List.length_singleton]

theorem Written.commit (h : Written json w lines encodings []) (hadmits : Admits json w line encoded)
    (hlines : w.maxLines < usizeSize - 1) (hbytes : w.maxBytes < usizeSize - 1) :
    Written json (w.commit line encoded) (lines ++ [line]) (encodings ++ [encoded]) [] := by
  obtain ⟨hnext, hadded⟩ := hadmits.sums hlines hbytes
  have hfits := hadmits.bytes
  have hroom := hadmits.lines
  have hendpoint := h.endpoint
  exact {
    encodes := List.rel_append h.encodes (.cons hadmits.encodes .nil)
    output := by
      change w.writer ++ encoded ++ [lf] = _
      rw [h.output, List.flatMap_append]
      simp [record]
    torn := .inl rfl
    lineCount := by
      change saturatingAdd w.lineCount 1 = _
      rw [hnext, h.lineCount, List.length_append, List.length_singleton]
    byteCount := by
      change saturatingAdd w.byteCount _ = _
      rw [hadded, h.byteCount, List.flatMap_append, List.length_append]
      simp
    lineLimit := hroom
    byteLimit := hfits
    customIds := by
      intro id
      change id ∈ line.customId :: w.customIds ↔ _
      rw [List.mem_cons, h.customIds, List.map_append, List.mem_append, or_comm]
      simp
    named := by
      intro other hmem
      obtain hold | hnew := List.mem_append.mp hmem
      · exact h.named other hold
      · rw [List.mem_singleton.mp hnew]
        exact hadmits.named
    distinct := by
      have hfresh := hadmits.fresh
      rw [h.customIds] at hfresh
      rw [List.map_append, List.map_singleton]
      refine List.nodup_append.mpr ⟨h.distinct, List.pairwise_singleton _ _, ?_⟩
      rintro id hid _ hnew rfl
      rw [List.mem_singleton.mp hnew] at hid
      exact hfresh hid
    endpoint := by
      change w.endpoint.or (some line.url) = _
      rw [hendpoint]
      cases lines <;> rfl
    oneEndpoint := by
      have hsame : ∀ other ∈ lines, other.url = line.url := by
        intro other hother
        cases lines with
        | nil => cases hother
        | cons first rest =>
            rw [h.oneEndpoint other hother first (.head _)]
            exact hadmits.endpoint _ hendpoint
      intro one hone other hother
      obtain hone | hone := List.mem_append.mp hone
      · obtain hother | hother := List.mem_append.mp hother
        · exact h.oneEndpoint one hone other hother
        · rw [List.mem_singleton.mp hother]
          exact hsame one hone
      · rw [List.mem_singleton.mp hone]
        obtain hother | hother := List.mem_append.mp hother
        · exact (hsame other hother).symm
        · rw [List.mem_singleton.mp hother] }

theorem Written.poison (h : Written json w lines encodings []) (hadmits : json.toVec line = .ok encoded)
    (htorn : torn <+: record encoded) : Written json (w.poison torn) lines encodings torn :=
  { h with
    output := by
      change w.writer ++ torn = _
      rw [h.output, List.append_nil]
    torn := .inr ⟨rfl, line, encoded, hadmits, htorn⟩ }

theorem Written.flushFailed (h : Written json w lines encodings []) :
    Written json (w.poison []) lines encodings [] :=
  { h with
    output := by
      change w.writer ++ [] = _
      rw [List.append_nil, h.output]
    torn := .inl rfl }

/-- A poisoned writer answers every call with `Poisoned` and stays as it is. -/
theorem call_poisoned (h : w.poisoned = true) (c : Call O R) : w.call json c = (w, .error .poisoned) := by
  cases c with
  | writeLine line body newline =>
      have hcheck : w.checkLine line = .error .poisoned := by simp [checkLine, h]
      rw [call, writeLine, hcheck]
  | flush failure => simp [call, flush, h]

/-- A writer that is not poisoned has no part of a record at its end. -/
theorem Written.whole (h : Written json w lines encodings torn) (hhealthy : w.poisoned = false) :
    torn = [] := by
  obtain hnil | ⟨hpoisoned, -⟩ := h.torn
  · exact hnil
  · rw [hhealthy] at hpoisoned
    cases hpoisoned

/-- The limits stay, and the records grow by the lines that the call accepts. -/
theorem Written.call (h : Written json w lines encodings torn) (hlines : w.maxLines < usizeSize - 1)
    (hbytes : w.maxBytes < usizeSize - 1) (c : Call O R) :
    (w.call json c).1.maxLines = w.maxLines ∧ (w.call json c).1.maxBytes = w.maxBytes ∧
      ∃ encodings' torn',
        Written json (w.call json c).1 (lines ++ w.accepts json c) encodings' torn' := by
  cases c with
  | writeLine line body newline =>
      rw [BatchJsonlWriter.call, accepts]
      rcases writeLine_cases json w line body newline with
        ⟨e, -, heq⟩ | ⟨encoded, hadmits, ⟨part, e, hpart, -, heq⟩ | heq⟩
      · rw [heq, List.append_nil]
        exact ⟨rfl, rfl, encodings, torn, h⟩
      · obtain rfl := h.whole hadmits.healthy
        rw [heq, List.append_nil]
        exact ⟨rfl, rfl, encodings, part, h.poison hadmits.encodes hpart⟩
      · obtain rfl := h.whole hadmits.healthy
        rw [heq]
        exact ⟨rfl, rfl, _, _, h.commit hadmits hlines hbytes⟩
  | flush failure =>
      rw [BatchJsonlWriter.call, accepts, List.append_nil]
      obtain heq | heq | ⟨hhealthy, e, -, heq⟩ := flush_cases w failure
      · rw [heq]
        exact ⟨rfl, rfl, encodings, torn, h⟩
      · rw [heq]
        exact ⟨rfl, rfl, encodings, torn, h⟩
      · obtain rfl := h.whole hhealthy
        rw [heq]
        exact ⟨rfl, rfl, encodings, [], h.flushFailed⟩

theorem Written.afterCalls (h : Written json w lines encodings torn) (hlines : w.maxLines < usizeSize - 1)
    (hbytes : w.maxBytes < usizeSize - 1) (calls : List (Call O R)) :
    ∃ encodings' torn',
      Written json (w.afterCalls json calls) (lines ++ w.accepted json calls) encodings' torn' := by
  induction calls generalizing w lines encodings torn with
  | nil =>
      rw [accepted, List.append_nil]
      exact ⟨encodings, torn, h⟩
  | cons c rest ih =>
      obtain ⟨hmaxLines, hmaxBytes, encodings', torn', hcall⟩ := h.call hlines hbytes c
      rw [accepted, ← List.append_assoc]
      exact ih hcall (hmaxLines ▸ hlines) (hmaxBytes ▸ hbytes)

theorem afterCalls_poisoned (h : w.poisoned = true) (calls : List (Call O R)) :
    w.afterCalls json calls = w := by
  induction calls with
  | nil => rfl
  | cons c rest ih =>
      rw [BatchJsonlWriter.afterCalls, List.foldl_cons, call_poisoned h c]
      exact ih

theorem written_new (json : Json O R) (maxLines maxBytes maxLineBytes : Nat) :
    Written json (new.withLimits maxLines maxBytes maxLineBytes) [] [] [] where
  encodes := .nil
  output := rfl
  torn := .inl rfl
  lineCount := rfl
  byteCount := rfl
  lineLimit := Nat.zero_le _
  byteLimit := Nat.zero_le _
  customIds _ := by simp [new, withLimits]
  named _ h := by cases h
  distinct := List.nodup_nil
  endpoint := rfl
  oneEndpoint _ h := by cases h

/-- How a call fails: with an I/O error, and then for good, or without a trace. -/
structure FailsSafely (json : Json O R) (w : BatchJsonlWriter) (c : Call O R) (e : BatchJsonlError) :
    Prop where
  rejected : e.isIo = false → (w.call json c).1 = w
  final : e.isIo = true → ∀ later c',
    (((w.call json c).1).afterCalls json later).call json c' = ((w.call json c).1, .error .poisoned)

theorem failsSafely {c : Call O R} (h : (w.call json c).2 = .error e) : FailsSafely json w c e := by
  have hfinal : (w.call json c).1.poisoned = true → ∀ later c',
      (((w.call json c).1).afterCalls json later).call json c' =
        ((w.call json c).1, .error .poisoned) := by
    intro hpoisoned later c'
    rw [afterCalls_poisoned hpoisoned, call_poisoned hpoisoned]
  cases c with
  | writeLine line body newline =>
      rw [call] at h
      rcases writeLine_cases json w line body newline with
        ⟨e', hrejected, heq⟩ | ⟨encoded, -, ⟨part, e', -, hio, heq⟩ | heq⟩
      · rw [heq] at h
        cases h
        exact ⟨fun _ => (by rw [call, heq]), fun hio => absurd (hrejected.symm.trans hio) (by simp)⟩
      · rw [heq] at h
        cases h
        refine ⟨fun hrejected => absurd (hio.symm.trans hrejected) (by simp), fun _ => hfinal ?_⟩
        rw [call, heq]
        rfl
      · rw [heq] at h
        cases h
  | flush failure =>
      rw [call] at h
      obtain heq | heq | ⟨-, e', hio, heq⟩ := flush_cases w failure
      · rw [heq] at h
        cases h
      · rw [heq] at h
        cases h
        exact ⟨fun _ => (by rw [call, heq]), fun hio => nomatch hio⟩
      · rw [heq] at h
        cases h
        refine ⟨fun hrejected => absurd (hio.symm.trans hrejected) (by simp), fun _ => hfinal ?_⟩
        rw [call, heq]
        rfl

/-- In every state of a run: the output is made of the records of the accepted lines, behind them at
most a part of one more, and a call that fails leaves no trace or poisons the writer for good. -/
theorem batch_file_written (json : Json O R) (maxLines maxBytes maxLineBytes : Nat)
    (hlines : maxLines < usizeSize - 1) (hbytes : maxBytes < usizeSize - 1)
    (calls : List (Call O R)) :
    (∃ encodings torn,
      Written json ((new.withLimits maxLines maxBytes maxLineBytes).afterCalls json calls)
        ((new.withLimits maxLines maxBytes maxLineBytes).accepted json calls) encodings torn) ∧
    ∀ c e, (((new.withLimits maxLines maxBytes maxLineBytes).afterCalls json calls).call json c).2 =
        .error e →
      FailsSafely json ((new.withLimits maxLines maxBytes maxLineBytes).afterCalls json calls) c e := by
  constructor
  · exact (written_new json maxLines maxBytes maxLineBytes).afterCalls hlines hbytes calls
  · exact fun c e h => failsSafely h

/-- The encoding of a line with an empty body; the parser only sees texts of this kind. -/
def emptyBody : Json Unit Unit where
  toVec line := .ok (utf8 ("\x7b\"custom_id\":\"" ++ line.customId ++ "\",\"method\":\"POST\",\"url\":\"" ++
    line.url.asStr ++ "\",\"body\":\x7b\x7d\x7d"))
  fromSlice _ := .ok (.object [("body", .object [])])

/-- One record, then a write that breaks off after twenty bytes, then a call on the poisoned writer. -/
def tornRun : List (Call Unit Unit) :=
  [.writeLine ⟨"a", .responses, (), ()⟩ .accepted .accepted,
    .writeLine ⟨"b", .responses, (), ()⟩ (.failed 20 "broken pipe") .accepted,
    .writeLine ⟨"c", .responses, (), ()⟩ .accepted .accepted]

theorem batch_file_written_torn :
    ((new.withLimits 10 1000 500).afterCalls emptyBody tornRun).writer =
      record (utf8 "\x7b\"custom_id\":\"a\",\"method\":\"POST\",\"url\":\"/v1/responses\",\"body\":\x7b\x7d\x7d") ++
        utf8 "\x7b\"custom_id\":\"b\",\"me" ∧
    ∃ encodings torn, Written emptyBody ((new.withLimits 10 1000 500).afterCalls emptyBody tornRun)
      ((new.withLimits 10 1000 500).accepted emptyBody tornRun) encodings torn := by
  constructor
  · decide
  · exact (batch_file_written emptyBody 10 1000 500 (by decide) (by decide) tornRun).1

end Runs

end BatchJsonlWriter

end OpenaiRs.Batches
