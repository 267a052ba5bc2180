import OpenaiRs.Direct.LineRun
import OpenaiRs.Sse.Reference

/-!
# The event-stream grammar of direct Codex streams

The events of a body and its first malformed line, in terms of the blocks and fields
of the whole-input grammar. The line semantics of the direct decoder is shown to be
this grammar, and the decoder is shown to notice a malformed line before end of input
exactly when the line is terminated or too long.
-/

namespace OpenaiRs.Direct

open Rust Text
open Sse (Field dataValues joinedData lineFields nextBlock stripBom joinedData_append
  dataValues_append ofLine_eq EventRegisters)

/-- A malformed line behind the given open block: too long, not UTF-8 although it is not
a comment, or a `data` field beyond the limit for joined data. -/
def Malformed (maxLineBytes maxEventBytes : UInt64) (block : List Field) (line : Bytes) : Prop :=
  maxLineBytes.toNat < line.length ∨
    (line.head? ≠ some colon ∧ fromUtf8 line ≠ .ok line) ∨
    ((lineFields line).any (·.name = utf8 "data") = true ∧
      maxEventBytes.toNat < (joinedData (nextBlock block line)).length)

instance (maxLineBytes maxEventBytes : UInt64) (block : List Field) (line : Bytes) :
    Decidable (Malformed maxLineBytes maxEventBytes block line) :=
  inferInstanceAs (Decidable (_ ∨ _))

/-- The event of a closed block, present exactly when it has a `data` field. -/
def blockItem (block : List Field) : Option SseItem :=
  if dataValues block = [] then none
  else if joinedData block = utf8 "[DONE]" then some .done
  else some (.data (joinedData block))

/-- The events of some lines up to the sentinel or the first malformed line, and whether
a malformed line was met. The open block counts at end of input. -/
def eventsOf (maxLineBytes maxEventBytes : UInt64) (eof : Bool) (block : List Field) :
    List Bytes → List SseItem × Bool
  | [] => (if eof then (blockItem block).toList else [], false)
  | line :: rest =>
      if Malformed maxLineBytes maxEventBytes block line then ([], true)
      else if line = [] then
        match blockItem block with
        | some .done => ([.done], false)
        | item =>
            (item.toList ++ (eventsOf maxLineBytes maxEventBytes eof [] rest).1,
              (eventsOf maxLineBytes maxEventBytes eof [] rest).2)
      else eventsOf maxLineBytes maxEventBytes eof (nextBlock block line) rest

/-- The events of a whole body, and whether it is malformed. -/
def bodyEvents (maxLineBytes maxEventBytes : UInt64) (body : Bytes) : List SseItem × Bool :=
  eventsOf maxLineBytes maxEventBytes true [] (lines cr lf [] (stripBom body))

/-- The lines of a body that can be judged before its end: the terminated ones, and an
unterminated one that is already too long. -/
def judgedLines (maxLineBytes : UInt64) (body : Bytes) : List Bytes :=
  (splitLines cr lf [] false (stripBom body)).1 ++
    if maxLineBytes.toNat < (splitLines cr lf [] false (stripBom body)).2.length then
      [(splitLines cr lf [] false (stripBom body)).2]
    else []

/-- The events in front of a line that is found malformed before the end of the body. -/
def judgedEvents (maxLineBytes maxEventBytes : UInt64) (body : Bytes) : List SseItem × Bool :=
  eventsOf maxLineBytes maxEventBytes false [] (judgedLines maxLineBytes body)

section Blocks

/-- The pending event of a decoder with the given open block. -/
def pendingOf (block : List Field) : PendingEvent where
  data := joinedData block
  hasData := !(dataValues block).isEmpty
  done := false

theorem pendingOf_nil : pendingOf [] = ⟨[], false, false⟩ := rfl

theorem pendingOf_of_no_data {block : List Field} (h : dataValues block = []) :
    pendingOf block = pendingOf [] := by
  rw [pendingOf, joinedData, h]
  rfl

/-- Closing a block hands over its event. -/
theorem dispatch_pendingOf (block : List Field) :
    (pendingOf block).dispatch =
      (if blockItem block = some .done then ⟨[], false, true⟩ else pendingOf [],
        (blockItem block).toList) := by
  unfold PendingEvent.dispatch blockItem
  rw [if_neg (by simp [pendingOf])]
  by_cases hdata : dataValues block = []
  · rw [if_pos (by simp [pendingOf, hdata]), if_pos hdata, pendingOf_of_no_data hdata]
    rfl
  · rw [if_neg (by simp [pendingOf, hdata]), if_neg hdata]
    by_cases hdone : joinedData block = utf8 "[DONE]"
    · rw [if_pos hdone, if_pos (show (pendingOf block).data = _ from hdone), if_pos rfl]
      rfl
    · rw [if_neg hdone, if_neg (show ¬ (pendingOf block).data = _ from hdone), if_neg (by simp)]
      rfl

/-- Only `data` fields change the pending event. -/
theorem pendingOf_append_of_ne (block : List Field) {f : Field} (h : f.name ≠ utf8 "data") :
    pendingOf (block ++ [f]) = pendingOf block := by
  rw [pendingOf, joinedData_append, dataValues_append, if_neg h, if_neg h]
  rfl

/-- A `data` field that keeps the limit is appended to the block. -/
theorem pushData_pendingOf (maxEventBytes : UInt64) (block : List Field) (f : Field)
    (hname : f.name = utf8 "data") :
    (pendingOf block).pushData maxEventBytes f.value =
      if maxEventBytes.toNat < (joinedData (block ++ [f])).length then
        .error ⟨"event exceeded size limit"⟩
      else .ok (pendingOf (block ++ [f])) := by
  have hbound : maxEventBytes.toNat < usizeSize := maxEventBytes.toNat_lt
  have hjoined : joinedData (block ++ [f]) =
      (if (pendingOf block).hasData then (pendingOf block).data ++ [lf]
        else (pendingOf block).data) ++ f.value := by
    rw [joinedData_append, if_pos hname]
    by_cases hv : dataValues block = []
    · simp [pendingOf, hv, joinedData]
    · simp [pendingOf, hv]
  have hlength : (joinedData (block ++ [f])).length = (pendingOf block).data.length +
      (if (pendingOf block).hasData then 1 else 0) + f.value.length := by
    rw [hjoined]
    split
    · simp only [List.length_append, List.length_singleton]
    · simp only [List.length_append, Nat.add_zero]
  have hafter : pendingOf (block ++ [f]) =
      { pendingOf block with data := joinedData (block ++ [f]), hasData := true } := by
    have hnonempty : dataValues (block ++ [f]) ≠ [] := by
      rw [dataValues_append, if_pos hname]
      simp
    simp [pendingOf, hnonempty]
  simp only [PendingEvent.pushData, checkedAdd_bind, ← hlength, ← hjoined, hafter]
  by_cases hfits : (joinedData (block ++ [f])).length < usizeSize
  · simp only [if_pos hfits]
  · have hlarge : maxEventBytes.toNat < (joinedData (block ++ [f])).length := by omega
    simp only [if_neg hfits, if_pos hlarge]

end Blocks

section Lines

variable {maxLineBytes maxEventBytes : UInt64}

theorem lineStep_malformed {block : List Field} {line : Bytes}
    (h : Malformed maxLineBytes maxEventBytes block line) :
    ∃ e, lineStep maxLineBytes maxEventBytes (pendingOf block) line = .error e := by
  rw [lineStep, if_neg (by simp [pendingOf])]
  by_cases hlong : maxLineBytes.toNat < line.length
  · rw [if_pos hlong]
    exact ⟨_, rfl⟩
  rw [if_neg hlong]
  obtain hline | ⟨hcolon, htext⟩ | ⟨hdata, hlarge⟩ := h
  · exact absurd hline hlong
  · have hblank : ¬ line.isEmpty = true := by
      intro hempty
      rw [List.isEmpty_iff.mp hempty] at htext
      exact htext fromUtf8_nil
    rw [PendingEvent.processLine, if_neg hblank, if_neg hcolon]
    rcases hvalid : fromUtf8 line with e | text
    · exact ⟨_, rfl⟩
    · rw [eq_of_fromUtf8_ok hvalid] at hvalid
      exact absurd hvalid htext
  · have hblank : line ≠ [] := by
      rintro rfl
      simp [lineFields] at hdata
    have hempty : ¬ line.isEmpty = true := by simpa using hblank
    have hcolon : line.head? ≠ some colon := by
      intro hcomment
      simp [lineFields, hblank, Field.ofLine, hcomment] at hdata
    rcases hvalid : fromUtf8 line with e | text
    · rw [PendingEvent.processLine, if_neg hempty, if_neg hcolon, hvalid]
      exact ⟨_, rfl⟩
    obtain rfl := eq_of_fromUtf8_ok hvalid
    have hfields : lineFields text =
        [⟨(EventRegisters.splitField text).1, (EventRegisters.splitField text).2⟩] := by
      rw [lineFields, if_neg hblank, ofLine_eq hcolon, Option.toList_some]
    have hname : (EventRegisters.splitField text).1 = utf8 "data" := by
      simpa [hfields] using hdata
    have hpush := pushData_pendingOf maxEventBytes block
      ⟨(EventRegisters.splitField text).1, (EventRegisters.splitField text).2⟩ hname
    rw [nextBlock, if_neg hblank, hfields] at hlarge
    rw [if_pos hlarge] at hpush
    rw [processLine_field _ _ hblank hcolon hvalid, if_pos hname, hpush]
    exact ⟨_, rfl⟩

theorem lineStep_wellformed {block : List Field} {line : Bytes}
    (h : ¬ Malformed maxLineBytes maxEventBytes block line) :
    lineStep maxLineBytes maxEventBytes (pendingOf block) line =
      .ok (if line = [] then (pendingOf block).dispatch
        else (pendingOf (nextBlock block line), [])) := by
  rw [Malformed, not_or, not_or] at h
  obtain ⟨hlong, htext, hdata⟩ := h
  rw [lineStep, if_neg (by simp [pendingOf]), if_neg hlong]
  by_cases hblank : line = []
  · subst hblank
    rfl
  have hempty : ¬ line.isEmpty = true := by simpa using hblank
  rw [if_neg hblank, nextBlock, if_neg hblank]
  rw [nextBlock, if_neg hblank] at hdata
  by_cases hcolon : line.head? = some colon
  · rw [PendingEvent.processLine, if_neg hempty, if_pos hcolon]
    simp [lineFields, hblank, Field.ofLine, hcolon]
  · have hvalid : fromUtf8 line = .ok line := by
      by_contra hinvalid
      exact htext ⟨hcolon, hinvalid⟩
    have hfields : lineFields line =
        [⟨(EventRegisters.splitField line).1, (EventRegisters.splitField line).2⟩] := by
      rw [lineFields, if_neg hblank, ofLine_eq hcolon, Option.toList_some]
    rw [processLine_field _ _ hblank hcolon hvalid, hfields]
    rw [hfields] at hdata
    by_cases hname : (EventRegisters.splitField line).1 = utf8 "data"
    · have hsmall : ¬ maxEventBytes.toNat < (joinedData (block ++
          [⟨(EventRegisters.splitField line).1, (EventRegisters.splitField line).2⟩])).length := by
        intro hlarge
        exact hdata ⟨by simp [hname], hlarge⟩
      have hpush := pushData_pendingOf maxEventBytes block
        ⟨(EventRegisters.splitField line).1, (EventRegisters.splitField line).2⟩ hname
      rw [if_neg hsmall] at hpush
      rw [if_pos hname, hpush]
      rfl
    · rw [if_neg hname, pendingOf_append_of_ne block hname]

/-- The line semantics of the decoder is the grammar. -/
theorem runLines_eventsOf (input : List Bytes) (block : List Field) :
    (runLines maxLineBytes maxEventBytes (pendingOf block) input).1 =
        (eventsOf maxLineBytes maxEventBytes true block input).1 ∧
      ((runLines maxLineBytes maxEventBytes (pendingOf block) input).2.isSome =
        (eventsOf maxLineBytes maxEventBytes true block input).2) := by
  induction input generalizing block with
  | nil =>
      rw [runLines, runSteps_nil, dispatch_pendingOf]
      exact ⟨rfl, rfl⟩
  | cons line rest ih =>
      rw [eventsOf]
      by_cases hbad : Malformed maxLineBytes maxEventBytes block line
      · obtain ⟨e, hstep⟩ := lineStep_malformed hbad
        rw [if_pos hbad, runLines, runSteps_cons_error hstep]
        exact ⟨rfl, rfl⟩
      · have hstep := lineStep_wellformed hbad
        rw [if_neg hbad]
        by_cases hblank : line = []
        · rw [if_pos hblank, dispatch_pendingOf] at hstep
          rw [if_pos hblank, runLines, runSteps_cons_ok hstep, ← runLines]
          rcases hitem : blockItem block with _ | item
          · exact ih []
          · cases item with
            | done =>
                rw [if_pos rfl, runLines_of_done rfl]
                exact ⟨rfl, rfl⟩
            | data payload =>
                rw [if_neg (by simp)]
                exact ⟨congrArg (SseItem.data payload :: ·) (ih []).1, (ih []).2⟩
        · rw [if_neg hblank] at hstep
          rw [if_neg hblank, runLines, runSteps_cons_ok hstep, ← runLines, Outcome.after_nil]
          exact ih (nextBlock block line)

/-- A malformed line decides, whatever follows it. -/
theorem eventsOf_append {eof : Bool} {input : List Bytes} {block : List Field}
    (h : (eventsOf maxLineBytes maxEventBytes false block input).2 = true) (more : List Bytes) :
    eventsOf maxLineBytes maxEventBytes eof block (input ++ more) =
      eventsOf maxLineBytes maxEventBytes false block input := by
  induction input generalizing block with
  | nil => cases h
  | cons line rest ih =>
      rw [eventsOf] at h ⊢
      rw [List.cons_append, eventsOf]
      by_cases hbad : Malformed maxLineBytes maxEventBytes block line
      · rw [if_pos hbad, if_pos hbad]
      · rw [if_neg hbad] at h
        rw [if_neg hbad, if_neg hbad]
        by_cases hblank : line = []
        · rw [if_pos hblank] at h
          rw [if_pos hblank, if_pos hblank]
          rcases hitem : blockItem block with _ | item
          · rw [hitem] at h
            simp only [ih h]
          · rw [hitem] at h
            cases item with
            | done => cases h
            | data payload => simp only [ih h]
        · rw [if_neg hblank] at h
          rw [if_neg hblank, if_neg hblank]
          exact ih h

end Lines

namespace SseDecoder

section Judged

/-- The lines that a decoder judges while it is fed a chunk. -/
def judged (d : SseDecoder) (chunk : Bytes) : List Bytes :=
  (splitLines cr lf d.line d.afterCr chunk).1 ++
    if d.maxLineBytes.toNat < (splitLines cr lf d.line d.afterCr chunk).2.length then
      [(splitLines cr lf d.line d.afterCr chunk).2]
    else []

/-- A line that is already too long is judged, however it goes on. -/
theorem judged_oversized (limit : Nat) (chunk current : Bytes) (afterCr : Bool)
    (h : limit < current.length) :
    ∃ suffix tail, (splitLines cr lf current afterCr chunk).1 ++
      (if limit < (splitLines cr lf current afterCr chunk).2.length then
        [(splitLines cr lf current afterCr chunk).2] else []) = (current ++ suffix) :: tail := by
  induction chunk generalizing current afterCr with
  | nil => exact ⟨[], [], by simp [splitLines, h]⟩
  | cons b rest ih =>
      rw [splitLines]
      split
      · split
        · exact ih current false h
        · exact ⟨[], _, by rw [List.append_nil, List.cons_append]⟩
      · split
        · exact ⟨[], _, by rw [List.append_nil, List.cons_append]⟩
        · obtain ⟨suffix, tail, heq⟩ := ih (current ++ [b]) false
            (by rw [List.length_append]; omega)
          exact ⟨b :: suffix, tail, by rw [heq, List.append_assoc, List.singleton_append]⟩

theorem fails_joinOutputs (items : List SseItem)
    (result : SseDecoder × Except SseError (List SseItem)) :
    (∃ e, (joinOutputs items result).2 = .error e) ↔ ∃ e, result.2 = .error e := by
  obtain ⟨after, e | later⟩ := result
  · exact Iff.rfl
  · constructor
    · rintro ⟨e, he⟩
      cases he
    · rintro ⟨e, he⟩
      cases he

theorem feed_of_done {d : SseDecoder} (h : d.done = true) (chunk : Bytes) :
    d.feed chunk = (d, .ok []) := by
  cases chunk with
  | nil => rfl
  | cons byte rest => rw [feed, if_pos h]

theorem feed_cons {d : SseDecoder} (h : d.done = false) (byte : UInt8) (rest : Bytes) :
    d.feed (byte :: rest) =
      match d.feedByte byte with
      | (d, .error e) => (d, .error e)
      | (d, .ok items) => joinOutputs items (d.feed rest) := by
  rcases hbyte : d.feedByte byte with ⟨after, e | items⟩ <;>
    simp only [feed, h, hbyte, Bool.false_eq_true, if_false]

theorem feedByte_of_reading {d : SseDecoder} (h : d.Reading) (byte : UInt8) :
    d.feedByte byte = d.pushLineByte byte := by
  rw [feedByte, if_neg (by simp [h.decided])]

/-- The byte that ends a line: the feed fails on a malformed line or later. -/
theorem fails_line {d : SseDecoder} (h : d.Reading) {block : List Field}
    (hpending : d.toPendingEvent = pendingOf block) {byte : UInt8} {afterCr : Bool} {rest : Bytes}
    (hstep : ∃ failed, d.feedByte byte =
      match d.toPendingEvent.processLine d.maxEventBytes d.line with
      | .error e => (failed, .error e)
      | .ok (p, items) => (d.acceptLine p afterCr, .ok items))
    (hrest : ∀ next, (∃ e, ((d.acceptLine (pendingOf next) afterCr).feed rest).2 = .error e) ↔
      (eventsOf d.maxLineBytes d.maxEventBytes false next
        ((d.acceptLine (pendingOf next) afterCr).judged rest)).2 = true) :
    (∃ e, (d.feed (byte :: rest)).2 = .error e) ↔
      (eventsOf d.maxLineBytes d.maxEventBytes false block
        (d.line :: (d.acceptLine d.toPendingEvent afterCr).judged rest)).2 = true := by
  obtain ⟨failed, hstep⟩ := hstep
  have hline : lineStep d.maxLineBytes d.maxEventBytes (pendingOf block) d.line =
      d.toPendingEvent.processLine d.maxEventBytes d.line := by
    rw [lineStep, if_neg (by simp [pendingOf]), if_neg (Nat.not_lt.mpr h.sound.line_le), hpending]
  rw [feed_cons h.unfinished, hstep, eventsOf]
  by_cases hbad : Malformed d.maxLineBytes d.maxEventBytes block d.line
  · obtain ⟨e, he⟩ := lineStep_malformed hbad
    rw [if_pos hbad, ← hline, he]
    exact ⟨fun _ => rfl, fun _ => ⟨e, rfl⟩⟩
  · rw [if_neg hbad, ← hline, lineStep_wellformed hbad]
    by_cases hblank : d.line = []
    · rw [if_pos hblank, if_pos hblank, dispatch_pendingOf]
      simp only [fails_joinOutputs]
      rcases hitem : blockItem block with _ | item
      · rw [if_neg (by simp)]
        exact hrest []
      · cases item with
        | done =>
            rw [if_pos rfl, feed_of_done rfl]
            constructor
            · rintro ⟨e, he⟩
              cases he
            · intro hfalse
              cases hfalse
        | data payload =>
            rw [if_neg (by simp)]
            exact hrest []
    · rw [if_neg hblank, if_neg hblank]
      simp only [fails_joinOutputs]
      exact hrest (nextBlock block d.line)

/-- A byte of a line: the feed fails when the line gets too long, or later. -/
theorem fails_plain {d : SseDecoder} (h : d.Reading) {block : List Field} {byte : UInt8}
    (hbyte : byte ≠ cr ∧ byte ≠ lf) {rest : Bytes}
    (hrest : Reading { d with afterCr := false, line := d.line ++ [byte] } →
      ((∃ e, (feed { d with afterCr := false, line := d.line ++ [byte] } rest).2 = .error e) ↔
        (eventsOf d.maxLineBytes d.maxEventBytes false block
          (judged { d with afterCr := false, line := d.line ++ [byte] } rest)).2 = true)) :
    (∃ e, (d.feed (byte :: rest)).2 = .error e) ↔
      (eventsOf d.maxLineBytes d.maxEventBytes false block (d.judged (byte :: rest))).2 = true := by
  have hjudged : d.judged (byte :: rest) =
      judged { d with afterCr := false, line := d.line ++ [byte] } rest := by
    rw [judged, splitLines, if_neg hbyte.2, if_neg hbyte.1]
    rfl
  rw [feed_cons h.unfinished, feedByte_of_reading h, hjudged]
  by_cases hlong : d.maxLineBytes.toNat ≤ d.line.length
  · have hstep : d.pushLineByte byte = ({ d with afterCr := false },
        .error (lineExceeded d.maxLineBytes.toNat)) := by
      rw [pushLineByte, if_neg hbyte.1, if_neg hbyte.2]
      exact if_pos hlong
    obtain ⟨suffix, tail, heq⟩ := judged_oversized d.maxLineBytes.toNat rest
      (d.line ++ [byte]) false (by rw [List.length_append, List.length_singleton]; omega)
    have hbad : Malformed d.maxLineBytes d.maxEventBytes block (d.line ++ [byte] ++ suffix) := by
      apply Or.inl
      simp only [List.length_append, List.length_singleton]
      omega
    rw [hstep]
    refine ⟨fun _ => ?_, fun _ => ⟨_, rfl⟩⟩
    change (eventsOf d.maxLineBytes d.maxEventBytes false block
      ((splitLines cr lf (d.line ++ [byte]) false rest).1 ++
        if d.maxLineBytes.toNat < (splitLines cr lf (d.line ++ [byte]) false rest).2.length
        then [(splitLines cr lf (d.line ++ [byte]) false rest).2] else [])).2 = true
    rw [heq, eventsOf, if_pos hbad]
  · have hstep : d.pushLineByte byte =
        ({ d with afterCr := false, line := d.line ++ [byte] }, .ok []) := by
      rw [pushLineByte, if_neg hbyte.1, if_neg hbyte.2]
      exact if_neg hlong
    have hreading := (pushLineByte_plain h hbyte).1
    rw [hstep] at hreading
    rw [hstep]
    simp only [fails_joinOutputs]
    exact hrest hreading.1

/-- Feeding fails exactly when one of the judged lines is malformed. -/
theorem feed_fails_iff (chunk : Bytes) {d : SseDecoder} (h : d.Reading) {block : List Field}
    (hpending : d.toPendingEvent = pendingOf block) :
    (∃ e, (d.feed chunk).2 = .error e) ↔
      (eventsOf d.maxLineBytes d.maxEventBytes false block (d.judged chunk)).2 = true := by
  induction chunk generalizing d block with
  | nil =>
      have hnone : d.judged [] = [] := by
        rw [judged, splitLines, if_neg (Nat.not_lt.mpr h.sound.line_le)]
        rfl
      rw [hnone]
      constructor
      · rintro ⟨e, he⟩
        cases he
      · intro hfalse
        cases hfalse
  | cons byte rest ih =>
      have hdecided := feedByte_of_reading h byte
      have haccept : ∀ next afterCr, (d.acceptLine (pendingOf next) afterCr).Reading :=
        fun next afterCr => ⟨sound_acceptLine h.decided _ _, h.decided, rfl⟩
      by_cases hcr : byte = cr
      · have hcrlf : ¬ byte = lf := by rw [hcr]; decide
        have hjudged : d.judged (byte :: rest) =
            d.line :: (d.acceptLine d.toPendingEvent true).judged rest := by
          rw [judged, splitLines, if_neg hcrlf, if_pos hcr]
          rfl
        rw [hjudged]
        apply fails_line h hpending
        · rw [hdecided, pushLineByte, if_pos hcr, terminateLine_eq]
          exact ⟨_, rfl⟩
        · exact fun next => ih (haccept next true) rfl
      · by_cases hlf : byte = lf
        · cases hafter : d.afterCr with
          | false =>
              have hjudged : d.judged (byte :: rest) =
                  d.line :: (d.acceptLine d.toPendingEvent false).judged rest := by
                rw [judged, splitLines, if_pos hlf, hafter]
                rfl
              rw [hjudged]
              apply fails_line h hpending
              · refine ⟨{ d with line := [] }, ?_⟩
                rw [hdecided, pushLineByte, if_neg hcr, if_pos hlf, if_pos (by simp [hafter]),
                  terminateLine_eq]
                rcases d.toPendingEvent.processLine d.maxEventBytes d.line with e | ⟨p, items⟩ <;> rfl
              · exact fun next => ih (haccept next false) rfl
          | true =>
              have hstep : d.feedByte byte = ({ d with afterCr := false }, .ok []) := by
                rw [hdecided, pushLineByte, if_neg hcr, if_pos hlf, hafter, if_neg (by decide)]
              have hjudged : d.judged (byte :: rest) =
                  judged { d with afterCr := false } rest := by
                rw [judged, splitLines, if_pos hlf, hafter]
                rfl
              have hreading : Reading { d with afterCr := false } :=
                ⟨⟨h.sound.line_le, (by intro hfalse; cases hfalse), h.sound.line_of_done,
                  fun hfalse => absurd hfalse (by simp [h.decided])⟩, h.decided, h.unfinished⟩
              rw [feed_cons h.unfinished, hstep, hjudged]
              simp only [fails_joinOutputs]
              exact ih hreading hpending
        · exact fails_plain h ⟨hcr, hlf⟩ fun hreading => ih hreading hpending

/-- Bytes of one line may be replayed or fed. -/
theorem feed_plain_append {bytes : Bytes} (hplain : Plain cr lf bytes) {d : SseDecoder}
    (h : d.Reading) (more : Bytes) :
    (d.feed (bytes ++ more)).2 =
      match d.pushLineBytes bytes with
      | (_, .error e) => .error e
      | (after, .ok items) => (joinOutputs items (after.feed more)).2 := by
  induction bytes generalizing d with
  | nil =>
      change (d.feed more).2 = (joinOutputs [] (d.feed more)).2
      rcases d.feed more with ⟨after, e | items⟩ <;> rfl
  | cons byte rest ih =>
      obtain ⟨hbyte, hrest⟩ := plain_cons.mp hplain
      obtain ⟨hlossless, hsilent⟩ := pushLineByte_plain h hbyte
      rw [List.cons_append, feed_cons h.unfinished, feedByte_of_reading h, pushLineBytes, feedAll]
      rcases hstep : d.pushLineByte byte with ⟨middle, e | items⟩
      · rfl
      · rw [hstep] at hlossless hsilent
        obtain rfl : items = [] := hsilent items rfl
        have hmiddle := ih hrest hlossless.1
        rw [pushLineBytes] at hmiddle
        have hjoin : ∀ result : SseDecoder × Except SseError (List SseItem),
            joinOutputs [] result = result := by
          rintro ⟨after, e | later⟩ <;> rfl
        simp only [hjoin]
        exact hmiddle

/-- The input is still too short to tell a byte order mark. -/
def UndecidedMark (input : Bytes) : Prop := input.length < utf8Bom.length ∧ input <+: utf8Bom

/-- A byte that is not the next one of the mark decides. -/
theorem not_undecidedMark {count : Nat} (hcount : count < utf8Bom.length) {byte : UInt8}
    (hbyte : utf8Bom[count]? ≠ some byte) (rest : Bytes) :
    ¬ UndecidedMark (utf8Bom.take count ++ byte :: rest) := by
  rintro ⟨-, tail, htail⟩
  apply hbyte
  have hlength : (utf8Bom.take count).length = count := by
    rw [List.length_take]
    omega
  rw [← htail, List.append_assoc, List.getElem?_append_right (Nat.le_of_eq hlength), hlength,
    Nat.sub_self]
  rfl

/-- At such a byte the bytes taken for a mark so far are fed again as content. -/
theorem feed_replay {d : SseDecoder} (h : d.Sound) (hbom : d.bomChecked = false) {byte : UInt8}
    (hbyte : utf8Bom[d.bomLen]? ≠ some byte) {rest : Bytes} :
    (d.feed (byte :: rest)).2 = (feed { d with bomChecked := true }
      (utf8Bom.take d.bomLen ++ byte :: rest)).2 := by
  obtain ⟨-, -, hdone, -⟩ := h.undecided hbom
  have hreading := reading_replay h hbom
  obtain ⟨hlossless, hsilent⟩ := pushLineBytes_plain hreading (plain_utf8Bom_take d.bomLen)
  rw [feed_plain_append (plain_utf8Bom_take d.bomLen) hreading, feed_cons hdone, feedByte,
    if_pos (by simp [hbom]), if_neg hbyte]
  rcases hreplay : pushLineBytes { d with bomChecked := true } (utf8Bom.take d.bomLen) with
    ⟨middle, e | items⟩
  · rfl
  · rw [hreplay] at hlossless hsilent
    obtain rfl : items = [] := hsilent items rfl
    simp only [feed_cons hlossless.1.unfinished, feedByte_of_reading hlossless.1]
    obtain ⟨after, e | later⟩ := middle.pushLineByte byte
    · rfl
    · rcases hlater : after.feed rest with ⟨last, e | more⟩ <;>
        simp [joinOutputs, hlater]

/-- Before the mark is decided feeding fails on malformed judged lines as well, but a stream
that is itself a part of the mark is not judged at all. -/
theorem feed_undecided_fails_iff (chunk : Bytes) {d : SseDecoder} (h : d.Sound)
    (hbom : d.bomChecked = false) (hpending : d.toPendingEvent = pendingOf []) :
    (∃ e, (d.feed chunk).2 = .error e) ↔
      ¬ UndecidedMark (utf8Bom.take d.bomLen ++ chunk) ∧
        (judgedEvents d.maxLineBytes d.maxEventBytes (utf8Bom.take d.bomLen ++ chunk)).2 = true := by
  induction chunk generalizing d with
  | nil =>
      obtain ⟨-, -, -, hlen⟩ := h.undecided hbom
      constructor
      · rintro ⟨e, he⟩
        cases he
      · rintro ⟨hmark, -⟩
        refine absurd ⟨?_, ?_⟩ hmark
        · rw [List.append_nil, List.length_take]
          omega
        · rw [List.append_nil]
          exact List.take_prefix _ _
  | cons byte rest ih =>
      obtain ⟨hline, hcr, hdone, hlen⟩ := h.undecided hbom
      by_cases hbyte : utf8Bom[d.bomLen]? = some byte
      · have htake : utf8Bom.take (d.bomLen + 1) = utf8Bom.take d.bomLen ++ [byte] := by
          rw [List.take_add_one, hbyte]
          rfl
        have hinput : utf8Bom.take d.bomLen ++ byte :: rest =
            utf8Bom.take (d.bomLen + 1) ++ rest := by
          rw [htake, List.append_assoc, List.singleton_append]
        rw [feed_cons hdone, hinput]
        by_cases hfull : d.bomLen + 1 = utf8Bom.length
        · have hstep : d.feedByte byte =
              ({ d with bomLen := d.bomLen + 1, bomChecked := true }, .ok []) := by
            rw [feedByte, if_pos (by simp [hbom]), if_pos hbyte]
            simp only [if_pos hfull]
          have hreading : Reading { d with bomLen := d.bomLen + 1, bomChecked := true } :=
            ⟨⟨h.line_le, h.line_of_cr, h.line_of_done, by intro hfalse; cases hfalse⟩, rfl, hdone⟩
          have hmark : ¬ UndecidedMark (utf8Bom ++ rest) := by
            rintro ⟨hshort, -⟩
            rw [List.length_append] at hshort
            omega
          have hwhole : utf8Bom.take (d.bomLen + 1) = utf8Bom := by
            rw [hfull, List.take_length]
          rw [hstep, hwhole]
          simp only [fails_joinOutputs]
          rw [feed_fails_iff rest hreading hpending, judgedEvents, judgedLines, stripBom_match,
            judged, hline, hcr]
          exact ⟨fun hfails => ⟨hmark, hfails⟩, fun hfails => hfails.2⟩
        · have hstep : d.feedByte byte = ({ d with bomLen := d.bomLen + 1 }, .ok []) := by
            rw [feedByte, if_pos (by simp [hbom]), if_pos hbyte]
            simp only [if_neg hfull]
          have hsound : Sound { d with bomLen := d.bomLen + 1 } := by
            refine ⟨h.line_le, h.line_of_cr, h.line_of_done, fun _ => ⟨hline, hcr, hdone, ?_⟩⟩
            change d.bomLen + 1 < utf8Bom.length
            omega
          rw [hstep]
          simp only [fails_joinOutputs]
          exact ih hsound hbom hpending
      · have hstrip := stripBom_mismatch hlen hbyte rest
        have hreading := reading_replay h hbom
        have hmark := not_undecidedMark hlen hbyte rest
        rw [feed_replay h hbom hbyte, feed_fails_iff _ hreading hpending, judgedEvents, judgedLines,
          hstrip, judged, hline, hcr]
        exact ⟨fun hfails => ⟨hmark, hfails⟩, fun hfails => hfails.2⟩

end Judged

section Body

variable (maxLineBytes maxEventBytes : UInt64) (body : Bytes)

/-- What a fresh decoder has to say about a body is what the grammar says. -/
theorem remaining_new_events :
    ((new maxLineBytes maxEventBytes).remaining body).1 =
        (bodyEvents maxLineBytes maxEventBytes body).1 ∧
      ((new maxLineBytes maxEventBytes).remaining body).2.isSome =
        (bodyEvents maxLineBytes maxEventBytes body).2 := by
  rw [remaining_new, ← pendingOf_nil]
  exact runLines_eventsOf _ []

/-- The lines of a body begin with those that can be judged before its end. -/
theorem lines_eq_judgedLines : ∃ more,
    lines cr lf [] (stripBom body) = judgedLines maxLineBytes body ++ more := by
  rw [← (scanLines_eq (stripBom body) []).1, scanLines_eq_splitLines, judgedLines]
  by_cases hlong : maxLineBytes.toNat < (splitLines cr lf [] false (stripBom body)).2.length
  · have hne : (splitLines cr lf [] false (stripBom body)).2 ≠ [] := by
      intro hnil
      rw [hnil] at hlong
      exact Nat.not_lt_zero _ hlong
    exact ⟨[], by rw [if_pos hlong, if_neg hne, List.append_nil]⟩
  · rw [if_neg hlong, List.append_nil]
    exact ⟨_, rfl⟩

/-- A line found malformed before the end of the body is its first malformed line. -/
theorem bodyEvents_of_judged (h : (judgedEvents maxLineBytes maxEventBytes body).2 = true) :
    bodyEvents maxLineBytes maxEventBytes body = judgedEvents maxLineBytes maxEventBytes body := by
  obtain ⟨more, heq⟩ := lines_eq_judgedLines maxLineBytes body
  rw [bodyEvents, heq]
  exact eventsOf_append h more

/-- A part of a byte order mark holds no event. -/
theorem judgedEvents_of_undecidedMark (hmark : UndecidedMark body) :
    (judgedEvents maxLineBytes maxEventBytes body).1 = [] := by
  obtain ⟨hlen, tail, htail⟩ := hmark
  have hplain : Plain cr lf body := by
    have hall := plain_utf8Bom_take utf8Bom.length
    rw [List.take_length, ← htail] at hall
    exact (plain_append.mp hall).1
  rw [judgedEvents, judgedLines, stripBom_short hlen, splitLines_plain hplain]
  by_cases hlong : maxLineBytes.toNat < body.length
  · have hbad : Malformed maxLineBytes maxEventBytes [] body := Or.inl hlong
    simp [hlong, eventsOf, hbad]
  · simp [hlong, eventsOf]

/-- A fresh decoder that is fed the whole body at once drops events exactly when the
grammar has events in front of a line found malformed before the end. -/
theorem feed_new_lossless_iff :
    ((∃ e, ((new maxLineBytes maxEventBytes).feed body).2 = .error e) →
        ((new maxLineBytes maxEventBytes).remaining body).1 = []) ↔
      ((judgedEvents maxLineBytes maxEventBytes body).2 = true →
        (judgedEvents maxLineBytes maxEventBytes body).1 = []) := by
  have hfails := feed_undecided_fails_iff body (sound_new maxLineBytes maxEventBytes) rfl rfl
  obtain ⟨hitems, -⟩ := remaining_new_events maxLineBytes maxEventBytes body
  rw [hfails, hitems]
  change (¬ UndecidedMark body ∧ (judgedEvents maxLineBytes maxEventBytes body).2 = true → _) ↔ _
  constructor
  · intro hlossless hjudged
    by_cases hmark : UndecidedMark body
    · exact judgedEvents_of_undecidedMark maxLineBytes maxEventBytes body hmark
    · rw [← bodyEvents_of_judged maxLineBytes maxEventBytes body hjudged]
      exact hlossless ⟨hmark, hjudged⟩
  · rintro hempty ⟨-, hjudged⟩
    rw [bodyEvents_of_judged maxLineBytes maxEventBytes body hjudged]
    exact hempty hjudged

end Body

end SseDecoder

end OpenaiRs.Direct
