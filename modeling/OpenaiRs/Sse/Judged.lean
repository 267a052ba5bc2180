import OpenaiRs.Sse.Reference
import OpenaiRs.Sse.StreamRun

/-!
# What is judged before the end of a body

A decoder that is still being fed judges a line when something follows it, when a line feed ends it, or
when it is too long already. `judgedEvents` says in terms of the grammar which frames stand in front of
the first violation found like that. A push fails exactly when there is one.
-/

namespace OpenaiRs.Sse

open Rust Text

section Lines

/-- The lines of a text that is decided up to here: all but a last line that may still go on. -/
def settledLines (maxLineBytes : UInt64) (text : Bytes) : List Bytes :=
  if text.getLast? = some lf ∨
      (lines cr lf [] text).getLast?.any (fun line => maxLineBytes.toNat < line.length) then
    lines cr lf [] text
  else (lines cr lf [] text).dropLast

/-- The lines of a body that are judged before its end. A part of a byte order mark is no line yet. -/
def judgedLines (maxLineBytes : UInt64) (body : Bytes) : List Bytes :=
  if body.length < utf8Bom.length ∧ body <+: utf8Bom then []
  else settledLines maxLineBytes (stripBom body)

/-- The frames of some lines in front of the first violation, and the violation. -/
def framesBefore (limits : SseLimits) (seen block : List Field) : List Bytes → LineOutcome
  | [] => ([], none)
  | line :: rest =>
      match violation limits block line with
      | some e => ([], some e)
      | none =>
          Outcome.after (if line = [] then (blockFrame seen block).toList else [])
            (framesBefore limits (seen ++ lineFields line) (nextBlock block line) rest)

/-- The frames of a body in front of the first violation that is found before its end. -/
def judgedEvents (limits : SseLimits) (body : Bytes) : LineOutcome :=
  framesBefore limits [] [] (judgedLines limits.maxLineBytes body)

variable {maxLineBytes : UInt64}

theorem settledLines_prefix (text : Bytes) : settledLines maxLineBytes text <+: lines cr lf [] text := by
  rw [settledLines]
  split
  · exact List.prefix_rfl
  · exact List.dropLast_prefix _

theorem settledLines_nil : settledLines maxLineBytes [] = [] := by
  simp [settledLines, lines_nil]

theorem judgedLines_prefix (body : Bytes) :
    judgedLines maxLineBytes body <+: lines cr lf [] (stripBom body) := by
  rw [judgedLines]
  split
  · exact List.nil_prefix
  · exact settledLines_prefix _

theorem lines_ne_nil {text : Bytes} (h : text ≠ []) : lines cr lf [] text ≠ [] := by
  obtain ⟨b, rest, rfl⟩ := List.exists_cons_of_ne_nil h
  rw [lines_cons]
  split
  · simp
  · split
    · simp
    · obtain ⟨suffix, tail, heq⟩ := lines_head cr lf (List.cons_ne_nil b []) rest
      rw [List.nil_append, heq]
      exact List.cons_ne_nil _ _

/-- A line in front of others is settled. -/
theorem settledLines_cons {text rest line : Bytes} (hrest : rest ≠ [])
    (hlast : text.getLast? = rest.getLast?) (hlines : lines cr lf [] text = line :: lines cr lf [] rest) :
    settledLines maxLineBytes text = line :: settledLines maxLineBytes rest := by
  have hne := lines_ne_nil hrest
  rw [settledLines, settledLines, hlines, hlast, List.getLast?_cons_of_ne_nil hne,
    List.dropLast_cons_of_ne_nil hne]
  split <;> rfl

/-- A line that is taken off a buffer is settled. -/
theorem settledLines_of_splitLine {buffer line rest : Bytes}
    (h : splitLine cr lf false buffer = some (line, rest)) (more : Bytes) :
    settledLines maxLineBytes (buffer ++ more) = line :: settledLines maxLineBytes (rest ++ more) := by
  have hlines := lines_of_splitLine h more
  obtain ⟨front, hbuffer, hends⟩ : ∃ front, buffer = front ++ rest ∧ (rest = [] → buffer.getLast? = some lf) := by
    obtain ⟨-, rfl | ⟨tail, rfl, -, rfl, htail⟩⟩ := splitLine_eq_some h
    · refine ⟨line ++ [lf], by simp, ?_⟩
      rintro rfl
      simp
    · cases tail with
      | nil => exact Bool.noConfusion (htail rfl)
      | cons b tail =>
          rw [dropLf]
          split
          · rename_i hb
            refine ⟨line ++ [cr, lf], by simp [hb], ?_⟩
            rintro rfl
            simp [hb]
          · refine ⟨line ++ [cr], by simp, ?_⟩
            intro hnil
            cases hnil
  by_cases hrest : rest ++ more = []
  · obtain ⟨rfl, rfl⟩ := List.append_eq_nil_iff.mp hrest
    rw [List.append_nil] at hlines ⊢
    rw [settledLines, if_pos (.inl (hends rfl)), hlines, List.append_nil, settledLines_nil, lines_nil,
      if_pos rfl]
  · refine settledLines_cons hrest ?_ hlines
    rw [hbuffer, List.append_assoc, List.getLast?_append_of_ne_nil _ hrest]

/-- A line that is too long is settled. -/
theorem settledLines_head {text line : Bytes} {tail : List Bytes}
    (h : lines cr lf [] text = line :: tail) (hlong : maxLineBytes.toNat < line.length) :
    ∃ tail', settledLines maxLineBytes text = line :: tail' := by
  rw [settledLines, h]
  split
  · exact ⟨tail, rfl⟩
  · rename_i hshort
    cases tail with
    | nil => exact absurd (.inr (by simpa using hlong)) hshort
    | cons next tail => exact ⟨(next :: tail).dropLast, rfl⟩

end Lines

section Judge

/-- Process whole lines in order, with nothing to flush behind them. -/
def judgeLines (limits : SseLimits) (r : EventRegisters) (input : List Bytes) : LineOutcome :=
  runSteps (EventRegisters.processLine limits) (fun _ => []) r input

variable {limits : SseLimits} {r r' : EventRegisters}

theorem judgeLines_cons_error {line : Bytes} {e : SseDecodeError}
    (h : r.processLine limits line = .error e) (rest : List Bytes) :
    judgeLines limits r (line :: rest) = ([], some e) :=
  runSteps_cons_error h rest

theorem judgeLines_cons_ok {line : Bytes} {frames : List SseFrame}
    (h : r.processLine limits line = .ok (r', frames)) (rest : List Bytes) :
    judgeLines limits r (line :: rest) = Outcome.after frames (judgeLines limits r' rest) :=
  runSteps_cons_ok h rest

/-- What is judged of the first lines stays so, whatever lines follow. -/
theorem runLines_of_judgeLines {input : List Bytes} {frames : List SseFrame} {e : SseDecodeError}
    (h : judgeLines limits r input = (frames, some e)) (more : List Bytes) :
    runLines limits r (input ++ more) = (frames, some e) := by
  induction input generalizing r frames with
  | nil => cases h
  | cons line rest ih =>
      rw [List.cons_append]
      rcases hline : r.processLine limits line with e' | ⟨r', first⟩
      · rw [judgeLines_cons_error hline] at h
        rw [runLines_cons_error hline]
        exact h
      · rw [judgeLines_cons_ok hline] at h
        obtain ⟨hframes, herror⟩ := Prod.mk.inj h
        rw [runLines_cons_ok hline, ih (Prod.ext rfl herror)]
        exact Prod.ext hframes rfl

/-- In terms of the grammar, the registers judge the frames in front of the first violation. -/
theorem judgeLines_registersOf (limits : SseLimits) (input : List Bytes) (seen block : List Field) :
    judgeLines limits (registersOf seen block) input = framesBefore limits seen block input := by
  induction input generalizing seen block with
  | nil => rfl
  | cons line rest ih =>
      have hline := processLine_registersOf limits seen block line
      rw [framesBefore]
      cases hviolation : violation limits block line with
      | some e =>
          rw [hviolation] at hline
          exact judgeLines_cons_error hline rest
      | none =>
          rw [hviolation] at hline
          rw [judgeLines_cons_ok hline, ih]

end Judge

namespace SseDecoder

/-- What is judged before the end of the buffer followed by `more`, the BOM being decided. -/
def judgedBuffer (d : SseDecoder) (more : Bytes) : LineOutcome :=
  judgeLines d.limits d.toEventRegisters (settledLines d.limits.maxLineBytes (d.lineBuffer ++ more))

/-- What the decoder judges of everything it has not processed yet, before its end. -/
def judged (d : SseDecoder) (more : Bytes) : LineOutcome :=
  judgeLines d.limits d.toEventRegisters
    (if d.bomChecked then settledLines d.limits.maxLineBytes (d.lineBuffer ++ more)
      else judgedLines d.limits.maxLineBytes (d.lineBuffer ++ more))

/-- The invariant between calls, with the check of the incomplete line passed. -/
structure Judgeable (d : SseDecoder) : Prop extends Ready d where
  limit : d.checkIncompleteLineLimit = .ok ()

theorem judgeable_new (limits : SseLimits) : (new limits).Judgeable where
  toReady := ready_new limits
  limit := rfl

theorem judged_of_bomChecked {d : SseDecoder} (h : d.bomChecked = true) (more : Bytes) :
    d.judged more = d.judgedBuffer more := by
  simp only [judged, judgedBuffer, h, if_true]

theorem judged_new (limits : SseLimits) (body : Bytes) :
    (new limits).judged body = judgedEvents limits body :=
  judgeLines_registersOf limits _ [] []

/-- What is judged before the end stays so at the end. -/
theorem remaining_of_judged {d : SseDecoder} {more : Bytes} {frames : List SseFrame} {e : SseDecodeError}
    (h : d.judged more = (frames, some e)) : d.remaining more = (frames, some e) := by
  have hfront : (if d.bomChecked then settledLines d.limits.maxLineBytes (d.lineBuffer ++ more)
      else judgedLines d.limits.maxLineBytes (d.lineBuffer ++ more)) <+:
      lines cr lf [] (if d.bomChecked then d.lineBuffer ++ more else stripBom (d.lineBuffer ++ more)) := by
    split
    · exact settledLines_prefix _
    · exact judgedLines_prefix _
  obtain ⟨later, hlines⟩ := hfront
  rw [remaining, ← hlines]
  exact runLines_of_judgeLines h later

section Drain

/-- Draining hands out a prefix of what is judged and keeps the rest. -/
theorem drainLoop_judged (more : Bytes) (fuel : Nat) (d : SseDecoder)
    (hfuel : d.lineBuffer.length < fuel) (h : d.Scannable) :
    match drainLoop false fuel d with
    | (after, .ok frames) => d.judgedBuffer more = Outcome.after frames (after.judgedBuffer more)
    | (_, .error e) => ∃ frames, d.judgedBuffer more = (frames, some e) := by
  induction fuel generalizing d with
  | zero => omega
  | succ fuel ih =>
      cases hsplit : splitLine cr lf false d.lineBuffer with
      | none =>
          obtain ⟨position, hloop, -⟩ := drainLoop_none h fuel hsplit
          rw [hloop]
          rfl
      | some p =>
          obtain ⟨line, rest⟩ := p
          have hlines : settledLines d.limits.maxLineBytes (d.lineBuffer ++ more) = _ :=
            settledLines_of_splitLine hsplit more
          rw [drainLoop_some h fuel hsplit]
          cases hline : d.toEventRegisters.processLine d.limits line with
          | error e =>
              refine ⟨[], ?_⟩
              rw [judgedBuffer, hlines]
              exact judgeLines_cons_error hline _
          | ok result =>
              obtain ⟨r, frames⟩ := result
              have hlen := splitLine_length hsplit
              have hrun : d.judgedBuffer more = Outcome.after frames
                  (judgedBuffer { d.consumeLine rest with toEventRegisters := r } more) := by
                rw [judgedBuffer, hlines]
                exact judgeLines_cons_ok hline _
              have hrest := ih { d.consumeLine rest with toEventRegisters := r }
                (by change rest.length < fuel; omega) (scannable_consumeLine d rest)
              simp only
              rcases hloop : drainLoop false fuel { d.consumeLine rest with toEventRegisters := r } with
                ⟨after, e | later⟩
              · rw [hloop] at hrest
                obtain ⟨later, heq⟩ := hrest
                exact ⟨frames ++ later, by rw [hrun, heq]; rfl⟩
              · rw [hloop] at hrest
                change d.judgedBuffer more = Outcome.after (frames ++ later) (after.judgedBuffer more)
                rw [hrun, hrest, Outcome.after_after]

/-- Deciding the mark keeps what is judged. -/
theorem ensureBomChecked_judged {d decided : SseDecoder} (h : d.ensureBomChecked false = (decided, true))
    (more : Bytes) : d.judged more = decided.judgedBuffer more := by
  have hbuffer := lineBuffer_of_ensureBomChecked h
  cases hbom : d.bomChecked with
  | true =>
      simp only [ensureBomChecked, hbom, if_true] at h
      obtain ⟨rfl, -⟩ := Prod.mk.inj h
      exact judged_of_bomChecked hbom more
  | false =>
      simp only [ensureBomChecked, hbom, Bool.false_eq_true, if_false] at h
      split at h
      · cases h
      · rename_i hwait
        have hopen : ¬ (d.lineBuffer.length < utf8Bom.length ∧ d.lineBuffer <+: utf8Bom) := by
          simpa using hwait
        have hlonger : ¬ ((d.lineBuffer ++ more).length < utf8Bom.length ∧
            d.lineBuffer ++ more <+: utf8Bom) := by
          rintro ⟨hlen, hmark⟩
          refine hopen ⟨?_, (List.prefix_append _ _).trans hmark⟩
          rw [List.length_append] at hlen
          omega
        have hregisters : decided.toEventRegisters = d.toEventRegisters ∧ decided.limits = d.limits := by
          obtain ⟨rfl, -⟩ := Prod.mk.inj h
          split
          · exact ⟨rfl, rfl⟩
          · exact ⟨rfl, rfl⟩
        rw [hbom, if_neg Bool.false_ne_true] at hbuffer
        rw [judged, judgedBuffer, hregisters.1, hregisters.2, hbuffer, hbom, if_neg Bool.false_ne_true,
          judgedLines, if_neg hlonger, stripBom_append hopen]

theorem drainCompleteLines_judged {d : SseDecoder} (hscan : d.Scannable)
    (hstart : d.bomChecked = false → d.searchFrom = 0) (more : Bytes) :
    match d.drainCompleteLines false with
    | (after, .ok frames) => d.judged more = Outcome.after frames (after.judged more)
    | (_, .error e) => ∃ frames, d.judged more = (frames, some e) := by
  have hbom := ensureBomChecked_spec d false hscan hstart
  rw [drainCompleteLines]
  rcases hcheck : d.ensureBomChecked false with ⟨decided, _ | _⟩
  · rw [hcheck] at hbom
    obtain ⟨rfl, -, -⟩ := hbom
    rfl
  · rw [hcheck] at hbom
    obtain ⟨hdecided, -, -, hscan', -⟩ := hbom
    have hlength := Nat.lt_succ_self decided.lineBuffer.length
    have hspec := drainLoop_spec false more (by simp) _ decided hlength hscan'
    have hdrain := drainLoop_judged more _ decided hlength hscan'
    rw [ensureBomChecked_judged hcheck more]
    simp only
    rcases hloop : drainLoop false (decided.lineBuffer.length + 1) decided with ⟨after, e | frames⟩
    · rw [hloop] at hdrain
      exact hdrain
    · rw [hloop] at hdrain hspec
      have hafter := judged_of_bomChecked (hspec.1.bomChecked.trans hdecided) more
      exact hdrain.trans (congrArg (Outcome.after frames) hafter.symm)

end Drain

section Feed

/-- An incomplete line that is too long is judged. -/
theorem checkIncompleteLineLimit_judged {d : SseDecoder} {e : SseDecodeError}
    (hsettled : d.Settled false) (h : d.checkIncompleteLineLimit = .error e) (more : Bytes) :
    d.judged more = ([], some e) := by
  obtain ⟨hbom, rfl, hhead⟩ := oversized_of_checkIncompleteLineLimit hsettled h
  obtain ⟨line, tail, heq, hlen⟩ := hhead more
  obtain ⟨tail', hjudged⟩ := settledLines_head heq hlen
  rw [judged_of_bomChecked hbom, judgedBuffer, hjudged]
  exact judgeLines_cons_error (processLine_oversized _ hlen) tail'

/-- What a call on `input` may answer, in terms of what is judged. -/
abbrev Judges (d : SseDecoder) (input : Bytes)
    (result : SseDecoder × Except SseDecodeError (List SseFrame)) : Prop :=
  Text.Answers Judgeable judged d input result

theorem judged_extend (d : SseDecoder) (slice more : Bytes) :
    judged { d with lineBuffer := d.lineBuffer ++ slice } more = d.judged (slice ++ more) := by
  simp only [judged, List.append_assoc]

theorem feedSlice_judges {d : SseDecoder} (h : d.Judgeable) (slice : Bytes) :
    d.Judges slice (d.feedSlice slice) := by
  have hscan := scannable_extend h.settled.scannable slice
  have hdrain := drainCompleteLines_judged hscan h.cursor
  have hspec := drainCompleteLines_spec { d with lineBuffer := d.lineBuffer ++ slice } false hscan h.cursor
  rw [feedSlice]
  rcases hresult : drainCompleteLines { d with lineBuffer := d.lineBuffer ++ slice } false with
    ⟨after, e | frames⟩
  · rw [hresult] at hdrain
    intro more
    rw [← judged_extend]
    exact hdrain more
  · rw [hresult] at hdrain hspec
    obtain ⟨-, hstate, hsettled, -⟩ := hspec
    simp only
    rcases hlimit : after.checkIncompleteLineLimit with e | _
    · intro more
      refine ⟨frames, ?_⟩
      rw [← judged_extend, hdrain more, checkIncompleteLineLimit_judged hsettled hlimit more]
      simp [Outcome.after]
    · refine ⟨⟨⟨hstate.trans h.active, hsettled⟩, hlimit⟩, fun more => ?_⟩
      rw [← judged_extend]
      exact hdrain more

theorem push_judges {d : SseDecoder} (h : d.Judgeable) (chunk : Bytes) :
    d.Judges chunk (d.push chunk) := by
  have hslices := answers_feedAll id (chunks feedSliceBytes chunk)
    (fun _ slice _ hd => feedSlice_judges hd slice) h
  have hsize : 0 < feedSliceBytes := by decide
  rw [List.flatMap_id, chunks_flatten hsize] at hslices
  rw [push_eq h.active, pushInner]
  change Text.Answers Judgeable judged d chunk (d.feedSlices (chunks feedSliceBytes chunk)) at hslices
  rcases hfeed : d.feedSlices (chunks feedSliceBytes chunk) with ⟨after, e | frames⟩
  · rw [hfeed] at hslices
    exact hslices
  · rw [hfeed] at hslices
    exact hslices

/-- Nothing is left to judge between calls. -/
theorem judged_nil {d : SseDecoder} (h : d.Judgeable) : d.judged [] = ([], none) := by
  have hnone : (if d.bomChecked then settledLines d.limits.maxLineBytes (d.lineBuffer ++ [])
      else judgedLines d.limits.maxLineBytes (d.lineBuffer ++ [])) = [] := by
    rw [List.append_nil]
    cases hbom : d.bomChecked with
    | false =>
        obtain ⟨-, hmark, hlen, -⟩ := h.settled.undecided hbom
        rw [if_neg Bool.false_ne_true, judgedLines, if_pos ⟨hlen, hmark⟩]
    | true =>
        have hlimit := h.limit
        simp only [checkIncompleteLineLimit, hbom, Bool.not_true, Bool.false_and, Bool.false_eq_true,
          if_false] at hlimit
        have hshort : d.contentLen ≤ d.limits.maxLineBytes.toNat := by
          by_contra hlong
          rw [if_pos (Nat.lt_of_not_le hlong)] at hlimit
          cases hlimit
        rw [if_pos rfl]
        obtain hplain | ⟨content, hplain, hbuffer⟩ := plain_of_splitLine_none (h.settled.noLine hbom)
        · by_cases hnil : d.lineBuffer = []
          · rw [hnil, settledLines_nil]
          · have hlast : d.lineBuffer.getLast? ≠ some cr ∧ d.lineBuffer.getLast? ≠ some lf := by
              constructor <;> intro hlast <;>
                have := hplain _ (List.mem_of_getLast? hlast) <;> simp at this
            rw [contentLen, if_neg hlast.1] at hshort
            simp [settledLines, lines_plain hplain, hnil, hlast.2, hshort]
        · have hcrlf : cr ≠ lf := by decide
          have hlines : lines cr lf [] (content ++ [cr]) = [content] := by
            rw [lines_plain_append hplain, lines_cons, if_neg hcrlf, if_pos rfl, dropLf, lines_nil,
              if_pos rfl, List.nil_append]
          have hlen : content.length ≤ d.limits.maxLineBytes.toNat := by
            simpa [contentLen, hbuffer] using hshort
          simp [settledLines, hbuffer, hlines, hcrlf, hlen]
  rw [judged, hnone]
  rfl

end Feed

end SseDecoder

end OpenaiRs.Sse
