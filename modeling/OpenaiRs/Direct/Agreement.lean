import OpenaiRs.Direct.LineRun
import OpenaiRs.Sse.Terminal

/-!
# The direct decoder against the platform decoder

Both decoders read the same physical lines, so the comparison is a simulation line
by line: the direct decoder mirrors the data registers of the platform decoder and
ignores the other ones. The platform decoder validates comments as UTF-8 and counts
`data` fields; the two assumptions of the comparison exclude exactly that.
-/

namespace OpenaiRs.Direct

open Rust Text
open Sse (SseLimits SseFrame SseDispatch SseEndpointPolicy EventRegisters SseStreamDecoder
  SseDecodeError StreamOutcome stripBom classifyRun)

/-- EOF completes the stream, and so does the data sentinel. -/
def donePolicy : SseEndpointPolicy :=
  SseEndpointPolicy.eofTerminated.withConsumedDataSentinel (utf8 "[DONE]")

/-- The item of a platform frame. -/
def itemOf (frame : SseFrame) : SseItem :=
  if frame.data = utf8 "[DONE]" then .done else .data frame.data

/-- The payload of a data item. -/
def SseItem.payload? : SseItem → Option Bytes
  | .data payload => some payload
  | .done => none

theorem classify_donePolicy (frame : SseFrame) :
    donePolicy.classify frame =
      if frame.data = utf8 "[DONE]" then .consumedTerminal else .event := by
  obtain ⟨event, data, id, retry⟩ := frame
  cases event <;>
    simp [SseEndpointPolicy.classify, donePolicy, SseEndpointPolicy.eofTerminated,
      SseEndpointPolicy.new, SseEndpointPolicy.withConsumedDataSentinel]

section Frames

theorem itemOf_eq_done (frame : SseFrame) :
    itemOf frame = .done ↔ donePolicy.classify frame = .consumedTerminal := by
  rw [classify_donePolicy, itemOf]
  split <;> simp

/-- The payloads of the items are the data values of the dispatches. -/
theorem payloads_eq (error : Option SseDecodeError) (frames : List SseFrame) :
    ((donePolicy.seen frames).map itemOf).filterMap SseItem.payload? =
      (classifyRun donePolicy error frames).dispatches.map (fun dispatch => dispatch.frame.data) := by
  induction frames with
  | nil =>
      cases error <;> rfl
  | cons frame rest ih =>
      by_cases hdone : frame.data = utf8 "[DONE]"
      · have hclass : donePolicy.classify frame = .consumedTerminal := by
          rw [classify_donePolicy, if_pos hdone]
        rw [SseEndpointPolicy.seen, if_neg (by simp [hclass]), classifyRun, hclass]
        simp [itemOf, hdone, SseItem.payload?]
      · have hclass : donePolicy.classify frame = .event := by
          rw [classify_donePolicy, if_neg hdone]
        rw [SseEndpointPolicy.seen, if_pos hclass, classifyRun, hclass, List.map_cons]
        simp only [itemOf, hdone, if_false]
        rw [List.filterMap_cons]
        simp only [SseItem.payload?, ih]
        rfl

end Frames

section Lines

/-- The direct decoder keeps the data registers of the platform decoder. -/
structure Mirrors (p : PendingEvent) (r : EventRegisters) : Prop where
  data : p.data = r.eventData
  hasData : p.hasData = decide (r.dataLines ≠ 0)
  unfinished : p.done = false

/-- One line under both decoders: they fail together, or the items are those of the
frames and the sentinel is either the last frame or the registers still agree. -/
def StepAgrees (r : EventRegisters) :
    Except SseDecodeError (EventRegisters × List SseFrame) →
      Except SseError (PendingEvent × List SseItem) → Prop
  | .error _, .error _ => True
  | .ok platform, .ok direct =>
      platform.1.dataLines ≤ r.dataLines + 1 ∧
        ((Mirrors direct.1 platform.1 ∧ direct.2 = platform.2.map itemOf ∧
            ∀ frame ∈ platform.2, donePolicy.classify frame = .event) ∨
          (direct.1.done = true ∧ ∃ frame, platform.2 = [frame] ∧ direct.2 = [itemOf frame] ∧
            donePolicy.classify frame = .consumedTerminal))
  | _, _ => False

variable {limits : SseLimits} {p : PendingEvent} {r : EventRegisters}

/-- A blank line hands over the event of both decoders. -/
theorem dispatch_agrees (h : Mirrors p r) :
    StepAgrees r (.ok (r.takeEvent.1, r.takeEvent.2.toList)) (.ok p.dispatch) := by
  have hdone : ¬ p.done = true := by simp [h.unfinished]
  unfold EventRegisters.takeEvent PendingEvent.dispatch
  rw [if_neg hdone]
  by_cases hlines : r.dataLines = 0
  · have hdata : p.hasData = false := by simp [h.hasData, hlines]
    rw [if_pos hlines, if_pos (by simp [hdata])]
    exact ⟨Nat.le_succ _, Or.inl ⟨⟨h.data, h.hasData, h.unfinished⟩, rfl, by simp⟩⟩
  · have hdata : p.hasData = true := by simp [h.hasData, hlines]
    rw [if_neg hlines, if_neg (by simp [hdata])]
    by_cases hsentinel : p.data = utf8 "[DONE]"
    · rw [if_pos hsentinel]
      refine ⟨Nat.zero_le _, Or.inr ⟨rfl, _, rfl, ?_, ?_⟩⟩
      · simp [itemOf, ← h.data, hsentinel]
      · rw [classify_donePolicy, if_pos]
        exact h.data ▸ hsentinel
    · rw [if_neg hsentinel]
      refine ⟨Nat.zero_le _, Or.inl ⟨⟨rfl, rfl, h.unfinished⟩, ?_, ?_⟩⟩
      · simp [itemOf, ← h.data, hsentinel]
      · intro frame hframe
        obtain rfl := List.mem_singleton.mp hframe
        rw [classify_donePolicy, if_neg]
        exact h.data ▸ hsentinel

/-- A `data` field is appended, or rejected, by both decoders. -/
theorem pushData_agrees (h : Mirrors p r) (hlines : r.dataLines < limits.maxDataLines.toNat)
    (value : Bytes) :
    StepAgrees r ((r.pushData limits value).map fun r => (r, []))
      ((p.pushData limits.maxEventBytes value).map fun p => (p, [])) := by
  have hflag : (if p.hasData = true then 1 else 0) = if r.dataLines ≠ 0 then 1 else 0 := by
    rw [h.hasData]
    simp
  rw [EventRegisters.pushData, PendingEvent.pushData, if_neg (Nat.not_le.mpr hlines)]
  simp only [hflag, h.data]
  cases hlen : (checkedAdd r.eventData.length (if r.dataLines ≠ 0 then 1 else 0)).bind
      (fun len => checkedAdd len value.length) with
  | none => trivial
  | some nextLen =>
      simp only
      by_cases hlong : limits.maxEventBytes.toNat < nextLen
      · rw [if_pos hlong, if_pos hlong]
        trivial
      · rw [if_neg hlong, if_neg hlong]
        refine ⟨Nat.le_refl _, Or.inl ⟨⟨?_, ?_, h.unfinished⟩, rfl, by simp⟩⟩
        · simp only [h.hasData]
          by_cases hzero : r.dataLines = 0 <;> simp [hzero]
        · simp

/-- A field that the direct decoder ignores keeps the data registers. -/
theorem ignored_agrees (h : Mirrors p r) {r' : EventRegisters}
    (hdata : r'.eventData = r.eventData) (hlines : r'.dataLines = r.dataLines) :
    StepAgrees r (.ok (r', [])) (.ok (p, [])) := by
  refine ⟨hlines.symm ▸ Nat.le_succ _, Or.inl ⟨⟨?_, ?_, h.unfinished⟩, rfl, by simp⟩⟩
  · rw [hdata, h.data]
  · rw [hlines, h.hasData]

theorem setRetry_data (r : EventRegisters) (value : Bytes) :
    (r.setRetry value).eventData = r.eventData ∧ (r.setRetry value).dataLines = r.dataLines := by
  unfold EventRegisters.setRetry
  split
  · exact ⟨rfl, rfl⟩
  · split <;> exact ⟨rfl, rfl⟩

/-- Both decoders agree on every line that is not a comment outside UTF-8. -/
theorem lineStep_agrees (h : Mirrors p r) (hlines : r.dataLines < limits.maxDataLines.toNat)
    {line : Bytes}
    (hcomment : line.head? = some colon → fromUtf8 line = .ok line) :
    StepAgrees r (r.processLine limits line)
      (lineStep limits.maxLineBytes limits.maxEventBytes p line) := by
  have hdone : ¬ p.done = true := by simp [h.unfinished]
  rw [EventRegisters.processLine, lineStep, if_neg hdone]
  by_cases hlong : limits.maxLineBytes.toNat < line.length
  · rw [if_pos hlong, if_pos hlong]
    trivial
  rw [if_neg hlong, if_neg hlong]
  by_cases hempty : line.isEmpty = true
  · obtain rfl : line = [] := List.isEmpty_iff.mp hempty
    exact dispatch_agrees h
  by_cases hcolon : line.head? = some colon
  · rw [PendingEvent.processLine, if_neg hempty, if_pos hcolon, hcomment hcolon]
    simp only [if_neg hempty, if_pos hcolon]
    exact ignored_agrees h rfl rfl
  rcases htext : fromUtf8 line with e | text
  · rw [PendingEvent.processLine, if_neg hempty, if_neg hcolon, htext]
    trivial
  obtain rfl := eq_of_fromUtf8_ok htext
  have hagrees := pushData_agrees h hlines (EventRegisters.splitField text).2
  rw [processLine_field _ p (by simpa using hempty) hcolon htext]
  simp only [if_neg hempty, if_neg hcolon]
  by_cases hdata : (EventRegisters.splitField text).1 = utf8 "data"
  · have hevent : ¬ (EventRegisters.splitField text).1 = utf8 "event" := by
      rw [hdata]
      decide
    rw [if_neg hevent, if_pos hdata, if_pos hdata]
    revert hagrees
    rcases r.pushData limits (EventRegisters.splitField text).2 with e | r' <;> exact id
  · rw [if_neg hdata, if_neg hdata]
    split
    · exact ignored_agrees h rfl rfl
    · split
      · exact ignored_agrees h rfl rfl
      · split
        · obtain ⟨hsame, hcount⟩ := setRetry_data r (EventRegisters.splitField text).2
          exact ignored_agrees h hsame hcount
        · exact ignored_agrees h rfl rfl

/-- Whole inputs: the items are those of the frames looked at, and both runs fail or
neither does. -/
theorem runLines_agrees (input : List Bytes) (h : Mirrors p r)
    (hlines : r.dataLines + input.length ≤ limits.maxDataLines.toNat)
    (hcomments : ∀ line ∈ input, line.head? = some colon → fromUtf8 line = .ok line) :
    (runLines limits.maxLineBytes limits.maxEventBytes p input).1 =
        (donePolicy.seen (Sse.runLines limits r input).1).map itemOf ∧
      ((runLines limits.maxLineBytes limits.maxEventBytes p input).2 = none ↔
        (classifyRun donePolicy (Sse.runLines limits r input).2
          (Sse.runLines limits r input).1).error = none) := by
  induction input generalizing p r with
  | nil =>
      have hflush := (dispatch_agrees h).2
      rw [Sse.runLines_nil, runLines, runSteps_nil]
      obtain ⟨-, hitems, hall⟩ | ⟨-, frame, hframe, hitems, hclass⟩ := hflush
      · have hseen := Sse.seen_events hall []
        have hrun := Sse.SseStreamDecoder.classifyRun_events hall none []
        rw [List.append_nil] at hseen hrun
        rw [hseen, hrun]
        exact ⟨by simpa [SseEndpointPolicy.seen] using hitems, fun _ => rfl, fun _ => rfl⟩
      · simp only at hframe
        rw [hframe, SseEndpointPolicy.seen, if_neg (by simp [hclass]), classifyRun, hclass]
        exact ⟨hitems, by simp⟩
  | cons line rest ih =>
      rw [List.length_cons] at hlines
      have hbound : r.dataLines < limits.maxDataLines.toNat := by omega
      have hstep := lineStep_agrees h hbound (hcomments line (by simp))
      have hrest : ∀ later ∈ rest, later.head? = some colon → fromUtf8 later = .ok later :=
        fun later hlater => hcomments later (List.mem_cons_of_mem _ hlater)
      rcases hplatform : r.processLine limits line with e | ⟨r', frames⟩
      · rcases hdirect : lineStep limits.maxLineBytes limits.maxEventBytes p line with
          e' | ⟨p', items⟩
        · rw [Sse.runLines_cons_error hplatform, runLines, runSteps_cons_error hdirect]
          exact ⟨rfl, by simp [classifyRun]⟩
        · rw [hplatform, hdirect] at hstep
          exact hstep.elim
      · rcases hdirect : lineStep limits.maxLineBytes limits.maxEventBytes p line with
          e' | ⟨p', items⟩
        · rw [hplatform, hdirect] at hstep
          exact hstep.elim
        · rw [hplatform, hdirect] at hstep
          rw [Sse.runLines_cons_ok hplatform, runLines, runSteps_cons_ok hdirect, ← runLines]
          obtain ⟨hcount, ⟨hmirrors, rfl, hall⟩ | ⟨hdone, frame, rfl, rfl, hclass⟩⟩ := hstep
          · obtain ⟨hitems, herror⟩ := ih hmirrors (by omega) hrest
            simp only [Outcome.after, hitems, herror, Sse.seen_events hall,
              Sse.SseStreamDecoder.classifyRun_events hall, List.map_append]
            exact ⟨trivial, Iff.rfl⟩
          · rw [runLines_of_done hdone]
            simp only [Outcome.after, List.append_nil, List.singleton_append]
            rw [SseEndpointPolicy.seen, if_neg (by simp [hclass]), classifyRun, hclass]
            exact ⟨rfl, by simp⟩

end Lines

/-- The two decoders of the workspace agree. They fail on the same inputs, give the same
payloads, and see the sentinel on the same inputs, provided that comments are UTF-8 and
the limit on `data` fields cannot be reached. -/
theorem decoders_agree (limits : SseLimits) (chunks : List Bytes)
    (hcomments : ∀ line ∈ lines cr lf [] (stripBom chunks.flatten),
      line.head? = some colon → fromUtf8 line = .ok line)
    (hunreachable : (lines cr lf [] (stripBom chunks.flatten)).length ≤
      limits.maxDataLines.toNat) :
    ((∃ e, (SseDecoder.new limits.maxLineBytes limits.maxEventBytes).decode chunks = .error e) ↔
      ∃ e, ((SseStreamDecoder.new limits donePolicy).runChunks chunks).error = some e) ∧
    ∀ items, (SseDecoder.new limits.maxLineBytes limits.maxEventBytes).decode chunks = .ok items →
      items.filterMap SseItem.payload? =
        ((SseStreamDecoder.new limits donePolicy).runChunks chunks).dispatches.map
          (fun dispatch => dispatch.frame.data) ∧
      (SseItem.done ∈ items ↔
        ∃ frame ∈ ((SseStreamDecoder.new limits donePolicy).trace
            (SseStreamDecoder.runCalls chunks)).frames,
          donePolicy.classify frame = .consumedTerminal) := by
  have hrunning := SseStreamDecoder.running_new limits donePolicy
  have hmirrors : Mirrors ⟨[], false, false⟩ EventRegisters.empty := ⟨rfl, rfl, rfl⟩
  obtain ⟨hitems, herror⟩ := runLines_agrees _ hmirrors
    (by rw [show EventRegisters.empty.dataLines = 0 from rfl, Nat.zero_add]; exact hunreachable)
    hcomments
  have hremaining := Sse.SseDecoder.remaining_new limits chunks.flatten
  have houtcome : (SseStreamDecoder.new limits donePolicy).runChunks chunks =
      classifyRun donePolicy
        (Sse.runLines limits EventRegisters.empty (lines cr lf [] (stripBom chunks.flatten))).2
        (Sse.runLines limits EventRegisters.empty (lines cr lf [] (stripBom chunks.flatten))).1 := by
    rw [SseStreamDecoder.runChunks_eq chunks hrunning, SseStreamDecoder.outcome, ← hremaining]
    rfl
  have hframes : ((SseStreamDecoder.new limits donePolicy).trace
      (SseStreamDecoder.runCalls chunks)).frames = donePolicy.seen
        (Sse.runLines limits EventRegisters.empty (lines cr lf [] (stripBom chunks.flatten))).1 := by
    rw [SseStreamDecoder.trace_runCalls chunks hrunning, SseStreamDecoder.decoded, ← hremaining]
    rfl
  rw [SseDecoder.decode_eq chunks (SseDecoder.sound_new _ _), SseDecoder.remaining_new, houtcome,
    hframes]
  rcases hdirect : runLines limits.maxLineBytes limits.maxEventBytes ⟨[], false, false⟩
      (lines cr lf [] (stripBom chunks.flatten)) with ⟨direct, _ | e⟩
  · rw [hdirect] at hitems herror
    rw [herror.mp rfl]
    refine ⟨⟨?_, ?_⟩, ?_⟩
    · rintro ⟨e, he⟩
      cases he
    · rintro ⟨e, he⟩
      cases he
    intro items hok
    obtain rfl : direct = items := Except.ok.inj hok
    obtain rfl : direct = _ := hitems
    refine ⟨payloads_eq _ _, ?_⟩
    rw [List.mem_map]
    exact exists_congr fun frame => and_congr_right fun _ => itemOf_eq_done frame
  · rw [hdirect] at herror
    obtain ⟨platformError, hplatform⟩ :=
      Option.ne_none_iff_exists'.mp (fun hnone => Option.some_ne_none e (herror.mpr hnone))
    refine ⟨⟨fun _ => ⟨platformError, hplatform⟩, fun _ => ⟨e, rfl⟩⟩, ?_⟩
    intro items hok
    cases hok

/-- A stream with a comment and a sentinel that is cut inside a line. -/
theorem decoders_agree_sentinel :
    (SseDecoder.new 64 64).decode [utf8 ": hi\ndata: a\n", utf8 "\ndata: [DO", utf8 "NE]\r\r"] =
        .ok [.data (utf8 "a"), .done] ∧
      ((SseStreamDecoder.new ⟨64, 64, 64, by decide, by decide, by decide⟩ donePolicy).runChunks
        [utf8 ": hi\ndata: a\n", utf8 "\ndata: [DO", utf8 "NE]\r\r"]).dispatches.map
          (fun dispatch => dispatch.frame.data) = [utf8 "a"] := by
  have hdirect : (SseDecoder.new 64 64).decode
      [utf8 ": hi\ndata: a\n", utf8 "\ndata: [DO", utf8 "NE]\r\r"] =
        .ok [.data (utf8 "a"), .done] := by decide
  exact ⟨hdirect, ((decoders_agree ⟨64, 64, 64, by decide, by decide, by decide⟩ _
    (by decide) (by decide)).2 _ hdirect).1.symm⟩

end OpenaiRs.Direct
