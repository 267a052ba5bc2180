import OpenaiRs.Sse.Terminal

/-!
# The flush at end of input

`finish_inner` pushes frames to a vector that an error drops. The functions here keep this vector, so that
it can be said which frames an error at end of input loses: none, since what the calls before leave in the
buffer is one line at most.
-/

namespace OpenaiRs.Sse

open Rust Text

namespace SseDecoder

section Definitions

/-- The loop of `drain_complete_lines` with the frames that it has pushed, also where it fails. -/
def drainLoopLog (eof : Bool) : Nat → SseDecoder → SseDecoder × LineOutcome
  | 0, d => (d, [], none)
  | fuel + 1, d =>
      match d.nextLine eof with
      | (d, none) => (d, [], none)
      | (d, some (lineEnd, terminatorLen)) =>
          let line := d.lineBuffer.take lineEnd
          let d := { d with
            lineBuffer := d.lineBuffer.drop (lineEnd + terminatorLen)
            searchFrom := 0 }
          match d.toEventRegisters.processLine d.limits line with
          | .error e => (d, [], some e)
          | .ok (r, frames) =>
              let rest := drainLoopLog eof fuel { d with toEventRegisters := r }
              (rest.1, Outcome.after frames rest.2)

def drainCompleteLinesLog (d : SseDecoder) (eof : Bool) : SseDecoder × LineOutcome :=
  match d.ensureBomChecked eof with
  | (d, false) => (d, [], none)
  | (d, true) => drainLoopLog eof (d.lineBuffer.length + 1) d

/-- The vector of `finish_inner` when it returns, and the error that it returns. -/
def finishInnerLog (d : SseDecoder) : LineOutcome :=
  match d.drainCompleteLinesLog true with
  | (_, frames, some e) => (frames, some e)
  | (d, frames, none) =>
      if d.lineBuffer.isEmpty then (frames ++ d.toEventRegisters.takeEvent.2.toList, none)
      else
        match d.toEventRegisters.processLine d.limits d.lineBuffer with
        | .error e => (frames, some e)
        | .ok (r, last) => (frames ++ last ++ r.takeEvent.2.toList, none)

end Definitions

section Result

/-- The drained vector is what the source returns where nothing fails. -/
theorem drainLoop_log (eof : Bool) (fuel : Nat) (d : SseDecoder) :
    drainLoop eof fuel d = ((drainLoopLog eof fuel d).1, (drainLoopLog eof fuel d).2.result) := by
  induction fuel generalizing d with
  | zero => rfl
  | succ fuel ih =>
      rw [drainLoop, drainLoopLog]
      rcases d.nextLine eof with ⟨d, _ | ⟨lineEnd, terminatorLen⟩⟩
      · rfl
      · simp only
        rcases d.toEventRegisters.processLine d.limits (d.lineBuffer.take lineEnd) with e | ⟨r, frames⟩
        · rfl
        · simp only [ih, Outcome.result_after]
          rcases (drainLoopLog eof fuel _).2.result with e | more <;> rfl

theorem drainCompleteLines_log (d : SseDecoder) (eof : Bool) :
    d.drainCompleteLines eof =
      ((d.drainCompleteLinesLog eof).1, (d.drainCompleteLinesLog eof).2.result) := by
  rw [drainCompleteLines, drainCompleteLinesLog]
  rcases d.ensureBomChecked eof with ⟨decided, _ | _⟩
  · rfl
  · exact drainLoop_log eof _ decided

theorem finishInner_log (d : SseDecoder) : d.finishInner.2 = d.finishInnerLog.result := by
  rw [finishInner, finishInnerLog, drainCompleteLines_log]
  rcases d.drainCompleteLinesLog true with ⟨after, frames, _ | e⟩
  · by_cases hempty : after.lineBuffer.isEmpty = true
    · simp [Outcome.result, hempty]
    · rcases hprocess : after.toEventRegisters.processLine after.limits after.lineBuffer with
        e | ⟨r, last⟩ <;> simp [Outcome.result, hempty, hprocess]
  · rfl

end Result

section Vector

variable {eof : Bool}

/-- An error of the loop leaves the frames of the lines before it. -/
theorem drainLoopLog_error (fuel : Nat) {d : SseDecoder} (h : d.Scannable) {frames : List SseFrame}
    {e : SseDecodeError} (more : Bytes) (hmore : eof = true → more = [])
    (hlog : (drainLoopLog eof fuel d).2 = (frames, some e)) : d.runBuffer more = (frames, some e) := by
  induction fuel generalizing d frames with
  | zero => cases hlog
  | succ fuel ih =>
      cases hsplit : splitLine cr lf eof d.lineBuffer with
      | none =>
          obtain ⟨position, hnext, -⟩ := nextLine_of_none h hsplit
          simp only [drainLoopLog, hnext] at hlog
          cases hlog
      | some p =>
          obtain ⟨line, rest⟩ := p
          obtain ⟨lineEnd, terminatorLen, hnext, hline, hrest⟩ := nextLine_of_some h hsplit
          have hlines := lines_of_split hsplit hmore
          simp only [drainLoopLog, hnext, hline, hrest] at hlog
          rw [runBuffer, hlines]
          rcases hprocess : d.toEventRegisters.processLine d.limits line with e' | ⟨r, first⟩
          · simp only [hprocess] at hlog
            rw [runLines_cons_error hprocess]
            exact hlog
          · simp only [hprocess] at hlog
            rw [runLines_cons_ok hprocess]
            rcases hlater : (drainLoopLog eof fuel { d.consumeLine rest with toEventRegisters := r }).2 with
              ⟨later, error⟩
            have hsame : Outcome.after first (later, error) = (frames, some e) := by
              rw [← hlater]
              exact hlog
            obtain ⟨rfl, rfl⟩ := Prod.mk.inj hsame
            have hrun := ih (d := { d.consumeLine rest with toEventRegisters := r })
              (scannable_consumeLine d rest) hlater
            rw [runBuffer] at hrun
            exact congrArg (Outcome.after first) hrun

theorem drainCompleteLinesLog_error {d : SseDecoder} (h : d.Scannable)
    (hstart : d.bomChecked = false → d.searchFrom = 0) {frames : List SseFrame} {e : SseDecodeError}
    (more : Bytes) (hmore : eof = true → more = [])
    (hlog : (d.drainCompleteLinesLog eof).2 = (frames, some e)) : d.remaining more = (frames, some e) := by
  have hbom := ensureBomChecked_spec d eof h hstart
  rw [drainCompleteLinesLog] at hlog
  rcases hcheck : d.ensureBomChecked eof with ⟨decided, _ | _⟩
  · rw [hcheck] at hlog
    cases hlog
  · rw [hcheck] at hbom hlog
    obtain ⟨hdecided, -, -, hscan, hrun⟩ := hbom
    rw [hrun more hmore, remaining_of_bomChecked hdecided]
    exact drainLoopLog_error _ hscan more hmore hlog

/-- The vector has the frames of the remaining lines up to the error. -/
theorem finishInnerLog_eq {d : SseDecoder} (h : d.Ready) : d.finishInnerLog = d.remaining [] := by
  have hdrain := drainCompleteLines_spec d true h.settled.scannable h.cursor
  rw [drainCompleteLines_log] at hdrain
  rw [finishInnerLog]
  rcases hlog : d.drainCompleteLinesLog true with ⟨after, frames, _ | e⟩
  · rw [hlog] at hdrain
    obtain ⟨-, -, hsettled, hrun⟩ := hdrain
    rw [hrun [] (fun _ => rfl), remaining_of_settled_eof hsettled]
    by_cases hempty : after.lineBuffer = []
    · simp [hempty, runLines_nil, Outcome.after]
    · simp only [hempty, if_false, List.isEmpty_iff]
      rcases hline : after.toEventRegisters.processLine after.limits after.lineBuffer with
        e | ⟨r, last⟩
      · rw [runLines_cons_error hline]
        simp [Outcome.after]
      · rw [runLines_cons_ok hline]
        simp [runLines_nil, Outcome.after]
  · have herror := drainCompleteLinesLog_error h.settled.scannable h.cursor [] (fun _ => rfl)
      (congrArg Prod.snd hlog)
    exact herror.symm

end Vector

end SseDecoder

section Errors

/-- Invalid UTF-8 or a limit. -/
def SseDecodeError.OfDecoder : SseDecodeError → Prop
  | .lineTooLarge _ | .eventTooLarge _ | .tooManyDataLines _ | .invalidUtf8 _ _ => True
  | _ => False

theorem pushData_error {limits : SseLimits} {r : EventRegisters} {value : Bytes} {e : SseDecodeError}
    (h : r.pushData limits value = .error e) : e.OfDecoder := by
  rw [EventRegisters.pushData] at h
  split at h
  · cases h
    trivial
  · simp only at h
    split at h
    · cases h
      trivial
    · split at h
      · cases h
        trivial
      · cases h

theorem processLine_error {limits : SseLimits} {r : EventRegisters} {line : Bytes} {e : SseDecodeError}
    (h : r.processLine limits line = .error e) : e.OfDecoder := by
  rw [EventRegisters.processLine] at h
  split at h
  · cases h
    trivial
  · split at h
    · cases h
      trivial
    · simp only at h
      split at h
      · cases h
      · split at h
        · cases h
        · split at h
          · cases h
          · split at h
            · split at h
              · rename_i e' hpush
                cases h
                exact pushData_error hpush
              · cases h
            · split at h
              · cases h
              · split at h <;> cases h

/-- A run over lines fails at a line. -/
theorem runLines_error {limits : SseLimits} {r : EventRegisters} {input : List Bytes} {e : SseDecodeError}
    (h : (runLines limits r input).2 = some e) : e.OfDecoder := by
  induction input generalizing r with
  | nil => cases h
  | cons line rest ih =>
      rcases hline : r.processLine limits line with e' | ⟨r', frames⟩
      · rw [runLines_cons_error hline] at h
        cases h
        exact processLine_error hline
      · rw [runLines_cons_ok hline] at h
        exact ih h

end Errors

namespace SseStreamDecoder

section Flush

/-- The decoder behind some calls. -/
def afterCalls (s : SseStreamDecoder) (calls : List StreamCall) : SseStreamDecoder :=
  calls.foldl (fun s c => (s.call c).1) s

variable {s : SseStreamDecoder} {e : SseDecodeError} {dispatches : List SseDispatch}

theorem afterCalls_closed (h : s.state ≠ .active) (calls : List StreamCall) : s.afterCalls calls = s := by
  induction calls with
  | nil => rfl
  | cons c rest ih =>
      change (s.call c).1.afterCalls rest = s
      rw [(call_closed h c).1]
      exact ih

theorem afterCalls_running (calls : List StreamCall) (h : s.Running)
    (hactive : (s.afterCalls calls).state = .active) : (s.afterCalls calls).Running := by
  induction calls generalizing s with
  | nil => exact h
  | cons c rest ih =>
      by_cases hcall : (s.call c).1.state = .active
      · exact ih ((call_records h c).running hcall).1 hactive
      · change ((s.call c).1.afterCalls rest).state = .active at hactive
        rw [afterCalls_closed hcall] at hactive
        exact absurd hactive hcall

/-- An error at end of input is that of the inner decoder, which then has pushed no frame, or the missing
terminal, which comes with the frames of the inner decoder as plain events. -/
theorem finishWithFlushed_error (h : s.Running) (herror : s.finishWithFlushed.2 = .error (e, dispatches)) :
    (s.decoder.finishInnerLog = ([], some e) ∧ e.OfDecoder ∧ dispatches = []) ∨
      (e = .unexpectedEof s.policy.expectedTerminal ∧ ∃ frames, s.decoder.finishInnerLog = (frames, none) ∧
        frames.length ≤ 1 ∧ dispatches = frames.map .event) := by
  have hfinish := SseDecoder.finish_spec h.ready
  obtain ⟨hlength, hlost⟩ := SseDecoder.remaining_eof h.ready
  have hlog := SseDecoder.finishInnerLog_eq h.ready
  rw [hlog]
  rw [finishWithFlushed, finishLog, if_pos h.active] at herror
  rcases hremaining : s.decoder.remaining [] with ⟨frames, _ | e'⟩
  · rw [hremaining] at hfinish hlength
    rcases hresult : s.decoder.finish with ⟨decoder, outcome⟩
    rw [hresult] at hfinish herror
    obtain rfl : outcome = .ok frames := hfinish
    right
    simp only at herror
    rcases classifyFrames_cases { s with decoder := decoder } frames with ⟨heq, -⟩ | ⟨hclosed, -⟩
    · rw [heq] at herror
      simp only [h.active, ne_eq, not_true_eq_false, if_false] at herror
      split at herror
      · cases herror
      · cases herror
        exact ⟨rfl, frames, rfl, hlength, rfl⟩
    · rw [if_pos hclosed] at herror
      cases herror
  · rw [hremaining] at hfinish hlost
    rcases hresult : s.decoder.finish with ⟨decoder, outcome⟩
    rw [hresult] at hfinish herror
    obtain rfl : outcome = .error e' := hfinish
    cases herror
    left
    obtain rfl : frames = [] := hlost e rfl
    refine ⟨rfl, ?_, rfl⟩
    exact runLines_error (congrArg Prod.snd hremaining)

/-- The flush at end of input loses no frame. Behind any calls that leave the decoder active: the frames that are kept
here are those of `finish_inner`; with an error of the inner decoder no frame was completed in this call, and with a
missing terminal the dispatches are those of the one frame that the last block may have given. -/
theorem flush_loses_no_frame (limits : SseLimits) (policy : SseEndpointPolicy) (calls : List StreamCall)
    (hactive : ((new limits policy).afterCalls calls).state = .active) :
    ((new limits policy).afterCalls calls).decoder.finishInner.2 =
      ((new limits policy).afterCalls calls).decoder.finishInnerLog.result ∧
    (∀ e dispatches, ((new limits policy).afterCalls calls).finishWithFlushed.2 = .error (e, dispatches) →
      e.OfDecoder →
        ((new limits policy).afterCalls calls).decoder.finishInnerLog = ([], some e) ∧ dispatches = []) ∧
    (∀ expected dispatches, ((new limits policy).afterCalls calls).finishWithFlushed.2 =
        .error (.unexpectedEof expected, dispatches) →
      ∃ frames, ((new limits policy).afterCalls calls).decoder.finishInnerLog = (frames, none) ∧
        frames.length ≤ 1 ∧ dispatches = frames.map .event) := by
  have hrunning := afterCalls_running calls (running_new limits policy) hactive
  refine ⟨SseDecoder.finishInner_log _, ?_, ?_⟩
  · intro e dispatches herror hdecoder
    obtain ⟨hlog, -, hnone⟩ | ⟨rfl, -⟩ := finishWithFlushed_error hrunning herror
    · exact ⟨hlog, hnone⟩
    · exact hdecoder.elim
  · intro expected dispatches herror
    obtain ⟨-, hdecoder, -⟩ | ⟨-, hframes⟩ := finishWithFlushed_error hrunning herror
    · exact hdecoder.elim
    · exact hframes

/-- A last block without its blank line, on a stream that misses its sentinel. -/
theorem flush_loses_no_frame_legacyDone :
    ∃ frames, ((new .default .legacyDone).afterCalls [.push (utf8 "data: ab")]).decoder.finishInnerLog =
        (frames, none) ∧ frames.length ≤ 1 ∧
      [SseDispatch.event ⟨none, utf8 "ab", none, none⟩] = frames.map .event :=
  (flush_loses_no_frame .default .legacyDone [.push (utf8 "data: ab")] (by decide)).2.2
    SseEndpointPolicy.legacyDone.expectedTerminal _ (by decide)

end Flush

end SseStreamDecoder

end OpenaiRs.Sse
