import OpenaiRs.Sse.Segment

/-!
# Runs of the stream decoder

`outcome s more` extends the remaining outcome of the parser by the policy of the
endpoint: frames are classified in order, the first closing frame ends the run,
and otherwise the error of the parser or the EOF rule does. Calls keep the
outcome, so a run depends on the bytes of the stream and not on the chunks in
which they arrive. Bytes behind a closing frame are never looked at.
-/

namespace OpenaiRs.Sse

open Rust Text

/-- The outcome of frames and a final error of the parser under a policy. -/
def classifyRun (policy : SseEndpointPolicy) (error : Option SseDecodeError) :
    List SseFrame → StreamOutcome
  | [] =>
      match error, policy.eof with
      | some e, _ => ⟨[], some e, .failed⟩
      | none, .complete => ⟨[], none, .completed⟩
      | none, .requireTerminal => ⟨[], some (.unexpectedEof policy.expectedTerminal), .failed⟩
  | frame :: rest =>
      match policy.classify frame with
      | .event => StreamOutcome.after [.event frame] (classifyRun policy error rest)
      | .emittedTerminal => ⟨[.terminal frame], none, .completed⟩
      | .consumedTerminal => ⟨[], none, .completed⟩
      | .remoteError => ⟨[.remoteError frame], none, .remoteError⟩

/-- The frames that are looked at: all up to the first one that closes the stream. -/
def SseEndpointPolicy.seen (policy : SseEndpointPolicy) : List SseFrame → List SseFrame
  | [] => []
  | frame :: rest =>
      if policy.classify frame = .event then frame :: policy.seen rest else [frame]

theorem seen_events {policy : SseEndpointPolicy} {frames : List SseFrame}
    (h : ∀ frame ∈ frames, policy.classify frame = .event) (rest : List SseFrame) :
    policy.seen (frames ++ rest) = frames ++ policy.seen rest := by
  induction frames with
  | nil => rfl
  | cons frame frames ih =>
      have hframe := h frame (by simp)
      have hrest := ih (fun f hf => h f (List.mem_cons_of_mem _ hf))
      rw [List.cons_append, SseEndpointPolicy.seen, if_pos hframe, hrest, List.cons_append]

theorem seen_single {policy : SseEndpointPolicy} {frames : List SseFrame}
    (h : frames.length ≤ 1) : policy.seen frames = frames := by
  obtain _ | ⟨frame, _ | ⟨second, rest⟩⟩ := frames
  · rfl
  · simp [SseEndpointPolicy.seen]
  · simp at h

/-- Nothing is looked at behind a single closing frame. -/
theorem seen_closed {policy : SseEndpointPolicy} {frames : List SseFrame}
    (hlength : frames.length ≤ 1) (h : ∃ frame ∈ frames, policy.classify frame ≠ .event)
    (rest : List SseFrame) : policy.seen (frames ++ rest) = frames := by
  obtain ⟨frame, hmem, hframe⟩ := h
  obtain rfl : frames = [frame] := by
    obtain _ | ⟨only, _ | ⟨second, others⟩⟩ := frames
    · cases hmem
    · rw [List.mem_singleton.mp hmem]
    · simp at hlength
  rw [List.singleton_append, SseEndpointPolicy.seen, if_neg hframe]

theorem StreamOutcome.after_after (first second : List SseDispatch) (rest : StreamOutcome) :
    StreamOutcome.after first (StreamOutcome.after second rest) =
      StreamOutcome.after (first ++ second) rest := by
  simp [StreamOutcome.after]

theorem StreamOutcome.ofResult_result (s : SseStreamDecoder) (log : PushLog) :
    StreamOutcome.ofResult (s, log.result) = ⟨log.dispatches, log.error, s.state⟩ := by
  obtain ⟨frames, dispatches, e⟩ := log
  cases e <;> rfl

namespace SseStreamDecoder

/-- The outcome of a stream decoder on the rest of its stream. -/
def outcome (s : SseStreamDecoder) (more : Bytes) : StreamOutcome :=
  classifyRun s.policy (s.decoder.remaining more).2 (s.decoder.remaining more).1

/-- The frames that a stream decoder will look at on the rest of its stream. -/
def decoded (s : SseStreamDecoder) (more : Bytes) : List SseFrame :=
  s.policy.seen (s.decoder.remaining more).1

/-- The invariant of an active stream decoder between calls. -/
structure Running (s : SseStreamDecoder) : Prop where
  active : s.state = .active
  ready : s.decoder.Ready

theorem running_new (limits : SseLimits) (policy : SseEndpointPolicy) :
    (new limits policy).Running :=
  ⟨rfl, SseDecoder.ready_new limits⟩

section Classify

/-- A closing frame cannot leave the stream active. -/
theorem classifyFrames_cases (s : SseStreamDecoder) (frames : List SseFrame) :
    (s.classifyFrames frames = (s, frames.map .event) ∧
        ∀ frame ∈ frames, s.policy.classify frame = .event) ∨
      ((s.classifyFrames frames).1.state ≠ .active ∧
        (s.classifyFrames frames).1.state ≠ .failed ∧
        (∃ frame ∈ frames, s.policy.classify frame ≠ .event) ∧
        ∀ error rest, classifyRun s.policy error (frames ++ rest) =
          ⟨(s.classifyFrames frames).2, none, (s.classifyFrames frames).1.state⟩) := by
  induction frames with
  | nil => exact Or.inl ⟨rfl, by simp⟩
  | cons frame frames ih =>
      cases hclass : s.policy.classify frame with
      | event =>
          obtain ⟨heq, hall⟩ | ⟨hstate, hfailed, ⟨closing, hmem, hclosing⟩, hrun⟩ := ih
          · refine Or.inl ⟨by simp [classifyFrames, hclass, heq], ?_⟩
            intro f hf
            obtain rfl | hf := List.mem_cons.mp hf
            · exact hclass
            · exact hall f hf
          · refine Or.inr ⟨by simpa [classifyFrames, hclass] using hstate,
              by simpa [classifyFrames, hclass] using hfailed,
              ⟨closing, List.mem_cons_of_mem _ hmem, hclosing⟩, ?_⟩
            intro error rest
            simp [classifyFrames, classifyRun, hclass, hrun, StreamOutcome.after]
      | _ =>
          refine Or.inr ⟨?_, ?_, ⟨frame, by simp, by simp [hclass]⟩, fun error rest => ?_⟩
          · simp [classifyFrames, hclass, closeAs]
          · simp [classifyFrames, hclass, closeAs]
          · simp [classifyFrames, classifyRun, hclass, closeAs]

/-- Plain events only prepend their dispatches. -/
theorem classifyRun_events {policy : SseEndpointPolicy} {frames : List SseFrame}
    (h : ∀ frame ∈ frames, policy.classify frame = .event) (error : Option SseDecodeError)
    (rest : List SseFrame) :
    classifyRun policy error (frames ++ rest) =
      StreamOutcome.after (frames.map .event) (classifyRun policy error rest) := by
  induction frames with
  | nil => rfl
  | cons frame frames ih =>
      have hframe := h frame (by simp)
      have hrest := ih (fun f hf => h f (List.mem_cons_of_mem _ hf))
      rw [List.cons_append, classifyRun, hframe]
      simp only [hrest, StreamOutcome.after_after]
      rfl

end Classify

section Push

/-- What a call on `input` may do: it either leaves a running decoder with the rest
of the outcome, or it ends the run with the outcome of every continuation. -/
def Delivers (s : SseStreamDecoder) (input : Bytes) (after : SseStreamDecoder)
    (log : PushLog) : Prop :=
  (log.error = none ∧ after.Running ∧
      ∀ more, s.outcome (input ++ more) = StreamOutcome.after log.dispatches (after.outcome more) ∧
        s.decoded (input ++ more) = log.frames ++ after.decoded more) ∨
    (after.state ≠ .active ∧ (log.error = none ↔ after.state ≠ .failed) ∧
      ∀ more, s.outcome (input ++ more) = ⟨log.dispatches, log.error, after.state⟩ ∧
        s.decoded (input ++ more) = log.frames)

/-- One round of the loop over a chunk. -/
theorem pushLoop_cons (fuel : Nat) (s : SseStreamDecoder) (b : UInt8) (rest : Bytes) :
    pushLoop (fuel + 1) s (b :: rest) =
      match s.decoder.push ((b :: rest).take (nextCut s.decoder.lineBuffer (b :: rest))) with
      | (decoder, .error e) => ({ s with decoder := decoder, state := .failed }, ⟨[], [], some e⟩)
      | (decoder, .ok frames) =>
          if ({ s with decoder := decoder }.classifyFrames frames).1.state ≠ .active then
            (({ s with decoder := decoder }.classifyFrames frames).1,
              ⟨frames, ({ s with decoder := decoder }.classifyFrames frames).2, none⟩)
          else
            let later := pushLoop fuel ({ s with decoder := decoder }.classifyFrames frames).1
              ((b :: rest).drop (nextCut s.decoder.lineBuffer (b :: rest)))
            (later.1, ⟨frames ++ later.2.frames,
              ({ s with decoder := decoder }.classifyFrames frames).2 ++ later.2.dispatches,
              later.2.error⟩) := by
  rcases hpush : s.decoder.push ((b :: rest).take (nextCut s.decoder.lineBuffer (b :: rest))) with
    ⟨decoder, e | frames⟩ <;>
    simp only [pushLoop, hpush]

/-- A round that yields ordinary events only, in front of later rounds. -/
theorem Delivers.prepend {s after : SseStreamDecoder} {decoder : SseDecoder}
    {frames : List SseFrame} {input rest : Bytes} {log : PushLog}
    (hremaining : ∀ more, s.decoder.remaining (input ++ more) =
      Outcome.after frames (decoder.remaining (rest ++ more)))
    (hall : ∀ frame ∈ frames, s.policy.classify frame = .event)
    (hlater : Delivers { s with decoder := decoder } rest after log) :
    s.Delivers input after
      ⟨frames ++ log.frames, frames.map .event ++ log.dispatches, log.error⟩ := by
  have hstep : ∀ more, s.outcome (input ++ more) = StreamOutcome.after (frames.map .event)
      (outcome { s with decoder := decoder } (rest ++ more)) := by
    intro more
    rw [outcome, hremaining]
    exact classifyRun_events hall _ _
  have hseen : ∀ more, s.decoded (input ++ more) =
      frames ++ decoded { s with decoder := decoder } (rest ++ more) := by
    intro more
    rw [decoded, hremaining]
    exact seen_events hall _
  obtain ⟨herr, hrunning, hmore⟩ | ⟨hend, herr, hmore⟩ := hlater
  · refine Or.inl ⟨herr, hrunning, fun more => ⟨?_, ?_⟩⟩
    · rw [hstep, (hmore more).1, StreamOutcome.after_after]
    · rw [hseen, (hmore more).2, List.append_assoc]
  · refine Or.inr ⟨hend, herr, fun more => ⟨?_, ?_⟩⟩
    · rw [hstep, (hmore more).1]
      rfl
    · rw [hseen, (hmore more).2]

/-- The loop over a chunk delivers the chunk. -/
theorem pushLoop_delivers (fuel : Nat) (s : SseStreamDecoder) (chunk : Bytes)
    (hfuel : chunk.length ≤ fuel) (h : s.Running) :
    s.Delivers chunk (pushLoop fuel s chunk).1 (pushLoop fuel s chunk).2 := by
  induction fuel generalizing s chunk with
  | zero =>
      obtain rfl : chunk = [] := List.length_eq_zero_iff.mp (Nat.le_zero.mp hfuel)
      exact Or.inl ⟨rfl, h, fun _ => ⟨rfl, rfl⟩⟩
  | succ fuel ih =>
      cases chunk with
      | nil => exact Or.inl ⟨rfl, h, fun _ => ⟨rfl, rfl⟩⟩
      | cons b rest =>
          have hsegment := SseDecoder.push_segment h.ready b rest
          have hanswers := SseDecoder.push_answers h.ready
            ((b :: rest).take (nextCut s.decoder.lineBuffer (b :: rest)))
          have hcut := nextCut_pos s.decoder.lineBuffer b rest
          have hsplit : ∀ more, (b :: rest) ++ more =
              (b :: rest).take (nextCut s.decoder.lineBuffer (b :: rest)) ++
                ((b :: rest).drop (nextCut s.decoder.lineBuffer (b :: rest)) ++ more) := by
            intro more
            rw [← List.append_assoc, List.take_append_drop]
          rw [pushLoop_cons]
          rcases hpush : s.decoder.push
              ((b :: rest).take (nextCut s.decoder.lineBuffer (b :: rest))) with
            ⟨decoder, e | frames⟩
          · rw [hpush] at hsegment
            refine Or.inr ⟨by simp, by simp, fun more => ?_⟩
            rw [outcome, decoded, hsplit, hsegment]
            exact ⟨rfl, rfl⟩
          · rw [hpush] at hsegment hanswers
            obtain ⟨hready, hrun⟩ := hanswers
            have hremaining : ∀ more, s.decoder.remaining ((b :: rest) ++ more) =
                Outcome.after frames (decoder.remaining
                  ((b :: rest).drop (nextCut s.decoder.lineBuffer (b :: rest)) ++ more)) := by
              intro more
              rw [hsplit, hrun]
            rcases classifyFrames_cases { s with decoder := decoder } frames with
              ⟨heq, hall⟩ | ⟨hstate, hfailed, hclosing, hclosed⟩
            · have hactive : ¬ ({ s with decoder := decoder } : SseStreamDecoder).state ≠ .active := by
                simp [h.active]
              simp only [heq, if_neg hactive]
              have hlater := ih { s with decoder := decoder }
                ((b :: rest).drop (nextCut s.decoder.lineBuffer (b :: rest)))
                (by rw [List.length_drop]; rw [List.length_cons] at hfuel ⊢; omega)
                ⟨h.active, hready⟩
              exact Delivers.prepend hremaining hall hlater
            · simp only [if_pos hstate]
              refine Or.inr ⟨hstate, by simpa using hfailed, fun more => ⟨?_, ?_⟩⟩
              · rw [outcome, hremaining]
                exact hclosed _ _
              · rw [decoded, hremaining]
                exact seen_closed hsegment hclosing _

theorem pushLog_delivers {s : SseStreamDecoder} (h : s.Running) (chunk : Bytes) :
    s.Delivers chunk (s.pushLog chunk).1 (s.pushLog chunk).2 := by
  rw [pushLog, if_pos h.active]
  exact pushLoop_delivers chunk.length s chunk (Nat.le_refl _) h

end Push

section Run

/-- Finishing a running decoder ends the run with its outcome. -/
theorem finish_outcome {s : SseStreamDecoder} (h : s.Running) :
    StreamOutcome.ofResult s.finishWithFlushed = s.outcome [] := by
  have hspec := SseDecoder.finish_spec h.ready
  obtain ⟨-, hlost⟩ := SseDecoder.remaining_eof h.ready
  rw [finishWithFlushed, StreamOutcome.ofResult_result, finishLog, if_pos h.active, outcome]
  rcases hfinish : s.decoder.finish with ⟨decoder, e | frames⟩
  · rw [hfinish] at hspec
    rcases hremaining : s.decoder.remaining [] with ⟨frames, _ | e'⟩
    · rw [hremaining] at hspec
      cases hspec
    · rw [hremaining] at hspec hlost
      cases hspec
      obtain rfl : frames = [] := hlost e rfl
      rfl
  · rw [hfinish] at hspec
    rcases hremaining : s.decoder.remaining [] with ⟨frames', _ | e⟩
    · rw [hremaining] at hspec
      obtain rfl : frames = frames' := Except.ok.inj hspec
      rcases classifyFrames_cases { s with decoder := decoder } frames with
        ⟨heq, hall⟩ | ⟨hstate, -, -, hclosed⟩
      · have hactive : ¬ ({ s with decoder := decoder } : SseStreamDecoder).state ≠ .active := by
          simp [h.active]
        have hrun := classifyRun_events hall none []
        rw [List.append_nil] at hrun
        simp only [heq, if_neg hactive, hrun]
        cases heof : s.policy.eof <;> simp [classifyRun, heof, StreamOutcome.after]
      · have hrun := hclosed none []
        rw [List.append_nil] at hrun
        simp only [if_pos hstate, hrun]
    · rw [hremaining] at hspec
      cases hspec

/-- A run on any chunks has the outcome of the concatenated input. -/
theorem runChunks_eq (chunks : List Bytes) {s : SseStreamDecoder} (h : s.Running) :
    s.runChunks chunks = s.outcome chunks.flatten := by
  induction chunks generalizing s with
  | nil => exact finish_outcome h
  | cons chunk rest ih =>
      have hdelivers := pushLog_delivers h chunk
      rw [runChunks, pushWithFlushed, List.flatten_cons]
      rcases hlog : s.pushLog chunk with ⟨after, frames, dispatches, error⟩
      rw [hlog] at hdelivers
      obtain ⟨rfl, hrunning, hmore⟩ | ⟨hend, herr, hmore⟩ := hdelivers
      · have hactive : ¬ after.state ≠ .active := by
          rw [hrunning.active]
          simp
        simp only [PushLog.result, if_neg hactive]
        rw [(hmore rest.flatten).1, ih hrunning]
      · rw [(hmore rest.flatten).1]
        cases error with
        | none => simp [PushLog.result, hend]
        | some e => rfl

/-- Chunk boundaries do not matter: dispatches, final error and final state of a run
are those of the run on one chunk. -/
theorem runChunks_flatten (limits : SseLimits) (policy : SseEndpointPolicy)
    (chunks : List Bytes) :
    (new limits policy).runChunks chunks = (new limits policy).runChunks [chunks.flatten] := by
  have hrunning := running_new limits policy
  calc
    (new limits policy).runChunks chunks = (new limits policy).outcome chunks.flatten :=
      runChunks_eq chunks hrunning
    _ = (new limits policy).outcome [chunks.flatten].flatten := by rw [List.flatten_singleton]
    _ = (new limits policy).runChunks [chunks.flatten] := (runChunks_eq _ hrunning).symm

end Run

end SseStreamDecoder

end OpenaiRs.Sse
