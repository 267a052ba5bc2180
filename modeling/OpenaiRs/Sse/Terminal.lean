import OpenaiRs.Sse.StreamRun

/-!
# Nothing behind a terminal

The decoder never looks past the line that closes the stream. A chunk that closes
it may be extended by any bytes without a change of the result, and over any
sequence of calls a closing frame is the last one that is decoded at all.
-/

namespace OpenaiRs.Sse

open Rust Text

/-- The dispatches made of one frame. -/
def SseEndpointPolicy.dispatch (policy : SseEndpointPolicy) (frame : SseFrame) :
    List SseDispatch :=
  match policy.classify frame with
  | .event => [.event frame]
  | .emittedTerminal => [.terminal frame]
  | .consumedTerminal => []
  | .remoteError => [.remoteError frame]

/-- Every frame except the last one is an ordinary event. -/
def SseEndpointPolicy.ClosesLast (policy : SseEndpointPolicy) (frames : List SseFrame) : Prop :=
  ∀ frame ∈ frames.dropLast, policy.classify frame = .event

section Frames

variable {policy : SseEndpointPolicy}

theorem flatMap_dispatch_events {frames : List SseFrame}
    (h : ∀ frame ∈ frames, policy.classify frame = .event) :
    frames.flatMap policy.dispatch = frames.map .event := by
  induction frames with
  | nil => rfl
  | cons frame frames ih =>
      have hframe := h frame (by simp)
      have hrest := ih (fun f hf => h f (List.mem_cons_of_mem _ hf))
      rw [List.flatMap_cons, hrest, SseEndpointPolicy.dispatch, hframe]
      rfl

theorem closesLast_of_events {frames : List SseFrame}
    (h : ∀ frame ∈ frames, policy.classify frame = .event) : policy.ClosesLast frames :=
  fun frame hframe => h frame ((List.dropLast_sublist _).subset hframe)

/-- Ordinary events may stand in front of anything. -/
theorem closesLast_append {first second : List SseFrame}
    (hfirst : ∀ frame ∈ first, policy.classify frame = .event)
    (hsecond : policy.ClosesLast second) : policy.ClosesLast (first ++ second) := by
  intro frame hframe
  by_cases hnil : second = []
  · rw [hnil, List.append_nil] at hframe
    exact hfirst frame ((List.dropLast_sublist _).subset hframe)
  · rw [List.dropLast_append_of_ne_nil hnil] at hframe
    obtain hf | hf := List.mem_append.mp hframe
    · exact hfirst frame hf
    · exact hsecond frame hf

/-- A frame that is not an ordinary event is the last one. -/
theorem ClosesLast.last {before after : List SseFrame} {frame : SseFrame}
    (h : policy.ClosesLast (before ++ frame :: after))
    (hframe : policy.classify frame ≠ .event) :
    after = [] ∧ ∀ earlier ∈ before, policy.classify earlier = .event := by
  rw [SseEndpointPolicy.ClosesLast,
    List.dropLast_append_of_ne_nil (List.cons_ne_nil frame after)] at h
  refine ⟨?_, fun earlier hearlier => h earlier (List.mem_append_left _ hearlier)⟩
  cases after with
  | nil => rfl
  | cons next after =>
      rw [List.dropLast_cons_cons] at h
      exact absurd (h frame (by simp)) hframe

/-- The dispatches of frames that close last: a closing dispatch is the last one. -/
theorem ClosesLast.dispatch_last {frames : List SseFrame} (h : policy.ClosesLast frames)
    {before after : List SseDispatch} {dispatch : SseDispatch}
    (heq : frames.flatMap policy.dispatch = before ++ dispatch :: after)
    (hterminal : dispatch.isTerminal = true) : after = [] := by
  obtain rfl | ⟨front, last, rfl⟩ := List.eq_nil_or_concat frames
  · simp at heq
  · rw [List.concat_eq_append, SseEndpointPolicy.ClosesLast, List.dropLast_concat] at h
    rw [List.concat_eq_append, List.flatMap_append, flatMap_dispatch_events h,
      List.flatMap_singleton] at heq
    obtain ⟨middle, rfl, hlast⟩ | ⟨middle, hfront, hafter⟩ := List.append_eq_append_iff.mp heq
    · have hlen : (policy.dispatch last).length ≤ 1 := by
        unfold SseEndpointPolicy.dispatch
        split <;> simp
      rw [hlast, List.length_append, List.length_cons] at hlen
      exact List.length_eq_zero_iff.mp (by omega)
    · cases middle with
      | nil =>
          have hlen : (policy.dispatch last).length ≤ 1 := by
            unfold SseEndpointPolicy.dispatch
            split <;> simp
          rw [List.nil_append] at hafter
          rw [← hafter, List.length_cons] at hlen
          exact List.length_eq_zero_iff.mp (by omega)
      | cons first middle =>
          -- The dispatch would come from a frame in front of the last one.
          obtain ⟨rfl, -⟩ := List.cons.inj hafter
          have hmem : dispatch ∈ front.map SseDispatch.event := by
            rw [hfront]
            simp
          obtain ⟨frame, -, rfl⟩ := List.mem_map.mp hmem
          cases hterminal

end Frames

namespace SseStreamDecoder

section Extend

/-- With a terminator in sight the cut does not depend on what follows the chunk. -/
theorem nextCut_append {lineBuffer : Bytes} {b : UInt8} {rest : Bytes}
    (h : lineBuffer.getLast? = some cr ∨
      (b :: rest).findIdx? (fun b => b = cr || b = lf) ≠ none) (more : Bytes) :
    nextCut lineBuffer (b :: rest ++ more) = nextCut lineBuffer (b :: rest) ∧
      nextCut lineBuffer (b :: rest) ≤ (b :: rest).length := by
  unfold nextCut
  by_cases hcr : lineBuffer.getLast? = some cr
  · rw [if_pos hcr, if_pos hcr]
    exact ⟨rfl, by simp⟩
  · rw [if_neg hcr, if_neg hcr]
    obtain ⟨relative, hfind⟩ := Option.ne_none_iff_exists'.mp (h.resolve_left hcr)
    have hlt := (take_findIdx hfind).1
    rw [List.findIdx?_append, hfind]
    exact ⟨rfl, hlt⟩

/-- Without a terminator in sight the whole chunk is buffered and no frame is given. -/
theorem push_unterminated {d : SseDecoder} (h : d.Ready) {chunk : Bytes}
    (hbuffer : d.lineBuffer.getLast? ≠ some cr)
    (hchunk : chunk.findIdx? (fun b => b = cr || b = lf) = none) :
    (∃ e, (d.push chunk).2 = .error e) ∨ (d.push chunk).2 = .ok [] := by
  have hplain : Plain cr lf d.lineBuffer := by
    obtain hplain | ⟨content, -, heq⟩ := h.buffer
    · exact hplain
    · rw [heq] at hbuffer
      simp at hbuffer
  have hpush := @SseDecoder.push_of_plain d h chunk []
    (plain_append.mpr ⟨hplain, plain_of_findIdx_none hchunk⟩) (Nat.zero_le _)
  rw [List.append_nil] at hpush
  rcases hresult : d.push chunk with ⟨after, e | frames⟩
  · exact Or.inl ⟨e, rfl⟩
  · rw [hresult] at hpush
    rw [hpush.2 rfl]
    exact Or.inr rfl

theorem pushLoop_nil (fuel : Nat) (s : SseStreamDecoder) :
    pushLoop fuel s [] = (s, ⟨[], [], none⟩) := by
  cases fuel <;> rfl

/-- A chunk without a terminator is buffered, so the stream stays active. -/
theorem pushLoop_unterminated {fuel : Nat} {s : SseStreamDecoder} (h : s.Running) {b : UInt8}
    {rest : Bytes} (hcr : ¬ s.decoder.lineBuffer.getLast? = some cr)
    (hnone : (b :: rest).findIdx? (fun b => b = cr || b = lf) = none)
    (herror : (pushLoop (fuel + 1) s (b :: rest)).2.error = none) :
    (pushLoop (fuel + 1) s (b :: rest)).1.state = .active := by
  have hcut : nextCut s.decoder.lineBuffer (b :: rest) = (b :: rest).length := by
    rw [nextCut, if_neg hcr, hnone]
  have hsilent := push_unterminated h.ready hcr hnone
  rw [pushLoop_cons, hcut, List.take_length, List.drop_length] at herror ⊢
  rcases hpush : s.decoder.push (b :: rest) with ⟨decoder, e | frames⟩
  · rw [hpush] at herror
    cases herror
  · rw [hpush] at hsilent
    obtain rfl : frames = [] := by
      obtain ⟨e, he⟩ | hok := hsilent
      · cases he
      · exact Except.ok.inj hok
    have hactive : ¬ ({ s with decoder := decoder } : SseStreamDecoder).state ≠ .active := by
      simp [h.active]
    simp only [classifyFrames, if_neg hactive, pushLoop_nil]
    exact h.active

/-- A loop that closes the stream does the same on every extension of the chunk. -/
theorem pushLoop_append (fuel fuel' : Nat) (s : SseStreamDecoder) (chunk more : Bytes)
    (hfuel : chunk.length ≤ fuel) (hfuel' : (chunk ++ more).length ≤ fuel') (h : s.Running)
    (hstate : (pushLoop fuel s chunk).1.state ≠ .active)
    (herror : (pushLoop fuel s chunk).2.error = none) :
    pushLoop fuel' s (chunk ++ more) = pushLoop fuel s chunk := by
  induction fuel generalizing s chunk fuel' with
  | zero => exact absurd h.active hstate
  | succ fuel ih =>
      cases chunk with
      | nil => exact absurd h.active (by rwa [pushLoop_nil] at hstate)
      | cons b rest =>
          obtain ⟨fuel', rfl⟩ : ∃ k, fuel' = k + 1 := by
            rw [List.cons_append, List.length_cons] at hfuel'
            exact ⟨fuel' - 1, by omega⟩
          by_cases hsight : s.decoder.lineBuffer.getLast? = some cr ∨
              (b :: rest).findIdx? (fun b => b = cr || b = lf) ≠ none
          · obtain ⟨hcut, hle⟩ := nextCut_append hsight more
            have hpos := nextCut_pos s.decoder.lineBuffer b rest
            have hanswers := SseDecoder.push_answers h.ready
              ((b :: rest).take (nextCut s.decoder.lineBuffer (b :: rest)))
            rw [pushLoop_cons] at hstate herror ⊢
            rw [List.cons_append, pushLoop_cons, ← List.cons_append, hcut,
              List.take_append_of_le_length hle, List.drop_append_of_le_length hle]
            rcases hpush : s.decoder.push
                ((b :: rest).take (nextCut s.decoder.lineBuffer (b :: rest))) with
              ⟨decoder, e | frames⟩
            · rfl
            · rw [hpush] at hstate herror hanswers
              simp only at hstate herror ⊢
              by_cases hend :
                  ({ s with decoder := decoder }.classifyFrames frames).1.state ≠ .active
              · rw [if_pos hend, if_pos hend]
              · rw [if_neg hend] at hstate herror
                rw [if_neg hend, if_neg hend]
                have hrunning :
                    ({ s with decoder := decoder }.classifyFrames frames).1.Running := by
                  rcases classifyFrames_cases { s with decoder := decoder } frames with
                    ⟨heq, -⟩ | ⟨hclosed, -⟩
                  · rw [heq]
                    exact ⟨h.active, hanswers.1⟩
                  · exact absurd hclosed hend
                have hlater := ih fuel' _
                  ((b :: rest).drop (nextCut s.decoder.lineBuffer (b :: rest)))
                  (by rw [List.length_drop]; rw [List.length_cons] at hfuel ⊢; omega)
                  (by
                    rw [List.length_append, List.length_drop]
                    rw [List.length_append] at hfuel'
                    omega)
                  hrunning hstate herror
                simp only [hlater]
          · rw [not_or, not_not] at hsight
            exact absurd (pushLoop_unterminated h hsight.1 hsight.2 herror) hstate

/-- A push that completes the stream ignores everything behind its terminal. -/
theorem pushLog_append {s : SseStreamDecoder} (h : s.Running) (chunk more : Bytes)
    (hstate : (s.pushLog chunk).1.state = .completed ∨ (s.pushLog chunk).1.state = .remoteError) :
    (s.pushLog chunk).2.error = none ∧ s.pushLog (chunk ++ more) = s.pushLog chunk := by
  have hactive : (s.pushLog chunk).1.state ≠ .active := by
    rcases hstate with hs | hs <;> simp [hs]
  have herror : (s.pushLog chunk).2.error = none := by
    obtain ⟨herror, -⟩ | ⟨-, herror, -⟩ := pushLog_delivers h chunk
    · exact herror
    · apply herror.mpr
      rcases hstate with hs | hs <;> simp [hs]
  refine ⟨herror, ?_⟩
  rw [pushLog, if_pos h.active] at hactive herror ⊢
  rw [pushLog, if_pos h.active]
  exact pushLoop_append _ _ s chunk more (Nat.le_refl _) (Nat.le_refl _) h hactive herror

end Extend

section Calls

/-- A method call of the transport on the stream decoder. -/
inductive StreamCall where
  | push (chunk : Bytes)
  | finish
  | close
  deriving DecidableEq, Repr

/-- Everything decoded and dispatched over several calls. -/
structure CallTrace where
  frames : List SseFrame
  dispatches : List SseDispatch
  deriving DecidableEq

def call (s : SseStreamDecoder) : StreamCall → SseStreamDecoder × PushLog
  | .push chunk => s.pushLog chunk
  | .finish => s.finishLog
  | .close => (s.close, ⟨[], [], none⟩)

/-- The trace of a sequence of calls; calls after an error or a terminal are allowed. -/
def trace (s : SseStreamDecoder) : List StreamCall → CallTrace
  | [] => ⟨[], []⟩
  | c :: rest =>
      let later := trace (s.call c).1 rest
      ⟨(s.call c).2.frames ++ later.frames, (s.call c).2.dispatches ++ later.dispatches⟩

/-- What one call records: the dispatches of its frames, a closing frame only at the
end, and none if the stream is still active. -/
structure Records (s after : SseStreamDecoder) (log : PushLog) : Prop where
  dispatches : log.dispatches = log.frames.flatMap s.policy.dispatch
  closesLast : s.policy.ClosesLast log.frames
  running : after.state = .active →
    after.Running ∧ after.policy = s.policy ∧
      ∀ frame ∈ log.frames, s.policy.classify frame = .event

theorem records_nil {s after : SseStreamDecoder} (e : Option SseDecodeError)
    (h : after.state = .active → after.Running ∧ after.policy = s.policy) :
    s.Records after ⟨[], [], e⟩ :=
  ⟨rfl, closesLast_of_events (by simp), fun hactive => ⟨(h hactive).1, (h hactive).2, by simp⟩⟩

/-- A batch of at most one frame is dispatched as a whole. -/
theorem classifyFrames_dispatches (s : SseStreamDecoder) {frames : List SseFrame}
    (h : frames.length ≤ 1) :
    (s.classifyFrames frames).2 = frames.flatMap s.policy.dispatch := by
  obtain _ | ⟨frame, _ | ⟨second, rest⟩⟩ := frames
  · rfl
  · rw [List.flatMap_singleton, SseEndpointPolicy.dispatch, classifyFrames]
    cases s.policy.classify frame <;> rfl
  · simp at h

theorem closesLast_of_length {policy : SseEndpointPolicy} {frames : List SseFrame}
    (h : frames.length ≤ 1) : policy.ClosesLast frames := by
  have hnil : frames.dropLast = [] := by
    apply List.length_eq_zero_iff.mp
    rw [List.length_dropLast]
    omega
  intro frame hframe
  rw [hnil] at hframe
  cases hframe

theorem pushLoop_records (fuel : Nat) (s : SseStreamDecoder) (chunk : Bytes) (h : s.Running) :
    s.Records (pushLoop fuel s chunk).1 (pushLoop fuel s chunk).2 := by
  induction fuel generalizing s chunk with
  | zero => exact records_nil none fun _ => ⟨h, rfl⟩
  | succ fuel ih =>
      cases chunk with
      | nil => exact records_nil none fun _ => ⟨h, rfl⟩
      | cons b rest =>
          have hsegment := SseDecoder.push_segment h.ready b rest
          have hanswers := SseDecoder.push_answers h.ready
            ((b :: rest).take (nextCut s.decoder.lineBuffer (b :: rest)))
          rw [pushLoop_cons]
          rcases hpush : s.decoder.push
              ((b :: rest).take (nextCut s.decoder.lineBuffer (b :: rest))) with
            ⟨decoder, e | frames⟩
          · exact records_nil (some e) (by intro hactive; cases hactive)
          · rw [hpush] at hsegment hanswers
            have hdispatches := classifyFrames_dispatches { s with decoder := decoder } hsegment
            rcases classifyFrames_cases { s with decoder := decoder } frames with
              ⟨heq, hall⟩ | ⟨hstate, -, -, -⟩
            · have hactive : ¬ ({ s with decoder := decoder } : SseStreamDecoder).state ≠ .active := by
                simp [h.active]
              have hlater := ih { s with decoder := decoder }
                ((b :: rest).drop (nextCut s.decoder.lineBuffer (b :: rest))) ⟨h.active, hanswers.1⟩
              simp only [heq, if_neg hactive]
              refine ⟨?_, closesLast_append hall hlater.closesLast, ?_⟩
              · rw [List.flatMap_append, flatMap_dispatch_events hall, hlater.dispatches]
              · intro hend
                obtain ⟨hrunning, hpolicy, hevents⟩ := hlater.running hend
                refine ⟨hrunning, hpolicy, fun frame hframe => ?_⟩
                obtain hf | hf := List.mem_append.mp hframe
                · exact hall frame hf
                · exact hevents frame hf
            · simp only [if_pos hstate]
              exact ⟨hdispatches, closesLast_of_length hsegment, fun hactive => absurd hactive hstate⟩

/-- End of input gives at most one frame and always leaves the active state. -/
theorem finishLog_records {s : SseStreamDecoder} (h : s.Running) :
    s.Records s.finishLog.1 s.finishLog.2 := by
  have hspec := SseDecoder.finish_spec h.ready
  obtain ⟨hlength, -⟩ := SseDecoder.remaining_eof h.ready
  rw [finishLog, if_pos h.active]
  rcases hfinish : s.decoder.finish with ⟨decoder, e | frames⟩
  · exact records_nil (some e) (by intro hactive; cases hactive)
  · have hsingle : frames.length ≤ 1 := by
      rw [hfinish] at hspec
      rcases hremaining : s.decoder.remaining [] with ⟨frames', _ | e⟩
      · rw [hremaining] at hspec hlength
        obtain rfl : frames = frames' := Except.ok.inj hspec
        exact hlength
      · rw [hremaining] at hspec
        cases hspec
    have hdispatches := classifyFrames_dispatches { s with decoder := decoder } hsingle
    have hcloses : s.policy.ClosesLast frames := closesLast_of_length hsingle
    simp only
    split
    · rename_i hend
      exact ⟨hdispatches, hcloses, fun hactive => absurd hactive hend⟩
    · split
      · exact ⟨hdispatches, hcloses, by intro hactive; cases hactive⟩
      · exact ⟨hdispatches, hcloses, by intro hactive; cases hactive⟩

/-- A closed stream decoder records nothing and stays closed. -/
theorem call_closed {s : SseStreamDecoder} (h : s.state ≠ .active) (c : StreamCall) :
    (s.call c).1 = s ∧ (s.call c).2.frames = [] ∧ (s.call c).2.dispatches = [] := by
  cases c with
  | push chunk => simp [call, pushLog, h]
  | finish => simp [call, finishLog, h]
  | close => simp [call, close, h]

theorem call_records {s : SseStreamDecoder} (h : s.Running) (c : StreamCall) :
    s.Records (s.call c).1 (s.call c).2 := by
  cases c with
  | push chunk =>
      rw [call, pushLog, if_pos h.active]
      exact pushLoop_records chunk.length s chunk h
  | finish => exact finishLog_records h
  | close =>
      apply records_nil none
      intro hactive
      change s.close.state = .active at hactive
      rw [close, if_pos h.active] at hactive
      cases hactive

theorem trace_closed {s : SseStreamDecoder} (h : s.state ≠ .active) (calls : List StreamCall) :
    s.trace calls = ⟨[], []⟩ := by
  induction calls with
  | nil => rfl
  | cons c rest ih =>
      obtain ⟨hsame, hframes, hdispatches⟩ := call_closed h c
      rw [trace, hsame, ih, hframes, hdispatches]
      rfl

/-- Over any calls: the dispatches of the decoded frames, a closing frame only at the end. -/
theorem trace_records (calls : List StreamCall) {s : SseStreamDecoder} (h : s.Running) :
    (s.trace calls).dispatches = (s.trace calls).frames.flatMap s.policy.dispatch ∧
      s.policy.ClosesLast (s.trace calls).frames := by
  induction calls generalizing s with
  | nil => exact ⟨rfl, closesLast_of_events (by simp [trace])⟩
  | cons c rest ih =>
      have hcall := call_records h c
      rw [trace]
      by_cases hactive : (s.call c).1.state = .active
      · obtain ⟨hrunning, hpolicy, hevents⟩ := hcall.running hactive
        obtain ⟨hdispatches, hcloses⟩ := ih hrunning
        rw [hpolicy] at hdispatches hcloses
        refine ⟨?_, closesLast_append hevents hcloses⟩
        rw [List.flatMap_append, hcall.dispatches, hdispatches]
      · rw [trace_closed hactive]
        simp only [List.append_nil]
        exact ⟨hcall.dispatches, hcall.closesLast⟩

/-- A whole run: push every chunk, then finish. -/
def runCalls (chunks : List Bytes) : List StreamCall := chunks.map .push ++ [.finish]

theorem finishLog_frames {s : SseStreamDecoder} (h : s.Running) :
    s.finishLog.2.frames = s.decoded [] := by
  have hspec := SseDecoder.finish_spec h.ready
  obtain ⟨hlength, hlost⟩ := SseDecoder.remaining_eof h.ready
  rw [decoded, seen_single hlength, finishLog, if_pos h.active]
  rcases hfinish : s.decoder.finish with ⟨decoder, e | frames⟩
  · rw [hfinish] at hspec
    rcases hremaining : s.decoder.remaining [] with ⟨frames, _ | e'⟩
    · rw [hremaining] at hspec
      cases hspec
    · rw [hremaining] at hlost
      exact (hlost e' rfl).symm
  · rw [hfinish] at hspec
    rcases hremaining : s.decoder.remaining [] with ⟨frames', _ | e⟩
    · rw [hremaining] at hspec
      obtain rfl : frames = frames' := Except.ok.inj hspec
      simp only
      split
      · rfl
      · split <;> rfl
    · rw [hremaining] at hspec
      cases hspec

/-- The frames decoded by a whole run are those of the concatenated input. -/
theorem trace_runCalls (chunks : List Bytes) {s : SseStreamDecoder} (h : s.Running) :
    (s.trace (runCalls chunks)).frames = s.decoded chunks.flatten := by
  induction chunks generalizing s with
  | nil =>
      change s.finishLog.2.frames ++ [] = _
      rw [List.append_nil]
      exact finishLog_frames h
  | cons chunk rest ih =>
      change (s.pushLog chunk).2.frames ++ ((s.pushLog chunk).1.trace (runCalls rest)).frames = _
      rw [List.flatten_cons]
      obtain ⟨-, hrunning, hmore⟩ | ⟨hend, -, hmore⟩ := pushLog_delivers h chunk
      · rw [(hmore rest.flatten).2, ih hrunning]
      · rw [(hmore rest.flatten).2, trace_closed hend, List.append_nil]

end Calls

/-- Nothing after a terminal is decoded. Bytes behind the closing frame of a chunk
change nothing; over any calls a closing dispatch is the last dispatch, and a
consumed sentinel is the last frame and stands behind ordinary events only. -/
theorem nothing_after_terminal (limits : SseLimits) (policy : SseEndpointPolicy) :
    (∀ chunk more,
      (((new limits policy).pushWithFlushed chunk).1.state = .completed ∨
        ((new limits policy).pushWithFlushed chunk).1.state = .remoteError) →
      (∃ dispatches, ((new limits policy).pushWithFlushed chunk).2 = .ok dispatches) ∧
        (new limits policy).pushWithFlushed (chunk ++ more) =
          (new limits policy).pushWithFlushed chunk) ∧
    (∀ calls before dispatch after,
      ((new limits policy).trace calls).dispatches = before ++ dispatch :: after →
      dispatch.isTerminal = true → after = []) ∧
    (∀ calls before frame after,
      ((new limits policy).trace calls).frames = before ++ frame :: after →
      policy.classify frame = .consumedTerminal →
      after = [] ∧ ((new limits policy).trace calls).dispatches = before.map .event) := by
  refine ⟨?_, ?_, ?_⟩
  · intro chunk more hstate
    obtain ⟨herror, hsame⟩ := pushLog_append (running_new limits policy) chunk more hstate
    refine ⟨⟨((new limits policy).pushLog chunk).2.dispatches, ?_⟩, ?_⟩
    · rw [pushWithFlushed, PushLog.result, herror]
    · rw [pushWithFlushed, hsame, pushWithFlushed]
  · intro calls before dispatch after heq hterminal
    obtain ⟨hdispatches, hcloses⟩ := trace_records calls (running_new limits policy)
    rw [hdispatches] at heq
    exact ClosesLast.dispatch_last hcloses heq hterminal
  · intro calls before frame after heq hconsumed
    obtain ⟨hdispatches, hcloses⟩ := trace_records calls (running_new limits policy)
    change policy.ClosesLast _ at hcloses
    change _ = List.flatMap policy.dispatch _ at hdispatches
    rw [heq] at hcloses hdispatches
    obtain ⟨rfl, hbefore⟩ := ClosesLast.last hcloses (by simp [hconsumed])
    refine ⟨rfl, ?_⟩
    rw [hdispatches, List.flatMap_append, flatMap_dispatch_events hbefore, List.flatMap_singleton,
      SseEndpointPolicy.dispatch, hconsumed, List.append_nil]

/-- The sentinel of a legacy stream, followed by bytes that are not even UTF-8. -/
theorem nothing_after_terminal_legacyDone :
    (new .default .legacyDone).pushWithFlushed (utf8 "data: [DONE]

" ++ [0xFF, 0x0A]) =
      (new .default .legacyDone).pushWithFlushed (utf8 "data: [DONE]

") :=
  ((nothing_after_terminal .default .legacyDone).1 _ _
    (Or.inl (by decide))).2

end SseStreamDecoder

end OpenaiRs.Sse
