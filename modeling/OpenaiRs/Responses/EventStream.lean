import OpenaiRs.Responses.Event
import OpenaiRs.Sse.Reader

/-!
# The Responses event stream

`ResponseEventStream` of `openai-rs-client/src/response_stream.rs`: the reader that turns
the dispatches of a Responses body into typed events. Whether a stream is over is decided
twice, by the terminal table of the endpoint policy on the SSE event name and by the
variant of the typed event. Both agree because the event name has to be the JSON
discriminator, and the discriminator picks the variant.

## Implementation notes

Transport errors and JSON errors are those of other crates and are type variables, and so
are the two JSON decoders. A remote error and a body preview are kept as the bytes they
are computed from.
-/

namespace OpenaiRs.Responses

open Rust Sse

/-- The part of the response metadata that stream errors repeat. -/
structure ResponseMeta where
  status : Nat
  requestId : Option Bytes
  deriving DecidableEq

/-- The errors that a running event stream can yield. -/
inductive Error (Transport Json : Type) where
  | responseBody (source : Transport) (status : Nat) (requestId : Option Bytes)
  | sse (source : SseDecodeError) (requestId : Option Bytes)
  | stream (requestId : Option Bytes) (body : Bytes)
  | streamProtocol (message : String) (requestId : Option Bytes) (body : Bytes)
  | decode (source : Json) (metaStatus : Nat) (requestId : Option Bytes) (body : Bytes)
  deriving DecidableEq

/-- The JSON decoders: the `type` string of a JSON value, and the tagged event union. -/
structure EventJson (Json : Type) where
  jsonType : Bytes → Except Json (Option Bytes)
  event : Bytes → Except Json ResponseStreamEvent

/-- The union picks its variant by the `type` string, and keeps as unknown only events
with the type of no other variant. -/
structure EventJson.Tagged {Json : Type} (json : EventJson Json) : Prop where
  wire : ∀ data event, json.event data = .ok event → json.jsonType data = .ok (some event.wire)
  unknown : ∀ data future, json.event data = .ok (.unknown future) →
    ∀ event : ResponseStreamEvent, event.isUnknown = false → event.wire ≠ future.type

variable {Transport Json : Type}

section Stream

variable (json : EventJson Json) (info : ResponseMeta)

/-- Decode a frame whose event name is its JSON discriminator. -/
def decodeEvent (frame : SseFrame) : Except (Error Transport Json) ResponseStreamEvent :=
  if frame.event.isNone then
    .error (.streamProtocol "a Responses event is missing its SSE event field" info.requestId
      frame.data)
  else
    match json.jsonType frame.data with
    | .error source => .error (.decode source 200 info.requestId frame.data)
    | .ok type =>
        if type ≠ frame.event then
          .error (.streamProtocol "the SSE event field and JSON type discriminator differ"
            info.requestId frame.data)
        else
          match json.event frame.data with
          | .error source => .error (.decode source 200 info.requestId frame.data)
          | .ok event => .ok event

def remoteStreamError (frame : SseFrame) : Error Transport Json := .stream info.requestId frame.data

def sseError (source : SseDecodeError) : Error Transport Json := .sse source info.requestId

/-- The loop over the chunks and the flush of `ResponseEventStream::from_response`. -/
def eventReader : Reader Transport (Except (Error Transport Json) ResponseStreamEvent) where
  onPushed
    | .event frame =>
        match decodeEvent json info frame with
        | .ok (.error _) => (.error (remoteStreamError info frame), true)
        | .ok event => (.ok event, event.isTerminal)
        | .error e => (.error e, true)
    | .terminal frame => (decodeEvent json info frame, true)
    | .remoteError frame => (.error (remoteStreamError info frame), true)
  onFlushed
    | .event frame | .terminal frame =>
        match decodeEvent json info frame with
        | .ok (.error _) => (.error (remoteStreamError info frame), true)
        | .ok event => (.ok event, false)
        | .error e => (.error e, true)
    | .remoteError frame => (.error (remoteStreamError info frame), true)
  onSseError source := .error (sseError info source)
  onTransportError source := .error (.responseBody source info.status info.requestId)

/-- Everything a `ResponseEventStream` yields for the chunks of a response body. -/
def eventStream (limits : SseLimits) (chunks : List (Except Transport Bytes)) :
    List (Except (Error Transport Json) ResponseStreamEvent) :=
  (eventReader json info).readChunks (SseStreamDecoder.new limits .responses) chunks

end Stream

section Terminality

theorem ItemEventKind.wire_not_terminal (kind : ItemEventKind) :
    kind.wire ∉ SseEndpointPolicy.responses.terminalEvents := by
  cases kind <;> decide

theorem UnboundEventKind.wire_not_terminal (kind : UnboundEventKind) :
    kind.wire ∉ SseEndpointPolicy.responses.terminalEvents := by
  cases kind <;> decide

/-- The terminal table of the policy holds terminal lifecycle variants only. -/
theorem isTerminal_of_wire {event : ResponseStreamEvent} (hknown : event.isUnknown = false)
    (h : event.wire ∈ SseEndpointPolicy.responses.terminalEvents) :
    event.isTerminal = true ∧ event.isError = false := by
  cases event with
  | completed event => exact ⟨rfl, rfl⟩
  | failed event => exact ⟨rfl, rfl⟩
  | incomplete event => exact ⟨rfl, rfl⟩
  | unknown event => cases hknown
  | item kind event => exact absurd h kind.wire_not_terminal
  | unbound kind sequenceNumber => exact absurd h kind.wire_not_terminal
  | _ =>
      apply absurd h
      rw [ResponseStreamEvent.wire]
      decide

/-- Every terminal variant is named by the policy. -/
theorem wire_of_isTerminal {event : ResponseStreamEvent} (h : event.isTerminal = true) :
    event.wire ∈ SseEndpointPolicy.responses.terminalEvents ∨
      event.wire ∈ SseEndpointPolicy.responses.remoteErrorEvents := by
  cases event with
  | completed event => exact .inl (show utf8 "response.completed" ∈ _ by decide)
  | failed event => exact .inl (show utf8 "response.failed" ∈ _ by decide)
  | incomplete event => exact .inl (show utf8 "response.incomplete" ∈ _ by decide)
  | error event => exact .inr (show utf8 "error" ∈ _ by decide)
  | _ => cases h

theorem isError_of_not_terminal {event : ResponseStreamEvent} (h : event.isTerminal = false) :
    event.isError = false := by
  cases event with
  | error event => cases h
  | _ => rfl

variable {json : EventJson Json} {info : ResponseMeta}

/-- A decoded frame is named by the wire discriminator of its event. -/
theorem decodeEvent_ok (hjson : json.Tagged) {frame : SseFrame} {event : ResponseStreamEvent}
    (h : (decodeEvent json info frame : Except (Error Transport Json) _) = .ok event) :
    json.event frame.data = .ok event ∧ frame.event = some event.wire := by
  rw [decodeEvent] at h
  split at h
  · cases h
  · rcases htype : json.jsonType frame.data with e | type
    · rw [htype] at h
      cases h
    · rw [htype] at h
      simp only at h
      split at h
      · cases h
      · rename_i hsame
        rcases hevent : json.event frame.data with e | event'
        · rw [hevent] at h
          cases h
        · rw [hevent] at h
          obtain rfl : event' = event := Except.ok.inj h
          refine ⟨rfl, ?_⟩
          rw [hjson.wire frame.data event' hevent] at htype
          rw [← not_not.mp hsame, ← Except.ok.inj htype]

/-- A frame that the policy takes for an ordinary event decodes to one. -/
theorem decodeEvent_event (hjson : json.Tagged) {frame : SseFrame} {event : ResponseStreamEvent}
    (hclass : SseEndpointPolicy.responses.classify frame = .event)
    (h : (decodeEvent json info frame : Except (Error Transport Json) _) = .ok event) :
    event.isTerminal = false := by
  obtain ⟨-, hname⟩ := decodeEvent_ok hjson h
  rw [Bool.eq_false_iff]
  intro hterminal
  rw [SseEndpointPolicy.classify, hname] at hclass
  obtain hmem | hmem := wire_of_isTerminal hterminal
  · simp only [Option.any_some, List.contains_iff_mem.mpr hmem, if_true] at hclass
    split at hclass <;> [cases hclass; (split at hclass <;> cases hclass)]
  · simp only [Option.any_some, List.contains_iff_mem.mpr hmem, if_true] at hclass
    split at hclass <;> cases hclass

/-- A frame that the policy takes for a terminal one decodes to a lifecycle terminal. -/
theorem decodeEvent_terminal (hjson : json.Tagged) {frame : SseFrame} {event : ResponseStreamEvent}
    (hclass : SseEndpointPolicy.responses.classify frame = .emittedTerminal)
    (h : (decodeEvent json info frame : Except (Error Transport Json) _) = .ok event) :
    event.isTerminal = true ∧ event.isError = false := by
  obtain ⟨hevent, hname⟩ := decodeEvent_ok hjson h
  have hmem : event.wire ∈ SseEndpointPolicy.responses.terminalEvents := by
    rw [SseEndpointPolicy.classify, hname] at hclass
    split at hclass
    · cases hclass
    · split at hclass
      · cases hclass
      · split at hclass
        · rename_i hany
          exact List.contains_iff_mem.mp hany
        · cases hclass
  refine isTerminal_of_wire ?_ hmem
  -- An unknown event would have the type of one of the three lifecycle terminals.
  cases event with
  | unknown future =>
      have hother := hjson.unknown frame.data future hevent
      have hcases : future.type = utf8 "response.completed" ∨
          future.type = utf8 "response.failed" ∨ future.type = utf8 "response.incomplete" := by
        simpa [SseEndpointPolicy.responses, SseEndpointPolicy.new,
          SseEndpointPolicy.withTerminalEvent, SseEndpointPolicy.withConsumedDataSentinel,
          SseEndpointPolicy.withRemoteErrorEvent, ResponseStreamEvent.wire] using hmem
      obtain htype | htype | htype := hcases
      · exact absurd htype.symm (hother (.completed ⟨0, ⟨"", []⟩⟩) rfl)
      · exact absurd htype.symm (hother (.failed ⟨0, ⟨"", []⟩⟩) rfl)
      · exact absurd htype.symm (hother (.incomplete ⟨0, ⟨"", []⟩⟩) rfl)
  | _ => rfl

/-- Only the sentinel is consumed. -/
theorem classify_responses_consumed {frame : SseFrame}
    (h : SseEndpointPolicy.responses.classify frame = .consumedTerminal) :
    frame.data = utf8 "[DONE]" := by
  rw [SseEndpointPolicy.classify] at h
  split at h
  · rename_i hdata
    exact List.mem_singleton.mp (List.contains_iff_mem.mp hdata)
  · split at h
    · cases h
    · split at h <;> cases h

end Terminality

section Protocol

/-- An error or a terminal event. -/
def Closing : Except (Error Transport Json) ResponseStreamEvent → Prop
  | .error _ => True
  | .ok event => event.isTerminal = true

/-- An error event is not delivered as an ordinary item. -/
def NotErrorEvent (item : Except (Error Transport Json) ResponseStreamEvent) : Prop :=
  ∀ event, item = .ok event → event.isError = false

variable {json : EventJson Json} {info : ResponseMeta}

theorem onPushed_error {frame : SseFrame} {e : Error Transport Json}
    (h : decodeEvent json info frame = .error e) :
    (eventReader json info).onPushed (.event frame) = (.error e, true) := by
  simp [eventReader, h]

theorem onFlushed_error {frame : SseFrame} {e : Error Transport Json}
    (h : decodeEvent json info frame = .error e) :
    (eventReader json info).onFlushed (.event frame) = (.error e, true) ∧
      (eventReader json info).onFlushed (.terminal frame) = (.error e, true) := by
  simp [eventReader, h]

theorem onPushed_ok {frame : SseFrame} {event : ResponseStreamEvent}
    (h : (decodeEvent json info frame : Except (Error Transport Json) _) = .ok event)
    (herror : event.isError = false) :
    (eventReader json info : Reader Transport _).onPushed (.event frame) =
      (.ok event, event.isTerminal) := by
  cases event with
  | error event => cases herror
  | _ => simp [eventReader, h]

theorem onFlushed_ok {frame : SseFrame} {event : ResponseStreamEvent}
    (h : (decodeEvent json info frame : Except (Error Transport Json) _) = .ok event)
    (herror : event.isError = false) :
    (eventReader json info : Reader Transport _).onFlushed (.event frame) = (.ok event, false) ∧
      (eventReader json info : Reader Transport _).onFlushed (.terminal frame) =
        (.ok event, false) := by
  cases event with
  | error event => cases herror
  | _ => simp [eventReader, h]

/-- The reader returns exactly behind an error or a terminal event. -/
theorem eventReader_lawful (hjson : json.Tagged) :
    (eventReader json info : Reader Transport _).Lawful .responses Closing where
  event frame hclass := by
    rcases hdecode : (decodeEvent json info frame : Except (Error Transport Json) _) with e | event
    · rw [onPushed_error hdecode]
      exact ⟨fun _ => trivial, fun _ => rfl⟩
    · have hordinary := decodeEvent_event hjson hclass hdecode
      rw [onPushed_ok hdecode (isError_of_not_terminal hordinary)]
      exact Iff.rfl
  terminal frame hclass := by
    change Closing (decodeEvent json info frame)
    rcases hdecode : (decodeEvent json info frame : Except (Error Transport Json) _) with e | event
    · trivial
    · exact (decodeEvent_terminal hjson hclass hdecode).1
  remoteError _ _ := trivial
  flushedEvent frame hclass := by
    rcases hdecode : (decodeEvent json info frame : Except (Error Transport Json) _) with e | event
    · rw [onPushed_error hdecode, (onFlushed_error hdecode).1]
    · have hordinary := decodeEvent_event hjson hclass hdecode
      have herror := isError_of_not_terminal hordinary
      rw [onPushed_ok hdecode herror, (onFlushed_ok hdecode herror).1, hordinary]
  flushedTerminal frame hclass := by
    change _ = decodeEvent json info frame
    rcases hdecode : (decodeEvent json info frame : Except (Error Transport Json) _) with e | event
    · rw [(onFlushed_error hdecode).2]
    · rw [(onFlushed_ok hdecode (decodeEvent_terminal hjson hclass hdecode).2).2]
  flushedRemoteError _ _ := rfl
  sseError _ := trivial
  transportError _ := trivial

/-- No dispatch of the policy makes the reader yield an error event. -/
theorem eventReader_notErrorEvent (hjson : json.Tagged) (frame : SseFrame) (dispatch : SseDispatch)
    (h : dispatch ∈ SseEndpointPolicy.responses.dispatch frame) :
    NotErrorEvent ((eventReader json info : Reader Transport _).onPushed dispatch).1 ∧
      NotErrorEvent ((eventReader json info : Reader Transport _).onFlushed dispatch).1 := by
  have hlawful := @eventReader_lawful Transport Json json info hjson
  rw [SseEndpointPolicy.dispatch] at h
  cases hclass : SseEndpointPolicy.responses.classify frame with
  | event =>
      rw [hclass] at h
      obtain rfl := List.mem_singleton.mp h
      rw [hlawful.flushedEvent frame hclass, and_self]
      rcases hdecode : (decodeEvent json info frame : Except (Error Transport Json) _) with e | event
      · rw [onPushed_error hdecode]
        intro event heq
        cases heq
      · have herror := isError_of_not_terminal (decodeEvent_event hjson hclass hdecode)
        rw [onPushed_ok hdecode herror]
        intro event' heq
        cases heq
        exact herror
  | emittedTerminal =>
      rw [hclass] at h
      obtain rfl := List.mem_singleton.mp h
      rw [hlawful.flushedTerminal frame hclass, and_self]
      intro event heq
      exact (decodeEvent_terminal hjson hclass heq).2
  | consumedTerminal =>
      rw [hclass] at h
      cases h
  | remoteError =>
      rw [hclass] at h
      obtain rfl := List.mem_singleton.mp h
      refine ⟨?_, ?_⟩ <;> intro event heq <;> cases heq

/-- Items that do not close are ordinary events. -/
theorem ordinary_events {items : List (Except (Error Transport Json) ResponseStreamEvent)}
    (h : ∀ item ∈ items, ¬ Closing item) :
    ∃ events : List ResponseStreamEvent, items = events.map .ok ∧ ∀ event ∈ events, event.isTerminal = false := by
  induction items with
  | nil => exact ⟨[], rfl, by simp⟩
  | cons item items ih =>
      obtain ⟨events, rfl, hevents⟩ := ih (fun item hmem => h item (List.mem_cons_of_mem _ hmem))
      obtain e | event := item
      · exact absurd trivial (h (.error e) (by simp))
      · refine ⟨event :: events, rfl, ?_⟩
        intro event' hmem
        obtain rfl | hmem := List.mem_cons.mp hmem
        · exact Bool.eq_false_iff.mpr (h (.ok event') (by simp))
        · exact hevents event' hmem

/-- The protocol of a Responses event stream. For every body, chunking and end, it yields
events that are not terminal and then at most one closing item, which is a lifecycle
terminal or an error and is only missing when the sentinel was consumed; an error event is
never yielded; and without transport errors the chunking does not matter. -/
theorem eventStream_protocol (json : EventJson Json) (hjson : json.Tagged) (info : ResponseMeta)
    (limits : SseLimits) :
    (∀ chunks : List (Except Transport Bytes),
      ∃ (events : List ResponseStreamEvent) (closing : Option (Except (Error Transport Json) _)),
      eventStream json info limits chunks = events.map .ok ++ closing.toList ∧
      (∀ event ∈ events, event.isTerminal = false) ∧
      (∀ event, closing = some (.ok event) → event.isTerminal = true ∧ event.isError = false) ∧
      (closing = none → ∃ frame ∈ ((SseStreamDecoder.new limits .responses).trace
        (Reader.calls chunks)).frames, frame.data = utf8 "[DONE]")) ∧
    (∀ (chunks : List (Except Transport Bytes)) (event : ResponseStreamEvent),
      .ok event ∈ eventStream json info limits chunks → event.isError = false) ∧
    ∀ chunks chunks' : List Bytes, chunks.flatten = chunks'.flatten →
      eventStream json info limits (chunks.map (.ok : Bytes → Except Transport Bytes)) =
        eventStream json info limits (chunks'.map .ok) := by
  have hlawful := @eventReader_lawful Transport Json json info hjson
  have hrunning := SseStreamDecoder.running_new limits .responses
  have hnever : ∀ chunks : List (Except Transport Bytes),
      ∀ item ∈ eventStream json info limits chunks, NotErrorEvent item :=
    fun chunks => Reader.readChunks_forall
      (fun frame dispatch h => (eventReader_notErrorEvent hjson frame dispatch h).1)
      (fun frame dispatch h => (eventReader_notErrorEvent hjson frame dispatch h).2)
      (fun _ _ heq => by cases heq) (fun _ _ heq => by cases heq) hrunning chunks
  refine ⟨fun chunks => ?_, fun chunks event h => hnever chunks _ h event rfl, ?_⟩
  · obtain ⟨before, closing, heq, hbefore, hclosing, hnone⟩ :=
      hlawful.shaped_readChunks rfl hrunning chunks
    obtain ⟨events, rfl, hevents⟩ := ordinary_events hbefore
    refine ⟨events, closing, heq, hevents, ?_, ?_⟩
    · intro event hsome
      refine ⟨hclosing _ hsome, hnever chunks (.ok event) ?_ event rfl⟩
      rw [eventStream, heq, hsome]
      simp
    · intro hmissing
      obtain ⟨frame, hmem, hconsumed⟩ := hnone hmissing
      exact ⟨frame, hmem, classify_responses_consumed hconsumed⟩
  · intro chunks chunks' hsame
    rw [eventStream, eventStream, hlawful.readChunks_eq hrunning, hlawful.readChunks_eq hrunning,
      hsame]

/-- A future event in front of the sentinel, cut inside its `data` field. -/
theorem eventStream_protocol_unknownEvent :
    eventStream
      ⟨fun data => if data = utf8 "\x7b\"type\":\"x\"\x7d" then .ok (some (utf8 "x")) else .error (),
        fun data => if data = utf8 "\x7b\"type\":\"x\"\x7d" then .ok (.unknown ⟨utf8 "x", none⟩)
          else .error ()⟩ ⟨200, none⟩ .default
      ([utf8 "event: x\nda", utf8 "ta: \x7b\"type\":\"x\"\x7d\n\ndata: [DONE]\n\n"].map
        (.ok : Bytes → Except Unit Bytes)) = [.ok (.unknown ⟨utf8 "x", none⟩)] := by
  refine ((eventStream_protocol _ ⟨?_, ?_⟩ _ _).2.2 _
    [utf8 "event: x\ndata: \x7b\"type\":\"x\"\x7d\n\ndata: [DONE]\n\n"] (by decide)).trans
      (by decide)
  · intro data event h
    simp only at h ⊢
    split at h
    · rename_i hdata
      rw [if_pos hdata]
      obtain rfl := Except.ok.inj h
      rfl
    · cases h
  · intro data future h event hknown
    simp only at h
    split at h
    · obtain rfl := ResponseStreamEvent.unknown.inj (Except.ok.inj h)
      cases event with
      | unknown event => cases hknown
      | item kind event => cases kind <;> rw [ResponseStreamEvent.wire] <;> decide
      | unbound kind sequenceNumber => cases kind <;> rw [ResponseStreamEvent.wire] <;> decide
      | _ =>
          rw [ResponseStreamEvent.wire]
          decide
    · cases h

end Protocol

end OpenaiRs.Responses
