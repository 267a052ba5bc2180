import OpenaiRs.Responses.EventStream
import OpenaiRs.Sse.Dropping

/-!
# The beta Responses event stream

`BetaResponseEventStream` of `openai-rs-client/src/beta_responses.rs`, a copy of the stable loop that
pushes without flushing. Nothing follows a closing item, but what stands in front of it depends on the
chunks for the bodies of which a push loses events.

## Implementation notes

The fields of a beta event that the stream does not look into are one type variable.
-/

namespace OpenaiRs.Responses

open Rust Sse

variable {Transport Json Detail : Type}

section Stream

structure BetaResponseStreamEvent (Detail : Type) where
  core : ResponseStreamEvent
  /-- The agent, the stream id, the typed response and the typed item. -/
  detail : Detail
  deriving DecidableEq

def BetaResponseStreamEvent.isTerminal (event : BetaResponseStreamEvent Detail) : Bool := event.core.isTerminal

/-- The JSON decoders: the `type` string of a JSON value, and the beta event. -/
structure BetaEventJson (Json Detail : Type) where
  jsonType : Bytes → Except Json (Option Bytes)
  event : Bytes → Except Json (BetaResponseStreamEvent Detail)

variable (json : BetaEventJson Json Detail) (info : ResponseMeta)

def decodeBetaEvent (frame : SseFrame) : Except (Error Transport Json) (BetaResponseStreamEvent Detail) :=
  if frame.event.isNone then
    .error (.streamProtocol "a beta Responses event is missing its SSE event field" info.requestId
      frame.data)
  else
    match json.jsonType frame.data with
    | .error source => .error (.decode source 200 info.requestId frame.data)
    | .ok type =>
        if type ≠ frame.event then
          .error (.streamProtocol "the beta SSE event field and JSON type discriminator differ"
            info.requestId frame.data)
        else
          match json.event frame.data with
          | .error source => .error (.decode source 200 info.requestId frame.data)
          | .ok event =>
              match event.core with
              | .error _ => .error (remoteStreamError info frame)
              | _ => .ok event

def decodeBetaDispatch : SseDispatch → Except (Error Transport Json) (BetaResponseStreamEvent Detail)
  | .event frame => decodeBetaEvent json info frame
  | .terminal frame => decodeBetaEvent json info frame
  | .remoteError frame => .error (remoteStreamError info frame)

/-- The item of a dispatch, and whether the loop returns behind it. -/
def betaItem (dispatch : SseDispatch) :
    Except (Error Transport Json) (BetaResponseStreamEvent Detail) × Bool :=
  match decodeBetaDispatch json info dispatch with
  | .ok event => (.ok event, event.isTerminal)
  | .error e => (.error e, true)

/-- The loop over the chunks and the flush of `BetaResponseEventStream::from_response`. -/
def betaEventReader :
    Reader Transport (Except (Error Transport Json) (BetaResponseStreamEvent Detail)) where
  onPushed := betaItem json info
  onFlushed := betaItem json info
  onSseError source := .error (sseError info source)
  onTransportError source := .error (.responseBody source info.status info.requestId)

/-- Everything a `BetaResponseEventStream` yields for the chunks of a response body. -/
def betaEventStream (limits : SseLimits) (chunks : List (Except Transport Bytes)) :
    List (Except (Error Transport Json) (BetaResponseStreamEvent Detail)) :=
  (betaEventReader json info).readPushed (SseStreamDecoder.new limits .responses) chunks

end Stream

section Protocol

/-- An error or a terminal event. -/
def BetaClosing : Except (Error Transport Json) (BetaResponseStreamEvent Detail) → Prop
  | .error _ => True
  | .ok event => event.isTerminal = true

variable (json : BetaEventJson Json Detail) (info : ResponseMeta)

theorem betaItem_returns (dispatch : SseDispatch)
    (h : BetaClosing (betaItem json info dispatch :
      Except (Error Transport Json) (BetaResponseStreamEvent Detail) × Bool).1) :
    (betaItem json info dispatch :
      Except (Error Transport Json) (BetaResponseStreamEvent Detail) × Bool).2 = true := by
  unfold betaItem at h ⊢
  cases hdecode : (decodeBetaDispatch json info dispatch : Except (Error Transport Json) _) with
  | error e => rfl
  | ok event =>
      rw [hdecode] at h
      exact h

/-- What fails to decode is not reported as an error of the decoder. -/
theorem decodeBetaEvent_ne_sse (frame : SseFrame) (source : SseDecodeError) :
    (decodeBetaEvent json info frame : Except (Error Transport Json) (BetaResponseStreamEvent Detail)) ≠
      .error (sseError info source) := by
  rw [decodeBetaEvent]
  split
  · simp [sseError]
  · split
    · simp [sseError]
    · split
      · simp [sseError]
      · split
        · simp [sseError]
        · split
          · simp [sseError, remoteStreamError]
          · simp

theorem betaItem_ne_sse (frame : SseFrame) (source : SseDecodeError) :
    (betaItem json info (.event frame) :
      Except (Error Transport Json) (BetaResponseStreamEvent Detail) × Bool).1 ≠
      .error (sseError info source) := by
  have hdecode := @decodeBetaEvent_ne_sse Transport Json Detail json info frame source
  rw [betaItem, decodeBetaDispatch]
  split
  · simp
  · rename_i e heq
    rw [heq] at hdecode
    exact hdecode

/-- Nothing follows a closing item of a beta stream, whatever its body and its end. Its items do not depend
on the chunks, and begin with the events in front of the first malformed line, for exactly the bodies of
which no push can lose an event. -/
theorem betaEventStream_deliversBody_iff (json : BetaEventJson Json Detail) (info : ResponseMeta)
    (limits : SseLimits) :
    (∀ chunks : List (Except Transport Bytes),
      Reader.ClosesLast BetaClosing (betaEventStream json info limits chunks)) ∧
    ∀ body : Bytes,
      (betaEventReader json info : Reader Transport _).DeliversBody limits .responses body ↔
        ¬ Loses limits .responses body := by
  constructor
  · intro chunks
    exact Reader.readPushed_closesLast (betaItem_returns json info) (betaItem_returns json info) chunks _
  · intro body
    exact Reader.deliversBody_iff rfl (betaItem_ne_sse json info) limits .responses body

/-- A chunk that completes an event and then holds a line that is not UTF-8 yields the error alone; cut
behind the event it yields both. -/
theorem not_deliversBody_invalidLine :
    ¬ (betaEventReader
        ⟨fun _ => .ok (some (utf8 "x")), fun _ => .ok ⟨.unknown ⟨utf8 "x", none⟩, ()⟩⟩ ⟨200, none⟩ :
        Reader Unit (Except (Error Unit Unit) (BetaResponseStreamEvent Unit))).DeliversBody .default .responses
      (utf8 "event: x\ndata: \x7b\"type\":\"x\"\x7d\n\n" ++ [0xFF, lf]) := by
  rintro ⟨hsame, -⟩
  have hcut := hsame [utf8 "event: x\ndata: \x7b\"type\":\"x\"\x7d\n\n" ++ [0xFF, lf]]
    [utf8 "event: x\ndata: \x7b\"type\":\"x\"\x7d\n\n", [0xFF, lf]] (by simp) (by simp)
  revert hcut
  decide

end Protocol

end OpenaiRs.Responses
