import OpenaiRs.Direct.Sse
import OpenaiRs.Responses.Event

/-!
# The reader task of a direct Codex stream

The task that `DirectCodexResponsesClient::stream` in `direct/transport.rs` spawns for a
response: it feeds the chunks of the body to the decoder and sends typed events, or one
error, to the stream.

## Implementation notes

The HTTP error and the JSON error are those of other crates and are type variables, and
so is the function that decodes a payload into a typed event. The items are the ones sent
while the receiver is alive; a stream that was dropped yields nothing.
-/

namespace OpenaiRs.Direct

open Rust Responses

/-- The errors that a running stream can yield. -/
inductive DirectError (Http Json : Type) where
  | http (error : Http)
  | json (error : Json)
  | sse (error : SseError)
  deriving DecidableEq

/-- An item of `DirectResponseStream`. -/
abbrev StreamItem (Http Json : Type) := Except (DirectError Http Json) ResponseStreamEvent

variable (Http : Type) {Json : Type} (decodeJson : Bytes → Except Json ResponseStreamEvent)

/-- Dispatch decoded SSE items; the flag says that dispatching must stop. -/
def dispatchSseItems : List SseItem → List (StreamItem Http Json) × Bool
  | [] => ([], false)
  | .done :: _ => ([], true)
  | .data payload :: rest =>
      match decodeJson payload with
      | .error e => ([.error (.json e)], true)
      | .ok event =>
          let (sent, stop) := dispatchSseItems rest
          (.ok event :: sent, stop)

variable {Http}

/-- The error of a body without any event and without a content type. -/
def noEvents : SseError := ⟨"response body did not contain SSE events"⟩

/-- The loop over the chunks of the body, and the flush at its end. -/
def readBody (contentTypeMissing : Bool) (d : SseDecoder) (sawSseItem : Bool) :
    List (Except Http Bytes) → List (StreamItem Http Json)
  | [] =>
      match d.finish with
      | (_, .error e) => [.error (.sse e)]
      | (_, .ok items) =>
          let sawSseItem := sawSseItem || !items.isEmpty
          let (sent, stop) := dispatchSseItems Http decodeJson items
          if stop then sent
          else if contentTypeMissing && !sawSseItem then sent ++ [.error (.sse noEvents)]
          else sent
  | .error e :: _ => [.error (.http e)]
  | .ok chunk :: rest =>
      match d.feed chunk with
      | (_, .error e) => [.error (.sse e)]
      | (d, .ok items) =>
          let (sent, stop) := dispatchSseItems Http decodeJson items
          if stop then sent
          else sent ++ readBody contentTypeMissing d (sawSseItem || !items.isEmpty) rest

/-- Everything a stream yields for the chunks of a response body. -/
def streamItems (maxLineBytes maxEventBytes : UInt64) (contentTypeMissing : Bool)
    (chunks : List (Except Http Bytes)) : List (StreamItem Http Json) :=
  readBody decodeJson contentTypeMissing (SseDecoder.new maxLineBytes maxEventBytes) false chunks

end OpenaiRs.Direct
