import OpenaiRs.Chat.Snapshot
import OpenaiRs.Legacy.Reader

/-!
# The chat and the legacy completion stream

The two streams over the loop, and the reduction of a chat stream to a completion. The reduction fails on
the first error of the stream, and marks the fold as done when there is none.
-/

namespace OpenaiRs.Legacy

open Rust Sse Chat
open Serde (Value)
open Responses (ResponseMeta Error)

variable {Transport Json Completion : Type}

section Streams

/-- Everything a `ChatCompletionEventStream` yields for the chunks of a response body. -/
def chatCompletionEventStream (info : ResponseMeta) (json : ChunkJson Json ChatCompletionChunk)
    (limits : SseLimits) (chunks : List (Except Transport Bytes)) :
    List (Except (Error Transport Json) ChatCompletionChunk) :=
  legacyStream info (decodeChunk info json) limits chunks

/-- Everything a `CompletionEventStream` yields for the chunks of a response body. -/
def completionEventStream (info : ResponseMeta) (json : ChunkJson Json Completion) (limits : SseLimits)
    (chunks : List (Except Transport Bytes)) : List (Except (Error Transport Json) Completion) :=
  legacyStream info (decodeChunk info json) limits chunks

end Streams

section Collect

variable (fromValue : Value → Option Completion)

/-- `ChatCompletionAccumulator::finish`. -/
def finish (accumulator : ChatCompletionAccumulator) : Except (Error Transport Json) Completion :=
  if !accumulator.isDone then
    .error (.streamProtocol
      "the chat completion stream ended before any finish reason or [DONE] sentinel was observed" none [])
  else
    match accumulator.snapshot fromValue with
    | some completion => .ok completion
    | none =>
        .error (.streamProtocol "no chat completion chunk was observed before the stream ended" none [])

/-- `ChatCompletionEventStream::collect_with`, over the items of the stream. -/
def collectWith (accumulator : ChatCompletionAccumulator) :
    List (Except (Error Transport Json) ChatCompletionChunk) → Except (Error Transport Json) Completion
  | [] => finish fromValue accumulator.markDone
  | .ok chunk :: rest => collectWith (accumulator.push chunk) rest
  | .error e :: _ => .error e

/-- `ChatCompletionEventStream::collect_final`. -/
def collectFinal (items : List (Except (Error Transport Json) ChatCompletionChunk)) :
    Except (Error Transport Json) Completion :=
  collectWith fromValue .new items

variable {fromValue}

/-- A reduction that succeeds has met no error. -/
theorem forall_ok_of_collectWith {items : List (Except (Error Transport Json) ChatCompletionChunk)}
    {accumulator : ChatCompletionAccumulator} {completion : Completion}
    (h : collectWith fromValue accumulator items = .ok completion) :
    ∀ item ∈ items, ∃ chunk, item = .ok chunk := by
  induction items generalizing accumulator with
  | nil => simp
  | cons item rest ih =>
      cases item with
      | error e => cases h
      | ok chunk => exact List.forall_mem_cons.mpr ⟨⟨chunk, rfl⟩, ih h⟩

end Collect

section Protocol

/-- The protocol of the chat and the legacy completion streams. For every body, chunking and end they yield
a chunk for each frame in order and at most one error behind them, none exactly if the sentinel is reached
behind well-formed frames; without transport errors the chunking does not matter. A reduction of a chat
stream succeeds only if the sentinel is reached, and does not depend on the chunking. -/
theorem legacyStreams_protocol (info : ResponseMeta) (json : ChunkJson Json ChatCompletionChunk)
    (json' : ChunkJson Json Completion) (fromValue : Value → Option Completion) (limits : SseLimits) :
    LegacyProtocol info json limits
      (chatCompletionEventStream info json limits : List (Except Transport Bytes) → _) ∧
    LegacyProtocol info json' limits
      (completionEventStream info json' limits : List (Except Transport Bytes) → _) ∧
    (∀ (chunks : List (Except Transport Bytes)) (completion : Completion),
      collectFinal fromValue (chatCompletionEventStream info json limits chunks) = .ok completion →
      ∃ frame ∈ reachedFrames limits chunks, frame.data = utf8 "[DONE]") ∧
    ∀ chunks chunks' : List Bytes, chunks.flatten = chunks'.flatten →
      collectFinal fromValue (chatCompletionEventStream info json limits
          (chunks.map (.ok : Bytes → Except Transport Bytes))) =
        collectFinal fromValue (chatCompletionEventStream info json limits (chunks'.map .ok)) := by
  have hchat : LegacyProtocol info json limits
      (chatCompletionEventStream info json limits : List (Except Transport Bytes) → _) :=
    legacyStream_protocol info json limits
  refine ⟨hchat, legacyStream_protocol info json' limits, ?_, ?_⟩
  · intro chunks completion h
    obtain ⟨before, done, rest, hframes, hdone, -⟩ := (hchat.complete chunks).mp (forall_ok_of_collectWith h)
    refine ⟨done, ?_, hdone⟩
    rw [hframes]
    exact List.mem_append_right _ (.head _)
  · intro chunks chunks' h
    rw [hchat.unchunked chunks chunks' h]

/-- Every text is a value, and every value a chunk without choices. -/
def plainJson : ChunkJson Unit ChatCompletionChunk where
  value _ := .ok .null
  chunk _ := .ok (ChatCompletionAccumulator.chunkOf [])

/-- One chunk and the sentinel, cut inside the field of the sentinel and not at all. -/
theorem legacyStreams_protocol_cut :
    (∃ frame ∈ reachedFrames .default
        ([utf8 "data: {}

da", utf8 "ta: [DONE]

"].map (.ok : Bytes → Except Unit Bytes)),
      frame.data = utf8 "[DONE]") ∧
    collectFinal (fun _ => some ()) (chatCompletionEventStream ⟨200, none⟩ plainJson .default
        ([utf8 "data: {}

da", utf8 "ta: [DONE]

"].map (.ok : Bytes → Except Unit Bytes))) =
      collectFinal (fun _ => some ()) (chatCompletionEventStream ⟨200, none⟩ plainJson .default
        ([utf8 "data: {}

data: [DONE]

"].map .ok)) := by
  have hprotocol := @legacyStreams_protocol Unit Unit Unit ⟨200, none⟩ plainJson
    ⟨fun _ => .error (), fun _ => .error ()⟩ (fun _ => some ()) .default
  exact ⟨hprotocol.2.2.1 _ () (by decide), hprotocol.2.2.2 _ _ (by decide)⟩

end Protocol

end OpenaiRs.Legacy
