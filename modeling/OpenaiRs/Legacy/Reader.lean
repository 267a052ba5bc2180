import OpenaiRs.Responses.EventStream
import OpenaiRs.Serde.Value

/-!
# The loop of the legacy streams

`ChatCompletionEventStream` of `openai-rs-client/src/chat_stream.rs` and `CompletionEventStream` of
`completions.rs` are one loop at two types of chunks. A stream is complete when it ends without an error,
so what it yields is compared with the frames that the decoder reaches: a chunk for each of them, and an
error unless the sentinel is met.
-/

namespace OpenaiRs.Legacy

open Rust Sse
open Serde (Value Map)
open Responses (ResponseMeta Error)

variable {Transport Json Chunk : Type}

section Stream

variable (info : ResponseMeta) (decode : Bytes → Except (Error Transport Json) Chunk)

def remoteError (frame : SseFrame) : Error Transport Json := .stream info.requestId frame.data

/-- The item of a dispatch, and whether the loop returns behind it. -/
def chunkItem : SseDispatch → Except (Error Transport Json) Chunk × Bool
  | .event frame | .terminal frame =>
      match decode frame.data with
      | .ok chunk => (.ok chunk, false)
      | .error e => (.error e, true)
  | .remoteError frame => (.error (remoteError info frame), true)

/-- The JSON decoders: a value of a text, and a chunk of a value. -/
structure ChunkJson (Json Chunk : Type) where
  value : Bytes → Except Json Value
  chunk : Value → Except Json Chunk

/-- Whether an in-band `error` member marks the frame as a remote error. -/
def errorIsTruthy : Value → Bool
  | .null => false
  | .bool flag => flag
  | .number number => number.asF64 != 0.0
  | .string text => !text.isEmpty
  | .array items => !items.isEmpty
  | .object fields => !fields.isEmpty

/-- A value with an `error` member that is truthy. -/
def hasError (value : Value) : Bool := (value.asObject.bind (·.get "error")).any errorIsTruthy

def decodeChunk (json : ChunkJson Json Chunk) (data : Bytes) : Except (Error Transport Json) Chunk :=
  match json.value data with
  | .error source => .error (.decode source info.status info.requestId data)
  | .ok value =>
      if hasError value then .error (.stream info.requestId data)
      else
        match json.chunk value with
        | .error source => .error (.decode source info.status info.requestId data)
        | .ok chunk => .ok chunk

/-- The loop over the chunks and the flush of `from_response`. -/
def legacyReader : Reader Transport (Except (Error Transport Json) Chunk) where
  onPushed := chunkItem info decode
  onFlushed := chunkItem info decode
  onSseError source := .error (.sse source info.requestId)
  onTransportError source := .error (.responseBody source info.status info.requestId)

/-- Everything a legacy stream yields for the chunks of a response body. -/
def legacyStream (limits : SseLimits) (chunks : List (Except Transport Bytes)) :
    List (Except (Error Transport Json) Chunk) :=
  (legacyReader info decode).readChunks (SseStreamDecoder.new limits .legacyDone) chunks

end Stream

section Frames

/-- The frames that the decoder reaches on a body. -/
def reachedFrames (limits : SseLimits) (chunks : List (Except Transport Bytes)) : List SseFrame :=
  ((SseStreamDecoder.new limits .legacyDone).trace (Reader.calls chunks)).frames

variable (info : ResponseMeta) (decode : Bytes → Except (Error Transport Json) Chunk)

/-- What is yielded for some frames, if an error follows behind them. -/
def itemsUntil (e : Error Transport Json) : List SseFrame → List (Except (Error Transport Json) Chunk)
  | [] => [.error e]
  | frame :: rest =>
      if frame.data = utf8 "[DONE]" then []
      else if frame.event = some (utf8 "error") then [.error (remoteError info frame)]
      else
        match decode frame.data with
        | .error e => [.error e]
        | .ok chunk => .ok chunk :: itemsUntil e rest

variable {info decode}

/-- The classes of a frame under the policy of the legacy streams. -/
theorem classify_legacyDone (frame : SseFrame) :
    SseEndpointPolicy.legacyDone.classify frame =
      if frame.data = utf8 "[DONE]" then .consumedTerminal
      else if frame.event = some (utf8 "error") then .remoteError
      else .event := by
  have hpolicy : SseEndpointPolicy.legacyDone =
      ⟨.requireTerminal, [], [utf8 "[DONE]"], [utf8 "error"]⟩ := rfl
  rw [hpolicy, SseEndpointPolicy.classify]
  obtain ⟨event, data, id, retry⟩ := frame
  cases event with
  | none => simp
  | some event => simp

theorem deliverItems_event (frame : SseFrame) (behind : List (Except (Error Transport Json) Chunk)) :
    deliverItems (chunkItem info decode) [.event frame] behind =
      match decode frame.data with
      | .error e => [.error e]
      | .ok chunk => .ok chunk :: behind := by
  rw [deliverItems_cons, deliverItems_nil, chunkItem]
  cases decode frame.data with
  | error e => rfl
  | ok chunk => rfl

/-- Ordinary events in front of what is yielded until an error. -/
theorem deliverItems_itemsUntil {frames : List SseFrame}
    (h : ∀ frame ∈ frames, SseEndpointPolicy.legacyDone.classify frame = .event)
    (e : Error Transport Json) (rest : List SseFrame) :
    deliverItems (chunkItem info decode) (frames.map .event) (itemsUntil info decode e rest) =
      itemsUntil info decode e (frames ++ rest) := by
  induction frames with
  | nil => rfl
  | cons frame frames ih =>
      have hclass := h frame (.head _)
      have hrest := ih (fun later hmem => h later (.tail _ hmem))
      rw [classify_legacyDone] at hclass
      rw [List.map_cons, ← List.singleton_append, deliverItems_append, hrest, deliverItems_event,
        List.cons_append, itemsUntil]
      split_ifs at hclass ⊢
      rfl

/-- What is yielded for an outcome of the decoder. -/
theorem deliverOutcome_classifyRun (error : Option SseDecodeError) (frames : List SseFrame) :
    ∃ e, (legacyReader info decode : Reader Transport _).deliverOutcome (chunkItem info decode)
        (classifyRun .legacyDone error frames) =
      itemsUntil info decode e (SseEndpointPolicy.legacyDone.seen frames) := by
  induction frames with
  | nil =>
      cases error with
      | none => exact ⟨_, rfl⟩
      | some e => exact ⟨_, rfl⟩
  | cons frame rest ih =>
      obtain ⟨e, hrest⟩ := ih
      refine ⟨e, ?_⟩
      have hclass := classify_legacyDone frame
      rw [classifyRun, SseEndpointPolicy.seen]
      split_ifs at hclass with hdone herror
      · simp only [hclass, reduceCtorEq, if_false]
        rw [itemsUntil, if_pos hdone]
        rfl
      · simp only [hclass, reduceCtorEq, if_false]
        rw [itemsUntil, if_neg hdone, if_pos herror, Reader.deliverOutcome, Option.map_none,
          Option.toList_none, deliverItems_last]
        rfl
      · simp only [hclass, if_true]
        rw [Reader.deliverOutcome_after, hrest]
        have hone : ∀ f ∈ [frame], SseEndpointPolicy.legacyDone.classify f = .event := by
          simpa using hclass
        exact deliverItems_itemsUntil hone e _

/-- A legacy stream yields what the frames that the decoder reaches ask for. -/
theorem readChunks_itemsUntil {s : SseStreamDecoder} (hpolicy : s.policy = .legacyDone) (h : s.Running)
    (chunks : List (Except Transport Bytes)) :
    ∃ e, (legacyReader info decode).readChunks s chunks =
      itemsUntil info decode e (s.trace (Reader.calls chunks)).frames := by
  induction chunks generalizing s with
  | nil =>
      obtain ⟨e, heq⟩ := @deliverOutcome_classifyRun Transport Json Chunk info decode
        (s.decoder.remaining []).2 (s.decoder.remaining []).1
      refine ⟨e, ?_⟩
      change Reader.readEof _ s = itemsUntil info decode e (s.finishLog.2.frames ++ [])
      rw [List.append_nil, SseStreamDecoder.finishLog_frames h, Reader.readEof_eq,
        SseStreamDecoder.finish_outcome h, SseStreamDecoder.outcome, SseStreamDecoder.decoded, hpolicy]
      exact heq
  | cons chunk rest ih =>
      cases chunk with
      | error e => exact ⟨_, rfl⟩
      | ok chunk =>
          change ∃ e, _ = itemsUntil info decode e ((s.pushLog chunk).2.frames ++
            ((s.pushLog chunk).1.trace (Reader.calls rest)).frames)
          rcases Reader.readChunks_cases (r := legacyReader info decode) h chunk rest with
            ⟨hrunning, hafter, hevents, hdispatches, -, hread⟩ | ⟨hend, hframes, hread⟩
          · obtain ⟨e, hrest⟩ := ih (hafter.trans hpolicy) hrunning
            refine ⟨e, ?_⟩
            rw [hread, hdispatches, hrest]
            exact deliverItems_itemsUntil (hpolicy ▸ hevents) e _
          · obtain ⟨e, heq⟩ := @deliverOutcome_classifyRun Transport Json Chunk info decode
              (s.decoder.remaining (chunk ++ [])).2 (s.decoder.remaining (chunk ++ [])).1
            refine ⟨e, ?_⟩
            rw [SseStreamDecoder.trace_closed hend, List.append_nil, ← hframes [], hread [],
              SseStreamDecoder.outcome, SseStreamDecoder.decoded, hpolicy]
            exact heq

end Frames

section Protocol

/-- The frame is no sentinel, is not named `error`, and gives this chunk. -/
def Gives (decode : Bytes → Except (Error Transport Json) Chunk) (frame : SseFrame) (chunk : Chunk) : Prop :=
  frame.data ≠ utf8 "[DONE]" ∧ frame.event ≠ some (utf8 "error") ∧ decode frame.data = .ok chunk

/-- What is left of the frames where the chunks end, and the error in their place: nothing is left, or a
frame that gives no chunk. -/
def EndsAt (info : ResponseMeta) (decode : Bytes → Except (Error Transport Json) Chunk) :
    List SseFrame → Option (Error Transport Json) → Prop
  | [], closing => closing ≠ none
  | frame :: _, closing =>
      if frame.data = utf8 "[DONE]" then closing = none
      else if frame.event = some (utf8 "error") then closing = some (remoteError info frame)
      else ∃ e, decode frame.data = .error e ∧ closing = some e

/-- A chunk for each frame in order, up to the first that gives none, and then at most one error. -/
def OnePerFrame (info : ResponseMeta) (decode : Bytes → Except (Error Transport Json) Chunk)
    (frames : List SseFrame) (items : List (Except (Error Transport Json) Chunk)) : Prop :=
  ∃ decoded rest chunks closing, frames = decoded ++ rest ∧ List.Forall₂ (Gives decode) decoded chunks ∧
    EndsAt info decode rest closing ∧ items = chunks.map .ok ++ (Option.map .error closing).toList

/-- The sentinel is reached behind frames that are well formed and are not named `error`. -/
def Completes (WellFormed : Bytes → Prop) (frames : List SseFrame) : Prop :=
  ∃ before done rest, frames = before ++ done :: rest ∧ done.data = utf8 "[DONE]" ∧
    ∀ frame ∈ before, frame.event ≠ some (utf8 "error") ∧ WellFormed frame.data

/-- A chunk that carries no error. -/
def ChunkJson.WellFormed (json : ChunkJson Json Chunk) (data : Bytes) : Prop :=
  ∃ value chunk, json.value data = .ok value ∧ hasError value = false ∧ json.chunk value = .ok chunk

variable {info : ResponseMeta} {decode : Bytes → Except (Error Transport Json) Chunk}

theorem onePerFrame_single {frames : List SseFrame} (closing : Option (Error Transport Json))
    (h : EndsAt info decode frames closing) :
    OnePerFrame info decode frames (Option.map .error closing).toList :=
  ⟨[], frames, [], closing, rfl, .nil, h, rfl⟩

theorem OnePerFrame.cons {frame : SseFrame} {chunk : Chunk} {frames : List SseFrame}
    {items : List (Except (Error Transport Json) Chunk)} (hgives : Gives decode frame chunk)
    (h : OnePerFrame info decode frames items) : OnePerFrame info decode (frame :: frames) (.ok chunk :: items) := by
  obtain ⟨decoded, rest, chunks, closing, rfl, hdecoded, hends, rfl⟩ := h
  exact ⟨frame :: decoded, rest, chunk :: chunks, closing, rfl, .cons hgives hdecoded, hends, rfl⟩

theorem itemsUntil_onePerFrame (e : Error Transport Json) (frames : List SseFrame) :
    OnePerFrame info decode frames (itemsUntil info decode e frames) := by
  induction frames with
  | nil => exact onePerFrame_single (some e) (Option.some_ne_none e)
  | cons frame rest ih =>
      rw [itemsUntil]
      split_ifs with hdone herror
      · exact onePerFrame_single none (by simp only [EndsAt, if_pos hdone])
      · exact onePerFrame_single (some _) (by simp only [EndsAt, if_neg hdone, if_pos herror])
      · cases hdecode : decode frame.data with
        | error e =>
            apply onePerFrame_single (some e)
            simp only [EndsAt, if_neg hdone, if_neg herror]
            exact ⟨e, hdecode, rfl⟩
        | ok chunk => exact ih.cons ⟨hdone, herror, hdecode⟩

theorem itemsUntil_ok_iff (e : Error Transport Json) (frames : List SseFrame) :
    (∀ item ∈ itemsUntil info decode e frames, ∃ chunk, item = .ok chunk) ↔
      Completes (fun data => ∃ chunk, decode data = .ok chunk) frames := by
  constructor
  · intro hok
    induction frames with
    | nil =>
        obtain ⟨chunk, hchunk⟩ := hok _ (.head _)
        cases hchunk
    | cons frame rest ih =>
        rw [itemsUntil] at hok
        split_ifs at hok with hdone herror
        · exact ⟨[], frame, rest, rfl, hdone, by simp⟩
        · obtain ⟨chunk, hchunk⟩ := hok _ (.head _)
          cases hchunk
        · cases hdecode : decode frame.data with
          | error e =>
              rw [hdecode] at hok
              obtain ⟨chunk, hchunk⟩ := hok _ (.head _)
              cases hchunk
          | ok chunk =>
              rw [hdecode] at hok
              obtain ⟨before, done, later, rfl, hdata, hbefore⟩ :=
                ih (fun item hitem => hok item (.tail _ hitem))
              refine ⟨frame :: before, done, later, rfl, hdata, ?_⟩
              exact List.forall_mem_cons.mpr ⟨⟨herror, chunk, hdecode⟩, hbefore⟩
  · rintro ⟨before, done, later, rfl, hdata, hbefore⟩
    induction before with
    | nil =>
        rw [List.nil_append, itemsUntil, if_pos hdata]
        simp
    | cons frame before ih =>
        obtain ⟨⟨herror, chunk, hdecode⟩, hrest⟩ := List.forall_mem_cons.mp hbefore
        rw [List.cons_append, itemsUntil, if_neg herror, hdecode]
        split_ifs
        · simp
        · exact List.forall_mem_cons.mpr ⟨⟨chunk, rfl⟩, ih hrest⟩

/-- The frames that decode are the well-formed ones. -/
theorem decodeChunk_ok_iff (info : ResponseMeta) (json : ChunkJson Json Chunk) (data : Bytes) :
    (∃ chunk, (decodeChunk info json data : Except (Error Transport Json) Chunk) = .ok chunk) ↔
      json.WellFormed data := by
  rw [decodeChunk, ChunkJson.WellFormed]
  cases json.value data with
  | error source => simp
  | ok value =>
      cases herror : hasError value with
      | true => simp [herror]
      | false =>
          cases hchunk : json.chunk value with
          | error source => simp [herror, hchunk]
          | ok chunk => simp [herror, hchunk]

/-- What a legacy stream promises for all bodies, chunkings and ends. -/
structure LegacyProtocol (info : ResponseMeta) (json : ChunkJson Json Chunk) (limits : SseLimits)
    (stream : List (Except Transport Bytes) → List (Except (Error Transport Json) Chunk)) : Prop where
  onePerFrame : ∀ chunks, OnePerFrame info (decodeChunk info json) (reachedFrames limits chunks) (stream chunks)
  complete : ∀ chunks, (∀ item ∈ stream chunks, ∃ chunk, item = .ok chunk) ↔
    Completes json.WellFormed (reachedFrames limits chunks)
  unchunked : ∀ chunks chunks' : List Bytes, chunks.flatten = chunks'.flatten →
    stream (chunks.map .ok) = stream (chunks'.map .ok)

theorem legacyStream_protocol (info : ResponseMeta) (json : ChunkJson Json Chunk) (limits : SseLimits) :
    LegacyProtocol info json limits
      (legacyStream info (decodeChunk info json) limits : List (Except Transport Bytes) → _) := by
  have hrunning := SseStreamDecoder.running_new limits .legacyDone
  have hitems : ∀ chunks : List (Except Transport Bytes), ∃ e,
      legacyStream info (decodeChunk info json) limits chunks =
        itemsUntil info (decodeChunk info json) e (reachedFrames limits chunks) := fun chunks =>
    readChunks_itemsUntil rfl hrunning chunks
  refine ⟨fun chunks => ?_, fun chunks => ?_, fun chunks chunks' h => ?_⟩
  · obtain ⟨e, heq⟩ := hitems chunks
    rw [heq]
    exact itemsUntil_onePerFrame e _
  · obtain ⟨e, heq⟩ := hitems chunks
    have hwellFormed := funext fun data => propext (@decodeChunk_ok_iff Transport Json Chunk info json data)
    rw [heq, itemsUntil_ok_iff, hwellFormed]
  · have hread := fun chunks => Reader.readChunks_eq_of_same
      (r := (legacyReader info (decodeChunk info json) : Reader Transport _)) rfl hrunning chunks
    calc
      legacyStream info (decodeChunk info json) limits (chunks.map .ok) =
          (legacyReader info (decodeChunk info json)).deliverOutcome _ _ := hread chunks
      _ = (legacyReader info (decodeChunk info json)).deliverOutcome _ _ := by rw [h]
      _ = legacyStream info (decodeChunk info json) limits (chunks'.map .ok) := (hread chunks').symm

end Protocol

end OpenaiRs.Legacy
