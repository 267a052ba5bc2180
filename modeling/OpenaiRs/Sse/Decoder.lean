import OpenaiRs.Rust.Str
import OpenaiRs.Text.Incremental

/-!
# The bounded incremental SSE parser

The low-level decoder of `openai-rs-client/src/sse.rs`. Bytes are appended to a
line buffer; complete lines are drained from it and update the registers of the
event being assembled.

## Implementation notes

A method on `&mut self` that returns a `Result` becomes a function to the new
decoder paired with an `Except`, so the decoder is known on the error path too.
The `frames` vector passed down by the source is returned: each function gives
the frames it pushes. `usize` limits are `UInt64`; lengths are natural numbers
and `checkedAdd` keeps the overflow branch. The `while` loop over complete lines
takes the buffer length as its bound.
-/

namespace OpenaiRs.Sse

open Rust Text

/-- The UTF-8 byte order mark. -/
def utf8Bom : Bytes := [0xEF, 0xBB, 0xBF]

/-- Caller-owned chunks are copied in pieces of this size. -/
def feedSliceBytes : Nat := 8 * 1024

/-- Lifecycle of the low-level parser. -/
inductive SseDecoderState where
  | active
  | finished
  | failed
  deriving DecidableEq, Repr

/-- Lifecycle of an endpoint-aware stream decoder. -/
inductive SseStreamState where
  | active
  | completed
  | remoteError
  | failed
  deriving DecidableEq, Repr

/-- Errors raised while decoding an SSE byte stream. -/
inductive SseDecodeError where
  | invalidLimit (name : String)
  | lineTooLarge (limit : UInt64)
  | eventTooLarge (limit : UInt64)
  | tooManyDataLines (limit : UInt64)
  | invalidUtf8 (validUpTo : Nat) (errorLen : Option Nat)
  | decoderInactive (state : SseDecoderState)
  | streamInactive (state : SseStreamState)
  | unexpectedEof (expected : Bytes)
  deriving DecidableEq, Repr

/-- Resource limits. The fields are private in the source and every constructor
keeps them non-zero. -/
structure SseLimits where
  maxLineBytes : UInt64
  maxEventBytes : UInt64
  maxDataLines : UInt64
  line_pos : 0 < maxLineBytes.toNat
  event_pos : 0 < maxEventBytes.toNat
  data_pos : 0 < maxDataLines.toNat
  deriving DecidableEq

namespace SseLimits

/-- Construct validated limits; the first zero limit is named. -/
def new (maxLineBytes maxEventBytes maxDataLines : UInt64) :
    Except SseDecodeError SseLimits :=
  if hl : 0 < maxLineBytes.toNat then
    if he : 0 < maxEventBytes.toNat then
      if hd : 0 < maxDataLines.toNat then
        .ok ⟨maxLineBytes, maxEventBytes, maxDataLines, hl, he, hd⟩
      else .error (.invalidLimit "max_data_lines")
    else .error (.invalidLimit "max_event_bytes")
  else .error (.invalidLimit "max_line_bytes")

/-- `SseLimits::default`: 32 MiB lines, 32 MiB events, 4096 data fields. -/
def default : SseLimits where
  maxLineBytes := 32 * 1024 * 1024
  maxEventBytes := 32 * 1024 * 1024
  maxDataLines := 4096
  line_pos := by decide
  event_pos := by decide
  data_pos := by decide

end SseLimits

/-- One decoded SSE event. -/
structure SseFrame where
  event : Option Bytes
  data : Bytes
  id : Option Bytes
  retry : Option Duration
  deriving DecidableEq, Repr

/-- The fields of the decoder that `process_line` reads and writes. -/
structure EventRegisters where
  eventName : Option Bytes
  eventData : Bytes
  dataLines : Nat
  lastEventId : Option Bytes
  eventRetry : Option Duration
  reconnectRetry : Option Duration
  deriving DecidableEq, Repr

namespace EventRegisters

/-- The registers of a fresh or cleared decoder. -/
def empty : EventRegisters where
  eventName := none
  eventData := []
  dataLines := 0
  lastEventId := none
  eventRetry := none
  reconnectRetry := none

/-- Append one `data` value, with a separator after the first one. -/
def pushData (limits : SseLimits) (r : EventRegisters) (value : Bytes) :
    Except SseDecodeError EventRegisters :=
  if limits.maxDataLines.toNat ≤ r.dataLines then
    .error (.tooManyDataLines limits.maxDataLines)
  else
    let separatorBytes := if r.dataLines ≠ 0 then 1 else 0
    match (checkedAdd r.eventData.length separatorBytes).bind
        (fun len => checkedAdd len value.length) with
    | none => .error (.eventTooLarge limits.maxEventBytes)
    | some nextLen =>
        if limits.maxEventBytes.toNat < nextLen then
          .error (.eventTooLarge limits.maxEventBytes)
        else
          let separated := if r.dataLines ≠ 0 then r.eventData ++ [lf] else r.eventData
          .ok { r with eventData := separated ++ value, dataLines := r.dataLines + 1 }

/-- Record a reconnection delay, ignoring anything but decimal digits that fit `u64`. -/
def setRetry (r : EventRegisters) (value : Bytes) : EventRegisters :=
  if value.isEmpty || !value.all isAsciiDigit then r
  else
    match parseU64 value with
    | none => r
    | some milliseconds =>
        let delay := Duration.fromMillis milliseconds
        { r with eventRetry := some delay, reconnectRetry := some delay }

/-- Close the event block. A block without `data` field only resets its name and delay. -/
def takeEvent (r : EventRegisters) : EventRegisters × Option SseFrame :=
  if r.dataLines = 0 then
    ({ r with eventName := none, eventRetry := none }, none)
  else
    ({ r with eventName := none, eventData := [], dataLines := 0, eventRetry := none },
      some
        { event := r.eventName
          data := r.eventData
          id := r.lastEventId
          retry := r.eventRetry })

/-- Field name and value of a line that is neither blank nor a comment. -/
def splitField (line : Bytes) : Bytes × Bytes :=
  let parts := (splitOnce colon line).getD (line, [])
  (parts.1, (stripPrefix space parts.2).getD parts.2)

/-- Interpret one physical line, given without its terminator. -/
def processLine (limits : SseLimits) (r : EventRegisters) (rawLine : Bytes) :
    Except SseDecodeError (EventRegisters × List SseFrame) :=
  if limits.maxLineBytes.toNat < rawLine.length then
    .error (.lineTooLarge limits.maxLineBytes)
  else
    match fromUtf8 rawLine with
    | .error e => .error (.invalidUtf8 e.validUpTo e.errorLen)
    | .ok line =>
        if line.isEmpty then
          let (r, frame) := r.takeEvent
          .ok (r, frame.toList)
        else if line.head? = some colon then .ok (r, [])
        else
          let (field, value) := splitField line
          if field = utf8 "event" then
            .ok ({ r with eventName := if value.isEmpty then none else some value }, [])
          else if field = utf8 "data" then
            match r.pushData limits value with
            | .error e => .error e
            | .ok r => .ok (r, [])
          else if field = utf8 "id" ∧ nul ∉ value then
            .ok ({ r with lastEventId := some value }, [])
          else if field = utf8 "retry" then .ok (r.setRetry value, [])
          else .ok (r, [])

end EventRegisters

/-- A bounded incremental SSE parser without endpoint-specific semantics. -/
structure SseDecoder extends EventRegisters where
  limits : SseLimits
  state : SseDecoderState
  lineBuffer : Bytes
  searchFrom : Nat
  bomChecked : Bool
  deriving DecidableEq

namespace SseDecoder

/-- An active decoder with validated limits. -/
def new (limits : SseLimits) : SseDecoder where
  toEventRegisters := EventRegisters.empty
  limits := limits
  state := .active
  lineBuffer := []
  searchFrom := 0
  bomChecked := false

def ensureActive (d : SseDecoder) : Except SseDecodeError Unit :=
  if d.state = .active then .ok () else .error (.decoderInactive d.state)

/-- Release everything retained; the BOM decision is not retained input. -/
def clearRetained (d : SseDecoder) : SseDecoder :=
  { d with toEventRegisters := EventRegisters.empty, lineBuffer := [], searchFrom := 0 }

def fail (d : SseDecoder) : SseDecoder := { d.clearRetained with state := .failed }

/-- Discard buffered input and mark the decoder finished. -/
def close (d : SseDecoder) : SseDecoder :=
  if d.state = .active then { d.clearRetained with state := .finished } else d

/-- Decide the leading BOM; `false` while the buffer may still become one. -/
def ensureBomChecked (d : SseDecoder) (eof : Bool) : SseDecoder × Bool :=
  if d.bomChecked then (d, true)
  else if !eof && d.lineBuffer.length < utf8Bom.length && d.lineBuffer.isPrefixOf utf8Bom then
    (d, false)
  else
    let d :=
      if utf8Bom.isPrefixOf d.lineBuffer then
        { d with
          lineBuffer := d.lineBuffer.drop utf8Bom.length
          searchFrom := d.searchFrom - utf8Bom.length }
      else d
    ({ d with bomChecked := true }, true)

/-- The scan of `next_line` over the bytes from `cursor` on: the end of a line and
the length of its terminator, or the position from which to scan again. -/
def scanFrom (eof : Bool) (cursor : Nat) : Bytes → Nat ⊕ (Nat × Nat)
  | [] => .inl cursor
  | b :: rest =>
      if b = lf then .inr (cursor, 1)
      else if b = cr then
        match rest with
        | next :: _ => .inr (cursor, if next = lf then 2 else 1)
        | [] => if eof then .inr (cursor, 1) else .inl cursor
      else scanFrom eof (cursor + 1) rest

/-- Find the next complete line, remembering where an unsuccessful scan stopped. -/
def nextLine (d : SseDecoder) (eof : Bool) : SseDecoder × Option (Nat × Nat) :=
  let cursor := min d.searchFrom d.lineBuffer.length
  match scanFrom eof cursor (d.lineBuffer.drop cursor) with
  | .inl position => ({ d with searchFrom := position }, none)
  | .inr found => (d, some found)

/-- The loop of `drain_complete_lines`; `fuel` bounds the number of lines. -/
def drainLoop (eof : Bool) : Nat → SseDecoder →
    SseDecoder × Except SseDecodeError (List SseFrame)
  | 0, d => (d, .ok [])
  | fuel + 1, d =>
      match d.nextLine eof with
      | (d, none) => (d, .ok [])
      | (d, some (lineEnd, terminatorLen)) =>
          let line := d.lineBuffer.take lineEnd
          let d := { d with
            lineBuffer := d.lineBuffer.drop (lineEnd + terminatorLen)
            searchFrom := 0 }
          match d.toEventRegisters.processLine d.limits line with
          | .error e => (d, .error e)
          | .ok (r, frames) =>
              match drainLoop eof fuel { d with toEventRegisters := r } with
              | (d, .error e) => (d, .error e)
              | (d, .ok more) => (d, .ok (frames ++ more))

/-- Process every complete line of the buffer. -/
def drainCompleteLines (d : SseDecoder) (eof : Bool) :
    SseDecoder × Except SseDecodeError (List SseFrame) :=
  match d.ensureBomChecked eof with
  | (d, false) => (d, .ok [])
  | (d, true) => drainLoop eof (d.lineBuffer.length + 1) d

/-- Bytes of the incomplete line; a final CR may be a terminator and is not counted. -/
def contentLen (d : SseDecoder) : Nat :=
  if d.lineBuffer.getLast? = some cr then d.lineBuffer.length - 1 else d.lineBuffer.length

/-- Bound the incomplete line; an undecided BOM prefix is framing, not content. -/
def checkIncompleteLineLimit (d : SseDecoder) : Except SseDecodeError Unit :=
  if !d.bomChecked && d.lineBuffer.isPrefixOf utf8Bom then .ok ()
  else if d.limits.maxLineBytes.toNat < d.contentLen then
    .error (.lineTooLarge d.limits.maxLineBytes)
  else .ok ()

/-- One round of `push_inner`: buffer a slice, drain it, bound what is left. -/
def feedSlice (d : SseDecoder) (slice : Bytes) :
    SseDecoder × Except SseDecodeError (List SseFrame) :=
  match { d with lineBuffer := d.lineBuffer ++ slice }.drainCompleteLines false with
  | (d, .error e) => (d, .error e)
  | (d, .ok frames) =>
      match d.checkIncompleteLineLimit with
      | .error e => (d, .error e)
      | .ok () => (d, .ok frames)

/-- The loop of `push_inner` over the slices of a chunk. -/
def feedSlices (d : SseDecoder) (slices : List Bytes) :
    SseDecoder × Except SseDecodeError (List SseFrame) :=
  feedAll feedSlice d slices

def pushInner (d : SseDecoder) (chunk : Bytes) :
    SseDecoder × Except SseDecodeError (List SseFrame) :=
  d.feedSlices (chunks feedSliceBytes chunk)

/-- Feed an arbitrary byte chunk and return every complete event it contains. -/
def push (d : SseDecoder) (chunk : Bytes) :
    SseDecoder × Except SseDecodeError (List SseFrame) :=
  match d.ensureActive with
  | .error e => (d, .error e)
  | .ok () =>
      match d.pushInner chunk with
      | (d, .error e) => (d.fail, .error e)
      | (d, .ok frames) => (d, .ok frames)

/-- Drain at end of input, decode a last unterminated line, flush the pending event. -/
def finishInner (d : SseDecoder) : SseDecoder × Except SseDecodeError (List SseFrame) :=
  match d.drainCompleteLines true with
  | (d, .error e) => (d, .error e)
  | (d, .ok frames) =>
      let processed :=
        if d.lineBuffer.isEmpty then (d, Except.ok [])
        else
          let line := d.lineBuffer
          let d := { d with lineBuffer := [], searchFrom := 0 }
          match d.toEventRegisters.processLine d.limits line with
          | .error e => (d, .error e)
          | .ok (r, last) => ({ d with toEventRegisters := r }, .ok last)
      match processed with
      | (d, .error e) => (d, .error e)
      | (d, .ok last) =>
          let (r, flushed) := d.toEventRegisters.takeEvent
          ({ d with toEventRegisters := r }, .ok (frames ++ last ++ flushed.toList))

/-- Process end of input and return a final event even without its blank line. -/
def finish (d : SseDecoder) : SseDecoder × Except SseDecodeError (List SseFrame) :=
  match d.ensureActive with
  | .error e => (d, .error e)
  | .ok () =>
      match d.finishInner with
      | (d, .ok frames) => ({ d.clearRetained with state := .finished }, .ok frames)
      | (d, .error e) => (d.fail, .error e)

/-- Feed the chunks in order up to the first error, then finish. -/
def decode (d : SseDecoder) (chunks : List Bytes) : Except SseDecodeError (List SseFrame) :=
  decodeAll push (fun d => d.finish.2) d chunks

end SseDecoder

end OpenaiRs.Sse
