import OpenaiRs.Rust.Str
import OpenaiRs.Text.Incremental

/-!
# The byte-at-a-time SSE decoder of the direct Codex transport

The private decoder of `openai-rs-codex/src/direct/sse.rs`. It keeps the current
physical line, a flag for a CR that already ended its line, and the length of a
byte order mark prefix that is replayed when it turns out to be content.

## Implementation notes

The `output` vector passed down by the source is returned: each function gives
the items it pushes. On an error `feed` and `finish` return the error alone, so
the items collected by the same call are dropped, as in the source.
-/

namespace OpenaiRs.Direct

open Rust Text

/-- Byte prefix that a UTF-8 BOM must match at the stream start. -/
def utf8Bom : Bytes := [0xEF, 0xBB, 0xBF]

inductive SseItem where
  | data (payload : Bytes)
  | done
  deriving DecidableEq, Repr

/-- `DirectError::Sse`, the only error of this decoder, with its message. -/
structure SseError where
  message : String
  deriving DecidableEq, Repr

/-- The event being assembled, and whether the sentinel was seen. -/
structure PendingEvent where
  data : Bytes
  hasData : Bool
  done : Bool
  deriving DecidableEq, Repr

namespace PendingEvent

/-- Hand over the assembled event, if it had a `data` field. -/
def dispatch (p : PendingEvent) : PendingEvent × List SseItem :=
  if p.done then ({ p with data := [], hasData := false }, [])
  else if !p.hasData then (p, [])
  else if p.data = utf8 "[DONE]" then
    ({ p with data := [], hasData := false, done := true }, [.done])
  else ({ p with data := [], hasData := false }, [.data p.data])

/-- Append one `data` value, bounding the joined length. -/
def pushData (maxEventBytes : UInt64) (p : PendingEvent) (value : Bytes) :
    Except SseError PendingEvent :=
  let separatorBytes := if p.hasData then 1 else 0
  match (checkedAdd p.data.length separatorBytes).bind
      (fun len => checkedAdd len value.length) with
  | none => .error ⟨"event exceeded size limit"⟩
  | some nextLen =>
      if maxEventBytes.toNat < nextLen then .error ⟨"event exceeded size limit"⟩
      else
        let separated := if p.hasData then p.data ++ [lf] else p.data
        .ok { p with data := separated ++ value, hasData := true }

/-- Interpret one physical line; comments are skipped before UTF-8 validation. -/
def processLine (maxEventBytes : UInt64) (p : PendingEvent) (lineBytes : Bytes) :
    Except SseError (PendingEvent × List SseItem) :=
  if lineBytes.isEmpty then .ok p.dispatch
  else if lineBytes.head? = some colon then .ok (p, [])
  else
    match fromUtf8 lineBytes with
    | .error _ => .error ⟨"event line was not UTF-8"⟩
    | .ok line =>
        let (field, value) := (splitOnce colon line).getD (line, [])
        if field = utf8 "data" then
          match p.pushData maxEventBytes ((stripPrefix space value).getD value) with
          | .error e => .error e
          | .ok p => .ok (p, [])
        else .ok (p, [])

end PendingEvent

structure SseDecoder extends PendingEvent where
  line : Bytes
  maxLineBytes : UInt64
  maxEventBytes : UInt64
  bomChecked : Bool
  bomLen : Nat
  afterCr : Bool
  deriving DecidableEq, Repr

namespace SseDecoder

def new (maxLineBytes maxEventBytes : UInt64) : SseDecoder where
  data := []
  hasData := false
  done := false
  line := []
  maxLineBytes := maxLineBytes
  maxEventBytes := maxEventBytes
  bomChecked := false
  bomLen := 0
  afterCr := false

/-- The error of a content byte beyond the physical-line limit. -/
def lineExceeded (limit : Nat) : SseError := ⟨s!"line exceeded the {limit}-byte limit"⟩

def terminateLine (d : SseDecoder) : SseDecoder × Except SseError (List SseItem) :=
  let line := d.line
  let d := { d with line := [] }
  match d.toPendingEvent.processLine d.maxEventBytes line with
  | .error e => (d, .error e)
  | .ok (p, items) => ({ d with toPendingEvent := p }, .ok items)

/-- Advance the tokenizer by one content byte. -/
def pushLineByte (d : SseDecoder) (byte : UInt8) :
    SseDecoder × Except SseError (List SseItem) :=
  if byte = cr then { d with afterCr := true }.terminateLine
  else if byte = lf then
    if !d.afterCr then
      match d.terminateLine with
      | (d, .error e) => (d, .error e)
      | (d, .ok items) => ({ d with afterCr := false }, .ok items)
    else ({ d with afterCr := false }, .ok [])
  else
    let d := { d with afterCr := false }
    if d.maxLineBytes.toNat ≤ d.line.length then (d, .error (lineExceeded d.maxLineBytes.toNat))
    else ({ d with line := d.line ++ [byte] }, .ok [])

/-- The loop that replays a byte order mark prefix. -/
def pushLineBytes (d : SseDecoder) (bytes : Bytes) :
    SseDecoder × Except SseError (List SseItem) :=
  feedAll pushLineByte d bytes

/-- The body of the loop of `feed`. -/
def feedByte (d : SseDecoder) (byte : UInt8) : SseDecoder × Except SseError (List SseItem) :=
  if !d.bomChecked then
    if utf8Bom[d.bomLen]? = some byte then
      let d := { d with bomLen := d.bomLen + 1 }
      (if d.bomLen = utf8Bom.length then { d with bomChecked := true } else d, .ok [])
    else
      match { d with bomChecked := true }.pushLineBytes (utf8Bom.take d.bomLen) with
      | (d, .error e) => (d, .error e)
      | (d, .ok items) => joinOutputs items (d.pushLineByte byte)
  else d.pushLineByte byte

/-- Feed a chunk; bytes behind the sentinel are not looked at. -/
def feed (d : SseDecoder) : Bytes → SseDecoder × Except SseError (List SseItem)
  | [] => (d, .ok [])
  | byte :: rest =>
      if d.done then (d, .ok [])
      else
        match d.feedByte byte with
        | (d, .error e) => (d, .error e)
        | (d, .ok items) => joinOutputs items (feed d rest)

/-- The second half of `finish`: process the last line and flush the event. -/
def flush (d : SseDecoder) : SseDecoder × Except SseError (List SseItem) :=
  let processed := if d.line.isEmpty then (d, Except.ok []) else d.terminateLine
  match processed with
  | (d, .error e) => (d, .error e)
  | (d, .ok last) =>
      if d.hasData then
        let (p, flushed) := d.toPendingEvent.dispatch
        ({ d with toPendingEvent := p }, .ok (last ++ flushed))
      else (d, .ok last)

/-- Replay an undecided BOM prefix, process the last line, flush the event. -/
def finish (d : SseDecoder) : SseDecoder × Except SseError (List SseItem) :=
  let replayed :=
    if !d.bomChecked then { d with bomChecked := true }.pushLineBytes (utf8Bom.take d.bomLen)
    else (d, Except.ok [])
  match replayed with
  | (d, .error e) => (d, .error e)
  | (d, .ok items) => joinOutputs items d.flush

/-- Feed the chunks in order up to the first error, then finish. -/
def decode (d : SseDecoder) (chunks : List Bytes) : Except SseError (List SseItem) :=
  decodeAll feed (fun d => d.finish.2) d chunks

end SseDecoder

end OpenaiRs.Direct
