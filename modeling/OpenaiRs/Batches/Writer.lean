import OpenaiRs.Rust.Str
import OpenaiRs.Serde.Value

/-!
# The batch JSONL writer

`BatchJsonlWriter` of `openai-rs-types/src/batches.rs`.

## Implementation notes

The underlying writer is the list of bytes that it has accepted. Each `write_all` comes with the
answer that it gets: everything is accepted, or a prefix is and then the write fails. The encoding
of a line and the parsing of a JSON text are `serde_json`'s and stay parameters. The set of custom
ids is the list of its members.
-/

namespace OpenaiRs.Batches

open Rust Serde

section Types

inductive BatchEndpoint where
  | responses
  | chatCompletions
  | embeddings
  | completions
  | moderations
  | imageGenerations
  | imageEdits
  | videos
  | unknown (value : String)
  deriving DecidableEq

def BatchEndpoint.asStr : BatchEndpoint → String
  | .responses => "/v1/responses"
  | .chatCompletions => "/v1/chat/completions"
  | .embeddings => "/v1/embeddings"
  | .completions => "/v1/completions"
  | .moderations => "/v1/moderations"
  | .imageGenerations => "/v1/images/generations"
  | .imageEdits => "/v1/images/edits"
  | .videos => "/v1/videos"
  | .unknown value => value

/-- One request line; `rest` is its method and its unknown fields. -/
structure BatchLine (O R : Type) where
  customId : String
  url : BatchEndpoint
  body : O
  rest : R
  deriving DecidableEq

inductive BatchJsonlError where
  | io (line : Nat) (source : String)
  | encode (line : Nat) (source : String)
  | nonObjectBody (line : Nat)
  | decode (line : Nat) (source : String)
  | emptyLine (line : Nat)
  | lineTooLong (line : Nat) (limit : Nat)
  | inputTooLarge (limit : Nat)
  | tooManyLines (limit : Nat)
  | duplicateCustomId (line : Nat) (customId : String)
  | emptyCustomId (line : Nat)
  | mixedEndpoints (line : Nat) (expected actual : String)
  | poisoned
  deriving DecidableEq

def BatchJsonlError.isIo : BatchJsonlError → Bool
  | .io _ _ => true
  | _ => false

def maxBatchInputLines : Nat := 50000
def maxBatchInputBytes : Nat := 200000000
def defaultBatchJsonlLineLimit : Nat := maxBatchInputBytes

/-- What `write_all` does. -/
inductive WriteAnswer where
  | accepted
  | failed (count : Nat) (source : String)

/-- The bytes that the underlying writer accepts. -/
def WriteAnswer.take (answer : WriteAnswer) (bytes : Bytes) : Bytes :=
  match answer with
  | .accepted => bytes
  | .failed count _ => bytes.take count

/-- `serde_json::to_vec` on a line and `serde_json::from_slice` to a value. -/
structure Json (O R : Type) where
  toVec : BatchLine O R → Except String Bytes
  fromSlice : Bytes → Except String Value

structure BatchJsonlWriter where
  /-- The bytes that the underlying writer has accepted. -/
  writer : Bytes
  lineCount : Nat
  byteCount : Nat
  maxLines : Nat
  maxBytes : Nat
  maxLineBytes : Nat
  customIds : List String
  endpoint : Option BatchEndpoint
  poisoned : Bool

end Types

section Writer

namespace BatchJsonlWriter

def new : BatchJsonlWriter where
  writer := []
  lineCount := 0
  byteCount := 0
  maxLines := maxBatchInputLines
  maxBytes := maxBatchInputBytes
  maxLineBytes := defaultBatchJsonlLineLimit
  customIds := []
  endpoint := none
  poisoned := false

def withLimits (w : BatchJsonlWriter) (maxLines maxBytes maxLineBytes : Nat) : BatchJsonlWriter :=
  { w with maxLines := maxLines, maxBytes := maxBytes, maxLineBytes := maxLineBytes }

variable {O R : Type} (json : Json O R)

/-- The body of the encoded line is a JSON object. -/
def isObjectBody (value : Value) : Bool :=
  ((value.asObject.bind fun members => Map.get members "body").bind Value.asObject).isSome

/-- The checks in front of the encoding. -/
def checkLine (w : BatchJsonlWriter) (line : BatchLine O R) : Except BatchJsonlError Unit :=
  let nextLine := saturatingAdd w.lineCount 1
  if w.poisoned then .error .poisoned
  else if w.maxLines < nextLine then .error (.tooManyLines w.maxLines)
  else if line.customId.isEmpty then .error (.emptyCustomId nextLine)
  else if line.customId ∈ w.customIds then .error (.duplicateCustomId nextLine line.customId)
  else
    match w.endpoint with
    | none => .ok ()
    | some expected =>
        if expected ≠ line.url then
          .error (.mixedEndpoints nextLine expected.asStr line.url.asStr)
        else .ok ()

/-- The encoding of a line and the checks on it. -/
def encodeLine (w : BatchJsonlWriter) (line : BatchLine O R) : Except BatchJsonlError Bytes :=
  let nextLine := saturatingAdd w.lineCount 1
  match json.toVec line with
  | .error source => .error (.encode nextLine source)
  | .ok encoded =>
      match json.fromSlice encoded with
      | .error source => .error (.encode nextLine source)
      | .ok value =>
          if !isObjectBody value then .error (.nonObjectBody nextLine)
          else if w.maxLineBytes < encoded.length then .error (.lineTooLong nextLine w.maxLineBytes)
          else if w.maxBytes < saturatingAdd w.byteCount (saturatingAdd encoded.length 1) then
            .error (.inputTooLarge w.maxBytes)
          else .ok encoded

/-- The two writes of a record. -/
def writeRecord (w : BatchJsonlWriter) (encoded : Bytes) (body newline : WriteAnswer) :
    Bytes × Except String Unit :=
  match body with
  | .failed _ source => (w.writer ++ body.take encoded, .error source)
  | .accepted =>
      match newline with
      | .failed _ source => (w.writer ++ encoded ++ newline.take [lf], .error source)
      | .accepted => (w.writer ++ encoded ++ [lf], .ok ())

def writeLine (w : BatchJsonlWriter) (line : BatchLine O R) (body newline : WriteAnswer) :
    BatchJsonlWriter × Except BatchJsonlError Unit :=
  match w.checkLine line with
  | .error e => (w, .error e)
  | .ok () =>
      match w.encodeLine json line with
      | .error e => (w, .error e)
      | .ok encoded =>
          let nextLine := saturatingAdd w.lineCount 1
          match w.writeRecord encoded body newline with
          | (writer, .error source) =>
              ({ w with writer := writer, poisoned := true }, .error (.io nextLine source))
          | (writer, .ok ()) =>
              ({ w with
                  writer := writer
                  customIds := line.customId :: w.customIds
                  endpoint := w.endpoint.or (some line.url)
                  lineCount := nextLine
                  byteCount := saturatingAdd w.byteCount (saturatingAdd encoded.length 1) },
                .ok ())

/-- `flush`; the underlying writer fails with the given error, if any. -/
def flush (w : BatchJsonlWriter) (failure : Option String) :
    BatchJsonlWriter × Except BatchJsonlError Unit :=
  if w.poisoned then (w, .error .poisoned)
  else
    match failure with
    | some source => ({ w with poisoned := true }, .error (.io (saturatingAdd w.lineCount 1) source))
    | none => (w, .ok ())

end BatchJsonlWriter

end Writer

end OpenaiRs.Batches
