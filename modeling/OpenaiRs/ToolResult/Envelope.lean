import OpenaiRs.Serde.Visited

/-!
# The result envelope of a tool call

`ToolResultEnvelope` and `encode_tool_result` of `openai-rs-rmcp/src/result.rs`: how the result of an MCP tool
becomes the text of a function output.

## Implementation notes

The codec of a content block and the texts of JSON values belong to `rmcp` and `serde_json`; they are the fields
of `Codec`. Only a text block is told apart from the other blocks; the annotations and the `_meta` beside its text
are its `rest`. A `ResultType` and a `MetaObject` are the text and the map that they wrap.
-/

namespace OpenaiRs.ToolResult

open Serde

inductive ContentBlock (Rest Rich : Type) where
  | text (text : String) (rest : Rest)
  | rich (block : Rich)
  deriving DecidableEq

def ContentBlock.isText {Rest Rich : Type} : ContentBlock Rest Rich → Bool
  | .text _ _ => true
  | .rich _ => false

/-- `rmcp::model::CallToolResult`. -/
structure CallToolResult (Rest Rich : Type) where
  content : List (ContentBlock Rest Rich)
  structuredContent : Option Value
  isError : Option Bool
  resultType : Option String
  metaObject : Option Map

/-- What the encoder takes from `rmcp` and `serde_json`. -/
structure Codec (Rest Rich Fault : Type) where
  serializeBlock : ContentBlock Rest Rich → Except Fault Value
  deserializeBlock : Value → Option (ContentBlock Rest Rich)
  /-- `serde_json::to_string` for a value. -/
  toString : Value → String
  /-- The document of a text. -/
  fromStr : String → Option Value

inductive ResultEncoding where
  | losslessEnvelope
  | compactWhenPossible
  deriving DecidableEq

inductive BridgeError (Fault : Type) where
  | serializeOutput (source : Fault)
  deriving DecidableEq

@[ext]
structure ToolResultEnvelope (Rest Rich : Type) where
  content : List (ContentBlock Rest Rich)
  structuredContent : Option Value
  isError : Bool
  resultType : Option String
  metaObject : Option Map

structure EncodedToolResult where
  output : String
  isError : Bool
  deriving DecidableEq

variable {Rest Rich Fault : Type}

namespace ToolResultEnvelope

def fromRmcp (result : CallToolResult Rest Rich) : ToolResultEnvelope Rest Rich where
  content := result.content
  structuredContent := result.structuredContent
  isError := result.isError.getD false
  resultType := result.resultType
  metaObject := result.metaObject

variable (codec : Codec Rest Rich Fault)

/-- `skip_serializing_if = "Option::is_none"`. -/
def skipNone (key : String) (value : Option Value) : Map := (value.map (key, ·)).toList

/-- The members that are written besides the content. -/
def tail (envelope : ToolResultEnvelope Rest Rich) : Map :=
  skipNone "structuredContent" envelope.structuredContent ++ [("isError", .bool envelope.isError)] ++
    skipNone "resultType" (envelope.resultType.map .string) ++ skipNone "_meta" (envelope.metaObject.map .object)

def serialize (envelope : ToolResultEnvelope Rest Rich) : Except Fault Value := do
  let content ← envelope.content.mapM codec.serializeBlock
  return .object (("content", .array content) :: envelope.tail)

def keys : List String := ["content", "structuredContent", "isError", "resultType", "_meta"]

def deserialize (document : Value) : Option (ToolResultEnvelope Rest Rich) := do
  let field ← visit keys document
  let content ← (field "content").required fun v => v.asArray.bind (List.mapM codec.deserializeBlock)
  let structuredContent ← (field "structuredContent").optional some
  let isError ← (field "isError").required Value.asBool
  let resultType ← (field "resultType").optional Value.asStr
  let metaObject ← (field "_meta").optional Value.asObject
  return { content, structuredContent, isError, resultType, metaObject }

end ToolResultEnvelope

variable (codec : Codec Rest Rich Fault)

def flattenableStructuredContent (envelope : ToolResultEnvelope Rest Rich) : Option Value :=
  match envelope.structuredContent with
  | none => none
  | some structured => if envelope.content.all ContentBlock.isText then some structured else none

/-- `serde_json::to_string` of an envelope. -/
def envelopeText (envelope : ToolResultEnvelope Rest Rich) : Except (BridgeError Fault) String :=
  match envelope.serialize codec with
  | .error source => .error (.serializeOutput source)
  | .ok value => .ok (codec.toString value)

def compactText (envelope : ToolResultEnvelope Rest Rich) : Except (BridgeError Fault) String :=
  match flattenableStructuredContent envelope with
  | some structured => .ok (codec.toString structured)
  | none =>
      match envelope.content with
      | [.text text _] => .ok text
      | _ => envelopeText codec envelope

def encodeToolResult (result : CallToolResult Rest Rich) (policy : ResultEncoding) :
    Except (BridgeError Fault) EncodedToolResult := do
  let envelope := ToolResultEnvelope.fromRmcp result
  let isError := envelope.isError
  let output ←
    match policy with
    | .compactWhenPossible => if !isError then compactText codec envelope else envelopeText codec envelope
    | .losslessEnvelope => envelopeText codec envelope
  return { output, isError }

end OpenaiRs.ToolResult
