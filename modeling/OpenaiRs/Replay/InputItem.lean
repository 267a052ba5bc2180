import OpenaiRs.Replay.OutputItem

/-!
# Input items

The items of a request and their codec, which is written by hand: `message` is three types, an item without
`type` is a message or a reference.
-/

namespace OpenaiRs.Replay

open Serde

variable {P : Shared → Type} [Payloads P]

structure FunctionCallOutput (P : Shared → Type) where
  kind : LiteralTag "function_call_output"
  callId : Omittable (Nullable String)
  output : FunctionCallOutputParamValue
  id : Omittable (Nullable String)
  name : Omittable (Nullable String)
  nameSpace : Omittable (Nullable String)
  caller : Omittable (Nullable (P .toolCallCaller))
  status : Omittable (Nullable ResponseItemStatus)
  extra : ExtraFields

instance FunctionCallOutput.struct : Struct (FunctionCallOutput P) where
  Declared := _
  fields := .cons "type" <| .cons "call_id" <| .cons "output" <| .cons "id" <| .cons "name" <| .cons "namespace" <|
    .cons "caller" <| .cons "status" .nil
  declared value := (value.kind, value.callId, value.output, value.id, value.name, value.nameSpace, value.caller,
    value.status, ())
  extra value := value.extra
  make := fun (kind, callId, output, id, name, nameSpace, caller, status, ()) extra =>
    { kind, callId, output, id, name, nameSpace, caller, status, extra }

structure ComputerCallOutput (P : Shared → Type) where
  kind : LiteralTag "computer_call_output"
  callId : String
  output : ComputerScreenshot
  id : Omittable (Nullable String)
  status : Omittable (Nullable ResponseItemStatus)
  acknowledgedSafetyChecks : Omittable (Nullable (List (P .computerSafetyCheck)))
  extra : ExtraFields

instance ComputerCallOutput.struct : Struct (ComputerCallOutput P) where
  Declared := _
  fields := .cons "type" <| .cons "call_id" <| .cons "output" <| .cons "id" <| .cons "status" <|
    .cons "acknowledged_safety_checks" .nil
  declared value := (value.kind, value.callId, value.output, value.id, value.status, value.acknowledgedSafetyChecks,
    ())
  extra value := value.extra
  make := fun (kind, callId, output, id, status, acknowledgedSafetyChecks, ()) extra =>
    { kind, callId, output, id, status, acknowledgedSafetyChecks, extra }

structure ToolSearchCallInput where
  kind : LiteralTag "tool_search_call"
  arguments : Value
  id : Omittable (Nullable String)
  callId : Omittable (Nullable String)
  execution : Omittable ToolSearchExecution
  status : Omittable (Nullable ResponseItemStatus)
  extra : ExtraFields

instance ToolSearchCallInput.struct : Struct ToolSearchCallInput where
  Declared := _
  fields := .cons "type" <| .cons "arguments" <| .cons "id" <| .cons "call_id" <| .cons "execution" <|
    .cons "status" .nil
  declared value := (value.kind, value.arguments, value.id, value.callId, value.execution, value.status, ())
  extra value := value.extra
  make := fun (kind, arguments, id, callId, execution, status, ()) extra =>
    { kind, arguments, id, callId, execution, status, extra }

structure ToolSearchOutputInput (P : Shared → Type) where
  kind : LiteralTag "tool_search_output"
  tools : List (P .responseTool)
  id : Omittable (Nullable String)
  callId : Omittable (Nullable String)
  execution : Omittable ToolSearchExecution
  status : Omittable (Nullable ResponseItemStatus)
  extra : ExtraFields

instance ToolSearchOutputInput.struct : Struct (ToolSearchOutputInput P) where
  Declared := _
  fields := .cons "type" <| .cons "tools" <| .cons "id" <| .cons "call_id" <| .cons "execution" <| .cons "status" .nil
  declared value := (value.kind, value.tools, value.id, value.callId, value.execution, value.status, ())
  extra value := value.extra
  make := fun (kind, tools, id, callId, execution, status, ()) extra =>
    { kind, tools, id, callId, execution, status, extra }

structure AdditionalToolsInput (P : Shared → Type) where
  kind : LiteralTag "additional_tools"
  role : MessageRole
  tools : List (P .responseTool)
  id : Omittable (Nullable String)
  extra : ExtraFields

instance AdditionalToolsInput.struct : Struct (AdditionalToolsInput P) where
  Declared := _
  fields := .cons "type" <| .cons "role" <| .cons "tools" <| .cons "id" .nil
  declared value := (value.kind, value.role, value.tools, value.id, ())
  extra value := value.extra
  make := fun (kind, role, tools, id, ()) extra => { kind, role, tools, id, extra }

structure CompactionSummaryInput where
  kind : LiteralTag "compaction"
  encryptedContent : String
  id : Omittable (Nullable String)
  extra : ExtraFields

instance CompactionSummaryInput.struct : Struct CompactionSummaryInput where
  Declared := _
  fields := .cons "type" <| .cons "encrypted_content" <| .cons "id" .nil
  declared value := (value.kind, value.encryptedContent, value.id, ())
  extra value := value.extra
  make := fun (kind, encryptedContent, id, ()) extra => { kind, encryptedContent, id, extra }

structure FunctionShellCallInput (P : Shared → Type) where
  kind : LiteralTag "shell_call"
  callId : String
  action : FunctionShellActionParam
  id : Omittable (Nullable String)
  caller : Omittable (Nullable (P .toolCallCaller))
  status : Omittable (Nullable ResponseItemStatus)
  environment : Omittable (Nullable (P .functionShellEnvironment))
  extra : ExtraFields

instance FunctionShellCallInput.struct : Struct (FunctionShellCallInput P) where
  Declared := _
  fields := .cons "type" <| .cons "call_id" <| .cons "action" <| .cons "id" <| .cons "caller" <| .cons "status" <|
    .cons "environment" .nil
  declared value := (value.kind, value.callId, value.action, value.id, value.caller, value.status, value.environment,
    ())
  extra value := value.extra
  make := fun (kind, callId, action, id, caller, status, environment, ()) extra =>
    { kind, callId, action, id, caller, status, environment, extra }

structure FunctionShellCallOutputInput (P : Shared → Type) where
  kind : LiteralTag "shell_call_output"
  callId : String
  output : List (P .functionShellCallOutputContent)
  id : Omittable (Nullable String)
  caller : Omittable (Nullable (P .toolCallCaller))
  status : Omittable (Nullable ResponseItemStatus)
  maxOutputLength : Omittable (Nullable UInt64)
  extra : ExtraFields

instance FunctionShellCallOutputInput.struct : Struct (FunctionShellCallOutputInput P) where
  Declared := _
  fields := .cons "type" <| .cons "call_id" <| .cons "output" <| .cons "id" <| .cons "caller" <| .cons "status" <|
    .cons "max_output_length" .nil
  declared value := (value.kind, value.callId, value.output, value.id, value.caller, value.status,
    value.maxOutputLength, ())
  extra value := value.extra
  make := fun (kind, callId, output, id, caller, status, maxOutputLength, ()) extra =>
    { kind, callId, output, id, caller, status, maxOutputLength, extra }

structure ApplyPatchCallInput (P : Shared → Type) where
  kind : LiteralTag "apply_patch_call"
  callId : String
  status : ApplyPatchCallStatus
  operation : P .applyPatchOperation
  id : Omittable (Nullable String)
  caller : Omittable (Nullable (P .toolCallCaller))
  extra : ExtraFields

instance ApplyPatchCallInput.struct : Struct (ApplyPatchCallInput P) where
  Declared := _
  fields := .cons "type" <| .cons "call_id" <| .cons "status" <| .cons "operation" <| .cons "id" <|
    .cons "caller" .nil
  declared value := (value.kind, value.callId, value.status, value.operation, value.id, value.caller, ())
  extra value := value.extra
  make := fun (kind, callId, status, operation, id, caller, ()) extra =>
    { kind, callId, status, operation, id, caller, extra }

structure ApplyPatchCallOutputInput (P : Shared → Type) where
  kind : LiteralTag "apply_patch_call_output"
  callId : String
  status : ApplyPatchCallOutputStatus
  output : Omittable (Nullable String)
  id : Omittable (Nullable String)
  caller : Omittable (Nullable (P .toolCallCaller))
  extra : ExtraFields

instance ApplyPatchCallOutputInput.struct : Struct (ApplyPatchCallOutputInput P) where
  Declared := _
  fields := .cons "type" <| .cons "call_id" <| .cons "status" <| .cons "output" <| .cons "id" <| .cons "caller" .nil
  declared value := (value.kind, value.callId, value.status, value.output, value.id, value.caller, ())
  extra value := value.extra
  make := fun (kind, callId, status, output, id, caller, ()) extra =>
    { kind, callId, status, output, id, caller, extra }

structure McpApprovalResponse where
  kind : LiteralTag "mcp_approval_response"
  approvalRequestId : String
  approve : Bool
  id : Omittable (Nullable String)
  reason : Omittable (Nullable String)
  extra : ExtraFields

instance McpApprovalResponse.struct : Struct McpApprovalResponse where
  Declared := _
  fields := .cons "type" <| .cons "approval_request_id" <| .cons "approve" <| .cons "id" <| .cons "reason" .nil
  declared value := (value.kind, value.approvalRequestId, value.approve, value.id, value.reason, ())
  extra value := value.extra
  make := fun (kind, approvalRequestId, approve, id, reason, ()) extra =>
    { kind, approvalRequestId, approve, id, reason, extra }

structure CustomToolCallOutput (P : Shared → Type) where
  kind : LiteralTag "custom_tool_call_output"
  callId : String
  output : FunctionCallOutputValue
  id : Omittable String
  caller : Omittable (Nullable (P .toolCallCaller))
  status : Omittable (Nullable ResponseItemStatus)
  extra : ExtraFields

instance CustomToolCallOutput.struct : Struct (CustomToolCallOutput P) where
  Declared := _
  fields := .cons "type" <| .cons "call_id" <| .cons "output" <| .cons "id" <| .cons "caller" <| .cons "status" .nil
  declared value := (value.kind, value.callId, value.output, value.id, value.caller, value.status, ())
  extra value := value.extra
  make := fun (kind, callId, output, id, caller, status, ()) extra =>
    { kind, callId, output, id, caller, status, extra }

instance CustomToolCallOutput.tagged : Tagged "custom_tool_call_output" (CustomToolCallOutput P) :=
  Struct.tagged fun _ => List.mem_cons_self

structure CompactionTrigger where
  kind : LiteralTag "compaction_trigger"
  id : Omittable (Nullable String)
  extra : ExtraFields

instance CompactionTrigger.struct : Struct CompactionTrigger where
  Declared := _
  fields := .cons "type" <| .cons "id" .nil
  declared value := (value.kind, value.id, ())
  extra value := value.extra
  make := fun (kind, id, ()) extra => { kind, id, extra }

structure ItemReference where
  id : String
  extra : ExtraFields

instance ItemReference.struct : Struct ItemReference where
  Declared := _
  fields := .cons "id" .nil
  declared value := (value.id, ())
  extra value := value.extra
  make := fun (id, ()) extra => { id, extra }

/-- One rich content part in an item-form input message. -/
inductive InputContent where
  | text (value : InputText)
  | image (value : InputImage)
  | file (value : InputFile)
  | computerScreenshot (value : ComputerScreenshot)
  | unknown (value : UnknownTaggedObject)

instance InputContent.union : TaggedUnion InputContent where
  variants := [.of "input_text" .text,
    .of "input_image" .image,
    .of "input_file" .file,
    .of "computer_screenshot" .computerScreenshot]
  unknown := .unknown
  carried
    | .text value => .known value
    | .image value => .known value
    | .file value => .known value
    | .computerScreenshot value => .known value
    | .unknown value => .unknown value

structure StoredInputMessage where
  kind : Omittable (LiteralTag "message")
  role : MessageRole
  status : Omittable ResponseItemStatus
  content : List InputContent
  extra : ExtraFields

instance StoredInputMessage.struct : Struct StoredInputMessage where
  Declared := _
  fields := .cons "type" <| .cons "role" <| .cons "status" <| .cons "content" .nil
  declared value := (value.kind, value.role, value.status, value.content, ())
  extra value := value.extra
  make := fun (kind, role, status, content, ()) extra => { kind, role, status, content, extra }

/-- One item accepted by the `input` array. -/
inductive ResponseInputItem (P : Shared → Type) where
  | message (value : P .inputMessage)
  | storedMessage (value : StoredInputMessage)
  | outputMessage (value : OutputMessage P)
  | functionCall (value : FunctionCall P)
  | functionCallOutput (value : FunctionCallOutput P)
  | mcpListTools (value : P (.tagged .mcpListTools))
  | mcpCall (value : P (.tagged .mcpCall))
  | mcpApprovalRequest (value : P (.tagged .mcpApprovalRequest))
  | mcpApprovalResponse (value : McpApprovalResponse)
  | compactionTrigger (value : CompactionTrigger)
  | itemReference (value : ItemReference)
  | program (value : P (.tagged .program))
  | programOutput (value : P (.tagged .programOutput))
  | fileSearchCall (value : P (.tagged .fileSearchCall))
  | computerCall (value : P (.tagged .computerCall))
  | computerCallOutput (value : ComputerCallOutput P)
  | webSearchCall (value : P (.tagged .webSearchCall))
  | toolSearchCall (value : ToolSearchCallInput)
  | toolSearchOutput (value : ToolSearchOutputInput P)
  | additionalTools (value : AdditionalToolsInput P)
  | reasoning (value : P (.tagged .reasoning))
  | compaction (value : CompactionSummaryInput)
  | imageGenerationCall (value : P (.tagged .imageGenerationCall))
  | codeInterpreterCall (value : P (.tagged .codeInterpreterCall))
  | localShellCall (value : P (.tagged .localShellCall))
  | localShellCallOutput (value : P (.tagged .localShellCallOutput))
  | functionShellCall (value : FunctionShellCallInput P)
  | functionShellCallOutput (value : FunctionShellCallOutputInput P)
  | applyPatchCall (value : ApplyPatchCallInput P)
  | applyPatchCallOutput (value : ApplyPatchCallOutputInput P)
  | customToolCallOutput (value : CustomToolCallOutput P)
  | customToolCall (value : P (.tagged .customToolCall))
  | unknown (value : UnknownTaggedObject)

def ResponseInputItem.carried : ResponseInputItem P → Carried
  | .message value => .known value
  | .storedMessage value => .known value
  | .outputMessage value => .known value
  | .functionCall value => .known value
  | .functionCallOutput value => .known value
  | .mcpListTools value => .known value
  | .mcpCall value => .known value
  | .mcpApprovalRequest value => .known value
  | .mcpApprovalResponse value => .known value
  | .compactionTrigger value => .known value
  | .itemReference value => .known value
  | .program value => .known value
  | .programOutput value => .known value
  | .fileSearchCall value => .known value
  | .computerCall value => .known value
  | .computerCallOutput value => .known value
  | .webSearchCall value => .known value
  | .toolSearchCall value => .known value
  | .toolSearchOutput value => .known value
  | .additionalTools value => .known value
  | .reasoning value => .known value
  | .compaction value => .known value
  | .imageGenerationCall value => .known value
  | .codeInterpreterCall value => .known value
  | .localShellCall value => .known value
  | .localShellCallOutput value => .known value
  | .functionShellCall value => .known value
  | .functionShellCallOutput value => .known value
  | .applyPatchCall value => .known value
  | .applyPatchCallOutput value => .known value
  | .customToolCallOutput value => .known value
  | .customToolCall value => .known value
  | .unknown value => .unknown value

namespace ResponseInputItem

def serialize (item : ResponseInputItem P) : Value := item.carried.serialize

/-- An item whose `type` is a string. -/
def deserializeTagged (object : Map) (v : Value) : String → Option (ResponseInputItem P)
  | "message" =>
      let role := (object.get "role").bind Value.asStr
      let array := ((object.get "content").bind Value.asArray).isSome
      if object.containsKey "id" ∧ role = some "assistant" then (Serde.deserialize v).map .outputMessage
      else if object.containsKey "status" ∨ (array ∧ role ≠ some "assistant") then
        (Serde.deserialize v).map .storedMessage
      else (Serde.deserialize v).map .message
  | "function_call" => (Serde.deserialize v).map .functionCall
  | "function_call_output" => (Serde.deserialize v).map .functionCallOutput
  | "mcp_list_tools" => (Serde.deserialize v).map .mcpListTools
  | "mcp_call" => (Serde.deserialize v).map .mcpCall
  | "mcp_approval_request" => (Serde.deserialize v).map .mcpApprovalRequest
  | "mcp_approval_response" => (Serde.deserialize v).map .mcpApprovalResponse
  | "compaction_trigger" => (Serde.deserialize v).map .compactionTrigger
  | "item_reference" => (Serde.deserialize v).map .itemReference
  | "program" => (Serde.deserialize v).map .program
  | "program_output" => (Serde.deserialize v).map .programOutput
  | "file_search_call" => (Serde.deserialize v).map .fileSearchCall
  | "computer_call" => (Serde.deserialize v).map .computerCall
  | "computer_call_output" => (Serde.deserialize v).map .computerCallOutput
  | "web_search_call" => (Serde.deserialize v).map .webSearchCall
  | "tool_search_call" => (Serde.deserialize v).map .toolSearchCall
  | "tool_search_output" => (Serde.deserialize v).map .toolSearchOutput
  | "additional_tools" => (Serde.deserialize v).map .additionalTools
  | "reasoning" => (Serde.deserialize v).map .reasoning
  | "compaction" => (Serde.deserialize v).map .compaction
  | "image_generation_call" => (Serde.deserialize v).map .imageGenerationCall
  | "code_interpreter_call" => (Serde.deserialize v).map .codeInterpreterCall
  | "local_shell_call" => (Serde.deserialize v).map .localShellCall
  | "local_shell_call_output" => (Serde.deserialize v).map .localShellCallOutput
  | "shell_call" => (Serde.deserialize v).map .functionShellCall
  | "shell_call_output" => (Serde.deserialize v).map .functionShellCallOutput
  | "apply_patch_call" => (Serde.deserialize v).map .applyPatchCall
  | "apply_patch_call_output" => (Serde.deserialize v).map .applyPatchCallOutput
  | "custom_tool_call_output" => (Serde.deserialize v).map .customToolCallOutput
  | "custom_tool_call" => (Serde.deserialize v).map .customToolCall
  | _ => (UnknownTaggedObject.fromValue v).map .unknown

/-- An explicit `"type": null` is an absent one. -/
def dropNullType : Value → Value
  | .object m => if (Map.get m "type").any Value.isNull then .object (Map.remove m "type") else .object m
  | v => v

def deserialize (value : Value) : Option (ResponseInputItem P) := do
  let v := dropNullType value
  let object ← v.asObject
  match object.get "type" with
  | some (.string tag) => deserializeTagged object v tag
  | some _ => none
  | none =>
      if object.containsKey "role" then (Serde.deserialize v).map message
      else if object.containsKey "id" then (Serde.deserialize v).map itemReference
      else none

/-- What is read from an object with a string under `type`. -/
theorem deserialize_of_objectDiscriminator {m : Map} {tag : String}
    (h : objectDiscriminator (.object m) = some tag) :
    deserialize (.object m) = (deserializeTagged m (.object m) tag : Option (ResponseInputItem P)) := by
  have htype := get_type_of_objectDiscriminator h
  have hkeep : dropNullType (.object m) = .object m := by
    rw [dropNullType, htype]
    rfl
  rw [deserialize, hkeep, Value.asObject, Option.bind_eq_bind, Option.bind_some, htype]

end ResponseInputItem

end OpenaiRs.Replay
