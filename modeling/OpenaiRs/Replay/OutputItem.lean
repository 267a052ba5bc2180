import OpenaiRs.Replay.Content

/-!
# Output items

The items of a response, as `ResponseOutputItem` decodes them.

## Implementation notes

The encoded JSON text of `arguments` is kept as the string it is. A payload that is cloned as a whole is one of
the shared payloads.
-/

namespace OpenaiRs.Replay

open Serde

variable {P : Shared → Type} [Payloads P]

structure Refusal where
  kind : LiteralTag "refusal"
  refusal : String
  extra : ExtraFields

instance Refusal.struct : Struct Refusal where
  Declared := _
  fields := .cons "type" <| .cons "refusal" .nil
  declared value := (value.kind, value.refusal, ())
  extra value := value.extra
  make := fun (kind, refusal, ()) extra => { kind, refusal, extra }

instance Refusal.tagged : Tagged "refusal" Refusal := Struct.tagged fun _ => List.mem_cons_self

structure ReasoningTextContent where
  kind : LiteralTag "reasoning_text"
  text : String
  extra : ExtraFields

instance ReasoningTextContent.struct : Struct ReasoningTextContent where
  Declared := _
  fields := .cons "type" <| .cons "text" .nil
  declared value := (value.kind, value.text, ())
  extra value := value.extra
  make := fun (kind, text, ()) extra => { kind, text, extra }

instance ReasoningTextContent.tagged : Tagged "reasoning_text" ReasoningTextContent :=
  Struct.tagged fun _ => List.mem_cons_self

/-- One content part in an assistant output message. -/
inductive OutputContent (P : Shared → Type) where
  | text (value : P (.tagged .outputText))
  | refusal (value : Refusal)
  | reasoningText (value : ReasoningTextContent)
  | unknown (value : UnknownTaggedObject)

instance OutputContent.union : TaggedUnion (OutputContent P) where
  variants := [.of "output_text" .text, .of "refusal" .refusal, .of "reasoning_text" .reasoningText]
  unknown := .unknown
  carried
    | .text value => .known value
    | .refusal value => .known value
    | .reasoningText value => .known value
    | .unknown value => .unknown value

structure OutputMessage (P : Shared → Type) where
  kind : LiteralTag "message"
  id : String
  status : ResponseItemStatus
  role : LiteralTag "assistant"
  content : List (OutputContent P)
  phase : Omittable (Nullable MessagePhase)
  extra : ExtraFields

instance OutputMessage.struct : Struct (OutputMessage P) where
  Declared := _
  fields := .cons "type" <| .cons "id" <| .cons "status" <| .cons "role" <| .cons "content" <| .cons "phase" .nil
  declared value := (value.kind, value.id, value.status, value.role, value.content, value.phase, ())
  extra value := value.extra
  make := fun (kind, id, status, role, content, phase, ()) extra => { kind, id, status, role, content, phase, extra }

instance OutputMessage.tagged : Tagged "message" (OutputMessage P) := Struct.tagged fun _ => List.mem_cons_self

structure FunctionCall (P : Shared → Type) where
  kind : LiteralTag "function_call"
  id : Omittable String
  callId : String
  name : String
  arguments : String
  nameSpace : Omittable String
  caller : Omittable (Nullable (P .toolCallCaller))
  status : Omittable ResponseItemStatus
  createdBy : Omittable String
  async : Omittable Bool
  extra : ExtraFields

instance FunctionCall.struct : Struct (FunctionCall P) where
  Declared := _
  fields := .cons "type" <| .cons "id" <| .cons "call_id" <| .cons "name" <| .cons "arguments" <| .cons "namespace" <|
    .cons "caller" <| .cons "status" <| .cons "created_by" <| .cons "async" .nil
  declared value := (value.kind, value.id, value.callId, value.name, value.arguments, value.nameSpace, value.caller,
    value.status, value.createdBy, value.async, ())
  extra value := value.extra
  make := fun (kind, id, callId, name, arguments, nameSpace, caller, status, createdBy, async, ()) extra =>
    { kind, id, callId, name, arguments, nameSpace, caller, status, createdBy, async, extra }

instance FunctionCall.tagged : Tagged "function_call" (FunctionCall P) := Struct.tagged fun _ => List.mem_cons_self

structure FunctionCallOutputResource (P : Shared → Type) where
  kind : LiteralTag "function_call_output"
  id : String
  output : FunctionCallOutputValue
  status : ResponseItemStatus
  callId : Omittable (Nullable String)
  name : Omittable (Nullable String)
  nameSpace : Omittable (Nullable String)
  caller : Omittable (Nullable (P .toolCallCaller))
  createdBy : Omittable String
  extra : ExtraFields

instance FunctionCallOutputResource.struct : Struct (FunctionCallOutputResource P) where
  Declared := _
  fields := .cons "type" <| .cons "id" <| .cons "output" <| .cons "status" <| .cons "call_id" <| .cons "name" <|
    .cons "namespace" <| .cons "caller" <| .cons "created_by" .nil
  declared value := (value.kind, value.id, value.output, value.status, value.callId, value.name, value.nameSpace,
    value.caller, value.createdBy, ())
  extra value := value.extra
  make := fun (kind, id, output, status, callId, name, nameSpace, caller, createdBy, ()) extra =>
    { kind, id, output, status, callId, name, nameSpace, caller, createdBy, extra }

instance FunctionCallOutputResource.tagged : Tagged "function_call_output" (FunctionCallOutputResource P) :=
  Struct.tagged fun _ => List.mem_cons_self

structure ComputerCallOutputResource (P : Shared → Type) where
  kind : LiteralTag "computer_call_output"
  id : String
  callId : String
  output : ComputerScreenshot
  status : ResponseItemStatus
  acknowledgedSafetyChecks : Omittable (Nullable (List (P .computerSafetyCheck)))
  createdBy : Omittable String
  extra : ExtraFields

instance ComputerCallOutputResource.struct : Struct (ComputerCallOutputResource P) where
  Declared := _
  fields := .cons "type" <| .cons "id" <| .cons "call_id" <| .cons "output" <| .cons "status" <|
    .cons "acknowledged_safety_checks" <| .cons "created_by" .nil
  declared value := (value.kind, value.id, value.callId, value.output, value.status, value.acknowledgedSafetyChecks,
    value.createdBy, ())
  extra value := value.extra
  make := fun (kind, id, callId, output, status, acknowledgedSafetyChecks, createdBy, ()) extra =>
    { kind, id, callId, output, status, acknowledgedSafetyChecks, createdBy, extra }

instance ComputerCallOutputResource.tagged : Tagged "computer_call_output" (ComputerCallOutputResource P) :=
  Struct.tagged fun _ => List.mem_cons_self

structure ToolSearchCall where
  kind : LiteralTag "tool_search_call"
  id : String
  callId : Nullable String
  execution : ToolSearchExecution
  arguments : Value
  status : ResponseItemStatus
  createdBy : Omittable String
  extra : ExtraFields

instance ToolSearchCall.struct : Struct ToolSearchCall where
  Declared := _
  fields := .cons "type" <| .cons "id" <| .cons "call_id" <| .cons "execution" <| .cons "arguments" <|
    .cons "status" <| .cons "created_by" .nil
  declared value := (value.kind, value.id, value.callId, value.execution, value.arguments, value.status,
    value.createdBy, ())
  extra value := value.extra
  make := fun (kind, id, callId, execution, arguments, status, createdBy, ()) extra =>
    { kind, id, callId, execution, arguments, status, createdBy, extra }

instance ToolSearchCall.tagged : Tagged "tool_search_call" ToolSearchCall := Struct.tagged fun _ => List.mem_cons_self

structure ToolSearchOutput (P : Shared → Type) where
  kind : LiteralTag "tool_search_output"
  id : String
  callId : Nullable String
  execution : ToolSearchExecution
  tools : List (P .responseTool)
  status : ResponseItemStatus
  createdBy : Omittable String
  extra : ExtraFields

instance ToolSearchOutput.struct : Struct (ToolSearchOutput P) where
  Declared := _
  fields := .cons "type" <| .cons "id" <| .cons "call_id" <| .cons "execution" <| .cons "tools" <| .cons "status" <|
    .cons "created_by" .nil
  declared value := (value.kind, value.id, value.callId, value.execution, value.tools, value.status, value.createdBy,
    ())
  extra value := value.extra
  make := fun (kind, id, callId, execution, tools, status, createdBy, ()) extra =>
    { kind, id, callId, execution, tools, status, createdBy, extra }

instance ToolSearchOutput.tagged : Tagged "tool_search_output" (ToolSearchOutput P) :=
  Struct.tagged fun _ => List.mem_cons_self

structure AdditionalTools (P : Shared → Type) where
  kind : LiteralTag "additional_tools"
  id : String
  role : MessageRole
  tools : List (P .responseTool)
  extra : ExtraFields

instance AdditionalTools.struct : Struct (AdditionalTools P) where
  Declared := _
  fields := .cons "type" <| .cons "id" <| .cons "role" <| .cons "tools" .nil
  declared value := (value.kind, value.id, value.role, value.tools, ())
  extra value := value.extra
  make := fun (kind, id, role, tools, ()) extra => { kind, id, role, tools, extra }

instance AdditionalTools.tagged : Tagged "additional_tools" (AdditionalTools P) :=
  Struct.tagged fun _ => List.mem_cons_self

structure CompactionItem where
  kind : LiteralTag "compaction"
  id : String
  encryptedContent : String
  createdBy : Omittable String
  extra : ExtraFields

instance CompactionItem.struct : Struct CompactionItem where
  Declared := _
  fields := .cons "type" <| .cons "id" <| .cons "encrypted_content" <| .cons "created_by" .nil
  declared value := (value.kind, value.id, value.encryptedContent, value.createdBy, ())
  extra value := value.extra
  make := fun (kind, id, encryptedContent, createdBy, ()) extra => { kind, id, encryptedContent, createdBy, extra }

instance CompactionItem.tagged : Tagged "compaction" CompactionItem := Struct.tagged fun _ => List.mem_cons_self

structure FunctionShellCall (P : Shared → Type) where
  kind : LiteralTag "shell_call"
  id : String
  callId : String
  action : FunctionShellAction
  status : ResponseItemStatus
  environment : Nullable (P .functionShellEnvironment)
  caller : Omittable (Nullable (P .toolCallCaller))
  createdBy : Omittable String
  extra : ExtraFields

instance FunctionShellCall.struct : Struct (FunctionShellCall P) where
  Declared := _
  fields := .cons "type" <| .cons "id" <| .cons "call_id" <| .cons "action" <| .cons "status" <|
    .cons "environment" <| .cons "caller" <| .cons "created_by" .nil
  declared value := (value.kind, value.id, value.callId, value.action, value.status, value.environment, value.caller,
    value.createdBy, ())
  extra value := value.extra
  make := fun (kind, id, callId, action, status, environment, caller, createdBy, ()) extra =>
    { kind, id, callId, action, status, environment, caller, createdBy, extra }

instance FunctionShellCall.tagged : Tagged "shell_call" (FunctionShellCall P) :=
  Struct.tagged fun _ => List.mem_cons_self

structure FunctionShellCallOutput (P : Shared → Type) where
  kind : LiteralTag "shell_call_output"
  id : String
  callId : String
  status : ResponseItemStatus
  output : List (P .functionShellCallOutputContent)
  maxOutputLength : Nullable UInt64
  caller : Omittable (Nullable (P .toolCallCaller))
  createdBy : Omittable String
  extra : ExtraFields

instance FunctionShellCallOutput.struct : Struct (FunctionShellCallOutput P) where
  Declared := _
  fields := .cons "type" <| .cons "id" <| .cons "call_id" <| .cons "status" <| .cons "output" <|
    .cons "max_output_length" <| .cons "caller" <| .cons "created_by" .nil
  declared value := (value.kind, value.id, value.callId, value.status, value.output, value.maxOutputLength,
    value.caller, value.createdBy, ())
  extra value := value.extra
  make := fun (kind, id, callId, status, output, maxOutputLength, caller, createdBy, ()) extra =>
    { kind, id, callId, status, output, maxOutputLength, caller, createdBy, extra }

instance FunctionShellCallOutput.tagged : Tagged "shell_call_output" (FunctionShellCallOutput P) :=
  Struct.tagged fun _ => List.mem_cons_self

structure ApplyPatchCall (P : Shared → Type) where
  kind : LiteralTag "apply_patch_call"
  id : String
  callId : String
  status : ApplyPatchCallStatus
  operation : P .applyPatchOperation
  caller : Omittable (Nullable (P .toolCallCaller))
  createdBy : Omittable String
  extra : ExtraFields

instance ApplyPatchCall.struct : Struct (ApplyPatchCall P) where
  Declared := _
  fields := .cons "type" <| .cons "id" <| .cons "call_id" <| .cons "status" <| .cons "operation" <| .cons "caller" <|
    .cons "created_by" .nil
  declared value := (value.kind, value.id, value.callId, value.status, value.operation, value.caller, value.createdBy,
    ())
  extra value := value.extra
  make := fun (kind, id, callId, status, operation, caller, createdBy, ()) extra =>
    { kind, id, callId, status, operation, caller, createdBy, extra }

instance ApplyPatchCall.tagged : Tagged "apply_patch_call" (ApplyPatchCall P) :=
  Struct.tagged fun _ => List.mem_cons_self

structure ApplyPatchCallOutput (P : Shared → Type) where
  kind : LiteralTag "apply_patch_call_output"
  id : String
  callId : String
  status : ApplyPatchCallOutputStatus
  output : Omittable (Nullable String)
  caller : Omittable (Nullable (P .toolCallCaller))
  createdBy : Omittable String
  extra : ExtraFields

instance ApplyPatchCallOutput.struct : Struct (ApplyPatchCallOutput P) where
  Declared := _
  fields := .cons "type" <| .cons "id" <| .cons "call_id" <| .cons "status" <| .cons "output" <| .cons "caller" <|
    .cons "created_by" .nil
  declared value := (value.kind, value.id, value.callId, value.status, value.output, value.caller, value.createdBy,
    ())
  extra value := value.extra
  make := fun (kind, id, callId, status, output, caller, createdBy, ()) extra =>
    { kind, id, callId, status, output, caller, createdBy, extra }

instance ApplyPatchCallOutput.tagged : Tagged "apply_patch_call_output" (ApplyPatchCallOutput P) :=
  Struct.tagged fun _ => List.mem_cons_self

structure McpApprovalResponseResource where
  kind : LiteralTag "mcp_approval_response"
  id : String
  approvalRequestId : String
  approve : Bool
  reason : Omittable (Nullable String)
  extra : ExtraFields

instance McpApprovalResponseResource.struct : Struct McpApprovalResponseResource where
  Declared := _
  fields := .cons "type" <| .cons "id" <| .cons "approval_request_id" <| .cons "approve" <| .cons "reason" .nil
  declared value := (value.kind, value.id, value.approvalRequestId, value.approve, value.reason, ())
  extra value := value.extra
  make := fun (kind, id, approvalRequestId, approve, reason, ()) extra =>
    { kind, id, approvalRequestId, approve, reason, extra }

instance McpApprovalResponseResource.tagged : Tagged "mcp_approval_response" McpApprovalResponseResource :=
  Struct.tagged fun _ => List.mem_cons_self

structure CustomToolCallOutputResource (P : Shared → Type) where
  kind : LiteralTag "custom_tool_call_output"
  id : String
  callId : String
  output : FunctionCallOutputValue
  status : ResponseItemStatus
  caller : Omittable (Nullable (P .toolCallCaller))
  createdBy : Omittable String
  extra : ExtraFields

instance CustomToolCallOutputResource.struct : Struct (CustomToolCallOutputResource P) where
  Declared := _
  fields := .cons "type" <| .cons "id" <| .cons "call_id" <| .cons "output" <| .cons "status" <| .cons "caller" <|
    .cons "created_by" .nil
  declared value := (value.kind, value.id, value.callId, value.output, value.status, value.caller, value.createdBy,
    ())
  extra value := value.extra
  make := fun (kind, id, callId, output, status, caller, createdBy, ()) extra =>
    { kind, id, callId, output, status, caller, createdBy, extra }

instance CustomToolCallOutputResource.tagged : Tagged "custom_tool_call_output" (CustomToolCallOutputResource P) :=
  Struct.tagged fun _ => List.mem_cons_self

/-- One typed item generated by a response. -/
inductive ResponseOutputItem (P : Shared → Type) where
  | message (value : OutputMessage P)
  | fileSearchCall (value : P (.tagged .fileSearchCall))
  | functionCall (value : FunctionCall P)
  | functionCallOutput (value : FunctionCallOutputResource P)
  | webSearchCall (value : P (.tagged .webSearchCall))
  | computerCall (value : P (.tagged .computerCall))
  | computerCallOutput (value : ComputerCallOutputResource P)
  | reasoning (value : P (.tagged .reasoning))
  | program (value : P (.tagged .program))
  | programOutput (value : P (.tagged .programOutput))
  | toolSearchCall (value : ToolSearchCall)
  | toolSearchOutput (value : ToolSearchOutput P)
  | additionalTools (value : AdditionalTools P)
  | compaction (value : CompactionItem)
  | imageGenerationCall (value : P (.tagged .imageGenerationCall))
  | codeInterpreterCall (value : P (.tagged .codeInterpreterCall))
  | localShellCall (value : P (.tagged .localShellCall))
  | localShellCallOutput (value : P (.tagged .localShellCallOutput))
  | functionShellCall (value : FunctionShellCall P)
  | functionShellCallOutput (value : FunctionShellCallOutput P)
  | applyPatchCall (value : ApplyPatchCall P)
  | applyPatchCallOutput (value : ApplyPatchCallOutput P)
  | mcpListTools (value : P (.tagged .mcpListTools))
  | mcpCall (value : P (.tagged .mcpCall))
  | mcpApprovalRequest (value : P (.tagged .mcpApprovalRequest))
  | mcpApprovalResponse (value : McpApprovalResponseResource)
  | customToolCall (value : P (.tagged .customToolCall))
  | customToolCallOutput (value : CustomToolCallOutputResource P)
  | unknown (value : UnknownTaggedObject)

instance ResponseOutputItem.union : TaggedUnion (ResponseOutputItem P) where
  variants := [.of "message" .message,
    .of "file_search_call" .fileSearchCall,
    .of "function_call" .functionCall,
    .of "function_call_output" .functionCallOutput,
    .of "web_search_call" .webSearchCall,
    .of "computer_call" .computerCall,
    .of "computer_call_output" .computerCallOutput,
    .of "reasoning" .reasoning,
    .of "program" .program,
    .of "program_output" .programOutput,
    .of "tool_search_call" .toolSearchCall,
    .of "tool_search_output" .toolSearchOutput,
    .of "additional_tools" .additionalTools,
    .of "compaction" .compaction,
    .of "image_generation_call" .imageGenerationCall,
    .of "code_interpreter_call" .codeInterpreterCall,
    .of "local_shell_call" .localShellCall,
    .of "local_shell_call_output" .localShellCallOutput,
    .of "shell_call" .functionShellCall,
    .of "shell_call_output" .functionShellCallOutput,
    .of "apply_patch_call" .applyPatchCall,
    .of "apply_patch_call_output" .applyPatchCallOutput,
    .of "mcp_list_tools" .mcpListTools,
    .of "mcp_call" .mcpCall,
    .of "mcp_approval_request" .mcpApprovalRequest,
    .of "mcp_approval_response" .mcpApprovalResponse,
    .of "custom_tool_call" .customToolCall,
    .of "custom_tool_call_output" .customToolCallOutput]
  unknown := .unknown
  carried
    | .message value => .known value
    | .fileSearchCall value => .known value
    | .functionCall value => .known value
    | .functionCallOutput value => .known value
    | .webSearchCall value => .known value
    | .computerCall value => .known value
    | .computerCallOutput value => .known value
    | .reasoning value => .known value
    | .program value => .known value
    | .programOutput value => .known value
    | .toolSearchCall value => .known value
    | .toolSearchOutput value => .known value
    | .additionalTools value => .known value
    | .compaction value => .known value
    | .imageGenerationCall value => .known value
    | .codeInterpreterCall value => .known value
    | .localShellCall value => .known value
    | .localShellCallOutput value => .known value
    | .functionShellCall value => .known value
    | .functionShellCallOutput value => .known value
    | .applyPatchCall value => .known value
    | .applyPatchCallOutput value => .known value
    | .mcpListTools value => .known value
    | .mcpCall value => .known value
    | .mcpApprovalRequest value => .known value
    | .mcpApprovalResponse value => .known value
    | .customToolCall value => .known value
    | .customToolCallOutput value => .known value
    | .unknown value => .unknown value

end OpenaiRs.Replay
