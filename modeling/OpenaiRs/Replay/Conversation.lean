import OpenaiRs.Replay.InputItem
import Mathlib.Tactic.Tauto

/-!
# Conversation items

The items of a persisted conversation and their conversions: from an output item through its JSON, and to an
input item through JSON, except for the messages of a user, of the system and of a developer, which are built
anew.
-/

namespace OpenaiRs.Replay

open Serde

variable {P : Shared → Type} [Payloads P]

/-- The struct of `text_content!`. -/
structure TextContent (tag : String) where
  kind : LiteralTag tag
  text : String
  extra : ExtraFields

theorem TextContent.nodup_keys : ["type", "text"].Nodup := by simp

instance TextContent.struct (tag : String) : Struct (TextContent tag) where
  Declared := _
  fields := .cons "type" <| .cons "text" .nil
  nodup_keys := TextContent.nodup_keys
  declared value := (value.kind, value.text, ())
  extra value := value.extra
  make := fun (kind, text, ()) extra => { kind, text, extra }

instance TextContent.tagged (tag : String) : Tagged tag (TextContent tag) := Struct.tagged fun _ => List.mem_cons_self

abbrev ConversationText := TextContent "text"

abbrev ConversationSummaryText := TextContent "summary_text"

abbrev ConversationReasoningText := TextContent "reasoning_text"

structure ConversationInputImage where
  kind : LiteralTag "input_image"
  detail : ImageDetail
  imageUrl : Omittable (Nullable String)
  fileId : Omittable (Nullable String)
  promptCacheBreakpoint : Omittable PromptCacheBreakpoint
  extra : ExtraFields

instance ConversationInputImage.struct : Struct ConversationInputImage where
  Declared := _
  fields := .cons "type" <| .cons "detail" <| .cons "image_url" <| .cons "file_id" <|
    .cons "prompt_cache_breakpoint" .nil
  nodup_keys := Struct.nodup_keys (S := InputImage)
  declared value := (value.kind, value.detail, value.imageUrl, value.fileId, value.promptCacheBreakpoint, ())
  extra value := value.extra
  make := fun (kind, detail, imageUrl, fileId, promptCacheBreakpoint, ()) extra =>
    { kind, detail, imageUrl, fileId, promptCacheBreakpoint, extra }

instance ConversationInputImage.tagged : Tagged "input_image" ConversationInputImage :=
  Struct.tagged fun _ => List.mem_cons_self

structure ConversationComputerScreenshot where
  kind : LiteralTag "computer_screenshot"
  imageUrl : Nullable String
  fileId : Nullable String
  detail : ImageDetail
  promptCacheBreakpoint : Omittable PromptCacheBreakpoint
  extra : ExtraFields

instance ConversationComputerScreenshot.struct : Struct ConversationComputerScreenshot where
  Declared := _
  fields := .cons "type" <| .cons "image_url" <| .cons "file_id" <| .cons "detail" <|
    .cons "prompt_cache_breakpoint" .nil
  nodup_keys := Struct.nodup_keys (S := ComputerScreenshot)
  declared value := (value.kind, value.imageUrl, value.fileId, value.detail, value.promptCacheBreakpoint, ())
  extra value := value.extra
  make := fun (kind, imageUrl, fileId, detail, promptCacheBreakpoint, ()) extra =>
    { kind, imageUrl, fileId, detail, promptCacheBreakpoint, extra }

instance ConversationComputerScreenshot.tagged : Tagged "computer_screenshot" ConversationComputerScreenshot :=
  Struct.tagged fun _ => List.mem_cons_self

structure ConversationInputFile where
  kind : LiteralTag "input_file"
  fileId : Omittable (Nullable String)
  filename : Omittable String
  fileData : Omittable String
  fileUrl : Omittable String
  detail : Omittable FileDetail
  promptCacheBreakpoint : Omittable PromptCacheBreakpoint
  extra : ExtraFields

instance ConversationInputFile.struct : Struct ConversationInputFile where
  Declared := _
  fields := .cons "type" <| .cons "file_id" <| .cons "filename" <| .cons "file_data" <| .cons "file_url" <|
    .cons "detail" <| .cons "prompt_cache_breakpoint" .nil
  declared value := (value.kind, value.fileId, value.filename, value.fileData, value.fileUrl, value.detail,
    value.promptCacheBreakpoint, ())
  extra value := value.extra
  make := fun (kind, fileId, filename, fileData, fileUrl, detail, promptCacheBreakpoint, ()) extra =>
    { kind, fileId, filename, fileData, fileUrl, detail, promptCacheBreakpoint, extra }

instance ConversationInputFile.tagged : Tagged "input_file" ConversationInputFile :=
  Struct.tagged fun _ => List.mem_cons_self

/-- One part of a persisted message. -/
inductive ConversationMessageContent (P : Shared → Type) where
  | inputText (value : InputText)
  | outputText (value : P (.tagged .outputText))
  | text (value : ConversationText)
  | summaryText (value : ConversationSummaryText)
  | reasoningText (value : ConversationReasoningText)
  | refusal (value : Refusal)
  | inputImage (value : ConversationInputImage)
  | computerScreenshot (value : ConversationComputerScreenshot)
  | inputFile (value : ConversationInputFile)
  | unknown (value : UnknownTaggedObject)

instance ConversationMessageContent.union : TaggedUnion (ConversationMessageContent P) where
  variants := [.of "input_text" .inputText,
    .of "output_text" .outputText,
    .of "text" .text,
    .of "summary_text" .summaryText,
    .of "reasoning_text" .reasoningText,
    .of "refusal" .refusal,
    .of "input_image" .inputImage,
    .of "computer_screenshot" .computerScreenshot,
    .of "input_file" .inputFile]
  unknown := .unknown
  carried
    | .inputText value => .known value
    | .outputText value => .known value
    | .text value => .known value
    | .summaryText value => .known value
    | .reasoningText value => .known value
    | .refusal value => .known value
    | .inputImage value => .known value
    | .computerScreenshot value => .known value
    | .inputFile value => .known value
    | .unknown value => .unknown value

abbrev ConversationMessageRole := OpenEnum ["unknown", "user", "assistant", "system", "critic", "discriminator",
  "developer", "tool"]

structure ConversationMessage (P : Shared → Type) where
  kind : LiteralTag "message"
  id : String
  status : ResponseItemStatus
  role : ConversationMessageRole
  content : List (ConversationMessageContent P)
  phase : Omittable (Nullable MessagePhase)
  extra : ExtraFields

theorem ConversationMessage.nodup_keys : ["type", "id", "status", "role", "content", "phase"].Nodup := by simp

instance ConversationMessage.struct : Struct (ConversationMessage P) where
  Declared := _
  fields := .cons "type" <| .cons "id" <| .cons "status" <| .cons "role" <| .cons "content" <| .cons "phase" .nil
  nodup_keys := ConversationMessage.nodup_keys
  declared value := (value.kind, value.id, value.status, value.role, value.content, value.phase, ())
  extra value := value.extra
  make := fun (kind, id, status, role, content, phase, ()) extra => { kind, id, status, role, content, phase, extra }

instance ConversationMessage.tagged : Tagged "message" (ConversationMessage P) :=
  Struct.tagged fun _ => List.mem_cons_self

structure ConversationFunctionCall (P : Shared → Type) where
  kind : LiteralTag "function_call"
  id : String
  callId : String
  name : String
  arguments : String
  nameSpace : Omittable String
  caller : Omittable (Nullable (P .toolCallCaller))
  status : ResponseItemStatus
  createdBy : Omittable String
  async : Omittable Bool
  extra : ExtraFields

theorem ConversationFunctionCall.nodup_keys : ["type", "id", "call_id", "name", "arguments", "namespace", "caller",
    "status", "created_by", "async"].Nodup := by
  simp

instance ConversationFunctionCall.struct : Struct (ConversationFunctionCall P) where
  Declared := _
  fields := .cons "type" <| .cons "id" <| .cons "call_id" <| .cons "name" <| .cons "arguments" <| .cons "namespace" <|
    .cons "caller" <| .cons "status" <| .cons "created_by" <| .cons "async" .nil
  nodup_keys := ConversationFunctionCall.nodup_keys
  declared value := (value.kind, value.id, value.callId, value.name, value.arguments, value.nameSpace, value.caller,
    value.status, value.createdBy, value.async, ())
  extra value := value.extra
  make := fun (kind, id, callId, name, arguments, nameSpace, caller, status, createdBy, async, ()) extra =>
    { kind, id, callId, name, arguments, nameSpace, caller, status, createdBy, async, extra }

instance ConversationFunctionCall.tagged : Tagged "function_call" (ConversationFunctionCall P) :=
  Struct.tagged fun _ => List.mem_cons_self

/-- One persisted item of a conversation. -/
inductive ConversationItem (P : Shared → Type) where
  | message (value : ConversationMessage P)
  | functionCall (value : ConversationFunctionCall P)
  | functionCallOutput (value : FunctionCallOutputResource P)
  | fileSearchCall (value : P (.tagged .fileSearchCall))
  | webSearchCall (value : P (.tagged .webSearchCall))
  | imageGenerationCall (value : P (.tagged .imageGenerationCall))
  | computerCall (value : P (.tagged .computerCall))
  | computerCallOutput (value : ComputerCallOutputResource P)
  | toolSearchCall (value : ToolSearchCall)
  | toolSearchOutput (value : ToolSearchOutput P)
  | additionalTools (value : AdditionalTools P)
  | reasoning (value : P (.tagged .reasoning))
  | program (value : P (.tagged .program))
  | programOutput (value : P (.tagged .programOutput))
  | compaction (value : CompactionItem)
  | codeInterpreterCall (value : P (.tagged .codeInterpreterCall))
  | localShellCall (value : P (.tagged .localShellCall))
  | localShellCallOutput (value : P (.tagged .localShellCallOutput))
  | functionShellCall (value : FunctionShellCall P)
  | functionShellCallOutput (value : FunctionShellCallOutput P)
  | applyPatchCall (value : ApplyPatchCall P)
  | applyPatchCallOutput (value : ApplyPatchCallOutput P)
  | mcpListTools (value : P (.tagged .mcpListTools))
  | mcpApprovalRequest (value : P (.tagged .mcpApprovalRequest))
  | mcpApprovalResponse (value : McpApprovalResponseResource)
  | mcpCall (value : P (.tagged .mcpCall))
  | customToolCall (value : P (.tagged .customToolCall))
  | customToolCallOutput (value : CustomToolCallOutput P)
  | unknown (value : UnknownTaggedObject)

instance ConversationItem.union : TaggedUnion (ConversationItem P) where
  variants := [.of "message" .message,
    .of "function_call" .functionCall,
    .of "function_call_output" .functionCallOutput,
    .of "file_search_call" .fileSearchCall,
    .of "web_search_call" .webSearchCall,
    .of "image_generation_call" .imageGenerationCall,
    .of "computer_call" .computerCall,
    .of "computer_call_output" .computerCallOutput,
    .of "tool_search_call" .toolSearchCall,
    .of "tool_search_output" .toolSearchOutput,
    .of "additional_tools" .additionalTools,
    .of "reasoning" .reasoning,
    .of "program" .program,
    .of "program_output" .programOutput,
    .of "compaction" .compaction,
    .of "code_interpreter_call" .codeInterpreterCall,
    .of "local_shell_call" .localShellCall,
    .of "local_shell_call_output" .localShellCallOutput,
    .of "shell_call" .functionShellCall,
    .of "shell_call_output" .functionShellCallOutput,
    .of "apply_patch_call" .applyPatchCall,
    .of "apply_patch_call_output" .applyPatchCallOutput,
    .of "mcp_list_tools" .mcpListTools,
    .of "mcp_approval_request" .mcpApprovalRequest,
    .of "mcp_approval_response" .mcpApprovalResponse,
    .of "mcp_call" .mcpCall,
    .of "custom_tool_call" .customToolCall,
    .of "custom_tool_call_output" .customToolCallOutput]
  unknown := .unknown
  carried
    | .message value => .known value
    | .functionCall value => .known value
    | .functionCallOutput value => .known value
    | .fileSearchCall value => .known value
    | .webSearchCall value => .known value
    | .imageGenerationCall value => .known value
    | .computerCall value => .known value
    | .computerCallOutput value => .known value
    | .toolSearchCall value => .known value
    | .toolSearchOutput value => .known value
    | .additionalTools value => .known value
    | .reasoning value => .known value
    | .program value => .known value
    | .programOutput value => .known value
    | .compaction value => .known value
    | .codeInterpreterCall value => .known value
    | .localShellCall value => .known value
    | .localShellCallOutput value => .known value
    | .functionShellCall value => .known value
    | .functionShellCallOutput value => .known value
    | .applyPatchCall value => .known value
    | .applyPatchCallOutput value => .known value
    | .mcpListTools value => .known value
    | .mcpApprovalRequest value => .known value
    | .mcpApprovalResponse value => .known value
    | .mcpCall value => .known value
    | .customToolCall value => .known value
    | .customToolCallOutput value => .known value
    | .unknown value => .unknown value

/-- Failure converting between persisted Conversation and Responses item schemas. -/
inductive ConversationItemConversionError where
  | json
  | unsupportedMessageRole (role : String)
  | contentRoleMismatch (role contentType : String)
  | imageHasNoSource
  | fileHasNoSource

/-- A decoding step of a conversion. -/
def fromValue {α : Type} (decoded : Option α) : Except ConversationItemConversionError α :=
  match decoded with
  | some a => .ok a
  | none => .error .json

/-! ## Messages -/

abbrev MessageStatus := OpenEnum ["in_progress", "completed", "incomplete"]

/-- `From<MessageStatus>`. -/
def ResponseItemStatus.ofMessageStatus : MessageStatus → ResponseItemStatus
  | .known wire => .known ⟨wire, by have h := wire.2; simp only [List.mem_cons, List.not_mem_nil] at h ⊢; tauto⟩
  | .unknown raw => .unknown raw

inductive StoredInputMessageRole where
  | user
  | system
  | developer

/-- `From<StoredInputMessageRole>`. -/
def MessageRole.ofStoredInputMessageRole : StoredInputMessageRole → MessageRole
  | .user => .known ⟨"user", by simp⟩
  | .system => .known ⟨"system", by simp⟩
  | .developer => .known ⟨"developer", by simp⟩

def mergeExtraFields (base retained : ExtraFields) : ExtraFields :=
  if retained.fields.isEmpty then base
  else
    match ExtraFields.tryFromMap (Map.collect (base.fields ++ retained.fields)) (Map.nodup_collect _) [] with
    | .ok merged => merged
    | .error _ => base

namespace StoredInputMessage

def new (role : StoredInputMessageRole) (content : List InputContent) : StoredInputMessage where
  kind := .value .value
  role := .ofStoredInputMessageRole role
  status := .omitted
  content := content
  extra := .new

def withStatus (message : StoredInputMessage) (status : MessageStatus) : StoredInputMessage :=
  { message with status := .value (.ofMessageStatus status) }

def withRetainedExtra (message : StoredInputMessage) (retained : ExtraFields) : StoredInputMessage :=
  { message with extra := mergeExtraFields message.extra retained }

end StoredInputMessage

namespace InputImage

def fromUrl (url : String) : InputImage where
  kind := .value
  detail := .known ⟨"auto", by simp⟩
  imageUrl := .value (.value url)
  fileId := .omitted
  promptCacheBreakpoint := .omitted
  extra := .new

def fromFileId (fileId : String) : InputImage where
  kind := .value
  detail := .known ⟨"auto", by simp⟩
  imageUrl := .omitted
  fileId := .value (.value fileId)
  promptCacheBreakpoint := .omitted
  extra := .new

end InputImage

namespace InputFile

def empty : InputFile where
  kind := .value
  fileId := .omitted
  fileUrl := .omitted
  fileData := .omitted
  filename := .omitted
  detail := .omitted
  promptCacheBreakpoint := .omitted
  extra := .new

def fromFileId (fileId : String) : InputFile := { empty with fileId := .value (.value fileId) }

def fromUrl (fileUrl : String) : InputFile := { empty with fileUrl := .value (.value fileUrl) }

def fromBase64 (fileData filename : String) : InputFile :=
  { empty with fileData := .value (.value fileData), filename := .value (.value filename) }

end InputFile

def ConversationInputImage.toResponseContent (image : ConversationInputImage) :
    Except ConversationItemConversionError InputContent := do
  let value ← match image.imageUrl, image.fileId with
    | .value (.value url), _ => .ok { InputImage.fromUrl url with detail := image.detail }
    | _, .value (.value fileId) => .ok { InputImage.fromFileId fileId with detail := image.detail }
    | _, _ => .error .imageHasNoSource
  let value := match image.promptCacheBreakpoint with
    | .value _ => { value with promptCacheBreakpoint := .value (.value .explicit) }
    | .omitted => value
  .ok (.image value)

def ConversationComputerScreenshot.toResponseContent (screenshot : ConversationComputerScreenshot) : InputContent :=
  .computerScreenshot {
    kind := .value
    imageUrl := .value screenshot.imageUrl
    fileId := .value screenshot.fileId
    detail := .value screenshot.detail
    promptCacheBreakpoint := screenshot.promptCacheBreakpoint
    extra := .new }

def ConversationInputFile.toResponseContent (file : ConversationInputFile) :
    Except ConversationItemConversionError InputContent := do
  let value ← match file.fileId, file.fileUrl, file.fileData, file.filename with
    | .value (.value fileId), _, _, _ => .ok (InputFile.fromFileId fileId)
    | _, .value fileUrl, _, _ => .ok (InputFile.fromUrl fileUrl)
    | _, _, .value fileData, .value filename => .ok (InputFile.fromBase64 fileData filename)
    | _, _, _, _ => .error .fileHasNoSource
  let value := match file.detail with
    | .value detail => { value with detail := .value detail }
    | .omitted => value
  let value := match file.promptCacheBreakpoint with
    | .value _ => { value with promptCacheBreakpoint := .value (.value .explicit) }
    | .omitted => value
  .ok (.file value)

def contentDiscriminator : ConversationMessageContent P → String
  | .inputText _ => "input_text"
  | .outputText _ => "output_text"
  | .text _ => "text"
  | .summaryText _ => "summary_text"
  | .reasoningText _ => "reasoning_text"
  | .refusal _ => "refusal"
  | .inputImage _ => "input_image"
  | .computerScreenshot _ => "computer_screenshot"
  | .inputFile _ => "input_file"
  | .unknown value => value.discriminator

namespace ConversationMessage

/-- What an assistant may have said. -/
def checkAssistantPart (message : ConversationMessage P) :
    ConversationMessageContent P → Except ConversationItemConversionError Unit
  | .outputText _ => .ok ()
  | .refusal _ => .ok ()
  | part => .error (.contentRoleMismatch message.role.asStr (contentDiscriminator part))

def toInputContent (message : ConversationMessage P) :
    ConversationMessageContent P → Except ConversationItemConversionError InputContent
  | .inputText value => .ok (.text value)
  | .inputImage value => value.toResponseContent
  | .inputFile value => value.toResponseContent
  | .computerScreenshot value => .ok value.toResponseContent
  | part => .error (.contentRoleMismatch message.role.asStr (contentDiscriminator part))

def toStoredInputMessage (message : ConversationMessage P) (role : StoredInputMessageRole) :
    Except ConversationItemConversionError (ResponseInputItem P) := do
  let content ← message.content.mapM message.toInputContent
  let stored := (StoredInputMessage.new role content).withStatus (.fromRaw message.status.asStr)
  .ok (.storedMessage (stored.withRetainedExtra message.extra))

def toResponseInputItem (message : ConversationMessage P) :
    Except ConversationItemConversionError (ResponseInputItem P) :=
  match message.role with
  | .known ⟨"assistant", _⟩ => do
      message.content.forM message.checkAssistantPart
      let output ← fromValue (deserialize (serialize message))
      .ok (.outputMessage output)
  | .known ⟨"user", _⟩ => message.toStoredInputMessage .user
  | .known ⟨"system", _⟩ => message.toStoredInputMessage .system
  | .known ⟨"developer", _⟩ => message.toStoredInputMessage .developer
  | role => .error (.unsupportedMessageRole role.asStr)

end ConversationMessage

namespace ConversationItem

def toResponseInputItem : ConversationItem P → Except ConversationItemConversionError (ResponseInputItem P)
  | .message value => value.toResponseInputItem
  | item => fromValue (ResponseInputItem.deserialize (serialize item))

/-- `TryFrom<ResponseOutputItem>`. -/
def tryFrom (value : ResponseOutputItem P) : Except ConversationItemConversionError (ConversationItem P) :=
  fromValue (deserialize (serialize value))

end ConversationItem

end OpenaiRs.Replay
