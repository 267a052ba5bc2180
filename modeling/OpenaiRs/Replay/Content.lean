import OpenaiRs.Serde.Union

/-!
# What items are made of

The nested wire types that a conversion between the item families looks into: content parts, the output of a
function call and the action of a shell call, in the form of a resource and in the form of a request parameter.

## Implementation notes

The payloads that both families hold and no conversion looks into are a family of types with their codecs.
Only the types of content that differ between the families are spelled out.
-/

namespace OpenaiRs.Replay

open Serde

abbrev ResponseItemStatus := OpenEnum ["in_progress", "searching", "generating", "completed", "incomplete",
  "interpreting", "calling", "failed"]

abbrev MessageRole := OpenEnum ["unknown", "user", "assistant", "system", "critic", "discriminator", "developer",
  "tool"]

abbrev MessagePhase := OpenEnum ["commentary", "final_answer"]

abbrev ImageDetail := OpenEnum ["auto", "low", "high", "original"]

abbrev FileDetail := OpenEnum ["auto", "low", "high"]

abbrev ToolSearchExecution := OpenEnum ["server", "client"]

abbrev ApplyPatchCallStatus := OpenEnum ["in_progress", "completed"]

abbrev ApplyPatchCallOutputStatus := OpenEnum ["completed", "failed"]

/-- The payloads with a `type` that both families hold as they are. -/
inductive SharedTagged where
  | fileSearchCall
  | webSearchCall
  | computerCall
  | reasoning
  | program
  | programOutput
  | imageGenerationCall
  | codeInterpreterCall
  | localShellCall
  | localShellCallOutput
  | mcpListTools
  | mcpCall
  | mcpApprovalRequest
  | customToolCall
  | outputText

def SharedTagged.tag : SharedTagged → String
  | fileSearchCall => "file_search_call"
  | webSearchCall => "web_search_call"
  | computerCall => "computer_call"
  | reasoning => "reasoning"
  | program => "program"
  | programOutput => "program_output"
  | imageGenerationCall => "image_generation_call"
  | codeInterpreterCall => "code_interpreter_call"
  | localShellCall => "local_shell_call"
  | localShellCallOutput => "local_shell_call_output"
  | mcpListTools => "mcp_list_tools"
  | mcpCall => "mcp_call"
  | mcpApprovalRequest => "mcp_approval_request"
  | customToolCall => "custom_tool_call"
  | outputText => "output_text"

/-- The payloads that both families hold as they are. -/
inductive Shared where
  | tagged (kind : SharedTagged)
  | toolCallCaller
  | computerSafetyCheck
  | responseTool
  | functionShellEnvironment
  | functionShellCallOutputContent
  | applyPatchOperation
  | inputMessage

/-- The codecs of the shared payloads. -/
class Payloads (P : Shared → Type) where
  wire (name : Shared) : Wire (P name)
  tagged (kind : SharedTagged) : Tagged kind.tag (P (.tagged kind))

attribute [reducible, instance] Payloads.wire

attribute [instance] Payloads.tagged

structure PromptCacheBreakpoint where
  mode : LiteralTag "explicit"
  extra : ExtraFields

def PromptCacheBreakpoint.explicit : PromptCacheBreakpoint := { mode := .value, extra := .new }

instance PromptCacheBreakpoint.struct : Struct PromptCacheBreakpoint where
  Declared := _
  fields := .cons "mode" .nil
  declared value := (value.mode, ())
  extra value := value.extra
  make := fun (mode, ()) extra => { mode, extra }

structure InputText where
  kind : LiteralTag "input_text"
  text : String
  promptCacheBreakpoint : Omittable (Nullable PromptCacheBreakpoint)
  extra : ExtraFields

instance InputText.struct : Struct InputText where
  Declared := _
  fields := .cons "type" <| .cons "text" <| .cons "prompt_cache_breakpoint" .nil
  declared value := (value.kind, value.text, value.promptCacheBreakpoint, ())
  extra value := value.extra
  make := fun (kind, text, promptCacheBreakpoint, ()) extra => { kind, text, promptCacheBreakpoint, extra }

instance InputText.tagged : Tagged "input_text" InputText := Struct.tagged fun _ => List.mem_cons_self

structure InputImage where
  kind : LiteralTag "input_image"
  detail : ImageDetail
  imageUrl : Omittable (Nullable String)
  fileId : Omittable (Nullable String)
  promptCacheBreakpoint : Omittable (Nullable PromptCacheBreakpoint)
  extra : ExtraFields

instance InputImage.struct : Struct InputImage where
  Declared := _
  fields := .cons "type" <| .cons "detail" <| .cons "image_url" <| .cons "file_id" <|
    .cons "prompt_cache_breakpoint" .nil
  declared value := (value.kind, value.detail, value.imageUrl, value.fileId, value.promptCacheBreakpoint, ())
  extra value := value.extra
  make := fun (kind, detail, imageUrl, fileId, promptCacheBreakpoint, ()) extra =>
    { kind, detail, imageUrl, fileId, promptCacheBreakpoint, extra }

instance InputImage.tagged : Tagged "input_image" InputImage := Struct.tagged fun _ => List.mem_cons_self

structure InputImageParam where
  kind : LiteralTag "input_image"
  detail : Omittable (Nullable ImageDetail)
  imageUrl : Omittable (Nullable String)
  fileId : Omittable (Nullable String)
  promptCacheBreakpoint : Omittable (Nullable PromptCacheBreakpoint)
  extra : ExtraFields

instance InputImageParam.struct : Struct InputImageParam where
  Declared := _
  fields := .cons "type" <| .cons "detail" <| .cons "image_url" <| .cons "file_id" <|
    .cons "prompt_cache_breakpoint" .nil
  declared value := (value.kind, value.detail, value.imageUrl, value.fileId, value.promptCacheBreakpoint, ())
  extra value := value.extra
  make := fun (kind, detail, imageUrl, fileId, promptCacheBreakpoint, ()) extra =>
    { kind, detail, imageUrl, fileId, promptCacheBreakpoint, extra }

instance InputImageParam.tagged : Tagged "input_image" InputImageParam := Struct.tagged fun _ => List.mem_cons_self

/-- `From<InputImage>`. -/
def InputImageParam.ofInputImage (value : InputImage) : InputImageParam where
  kind := value.kind
  detail := .value (.value value.detail)
  imageUrl := value.imageUrl
  fileId := value.fileId
  promptCacheBreakpoint := value.promptCacheBreakpoint
  extra := value.extra

structure InputFile where
  kind : LiteralTag "input_file"
  fileId : Omittable (Nullable String)
  fileUrl : Omittable (Nullable String)
  fileData : Omittable (Nullable String)
  filename : Omittable (Nullable String)
  detail : Omittable FileDetail
  promptCacheBreakpoint : Omittable (Nullable PromptCacheBreakpoint)
  extra : ExtraFields

instance InputFile.struct : Struct InputFile where
  Declared := _
  fields := .cons "type" <| .cons "file_id" <| .cons "file_url" <| .cons "file_data" <| .cons "filename" <|
    .cons "detail" <| .cons "prompt_cache_breakpoint" .nil
  declared value := (value.kind, value.fileId, value.fileUrl, value.fileData, value.filename, value.detail,
    value.promptCacheBreakpoint, ())
  extra value := value.extra
  make := fun (kind, fileId, fileUrl, fileData, filename, detail, promptCacheBreakpoint, ()) extra =>
    { kind, fileId, fileUrl, fileData, filename, detail, promptCacheBreakpoint, extra }

instance InputFile.tagged : Tagged "input_file" InputFile := Struct.tagged fun _ => List.mem_cons_self

structure ComputerScreenshot where
  kind : LiteralTag "computer_screenshot"
  imageUrl : Omittable (Nullable String)
  fileId : Omittable (Nullable String)
  detail : Omittable ImageDetail
  promptCacheBreakpoint : Omittable PromptCacheBreakpoint
  extra : ExtraFields

instance ComputerScreenshot.struct : Struct ComputerScreenshot where
  Declared := _
  fields := .cons "type" <| .cons "image_url" <| .cons "file_id" <| .cons "detail" <|
    .cons "prompt_cache_breakpoint" .nil
  declared value := (value.kind, value.imageUrl, value.fileId, value.detail, value.promptCacheBreakpoint, ())
  extra value := value.extra
  make := fun (kind, imageUrl, fileId, detail, promptCacheBreakpoint, ()) extra =>
    { kind, imageUrl, fileId, detail, promptCacheBreakpoint, extra }

instance ComputerScreenshot.tagged : Tagged "computer_screenshot" ComputerScreenshot :=
  Struct.tagged fun _ => List.mem_cons_self

/-- A union over a text, an image and a file; the families differ in the image. -/
inductive PartUnion (Image : Type) where
  | text (value : InputText)
  | image (value : Image)
  | file (value : InputFile)
  | unknown (value : UnknownTaggedObject)

instance PartUnion.union {Image : Type} [Wire Image] [Tagged "input_image" Image] : TaggedUnion (PartUnion Image) where
  variants := [.of "input_text" .text, .of "input_image" .image, .of "input_file" .file]
  unknown := .unknown
  carried
    | .text value => .known value
    | .image value => .known value
    | .file value => .known value
    | .unknown value => .unknown value

abbrev EasyInputContent := PartUnion InputImage

abbrev FunctionCallOutputContent := PartUnion InputImageParam

/-- `From<EasyInputContent>`. -/
def FunctionCallOutputContent.ofEasyInputContent : EasyInputContent → FunctionCallOutputContent
  | .text text => .text text
  | .image image => .image (.ofInputImage image)
  | .file file => .file file
  | .unknown value => .unknown value

/-- An untagged union of a string and of content parts. -/
inductive TextOrParts (Part : Type) where
  | text (text : String)
  | content (parts : List Part)

instance TextOrParts.wire {Part : Type} [Wire Part] : Wire (TextOrParts Part) where
  serialize
    | .text s => serialize s
    | .content parts => serialize parts
  deserialize
    | .string s => some (.text s)
    | v => (deserialize v).map .content
  Valid
    | .text _ => True
    | .content parts => Valid parts
  valid_of_deserialize {v _} h := by
    split at h
    · cases h
      trivial
    · obtain ⟨parts, hparts, rfl⟩ := Option.map_eq_some_iff.mp h
      exact Wire.valid_of_deserialize hparts
  deserialize_serialize {value} h := by
    cases value with
    | text s => rfl
    | content parts => exact congrArg (Option.map TextOrParts.content) (Wire.deserialize_serialize h)
  isNull_serialize {v _} h := by
    split at h
    · cases h
      rfl
    · obtain ⟨parts, hparts, rfl⟩ := Option.map_eq_some_iff.mp h
      exact Wire.isNull_serialize hparts

abbrev FunctionCallOutputValue := TextOrParts EasyInputContent

abbrev FunctionCallOutputParamValue := TextOrParts FunctionCallOutputContent

/-- `From<FunctionCallOutputValue>`. -/
def FunctionCallOutputParamValue.ofFunctionCallOutputValue : FunctionCallOutputValue → FunctionCallOutputParamValue
  | .text text => .text text
  | .content parts => .content (parts.map .ofEasyInputContent)

structure FunctionShellAction where
  commands : List String
  timeoutMs : Nullable UInt64
  maxOutputLength : Nullable UInt64
  extra : ExtraFields

instance FunctionShellAction.struct : Struct FunctionShellAction where
  Declared := _
  fields := .cons "commands" <| .cons "timeout_ms" <| .cons "max_output_length" .nil
  declared value := (value.commands, value.timeoutMs, value.maxOutputLength, ())
  extra value := value.extra
  make := fun (commands, timeoutMs, maxOutputLength, ()) extra => { commands, timeoutMs, maxOutputLength, extra }

structure FunctionShellActionParam where
  commands : List String
  timeoutMs : Omittable (Nullable UInt64)
  maxOutputLength : Omittable (Nullable UInt64)
  extra : ExtraFields

instance FunctionShellActionParam.struct : Struct FunctionShellActionParam where
  Declared := _
  fields := .cons "commands" <| .cons "timeout_ms" <| .cons "max_output_length" .nil
  declared value := (value.commands, value.timeoutMs, value.maxOutputLength, ())
  extra value := value.extra
  make := fun (commands, timeoutMs, maxOutputLength, ()) extra => { commands, timeoutMs, maxOutputLength, extra }

/-- `From<FunctionShellAction>`. -/
def FunctionShellActionParam.ofFunctionShellAction (value : FunctionShellAction) : FunctionShellActionParam where
  commands := value.commands
  timeoutMs := .value value.timeoutMs
  maxOutputLength := .value value.maxOutputLength
  extra := value.extra

/-! ## The parameter forms are written like the resource forms -/

section Forms

theorem serialize_ofInputImage (value : InputImage) :
    serialize (InputImageParam.ofInputImage value) = serialize value := rfl

theorem valid_ofInputImage {value : InputImage} (h : Valid value) : Valid (InputImageParam.ofInputImage value) := by
  obtain ⟨⟨hkind, hdetail, hrest⟩, hextra⟩ := h
  exact ⟨⟨hkind, ⟨hdetail, rfl⟩, hrest⟩, hextra⟩

@[simp] theorem serialize_ofFunctionShellAction (value : FunctionShellAction) :
    serialize (FunctionShellActionParam.ofFunctionShellAction value) = serialize value := rfl

theorem valid_ofFunctionShellAction {value : FunctionShellAction} (h : Valid value) :
    Valid (FunctionShellActionParam.ofFunctionShellAction value) := h

theorem serialize_ofEasyInputContent (part : EasyInputContent) :
    serialize (FunctionCallOutputContent.ofEasyInputContent part) = serialize part := by
  cases part with
  | image image => exact serialize_ofInputImage image
  | _ => rfl

theorem valid_ofEasyInputContent {part : EasyInputContent} (h : Valid part) :
    Valid (FunctionCallOutputContent.ofEasyInputContent part) := by
  cases part with
  | text text => exact h
  | image image => exact valid_ofInputImage h
  | file file => exact h
  | unknown value => exact h

@[simp] theorem serialize_ofFunctionCallOutputValue (value : FunctionCallOutputValue) :
    serialize (FunctionCallOutputParamValue.ofFunctionCallOutputValue value) = serialize value := by
  cases value with
  | text text => rfl
  | content parts =>
      change Value.array ((parts.map FunctionCallOutputContent.ofEasyInputContent).map serialize) =
        Value.array (parts.map serialize)
      rw [List.map_map]
      congr 1
      exact List.map_congr_left fun part _ => serialize_ofEasyInputContent part

theorem valid_ofFunctionCallOutputValue {value : FunctionCallOutputValue} (h : Valid value) :
    Valid (FunctionCallOutputParamValue.ofFunctionCallOutputValue value) := by
  cases value with
  | text text => trivial
  | content parts =>
      intro part hpart
      obtain ⟨old, hold, rfl⟩ := List.mem_map.mp hpart
      exact valid_ofEasyInputContent (h old hold)

end Forms

end OpenaiRs.Replay
