import OpenaiRs.Rust.Str

/-!
# Typed events of the Responses stream

The event union of `openai-rs-types/src/responses.rs` with the payload fields that
the stream readers and the accumulator look at.

## Implementation notes

Events from which only the item identity is read share one payload and differ in
their kind, and so do the events without item identity and the output items with
a plain id. Sequence numbers and indices are `u64` in the source; they are only
compared here and are natural numbers.
-/

namespace OpenaiRs.Responses

open Rust

/-- One content part in an assistant output message. Only the text is read. -/
inductive OutputContent where
  | text (value : String)
  | refusal
  | reasoningText
  | unknown
  deriving DecidableEq

/-- The text of a text part. -/
def OutputContent.text? : OutputContent → Option String
  | .text value => some value
  | .refusal => none
  | .reasoningText => none
  | .unknown => none

structure OutputMessage where
  id : String
  content : List OutputContent
  deriving DecidableEq

/-- All text parts of a message, in order. -/
def OutputMessage.textParts (m : OutputMessage) : List String := m.content.filterMap OutputContent.text?

/-- A function call. The item id may be omitted on the wire. -/
structure FunctionCall where
  id : Option String
  arguments : String
  deriving DecidableEq

/-- Output items that carry a plain `id` and nothing else that is read here. -/
inductive IdentifiedItemKind where
  | fileSearchCall
  | functionCallOutput
  | webSearchCall
  | computerCall
  | computerCallOutput
  | reasoning
  | program
  | programOutput
  | toolSearchCall
  | toolSearchOutput
  | additionalTools
  | compaction
  | imageGenerationCall
  | codeInterpreterCall
  | localShellCall
  | localShellCallOutput
  | functionShellCall
  | functionShellCallOutput
  | applyPatchCall
  | applyPatchCallOutput
  | mcpCall
  | mcpListTools
  | mcpApprovalRequest
  | mcpApprovalResponse
  | customToolCallOutput
  deriving DecidableEq

/-- One typed item generated by a response. -/
inductive ResponseOutputItem where
  | message (message : OutputMessage)
  | functionCall (call : FunctionCall)
  | identified (kind : IdentifiedItemKind) (id : String)
  | customToolCall
  | unknown (rawId : Option String)
  deriving DecidableEq

/-- The id under which an item is bound, if it has one. -/
def responseOutputItemId : ResponseOutputItem → Option String
  | .message message => some message.id
  | .functionCall call => call.id
  | .identified _ id => some id
  | .customToolCall => none
  | .unknown rawId => rawId

/-- A response snapshot. -/
structure Response where
  id : String
  output : List ResponseOutputItem
  deriving DecidableEq

/-- The text of all messages of a response. -/
def Response.outputText (r : Response) : String :=
  String.join (r.output.flatMap fun
    | .message message => message.textParts
    | _ => [])

/-- Events that name an output item and carry nothing else that is read here. -/
inductive ItemEventKind where
  | refusalDelta
  | refusalDone
  | mcpCallArgumentsDelta
  | mcpCallArgumentsDone
  | mcpCallInProgress
  | mcpCallCompleted
  | mcpCallFailed
  | mcpListToolsInProgress
  | mcpListToolsCompleted
  | mcpListToolsFailed
  | codeInterpreterCodeDelta
  | codeInterpreterCodeDone
  | codeInterpreterCompleted
  | codeInterpreterInProgress
  | codeInterpreterInterpreting
  | fileSearchCompleted
  | fileSearchInProgress
  | fileSearchSearching
  | shellOutputContentDelta
  | shellOutputContentDone
  | reasoningSummaryPartAdded
  | reasoningSummaryPartDone
  | reasoningSummaryTextDelta
  | reasoningSummaryTextDone
  | reasoningTextDelta
  | reasoningTextDone
  | webSearchCompleted
  | webSearchInProgress
  | webSearchSearching
  | imageGenerationCompleted
  | imageGenerationGenerating
  | imageGenerationInProgress
  | imageGenerationPartialImage
  | outputTextAnnotationAdded
  | customToolCallInputDelta
  | customToolCallInputDone
  deriving DecidableEq

/-- Events that name no output item. -/
inductive UnboundEventKind where
  | audioDelta
  | audioDone
  | audioTranscriptDelta
  | audioTranscriptDone
  | shellCommandAdded
  | shellCommandDelta
  | shellCommandDone
  deriving DecidableEq

/-- The part of an event that names its output item. -/
structure ItemEvent where
  sequenceNumber : Nat
  outputIndex : Nat
  itemId : String
  deriving DecidableEq

/-- A lifecycle event with its response snapshot. -/
structure LifecycleEvent where
  sequenceNumber : Nat
  response : Response
  deriving DecidableEq

structure OutputItemEvent where
  sequenceNumber : Nat
  outputIndex : Nat
  item : ResponseOutputItem
  deriving DecidableEq

structure ContentPartEvent extends ItemEvent where
  contentIndex : Nat
  part : OutputContent
  deriving DecidableEq

/-- An output text event; `text` is the delta or the final text. -/
structure OutputTextEvent extends ItemEvent where
  contentIndex : Nat
  text : String
  deriving DecidableEq

/-- A function arguments event; `arguments` is the delta or the final text. -/
structure FunctionArgumentsEvent extends ItemEvent where
  arguments : String
  deriving DecidableEq

/-- A standalone streaming error event. -/
structure StreamErrorEvent where
  code : Option String
  message : String
  param : Option String
  sequenceNumber : Nat
  deriving DecidableEq

/-- A future event: its `type` string and its `sequence_number`, if that is an integer. -/
structure UnknownEvent where
  type : Bytes
  sequenceNumber : Option Nat
  deriving DecidableEq

/-- An event emitted by the Responses SSE protocol. -/
inductive ResponseStreamEvent where
  | queued (event : LifecycleEvent)
  | created (event : LifecycleEvent)
  | inProgress (event : LifecycleEvent)
  | completed (event : LifecycleEvent)
  | failed (event : LifecycleEvent)
  | incomplete (event : LifecycleEvent)
  | outputItemAdded (event : OutputItemEvent)
  | outputItemDone (event : OutputItemEvent)
  | contentPartAdded (event : ContentPartEvent)
  | contentPartDone (event : ContentPartEvent)
  | outputTextDelta (event : OutputTextEvent)
  | outputTextDone (event : OutputTextEvent)
  | functionCallArgumentsDelta (event : FunctionArgumentsEvent)
  | functionCallArgumentsDone (event : FunctionArgumentsEvent)
  | item (kind : ItemEventKind) (event : ItemEvent)
  | unbound (kind : UnboundEventKind) (sequenceNumber : Nat)
  | error (event : StreamErrorEvent)
  | unknown (event : UnknownEvent)
  deriving DecidableEq

def ItemEventKind.wire : ItemEventKind → Bytes
  | .refusalDelta => utf8 "response.refusal.delta"
  | .refusalDone => utf8 "response.refusal.done"
  | .mcpCallArgumentsDelta => utf8 "response.mcp_call_arguments.delta"
  | .mcpCallArgumentsDone => utf8 "response.mcp_call_arguments.done"
  | .mcpCallInProgress => utf8 "response.mcp_call.in_progress"
  | .mcpCallCompleted => utf8 "response.mcp_call.completed"
  | .mcpCallFailed => utf8 "response.mcp_call.failed"
  | .mcpListToolsInProgress => utf8 "response.mcp_list_tools.in_progress"
  | .mcpListToolsCompleted => utf8 "response.mcp_list_tools.completed"
  | .mcpListToolsFailed => utf8 "response.mcp_list_tools.failed"
  | .codeInterpreterCodeDelta => utf8 "response.code_interpreter_call_code.delta"
  | .codeInterpreterCodeDone => utf8 "response.code_interpreter_call_code.done"
  | .codeInterpreterCompleted => utf8 "response.code_interpreter_call.completed"
  | .codeInterpreterInProgress => utf8 "response.code_interpreter_call.in_progress"
  | .codeInterpreterInterpreting => utf8 "response.code_interpreter_call.interpreting"
  | .fileSearchCompleted => utf8 "response.file_search_call.completed"
  | .fileSearchInProgress => utf8 "response.file_search_call.in_progress"
  | .fileSearchSearching => utf8 "response.file_search_call.searching"
  | .shellOutputContentDelta => utf8 "response.shell_call_output_content.delta"
  | .shellOutputContentDone => utf8 "response.shell_call_output_content.done"
  | .reasoningSummaryPartAdded => utf8 "response.reasoning_summary_part.added"
  | .reasoningSummaryPartDone => utf8 "response.reasoning_summary_part.done"
  | .reasoningSummaryTextDelta => utf8 "response.reasoning_summary_text.delta"
  | .reasoningSummaryTextDone => utf8 "response.reasoning_summary_text.done"
  | .reasoningTextDelta => utf8 "response.reasoning_text.delta"
  | .reasoningTextDone => utf8 "response.reasoning_text.done"
  | .webSearchCompleted => utf8 "response.web_search_call.completed"
  | .webSearchInProgress => utf8 "response.web_search_call.in_progress"
  | .webSearchSearching => utf8 "response.web_search_call.searching"
  | .imageGenerationCompleted => utf8 "response.image_generation_call.completed"
  | .imageGenerationGenerating => utf8 "response.image_generation_call.generating"
  | .imageGenerationInProgress => utf8 "response.image_generation_call.in_progress"
  | .imageGenerationPartialImage => utf8 "response.image_generation_call.partial_image"
  | .outputTextAnnotationAdded => utf8 "response.output_text.annotation.added"
  | .customToolCallInputDelta => utf8 "response.custom_tool_call_input.delta"
  | .customToolCallInputDone => utf8 "response.custom_tool_call_input.done"

def UnboundEventKind.wire : UnboundEventKind → Bytes
  | .audioDelta => utf8 "response.audio.delta"
  | .audioDone => utf8 "response.audio.done"
  | .audioTranscriptDelta => utf8 "response.audio.transcript.delta"
  | .audioTranscriptDone => utf8 "response.audio.transcript.done"
  | .shellCommandAdded => utf8 "response.shell_call_command.added"
  | .shellCommandDelta => utf8 "response.shell_call_command.delta"
  | .shellCommandDone => utf8 "response.shell_call_command.done"

namespace ResponseStreamEvent

/-- The wire discriminator of the variant. -/
def wire : ResponseStreamEvent → Bytes
  | queued _ => utf8 "response.queued"
  | created _ => utf8 "response.created"
  | inProgress _ => utf8 "response.in_progress"
  | completed _ => utf8 "response.completed"
  | failed _ => utf8 "response.failed"
  | incomplete _ => utf8 "response.incomplete"
  | outputItemAdded _ => utf8 "response.output_item.added"
  | outputItemDone _ => utf8 "response.output_item.done"
  | contentPartAdded _ => utf8 "response.content_part.added"
  | contentPartDone _ => utf8 "response.content_part.done"
  | outputTextDelta _ => utf8 "response.output_text.delta"
  | outputTextDone _ => utf8 "response.output_text.done"
  | functionCallArgumentsDelta _ => utf8 "response.function_call_arguments.delta"
  | functionCallArgumentsDone _ => utf8 "response.function_call_arguments.done"
  | item kind _ => kind.wire
  | unbound kind _ => kind.wire
  | error _ => utf8 "error"
  | unknown event => event.type

/-- Whether this event ends a response lifecycle. -/
def isTerminal : ResponseStreamEvent → Bool
  | completed _ => true
  | failed _ => true
  | incomplete _ => true
  | error _ => true
  | _ => false

/-- Whether this is the standalone SSE error event. -/
def isError : ResponseStreamEvent → Bool
  | error _ => true
  | _ => false

/-- Whether this is a future event. -/
def isUnknown : ResponseStreamEvent → Bool
  | unknown _ => true
  | _ => false

/-- The event sequence number when it is known. -/
def sequenceNumber : ResponseStreamEvent → Option Nat
  | queued event => some event.sequenceNumber
  | created event => some event.sequenceNumber
  | inProgress event => some event.sequenceNumber
  | completed event => some event.sequenceNumber
  | failed event => some event.sequenceNumber
  | incomplete event => some event.sequenceNumber
  | outputItemAdded event => some event.sequenceNumber
  | outputItemDone event => some event.sequenceNumber
  | contentPartAdded event => some event.sequenceNumber
  | contentPartDone event => some event.sequenceNumber
  | outputTextDelta event => some event.sequenceNumber
  | outputTextDone event => some event.sequenceNumber
  | functionCallArgumentsDelta event => some event.sequenceNumber
  | functionCallArgumentsDone event => some event.sequenceNumber
  | item _ event => some event.sequenceNumber
  | unbound _ sequenceNumber => some sequenceNumber
  | error event => some event.sequenceNumber
  | unknown event => event.sequenceNumber

end ResponseStreamEvent

end OpenaiRs.Responses
