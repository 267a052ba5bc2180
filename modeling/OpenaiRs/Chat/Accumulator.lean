import OpenaiRs.Chat.Delta
import OpenaiRs.Rust.BTreeMap

/-!
# The chat completion accumulator

`ChatCompletionAccumulator` of `openai-rs-client/src/chat_accumulator.rs`: the reducer of a
stream of chat completion chunks. Choices are addressed by their index, and the tool calls
of a choice by theirs.

## Implementation notes

Typed payloads that the fold only encodes (log probability tokens, usage, service tier,
moderation) are given as the JSON they encode to. Indices are natural numbers.
-/

namespace OpenaiRs.Chat

open Serde Rust

section Types

/-- Role carried by chat messages and streaming deltas. -/
inductive ChatRole where
  | developer
  | system
  | user
  | assistant
  | tool
  | function
  | unknown (value : String)
  deriving DecidableEq

def ChatRole.asStr : ChatRole → String
  | developer => "developer"
  | system => "system"
  | user => "user"
  | assistant => "assistant"
  | tool => "tool"
  | function => "function"
  | unknown value => value

/-- Why a choice stopped producing tokens. -/
inductive ChatFinishReason where
  | stop
  | length
  | toolCalls
  | contentFilter
  | functionCall
  | unknown (value : String)
  deriving DecidableEq

def ChatFinishReason.asStr : ChatFinishReason → String
  | stop => "stop"
  | length => "length"
  | toolCalls => "tool_calls"
  | contentFilter => "content_filter"
  | functionCall => "function_call"
  | unknown value => value

/-- Kind of a tool call. -/
inductive ChatToolKind where
  | function
  | custom
  | unknown (value : String)
  deriving DecidableEq

def ChatToolKind.asStr : ChatToolKind → String
  | function => "function"
  | custom => "custom"
  | unknown value => value

/-- Object discriminator of chat completion responses. -/
inductive ChatCompletionObject where
  | completion
  | chunk
  | unknown (value : String)
  deriving DecidableEq

/-- Partial function payload of a streamed tool call. -/
structure ChatFunctionCallDelta where
  name : Omittable String
  arguments : Omittable String

/-- Indexed partial tool call in a stream delta. -/
structure ChatToolCallChunk where
  index : Nat
  id : Omittable String
  kind : Omittable ChatToolKind
  function : Omittable ChatFunctionCallDelta
  extra : Map

/-- Message delta carried by a stream chunk. -/
structure ChatCompletionDelta where
  content : Omittable (Nullable String)
  functionCall : Omittable ChatFunctionCallDelta
  toolCalls : Omittable (List ChatToolCallChunk)
  role : Omittable ChatRole
  refusal : Omittable (Nullable String)
  extra : Map

structure ChatChoiceLogprobs where
  content : Nullable (List Value)
  refusal : Nullable (List Value)

/-- One choice in a streamed chunk. -/
structure ChatCompletionChunkChoice where
  delta : ChatCompletionDelta
  finishReason : Nullable ChatFinishReason
  index : Nat
  logprobs : Omittable (Nullable ChatChoiceLogprobs)
  extra : Map

structure ChatCompletionChunk where
  id : String
  choices : List ChatCompletionChunkChoice
  created : Nat
  model : String
  object : ChatCompletionObject
  serviceTier : Omittable Value
  systemFingerprint : Omittable String
  usage : Omittable (Nullable Value)
  moderation : Omittable Value
  extra : Map

end Types

/-- Append a text delta to a text that may not have begun. -/
def pushText (accumulated : Option String) (text : String) : Option String :=
  match accumulated with
  | some old => some (old ++ text)
  | none => some text

section ToolCalls

/-- Fold state of a tool call. -/
structure ToolCallState where
  id : Option String
  kind : Option ChatToolKind
  functionSeen : Bool
  name : Option String
  arguments : String
  extra : Map

namespace ToolCallState

def default : ToolCallState := ⟨none, none, false, none, "", []⟩

def observe (s : ToolCallState) (call : ChatToolCallChunk) : ToolCallState :=
  let s := if s.id.isNone then { s with id := call.id.toOption } else s
  let s := if s.kind.isNone then { s with kind := call.kind.toOption } else s
  let s :=
    match call.function with
    | .omitted => s
    | .value function =>
        let s := { s with functionSeen := true }
        let s := if s.name.isNone then { s with name := function.name.toOption } else s
        match function.arguments with
        | .omitted => s
        | .value arguments => { s with arguments := s.arguments ++ arguments }
  { s with extra := mergeExtra s.extra call.extra }

def identity (s : ToolCallState) : Value := .string (s.id.getD "")

def insertFunction (s : ToolCallState) (call : Map) : Map :=
  ((call.insert "type" (.string "function")).insert "id" s.identity).insert "function"
    (.object [("name", .string (s.name.getD "")), ("arguments", .string s.arguments)])

/-- The folded `custom` payload, read from the merged unknown fields. -/
def customInvocation (s : ToolCallState) : String × String :=
  match (s.extra.get "custom").bind Value.asObject with
  | none => ("", "")
  | some custom =>
      (((Map.get custom "name").bind Value.asStr).getD "",
        ((Map.get custom "input").bind Value.asStr).getD "")

/-- The tool call as a JSON object. A bare index, without a kind and a function payload, is
left out. -/
def snapshot (s : ToolCallState) (passthrough : Bool) : Option Value :=
  let call : Option Map :=
    match s.kind with
    | some .custom =>
        some ([("type", .string "custom"), ("id", s.identity),
          ("custom", .object [("name", .string s.customInvocation.1),
            ("input", .string s.customInvocation.2)])])
    | some .function => some (s.insertFunction [])
    | some kind => some [("type", .string kind.asStr), ("id", s.identity)]
    | none => if s.functionSeen then some (s.insertFunction []) else none
  call.map fun call => .object (if passthrough then insertFirstSeen call s.extra else call)

end ToolCallState

end ToolCalls

section Choices

/-- Fold state of the deprecated single function call. -/
structure LegacyFunctionCallState where
  name : Option String
  arguments : String

structure LogprobsState where
  content : Option (List Value)
  refusal : Option (List Value)

/-- Fold state of a choice. -/
structure ChoiceState where
  role : Option ChatRole
  content : Option String
  refusal : Option (Nullable String)
  finishReason : Option ChatFinishReason
  toolCallsSeen : Bool
  toolCalls : Std.ExtTreeMap Nat ToolCallState
  legacyFunctionCall : Option LegacyFunctionCallState
  logprobs : Option LogprobsState
  extra : Map
  messageExtra : Map

/-- Extend a list of tokens that may not have begun. -/
def extendTokens (accumulated : Option (List Value)) : Nullable (List Value) → Option (List Value)
  | .null => accumulated
  | .value tokens => some (accumulated.getD [] ++ tokens)

def observeLogprobs (state : Option LogprobsState) :
    Omittable (Nullable ChatChoiceLogprobs) → Option LogprobsState
  | .value (.value logprobs) =>
      let state := state.getD ⟨none, none⟩
      some ⟨extendTokens state.content logprobs.content, extendTokens state.refusal logprobs.refusal⟩
  | _ => state

/-- A `null` marks the refusal as seen, and text behind it starts the refusal. -/
def observeRefusal (state : Option (Nullable String)) :
    Omittable (Nullable String) → Option (Nullable String)
  | .omitted => state
  | .value .null => state.or (some .null)
  | .value (.value text) =>
      match state with
      | some (.value accumulated) => some (.value (accumulated ++ text))
      | _ => some (.value text)

def observeFunctionCall (state : Option LegacyFunctionCallState) :
    Omittable ChatFunctionCallDelta → Option LegacyFunctionCallState
  | .omitted => state
  | .value functionCall =>
      let state := state.getD ⟨none, ""⟩
      let state := if state.name.isNone then { state with name := functionCall.name.toOption } else state
      some { state with arguments := state.arguments ++ (functionCall.arguments.toOption.getD "") }

namespace ChoiceState

def default : ChoiceState := ⟨none, none, none, none, false, ∅, none, none, [], []⟩

def observe (s : ChoiceState) (choice : ChatCompletionChunkChoice) : ChoiceState :=
  let delta := choice.delta
  { role := delta.role.toOption.or s.role
    content :=
      match delta.content with
      | .value (.value text) => pushText s.content text
      | _ => s.content
    refusal := observeRefusal s.refusal delta.refusal
    finishReason := choice.finishReason.toOption.or s.finishReason
    toolCallsSeen := s.toolCallsSeen || delta.toolCalls.toOption.isSome
    toolCalls := foldEntries ChatToolCallChunk.index ToolCallState.observe ToolCallState.default
      s.toolCalls (delta.toolCalls.toOption.getD [])
    legacyFunctionCall := observeFunctionCall s.legacyFunctionCall delta.functionCall
    logprobs := observeLogprobs s.logprobs choice.logprobs
    extra := insertFirstSeen s.extra choice.extra
    messageExtra := mergeExtra s.messageExtra delta.extra }

def tokensValue : Option (List Value) → Value
  | some items => .array items
  | none => .null

def logprobsValue (s : ChoiceState) : Value :=
  match s.logprobs with
  | none => .null
  | some state => .object [("content", tokensValue state.content), ("refusal", tokensValue state.refusal)]

/-- The tool calls of a choice, in the order of their indices. -/
def toolCallValues (s : ChoiceState) (passthrough : Bool) : List Value :=
  (values s.toolCalls).filterMap fun call => call.snapshot passthrough

def message (s : ChoiceState) (passthrough : Bool) : Map :=
  let message : Map :=
    [("role", .string ((s.role.map ChatRole.asStr).getD ChatRole.assistant.asStr)),
      ("content", match s.content with | some content => .string content | none => .null)]
  let message :=
    match s.refusal with
    | none => message
    | some .null => message.insert "refusal" .null
    | some (.value text) => message.insert "refusal" (.string text)
  let message :=
    if s.toolCallsSeen then message.insert "tool_calls" (.array (s.toolCallValues passthrough))
    else message
  let message :=
    match s.legacyFunctionCall with
    | none => message
    | some functionCall =>
        message.insert "function_call"
          (.object [("name", .string (functionCall.name.getD "")),
            ("arguments", .string functionCall.arguments)])
  if passthrough then insertFirstSeen message s.messageExtra else message

def snapshot (s : ChoiceState) (index : Nat) (passthrough : Bool) : Value :=
  let choice : Map :=
    [("finish_reason",
        .string ((s.finishReason.map ChatFinishReason.asStr).getD ChatFinishReason.stop.asStr)),
      ("index", .number (.posInt (UInt64.ofNat index))),
      ("message", .object (s.message passthrough)),
      ("logprobs", s.logprobsValue)]
  .object (if passthrough then insertFirstSeen choice s.extra else choice)

end ChoiceState

end Choices

section Accumulator

/-- Completion-level state shared by every chunk. -/
structure TopLevelState where
  id : Option String
  created : Option Nat
  model : Option String
  serviceTier : Option Value
  systemFingerprint : Option String
  usage : Option Value
  moderation : Option Value
  extra : Map

namespace TopLevelState

def default : TopLevelState := ⟨none, none, none, none, none, none, none, []⟩

def observe (s : TopLevelState) (chunk : ChatCompletionChunk) : TopLevelState where
  id := s.id.or (some chunk.id)
  created := s.created.or (some chunk.created)
  model := s.model.or (some chunk.model)
  serviceTier := s.serviceTier.or chunk.serviceTier.toOption
  systemFingerprint := chunk.systemFingerprint.toOption.or s.systemFingerprint
  usage := chunk.usage.present.or s.usage
  moderation := s.moderation.or chunk.moderation.toOption
  extra := insertFirstSeen s.extra chunk.extra

end TopLevelState

/-- Stateful reducer folding chat completion chunks into a completion. -/
structure ChatCompletionAccumulator where
  top : TopLevelState
  choices : Std.ExtTreeMap Nat ChoiceState
  started : Bool
  done : Bool

namespace ChatCompletionAccumulator

def new : ChatCompletionAccumulator := ⟨TopLevelState.default, ∅, false, false⟩

/-- Fold one chunk. Objects that are no chunk are skipped. -/
def push (s : ChatCompletionAccumulator) (chunk : ChatCompletionChunk) : ChatCompletionAccumulator :=
  if chunk.object ≠ .chunk then s
  else
    { s with
      started := true
      top := s.top.observe chunk
      choices := foldEntries ChatCompletionChunkChoice.index ChoiceState.observe ChoiceState.default
        s.choices chunk.choices }

def pushAll (s : ChatCompletionAccumulator) (chunks : List ChatCompletionChunk) :
    ChatCompletionAccumulator :=
  chunks.foldl push s

/-- The choices of the snapshot, in the order of their indices. -/
def choiceValues (s : ChatCompletionAccumulator) (passthrough : Bool) : List Value :=
  s.choices.toList.map fun entry => entry.2.snapshot entry.1 passthrough

def snapshotObject (s : ChatCompletionAccumulator) (passthrough : Bool) : Map :=
  let object : Map :=
    [("id", .string (s.top.id.getD "")),
      ("created", .number (.posInt (UInt64.ofNat (s.top.created.getD 0)))),
      ("model", .string (s.top.model.getD "")),
      ("object", .string "chat.completion"),
      ("choices", .array (s.choiceValues passthrough))]
  let object := if passthrough then insertFirstSeen object s.top.extra else object
  let object := (s.top.serviceTier.map (object.insert "service_tier")).getD object
  let object := (s.top.systemFingerprint.map fun fingerprint =>
    object.insert "system_fingerprint" (.string fingerprint)).getD object
  let object := (s.top.usage.map (object.insert "usage")).getD object
  (s.top.moderation.map (object.insert "moderation")).getD object

/-- Whether a finish reason or the sentinel was observed. -/
def isDone (s : ChatCompletionAccumulator) : Bool :=
  s.done || (values s.choices).any (·.finishReason.isSome)

def markDone (s : ChatCompletionAccumulator) : ChatCompletionAccumulator := { s with done := true }

/-- The completion so far, decoded without the passthrough members if it cannot be decoded with them. -/
def snapshot {Completion : Type} (fromValue : Value → Option Completion) (s : ChatCompletionAccumulator) :
    Option Completion :=
  if !s.started then none
  else (fromValue (.object (s.snapshotObject true))).or (fromValue (.object (s.snapshotObject false)))

end ChatCompletionAccumulator

end Accumulator

end OpenaiRs.Chat
