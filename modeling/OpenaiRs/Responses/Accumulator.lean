import OpenaiRs.Responses.Event
import OpenaiRs.Rust.BTreeMap
import OpenaiRs.Rust.Update

/-!
# The response accumulator

`ResponseAccumulator` of `openai-rs-types/src/responses.rs`: the reducer of one ordered
Responses event stream. It binds every output index to the id of its item, collects the
text of every content part and the arguments of every function call, and keeps the latest
response snapshot.

## Implementation notes

The methods on `&mut self` are updates: an error leaves the changes made before it. Of an
event only the fields that `push` reads are modelled.
-/

namespace OpenaiRs.Responses

open Rust

structure AccumulatedText where
  itemId : String
  text : String
  deriving DecidableEq

structure AccumulatedArguments where
  itemId : String
  arguments : String
  deriving DecidableEq

/-- Stateful reducer for a single ordered Responses event stream. -/
structure ResponseAccumulator where
  lastSequenceNumber : Option Nat
  itemIds : Std.ExtTreeMap Nat String
  text : Std.ExtTreeMap (Nat × Nat) AccumulatedText lexOrder
  functionArguments : Std.ExtTreeMap Nat AccumulatedArguments
  snapshot : Option Response
  terminal : Bool

/-- Error produced while reducing a Responses event stream. -/
inductive ResponseAccumulatorError where
  | duplicateSequence (sequenceNumber : Nat)
  | nonMonotonicSequence (previous received : Nat)
  | eventAfterTerminal
  | itemIdentityMismatch (outputIndex : Nat) (expected received : String)
  | contentIdentityMismatch (outputIndex contentIndex : Nat) (expected received : String)
  | stream (code : Option String) (message : String) (param : Option String) (sequenceNumber : Nat)
  | missingTerminal
  deriving DecidableEq

namespace ResponseAccumulator

/-- A method that changes the accumulator or fails. -/
abbrev Method := Update ResponseAccumulatorError ResponseAccumulator

def new : ResponseAccumulator := ⟨none, ∅, ∅, ∅, none, false⟩

def bindItem (outputIndex : Nat) (itemId : String) : Method := fun s =>
  match s.itemIds[outputIndex]? with
  | some expected =>
      if expected ≠ itemId then (s, .error (.itemIdentityMismatch outputIndex expected itemId))
      else (s, .ok ())
  | none => ({ s with itemIds := s.itemIds.insert outputIndex itemId }, .ok ())

/-- `self.text.insert(key, part)` -/
def insertText (s : ResponseAccumulator) (key : Nat × Nat) (part : AccumulatedText) :
    ResponseAccumulator :=
  { s with text := s.text.insert key part }

/-- `self.function_arguments.insert(output_index, current)` -/
def insertArguments (s : ResponseAccumulator) (outputIndex : Nat) (current : AccumulatedArguments) :
    ResponseAccumulator :=
  { s with functionArguments := s.functionArguments.insert outputIndex current }

def appendText (outputIndex contentIndex : Nat) (itemId delta : String) : Method := fun s =>
  match s.text[(outputIndex, contentIndex)]? with
  | some part =>
      if part.itemId ≠ itemId then
        (s, .error (.contentIdentityMismatch outputIndex contentIndex part.itemId itemId))
      else
        (s.insertText (outputIndex, contentIndex) ⟨part.itemId, part.text ++ delta⟩, .ok ())
  | none => (s.insertText (outputIndex, contentIndex) ⟨itemId, delta⟩, .ok ())

def setText (outputIndex contentIndex : Nat) (itemId text : String) : Method := fun s =>
  match s.text[(outputIndex, contentIndex)]? with
  | some part =>
      if part.itemId ≠ itemId then
        (s, .error (.contentIdentityMismatch outputIndex contentIndex part.itemId itemId))
      else (s.insertText (outputIndex, contentIndex) ⟨itemId, text⟩, .ok ())
  | none => (s.insertText (outputIndex, contentIndex) ⟨itemId, text⟩, .ok ())

def appendFunctionArguments (outputIndex : Nat) (itemId delta : String) : Method := fun s =>
  match s.functionArguments[outputIndex]? with
  | some current =>
      if current.itemId ≠ itemId then
        (s, .error (.itemIdentityMismatch outputIndex current.itemId itemId))
      else
        (s.insertArguments outputIndex ⟨current.itemId, current.arguments ++ delta⟩, .ok ())
  | none => (s.insertArguments outputIndex ⟨itemId, delta⟩, .ok ())

def setFunctionArguments (outputIndex : Nat) (itemId arguments : String) : Method := fun s =>
  match s.functionArguments[outputIndex]? with
  | some current =>
      if current.itemId ≠ itemId then
        (s, .error (.itemIdentityMismatch outputIndex current.itemId itemId))
      else (s.insertArguments outputIndex ⟨itemId, arguments⟩, .ok ())
  | none => (s.insertArguments outputIndex ⟨itemId, arguments⟩, .ok ())

/-- Bind an output item and take over its text parts or its arguments. -/
def observeOutputItem (outputIndex : Nat) (item : ResponseOutputItem) : Method :=
  (match responseOutputItemId item with
    | some itemId => bindItem outputIndex itemId
    | none => Update.skip).andThen
  (match item with
    | .message message =>
        Update.all (message.content.zipIdx.map fun entry : OutputContent × Nat =>
          match entry.1 with
          | .text text => setText outputIndex entry.2 message.id text
          | _ => Update.skip)
    | .functionCall call =>
        match call.id with
        | some itemId => setFunctionArguments outputIndex itemId call.arguments
        | none => Update.skip
    | _ => Update.skip)

/-- Observe the items of a lifecycle response one by one, then keep it as snapshot. -/
def acceptResponse (response : Response) (terminal : Bool) : Method :=
  (Update.all (response.output.zipIdx.map fun entry => observeOutputItem entry.2 entry.1)).andThen
    fun s => ({ s with snapshot := some response, terminal := terminal }, .ok ())

/-- Record a known sequence number, which has to be larger than the last one. -/
def checkSequence (event : ResponseStreamEvent) : Method := fun s =>
  match event.sequenceNumber with
  | none => (s, .ok ())
  | some sequenceNumber =>
      match s.lastSequenceNumber with
      | some previous =>
          if sequenceNumber = previous then (s, .error (.duplicateSequence sequenceNumber))
          else if sequenceNumber < previous then
            (s, .error (.nonMonotonicSequence previous sequenceNumber))
          else ({ s with lastSequenceNumber := some sequenceNumber }, .ok ())
      | none => ({ s with lastSequenceNumber := some sequenceNumber }, .ok ())

/-- The part of `push` behind the sequence check. -/
def acceptEvent : ResponseStreamEvent → Method
  | .queued event => acceptResponse event.response false
  | .created event => acceptResponse event.response false
  | .inProgress event => acceptResponse event.response false
  | .completed event => acceptResponse event.response true
  | .failed event => acceptResponse event.response true
  | .incomplete event => acceptResponse event.response true
  | .outputItemAdded event => observeOutputItem event.outputIndex event.item
  | .outputItemDone event => observeOutputItem event.outputIndex event.item
  | .contentPartAdded event =>
      (bindItem event.outputIndex event.itemId).andThen
        (match event.part with
          | .text text => setText event.outputIndex event.contentIndex event.itemId text
          | _ => Update.skip)
  | .contentPartDone event =>
      (bindItem event.outputIndex event.itemId).andThen
        (match event.part with
          | .text text => setText event.outputIndex event.contentIndex event.itemId text
          | _ => Update.skip)
  | .outputTextDelta event =>
      (bindItem event.outputIndex event.itemId).andThen
        (appendText event.outputIndex event.contentIndex event.itemId event.text)
  | .outputTextDone event =>
      (bindItem event.outputIndex event.itemId).andThen
        (setText event.outputIndex event.contentIndex event.itemId event.text)
  | .functionCallArgumentsDelta event =>
      (bindItem event.outputIndex event.itemId).andThen
        (appendFunctionArguments event.outputIndex event.itemId event.arguments)
  | .functionCallArgumentsDone event =>
      (bindItem event.outputIndex event.itemId).andThen
        (setFunctionArguments event.outputIndex event.itemId event.arguments)
  | .item _ event => bindItem event.outputIndex event.itemId
  | .unbound _ _ => Update.skip
  | .error event =>
      Update.fail (.stream event.code event.message event.param event.sequenceNumber)
  | .unknown _ => Update.skip

/-- Consume one event, enforcing sequence and item identity invariants. -/
def push (event : ResponseStreamEvent) : Method := fun s =>
  if s.terminal then (s, .error .eventAfterTerminal)
  else (checkSequence event).andThen (acceptEvent event) s

/-- Assistant output text in output and content index order. -/
def outputText (s : ResponseAccumulator) : String :=
  match s.terminal, s.snapshot with
  | true, some response => response.outputText
  | _, _ => String.join ((values s.text).map AccumulatedText.text)

/-- Aggregated function arguments for an output item id. -/
def functionArgumentsOf (s : ResponseAccumulator) (itemId : String) : Option String :=
  ((values s.functionArguments).find? fun current => current.itemId = itemId).map
    AccumulatedArguments.arguments

/-- The terminal response, or an error if the stream ended early. -/
def finish (s : ResponseAccumulator) : Except ResponseAccumulatorError Response :=
  if s.terminal = false then .error .missingTerminal
  else
    match s.snapshot with
    | some response => .ok response
    | none => .error .missingTerminal

end ResponseAccumulator

end OpenaiRs.Responses
