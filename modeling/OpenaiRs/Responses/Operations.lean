import OpenaiRs.Responses.Accumulator
import OpenaiRs.Text.Cell

/-!
# The operations of an event

What `push` does behind its sequence check is a sequence of operations that is read off
the event alone: bind an item, write a text, write some arguments, keep a response. The
state decides only at which operation the sequence stops. All facts about the accumulator
are derived from what these few operations do.
-/

namespace OpenaiRs.Responses

open Rust Text

/-- One state change of the accumulator. -/
inductive Operation where
  | bind (outputIndex : Nat) (itemId : String)
  | text (outputIndex contentIndex : Nat) (itemId : String) (write : Write String)
  | arguments (outputIndex : Nat) (itemId : String) (write : Write String)
  | keep (response : Response) (terminal : Bool)
  | fail (error : ResponseAccumulatorError)
  deriving DecidableEq

namespace Operation

/-- The method called for an operation. -/
def apply : Operation → ResponseAccumulator.Method
  | bind outputIndex itemId => ResponseAccumulator.bindItem outputIndex itemId
  | text outputIndex contentIndex itemId (.append delta) =>
      ResponseAccumulator.appendText outputIndex contentIndex itemId delta
  | text outputIndex contentIndex itemId (.set value) =>
      ResponseAccumulator.setText outputIndex contentIndex itemId value
  | arguments outputIndex itemId (.append delta) =>
      ResponseAccumulator.appendFunctionArguments outputIndex itemId delta
  | arguments outputIndex itemId (.set value) =>
      ResponseAccumulator.setFunctionArguments outputIndex itemId value
  | keep response terminal =>
      fun s => ({ s with snapshot := some response, terminal := terminal }, .ok ())
  | fail error => Update.fail error

/-- Run operations in order up to the first one that fails. -/
def run (operations : List Operation) : ResponseAccumulator.Method :=
  Update.all (operations.map apply)

end Operation

/-- The text parts of a message are set in order. -/
def messageOperations (outputIndex : Nat) (message : OutputMessage) : List Operation :=
  message.content.zipIdx.filterMap fun entry =>
    entry.1.text?.map fun text => .text outputIndex entry.2 message.id (.set text)

/-- The operations of `observe_output_item`. -/
def itemOperations (outputIndex : Nat) (item : ResponseOutputItem) : List Operation :=
  (responseOutputItemId item).toList.map (Operation.bind outputIndex) ++
    match item with
    | .message message => messageOperations outputIndex message
    | .functionCall call =>
        call.id.toList.map fun itemId => .arguments outputIndex itemId (.set call.arguments)
    | _ => []

/-- The operations of `accept_response`. -/
def responseOperations (response : Response) (terminal : Bool) : List Operation :=
  (response.output.zipIdx.flatMap fun entry => itemOperations entry.2 entry.1) ++
    [.keep response terminal]

/-- The operations of an event that passed the sequence check. -/
def operations : ResponseStreamEvent → List Operation
  | .queued event => responseOperations event.response false
  | .created event => responseOperations event.response false
  | .inProgress event => responseOperations event.response false
  | .completed event => responseOperations event.response true
  | .failed event => responseOperations event.response true
  | .incomplete event => responseOperations event.response true
  | .outputItemAdded event => itemOperations event.outputIndex event.item
  | .outputItemDone event => itemOperations event.outputIndex event.item
  | .contentPartAdded event =>
      .bind event.outputIndex event.itemId :: event.part.text?.toList.map fun text =>
        .text event.outputIndex event.contentIndex event.itemId (.set text)
  | .contentPartDone event =>
      .bind event.outputIndex event.itemId :: event.part.text?.toList.map fun text =>
        .text event.outputIndex event.contentIndex event.itemId (.set text)
  | .outputTextDelta event =>
      [.bind event.outputIndex event.itemId,
        .text event.outputIndex event.contentIndex event.itemId (.append event.text)]
  | .outputTextDone event =>
      [.bind event.outputIndex event.itemId,
        .text event.outputIndex event.contentIndex event.itemId (.set event.text)]
  | .functionCallArgumentsDelta event =>
      [.bind event.outputIndex event.itemId,
        .arguments event.outputIndex event.itemId (.append event.arguments)]
  | .functionCallArgumentsDone event =>
      [.bind event.outputIndex event.itemId,
        .arguments event.outputIndex event.itemId (.set event.arguments)]
  | .item _ event => [.bind event.outputIndex event.itemId]
  | .unbound _ _ => []
  | .error event => [.fail (.stream event.code event.message event.param event.sequenceNumber)]
  | .unknown _ => []

section Members

/-- An output item is bound, and its text and arguments are written. -/
theorem mem_itemOperations {outputIndex : Nat} {item : ResponseOutputItem} {op : Operation}
    (h : op ∈ itemOperations outputIndex item) :
    (∃ itemId, op = .bind outputIndex itemId) ∨
      (∃ contentIndex itemId write, op = .text outputIndex contentIndex itemId write) ∨
      ∃ itemId write, op = .arguments outputIndex itemId write := by
  obtain hbind | hwrite := List.mem_append.mp h
  · obtain ⟨itemId, -, rfl⟩ := List.mem_map.mp hbind
    exact .inl ⟨itemId, rfl⟩
  · cases item with
    | message message =>
        obtain ⟨entry, -, hentry⟩ := List.mem_filterMap.mp hwrite
        obtain ⟨text, -, rfl⟩ := Option.map_eq_some_iff.mp hentry
        exact .inr (.inl ⟨_, _, _, rfl⟩)
    | functionCall call =>
        obtain ⟨itemId, -, rfl⟩ := List.mem_map.mp hwrite
        exact .inr (.inr ⟨_, _, rfl⟩)
    | _ => cases hwrite

/-- A response is kept behind the operations of its output items. -/
theorem mem_responseOperations {response : Response} {terminal : Bool} {op : Operation}
    (h : op ∈ responseOperations response terminal) :
    (∃ outputIndex item, op ∈ itemOperations outputIndex item) ∨ op = .keep response terminal := by
  obtain hitem | hkeep := List.mem_append.mp h
  · obtain ⟨entry, -, hmem⟩ := List.mem_flatMap.mp hitem
    exact .inl ⟨entry.2, entry.1, hmem⟩
  · exact .inr (List.mem_singleton.mp hkeep)

end Members

namespace ResponseAccumulator

section Equations

theorem run_append (first second : List Operation) :
    Operation.run (first ++ second) = (Operation.run first).andThen (Operation.run second) := by
  rw [Operation.run, List.map_append, Update.all_append]
  rfl

theorem run_cons (op : Operation) (rest : List Operation) :
    Operation.run (op :: rest) = op.apply.andThen (Operation.run rest) := rfl

theorem run_singleton (op : Operation) : Operation.run [op] = op.apply := Update.all_singleton _

/-- An operation that is only there if a value is. -/
theorem run_toList {α : Type} (x : Option α) (op : α → Operation) :
    Operation.run (x.toList.map op) = (x.map fun a => (op a).apply).getD Update.skip := by
  cases x with
  | none => rfl
  | some a => exact run_singleton (op a)

/-- The loop over the content of a message sets its text parts. -/
theorem messageOperations_eq (outputIndex : Nat) (message : OutputMessage) :
    Operation.run (messageOperations outputIndex message) =
      Update.all (message.content.zipIdx.map fun entry : OutputContent × Nat =>
        match entry.1 with
        | .text text => setText outputIndex entry.2 message.id text
        | _ => Update.skip) := by
  rw [Operation.run, messageOperations, ← Update.all_filterMap]
  congr 1
  apply List.map_congr_left
  rintro ⟨content, contentIndex⟩ -
  cases content <;> rfl

theorem observeOutputItem_eq (outputIndex : Nat) (item : ResponseOutputItem) :
    observeOutputItem outputIndex item = Operation.run (itemOperations outputIndex item) := by
  unfold itemOperations
  rw [run_append, run_toList]
  cases item with
  | message message =>
      rw [messageOperations_eq]
      rfl
  | functionCall call =>
      rw [run_toList]
      rcases call with ⟨_ | itemId, arguments⟩ <;> rfl
  | identified kind itemId => rfl
  | customToolCall => rfl
  | unknown rawId => cases rawId <;> rfl

theorem acceptResponse_eq (response : Response) (terminal : Bool) :
    acceptResponse response terminal = Operation.run (responseOperations response terminal) := by
  rw [acceptResponse, responseOperations, run_append, run_singleton]
  congr 1
  rw [Operation.run, List.map_flatMap, ← Update.all_flatMap]
  congr 1
  apply List.map_congr_left
  rintro ⟨item, outputIndex⟩ -
  exact observeOutputItem_eq outputIndex item

/-- Behind its sequence check `push` runs the operations of the event. -/
theorem acceptEvent_eq (event : ResponseStreamEvent) :
    acceptEvent event = Operation.run (operations event) := by
  cases event with
  | queued event => exact acceptResponse_eq event.response false
  | created event => exact acceptResponse_eq event.response false
  | inProgress event => exact acceptResponse_eq event.response false
  | completed event => exact acceptResponse_eq event.response true
  | failed event => exact acceptResponse_eq event.response true
  | incomplete event => exact acceptResponse_eq event.response true
  | outputItemAdded event => exact observeOutputItem_eq event.outputIndex event.item
  | outputItemDone event => exact observeOutputItem_eq event.outputIndex event.item
  | contentPartAdded event =>
      rw [acceptEvent, operations, run_cons, run_toList]
      rcases event.part with text | _ | _ | _ <;> rfl
  | contentPartDone event =>
      rw [acceptEvent, operations, run_cons, run_toList]
      rcases event.part with text | _ | _ | _ <;> rfl
  | outputTextDelta event => rw [acceptEvent, operations, run_cons, run_singleton]; rfl
  | outputTextDone event => rw [acceptEvent, operations, run_cons, run_singleton]; rfl
  | functionCallArgumentsDelta event => rw [acceptEvent, operations, run_cons, run_singleton]; rfl
  | functionCallArgumentsDone event => rw [acceptEvent, operations, run_cons, run_singleton]; rfl
  | item kind event => rw [acceptEvent, operations, run_singleton]; rfl
  | unbound kind sequenceNumber => rfl
  | error event => rw [acceptEvent, operations, run_singleton]; rfl
  | unknown event => rfl

end Equations

section Steps

/-- The stored text of a content part. -/
def textAt (s : ResponseAccumulator) (key : Nat × Nat) : Option String :=
  s.text[key]?.map AccumulatedText.text

/-- The stored arguments of an output item. -/
def argumentsAt (s : ResponseAccumulator) (outputIndex : Nat) : Option String :=
  s.functionArguments[outputIndex]?.map AccumulatedArguments.arguments

theorem textAt_insertText (s : ResponseAccumulator) (key other : Nat × Nat) (part : AccumulatedText) :
    (s.insertText key part).textAt other = if key = other then some part.text else s.textAt other := by
  rw [textAt, insertText]
  simp only [getElem?_insert_eq]
  split <;> rfl

theorem argumentsAt_insertArguments (s : ResponseAccumulator) (outputIndex other : Nat)
    (current : AccumulatedArguments) :
    (s.insertArguments outputIndex current).argumentsAt other =
      if outputIndex = other then some current.arguments else s.argumentsAt other := by
  rw [argumentsAt, insertArguments]
  simp only [getElem?_insert_eq]
  split <;> rfl

/-- Binding fails on another id, does nothing on the same id, and inserts a new one. -/
theorem bindItem_cases (s : ResponseAccumulator) (outputIndex : Nat) (itemId : String) :
    (∃ expected, s.itemIds[outputIndex]? = some expected ∧ expected ≠ itemId ∧
        bindItem outputIndex itemId s =
          (s, .error (.itemIdentityMismatch outputIndex expected itemId))) ∨
      (s.itemIds[outputIndex]? = some itemId ∧ bindItem outputIndex itemId s = (s, .ok ())) ∨
      (s.itemIds[outputIndex]? = none ∧ bindItem outputIndex itemId s =
        ({ s with itemIds := s.itemIds.insert outputIndex itemId }, .ok ())) := by
  rw [bindItem]
  obtain _ | expected := s.itemIds[outputIndex]?
  · exact .inr (.inr ⟨rfl, rfl⟩)
  · by_cases heq : expected = itemId
    · subst heq
      exact .inr (.inl ⟨rfl, by simp⟩)
    · exact .inl ⟨expected, rfl, heq, by simp [heq]⟩

/-- Writing a text fails on an entry of another item and else replaces the entry. -/
theorem text_cases (s : ResponseAccumulator) (outputIndex contentIndex : Nat) (itemId : String)
    (write : Write String) :
    (∃ part, s.text[(outputIndex, contentIndex)]? = some part ∧ part.itemId ≠ itemId ∧
        (Operation.text outputIndex contentIndex itemId write).apply s =
          (s, .error (.contentIdentityMismatch outputIndex contentIndex part.itemId itemId))) ∨
      (Operation.text outputIndex contentIndex itemId write).apply s =
        (s.insertText (outputIndex, contentIndex)
          ⟨itemId, write.result (· ++ ·) "" (s.textAt (outputIndex, contentIndex))⟩, .ok ()) := by
  rcases hpart : s.text[(outputIndex, contentIndex)]? with _ | part
  · cases write <;> simp [Operation.apply, appendText, setText, hpart, textAt, Write.result]
  · by_cases heq : part.itemId = itemId
    · cases write <;>
        simp [Operation.apply, appendText, setText, hpart, textAt, Write.result, heq]
    · cases write <;> simp [Operation.apply, appendText, setText, hpart, heq]

/-- Writing arguments fails on an entry of another item and else replaces the entry. -/
theorem arguments_cases (s : ResponseAccumulator) (outputIndex : Nat) (itemId : String)
    (write : Write String) :
    (∃ current, s.functionArguments[outputIndex]? = some current ∧ current.itemId ≠ itemId ∧
        (Operation.arguments outputIndex itemId write).apply s =
          (s, .error (.itemIdentityMismatch outputIndex current.itemId itemId))) ∨
      (Operation.arguments outputIndex itemId write).apply s =
        (s.insertArguments outputIndex
          ⟨itemId, write.result (· ++ ·) "" (s.argumentsAt outputIndex)⟩, .ok ()) := by
  rcases hcurrent : s.functionArguments[outputIndex]? with _ | current
  · cases write <;> simp [Operation.apply, appendFunctionArguments, setFunctionArguments, hcurrent,
      argumentsAt, Write.result]
  · by_cases heq : current.itemId = itemId
    · cases write <;> simp [Operation.apply, appendFunctionArguments, setFunctionArguments, hcurrent,
        argumentsAt, Write.result, heq]
    · cases write <;>
        simp [Operation.apply, appendFunctionArguments, setFunctionArguments, hcurrent, heq]

/-- The states an operation can leave, whether it succeeds or fails. -/
inductive Changes (s : ResponseAccumulator) : Operation → ResponseAccumulator → Prop where
  | same (op : Operation) : Changes s op s
  | bound {outputIndex : Nat} (itemId : String) (h : s.itemIds[outputIndex]? = none) :
      Changes s (.bind outputIndex itemId)
        { s with itemIds := s.itemIds.insert outputIndex itemId }
  | text (outputIndex contentIndex : Nat) (itemId : String) (write : Write String) (value : String) :
      Changes s (.text outputIndex contentIndex itemId write)
        (s.insertText (outputIndex, contentIndex) ⟨itemId, value⟩)
  | arguments (outputIndex : Nat) (itemId : String) (write : Write String) (value : String) :
      Changes s (.arguments outputIndex itemId write) (s.insertArguments outputIndex ⟨itemId, value⟩)
  | kept (response : Response) (terminal : Bool) :
      Changes s (.keep response terminal)
        { s with snapshot := some response, terminal := terminal }

theorem apply_changes (op : Operation) (s : ResponseAccumulator) : Changes s op (op.apply s).1 := by
  cases op with
  | bind outputIndex itemId =>
      rw [Operation.apply]
      obtain ⟨_, _, _, heq⟩ | ⟨_, heq⟩ | ⟨hnone, heq⟩ := bindItem_cases s outputIndex itemId
      · rw [heq]
        exact .same _
      · rw [heq]
        exact .same _
      · rw [heq]
        exact .bound itemId hnone
  | text outputIndex contentIndex itemId write =>
      obtain ⟨_, _, _, heq⟩ | heq := text_cases s outputIndex contentIndex itemId write
      · rw [heq]
        exact .same _
      · rw [heq]
        exact .text outputIndex contentIndex itemId write _
  | arguments outputIndex itemId write =>
      obtain ⟨_, _, _, heq⟩ | heq := arguments_cases s outputIndex itemId write
      · rw [heq]
        exact .same _
      · rw [heq]
        exact .arguments outputIndex itemId write _
  | keep response terminal => exact .kept response terminal
  | fail error => exact .same _

/-- The sequence check ignores events without a number, records a larger number, and
refuses any other. -/
theorem checkSequence_cases (event : ResponseStreamEvent) (s : ResponseAccumulator) :
    (event.sequenceNumber = none ∧ checkSequence event s = (s, .ok ())) ∨
      (∃ number, event.sequenceNumber = some number ∧
        (∀ previous, s.lastSequenceNumber = some previous → previous < number) ∧
        checkSequence event s = ({ s with lastSequenceNumber := some number }, .ok ())) ∨
      ∃ number previous error, event.sequenceNumber = some number ∧
        s.lastSequenceNumber = some previous ∧ number ≤ previous ∧
        checkSequence event s = (s, .error error) := by
  rw [checkSequence]
  obtain _ | number := event.sequenceNumber
  · exact .inl ⟨rfl, rfl⟩
  · rcases hlast : s.lastSequenceNumber with _ | previous
    · exact .inr (.inl ⟨number, rfl, by simp, rfl⟩)
    · by_cases hsame : number = previous
      · exact .inr (.inr ⟨number, previous, .duplicateSequence number, rfl, rfl, by omega,
          by simp only [if_pos hsame]⟩)
      · by_cases hless : number < previous
        · exact .inr (.inr ⟨number, previous, .nonMonotonicSequence previous number, rfl, rfl, by omega,
            by simp only [if_neg hsame, if_pos hless]⟩)
        · refine .inr (.inl ⟨number, rfl, ?_, by simp only [if_neg hsame, if_neg hless]⟩)
          intro previous' heq
          obtain rfl := Option.some.inj heq
          omega

/-- The sequence check only changes the last sequence number. -/
theorem checkSequence_fst (event : ResponseStreamEvent) (s : ResponseAccumulator) :
    ∃ last, (checkSequence event s).1 = { s with lastSequenceNumber := last } := by
  obtain ⟨_, heq⟩ | ⟨number, _, _, heq⟩ | ⟨_, _, _, _, _, _, heq⟩ := checkSequence_cases event s
  · exact ⟨s.lastSequenceNumber, by rw [heq]⟩
  · exact ⟨some number, by rw [heq]⟩
  · exact ⟨s.lastSequenceNumber, by rw [heq]⟩

/-- An invariant of the sequence check and of the operations of an event holds behind a
push, also if it fails. -/
theorem push_preserves {I : ResponseAccumulator → Prop} {event : ResponseStreamEvent}
    (hcheck : ∀ s, I s → I (checkSequence event s).1)
    (hops : ∀ op ∈ operations event, ∀ s, I s → I (op.apply s).1) {s : ResponseAccumulator}
    (h : I s) : I (push event s).1 := by
  have hchecked := hcheck s h
  rw [push]
  split
  · exact h
  · rcases hresult : checkSequence event s with ⟨middle, e | ⟨⟨⟩⟩⟩
    · rw [Update.andThen_error hresult]
      rwa [hresult] at hchecked
    · rw [Update.andThen_ok hresult, acceptEvent_eq]
      rw [hresult] at hchecked
      refine Update.all_preserves ?_ hchecked
      intro method hmem s hs
      obtain ⟨op, hop, rfl⟩ := List.mem_map.mp hmem
      exact hops op hop s hs

end Steps

end ResponseAccumulator

end OpenaiRs.Responses
