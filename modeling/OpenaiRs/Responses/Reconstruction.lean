import OpenaiRs.Responses.Operations

/-!
# Text reconstruction

The text of a content part and the arguments of a function call are cells: an event sets
such a cell, appends to it, or leaves it alone, whatever the state of the accumulator is.
After any accepted events the accumulator stores the contents of all cells, so each of
them is the text of the last event that sets it followed by the later deltas.
-/

namespace OpenaiRs.Responses

open Rust Text

instance lawfulRightIdentity_append : Std.LawfulRightIdentity (α := String) (· ++ ·) "" where
  right_id _ := String.append_empty

section Writes

/-- The text of a message at a content index. -/
def messageText (contentIndex : Nat) : ResponseOutputItem → Option String
  | .message message => message.content[contentIndex]?.bind OutputContent.text?
  | _ => none

/-- The arguments of a function call with an id. -/
def callArguments : ResponseOutputItem → Option String
  | .functionCall call => call.id.map fun _ => call.arguments
  | _ => none

/-- What an event does to the text at an output and content index. -/
def textWrite (key : Nat × Nat) : ResponseStreamEvent → Option (Write String)
  | .queued event | .created event | .inProgress event | .completed event | .failed event
  | .incomplete event =>
      (event.response.output[key.1]?.bind (messageText key.2)).map .set
  | .outputItemAdded event | .outputItemDone event =>
      if event.outputIndex = key.1 then (messageText key.2 event.item).map .set else none
  | .contentPartAdded event | .contentPartDone event =>
      if (event.outputIndex, event.contentIndex) = key then event.part.text?.map .set else none
  | .outputTextDelta event =>
      if (event.outputIndex, event.contentIndex) = key then some (.append event.text) else none
  | .outputTextDone event =>
      if (event.outputIndex, event.contentIndex) = key then some (.set event.text) else none
  | _ => none

/-- What an event does to the function arguments at an output index. -/
def argumentsWrite (outputIndex : Nat) : ResponseStreamEvent → Option (Write String)
  | .queued event | .created event | .inProgress event | .completed event | .failed event
  | .incomplete event => (event.response.output[outputIndex]?.bind callArguments).map .set
  | .outputItemAdded event | .outputItemDone event =>
      if event.outputIndex = outputIndex then (callArguments event.item).map .set else none
  | .functionCallArgumentsDelta event =>
      if event.outputIndex = outputIndex then some (.append event.arguments) else none
  | .functionCallArgumentsDone event =>
      if event.outputIndex = outputIndex then some (.set event.arguments) else none
  | _ => none

/-- What an operation does to the text at an output and content index. -/
def Operation.textWrite (key : Nat × Nat) : Operation → Option (Write String)
  | .text outputIndex contentIndex _ write =>
      if (outputIndex, contentIndex) = key then some write else none
  | _ => none

/-- What an operation does to the function arguments at an output index. -/
def Operation.argumentsWrite (outputIndex : Nat) : Operation → Option (Write String)
  | .arguments index _ write => if index = outputIndex then some write else none
  | _ => none

end Writes

section Lists

variable {α β : Type}

/-- Choosing one index of an enumerated list. -/
theorem filterMap_zipIdx (items : List α) (start index : Nat) (choose : α → Option β) :
    ((items.zipIdx start).filterMap fun entry =>
        if entry.2 = start + index then choose entry.1 else none) =
      (items[index]?.bind choose).toList := by
  induction items generalizing start index with
  | nil => rfl
  | cons item items ih =>
      rw [List.zipIdx_cons, List.filterMap_cons]
      cases index with
      | zero =>
          have hrest : ((items.zipIdx (start + 1)).filterMap fun entry =>
              if entry.2 = start + 0 then choose entry.1 else none) = [] := by
            rw [List.filterMap_eq_nil_iff]
            rintro ⟨other, position⟩ hmem
            have hle := List.le_snd_of_mem_zipIdx hmem
            rw [if_neg (by simp only at hle ⊢; omega)]
          rw [hrest]
          rcases hchoose : choose item with _ | b <;> simp [hchoose]
      | succ index =>
          have hshift : start + (index + 1) = start + 1 + index := by omega
          rw [if_neg (by omega), hshift]
          exact ih (start + 1) index

/-- A loop over enumerated items that looks at one index only. -/
theorem flatMap_zipIdx (items : List α) (index : Nat) (choose : α → Option β) :
    (items.zipIdx.flatMap fun entry =>
        (if entry.2 = index then choose entry.1 else none).toList) =
      (items[index]?.bind choose).toList := by
  have hchoose := filterMap_zipIdx items 0 index choose
  rw [Nat.zero_add] at hchoose
  rw [← hchoose, List.filterMap_eq_flatMap_toList]

end Lists

section Events

/-- The text writes of observing an item. -/
theorem itemOperations_textWrite (outputIndex : Nat) (item : ResponseOutputItem) (key : Nat × Nat) :
    (itemOperations outputIndex item).filterMap (Operation.textWrite key) =
      (if outputIndex = key.1 then (messageText key.2 item).map .set else none).toList := by
  have hbinds : ((responseOutputItemId item).toList.map (Operation.bind outputIndex)).filterMap
      (Operation.textWrite key) = [] := by
    rw [List.filterMap_eq_nil_iff]
    intro op hmem
    obtain ⟨itemId, -, rfl⟩ := List.mem_map.mp hmem
    rfl
  unfold itemOperations
  rw [List.filterMap_append, hbinds, List.nil_append]
  cases item with
  | message message =>
      have hchoose := filterMap_zipIdx message.content 0 key.2 fun content =>
        if outputIndex = key.1 then content.text?.map Write.set else none
      rw [Nat.zero_add] at hchoose
      simp only [messageOperations, List.filterMap_filterMap]
      refine Eq.trans ?_ (hchoose.trans ?_)
      · congr 1
        funext entry
        obtain _ | text := entry.1.text?
        · simp
        · by_cases hindex : entry.2 = key.2 <;>
            by_cases houtput : outputIndex = key.1 <;>
              simp [Operation.textWrite, Prod.ext_iff, hindex, houtput]
      · by_cases houtput : outputIndex = key.1
        · simp only [houtput, if_true, messageText, Option.map_bind]
          rfl
        · simp [houtput]
  | functionCall call =>
      rw [show messageText key.2 (.functionCall call) = none from rfl, Option.map_none, ite_self,
        Option.toList_none, List.filterMap_eq_nil_iff]
      intro op hmem
      obtain ⟨itemId, -, rfl⟩ := List.mem_map.mp hmem
      rfl
  | _ => simp [messageText]

/-- The arguments writes of observing an item. -/
theorem itemOperations_argumentsWrite (outputIndex : Nat) (item : ResponseOutputItem) (index : Nat) :
    (itemOperations outputIndex item).filterMap (Operation.argumentsWrite index) =
      (if outputIndex = index then (callArguments item).map .set else none).toList := by
  have hbinds : ((responseOutputItemId item).toList.map (Operation.bind outputIndex)).filterMap
      (Operation.argumentsWrite index) = [] := by
    rw [List.filterMap_eq_nil_iff]
    intro op hmem
    obtain ⟨itemId, -, rfl⟩ := List.mem_map.mp hmem
    rfl
  unfold itemOperations
  rw [List.filterMap_append, hbinds, List.nil_append]
  cases item with
  | message message =>
      rw [show callArguments (.message message) = none from rfl, Option.map_none, ite_self,
        Option.toList_none, List.filterMap_eq_nil_iff]
      intro op hmem
      obtain ⟨entry, -, hentry⟩ := List.mem_filterMap.mp hmem
      obtain ⟨text, -, rfl⟩ := Option.map_eq_some_iff.mp hentry
      rfl
  | functionCall call =>
      obtain ⟨_ | itemId, arguments⟩ := call
      · simp [callArguments]
      · by_cases houtput : outputIndex = index <;>
          simp [callArguments, Operation.argumentsWrite, houtput]
  | _ => simp [callArguments]

/-- The writes of a lifecycle response are those of the item at the index. -/
theorem responseOperations_write (opWrite : Operation → Option (Write String))
    (choose : ResponseOutputItem → Option String) (index : Nat)
    (hitem : ∀ outputIndex item, (itemOperations outputIndex item).filterMap opWrite =
      (if outputIndex = index then (choose item).map .set else none).toList)
    (hkeep : ∀ response terminal, opWrite (.keep response terminal) = none)
    (response : Response) (terminal : Bool) :
    (responseOperations response terminal).filterMap opWrite =
      ((response.output[index]?.bind choose).map Write.set).toList := by
  have hlast : [Operation.keep response terminal].filterMap opWrite = [] := by
    simp [List.filterMap, hkeep]
  rw [responseOperations, List.filterMap_append, hlast, List.append_nil, List.filterMap_flatMap]
  simp only [hitem]
  rw [flatMap_zipIdx response.output index fun item => (choose item).map Write.set, Option.map_bind]
  rfl

theorem textOperations_write (outputIndex contentIndex : Nat) (itemId : String)
    (write : Write String) (key : Nat × Nat) :
    [Operation.bind outputIndex itemId, .text outputIndex contentIndex itemId write].filterMap
        (Operation.textWrite key) =
      (if (outputIndex, contentIndex) = key then some write else none).toList := by
  by_cases hkey : (outputIndex, contentIndex) = key <;>
    simp [List.filterMap, Operation.textWrite, hkey]

theorem argumentsOperations_write (outputIndex : Nat) (itemId : String) (write : Write String)
    (index : Nat) :
    [Operation.bind outputIndex itemId, .arguments outputIndex itemId write].filterMap
        (Operation.argumentsWrite index) =
      (if outputIndex = index then some write else none).toList := by
  by_cases hindex : outputIndex = index <;>
    simp [List.filterMap, Operation.argumentsWrite, hindex]

/-- The operations of an event write a text as the event does. -/
theorem operations_textWrite (event : ResponseStreamEvent) (key : Nat × Nat) :
    (operations event).filterMap (Operation.textWrite key) = (textWrite key event).toList := by
  have hitem := fun outputIndex item => itemOperations_textWrite outputIndex item key
  have hresponse := responseOperations_write (Operation.textWrite key) (messageText key.2) key.1
    hitem (fun _ _ => rfl)
  cases event with
  | queued event => exact hresponse event.response false
  | created event => exact hresponse event.response false
  | inProgress event => exact hresponse event.response false
  | completed event => exact hresponse event.response true
  | failed event => exact hresponse event.response true
  | incomplete event => exact hresponse event.response true
  | outputItemAdded event => exact hitem event.outputIndex event.item
  | outputItemDone event => exact hitem event.outputIndex event.item
  | contentPartAdded event =>
      rw [operations, textWrite]
      obtain _ | text := event.part.text?
      · rw [Option.map_none, ite_self]
        rfl
      · exact textOperations_write event.outputIndex event.contentIndex event.itemId (.set text) key
  | contentPartDone event =>
      rw [operations, textWrite]
      obtain _ | text := event.part.text?
      · rw [Option.map_none, ite_self]
        rfl
      · exact textOperations_write event.outputIndex event.contentIndex event.itemId (.set text) key
  | outputTextDelta event => exact textOperations_write _ _ event.itemId _ key
  | outputTextDone event => exact textOperations_write _ _ event.itemId _ key
  | _ => rfl

/-- The operations of an event write arguments as the event does. -/
theorem operations_argumentsWrite (event : ResponseStreamEvent) (index : Nat) :
    (operations event).filterMap (Operation.argumentsWrite index) =
      (argumentsWrite index event).toList := by
  have hitem := fun outputIndex item => itemOperations_argumentsWrite outputIndex item index
  have hresponse := responseOperations_write (Operation.argumentsWrite index) callArguments index
    hitem (fun _ _ => rfl)
  cases event with
  | queued event => exact hresponse event.response false
  | created event => exact hresponse event.response false
  | inProgress event => exact hresponse event.response false
  | completed event => exact hresponse event.response true
  | failed event => exact hresponse event.response true
  | incomplete event => exact hresponse event.response true
  | outputItemAdded event => exact hitem event.outputIndex event.item
  | outputItemDone event => exact hitem event.outputIndex event.item
  | contentPartAdded event =>
      rw [operations]
      rcases event.part.text? with _ | text <;> rfl
  | contentPartDone event =>
      rw [operations]
      rcases event.part.text? with _ | text <;> rfl
  | functionCallArgumentsDelta event => exact argumentsOperations_write _ event.itemId _ index
  | functionCallArgumentsDone event => exact argumentsOperations_write _ event.itemId _ index
  | _ => rfl

end Events

namespace ResponseAccumulator

/-- Push events in order up to the first one that is rejected. -/
def pushAll (events : List ResponseStreamEvent) : Method := Update.all (events.map push)

section Accepted

/-- An accepted event runs all its operations. -/
theorem push_eq_ok {event : ResponseStreamEvent} {s after : ResponseAccumulator}
    (h : push event s = (after, .ok ())) :
    s.terminal = false ∧ ∃ last, checkSequence event s =
        ({ s with lastSequenceNumber := last }, .ok ()) ∧
      Operation.run (operations event) { s with lastSequenceNumber := last } = (after, .ok ()) := by
  rw [push] at h
  split at h
  · cases h
  · rename_i hterminal
    obtain ⟨middle, hcheck, haccept⟩ := Update.andThen_eq_ok h
    obtain ⟨last, hlast⟩ := checkSequence_fst event s
    rw [hcheck] at hlast
    obtain rfl : middle = _ := hlast
    rw [acceptEvent_eq] at haccept
    exact ⟨by simpa using hterminal, last, hcheck, haccept⟩

/-- A cell of the accumulator: what its operations and its events write to it. -/
structure IsCell (view : ResponseAccumulator → Option String)
    (opWrite : Operation → Option (Write String))
    (eventWrite : ResponseStreamEvent → Option (Write String)) : Prop where
  new : view new = none
  last : ∀ s last, view { s with lastSequenceNumber := last } = view s
  op : ∀ op s after, op.apply s = (after, .ok ()) → view after =
    match opWrite op with
    | none => view s
    | some w => some (w.result (· ++ ·) "" (view s))
  event : ∀ event, (operations event).filterMap opWrite = (eventWrite event).toList

variable {view : ResponseAccumulator → Option String} {opWrite : Operation → Option (Write String)}
  {eventWrite : ResponseStreamEvent → Option (Write String)}

/-- Successful operations write to a cell in order. -/
theorem IsCell.run (hcell : IsCell view opWrite eventWrite) (ops : List Operation)
    {s after : ResponseAccumulator} (h : Operation.run ops s = (after, .ok ())) :
    view after =
      (ops.filterMap opWrite).foldl (fun old w => some (w.result (· ++ ·) "" old)) (view s) := by
  induction ops generalizing s with
  | nil =>
      cases h
      rfl
  | cons op ops ih =>
      obtain ⟨middle, hfirst, hrest⟩ := Update.andThen_eq_ok h
      rw [ih hrest, hcell.op op s middle hfirst, List.filterMap_cons]
      rcases opWrite op with _ | w <;> rfl

/-- Accepted events write to a cell in order. -/
theorem IsCell.pushAll (hcell : IsCell view opWrite eventWrite) (events : List ResponseStreamEvent)
    {s after : ResponseAccumulator} (h : pushAll events s = (after, .ok ())) :
    view after =
      (events.filterMap eventWrite).foldl (fun old w => some (w.result (· ++ ·) "" old)) (view s) := by
  induction events generalizing s with
  | nil =>
      cases h
      rfl
  | cons event events ih =>
      obtain ⟨middle, hfirst, hrest⟩ := Update.andThen_eq_ok h
      obtain ⟨-, last, -, hops⟩ := push_eq_ok hfirst
      rw [ih hrest, hcell.run _ hops, hcell.event, hcell.last, List.filterMap_cons]
      rcases eventWrite event with _ | w <;> rfl

/-- After accepted events a cell holds its contents. -/
theorem IsCell.contents (hcell : IsCell view opWrite eventWrite) {events : List ResponseStreamEvent}
    {s : ResponseAccumulator} (h : ResponseAccumulator.pushAll events ResponseAccumulator.new = (s, .ok ())) :
    view s = Text.contents (· ++ ·) "" eventWrite events := by
  rw [hcell.pushAll events h, hcell.new, Text.contents]

/-- The text at an output and content index is a cell. -/
theorem isCell_textAt (key : Nat × Nat) :
    IsCell (fun s => s.textAt key) (Operation.textWrite key) (textWrite key) where
  new := by simp [textAt, ResponseAccumulator.new]
  last s last := rfl
  event event := operations_textWrite event key
  op op s after h := by
    cases op with
    | bind outputIndex itemId =>
        rcases bindItem_cases s outputIndex itemId with ⟨_, _, _, heq⟩ | ⟨_, heq⟩ | ⟨_, heq⟩ <;>
          cases heq.symm.trans h <;> rfl
    | text outputIndex contentIndex itemId write =>
        obtain ⟨_, _, _, heq⟩ | heq := text_cases s outputIndex contentIndex itemId write
        · cases heq.symm.trans h
        · cases heq.symm.trans h
          simp only [textAt_insertText, Operation.textWrite]
          by_cases hkey : (outputIndex, contentIndex) = key
          · simp only [hkey, if_true]
          · simp only [if_neg hkey]
    | arguments outputIndex itemId write =>
        rcases arguments_cases s outputIndex itemId write with ⟨_, _, _, heq⟩ | heq <;>
          cases heq.symm.trans h
        rfl
    | keep response terminal =>
        cases h
        rfl
    | fail error => cases h

/-- The function arguments at an output index are a cell. -/
theorem isCell_argumentsAt (index : Nat) :
    IsCell (fun s => s.argumentsAt index) (Operation.argumentsWrite index) (argumentsWrite index) where
  new := by simp [argumentsAt, ResponseAccumulator.new]
  last s last := rfl
  event event := operations_argumentsWrite event index
  op op s after h := by
    cases op with
    | bind outputIndex itemId =>
        rcases bindItem_cases s outputIndex itemId with ⟨_, _, _, heq⟩ | ⟨_, heq⟩ | ⟨_, heq⟩ <;>
          cases heq.symm.trans h <;> rfl
    | text outputIndex contentIndex itemId write =>
        rcases text_cases s outputIndex contentIndex itemId write with ⟨_, _, _, heq⟩ | heq <;>
          cases heq.symm.trans h
        rfl
    | arguments outputIndex itemId write =>
        obtain ⟨_, _, _, heq⟩ | heq := arguments_cases s outputIndex itemId write
        · cases heq.symm.trans h
        · cases heq.symm.trans h
          simp only [argumentsAt_insertArguments, Operation.argumentsWrite]
          by_cases hindex : outputIndex = index
          · simp only [hindex, if_true]
          · simp only [if_neg hindex]
    | keep response terminal =>
        cases h
        rfl
    | fail error => cases h

end Accepted

section OutputText

/-- Only terminal events make the accumulator terminal. -/
theorem operations_keep {event : ResponseStreamEvent} (h : event.isTerminal = false)
    {response : Response} {terminal : Bool} (hmem : .keep response terminal ∈ operations event) :
    terminal = false := by
  have hitem : ∀ outputIndex item, .keep response terminal ∉ itemOperations outputIndex item := by
    intro outputIndex item hmem
    rcases mem_itemOperations hmem with ⟨_, heq⟩ | ⟨_, _, _, heq⟩ | ⟨_, _, heq⟩ <;> cases heq
  have hresponse : ∀ other, .keep response terminal ∈ responseOperations other false →
      terminal = false := by
    intro other hmem
    obtain ⟨outputIndex, item, hmem⟩ | heq := mem_responseOperations hmem
    · exact absurd hmem (hitem outputIndex item)
    · exact (Operation.keep.inj heq).2
  cases event with
  | queued event => exact hresponse event.response hmem
  | created event => exact hresponse event.response hmem
  | inProgress event => exact hresponse event.response hmem
  | completed event => cases h
  | failed event => cases h
  | incomplete event => cases h
  | outputItemAdded event => exact absurd hmem (hitem event.outputIndex event.item)
  | outputItemDone event => exact absurd hmem (hitem event.outputIndex event.item)
  | error event => cases h
  | _ => simp [operations] at hmem

/-- Events that are not terminal leave the accumulator open. -/
theorem pushAll_terminal {events : List ResponseStreamEvent}
    (hevents : ∀ event ∈ events, event.isTerminal = false) {s : ResponseAccumulator}
    (h : s.terminal = false) : (pushAll events s).1.terminal = false := by
  refine @Update.all_preserves _ _ (fun s => s.terminal = false) _ ?_ s h
  intro method hmem s hs
  obtain ⟨event, hevent, rfl⟩ := List.mem_map.mp hmem
  refine @push_preserves (fun s => s.terminal = false) event ?_ ?_ s hs
  · intro s hs
    obtain ⟨last, hlast⟩ := checkSequence_fst event s
    rw [hlast]
    exact hs
  · intro op hop s hs
    have hchange := apply_changes op s
    generalize (op.apply s).1 = after at hchange ⊢
    cases hchange with
    | kept response terminal => exact operations_keep (hevents event hevent) hop
    | _ => exact hs

/-- The text of an open accumulator, in lexicographic order of the slots. -/
theorem outputText_open {s : ResponseAccumulator} (h : s.terminal = false) :
    s.outputText = String.join (s.text.keys.map fun key => (s.textAt key).getD "") := by
  rw [outputText, h]
  exact congrArg String.join (values_eq_keys s.text AccumulatedText.text "")

end OutputText

/-- Text reconstruction: after any accepted events the text of every slot is that of the
last event that sets it followed by the later deltas, the same holds for the arguments of
every function call, and before a terminal event the output text is the concatenation of
all slots that were written, in lexicographic order. -/
theorem pushAll_reconstructs (events : List ResponseStreamEvent) (s : ResponseAccumulator)
    (h : pushAll events new = (s, .ok ())) :
    (∀ key, Reconstructs (· ++ ·) "" (textWrite key) events ((s.textAt key).getD "")) ∧
    (∀ index, Reconstructs (· ++ ·) "" (argumentsWrite index) events ((s.argumentsAt index).getD "")) ∧
    ((∀ event ∈ events, event.isTerminal = false) →
      ∃ keys : List (Nat × Nat),
        keys.Pairwise (fun a b => a.1 < b.1 ∨ (a.1 = b.1 ∧ a.2 < b.2)) ∧
        (∀ key, key ∈ keys ↔ ∃ event ∈ events, textWrite key event ≠ none) ∧
        s.outputText = String.join (keys.map fun key => (s.textAt key).getD "")) := by
  have htext : ∀ key, s.textAt key = contents (· ++ ·) "" (textWrite key) events :=
    fun key => (isCell_textAt key).contents h
  refine ⟨fun key => ?_, fun index => ?_, fun hopen => ?_⟩
  · rw [htext key]
    exact reconstructs_contents (textWrite key) events
  · rw [(isCell_argumentsAt index).contents h]
    exact reconstructs_contents (argumentsWrite index) events
  · have hterminal : s.terminal = false := by
      have hstays := @pushAll_terminal events hopen new rfl
      rwa [h] at hstays
    refine ⟨s.text.keys, ?_, fun key => ?_, outputText_open hterminal⟩
    · exact Std.ExtTreeMap.ordered_keys.imp fun hlt => (lexOrder_lt_iff _ _).mp hlt
    · have hnone : s.textAt key = none ↔ ∀ event ∈ events, textWrite key event = none := by
        rw [htext key]
        exact contents_eq_none_iff (textWrite key) events
      rw [textAt, Option.map_eq_none_iff] at hnone
      rw [Std.ExtTreeMap.mem_keys, ← Std.ExtTreeMap.isSome_getElem?_iff_mem, ← Option.ne_none_iff_isSome,
        ne_eq, hnone]
      simp only [not_forall, exists_prop, ne_eq]

/-- A text that is set and then continued by a delta. -/
theorem pushAll_reconstructs_setThenDelta :
    Reconstructs (· ++ ·) "" (textWrite (0, 0))
      [.outputTextDone ⟨⟨1, 0, "item"⟩, 0, "ab"⟩, .outputTextDelta ⟨⟨2, 0, "item"⟩, 0, "c"⟩] "abc" := by
  have haccepted : (pushAll [.outputTextDone ⟨⟨1, 0, "item"⟩, 0, "ab"⟩,
      .outputTextDelta ⟨⟨2, 0, "item"⟩, 0, "c"⟩] new).2 = .ok () := by decide
  have htext := (pushAll_reconstructs _ _ (Prod.ext rfl haccepted)).1 (0, 0)
  have hvalue : ((pushAll [.outputTextDone ⟨⟨1, 0, "item"⟩, 0, "ab"⟩,
      .outputTextDelta ⟨⟨2, 0, "item"⟩, 0, "c"⟩] new).1.textAt (0, 0)).getD "" = "abc" := by
    decide
  rwa [hvalue] at htext

end ResponseAccumulator

end OpenaiRs.Responses
