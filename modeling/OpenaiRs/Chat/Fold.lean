import OpenaiRs.Chat.Accumulator
import Mathlib.Data.List.Induction

/-!
# The fold by index

What the chat accumulator holds after any chunks, for every choice index and every tool
index on its own: first values, last values and concatenated texts of the deltas that are
addressed to that index. Deltas for other indices have no influence, so deltas for
different indices may be reordered.
-/

namespace OpenaiRs.Chat

open Serde Rust

section Lists

variable {δ α : Type}

/-- A text that is only there if something was appended to it. -/
def concatenated (texts : List String) : Option String :=
  if texts = [] then none else some (String.join texts)

theorem foldl_first (pick : δ → Option α) (deltas : List δ) :
    deltas.foldl (fun seen d => seen.or (pick d)) none = (deltas.filterMap pick).head? := by
  have hsome : ∀ (rest : List δ) (a : α),
      rest.foldl (fun seen d => seen.or (pick d)) (some a) = some a := by
    intro rest a
    induction rest with
    | nil => rfl
    | cons d rest ih => exact ih
  induction deltas with
  | nil => rfl
  | cons d rest ih =>
      rw [List.foldl_cons, Option.none_or]
      cases hpick : pick d with
      | none => rw [ih, List.filterMap_cons_none hpick]
      | some a => rw [hsome, List.filterMap_cons_some hpick, List.head?_cons]

theorem foldl_last (pick : δ → Option α) (deltas : List δ) :
    deltas.foldl (fun seen d => (pick d).or seen) none = (deltas.filterMap pick).getLast? := by
  induction deltas using List.reverseRecOn with
  | nil => rfl
  | append_singleton deltas d ih =>
      rw [List.foldl_append, List.foldl_cons, List.foldl_nil, ih, List.filterMap_append]
      cases hpick : pick d with
      | none => simp [hpick]
      | some a => simp [hpick]

theorem foldl_texts (pick : δ → Option String) (deltas : List δ) (text : String) :
    deltas.foldl (fun seen d => seen ++ (pick d).getD "") text =
      text ++ String.join (deltas.filterMap pick) := by
  induction deltas generalizing text with
  | nil => simp
  | cons d rest ih =>
      rw [List.foldl_cons, ih]
      cases hpick : pick d with
      | none => rw [List.filterMap_cons_none hpick, Option.getD_none, String.append_empty]
      | some t =>
          rw [List.filterMap_cons_some hpick, Option.getD_some, String.join_cons, String.append_assoc]

theorem foldl_pushText (pick : δ → Option String) (deltas : List δ) :
    deltas.foldl (fun seen d => ((pick d).map (pushText seen)).getD seen) none =
      concatenated (deltas.filterMap pick) := by
  have hsome : ∀ (rest : List δ) (text : String),
      rest.foldl (fun seen d => ((pick d).map (pushText seen)).getD seen) (some text) =
        some (text ++ String.join (rest.filterMap pick)) := by
    intro rest
    induction rest with
    | nil => intro text; simp
    | cons d rest ih =>
        intro text
        rw [List.foldl_cons]
        cases hpick : pick d with
        | none => rw [List.filterMap_cons_none hpick]; exact ih text
        | some t =>
            rw [List.filterMap_cons_some hpick, String.join_cons, ← String.append_assoc]
            exact ih (text ++ t)
  induction deltas with
  | nil => rfl
  | cons d rest ih =>
      rw [List.foldl_cons]
      cases hpick : pick d with
      | none => rw [List.filterMap_cons_none hpick]; exact ih
      | some t =>
          rw [List.filterMap_cons_some hpick, concatenated, if_neg (by simp), String.join_cons]
          exact hsome rest t

end Lists

section ToolCalls

/-- The function name that a tool-call delta announces. -/
def ChatToolCallChunk.functionName (call : ChatToolCallChunk) : Option String :=
  call.function.toOption.bind fun function => function.name.toOption

/-- The function arguments that a tool-call delta appends. -/
def ChatToolCallChunk.functionArguments (call : ChatToolCallChunk) : Option String :=
  call.function.toOption.bind fun function => function.arguments.toOption

namespace ToolCallState

/-- A tool call holds the first values and the concatenated arguments of its deltas. -/
structure Folds (s : ToolCallState) (calls : List ChatToolCallChunk) : Prop where
  id : s.id = (calls.filterMap fun call => call.id.toOption).head?
  kind : s.kind = (calls.filterMap fun call => call.kind.toOption).head?
  name : s.name = (calls.filterMap ChatToolCallChunk.functionName).head?
  arguments : s.arguments = String.join (calls.filterMap ChatToolCallChunk.functionArguments)

theorem observe_id (s : ToolCallState) (call : ChatToolCallChunk) :
    (s.observe call).id = s.id.or call.id.toOption := by
  rcases s with ⟨_ | id, _ | kind, seen, _ | name, arguments, extra⟩ <;>
    rcases call with ⟨index, id', kind', _ | ⟨name', _ | arguments'⟩, extra'⟩ <;> rfl

theorem observe_kind (s : ToolCallState) (call : ChatToolCallChunk) :
    (s.observe call).kind = s.kind.or call.kind.toOption := by
  rcases s with ⟨_ | id, _ | kind, seen, _ | name, arguments, extra⟩ <;>
    rcases call with ⟨index, id', kind', _ | ⟨name', _ | arguments'⟩, extra'⟩ <;> rfl

theorem observe_name (s : ToolCallState) (call : ChatToolCallChunk) :
    (s.observe call).name = s.name.or call.functionName := by
  rcases s with ⟨_ | id, _ | kind, seen, _ | name, arguments, extra⟩ <;>
    rcases call with ⟨index, id', kind', _ | ⟨name', _ | arguments'⟩, extra'⟩ <;> rfl

theorem observe_arguments (s : ToolCallState) (call : ChatToolCallChunk) :
    (s.observe call).arguments = s.arguments ++ call.functionArguments.getD "" := by
  rcases s with ⟨_ | id, _ | kind, seen, _ | name, arguments, extra⟩ <;>
    rcases call with ⟨index, id', kind', _ | ⟨name', _ | arguments'⟩, extra'⟩ <;>
    first
    | rfl
    | exact String.append_empty.symm

theorem folds_observe (calls : List ChatToolCallChunk) :
    (calls.foldl observe default).Folds calls where
  id := by
    rw [← foldl_first]
    exact (List.foldl_hom ToolCallState.id fun s call => (observe_id s call).symm).symm
  kind := by
    rw [← foldl_first]
    exact (List.foldl_hom ToolCallState.kind fun s call => (observe_kind s call).symm).symm
  name := by
    rw [← foldl_first]
    exact (List.foldl_hom ToolCallState.name fun s call => (observe_name s call).symm).symm
  arguments := by
    rw [← String.empty_append (s := String.join _), ← foldl_texts]
    exact (List.foldl_hom ToolCallState.arguments fun s call => (observe_arguments s call).symm).symm

end ToolCallState

end ToolCalls

section Choices

namespace ChatCompletionChunkChoice

/-- The tool-call deltas of a choice delta. -/
def toolCallDeltas (choice : ChatCompletionChunkChoice) : List ChatToolCallChunk :=
  choice.delta.toolCalls.toOption.getD []

/-- A choice delta whose list of tool-call deltas, if there is one, is emptied. -/
def withoutToolCalls (choice : ChatCompletionChunkChoice) : ChatCompletionChunkChoice :=
  { choice with delta := { choice.delta with
      toolCalls := match choice.delta.toolCalls with | .omitted => .omitted | .value _ => .value [] } }

end ChatCompletionChunkChoice

namespace ChoiceState

/-- A choice holds the concatenated texts and the last values of its deltas, and for every
tool index one tool call that holds the deltas of that index. -/
structure Folds (s : ChoiceState) (deltas : List ChatCompletionChunkChoice) : Prop where
  content : s.content = concatenated (deltas.filterMap fun choice => choice.delta.content.present)
  refusal : s.refusal.bind Nullable.toOption =
    concatenated (deltas.filterMap fun choice => choice.delta.refusal.present)
  role : s.role = (deltas.filterMap fun choice => choice.delta.role.toOption).getLast?
  finishReason : s.finishReason = (deltas.filterMap fun choice => choice.finishReason.toOption).getLast?
  seen : s.toolCallsSeen = deltas.any fun choice => choice.delta.toolCalls.toOption.isSome
  indices : ∀ index : Nat, index ∈ s.toolCalls ↔
    ∃ call ∈ deltas.flatMap ChatCompletionChunkChoice.toolCallDeltas, call.index = index
  toolCalls : ∀ (index : Nat) (call : ToolCallState), s.toolCalls[index]? = some call →
    call.Folds ((deltas.flatMap ChatCompletionChunkChoice.toolCallDeltas).filter (·.index = index))

theorem observe_content (s : ChoiceState) (choice : ChatCompletionChunkChoice) :
    (s.observe choice).content =
      ((choice.delta.content.present).map (pushText s.content)).getD s.content := by
  rw [observe]
  rcases choice.delta.content with _ | _ | text <;> rfl

theorem observe_refusal (s : ChoiceState) (choice : ChatCompletionChunkChoice) :
    (s.observe choice).refusal.bind Nullable.toOption =
      ((choice.delta.refusal.present).map (pushText (s.refusal.bind Nullable.toOption))).getD
        (s.refusal.bind Nullable.toOption) := by
  rw [observe]
  rcases choice.delta.refusal with _ | _ | text <;> rcases s.refusal with _ | _ | old <;> rfl

theorem foldl_observe_toolCalls (deltas : List ChatCompletionChunkChoice) (s : ChoiceState) :
    (deltas.foldl observe s).toolCalls =
      foldEntries ChatToolCallChunk.index ToolCallState.observe ToolCallState.default s.toolCalls
        (deltas.flatMap ChatCompletionChunkChoice.toolCallDeltas) := by
  induction deltas generalizing s with
  | nil => rfl
  | cons choice rest ih =>
      rw [List.foldl_cons, ih, List.flatMap_cons, foldEntries, foldEntries, List.foldl_append]
      rfl

theorem foldl_observe_seen (deltas : List ChatCompletionChunkChoice) (s : ChoiceState) :
    (deltas.foldl observe s).toolCallsSeen =
      (s.toolCallsSeen || deltas.any fun choice => choice.delta.toolCalls.toOption.isSome) := by
  induction deltas generalizing s with
  | nil => simp
  | cons choice rest ih =>
      rw [List.foldl_cons, ih, List.any_cons, ← Bool.or_assoc]
      rfl

theorem folds_observe (deltas : List ChatCompletionChunkChoice) :
    (deltas.foldl observe default).Folds deltas where
  content := by
    rw [← foldl_pushText]
    exact (List.foldl_hom ChoiceState.content fun s choice => (observe_content s choice).symm).symm
  refusal := by
    rw [← foldl_pushText]
    exact (List.foldl_hom (fun s : ChoiceState => s.refusal.bind Nullable.toOption)
      fun s choice => (observe_refusal s choice).symm).symm
  role := by
    rw [← foldl_last]
    exact (List.foldl_hom ChoiceState.role fun _ _ => rfl).symm
  finishReason := by
    rw [← foldl_last]
    exact (List.foldl_hom ChoiceState.finishReason fun _ _ => rfl).symm
  seen := foldl_observe_seen deltas default
  indices index := by
    rw [foldl_observe_toolCalls, mem_foldEntries]
    simp [default]
  toolCalls index call h := by
    rw [foldl_observe_toolCalls, getElem?_foldEntries, foldl_some] at h
    split at h
    · simp [default] at h
    · simp only [default, Std.ExtTreeMap.getElem?_empty, Option.getD_none, Option.some.injEq] at h
      rw [← h]
      exact ToolCallState.folds_observe _

/-- The tool calls do not influence the other fields. -/
theorem foldl_observe_with (deltas : List ChatCompletionChunkChoice) (s : ChoiceState)
    (calls calls' : Std.ExtTreeMap Nat ToolCallState) :
    { deltas.foldl observe { s with toolCalls := calls } with toolCalls := calls' } =
      { deltas.foldl observe s with toolCalls := calls' } := by
  induction deltas generalizing s calls with
  | nil => rfl
  | cons choice rest ih =>
      rw [List.foldl_cons, List.foldl_cons]
      exact ih (s.observe choice) _

/-- The tool calls are folded on their own, beside everything else. -/
theorem foldl_observe_eq (deltas : List ChatCompletionChunkChoice) (s : ChoiceState) :
    deltas.foldl observe s =
      { (deltas.map ChatCompletionChunkChoice.withoutToolCalls).foldl observe s with
        toolCalls := foldEntries ChatToolCallChunk.index ToolCallState.observe ToolCallState.default
          s.toolCalls (deltas.flatMap ChatCompletionChunkChoice.toolCallDeltas) } := by
  rw [← foldl_observe_toolCalls]
  induction deltas generalizing s with
  | nil => rfl
  | cons choice rest ih =>
      have hchoice : s.observe choice = { s.observe choice.withoutToolCalls with
          toolCalls := (s.observe choice).toolCalls } := by
        rw [observe, observe, ChatCompletionChunkChoice.withoutToolCalls]
        cases choice.delta.toolCalls <;> rfl
      rw [List.foldl_cons, List.map_cons, List.foldl_cons, ← foldl_observe_with _ _
        (s.observe choice).toolCalls, ← hchoice]
      exact ih (s.observe choice)

end ChoiceState

end Choices

section Accumulator

namespace ChatCompletionChunk

/-- A chunk whose choice deltas are left out. -/
def withoutChoices (chunk : ChatCompletionChunk) : ChatCompletionChunk := { chunk with choices := [] }

end ChatCompletionChunk

/-- The chunks that are not skipped. -/
def accepted (chunks : List ChatCompletionChunk) : List ChatCompletionChunk :=
  chunks.filter (·.object = .chunk)

/-- All choice deltas in order of arrival. -/
def choiceDeltas (chunks : List ChatCompletionChunk) : List ChatCompletionChunkChoice :=
  (accepted chunks).flatMap ChatCompletionChunk.choices

/-- The deltas of one choice in order of arrival. -/
def deltasOf (chunks : List ChatCompletionChunk) (index : Nat) : List ChatCompletionChunkChoice :=
  (choiceDeltas chunks).filter (·.index = index)

/-- The tool-call deltas of one choice in order of arrival. -/
def callsOf (chunks : List ChatCompletionChunk) (index : Nat) : List ChatToolCallChunk :=
  (deltasOf chunks index).flatMap ChatCompletionChunkChoice.toolCallDeltas

namespace ChatCompletionAccumulator

theorem pushAll_eq (chunks : List ChatCompletionChunk) (s : ChatCompletionAccumulator) :
    s.pushAll chunks =
      { s with
        started := s.started || !(accepted chunks).isEmpty
        top := (accepted chunks).foldl TopLevelState.observe s.top
        choices := foldEntries ChatCompletionChunkChoice.index ChoiceState.observe ChoiceState.default
          s.choices (choiceDeltas chunks) } := by
  induction chunks generalizing s with
  | nil => simp [pushAll, accepted, choiceDeltas, foldEntries]
  | cons chunk rest ih =>
      rw [pushAll, List.foldl_cons]
      change pushAll (s.push chunk) rest = _
      rw [ih, push]
      by_cases hobject : chunk.object = .chunk
      · have haccepted : accepted (chunk :: rest) = chunk :: accepted rest :=
          List.filter_cons_of_pos (by simpa using hobject)
        rw [if_neg (by simpa using hobject), choiceDeltas, choiceDeltas, haccepted]
        simp [foldEntries, List.foldl_append]
      · have haccepted : accepted (chunk :: rest) = accepted rest :=
          List.filter_cons_of_neg (by simpa using hobject)
        rw [if_pos hobject, choiceDeltas, choiceDeltas, haccepted]

/-- The state depends only on the chunks without their choices, on the deltas of every choice
without its tool calls, and on the deltas of every single tool call. -/
theorem pushAll_congr {chunks chunks' : List ChatCompletionChunk} (s : ChatCompletionAccumulator)
    (hchunks : chunks.map ChatCompletionChunk.withoutChoices =
      chunks'.map ChatCompletionChunk.withoutChoices)
    (hdeltas : ∀ index, (deltasOf chunks index).map ChatCompletionChunkChoice.withoutToolCalls =
      (deltasOf chunks' index).map ChatCompletionChunkChoice.withoutToolCalls)
    (hcalls : ∀ index call, (callsOf chunks index).filter (·.index = call) =
      (callsOf chunks' index).filter (·.index = call)) :
    s.pushAll chunks = s.pushAll chunks' := by
  have haccepted : (accepted chunks).map ChatCompletionChunk.withoutChoices =
      (accepted chunks').map ChatCompletionChunk.withoutChoices := by
    have hfilter := congrArg (List.filter (·.object = .chunk)) hchunks
    rwa [List.filter_map, List.filter_map] at hfilter
  have htop : (accepted chunks).foldl TopLevelState.observe s.top =
      (accepted chunks').foldl TopLevelState.observe s.top := by
    have hfold := congrArg (List.foldl TopLevelState.observe s.top) haccepted
    rwa [List.foldl_map, List.foldl_map] at hfold
  have hstarted : (accepted chunks).isEmpty = (accepted chunks').isEmpty := by
    have hempty := congrArg List.isEmpty haccepted
    rwa [List.isEmpty_map, List.isEmpty_map] at hempty
  rw [pushAll_eq, pushAll_eq, htop, hstarted]
  congr 1
  apply Std.ExtTreeMap.ext_getElem?
  intro index
  rw [getElem?_foldEntries, getElem?_foldEntries, foldl_some, foldl_some]
  change (if deltasOf chunks index = [] then _ else some ((deltasOf chunks index).foldl _ _)) =
    (if deltasOf chunks' index = [] then _ else some ((deltasOf chunks' index).foldl _ _))
  have hnil : deltasOf chunks index = [] ↔ deltasOf chunks' index = [] := by
    rw [← List.map_eq_nil_iff (f := ChatCompletionChunkChoice.withoutToolCalls), hdeltas,
      List.map_eq_nil_iff]
  simp only [hnil]
  congr 2
  have hentries : ∀ calls : Std.ExtTreeMap Nat ToolCallState,
      foldEntries ChatToolCallChunk.index ToolCallState.observe ToolCallState.default calls
          ((deltasOf chunks index).flatMap ChatCompletionChunkChoice.toolCallDeltas) =
        foldEntries ChatToolCallChunk.index ToolCallState.observe ToolCallState.default calls
          ((deltasOf chunks' index).flatMap ChatCompletionChunkChoice.toolCallDeltas) :=
    fun calls => foldEntries_congr (hcalls index)
  rw [ChoiceState.foldl_observe_eq, hdeltas, hentries,
    ChoiceState.foldl_observe_eq (deltasOf chunks' index)]

end ChatCompletionAccumulator

end Accumulator

end OpenaiRs.Chat
