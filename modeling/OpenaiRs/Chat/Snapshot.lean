import OpenaiRs.Chat.Fold
import Mathlib.Data.List.Basic

/-!
# The snapshot object of the chat accumulator

The snapshot lists the choices by their indices and the tool calls of every choice by
theirs, both ascending. Together with the fold by index this describes what a reader of the
snapshot sees after any chunks, in any interleaving of the indices.
-/

namespace OpenaiRs.Chat

open Serde Rust

section Members

theorem get_insertFirstSeen {target : Map} {key : String} {value : Value}
    (h : target.get key = some value) (extra : Map) :
    (insertFirstSeen target extra).get key = some value := by
  induction extra generalizing target with
  | nil => exact h
  | cons member rest ih => exact ih (Map.get_orInsert_of_some h member.1 member.2)

/-- An optional insertion under another key keeps a member. -/
theorem get_insert_optional {object : Map} {key other : String} {value : Value}
    (h : object.get key = some value) (hne : other ≠ key) (inserted : Option Value) :
    Map.get ((inserted.map (object.insert other)).getD object) key = some value := by
  cases inserted with
  | none => exact h
  | some inserted => exact Map.get_insert_of_ne h hne inserted

theorem get_passthrough {object : Map} {key : String} {value : Value}
    (h : object.get key = some value) (passthrough : Bool) (extra : Map) :
    Map.get (if passthrough then insertFirstSeen object extra else object) key = some value := by
  split
  · exact get_insertFirstSeen h extra
  · exact h

end Members

section Snapshots

/-- The message of a choice: its text, and its tool calls by ascending index. A tool call that
is a bare index has no snapshot and is passed over. -/
structure ChoiceState.Shows (s : ChoiceState) (passthrough : Bool) (message : Map) : Prop where
  role : message.get "role" =
    some (.string ((s.role.map ChatRole.asStr).getD ChatRole.assistant.asStr))
  content : message.get "content" = some ((s.content.map Value.string).getD .null)
  ascending : s.toolCalls.keys.Pairwise (· < ·)
  toolCalls : s.toolCallsSeen = true → message.get "tool_calls" =
    some (.array (s.toolCalls.keys.filterMap fun index =>
      s.toolCalls[index]?.bind fun call => call.snapshot passthrough))

/-- The snapshot of a choice carries its index, its finish reason and its message. -/
structure ChoiceState.ShowsAt (s : ChoiceState) (index : Nat) (passthrough : Bool) (choice : Map) :
    Prop where
  index : choice.get "index" = some (.number (.posInt (UInt64.ofNat index)))
  finishReason : choice.get "finish_reason" =
    some (.string ((s.finishReason.map ChatFinishReason.asStr).getD ChatFinishReason.stop.asStr))
  message : ∃ message, choice.get "message" = some (.object message) ∧ s.Shows passthrough message

/-- The snapshot object lists one choice for every index, ascending. -/
structure ChatCompletionAccumulator.Shows (s : ChatCompletionAccumulator) (passthrough : Bool) :
    Prop where
  ascending : s.choices.keys.Pairwise (· < ·)
  choices : ∃ listed : List Map,
    (s.snapshotObject passthrough).get "choices" = some (.array (listed.map Value.object)) ∧
      List.Forall₂ (fun index choice => ∃ state, s.choices[index]? = some state ∧
        state.ShowsAt index passthrough choice) s.choices.keys listed

theorem keys_ascending {σ : Type} (m : Std.ExtTreeMap Nat σ) : m.keys.Pairwise (· < ·) := by
  apply Std.ExtTreeMap.ordered_keys.imp
  intro a b hlt
  exact Nat.compare_eq_lt.mp hlt

theorem filterMap_values {σ γ : Type} (m : Std.ExtTreeMap Nat σ) (f : σ → Option γ) :
    (values m).filterMap f = m.keys.filterMap fun key => m[key]?.bind f := by
  rw [values, ← Std.ExtTreeMap.map_fst_toList_eq_keys, List.filterMap_map, List.filterMap_map]
  apply List.filterMap_congr
  rintro ⟨key, value⟩ hmem
  rw [Std.ExtTreeMap.mem_toList_iff_getElem?_eq_some] at hmem
  simp [hmem]

/-- Members that stand before the optional ones of a message are kept. -/
theorem ChoiceState.get_message (s : ChoiceState) (passthrough : Bool) {key : String} {value : Value}
    (hrefusal : key ≠ "refusal") (hcalls : key ≠ "tool_calls") (hlegacy : key ≠ "function_call")
    (h : Map.get [("role", .string ((s.role.map ChatRole.asStr).getD ChatRole.assistant.asStr)),
      ("content", match s.content with | some content => .string content | none => .null)] key =
        some value) :
    (s.message passthrough).get key = some value := by
  rw [message]
  apply get_passthrough
  have hwith : ∀ {object : Map}, object.get key = some value → ∀ calls : Bool,
      Map.get (if calls then object.insert "tool_calls" (.array (s.toolCallValues passthrough))
        else object) key = some value := by
    intro object hobject calls
    split
    · exact Map.get_insert_of_ne hobject hcalls.symm _
    · exact hobject
  rcases s.legacyFunctionCall with _ | legacy <;> rcases s.refusal with _ | _ | text
  · exact hwith h _
  · exact hwith (Map.get_insert_of_ne h hrefusal.symm _) _
  · exact hwith (Map.get_insert_of_ne h hrefusal.symm _) _
  · exact Map.get_insert_of_ne (hwith h _) hlegacy.symm _
  · exact Map.get_insert_of_ne (hwith (Map.get_insert_of_ne h hrefusal.symm _) _) hlegacy.symm _
  · exact Map.get_insert_of_ne (hwith (Map.get_insert_of_ne h hrefusal.symm _) _) hlegacy.symm _

theorem ChoiceState.get_message_toolCalls (s : ChoiceState) (passthrough : Bool)
    (hseen : s.toolCallsSeen = true) :
    (s.message passthrough).get "tool_calls" = some (.array (s.toolCallValues passthrough)) := by
  rw [message, if_pos hseen]
  apply get_passthrough
  cases s.legacyFunctionCall with
  | none => exact Map.get_insert_self _ _ _
  | some legacy => exact Map.get_insert_of_ne (Map.get_insert_self _ _ _) (by decide) _

theorem ChoiceState.shows (s : ChoiceState) (passthrough : Bool) :
    s.Shows passthrough (s.message passthrough) where
  role := s.get_message passthrough (by decide) (by decide) (by decide) rfl
  content := by
    apply s.get_message passthrough (by decide) (by decide) (by decide)
    cases s.content with
    | none => rfl
    | some content => rfl
  ascending := keys_ascending s.toolCalls
  toolCalls hseen := by
    rw [s.get_message_toolCalls passthrough hseen, toolCallValues, filterMap_values]

theorem ChoiceState.showsAt (s : ChoiceState) (index : Nat) (passthrough : Bool) :
    ∃ choice, s.snapshot index passthrough = .object choice ∧ s.ShowsAt index passthrough choice := by
  refine ⟨_, rfl, ?_, ?_, s.message passthrough, ?_, s.shows passthrough⟩
  · exact get_passthrough rfl passthrough s.extra
  · exact get_passthrough rfl passthrough s.extra
  · exact get_passthrough rfl passthrough s.extra

namespace ChatCompletionAccumulator

theorem get_snapshotObject_choices (s : ChatCompletionAccumulator) (passthrough : Bool) :
    (s.snapshotObject passthrough).get "choices" = some (.array (s.choiceValues passthrough)) := by
  rw [snapshotObject]
  apply get_insert_optional _ (by decide)
  apply get_insert_optional _ (by decide)
  have hfingerprint : ∀ object : Map, (s.top.systemFingerprint.map fun fingerprint =>
      object.insert "system_fingerprint" (.string fingerprint)) =
      (s.top.systemFingerprint.map Value.string).map (object.insert "system_fingerprint") :=
    fun object => (Option.map_map (object.insert "system_fingerprint") Value.string _).symm
  rw [hfingerprint]
  apply get_insert_optional _ (by decide)
  apply get_insert_optional _ (by decide)
  exact get_passthrough rfl passthrough s.top.extra

theorem shows (s : ChatCompletionAccumulator) (passthrough : Bool) : s.Shows passthrough where
  ascending := keys_ascending s.choices
  choices := by
    have hlisted : ∀ entries : List (Nat × ChoiceState),
        (∀ entry ∈ entries, s.choices[entry.1]? = some entry.2) → ∃ listed : List Map,
          (entries.map fun entry => entry.2.snapshot entry.1 passthrough) = listed.map Value.object ∧
          List.Forall₂ (fun index choice => ∃ state, s.choices[index]? = some state ∧
            state.ShowsAt index passthrough choice) (entries.map Prod.fst) listed := by
      intro entries hentries
      induction entries with
      | nil => exact ⟨[], rfl, .nil⟩
      | cons entry rest ih =>
          obtain ⟨listed, hmap, hall⟩ := ih fun other hmem => hentries other (.tail _ hmem)
          obtain ⟨choice, hchoice, hshows⟩ := entry.2.showsAt entry.1 passthrough
          refine ⟨choice :: listed, ?_, .cons ⟨entry.2, hentries entry (.head _), hshows⟩ hall⟩
          rw [List.map_cons, List.map_cons, hmap, hchoice]
    obtain ⟨listed, hmap, hall⟩ := hlisted s.choices.toList fun entry hmem =>
      Std.ExtTreeMap.mem_toList_iff_getElem?_eq_some.mp hmem
    refine ⟨listed, ?_, ?_⟩
    · rw [get_snapshotObject_choices, choiceValues, hmap]
    · rwa [← Std.ExtTreeMap.map_fst_toList_eq_keys]

end ChatCompletionAccumulator

end Snapshots

section Main

namespace ChatCompletionAccumulator

/-- One choice for every index that was announced, holding the deltas of that index. -/
structure Folds (s : ChatCompletionAccumulator) (chunks : List ChatCompletionChunk) : Prop where
  indices : ∀ index : Nat, index ∈ s.choices ↔ ∃ choice ∈ choiceDeltas chunks, choice.index = index
  choices : ∀ (index : Nat) (state : ChoiceState), s.choices[index]? = some state →
    state.Folds (deltasOf chunks index)

theorem folds_pushAll (chunks : List ChatCompletionChunk) : (new.pushAll chunks).Folds chunks where
  indices index := by
    rw [pushAll_eq, mem_foldEntries]
    simp [new]
  choices index state h := by
    rw [pushAll_eq, getElem?_foldEntries, foldl_some] at h
    split at h
    · simp [new] at h
    · simp only [new, Std.ExtTreeMap.getElem?_empty, Option.getD_none, Option.some.injEq] at h
      rw [← h]
      exact ChoiceState.folds_observe _

/-- Swapping two adjacent choice deltas of different choices, within a chunk or across two. -/
theorem pushAll_swap_choices {chunks chunks' : List ChatCompletionChunk}
    {before after : List ChatCompletionChunkChoice} {x y : ChatCompletionChunkChoice}
    (s : ChatCompletionAccumulator)
    (hchunks : chunks.map ChatCompletionChunk.withoutChoices =
      chunks'.map ChatCompletionChunk.withoutChoices)
    (hdeltas : choiceDeltas chunks = before ++ x :: y :: after)
    (hdeltas' : choiceDeltas chunks' = before ++ y :: x :: after) (hne : x.index ≠ y.index) :
    s.pushAll chunks = s.pushAll chunks' := by
  have hof : ∀ index, deltasOf chunks index = deltasOf chunks' index := by
    intro index
    rw [deltasOf, deltasOf, hdeltas, hdeltas', filter_swap hne]
  apply pushAll_congr s hchunks
  · intro index
    rw [hof]
  · intro index call
    rw [callsOf, callsOf, hof]

/-- Swapping two adjacent deltas of different tool calls of a choice. -/
theorem pushAll_swap_toolCalls {chunks chunks' : List ChatCompletionChunk} {index : Nat}
    {before after : List ChatToolCallChunk} {x y : ChatToolCallChunk}
    (s : ChatCompletionAccumulator)
    (hchunks : chunks.map ChatCompletionChunk.withoutChoices =
      chunks'.map ChatCompletionChunk.withoutChoices)
    (hdeltas : ∀ choice, (deltasOf chunks choice).map ChatCompletionChunkChoice.withoutToolCalls =
      (deltasOf chunks' choice).map ChatCompletionChunkChoice.withoutToolCalls)
    (hothers : ∀ other, other ≠ index → callsOf chunks other = callsOf chunks' other)
    (hcalls : callsOf chunks index = before ++ x :: y :: after)
    (hcalls' : callsOf chunks' index = before ++ y :: x :: after) (hne : x.index ≠ y.index) :
    s.pushAll chunks = s.pushAll chunks' := by
  apply pushAll_congr s hchunks hdeltas
  intro choice call
  by_cases hchoice : choice = index
  · rw [hchoice, hcalls, hcalls', filter_swap hne]
  · rw [hothers choice hchoice]

/-- After any chunks the accumulator has one choice for every choice index and one tool call
for every tool index of a choice, each with the texts, the first and the last values of its own
deltas; the snapshot lists both by ascending index; and swapping adjacent deltas of different
choices, or of different tool calls of a choice, does not change the state. -/
theorem pushAll_folds_by_index (chunks : List ChatCompletionChunk) :
    (new.pushAll chunks).Folds chunks ∧
    (∀ passthrough, (new.pushAll chunks).Shows passthrough) ∧
    (∀ (s : ChatCompletionAccumulator) (chunks' : List ChatCompletionChunk)
      (before after : List ChatCompletionChunkChoice) (x y : ChatCompletionChunkChoice),
      chunks.map ChatCompletionChunk.withoutChoices =
        chunks'.map ChatCompletionChunk.withoutChoices →
      choiceDeltas chunks = before ++ x :: y :: after →
      choiceDeltas chunks' = before ++ y :: x :: after →
      x.index ≠ y.index → s.pushAll chunks = s.pushAll chunks') ∧
    (∀ (s : ChatCompletionAccumulator) (chunks' : List ChatCompletionChunk) (index : Nat)
      (before after : List ChatToolCallChunk) (x y : ChatToolCallChunk),
      chunks.map ChatCompletionChunk.withoutChoices =
        chunks'.map ChatCompletionChunk.withoutChoices →
      (∀ choice, (deltasOf chunks choice).map ChatCompletionChunkChoice.withoutToolCalls =
        (deltasOf chunks' choice).map ChatCompletionChunkChoice.withoutToolCalls) →
      (∀ other, other ≠ index → callsOf chunks other = callsOf chunks' other) →
      callsOf chunks index = before ++ x :: y :: after →
      callsOf chunks' index = before ++ y :: x :: after →
      x.index ≠ y.index → s.pushAll chunks = s.pushAll chunks') := by
  refine ⟨folds_pushAll chunks, shows _, ?_, ?_⟩
  · intro s chunks' before after x y hchunks hdeltas hdeltas' hne
    exact pushAll_swap_choices s hchunks hdeltas hdeltas' hne
  · intro s chunks' index before after x y hchunks hdeltas hothers hcalls hcalls' hne
    exact pushAll_swap_toolCalls s hchunks hdeltas hothers hcalls hcalls' hne

/-- A choice delta with a text. -/
def textDelta (index : Nat) (text : String) : ChatCompletionChunkChoice :=
  ⟨⟨.value (.value text), .omitted, .omitted, .omitted, .omitted, []⟩, .null, index, .omitted, []⟩

/-- A chunk with the given choice deltas. -/
def chunkOf (choices : List ChatCompletionChunkChoice) : ChatCompletionChunk :=
  ⟨"chatcmpl-1", choices, 1, "gpt", .chunk, .omitted, .omitted, .omitted, .omitted, []⟩

theorem pushAll_folds_swapped_texts :
    new.pushAll [chunkOf [textDelta 0 "a"], chunkOf [textDelta 1 "b", textDelta 0 "c"]] =
      new.pushAll [chunkOf [textDelta 1 "b"], chunkOf [textDelta 0 "a", textDelta 0 "c"]] :=
  (pushAll_folds_by_index _).2.2.1 new _ [] [textDelta 0 "c"] (textDelta 0 "a") (textDelta 1 "b")
    rfl rfl rfl (by decide)

end ChatCompletionAccumulator

end Main

end OpenaiRs.Chat
