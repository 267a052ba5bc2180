import OpenaiRs.Replay.Conversation
import Mathlib.Data.Nat.Init
import OpenaiRs.Replay.ToInput
import OpenaiRs.Rust.Result

/-!
# Both replay paths agree

What an output item becomes by way of a conversation is written with the members of the output item, as is what
`to_input_items` makes of it.

## Implementation notes

A kind takes the way of three types with one tag: the payload of the response, the one of the conversation and
the one of the request. Each reads what the one before has written, and keeps its members.
-/

namespace OpenaiRs.Replay

open Rust Serde

variable {P : Shared → Type} [Payloads P]

section Ways

variable {α β γ : Type} [Wire α] [Wire β] [Wire γ]

/-- What `α` writes, `β` reads without a loss. -/
def Keeps (α β : Type) [Wire α] [Wire β] : Prop :=
  ∀ ⦃x : α⦄ ⦃y : β⦄, Valid x → deserialize (serialize x) = some y → (serialize y).SameMembers (serialize x)

theorem Keeps.self {tag : String} [Tagged tag α] : Keeps α α := by
  intro x y hx hread
  rw [Wire.deserialize_serialize hx] at hread
  cases hread
  exact sameMembers_of_tagged hx

theorem Keeps.of_rebuilds {R I : Type} [Struct R] [Struct I]
    (h : ∀ x : R, Valid x → ∃ (y : I) (more : Entries), Rebuilds x y more) : Keeps R I := by
  intro x y hx hread
  obtain ⟨y', more, hrebuilds⟩ := h x hx
  obtain ⟨y'', hread', hsame⟩ := hrebuilds.exists_reread hx
  cases hread.symm.trans hread'
  exact hsame

omit [Wire α] in
theorem fromValue_eq_ok {decoded : Option α} {a : α} : fromValue decoded = .ok a ↔ decoded = some a := by
  cases decoded with
  | none => exact ⟨nofun, nofun⟩
  | some b => simp [fromValue]

/-- The input item that is read from a payload. -/
theorem exists_input {tag : String} [Tagged tag β] {make : γ → ResponseInputItem P}
    (hread : ∀ m v, ResponseInputItem.deserializeTagged m v tag = (deserialize v).map make) {c : β} (hc : Valid c)
    {input : ResponseInputItem P} (h : fromValue (ResponseInputItem.deserialize (serialize c)) = .ok input) :
    ∃ y : γ, deserialize (serialize c) = some y ∧ input = make y := by
  have hdeserialize := fromValue_eq_ok.mp h
  have htag := Tagged.objectDiscriminator_serialize hc
  obtain ⟨m, hobject, _⟩ := Option.bind_eq_some_iff.mp htag
  rw [Value.asObject_eq_some hobject] at hdeserialize htag ⊢
  rw [ResponseInputItem.deserialize_of_objectDiscriminator htag, hread] at hdeserialize
  obtain ⟨y, hy, rfl⟩ := Option.map_eq_some_iff.mp hdeserialize
  exact ⟨y, hy, rfl⟩

/-- The way of a kind by its three payloads. -/
theorem sameMembers_of_way (tag : String) [Tagged tag α] [Tagged tag β] (store : β → ConversationItem P)
    (make : γ → ResponseInputItem P) (hstore : Keeps α β) (hmake : Keeps β γ) {x : α} (hx : Valid x)
    {stored : ConversationItem P} (hstored : fromValue (deserialize (serialize x)) = .ok stored)
    {input : ResponseInputItem P} (hinput : stored.toResponseInputItem = .ok input)
    (hmem : Variant.of tag store ∈ TaggedUnion.variants := by
      repeat first | exact List.mem_cons_self | apply List.mem_cons_of_mem)
    (hread : ∀ m v, ResponseInputItem.deserializeTagged m v tag = (deserialize v).map make := by intros; rfl)
    (hnext : ∀ c, (store c).toResponseInputItem = fromValue (ResponseInputItem.deserialize (serialize c)) := by
      intros; rfl)
    (hcarried : ∀ y, (make y).serialize = serialize y := by intros; rfl) :
    input.serialize.SameMembers (serialize x) := by
  obtain ⟨c, hc, rfl⟩ := TaggedUnion.exists_payload hmem hx (fromValue_eq_ok.mp hstored)
  have hvalid : Valid c := Wire.valid_of_deserialize hc
  rw [hnext] at hinput
  obtain ⟨y, hy, rfl⟩ := exists_input hread hvalid hinput
  rw [hcarried]
  exact (hmake hvalid hy).trans (hstore hx hc)

end Ways

/-! ## The kinds whose payloads differ -/

theorem CustomToolCallOutputResource.keeps : Keeps (CustomToolCallOutputResource P) (CustomToolCallOutput P) :=
  .of_rebuilds fun _ h => ⟨_, _, CustomToolCallOutputResource.rebuilds h⟩

/-- A stored function call as the function call of an item. -/
def ConversationFunctionCall.toFunctionCall (call : ConversationFunctionCall P) : FunctionCall P where
  kind := .value
  id := .value call.id
  callId := call.callId
  name := call.name
  arguments := call.arguments
  nameSpace := call.nameSpace
  caller := call.caller
  status := .value call.status
  createdBy := call.createdBy
  async := call.async
  extra := call.extra

theorem ConversationFunctionCall.keeps : Keeps (ConversationFunctionCall P) (FunctionCall P) := by
  refine .of_rebuilds fun call h => ⟨call.toFunctionCall, [], ?_⟩
  exact
    { keys_nodup := by simp [Struct.keys, Struct.fields]
      keys_length := by simp [Struct.keys, Struct.fields]
      entries := by simp [Struct.entries, Struct.fields, Struct.declared, toFunctionCall]
      extra := (List.append_nil _).symm
      valid := h.1 }

/-- A function call without id or status cannot be stored. -/
theorem FunctionCall.keeps : Keeps (FunctionCall P) (ConversationFunctionCall P) := by
  intro call stored h hread
  have hreads := Struct.reads_of_deserialize (Struct.Sound.serialize_eq h ▸ hread)
  obtain ⟨-, hid, -, -, -, -, -, hstatus, -⟩ := hreads
  have hagree := Struct.Sound.agree h
  have hgetId : (Struct.members call).get "id" = Member.write call.id :=
    hagree ("id", Member.write call.id) (by simp [Struct.entries, Struct.fields, Struct.declared])
  have hgetStatus : (Struct.members call).get "status" = Member.write call.status :=
    hagree ("status", Member.write call.status) (by simp [Struct.entries, Struct.fields, Struct.declared])
  rw [hgetId] at hid
  rw [hgetStatus] at hstatus
  obtain ⟨kind, id, callId, name, arguments, nameSpace, caller, status, createdBy, async, extra⟩ := call
  cases id with
  | omitted => cases hid
  | value id =>
      cases status with
      | omitted => cases hstatus
      | value status =>
          let stored' : ConversationFunctionCall P :=
            { kind := .value, id, callId, name, arguments, nameSpace, caller, status, createdBy, async, extra }
          have hrebuilds : Rebuilds _ stored' [] :=
            { keys_nodup := by simp [Struct.keys, Struct.fields]
              keys_length := by simp [Struct.keys, Struct.fields]
              entries := by simp [Struct.entries, Struct.fields, Struct.declared, stored']
              extra := (List.append_nil _).symm
              valid := h.1 }
          obtain ⟨stored'', hread', hsame⟩ := hrebuilds.exists_reread h
          cases hread.symm.trans hread'
          exact hsame

/-! ## Messages -/

section Messages

variable {message : OutputMessage P} {stored : ConversationMessage P}

/-- A text or a refusal is stored as it is, and nothing else passes the check on what an assistant says. -/
theorem serialize_part {part : OutputContent P} (h : Valid part) {content : ConversationMessageContent P}
    (hread : deserialize (serialize part) = some content) (hcheck : stored.checkAssistantPart content = .ok ()) :
    serialize content = serialize part := by
  cases part with
  | text value =>
      have hmem : Variant.of "output_text" (ConversationMessageContent.outputText (P := P)) ∈
          TaggedUnion.variants := by
        simp [TaggedUnion.variants]
      obtain ⟨value', hown, rfl⟩ := TaggedUnion.exists_payload hmem (α := P _) h hread
      cases hown.symm.trans (Wire.deserialize_serialize (α := P _) h)
      rfl
  | refusal value =>
      have hmem : Variant.of "refusal" (ConversationMessageContent.refusal (P := P)) ∈ TaggedUnion.variants := by
        simp [TaggedUnion.variants]
      obtain ⟨value', hown, rfl⟩ := TaggedUnion.exists_payload hmem (α := Refusal) h hread
      cases hown.symm.trans (Wire.deserialize_serialize (α := Refusal) h)
      rfl
  | reasoningText value =>
      have hmem : Variant.of "reasoning_text" (ConversationMessageContent.reasoningText (P := P)) ∈
          TaggedUnion.variants := by
        simp [TaggedUnion.variants]
      obtain ⟨value', hown, rfl⟩ := TaggedUnion.exists_payload hmem (α := ReasoningTextContent) h hread
      cases hcheck
  | unknown value =>
      have hvalid : Valid content := Wire.valid_of_deserialize hread
      have htag : objectDiscriminator (serialize content) = some value.discriminator :=
        (TaggedUnion.objectDiscriminator_of_deserialize hread).trans value.objectDiscriminator_intoValue
      have hfuture : value.discriminator ∉ ["output_text", "refusal", "reasoning_text"] := h
      cases content with
      | outputText text =>
          have hknown := Option.some.inj (htag.symm.trans (Tagged.objectDiscriminator_serialize (α := P _) hvalid))
          exact absurd (hknown ▸ List.mem_cons_self) hfuture
      | refusal refusal =>
          have hknown := Option.some.inj (htag.symm.trans (Tagged.objectDiscriminator_serialize (α := Refusal) hvalid))
          exact absurd (hknown ▸ List.mem_cons_of_mem _ List.mem_cons_self) hfuture
      | _ => cases hcheck

theorem serialize_parts {parts : List (OutputContent P)} (h : ∀ part ∈ parts, Valid part)
    {contents : List (ConversationMessageContent P)} (hread : (parts.map serialize).mapM deserialize = some contents)
    (hcheck : ∀ content ∈ contents, stored.checkAssistantPart content = .ok ()) :
    contents.map serialize = parts.map serialize := by
  induction parts generalizing contents with
  | nil =>
      rw [List.map_nil, List.mapM_nil] at hread
      cases hread
      rfl
  | cons part rest ih =>
      obtain ⟨hpart, hrest⟩ := List.forall_mem_cons.mp h
      rw [List.map_cons, List.mapM_cons] at hread
      obtain ⟨content, hcontent, hread⟩ := Option.bind_eq_some_iff.mp hread
      obtain ⟨contents, hcontents, hread⟩ := Option.bind_eq_some_iff.mp hread
      cases hread
      obtain ⟨hfirst, hbehind⟩ := List.forall_mem_cons.mp hcheck
      rw [List.map_cons, List.map_cons, serialize_part hpart hcontent hfirst, ih hrest hcontents hbehind]

/-- What an assistant said is stored and replayed with the members it had. -/
theorem OutputMessage.sameMembers_of_way (h : Valid message) (hread : deserialize (serialize message) = some stored)
    {input : ResponseInputItem P} (hinput : stored.toResponseInputItem = .ok input) :
    input.serialize.SameMembers (serialize message) := by
  have hstored : Valid stored := Wire.valid_of_deserialize hread
  have hreads := Struct.reads_of_deserialize (Struct.Sound.serialize_eq h ▸ hread)
  obtain ⟨-, -, -, hrole, hcontent, -⟩ := hreads
  have hagree := Struct.Sound.agree h
  have hgetRole : (Struct.members message).get "role" = Member.write message.role :=
    hagree ("role", Member.write message.role) (by simp [Struct.entries, Struct.fields, Struct.declared])
  have hgetContent : (Struct.members message).get "content" = Member.write message.content :=
    hagree ("content", Member.write message.content) (by simp [Struct.entries, Struct.fields, Struct.declared])
  rw [hgetRole] at hrole
  rw [hgetContent] at hcontent
  have hassistant : stored.role = .known ⟨"assistant", by simp⟩ := (Option.some.inj hrole).symm
  rw [ConversationMessage.toResponseInputItem, hassistant] at hinput
  simp only at hinput
  obtain ⟨⟨⟩, hcheck, hinput⟩ := bind_eq_ok.mp hinput
  obtain ⟨output, houtput, hinput⟩ := bind_eq_ok.mp hinput
  cases hinput
  obtain ⟨_, hid, hstatus, _, hparts, hphase, _⟩ := h.1
  have hsame : serialize stored.content = serialize message.content :=
    congrArg Value.array (serialize_parts hparts hcontent (forM_eq_ok.mp hcheck))
  have hstore : Rebuilds message
      { kind := .value, id := message.id, status := message.status, role := stored.role, content := stored.content,
        phase := message.phase, extra := message.extra : ConversationMessage P } [] :=
    { keys_nodup := by simp [Struct.keys, Struct.fields]
      keys_length := by simp [Struct.keys, Struct.fields]
      entries := by simp [Struct.entries, Struct.fields, Struct.declared, hsame, hassistant, OpenEnum.asStr]
      extra := (List.append_nil _).symm
      valid := ⟨trivial, hid, hstatus, hstored.1.2.2.2.1, hstored.1.2.2.2.2.1, hphase, trivial⟩ }
  have hmake : Rebuilds stored
      { kind := .value, id := stored.id, status := stored.status, role := .value, content := message.content,
        phase := stored.phase, extra := stored.extra : OutputMessage P } [] :=
    { keys_nodup := by simp [Struct.keys, Struct.fields]
      keys_length := by simp [Struct.keys, Struct.fields]
      entries := by simp [Struct.entries, Struct.fields, Struct.declared, hsame, hassistant, OpenEnum.asStr]
      extra := (List.append_nil _).symm
      valid := ⟨trivial, hstored.1.2.1, hstored.1.2.2.1, trivial, hparts, hstored.1.2.2.2.2.2.1, trivial⟩ }
  obtain ⟨stored', hread', hsameStored⟩ := hstore.exists_reread h
  cases hread.symm.trans hread'
  obtain ⟨output', houtput', hsameOutput⟩ := hmake.exists_reread hstored
  cases (fromValue_eq_ok.mp houtput).symm.trans houtput'
  exact hsameOutput.trans hsameStored

end Messages

/-! ## Unknown items -/

section Unknown

variable {value : UnknownTaggedObject}

/-- A conversation knows no tag that a response does not know. -/
theorem tags_subset : TaggedUnion.tags (ConversationItem P) ⊆ TaggedUnion.tags (ResponseOutputItem P) := by
  rw [TaggedUnion.tags, TaggedUnion.variants]
  repeat refine List.cons_subset.mpr ⟨by repeat first | exact List.mem_cons_self | apply List.mem_cons_of_mem, ?_⟩
  exact List.nil_subset _

theorem not_mem_tags (h : value.discriminator ∉ TaggedUnion.tags (ResponseOutputItem P)) :
    value.discriminator ∉ TaggedUnion.tags (ConversationItem P) :=
  fun hmem => h (tags_subset hmem)

/-- A field that may be missing or `null` is written as it was read. -/
theorem write_of_read_omittable {found : Option Value} {field : Omittable (Nullable String)}
    (h : Member.read found = some field) : Member.write field = found := by
  cases found with
  | none =>
      cases h
      rfl
  | some v =>
      obtain ⟨field, hfield, rfl⟩ := Option.map_eq_some_iff.mp h
      cases v with
      | null =>
          cases hfield
          rfl
      | string s =>
          cases hfield
          rfl
      | _ => cases hfield

/-- A required string is written as it was read. -/
theorem write_of_read_required {found : Option Value} {text : String} (h : Member.required.read found = some text) :
    Member.required.write text = found := by
  obtain ⟨v, rfl, hv⟩ := Option.bind_eq_some_iff.mp h
  cases v with
  | string s =>
      cases hv
      rfl
  | _ => cases hv

/-- With a tag that is unknown to a conversation an input item is a control item or is unknown too. -/
theorem deserializeTagged_future {tag : String} (h : tag ∉ TaggedUnion.tags (ConversationItem P)) (m : Map)
    (v : Value) :
    tag = "compaction_trigger" ∨ tag = "item_reference" ∨
      ResponseInputItem.deserializeTagged m v tag =
        ((UnknownTaggedObject.fromValue v).map .unknown : Option (ResponseInputItem P)) := by
  simp only [TaggedUnion.tags, TaggedUnion.variants, List.map_cons, List.map_nil, Variant.of, List.mem_cons,
    List.not_mem_nil, not_or] at h
  unfold ResponseInputItem.deserializeTagged
  split <;> simp_all

theorem CompactionTrigger.sameMembers_of_deserialize (htag : value.discriminator = "compaction_trigger")
    {trigger : CompactionTrigger} (hread : deserialize value.intoValue = some trigger) :
    (serialize trigger).SameMembers value.intoValue := by
  obtain ⟨-, hid, -⟩ := Struct.reads_of_deserialize hread
  have htype : value.raw.get "type" = some (.string "compaction_trigger") :=
    htag ▸ get_type_of_objectDiscriminator value.objectDiscriminator_raw
  apply Struct.sameMembers_of_agree value.nodup hread
  exact List.forall_mem_cons.mpr ⟨htype, List.forall_mem_singleton.mpr (write_of_read_omittable hid).symm⟩

theorem ItemReference.sameMembers_of_deserialize {reference : ItemReference}
    (hread : deserialize value.intoValue = some reference) :
    (serialize reference).SameMembers value.intoValue := by
  obtain ⟨hid, -⟩ := Struct.reads_of_deserialize hread
  apply Struct.sameMembers_of_agree value.nodup hread
  exact List.forall_mem_singleton.mpr (write_of_read_required hid).symm

/-- An item that nobody knows is replayed verbatim, a control item with all its members. -/
theorem sameMembers_of_unknown (h : value.discriminator ∉ TaggedUnion.tags (ConversationItem P))
    {input : ResponseInputItem P} (hinput : ResponseInputItem.deserialize value.intoValue = some input) :
    input.serialize.SameMembers value.intoValue := by
  rw [UnknownTaggedObject.intoValue,
    ResponseInputItem.deserialize_of_objectDiscriminator value.objectDiscriminator_raw] at hinput
  obtain htag | htag | hunknown := deserializeTagged_future h value.raw (.object value.raw)
  · rw [htag] at hinput
    obtain ⟨trigger, hread, rfl⟩ := Option.map_eq_some_iff.mp hinput
    exact CompactionTrigger.sameMembers_of_deserialize htag hread
  · rw [htag] at hinput
    obtain ⟨reference, hread, rfl⟩ := Option.map_eq_some_iff.mp hinput
    exact ItemReference.sameMembers_of_deserialize hread
  · rw [hunknown, ← UnknownTaggedObject.intoValue, UnknownTaggedObject.fromValue_intoValue] at hinput
    cases hinput
    exact .refl value.raw

end Unknown

/-- Nothing of an item is lost by way of a conversation. -/
theorem sameMembers_of_conversation {item : ResponseOutputItem P} (h : Valid item) {stored : ConversationItem P}
    (hstored : ConversationItem.tryFrom item = .ok stored) {input : ResponseInputItem P}
    (hinput : stored.toResponseInputItem = .ok input) : input.serialize.SameMembers (serialize item) := by
  cases item with
  | message value =>
      have hmem : Variant.of "message" (ConversationItem.message (P := P)) ∈ TaggedUnion.variants := by
        simp [TaggedUnion.variants]
      obtain ⟨message, hread, rfl⟩ :=
        TaggedUnion.exists_payload hmem (α := OutputMessage P) h (fromValue_eq_ok.mp hstored)
      exact OutputMessage.sameMembers_of_way h hread hinput
  | functionCall value =>
      exact sameMembers_of_way "function_call" .functionCall .functionCall FunctionCall.keeps
        ConversationFunctionCall.keeps (α := FunctionCall P) h hstored hinput
  | customToolCallOutput value =>
      exact sameMembers_of_way "custom_tool_call_output" .customToolCallOutput .customToolCallOutput
        CustomToolCallOutputResource.keeps .self (α := CustomToolCallOutputResource P) h hstored hinput
  | functionCallOutput value =>
      exact sameMembers_of_way "function_call_output" .functionCallOutput .functionCallOutput .self
        (.of_rebuilds fun _ h => ⟨_, _, FunctionCallOutputResource.rebuilds h⟩)
        (α := FunctionCallOutputResource P) h hstored hinput
  | computerCallOutput value =>
      exact sameMembers_of_way "computer_call_output" .computerCallOutput .computerCallOutput .self
        (.of_rebuilds fun _ h => ⟨_, _, ComputerCallOutputResource.rebuilds h⟩)
        (α := ComputerCallOutputResource P) h hstored hinput
  | toolSearchCall value =>
      exact sameMembers_of_way "tool_search_call" .toolSearchCall .toolSearchCall .self
        (.of_rebuilds fun _ h => ⟨_, _, ToolSearchCall.rebuilds h⟩) (α := ToolSearchCall) h hstored hinput
  | toolSearchOutput value =>
      exact sameMembers_of_way "tool_search_output" .toolSearchOutput .toolSearchOutput .self
        (.of_rebuilds fun _ h => ⟨_, _, ToolSearchOutput.rebuilds h⟩) (α := ToolSearchOutput P) h hstored hinput
  | additionalTools value =>
      exact sameMembers_of_way "additional_tools" .additionalTools .additionalTools .self
        (.of_rebuilds fun _ h => ⟨_, _, AdditionalTools.rebuilds h⟩) (α := AdditionalTools P) h hstored hinput
  | compaction value =>
      exact sameMembers_of_way "compaction" .compaction .compaction .self
        (.of_rebuilds fun _ h => ⟨_, _, CompactionItem.rebuilds h⟩) (α := CompactionItem) h hstored hinput
  | functionShellCall value =>
      exact sameMembers_of_way "shell_call" .functionShellCall .functionShellCall .self
        (.of_rebuilds fun _ h => ⟨_, _, FunctionShellCall.rebuilds h⟩) (α := FunctionShellCall P) h hstored hinput
  | functionShellCallOutput value =>
      exact sameMembers_of_way "shell_call_output" .functionShellCallOutput .functionShellCallOutput .self
        (.of_rebuilds fun _ h => ⟨_, _, FunctionShellCallOutput.rebuilds h⟩)
        (α := FunctionShellCallOutput P) h hstored hinput
  | applyPatchCall value =>
      exact sameMembers_of_way "apply_patch_call" .applyPatchCall .applyPatchCall .self
        (.of_rebuilds fun _ h => ⟨_, _, ApplyPatchCall.rebuilds h⟩) (α := ApplyPatchCall P) h hstored hinput
  | applyPatchCallOutput value =>
      exact sameMembers_of_way "apply_patch_call_output" .applyPatchCallOutput .applyPatchCallOutput .self
        (.of_rebuilds fun _ h => ⟨_, _, ApplyPatchCallOutput.rebuilds h⟩)
        (α := ApplyPatchCallOutput P) h hstored hinput
  | mcpApprovalResponse value =>
      exact sameMembers_of_way "mcp_approval_response" .mcpApprovalResponse .mcpApprovalResponse .self
        (.of_rebuilds fun _ h => ⟨_, _, McpApprovalResponseResource.rebuilds h⟩)
        (α := McpApprovalResponseResource) h hstored hinput
  | fileSearchCall value =>
      exact sameMembers_of_way "file_search_call" .fileSearchCall .fileSearchCall .self .self
        (α := P _) h hstored hinput
  | webSearchCall value =>
      exact sameMembers_of_way "web_search_call" .webSearchCall .webSearchCall .self .self (α := P _) h hstored hinput
  | computerCall value =>
      exact sameMembers_of_way "computer_call" .computerCall .computerCall .self .self (α := P _) h hstored hinput
  | reasoning value =>
      exact sameMembers_of_way "reasoning" .reasoning .reasoning .self .self (α := P _) h hstored hinput
  | program value =>
      exact sameMembers_of_way "program" .program .program .self .self (α := P _) h hstored hinput
  | programOutput value =>
      exact sameMembers_of_way "program_output" .programOutput .programOutput .self .self (α := P _) h hstored hinput
  | imageGenerationCall value =>
      exact sameMembers_of_way "image_generation_call" .imageGenerationCall .imageGenerationCall .self .self
        (α := P _) h hstored hinput
  | codeInterpreterCall value =>
      exact sameMembers_of_way "code_interpreter_call" .codeInterpreterCall .codeInterpreterCall .self .self
        (α := P _) h hstored hinput
  | localShellCall value =>
      exact sameMembers_of_way "local_shell_call" .localShellCall .localShellCall .self .self
        (α := P _) h hstored hinput
  | localShellCallOutput value =>
      exact sameMembers_of_way "local_shell_call_output" .localShellCallOutput .localShellCallOutput .self .self
        (α := P _) h hstored hinput
  | mcpListTools value =>
      exact sameMembers_of_way "mcp_list_tools" .mcpListTools .mcpListTools .self .self (α := P _) h hstored hinput
  | mcpCall value =>
      exact sameMembers_of_way "mcp_call" .mcpCall .mcpCall .self .self (α := P _) h hstored hinput
  | mcpApprovalRequest value =>
      exact sameMembers_of_way "mcp_approval_request" .mcpApprovalRequest .mcpApprovalRequest .self .self
        (α := P _) h hstored hinput
  | customToolCall value =>
      exact sameMembers_of_way "custom_tool_call" .customToolCall .customToolCall .self .self
        (α := P _) h hstored hinput
  | unknown value =>
      have hfuture := not_mem_tags h
      have hsame : stored = .unknown value :=
        Option.some.inj ((fromValue_eq_ok.mp hstored).symm.trans (TaggedUnion.deserialize_intoValue hfuture))
      subst hsame
      exact sameMembers_of_unknown hfuture (fromValue_eq_ok.mp hinput)

/-! ## Both paths -/

/-- Every item is replayed with the members it has, in its place, and the way by a conversation, where it exists,
leads to the same members. -/
theorem replay_loses_nothing (response : Response P) :
    List.Forall₂ (fun item input => input.serialize.SameMembers (serialize item)) response.output
        response.toInputItems ∧
      ∀ item ∈ response.output, ∀ stored input, ConversationItem.tryFrom item = .ok stored →
        stored.toResponseInputItem = .ok input → input.serialize.SameMembers (serialize item) := by
  constructor
  · rw [Response.toInputItems, List.forall₂_map_right_iff, List.forall₂_same]
    exact fun item hmem => ResponseOutputItem.sameMembers_serialize (response.decoded item hmem)
  · intro item hmem stored input hstored hinput
    exact sameMembers_of_conversation (response.decoded item hmem) hstored hinput

section Verbatim

/-- The payloads retained verbatim. -/
def Verbatim : Shared → Type
  | .tagged kind => {value : UnknownTaggedObject // value.discriminator = kind.tag}
  | _ => Value

theorem Verbatim.deserialize_tagged (kind : SharedTagged) (value : UnknownTaggedObject) :
    (UnknownTaggedObject.fromValue value.intoValue).bind (fun value =>
      if h : value.discriminator = kind.tag then some (⟨value, h⟩ : Verbatim (.tagged kind)) else none) =
      if h : value.discriminator = kind.tag then some ⟨value, h⟩ else none := by
  rw [UnknownTaggedObject.fromValue_intoValue]
  rfl

instance Verbatim.wire : ∀ name : Shared, Wire (Verbatim name)
  | .tagged kind =>
      { serialize := fun value => value.1.intoValue
        deserialize := fun v => (UnknownTaggedObject.fromValue v).bind fun value =>
          if h : value.discriminator = kind.tag then some ⟨value, h⟩ else none
        Valid := fun _ => True
        valid_of_deserialize := fun _ => trivial
        deserialize_serialize := fun {value} _ => (Verbatim.deserialize_tagged kind value.1).trans (dif_pos value.2)
        isNull_serialize := by
          intro v value h
          cases v with
          | object m => rfl
          | _ => cases h }
  | .toolCallCaller => Wire.value
  | .computerSafetyCheck => Wire.value
  | .responseTool => Wire.value
  | .functionShellEnvironment => Wire.value
  | .functionShellCallOutputContent => Wire.value
  | .applyPatchOperation => Wire.value
  | .inputMessage => Wire.value

instance Verbatim.payloads : Payloads Verbatim where
  wire := Verbatim.wire
  tagged _ :=
    { objectDiscriminator_serialize := fun {value} _ =>
        value.1.objectDiscriminator_intoValue.trans (congrArg some value.2) }

end Verbatim

def compactedResponse : Response Verbatim where
  output := [.compaction { kind := .value, id := "c", encryptedContent := "e", createdBy := .value "m", extra := .new }]
  decoded := by
    rintro item hmem
    cases List.mem_singleton.mp hmem
    exact ⟨⟨trivial, trivial, trivial, trivial, trivial⟩, rfl⟩

/-- A compaction is stored, replayed, and nothing of it is lost. -/
theorem replay_loses_nothing_compaction :
    ∃ item ∈ compactedResponse.output, ∃ stored input, ConversationItem.tryFrom item = .ok stored ∧
      stored.toResponseInputItem = .ok input ∧ input.serialize.SameMembers (serialize item) := by
  refine ⟨_, List.mem_cons_self, _, _, rfl, rfl, ?_⟩
  exact (replay_loses_nothing compactedResponse).2 _ List.mem_cons_self _ _ rfl rfl

end OpenaiRs.Replay
