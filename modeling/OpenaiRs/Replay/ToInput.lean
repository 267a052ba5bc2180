import OpenaiRs.Replay.InputItem

/-!
# Output items as input items

`Response::to_input_items`. Sixteen kinds are cloned, twelve are rebuilt in the struct of the request, which has
other optional fields and no `created_by`: that one goes on among the retained members.
-/

namespace OpenaiRs.Replay

open Serde

variable {P : Shared → Type} [Payloads P]

/-- Merge one resource-only replay field into an input item's extra map. -/
def replayResourceField (extra : ExtraFields) (key value : String) : ExtraFields :=
  let fields := (Map.collect extra.fields).insert key (.string value)
  let nodup := Map.nodup_insert (Map.nodup_collect extra.fields) key (.string value)
  match ExtraFields.tryFromMap fields nodup [] with
  | .ok merged => merged
  | .error _ => extra

def replayCreatedBy (extra : ExtraFields) : Omittable String → ExtraFields
  | .value value => replayResourceField extra "created_by" value
  | .omitted => extra

/-- A key that was not retained is added behind the retained members. -/
theorem fields_replayCreatedBy {extra : ExtraFields} (h : extra.fields.containsKey "created_by" = false)
    (createdBy : Omittable String) :
    (replayCreatedBy extra createdBy).fields =
      extra.fields ++ Entries.present [("created_by", Member.write createdBy)] := by
  cases createdBy with
  | omitted => exact (List.append_nil _).symm
  | value value =>
      change (Map.collect extra.fields).insert "created_by" (.string value) = _
      rw [Map.collect_eq_self extra.nodup, Map.insert, h]
      rfl

def FunctionCallOutputResource.replay (value : FunctionCallOutputResource P) : FunctionCallOutput P where
  kind := .value
  callId := value.callId
  output := .ofFunctionCallOutputValue value.output
  id := .value (.value value.id)
  name := value.name
  nameSpace := value.nameSpace
  caller := value.caller
  status := .value (.value value.status)
  extra := replayCreatedBy value.extra value.createdBy

def ComputerCallOutputResource.replay (value : ComputerCallOutputResource P) : ComputerCallOutput P where
  kind := .value
  callId := value.callId
  output := value.output
  id := .value (.value value.id)
  status := .value (.value value.status)
  acknowledgedSafetyChecks := value.acknowledgedSafetyChecks
  extra := replayCreatedBy value.extra value.createdBy

def ToolSearchCall.replay (value : ToolSearchCall) : ToolSearchCallInput where
  kind := .value
  arguments := value.arguments
  id := .value (.value value.id)
  callId := .value value.callId
  execution := .value value.execution
  status := .value (.value value.status)
  extra := replayCreatedBy value.extra value.createdBy

def ToolSearchOutput.replay (value : ToolSearchOutput P) : ToolSearchOutputInput P where
  kind := .value
  tools := value.tools
  id := .value (.value value.id)
  callId := .value value.callId
  execution := .value value.execution
  status := .value (.value value.status)
  extra := replayCreatedBy value.extra value.createdBy

def AdditionalTools.replay (value : AdditionalTools P) : AdditionalToolsInput P where
  kind := .value
  role := value.role
  tools := value.tools
  id := .value (.value value.id)
  extra := value.extra

def CompactionItem.replay (value : CompactionItem) : CompactionSummaryInput where
  kind := .value
  encryptedContent := value.encryptedContent
  id := .value (.value value.id)
  extra := replayCreatedBy value.extra value.createdBy

def FunctionShellCall.replay (value : FunctionShellCall P) : FunctionShellCallInput P where
  kind := .value
  callId := value.callId
  action := .ofFunctionShellAction value.action
  id := .value (.value value.id)
  caller := value.caller
  status := .value (.value value.status)
  environment := .value value.environment
  extra := replayCreatedBy value.extra value.createdBy

def FunctionShellCallOutput.replay (value : FunctionShellCallOutput P) : FunctionShellCallOutputInput P where
  kind := .value
  callId := value.callId
  output := value.output
  id := .value (.value value.id)
  caller := value.caller
  status := .value (.value value.status)
  maxOutputLength := .value value.maxOutputLength
  extra := replayCreatedBy value.extra value.createdBy

def ApplyPatchCall.replay (value : ApplyPatchCall P) : ApplyPatchCallInput P where
  kind := .value
  callId := value.callId
  status := value.status
  operation := value.operation
  id := .value (.value value.id)
  caller := value.caller
  extra := replayCreatedBy value.extra value.createdBy

def ApplyPatchCallOutput.replay (value : ApplyPatchCallOutput P) : ApplyPatchCallOutputInput P where
  kind := .value
  callId := value.callId
  status := value.status
  output := value.output
  id := .value (.value value.id)
  caller := value.caller
  extra := replayCreatedBy value.extra value.createdBy

def McpApprovalResponseResource.replay (value : McpApprovalResponseResource) : McpApprovalResponse where
  kind := .value
  approvalRequestId := value.approvalRequestId
  approve := value.approve
  id := .value (.value value.id)
  reason := value.reason
  extra := value.extra

def CustomToolCallOutputResource.replay (value : CustomToolCallOutputResource P) : CustomToolCallOutput P where
  kind := .value
  callId := value.callId
  output := value.output
  id := .value value.id
  caller := value.caller
  status := .value (.value value.status)
  extra := replayCreatedBy value.extra value.createdBy

def ResponseOutputItem.toInputItem : ResponseOutputItem P → ResponseInputItem P
  | .message value => .outputMessage value
  | .functionCall value => .functionCall value
  | .functionCallOutput value => .functionCallOutput value.replay
  | .fileSearchCall value => .fileSearchCall value
  | .webSearchCall value => .webSearchCall value
  | .computerCall value => .computerCall value
  | .computerCallOutput value => .computerCallOutput value.replay
  | .reasoning value => .reasoning value
  | .program value => .program value
  | .programOutput value => .programOutput value
  | .toolSearchCall value => .toolSearchCall value.replay
  | .toolSearchOutput value => .toolSearchOutput value.replay
  | .additionalTools value => .additionalTools value.replay
  | .compaction value => .compaction value.replay
  | .imageGenerationCall value => .imageGenerationCall value
  | .codeInterpreterCall value => .codeInterpreterCall value
  | .localShellCall value => .localShellCall value
  | .localShellCallOutput value => .localShellCallOutput value
  | .functionShellCall value => .functionShellCall value.replay
  | .functionShellCallOutput value => .functionShellCallOutput value.replay
  | .applyPatchCall value => .applyPatchCall value.replay
  | .applyPatchCallOutput value => .applyPatchCallOutput value.replay
  | .mcpListTools value => .mcpListTools value
  | .mcpCall value => .mcpCall value
  | .mcpApprovalRequest value => .mcpApprovalRequest value
  | .mcpApprovalResponse value => .mcpApprovalResponse value.replay
  | .customToolCall value => .customToolCall value
  | .customToolCallOutput value => .customToolCallOutput value.replay
  | .unknown value => .unknown value

/-- A response with the items that decoding yields. -/
structure Response (P : Shared → Type) [Payloads P] where
  output : List (ResponseOutputItem P)
  decoded : ∀ item ∈ output, Valid item

/-- Decoding the `output` of a response. -/
def Response.ofOutput (output : Value) : Option (Response P) :=
  (deserialize output : Option (List (ResponseOutputItem P))).attach.map fun items =>
    ⟨items.1, Wire.valid_of_deserialize items.2⟩

def Response.toInputItems (response : Response P) : List (ResponseInputItem P) :=
  response.output.map ResponseOutputItem.toInputItem

/-! ## The rebuilt kinds -/

section Rebuilt

variable {R I : Type} [Struct R] [Struct I]

/-- A struct of a request rebuilt from the one of a response: all entries are there again, but for the ones in
`more`, which follow the retained members. -/
structure Rebuilds (x : R) (y : I) (more : Entries) : Prop where
  keys_nodup : (Struct.keys I ++ more.map Prod.fst).Nodup
  keys_length : (Struct.keys R).length ≤ (Struct.keys I).length + more.length
  entries : ∀ entry ∈ Struct.entries y ++ more, entry ∈ Struct.entries x
  extra : (Struct.extra y).fields = (Struct.extra x).fields ++ more.present
  valid : Struct.fields.Valid (Struct.declared y)

namespace Rebuilds

variable {x : R} {y : I} {more : Entries}

theorem sameMembers (h : Rebuilds x y more) (hx : Valid x) : (serialize y).SameMembers (serialize x) :=
  Struct.Sound.sameMembers_of_entries hx h.keys_nodup h.keys_length h.entries h.extra

/-- What the response's struct is written as is read as the request's struct. -/
theorem exists_reread (h : Rebuilds x y more) (hx : Valid x) :
    ∃ y' : I, deserialize (serialize x) = some y' ∧ (serialize y').SameMembers (serialize x) := by
  obtain ⟨y', hread, _, hsame⟩ := Struct.Sound.exists_reread hx h.valid fun entry hmem =>
    h.entries entry (List.mem_append_left more hmem)
  exact ⟨y', hread, hsame⟩

end Rebuilds

/-- What is declared is not retained. -/
theorem containsKey_extra {x : R} (hx : Valid x) {key : String} (hkey : key ∈ Struct.keys R) :
    (Struct.extra x).fields.containsKey key = false :=
  ExtraFields.ensureNoReserved_eq_ok_iff.mp hx.2 key hkey

end Rebuilt

theorem FunctionCallOutputResource.rebuilds {value : FunctionCallOutputResource P} (h : Valid value) :
    Rebuilds value value.replay [("created_by", Member.write value.createdBy)] where
  keys_nodup := by simp [Struct.keys, Struct.fields]
  keys_length := by simp [Struct.keys, Struct.fields]
  entries := by simp [Struct.entries, Struct.fields, Struct.declared, replay]
  extra := fields_replayCreatedBy (containsKey_extra h (by simp [Struct.keys, Struct.fields])) value.createdBy
  valid := by
    obtain ⟨_, hid, houtput, hstatus, hcallId, hname, hnameSpace, hcaller, _⟩ := h.1
    exact ⟨trivial, hcallId, valid_ofFunctionCallOutputValue houtput, ⟨hid, rfl⟩, hname, hnameSpace, hcaller,
      ⟨hstatus, rfl⟩, trivial⟩

theorem ComputerCallOutputResource.rebuilds {value : ComputerCallOutputResource P} (h : Valid value) :
    Rebuilds value value.replay [("created_by", Member.write value.createdBy)] where
  keys_nodup := by simp [Struct.keys, Struct.fields]
  keys_length := by simp [Struct.keys, Struct.fields]
  entries := by simp [Struct.entries, Struct.fields, Struct.declared, replay]
  extra := fields_replayCreatedBy (containsKey_extra h (by simp [Struct.keys, Struct.fields])) value.createdBy
  valid := by
    obtain ⟨_, hid, hcallId, houtput, hstatus, hacknowledgedSafetyChecks, _⟩ := h.1
    exact ⟨trivial, hcallId, houtput, ⟨hid, rfl⟩, ⟨hstatus, rfl⟩, hacknowledgedSafetyChecks, trivial⟩

theorem ToolSearchCall.rebuilds {value : ToolSearchCall} (h : Valid value) :
    Rebuilds value value.replay [("created_by", Member.write value.createdBy)] where
  keys_nodup := by simp [Struct.keys, Struct.fields]
  keys_length := by simp [Struct.keys, Struct.fields]
  entries := by simp [Struct.entries, Struct.fields, Struct.declared, replay]
  extra := fields_replayCreatedBy (containsKey_extra h (by simp [Struct.keys, Struct.fields])) value.createdBy
  valid := by
    obtain ⟨_, hid, hcallId, hexecution, harguments, hstatus, _⟩ := h.1
    exact ⟨trivial, harguments, ⟨hid, rfl⟩, hcallId, hexecution, ⟨hstatus, rfl⟩, trivial⟩

theorem ToolSearchOutput.rebuilds {value : ToolSearchOutput P} (h : Valid value) :
    Rebuilds value value.replay [("created_by", Member.write value.createdBy)] where
  keys_nodup := by simp [Struct.keys, Struct.fields]
  keys_length := by simp [Struct.keys, Struct.fields]
  entries := by simp [Struct.entries, Struct.fields, Struct.declared, replay]
  extra := fields_replayCreatedBy (containsKey_extra h (by simp [Struct.keys, Struct.fields])) value.createdBy
  valid := by
    obtain ⟨_, hid, hcallId, hexecution, htools, hstatus, _⟩ := h.1
    exact ⟨trivial, htools, ⟨hid, rfl⟩, hcallId, hexecution, ⟨hstatus, rfl⟩, trivial⟩

theorem AdditionalTools.rebuilds {value : AdditionalTools P} (h : Valid value) :
    Rebuilds value value.replay [] where
  keys_nodup := by simp [Struct.keys, Struct.fields]
  keys_length := by simp [Struct.keys, Struct.fields]
  entries := by simp [Struct.entries, Struct.fields, Struct.declared, replay]
  extra := (List.append_nil _).symm
  valid := by
    obtain ⟨_, hid, hrole, htools, _⟩ := h.1
    exact ⟨trivial, hrole, htools, ⟨hid, rfl⟩, trivial⟩

theorem CompactionItem.rebuilds {value : CompactionItem} (h : Valid value) :
    Rebuilds value value.replay [("created_by", Member.write value.createdBy)] where
  keys_nodup := by simp [Struct.keys, Struct.fields]
  keys_length := by simp [Struct.keys, Struct.fields]
  entries := by simp [Struct.entries, Struct.fields, Struct.declared, replay]
  extra := fields_replayCreatedBy (containsKey_extra h (by simp [Struct.keys, Struct.fields])) value.createdBy
  valid := by
    obtain ⟨_, hid, hencryptedContent, _⟩ := h.1
    exact ⟨trivial, hencryptedContent, ⟨hid, rfl⟩, trivial⟩

theorem FunctionShellCall.rebuilds {value : FunctionShellCall P} (h : Valid value) :
    Rebuilds value value.replay [("created_by", Member.write value.createdBy)] where
  keys_nodup := by simp [Struct.keys, Struct.fields]
  keys_length := by simp [Struct.keys, Struct.fields]
  entries := by simp [Struct.entries, Struct.fields, Struct.declared, replay]
  extra := fields_replayCreatedBy (containsKey_extra h (by simp [Struct.keys, Struct.fields])) value.createdBy
  valid := by
    obtain ⟨_, hid, hcallId, haction, hstatus, henvironment, hcaller, _⟩ := h.1
    exact ⟨trivial, hcallId, valid_ofFunctionShellAction haction, ⟨hid, rfl⟩, hcaller, ⟨hstatus, rfl⟩, henvironment,
      trivial⟩

theorem FunctionShellCallOutput.rebuilds {value : FunctionShellCallOutput P} (h : Valid value) :
    Rebuilds value value.replay [("created_by", Member.write value.createdBy)] where
  keys_nodup := by simp [Struct.keys, Struct.fields]
  keys_length := by simp [Struct.keys, Struct.fields]
  entries := by simp [Struct.entries, Struct.fields, Struct.declared, replay]
  extra := fields_replayCreatedBy (containsKey_extra h (by simp [Struct.keys, Struct.fields])) value.createdBy
  valid := by
    obtain ⟨_, hid, hcallId, hstatus, houtput, hmaxOutputLength, hcaller, _⟩ := h.1
    exact ⟨trivial, hcallId, houtput, ⟨hid, rfl⟩, hcaller, ⟨hstatus, rfl⟩, hmaxOutputLength, trivial⟩

theorem ApplyPatchCall.rebuilds {value : ApplyPatchCall P} (h : Valid value) :
    Rebuilds value value.replay [("created_by", Member.write value.createdBy)] where
  keys_nodup := by simp [Struct.keys, Struct.fields]
  keys_length := by simp [Struct.keys, Struct.fields]
  entries := by simp [Struct.entries, Struct.fields, Struct.declared, replay]
  extra := fields_replayCreatedBy (containsKey_extra h (by simp [Struct.keys, Struct.fields])) value.createdBy
  valid := by
    obtain ⟨_, hid, hcallId, hstatus, hoperation, hcaller, _⟩ := h.1
    exact ⟨trivial, hcallId, hstatus, hoperation, ⟨hid, rfl⟩, hcaller, trivial⟩

theorem ApplyPatchCallOutput.rebuilds {value : ApplyPatchCallOutput P} (h : Valid value) :
    Rebuilds value value.replay [("created_by", Member.write value.createdBy)] where
  keys_nodup := by simp [Struct.keys, Struct.fields]
  keys_length := by simp [Struct.keys, Struct.fields]
  entries := by simp [Struct.entries, Struct.fields, Struct.declared, replay]
  extra := fields_replayCreatedBy (containsKey_extra h (by simp [Struct.keys, Struct.fields])) value.createdBy
  valid := by
    obtain ⟨_, hid, hcallId, hstatus, houtput, hcaller, _⟩ := h.1
    exact ⟨trivial, hcallId, hstatus, houtput, ⟨hid, rfl⟩, hcaller, trivial⟩

theorem McpApprovalResponseResource.rebuilds {value : McpApprovalResponseResource} (h : Valid value) :
    Rebuilds value value.replay [] where
  keys_nodup := by simp [Struct.keys, Struct.fields]
  keys_length := by simp [Struct.keys, Struct.fields]
  entries := by simp [Struct.entries, Struct.fields, Struct.declared, replay]
  extra := (List.append_nil _).symm
  valid := by
    obtain ⟨_, hid, happrovalRequestId, happrove, hreason, _⟩ := h.1
    exact ⟨trivial, happrovalRequestId, happrove, ⟨hid, rfl⟩, hreason, trivial⟩

theorem CustomToolCallOutputResource.rebuilds {value : CustomToolCallOutputResource P} (h : Valid value) :
    Rebuilds value value.replay [("created_by", Member.write value.createdBy)] where
  keys_nodup := by simp [Struct.keys, Struct.fields]
  keys_length := by simp [Struct.keys, Struct.fields]
  entries := by simp [Struct.entries, Struct.fields, Struct.declared, replay]
  extra := fields_replayCreatedBy (containsKey_extra h (by simp [Struct.keys, Struct.fields])) value.createdBy
  valid := by
    obtain ⟨_, hid, hcallId, houtput, hstatus, hcaller, _⟩ := h.1
    exact ⟨trivial, hcallId, houtput, hid, hcaller, ⟨hstatus, rfl⟩, trivial⟩

/-- A cloned payload is written as it was. -/
theorem sameMembers_of_tagged {α : Type} [Wire α] {tag : String} [Tagged tag α] {value : α} (h : Valid value) :
    (serialize value).SameMembers (serialize value) := by
  obtain ⟨m, hobject, _⟩ := Option.bind_eq_some_iff.mp (Tagged.objectDiscriminator_serialize h)
  rw [Value.asObject_eq_some hobject]
  exact .refl m

/-- Nothing of an item is lost. -/
theorem ResponseOutputItem.sameMembers_serialize {item : ResponseOutputItem P} (h : Valid item) :
    item.toInputItem.serialize.SameMembers (serialize item) := by
  cases item with
  | functionCallOutput value => exact (FunctionCallOutputResource.rebuilds h).sameMembers h
  | computerCallOutput value => exact (ComputerCallOutputResource.rebuilds h).sameMembers h
  | toolSearchCall value => exact (ToolSearchCall.rebuilds h).sameMembers h
  | toolSearchOutput value => exact (ToolSearchOutput.rebuilds h).sameMembers h
  | additionalTools value => exact (AdditionalTools.rebuilds h).sameMembers h
  | compaction value => exact (CompactionItem.rebuilds h).sameMembers h
  | functionShellCall value => exact (FunctionShellCall.rebuilds h).sameMembers h
  | functionShellCallOutput value => exact (FunctionShellCallOutput.rebuilds h).sameMembers h
  | applyPatchCall value => exact (ApplyPatchCall.rebuilds h).sameMembers h
  | applyPatchCallOutput value => exact (ApplyPatchCallOutput.rebuilds h).sameMembers h
  | mcpApprovalResponse value => exact (McpApprovalResponseResource.rebuilds h).sameMembers h
  | customToolCallOutput value => exact (CustomToolCallOutputResource.rebuilds h).sameMembers h
  | unknown value => exact .refl value.raw
  | _ => exact sameMembers_of_tagged h

end OpenaiRs.Replay
