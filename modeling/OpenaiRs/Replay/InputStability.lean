import OpenaiRs.Replay.Stored

/-!
# Input items decode stably

What was decoded as an input item is written as an object that decodes to the same item. The four types with the
shape of a message are told apart by `type`, `id`, `role`, `status` and the kind of the content; none of them
changes one of these when it is written.

## Implementation notes

The easy form of a message, which the conversions do not look into, is spelled out here and takes its place
among the shared payloads.
-/

namespace OpenaiRs.Replay

open Serde

section Message

/-- Text or an ordered list of content parts. -/
abbrev MessageContent := TextOrParts EasyInputContent

structure InputMessage where
  kind : Omittable (LiteralTag "message")
  role : MessageRole
  content : MessageContent
  phase : Omittable (Nullable MessagePhase)
  extra : ExtraFields

instance InputMessage.struct : Struct InputMessage where
  Declared := _
  fields := .cons "type" <| .cons "role" <| .cons "content" <| .cons "phase" .nil
  declared value := (value.kind, value.role, value.content, value.phase, ())
  extra value := value.extra
  make := fun (kind, role, content, phase, ()) extra => { kind, role, content, phase, extra }

/-- The shared payloads with the easy form of a message. -/
def WithInputMessage (P : Shared → Type) : Shared → Type
  | .inputMessage => InputMessage
  | name => P name

instance WithInputMessage.payloads {P : Shared → Type} [Payloads P] : Payloads (WithInputMessage P) where
  wire
    | .inputMessage => (inferInstance : Wire InputMessage)
    | .tagged kind => (Payloads.wire (.tagged kind) : Wire (P (.tagged kind)))
    | .toolCallCaller => (Payloads.wire .toolCallCaller : Wire (P .toolCallCaller))
    | .computerSafetyCheck => (Payloads.wire .computerSafetyCheck : Wire (P .computerSafetyCheck))
    | .responseTool => (Payloads.wire .responseTool : Wire (P .responseTool))
    | .functionShellEnvironment => (Payloads.wire .functionShellEnvironment : Wire (P .functionShellEnvironment))
    | .functionShellCallOutputContent =>
        (Payloads.wire .functionShellCallOutputContent : Wire (P .functionShellCallOutputContent))
    | .applyPatchOperation => (Payloads.wire .applyPatchOperation : Wire (P .applyPatchOperation))
  tagged kind := Payloads.tagged (P := P) kind

end Message

section Tags

variable {P : Shared → Type} [Payloads P]

instance FunctionCallOutput.tagged : Tagged "function_call_output" (FunctionCallOutput P) :=
  Struct.tagged fun _ => List.mem_cons_self

instance ComputerCallOutput.tagged : Tagged "computer_call_output" (ComputerCallOutput P) :=
  Struct.tagged fun _ => List.mem_cons_self

instance ToolSearchCallInput.tagged : Tagged "tool_search_call" ToolSearchCallInput :=
  Struct.tagged fun _ => List.mem_cons_self

instance ToolSearchOutputInput.tagged : Tagged "tool_search_output" (ToolSearchOutputInput P) :=
  Struct.tagged fun _ => List.mem_cons_self

instance AdditionalToolsInput.tagged : Tagged "additional_tools" (AdditionalToolsInput P) :=
  Struct.tagged fun _ => List.mem_cons_self

instance CompactionSummaryInput.tagged : Tagged "compaction" CompactionSummaryInput :=
  Struct.tagged fun _ => List.mem_cons_self

instance FunctionShellCallInput.tagged : Tagged "shell_call" (FunctionShellCallInput P) :=
  Struct.tagged fun _ => List.mem_cons_self

instance FunctionShellCallOutputInput.tagged : Tagged "shell_call_output" (FunctionShellCallOutputInput P) :=
  Struct.tagged fun _ => List.mem_cons_self

instance ApplyPatchCallInput.tagged : Tagged "apply_patch_call" (ApplyPatchCallInput P) :=
  Struct.tagged fun _ => List.mem_cons_self

instance ApplyPatchCallOutputInput.tagged : Tagged "apply_patch_call_output" (ApplyPatchCallOutputInput P) :=
  Struct.tagged fun _ => List.mem_cons_self

instance McpApprovalResponse.tagged : Tagged "mcp_approval_response" McpApprovalResponse :=
  Struct.tagged fun _ => List.mem_cons_self

instance CompactionTrigger.tagged : Tagged "compaction_trigger" CompactionTrigger :=
  Struct.tagged fun _ => List.mem_cons_self

end Tags

namespace ResponseInputItem

/-- The `type` strings that the decoder knows. -/
def dispatchTags : List String :=
  ["message", "function_call", "function_call_output", "mcp_list_tools", "mcp_call", "mcp_approval_request",
    "mcp_approval_response", "compaction_trigger", "item_reference", "program", "program_output", "file_search_call",
    "computer_call", "computer_call_output", "web_search_call", "tool_search_call", "tool_search_output",
    "additional_tools", "reasoning", "compaction", "image_generation_call", "code_interpreter_call",
    "local_shell_call", "local_shell_call_output", "shell_call", "shell_call_output", "apply_patch_call",
    "apply_patch_call_output", "custom_tool_call_output", "custom_tool_call"]

section Dispatch

variable {P : Shared → Type} [Payloads P] {m : Map} {tag : String}

theorem deserializeTagged_of_unknown (v : Value) (h : tag ∉ dispatchTags) :
    deserializeTagged m v tag = ((UnknownTaggedObject.fromValue v).map unknown : Option (ResponseInputItem P)) := by
  unfold deserializeTagged
  split
  all_goals first
    | rfl
    | exact absurd List.mem_cons_self h
    | simp [dispatchTags] at h

/-- What a type with a tag writes is read by the branch of the tag. -/
theorem stable_of_tagged {α : Type} [Wire α] [Tagged tag α] {make : α → ResponseInputItem P}
    (hread : ∀ m v, deserializeTagged m v tag = (Serde.deserialize v).map make) {a : α} (ha : Valid a) :
    deserialize (Serde.serialize a) = some (make a) := by
  have htag := Tagged.objectDiscriminator_serialize ha
  obtain ⟨m, hobject, -⟩ := Option.bind_eq_some_iff.mp htag
  have hagain : Serde.deserialize (Serde.serialize a) = some a := Wire.deserialize_serialize ha
  rw [Value.asObject_eq_some hobject] at htag hagain ⊢
  rw [deserialize_of_objectDiscriminator htag, hread, hagain]
  rfl

theorem objectDiscriminator_of_get (h : m.get "type" = some (.string tag)) :
    objectDiscriminator (.object m) = some tag := by
  rw [objectDiscriminator, Value.asObject, Option.bind_eq_bind, Option.bind_some, h]
  rfl

/-- An object without `type` is a message or a reference. -/
theorem deserialize_of_get_none (h : m.get "type" = none) :
    deserialize (.object m) = (if m.containsKey "role" then (Serde.deserialize (.object m)).map message
      else if m.containsKey "id" then (Serde.deserialize (.object m)).map itemReference
      else none : Option (ResponseInputItem P)) := by
  have hkeep : dropNullType (.object m) = .object m := by
    rw [dropNullType, h]
    rfl
  rw [deserialize, hkeep, Value.asObject, Option.bind_eq_bind, Option.bind_some, h]

end Dispatch

section Members

theorem get_of_read_openEnum {names : List String} {found : Option Value} {value : OpenEnum names}
    (h : Member.read found = some value) : found = some (Serde.serialize value) := by
  obtain ⟨v, rfl, hv⟩ := Option.bind_eq_some_iff.mp h
  obtain ⟨raw, hraw, rfl⟩ := Option.map_eq_some_iff.mp hv
  cases v with
  | string s =>
      cases hraw
      rw [Wire.serialize_openEnum, OpenEnum.asStr_fromRaw]
  | _ => cases hraw

theorem isSome_write_omittable {α : Type} [Wire α] {found : Option Value} {field : Omittable α}
    (h : Member.read found = some field) : (Member.write field).isSome = found.isSome := by
  cases found with
  | none =>
      cases h
      rfl
  | some v =>
      obtain ⟨a, -, rfl⟩ := Option.map_eq_some_iff.mp h
      rfl

/-- The content is an array. -/
def HasParts (found : Option Value) : Prop := (found.bind Value.asArray).isSome

theorem hasParts_of_read {found : Option Value} {content : MessageContent} (h : Member.read found = some content) :
    HasParts (some (Serde.serialize content)) ↔ HasParts found := by
  obtain ⟨v, rfl, hv⟩ := Option.bind_eq_some_iff.mp h
  cases v with
  | string s =>
      cases hv
      exact Iff.rfl
  | array items =>
      obtain ⟨parts, -, rfl⟩ := Option.map_eq_some_iff.mp hv
      exact ⟨fun _ => rfl, fun _ => rfl⟩
  | _ => cases hv

theorem hasParts_of_read_list {α : Type} [Wire α] {found : Option Value} {content : List α}
    (h : Member.read found = some content) : HasParts found := by
  obtain ⟨v, rfl, hv⟩ := Option.bind_eq_some_iff.mp h
  obtain ⟨items, hitems, -⟩ := Option.bind_eq_some_iff.mp hv
  exact Option.isSome_iff_exists.mpr ⟨items, hitems⟩

/-- The two objects have the same members that tell the types of a message apart. -/
structure SameForm (m m' : Map) : Prop where
  id : m'.containsKey "id" = m.containsKey "id"
  role : m'.get "role" = m.get "role"
  status : m'.containsKey "status" = m.containsKey "status"
  content : HasParts (m'.get "content") ↔ HasParts (m.get "content")

variable {m : Map}

theorem containsKey_of_get {m' : Map} {key : String} (h : (m'.get key).isSome = (m.get key).isSome) :
    m'.containsKey key = m.containsKey key := by
  rw [Map.containsKey_eq_isSome, Map.containsKey_eq_isSome, h]

theorem SameForm.of_inputMessage {a : InputMessage} (hm : (m.map Prod.fst).Nodup)
    (h : Serde.deserialize (.object m) = some a) : SameForm m (Struct.members a) := by
  have hagree := Struct.Sound.agree (Wire.valid_of_deserialize h)
  obtain ⟨hkind, hrole, hcontent, hphase, -⟩ := Struct.reads_of_deserialize h
  have hother : ∀ key ∉ ["type", "role", "content", "phase"], (Struct.members a).get key = m.get key :=
    fun key hkey => Struct.get_members_of_undeclared hm h hkey
  constructor
  · exact containsKey_of_get (congrArg Option.isSome (hother "id" (by decide)))
  · rw [get_of_read_openEnum hrole]
    exact hagree ("role", some (Serde.serialize a.role)) (by simp [Struct.entries, Struct.fields, Struct.declared])
  · exact containsKey_of_get (congrArg Option.isSome (hother "status" (by decide)))
  · rw [← hasParts_of_read hcontent]
    rw [hagree ("content", some (Serde.serialize a.content)) (by simp [Struct.entries, Struct.fields, Struct.declared])]
    rfl

theorem SameForm.of_storedInputMessage {a : StoredInputMessage} (hm : (m.map Prod.fst).Nodup)
    (h : Serde.deserialize (.object m) = some a) : SameForm m (Struct.members a) := by
  have hagree := Struct.Sound.agree (Wire.valid_of_deserialize h)
  obtain ⟨hkind, hrole, hstatus, hcontent, -⟩ := Struct.reads_of_deserialize h
  have hother : ∀ key ∉ ["type", "role", "status", "content"], (Struct.members a).get key = m.get key :=
    fun key hkey => Struct.get_members_of_undeclared hm h hkey
  constructor
  · exact containsKey_of_get (congrArg Option.isSome (hother "id" (by decide)))
  · rw [get_of_read_openEnum hrole]
    exact hagree ("role", some (Serde.serialize a.role)) (by simp [Struct.entries, Struct.fields, Struct.declared])
  · apply containsKey_of_get
    rw [hagree ("status", Member.write a.status) (by simp [Struct.entries, Struct.fields, Struct.declared])]
    exact isSome_write_omittable hstatus
  · rw [hagree ("content", some (Serde.serialize a.content)) (by simp [Struct.entries, Struct.fields, Struct.declared])]
    exact ⟨fun _ => hasParts_of_read_list hcontent, fun _ => rfl⟩

end Members

section Stability

variable {P : Shared → Type} [Payloads P] {m m' : Map} {tag : String}

theorem deserializeTagged_message (m : Map) (v : Value) :
    deserializeTagged m v "message" =
      (if m.containsKey "id" ∧ (m.get "role").bind Value.asStr = some "assistant" then
        (Serde.deserialize v).map outputMessage
      else if m.containsKey "status" ∨ (((m.get "content").bind Value.asArray).isSome ∧
          (m.get "role").bind Value.asStr ≠ some "assistant") then (Serde.deserialize v).map storedMessage
      else (Serde.deserialize v).map message : Option (ResponseInputItem P)) := rfl

/-- Objects of the same form are read by the same branch. -/
theorem SameForm.deserializeTagged_eq (h : SameForm m m') (v : Value) :
    deserializeTagged m' v "message" = (deserializeTagged m v "message" : Option (ResponseInputItem P)) := by
  have hcontent : ((m'.get "content").bind Value.asArray).isSome = ((m.get "content").bind Value.asArray).isSome :=
    Bool.eq_iff_iff.mpr h.content
  rw [deserializeTagged_message, deserializeTagged_message, h.id, h.role, h.status, hcontent]

/-- What the branch of a tag reads from an object is read again from what is written for it. -/
theorem stable_of_sameForm {α : Type} [Struct α] {make : α → ResponseInputItem P} {a : α} (ha : Valid a)
    (hform : SameForm m (Struct.members a)) (htag : (Struct.members a).get "type" = some (.string "message"))
    (hbranch : ∀ v, deserializeTagged m v "message" = (Serde.deserialize v).map make) :
    deserialize (Serde.serialize a) = some (make a) := by
  have hagain : Serde.deserialize (Serde.serialize a) = some a := Wire.deserialize_serialize ha
  rw [Struct.Sound.serialize_eq ha] at hagain ⊢
  rw [deserialize_of_objectDiscriminator (objectDiscriminator_of_get htag), hform.deserializeTagged_eq, hbranch,
    hagain]
  rfl

theorem kind_of_read {wire : String} {kind : Omittable (LiteralTag wire)} {text : String}
    (h : Member.read (some (.string text)) = some kind) : Member.write kind = some (.string wire) := by
  obtain ⟨a, -, rfl⟩ := Option.map_eq_some_iff.mp h
  rfl

theorem message_stable (hm : (m.map Prod.fst).Nodup) (htype : m.get "type" = some (.string "message"))
    {item : ResponseInputItem (WithInputMessage P)} (h : deserializeTagged m (.object m) "message" = some item) :
    deserialize item.serialize = some item := by
  rw [deserializeTagged_message] at h
  split at h
  · -- An output message writes its identifier and its role.
    obtain ⟨a, ha, rfl⟩ := Option.map_eq_some_iff.mp h
    have hagree := Struct.Sound.agree (Wire.valid_of_deserialize ha)
    have hid : (Struct.members a).get "id" = some (.string a.id) :=
      hagree ("id", some (.string a.id)) (by simp [Struct.entries, Struct.fields, Struct.declared])
    have hrole : (Struct.members a).get "role" = some (.string "assistant") :=
      hagree ("role", some (.string "assistant")) (by simp [Struct.entries, Struct.fields, Struct.declared])
    have htag : (Struct.members a).get "type" = some (.string "message") := hagree _ List.mem_cons_self
    have hagain : Serde.deserialize (Serde.serialize a) = some a :=
      Wire.deserialize_serialize (Wire.valid_of_deserialize ha)
    change deserialize (Serde.serialize a) = _
    rw [Struct.Sound.serialize_eq (Wire.valid_of_deserialize ha)] at hagain ⊢
    rw [deserialize_of_objectDiscriminator (objectDiscriminator_of_get htag), deserializeTagged_message,
      if_pos ⟨by rw [Map.containsKey_eq_isSome, hid]; rfl, by rw [hrole]; rfl⟩, hagain]
    rfl
  · rename_i houtput
    split at h
    · rename_i hstored
      obtain ⟨a, ha, rfl⟩ := Option.map_eq_some_iff.mp h
      obtain ⟨hkind, -⟩ := Struct.reads_of_deserialize ha
      have htag : (Struct.members a).get "type" = some (.string "message") := by
        rw [Struct.Sound.agree (Wire.valid_of_deserialize ha) _ List.mem_cons_self]
        exact kind_of_read (htype ▸ hkind)
      apply stable_of_sameForm (Wire.valid_of_deserialize ha) (.of_storedInputMessage hm ha) htag
      intro v
      rw [deserializeTagged_message, if_neg houtput, if_pos hstored]
    · rename_i heasy
      obtain ⟨a, ha, rfl⟩ := Option.map_eq_some_iff.mp h
      obtain ⟨hkind, -⟩ := Struct.reads_of_deserialize (S := InputMessage) ha
      have htag : (Struct.members (S := InputMessage) a).get "type" = some (.string "message") := by
        rw [Struct.Sound.agree (S := InputMessage) (Wire.valid_of_deserialize ha) _ List.mem_cons_self]
        exact kind_of_read (htype ▸ hkind)
      apply stable_of_sameForm (α := InputMessage) (Wire.valid_of_deserialize ha) (.of_inputMessage hm ha) htag
      intro v
      rw [deserializeTagged_message, if_neg houtput, if_neg heasy]
      rfl

/-- A reference keeps all members but the identifier, which it writes. -/
theorem reference_stable (hm : (m.map Prod.fst).Nodup) {a : ItemReference}
    (h : Serde.deserialize (.object m) = some a)
    (htype : m.get "type" = some (.string "item_reference") ∨ m.get "type" = none ∧ m.containsKey "role" = false) :
    deserialize (Serde.serialize a) = some (itemReference a : ResponseInputItem P) := by
  have hvalid : Valid a := Wire.valid_of_deserialize h
  have hagain : Serde.deserialize (Serde.serialize a) = some a := Wire.deserialize_serialize hvalid
  have hother : ∀ key ∉ ["id"], (Struct.members a).get key = m.get key :=
    fun key hkey => Struct.get_members_of_undeclared hm h hkey
  have hid : (Struct.members a).get "id" = some (.string a.id) := Struct.Sound.agree hvalid _ List.mem_cons_self
  have hsame := hother "type" (by decide)
  rw [Struct.Sound.serialize_eq hvalid] at hagain ⊢
  obtain htype | ⟨htype, hrole⟩ := htype
  · rw [deserialize_of_objectDiscriminator (objectDiscriminator_of_get (hsame.trans htype))]
    exact congrArg (Option.map itemReference) hagain
  · have hrole' : (Struct.members a).containsKey "role" = false := by
      rw [containsKey_of_get (congrArg Option.isSome (hother "role" (by decide))), hrole]
    have hid' : (Struct.members a).containsKey "id" = true := by
      rw [Map.containsKey_eq_isSome, hid]
      rfl
    rw [deserialize_of_get_none (hsame.trans htype), hrole', if_neg Bool.false_ne_true, if_pos hid', hagain]
    rfl

/-- What a branch reads from an object with its tag is stable. -/
theorem tagged_stable (hm : (m.map Prod.fst).Nodup) (htype : m.get "type" = some (.string tag))
    {item : ResponseInputItem (WithInputMessage P)} (h : deserializeTagged m (.object m) tag = some item) :
    deserialize item.serialize = some item := by
  by_cases hknown : tag ∈ dispatchTags
  · unfold deserializeTagged at h
    split at h
    · exact message_stable hm htype h
    -- Every other branch reads one payload.
    all_goals obtain ⟨a, ha, rfl⟩ := Option.map_eq_some_iff.mp h
    all_goals first
      | exact stable_of_tagged (fun _ _ => rfl) (Wire.valid_of_deserialize ha)
      | exact reference_stable hm ha (.inl htype)
      | simp_all [dispatchTags]
  · rw [deserializeTagged_of_unknown _ hknown] at h
    obtain ⟨value, hvalue, rfl⟩ := Option.map_eq_some_iff.mp h
    have hraw := UnknownTaggedObject.intoValue_of_fromValue hvalue
    change deserialize value.intoValue = some (.unknown value)
    rw [hraw, deserialize_of_objectDiscriminator (objectDiscriminator_of_get htype), deserializeTagged_of_unknown _ hknown,
      hvalue]
    rfl

/-- A message without `type` stays one. -/
theorem untagged_message_stable {a : InputMessage} (h : Serde.deserialize (.object m) = some a)
    (htype : m.get "type" = none) :
    deserialize (Serde.serialize a) = some (message a : ResponseInputItem (WithInputMessage P)) := by
  have hvalid : Valid a := Wire.valid_of_deserialize h
  have hagain : Serde.deserialize (Serde.serialize a) = some a := Wire.deserialize_serialize hvalid
  obtain ⟨hkind, -⟩ := Struct.reads_of_deserialize h
  have hnone : (Struct.members a).get "type" = none := by
    have hkind' : a.kind = .omitted := by
      rw [htype] at hkind
      exact (Option.some.inj hkind).symm
    rw [Struct.Sound.agree hvalid _ List.mem_cons_self]
    exact congrArg Member.write hkind'
  have hrole : (Struct.members a).get "role" = some (Serde.serialize a.role) :=
    Struct.Sound.agree hvalid ("role", some (Serde.serialize a.role))
      (by simp [Struct.entries, Struct.fields, Struct.declared])
  have hrole' : (Struct.members a).containsKey "role" = true := by
    rw [Map.containsKey_eq_isSome, hrole]
    rfl
  rw [Struct.Sound.serialize_eq hvalid] at hagain ⊢
  rw [deserialize_of_get_none hnone, if_pos hrole']
  exact congrArg (Option.map fun b : InputMessage => (message b : ResponseInputItem (WithInputMessage P))) hagain

/-- What was decoded is decoded again. -/
theorem deserialize_stable {value : Value} (hvalue : value.DistinctKeys) {item : ResponseInputItem (WithInputMessage P)}
    (h : deserialize value = some item) : deserialize item.serialize = some item := by
  obtain ⟨m, hm, hnodup⟩ : ∃ m, dropNullType value = .object m ∧ (m.map Prod.fst).Nodup := by
    obtain ⟨object, hobject, -⟩ := Option.bind_eq_some_iff.mp h
    refine ⟨object, Value.asObject_eq_some hobject, ?_⟩
    cases value with
    | object members =>
        have hmembers := hvalue.nodup
        rw [dropNullType] at hobject
        split at hobject
        · cases hobject
          exact Map.nodup_remove hmembers "type"
        · cases hobject
          exact hmembers
    | _ => cases hobject
  rw [deserialize, hm, Value.asObject, Option.bind_eq_bind, Option.bind_some] at h
  split at h
  · rename_i tag htype
    exact tagged_stable hnodup htype h
  · cases h
  · rename_i htype
    split at h
    · obtain ⟨a, ha, rfl⟩ := Option.map_eq_some_iff.mp h
      exact untagged_message_stable ha htype
    · rename_i hrole
      split at h
      · obtain ⟨a, ha, rfl⟩ := Option.map_eq_some_iff.mp h
        exact reference_stable hnodup ha (.inr ⟨htype, Bool.eq_false_iff.mpr hrole⟩)
      · cases h

/-- An object with a future tag is accepted and written as it was. -/
theorem deserialize_future {value : Value} (hvalue : value.DistinctKeys) (htag : objectDiscriminator value = some tag)
    (hfuture : tag ∉ dispatchTags) :
    ∃ object, deserialize value = some (unknown object : ResponseInputItem P) ∧
      (unknown object : ResponseInputItem P).serialize = value := by
  obtain ⟨members, hobject, -⟩ := Option.bind_eq_some_iff.mp htag
  rw [Value.asObject_eq_some hobject] at hvalue htag ⊢
  have hsome : (objectDiscriminator (.object members)).isSome := htag ▸ rfl
  obtain ⟨object, hfrom⟩ : ∃ object, UnknownTaggedObject.fromValue (.object members) = some object :=
    ⟨_, dif_pos ⟨hvalue.nodup, hsome⟩⟩
  refine ⟨object, ?_, UnknownTaggedObject.intoValue_of_fromValue hfrom⟩
  rw [deserialize_of_objectDiscriminator htag, deserializeTagged_of_unknown _ hfuture, hfrom]
  rfl

end Stability

end ResponseInputItem

/-- What is accepted as an input item is written as an object that is accepted as an equal item, and this one is
written as the same object. An object with a tag that the decoder does not know is accepted and written unchanged. -/
theorem input_items_decode_stably (P : Shared → Type) [Payloads P] (value : Value) (hvalue : value.DistinctKeys) :
    (∀ item : ResponseInputItem (WithInputMessage P), ResponseInputItem.deserialize value = some item →
      ∃ again : ResponseInputItem (WithInputMessage P), ResponseInputItem.deserialize item.serialize = some again ∧
        again = item ∧ again.serialize = item.serialize) ∧
    ∀ tag, objectDiscriminator value = some tag → tag ∉ ResponseInputItem.dispatchTags →
      ∃ item : ResponseInputItem (WithInputMessage P), ResponseInputItem.deserialize value = some item ∧
        item.serialize = value := by
  constructor
  · intro item hitem
    exact ⟨item, ResponseInputItem.deserialize_stable hvalue hitem, rfl, rfl⟩
  · intro tag htag hfuture
    obtain ⟨object, hread, hwrite⟩ := ResponseInputItem.deserialize_future (P := WithInputMessage P) hvalue htag hfuture
    exact ⟨.unknown object, hread, hwrite⟩

/-- A message without `type`, with a member that no type declares. -/
def easyMessage : Value :=
  .object [("type", .null), ("role", .string "user"), ("content", .string "hi"), ("id", .string "m")]

theorem input_items_decode_stably_easy :
    ∃ item again : ResponseInputItem (WithInputMessage Verbatim), ResponseInputItem.deserialize easyMessage = some item ∧
      ResponseInputItem.deserialize item.serialize = some again ∧ again = item ∧ again.serialize = item.serialize := by
  have hdistinct : easyMessage.DistinctKeys := by
    refine .object (by decide) ?_
    rintro member (⟨⟩ | ⟨_, ⟨⟩ | ⟨_, ⟨⟩ | ⟨_, ⟨⟩ | ⟨_, ⟨⟩⟩⟩⟩⟩)
    · exact .null
    · exact .string "user"
    · exact .string "hi"
    · exact .string "m"
  obtain ⟨again, hagain⟩ := (input_items_decode_stably Verbatim easyMessage hdistinct).1 _ rfl
  exact ⟨_, again, rfl, hagain⟩

end OpenaiRs.Replay
