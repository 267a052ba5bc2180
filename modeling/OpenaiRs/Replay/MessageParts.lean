import OpenaiRs.Replay.Stored
import OpenaiRs.Serde.Contains

/-!
# What a stored message keeps

A stored message becomes an input item of the same role and status with a converted part for each of its parts. An
assistant's message keeps its parts as they are. The images and files of the others are built anew from the first
source there is, so a second source, what a breakpoint retained and every retained member of the part are left
behind without an error.
-/

namespace OpenaiRs.Replay

open Serde Rust

variable {P : Shared → Type} [Payloads P]

/-! ## What is meant to be kept -/

/-- An object with the role, the status, the parts and the retained members of a message. -/
structure ConversationMessage.KeptIn (message : ConversationMessage P) (m : Map) (parts : List Value) : Prop where
  role : m.get "role" = some (.string message.role.asStr)
  status : m.get "status" = some (.string message.status.asStr)
  content : m.get "content" = some (.array parts)
  parts : List.Forall₂ (fun part converted => Value.Contains converted (serialize part)) message.content parts
  retained : ∀ member ∈ message.extra.fields, m.get member.1 = some member.2

/-- Everything a message says is in what it was converted to. -/
def ConversationMessage.Kept (message : ConversationMessage P) (item : ResponseInputItem P) : Prop :=
  ∃ m parts, item.serialize = .object m ∧ message.KeptIn m parts

/-! ## The parts that can be carried over -/

/-- Nothing but nulls was retained. -/
def OnlyNulls (extra : ExtraFields) : Prop := ∀ member ∈ extra.fields, member.2.isNull = true

/-- A breakpoint says nothing but its mode. -/
def Bare (breakpoint : Omittable PromptCacheBreakpoint) : Prop :=
  ∀ value, breakpoint = .value value → value.extra.fields = []

/-- One source, and nothing that an image of a request cannot say. -/
def ConversationInputImage.Transfers (image : ConversationInputImage) : Prop :=
  (image.imageUrl.present = none ∨ image.fileId.present = none) ∧ Bare image.promptCacheBreakpoint ∧
    OnlyNulls image.extra

def ConversationComputerScreenshot.Transfers (screenshot : ConversationComputerScreenshot) : Prop :=
  OnlyNulls screenshot.extra

/-- A file has an id and no other source, or an address and no data and no name, or neither. -/
def ConversationInputFile.Transfers (file : ConversationInputFile) : Prop :=
  (file.fileId.present.isSome → file.fileUrl = .omitted) ∧
    (file.fileId.present.isSome ∨ file.fileUrl ≠ .omitted → file.fileData = .omitted ∧ file.filename = .omitted) ∧
      Bare file.promptCacheBreakpoint ∧ OnlyNulls file.extra

namespace ConversationMessageContent

def Transfers : ConversationMessageContent P → Prop
  | .inputImage image => image.Transfers
  | .computerScreenshot screenshot => screenshot.Transfers
  | .inputFile file => file.Transfers
  | _ => True

/-- What the code keeps of a part in whatever way it was made: no retained member has a declared key, and what an
assistant says is read as what it was written for. -/
def WellFormed : ConversationMessageContent P → Prop
  | .outputText value => Valid value
  | .refusal value => Valid value
  | .inputImage image => Struct.Separate image ∧ Member.Valid image.promptCacheBreakpoint
  | .computerScreenshot screenshot => Struct.Separate screenshot
  | .inputFile file => Struct.Separate file ∧ Member.Valid file.promptCacheBreakpoint
  | _ => True

end ConversationMessageContent

/-- No retained member has a declared key, in a message and in its parts. -/
structure ConversationMessage.WellFormed (message : ConversationMessage P) : Prop where
  separate : Struct.Separate message
  parts : ∀ part ∈ message.content, part.WellFormed

/-- A message that was decoded is well formed. -/
theorem ConversationMessage.wellFormed_of_valid {message : ConversationMessage P} (h : Valid message) :
    message.WellFormed where
  separate := Struct.Sound.separate h
  parts := by
    obtain ⟨⟨_, _, _, _, hcontent, _⟩, _⟩ := h
    intro part hpart
    have hvalid := hcontent part hpart
    cases part with
    | outputText value => exact hvalid
    | refusal value => exact hvalid
    | inputImage image =>
        obtain ⟨⟨_, _, _, _, hbreakpoint, _⟩, hseparate⟩ := hvalid
        exact ⟨hseparate, hbreakpoint⟩
    | computerScreenshot screenshot => exact hvalid.2
    | inputFile file =>
        obtain ⟨⟨_, _, _, _, _, _, hbreakpoint, _⟩, hseparate⟩ := hvalid
        exact ⟨hseparate, hbreakpoint⟩
    | _ => trivial

/-! ## Images and files -/

section Parts

/-- The breakpoint of a part that is built anew. -/
def explicitBreakpoint : Omittable PromptCacheBreakpoint → Omittable (Nullable PromptCacheBreakpoint)
  | .value _ => .value (.value .explicit)
  | .omitted => .omitted

theorem preserves_breakpoint {breakpoint : Omittable PromptCacheBreakpoint} (h : Member.Valid breakpoint) :
    Preserves (Member.write (explicitBreakpoint breakpoint)) (Member.write breakpoint) ↔ Bare breakpoint := by
  cases breakpoint with
  | omitted =>
      constructor
      · intro _ value hvalue
        cases hvalue
      · intro _ value hvalue
        cases hvalue
  | value value =>
      have hexplicit : Valid PromptCacheBreakpoint.explicit := ⟨⟨trivial, trivial⟩, rfl⟩
      rw [Member.write_omittable, Preserves.some_iff rfl]
      constructor
      · intro hsame other hother
        cases hother
        have hexact : PromptCacheBreakpoint.explicit = value :=
          Wire.serialize_injective hexplicit h (Option.some.inj hsame)
        rw [← hexact]
        rfl
      · intro hbare
        have hfields : value.extra.fields = [] := hbare value rfl
        obtain ⟨⟨⟩, fields, hnodup⟩ := value
        cases hfields
        rfl

variable {content : InputContent}

/-- The image that is built from a source. -/
def InputImage.rebuilt (image : ConversationInputImage) (imageUrl fileId : Omittable (Nullable String)) :
    InputImage where
  kind := .value
  detail := image.detail
  imageUrl := imageUrl
  fileId := fileId
  promptCacheBreakpoint := explicitBreakpoint image.promptCacheBreakpoint
  extra := .new

/-- An image is built from the first source there is. -/
theorem ConversationInputImage.toResponseContent_eq (image : ConversationInputImage) :
    image.toResponseContent =
      match image.imageUrl.present, image.fileId.present with
      | some url, _ => .ok (.image (.rebuilt image (.value (.value url)) .omitted))
      | none, some source => .ok (.image (.rebuilt image .omitted (.value (.value source))))
      | none, none => .error .imageHasNoSource := by
  obtain ⟨_, _, imageUrl, fileId, breakpoint, _⟩ := image
  obtain _ | _ | url := imageUrl
  all_goals
    obtain _ | _ | source := fileId
    all_goals cases breakpoint <;> rfl

theorem InputImage.contains_iff {image : ConversationInputImage} (hseparate : Struct.Separate image)
    (hbreakpoint : Member.Valid image.promptCacheBreakpoint) (imageUrl fileId : Omittable (Nullable String)) :
    (serialize (InputImage.rebuilt image imageUrl fileId)).Contains (serialize image) ↔
      (∀ text, image.imageUrl.present = some text → imageUrl.present = some text) ∧
        (∀ text, image.fileId.present = some text → fileId.present = some text) ∧
          Bare image.promptCacheBreakpoint ∧ OnlyNulls image.extra := by
  have hnew : Struct.Separate (InputImage.rebuilt image imageUrl fileId) := rfl
  have hagree := hnew.agree
  rw [Struct.contains_iff hnew hseparate (by simp [Struct.keys, Struct.fields]) rfl]
  simp only [Entries.Agree, Struct.entries, Struct.fields, Struct.declared, Fields.entries_cons, Fields.entries_nil,
    List.forall_mem_cons] at hagree ⊢
  obtain ⟨htype, hdetail, himage, hfile, hcache, -⟩ := hagree
  rw [htype, hdetail, himage, hfile, hcache]
  constructor
  · rintro ⟨⟨-, -, hurl, hid, hbare, -⟩, hnulls⟩
    exact ⟨Preserves.nullable_iff.mp hurl, Preserves.nullable_iff.mp hid, (preserves_breakpoint hbreakpoint).mp hbare,
      hnulls⟩
  · rintro ⟨hurl, hid, hbare, hnulls⟩
    refine ⟨⟨Preserves.self _, Preserves.self _, Preserves.nullable_iff.mpr hurl, Preserves.nullable_iff.mpr hid,
      (preserves_breakpoint hbreakpoint).mpr hbare, List.forall_mem_nil _⟩, hnulls⟩

theorem ConversationInputImage.contains_iff {image : ConversationInputImage} (hseparate : Struct.Separate image)
    (hbreakpoint : Member.Valid image.promptCacheBreakpoint) (h : image.toResponseContent = .ok content) :
    (serialize content).Contains (serialize image) ↔ image.Transfers := by
  rw [toResponseContent_eq] at h
  cases hurl : image.imageUrl.present with
  | some url =>
      rw [hurl] at h
      cases h
      apply (InputImage.contains_iff hseparate hbreakpoint _ _).trans
      simp [Transfers, hurl, Option.eq_none_iff_forall_ne_some]
  | none =>
      cases hsource : image.fileId.present with
      | some source =>
          rw [hurl, hsource] at h
          cases h
          apply (InputImage.contains_iff hseparate hbreakpoint _ _).trans
          simp [Transfers, hurl, hsource]
      | none =>
          rw [hurl, hsource] at h
          cases h

/-- The screenshot of a request says all that a stored one declares. -/
theorem ConversationComputerScreenshot.contains_iff {screenshot : ConversationComputerScreenshot}
    (hseparate : Struct.Separate screenshot) :
    (serialize screenshot.toResponseContent).Contains (serialize screenshot) ↔ screenshot.Transfers := by
  let copy : ComputerScreenshot :=
    { kind := .value
      imageUrl := .value screenshot.imageUrl
      fileId := .value screenshot.fileId
      detail := .value screenshot.detail
      promptCacheBreakpoint := screenshot.promptCacheBreakpoint
      extra := .new }
  have hnew : Struct.Separate copy := rfl
  have hentries : Struct.entries copy = Struct.entries screenshot := rfl
  apply (Struct.contains_iff hnew hseparate (by simp [Struct.keys, Struct.fields]) rfl).trans
  apply and_iff_right
  intro entry hentry
  rw [hnew.agree entry (hentries ▸ hentry)]
  exact Preserves.self _

/-- The file that is built from a source. -/
def InputFile.rebuilt (file : ConversationInputFile) (fileId fileUrl fileData filename : Omittable (Nullable String)) :
    InputFile where
  kind := .value
  fileId := fileId
  fileUrl := fileUrl
  fileData := fileData
  filename := filename
  detail := file.detail
  promptCacheBreakpoint := explicitBreakpoint file.promptCacheBreakpoint
  extra := .new

/-- A file is built from its id, from its address, or from its data with a name. -/
theorem ConversationInputFile.toResponseContent_eq (file : ConversationInputFile) :
    file.toResponseContent =
      match file.fileId.present, file.fileUrl, file.fileData, file.filename with
      | some source, _, _, _ => .ok (.file (.rebuilt file (.value (.value source)) .omitted .omitted .omitted))
      | none, .value url, _, _ => .ok (.file (.rebuilt file .omitted (.value (.value url)) .omitted .omitted))
      | none, .omitted, .value data, .value name =>
          .ok (.file (.rebuilt file .omitted .omitted (.value (.value data)) (.value (.value name))))
      | none, .omitted, _, _ => .error .fileHasNoSource := by
  obtain ⟨_, fileId, filename, fileData, fileUrl, detail, breakpoint, _⟩ := file
  obtain _ | _ | source := fileId
  all_goals
    cases fileUrl <;> cases fileData <;> cases filename
    all_goals cases detail <;> cases breakpoint <;> rfl

theorem InputFile.contains_iff {file : ConversationInputFile} (hseparate : Struct.Separate file)
    (hbreakpoint : Member.Valid file.promptCacheBreakpoint)
    (fileId fileUrl fileData filename : Omittable (Nullable String)) :
    (serialize (InputFile.rebuilt file fileId fileUrl fileData filename)).Contains (serialize file) ↔
      (∀ text, file.fileId.present = some text → fileId.present = some text) ∧
        (∀ text, file.fileUrl = .value text → fileUrl.present = some text) ∧
          (∀ text, file.fileData = .value text → fileData.present = some text) ∧
            (∀ text, file.filename = .value text → filename.present = some text) ∧
              Bare file.promptCacheBreakpoint ∧ OnlyNulls file.extra := by
  have hnew : Struct.Separate (InputFile.rebuilt file fileId fileUrl fileData filename) := rfl
  have hagree := hnew.agree
  rw [Struct.contains_iff hnew hseparate (by simp [Struct.keys, Struct.fields]) rfl]
  simp only [Entries.Agree, Struct.entries, Struct.fields, Struct.declared, Fields.entries_cons, Fields.entries_nil,
    List.forall_mem_cons] at hagree ⊢
  obtain ⟨htype, hid, hurl, hdata, hname, hdetail, hcache, -⟩ := hagree
  rw [htype, hid, hurl, hdata, hname, hdetail, hcache]
  constructor
  · rintro ⟨⟨-, hid, hname, hdata, hurl, -, hbare, -⟩, hnulls⟩
    exact ⟨Preserves.nullable_iff.mp hid, Preserves.string_iff.mp hurl, Preserves.string_iff.mp hdata,
      Preserves.string_iff.mp hname, (preserves_breakpoint hbreakpoint).mp hbare, hnulls⟩
  · rintro ⟨hid, hurl, hdata, hname, hbare, hnulls⟩
    exact ⟨⟨Preserves.self _, Preserves.nullable_iff.mpr hid, Preserves.string_iff.mpr hname,
      Preserves.string_iff.mpr hdata, Preserves.string_iff.mpr hurl, Preserves.self _,
      (preserves_breakpoint hbreakpoint).mpr hbare, List.forall_mem_nil _⟩, hnulls⟩

theorem ConversationInputFile.contains_iff {file : ConversationInputFile} (hseparate : Struct.Separate file)
    (hbreakpoint : Member.Valid file.promptCacheBreakpoint) (h : file.toResponseContent = .ok content) :
    (serialize content).Contains (serialize file) ↔ file.Transfers := by
  rw [toResponseContent_eq] at h
  cases hsource : file.fileId.present with
  | some source =>
      rw [hsource] at h
      cases h
      apply (InputFile.contains_iff hseparate hbreakpoint _ _ _ _).trans
      simp [Transfers, hsource, Omittable.eq_omitted_iff, and_assoc]
  | none =>
      cases hurl : file.fileUrl with
      | value url =>
          rw [hsource, hurl] at h
          cases h
          apply (InputFile.contains_iff hseparate hbreakpoint _ _ _ _).trans
          simp [Transfers, hsource, hurl, Omittable.eq_omitted_iff, and_assoc]
      | omitted =>
          cases hdata : file.fileData with
          | omitted =>
              rw [hsource, hurl, hdata] at h
              cases h
          | value data =>
              cases hname : file.filename with
              | omitted =>
                  rw [hsource, hurl, hdata, hname] at h
                  cases h
              | value name =>
                  rw [hsource, hurl, hdata, hname] at h
                  cases h
                  apply (InputFile.contains_iff hseparate hbreakpoint _ _ _ _).trans
                  simp [Transfers, hsource, hurl, hdata, hname]

theorem ConversationMessage.contains_iff {message : ConversationMessage P} {part : ConversationMessageContent P}
    (hpart : part.WellFormed) (h : message.toInputContent part = .ok content) :
    (serialize content).Contains (serialize part) ↔ part.Transfers := by
  cases part with
  | inputText value =>
      cases h
      exact iff_of_true (Value.Contains.refl _) trivial
  | inputImage image => exact image.contains_iff hpart.1 hpart.2 h
  | inputFile file => exact file.contains_iff hpart.1 hpart.2 h
  | computerScreenshot screenshot =>
      cases h
      exact screenshot.contains_iff hpart
  | _ => cases h

/-- All parts are carried over when each of them can be. -/
theorem ConversationMessage.forall₂_contains_iff {message : ConversationMessage P}
    {parts : List (ConversationMessageContent P)} {contents : List InputContent}
    (hparts : ∀ part ∈ parts, part.WellFormed)
    (h : List.Forall₂ (fun part content => message.toInputContent part = .ok content) parts contents) :
    List.Forall₂ (fun part converted => Value.Contains converted (serialize part)) parts (contents.map serialize) ↔
      ∀ part ∈ parts, part.Transfers := by
  induction h with
  | nil => simp
  | cons hpart _ ih =>
      obtain ⟨hfirst, hrest⟩ := List.forall_mem_cons.mp hparts
      rw [List.map_cons, List.forall₂_cons, List.forall_mem_cons, ih hrest, message.contains_iff hfirst hpart]

end Parts

/-! ## Messages -/

section Messages

variable {message : ConversationMessage P}

theorem mergeExtraFields_new (retained : ExtraFields) : (mergeExtraFields .new retained).fields = retained.fields := by
  obtain ⟨fields, hnodup⟩ := retained
  cases fields with
  | nil => rfl
  | cons member rest => exact Map.collect_eq_self hnodup

/-- The message of a user, of the system or of a developer. -/
def StoredInputMessage.rebuilt (message : ConversationMessage P) (role : StoredInputMessageRole)
    (contents : List InputContent) : StoredInputMessage :=
  ((StoredInputMessage.new role contents).withStatus (.fromRaw message.status.asStr)).withRetainedExtra message.extra

theorem StoredInputMessage.separate_rebuilt (h : message.WellFormed) (role : StoredInputMessageRole)
    (contents : List InputContent) : Struct.Separate (rebuilt message role contents) := by
  apply ExtraFields.ensureNoReserved_eq_ok_iff.mpr
  intro key hkey
  have hdeclared : key ∈ Struct.keys (ConversationMessage P) := by
    have hsub : Struct.keys StoredInputMessage ⊆ Struct.keys (ConversationMessage P) := by
      simp [Struct.keys, Struct.fields]
    exact hsub hkey
  have hfields : (Struct.extra (rebuilt message role contents)).fields = message.extra.fields :=
    mergeExtraFields_new message.extra
  rw [hfields]
  exact ExtraFields.ensureNoReserved_eq_ok_iff.mp h.separate key hdeclared

theorem asStr_ofMessageStatus (status : MessageStatus) :
    (ResponseItemStatus.ofMessageStatus status).asStr = status.asStr := by
  cases status <;> rfl

/-- What a user, the system or a developer said is kept when each of its parts can be carried over. -/
theorem ConversationMessage.kept_iff_of_stored (h : message.WellFormed) {role : StoredInputMessageRole}
    {item : ResponseInputItem P} (hitem : message.toStoredInputMessage role = .ok item)
    (hrole : message.role.asStr = (MessageRole.ofStoredInputMessageRole role).asStr) :
    message.Kept item ↔ message.role.asStr = "assistant" ∨ ∀ part ∈ message.content, part.Transfers := by
  have hother : message.role.asStr ≠ "assistant" := by
    rw [hrole]
    cases role <;> decide
  obtain ⟨contents, hcontents, hitem⟩ := bind_eq_ok.mp hitem
  cases hitem
  rw [or_iff_right hother, ← message.forall₂_contains_iff h.parts (forall₂_of_mapM_eq_ok hcontents)]
  have hseparate := StoredInputMessage.separate_rebuilt h role contents
  have hagree := hseparate.agree
  simp only [Entries.Agree, Struct.entries, Struct.fields, Struct.declared, Fields.entries_cons, Fields.entries_nil,
    List.forall_mem_cons] at hagree
  obtain ⟨-, hgetRole, hgetStatus, hgetContent, -⟩ := hagree
  have hserialize : (ResponseInputItem.storedMessage (P := P) (.rebuilt message role contents)).serialize =
      .object (Struct.members (StoredInputMessage.rebuilt message role contents)) := hseparate.serialize_eq
  constructor
  · rintro ⟨m, parts, hobject, hkept⟩
    cases hserialize.symm.trans hobject
    cases hgetContent.symm.trans hkept.content
    exact hkept.parts
  · intro hparts
    refine ⟨_, contents.map serialize, hserialize, ?_, ?_, hgetContent, hparts, ?_⟩
    · rw [hgetRole, hrole]
      rfl
    · rw [hgetStatus]
      change some (Value.string (ResponseItemStatus.ofMessageStatus (.fromRaw message.status.asStr)).asStr) = _
      rw [asStr_ofMessageStatus, OpenEnum.asStr_fromRaw]
    · intro member hmember
      rw [Map.get_eq_some_iff_mem hseparate.nodup_members]
      apply List.mem_append_right
      exact (mergeExtraFields_new message.extra).symm ▸ hmember

theorem serialize_output {part : ConversationMessageContent P} (hpart : part.WellFormed)
    (hcheck : message.checkAssistantPart part = .ok ()) {output : OutputContent P}
    (hread : deserialize (serialize part) = some output) : serialize output = serialize part := by
  cases part with
  | outputText value =>
      have hmem : Variant.of "output_text" (OutputContent.text (P := P)) ∈ TaggedUnion.variants := by
        simp [TaggedUnion.variants]
      obtain ⟨value', hown, rfl⟩ := TaggedUnion.exists_payload hmem (α := P _) hpart hread
      cases hown.symm.trans (Wire.deserialize_serialize (α := P _) hpart)
      rfl
  | refusal value =>
      have hmem : Variant.of "refusal" (OutputContent.refusal (P := P)) ∈ TaggedUnion.variants := by
        simp [TaggedUnion.variants]
      obtain ⟨value', hown, rfl⟩ := TaggedUnion.exists_payload hmem (α := Refusal) hpart hread
      cases hown.symm.trans (Wire.deserialize_serialize (α := Refusal) hpart)
      rfl
  | _ => cases hcheck

theorem contains_self {part : ConversationMessageContent P} (hpart : part.WellFormed)
    (hcheck : message.checkAssistantPart part = .ok ()) : (serialize part).Contains (serialize part) := by
  cases part with
  | outputText value =>
      have htag := Tagged.objectDiscriminator_serialize (α := P (.tagged .outputText)) hpart
      change Value.Contains (serialize value) (serialize value)
      obtain ⟨m, hm, -⟩ := Option.bind_eq_some_iff.mp htag
      rw [Value.asObject_eq_some hm]
      exact .refl m
  | refusal value => exact .refl _
  | _ => cases hcheck

theorem forall₂_output {parts : List (ConversationMessageContent P)} (hparts : ∀ part ∈ parts, part.WellFormed)
    (hcheck : ∀ part ∈ parts, message.checkAssistantPart part = .ok ()) {outputs : List (OutputContent P)}
    (h : List.Forall₂ (fun part output => deserialize (serialize part) = some output) parts outputs) :
    List.Forall₂ (fun part converted => Value.Contains converted (serialize part)) parts (outputs.map serialize) := by
  induction h with
  | nil => exact .nil
  | cons hread _ ih =>
      obtain ⟨hfirst, hrest⟩ := List.forall_mem_cons.mp hparts
      obtain ⟨hfirstCheck, hrestCheck⟩ := List.forall_mem_cons.mp hcheck
      refine .cons ?_ (ih hrest hrestCheck)
      rw [serialize_output hfirst hfirstCheck hread]
      exact contains_self hfirst hfirstCheck

/-- What an assistant said is kept as it is. -/
theorem ConversationMessage.kept_of_assistant (h : message.WellFormed) (hrole : message.role.asStr = "assistant")
    (hcheck : ∀ part ∈ message.content, message.checkAssistantPart part = .ok ()) {output : OutputMessage P}
    (hdecoded : deserialize (serialize message) = some output) : message.Kept (.outputMessage output) := by
  rw [h.separate.serialize_eq] at hdecoded
  have hvalid : Struct.Sound output := Wire.valid_of_deserialize hdecoded
  have hagree := hvalid.agree
  have hmessage := h.separate.agree
  have hreads := Struct.reads_of_deserialize hdecoded
  simp only [Entries.Agree, Struct.entries, Struct.fields, Struct.declared, Fields.entries_cons, Fields.entries_nil,
    List.forall_mem_cons] at hagree hmessage
  obtain ⟨-, -, hgetStatus, hgetRole, hgetContent, -⟩ := hagree
  obtain ⟨-, -, hstatus, -, hcontent, -⟩ := hmessage
  obtain ⟨-, -, hreadStatus, -, hreadContent, -⟩ := hreads
  rw [hstatus] at hreadStatus
  rw [hcontent] at hreadContent
  have hread : (message.content.map serialize).mapM deserialize = some output.content := hreadContent
  have hparts := List.forall₂_map_left_iff.mp (forall₂_of_mapM_deserialize hread)
  have hsame : output.status.asStr = message.status.asStr := by
    have hown : OpenEnum.fromRaw message.status.asStr = output.status := Option.some.inj hreadStatus
    rw [← hown, OpenEnum.asStr_fromRaw]
  refine ⟨_, output.content.map serialize, hvalid.serialize_eq, ?_, ?_, hgetContent, ?_, ?_⟩
  · rw [hgetRole, hrole]
    rfl
  · rw [hgetStatus, ← hsame]
    rfl
  · exact forall₂_output h.parts hcheck hparts
  · intro member hmember
    have hkey : member.1 ∉ Struct.keys (OutputMessage P) := by
      intro hkey
      have hdeclared : member.1 ∈ Struct.keys (ConversationMessage P) := hkey
      have hfree := ExtraFields.ensureNoReserved_eq_ok_iff.mp h.separate member.1 hdeclared
      exact Map.containsKey_eq_false_iff.mp hfree member hmember rfl
    rw [Struct.get_members_of_undeclared h.separate.nodup_members hdecoded hkey,
      Map.get_eq_some_iff_mem h.separate.nodup_members]
    exact List.mem_append_right _ hmember

/-- **A converted message keeps what the stored one says exactly when an assistant said it or each of its parts can
be carried over.** -/
theorem toResponseInputItem_keeps_iff (h : message.WellFormed) {item : ResponseInputItem P}
    (hitem : message.toResponseInputItem = .ok item) :
    message.Kept item ↔ message.role.asStr = "assistant" ∨ ∀ part ∈ message.content, part.Transfers := by
  rw [ConversationMessage.toResponseInputItem] at hitem
  split at hitem
  · rename_i hrole
    obtain ⟨⟨⟩, hcheck, hitem⟩ := bind_eq_ok.mp hitem
    obtain ⟨output, houtput, hitem⟩ := bind_eq_ok.mp hitem
    cases hitem
    have hassistant : message.role.asStr = "assistant" := congrArg OpenEnum.asStr hrole
    exact iff_of_true (message.kept_of_assistant h hassistant (forM_eq_ok.mp hcheck) (fromValue_eq_ok.mp houtput))
      (.inl hassistant)
  · rename_i hrole
    exact message.kept_iff_of_stored h hitem (congrArg OpenEnum.asStr hrole)
  · rename_i hrole
    exact message.kept_iff_of_stored h hitem (congrArg OpenEnum.asStr hrole)
  · rename_i hrole
    exact message.kept_iff_of_stored h hitem (congrArg OpenEnum.asStr hrole)
  · cases hitem

end Messages

theorem completed_mem_statuses : "completed" ∈ ["in_progress", "searching", "generating", "completed", "incomplete",
    "interpreting", "calling", "failed"] := by
  simp

theorem user_mem_roles : "user" ∈ ["unknown", "user", "assistant", "system", "critic", "discriminator", "developer",
    "tool"] := by
  simp

theorem auto_mem_details : "auto" ∈ ["auto", "low", "high", "original"] := by
  simp

/-- What a user said with parts that are made by hand. -/
def userMessage (content : List (ConversationMessageContent Verbatim)) : ConversationMessage Verbatim where
  kind := .value
  id := "msg_1"
  status := .known ⟨"completed", completed_mem_statuses⟩
  role := .known ⟨"user", user_mem_roles⟩
  content := content
  phase := .omitted
  extra := .new

/-- An image that is stored with its address and with the file it came from. -/
def imageOf (fileId : Omittable (Nullable String)) : ConversationInputImage where
  kind := .value
  detail := .known ⟨"auto", auto_mem_details⟩
  imageUrl := .value (.value "https://example.com/cat.png")
  fileId := fileId
  promptCacheBreakpoint := .omitted
  extra := .new

theorem userMessage_wellFormed (fileId : Omittable (Nullable String)) :
    (userMessage [.inputImage (imageOf fileId)]).WellFormed where
  separate := rfl
  parts := List.forall_mem_singleton.mpr ⟨rfl, trivial⟩

theorem toResponseInputItem_keeps_address : ∃ item,
    (userMessage [.inputImage (imageOf .omitted)]).toResponseInputItem = .ok item ∧
      (userMessage [.inputImage (imageOf .omitted)]).Kept item := by
  have hbare : Bare (imageOf .omitted).promptCacheBreakpoint := fun _ hvalue => by cases hvalue
  have htransfers : (imageOf .omitted).Transfers := ⟨.inr rfl, hbare, List.forall_mem_nil _⟩
  refine ⟨_, rfl, (toResponseInputItem_keeps_iff (userMessage_wellFormed _) rfl).mpr (.inr ?_)⟩
  exact List.forall_mem_singleton.mpr htransfers

/-- The file of an image with an address is left behind. -/
theorem toResponseInputItem_drops_file : ∃ item,
    (userMessage [.inputImage (imageOf (.value (.value "file-1")))]).toResponseInputItem = .ok item ∧
      ¬(userMessage [.inputImage (imageOf (.value (.value "file-1")))]).Kept item := by
  refine ⟨_, rfl, ?_⟩
  rw [ConversationMessage.kept_iff_of_stored (userMessage_wellFormed _) rfl rfl]
  rintro (hassistant | htransfers)
  · exact absurd hassistant (by decide)
  · obtain ⟨himage | hfile, _⟩ := htransfers _ List.mem_cons_self
    · cases himage
    · cases hfile

end OpenaiRs.Replay
