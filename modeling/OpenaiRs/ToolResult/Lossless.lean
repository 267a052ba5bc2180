import OpenaiRs.Rust.Result
import OpenaiRs.ToolResult.Envelope

/-!
# What an encoded result keeps

The document of an envelope determines the envelope, but reading it back takes a `null` under
`structuredContent` for an absent one. So the lossless encoding is read back as it was unless the structured
content is `null`.
-/

namespace OpenaiRs.ToolResult

open Serde Rust

variable {Rest Rich Fault : Type}

namespace ToolResultEnvelope

theorem get_skipNone (key other : String) (value : Option Value) :
    (skipNone key value).get other = if key = other then value else none := by
  cases value with
  | none => exact (ite_self none).symm
  | some v => exact Map.get_cons (key, v) [] other

theorem keys_skipNone (key : String) (value : Option Value) :
    ((skipNone key value).map Prod.fst).Sublist [key] := by
  cases value with
  | none => exact .cons key .slnil
  | some v => exact .refl [key]

/-- The members of the document, with the blocks written as `content`. -/
def members (content : List Value) (envelope : ToolResultEnvelope Rest Rich) : Map :=
  ("content", .array content) :: envelope.tail

variable (content : List Value) (envelope : ToolResultEnvelope Rest Rich)

theorem nodup_members : ((envelope.members content).map Prod.fst).Nodup := by
  have hkeys : ((envelope.members content).map Prod.fst).Sublist keys := by
    simp only [members, tail, List.map_cons, List.map_append, List.append_assoc]
    apply List.Sublist.cons_cons
    apply (keys_skipNone _ _).append
    apply List.Sublist.cons_cons
    exact (keys_skipNone _ _).append (keys_skipNone _ _)
  exact hkeys.nodup (by decide)

theorem get_content : (envelope.members content).get "content" = some (.array content) := rfl

theorem get_structuredContent :
    (envelope.members content).get "structuredContent" = envelope.structuredContent := by
  simp [members, tail, Map.get_cons, Map.get_append, get_skipNone]

theorem get_isError : (envelope.members content).get "isError" = some (.bool envelope.isError) := by
  simp [members, tail, Map.get_cons, Map.get_append, get_skipNone]

theorem get_resultType : (envelope.members content).get "resultType" = envelope.resultType.map .string := by
  simp [members, tail, Map.get_cons, Map.get_append, get_skipNone]

theorem get_meta : (envelope.members content).get "_meta" = envelope.metaObject.map .object := by
  simp [members, tail, Map.get_cons, Map.get_append, get_skipNone]

/-- The envelope without a structured content that is `null`. -/
def withoutNull (envelope : ToolResultEnvelope Rest Rich) : ToolResultEnvelope Rest Rich :=
  { envelope with structuredContent := envelope.structuredContent.filter (!·.isNull) }

theorem withoutNull_eq_self_iff : envelope.withoutNull = envelope ↔ envelope.structuredContent ≠ some .null := by
  obtain ⟨content, structuredContent, isError, resultType, metaObject⟩ := envelope
  cases structuredContent with
  | none => simp [withoutNull]
  | some v => cases v <;> simp [withoutNull, Value.isNull, Option.filter]

theorem optional_ofMember {α : Type} (write : α → Value) (read : Value → Option α)
    (hread : ∀ a, read (write a) = some a) (hnull : ∀ a, (write a).isNull = false) (value : Option α) :
    (Found.ofMember (value.map write)).optional read = some value := by
  cases value with
  | none => rfl
  | some a =>
      simp only [Option.map_some, Found.ofMember, Found.optional, hnull, hread]
      rfl

theorem optional_value (value : Option Value) :
    (Found.ofMember value).optional some = some (value.filter (!·.isNull)) := by
  cases value with
  | none => rfl
  | some v => cases v <;> rfl

variable {content envelope} {codec : Codec Rest Rich Fault}

/-- An envelope is read back from its document, up to a `null`. -/
theorem deserialize_members (hcontent : content.mapM codec.deserializeBlock = some envelope.content) :
    deserialize codec (.object (envelope.members content)) = some envelope.withoutNull := by
  rw [deserialize, visit_of_nodup (envelope.nodup_members content), Option.bind_eq_bind, Option.bind_some]
  simp only [get_content, get_structuredContent, get_isError, get_resultType, get_meta, optional_value,
    optional_ofMember .string Value.asStr (fun _ => rfl) fun _ => rfl,
    optional_ofMember .object Value.asObject (fun _ => rfl) fun _ => rfl]
  simp only [Found.ofMember, Found.required, Value.asArray, Value.asBool, Option.bind_some, hcontent]
  rfl

end ToolResultEnvelope

/-- The codecs of blocks and of values round-trip on what is written for a result. -/
structure Codec.RoundTrips (codec : Codec Rest Rich Fault) (result : CallToolResult Rest Rich) : Prop where
  block : ∀ block ∈ result.content, ∃ v, codec.serializeBlock block = .ok v ∧ codec.deserializeBlock v = some block
  document : ∀ document, (ToolResultEnvelope.fromRmcp result).serialize codec = .ok document →
    codec.fromStr (codec.toString document) = some document

/-- The result is flattened by the compact encoding: it is successful, and it has structured content beside
blocks of text only, or it is one block of text. -/
def CallToolResult.Flattened (result : CallToolResult Rest Rich) : Prop :=
  result.isError.getD false = false ∧
    (result.structuredContent.isSome ∧ (∀ block ∈ result.content, block.isText) ∨ ∃ text rest, result.content = [.text text rest])

/-- What the lossless encoding is to keep of a result, and the compact one of a result that is not flattened. -/
structure LosesNothing (codec : Codec Rest Rich Fault) (result : CallToolResult Rest Rich) : Prop where
  decoded : ∃ encoded, encodeToolResult codec result .losslessEnvelope = .ok encoded ∧
    (codec.fromStr encoded.output).bind (ToolResultEnvelope.deserialize codec) = some (.fromRmcp result)
  distinct : ∀ other, codec.RoundTrips other → ToolResultEnvelope.fromRmcp other ≠ .fromRmcp result →
    (encodeToolResult codec other .losslessEnvelope).map EncodedToolResult.output ≠
      (encodeToolResult codec result .losslessEnvelope).map EncodedToolResult.output
  compact : ¬ result.Flattened →
    encodeToolResult codec result .compactWhenPossible = encodeToolResult codec result .losslessEnvelope

section Encoding

variable {codec : Codec Rest Rich Fault} {result : CallToolResult Rest Rich}

theorem exists_blocks {blocks : List (ContentBlock Rest Rich)}
    (h : ∀ block ∈ blocks, ∃ v, codec.serializeBlock block = .ok v ∧ codec.deserializeBlock v = some block) :
    ∃ content, blocks.mapM codec.serializeBlock = .ok content ∧ content.mapM codec.deserializeBlock = some blocks := by
  induction blocks with
  | nil => exact ⟨[], rfl, rfl⟩
  | cons block rest ih =>
      obtain ⟨v, hwrite, hread⟩ := h block List.mem_cons_self
      obtain ⟨content, hwrites, hreads⟩ := ih fun other hother => h other (List.mem_cons_of_mem block hother)
      refine ⟨v :: content, ?_, ?_⟩
      · rw [List.mapM_cons, hwrite, hwrites]
        rfl
      · rw [List.mapM_cons, hread, hreads]
        rfl

/-- The text of a result is the text of a document from which the envelope is read. -/
theorem exists_document (h : codec.RoundTrips result) :
    ∃ content, content.mapM codec.deserializeBlock = some result.content ∧
      encodeToolResult codec result .losslessEnvelope =
        .ok ⟨codec.toString (.object ((ToolResultEnvelope.fromRmcp result).members content)), result.isError.getD false⟩ ∧
      codec.fromStr (codec.toString (.object ((ToolResultEnvelope.fromRmcp result).members content))) =
        some (.object ((ToolResultEnvelope.fromRmcp result).members content)) := by
  obtain ⟨content, hwrite, hread⟩ := exists_blocks h.block
  have hserialize : (ToolResultEnvelope.fromRmcp result).serialize codec =
      .ok (.object ((ToolResultEnvelope.fromRmcp result).members content)) := by
    rw [ToolResultEnvelope.serialize, ToolResultEnvelope.fromRmcp, hwrite]
    rfl
  refine ⟨content, hread, ?_, h.document _ hserialize⟩
  simp only [encodeToolResult, envelopeText, hserialize]
  rfl

/-- Two envelopes with the same document are the same. -/
theorem eq_of_members_eq {envelope other : ToolResultEnvelope Rest Rich} {content content' : List Value}
    (hcontent : content.mapM codec.deserializeBlock = some envelope.content)
    (hcontent' : content'.mapM codec.deserializeBlock = some other.content)
    (h : envelope.members content = other.members content') : envelope = other := by
  have hread : envelope.withoutNull = other.withoutNull := by
    apply Option.some.inj
    rw [← ToolResultEnvelope.deserialize_members hcontent, ← ToolResultEnvelope.deserialize_members hcontent', h]
  have hstructured : envelope.structuredContent = other.structuredContent := by
    rw [← envelope.get_structuredContent content, ← other.get_structuredContent content', h]
  ext1
  · exact (congrArg ToolResultEnvelope.content hread :)
  · exact hstructured
  · exact (congrArg ToolResultEnvelope.isError hread :)
  · exact (congrArg ToolResultEnvelope.resultType hread :)
  · exact (congrArg ToolResultEnvelope.metaObject hread :)

theorem output_ne_of_fromRmcp_ne {other : CallToolResult Rest Rich} (h : codec.RoundTrips result)
    (hother : codec.RoundTrips other) (hne : ToolResultEnvelope.fromRmcp other ≠ .fromRmcp result) :
    (encodeToolResult codec other .losslessEnvelope).map EncodedToolResult.output ≠
      (encodeToolResult codec result .losslessEnvelope).map EncodedToolResult.output := by
  obtain ⟨content, hread, hencode, hdocument⟩ := exists_document h
  obtain ⟨content', hread', hencode', hdocument'⟩ := exists_document hother
  intro heq
  rw [hencode, hencode'] at heq
  have htext : codec.toString (.object ((ToolResultEnvelope.fromRmcp other).members content')) =
      codec.toString (.object ((ToolResultEnvelope.fromRmcp result).members content)) := Except.ok.inj heq
  rw [htext, hdocument] at hdocument'
  apply hne
  exact eq_of_members_eq hread' hread (Value.object.inj (Option.some.inj hdocument')).symm

/-- Reading the lossless output back gives the envelope without a `null`. -/
theorem read_output (h : codec.RoundTrips result) :
    ∃ encoded, encodeToolResult codec result .losslessEnvelope = .ok encoded ∧
      (codec.fromStr encoded.output).bind (ToolResultEnvelope.deserialize codec) =
        some (ToolResultEnvelope.fromRmcp result).withoutNull := by
  obtain ⟨content, hread, hencode, hdocument⟩ := exists_document h
  refine ⟨_, hencode, ?_⟩
  rw [hdocument, Option.bind_some]
  exact ToolResultEnvelope.deserialize_members hread

/-- A result that is not flattened is written as its envelope. -/
theorem compact_eq_lossless (h : ¬ result.Flattened) :
    encodeToolResult codec result .compactWhenPossible = encodeToolResult codec result .losslessEnvelope := by
  cases herror : result.isError.getD false with
  | true => simp [encodeToolResult, ToolResultEnvelope.fromRmcp, herror]
  | false =>
      have hstructured : flattenableStructuredContent (.fromRmcp result) = none := by
        cases hcontent : result.structuredContent with
        | none => simp [flattenableStructuredContent, ToolResultEnvelope.fromRmcp, hcontent]
        | some v =>
            have hrich : ¬ ∀ block ∈ result.content, block.isText = true :=
              fun hall => h ⟨herror, .inl ⟨hcontent ▸ rfl, hall⟩⟩
            simp [flattenableStructuredContent, ToolResultEnvelope.fromRmcp, hcontent] at hrich ⊢
            exact hrich
      have hcompact : compactText codec (.fromRmcp result) = envelopeText codec (.fromRmcp result) := by
        rw [compactText, hstructured]
        dsimp only
        split
        · rename_i text rest hsingle
          exact absurd ⟨herror, .inr ⟨text, rest, hsingle⟩⟩ h
        · rfl
      simp [encodeToolResult, hcompact]

end Encoding

/-- An encoded result keeps everything unless its structured content is a `null`. -/
theorem encodeToolResult_losesNothing_iff (codec : Codec Rest Rich Fault) (result : CallToolResult Rest Rich)
    (h : codec.RoundTrips result) : LosesNothing codec result ↔ result.structuredContent ≠ some .null := by
  obtain ⟨encoded, hencode, hread⟩ := read_output h
  constructor
  · rintro ⟨⟨encoded', hencode', hdecoded⟩, -, -⟩
    rw [hencode] at hencode'
    cases hencode'
    rw [hread] at hdecoded
    exact (ToolResultEnvelope.fromRmcp result).withoutNull_eq_self_iff.mp (Option.some.inj hdecoded)
  · intro hnull
    refine ⟨⟨encoded, hencode, ?_⟩, fun other => output_ne_of_fromRmcp_ne h, compact_eq_lossless⟩
    rw [hread, (ToolResultEnvelope.fromRmcp result).withoutNull_eq_self_iff.mpr hnull]

/-- A codec for plain blocks of text and for one document with its text. -/
def Codec.single (document : Value) (text : String) : Codec Unit Empty Empty where
  serializeBlock
    | .text s () => .ok (.object [("type", .string "text"), ("text", .string s)])
    | .rich block => nomatch block
  deserializeBlock
    | .object [_, (_, .string s)] => some (.text s ())
    | _ => none
  toString _ := text
  fromStr s := if s = text then some document else none

theorem Codec.fromStr_single (document v : Value) (text : String) :
    (single document text).fromStr ((single document text).toString v) = some document := if_pos rfl

def doneResult : CallToolResult Unit Empty := ⟨[.text "done" ()], none, some false, some "complete", none⟩

def doneCodec : Codec Unit Empty Empty :=
  .single
    (.object [("content", .array [.object [("type", .string "text"), ("text", .string "done")]]),
      ("isError", .bool false), ("resultType", .string "complete")])
    "\x7b\"content\":[\x7b\"type\":\"text\",\"text\":\"done\"\x7d],\"isError\":false,\"resultType\":\"complete\"\x7d"

theorem encodeToolResult_losesNothing_done : LosesNothing doneCodec doneResult := by
  apply (encodeToolResult_losesNothing_iff doneCodec doneResult ⟨?_, ?_⟩).mpr
  · exact Option.some_ne_none _ |>.symm
  · rintro block (⟨⟩ | ⟨_, ⟨⟩⟩)
    exact ⟨_, rfl, rfl⟩
  · rintro document ⟨⟩
    exact Codec.fromStr_single _ _ _

def nullResult : CallToolResult Unit Empty := ⟨[], some .null, none, none, none⟩

def nullCodec : Codec Unit Empty Empty :=
  .single (.object [("content", .array []), ("structuredContent", .null), ("isError", .bool false)])
    "\x7b\"content\":[],\"structuredContent\":null,\"isError\":false\x7d"

theorem nullResult_loses : nullCodec.RoundTrips nullResult ∧ ¬ LosesNothing nullCodec nullResult := by
  constructor
  · refine ⟨List.forall_mem_nil _, ?_⟩
    rintro document ⟨⟩
    exact Codec.fromStr_single _ _ _
  · rintro ⟨⟨encoded, ⟨⟩, hdecoded⟩, -, -⟩
    cases hdecoded

end OpenaiRs.ToolResult
