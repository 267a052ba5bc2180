import OpenaiRs.StrictSchema.Rewriting

/-!
# The shape of a strict schema

Every schema of a normalized document has the shape that strict mode asks for. A `$schema` at the root is
removed before the walk, but a root that is replaced by the target of its reference takes over the
`$schema` of the target.
-/

namespace OpenaiRs.StrictSchema

open Serde Fallible

section Shapes

/-- A schema that declares the type `object` or has properties. -/
def DeclaresObject (object : Map) : Prop :=
  object.containsKey "properties" = true ∨ object.get "type" = some (.string "object") ∨
    ∃ kinds, object.get "type" = some (.array kinds) ∧ .string "object" ∈ kinds

/-- A pointer into the document. -/
def IsLocalPointer (reference : String) : Prop :=
  reference = "#" ∨ ∃ pointer, reference.toList = '#' :: '/' :: pointer

/-- A schema of the strict subset. -/
structure NodeShape (object : Map) : Prop where
  supported : ∀ keyword ∈ unsupportedKeywords, object.containsKey keyword = false
  reference : object.containsKey "$ref" = true →
    ∃ reference, object = [("$ref", .string reference)] ∧ IsLocalPointer reference
  closed : DeclaresObject object → object.get "additionalProperties" = some (.bool false) ∧
    object.get "required" = some (.array ((propertyNames object).map .string))
  anyOf : ∀ value, object.get "anyOf" = some value → ∃ variants, value = .array variants
  items : ∀ value, object.get "items" = some value →
    (∃ schema, value = .object schema) ∨ ∃ b, value = .bool b
  definitions : ∀ key ∈ ["$defs", "definitions"], ∀ value, object.get key = some value →
    ∃ schemas, value = .object schemas

/-- A document of the strict subset. -/
structure StrictShape (out : Value) : Prop where
  nodes : ∀ steps object, schemaAt out steps = some (.object object) → NodeShape object
  root : ∃ object : Map, out = .object object ∧ DeclaresObject object ∧ object.containsKey "$schema" = false

/-- The schemas that a reference leads to, one alias after the other. -/
inductive AliasTarget (base : Value) : String → Map → Prop
  | here {reference : String} {resolved : Map} :
      (resolveRef base reference).bind Value.asObject = some resolved → AliasTarget base reference resolved
  | next {reference next : String} {resolved target : Map} :
      (resolveRef base reference).bind Value.asObject = some resolved →
      resolved.get "$ref" = some (.string next) → AliasTarget base next target → AliasTarget base reference target

/-- The reference of the root, where it has one, leads to schemas without `$schema`. -/
def RootTargetsPlain (base : Value) : Prop :=
  ∀ (object : Map) (reference : String) (target : Map), base = .object object → object.get "$ref" = some (.string reference) →
    AliasTarget base reference target → target.containsKey "$schema" = false

variable {base value u : Value} {render : Value → String} {object object' resolved : Map} {chain chain' : List String}

theorem schemaIsObject_iff : schemaIsObject object = true ↔ DeclaresObject object := by
  have hkinds : ∀ kinds : List Value, kinds.any (isText "object") = true ↔ .string "object" ∈ kinds := by
    intro kinds
    rw [List.any_eq_true]
    constructor
    · rintro ⟨kind, hmem, htext⟩
      cases kind with
      | string s =>
          obtain rfl : s = "object" := of_decide_eq_true htext
          exact hmem
      | _ => cases htext
    · intro hmem
      exact ⟨_, hmem, rfl⟩
  rw [schemaIsObject, Bool.or_eq_true, DeclaresObject]
  apply or_congr_right
  cases htype : object.get "type" with
  | none => simp
  | some kind =>
      cases kind with
      | string s => simp [kindIs]
      | array kinds => simpa [kindIs] using hkinds kinds
      | _ => simp [kindIs]

theorem isLocal_iff {reference : String} : isLocal reference = true ↔ IsLocalPointer reference := by
  rw [isLocal, Bool.or_eq_true, decide_eq_true_eq, IsLocalPointer]
  apply or_congr_right
  rw [pointerOf]
  split
  · rename_i pointer heq
    rw [heq]
    simp
  · rename_i hother
    constructor
    · intro h
      cases h
    · rintro ⟨pointer, heq⟩
      exact absurd heq (hother pointer)

theorem nodeShape_bare {reference : String} (hsupported : Supported object)
    (href : object.get "$ref" = some (.string reference)) (hlocal : isLocal reference = true)
    (hlength : object.length = 1) : NodeShape object := by
  obtain rfl := bare_eq href hlength
  have hnone : ∀ {key : String} {value : Value}, key ≠ "$ref" →
      Map.get [("$ref", .string reference)] key ≠ some value := by
    intro key value hkey h
    rw [get_bare hkey] at h
    cases h
  exact {
    supported := hsupported
    reference := fun _ => ⟨reference, rfl, isLocal_iff.mp hlocal⟩
    closed := by
      rintro (hproperties | htype | ⟨kinds, htype, -⟩)
      · rw [Map.containsKey_eq_isSome, get_bare (by decide)] at hproperties
        cases hproperties
      · exact absurd htype (hnone (by decide))
      · exact absurd htype (hnone (by decide))
    anyOf := fun _ h => absurd h (hnone (by decide))
    items := fun _ h => absurd h (hnone (by decide))
    definitions := by
      intro key hkey value h
      refine absurd h (hnone ?_)
      rintro rfl
      exact absurd hkey (by decide) }

theorem nodeShape_node {R : Value → Value → Prop} (hsupported : Supported object)
    (hnone : object.get "$ref" = none) (hspec : NodeSpec R object object')
    (hR : ∀ value value', R value value' → SameKind value value') : NodeShape object' := by
  have hcontains : ∀ key, key ∉ rewrittenKeys → object'.containsKey key = object.containsKey key := by
    intro key hkey
    rw [Map.containsKey_eq_isSome, Map.containsKey_eq_isSome, hspec.other key hkey]
  have hdefs : ∀ key ∈ ["$defs", "definitions"], key ∈ ["$defs", "definitions", "anyOf", "items"] := by decide
  have hrewritten : ∀ keyword ∈ unsupportedKeywords, keyword ∉ rewrittenKeys := by decide
  exact {
    supported := by
      intro keyword hmem
      rw [hcontains keyword (hrewritten keyword hmem)]
      exact hsupported keyword hmem
    reference := by
      intro h
      rw [hcontains "$ref" (by decide), Map.containsKey_eq_isSome, hnone] at h
      cases h
    closed := fun h => hspec.closed (schemaIsObject_iff.mpr h)
    anyOf := by
      intro value h
      obtain ⟨old, hmember⟩ := hspec.exists_member (by decide) h
      obtain ⟨_, variants, -, rfl, -⟩ := hmember.of_anyOf rfl
      exact ⟨variants, rfl⟩
    items := by
      intro value h
      obtain ⟨old, hmember⟩ := hspec.exists_member (by decide) h
      obtain ⟨hshape, hrel⟩ := hmember.of_items rfl
      obtain ⟨_, -, schema, rfl⟩ | ⟨_, rfl⟩ := hR old value hrel
      · exact .inl ⟨schema, rfl⟩
      · exact hshape
    definitions := by
      intro key hkey value h
      obtain ⟨old, hmember⟩ := hspec.exists_member (hdefs key hkey) h
      obtain ⟨_, schemas, -, rfl, -⟩ := hmember.of_defs (by simpa using hkey)
      exact ⟨schemas, rfl⟩ }

/-- Every schema of a normalized document has the shape. -/
theorem Normalizes.nodeShape {steps : List Step} (h : Normalizes base render chain value u)
    (hat : schemaAt u steps = some (.object object)) : NodeShape object := by
  obtain ⟨chain', value', -, hnode⟩ := h.derives hat
  obtain ⟨chain'', value'', -, hsettled⟩ := hnode.unfolds
  generalize hobject : Value.object object = node at hsettled
  cases hsettled with
  | scalar hnot => exact absurd hobject.symm (hnot object)
  | bare hsupported href hlocal hlength =>
      cases hobject
      exact nodeShape_bare hsupported href hlocal hlength
  | node hsupported hnone hspec =>
      cases hobject
      exact nodeShape_node hsupported hnone hspec fun _ _ hrel => hrel.sameKind

end Shapes

section Root

variable {base value u : Value} {render : Value → String} {object object' resolved : Map} {chain chain' : List String}

theorem get_mergeSiblings : (mergeSiblings resolved object).get "$ref" = resolved.get "$ref" := by
  rw [mergeSiblings]
  induction object generalizing resolved with
  | nil => rfl
  | cons member rest ih =>
      rw [List.foldl_cons, ih]
      split
      · rfl
      · rename_i hkey
        rw [Map.get_insert, if_neg hkey]

theorem containsKey_mergeSiblings {key : String} (hkey : key ≠ "$ref") :
    (mergeSiblings resolved object).containsKey key = (resolved.containsKey key || object.containsKey key) := by
  rw [mergeSiblings]
  induction object generalizing resolved with
  | nil => exact (Bool.or_false _).symm
  | cons member rest ih =>
      have hcons : Map.containsKey (member :: rest) key = (decide (member.1 = key) || Map.containsKey rest key) := rfl
      rw [List.foldl_cons, ih, hcons]
      split
      · rename_i href
        have hne : member.1 ≠ key := fun heq => hkey (heq.symm.trans href)
        simp [hne]
      · rw [Map.containsKey_insert, Bool.or_comm (decide _), Bool.or_assoc]

/-- The target of the reference of an object has the key. -/
def TargetHas (base : Value) (object : Map) (key : String) : Prop :=
  ∃ reference target, object.get "$ref" = some (.string reference) ∧ AliasTarget base reference target ∧
    target.containsKey key = true

theorem targetHas_iff {reference key : String} (href : object.get "$ref" = some (.string reference))
    (hresolved : (resolveRef base reference).bind Value.asObject = some resolved) :
    TargetHas base object key ↔ resolved.containsKey key = true ∨ TargetHas base resolved key := by
  constructor
  · rintro ⟨other, target, hother, htarget, hcontains⟩
    cases href.symm.trans hother
    cases htarget with
    | here hresolved' =>
        cases hresolved.symm.trans hresolved'
        exact .inl hcontains
    | next hresolved' hnext hrest =>
        cases hresolved.symm.trans hresolved'
        exact .inr ⟨_, target, hnext, hrest, hcontains⟩
  · rintro (hcontains | ⟨next, target, hnext, htarget, hcontains⟩)
    · exact ⟨reference, resolved, href, .here hresolved, hcontains⟩
    · exact ⟨reference, target, href, .next hresolved hnext htarget, hcontains⟩

/-- A node that is replaced takes over what is on its alias chain. -/
theorem Unfolds.containsKey {key : String} (hkey : key ≠ "$ref")
    (hends : ∀ reference, object.get "$ref" = some (.string reference) → AliasEnds base chain reference)
    (hnone : object'.get "$ref" = none)
    (hunfolds : Unfolds base chain (.object object) chain' (.object object')) :
    object'.containsKey key = true ↔ object.containsKey key = true ∨ TargetHas base object key := by
  generalize hvalue : Value.object object = value at hunfolds
  generalize hvalue' : Value.object object' = value' at hunfolds
  induction hunfolds generalizing object with
  | here =>
      cases hvalue'
      cases hvalue
      constructor
      · exact .inl
      · rintro (hcontains | ⟨reference, _, href, _⟩)
        · exact hcontains
        · exact absurd (href.symm.trans hnone) (by simp)
  | @follow chain chain1 chain2 first value1 value2 hfollows _ ih =>
      have hfirst : object = first := Value.object.inj hvalue
      subst hfirst
      cases hfollows with
      | @inline reference resolved href _ hresolved hnew =>
          have hnext : ∀ next, (mergeSiblings resolved object).get "$ref" = some (.string next) →
              AliasEnds base (reference :: chain) next := by
            intro next hnext
            rw [get_mergeSiblings] at hnext
            cases hends reference href with
            | last _ hresolved' hlast =>
                cases hresolved.symm.trans hresolved'
                exact absurd (hnext.symm.trans hlast) (by simp)
            | next _ hresolved' hnext' hrest =>
                cases hresolved.symm.trans hresolved'
                cases hnext.symm.trans hnext'
                exact hrest
          have htarget : TargetHas base (mergeSiblings resolved object) key ↔ TargetHas base resolved key := by
            rw [TargetHas, TargetHas, get_mergeSiblings]
          rw [ih hnext rfl hvalue', containsKey_mergeSiblings hkey, targetHas_iff href hresolved, htarget,
            Bool.or_eq_true]
          tauto
      | recursive href _ _ hold =>
          cases hends _ href with
          | last hnew _ _ => exact absurd hold hnew
          | next hnew _ _ _ => exact absurd hold hnew

theorem schemaIsObject_bare {node : Value} : schemaIsObject [("$ref", node)] = false := by
  rw [schemaIsObject, Map.containsKey_eq_isSome, get_bare (by decide), get_bare (by decide)]
  rfl

theorem containsKey_stripSchema {schema : Value} (h : stripSchema schema = .object object) :
    object.containsKey "$schema" = false := by
  cases schema with
  | object members =>
      cases h
      exact Map.containsKey_remove members "$schema"
  | _ => cases h

/-- The root of the output has what the root had or what the targets that replace it have. -/
theorem Normalizes.containsKey_root {key : String} (hkey : key ≠ "$ref") (hrewritten : key ∉ rewrittenKeys)
    (h : Normalizes base render [] (.object object) (.object object')) (hisObject : schemaIsObject object' = true) :
    object'.containsKey key = true ↔ object.containsKey key = true ∨ TargetHas base object key := by
  have hnotBare : ∀ {node : Value}, object'.get "$ref" = some node → object'.length ≠ 1 := by
    intro node href hlength
    rw [bare_eq href hlength, schemaIsObject_bare] at hisObject
    cases hisObject
  obtain ⟨chain', value', hunfolds, hsettled⟩ := h.unfolds
  generalize hout : Value.object object' = out at hsettled
  cases hsettled with
  | scalar hnot => exact absurd hout.symm (hnot object')
  | bare _ href _ hlength =>
      cases hout
      exact absurd hlength (hnotBare href)
  | @node last _ _ hnone hspec =>
      cases hout
      have hsame : object'.containsKey key = last.containsKey key := by
        rw [Map.containsKey_eq_isSome, Map.containsKey_eq_isSome, hspec.other key hrewritten]
      rw [hsame]
      exact hunfolds.containsKey hkey (fun _ => h.aliasEnds) hnone

/-- The root of a result has a `$schema` when one of the targets that replace it has one. -/
theorem root_containsKey_schema {fuel : Nat} {schema out : Value}
    (h : normalizeStrictSchema render fuel schema = some (.ok out)) :
    ∃ object object' : Map, stripSchema schema = .object object ∧ out = .object object' ∧
      schemaIsObject object' = true ∧
      (object'.containsKey "$schema" = true ↔ TargetHas (stripSchema schema) object "$schema") := by
  obtain ⟨hyields, object', rfl, hisObject⟩ := normalizeStrictSchema_ok h
  have hnormalizes : Normalizes (stripSchema schema) render [] (stripSchema schema) (.object object') :=
    ⟨fuel, "#", hyields⟩
  obtain ⟨object, hobject, -⟩ | ⟨hnot, heq⟩ := hnormalizes.sameKind
  · refine ⟨object, object', hobject, rfl, hisObject, ?_⟩
    have hroot : Normalizes (stripSchema schema) render [] (.object object) (.object object') := by
      rw [← hobject]
      exact hnormalizes
    rw [hroot.containsKey_root (by decide) (by decide) hisObject, containsKey_stripSchema hobject]
    simp
  · exact absurd heq.symm (hnot object')

theorem root_plain_iff {fuel : Nat} {schema : Value}
    (h : normalizeStrictSchema render fuel schema = some (.ok (.object object'))) :
    object'.containsKey "$schema" = false ↔ RootTargetsPlain (stripSchema schema) := by
  obtain ⟨object, _, hobject, ⟨⟩, -, hschema⟩ := root_containsKey_schema h
  constructor
  · intro habsent first reference target hfirst href htarget
    cases hobject.symm.trans hfirst
    by_contra hcontains
    rw [Bool.not_eq_false] at hcontains
    rw [hschema.mpr ⟨reference, target, href, htarget, hcontains⟩] at habsent
    cases habsent
  · intro hplain
    by_contra hcontains
    rw [Bool.not_eq_false] at hcontains
    obtain ⟨reference, target, href, htarget, htargetContains⟩ := hschema.mp hcontains
    rw [hplain object reference target hobject href htarget] at htargetContains
    cases htargetContains

/-- A result has the shape of a strict schema exactly when no schema that replaces the root has a
`$schema`. -/
theorem strict_shape_iff_root_targets_plain {fuel : Nat} {schema out : Value}
    (h : normalizeStrictSchema render fuel schema = some (.ok out)) :
    StrictShape out ↔ RootTargetsPlain (stripSchema schema) := by
  obtain ⟨hyields, object', rfl, hisObject⟩ := normalizeStrictSchema_ok h
  have hnormalizes : Normalizes (stripSchema schema) render [] (stripSchema schema) (.object object') :=
    ⟨fuel, "#", hyields⟩
  rw [← root_plain_iff h]
  constructor
  · rintro ⟨-, root, ⟨⟩, -, habsent⟩
    exact habsent
  · intro habsent
    exact ⟨fun steps node hat => hnormalizes.nodeShape hat, object', rfl, schemaIsObject_iff.mp hisObject, habsent⟩

/-- A reference below the root leads to a definition with a `$schema`. -/
def nestedDialect : Value :=
  .object [("$schema", .string "d"), ("type", .string "object"),
    ("properties", .object [("x", .object [("$ref", .string "#/$defs/X"), ("title", .string "t")])]),
    ("$defs", .object [("X", .object [("$schema", .string "d"), ("type", .string "object")])])]

theorem strict_shape_nested :
    ∃ out, normalizeStrictSchema (fun _ => "") 8 nestedDialect = some (.ok out) ∧ StrictShape out := by
  obtain ⟨out, hout, -⟩ := exists_result (show ((normalizeStrictSchema (fun _ => "") 8 nestedDialect).bind
    Except.toOption).any (fun _ => true) = true by decide +kernel)
  refine ⟨out, hout, (strict_shape_iff_root_targets_plain hout).mpr ?_⟩
  intro object reference target hobject href _
  have hplain : ((stripSchema nestedDialect).asObject.bind fun members => Map.get members "$ref").isSome = false := by
    decide +kernel
  rw [hobject, Value.asObject, Option.bind_some, href] at hplain
  cases hplain

/-- The reference of the root leads to a definition with a `$schema`. -/
def rootDialect : Value :=
  .object [("$ref", .string "#/$defs/X"),
    ("$defs", .object [("X", .object [("$schema", .string "d"), ("type", .string "object")])])]

theorem root_dialect_returns :
    ∃ out, normalizeStrictSchema (fun _ => "") 8 rootDialect = some (.ok out) ∧ ¬ StrictShape out := by
  obtain ⟨out, hout, hcontains⟩ := exists_result (show ((normalizeStrictSchema (fun _ => "") 8 rootDialect).bind
    Except.toOption).any (fun out => out.asObject.any fun object => Map.containsKey object "$schema") = true by
      decide +kernel)
  refine ⟨out, hout, ?_⟩
  rintro ⟨-, object, rfl, -, habsent⟩
  exact absurd (hcontains.symm.trans habsent) (by simp)

end Root

end OpenaiRs.StrictSchema
