import OpenaiRs.StrictSchema.Reference

/-!
# Normalizing a strict schema

`normalize_strict_schema` of `openai-rs-types/src/structured.rs`.

## Implementation notes

The state of a pass is what has been spent of the expansion budget. The recursion has fuel; without it
`normalize` does not return. The active chain has the latest reference first; only its elements matter.
-/

namespace OpenaiRs.StrictSchema

open Serde Fallible

section Nodes

def unsupportedKeywords : List String :=
  ["additionalItems", "allOf", "contains", "dependentRequired", "dependentSchemas", "else", "if", "maxContains",
    "maxProperties", "minContains", "minProperties", "not", "oneOf", "patternProperties", "prefixItems",
    "propertyNames", "then", "unevaluatedItems", "unevaluatedProperties", "uniqueItems"]

def isText (text : String) : Value → Bool
  | .string s => s = text
  | _ => false

/-- Whether a `type` is this one or lists it. -/
def kindIs (kind : String) : Value → Bool
  | .string s => s = kind
  | .array kinds => kinds.any (isText kind)
  | _ => false

def schemaIsObject (object : Map) : Bool :=
  object.containsKey "properties" || (object.get "type").any (kindIs "object")

mutual

def schemaAllowsNull : Value → Bool
  | .object members =>
      (Map.get members "type").any (kindIs "null") ||
        (memberAllowsNull "anyOf" members).getD ((memberAllowsNull "oneOf" members).getD false)
  | .bool b => b
  | _ => false

/-- Whether the array under a key allows null; `none` without the key. -/
def memberAllowsNull (key : String) : List (String × Value) → Option Bool
  | [] => none
  | (name, value) :: rest => if name = key then some (variantsAllowNull value) else memberAllowsNull key rest

def variantsAllowNull : Value → Bool
  | .array variants => anyAllowsNull variants
  | _ => false

def anyAllowsNull : List Value → Bool
  | [] => false
  | variant :: rest => schemaAllowsNull variant || anyAllowsNull rest

end

def makeNullable (schema : Value) : Value :=
  if schemaAllowsNull schema then schema
  else .object [("anyOf", .array [schema, .object [("type", .string "null")]])]

/-- The names that `required` lists. -/
def previousRequired (object : Map) : List String :=
  match object.get "required" with
  | some (.array items) => items.filterMap Value.asStr
  | _ => []

/-- The properties of an object schema; those that are not required may be null. -/
def prepareProperties (object properties : Map) : Map :=
  properties.map fun property =>
    (property.1, if property.1 ∈ previousRequired object then property.2 else makeNullable property.2)

/-- The target of a reference, under the siblings of the reference. -/
def mergeSiblings (resolved object : Map) : Map :=
  object.foldl (fun merged member =>
    if member.1 = "$ref" then merged else Map.insert merged member.1 member.2) resolved

/-- A recursive reference, moved into `anyOf`. -/
def keepRecursion (object : Map) (reference : String) : Map :=
  Map.insert (object.remove "$ref") "anyOf" (.array [.object [("$ref", .string reference)]])

end Nodes

section Passes

/-- A pass over one node, at its path. -/
abbrev NodePass := String → Value → Pass Nat StructuredError Value

variable (recur : NodePass)

/-- The values of a map of schemas. -/
def normalizeSchemas (path : String) (schemas : Map) : Pass Nat StructuredError Map :=
  .traverse (fun member => do
    let schema ← recur (path ++ "/" ++ escapePointer member.1) member.2
    .done (member.1, schema)) schemas

/-- The check of `additionalProperties`. -/
def closeObject (path : String) (object : Map) : Pass Nat StructuredError Map :=
  match object.get "additionalProperties" with
  | none => .done (object.insert "additionalProperties" (.bool false))
  | some (.bool false) => .done object
  | some _ => .fail (.unsupportedKeyword (path ++ "/additionalProperties") "additionalProperties")

/-- The loop over the properties; with the names of the properties. -/
def normalizeProperties (path : String) (object : Map) : Pass Nat StructuredError (Map × List String) :=
  match object.get "properties" with
  | some (.object properties) => do
      let properties ← normalizeSchemas recur (path ++ "/properties") (prepareProperties object properties)
      .done (object.insert "properties" (.object properties), properties.map Prod.fst)
  | _ => .done (object, [])

def normalizeObject (path : String) (object : Map) : Pass Nat StructuredError Map := do
  let closed ← closeObject path object
  let (object, names) ← normalizeProperties recur path closed
  .done (object.insert "required" (.array (names.map .string)))

/-- One round of the loop over the members of a schema. -/
def normalizeMember (path : String) (member : String × Value) : Pass Nat StructuredError (String × Value) :=
  let (key, child) := member
  if key = "$defs" ∨ key = "definitions" then
    match child with
    | .object children => do
        let children ← normalizeSchemas recur (path ++ "/" ++ escapePointer key) children
        .done (key, .object children)
    | _ => .fail (.unsupportedKeyword (path ++ "/" ++ escapePointer key) key)
  else if key = "anyOf" then
    match child with
    | .array children => do
        let children ← .traverse (fun item => recur (path ++ "/" ++ key ++ "/" ++ toString item.2) item.1)
          children.zipIdx
        .done (key, .array children)
    | _ => .fail (.unsupportedKeyword (path ++ "/" ++ key) key)
  else if key = "items" then
    match child with
    | .object _ => do
        let child ← recur (path ++ "/" ++ key) child
        .done (key, child)
    | .bool _ => do
        let child ← recur (path ++ "/" ++ key) child
        .done (key, child)
    | _ => .fail (.unsupportedKeyword (path ++ "/" ++ key) key)
  else .done (key, child)

/-- A schema without a reference. -/
def normalizeNode (path : String) (object : Map) : Pass Nat StructuredError Map := do
  let object ← if schemaIsObject object then normalizeObject recur path object else .done object
  .traverse (normalizeMember recur path) object

end Passes

section Normalize

variable (base : Value) (render : Value → String)

/-- A node with a reference: the chain and the schema to go on with, or `none` when it stays. -/
def followRef (fuel : Nat) (path : String) (chain : List String) (object : Map) :
    Value → Pass Nat StructuredError (Option (List String × Value))
  | .string reference =>
      if isLocal reference then
        match (resolveRef base reference).bind Value.asObject with
        | none => .fail (.unresolvableRef (path ++ "/$ref") reference)
        | some resolved => do
            validateAliasChain base render fuel reference path
            if object.length = 1 then .done none
            else if reference ∈ chain then
              if object.containsKey "anyOf" then
                .fail (.unsupportedKeyword (path ++ "/anyOf") "anyOf beside a recursive $ref")
              else .done (some (chain, .object (keepRecursion object reference)))
            else do
              let merged := Value.object (mergeSiblings resolved object)
              let within ← charge (countNodes merged)
              if within then .done (some (reference :: chain, merged))
              else .fail (.expansionBudgetExceeded (path ++ "/$ref") maxRefInlineNodes)
      else .fail (.externalReference (path ++ "/$ref") reference)
  | other => .fail (.unresolvableRef (path ++ "/$ref") (render other))

def normalize : Nat → String → List String → Value → Pass Nat StructuredError Value
  | 0, _, _, _ => .diverge
  | fuel + 1, path, chain, .object object =>
      match unsupportedKeywords.find? fun keyword => Map.containsKey object keyword with
      | some keyword => .fail (.unsupportedKeyword (path ++ "/" ++ escapePointer keyword) keyword)
      | none =>
          match Map.get object "$ref" with
          | some node => do
              let next ← followRef base render fuel path chain object node
              match next with
              | none => .done (.object object)
              | some (chain, value) => normalize fuel path chain value
          | none => do
              let object ← normalizeNode (fun path child => normalize fuel path chain child) path object
              .done (.object object)
  | _ + 1, _, _, value => .done value

/-- The document without a root `$schema`. -/
def stripSchema : Value → Value
  | .object members => .object (Map.remove members "$schema")
  | value => value

/-- `normalize_strict_schema`; `none` when the fuel is spent. -/
def normalizeStrictSchema (fuel : Nat) (schema : Value) : Option (Except StructuredError Value) :=
  match normalize (stripSchema schema) render fuel "#" [] (stripSchema schema) 0 with
  | none => none
  | some (.error error) => some (.error error)
  | some (.ok (out, _)) =>
      if out.asObject.any schemaIsObject then some (.ok out) else some (.error .rootMustBeObject)

end Normalize

end OpenaiRs.StrictSchema
