import OpenaiRs.Fallible.Pass
import OpenaiRs.Rust.Str
import OpenaiRs.Serde.Value

/-!
# References of a schema

JSON pointers, alias chains and the expansion budget of `openai-rs-types/src/structured.rs`.

## Implementation notes

`to_string` of a JSON value only occurs in errors and is the parameter `render`. The loop over an alias
chain has fuel.
-/

namespace OpenaiRs.StrictSchema

open Serde Fallible Rust

section Pointers

inductive StructuredError where
  | unsupportedKeyword (path keyword : String)
  | externalReference (path reference : String)
  | unresolvableRef (path reference : String)
  | recursiveReference (path reference : String)
  | expansionBudgetExceeded (path : String) (budget : Nat)
  | rootMustBeObject
  deriving DecidableEq

/-- `str::replace` of a character. -/
def replace (ch : Char) (substitute text : List Char) : List Char := text.flatMap fun other => if other = ch then substitute else [other]

def escapePointer (segment : String) : String :=
  String.ofList (replace '/' ['~', '1'] (replace '~' ['~', '0'] segment.toList))

/-- The loop of `unescape_pointer`. -/
def unescapeChars : List Char → Option (List Char)
  | [] => some []
  | ch :: rest =>
      if ch = '~' then
        match rest with
        | '0' :: rest => (unescapeChars rest).map ('~' :: ·)
        | '1' :: rest => (unescapeChars rest).map ('/' :: ·)
        | _ => none
      else (unescapeChars rest).map (ch :: ·)

def unescapePointer (segment : List Char) : Option String := (unescapeChars segment).map String.ofList

/-- `strip_prefix` of `#/`. -/
def pointerOf (reference : String) : Option (List Char) :=
  match reference.toList with
  | '#' :: '/' :: pointer => some pointer
  | _ => none

/-- A pointer into the document. -/
def isLocal (reference : String) : Bool := reference = "#" || (pointerOf reference).isSome

def resolveSegments (current : Value) : List (List Char) → Option Value
  | [] => some current
  | segment :: rest =>
      current.asObject.bind fun members =>
        (unescapePointer segment).bind fun key =>
          (Map.get members key).bind fun next => resolveSegments next rest

def resolveRef (base : Value) (reference : String) : Option Value :=
  if reference = "#" then some base
  else (pointerOf reference).bind fun pointer => resolveSegments base (pointer.splitOn '/')

variable (base : Value) (render : Value → String)

/-- The loop of `validate_alias_chain`. -/
def aliasLoop (path : String) : Nat → List String → String → Pass Nat StructuredError Unit
  | 0, _, _ => .diverge
  | fuel + 1, seen, current =>
      if current ∈ seen then .fail (.recursiveReference (path ++ "/$ref") current)
      else if isLocal current then
        match (resolveRef base current).bind Value.asObject with
        | none => .fail (.unresolvableRef (path ++ "/$ref") current)
        | some object =>
            match Map.get object "$ref" with
            | none => .done ()
            | some (.string next) => aliasLoop path fuel (current :: seen) next
            | some other => .fail (.unresolvableRef (path ++ "/$ref") (render other))
      else .fail (.externalReference (path ++ "/$ref") current)

def validateAliasChain (fuel : Nat) (reference path : String) : Pass Nat StructuredError Unit :=
  aliasLoop base render path fuel [] reference

end Pointers

section Budget

def maxRefInlineNodes : Nat := 100000

/-- `InlineBudget::charge`; the state is what has been spent. -/
def charge (nodes : Nat) : Pass Nat StructuredError Bool :=
  .modifyGet fun spent => (decide (saturatingAdd spent nodes ≤ maxRefInlineNodes), saturatingAdd spent nodes)

mutual

/-- The nodes of a value, with itself. -/
def countNodes : Value → Nat
  | .array items => 1 + countItems items
  | .object members => 1 + countMembers members
  | _ => 1

def countItems : List Value → Nat
  | [] => 0
  | item :: rest => countNodes item + countItems rest

def countMembers : List (String × Value) → Nat
  | [] => 0
  | (_, value) :: rest => countNodes value + countMembers rest

end

end Budget

section Keys

/-- The keys that a local pointer goes through. -/
def pointerKeys (reference : String) : Option (List String) :=
  if reference = "#" then some []
  else (pointerOf reference).bind fun pointer => (pointer.splitOn '/').mapM unescapePointer

/-- The value under some keys. -/
def lookupKeys (value : Value) : List String → Option Value
  | [] => some value
  | key :: rest => value.asObject.bind fun members => (Map.get members key).bind fun next => lookupKeys next rest

variable {base : Value} {reference : String}

theorem resolveSegments_eq (segments : List (List Char)) :
    resolveSegments base segments = (segments.mapM unescapePointer).bind (lookupKeys base) := by
  induction segments generalizing base with
  | nil => rfl
  | cons segment rest ih =>
      rw [resolveSegments, List.mapM_cons]
      cases hsegment : unescapePointer segment with
      | none => simp
      | some key =>
          simp only [Option.bind_some, Option.bind_eq_bind, ih]
          cases rest.mapM unescapePointer with
          | none => simp
          | some keys => simp [lookupKeys]

/-- A reference resolves to what is under its keys. -/
theorem resolveRef_eq (base : Value) (reference : String) :
    resolveRef base reference = (pointerKeys reference).bind (lookupKeys base) := by
  rw [resolveRef, pointerKeys]
  split
  · rfl
  · cases pointerOf reference with
    | none => rfl
    | some pointer => exact resolveSegments_eq _

/-- What holds of a value and is inherited by members holds of what keys lead to. -/
theorem lookupKeys_induct {P : Value → Prop} {value target : Value} {keys : List String}
    (hmember : ∀ (members : Map) (key : String) (next : Value), P (.object members) → members.get key = some next → P next)
    (hvalue : P value) (hlookup : lookupKeys value keys = some target) : P target := by
  induction keys generalizing value with
  | nil =>
      cases hlookup
      exact hvalue
  | cons key rest ih =>
      obtain ⟨members, hmembers, hrest⟩ := Option.bind_eq_some_iff.mp hlookup
      obtain ⟨next, hnext, hlookup'⟩ := Option.bind_eq_some_iff.mp hrest
      obtain rfl := Value.asObject_eq_some hmembers
      exact ih (hmember members key next hvalue hnext) hlookup'

/-- What holds of the document and is inherited by members holds of what a reference leads to. -/
theorem resolved_induct {P : Value → Prop} {resolved : Map}
    (hmember : ∀ (members : Map) (key : String) (next : Value), P (.object members) → members.get key = some next → P next)
    (hbase : P base) (hresolved : (resolveRef base reference).bind Value.asObject = some resolved) :
    P (.object resolved) := by
  obtain ⟨target, htarget, hobject⟩ := Option.bind_eq_some_iff.mp hresolved
  rw [resolveRef_eq] at htarget
  obtain ⟨keys, -, hlookup⟩ := Option.bind_eq_some_iff.mp htarget
  obtain rfl := Value.asObject_eq_some hobject
  exact lookupKeys_induct hmember hbase hlookup

end Keys

end OpenaiRs.StrictSchema
