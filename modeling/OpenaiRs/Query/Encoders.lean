import OpenaiRs.Rust.Str
import OpenaiRs.Serde.Leaves

/-!
# Query encoders

`append_query` of `openai-rs-client/src/transport.rs`, which writes the members of an object into a URL,
and `encode_query` of `openai-rs-client/src/admin.rs`, which lists them as pairs.

## Implementation notes

A query is the result of `serde_json::to_value`: a value, or the text of its error. `Display` of a
`serde_json::Number` is the parameter `numberText`, and `append_pair` of the `url` crate, which writes a pair behind
the pairs of a query, the parameter `appendPair`. Of a URL only its query is more than a text.
-/

namespace OpenaiRs.Query

open Rust Serde

/-- A name and a value. -/
abbrev Pair := String × String

/-- `Error::EncodeQuery`. -/
structure EncodeError where
  message : String
  deriving DecidableEq

def boolText (b : Bool) : String := if b then "true" else "false"

section Platform

variable (numberText : Number → String) (appendPair : Bytes → Pair → Bytes)

structure Url where
  front : String
  query : Option Bytes
  fragment : Option String
  deriving DecidableEq

/-- The serializer of `query_pairs_mut` and the flag of the loop. -/
structure Appending where
  target : Bytes
  appended : Bool

/-- `serializer.append_pair(name, value); appended = true`. -/
def Appending.push (state : Appending) (pair : Pair) : Appending :=
  ⟨appendPair state.target pair, true⟩

/-- `query_scalar`. -/
def queryScalar (name : String) : Value → Except EncodeError (Option String)
  | .null => .ok none
  | .bool b => .ok (some (boolText b))
  | .number n => .ok (some (numberText n))
  | .string s => .ok (if s.isEmpty then none else some s)
  | .array _ | .object _ => .error ⟨"query array field `" ++ name ++ "` contains a non-scalar value"⟩

/-- The loop over the items of an array. -/
def appendItems (name : String) : List Value → Appending → Appending × Except EncodeError Unit
  | [], state => (state, .ok ())
  | value :: rest, state =>
      match queryScalar numberText name value with
      | .error error => (state, .error error)
      | .ok none => appendItems name rest state
      | .ok (some text) => appendItems name rest (state.push appendPair (name ++ "[]", text))

/-- One round of the loop over the fields. -/
def appendField (name : String) (value : Value) (state : Appending) : Appending × Except EncodeError Unit :=
  match value with
  | .null => (state, .ok ())
  | .bool b => (state.push appendPair (name, boolText b), .ok ())
  | .number n => (state.push appendPair (name, numberText n), .ok ())
  | .string s => (if s.isEmpty then state else state.push appendPair (name, s), .ok ())
  | .array values => appendItems numberText appendPair name values state
  | .object _ => (state, .error ⟨"query field `" ++ name ++ "` requires an unsupported object encoding"⟩)

def appendFields : Map → Appending → Appending × Except EncodeError Unit
  | [], state => (state, .ok ())
  | (name, value) :: rest, state =>
      match appendField numberText appendPair name value state with
      | (state, .ok ()) => appendFields rest state
      | (state, .error error) => (state, .error error)

/-- `append_query`: the URL it leaves, and its result. -/
def appendQuery (url : Url) (query : Except String Value) : Url × Except EncodeError Unit :=
  match query with
  | .error text => (url, .error ⟨text⟩)
  | .ok (.object fields) =>
      if fields.isEmpty then (url, .ok ())
      else
        -- `query_pairs_mut` gives a URL without query an empty one
        match appendFields numberText appendPair fields ⟨url.query.getD [], false⟩ with
        | (state, .error error) => (⟨url.front, some state.target, url.fragment⟩, .error error)
        | (state, .ok ()) =>
            if state.appended then (⟨url.front, some state.target, url.fragment⟩, .ok ())
            else (⟨url.front, none, url.fragment⟩, .ok ())
  | .ok _ => (url, .error ⟨"operation query must serialize as an object"⟩)

end Platform

section Administration

variable (numberText : Number → String)

mutual

/-- `append_query_value`. -/
def appendQueryValue (pairs : List Pair) (name : String) : Value → Except EncodeError (List Pair)
  | .null => .ok pairs
  | .bool b => .ok (pairs ++ [(name, boolText b)])
  | .number n => .ok (pairs ++ [(name, numberText n)])
  | .string s => .ok (if s.isEmpty then pairs else pairs ++ [(name, s)])
  | .array values => appendBracketed pairs (name ++ "[]") values
  | .object fields => appendNested pairs name fields

/-- The loop over the values of an array. -/
def appendBracketed (pairs : List Pair) (bracketed : String) :
    List Value → Except EncodeError (List Pair)
  | [] => .ok pairs
  | value :: rest => do
      let pairs ← appendQueryValue pairs bracketed value
      appendBracketed pairs bracketed rest

/-- The loop over the fields of an object below the query. -/
def appendNested (pairs : List Pair) (name : String) :
    List (String × Value) → Except EncodeError (List Pair)
  | [] => .ok pairs
  | (child, value) :: rest => do
      let pairs ← appendQueryValue pairs (name ++ "[" ++ child ++ "]") value
      appendNested pairs name rest

end

/-- The loop over the fields of the query. -/
def encodeFields (pairs : List Pair) : Map → Except EncodeError (List Pair)
  | [] => .ok pairs
  | (name, value) :: rest => do
      let pairs ← appendQueryValue numberText pairs name value
      encodeFields pairs rest

/-- `encode_query`. -/
def encodeQuery (query : Except String Value) : Except EncodeError (List Pair) :=
  match query with
  | .error text => .error ⟨text⟩
  | .ok (.object fields) => encodeFields numberText [] fields
  | .ok _ => .error ⟨"Administration query must serialize as an object"⟩

end Administration

end OpenaiRs.Query
