import OpenaiRs.Serde.Value

/-!
# Merging unknown fields

The object merge of `openai-rs-client/src/chat_accumulator.rs` that folds the fields the
chunk model does not type. Texts are concatenated, numbers added, objects merged by key
and arrays of objects by the `index` of their entries.
-/

namespace OpenaiRs.Chat

open Serde

/-- Add two JSON numbers. Unsigned and signed pairs add exactly; everything else falls back
to floating point, where a sum that is no number is dropped. -/
def sumNumbers (acc addend : Number) : Option Number :=
  match acc.asU64, addend.asU64 with
  | some a, some b =>
      if a.toNat + b.toNat < UInt64.size then some (.posInt (a + b))
      else Number.fromF64 (a.toFloat + b.toFloat)
  | _, _ =>
      match acc.asI64, addend.asI64 with
      | some a, some b =>
          if Int64.minValue.toInt ≤ b.toInt + a.toInt ∧ b.toInt + a.toInt ≤ Int64.maxValue.toInt then
            some (Number.fromI64 (b + a))
          else Number.fromF64 (a.toFloat + b.toFloat)
      | _, _ => Number.fromF64 (acc.asF64 + addend.asF64)

/-- An entry of a list that only ever gains elements. -/
def isScalar : Value → Bool
  | .string _ | .number _ | .bool _ => true
  | _ => false

/-- The position an array entry is merged at: its unsigned `index`. -/
def entryIndex : Value → Option Nat
  | .object members =>
      match Map.get members "index" with
      | some (.number index) => index.asU64.map UInt64.toNat
      | _ => none
  | _ => none

mutual

/-- New keys and keys that were `null` are replaced, and so are `index` and `type`;
everything else is merged. -/
def mergeDeltaObject (acc : Map) : List (String × Value) → Map
  | [] => acc
  | (key, deltaValue) :: rest =>
      let merged :=
        if key = "index" ∨ key = "type" then acc.insert key deltaValue
        else
          match acc.get key with
          | none => acc.insert key deltaValue
          | some slot => acc.insert key (mergeDeltaValue slot deltaValue)
      mergeDeltaObject merged rest

/-- Merge one value into its slot. Kinds that do not fit keep the accumulated value. -/
def mergeDeltaValue (acc : Value) (delta : Value) : Value :=
  match acc, delta with
  | .null, delta => delta
  | .object accMap, .object deltaMap => .object (mergeDeltaObject accMap deltaMap)
  | .string accumulated, .string text => .string (accumulated ++ text)
  | .number accumulated, .number addend => .number ((sumNumbers accumulated addend).getD accumulated)
  | .array accumulated, .array entries => .array (mergeDeltaArray accumulated entries)
  | acc, _ => acc

/-- A list of scalars gains the new entries; the entries of other lists are merged at their
index, and those without one are skipped. -/
def mergeDeltaArray (acc : List Value) (delta : List Value) : List Value :=
  if acc.all isScalar then acc ++ delta else mergeEntries acc delta

def mergeEntries (acc : List Value) : List Value → List Value
  | [] => acc
  | entry :: rest =>
      let merged :=
        match entryIndex entry with
        | none => acc
        | some index =>
            match acc[index]? with
            | some slot => acc.set index (mergeDeltaValue slot entry)
            | none => acc ++ [entry]
      mergeEntries merged rest

end

/-- Merge the unknown fields of a chunk. -/
def mergeExtra (target : Map) (extra : Map) : Map := mergeDeltaObject target extra

/-- Insert unknown fields without replacing computed ones. -/
def insertFirstSeen (target : Map) (extra : Map) : Map :=
  extra.foldl (fun target member => target.orInsert member.1 member.2) target

end OpenaiRs.Chat
