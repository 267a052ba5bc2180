import OpenaiRs.Serde.DistinctKeys

/-!
# Structs that ignore unknown members

A struct with a derived `Deserialize` and no flattened member is read from an object, whose other members are
ignored, or from an array of its fields in order.

## Implementation notes

A document is a value whose objects keep a repeated key: an object that repeats a declared key is refused. An
array that ends early leaves out its last fields, which only a field with `default` allows.
-/

namespace OpenaiRs.Serde

variable {α : Type}

def Value.asBool : Value → Option Bool
  | .bool b => some b
  | _ => none

/-- What is there for a field. -/
inductive Found where
  | missing
  | ended
  | value (v : Value)

namespace Found

def ofMember : Option Value → Found
  | none => missing
  | some v => value v

def ofItem : Option Value → Found
  | none => ended
  | some v => value v

/-- A required field. -/
def required (read : Value → Option α) : Found → Option α
  | value v => read v
  | _ => none

/-- An `Option` that may be missing from an object. -/
def optional (read : Value → Option α) : Found → Option (Option α)
  | missing => some none
  | ended => none
  | value v => if v.isNull then some none else (read v).map some

/-- An `Option` with `default`. -/
def defaulted (read : Value → Option α) : Found → Option (Option α)
  | value v => if v.isNull then some none else (read v).map some
  | _ => some none

end Found

/-- The fields of a struct with the given keys, in a document. -/
def visit (keys : List String) : Value → Option (String → Found)
  | .object members =>
      if ((members.map Prod.fst).filter (· ∈ keys)).Nodup then some fun key => .ofMember (Map.get members key) else none
  | .array items =>
      if items.length ≤ keys.length then some fun key => .ofItem items[keys.idxOf key]? else none
  | _ => none

variable {keys : List String} {members : Map}

theorem visit_object (h : ((members.map Prod.fst).filter (· ∈ keys)).Nodup) :
    visit keys (.object members) = some fun key => .ofMember (members.get key) := if_pos h

/-- Distinct keys are never refused. -/
theorem visit_of_nodup (h : (members.map Prod.fst).Nodup) :
    visit keys (.object members) = some fun key => .ofMember (members.get key) := visit_object (h.filter _)

end OpenaiRs.Serde
