import OpenaiRs.Serde.Struct

/-!
# Tagged objects

The `type` of an object decides which of the cases of a union it is. An object with another `type` is retained
verbatim.
-/

namespace OpenaiRs.Serde

/-- `object_discriminator`. -/
def objectDiscriminator (v : Value) : Option String := do
  let object ← v.asObject
  let tag ← object.get "type"
  tag.asStr

theorem get_type_of_objectDiscriminator {m : Map} {tag : String} (h : objectDiscriminator (.object m) = some tag) :
    m.get "type" = some (.string tag) := by
  obtain ⟨found, hfound, htag⟩ := Option.bind_eq_some_iff.mp h
  cases found with
  | string s =>
      cases htag
      exact hfound
  | _ => cases htag

/-- A future tagged object, including its discriminator and every raw field. -/
structure UnknownTaggedObject where
  discriminator : String
  raw : Map
  nodup : (raw.map Prod.fst).Nodup
  objectDiscriminator_raw : objectDiscriminator (.object raw) = some discriminator

namespace UnknownTaggedObject

/-- A list of members with a key twice is no object. -/
def fromValue : Value → Option UnknownTaggedObject
  | .object raw =>
      if h : (raw.map Prod.fst).Nodup ∧ (objectDiscriminator (.object raw)).isSome then
        some ⟨(objectDiscriminator (.object raw)).get h.2, raw, h.1, (Option.some_get h.2).symm⟩
      else none
  | _ => none

def intoValue (value : UnknownTaggedObject) : Value := .object value.raw

@[simp] theorem objectDiscriminator_intoValue (value : UnknownTaggedObject) :
    objectDiscriminator value.intoValue = some value.discriminator := value.objectDiscriminator_raw

theorem fromValue_intoValue (value : UnknownTaggedObject) : fromValue value.intoValue = some value := by
  obtain ⟨discriminator, raw, hnodup, h⟩ := value
  rw [intoValue, fromValue, dif_pos ⟨hnodup, h ▸ rfl⟩]
  simp [h]

theorem intoValue_of_fromValue {v : Value} {value : UnknownTaggedObject} (h : fromValue v = some value) :
    value.intoValue = v := by
  cases v with
  | object raw =>
      rw [fromValue] at h
      split at h
      · cases h
        rfl
      · cases h
  | _ => cases h

end UnknownTaggedObject

/-- A type whose values are written as objects with this `type`. -/
class Tagged (tag : outParam String) (α : Type) [Wire α] : Prop where
  objectDiscriminator_serialize {a : α} : Valid a → objectDiscriminator (serialize a) = some tag

/-- A struct that declares its `type`. -/
theorem Struct.tagged {S : Type} [Struct S] {tag : String}
    (htag : ∀ s : S, ("type", some (.string tag)) ∈ Struct.entries s) : Tagged tag S where
  objectDiscriminator_serialize {s} h := by
    have hget : (Struct.members s).get "type" = some (.string tag) := Struct.Sound.agree h _ (htag s)
    rw [Struct.Sound.serialize_eq h, objectDiscriminator, Value.asObject, Option.bind_eq_bind, Option.bind_some, hget]
    rfl

end OpenaiRs.Serde
