import OpenaiRs.Serde.Value

/-!
# Wire types

A type with a codec, and the codecs of the types that every wire struct is made of. Decoding may leave out
values of a type: what was decoded is valid, and what is valid is read back from what it is written as.

## Implementation notes

An enum of `open_string_enum!` is one type with its known values as parameter, a tag of `literal_tag!` one
type with the wire string as parameter. An error is not told apart from another error.
-/

namespace OpenaiRs.Serde

/-- A type with `Serialize` and `Deserialize`. -/
class Wire (α : Type) where
  serialize : α → Value
  deserialize : Value → Option α
  /-- What decoding guarantees of a value. -/
  Valid : α → Prop
  valid_of_deserialize {v : Value} {a : α} : deserialize v = some a → Valid a
  deserialize_serialize {a : α} : Valid a → deserialize (serialize a) = some a
  /-- A `null` is written for nothing else than a `null`. -/
  isNull_serialize {v : Value} {a : α} : deserialize v = some a → (serialize a).isNull = v.isNull

export Wire (serialize deserialize Valid)

variable {α : Type}

/-- Different valid values are written differently. -/
theorem Wire.serialize_injective [Wire α] {a b : α} (ha : Valid a) (hb : Valid b)
    (h : serialize a = serialize b) : a = b := by
  have hread := deserialize_serialize ha
  rw [h, deserialize_serialize hb] at hread
  exact (Option.some.inj hread).symm

instance Wire.value : Wire Value where
  serialize v := v
  deserialize := some
  Valid _ := True
  valid_of_deserialize _ := trivial
  deserialize_serialize _ := rfl
  isNull_serialize h := by rw [Option.some.inj h]

instance Wire.string : Wire String where
  serialize := .string
  deserialize := Value.asStr
  Valid _ := True
  valid_of_deserialize _ := trivial
  deserialize_serialize _ := rfl
  isNull_serialize {v _} h := by
    cases v with
    | string s => rfl
    | _ => cases h

instance Wire.bool : Wire Bool where
  serialize := .bool
  deserialize
    | .bool b => some b
    | _ => none
  Valid _ := True
  valid_of_deserialize _ := trivial
  deserialize_serialize _ := rfl
  isNull_serialize {v _} h := by
    cases v with
    | bool b => rfl
    | _ => cases h

instance Wire.u64 : Wire UInt64 where
  serialize n := .number (.posInt n)
  deserialize
    | .number n => n.asU64
    | _ => none
  Valid _ := True
  valid_of_deserialize _ := trivial
  deserialize_serialize _ := rfl
  isNull_serialize {v _} h := by
    cases v with
    | number n => rfl
    | _ => cases h

section Lists

variable [Wire α]

theorem mapM_deserialize_serialize {items : List α} (h : ∀ item ∈ items, Valid item) :
    (items.map serialize).mapM deserialize = some items := by
  induction items with
  | nil => rfl
  | cons item rest ih =>
      rw [List.map_cons, List.mapM_cons, Wire.deserialize_serialize (h item List.mem_cons_self),
        ih fun other hother => h other (List.mem_cons_of_mem item hother)]
      rfl

/-- Every item is read from the value in its place. -/
theorem forall₂_of_mapM_deserialize {values : List Value} {items : List α}
    (h : values.mapM deserialize = some items) :
    List.Forall₂ (fun v item => deserialize v = some item) values items := by
  induction values generalizing items with
  | nil =>
      rw [List.mapM_nil] at h
      cases h
      exact .nil
  | cons v rest ih =>
      rw [List.mapM_cons] at h
      obtain ⟨item, hitem, h⟩ := Option.bind_eq_some_iff.mp h
      obtain ⟨tail, htail, h⟩ := Option.bind_eq_some_iff.mp h
      cases h
      exact .cons hitem (ih htail)

theorem valid_of_forall₂ {values : List Value} {items : List α}
    (h : List.Forall₂ (fun v item => deserialize v = some item) values items) : ∀ item ∈ items, Valid item := by
  induction h with
  | nil => exact List.forall_mem_nil _
  | cons hitem _ ih => exact List.forall_mem_cons.mpr ⟨Wire.valid_of_deserialize hitem, ih⟩

instance Wire.list : Wire (List α) where
  serialize items := .array (items.map serialize)
  deserialize v := v.asArray.bind (List.mapM deserialize)
  Valid items := ∀ item ∈ items, Valid item
  valid_of_deserialize h := by
    obtain ⟨values, _, h⟩ := Option.bind_eq_some_iff.mp h
    exact valid_of_forall₂ (forall₂_of_mapM_deserialize h)
  deserialize_serialize h := mapM_deserialize_serialize h
  isNull_serialize {v _} h := by
    cases v with
    | array values => rfl
    | _ => cases h

instance Wire.nullable : Wire (Nullable α) where
  serialize
    | .null => .null
    | .value a => serialize a
  deserialize v := if v.isNull then some .null else (deserialize v).map .value
  Valid
    | .null => True
    | .value a => Valid a ∧ (serialize a).isNull = false
  valid_of_deserialize {v _} h := by
    split at h
    · cases h
      trivial
    · rename_i hnull
      obtain ⟨a, ha, rfl⟩ := Option.map_eq_some_iff.mp h
      exact ⟨valid_of_deserialize ha, (isNull_serialize ha).trans (Bool.eq_false_iff.mpr hnull)⟩
  deserialize_serialize {field} h := by
    cases field with
    | null => rfl
    | value a =>
        obtain ⟨ha, hnull⟩ := h
        rw [hnull, deserialize_serialize ha]
        rfl
  isNull_serialize {v _} h := by
    split at h
    · rename_i hnull
      cases h
      exact hnull.symm
    · obtain ⟨a, ha, rfl⟩ := Option.map_eq_some_iff.mp h
      exact isNull_serialize ha

end Lists

/-- A type of `literal_tag!`: the one value is written as `wire`. -/
inductive LiteralTag (wire : String) where
  | value

instance Wire.literalTag (wire : String) : Wire (LiteralTag wire) where
  serialize _ := .string wire
  deserialize
    | .string s => if s = wire then some .value else none
    | .object [(s, .null)] => if s = wire then some .value else none
    | _ => none
  Valid _ := True
  valid_of_deserialize _ := trivial
  deserialize_serialize {_} _ := if_pos rfl
  isNull_serialize {v _} h := by
    cases v with
    | null => cases h
    | _ => rfl

/-- An enum of `open_string_enum!` with the wire values it knows. -/
inductive OpenEnum (known : List String) where
  | known (wire : {wire // wire ∈ known})
  | unknown (raw : String)
  deriving DecidableEq

namespace OpenEnum

variable {names : List String}

def fromRaw (raw : String) : OpenEnum names := if h : raw ∈ names then .known ⟨raw, h⟩ else .unknown raw

def asStr : OpenEnum names → String
  | .known wire => wire
  | .unknown raw => raw

@[simp] theorem asStr_fromRaw (raw : String) : (fromRaw raw : OpenEnum names).asStr = raw := by
  rw [fromRaw]
  split
  · rfl
  · rfl

theorem fromRaw_known (wire : {wire // wire ∈ names}) : fromRaw wire = .known wire := dif_pos wire.2

instance wire : Wire (OpenEnum names) where
  serialize value := .string value.asStr
  deserialize v := v.asStr.map fromRaw
  Valid value := fromRaw value.asStr = value
  valid_of_deserialize h := by
    obtain ⟨raw, _, rfl⟩ := Option.map_eq_some_iff.mp h
    rw [asStr_fromRaw]
  deserialize_serialize h := congrArg some h
  isNull_serialize {v _} h := by
    cases v with
    | string s => rfl
    | _ => cases h

end OpenEnum

/-- A field of a derived struct: what it adds to the object and how it is read from what is under its key. -/
class Member (α : Type) where
  write : α → Option Value
  read : Option Value → Option α
  Valid : α → Prop
  valid_of_read {found : Option Value} {a : α} : read found = some a → Valid a
  read_write {a : α} : Valid a → read (write a) = some a

/-- A required field. -/
instance (priority := low) Member.required [Wire α] : Member α where
  write a := some (serialize a)
  read found := found.bind deserialize
  Valid a := Wire.Valid a
  valid_of_read h := by
    obtain ⟨v, _, hread⟩ := Option.bind_eq_some_iff.mp h
    exact Wire.valid_of_deserialize hread
  read_write h := Wire.deserialize_serialize h

/-- A field with `default` and `skip_serializing_if = "Omittable::is_omitted"`. -/
instance Member.omittable [Wire α] : Member (Omittable α) where
  write
    | .omitted => none
    | .value a => some (serialize a)
  read
    | none => some .omitted
    | some v => (deserialize v).map .value
  Valid
    | .omitted => True
    | .value a => Wire.Valid a
  valid_of_read {found _} h := by
    cases found with
    | none =>
        cases h
        trivial
    | some v =>
        obtain ⟨a, ha, rfl⟩ := Option.map_eq_some_iff.mp h
        exact Wire.valid_of_deserialize ha
  read_write {field} h := by
    cases field with
    | omitted => rfl
    | value a => exact congrArg (Option.map Omittable.value) (Wire.deserialize_serialize h)

namespace Member

variable [Wire α]

@[simp] theorem write_required (a : α) : Member.required.write a = some (serialize a) := rfl

@[simp] theorem write_omittable (a : α) : Member.write (Omittable.value a) = some (serialize a) := rfl

@[simp] theorem valid_required (a : α) : Member.required.Valid a ↔ Wire.Valid a := Iff.rfl

@[simp] theorem valid_omitted : Member.Valid (Omittable.omitted : Omittable α) := trivial

@[simp] theorem valid_omittable (a : α) : Member.Valid (Omittable.value a) ↔ Wire.Valid a := Iff.rfl

end Member

namespace Wire

@[simp] theorem serialize_string (s : String) : serialize s = .string s := rfl

@[simp] theorem valid_string (s : String) : Valid s := trivial

@[simp] theorem valid_literalTag {wire : String} (tag : LiteralTag wire) : Valid tag := trivial

@[simp] theorem serialize_openEnum {names : List String} (value : OpenEnum names) :
    serialize value = .string value.asStr := rfl

@[simp] theorem valid_nullable [Wire α] (a : α) :
    Valid (Nullable.value a) ↔ Valid a ∧ (serialize a).isNull = false := Iff.rfl

@[simp] theorem serialize_nullable [Wire α] (a : α) : serialize (Nullable.value a) = serialize a := rfl

@[simp] theorem serialize_literalTag {wire : String} (tag : LiteralTag wire) : serialize tag = .string wire := rfl

end Wire

end OpenaiRs.Serde
