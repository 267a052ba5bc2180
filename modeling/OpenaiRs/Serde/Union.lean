import OpenaiRs.Serde.Tagged

/-!
# Tagged unions

The unions of `tagged_union!`: the `type` of an object selects the variant whose payload is read from it, and an
object with a `type` that no variant has is retained verbatim.
-/

namespace OpenaiRs.Serde

/-- A variant of a tagged union: its wire string and what it carries. -/
structure Variant (U : Type) where
  tag : String
  Payload : Type
  wire : Wire Payload
  tagged : Tagged tag Payload
  inject : Payload → U

/-- `Variant(Payload) => "tag"`. -/
def Variant.of {U α : Type} [wire : Wire α] (tag : String) [tagged : Tagged tag α] (inject : α → U) : Variant U :=
  ⟨tag, α, wire, tagged, inject⟩

namespace Variant

variable {U : Type} {variant : Variant U} {rest : List (Variant U)}

/-- A value of the first variant. -/
theorem exists_head {u : U} {a : variant.Payload} (h : variant.inject a = u) :
    ∃ v ∈ variant :: rest, ∃ a : v.Payload, v.inject a = u :=
  ⟨variant, List.mem_cons_self, a, h⟩

/-- A value of a later variant. -/
theorem exists_tail {u : U} (h : ∃ v ∈ rest, ∃ a : v.Payload, v.inject a = u) :
    ∃ v ∈ variant :: rest, ∃ a : v.Payload, v.inject a = u := by
  obtain ⟨v, hmem, hinject⟩ := h
  exact ⟨v, List.mem_cons_of_mem _ hmem, hinject⟩

end Variant

/-- What a value of a union carries. -/
inductive Carried where
  | known {α : Type} [Wire α] (value : α)
  | unknown (value : UnknownTaggedObject)

namespace Carried

def serialize : Carried → Value
  | known value => Serde.serialize value
  | unknown value => value.intoValue

/-- What decoding guarantees: an unknown object has none of the known tags. -/
def Valid (tags : List String) : Carried → Prop
  | known value => Serde.Valid value
  | unknown value => value.discriminator ∉ tags

end Carried

class TaggedUnion (U : Type) where
  variants : List (Variant U)
  unknown : UnknownTaggedObject → U
  carried : U → Carried
  nodup_tags : (variants.map Variant.tag).Nodup := by simp [Variant.of]
  carried_inject : ∀ variant ∈ variants, ∀ a : variant.Payload,
    carried (variant.inject a) = @Carried.known variant.Payload variant.wire a := by
    repeat refine List.forall_mem_cons.mpr ⟨fun _ => rfl, ?_⟩
    exact List.forall_mem_nil _
  carried_unknown (value : UnknownTaggedObject) : carried (unknown value) = .unknown value := by intros; rfl
  exhaustive (u : U) : (∃ variant ∈ variants, ∃ a : variant.Payload, variant.inject a = u) ∨
    ∃ value : UnknownTaggedObject, unknown value = u := by
    intro u
    -- A constructor is `unknown` or injects one of the variants.
    cases u <;> first
      | exact .inr ⟨_, rfl⟩
      | exact .inl (by repeat first | exact Variant.exists_head rfl | apply Variant.exists_tail)

namespace TaggedUnion

variable {U : Type} [TaggedUnion U]

/-- The wire strings of the variants. -/
def tags (U : Type) [TaggedUnion U] : List String := (variants (U := U)).map Variant.tag

def read (variant : Variant U) (v : Value) : Option U := (variant.wire.deserialize v).map variant.inject

def deserialize (v : Value) : Option U := do
  let discriminator ← objectDiscriminator v
  match variants.find? (·.tag = discriminator) with
  | some variant => read variant v
  | none => (UnknownTaggedObject.fromValue v).map unknown

/-- An object with a known tag. -/
theorem deserialize_of_mem {variant : Variant U} (hmem : variant ∈ variants) {v : Value}
    (htag : objectDiscriminator v = some variant.tag) : deserialize v = read variant v := by
  have hfind : variants.find? (·.tag = variant.tag) = some variant := by
    have hsome : (variants.find? fun other : Variant U => other.tag = variant.tag).isSome := by
      rw [List.find?_isSome]
      exact ⟨variant, hmem, decide_eq_true rfl⟩
    obtain ⟨found, hfound⟩ := Option.isSome_iff_exists.mp hsome
    have hsame : found = variant := List.inj_on_of_nodup_map nodup_tags (List.mem_of_find?_eq_some hfound) hmem
      (of_decide_eq_true (List.find?_some (p := fun other : Variant U => other.tag = variant.tag) hfound))
    rw [hfound, hsame]
  rw [deserialize, htag, Option.bind_eq_bind, Option.bind_some, hfind]

/-- What a type with a known tag writes is read as the payload of the variant with this tag. -/
theorem exists_payload {α β : Type} [Wire α] [Wire β] {tag : String} [Tagged tag α] [Tagged tag β] {inject : β → U}
    (hmem : Variant.of tag inject ∈ variants) {a : α} (ha : Valid a) {u : U} (h : deserialize (serialize a) = some u) :
    ∃ b : β, Serde.deserialize (serialize a) = some b ∧ u = inject b := by
  rw [deserialize_of_mem hmem (Tagged.objectDiscriminator_serialize ha)] at h
  obtain ⟨b, hb, rfl⟩ := Option.map_eq_some_iff.mp h
  exact ⟨b, hb, rfl⟩

/-- An object with a tag that no variant has. -/
theorem deserialize_intoValue {value : UnknownTaggedObject} (h : value.discriminator ∉ tags U) :
    deserialize value.intoValue = some (unknown value : U) := by
  have hfind : variants.find? (fun variant : Variant U => variant.tag = value.discriminator) = none := by
    refine List.find?_eq_none.mpr fun variant hmem heq => h ?_
    exact of_decide_eq_true heq ▸ List.mem_map_of_mem hmem
  rw [deserialize, UnknownTaggedObject.objectDiscriminator_intoValue, Option.bind_eq_bind, Option.bind_some, hfind,
    UnknownTaggedObject.fromValue_intoValue]
  rfl

theorem valid_of_deserialize {v : Value} {u : U} (h : deserialize v = some u) : (carried u).Valid (tags U) := by
  obtain ⟨discriminator, htag, h⟩ := Option.bind_eq_some_iff.mp h
  split at h
  · rename_i variant hfind
    obtain ⟨a, ha, rfl⟩ := Option.map_eq_some_iff.mp h
    rw [carried_inject variant (List.mem_of_find?_eq_some hfind)]
    exact variant.wire.valid_of_deserialize ha
  · rename_i hfind
    obtain ⟨value, hvalue, rfl⟩ := Option.map_eq_some_iff.mp h
    have hdiscriminator : value.discriminator = discriminator := by
      rw [← UnknownTaggedObject.intoValue_of_fromValue hvalue,
        UnknownTaggedObject.objectDiscriminator_intoValue] at htag
      exact Option.some.inj htag
    rw [carried_unknown]
    intro hmem
    obtain ⟨variant, hvariant, heq⟩ := List.mem_map.mp hmem
    exact List.find?_eq_none.mp hfind variant hvariant (decide_eq_true (heq.trans hdiscriminator))

theorem deserialize_serialize {u : U} (h : (carried u).Valid (tags U)) : deserialize (carried u).serialize = some u := by
  obtain ⟨variant, hmem, a, rfl⟩ | ⟨value, rfl⟩ := exhaustive u
  · rw [carried_inject variant hmem] at h ⊢
    have htag := variant.tagged.objectDiscriminator_serialize h
    rw [Carried.serialize, deserialize_of_mem hmem htag, read, variant.wire.deserialize_serialize h]
    rfl
  · rw [carried_unknown] at h ⊢
    exact deserialize_intoValue h

/-- What is read from an object is written as an object. -/
theorem isNull_serialize {v : Value} {u : U} (h : deserialize v = some u) :
    (carried u).serialize.isNull = v.isNull := by
  have hvalid := valid_of_deserialize h
  obtain ⟨discriminator, htag, h⟩ := Option.bind_eq_some_iff.mp h
  have hobject : ∀ w : Value, ∀ tag, objectDiscriminator w = some tag → w.isNull = false := by
    intro w tag hw
    cases w with
    | object members => rfl
    | _ => cases hw
  rw [hobject v discriminator htag]
  obtain ⟨variant, hmem, a, rfl⟩ | ⟨value, rfl⟩ := exhaustive u
  · rw [carried_inject variant hmem] at hvalid ⊢
    exact hobject _ _ (variant.tagged.objectDiscriminator_serialize hvalid)
  · rw [carried_unknown]
    rfl

/-- What is read keeps its tag. -/
theorem objectDiscriminator_of_deserialize {v : Value} {u : U} (h : deserialize v = some u) :
    objectDiscriminator (carried u).serialize = objectDiscriminator v := by
  obtain ⟨discriminator, htag, h⟩ := Option.bind_eq_some_iff.mp h
  split at h
  · rename_i variant hfind
    obtain ⟨a, ha, rfl⟩ := Option.map_eq_some_iff.mp h
    rw [carried_inject variant (List.mem_of_find?_eq_some hfind), htag]
    have hsame : variant.tag = discriminator :=
      of_decide_eq_true (List.find?_some (p := fun other : Variant U => other.tag = discriminator) hfind)
    rw [← hsame]
    exact variant.tagged.objectDiscriminator_serialize (variant.wire.valid_of_deserialize ha)
  · obtain ⟨value, hvalue, rfl⟩ := Option.map_eq_some_iff.mp h
    rw [carried_unknown]
    exact congrArg objectDiscriminator (UnknownTaggedObject.intoValue_of_fromValue hvalue)

instance wire : Wire U where
  serialize u := (carried u).serialize
  deserialize := deserialize
  Valid u := (carried u).Valid (tags U)
  valid_of_deserialize := valid_of_deserialize
  deserialize_serialize := deserialize_serialize
  isNull_serialize := isNull_serialize

end TaggedUnion

end OpenaiRs.Serde
