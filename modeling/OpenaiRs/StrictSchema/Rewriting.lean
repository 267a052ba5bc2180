import Mathlib.Data.List.Forall2
import OpenaiRs.StrictSchema.Positions

/-!
# What a normalized schema is made of

What each pass yields, and from it the positions of a normalized document: they are the positions that
`Derives` gives for the document before, and each holds a normalized schema.
-/

namespace OpenaiRs.StrictSchema

open Serde Fallible

section Nodes

variable {recur : NodePass} {R : Value → Value → Prop} {path : String} {object object' schemas schemas' : Map}

/-- What the loop over the members of a schema does with one of them. -/
inductive MemberSpec (R : Value → Value → Prop) : String → Value → Value → Prop
  | schemas {key : String} {children children' : Map} : key = "$defs" ∨ key = "definitions" →
      Map.Pairs (fun _ => R) children children' → MemberSpec R key (.object children) (.object children')
  | variants {children children' : List Value} : List.Forall₂ R children children' →
      MemberSpec R "anyOf" (.array children) (.array children')
  | item {child child' : Value} : (∃ object, child = .object object) ∨ (∃ b, child = .bool b) → R child child' →
      MemberSpec R "items" child child'
  | other {key : String} {child : Value} : key ≠ "$defs" → key ≠ "definitions" → key ≠ "anyOf" →
      key ≠ "items" → MemberSpec R key child child

/-- The names of the properties of a schema. -/
def propertyNames (object : Map) : List String :=
  match object.get "properties" with
  | some (.object properties) => properties.map Prod.fst
  | _ => []

theorem propertyNames_congr (h : object.get "properties" = object'.get "properties") :
    propertyNames object = propertyNames object' := by
  rw [propertyNames, propertyNames, h]

theorem prepareProperties_congr (h : object'.get "required" = object.get "required") :
    prepareProperties object' = prepareProperties object := by
  funext properties
  rw [prepareProperties, prepareProperties, previousRequired, previousRequired, h]

/-- What the loop over the properties makes of `properties`. -/
inductive PropertiesSpec (R : Value → Value → Prop) (object : Map) : Value → Value → Prop
  | schemas {properties properties' : Map} :
      Map.Pairs (fun _ => R) (prepareProperties object properties) properties' →
      PropertiesSpec R object (.object properties) (.object properties')
  | other {value : Value} : (∀ properties, value ≠ .object properties) → PropertiesSpec R object value value

theorem PropertiesSpec.congr (hprepare : prepareProperties object = prepareProperties object') :
    PropertiesSpec R object = PropertiesSpec R object' := by
  funext value value'
  apply propext
  constructor
  · rintro (hpairs | hother)
    · exact .schemas (hprepare ▸ hpairs)
    · exact .other hother
  · rintro (hpairs | hother)
    · exact .schemas (hprepare ▸ hpairs)
    · exact .other hother

/-- What `normalize_object` does with an object schema. -/
structure ObjectSpec (R : Value → Value → Prop) (object object' : Map) : Prop where
  additional : object'.get "additionalProperties" = some (.bool false)
  required : object'.get "required" = some (.array ((propertyNames object').map .string))
  properties : Option.Rel (PropertiesSpec R object) (object.get "properties") (object'.get "properties")
  other : ∀ key, key ≠ "additionalProperties" → key ≠ "required" → key ≠ "properties" →
    object'.get key = object.get key

theorem normalizeSchemas_pairs (hrecur : ∀ path child u, (recur path child).Yields u → R child u)
    (h : (normalizeSchemas recur path schemas).Yields schemas') : Map.Pairs (fun _ => R) schemas schemas' := by
  refine (Pass.yields_traverse h).imp ?_
  intro member member' hmember
  obtain ⟨schema, hschema, hdone⟩ := Pass.yields_bind hmember
  rw [Pass.yields_done hdone]
  exact ⟨rfl, hrecur _ _ _ hschema⟩

theorem normalizeMember_spec (hrecur : ∀ path child u, (recur path child).Yields u → R child u)
    {member member' : String × Value} (h : (normalizeMember recur path member).Yields member') :
    member'.1 = member.1 ∧ MemberSpec R member.1 member.2 member'.2 := by
  obtain ⟨key, child⟩ := member
  rw [normalizeMember.eq_def] at h
  simp only at h
  split at h
  · rename_i hkey
    split at h
    · obtain ⟨children, hchildren, hdone⟩ := Pass.yields_bind h
      rw [Pass.yields_done hdone]
      exact ⟨rfl, .schemas hkey (normalizeSchemas_pairs hrecur hchildren)⟩
    · exact absurd h Pass.not_yields_fail
  · rename_i hdefs
    split at h
    · rename_i hkey
      split at h
      · rename_i items
        obtain ⟨children, hchildren, hdone⟩ := Pass.yields_bind h
        rw [Pass.yields_done hdone]
        have hrel : List.Forall₂ (fun item u => R item.1 u) items.zipIdx children :=
          (Pass.yields_traverse hchildren).imp fun _ _ hitem => hrecur _ _ _ hitem
        have hitems : List.Forall₂ R items children := by
          rw [← List.zipIdx_map_fst 0 items]
          exact List.forall₂_map_left_iff.mpr hrel
        refine ⟨rfl, ?_⟩
        rw [hkey]
        exact .variants hitems
      · exact absurd h Pass.not_yields_fail
    · rename_i hanyOf
      split at h
      · rename_i hkey
        split at h
        · obtain ⟨child', hchild, hdone⟩ := Pass.yields_bind h
          rw [Pass.yields_done hdone]
          refine ⟨rfl, ?_⟩
          rw [hkey]
          exact .item (.inl ⟨_, rfl⟩) (hrecur _ _ _ hchild)
        · obtain ⟨child', hchild, hdone⟩ := Pass.yields_bind h
          rw [Pass.yields_done hdone]
          refine ⟨rfl, ?_⟩
          rw [hkey]
          exact .item (.inr ⟨_, rfl⟩) (hrecur _ _ _ hchild)
        · exact absurd h Pass.not_yields_fail
      · rename_i hitems
        rw [Pass.yields_done h]
        exact ⟨rfl, .other (fun heq => hdefs (.inl heq)) (fun heq => hdefs (.inr heq)) hanyOf hitems⟩

theorem closeObject_spec (h : (closeObject path object).Yields object') :
    object'.get "additionalProperties" = some (.bool false) ∧
      ∀ key, key ≠ "additionalProperties" → object'.get key = object.get key := by
  rw [closeObject] at h
  split at h
  · rw [Pass.yields_done h]
    refine ⟨Map.get_insert_self _ _ _, fun key hkey => ?_⟩
    rw [Map.get_insert, if_neg (Ne.symm hkey)]
  · rename_i hfalse
    rw [Pass.yields_done h]
    exact ⟨hfalse, fun _ _ => rfl⟩
  · exact absurd h Pass.not_yields_fail

theorem normalizeProperties_spec (hrecur : ∀ path child u, (recur path child).Yields u → R child u)
    {names : List String} (h : (normalizeProperties recur path object).Yields (object', names)) :
    names = propertyNames object' ∧
      Option.Rel (PropertiesSpec R object) (object.get "properties") (object'.get "properties") ∧
      ∀ key, key ≠ "properties" → object'.get key = object.get key := by
  rw [normalizeProperties] at h
  split at h
  · rename_i properties hproperties
    obtain ⟨properties', hpairs, hdone⟩ := Pass.yields_bind h
    cases Pass.yields_done hdone
    have hself : (object.insert "properties" (.object properties')).get "properties" = some (.object properties') :=
      Map.get_insert_self _ _ _
    refine ⟨?_, ?_, ?_⟩
    · rw [propertyNames, hself]
    · rw [hproperties, hself]
      exact .some (.schemas (normalizeSchemas_pairs hrecur hpairs))
    · intro key hkey
      rw [Map.get_insert, if_neg (Ne.symm hkey)]
  · rename_i hother
    cases Pass.yields_done h
    refine ⟨?_, ?_, fun _ _ => rfl⟩
    · rw [propertyNames]
      split
      · rename_i properties hproperties
        exact absurd hproperties (hother properties)
      · rfl
    · cases hvalue : object.get "properties" with
      | none => exact .none
      | some value =>
          refine .some (.other ?_)
          rintro properties rfl
          exact hother properties hvalue

theorem normalizeObject_spec (hrecur : ∀ path child u, (recur path child).Yields u → R child u)
    (h : (normalizeObject recur path object).Yields object') : ObjectSpec R object object' := by
  obtain ⟨closed, hclosed, hrest⟩ := Pass.yields_bind h
  obtain ⟨⟨object1, names⟩, hproperties, hdone⟩ := Pass.yields_bind hrest
  obtain ⟨hadditional, hclosedOther⟩ := closeObject_spec hclosed
  obtain ⟨rfl, hspec, hother⟩ := normalizeProperties_spec hrecur hproperties
  rw [Pass.yields_done hdone]
  have hget : ∀ key, key ≠ "required" →
      (object1.insert "required" (.array ((propertyNames object1).map .string))).get key = object1.get key := by
    intro key hkey
    rw [Map.get_insert, if_neg (Ne.symm hkey)]
  have hprepare : prepareProperties closed = prepareProperties object :=
    prepareProperties_congr (hclosedOther "required" (by decide))
  have hsame : propertyNames (object1.insert "required" (.array ((propertyNames object1).map .string))) =
      propertyNames object1 := propertyNames_congr (hget "properties" (by decide))
  exact {
    additional := by
      rw [hget "additionalProperties" (by decide), hother "additionalProperties" (by decide)]
      exact hadditional
    required := by
      rw [hsame]
      exact Map.get_insert_self _ _ _
    properties := by
      rw [hget "properties" (by decide), ← hclosedOther "properties" (by decide)]
      exact PropertiesSpec.congr hprepare ▸ hspec
    other := by
      intro key hadditional hrequired hproperties
      rw [hget key hrequired, hother key hproperties, hclosedOther key hadditional] }

/-- The keys that the normalization of a schema without a reference rewrites. -/
def rewrittenKeys : List String :=
  ["additionalProperties", "required", "properties", "$defs", "definitions", "anyOf", "items"]

/-- What becomes of a schema without a reference. -/
structure NodeSpec (R : Value → Value → Prop) (object object' : Map) : Prop where
  child : ∀ step, Option.Rel R (preparedChild object step) (childAt object' step)
  other : ∀ key, key ∉ rewrittenKeys → object'.get key = object.get key
  isObject : schemaIsObject object' = schemaIsObject object
  closed : schemaIsObject object' = true → object'.get "additionalProperties" = some (.bool false) ∧
    object'.get "required" = some (.array ((propertyNames object').map .string))
  members : ∀ key ∈ ["$defs", "definitions", "anyOf", "items"],
    Option.Rel (MemberSpec R key) (object.get key) (object'.get key)
  properties : Option.Rel (PropertiesSpec R object) (object.get "properties") (object'.get "properties")
  unclosed : schemaIsObject object = false → object'.get "additionalProperties" = object.get "additionalProperties" ∧
    object'.get "required" = object.get "required"

/-- Where a member of the result comes from. -/
theorem NodeSpec.exists_member (h : NodeSpec R object object') {key : String}
    (hkey : key ∈ ["$defs", "definitions", "anyOf", "items"]) {value' : Value} (hvalue : object'.get key = some value') :
    ∃ value, MemberSpec R key value value' := by
  have hrel := h.members key hkey
  rw [hvalue] at hrel
  generalize object.get key = value at hrel
  cases hrel with
  | some hspec => exact ⟨_, hspec⟩

/-- The passes over a schema without a reference. -/
theorem normalizeNode_spec (hrecur : ∀ path child u, (recur path child).Yields u → R child u)
    (h : (normalizeNode recur path object).Yields object') :
    ∃ object1, Map.Pairs (MemberSpec R) object1 object' ∧
      ((schemaIsObject object = true ∧ ObjectSpec R object object1) ∨
        (schemaIsObject object = false ∧ object1 = object)) := by
  have hloop : ∀ {object1}, (Pass.traverse (normalizeMember recur path) object1).Yields object' →
      Map.Pairs (MemberSpec R) object1 object' :=
    fun hmembers => (Pass.yields_traverse hmembers).imp fun _ _ => normalizeMember_spec hrecur
  rw [normalizeNode] at h
  split at h
  · rename_i hisObject
    obtain ⟨object1, hobject, hmembers⟩ := Pass.yields_bind h
    exact ⟨object1, hloop hmembers, .inl ⟨hisObject, normalizeObject_spec hrecur hobject⟩⟩
  · rename_i hnot
    obtain ⟨object1, hobject, hmembers⟩ := Pass.yields_bind h
    exact ⟨object1, hloop hmembers, .inr ⟨by simpa using hnot, Pass.yields_done hobject⟩⟩

/-- A member that the loop leaves alone. -/
theorem get_of_pairs {object1 : Map} (hpairs : Map.Pairs (MemberSpec R) object1 object') {key : String}
    (hkey : key ∉ ["$defs", "definitions", "anyOf", "items"]) : object'.get key = object1.get key := by
  have hrel := hpairs.get key
  generalize object1.get key = value at hrel
  generalize object'.get key = value' at hrel
  cases hrel with
  | none => rfl
  | some hspec =>
      cases hspec with
      | schemas hdefs _ => simp at hkey; tauto
      | variants _ => simp at hkey
      | item _ _ => simp at hkey
      | other _ _ _ _ => rfl

theorem MemberSpec.of_defs {key : String} {value value' : Value} (h : MemberSpec R key value value')
    (hkey : key = "$defs" ∨ key = "definitions") : ∃ children children', value = .object children ∧
      value' = .object children' ∧ Map.Pairs (fun _ => R) children children' := by
  cases h with
  | schemas _ hpairs => exact ⟨_, _, rfl, rfl, hpairs⟩
  | variants _ => exact absurd hkey (by decide)
  | item _ _ => exact absurd hkey (by decide)
  | other hdefs hdefinitions _ _ => exact absurd hkey (by simp [hdefs, hdefinitions])

theorem MemberSpec.of_anyOf {key : String} {value value' : Value} (h : MemberSpec R key value value')
    (hkey : key = "anyOf") : ∃ children children', value = .array children ∧ value' = .array children' ∧
      List.Forall₂ R children children' := by
  cases h with
  | schemas hdefs _ => exact absurd hdefs (by simp [hkey])
  | variants hchildren => exact ⟨_, _, rfl, rfl, hchildren⟩
  | item _ _ => exact absurd hkey (by decide)
  | other _ _ hanyOf _ => exact absurd hkey hanyOf

theorem MemberSpec.of_items {key : String} {value value' : Value} (h : MemberSpec R key value value')
    (hkey : key = "items") :
    ((∃ object, value = .object object) ∨ ∃ b, value = .bool b) ∧ R value value' := by
  cases h with
  | schemas hdefs _ => exact absurd hdefs (by simp [hkey])
  | variants _ => exact absurd hkey (by decide)
  | item hshape hrel => exact ⟨hshape, hrel⟩
  | other _ _ _ hitems => exact absurd hkey hitems

/-- Related maps of schemas have related members. -/
theorem rel_member {value value' : Option Value} (name : String) (key : String)
    (hkey : key = "$defs" ∨ key = "definitions") (h : Option.Rel (MemberSpec R key) value value') :
    Option.Rel R ((value.bind Value.asObject).bind fun schemas => Map.get schemas name)
      ((value'.bind Value.asObject).bind fun schemas => Map.get schemas name) := by
  cases h with
  | none => exact .none
  | some hspec =>
      obtain ⟨children, children', rfl, rfl, hpairs⟩ := hspec.of_defs hkey
      exact hpairs.get name

theorem forall₂_getElem? {children children' : List Value} (h : List.Forall₂ R children children') (index : Nat) :
    Option.Rel R children[index]? children'[index]? := by
  induction h generalizing index with
  | nil => exact .none
  | cons hrel _ ih =>
      cases index with
      | zero => exact .some hrel
      | succ index => exact ih index

theorem rel_variant {value value' : Option Value} (index : Nat)
    (h : Option.Rel (MemberSpec R "anyOf") value value') :
    Option.Rel R ((value.bind Value.asArray).bind fun variants => variants[index]?)
      ((value'.bind Value.asArray).bind fun variants => variants[index]?) := by
  cases h with
  | none => exact .none
  | some hspec =>
      obtain ⟨children, children', rfl, rfl, hchildren⟩ := hspec.of_anyOf rfl
      exact forall₂_getElem? hchildren index

theorem rel_property {value value' : Option Value} (name : String)
    (h : Option.Rel (PropertiesSpec R object) value value') :
    Option.Rel R ((value.bind Value.asObject).bind fun properties =>
        Map.get (prepareProperties object properties) name)
      ((value'.bind Value.asObject).bind fun schemas => Map.get schemas name) := by
  cases h with
  | none => exact .none
  | some hspec =>
      cases hspec with
      | schemas hpairs => exact hpairs.get name
      | other hother =>
          rename_i other
          cases other with
          | object members => exact absurd rfl (hother members)
          | _ => exact .none

/-- A schema without a reference, and what the passes make of it. -/
theorem nodeSpec_of_passes {object1 : Map} (hpairs : Map.Pairs (MemberSpec R) object1 object')
    (hobject : (schemaIsObject object = true ∧ ObjectSpec R object object1) ∨
      (schemaIsObject object = false ∧ object1 = object)) : NodeSpec R object object' := by
  have hkeep : ∀ key, key ≠ "additionalProperties" → key ≠ "required" → key ≠ "properties" →
      object1.get key = object.get key := by
    intro key hadditional hrequired hproperties
    obtain ⟨-, hspec⟩ | ⟨-, rfl⟩ := hobject
    · exact hspec.other key hadditional hrequired hproperties
    · rfl
  have hrel : ∀ key, key ≠ "additionalProperties" → key ≠ "required" → key ≠ "properties" →
      Option.Rel (MemberSpec R key) (object.get key) (object'.get key) := by
    intro key hadditional hrequired hproperties
    rw [← hkeep key hadditional hrequired hproperties]
    exact hpairs.get key
  have hother : ∀ key, key ∉ rewrittenKeys → object'.get key = object.get key := by
    intro key hkey
    simp only [rewrittenKeys, List.mem_cons, List.not_mem_nil, or_false, not_or] at hkey
    rw [get_of_pairs hpairs (by simp [hkey]), hkeep key hkey.1 hkey.2.1 hkey.2.2.1]
  have hproperties : Option.Rel (PropertiesSpec R object) (object.get "properties") (object'.get "properties") := by
    rw [get_of_pairs hpairs (by decide)]
    obtain ⟨-, hspec⟩ | ⟨hnot, rfl⟩ := hobject
    · exact hspec.properties
    · rw [schemaIsObject, Map.containsKey_eq_isSome, Bool.or_eq_false_iff] at hnot
      have hnone : object1.get "properties" = none := by simpa using hnot.1
      rw [hnone]
      exact .none
  have hisObject : schemaIsObject object' = schemaIsObject object := by
    have hsome : (object'.get "properties").isSome = (object.get "properties").isSome := by
      generalize object.get "properties" = value at hproperties
      generalize object'.get "properties" = value' at hproperties
      cases hproperties with
      | none => rfl
      | some _ => rfl
    rw [schemaIsObject, schemaIsObject, Map.containsKey_eq_isSome, Map.containsKey_eq_isSome, hsome,
      hother "type" (by decide)]
  exact {
    child := by
      intro step
      cases step with
      | member keyword name =>
          cases keyword with
          | properties => exact rel_property name hproperties
          | defs => exact rel_member name "$defs" (.inl rfl) (hrel _ (by decide) (by decide) (by decide))
          | definitions => exact rel_member name "definitions" (.inr rfl) (hrel _ (by decide) (by decide) (by decide))
      | anyOf index => exact rel_variant index (hrel _ (by decide) (by decide) (by decide))
      | items =>
          have hitems := hrel "items" (by decide) (by decide) (by decide)
          change Option.Rel R (object.get "items") (object'.get "items")
          generalize object.get "items" = value at hitems ⊢
          generalize object'.get "items" = value' at hitems ⊢
          cases hitems with
          | none => exact .none
          | some hspec => exact .some (hspec.of_items rfl).2
    other := hother
    isObject := hisObject
    closed := by
      intro h
      rw [hisObject] at h
      obtain ⟨-, hspec⟩ | ⟨hnot, -⟩ := hobject
      · rw [get_of_pairs hpairs (by decide), get_of_pairs hpairs (by decide),
          propertyNames_congr (get_of_pairs hpairs (by decide))]
        exact ⟨hspec.additional, hspec.required⟩
      · rw [hnot] at h
        cases h
    members := by
      intro key hkey
      have hdistinct : ∀ key ∈ ["$defs", "definitions", "anyOf", "items"],
          key ≠ "additionalProperties" ∧ key ≠ "required" ∧ key ≠ "properties" := by decide
      obtain ⟨hadditional, hrequired, hproperties⟩ := hdistinct key hkey
      exact hrel key hadditional hrequired hproperties
    properties := hproperties
    unclosed := by
      intro hopen
      obtain ⟨hclosed, -⟩ | ⟨-, rfl⟩ := hobject
      · rw [hopen] at hclosed
        cases hclosed
      · exact ⟨get_of_pairs hpairs (by decide), get_of_pairs hpairs (by decide)⟩ }

end Nodes

section Documents

variable {base : Value} {render : Value → String} {chain chain' : List String} {value value' u : Value}
  {object : Map} {fuel : Nat} {path : String} {reference : String}

/-- No keyword outside the subset. -/
def Supported (object : Map) : Prop := ∀ keyword ∈ unsupportedKeywords, object.containsKey keyword = false

/-- The aliases from a reference on end with a schema, and none of them has been seen. -/
inductive AliasEnds (base : Value) : List String → String → Prop
  | last {seen : List String} {current : String} {resolved : Map} : current ∉ seen →
      (resolveRef base current).bind Value.asObject = some resolved → resolved.get "$ref" = none →
      AliasEnds base seen current
  | next {seen : List String} {current next : String} {resolved : Map} : current ∉ seen →
      (resolveRef base current).bind Value.asObject = some resolved →
      resolved.get "$ref" = some (.string next) → AliasEnds base (current :: seen) next → AliasEnds base seen current

/-- Both are objects, or they are the same. -/
def SameKind (value u : Value) : Prop :=
  (∃ object : Map, value = .object object ∧ ∃ object' : Map, u = .object object') ∨
    ((∀ object : Map, value ≠ .object object) ∧ u = value)

/-- What `normalize` makes of a value. -/
def Normalizes (base : Value) (render : Value → String) (chain : List String) (value u : Value) : Prop :=
  ∃ fuel path, (normalize base render fuel path chain value).Yields u

/-- What becomes of a value that is not replaced. -/
inductive Settled (R : Value → Value → Prop) : Value → Value → Prop
  | scalar {value : Value} : (∀ object : Map, value ≠ .object object) → Settled R value value
  | bare {object : Map} {reference : String} : Supported object → object.get "$ref" = some (.string reference) →
      isLocal reference = true → object.length = 1 → Settled R (.object object) (.object object)
  | node {object object' : Map} : Supported object → object.get "$ref" = none → NodeSpec R object object' →
      Settled R (.object object) (.object object')

theorem aliasLoop_ends {seen : List String} (h : (aliasLoop base render path fuel seen reference).Yields ()) :
    AliasEnds base seen reference := by
  induction fuel generalizing seen reference with
  | zero => exact absurd h Pass.not_yields_diverge
  | succ fuel ih =>
      rw [aliasLoop] at h
      split at h
      · exact absurd h Pass.not_yields_fail
      · rename_i hnew
        split at h
        · split at h
          · exact absurd h Pass.not_yields_fail
          · rename_i resolved hresolved
            split at h
            · rename_i hnone
              exact .last hnew hresolved hnone
            · rename_i next hnext
              exact .next hnew hresolved hnext (ih h)
            · exact absurd h Pass.not_yields_fail
        · exact absurd h Pass.not_yields_fail

/-- A node with a reference stays as it is or is replaced. -/
theorem followRef_cases {node : Value} (hnode : object.get "$ref" = some node)
    {next : Option (List String × Value)}
    (h : (followRef base render fuel path chain object node).Yields next) :
    ∃ reference, node = .string reference ∧ isLocal reference = true ∧ AliasEnds base [] reference ∧
      ((next = none ∧ object.length = 1) ∨
        ∃ chain' value', next = some (chain', value') ∧ Follows base chain object chain' value') := by
  rw [followRef.eq_def] at h
  split at h
  · rename_i reference
    split at h
    · rename_i hlocal
      split at h
      · exact absurd h Pass.not_yields_fail
      · rename_i resolved hresolved
        obtain ⟨⟨⟩, hvalidated, hrest⟩ := Pass.yields_bind h
        refine ⟨reference, rfl, hlocal, aliasLoop_ends hvalidated, ?_⟩
        split at hrest
        · rename_i hlength
          exact .inl ⟨Pass.yields_done hrest, hlength⟩
        · rename_i hlength
          split at hrest
          · rename_i hchain
            split at hrest
            · exact absurd hrest Pass.not_yields_fail
            · exact .inr ⟨_, _, Pass.yields_done hrest, .recursive hnode hlength hresolved hchain⟩
          · rename_i hchain
            obtain ⟨within, -, hcharged⟩ := Pass.yields_bind hrest
            split at hcharged
            · exact .inr ⟨_, _, Pass.yields_done hcharged, .inline hnode hlength hresolved hchain⟩
            · exact absurd hcharged Pass.not_yields_fail
    · exact absurd h Pass.not_yields_fail
  · exact absurd h Pass.not_yields_fail

/-- One round of `normalize`. -/
theorem normalize_cases (h : (normalize base render (fuel + 1) path chain value).Yields u) :
    Settled (Normalizes base render chain) value u ∨
      ∃ (object : Map) (chain' : List String) (value' : Value), value = .object object ∧
        Follows base chain object chain' value' ∧ (normalize base render fuel path chain' value').Yields u := by
  cases value with
  | object object =>
      rw [normalize] at h
      split at h
      · exact absurd h Pass.not_yields_fail
      · rename_i hsupported
        have hsupported : Supported object := by
          intro keyword hmem
          simpa using List.find?_eq_none.mp hsupported keyword hmem
        split at h
        · rename_i node hnode
          obtain ⟨next, hnext, hrest⟩ := Pass.yields_bind h
          obtain ⟨reference, rfl, hlocal, -, hcases⟩ := followRef_cases hnode hnext
          obtain ⟨rfl, hlength⟩ | ⟨chain', value', rfl, hfollows⟩ := hcases
          · rw [Pass.yields_done hrest]
            exact .inl (.bare hsupported hnode hlocal hlength)
          · exact .inr ⟨object, chain', value', rfl, hfollows, hrest⟩
        · rename_i hnone
          obtain ⟨object', hobject, hdone⟩ := Pass.yields_bind h
          rw [Pass.yields_done hdone]
          obtain ⟨object1, hpairs, hpasses⟩ := normalizeNode_spec (R := Normalizes base render chain)
            (fun path child u hchild => ⟨fuel, path, hchild⟩) hobject
          exact .inl (.node hsupported hnone (nodeSpec_of_passes hpairs hpasses))
  | _ =>
      rw [Pass.yields_done h]
      exact .inl (.scalar (by simp))

/-- The aliases of every reference that is met have been followed to their end. -/
theorem Normalizes.aliasEnds (h : Normalizes base render chain (.object object) u)
    (href : object.get "$ref" = some (.string reference)) : AliasEnds base [] reference := by
  obtain ⟨fuel, path, h⟩ := h
  cases fuel with
  | zero => exact absurd h Pass.not_yields_diverge
  | succ fuel =>
      rw [normalize] at h
      split at h
      · exact absurd h Pass.not_yields_fail
      · simp only [href] at h
        obtain ⟨next, hnext, -⟩ := Pass.yields_bind h
        obtain ⟨_, hreference, -, hends, -⟩ := followRef_cases href hnext
        cases hreference
        exact hends

/-- What a value is normalized to is what becomes of the node that replaces it in the end. -/
theorem Normalizes.unfolds (h : Normalizes base render chain value u) :
    ∃ chain' value', Unfolds base chain value chain' value' ∧ Settled (Normalizes base render chain') value' u := by
  obtain ⟨fuel, path, h⟩ := h
  induction fuel generalizing path chain value with
  | zero => exact absurd h Pass.not_yields_diverge
  | succ fuel ih =>
      obtain hsettled | ⟨object, chain', value', rfl, hfollows, hrest⟩ := normalize_cases h
      · exact ⟨chain, value, .here, hsettled⟩
      · obtain ⟨chain'', value'', hunfolds, hsettled⟩ := ih path hrest
        exact ⟨chain'', value'', .follow hfollows hunfolds, hsettled⟩

theorem Normalizes.cases (h : Normalizes base render chain value u) :
    Settled (Normalizes base render chain) value u ∨
      ∃ (object : Map) (chain' : List String) (value' : Value), value = .object object ∧
        Follows base chain object chain' value' ∧ Normalizes base render chain' value' u := by
  obtain ⟨fuel, path, h⟩ := h
  cases fuel with
  | zero => exact absurd h Pass.not_yields_diverge
  | succ fuel =>
      obtain hsettled | ⟨object, chain', value', heq, hfollows, hrest⟩ := normalize_cases h
      · exact .inl hsettled
      · exact .inr ⟨object, chain', value', heq, hfollows, fuel, path, hrest⟩

/-- A node that is replaced is normalized to what its replacement is normalized to. -/
theorem Normalizes.of_unfolds (hunfolds : Unfolds base chain value chain' value')
    (h : Normalizes base render chain value u) : Normalizes base render chain' value' u := by
  induction hunfolds with
  | here => exact h
  | @follow chain chain1 chain'' object value1 value'' hfollows _ ih =>
      apply ih
      have hcontradiction : ∀ {r : String}, object.get "$ref" = some (.string r) → object.length ≠ 1 →
          ¬ Settled (Normalizes base render chain) (.object object) u := by
        intro r hr hlength hsettled
        cases hsettled with
        | scalar hnot => exact hnot object rfl
        | bare _ _ _ hone => exact hlength hone
        | node _ hnone _ => exact absurd (hr.symm.trans hnone) (by simp)
      obtain hsettled | ⟨other, chain2, value2, heq, hfollows2, hrest⟩ := h.cases
      · cases hfollows with
        | inline hr hlength _ _ => exact absurd hsettled (hcontradiction hr hlength)
        | recursive hr hlength _ _ => exact absurd hsettled (hcontradiction hr hlength)
      · cases heq
        obtain ⟨rfl, rfl⟩ := hfollows.deterministic hfollows2
        exact hrest

/-- Objects are normalized to objects, and other values to themselves. -/
theorem Normalizes.sameKind (h : Normalizes base render chain value u) : SameKind value u := by
  obtain ⟨fuel, path, h⟩ := h
  induction fuel generalizing path chain value with
  | zero => exact absurd h Pass.not_yields_diverge
  | succ fuel ih =>
      obtain hsettled | ⟨object, chain', value', rfl, hfollows, hrest⟩ := normalize_cases h
      · cases hsettled with
        | scalar hnot => exact .inr ⟨hnot, rfl⟩
        | bare _ _ _ _ => exact .inl ⟨_, rfl, _, rfl⟩
        | node _ _ _ => exact .inl ⟨_, rfl, _, rfl⟩
      · obtain ⟨_, _, object', rfl⟩ | ⟨hnot, -⟩ := ih path hrest
        · exact .inl ⟨_, rfl, _, rfl⟩
        · cases hfollows with
          | inline _ _ _ _ => exact absurd rfl (hnot _)
          | recursive _ _ _ _ => exact absurd rfl (hnot _)

theorem bare_eq {node : Value} (hnode : object.get "$ref" = some node) (hlength : object.length = 1) :
    object = [("$ref", node)] := by
  obtain ⟨⟨key, value⟩, rfl⟩ := List.length_eq_one_iff.mp hlength
  rw [Map.get_cons] at hnode
  split at hnode
  · rename_i hkey
    have hvalue : value = node := Option.some.inj hnode
    rw [← hkey, hvalue]
  · cases hnode

theorem get_bare {node : Value} {key : String} (hkey : key ≠ "$ref") : Map.get [("$ref", node)] key = none := by
  rw [Map.get_cons, if_neg (Ne.symm hkey), Map.get_nil]

/-- A bare reference has nothing below it. -/
theorem childAt_bare {node : Value} (step : Step) : childAt [("$ref", node)] step = none := by
  cases step with
  | member keyword name =>
      rw [childAt, get_bare (by cases keyword <;> decide)]
      rfl
  | anyOf index =>
      rw [childAt, get_bare (by decide)]
      rfl
  | items => exact get_bare (by decide)

/-- Every position of a normalized document comes from one before. -/
theorem Normalizes.derives {steps : List Step} {node : Value} (h : Normalizes base render chain value u)
    (hat : schemaAt u steps = some node) :
    ∃ chain' value', Derives base chain value steps chain' value' ∧ Normalizes base render chain' value' node := by
  induction steps generalizing chain value u with
  | nil =>
      cases hat
      exact ⟨chain, value, .here, h⟩
  | cons step rest ih =>
      obtain ⟨object', hobject, hrest⟩ := Option.bind_eq_some_iff.mp hat
      obtain ⟨child', hchild, hat'⟩ := Option.bind_eq_some_iff.mp hrest
      obtain ⟨chain1, value1, hunfolds, hsettled⟩ := h.unfolds
      cases hsettled with
      | scalar hnot =>
          cases u with
          | object members => exact absurd rfl (hnot members)
          | _ => cases hobject
      | bare _ href _ hlength =>
          cases hobject
          rw [bare_eq href hlength, childAt_bare] at hchild
          cases hchild
      | @node object _ _ hnone hspec =>
          cases hobject
          have hrel := hspec.child step
          rw [hchild] at hrel
          generalize hprepared : preparedChild object step = prepared at hrel
          cases hrel with
          | some hnormalizes =>
              obtain ⟨chain', value', hderives, hnode⟩ := ih hnormalizes hat'
              exact ⟨chain', value', .step hunfolds hnone hprepared hderives, hnode⟩

/-- Every position that is derived is one of the normalized document. -/
theorem Normalizes.of_derives {steps : List Step} (hderives : Derives base chain value steps chain' value')
    (h : Normalizes base render chain value u) :
    ∃ node, schemaAt u steps = some node ∧ Normalizes base render chain' value' node := by
  induction hderives generalizing u with
  | here => exact ⟨u, rfl, h⟩
  | @step chain chain1 chain'' value child value'' object step path hunfolds hnone hprepared _ ih =>
      obtain hsettled | ⟨other, chain2, value2, heq, hfollows, -⟩ := (h.of_unfolds hunfolds).cases
      · cases hsettled with
        | scalar hnot => exact absurd rfl (hnot object)
        | bare _ href _ _ => exact absurd (href.symm.trans hnone) (by simp)
        | @node _ object' _ _ hspec =>
            have hrel := hspec.child step
            rw [hprepared] at hrel
            generalize hchild : childAt object' step = child' at hrel
            cases hrel with
            | some hnormalizes =>
                obtain ⟨node, hat, hnode⟩ := ih hnormalizes
                refine ⟨node, ?_, hnode⟩
                simp only [schemaAt, Value.asObject, Option.bind_some, hchild]
                exact hat
      · cases heq
        exact absurd hfollows (not_follows hnone)

/-- What `normalize_strict_schema` returns. -/
theorem normalizeStrictSchema_ok {fuel : Nat} {schema out : Value}
    (h : normalizeStrictSchema render fuel schema = some (.ok out)) :
    (normalize (stripSchema schema) render fuel "#" [] (stripSchema schema)).Yields out ∧
      ∃ object : Map, out = .object object ∧ schemaIsObject object = true := by
  rw [normalizeStrictSchema] at h
  split at h
  · cases h
  · cases h
  · rename_i result spent hresult
    split at h
    · rename_i hobject
      cases h
      refine ⟨⟨0, spent, hresult⟩, ?_⟩
      cases out with
      | object object => exact ⟨object, rfl, hobject⟩
      | _ => cases hobject
    · cases h

/-- A run that is computed. -/
theorem exists_result {test : Value → Bool} {result : Option (Except StructuredError Value)}
    (h : (result.bind Except.toOption).any test = true) : ∃ out, result = some (.ok out) ∧ test out = true := by
  obtain ⟨out, hout, htest⟩ := (Option.any_eq_true _ _).mp h
  obtain ⟨result', rfl, hok⟩ := Option.bind_eq_some_iff.mp hout
  cases result' with
  | error error => cases hok
  | ok value =>
      cases hok
      exact ⟨_, rfl, htest⟩

end Documents

end OpenaiRs.StrictSchema
