import OpenaiRs.StrictSchema.Rewriting

/-!
# Where a pointer leads in a normalized document

A pointer goes through the members of objects, also through those that no schema stands for: unknown keywords,
whose values are kept as they are, and the maps of schemas. The places of a document before the normalization that
the pointers of the result lead to are the walked schemas and what is kept.
-/

namespace OpenaiRs.StrictSchema

open Serde Fallible

section Places

/-- A value of the document: with the active chain where it is walked, without one where it is kept. -/
structure Place where
  chain : Option (List String)
  value : Value

/-- The map of schemas under a keyword, as its schemas are normalized. -/
def preparedSchemas (object : Map) : SchemaMap → Option Map
  | .properties => ((object.get "properties").bind Value.asObject).map (prepareProperties object)
  | keyword => (object.get keyword.key).bind Value.asObject

/-- A member that the normalization of a schema without a reference does not touch. -/
def Untouched (object : Map) (key : String) (value : Value) : Prop :=
  key ∉ rewrittenKeys ∨
    (schemaIsObject object = false ∧ (key = "additionalProperties" ∨ key = "required")) ∨
    (key = "properties" ∧ ∀ properties, value ≠ .object properties)

variable (base : Value)

/-- What a place stands for: a walked reference with siblings is its target under the siblings. -/
inductive Opens : Place → Place → Prop
  | walked {chain chain' : List String} {value value' : Value} : Unfolds base chain value chain' value' →
      Opens ⟨some chain, value⟩ ⟨some chain', value'⟩
  | kept {value : Value} : Opens ⟨none, value⟩ ⟨none, value⟩

/-- Some keys lead from a walked value to a place. -/
inductive Leads : List String → Value → List String → Place → Prop
  | here {chain : List String} {value : Value} : Leads chain value [] ⟨some chain, value⟩
  | schemas {chain chain' : List String} {value : Value} {object children : Map} {keyword : SchemaMap} :
      Unfolds base chain value chain' (.object object) → object.get "$ref" = none →
      preparedSchemas object keyword = some children → Leads chain value [keyword.key] ⟨none, .object children⟩
  | member {chain chain' : List String} {value child : Value} {object : Map} {keyword : SchemaMap} {name : String}
      {keys : List String} {place : Place} : Unfolds base chain value chain' (.object object) →
      object.get "$ref" = none → preparedChild object (.member keyword name) = some child →
      Leads chain' child keys place → Leads chain value (keyword.key :: name :: keys) place
  | items {chain chain' : List String} {value child : Value} {object : Map} {keys : List String} {place : Place} :
      Unfolds base chain value chain' (.object object) → object.get "$ref" = none →
      preparedChild object .items = some child → Leads chain' child keys place → Leads chain value ("items" :: keys) place
  | kept {chain chain' : List String} {value next found : Value} {object : Map} {key : String} {keys : List String} :
      Unfolds base chain value chain' (.object object) → object.get "$ref" = none → object.get key = some next →
      Untouched object key next → lookupKeys next keys = some found → Leads chain value (key :: keys) ⟨none, found⟩

end Places

section Normalized

/-- What is kept is the same, or a map of schemas with a normalized schema for each. -/
def Alike (value u : Value) : Prop :=
  u = value ∨ ∃ members members' : Map, value = .object members ∧ u = .object members' ∧
    Map.Pairs (fun _ => SameKind) members members'

/-- What a place is in the result. -/
inductive Becomes (base : Value) (render : Value → String) : Place → Value → Prop
  | walked {chain : List String} {value u : Value} : Normalizes base render chain value u →
      Becomes base render ⟨some chain, value⟩ u
  | kept {value u : Value} : Alike value u → Becomes base render ⟨none, value⟩ u

variable {base out : Value} {render : Value → String} {chain chain' : List String} {value u w : Value}
  {object object' : Map} {place : Place} {keys : List String} {R : Value → Value → Prop}

theorem preparedChild_member (object : Map) (keyword : SchemaMap) (name : String) :
    preparedChild object (.member keyword name) =
      (preparedSchemas object keyword).bind fun schemas => Map.get schemas name := by
  cases keyword with
  | properties =>
      rw [preparedChild, preparedSchemas]
      cases (object.get "properties").bind Value.asObject <;> rfl
  | defs => rfl
  | definitions => rfl

theorem get_of_asObject {key : String} {members : Map} (h : (object.get key).bind Value.asObject = some members) :
    object.get key = some (.object members) := by
  obtain ⟨value, hvalue, hobject⟩ := Option.bind_eq_some_iff.mp h
  rw [hvalue, Value.asObject_eq_some hobject]

/-- A schema without a reference stands for itself. -/
theorem Opens.eq_self {opened : Place} (h : Opens base place opened) {object : Map} (hplace : place.value = .object object)
    (hnone : object.get "$ref" = none) : opened = place := by
  cases h with
  | kept => rfl
  | walked hunfolds =>
      cases hplace
      cases hunfolds with
      | here => rfl
      | follow hfollows _ => exact absurd hfollows (not_follows hnone)

/-- A map of definitions, before and after. -/
theorem NodeSpec.definitions (h : NodeSpec R object object') {key : String} (hkey : key = "$defs" ∨ key = "definitions") :
    Option.Rel (fun value value' => ∃ children children', value = .object children ∧ value' = .object children' ∧
      Map.Pairs (fun _ => R) children children') (object.get key) (object'.get key) := by
  have hrel := h.members key (by rcases hkey with rfl | rfl <;> decide)
  generalize object.get key = value at hrel ⊢
  generalize object'.get key = value' at hrel ⊢
  cases hrel with
  | none => exact .none
  | some hspec => exact .some (hspec.of_defs hkey)

/-- What becomes of a map of schemas. -/
theorem NodeSpec.of_schemas (h : NodeSpec R object object') {keyword : SchemaMap} {children : Map}
    (hchildren : preparedSchemas object keyword = some children) :
    ∃ children', object'.get keyword.key = some (.object children') ∧ Map.Pairs (fun _ => R) children children' := by
  have hdefinitions : ∀ key, key = "$defs" ∨ key = "definitions" → (object.get key).bind Value.asObject = some children →
      ∃ children', object'.get key = some (.object children') ∧ Map.Pairs (fun _ => R) children children' := by
    intro key hkey hmap
    have hrel := h.definitions hkey
    rw [get_of_asObject hmap] at hrel
    generalize object'.get key = value' at hrel ⊢
    cases hrel with
    | some hspec =>
        obtain ⟨_, children', heq, rfl, hpairs⟩ := hspec
        cases heq
        exact ⟨children', rfl, hpairs⟩
  cases keyword with
  | properties =>
      obtain ⟨properties, hmap, rfl⟩ := Option.map_eq_some_iff.mp hchildren
      have hrel := h.properties
      rw [get_of_asObject hmap] at hrel
      change ∃ children', object'.get "properties" = some (.object children') ∧ _
      generalize object'.get "properties" = value' at hrel ⊢
      cases hrel with
      | some hspec =>
          cases hspec with
          | schemas hpairs => exact ⟨_, rfl, hpairs⟩
          | other hnot => exact absurd rfl (hnot properties)
  | defs => exact hdefinitions "$defs" (.inl rfl) hchildren
  | definitions => exact hdefinitions "definitions" (.inr rfl) hchildren

/-- Where a map of schemas comes from, unless `properties` is none. -/
theorem NodeSpec.exists_schemas (h : NodeSpec R object object') {keyword : SchemaMap} {value : Value}
    (hvalue : object'.get keyword.key = some value) :
    (∃ children children', value = .object children' ∧ preparedSchemas object keyword = some children ∧
        Map.Pairs (fun _ => R) children children') ∨
      (object.get keyword.key = some value ∧ Untouched object keyword.key value) := by
  have hdefinitions : ∀ key, key = "$defs" ∨ key = "definitions" → object'.get key = some value →
      ∃ children children', value = .object children' ∧ (object.get key).bind Value.asObject = some children ∧
        Map.Pairs (fun _ => R) children children' := by
    intro key hkey hget
    have hrel := h.definitions hkey
    rw [hget] at hrel
    generalize object.get key = before at hrel ⊢
    cases hrel with
    | some hspec =>
        obtain ⟨children, children', rfl, heq, hpairs⟩ := hspec
        exact ⟨children, children', heq, rfl, hpairs⟩
  cases keyword with
  | properties =>
      have hrel := h.properties
      change object'.get "properties" = some value at hvalue
      rw [hvalue] at hrel
      generalize hbefore : object.get "properties" = before at hrel
      cases hrel with
      | some hspec =>
          cases hspec with
          | schemas hpairs =>
              refine .inl ⟨_, _, rfl, ?_, hpairs⟩
              rw [preparedSchemas, hbefore]
              rfl
          | other hnot => exact .inr ⟨hbefore, .inr (.inr ⟨rfl, hnot⟩)⟩
  | defs => exact .inl (hdefinitions "$defs" (.inl rfl) hvalue)
  | definitions => exact .inl (hdefinitions "definitions" (.inr rfl) hvalue)

/-- A member that is not touched is in the result. -/
theorem NodeSpec.untouched (h : NodeSpec R object object') {key : String} (hget : object.get key = some value)
    (huntouched : Untouched object key value) : object'.get key = some value := by
  obtain hother | ⟨hopen, hkey⟩ | ⟨rfl, hnot⟩ := huntouched
  · rw [h.other key hother, hget]
  · obtain ⟨hadditional, hrequired⟩ := h.unclosed hopen
    obtain rfl | rfl := hkey
    · rw [hadditional, hget]
    · rw [hrequired, hget]
  · have hrel := h.properties
    rw [hget] at hrel
    generalize object'.get "properties" = value' at hrel ⊢
    cases hrel with
    | some hspec =>
        cases hspec with
        | schemas _ => exact absurd rfl (hnot _)
        | other _ => rfl

/-- What becomes of a walked value that is replaced by a schema without a reference. -/
theorem Normalizes.node_of_unfolds (h : Normalizes base render chain value u)
    (hunfolds : Unfolds base chain value chain' (.object object)) (hnone : object.get "$ref" = none) :
    ∃ object' : Map, u = .object object' ∧ NodeSpec (Normalizes base render chain') object object' := by
  obtain hsettled | ⟨other, chain2, value2, heq, hfollows, -⟩ := (h.of_unfolds hunfolds).cases
  · cases hsettled with
    | scalar hnot => exact absurd rfl (hnot object)
    | bare _ href _ _ => exact absurd (href.symm.trans hnone) (by simp)
    | node _ _ hspec => exact ⟨_, rfl, hspec⟩
  · cases heq
    exact absurd hfollows (not_follows hnone)

theorem Alike.schemas {children children' : Map}
    (h : Map.Pairs (fun _ => Normalizes base render chain) children children') :
    Alike (.object children) (.object children') :=
  .inr ⟨children, children', rfl, rfl, h.imp fun _ _ hmember => ⟨hmember.1, hmember.2.sameKind⟩⟩

/-- The keys lead there in the result. -/
theorem Leads.lookup (hleads : Leads base chain value keys place) (h : Normalizes base render chain value u) :
    ∃ w, lookupKeys u keys = some w ∧ Becomes base render place w := by
  induction hleads generalizing u with
  | here => exact ⟨u, rfl, .walked h⟩
  | schemas hunfolds hnone hchildren =>
      obtain ⟨object', rfl, hspec⟩ := h.node_of_unfolds hunfolds hnone
      obtain ⟨children', hget, hpairs⟩ := hspec.of_schemas hchildren
      refine ⟨.object children', ?_, .kept (.schemas hpairs)⟩
      simp [lookupKeys, Value.asObject, hget]
  | @member _ _ _ _ _ _ name _ _ hunfolds hnone hchild _ ih =>
      obtain ⟨object', rfl, hspec⟩ := h.node_of_unfolds hunfolds hnone
      rw [preparedChild_member] at hchild
      obtain ⟨children, hchildren, hname⟩ := Option.bind_eq_some_iff.mp hchild
      obtain ⟨children', hget, hpairs⟩ := hspec.of_schemas hchildren
      have hrel := hpairs.get name
      rw [hname] at hrel
      generalize hnext : Map.get children' name = child' at hrel
      cases hrel with
      | some hnormalizes =>
          obtain ⟨w, hlookup, hbecomes⟩ := ih hnormalizes
          refine ⟨w, ?_, hbecomes⟩
          simp only [lookupKeys, Value.asObject, hget, hnext, Option.bind_some, hlookup]
  | items hunfolds hnone hchild _ ih =>
      obtain ⟨object', rfl, hspec⟩ := h.node_of_unfolds hunfolds hnone
      have hrel := hspec.child .items
      rw [hchild] at hrel
      generalize hitems : childAt object' .items = child' at hrel
      cases hrel with
      | some hnormalizes =>
          obtain ⟨w, hlookup, hbecomes⟩ := ih hnormalizes
          refine ⟨w, ?_, hbecomes⟩
          change object'.get "items" = some _ at hitems
          simp only [lookupKeys, Value.asObject, hitems, Option.bind_some, hlookup]
  | kept hunfolds hnone hget huntouched hlookup =>
      obtain ⟨object', rfl, hspec⟩ := h.node_of_unfolds hunfolds hnone
      refine ⟨_, ?_, .kept (.inl rfl)⟩
      simp only [lookupKeys, Value.asObject, hspec.untouched hget huntouched, Option.bind_some, hlookup]

/-- A schema without a reference in the result stems from one before. -/
theorem Normalizes.unfolds_node (h : Normalizes base render chain value (.object object'))
    (hnone : object'.get "$ref" = none) :
    ∃ (chain' : List String) (object : Map), Unfolds base chain value chain' (.object object) ∧
      object.get "$ref" = none ∧ NodeSpec (Normalizes base render chain') object object' := by
  obtain ⟨chain', last, hunfolds, hsettled⟩ := h.unfolds
  generalize hout : Value.object object' = out at hsettled
  cases hsettled with
  | scalar hnot => exact absurd hout.symm (hnot _)
  | bare _ href _ _ =>
      cases hout
      exact absurd (href.symm.trans hnone) (by simp)
  | node _ hnone hspec =>
      cases hout
      exact ⟨chain', _, hunfolds, hnone, hspec⟩

/-- An object, or the schema that accepts everything. -/
def IsSchema (value : Value) : Prop := (∃ object : Map, value = .object object) ∨ value = .bool true

theorem IsSchema.not_string {text : String} : ¬ IsSchema (.string text) := by
  rintro (⟨_, heq⟩ | heq) <;> cases heq

/-- A value that no key goes on from. -/
theorem lookup_scalar {keys : List String} (hnot : value.asObject = none) (h : lookupKeys value keys = some w) :
    keys = [] ∧ w = value := by
  cases keys with
  | nil => exact ⟨rfl, (Option.some.inj h).symm⟩
  | cons key rest =>
      rw [lookupKeys, hnot] at h
      cases h

theorem not_isSchema_false : ¬ IsSchema (.bool false) := by
  rintro (⟨_, heq⟩ | heq) <;> cases heq

theorem not_isSchema_array (items : List Value) : ¬ IsSchema (.array items) := by
  rintro (⟨_, heq⟩ | heq) <;> cases heq

/-- Where the members of a schema come from: they are not touched, they are walked, or they are no schemas and nothing
is below them. -/
theorem NodeSpec.member_cases (h : NodeSpec R object object') {key : String} {next : Value}
    (hnext : object'.get key = some next) :
    (object.get key = some next ∧ Untouched object key next) ∨
      (∃ keyword : SchemaMap, key = keyword.key ∧ ∃ children children', next = .object children' ∧
        preparedSchemas object keyword = some children ∧ Map.Pairs (fun _ => R) children children') ∨
      (key = "items" ∧ ∃ child, preparedChild object .items = some child ∧ R child next) ∨
      (next.asObject = none ∧ ¬ IsSchema next) := by
  have hschemas : ∀ keyword : SchemaMap, key = keyword.key →
      (object.get key = some next ∧ Untouched object key next) ∨
        ∃ keyword : SchemaMap, key = keyword.key ∧ ∃ children children', next = .object children' ∧
          preparedSchemas object keyword = some children ∧ Map.Pairs (fun _ => R) children children' := by
    rintro keyword rfl
    obtain hmap | hsame := h.exists_schemas hnext
    · exact .inr ⟨keyword, rfl, hmap⟩
    · exact .inl hsame
  have hclosed : key = "additionalProperties" ∨ key = "required" →
      (object.get key = some next ∧ Untouched object key next) ∨ (next.asObject = none ∧ ¬ IsSchema next) := by
    intro hkey
    cases hisObject : schemaIsObject object with
    | true =>
        obtain ⟨hadditional, hrequired⟩ := h.closed (h.isObject.trans hisObject)
        obtain rfl | rfl := hkey
        · cases hnext.symm.trans hadditional
          exact .inr ⟨rfl, not_isSchema_false⟩
        · cases hnext.symm.trans hrequired
          exact .inr ⟨rfl, not_isSchema_array _⟩
    | false =>
        obtain ⟨hadditional, hrequired⟩ := h.unclosed hisObject
        refine .inl ⟨?_, .inr (.inl ⟨hisObject, hkey⟩)⟩
        obtain rfl | rfl := hkey
        · rw [← hadditional, hnext]
        · rw [← hrequired, hnext]
  by_cases hkey : key ∈ rewrittenKeys
  · simp only [rewrittenKeys, List.mem_cons, List.not_mem_nil, or_false] at hkey
    obtain hkey | hkey | hkey | hkey | hkey | rfl | rfl := hkey
    · exact (hclosed (.inl hkey)).elim .inl fun hscalar => .inr (.inr (.inr hscalar))
    · exact (hclosed (.inr hkey)).elim .inl fun hscalar => .inr (.inr (.inr hscalar))
    · exact (hschemas .properties hkey).elim .inl fun hmap => .inr (.inl hmap)
    · exact (hschemas .defs hkey).elim .inl fun hmap => .inr (.inl hmap)
    · exact (hschemas .definitions hkey).elim .inl fun hmap => .inr (.inl hmap)
    · obtain ⟨value, hspec⟩ := h.exists_member (by decide) hnext
      obtain ⟨children, children', -, rfl, -⟩ := hspec.of_anyOf rfl
      exact .inr (.inr (.inr ⟨rfl, not_isSchema_array _⟩))
    · have hrel := h.child .items
      rw [show childAt object' .items = some next from hnext] at hrel
      generalize preparedChild object .items = before at hrel
      cases hrel with
      | some hchild => exact .inr (.inr (.inl ⟨rfl, _, rfl, hchild⟩))
  · exact .inl ⟨by rw [← h.other key hkey, hnext], .inl hkey⟩

/-- Where a schema of the result comes from that some keys lead to. -/
theorem Normalizes.exists_leads (h : Normalizes base render chain value u) (hlookup : lookupKeys u keys = some w)
    (hschema : IsSchema w) : ∃ place, Leads base chain value keys place ∧ Becomes base render place w := by
  induction hlength : keys.length using Nat.strongRecOn generalizing keys chain value u with
  | _ length ih =>
      cases keys with
      | nil =>
          cases hlookup
          exact ⟨_, .here, .walked h⟩
      | cons key rest =>
          obtain ⟨object', hobject, hrest⟩ := Option.bind_eq_some_iff.mp hlookup
          obtain ⟨next, hnext, hlookup'⟩ := Option.bind_eq_some_iff.mp hrest
          obtain rfl := Value.asObject_eq_some hobject
          by_cases href : object'.get "$ref" = none
          · obtain ⟨chain', object, hunfolds, hnone, hspec⟩ := h.unfolds_node href
            obtain ⟨hget, huntouched⟩ | ⟨keyword, rfl, children, children', rfl, hchildren, hpairs⟩ |
              ⟨rfl, child, hchild, hnormalizes⟩ | ⟨hnot, hnotSchema⟩ := hspec.member_cases hnext
            · exact ⟨_, .kept hunfolds hnone hget huntouched hlookup', .kept (.inl rfl)⟩
            · cases rest with
              | nil =>
                  cases hlookup'
                  exact ⟨_, .schemas hunfolds hnone hchildren, .kept (.schemas hpairs)⟩
              | cons name rest =>
                  have hshorter : rest.length < length := by
                    rw [← hlength, List.length_cons, List.length_cons]
                    omega
                  obtain ⟨_, heq, hbehind⟩ := Option.bind_eq_some_iff.mp hlookup'
                  cases heq
                  obtain ⟨u', hname, hlookup''⟩ := Option.bind_eq_some_iff.mp hbehind
                  have hrel := hpairs.get name
                  rw [hname] at hrel
                  generalize hbefore : Map.get children name = before at hrel
                  cases hrel with
                  | some hnormalizes =>
                      obtain ⟨place, hleads, hbecomes⟩ := ih rest.length hshorter hnormalizes hlookup'' rfl
                      refine ⟨place, .member hunfolds hnone ?_ hleads, hbecomes⟩
                      rw [preparedChild_member, hchildren, Option.bind_some, hbefore]
            · obtain ⟨place, hleads, hbecomes⟩ := ih rest.length (by simp [← hlength]) hnormalizes hlookup' rfl
              exact ⟨place, .items hunfolds hnone hchild hleads, hbecomes⟩
            · obtain ⟨-, rfl⟩ := lookup_scalar hnot hlookup'
              exact absurd hschema hnotSchema
          · -- A reference that stays has no other member, and a string is no schema.
            obtain ⟨chain', last, -, hsettled⟩ := h.unfolds
            generalize hout : Value.object object' = out at hsettled
            cases hsettled with
            | scalar hnot => exact absurd hout.symm (hnot _)
            | bare _ hreference _ hone =>
                cases hout
                rw [bare_eq hreference hone, Map.get_cons] at hnext
                split at hnext
                · cases hnext
                  obtain ⟨-, rfl⟩ := lookup_scalar rfl hlookup'
                  exact absurd hschema IsSchema.not_string
                · cases hnext
            | node _ hnone hspec =>
                cases hout
                rw [hspec.other "$ref" (by decide)] at href
                exact absurd hnone href

end Normalized

end OpenaiRs.StrictSchema
