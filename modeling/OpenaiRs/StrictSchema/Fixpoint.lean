import OpenaiRs.Serde.DistinctKeys
import OpenaiRs.StrictSchema.Shape
import OpenaiRs.StrictSchema.Termination

/-!
# Documents that the normalization leaves alone

A document whose schemas all have the shape of strict mode, and whose references lead through aliases to
a schema, is normalized to itself, with any active chain and without expanding anything.
-/

namespace OpenaiRs.StrictSchema

open Serde Fallible

section Nodes

variable {recur : NodePass} {path : String} {object properties schemas : Map}

/-- The pass leaves the value alone, at every path. -/
def Idle (recur : NodePass) (value : Value) : Prop := ∀ path, recur path value = .done value

theorem normalizeSchemas_idle (h : ∀ member ∈ schemas, Idle recur member.2) :
    normalizeSchemas recur path schemas = .done schemas := by
  apply Pass.traverse_self
  intro member hmem
  rw [h member hmem, Pass.done_bind]

/-- The names that a closed schema requires are those of all its properties. -/
theorem prepareProperties_closed
    (hrequired : object.get "required" = some (.array ((propertyNames object).map .string)))
    (hproperties : object.get "properties" = some (.object properties)) :
    prepareProperties object properties = properties := by
  have hnames : previousRequired object = properties.map Prod.fst := by
    have hstrings : Value.asStr ∘ Value.string = some := rfl
    simp only [previousRequired, hrequired, propertyNames, hproperties, List.filterMap_map, hstrings]
    exact congrFun List.filterMap_eq_map properties
  rw [prepareProperties]
  refine (List.map_congr_left fun property hmem => ?_).trans (List.map_id properties)
  rw [hnames, if_pos (List.mem_map_of_mem hmem)]
  rfl

theorem normalizeObject_idle (hnodup : (object.map Prod.fst).Nodup)
    (hadditional : object.get "additionalProperties" = some (.bool false))
    (hrequired : object.get "required" = some (.array ((propertyNames object).map .string)))
    (h : ∀ properties : Map, object.get "properties" = some (.object properties) →
      ∀ property ∈ properties, Idle recur property.2) :
    normalizeObject recur path object = .done object := by
  have hclosed : closeObject path object = .done object := by
    rw [closeObject, hadditional]
  have hproperties : normalizeProperties recur path object = .done (object, propertyNames object) := by
    rw [normalizeProperties]
    split
    · rename_i properties hproperties
      have hnames : propertyNames object = properties.map Prod.fst := by
        rw [propertyNames, hproperties]
      rw [prepareProperties_closed hrequired hproperties, normalizeSchemas_idle (h properties hproperties),
        Pass.done_bind, Map.insert_eq_self hnodup hproperties, hnames]
    · rename_i hother
      have hnames : propertyNames object = [] := by
        rw [propertyNames]
        split
        · rename_i properties hproperties
          exact absurd hproperties (hother properties)
        · rfl
      rw [hnames]
  rw [normalizeObject, hclosed, Pass.done_bind, hproperties, Pass.done_bind]
  simp only
  rw [Map.insert_eq_self hnodup hrequired]

theorem normalizeMember_idle (hshape : NodeShape object) {member : String × Value}
    (hmember : object.get member.1 = some member.2) (h : ∀ child ∈ visited member, Idle recur child) :
    normalizeMember recur path member = .done member := by
  obtain ⟨key, child⟩ := member
  rw [visited] at h
  rw [normalizeMember.eq_def]
  simp only at hmember ⊢
  split
  · rename_i hkey
    rw [if_pos hkey] at h
    obtain ⟨schemas, rfl⟩ := hshape.definitions key (by simpa using hkey) child hmember
    have hschemas : ∀ entry ∈ schemas, Idle recur entry.2 :=
      fun entry hentry => h entry.2 (List.mem_map_of_mem hentry)
    simp only [normalizeSchemas_idle hschemas, Pass.done_bind]
  · rename_i hdefs
    rw [if_neg hdefs] at h
    split
    · rename_i hkey
      rw [if_pos hkey] at h
      obtain ⟨variants, rfl⟩ := hshape.anyOf child (hkey ▸ hmember)
      have hidle : ∀ variant ∈ variants, Idle recur variant := h
      have hvariants : Pass.traverse (fun item : Value × Nat => recur (path ++ "/" ++ key ++ "/" ++ toString item.2) item.1)
          variants.zipIdx = .done variants := by
        rw [Pass.traverse_eq_done (g := Prod.fst) fun item hitem =>
          hidle item.1 (List.fst_mem_of_mem_zipIdx hitem) _, List.zipIdx_map_fst]
      simp only [hvariants, Pass.done_bind]
    · rename_i hanyOf
      rw [if_neg hanyOf] at h
      split
      · rename_i hkey
        rw [if_pos hkey] at h
        have hitem := h child List.mem_cons_self (path ++ "/" ++ key)
        obtain ⟨schema, rfl⟩ | ⟨b, rfl⟩ := hshape.items child (hkey ▸ hmember)
        · simp only [hitem, Pass.done_bind]
        · simp only [hitem, Pass.done_bind]
      · rfl

/-- A schema of the strict subset is left alone when the schemas below it are. -/
theorem normalizeNode_idle (hshape : NodeShape object) (hnodup : (object.map Prod.fst).Nodup)
    (hvisited : ∀ member ∈ object, ∀ child ∈ visited member, Idle recur child)
    (hproperties : ∀ properties : Map, object.get "properties" = some (.object properties) →
      ∀ property ∈ properties, Idle recur property.2) :
    normalizeNode recur path object = .done object := by
  have hmembers : Pass.traverse (normalizeMember recur path) object = .done object := by
    apply Pass.traverse_self
    intro member hmem
    exact normalizeMember_idle hshape ((Map.get_eq_some_iff_mem hnodup).mpr hmem) (hvisited member hmem)
  rw [normalizeNode]
  split
  · rename_i hisObject
    obtain ⟨hadditional, hrequired⟩ := hshape.closed (schemaIsObject_iff.mp hisObject)
    rw [normalizeObject_idle hnodup hadditional hrequired hproperties, Pass.done_bind]
    exact hmembers
  · rw [Pass.done_bind]
    exact hmembers

end Nodes

section Documents

variable {base value child : Value} {render : Value → String} {object : Map} {path reference : String} {fuel : Nat}
  {seen : List String}

/-- A schema directly below another one. -/
theorem childAt_of_visited (hobject : Value.DistinctKeys (.object object)) {member : String × Value}
    (hmem : member ∈ object) (hchild : child ∈ visited member) : ∃ step, childAt object step = some child := by
  obtain ⟨key, value⟩ := member
  have hget := (Map.get_eq_some_iff_mem hobject.nodup).mpr hmem
  have hschemas : ∀ keyword : SchemaMap, keyword.key = key → child ∈ ((value.asObject).getD []).map Prod.snd →
      ∃ step, childAt object step = some child := by
    rintro keyword rfl hentry
    obtain ⟨⟨name, schema⟩, hmember, rfl⟩ := List.mem_map.mp hentry
    cases value with
    | object schemas =>
        refine ⟨.member keyword name, ?_⟩
        rw [childAt, hget]
        exact (Map.get_eq_some_iff_mem (hobject.get hget).nodup).mpr hmember
    | _ => cases hmember
  rw [visited] at hchild
  split at hchild
  · rename_i hkey
    obtain rfl | rfl := hkey
    · exact hschemas .defs rfl hchild
    · exact hschemas .definitions rfl hchild
  · split at hchild
    · rename_i hkey
      subst hkey
      cases value with
      | array variants =>
          obtain ⟨index, hindex⟩ := List.mem_iff_getElem?.mp hchild
          refine ⟨.anyOf index, ?_⟩
          rw [childAt, hget]
          exact hindex
      | _ => cases hchild
    · split at hchild
      · rename_i hkey
        subst hkey
        rw [List.mem_singleton.mp hchild]
        exact ⟨.items, hget⟩
      · cases hchild

/-- The properties of a schema. -/
def propertiesOf (object : Map) : Map := ((object.get "properties").bind Value.asObject).getD []

theorem distinctKeys_visited {member : String × Value} (hvalue : member.2.DistinctKeys)
    (hchild : child ∈ visited member) : child.DistinctKeys := by
  obtain rfl | ⟨items, hitems, hmem⟩ | ⟨schemas, entry, hschemas, hmem, rfl⟩ := visited_cases hchild
  · exact hvalue
  · rw [hitems] at hvalue
    cases hvalue with
    | array hall => exact hall child hmem
  · rw [hschemas] at hvalue
    exact hvalue.member hmem

theorem mem_propertiesOf {property : String × Value} (h : property ∈ propertiesOf object) :
    ∃ properties : Map, object.get "properties" = some (.object properties) ∧ property ∈ properties := by
  rw [propertiesOf] at h
  cases hvalue : (object.get "properties").bind Value.asObject with
  | none =>
      rw [hvalue] at h
      cases h
  | some properties =>
      obtain ⟨value, hget, hobject⟩ := Option.bind_eq_some_iff.mp hvalue
      obtain rfl := Value.asObject_eq_some hobject
      rw [hvalue] at h
      exact ⟨properties, hget, h⟩

theorem NodeShape.find_unsupported (h : NodeShape object) :
    unsupportedKeywords.find? (fun keyword => Map.containsKey object keyword) = none := by
  rw [List.find?_eq_none]
  intro keyword hmem
  simpa using h.supported keyword hmem

theorem childAt_of_property (hobject : Value.DistinctKeys (.object object)) {properties : Map}
    (hproperties : object.get "properties" = some (.object properties)) {property : String × Value}
    (hmem : property ∈ properties) : childAt object (.member .properties property.1) = some property.2 := by
  have hvalue : object.get (SchemaMap.key .properties) = some (.object properties) := hproperties
  rw [childAt, hvalue]
  exact (Map.get_eq_some_iff_mem (hobject.get hproperties).nodup).mpr hmem

theorem isLocal_of_resolveRef {current : String} {resolved : Map}
    (h : (resolveRef base current).bind Value.asObject = some resolved) : isLocal current = true := by
  rw [isLocal, Bool.or_eq_true, decide_eq_true_eq]
  rw [resolveRef] at h
  split at h
  · rename_i hroot
    exact .inl hroot
  · right
    cases hpointer : pointerOf current with
    | none =>
        rw [hpointer] at h
        cases h
    | some pointer => rfl

/-- An alias chain that ends is accepted, with enough fuel. -/
theorem AliasEnds.aliasLoop_done (h : AliasEnds base seen reference) :
    ∃ fuel, ∀ path, aliasLoop base render path fuel seen reference = .done () := by
  induction h with
  | @last seen current resolved hnew hresolved hnone =>
      refine ⟨1, fun path => ?_⟩
      rw [aliasLoop, if_neg hnew, if_pos (isLocal_of_resolveRef hresolved), hresolved]
      simp only [hnone]
  | @next seen current next resolved hnew hresolved hnext _ ih =>
      obtain ⟨fuel, hfuel⟩ := ih
      refine ⟨fuel + 1, fun path => ?_⟩
      rw [aliasLoop, if_neg hnew, if_pos (isLocal_of_resolveRef hresolved), hresolved]
      simp only [hnext]
      exact hfuel path

/-- With enough fuel the value is left alone, whatever the active chain. -/
def Rests (base : Value) (render : Value → String) (value : Value) : Prop :=
  ∃ fuel, ∀ chain, Idle (fun path child => normalize base render fuel path chain child) value

theorem Idle.of_le {more : Nat} (hle : fuel ≤ more) {chain : List String}
    (h : Idle (fun path child => normalize base render fuel path chain child) value) :
    Idle (fun path child => normalize base render more path chain child) value :=
  fun path => (normalize_refines_of_le hle path chain value).eq_done (h path)

/-- Some fuel is enough for all of them. -/
theorem rests_all {values : List Value} (h : ∀ value ∈ values, Rests base render value) :
    ∃ fuel, ∀ value ∈ values, ∀ chain, Idle (fun path child => normalize base render fuel path chain child) value := by
  induction values with
  | nil => exact ⟨0, by simp⟩
  | cons value rest ih =>
      obtain ⟨⟨fuel, hfuel⟩, hrest⟩ := List.forall_mem_cons.mp h
      obtain ⟨more, hmore⟩ := ih hrest
      refine ⟨max fuel more, List.forall_mem_cons.mpr ⟨fun chain => ?_, fun other hmem chain => ?_⟩⟩
      · exact (hfuel chain).of_le (Nat.le_max_left _ _)
      · exact (hmore other hmem chain).of_le (Nat.le_max_right _ _)

/-- The normal form: every schema has its shape, and the aliases of every reference end. -/
structure Normal (base value : Value) : Prop where
  distinct : value.DistinctKeys
  shape : ∀ steps object, schemaAt value steps = some (.object object) → NodeShape object
  aliases : ∀ steps reference, schemaAt value steps = some (.object [("$ref", .string reference)]) →
    AliasEnds base [] reference

namespace Normal

theorem descend (h : Normal base (.object object)) {step : Step} (hchild : childAt object step = some child)
    (hdistinct : child.DistinctKeys) : Normal base child where
  distinct := hdistinct
  shape steps object' hat := h.shape (step :: steps) object' (by simpa [schemaAt, hchild, Value.asObject] using hat)
  aliases steps reference hat :=
    h.aliases (step :: steps) reference (by simpa [schemaAt, hchild, Value.asObject] using hat)

/-- A reference of the normal form stays. -/
theorem rests_bare (h : Normal base (.object [("$ref", .string reference)])) :
    Rests base render (.object [("$ref", .string reference)]) := by
  have hends := h.aliases [] reference rfl
  obtain ⟨resolved, hresolved⟩ : ∃ resolved : Map, (resolveRef base reference).bind Value.asObject = some resolved := by
    cases hends with
    | last _ hresolved _ => exact ⟨_, hresolved⟩
    | next _ hresolved _ _ => exact ⟨_, hresolved⟩
  obtain ⟨fuel, hfuel⟩ : ∃ fuel, ∀ path, aliasLoop base render path fuel [] reference = .done () :=
    hends.aliasLoop_done
  refine ⟨fuel + 1, fun chain path => ?_⟩
  have hget : Map.get [("$ref", .string reference)] "$ref" = some (.string reference) := by
    rw [Map.get_cons, if_pos rfl]
  simp only [normalize, (h.shape [] _ rfl).find_unsupported, hget, followRef, isLocal_of_resolveRef hresolved, if_true, hresolved,
    validateAliasChain, hfuel, Pass.done_bind, List.length_singleton]

/-- The normal form is left alone. -/
theorem rests (h : Normal base value) : Rests base render value := by
  induction hnodes : countNodes value using Nat.strongRecOn generalizing value with
  | _ nodes ih =>
  cases value with
  | object object =>
      have hdescend : ∀ {child : Value} {step : Step}, childAt object step = some child → child.DistinctKeys →
          countNodes child < countNodes (.object object) → Rests base render child := by
        intro child step hchild hdistinct hless
        exact ih (countNodes child) (hnodes ▸ hless) (h.descend hchild hdistinct) rfl
      have hshape := h.shape [] object rfl
      cases href : Map.get object "$ref" with
      | some node =>
          have hcontains : Map.containsKey object "$ref" = true := by
            rw [Map.containsKey_eq_isSome, href]
            rfl
          obtain ⟨reference, rfl, -⟩ := hshape.reference hcontains
          exact h.rests_bare
      | none =>
          have hvisited : ∀ child ∈ object.flatMap visited, Rests base render child := by
            intro child hmem
            obtain ⟨member, hmember, hchild⟩ := List.mem_flatMap.mp hmem
            obtain ⟨step, hstep⟩ := childAt_of_visited h.distinct hmember hchild
            have hle := countNodes_visited hchild
            have hlt := countNodes_member hmember
            exact hdescend hstep (distinctKeys_visited (h.distinct.member hmember) hchild) (by omega)
          have hproperties : ∀ child ∈ (propertiesOf object).map Prod.snd, Rests base render child := by
            intro child hmem
            obtain ⟨property, hproperty, rfl⟩ := List.mem_map.mp hmem
            obtain ⟨properties, hvalue, hin⟩ := mem_propertiesOf hproperty
            have hlt := countNodes_member hin
            have hlt' : countNodes (.object properties) < countNodes (.object object) :=
              countNodes_member (Map.mem_of_get hvalue)
            have hdistinct : property.2.DistinctKeys := (h.distinct.get hvalue).member hin
            exact hdescend (childAt_of_property h.distinct hvalue hin) hdistinct (by omega)
          obtain ⟨fuel, hfuel⟩ := rests_all (List.forall_mem_append.mpr ⟨hvisited, hproperties⟩)
          refine ⟨fuel + 1, fun chain path => ?_⟩
          have hnode : normalizeNode (fun path child => normalize base render fuel path chain child) path object =
              .done object := by
            apply normalizeNode_idle hshape h.distinct.nodup
            · intro member hmember child hchild
              apply hfuel child
              exact List.mem_append_left _ (List.mem_flatMap.mpr ⟨member, hmember, hchild⟩)
            · intro properties hvalue property hproperty
              apply hfuel property.2
              apply List.mem_append_right
              rw [propertiesOf, hvalue]
              exact List.mem_map_of_mem hproperty
          simp only [normalize, hshape.find_unsupported, href, hnode, Pass.done_bind]
  | _ => exact ⟨1, fun _ _ => rfl⟩

end Normal

end Documents

end OpenaiRs.StrictSchema
