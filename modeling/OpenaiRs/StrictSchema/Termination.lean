import OpenaiRs.StrictSchema.Rewriting

/-!
# The normalization of a schema ends

Inlining only meets references of the document, and no reference is inlined twice on one path; between
two inlinings the walk goes down. So for every document there is enough fuel, and more fuel changes
nothing.
-/

namespace OpenaiRs.StrictSchema

open Serde Fallible Fallible.Pass

section Fuel

variable {base : Value} {render : Value → String} {path : String} {fuel : Nat}

theorem aliasLoop_refines (seen : List String) (current : String) :
    Refines (aliasLoop base render path fuel seen current) (aliasLoop base render path (fuel + 1) seen current) := by
  induction fuel generalizing seen current with
  | zero => exact refines_diverge
  | succ fuel ih =>
      rw [aliasLoop, aliasLoop]
      split
      · exact .refl _
      · split
        · split
          · exact .refl _
          · split
            · exact .refl _
            · exact ih _ _
            · exact .refl _
        · exact .refl _

theorem followRef_refines (chain : List String) (object : Map) (node : Value) :
    Refines (followRef base render fuel path chain object node)
      (followRef base render (fuel + 1) path chain object node) := by
  cases node with
  | string reference =>
      rw [followRef, followRef]
      split
      · split
        · exact .refl _
        · exact (aliasLoop_refines [] reference).bind fun _ _ => .refl _
      · exact .refl _
  | _ => exact .refl _

end Fuel

section Known

/-- The reference that a member is. -/
def ownReference (key : String) : Value → List String
  | .string s => if key = "$ref" then [s] else []
  | _ => []

mutual

/-- The references in a value. -/
def references : Value → List String
  | .array items => itemReferences items
  | .object members => memberReferences members
  | _ => []

def itemReferences : List Value → List String
  | [] => []
  | item :: rest => references item ++ itemReferences rest

def memberReferences : List (String × Value) → List String
  | [] => []
  | (key, value) :: rest => ownReference key value ++ (references value ++ memberReferences rest)

end

/-- All references in a value are references of the document. -/
def Known (base value : Value) : Prop := ∀ reference ∈ references value, reference ∈ references base

/-- The member is no reference or one of the document, and so is what it holds. -/
def KnownMember (base : Value) (member : String × Value) : Prop :=
  (∀ reference, member = ("$ref", .string reference) → reference ∈ references base) ∧ Known base member.2

variable {base value : Value} {object resolved : Map} {chain chain' : List String} {reference : String}

theorem known_array {items : List Value} : Known base (.array items) ↔ ∀ item ∈ items, Known base item := by
  rw [Known, references]
  induction items with
  | nil => simp [itemReferences]
  | cons item rest ih =>
      rw [itemReferences, List.forall_mem_append, ih, List.forall_mem_cons, Known]

theorem known_object : Known base (.object object) ↔ ∀ member ∈ object, KnownMember base member := by
  rw [Known, references]
  induction object with
  | nil => simp [memberReferences]
  | cons member rest ih =>
      obtain ⟨key, value⟩ := member
      rw [memberReferences, List.forall_mem_append, List.forall_mem_append, ih, List.forall_mem_cons, KnownMember,
        Known, and_assoc]
      apply and_congr_left
      intro _
      cases value with
      | string s =>
          rw [ownReference]
          split
          · rename_i hkey
            simp [hkey]
          · rename_i hkey
            simp [hkey]
      | _ => simp [ownReference]

/-- What a reference of the document leads to has references of the document only. -/
theorem known_resolved (hresolved : (resolveRef base reference).bind Value.asObject = some resolved) :
    Known base (.object resolved) :=
  resolved_induct (P := Known base) (fun _ _ _ hmembers hnext => (known_object.mp hmembers _ (Map.mem_of_get hnext)).2)
    (fun _ hmem => hmem) hresolved

theorem known_childAt {step : Step} {child : Value} (h : Known base (.object object))
    (hchild : childAt object step = some child) : Known base child := by
  have hmember : ∀ {key : String} {inner : Value}, object.get key = some inner → Known base inner :=
    fun hget => (known_object.mp h _ (Map.mem_of_get hget)).2
  cases step with
  | member keyword name =>
      obtain ⟨schemas, hschemas, hname⟩ := Option.bind_eq_some_iff.mp hchild
      obtain ⟨inner, hinner, hmap⟩ := Option.bind_eq_some_iff.mp hschemas
      obtain rfl := Value.asObject_eq_some hmap
      exact (known_object.mp (hmember hinner) _ (Map.mem_of_get hname)).2
  | anyOf index =>
      obtain ⟨variants, hvariants, hindex⟩ := Option.bind_eq_some_iff.mp hchild
      obtain ⟨inner, hinner, harray⟩ := Option.bind_eq_some_iff.mp hvariants
      cases inner with
      | array items =>
          cases harray
          exact known_array.mp (hmember hinner) child (List.mem_of_getElem? hindex)
      | _ => cases harray
  | items => exact hmember hchild

theorem mem_references (h : Known base (.object object)) (href : object.get "$ref" = some (.string reference)) :
    reference ∈ references base :=
  (known_object.mp h _ (Map.mem_of_get href)).1 reference rfl

theorem known_reference (hmem : reference ∈ references base) :
    Known base (.object [("$ref", .string reference)]) := by
  rw [known_object, List.forall_mem_singleton]
  constructor
  · intro other heq
    cases heq
    exact hmem
  · intro other hother
    cases hother

theorem known_mergeSiblings (hresolved : Known base (.object resolved)) (hobject : Known base (.object object)) :
    Known base (.object (mergeSiblings resolved object)) := by
  rw [mergeSiblings]
  induction object generalizing resolved with
  | nil => exact hresolved
  | cons member rest ih =>
      obtain ⟨hmember, hrest⟩ := List.forall_mem_cons.mp (known_object.mp hobject)
      rw [List.foldl_cons]
      apply ih _ (known_object.mpr hrest)
      split
      · exact hresolved
      · rw [known_object]
        intro other hother
        obtain hold | rfl := Map.mem_insert hother
        · exact known_object.mp hresolved other hold
        · exact hmember

end Known

section Node

variable {recur recur' : NodePass} {path : String} {object object' : Map}

/-- The values that the loop over the members visits. -/
def visited : String × Value → List Value
  | (key, child) =>
      if key = "$defs" ∨ key = "definitions" then ((child.asObject).getD []).map Prod.snd
      else if key = "anyOf" then child.asArray.getD []
      else if key = "items" then [child]
      else []

/-- The values that are visited below a schema without a reference. -/
def below (object : Map) : List Value :=
  object.flatMap visited ++
    (((object.get "properties").bind Value.asObject).elim [] fun properties =>
      (prepareProperties object properties).map Prod.snd)

theorem normalizeSchemas_returns {schemas : Map}
    (hrecur : ∀ child ∈ schemas.map Prod.snd, ∀ path, (recur path child).Returns) :
    (normalizeSchemas recur path schemas).Returns := by
  apply returns_traverse
  intro member hmem
  exact returns_bind (hrecur member.2 (List.mem_map_of_mem hmem) _) fun _ _ => returns_done

theorem normalizeMember_returns {member : String × Value}
    (hrecur : ∀ child ∈ visited member, ∀ path, (recur path child).Returns) :
    (normalizeMember recur path member).Returns := by
  obtain ⟨key, child⟩ := member
  rw [visited] at hrecur
  rw [normalizeMember.eq_def]
  simp only
  split
  · rename_i hkey
    rw [if_pos hkey] at hrecur
    split
    · exact returns_bind (normalizeSchemas_returns hrecur) fun _ _ => returns_done
    · exact returns_fail
  · rename_i hdefs
    rw [if_neg hdefs] at hrecur
    split
    · rename_i hkey
      rw [if_pos hkey] at hrecur
      split
      · rename_i items
        refine returns_bind (returns_traverse fun item hmem => ?_) fun _ _ => returns_done
        exact hrecur item.1 (List.fst_mem_of_mem_zipIdx hmem) _
      · exact returns_fail
    · rename_i hanyOf
      rw [if_neg hanyOf] at hrecur
      split
      · rename_i hkey
        rw [if_pos hkey] at hrecur
        split
        · exact returns_bind (hrecur _ List.mem_cons_self _) fun _ _ => returns_done
        · exact returns_bind (hrecur _ List.mem_cons_self _) fun _ _ => returns_done
        · exact returns_fail
      · exact returns_done

theorem closeObject_returns : (closeObject path object).Returns := by
  rw [closeObject]
  split
  · exact returns_done
  · exact returns_done
  · exact returns_fail

theorem normalizeObject_returns (hrecur : ∀ child ∈ below object, ∀ path, (recur path child).Returns) :
    (normalizeObject recur path object).Returns := by
  refine returns_bind closeObject_returns fun closed hclosed => returns_bind ?_ fun _ _ => returns_done
  obtain ⟨-, hother⟩ := closeObject_spec hclosed
  rw [normalizeProperties, hother "properties" (by decide)]
  split
  · rename_i properties hproperties
    refine returns_bind (normalizeSchemas_returns ?_) fun _ _ => returns_done
    rw [prepareProperties_congr (hother "required" (by decide))]
    intro child hmem
    apply hrecur child
    rw [below, hproperties]
    exact List.mem_append_right _ hmem
  · exact returns_done

/-- What an object schema gets, and what is visited in it. -/
theorem visited_of_normalizeObject (h : (normalizeObject recur path object).Yields object') {member : String × Value}
    (hmem : member ∈ object') : member ∈ object ∨ visited member = [] := by
  have hinsert : ∀ {m : Map} {key : String} {value : Value}, visited (key, value) = [] →
      (∀ member ∈ m, member ∈ object ∨ visited member = []) →
      ∀ member ∈ m.insert key value, member ∈ object ∨ visited member = [] := by
    intro m key value hvisited hm member hmem
    obtain hold | rfl := Map.mem_insert hmem
    · exact hm member hold
    · exact .inr hvisited
  obtain ⟨closed, hclosed, hrest⟩ := Pass.yields_bind h
  obtain ⟨⟨object1, names⟩, hproperties, hdone⟩ := Pass.yields_bind hrest
  have hclose : ∀ member ∈ closed, member ∈ object ∨ visited member = [] := by
    rw [closeObject] at hclosed
    split at hclosed
    · rw [Pass.yields_done hclosed]
      exact hinsert rfl fun _ hmem => .inl hmem
    · rw [Pass.yields_done hclosed]
      exact fun _ hmem => .inl hmem
    · exact absurd hclosed Pass.not_yields_fail
  have hloop : ∀ member ∈ object1, member ∈ object ∨ visited member = [] := by
    rw [normalizeProperties] at hproperties
    split at hproperties
    · obtain ⟨properties', -, hpair⟩ := Pass.yields_bind hproperties
      cases Pass.yields_done hpair
      exact hinsert rfl hclose
    · cases Pass.yields_done hproperties
      exact hclose
  rw [Pass.yields_done hdone] at hmem
  exact hinsert rfl hloop member hmem

theorem normalizeNode_returns (hrecur : ∀ child ∈ below object, ∀ path, (recur path child).Returns) :
    (normalizeNode recur path object).Returns := by
  have hmembers : ∀ {object1 : Map}, (∀ member ∈ object1, member ∈ object ∨ visited member = []) →
      (Pass.traverse (normalizeMember recur path) object1).Returns := by
    intro object1 hobject1
    apply returns_traverse
    intro member hmem
    apply normalizeMember_returns
    intro child hchild
    obtain hold | hnothing := hobject1 member hmem
    · exact hrecur child (List.mem_append_left _ (List.mem_flatMap.mpr ⟨member, hold, hchild⟩))
    · rw [hnothing] at hchild
      cases hchild
  rw [normalizeNode]
  split
  · refine returns_bind (normalizeObject_returns hrecur) fun object1 hobject1 => ?_
    exact hmembers fun member hmem => visited_of_normalizeObject hobject1 hmem
  · exact returns_bind returns_done fun object1 hobject1 => hmembers fun member hmem => by
      rw [Pass.yields_done hobject1] at hmem
      exact .inl hmem

theorem normalizeSchemas_refines {schemas : Map}
    (hrecur : ∀ child ∈ schemas.map Prod.snd, ∀ path, Refines (recur path child) (recur' path child)) :
    Refines (normalizeSchemas recur path schemas) (normalizeSchemas recur' path schemas) := by
  apply Refines.traverse
  intro member hmem
  exact (hrecur member.2 (List.mem_map_of_mem hmem) _).bind fun _ _ => .refl _

theorem normalizeMember_refines {member : String × Value}
    (hrecur : ∀ child ∈ visited member, ∀ path, Refines (recur path child) (recur' path child)) :
    Refines (normalizeMember recur path member) (normalizeMember recur' path member) := by
  obtain ⟨key, child⟩ := member
  rw [visited] at hrecur
  rw [normalizeMember.eq_def, normalizeMember.eq_def]
  simp only
  split
  · rename_i hkey
    rw [if_pos hkey] at hrecur
    split
    · exact (normalizeSchemas_refines hrecur).bind fun _ _ => .refl _
    · exact .refl _
  · rename_i hdefs
    rw [if_neg hdefs] at hrecur
    split
    · rename_i hkey
      rw [if_pos hkey] at hrecur
      split
      · refine Refines.bind (.traverse fun item hmem => ?_) fun _ _ => .refl _
        exact hrecur item.1 (List.fst_mem_of_mem_zipIdx hmem) _
      · exact .refl _
    · rename_i hanyOf
      rw [if_neg hanyOf] at hrecur
      split
      · rename_i hkey
        rw [if_pos hkey] at hrecur
        split
        · exact (hrecur _ List.mem_cons_self _).bind fun _ _ => .refl _
        · exact (hrecur _ List.mem_cons_self _).bind fun _ _ => .refl _
        · exact .refl _
      · exact .refl _

theorem normalizeObject_refines
    (hrecur : ∀ child ∈ below object, ∀ path, Refines (recur path child) (recur' path child)) :
    Refines (normalizeObject recur path object) (normalizeObject recur' path object) := by
  refine (Refines.refl _).bind fun closed hclosed => Refines.bind ?_ fun _ _ => .refl _
  obtain ⟨-, hother⟩ := closeObject_spec hclosed
  rw [normalizeProperties, normalizeProperties, hother "properties" (by decide)]
  split
  · rename_i properties hproperties
    refine (normalizeSchemas_refines ?_).bind fun _ _ => .refl _
    rw [prepareProperties_congr (hother "required" (by decide))]
    intro child hmem
    apply hrecur child
    rw [below, hproperties]
    exact List.mem_append_right _ hmem
  · exact .refl _

/-- The passes over a schema only depend on what becomes of the values below it. -/
theorem normalizeNode_refines
    (hrecur : ∀ child ∈ below object, ∀ path, Refines (recur path child) (recur' path child)) :
    Refines (normalizeNode recur path object) (normalizeNode recur' path object) := by
  have hmembers : ∀ {object1 : Map}, (∀ member ∈ object1, member ∈ object ∨ visited member = []) →
      Refines (Pass.traverse (normalizeMember recur path) object1)
        (Pass.traverse (normalizeMember recur' path) object1) := by
    intro object1 hobject1
    apply Refines.traverse
    intro member hmem
    apply normalizeMember_refines
    intro child hchild
    obtain hold | hnothing := hobject1 member hmem
    · exact hrecur child (List.mem_append_left _ (List.mem_flatMap.mpr ⟨member, hold, hchild⟩))
    · rw [hnothing] at hchild
      cases hchild
  rw [normalizeNode, normalizeNode]
  split
  · refine (normalizeObject_refines hrecur).bind fun object1 hobject1 => ?_
    exact hmembers fun member hmem => visited_of_normalizeObject hobject1 hmem
  · refine (Refines.refl _).bind fun object1 hobject1 => hmembers fun member hmem => ?_
    rw [Pass.yields_done hobject1] at hmem
    exact .inl hmem

end Node

section MoreFuel

variable {base : Value} {render : Value → String} {fuel : Nat}

/-- More fuel does not change what is returned. -/
theorem normalize_refines (path : String) (chain : List String) (value : Value) :
    Refines (normalize base render fuel path chain value) (normalize base render (fuel + 1) path chain value) := by
  induction fuel generalizing path chain value with
  | zero => exact refines_diverge
  | succ fuel ih =>
      cases value with
      | object object =>
          rw [normalize, normalize]
          split
          · exact .refl _
          · split
            · refine (followRef_refines _ _ _).bind fun next _ => ?_
              split
              · exact .refl _
              · exact ih _ _ _
            · exact (normalizeNode_refines fun child _ path => ih path chain child).bind fun _ _ => .refl _
      | _ => exact .refl _

theorem normalize_refines_of_le {more : Nat} (hle : fuel ≤ more) (path : String) (chain : List String)
    (value : Value) :
    Refines (normalize base render fuel path chain value) (normalize base render more path chain value) := by
  induction hle with
  | refl => exact .refl _
  | step _ ih => exact ih.trans (normalize_refines path chain value)

end MoreFuel

section Termination

variable {base : Value} {render : Value → String} {chain chain' : List String} {value value' child : Value}
  {object : Map} {path : String} {fuel : Nat}

/-- The references that can still be inlined. -/
def pending (base : Value) (chain : List String) : List String := (references base).filter (· ∉ chain)

theorem pending_lt {reference : String} (hmem : reference ∈ references base) (hnew : reference ∉ chain) :
    (pending base (reference :: chain)).length < (pending base chain).length := by
  have hfilter : pending base (reference :: chain) = (pending base chain).filter (· ≠ reference) := by
    rw [pending, pending, List.filter_filter]
    apply List.filter_congr
    intro other _
    simp [not_or]
  rw [hfilter]
  apply List.length_filter_lt_length_iff_exists.mpr
  exact ⟨reference, List.mem_filter.mpr ⟨hmem, by simpa using hnew⟩, by simp⟩

theorem aliasLoop_returns {seen : List String} {current : String} (hmem : current ∈ references base)
    (hfuel : (pending base seen).length < fuel) : (aliasLoop base render path fuel seen current).Returns := by
  induction fuel generalizing seen current with
  | zero => exact absurd hfuel (Nat.not_lt_zero _)
  | succ fuel ih =>
      rw [aliasLoop]
      split
      · exact returns_fail
      · rename_i hnew
        split
        · split
          · exact returns_fail
          · rename_i resolved hresolved
            split
            · exact returns_done
            · rename_i next hnext
              have hless := pending_lt hmem hnew
              exact ih (mem_references (known_resolved hresolved) hnext) (by omega)
            · exact returns_fail
        · exact returns_fail

theorem followRef_returns {node : Value} (hknown : Known base (.object object))
    (hnode : object.get "$ref" = some node) (hfuel : (references base).length < fuel) :
    (followRef base render fuel path chain object node).Returns := by
  cases node with
  | string reference =>
      have hpending : pending base [] = references base := by simp [pending]
      rw [followRef]
      split
      · split
        · exact returns_fail
        · refine returns_bind (aliasLoop_returns (mem_references hknown hnode) (by rwa [hpending])) fun _ _ => ?_
          split
          · exact returns_done
          · split
            · split
              · exact returns_fail
              · exact returns_done
            · refine returns_bind returns_modifyGet fun within _ => ?_
              split
              · exact returns_done
              · exact returns_fail
      · exact returns_fail
  | _ => exact returns_fail

/-- With enough fuel the normalization of the value returns. -/
def Terminates (base : Value) (render : Value → String) (chain : List String) (value : Value) : Prop :=
  ∃ fuel, ∀ path, (normalize base render fuel path chain value).Returns

/-- Some fuel is enough for all of them. -/
theorem terminates_all {values : List Value} (h : ∀ value ∈ values, Terminates base render chain value) :
    ∃ fuel, ∀ value ∈ values, ∀ path, (normalize base render fuel path chain value).Returns := by
  induction values with
  | nil => exact ⟨0, by simp⟩
  | cons value rest ih =>
      obtain ⟨hvalue, hrest⟩ := List.forall_mem_cons.mp h
      obtain ⟨fuel, hfuel⟩ := hvalue
      obtain ⟨more, hmore⟩ := ih hrest
      refine ⟨max fuel more, List.forall_mem_cons.mpr ⟨fun path => ?_, fun other hmem path => ?_⟩⟩
      · exact (hfuel path).refines (normalize_refines_of_le (Nat.le_max_left _ _) path chain value)
      · exact (hmore other hmem path).refines (normalize_refines_of_le (Nat.le_max_right _ _) path chain other)

theorem terminates_scalar (h : ∀ object : Map, value ≠ .object object) : Terminates base render chain value := by
  refine ⟨1, fun path => ?_⟩
  cases value with
  | object object => exact absurd rfl (h object)
  | _ => exact returns_done

theorem terminates_below (hnone : object.get "$ref" = none)
    (h : ∀ child ∈ below object, Terminates base render chain child) :
    Terminates base render chain (.object object) := by
  obtain ⟨fuel, hfuel⟩ := terminates_all h
  refine ⟨fuel + 1, fun path => ?_⟩
  rw [normalize]
  split
  · exact returns_fail
  · simp only [hnone]
    exact returns_bind (normalizeNode_returns hfuel) fun _ _ => returns_done

theorem terminates_follows {node : Value} (hknown : Known base (.object object))
    (hnode : object.get "$ref" = some node)
    (h : ∀ chain' value', Follows base chain object chain' value' → Terminates base render chain' value') :
    Terminates base render chain (.object object) := by
  have hnext : ∃ fuel, ∀ chain' value', Follows base chain object chain' value' →
      ∀ path, (normalize base render fuel path chain' value').Returns := by
    by_cases hfollows : ∃ chain' value', Follows base chain object chain' value'
    · obtain ⟨chain', value', hfollows⟩ := hfollows
      obtain ⟨fuel, hfuel⟩ := h chain' value' hfollows
      refine ⟨fuel, fun chain'' value'' hfollows' => ?_⟩
      obtain ⟨rfl, rfl⟩ := hfollows.deterministic hfollows'
      exact hfuel
    · exact ⟨0, fun chain' value' hnow => absurd ⟨chain', value', hnow⟩ hfollows⟩
  obtain ⟨fuel, hfuel⟩ := hnext
  refine ⟨max fuel ((references base).length + 1) + 1, fun path => ?_⟩
  rw [normalize]
  split
  · exact returns_fail
  · simp only [hnode]
    have henough : (references base).length < max fuel ((references base).length + 1) := by omega
    refine returns_bind (followRef_returns hknown hnode henough) fun next hyields => ?_
    obtain ⟨reference, -, -, -, hcases⟩ := followRef_cases hnode hyields
    obtain ⟨rfl, -⟩ | ⟨chain', value', rfl, hfollows⟩ := hcases
    · exact returns_done
    · exact (hfuel chain' value' hfollows path).refines
        (normalize_refines_of_le (Nat.le_max_left _ _) path chain' value')

/-- A schema without a reference, by the schemas in its members. -/
theorem terminates_members (hnone : object.get "$ref" = none)
    (hvisited : ∀ member ∈ object, ∀ child ∈ visited member, Terminates base render chain child)
    (hproperties : ∀ properties : Map, ("properties", .object properties) ∈ object →
      ∀ property ∈ properties, Terminates base render chain property.2) :
    Terminates base render chain (.object object) := by
  have hnullable : ∀ schema, Terminates base render chain schema →
      Terminates base render chain (makeNullable schema) := by
    intro schema hschema
    have hnull : Terminates base render chain (.object [("type", .string "null")]) := by
      apply terminates_below rfl
      intro child hmem
      exact absurd hmem (by simp [below, visited, Map.get_cons, Map.get_nil])
    rw [makeNullable]
    split
    · exact hschema
    · apply terminates_below rfl
      intro child hmem
      have hcases : child = schema ∨ child = .object [("type", .string "null")] := by
        simpa [below, visited, Map.get_cons, Map.get_nil, Value.asArray] using hmem
      obtain rfl | rfl := hcases
      · exact hschema
      · exact hnull
  apply terminates_below hnone
  intro child hmem
  obtain hmember | hproperty := List.mem_append.mp hmem
  · obtain ⟨member, hmember, hchild⟩ := List.mem_flatMap.mp hmember
    exact hvisited member hmember child hchild
  · cases hvalue : (object.get "properties").bind Value.asObject with
    | none =>
        rw [hvalue] at hproperty
        cases hproperty
    | some properties =>
        rw [hvalue, Option.elim_some, prepareProperties, List.map_map] at hproperty
        obtain ⟨property, hmember, rfl⟩ := List.mem_map.mp hproperty
        obtain ⟨node, hnode, hobject⟩ := Option.bind_eq_some_iff.mp hvalue
        obtain rfl := Value.asObject_eq_some hobject
        have hterminates := hproperties properties (Map.mem_of_get hnode) property hmember
        rw [Function.comp_apply]
        split
        · exact hterminates
        · exact hnullable _ hterminates

theorem countNodes_item {items : List Value} (h : child ∈ items) : countNodes child < countNodes (.array items) := by
  have hle : countNodes child ≤ countItems items := by
    induction items with
    | nil => cases h
    | cons item rest ih =>
        rw [countItems]
        obtain rfl | hrest := List.mem_cons.mp h
        · omega
        · have hrest := ih hrest
          omega
  rw [countNodes]
  omega

theorem countNodes_member {members : Map} {member : String × Value} (h : member ∈ members) :
    countNodes member.2 < countNodes (.object members) := by
  have hle : countNodes member.2 ≤ countMembers members := by
    induction members with
    | nil => cases h
    | cons other rest ih =>
        rw [countMembers]
        obtain rfl | hrest := List.mem_cons.mp h
        · omega
        · have hrest := ih hrest
          omega
  rw [countNodes]
  omega

/-- What is visited in a member is its value or directly below it. -/
theorem visited_cases {member : String × Value} (h : child ∈ visited member) :
    child = member.2 ∨ (∃ items, member.2 = .array items ∧ child ∈ items) ∨
      ∃ schemas entry, member.2 = .object schemas ∧ entry ∈ schemas ∧ entry.2 = child := by
  obtain ⟨key, value⟩ := member
  rw [visited] at h
  split at h
  · obtain ⟨entry, hentry, rfl⟩ := List.mem_map.mp h
    cases value with
    | object schemas => exact .inr (.inr ⟨schemas, entry, rfl, hentry, rfl⟩)
    | _ => cases hentry
  · split at h
    · cases value with
      | array items => exact .inr (.inl ⟨items, rfl, h⟩)
      | _ => cases h
    · split at h
      · exact .inl (List.mem_singleton.mp h)
      · cases h

theorem countNodes_visited {member : String × Value} (h : child ∈ visited member) :
    countNodes child ≤ countNodes member.2 := by
  obtain rfl | ⟨items, hitems, hmem⟩ | ⟨schemas, entry, hschemas, hmem, rfl⟩ := visited_cases h
  · exact Nat.le_refl _
  · rw [hitems]
    exact Nat.le_of_lt (countNodes_item hmem)
  · rw [hschemas]
    exact Nat.le_of_lt (countNodes_member hmem)

/-- What is visited in a member has its references. -/
theorem known_visited {member : String × Value} (hknown : Known base member.2) (h : child ∈ visited member) :
    Known base child := by
  obtain rfl | ⟨items, hitems, hmem⟩ | ⟨schemas, entry, hschemas, hmem, rfl⟩ := visited_cases h
  · exact hknown
  · rw [hitems] at hknown
    exact known_array.mp hknown child hmem
  · rw [hschemas] at hknown
    exact (known_object.mp hknown entry hmem).2

theorem terminates_bare {reference : String} (hmem : reference ∈ references base) :
    Terminates base render chain (.object [("$ref", .string reference)]) := by
  refine terminates_follows (known_reference hmem) rfl fun chain' value' hfollows => ?_
  cases hfollows with
  | inline _ hlength _ _ => exact absurd rfl hlength
  | recursive _ hlength _ _ => exact absurd rfl hlength

theorem get_ref_keepRecursion (object : Map) (reference : String) :
    (keepRecursion object reference).get "$ref" = none := by
  rw [keepRecursion, Map.get_insert, if_neg (by decide)]
  simpa [Map.containsKey_eq_isSome] using Map.containsKey_remove object "$ref"

/-- A recursive reference that is moved into `anyOf`. -/
theorem terminates_keepRecursion {reference : String} (hmem : reference ∈ references base)
    (hvisited : ∀ member ∈ object, ∀ child ∈ visited member, Terminates base render chain child)
    (hproperties : ∀ properties : Map, ("properties", .object properties) ∈ object →
      ∀ property ∈ properties, Terminates base render chain property.2) :
    Terminates base render chain (.object (keepRecursion object reference)) := by
  have hold : ∀ member ∈ keepRecursion object reference,
      member ∈ object ∨ member = ("anyOf", .array [.object [("$ref", .string reference)]]) := by
    intro member hmember
    obtain hkept | hnew := Map.mem_insert hmember
    · exact .inl (Map.mem_of_mem_remove hkept)
    · exact .inr hnew
  apply terminates_members (get_ref_keepRecursion object reference)
  · intro member hmember child hchild
    obtain hkept | rfl := hold member hmember
    · exact hvisited member hkept child hchild
    · obtain rfl : child = .object [("$ref", .string reference)] := by
        simpa [visited, Value.asArray] using hchild
      exact terminates_bare hmem
  · intro properties hmember
    obtain hkept | hnew := hold _ hmember
    · exact hproperties properties hkept
    · exact absurd (congrArg Prod.fst hnew) (by simp)

/-- Every value with the references of the document is normalized with enough fuel. -/
theorem terminates (hknown : Known base value) : Terminates base render chain value := by
  -- Inlining uses up a pending reference; everything else goes down in the value.
  induction hpending : (pending base chain).length using Nat.strongRecOn generalizing chain value with
  | _ pendings ihPending =>
  induction hnodes : countNodes value using Nat.strongRecOn generalizing value with
  | _ nodes ihNodes =>
  cases value with
  | object object =>
      have hmember := known_object.mp hknown
      have hvisited : ∀ member ∈ object, ∀ child ∈ visited member, Terminates base render chain child := by
        intro member hmem child hchild
        have hle := countNodes_visited hchild
        have hlt := countNodes_member hmem
        exact ihNodes (countNodes child) (by omega) (known_visited (hmember member hmem).2 hchild) rfl
      have hproperties : ∀ properties : Map, ("properties", .object properties) ∈ object →
          ∀ property ∈ properties, Terminates base render chain property.2 := by
        intro properties hmem property hproperty
        have hpropertyKnown := known_object.mp (hmember _ hmem).2 property hproperty
        have hlt : countNodes property.2 < countNodes (.object object) :=
          Nat.lt_trans (countNodes_member hproperty) (countNodes_member hmem)
        exact ihNodes (countNodes property.2) (by omega) hpropertyKnown.2 rfl
      cases href : Map.get object "$ref" with
      | none => exact terminates_members href hvisited hproperties
      | some node =>
          apply terminates_follows hknown href
          intro chain' value' hfollows
          cases hfollows with
          | @inline reference resolved hreference _ hresolved hnew =>
              have hlt := pending_lt (mem_references hknown hreference) hnew
              exact ihPending _ (by omega) (known_mergeSiblings (known_resolved hresolved) hknown) rfl
          | recursive hreference _ _ _ =>
              exact terminates_keepRecursion (mem_references hknown hreference) hvisited hproperties
  | _ => exact terminates_scalar (by simp)

/-- `normalize_strict_schema` returns on every document, and what it returns does not depend on the fuel. -/
theorem normalizeStrictSchema_total (render : Value → String) (schema : Value) :
    ∃ fuel result, ∀ more, fuel ≤ more → normalizeStrictSchema render more schema = some result := by
  have hknown : Known (stripSchema schema) (stripSchema schema) := fun _ hmem => hmem
  obtain ⟨fuel, hfuel⟩ : Terminates (stripSchema schema) render [] (stripSchema schema) := terminates hknown
  obtain ⟨result, hresult⟩ := Option.ne_none_iff_exists'.mp (hfuel "#" 0)
  have hmore : ∀ more, fuel ≤ more →
      normalizeStrictSchema render more schema = normalizeStrictSchema render fuel schema := by
    intro more hle
    rw [normalizeStrictSchema, normalizeStrictSchema, hresult,
      normalize_refines_of_le hle "#" [] (stripSchema schema) 0 result hresult]
  have hsome : ∃ result, normalizeStrictSchema render fuel schema = some result := by
    rw [normalizeStrictSchema, hresult]
    cases result with
    | error error => exact ⟨_, rfl⟩
    | ok pair =>
        simp only
        split
        · exact ⟨_, rfl⟩
        · exact ⟨_, rfl⟩
  obtain ⟨result, hresult⟩ := hsome
  exact ⟨fuel, result, fun more hle => (hmore more hle).trans hresult⟩

end Termination

end OpenaiRs.StrictSchema
