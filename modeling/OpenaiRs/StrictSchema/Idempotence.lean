import OpenaiRs.StrictSchema.Closure
import OpenaiRs.StrictSchema.Fixpoint

/-!
# Normalizing twice

When all references are the whole document or one of its definitions, the result of the normalization is
in normal form with respect to itself. A second run leaves it alone unless its root has a `$schema`, which
the second run removes.
-/

namespace OpenaiRs.StrictSchema

open Serde Fallible

section Distinct

variable {base value u : Value} {render : Value → String} {object object' object1 schemas schemas' resolved : Map}
  {chain chain' : List String} {recur : NodePass} {path : String} {fuel : Nat}

/-- What an object is made of when its members are distinct. -/
theorem distinctKeys_insert (hobject : Value.DistinctKeys (.object object)) {key : String}
    (hvalue : value.DistinctKeys) : Value.DistinctKeys (.object (object.insert key value)) := by
  refine .object (Map.nodup_insert hobject.nodup key value) fun member hmem => ?_
  obtain hold | rfl := Map.mem_insert hmem
  · exact hobject.member hold
  · exact hvalue

theorem distinctKeys_mergeSiblings (hresolved : Value.DistinctKeys (.object resolved))
    (hobject : Value.DistinctKeys (.object object)) : Value.DistinctKeys (.object (mergeSiblings resolved object)) := by
  have hmembers : ∀ member ∈ object, member.2.DistinctKeys := fun member hmem => hobject.member hmem
  clear hobject
  rw [mergeSiblings]
  induction object generalizing resolved with
  | nil => exact hresolved
  | cons member rest ih =>
      obtain ⟨hmember, hrest⟩ := List.forall_mem_cons.mp hmembers
      rw [List.foldl_cons]
      split
      · exact ih hresolved hrest
      · exact ih (distinctKeys_insert hresolved hmember) hrest

theorem distinctKeys_reference (reference : String) : Value.DistinctKeys (.object [("$ref", .string reference)]) :=
  .object (by simp) (by simpa using .string reference)

theorem distinctKeys_keepRecursion (hobject : Value.DistinctKeys (.object object)) (reference : String) :
    Value.DistinctKeys (.object (keepRecursion object reference)) := by
  apply distinctKeys_insert
  · exact .object (Map.nodup_remove hobject.nodup _) fun member hmem => hobject.member (Map.mem_of_mem_remove hmem)
  · exact .array (by simpa using distinctKeys_reference reference)

theorem distinctKeys_resolved {reference : String} (hbase : base.DistinctKeys)
    (hresolved : (resolveRef base reference).bind Value.asObject = some resolved) :
    Value.DistinctKeys (.object resolved) :=
  resolved_induct (P := Value.DistinctKeys) (fun _ _ _ hmembers hnext => hmembers.get hnext) hbase hresolved

theorem Follows.distinctKeys (hbase : base.DistinctKeys) (hobject : Value.DistinctKeys (.object object))
    (h : Follows base chain object chain' value) : value.DistinctKeys := by
  cases h with
  | inline _ _ hresolved _ => exact distinctKeys_mergeSiblings (distinctKeys_resolved hbase hresolved) hobject
  | recursive _ _ _ _ => exact distinctKeys_keepRecursion hobject _

theorem distinctKeys_makeNullable (hvalue : value.DistinctKeys) : (makeNullable value).DistinctKeys := by
  rw [makeNullable]
  split
  · exact hvalue
  · have hnull : Value.DistinctKeys (.object [("type", .string "null")]) :=
      .object (by simp) (by simpa using .string "null")
    have hvariants : Value.DistinctKeys (.array [value, .object [("type", .string "null")]]) :=
      .array (by simpa using ⟨hvalue, hnull⟩)
    exact .object (by simp) (by simpa using hvariants)

theorem distinctKeys_prepareProperties (hschemas : Value.DistinctKeys (.object schemas)) :
    Value.DistinctKeys (.object (prepareProperties object schemas)) := by
  have hkeys : (prepareProperties object schemas).map Prod.fst = schemas.map Prod.fst := by
    rw [prepareProperties, List.map_map]
    rfl
  refine .object (hkeys ▸ hschemas.nodup) fun member hmem => ?_
  obtain ⟨property, hproperty, rfl⟩ := List.mem_map.mp hmem
  simp only
  split
  · exact hschemas.member hproperty
  · exact distinctKeys_makeNullable (hschemas.member hproperty)

/-- Related members with the same keys stay distinct. -/
theorem distinctKeys_of_pairs {R : String → Value → Value → Prop} (hpairs : Map.Pairs R schemas schemas')
    (hR : ∀ key value value', R key value value' → value.DistinctKeys → value'.DistinctKeys)
    (hschemas : Value.DistinctKeys (.object schemas)) : Value.DistinctKeys (.object schemas') := by
  have hkeys : schemas'.map Prod.fst = schemas.map Prod.fst := by
    clear hschemas
    induction hpairs with
    | nil => rfl
    | cons hmember _ ih => rw [List.map_cons, List.map_cons, ih, hmember.1]
  have hmembers : ∀ member ∈ schemas, member.2.DistinctKeys := fun member hmem => hschemas.member hmem
  have hmembers' : ∀ member ∈ schemas', member.2.DistinctKeys := by
    clear hkeys hschemas
    induction hpairs with
    | nil => simp
    | cons hmember _ ih =>
        obtain ⟨hfirst, hrest⟩ := List.forall_mem_cons.mp hmembers
        exact List.forall_mem_cons.mpr ⟨hR _ _ _ hmember.2 hfirst, ih hrest⟩
  exact .object (hkeys ▸ hschemas.nodup) hmembers'

/-- A pass that keeps the keys of what it visits distinct. -/
abbrev KeepsDistinct (value u : Value) : Prop := value.DistinctKeys → u.DistinctKeys

theorem MemberSpec.distinctKeys {key : String} {value value' : Value} (h : MemberSpec KeepsDistinct key value value')
    (hvalue : value.DistinctKeys) : value'.DistinctKeys := by
  cases h with
  | schemas _ hpairs => exact distinctKeys_of_pairs hpairs (fun _ _ _ h => h) hvalue
  | @variants children children' hchildren =>
      cases hvalue with
      | array hitems =>
          refine .array fun item hmem => ?_
          induction hchildren with
          | nil => cases hmem
          | cons hfirst _ ih =>
              obtain ⟨hitem, hrest⟩ := List.forall_mem_cons.mp hitems
              obtain rfl | hlater := List.mem_cons.mp hmem
              · exact hfirst hitem
              · exact ih hrest hlater
  | item _ hrel => exact hrel hvalue
  | other _ _ _ _ => exact hvalue

theorem normalizeObject_distinctKeys
    (hrecur : ∀ path child u, (recur path child).Yields u → KeepsDistinct child u)
    (h : (normalizeObject recur path object).Yields object') (hobject : Value.DistinctKeys (.object object)) :
    Value.DistinctKeys (.object object') := by
  obtain ⟨closed, hclosed, hrest⟩ := Pass.yields_bind h
  obtain ⟨⟨object1, names⟩, hproperties, hdone⟩ := Pass.yields_bind hrest
  have hclosed' : Value.DistinctKeys (.object closed) := by
    rw [closeObject] at hclosed
    split at hclosed
    · rw [Pass.yields_done hclosed]
      exact distinctKeys_insert hobject (.bool false)
    · rw [Pass.yields_done hclosed]
      exact hobject
    · exact absurd hclosed Pass.not_yields_fail
  have hobject1 : Value.DistinctKeys (.object object1) := by
    rw [normalizeProperties] at hproperties
    split at hproperties
    · rename_i properties hget
      obtain ⟨properties', hpairs, hpair⟩ := Pass.yields_bind hproperties
      cases Pass.yields_done hpair
      apply distinctKeys_insert hclosed'
      apply distinctKeys_of_pairs (normalizeSchemas_pairs hrecur hpairs) fun _ _ _ h => h
      exact distinctKeys_prepareProperties (hclosed'.get hget)
    · cases Pass.yields_done hproperties
      exact hclosed'
  rw [Pass.yields_done hdone]
  apply distinctKeys_insert hobject1
  refine .array fun item hmem => ?_
  obtain ⟨name, -, rfl⟩ := List.mem_map.mp hmem
  exact .string name

theorem normalizeNode_distinctKeys
    (hrecur : ∀ path child u, (recur path child).Yields u → KeepsDistinct child u)
    (h : (normalizeNode recur path object).Yields object') (hobject : Value.DistinctKeys (.object object)) :
    Value.DistinctKeys (.object object') := by
  have hloop : ∀ {object1 : Map}, (Pass.traverse (normalizeMember recur path) object1).Yields object' →
      Value.DistinctKeys (.object object1) → Value.DistinctKeys (.object object') := by
    intro object1 hmembers hobject1
    have hpairs : Map.Pairs (MemberSpec KeepsDistinct) object1 object' :=
      (Pass.yields_traverse hmembers).imp fun _ _ => normalizeMember_spec hrecur
    exact distinctKeys_of_pairs hpairs (fun _ _ _ h => h.distinctKeys) hobject1
  rw [normalizeNode] at h
  split at h
  · obtain ⟨object1, hobject1, hmembers⟩ := Pass.yields_bind h
    exact hloop hmembers (normalizeObject_distinctKeys hrecur hobject1 hobject)
  · obtain ⟨object1, hobject1, hmembers⟩ := Pass.yields_bind h
    rw [Pass.yields_done hobject1] at hmembers
    exact hloop hmembers hobject

/-- A normalized document has every key once when the document has. -/
theorem Normalizes.distinctKeys (hbase : base.DistinctKeys) (h : Normalizes base render chain value u) :
    KeepsDistinct value u := by
  obtain ⟨fuel, path, h⟩ := h
  induction fuel generalizing path chain value u with
  | zero => exact absurd h Pass.not_yields_diverge
  | succ fuel ih =>
      intro hvalue
      cases value with
      | object object =>
          rw [normalize] at h
          split at h
          · exact absurd h Pass.not_yields_fail
          · split at h
            · rename_i node hnode
              obtain ⟨next, hnext, hrest⟩ := Pass.yields_bind h
              obtain ⟨reference, rfl, -, -, hcases⟩ := followRef_cases hnode hnext
              obtain ⟨rfl, -⟩ | ⟨chain', value', rfl, hfollows⟩ := hcases
              · rw [Pass.yields_done hrest]
                exact hvalue
              · exact ih path hrest (hfollows.distinctKeys hbase hvalue)
            · obtain ⟨object', hobject, hdone⟩ := Pass.yields_bind h
              rw [Pass.yields_done hdone]
              exact normalizeNode_distinctKeys (fun path child u hchild => ih path hchild) hobject hvalue
      | _ =>
          rw [Pass.yields_done h]
          exact hvalue

end Distinct

section PlainReferences

variable {base value child u : Value} {render : Value → String} {object object' resolved : Map}
  {chain chain' : List String} {reference : String} {step : Step} {steps : List Step}

/-- The whole document or one of its definitions, whose name is one segment of the pointer. -/
def PlainReference (reference : String) : Prop :=
  reference = "#" ∨ ∃ name : String, '/' ∉ name.toList ∧
    (reference = "#/$defs/" ++ name ∨ reference = "#/definitions/" ++ name)

/-- The references of all schemas of a document are plain. -/
def PlainReferences (value : Value) : Prop :=
  ∀ (steps : List Step) (object : Map) (reference : String), schemaAt value steps = some (.object object) →
    object.get "$ref" = some (.string reference) → PlainReference reference

theorem splitOn_pair {front back : List Char} (hfront : '/' ∉ front) (hback : '/' ∉ back) :
    (front ++ '/' :: back).splitOn '/' = [front, back] := by
  have hnone : ∀ {part : List Char}, '/' ∉ part → ∀ ch ∈ part, (ch == '/') = false := by
    intro part hpart ch hmem
    rw [beq_eq_false_iff_ne]
    rintro rfl
    exact hpart hmem
  rw [List.splitOn_eq_splitOnP, List.splitOnP_append_cons_of_forall_mem (hnone hfront) '/' (by simp),
    List.splitOnP_eq_singleton (hnone hback)]

/-- The keys of a pointer to a definition. -/
theorem pointerKeys_definition {keyword : SchemaMap} (hkeyword : keyword ≠ .properties) {name : String}
    (hname : '/' ∉ name.toList)
    (hreference : reference.toList = '#' :: '/' :: (keyword.key.toList ++ '/' :: name.toList)) :
    pointerKeys reference = (unescapePointer name.toList).map fun key => [keyword.key, key] := by
  have hroot : reference ≠ "#" := by
    rintro rfl
    have hlength : "#".toList.length = 1 := by rfl
    rw [hreference] at hlength
    cases hlength
  have hsegment : '/' ∉ keyword.key.toList ∧ unescapePointer keyword.key.toList = some keyword.key := by
    cases keyword with
    | properties => exact absurd rfl hkeyword
    | defs => decide +kernel
    | definitions => decide +kernel
  rw [pointerKeys, if_neg hroot, pointerOf, hreference]
  simp only [Option.bind_some, splitOn_pair hsegment.1 hname, List.mapM_cons, hsegment.2, List.mapM_nil]
  cases unescapePointer name.toList with
  | none => rfl
  | some key => rfl

/-- A plain reference addresses the root or a definition. -/
theorem PlainReference.keys (h : PlainReference reference) {keys : List String}
    (hkeys : pointerKeys reference = some keys) :
    reference = "#" ∨ ∃ (keyword : SchemaMap) (name : String), keyword ≠ .properties ∧ keys = [keyword.key, name] := by
  obtain rfl | ⟨name, hname, hreference⟩ := h
  · exact .inl rfl
  · have hdefinition : ∀ keyword : SchemaMap, keyword ≠ .properties →
        reference.toList = '#' :: '/' :: (keyword.key.toList ++ '/' :: name.toList) →
        ∃ (keyword : SchemaMap) (name : String), keyword ≠ .properties ∧ keys = [keyword.key, name] := by
      intro keyword hkeyword htext
      rw [pointerKeys_definition hkeyword hname htext] at hkeys
      obtain ⟨key, -, rfl⟩ := Option.map_eq_some_iff.mp hkeys
      exact ⟨keyword, key, hkeyword, rfl⟩
    obtain rfl | rfl := hreference
    · have hfront : "#/$defs/".toList = '#' :: '/' :: ("$defs".toList ++ ['/']) := by rfl
      refine .inr (hdefinition .defs (by decide) ?_)
      rw [String.toList_append, hfront, SchemaMap.key]
      simp
    · have hfront : "#/definitions/".toList = '#' :: '/' :: ("definitions".toList ++ ['/']) := by rfl
      refine .inr (hdefinition .definitions (by decide) ?_)
      rw [String.toList_append, hfront, SchemaMap.key]
      simp

theorem PlainReferences.descend (h : PlainReferences (.object object)) (hchild : childAt object step = some child) :
    PlainReferences child := by
  intro steps object' reference hat
  apply h (step :: steps) object' reference
  simpa [schemaAt, hchild, Value.asObject] using hat

/-- The references of a schema are its own and those below it. -/
theorem plainReferences_object (hown : ∀ reference, object.get "$ref" = some (.string reference) → PlainReference reference)
    (hbelow : ∀ step child, childAt object step = some child → PlainReferences child) :
    PlainReferences (.object object) := by
  intro steps object' reference hat
  cases steps with
  | nil =>
      cases hat
      exact hown reference
  | cons step rest =>
      obtain ⟨object1, hobject, hrest⟩ := Option.bind_eq_some_iff.mp hat
      obtain ⟨child, hchild, hat'⟩ := Option.bind_eq_some_iff.mp hrest
      cases hobject
      exact hbelow step child hchild rest object' reference hat'

/-- The member that a step goes through. -/
def Step.keyword : Step → String
  | .member keyword _ => keyword.key
  | .anyOf _ => "anyOf"
  | .items => "items"

theorem Step.keyword_mem (step : Step) :
    step.keyword ∈ ["properties", "$defs", "definitions", "anyOf", "items"] := by
  cases step with
  | member keyword name => cases keyword <;> simp [keyword, SchemaMap.key]
  | anyOf index => simp [keyword]
  | items => simp [keyword]

theorem Step.keyword_ne {key : String} (hkey : key ∉ ["properties", "$defs", "definitions", "anyOf", "items"])
    (step : Step) : step.keyword ≠ key :=
  fun heq => hkey (heq ▸ step.keyword_mem)

theorem Step.eq_anyOf (h : step.keyword = "anyOf") : ∃ index, step = .anyOf index := by
  cases step with
  | member keyword name =>
      have hne : keyword.key ≠ "anyOf" := by cases keyword <;> decide
      exact absurd h hne
  | anyOf index => exact ⟨index, rfl⟩
  | items => exact absurd h (by decide +revert)

/-- A step depends on one member only. -/
theorem childAt_of_get (h : ∀ value, object.get step.keyword = some value → object'.get step.keyword = some value)
    (hchild : childAt object step = some child) : childAt object' step = some child := by
  cases step with
  | member keyword name =>
      obtain ⟨schemas, hschemas, hname⟩ := Option.bind_eq_some_iff.mp hchild
      obtain ⟨inner, hinner, hmap⟩ := Option.bind_eq_some_iff.mp hschemas
      have hkept : object'.get keyword.key = some inner := h inner hinner
      rw [childAt, hkept, Option.bind_some, hmap]
      exact hname
  | anyOf index =>
      obtain ⟨variants, hvariants, hindex⟩ := Option.bind_eq_some_iff.mp hchild
      obtain ⟨inner, hinner, harray⟩ := Option.bind_eq_some_iff.mp hvariants
      have hkept : object'.get "anyOf" = some inner := h inner hinner
      rw [childAt, hkept, Option.bind_some, harray]
      exact hindex
  | items => exact h child hchild

theorem childAt_eq_none (h : object.get step.keyword = none) : childAt object step = none := by
  rw [Option.eq_none_iff_forall_ne_some]
  intro child hchild
  have hempty : childAt [] step = some child :=
    childAt_of_get (fun value hvalue => absurd (hvalue.symm.trans h) (by simp)) hchild
  cases step <;> cases hempty

theorem plainReferences_mergeSiblings (hnodup : (object.map Prod.fst).Nodup)
    (hresolved : PlainReferences (.object resolved)) (hobject : PlainReferences (.object object)) :
    PlainReferences (.object (mergeSiblings resolved object)) := by
  apply plainReferences_object
  · intro reference href
    rw [get_mergeSiblings] at href
    exact hresolved [] resolved reference rfl href
  · intro step child hchild
    have hkeyword : step.keyword ≠ "$ref" := step.keyword_ne (by decide)
    have hget := @get_mergeSiblings_sibling object resolved hnodup _ hkeyword
    cases hown : object.get step.keyword with
    | none =>
        rw [hown, Option.none_or] at hget
        exact hresolved.descend (childAt_of_get (fun value hvalue => hget ▸ hvalue) hchild)
    | some inner =>
        rw [hown, Option.some_or] at hget
        apply hobject.descend
        apply childAt_of_get (fun value hvalue => ?_) hchild
        rw [hown, ← hget]
        exact hvalue

theorem get_remove {m : Map} (hnodup : (m.map Prod.fst).Nodup) {key other : String} {value : Value}
    (h : (m.remove key).get other = some value) : m.get other = some value :=
  (Map.get_eq_some_iff_mem hnodup).mpr (Map.mem_of_mem_remove (Map.mem_of_get h))

theorem plainReferences_reference (hplain : PlainReference reference) :
    PlainReferences (.object [("$ref", .string reference)]) := by
  apply plainReferences_object
  · intro other hother
    rw [Map.get_cons, if_pos rfl] at hother
    cases hother
    exact hplain
  · intro step child hchild
    rw [childAt_bare] at hchild
    cases hchild

theorem plainReferences_keepRecursion (hnodup : (object.map Prod.fst).Nodup)
    (hobject : PlainReferences (.object object)) (hplain : PlainReference reference) :
    PlainReferences (.object (keepRecursion object reference)) := by
  apply plainReferences_object
  · intro other hother
    rw [get_ref_keepRecursion] at hother
    cases hother
  · intro step child hchild
    by_cases hanyOf : step.keyword = "anyOf"
    · obtain ⟨index, rfl⟩ := Step.eq_anyOf hanyOf
      rw [childAt, keepRecursion, Map.get_insert_self] at hchild
      have hvariant : child ∈ [Value.object [("$ref", .string reference)]] := List.mem_of_getElem? hchild
      rw [List.mem_singleton.mp hvariant]
      exact plainReferences_reference hplain
    · apply hobject.descend
      apply childAt_of_get (fun value hvalue => ?_) hchild
      rw [keepRecursion, Map.get_insert, if_neg (Ne.symm hanyOf)] at hvalue
      exact get_remove hnodup hvalue

theorem plainReferences_makeNullable (hvalue : PlainReferences value) : PlainReferences (makeNullable value) := by
  have hsingle : ∀ {key : String} {node : Value}, key ≠ "$ref" →
      (∀ step child, step.keyword = key → childAt [(key, node)] step = some child → PlainReferences child) →
      PlainReferences (.object [(key, node)]) := by
    intro key node hkey hbelow
    apply plainReferences_object
    · intro reference href
      rw [Map.get_cons, if_neg hkey, Map.get_nil] at href
      cases href
    · intro step child hchild
      by_cases hstep : step.keyword = key
      · exact hbelow step child hstep hchild
      · rw [childAt_eq_none (by rw [Map.get_cons, if_neg (Ne.symm hstep), Map.get_nil])] at hchild
        cases hchild
  have hnull : PlainReferences (.object [("type", .string "null")]) :=
    hsingle (by decide) fun step child hstep => absurd hstep (step.keyword_ne (by decide))
  rw [makeNullable]
  split
  · exact hvalue
  · apply hsingle (by decide)
    intro step child hstep hchild
    obtain ⟨index, rfl⟩ := Step.eq_anyOf hstep
    rw [childAt, Map.get_cons, if_pos rfl] at hchild
    have hvariant : child ∈ [value, .object [("type", .string "null")]] := List.mem_of_getElem? hchild
    rw [List.mem_pair] at hvariant
    obtain rfl | rfl := hvariant
    · exact hvalue
    · exact hnull

/-- A plain reference leads to a schema of the document. -/
theorem schemaAt_of_plain (hplain : PlainReference reference)
    (hresolved : (resolveRef base reference).bind Value.asObject = some resolved) :
    reference = "#" ∧ base = .object resolved ∨
      ∃ (keyword : SchemaMap) (name : String), keyword ≠ .properties ∧
        pointerKeys reference = some [keyword.key, name] ∧
        schemaAt base [.member keyword name] = some (.object resolved) := by
  obtain ⟨target, htarget, hobject⟩ := Option.bind_eq_some_iff.mp hresolved
  obtain rfl := Value.asObject_eq_some hobject
  rw [resolveRef_eq] at htarget
  obtain ⟨keys, hkeys, hlookup⟩ := Option.bind_eq_some_iff.mp htarget
  obtain rfl | ⟨keyword, name, hkeyword, rfl⟩ := hplain.keys hkeys
  · rw [pointerKeys, if_pos rfl] at hkeys
    cases hkeys
    exact .inl ⟨rfl, Option.some.inj hlookup⟩
  · refine .inr ⟨keyword, name, hkeyword, hkeys, ?_⟩
    obtain ⟨members, hmembers, hinner⟩ := Option.bind_eq_some_iff.mp hlookup
    obtain ⟨inner, hget, hname⟩ := Option.bind_eq_some_iff.mp hinner
    obtain ⟨schemas, hschemas, hlast⟩ := Option.bind_eq_some_iff.mp hname
    obtain ⟨last, hentry, heq⟩ := Option.bind_eq_some_iff.mp hlast
    cases heq
    simp only [schemaAt, childAt, hmembers, hget, hschemas, Option.bind_some]
    rw [hentry]
    rfl

theorem plainReferences_resolved (hbase : PlainReferences base) (hplain : PlainReference reference)
    (hresolved : (resolveRef base reference).bind Value.asObject = some resolved) :
    PlainReferences (.object resolved) := by
  obtain ⟨-, rfl⟩ | ⟨keyword, name, -, -, hat⟩ := schemaAt_of_plain hplain hresolved
  · exact hbase
  · obtain ⟨object, hobject, hrest⟩ := Option.bind_eq_some_iff.mp hat
    obtain ⟨child, hchild, heq⟩ := Option.bind_eq_some_iff.mp hrest
    obtain rfl := Value.asObject_eq_some hobject
    cases heq
    exact hbase.descend hchild

theorem distinctKeys_childAt (hobject : Value.DistinctKeys (.object object))
    (hchild : childAt object step = some child) : child.DistinctKeys := by
  cases step with
  | member keyword name =>
      obtain ⟨schemas, hschemas, hname⟩ := Option.bind_eq_some_iff.mp hchild
      obtain ⟨inner, hinner, hmap⟩ := Option.bind_eq_some_iff.mp hschemas
      obtain rfl := Value.asObject_eq_some hmap
      exact (hobject.get hinner).get hname
  | anyOf index =>
      obtain ⟨variants, hvariants, hindex⟩ := Option.bind_eq_some_iff.mp hchild
      obtain ⟨inner, hinner, harray⟩ := Option.bind_eq_some_iff.mp hvariants
      cases inner with
      | array items =>
          cases harray
          cases hobject.get hinner with
          | array hall => exact hall child (List.mem_of_getElem? hindex)
      | _ => cases harray
  | items => exact hobject.get hchild

/-- What the walk meets has distinct keys and plain references. -/
structure Plain (value : Value) : Prop where
  distinct : value.DistinctKeys
  references : PlainReferences value

theorem Follows.plain (hbase : Plain base) (hobject : Plain (.object object))
    (h : Follows base chain object chain' value) : Plain value := by
  refine ⟨h.distinctKeys hbase.distinct hobject.distinct, ?_⟩
  cases h with
  | inline href _ hresolved _ =>
      have hreference := hobject.references [] object _ rfl href
      exact plainReferences_mergeSiblings hobject.distinct.nodup
        (plainReferences_resolved hbase.references hreference hresolved) hobject.references
  | recursive href _ _ _ =>
      exact plainReferences_keepRecursion hobject.distinct.nodup hobject.references
        (hobject.references [] object _ rfl href)

theorem Unfolds.plain (hbase : Plain base) (h : Unfolds base chain value chain' u) (hvalue : Plain value) :
    Plain u := by
  induction h with
  | here => exact hvalue
  | follow hfollows _ ih => exact ih (hfollows.plain hbase hvalue)

theorem Plain.preparedChild (hobject : Plain (.object object)) (hchild : preparedChild object step = some child) :
    Plain child := by
  have hbelow : ∀ (step : Step) (child : Value), childAt object step = some child → Plain child :=
    fun _ _ hchild => ⟨distinctKeys_childAt hobject.distinct hchild, hobject.references.descend hchild⟩
  cases step with
  | member keyword name =>
      cases keyword with
      | properties =>
          obtain ⟨properties, hproperties, hname⟩ := Option.bind_eq_some_iff.mp hchild
          rw [get_prepareProperties] at hname
          obtain ⟨property, hproperty, rfl⟩ := Option.map_eq_some_iff.mp hname
          have hat : childAt object (.member .properties name) = some property := by
            rw [childAt, SchemaMap.key, hproperties]
            exact hproperty
          have hplain := hbelow _ property hat
          split
          · exact hplain
          · exact ⟨distinctKeys_makeNullable hplain.distinct, plainReferences_makeNullable hplain.references⟩
      | defs => exact hbelow (.member .defs name) child hchild
      | definitions => exact hbelow (.member .definitions name) child hchild
  | anyOf index => exact hbelow (.anyOf index) child hchild
  | items => exact hbelow .items child hchild

theorem Derives.plain (hbase : Plain base) (h : Derives base chain value steps chain' u) (hvalue : Plain value) :
    Plain u := by
  induction h with
  | here => exact hvalue
  | step hunfolds _ hprepared _ ih => exact ih ((hunfolds.plain hbase hvalue).preparedChild hprepared)

end PlainReferences

section Aliases

variable {base value u : Value} {render : Value → String} {object object' resolved : Map} {chain chain' : List String}
  {reference : String} {seen : List String}

/-- A node that is replaced is not replaced by a bare reference. -/
theorem Follows.not_bare (hnodup : (object.map Prod.fst).Nodup) (h : Follows base chain object chain' value) :
    value ≠ .object [("$ref", .string reference)] := by
  rintro rfl
  generalize hbare : Value.object [("$ref", .string reference)] = last at h
  have hget : ∀ {key : String}, key ≠ "$ref" → Map.containsKey [("$ref", Value.string reference)] key = false := by
    intro key hkey
    rw [Map.containsKey_eq_isSome, get_bare hkey]
    rfl
  cases h with
  | @inline own resolved href hlength _ _ =>
      -- One of the members is no reference, and it is kept.
      have hsibling : ∃ member ∈ object, member.1 ≠ "$ref" := by
        by_contra hnone
        push Not at hnone
        cases object with
        | nil => cases href
        | cons first rest =>
            cases rest with
            | nil => exact hlength rfl
            | cons second rest =>
                have hsame : second.1 = first.1 := (hnone second (by simp)).trans (hnone first (by simp)).symm
                exact (List.nodup_cons.mp hnodup).1 (List.mem_map.mpr ⟨second, by simp, hsame⟩)
      obtain ⟨member, hmem, hkey⟩ := hsibling
      have hmerged : (mergeSiblings resolved object).containsKey member.1 = true := by
        rw [containsKey_mergeSiblings hkey, Bool.or_eq_true]
        exact .inr (List.any_eq_true.mpr ⟨member, hmem, decide_eq_true rfl⟩)
      rw [← Value.object.inj hbare, hget hkey] at hmerged
      cases hmerged
  | @recursive own resolved _ _ _ _ =>
      have hanyOf : (keepRecursion object own).containsKey "anyOf" = true := by
        rw [keepRecursion, Map.containsKey_eq_isSome, Map.get_insert_self]
        rfl
      rw [← Value.object.inj hbare, hget (by decide)] at hanyOf
      cases hanyOf

theorem Unfolds.eq_of_bare (hbase : Plain base) (hvalue : Plain value)
    (h : Unfolds base chain value chain' (.object [("$ref", .string reference)])) :
    value = .object [("$ref", .string reference)] := by
  generalize hlast : Value.object [("$ref", .string reference)] = last at h
  induction h with
  | here => rfl
  | follow hfollows _ ih =>
      have hnext := hfollows.plain hbase hvalue
      rw [ih hnext hlast, ← hlast] at hfollows
      exact absurd rfl (hfollows.not_bare hvalue.distinct.nodup)

/-- An object schema that is a result is no reference. -/
theorem get_ref_of_isObject (h : Normalizes base render chain value (.object object'))
    (hisObject : schemaIsObject object' = true) : object'.get "$ref" = none := by
  have hself : schemaAt (.object object') [] = some (.object object') := rfl
  cases href : object'.get "$ref" with
  | none => rfl
  | some node =>
      have hcontains : object'.containsKey "$ref" = true := by
        rw [Map.containsKey_eq_isSome, href]
        rfl
      obtain ⟨reference, rfl, -⟩ := (h.nodeShape hself).reference hcontains
      rw [schemaIsObject_bare] at hisObject
      cases hisObject

/-- What a plain reference leads to in the result has the reference that it had before, or none. -/
theorem Normalizes.resolves (hbase : Plain base) (h : Normalizes base render [] base (.object object'))
    (hisObject : schemaIsObject object' = true) (hplain : PlainReference reference)
    (hresolved : (resolveRef base reference).bind Value.asObject = some resolved) :
    ∃ target : Map, (resolveRef (.object object') reference).bind Value.asObject = some target ∧
      (target.get "$ref" = none ∨ target.get "$ref" = resolved.get "$ref") := by
  obtain ⟨rfl, -⟩ | ⟨keyword, name, hkeyword, hkeys, hat⟩ := schemaAt_of_plain hplain hresolved
  · refine ⟨object', ?_, .inl (get_ref_of_isObject h hisObject)⟩
    rw [resolveRef, if_pos rfl]
    rfl
  · obtain ⟨root, hroot, hrest⟩ := Option.bind_eq_some_iff.mp hat
    obtain ⟨child, hchild, heq⟩ := Option.bind_eq_some_iff.mp hrest
    obtain rfl := Value.asObject_eq_some hroot
    cases heq
    -- The definition is normalized where the root is, and stands at the same place of the result.
    obtain ⟨chain', root', hunfolds, hnone, hkept, -⟩ :=
      h.unfolds_child hbase.distinct hbase.distinct hchild (by simp)
    have hprepared : preparedChild root' (.member keyword name) = some (.object resolved) := by
      cases keyword with
      | properties => exact absurd rfl hkeyword
      | defs => exact hkept
      | definitions => exact hkept
    obtain ⟨node, hnode, hnormalizes⟩ := h.of_derives (.step hunfolds hnone hprepared .here)
    obtain ⟨_, -, target, rfl⟩ | ⟨hnot, -⟩ := hnormalizes.sameKind
    · refine ⟨target, ?_, ?_⟩
      · rw [resolveRef_eq, hkeys, Option.bind_some,
          lookupKeys_of_addresses (.member keyword name .root) hnode]
        rfl
      · cases href : Map.get target "$ref" with
        | none => exact .inl rfl
        | some value =>
            right
            have hcontains : Map.containsKey target "$ref" = true := by
              rw [Map.containsKey_eq_isSome, href]
              rfl
            have hself : schemaAt (.object target) [] = some (.object target) := rfl
            obtain ⟨kept, rfl, -⟩ := (hnormalizes.nodeShape hself).reference hcontains
            obtain ⟨chain'', hbare⟩ := hnormalizes.unfolds_bare
            have hbefore : Plain (.object resolved) :=
              ⟨distinctKeys_resolved hbase.distinct hresolved, plainReferences_resolved hbase.references hplain hresolved⟩
            have hsame := Value.object.inj (hbare.eq_of_bare hbase hbefore)
            rw [hsame]
            exact href.symm
    · exact absurd rfl (hnot resolved)

/-- The aliases of a plain reference end in the result. -/
theorem Normalizes.aliasEnds_result (hbase : Plain base) (h : Normalizes base render [] base (.object object'))
    (hisObject : schemaIsObject object' = true) (hplain : PlainReference reference)
    (hends : AliasEnds base seen reference) : AliasEnds (.object object') seen reference := by
  induction hends with
  | last hnew hresolved hnone =>
      obtain ⟨target, htarget, hget⟩ := h.resolves hbase hisObject hplain hresolved
      rw [hnone, or_self] at hget
      exact .last hnew htarget hget
  | @next seen current next resolved hnew hresolved hnext _ ih =>
      obtain ⟨target, htarget, hnone | hsame⟩ := h.resolves hbase hisObject hplain hresolved
      · exact .last hnew htarget hnone
      · have hresolvedPlain := plainReferences_resolved hbase.references hplain hresolved
        exact .next hnew htarget (hsame.trans hnext) (ih (hresolvedPlain [] resolved next rfl hnext))

end Aliases

section Idempotence

variable {schema out value child : Value} {render : Value → String} {object : Map} {fuel : Nat}

theorem plain_stripSchema (hschema : schema.DistinctKeys) (hreferences : PlainReferences schema) :
    Plain (stripSchema schema) := by
  refine ⟨distinctKeys_stripSchema hschema, ?_⟩
  cases schema with
  | object members =>
      apply plainReferences_object
      · intro reference href
        exact hreferences [] members reference rfl (get_remove hschema.nodup href)
      · intro step child hchild
        exact hreferences.descend (childAt_of_get (fun value hvalue => get_remove hschema.nodup hvalue) hchild)
  | _ => exact hreferences

/-- The result is in normal form with respect to itself. -/
theorem normal_result (hschema : schema.DistinctKeys) (hreferences : PlainReferences schema)
    (h : normalizeStrictSchema render fuel schema = some (.ok out)) : Normal out out := by
  obtain ⟨hyields, object', rfl, hisObject⟩ := normalizeStrictSchema_ok h
  have hbase := plain_stripSchema hschema hreferences
  have hnormalizes : Normalizes (stripSchema schema) render [] (stripSchema schema) (.object object') :=
    ⟨fuel, "#", hyields⟩
  constructor
  · exact hnormalizes.distinctKeys hbase.distinct hbase.distinct
  · exact fun steps node hat => hnormalizes.nodeShape hat
  · intro steps reference hat
    obtain ⟨chain, before, hderives, hnode⟩ := hnormalizes.derives hat
    obtain ⟨chain', hunfolds⟩ := hnode.unfolds_bare
    have hplain := hunfolds.plain hbase (hderives.plain hbase hbase)
    have hends := (hnode.of_unfolds hunfolds).aliasEnds rfl
    exact hnormalizes.aliasEnds_result hbase hisObject (hplain.references [] _ reference rfl rfl) hends

/-- A second run leaves the document as it is, with enough fuel. -/
def Idempotent (render : Value → String) (out : Value) : Prop :=
  ∃ fuel, ∀ more, fuel ≤ more → normalizeStrictSchema render more out = some (.ok out)

/-- A root without a reference does not get back the `$schema` that is removed from it. -/
theorem Idempotent.absent (h : Idempotent render (.object object)) (hnodup : (object.map Prod.fst).Nodup)
    (hnone : object.get "$ref" = none) : object.containsKey "$schema" = false := by
  obtain ⟨fuel, hagain⟩ := h
  obtain ⟨stripped, _, hstripped, ⟨⟩, -, hroot⟩ := root_containsKey_schema (hagain fuel (Nat.le_refl _))
  by_contra hcontains
  rw [Bool.not_eq_false] at hcontains
  obtain ⟨reference, -, href, -⟩ := hroot.mp hcontains
  cases hstripped
  have hkept := get_remove hnodup href
  rw [hnone] at hkept
  cases hkept

/-- When all references are the document or its definitions, normalizing a result again succeeds and
changes nothing exactly when no schema that replaces the root has a `$schema`. -/
theorem idempotent_iff_root_targets_plain (hschema : schema.DistinctKeys) (hreferences : PlainReferences schema)
    (h : normalizeStrictSchema render fuel schema = some (.ok out)) :
    Idempotent render out ↔ RootTargetsPlain (stripSchema schema) := by
  obtain ⟨hyields, object', rfl, hisObject⟩ := normalizeStrictSchema_ok h
  have hnormalizes : Normalizes (stripSchema schema) render [] (stripSchema schema) (.object object') :=
    ⟨fuel, "#", hyields⟩
  have hnormal := normal_result hschema hreferences h
  rw [← root_plain_iff h]
  constructor
  · intro hidempotent
    exact hidempotent.absent hnormal.distinct.nodup (get_ref_of_isObject hnormalizes hisObject)
  · intro habsent
    have hstrip : stripSchema (.object object') = .object object' := by
      rw [stripSchema, Map.remove_eq_self habsent]
    obtain ⟨enough, hidle⟩ : Rests (.object object') render (.object object') := hnormal.rests
    refine ⟨enough, fun more hle => ?_⟩
    have hdone := (hidle []).of_le hle "#"
    simp only at hdone
    rw [normalizeStrictSchema, hstrip, hdone]
    exact if_pos hisObject

theorem plainReferences_of_references (h : ∀ reference ∈ references value, PlainReference reference) :
    PlainReferences value := by
  have hknown : ∀ (steps : List Step) (node : Value), Known value node → ∀ (object : Map) (reference : String),
      schemaAt node steps = some (.object object) → object.get "$ref" = some (.string reference) →
      reference ∈ references value := by
    intro steps
    induction steps with
    | nil =>
        rintro node hnode object reference ⟨⟩ href
        exact mem_references hnode href
    | cons step rest ih =>
        intro node hnode object reference hat href
        obtain ⟨members, hmembers, hrest⟩ := Option.bind_eq_some_iff.mp hat
        obtain ⟨child, hchild, hat'⟩ := Option.bind_eq_some_iff.mp hrest
        obtain rfl := Value.asObject_eq_some hmembers
        exact ih child (known_childAt hnode hchild) object reference hat' href
  intro steps object reference hat href
  exact h reference (hknown steps value (fun _ hmem => hmem) object reference hat href)

theorem idempotent_iff_root_targets_plain_recursive :
    ∃ out, normalizeStrictSchema (fun _ => "") 8 recursiveList = some (.ok out) ∧
      Idempotent (fun _ => "") out := by
  obtain ⟨out, hout, -⟩ := exists_result (show ((normalizeStrictSchema (fun _ => "") 8 recursiveList).bind
    Except.toOption).any (fun _ => true) = true by decide +kernel)
  have hreferences : PlainReferences recursiveList := by
    apply plainReferences_of_references
    have hall : references recursiveList = ["#"] := by decide +kernel
    rw [hall, List.forall_mem_singleton]
    exact .inl rfl
  refine ⟨out, hout, (idempotent_iff_root_targets_plain distinctKeys_recursiveList hreferences hout).mpr ?_⟩
  intro object reference target hobject href _
  have hplain : ((stripSchema recursiveList).asObject.bind fun members => Map.get members "$ref").isSome = false := by
    decide +kernel
  rw [hobject, Value.asObject, Option.bind_some, href] at hplain
  cases hplain

theorem root_dialect_is_removed : rootDialect.DistinctKeys ∧ PlainReferences rootDialect ∧
    ∃ out, normalizeStrictSchema (fun _ => "") 8 rootDialect = some (.ok out) ∧ ¬ Idempotent (fun _ => "") out := by
  have hdistinct : rootDialect.DistinctKeys := by
    have hdefinition : Value.DistinctKeys (.object [("$schema", .string "d"), ("type", .string "object")]) :=
      .object (by simp) (by simpa using ⟨.string "d", .string "object"⟩)
    have hdefs : Value.DistinctKeys
        (.object [("X", .object [("$schema", .string "d"), ("type", .string "object")])]) :=
      .object (by simp) (by simpa using hdefinition)
    exact .object (by simp) (by simpa using ⟨.string "#/$defs/X", hdefs⟩)
  have hreferences : PlainReferences rootDialect := by
    apply plainReferences_of_references
    have hall : references rootDialect = ["#/$defs/X"] := by decide +kernel
    rw [hall, List.forall_mem_singleton]
    exact .inr ⟨"X", by decide +kernel, .inl (by decide +kernel)⟩
  obtain ⟨out, hout, hcontains⟩ := exists_result (show ((normalizeStrictSchema (fun _ => "") 8 rootDialect).bind
    Except.toOption).any (fun out => out.asObject.any fun object => Map.containsKey object "$schema") = true by
      decide +kernel)
  refine ⟨hdistinct, hreferences, out, hout, fun hidempotent => ?_⟩
  obtain ⟨hyields, object', rfl, hisObject⟩ := normalizeStrictSchema_ok hout
  have habsent := hidempotent.absent (normal_result hdistinct hreferences hout).distinct.nodup
    (get_ref_of_isObject ⟨8, "#", hyields⟩ hisObject)
  exact absurd (hcontains.symm.trans habsent) (by simp)

end Idempotence

end OpenaiRs.StrictSchema
