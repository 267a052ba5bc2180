import OpenaiRs.Serde.DistinctKeys
import OpenaiRs.StrictSchema.Rewriting

/-!
# Where the references of a strict schema lead

The references that stay in a document are checked against the document before the walk. In the result
they lead to a schema as long as their pointers go through schemas only and do not go on below a property
that has been wrapped.
-/

namespace OpenaiRs.StrictSchema

open Serde Fallible

section Siblings

variable {base : Value} {object object' resolved : Map} {chain chain' : List String} {value : Value}

/-- The members beside a reference are kept, but for `anyOf`. -/
structure Keeps (object object' : Map) : Prop where
  nodup : (object'.map Prod.fst).Nodup
  get : ∀ key, key ≠ "$ref" → key ≠ "anyOf" → ∀ value, object.get key = some value → object'.get key = some value

theorem Keeps.refl (hnodup : (object.map Prod.fst).Nodup) : Keeps object object :=
  ⟨hnodup, fun _ _ _ _ h => h⟩

theorem Keeps.trans {object'' : Map} (h : Keeps object object') (h' : Keeps object' object'') :
    Keeps object object'' :=
  ⟨h'.nodup, fun key href hanyOf value hvalue => h'.get key href hanyOf value (h.get key href hanyOf value hvalue)⟩

theorem nodup_mergeSiblings (hresolved : (resolved.map Prod.fst).Nodup) :
    ((mergeSiblings resolved object).map Prod.fst).Nodup := by
  rw [mergeSiblings]
  induction object generalizing resolved with
  | nil => exact hresolved
  | cons member rest ih =>
      rw [List.foldl_cons]
      split
      · exact ih hresolved
      · exact ih (Map.nodup_insert hresolved _ _)

/-- A sibling comes before what the target has under its key. -/
theorem get_mergeSiblings_sibling (hnodup : (object.map Prod.fst).Nodup) {key : String} (hkey : key ≠ "$ref") :
    (mergeSiblings resolved object).get key = (object.get key).or (resolved.get key) := by
  rw [mergeSiblings]
  induction object generalizing resolved with
  | nil => rfl
  | cons member rest ih =>
      obtain ⟨hfresh, hrest⟩ := List.nodup_cons.mp hnodup
      rw [List.foldl_cons, ih hrest, Map.get_cons]
      by_cases heq : member.1 = key
      · have habsent : Map.get rest key = none := by
          rw [← heq]
          by_contra hpresent
          obtain ⟨value, hvalue⟩ := Option.ne_none_iff_exists'.mp hpresent
          exact hfresh (List.mem_map.mpr ⟨_, (Map.get_eq_some_iff_mem hrest).mp hvalue, rfl⟩)
        rw [if_neg (heq ▸ hkey), Map.get_insert, if_pos heq, if_pos heq, habsent]
        rfl
      · rw [if_neg heq]
        split
        · rfl
        · rw [Map.get_insert, if_neg heq]

theorem nodup_of_resolveRef {reference : String} (hbase : base.DistinctKeys)
    (hresolved : (resolveRef base reference).bind Value.asObject = some resolved) :
    (resolved.map Prod.fst).Nodup :=
  (resolved_induct (P := Value.DistinctKeys) (fun _ _ _ hmembers hnext => hmembers.get hnext) hbase hresolved).nodup

theorem Follows.keeps (hbase : base.DistinctKeys) (hnodup : (object.map Prod.fst).Nodup)
    (h : Follows base chain object chain' value) :
    ∃ object' : Map, value = .object object' ∧ Keeps object object' := by
  cases h with
  | @inline reference resolved _ _ hresolved _ =>
      refine ⟨_, rfl, nodup_mergeSiblings (nodup_of_resolveRef hbase hresolved), ?_⟩
      intro key href _ value hvalue
      rw [get_mergeSiblings_sibling hnodup href, hvalue]
      rfl
  | recursive _ _ _ _ =>
      refine ⟨_, rfl, Map.nodup_insert (Map.nodup_remove hnodup _) _ _, ?_⟩
      intro key href hanyOf value hvalue
      exact Map.get_insert_of_ne (Map.get_remove_of_ne hnodup href hvalue) (Ne.symm hanyOf) _

theorem Unfolds.keeps (hbase : base.DistinctKeys) (hnodup : (object.map Prod.fst).Nodup)
    (h : Unfolds base chain (.object object) chain' value) :
    ∃ object' : Map, value = .object object' ∧ Keeps object object' := by
  generalize hfirst : Value.object object = first at h
  induction h generalizing object with
  | here => exact ⟨object, hfirst.symm, .refl hnodup⟩
  | follow hfollows _ ih =>
      cases hfirst
      obtain ⟨next, rfl, hkeeps⟩ := hfollows.keeps hbase hnodup
      obtain ⟨object', rfl, hrest⟩ := ih hkeeps.nodup rfl
      exact ⟨object', rfl, hkeeps.trans hrest⟩

end Siblings

section Pointers

variable (base : Value)

/-- The path goes on below a property that is neither required nor nullable. -/
inductive Crosses : List String → Value → List Step → Prop
  | here {chain chain' : List String} {value property : Value} {object : Map} {name : String} {next : Step}
      {path : List Step} : Unfolds base chain value chain' (.object object) → object.get "$ref" = none →
      childAt object (.member .properties name) = some property → name ∉ previousRequired object →
      schemaAllowsNull property = false → Crosses chain value (.member .properties name :: next :: path)
  | deeper {chain chain' : List String} {value child : Value} {object : Map} {step : Step} {path : List Step} :
      Unfolds base chain value chain' (.object object) → object.get "$ref" = none →
      preparedChild object step = some child → Crosses chain' child path → Crosses chain value (step :: path)

/-- The pointers of the references that stay go through schemas, and not on below a property that is
neither required nor nullable. -/
def ReferencesLand : Prop :=
  ∀ (steps : List Step) (chain chain' : List String) (value : Value) (reference : String),
    Derives base [] base steps chain value → Unfolds base chain value chain' (.object [("$ref", .string reference)]) →
    ∃ keys target, pointerKeys reference = some keys ∧ Addresses keys target ∧ ¬ Crosses base [] base target

/-- The references of a document lead to its schemas. -/
def Closed (out : Value) : Prop :=
  ∀ (steps : List Step) (reference : String), schemaAt out steps = some (.object [("$ref", .string reference)]) →
    ∃ (keys : List String) (target : List Step) (object : Map), pointerKeys reference = some keys ∧
      Addresses keys target ∧ resolveRef out reference = some (.object object) ∧
      schemaAt out target = some (.object object)

variable {base} {object object' target : Map} {chain chain' : List String} {value child u : Value}
  {render : Value → String} {step : Step} {keys : List String} {steps path : List Step}

/-- A node is replaced by one schema without a reference at most. -/
theorem Unfolds.unique {chain'' : List String} (h : Unfolds base chain value chain' (.object object))
    (hnone : object.get "$ref" = none) (h' : Unfolds base chain value chain'' (.object object'))
    (hnone' : object'.get "$ref" = none) : chain' = chain'' ∧ object = object' := by
  generalize hvalue : Value.object object = last at h
  induction h with
  | here =>
      cases hvalue
      cases h' with
      | here => exact ⟨rfl, rfl⟩
      | follow hfollows _ => exact absurd hfollows (not_follows hnone)
  | follow hfollows _ ih =>
      cases h' with
      | here => exact absurd hfollows (not_follows hnone')
      | follow hfollows' hrest =>
          obtain ⟨rfl, rfl⟩ := hfollows.deterministic hfollows'
          exact ih hrest hvalue

theorem Keeps.childAt (h : Keeps object object') (hchild : childAt object step = some child)
    (hstep : ∀ index, step ≠ .anyOf index) : childAt object' step = some child := by
  cases step with
  | member keyword name =>
      obtain ⟨schemas, hschemas, hname⟩ := Option.bind_eq_some_iff.mp hchild
      obtain ⟨inner, hinner, hmap⟩ := Option.bind_eq_some_iff.mp hschemas
      have hkept := h.get keyword.key (by cases keyword <;> decide) (by cases keyword <;> decide) inner hinner
      rw [StrictSchema.childAt, hkept, Option.bind_some, hmap]
      exact hname
  | anyOf index => exact absurd rfl (hstep index)
  | items => exact h.get "items" (by decide) (by decide) child hchild

theorem get_prepareProperties (properties : Map) (name : String) :
    Map.get (prepareProperties object properties) name = (properties.get name).map fun property =>
      if name ∈ previousRequired object then property else makeNullable property := by
  rw [prepareProperties]
  induction properties with
  | nil => rfl
  | cons member rest ih =>
      rw [List.map_cons, Map.get_cons, Map.get_cons, ih]
      by_cases heq : member.1 = name
      · rw [if_pos heq, if_pos heq, Option.map_some, heq]
      · rw [if_neg heq, if_neg heq]

theorem preparedChild_property {name : String} (hchild : childAt object (.member .properties name) = some child) :
    preparedChild object (.member .properties name) =
      some (if name ∈ previousRequired object then child else makeNullable child) := by
  obtain ⟨properties, hproperties, hname⟩ := Option.bind_eq_some_iff.mp hchild
  have hproperties : (object.get "properties").bind Value.asObject = some properties := hproperties
  rw [preparedChild, hproperties, Option.bind_some, get_prepareProperties, hname, Option.map_some]

theorem preparedChild_of_wrapped {name : String} (hchild : childAt object (.member .properties name) = some child)
    (hrequired : name ∉ previousRequired object) (hnull : schemaAllowsNull child = false) :
    preparedChild object (.member .properties name) =
      some (.object [("anyOf", .array [child, .object [("type", .string "null")]])]) := by
  rw [preparedChild_property hchild, if_neg hrequired, makeNullable, hnull]
  rfl

/-- A child is normalized as it is unless it is wrapped. -/
theorem preparedChild_cases (hchild : childAt object step = some child) :
    preparedChild object step = some child ∨
      ∃ name, step = .member .properties name ∧ name ∉ previousRequired object ∧ schemaAllowsNull child = false := by
  cases step with
  | member keyword name =>
      cases keyword with
      | properties =>
          rw [preparedChild_property hchild]
          split
          · exact .inl rfl
          · rename_i hrequired
            rw [makeNullable]
            split
            · exact .inl rfl
            · rename_i hnull
              exact .inr ⟨name, rfl, hrequired, Bool.eq_false_iff.mpr hnull⟩
      | defs => exact .inl hchild
      | definitions => exact .inl hchild
  | anyOf index => exact .inl hchild
  | items => exact .inl hchild

/-- A node with a child is normalized as one that has the child too. -/
theorem Normalizes.unfolds_child (hbase : base.DistinctKeys) (hvalue : Value.DistinctKeys (.object object))
    (h : Normalizes base render chain (.object object) u) (hchild : childAt object step = some child)
    (hstep : ∀ index, step ≠ .anyOf index) :
    ∃ (chain' : List String) (object' : Map), Unfolds base chain (.object object) chain' (.object object') ∧
      object'.get "$ref" = none ∧ childAt object' step = some child ∧
      ∀ prepared, preparedChild object' step = some prepared → ∃ u', Normalizes base render chain' prepared u' := by
  obtain ⟨chain', last, hunfolds, hsettled⟩ := h.unfolds
  obtain ⟨object', rfl, hkeeps⟩ := hunfolds.keeps hbase hvalue.nodup
  have hkept := hkeeps.childAt hchild hstep
  cases hsettled with
  | scalar hnot => exact absurd rfl (hnot object')
  | bare _ href _ hlength =>
      rw [bare_eq href hlength, childAt_bare] at hkept
      cases hkept
  | @node _ object'' _ hnone hspec =>
      refine ⟨chain', object', hunfolds, hnone, hkept, ?_⟩
      intro prepared hprepared
      have hrel := hspec.child step
      rw [hprepared] at hrel
      generalize StrictSchema.childAt object'' step = child' at hrel
      cases hrel with
      | some hnormalizes => exact ⟨_, hnormalizes⟩

/-- Below a node, a path that does not cross a wrapped property is there when it is in the document. -/
theorem derives_step (hbase : base.DistinctKeys) (hvalue : Value.DistinctKeys (.object object))
    (h : Normalizes base render chain (.object object) u) (hchild : childAt object step = some child)
    (hstep : ∀ index, step ≠ .anyOf index) (hcrosses : ¬ Crosses base chain (.object object) (step :: path))
    (hrest : ∀ chain' u', Normalizes base render chain' child u' → ¬ Crosses base chain' child path →
      ∃ (chain'' : List String) (last : Map), Derives base chain' child path chain'' (.object last)) :
    ∃ (chain'' : List String) (last : Map), Derives base chain (.object object) (step :: path) chain'' (.object last) := by
  obtain ⟨chain', object', hunfolds, hnone, hkept, hnormalizes⟩ := h.unfolds_child hbase hvalue hchild hstep
  obtain hprepared | ⟨name, rfl, hrequired, hnull⟩ := preparedChild_cases hkept
  · obtain ⟨u', hu'⟩ := hnormalizes child hprepared
    obtain ⟨chain'', last, hderives⟩ := hrest chain' u' hu' fun hdeeper =>
      hcrosses (.deeper hunfolds hnone hprepared hdeeper)
    exact ⟨chain'', last, .step hunfolds hnone hprepared hderives⟩
  · cases path with
    | nil => exact ⟨chain', _, .step hunfolds hnone (preparedChild_of_wrapped hkept hrequired hnull) .here⟩
    | cons next path => exact absurd (.here hunfolds hnone hkept hrequired hnull) hcrosses

/-- What a pointer finds in the document is there after the walk unless it is below a wrapped property. -/
theorem derives_of_lookup (hbase : base.DistinctKeys) (haddresses : Addresses keys steps)
    (hvalue : value.DistinctKeys) (h : Normalizes base render chain value u)
    (hlookup : lookupKeys value keys = some (.object target)) (hcrosses : ¬ Crosses base chain value steps) :
    ∃ (chain' : List String) (last : Map), Derives base chain value steps chain' (.object last) := by
  induction haddresses generalizing chain value u with
  | root =>
      cases hlookup
      exact ⟨chain, target, .here⟩
  | @member keys path keyword name _ ih =>
      obtain ⟨object, hobject, hbelow⟩ := Option.bind_eq_some_iff.mp hlookup
      obtain ⟨inner, hinner, hinside⟩ := Option.bind_eq_some_iff.mp hbelow
      obtain ⟨schemas, hschemas, hmember⟩ := Option.bind_eq_some_iff.mp hinside
      obtain ⟨child, hchild, hrest⟩ := Option.bind_eq_some_iff.mp hmember
      obtain rfl := Value.asObject_eq_some hobject
      obtain rfl := Value.asObject_eq_some hschemas
      have hat : childAt object (.member keyword name) = some child := by
        rw [childAt, hinner]
        exact hchild
      exact derives_step hbase hvalue h hat (by simp) hcrosses fun chain' u' hu' hdeeper =>
        ih ((hvalue.get hinner).get hchild) hu' hrest hdeeper
  | @items keys path _ ih =>
      obtain ⟨object, hobject, hbelow⟩ := Option.bind_eq_some_iff.mp hlookup
      obtain ⟨child, hchild, hrest⟩ := Option.bind_eq_some_iff.mp hbelow
      obtain rfl := Value.asObject_eq_some hobject
      exact derives_step hbase hvalue h hchild (by simp) hcrosses fun chain' u' hu' hdeeper =>
        ih (hvalue.get hchild) hu' hrest hdeeper

/-- In a wrapper there is nothing below the keywords of pointers. -/
theorem preparedChild_wrapped {variants : Value} (hstep : ∀ index, step ≠ .anyOf index) :
    preparedChild [("anyOf", variants)] step = none := by
  have hget : ∀ key, key ≠ "anyOf" → Map.get [("anyOf", variants)] key = none := by
    intro key hkey
    rw [Map.get_cons, if_neg (Ne.symm hkey), Map.get_nil]
  cases step with
  | member keyword name =>
      cases keyword with
      | properties =>
          rw [preparedChild, hget "properties" (by decide)]
          rfl
      | defs =>
          rw [preparedChild, childAt, hget _ (by decide)]
          · rfl
          · simp
      | definitions =>
          rw [preparedChild, childAt, hget _ (by decide)]
          · rfl
          · simp
  | anyOf index => exact absurd rfl (hstep index)
  | items => exact hget "items" (by decide)

theorem Addresses.ne_anyOf (h : Addresses keys steps) : ∀ step ∈ steps, ∀ index, step ≠ .anyOf index := by
  induction h with
  | root => simp
  | member keyword name _ ih => simpa using ih
  | items _ ih => simpa using ih

/-- A path that is there after the walk does not cross a wrapped property. -/
theorem Derives.not_crosses (hsteps : ∀ step ∈ steps, ∀ index, step ≠ .anyOf index)
    (h : Derives base chain value steps chain' u) : ¬ Crosses base chain value steps := by
  induction h with
  | here =>
      intro hcrosses
      cases hcrosses
  | @step _ chain1 _ _ child _ object _ path hunfolds hnone hprepared hbelow ih =>
      intro hcrosses
      cases hcrosses with
      | @here _ _ _ _ _ _ next rest hunfolds' hnone' hchild hrequired hnull =>
          obtain ⟨rfl, rfl⟩ := hunfolds.unique hnone hunfolds' hnone'
          cases hprepared.symm.trans (preparedChild_of_wrapped hchild hrequired hnull)
          cases hbelow with
          | step hinner hinnerNone hinnerPrepared _ =>
              obtain ⟨-, rfl⟩ := hinner.unique hinnerNone .here rfl
              rw [preparedChild_wrapped (hsteps next (by simp))] at hinnerPrepared
              cases hinnerPrepared
      | deeper hunfolds' hnone' hprepared' hcrosses' =>
          obtain ⟨rfl, rfl⟩ := hunfolds.unique hnone hunfolds' hnone'
          cases hprepared.symm.trans hprepared'
          exact ih (fun step hmem => hsteps step (List.mem_cons_of_mem _ hmem)) hcrosses'

/-- A bare reference of the result stems from one that stays. -/
theorem Normalizes.unfolds_bare {reference : String}
    (h : Normalizes base render chain value (.object [("$ref", .string reference)])) :
    ∃ chain', Unfolds base chain value chain' (.object [("$ref", .string reference)]) := by
  obtain ⟨chain', last, hunfolds, hsettled⟩ := h.unfolds
  generalize hout : Value.object [("$ref", .string reference)] = out at hsettled
  cases hsettled with
  | scalar hnot => exact absurd hout.symm (hnot _)
  | bare _ _ _ _ =>
      cases hout
      exact ⟨chain', hunfolds⟩
  | @node object object' _ hnone hspec =>
      cases hout
      rw [← hspec.other "$ref" (by decide)] at hnone
      cases hnone

/-- A bare reference stays as it is. -/
theorem Normalizes.eq_bare {reference : String}
    (h : Normalizes base render chain (.object [("$ref", .string reference)]) u) :
    u = .object [("$ref", .string reference)] := by
  obtain ⟨chain', last, hunfolds, hsettled⟩ := h.unfolds
  cases hunfolds with
  | here =>
      cases hsettled with
      | scalar hnot => exact absurd rfl (hnot _)
      | bare _ _ _ _ => rfl
      | node _ hnone _ => cases hnone
  | follow hfollows _ =>
      cases hfollows with
      | inline _ hlength _ _ => exact absurd rfl hlength
      | recursive _ hlength _ _ => exact absurd rfl hlength

theorem AliasEnds.resolves {seen : List String} {reference : String} (h : AliasEnds base seen reference) :
    ∃ resolved : Map, (resolveRef base reference).bind Value.asObject = some resolved := by
  cases h with
  | last _ hresolved _ => exact ⟨_, hresolved⟩
  | next _ hresolved _ _ => exact ⟨_, hresolved⟩

/-- The references of a result lead to its schemas exactly when the pointers of those that stay land. -/
theorem Normalizes.closed_iff (hbase : base.DistinctKeys) (h : Normalizes base render [] base u) :
    Closed u ↔ ReferencesLand base := by
  constructor
  · intro hclosed steps chain chain' value reference hderives hunfolds
    obtain ⟨node, hat, hnode⟩ := h.of_derives hderives
    rw [(hnode.of_unfolds hunfolds).eq_bare] at hat
    obtain ⟨keys, target, object, hkeys, haddresses, -, htarget⟩ := hclosed steps reference hat
    obtain ⟨chain'', value'', hderives', -⟩ := h.derives htarget
    exact ⟨keys, target, hkeys, haddresses, hderives'.not_crosses haddresses.ne_anyOf⟩
  · intro hland steps reference hat
    obtain ⟨chain, value, hderives, hnode⟩ := h.derives hat
    obtain ⟨chain', hunfolds⟩ := hnode.unfolds_bare
    obtain ⟨keys, target, hkeys, haddresses, hcrosses⟩ := hland steps chain chain' value reference hderives hunfolds
    obtain ⟨resolved, hresolved⟩ := ((hnode.of_unfolds hunfolds).aliasEnds rfl).resolves
    obtain ⟨found, hfound, hobject⟩ := Option.bind_eq_some_iff.mp hresolved
    obtain rfl := Value.asObject_eq_some hobject
    rw [resolveRef_eq, hkeys, Option.bind_some] at hfound
    obtain ⟨chain'', last, hderives'⟩ := derives_of_lookup hbase haddresses hbase h hfound hcrosses
    obtain ⟨result, htarget, hresult⟩ := h.of_derives hderives'
    obtain ⟨_, -, object, rfl⟩ | ⟨hnot, -⟩ := hresult.sameKind
    · refine ⟨keys, target, object, hkeys, haddresses, ?_, htarget⟩
      rw [resolveRef_eq, hkeys, Option.bind_some]
      exact lookupKeys_of_addresses haddresses htarget
    · exact absurd rfl (hnot last)

theorem distinctKeys_stripSchema {schema : Value} (h : schema.DistinctKeys) : (stripSchema schema).DistinctKeys := by
  cases schema with
  | object members =>
      cases h with
      | object hnodup hmembers =>
          exact .object (Map.nodup_remove hnodup _) fun member hmem => hmembers member (Map.mem_of_mem_remove hmem)
  | _ => exact h

/-- The references of a normalized document lead to its schemas exactly when the pointers of those that stay
go through schemas and not on below a property that is neither required nor nullable. -/
theorem closed_iff_references_land {fuel : Nat} {schema out : Value} (hschema : schema.DistinctKeys)
    (h : normalizeStrictSchema render fuel schema = some (.ok out)) :
    Closed out ↔ ReferencesLand (stripSchema schema) := by
  obtain ⟨hyields, -⟩ := normalizeStrictSchema_ok h
  have hnormalizes : Normalizes (stripSchema schema) render [] (stripSchema schema) out := ⟨fuel, "#", hyields⟩
  exact hnormalizes.closed_iff (distinctKeys_stripSchema hschema)

/-- A list whose tail refers to the whole document. -/
def recursiveList : Value :=
  .object [("type", .string "object"),
    ("properties", .object [("next", .object [("$ref", .string "#")])])]

theorem distinctKeys_recursiveList : recursiveList.DistinctKeys := by
  have href : Value.DistinctKeys (.object [("$ref", .string "#")]) :=
    .object (by simp) (by simpa using .string "#")
  have hproperties : Value.DistinctKeys (.object [("next", .object [("$ref", .string "#")])]) :=
    .object (by simp) (by simpa using href)
  exact .object (by simp) (by simpa using ⟨.string "object", hproperties⟩)

theorem closed_iff_references_land_recursive :
    ∃ out, normalizeStrictSchema (fun _ => "") 8 recursiveList = some (.ok out) ∧
      (Closed out ↔ ReferencesLand (stripSchema recursiveList)) := by
  obtain ⟨out, hout, -⟩ := exists_result (show ((normalizeStrictSchema (fun _ => "") 8 recursiveList).bind
    Except.toOption).any (fun _ => true) = true by decide +kernel)
  exact ⟨out, hout, closed_iff_references_land distinctKeys_recursiveList hout⟩

/-- A reference into a property that is neither required nor nullable. -/
def crossingReference : Value :=
  .object [("type", .string "object"),
    ("properties", .object [
      ("a", .object [("type", .string "object"),
        ("properties", .object [("b", .object [("type", .string "string")])]),
        ("required", .array [.string "b"])]),
      ("c", .object [("$ref", .string "#/properties/a/properties/b")])]),
    ("required", .array [.string "c"])]

theorem crossing_reference_dangles :
    ∃ out, normalizeStrictSchema (fun _ => "") 8 crossingReference = some (.ok out) ∧ ¬ Closed out := by
  obtain ⟨out, hout, htest⟩ := exists_result (show ((normalizeStrictSchema (fun _ => "") 8 crossingReference).bind
    Except.toOption).any (fun out => ((schemaAt out [.member .properties "c"]).bind Value.asObject).any
      (fun object => object.length == 1 &&
        (Map.get object "$ref").any (isText "#/properties/a/properties/b")) &&
      (resolveRef out "#/properties/a/properties/b").isNone) = true by decide +kernel)
  refine ⟨out, hout, fun hclosed => ?_⟩
  obtain ⟨hat, hdangles⟩ := Bool.and_eq_true_iff.mp htest
  obtain ⟨object, hobject, hbare⟩ := (Option.any_eq_true _ _).mp hat
  obtain ⟨hlength, htext⟩ := Bool.and_eq_true_iff.mp hbare
  obtain ⟨node, hnode, hreference⟩ := (Option.any_eq_true _ _).mp htext
  obtain ⟨found, hfound, hfoundObject⟩ := Option.bind_eq_some_iff.mp hobject
  obtain rfl := Value.asObject_eq_some hfoundObject
  obtain rfl : node = .string "#/properties/a/properties/b" := by
    cases node with
    | string s => exact congrArg Value.string (of_decide_eq_true hreference)
    | _ => cases hreference
  rw [bare_eq hnode (beq_iff_eq.mp hlength)] at hfound
  obtain ⟨_, _, _, -, -, hresolved, -⟩ := hclosed _ _ hfound
  rw [hresolved] at hdangles
  cases hdangles

end Pointers

end OpenaiRs.StrictSchema
