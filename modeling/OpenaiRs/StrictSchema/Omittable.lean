import OpenaiRs.StrictSchema.Closure
import OpenaiRs.StrictSchema.Places

/-!
# Whether an optional property stays omittable

A property that is not required becomes required, so it has to accept `null` for what was omitted before. What the
keywords of a schema say about `null` is stated for a document, a bare reference standing for the schema that it
leads to, and, for the schemas of a document that is being normalized, before the normalization.
-/

namespace OpenaiRs.StrictSchema

open Serde Fallible

section Meaning

/-- An `enum` that lists `null`. -/
def listsNull : Value → Bool
  | .array items => items.any Value.isNull
  | _ => false

/-- The keywords `type`, `enum` and `const` do not exclude `null`. -/
def keywordsAllowNull (object : Map) : Bool :=
  (object.get "type").all (kindIs "null") && (object.get "enum").all listsNull && (object.get "const").all Value.isNull

/-- `null` is an instance of a schema of the document. A pointer that does not lead anywhere means nothing. -/
inductive AcceptsNull (document : Value) : Value → Prop
  | always : AcceptsNull document (.bool true)
  | plain {object : Map} : object.get "$ref" = none → keywordsAllowNull object = true → object.get "anyOf" = none →
      AcceptsNull document (.object object)
  | variant {object : Map} {index : Nat} {variant : Value} : object.get "$ref" = none → keywordsAllowNull object = true →
      childAt object (.anyOf index) = some variant → AcceptsNull document variant → AcceptsNull document (.object object)
  | reference {reference : String} {schema : Value} : resolveRef document reference = some schema →
      AcceptsNull document schema → AcceptsNull document (.object [("$ref", .string reference)])

variable (base : Value)

/-- `null` is an instance of what a place of the document stands for: a walked reference with siblings is its target
under the siblings, a bare reference is the place that its pointer leads to. -/
inductive TakesNull : Place → Prop
  | always {chain : Option (List String)} : TakesNull ⟨chain, .bool true⟩
  | plain {place : Place} {chain : Option (List String)} {object : Map} : Opens base place ⟨chain, .object object⟩ →
      object.get "$ref" = none → keywordsAllowNull object = true → object.get "anyOf" = none → TakesNull place
  | variant {place : Place} {chain : Option (List String)} {object : Map} {index : Nat} {variant : Value} :
      Opens base place ⟨chain, .object object⟩ → object.get "$ref" = none → keywordsAllowNull object = true →
      childAt object (.anyOf index) = some variant → TakesNull ⟨chain, variant⟩ → TakesNull place
  | reference {place target : Place} {chain : Option (List String)} {reference : String} {keys : List String} :
      Opens base place ⟨chain, .object [("$ref", .string reference)]⟩ → pointerKeys reference = some keys →
      Leads base [] base keys target → TakesNull target → TakesNull place

/-- A property of an object schema that is not required there, and the active chain there. -/
structure OptionalProperty (steps : List Step) (name : String) (chain : List String) (property : Value) : Prop where
  exists_object : ∃ (chain' : List String) (value : Value) (object : Map), Derives base [] base steps chain' value ∧
    Unfolds base chain' value chain (.object object) ∧ object.get "$ref" = none ∧
    childAt object (.member .properties name) = some property ∧ name ∉ previousRequired object

/-- The properties that were not required accept `null` in the result. -/
def StaysOmittable (out : Value) : Prop :=
  ∀ (steps : List Step) (name : String) (chain : List String) (property : Value),
    OptionalProperty base steps name chain property →
    ∃ schema, schemaAt out (steps ++ [.member .properties name]) = some schema ∧ AcceptsNull out schema

/-- The properties that are not required take `null` where `schema_allows_null` says so. -/
def AllowsNullRightly : Prop :=
  ∀ (steps : List Step) (name : String) (chain : List String) (property : Value),
    OptionalProperty base steps name chain property → schemaAllowsNull property = true →
      TakesNull base ⟨some chain, property⟩

end Meaning

section Readings

variable {base out : Value} {render : Value → String} {chain chain' : List String} {value child u property : Value}
  {object object' : Map} {steps : List Step} {step : Step} {name : String} {place : Place} {R : Value → Value → Prop}

/-- Two objects that say the same about `null`, as far as their variants do. -/
structure SayAlike (R : Value → Value → Prop) (object object' : Map) : Prop where
  ref : object'.get "$ref" = none ↔ object.get "$ref" = none
  keywords : keywordsAllowNull object' = keywordsAllowNull object
  anyOf : object'.get "anyOf" = none ↔ object.get "anyOf" = none
  variant : ∀ index, Option.Rel R (childAt object (.anyOf index)) (childAt object' (.anyOf index))

theorem eq_none_iff_of_rel {first second : Option Value} (h : Option.Rel R first second) :
    second = none ↔ first = none := by
  cases h with
  | none => rfl
  | some _ => simp

theorem NodeSpec.sayAlike (h : NodeSpec R object object') : SayAlike R object object' where
  ref := by rw [h.other "$ref" (by decide)]
  keywords := by
    rw [keywordsAllowNull, keywordsAllowNull, h.other "type" (by decide), h.other "enum" (by decide),
      h.other "const" (by decide)]
  anyOf := eq_none_iff_of_rel (h.members "anyOf" (by decide))
  variant index := h.child (.anyOf index)

/-- A test that no object passes tells no values of one kind apart. -/
theorem all_eq_of_sameKind {first second : Option Value} {test : Value → Bool}
    (htest : ∀ object : Map, test (.object object) = false) (h : Option.Rel SameKind first second) :
    second.all test = first.all test := by
  cases h with
  | none => rfl
  | some hkind =>
      obtain ⟨object, rfl, object', rfl⟩ | ⟨-, rfl⟩ := hkind
      · exact (htest object').trans (htest object).symm
      · rfl

theorem asArray_eq_of_sameKind {first second : Option Value} (h : Option.Rel SameKind first second) :
    second.bind Value.asArray = first.bind Value.asArray := by
  cases h with
  | none => rfl
  | some hkind =>
      obtain ⟨object, rfl, object', rfl⟩ | ⟨-, rfl⟩ := hkind
      · rfl
      · rfl

/-- A map of schemas, read as a schema. -/
theorem sayAlike_of_pairs (h : Map.Pairs (fun _ => SameKind) object object') (hrefl : ∀ value, R value value) :
    SayAlike R object object' where
  ref := eq_none_iff_of_rel (h.get "$ref")
  keywords := by
    rw [keywordsAllowNull, keywordsAllowNull, all_eq_of_sameKind (fun _ => rfl) (h.get "type"),
      all_eq_of_sameKind (fun _ => rfl) (h.get "enum"), all_eq_of_sameKind (fun _ => rfl) (h.get "const")]
  anyOf := eq_none_iff_of_rel (h.get "anyOf")
  variant index := by
    rw [childAt, childAt, asArray_eq_of_sameKind (h.get "anyOf")]
    cases ((object.get "anyOf").bind Value.asArray).bind fun variants => variants[index]? with
    | none => exact .none
    | some variant => exact .some (hrefl variant)

theorem SayAlike.refl (object : Map) (hrefl : ∀ value, R value value) : SayAlike R object object where
  ref := Iff.rfl
  keywords := rfl
  anyOf := Iff.rfl
  variant index := by
    cases childAt object (.anyOf index) with
    | none => exact .none
    | some variant => exact .some (hrefl variant)

/-- What becomes of an object. -/
theorem Alike.exists_object (h : Alike (.object object) u) (hrefl : ∀ value, R value value) :
    ∃ object' : Map, u = .object object' ∧ SayAlike R object object' := by
  obtain rfl | ⟨_, members', heq, rfl, hpairs⟩ := h
  · exact ⟨object, rfl, .refl object hrefl⟩
  · cases heq
    exact ⟨members', rfl, sayAlike_of_pairs hpairs hrefl⟩

theorem Alike.exists_source (h : Alike value (.object object')) (hrefl : ∀ value, R value value) :
    ∃ object : Map, value = .object object ∧ SayAlike R object object' := by
  obtain rfl | ⟨members, _, rfl, heq, hpairs⟩ := h
  · exact ⟨object', rfl, .refl object' hrefl⟩
  · cases heq
    exact ⟨members, rfl, sayAlike_of_pairs hpairs hrefl⟩

theorem Alike.eq_true_iff (h : Alike value u) : u = .bool true ↔ value = .bool true := by
  obtain rfl | ⟨members, members', rfl, rfl, -⟩ := h
  · rfl
  · simp

/-- A bare reference is kept. -/
theorem Alike.eq_bare_iff {reference : String} (h : Alike value u) :
    u = .object [("$ref", .string reference)] ↔ value = .object [("$ref", .string reference)] := by
  have hkind : ∀ {first second : Value}, SameKind first second → (second = .string reference ↔ first = .string reference) := by
    rintro first second (⟨_, rfl, _, rfl⟩ | ⟨-, rfl⟩)
    · simp
    · rfl
  obtain rfl | ⟨members, members', rfl, rfl, hpairs⟩ := h
  · rfl
  · cases hpairs with
    | nil => rfl
    | @cons member member' rest rest' hmember hrest =>
        obtain ⟨key, value⟩ := member
        obtain ⟨key', value'⟩ := member'
        obtain ⟨rfl, hvalue⟩ := hmember
        have hempty : rest' = [] ↔ rest = [] := by
          rw [← List.length_eq_zero_iff, ← List.length_eq_zero_iff, hrest.length_eq]
        simp only [Value.object.injEq, List.cons.injEq, Prod.mk.injEq, hkind hvalue, hempty]

end Readings

section Normalized

variable {base out : Value} {render : Value → String} {chain chain' : List String} {value child u property : Value}
  {object object' : Map} {steps : List Step} {step : Step} {name : String} {place : Place} {openedAt : Option (List String)}

theorem becomes_kept (value : Value) : Becomes base render ⟨none, value⟩ value := .kept (.inl rfl)

theorem NodeSpec.sayAlike_walked (h : NodeSpec (Normalizes base render chain) object object') :
    SayAlike (fun child child' => Becomes base render ⟨some chain, child⟩ child') object object' :=
  { h.sayAlike with
    variant := by
      intro index
      have hrel := h.sayAlike.variant index
      generalize childAt object (.anyOf index) = variant at hrel ⊢
      generalize childAt object' (.anyOf index) = variant' at hrel ⊢
      cases hrel with
      | none => exact .none
      | some hnormalizes => exact .some (.walked hnormalizes) }

/-- What becomes of the object that a place stands for. -/
theorem Becomes.of_opens (h : Becomes base render place u) (hopens : Opens base place ⟨openedAt, .object object⟩)
    (hnone : object.get "$ref" = none) :
    ∃ object' : Map, u = .object object' ∧
      SayAlike (fun child child' => Becomes base render ⟨openedAt, child⟩ child') object object' := by
  cases h with
  | walked hnormalizes =>
      cases hopens with
      | walked hunfolds =>
          obtain ⟨object', rfl, hspec⟩ := hnormalizes.node_of_unfolds hunfolds hnone
          exact ⟨object', rfl, hspec.sayAlike_walked⟩
  | kept halike =>
      cases hopens with
      | kept => exact halike.exists_object becomes_kept

/-- An object of the result without a reference stems from what its place stands for. -/
theorem Becomes.exists_opens (h : Becomes base render place (.object object')) (hnone : object'.get "$ref" = none) :
    ∃ (openedAt : Option (List String)) (object : Map), Opens base place ⟨openedAt, .object object⟩ ∧
      object.get "$ref" = none ∧
      SayAlike (fun child child' => Becomes base render ⟨openedAt, child⟩ child') object object' := by
  cases h with
  | walked hnormalizes =>
      obtain ⟨chain', object, hunfolds, href, hspec⟩ := hnormalizes.unfolds_node hnone
      exact ⟨some chain', object, .walked hunfolds, href, hspec.sayAlike_walked⟩
  | kept halike =>
      obtain ⟨object, rfl, hsay⟩ := halike.exists_source (@becomes_kept base render)
      exact ⟨none, object, .kept, hsay.ref.mp hnone, hsay⟩

theorem Becomes.eq_bare {reference : String} (h : Becomes base render place u)
    (hopens : Opens base place ⟨openedAt, .object [("$ref", .string reference)]⟩) :
    u = .object [("$ref", .string reference)] := by
  cases h with
  | walked hnormalizes =>
      cases hopens with
      | walked hunfolds => exact (hnormalizes.of_unfolds hunfolds).eq_bare
  | kept halike =>
      cases hopens with
      | kept => exact halike.eq_bare_iff.mpr rfl

theorem Becomes.opens_bare {reference : String} (h : Becomes base render place (.object [("$ref", .string reference)])) :
    ∃ openedAt, Opens base place ⟨openedAt, .object [("$ref", .string reference)]⟩ := by
  cases h with
  | walked hnormalizes =>
      obtain ⟨chain', hunfolds⟩ := hnormalizes.unfolds_bare
      exact ⟨some chain', .walked hunfolds⟩
  | kept halike =>
      rw [halike.eq_bare_iff.mp rfl]
      exact ⟨none, .kept⟩

theorem Becomes.eq_true_iff (h : Becomes base render place u) : u = .bool true ↔ place.value = .bool true := by
  cases h with
  | walked hnormalizes =>
      obtain ⟨_, rfl, _, rfl⟩ | ⟨-, rfl⟩ := hnormalizes.sameKind
      · simp
      · rfl
  | kept halike => exact halike.eq_true_iff

/-- What accepts `null` is a schema. -/
theorem AcceptsNull.isSchema {document : Value} (h : AcceptsNull document u) : IsSchema u := by
  cases h with
  | always => exact .inr rfl
  | plain _ _ _ => exact .inl ⟨_, rfl⟩
  | variant _ _ _ _ => exact .inl ⟨_, rfl⟩
  | reference _ _ => exact .inl ⟨_, rfl⟩

/-- The result accepts `null` only where a place takes it. -/
theorem AcceptsNull.takes (hbase : Normalizes base render [] base out) (haccepts : AcceptsNull out u)
    (h : Becomes base render place u) : TakesNull base place := by
  induction haccepts generalizing place with
  | always =>
      obtain ⟨chain, value⟩ := place
      cases h.eq_true_iff.mp rfl
      exact .always
  | plain hnone hkeywords hanyOf =>
      obtain ⟨openedAt, object, hopens, href, hsay⟩ := h.exists_opens hnone
      exact .plain hopens href (hsay.keywords ▸ hkeywords) (hsay.anyOf.mp hanyOf)
  | @variant _ index variant hnone hkeywords hvariant _ ih =>
      obtain ⟨openedAt, object, hopens, href, hsay⟩ := h.exists_opens hnone
      have hrel := hsay.variant index
      rw [hvariant] at hrel
      generalize hchild : childAt object (.anyOf index) = child at hrel
      cases hrel with
      | some hbecomes => exact .variant hopens href (hsay.keywords ▸ hkeywords) hchild (ih hbecomes)
  | reference hresolved haccepts ih =>
      obtain ⟨openedAt, hopens⟩ := h.opens_bare
      rw [resolveRef_eq] at hresolved
      obtain ⟨keys, hkeys, hlookup⟩ := Option.bind_eq_some_iff.mp hresolved
      obtain ⟨target, hleads, hbecomes⟩ := hbase.exists_leads hlookup haccepts.isSchema
      exact .reference hopens hkeys hleads (ih hbecomes)

/-- The result accepts `null` wherever a place takes it. -/
theorem TakesNull.accepts (hbase : Normalizes base render [] base out) (htakes : TakesNull base place)
    (h : Becomes base render place u) : AcceptsNull out u := by
  induction htakes generalizing u with
  | always =>
      rw [h.eq_true_iff.mpr rfl]
      exact .always
  | plain hopens hnone hkeywords hanyOf =>
      obtain ⟨object', rfl, hsay⟩ := h.of_opens hopens hnone
      exact .plain (hsay.ref.mpr hnone) (hsay.keywords ▸ hkeywords) (hsay.anyOf.mpr hanyOf)
  | @variant _ _ _ index _ hopens hnone hkeywords hvariant _ ih =>
      obtain ⟨object', rfl, hsay⟩ := h.of_opens hopens hnone
      have hrel := hsay.variant index
      rw [hvariant] at hrel
      generalize hchild : childAt object' (.anyOf index) = child at hrel
      cases hrel with
      | some hbecomes => exact .variant (hsay.ref.mpr hnone) (hsay.keywords ▸ hkeywords) hchild (ih hbecomes)
  | reference hopens hkeys hleads _ ih =>
      obtain ⟨schema, hlookup, hbecomes⟩ := hleads.lookup hbase
      rw [h.eq_bare hopens]
      refine .reference ?_ (ih hbecomes)
      rw [resolveRef_eq, hkeys, Option.bind_some, hlookup]

/-- A path of positions goes on below a schema. -/
theorem Derives.snoc {first : List String} {start : Value} (h : Derives base first start steps chain value)
    (hunfolds : Unfolds base chain value chain' (.object object)) (hnone : object.get "$ref" = none)
    (hchild : preparedChild object step = some child) : Derives base first start (steps ++ [step]) chain' child := by
  induction h with
  | here => exact .step hunfolds hnone hchild .here
  | step hfirst hfirstNone hfirstChild _ ih => exact .step hfirst hfirstNone hfirstChild (ih hunfolds)

/-- A schema that is wrapped takes `null`. -/
theorem takesNull_makeNullable (h : schemaAllowsNull property = false) :
    TakesNull base ⟨some chain, makeNullable property⟩ := by
  rw [makeNullable, h]
  exact .variant (.walked .here) rfl rfl (rfl : childAt _ (.anyOf 1) = _) (.plain (.walked .here) rfl (by decide) rfl)

/-- What becomes of an optional property. -/
theorem OptionalProperty.normalized (h : OptionalProperty base steps name chain property)
    (hbase : Normalizes base render [] base out) :
    ∃ schema, schemaAt out (steps ++ [.member .properties name]) = some schema ∧
      (AcceptsNull out schema ↔ TakesNull base ⟨some chain, makeNullable property⟩) := by
  obtain ⟨chain', value, object, hderives, hunfolds, hnone, hchild, hrequired⟩ := h.exists_object
  have hprepared := preparedChild_property hchild
  rw [if_neg hrequired] at hprepared
  obtain ⟨schema, hat, hschema⟩ := hbase.of_derives (hderives.snoc hunfolds hnone hprepared)
  exact ⟨schema, hat, fun haccepts => haccepts.takes hbase (.walked hschema),
    fun htakes => htakes.accepts hbase (.walked hschema)⟩

theorem Normalizes.staysOmittable_iff (hbase : Normalizes base render [] base out) :
    StaysOmittable base out ↔ AllowsNullRightly base := by
  constructor
  · intro homittable steps name chain property hoptional hallows
    obtain ⟨schema, hat, hiff⟩ := hoptional.normalized hbase
    obtain ⟨schema', hat', haccepts⟩ := homittable steps name chain property hoptional
    cases hat.symm.trans hat'
    have htakes := hiff.mp haccepts
    rwa [makeNullable, if_pos hallows] at htakes
  · intro hrightly steps name chain property hoptional
    obtain ⟨schema, hat, hiff⟩ := hoptional.normalized hbase
    refine ⟨schema, hat, hiff.mpr ?_⟩
    by_cases hallows : schemaAllowsNull property = true
    · rw [makeNullable, if_pos hallows]
      exact hrightly steps name chain property hoptional hallows
    · exact takesNull_makeNullable (Bool.eq_false_iff.mpr hallows)

/-- The optional properties stay omittable exactly when those that `schema_allows_null` accepts do take `null`. -/
theorem omittable_iff_allowsNullRightly {fuel : Nat} {schema : Value}
    (h : normalizeStrictSchema render fuel schema = some (.ok out)) :
    StaysOmittable (stripSchema schema) out ↔ AllowsNullRightly (stripSchema schema) := by
  obtain ⟨hyields, -⟩ := normalizeStrictSchema_ok h
  have hbase : Normalizes (stripSchema schema) render [] (stripSchema schema) out := ⟨fuel, "#", hyields⟩
  exact hbase.staysOmittable_iff

theorem omittable_iff_allowsNullRightly_recursive :
    ∃ out, normalizeStrictSchema (fun _ => "") 8 recursiveList = some (.ok out) ∧
      (StaysOmittable (stripSchema recursiveList) out ↔ AllowsNullRightly (stripSchema recursiveList)) := by
  obtain ⟨out, hout, -⟩ := exists_result (show ((normalizeStrictSchema (fun _ => "") 8 recursiveList).bind
    Except.toOption).any (fun _ => true) = true by decide)
  exact ⟨out, hout, omittable_iff_allowsNullRightly hout⟩

/-- The type of the optional property names `null`, its `enum` does not list it. -/
def unlistedNull : Value :=
  .object [("type", .string "object"),
    ("properties", .object [("size", .object [("type", .array [.string "string", .string "null"]),
      ("enum", .array [.string "small", .string "large"])])])]

theorem unlistedNull_not_omittable :
    ∃ out, normalizeStrictSchema (fun _ => "") 8 unlistedNull = some (.ok out) ∧
      ¬ StaysOmittable (stripSchema unlistedNull) out := by
  obtain ⟨out, hout, -⟩ := exists_result (show ((normalizeStrictSchema (fun _ => "") 8 unlistedNull).bind
    Except.toOption).any (fun _ => true) = true by decide)
  obtain ⟨hyields, -⟩ := normalizeStrictSchema_ok hout
  have hbase : Normalizes (stripSchema unlistedNull) (fun _ => "") [] (stripSchema unlistedNull) out := ⟨8, "#", hyields⟩
  refine ⟨out, hout, fun homittable => ?_⟩
  have hrightly := hbase.staysOmittable_iff.mp homittable
  have hoptional : OptionalProperty (stripSchema unlistedNull) [] "size" []
      (.object [("type", .array [.string "string", .string "null"]),
        ("enum", .array [.string "small", .string "large"])]) :=
    ⟨_, _, _, .here, .here, rfl, rfl, by decide⟩
  have htakes := hrightly [] "size" [] _ hoptional (by decide)
  cases htakes with
  | plain hopens _ hkeywords _ =>
      cases hopens.eq_self rfl rfl
      exact absurd hkeywords (by decide)
  | variant hopens _ hkeywords _ _ =>
      cases hopens.eq_self rfl rfl
      exact absurd hkeywords (by decide)
  | reference hopens _ _ _ =>
      have heq := hopens.eq_self rfl rfl
      simp at heq

end Normalized

end OpenaiRs.StrictSchema
