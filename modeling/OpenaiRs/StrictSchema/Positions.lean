import OpenaiRs.StrictSchema.Normalize

/-!
# Positions of a schema

Where the schemas of a document are, and how the positions of a document that is being normalized come
about: a reference with siblings is replaced by its target, and a property that is not required may be
wrapped. Nothing here runs the normalization.
-/

namespace OpenaiRs.StrictSchema

open Serde Fallible

section Positions

/-- The keywords whose values are maps of schemas. -/
inductive SchemaMap where
  | properties
  | defs
  | definitions
  deriving DecidableEq

def SchemaMap.key : SchemaMap → String
  | .properties => "properties"
  | .defs => "$defs"
  | .definitions => "definitions"

/-- From a schema to one below it. -/
inductive Step where
  | member (keyword : SchemaMap) (name : String)
  | anyOf (index : Nat)
  | items
  deriving DecidableEq

def childAt (object : Map) : Step → Option Value
  | .member keyword name =>
      ((object.get keyword.key).bind Value.asObject).bind fun schemas => Map.get schemas name
  | .anyOf index => ((object.get "anyOf").bind Value.asArray).bind fun variants => variants[index]?
  | .items => object.get "items"

/-- The schema at a position of a document. -/
def schemaAt (value : Value) : List Step → Option Value
  | [] => some value
  | step :: rest => value.asObject.bind fun object => (childAt object step).bind fun child => schemaAt child rest

/-- A pointer with these keys addresses the position; no pointer goes through an array. -/
inductive Addresses : List String → List Step → Prop
  | root : Addresses [] []
  | member {keys : List String} {path : List Step} (keyword : SchemaMap) (name : String) :
      Addresses keys path → Addresses (keyword.key :: name :: keys) (.member keyword name :: path)
  | items {keys : List String} {path : List Step} : Addresses keys path →
      Addresses ("items" :: keys) (.items :: path)

theorem lookupKeys_of_addresses {value u : Value} {keys : List String} {path : List Step}
    (haddresses : Addresses keys path) (hat : schemaAt value path = some u) : lookupKeys value keys = some u := by
  induction haddresses generalizing value with
  | root => exact hat
  | member keyword name _ ih =>
      obtain ⟨object, hobject, hrest⟩ := Option.bind_eq_some_iff.mp hat
      obtain ⟨child, hchild, hat'⟩ := Option.bind_eq_some_iff.mp hrest
      obtain ⟨schemas, hschemas, hname⟩ := Option.bind_eq_some_iff.mp hchild
      obtain ⟨inner, hinner, hmap⟩ := Option.bind_eq_some_iff.mp hschemas
      simp only [lookupKeys, hobject, hinner, hmap, hname, Option.bind_some]
      exact ih hat'
  | items _ ih =>
      obtain ⟨object, hobject, hrest⟩ := Option.bind_eq_some_iff.mp hat
      obtain ⟨child, hchild, hat'⟩ := Option.bind_eq_some_iff.mp hrest
      change object.get "items" = some child at hchild
      simp only [lookupKeys, hobject, hchild, Option.bind_some]
      exact ih hat'

end Positions

section Derivations

variable (base : Value)

/-- A node with a reference and siblings, and what it is replaced by, with the active chain. -/
inductive Follows (chain : List String) (object : Map) : List String → Value → Prop
  | inline {reference : String} {resolved : Map} : object.get "$ref" = some (.string reference) →
      object.length ≠ 1 → (resolveRef base reference).bind Value.asObject = some resolved → reference ∉ chain →
      Follows chain object (reference :: chain) (.object (mergeSiblings resolved object))
  | recursive {reference : String} {resolved : Map} : object.get "$ref" = some (.string reference) →
      object.length ≠ 1 → (resolveRef base reference).bind Value.asObject = some resolved → reference ∈ chain →
      Follows chain object chain (.object (keepRecursion object reference))

/-- Some replacements at one node. -/
inductive Unfolds : List String → Value → List String → Value → Prop
  | here {chain : List String} {value : Value} : Unfolds chain value chain value
  | follow {chain chain' chain'' : List String} {object : Map} {value value' : Value} :
      Follows base chain object chain' value → Unfolds chain' value chain'' value' →
      Unfolds chain (.object object) chain'' value'

/-- A schema below a node without a reference, as it is normalized. -/
def preparedChild (object : Map) : Step → Option Value
  | .member .properties name =>
      ((object.get "properties").bind Value.asObject).bind fun properties =>
        Map.get (prepareProperties object properties) name
  | step => childAt object step

/-- What is normalized at a position, and with which active chain. -/
inductive Derives : List String → Value → List Step → List String → Value → Prop
  | here {chain : List String} {value : Value} : Derives chain value [] chain value
  | step {chain chain' chain'' : List String} {value child value' : Value} {object : Map} {step : Step}
      {path : List Step} : Unfolds base chain value chain' (.object object) → object.get "$ref" = none →
      preparedChild object step = some child → Derives chain' child path chain'' value' →
      Derives chain value (step :: path) chain'' value'

variable {base} {chain chain' chain'' : List String} {object : Map} {value value' : Value}

theorem not_follows (hnone : object.get "$ref" = none) : ¬ Follows base chain object chain' value := by
  intro hfollows
  cases hfollows with
  | inline href _ _ _ => exact absurd (href.symm.trans hnone) (by simp)
  | recursive href _ _ _ => exact absurd (href.symm.trans hnone) (by simp)

theorem Follows.deterministic (h : Follows base chain object chain' value)
    (h' : Follows base chain object chain'' value') : chain' = chain'' ∧ value = value' := by
  have hsame : ∀ {r r' : String} {t t' : Map}, object.get "$ref" = some (.string r) →
      object.get "$ref" = some (.string r') → (resolveRef base r).bind Value.asObject = some t →
      (resolveRef base r').bind Value.asObject = some t' → r = r' ∧ t = t' := by
    intro r r' t t' hr hr' ht ht'
    have heq := hr.symm.trans hr'
    cases heq
    exact ⟨rfl, Option.some.inj (ht.symm.trans ht')⟩
  cases h with
  | inline hr _ ht hnew =>
      cases h' with
      | inline hr' _ ht' _ =>
          obtain ⟨rfl, rfl⟩ := hsame hr hr' ht ht'
          exact ⟨rfl, rfl⟩
      | recursive hr' _ ht' hold =>
          obtain ⟨rfl, -⟩ := hsame hr hr' ht ht'
          exact absurd hold hnew
  | recursive hr _ ht hold =>
      cases h' with
      | inline hr' _ ht' hnew =>
          obtain ⟨rfl, -⟩ := hsame hr hr' ht ht'
          exact absurd hold hnew
      | recursive hr' _ ht' _ =>
          obtain ⟨rfl, -⟩ := hsame hr hr' ht ht'
          exact ⟨rfl, rfl⟩

end Derivations

end OpenaiRs.StrictSchema
