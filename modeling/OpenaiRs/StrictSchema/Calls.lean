import Mathlib.Data.List.Dedup
import Mathlib.Data.List.Perm.Subperm
import OpenaiRs.StrictSchema.Termination

/-!
# The active chain of every recursive call

One call of `normalize` with the recursion as a parameter, and the normalization that asserts something about
the active chain of each of its calls. That no reference of the chain is repeated and all of them occur in the
document is such an assertion: no run violates it, failing runs included.
-/

namespace OpenaiRs.StrictSchema

open Serde Fallible Fallible.Pass

section Assertions

variable (base : Value) (render : Value → String)

/-- One call of `normalize`. -/
def normalizeCall (recur : String → List String → Value → Pass Nat StructuredError Value) (fuel : Nat) (path : String)
    (chain : List String) : Value → Pass Nat StructuredError Value
  | .object object =>
      match unsupportedKeywords.find? fun keyword => Map.containsKey object keyword with
      | some keyword => .fail (.unsupportedKeyword (path ++ "/" ++ escapePointer keyword) keyword)
      | none =>
          match Map.get object "$ref" with
          | some node => do
              let next ← followRef base render fuel path chain object node
              match next with
              | none => .done (.object object)
              | some (chain, value) => recur path chain value
          | none => do
              let object ← normalizeNode (fun path child => recur path chain child) path object
              .done (.object object)
  | value => .done value

theorem normalize_succ (fuel : Nat) (path : String) (chain : List String) (value : Value) :
    normalize base render (fuel + 1) path chain value =
      normalizeCall base render (normalize base render fuel) fuel path chain value := by
  cases value with
  | _ => rfl

/-- `normalize` with an assertion about the active chain of every call; the call that violates it does not
return. -/
def normalizeAsserting (holds : List String → Prop) [DecidablePred holds] :
    Nat → String → List String → Value → Pass Nat StructuredError Value
  | 0, _, _, _ => .diverge
  | fuel + 1, path, chain, value =>
      if holds chain then normalizeCall base render (normalizeAsserting holds fuel) fuel path chain value
      else .diverge

end Assertions

section Chains

variable {base : Value} {render : Value → String} {chain chain' : List String} {value value' child : Value}
  {object : Map} {fuel : Nat}

/-- No reference is repeated, and all are references of the document; so they are no more than those. -/
def SoundChain (document : Value) (chain : List String) : Prop :=
  chain.Nodup ∧ chain ⊆ references document ∧ chain.length ≤ (references document).dedup.length

instance SoundChain.decidablePred (document : Value) : DecidablePred (SoundChain document) :=
  fun chain => inferInstanceAs
    (Decidable (chain.Nodup ∧ chain ⊆ references document ∧ chain.length ≤ (references document).dedup.length))

theorem soundChain_nil (document : Value) : SoundChain document [] :=
  ⟨.nil, List.nil_subset _, Nat.zero_le _⟩

theorem soundChain_of_subset {document : Value} (hnodup : chain.Nodup) (hsubset : chain ⊆ references document) :
    SoundChain document chain := by
  have hdedup : chain ⊆ (references document).dedup := fun _ hmem => List.mem_dedup.mpr (hsubset hmem)
  exact ⟨hnodup, hsubset, (hnodup.subperm hdedup).length_le⟩

/-- What every call gets: a sound chain, and a value with references of the document. -/
structure Tracked (base : Value) (chain : List String) (value : Value) : Prop where
  sound : SoundChain base chain
  known : Known base value

theorem known_nullSchema : Known base (.object [("type", .string "null")]) := by
  intro reference hmem
  cases hmem

theorem known_makeNullable (h : Known base value) : Known base (makeNullable value) := by
  rw [makeNullable]
  split
  · exact h
  · rw [known_object, List.forall_mem_singleton, KnownMember, known_array]
    refine ⟨by simp, ?_⟩
    simpa using ⟨h, known_nullSchema⟩

/-- The values below a schema have its references. -/
theorem known_below (h : Known base (.object object)) (hchild : child ∈ below object) : Known base child := by
  have hmember := known_object.mp h
  obtain hvisited | hproperty := List.mem_append.mp hchild
  · obtain ⟨member, hmem, hin⟩ := List.mem_flatMap.mp hvisited
    exact known_visited (hmember member hmem).2 hin
  · cases hvalue : (object.get "properties").bind Value.asObject with
    | none =>
        rw [hvalue] at hproperty
        cases hproperty
    | some properties =>
        rw [hvalue, Option.elim_some, prepareProperties, List.map_map] at hproperty
        obtain ⟨property, hmem, rfl⟩ := List.mem_map.mp hproperty
        obtain ⟨node, hnode, hobject⟩ := Option.bind_eq_some_iff.mp hvalue
        obtain rfl := Value.asObject_eq_some hobject
        have hknown := (known_object.mp (hmember _ (Map.mem_of_get hnode)).2 property hmem).2
        rw [Function.comp_apply]
        split
        · exact hknown
        · exact known_makeNullable hknown

theorem known_keepRecursion {reference : String} (h : Known base (.object object))
    (href : object.get "$ref" = some (.string reference)) :
    Known base (.object (keepRecursion object reference)) := by
  rw [known_object]
  intro member hmem
  obtain hkept | rfl := Map.mem_insert hmem
  · exact known_object.mp h member (Map.mem_of_mem_remove hkept)
  · refine ⟨by simp, known_array.mpr ?_⟩
    simpa using known_reference (mem_references h href)

/-- The call that follows a reference. -/
theorem Tracked.follows (h : Tracked base chain (.object object)) (hfollows : Follows base chain object chain' value') :
    Tracked base chain' value' := by
  cases hfollows with
  | inline href _ hresolved hnew =>
      have hnodup := List.nodup_cons.mpr ⟨hnew, h.sound.1⟩
      have hsubset := List.cons_subset.mpr ⟨mem_references h.known href, h.sound.2.1⟩
      exact ⟨soundChain_of_subset hnodup hsubset, known_mergeSiblings (known_resolved hresolved) h.known⟩
  | recursive href _ _ _ => exact ⟨h.sound, known_keepRecursion h.known href⟩

variable {recur recur' : String → List String → Value → Pass Nat StructuredError Value} {path : String}

/-- A call of a tracked value only makes calls of tracked values. -/
theorem normalizeCall_refines (h : Tracked base chain value)
    (hrecur : ∀ path chain value, Tracked base chain value → Refines (recur path chain value) (recur' path chain value)) :
    Refines (normalizeCall base render recur fuel path chain value)
      (normalizeCall base render recur' fuel path chain value) := by
  cases value with
  | object object =>
      rw [normalizeCall, normalizeCall]
      split
      · exact .refl _
      · split
        · rename_i node hnode
          refine (Refines.refl _).bind fun next hnext => ?_
          obtain ⟨reference, -, -, -, hcases⟩ := followRef_cases hnode hnext
          obtain ⟨rfl, -⟩ | ⟨chain', value', rfl, hfollows⟩ := hcases
          · exact .refl _
          · exact hrecur path chain' value' (h.follows hfollows)
        · have hbelow : Refines (normalizeNode (fun path child => recur path chain child) path object)
              (normalizeNode (fun path child => recur' path chain child) path object) :=
            normalizeNode_refines fun child hchild path =>
              hrecur path chain child ⟨h.sound, known_below h.known hchild⟩
          exact hbelow.bind fun _ _ => .refl _
  | _ => exact .refl _

/-- No call violates an assertion that holds of all sound chains. -/
theorem normalizeAsserting_eq {holds : List String → Prop} [DecidablePred holds]
    (hholds : ∀ chain, SoundChain base chain → holds chain) (h : Tracked base chain value) :
    normalizeAsserting base render holds fuel path chain value = normalize base render fuel path chain value := by
  induction fuel generalizing path chain value with
  | zero => rfl
  | succ fuel ih =>
      rw [normalizeAsserting, if_pos (hholds chain h.sound), normalize_succ]
      apply Refines.antisymm
      · exact normalizeCall_refines h fun path chain value htracked => ih htracked ▸ .refl _
      · exact normalizeCall_refines h fun path chain value htracked => ih htracked ▸ .refl _

theorem known_stripSchema (schema : Value) : Known schema (stripSchema schema) := by
  cases schema with
  | object members =>
      have hknown : Known (.object members) (.object members) := fun _ hmem => hmem
      exact known_object.mpr fun member hmem => known_object.mp hknown member (Map.mem_of_mem_remove hmem)
  | _ => exact fun _ hmem => hmem

/-- The references of a document are those of the schema that it was made of. -/
theorem SoundChain.of_stripSchema {schema : Value} (h : SoundChain (stripSchema schema) chain) :
    SoundChain schema chain :=
  soundChain_of_subset h.1 fun _ hmem => known_stripSchema schema _ (h.2.1 hmem)

end Chains

end OpenaiRs.StrictSchema
