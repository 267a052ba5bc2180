import Mathlib.Algebra.BigOperators.Ring.List
import Mathlib.Algebra.Order.BigOperators.Group.List
import Mathlib.Algebra.Order.Group.Nat
import Mathlib.Algebra.Ring.Nat
import OpenaiRs.Fallible.Cost
import OpenaiRs.StrictSchema.Calls
import OpenaiRs.StrictSchema.Idempotence

/-!
# The size of a normalized schema

A schema grows by two members when it is an object schema, by its name in `required` when it is a property and by
a wrapper when it may be null. Each node of the document pays for ten, and so does each node that inlining has
spent of the budget; what the siblings of a recursive reference are moved next to is paid for by the reference.
-/

namespace OpenaiRs.StrictSchema

open Serde Fallible Fallible.Pass

section Counting

theorem countNodes_pos (value : Value) : 0 < countNodes value := by
  cases value with
  | array items =>
      rw [countNodes]
      omega
  | object members =>
      rw [countNodes]
      omega
  | _ => exact Nat.one_pos

theorem countItems_eq (items : List Value) : countItems items = (items.map countNodes).sum := by
  induction items with
  | nil => rfl
  | cons item rest ih => rw [countItems, List.map_cons, List.sum_cons, ih]

theorem countMembers_eq (members : Map) : countMembers members = (members.map fun member => countNodes member.2).sum := by
  induction members with
  | nil => rfl
  | cons member rest ih => rw [countMembers, List.map_cons, List.sum_cons, ih]

/-- With one for each name. -/
theorem sum_count_succ (members : Map) :
    (members.map fun member => countNodes member.2 + 1).sum = countMembers members + members.length := by
  induction members with
  | nil => rfl
  | cons member rest ih =>
      rw [List.map_cons, List.sum_cons, ih, countMembers, List.length_cons]
      omega

theorem countItems_names (names : List String) : countItems (names.map .string) = names.length := by
  induction names with
  | nil => rfl
  | cons name rest ih =>
      rw [List.map_cons, countItems, ih, List.length_cons, Nat.add_comm]
      rfl

theorem countMembers_eq_countItems (members : Map) : countMembers members = countItems (members.map Prod.snd) := by
  rw [countMembers_eq, countItems_eq, List.map_map]
  rfl

end Counting

section Allowances

/-- The nodes that a value of this many nodes may become. -/
def allowance (nodes : Nat) : Nat := if nodes ≤ 1 then nodes else 10 * nodes - 16

theorem allowance_le (nodes : Nat) : allowance nodes ≤ 10 * nodes := by
  rw [allowance]
  split <;> omega

theorem allowance_lt {nodes : Nat} (h : 0 < nodes) : allowance nodes + 9 ≤ 10 * nodes := by
  rw [allowance]
  split <;> omega

theorem le_allowance (nodes : Nat) : nodes ≤ allowance nodes := by
  rw [allowance]
  split <;> omega

def itemsAllowance (values : List Value) : Nat := (values.map fun value => allowance (countNodes value)).sum

theorem itemsAllowance_le (values : List Value) : itemsAllowance values ≤ 10 * countItems values := by
  rw [itemsAllowance]
  induction values with
  | nil => exact Nat.le_refl _
  | cons value rest ih =>
      have hle := allowance_le (countNodes value)
      rw [List.map_cons, List.sum_cons, countItems]
      omega

/-- What the loop over the members of a schema may make of one of them. -/
def memberCost : String × Value → Nat
  | (key, child) =>
      if key = "$defs" ∨ key = "definitions" then 1 + itemsAllowance ((child.asObject.getD []).map Prod.snd)
      else if key = "anyOf" then 1 + itemsAllowance (child.asArray.getD [])
      else if key = "items" then allowance (countNodes child)
      else countNodes child

def memberAllowance (member : String × Value) : Nat := 10 * countNodes member.2 - 9

theorem memberCost_le (member : String × Value) : memberCost member ≤ memberAllowance member := by
  obtain ⟨key, child⟩ := member
  have hpos := countNodes_pos child
  rw [memberCost]
  change _ ≤ 10 * countNodes child - 9
  split
  · cases child with
    | object members =>
        have hle := itemsAllowance_le (members.map Prod.snd)
        rw [← countMembers_eq_countItems] at hle
        rw [Value.asObject, Option.getD_some, countNodes]
        omega
    | _ =>
        exact Nat.le_sub_of_add_le (Nat.le_mul_of_pos_right 10 hpos)
  · split
    · cases child with
      | array items =>
          have hle := itemsAllowance_le items
          rw [Value.asArray, Option.getD_some, countNodes]
          omega
      | _ =>
          exact Nat.le_sub_of_add_le (Nat.le_mul_of_pos_right 10 hpos)
    · split
      · have hlt := allowance_lt hpos
        omega
      · omega

/-- The same before the properties have been normalized. -/
def preparedCost (member : String × Value) : Nat :=
  if member.1 = "properties" then memberAllowance member else memberCost member

theorem memberCost_le_preparedCost (member : String × Value) : memberCost member ≤ preparedCost member := by
  rw [preparedCost]
  split
  · exact memberCost_le member
  · exact Nat.le_refl _

theorem preparedCost_le (member : String × Value) : preparedCost member ≤ memberAllowance member := by
  rw [preparedCost]
  split
  · exact Nat.le_refl _
  · exact memberCost_le member

theorem sum_map_le {α : Type} {f g : α → Nat} (h : ∀ a, f a ≤ g a) (as : List α) : (as.map f).sum ≤ (as.map g).sum := by
  induction as with
  | nil => exact Nat.le_refl _
  | cons a rest ih =>
      have hle := h a
      rw [List.map_cons, List.map_cons, List.sum_cons, List.sum_cons]
      omega

end Allowances

section Inserting

variable {object : Map}

/-- A sum over the members with one of them inserted. -/
theorem sum_insert (hnodup : (object.map Prod.fst).Nodup) (f : String × Value → Nat) (key : String) (value : Value) :
    ((object.insert key value).map f).sum = f (key, value) + ((object.filter (·.1 ≠ key)).map f).sum := by
  rw [((Map.insert_perm hnodup key value).map f).sum_eq, List.map_cons, List.sum_cons]

theorem sum_filter_le (object : Map) (f : String × Value → Nat) (key : String) :
    ((object.filter (·.1 ≠ key)).map f).sum ≤ (object.map f).sum :=
  (List.filter_sublist.map f).sum_le_sum fun _ _ => Nat.zero_le _

theorem sum_insert_le (hnodup : (object.map Prod.fst).Nodup) (f : String × Value → Nat) (key : String) (value : Value) :
    ((object.insert key value).map f).sum ≤ f (key, value) + (object.map f).sum := by
  have hle := sum_filter_le object f key
  rw [sum_insert hnodup]
  omega

/-- A sum over the members by one of them. -/
theorem sum_of_get (hnodup : (object.map Prod.fst).Nodup) (f : String × Value → Nat) {key : String} {value : Value}
    (h : object.get key = some value) :
    (object.map f).sum = f (key, value) + ((object.filter (·.1 ≠ key)).map f).sum := by
  rw [((Map.perm_of_get hnodup h).map f).sum_eq, List.map_cons, List.sum_cons]

end Inserting

section Nodes

/-- What a normalization has spent of the expansion budget; every node spent pays for ten. -/
def expansion : Account Nat where
  spent spent := 10 * spent
  within spent := spent ≤ maxRefInlineNodes

variable {recur : NodePass} {path : String} {object : Map}

theorem normalizeSchemas_affords {cost : String × Value → Nat} {schemas : Map}
    (hrecur : ∀ member ∈ schemas, ∀ path, Affords expansion (recur path member.2) countNodes (cost member)) :
    Affords expansion (normalizeSchemas recur path schemas) countMembers (schemas.map cost).sum := by
  rw [show countMembers = fun members : Map => (members.map fun member => countNodes member.2).sum from
    funext countMembers_eq]
  apply Affords.traverse
  intro member hmem
  exact (hrecur member hmem _).map fun _ => Nat.le_refl _

theorem normalizeMember_affords {member : String × Value}
    (hrecur : ∀ child ∈ visited member, ∀ path,
      Affords expansion (recur path child) countNodes (allowance (countNodes child))) :
    Affords expansion (normalizeMember recur path member) (fun member => countNodes member.2) (memberCost member) := by
  obtain ⟨key, child⟩ := member
  rw [visited] at hrecur
  rw [normalizeMember.eq_def, memberCost]
  simp only
  split
  · rename_i hkey
    rw [if_pos hkey] at hrecur
    split
    · rename_i children
      rw [Nat.add_comm, itemsAllowance, List.map_map]
      refine Affords.grow (normalizeSchemas_affords fun member hmem => ?_) fun children' => ?_
      · exact hrecur member.2 (List.mem_map_of_mem hmem)
      · rw [countNodes, Nat.add_comm]
    · exact affords_fail
  · rename_i hdefs
    rw [if_neg hdefs] at hrecur
    split
    · rename_i hkey
      rw [if_pos hkey] at hrecur
      split
      · rename_i children
        rw [Nat.add_comm, itemsAllowance]
        have hvariants : Affords expansion (Pass.traverse
            (fun item : Value × Nat => recur (path ++ "/" ++ key ++ "/" ++ toString item.2) item.1) children.zipIdx)
            countItems (children.zipIdx.map fun item => allowance (countNodes item.1)).sum := by
          rw [funext countItems_eq]
          exact .traverse fun item hmem => hrecur item.1 (List.fst_mem_of_mem_zipIdx hmem) _
        have hsum : (children.zipIdx.map fun item => allowance (countNodes item.1)) =
            children.map fun child => allowance (countNodes child) := by
          rw [← Function.comp_def (fun child => allowance (countNodes child)), ← List.map_map, List.zipIdx_map_fst]
        rw [hsum] at hvariants
        refine hvariants.grow fun children' => ?_
        rw [countNodes, Nat.add_comm]
      · exact affords_fail
    · rename_i hanyOf
      rw [if_neg hanyOf] at hrecur
      split
      · rename_i hkey
        rw [if_pos hkey] at hrecur
        split
        · exact (hrecur _ List.mem_cons_self _).map fun _ => Nat.le_refl _
        · exact (hrecur _ List.mem_cons_self _).map fun _ => Nat.le_refl _
        · exact affords_fail
      · exact affords_done (Nat.le_refl _)

/-- What is made of a property and its name. -/
def PropertiesAfford (recur : NodePass) (object : Map) : Prop :=
  ∀ properties : Map, object.get "properties" = some (.object properties) → ∀ property ∈ properties, ∀ path,
    Affords expansion
      (recur path (if property.1 ∈ previousRequired object then property.2 else makeNullable property.2)) countNodes
      (10 * countNodes property.2 - 1)

theorem normalizeProperties_affords (hnodup : (object.map Prod.fst).Nodup) (hrecur : PropertiesAfford recur object) :
    Affords expansion (normalizeProperties recur path object)
      (fun normalized => (normalized.1.map memberCost).sum + normalized.2.length) (object.map preparedCost).sum := by
  rw [normalizeProperties]
  split
  · rename_i properties hproperties
    have hschemas : Affords expansion (normalizeSchemas recur (path ++ "/properties") (prepareProperties object properties))
        (fun schemas => (schemas.map fun schema => countNodes schema.2 + 1).sum)
        (properties.map fun property => 10 * countNodes property.2).sum := by
      rw [normalizeSchemas, prepareProperties, traverse_map]
      apply Affords.traverse
      intro property hmem
      have hpos := countNodes_pos property.2
      have hgrow := (hrecur properties hproperties property hmem
        (path ++ "/properties" ++ "/" ++ escapePointer property.1)).grow (g := fun schema => (property.1, schema))
        (t := fun schema => countNodes schema.2 + 1) (m := 1) fun _ => Nat.le_refl _
      exact hgrow.mono (by omega)
    have hothers : ((object.filter (·.1 ≠ "properties")).map preparedCost).sum =
        ((object.filter (·.1 ≠ "properties")).map memberCost).sum := by
      refine congrArg List.sum (List.map_congr_left fun member hmem => ?_)
      exact if_neg (of_decide_eq_true (List.mem_filter.mp hmem).2)
    have hproperty : preparedCost ("properties", .object properties) =
        1 + (properties.map fun property => 10 * countNodes property.2).sum := by
      have hten : (properties.map fun property => 10 * countNodes property.2).sum = 10 * countMembers properties := by
        rw [countMembers_eq, List.sum_map_mul_left]
      change 10 * (1 + countMembers properties) - 9 = _
      omega
    rw [sum_of_get hnodup preparedCost hproperties, hothers, hproperty, Nat.add_comm 1, Nat.add_assoc]
    refine hschemas.grow fun schemas => ?_
    have hcost : memberCost ("properties", .object schemas) = 1 + countMembers schemas := rfl
    rw [sum_insert hnodup, hcost, sum_count_succ, List.length_map]
    omega
  · exact affords_done (by simpa using sum_map_le memberCost_le_preparedCost object)

theorem closeObject_affords (hnodup : (object.map Prod.fst).Nodup) :
    Affords expansion (closeObject path object) (fun closed => (closed.map preparedCost).sum)
      ((object.map preparedCost).sum + 1) := by
  rw [closeObject]
  split
  · apply affords_done
    rw [Nat.add_comm]
    exact sum_insert_le hnodup preparedCost _ _
  · exact affords_done (Nat.le_succ _)
  · exact affords_fail

theorem nodup_closeObject {closed : Map} (hnodup : (object.map Prod.fst).Nodup)
    (h : (closeObject path object).Yields closed) : (closed.map Prod.fst).Nodup := by
  rw [closeObject] at h
  split at h
  · rw [yields_done h]
    exact Map.nodup_insert hnodup _ _
  · rwa [yields_done h]
  · exact absurd h not_yields_fail

theorem nodup_normalizeProperties {normalized : Map × List String} (hnodup : (object.map Prod.fst).Nodup)
    (h : (normalizeProperties recur path object).Yields normalized) : (normalized.1.map Prod.fst).Nodup := by
  rw [normalizeProperties] at h
  split at h
  · obtain ⟨schemas, -, hdone⟩ := yields_bind h
    rw [yields_done hdone]
    exact Map.nodup_insert hnodup _ _
  · rwa [yields_done h]

theorem normalizeObject_affords (hnodup : (object.map Prod.fst).Nodup) (hrecur : PropertiesAfford recur object) :
    Affords expansion (normalizeObject recur path object) (fun normalized => (normalized.map memberCost).sum)
      ((object.map preparedCost).sum + 2) := by
  refine (closeObject_affords hnodup).bind (m := 1) fun closed hclosed => ?_
  obtain ⟨-, hother⟩ := closeObject_spec hclosed
  have hclosedNodup := nodup_closeObject hnodup hclosed
  have hclosedRecur : PropertiesAfford recur closed := by
    intro properties hproperties property hmem path
    rw [hother "properties" (by decide)] at hproperties
    rw [previousRequired, hother "required" (by decide), ← previousRequired]
    exact hrecur properties hproperties property hmem path
  refine (normalizeProperties_affords hclosedNodup hclosedRecur).bind fun normalized hnormalized => ?_
  apply affords_done
  have hcost : memberCost ("required", .array (normalized.2.map .string)) = 1 + normalized.2.length := by
    change 1 + countItems (normalized.2.map .string) = _
    rw [countItems_names]
  have hle := sum_insert_le (nodup_normalizeProperties hclosedNodup hnormalized) memberCost "required"
    (.array (normalized.2.map .string))
  omega

/-- The passes over a schema without a reference. -/
theorem normalizeNode_affords (hnodup : (object.map Prod.fst).Nodup) (hrecur : PropertiesAfford recur object)
    (hvisited : ∀ member ∈ object, ∀ child ∈ visited member, ∀ path,
      Affords expansion (recur path child) countNodes (allowance (countNodes child))) :
    Affords expansion (normalizeNode recur path object) countMembers
      ((object.map preparedCost).sum + if schemaIsObject object then 2 else 0) := by
  have hmembers : ∀ {object1 : Map}, (∀ member ∈ object1, member ∈ object ∨ visited member = []) →
      Affords expansion (Pass.traverse (normalizeMember recur path) object1) countMembers
        (object1.map memberCost).sum := by
    intro object1 hobject1
    rw [funext countMembers_eq]
    apply Affords.traverse
    intro member hmem
    apply normalizeMember_affords
    intro child hchild
    obtain hold | hnothing := hobject1 member hmem
    · exact hvisited member hold child hchild
    · rw [hnothing] at hchild
      cases hchild
  rw [normalizeNode]
  split
  · refine (normalizeObject_affords hnodup hrecur).bind (m := 0) fun object1 hobject1 => ?_
    exact hmembers fun member hmem => visited_of_normalizeObject hobject1 hmem
  · have hdone : Affords expansion (done object : Pass Nat StructuredError Map)
        (fun object => (object.map memberCost).sum) (object.map preparedCost).sum :=
      affords_done (sum_map_le memberCost_le_preparedCost object)
    refine hdone.bind (m := 0) fun object1 hobject1 => hmembers fun member hmem => ?_
    rw [yields_done hobject1] at hmem
    exact .inl hmem

end Nodes

section Documents

variable {base : Value} {render : Value → String} {fuel : Nat} {path : String} {chain : List String} {value : Value}
  {object resolved : Map} {reference : String}

/-- With this fuel every value becomes no larger than it is allowed to. -/
def Growing (base : Value) (render : Value → String) (fuel : Nat) : Prop :=
  ∀ path chain value, value.DistinctKeys →
    Affords expansion (normalize base render fuel path chain value) countNodes (allowance (countNodes value))

/-- A schema without a reference, when less fuel is known to be enough for what is below it. -/
theorem growing_node (path : String) (chain : List String) (hgrowing : Growing base render fuel) (hobject : Value.DistinctKeys (.object object))
    (hproperties : PropertiesAfford (fun path child => normalize base render fuel path chain child) object)
    (hnone : object.get "$ref" = none) :
    Affords expansion (normalize base render (fuel + 1) path chain (.object object)) countNodes
      ((object.map preparedCost).sum + (if schemaIsObject object then 2 else 0) + 1) := by
  rw [normalize]
  split
  · exact affords_fail
  · simp only [hnone]
    refine Affords.grow (normalizeNode_affords hobject.nodup hproperties ?_) fun object' => ?_
    · intro member hmem child hchild path
      exact hgrowing path chain child (distinctKeys_visited (hobject.member hmem) hchild)
    · rw [countNodes, Nat.add_comm]

/-- The wrapper that makes a schema nullable is four nodes large. -/
theorem growing_nullable (hgrowing : ∀ less ≤ fuel, Growing base render less) (hvalue : value.DistinctKeys) :
    Affords expansion (normalize base render fuel path chain (makeNullable value)) countNodes
      (10 * countNodes value - 1) := by
  have hlt := allowance_lt (countNodes_pos value)
  have hdistinct := distinctKeys_makeNullable hvalue
  rw [makeNullable] at hdistinct ⊢
  split
  · exact (hgrowing fuel (Nat.le_refl _) path chain value hvalue).mono (by omega)
  · rename_i hnullable
    rw [if_neg hnullable] at hdistinct
    cases fuel with
    | zero => exact affords_diverge
    | succ fuel =>
        have hnone : ∀ properties : Map,
            Map.get [("anyOf", .array [value, .object [("type", .string "null")]])] "properties" ≠
              some (.object properties) := by
          intro properties h
          cases h
        have hnode := growing_node path chain (hgrowing fuel (Nat.le_succ _)) hdistinct
          (fun properties h => absurd h (hnone properties)) rfl
        have hcost : preparedCost ("anyOf", .array [value, .object [("type", .string "null")]]) =
            1 + (allowance (countNodes value) + 4) := rfl
        refine hnode.mono ?_
        have hnot : schemaIsObject [("anyOf", .array [value, .object [("type", .string "null")]])] = false := rfl
        rw [List.map_singleton, List.sum_singleton, hcost, hnot]
        simp only [Bool.false_eq_true, if_false]
        omega

/-- The properties of a schema, as they are prepared. -/
theorem growing_properties (hgrowing : ∀ less ≤ fuel, Growing base render less)
    (hobject : Value.DistinctKeys (.object object)) :
    PropertiesAfford (fun path child => normalize base render fuel path chain child) object := by
  intro properties hproperties property hmem path
  have hproperty := (hobject.get hproperties).member hmem
  split
  · have hlt := allowance_lt (countNodes_pos property.2)
    exact (hgrowing fuel (Nat.le_refl _) path chain property.2 hproperty).mono (by omega)
  · exact growing_nullable hgrowing hproperty

/-- The members of a schema with one at least. -/
theorem sum_preparedCost_le (hmembers : object ≠ []) :
    (object.map preparedCost).sum + 9 ≤ 10 * countMembers object := by
  cases object with
  | nil => exact absurd rfl hmembers
  | cons member rest =>
      have hpos := countNodes_pos member.2
      have hfirst := preparedCost_le member
      have hrest : (rest.map preparedCost).sum ≤ 10 * countMembers rest := by
        have hle := sum_map_le preparedCost_le rest
        have hten := sum_map_le (f := memberAllowance) (g := fun member => 10 * countNodes member.2)
          (fun member => Nat.sub_le _ _) rest
        rw [List.sum_map_mul_left, ← countMembers_eq] at hten
        omega
      rw [memberAllowance] at hfirst
      rw [List.map_cons, List.sum_cons, countMembers]
      omega

/-- A recursive reference moves into `anyOf`; what it leaves pays for the array and the object there. -/
theorem growing_keepRecursion (hgrowing : ∀ less < fuel, Growing base render less)
    (hobject : Value.DistinctKeys (.object object)) (href : object.get "$ref" = some (.string reference))
    (hlength : object.length ≠ 1) :
    Affords expansion (normalize base render fuel path chain (.object (keepRecursion object reference))) countNodes
      (allowance (countNodes (.object object))) := by
  cases fuel with
  | zero => exact affords_diverge
  | succ fuel =>
      have hkeep := distinctKeys_keepRecursion hobject reference
      have hless : ∀ less ≤ fuel, Growing base render less := fun less hle => hgrowing less (Nat.lt_succ_of_le hle)
      have hnode := growing_node path chain (hless fuel (Nat.le_refl _)) hkeep
        (growing_properties hless hkeep) (get_ref_keepRecursion object reference)
      refine hnode.mono ?_
      have hremove := Map.remove_perm hobject.nodup "$ref"
      have hsum : ((keepRecursion object reference).map preparedCost).sum ≤
          5 + ((object.filter (·.1 ≠ "$ref")).map preparedCost).sum := by
        rw [← (hremove.map preparedCost).sum_eq]
        exact sum_insert_le (Map.nodup_remove hobject.nodup _) preparedCost "anyOf" _
      have hothers : object.filter (·.1 ≠ "$ref") ≠ [] := by
        intro hempty
        have hperm := (Map.perm_of_get hobject.nodup href).length_eq
        rw [hempty] at hperm
        exact hlength hperm
      have hcount : countMembers object = 1 + countMembers (object.filter (·.1 ≠ "$ref")) := by
        rw [countMembers_eq, countMembers_eq]
        exact sum_of_get hobject.nodup (fun member => countNodes member.2) href
      have hrest := sum_preparedCost_le hothers
      have hlarge : ¬ 1 + countMembers object ≤ 1 := by omega
      rw [countNodes, allowance, if_neg hlarge]
      split <;> omega

/-- What is charged and within the budget has been spent. -/
theorem charge_affords {α : Type} {b : α} {error : StructuredError} {size : α → Nat} {nodes : Nat}
    (hsize : size b ≤ 10 * nodes) :
    Affords expansion (charge nodes >>= fun within => if within then done b else fail error) size 0 := by
  intro spent a spent' hwithin hrun
  change (if decide (Rust.saturatingAdd spent nodes ≤ maxRefInlineNodes) then done b else fail error)
    (Rust.saturatingAdd spent nodes) = _ at hrun
  split at hrun
  · rename_i hle
    have hle := of_decide_eq_true hle
    cases hrun
    refine ⟨hle, ?_⟩
    have hexact := Rust.saturatingAdd_of_le (by decide) hle
    change size b + 10 * spent ≤ 0 + 10 * Rust.saturatingAdd spent nodes
    omega
  · cases hrun

/-- What may be made of the node that goes on: the merged schema has been paid for. -/
def nextAllowance (chain : List String) (object : Map) : Option (List String × Value) → Nat
  | none => allowance (countNodes (.object object))
  | some (chain', value) => if chain' = chain then allowance (countNodes (.object object)) else 10 * countNodes value

/-- Following aliases spends nothing. -/
theorem aliasLoop_affords (seen : List String) (current : String) :
    Affords expansion (aliasLoop base render path fuel seen current) (fun _ => 0) 0 := by
  induction fuel generalizing seen current with
  | zero => exact affords_diverge
  | succ fuel ih =>
      rw [aliasLoop]
      split
      · exact affords_fail
      · split
        · split
          · exact affords_fail
          · split
            · exact affords_done (Nat.le_refl _)
            · exact ih _ _
            · exact affords_fail
        · exact affords_fail

theorem followRef_affords (node : Value) :
    Affords expansion (followRef base render fuel path chain object node) (nextAllowance chain object)
      (allowance (countNodes (.object object))) := by
  cases node with
  | string reference =>
      rw [followRef]
      split
      · split
        · exact affords_fail
        · rename_i resolved hresolved
          rw [← Nat.zero_add (allowance _)]
          refine Affords.bind (aliasLoop_affords [] reference) fun _ _ => ?_
          split
          · exact affords_done (by rw [nextAllowance, Nat.zero_add])
          · split
            · split
              · exact affords_fail
              · exact affords_done (by rw [nextAllowance, if_pos rfl, Nat.zero_add])
            · rename_i hnew
              have hne : reference :: chain ≠ chain := by simp
              refine (charge_affords ?_).mono (Nat.zero_le _)
              rw [nextAllowance, if_neg hne]
      · exact affords_fail
  | _ => exact affords_fail

/-- A node with a reference, when less fuel is known to be enough. -/
theorem growing_follow (hgrowing : ∀ less ≤ fuel, Growing base render less) (hbase : base.DistinctKeys)
    (hobject : Value.DistinctKeys (.object object)) {node : Value} (hnode : object.get "$ref" = some node) :
    Affords expansion (normalize base render (fuel + 1) path chain (.object object)) countNodes
      (allowance (countNodes (.object object))) := by
  rw [normalize]
  split
  · exact affords_fail
  · simp only [hnode]
    refine (followRef_affords node).bind (m := 0) fun next hnext => ?_
    obtain ⟨reference, -, -, -, hcases⟩ := followRef_cases hnode hnext
    obtain ⟨rfl, -⟩ | ⟨chain', value', rfl, hfollows⟩ := hcases
    · exact affords_done (le_allowance _)
    · have hless : ∀ less < fuel, Growing base render less := fun less hlt => hgrowing less (Nat.le_of_lt hlt)
      have hdistinct := hfollows.distinctKeys hbase hobject
      cases hfollows with
      | @inline reference resolved href hlength hresolved hnew =>
          have hne : reference :: chain ≠ chain := by simp
          rw [nextAllowance, if_neg hne]
          exact (hgrowing fuel (Nat.le_refl _) path _ _ hdistinct).mono (allowance_le _)
      | recursive href hlength _ _ =>
          rw [nextAllowance, if_pos rfl]
          exact growing_keepRecursion hless hobject href hlength

/-- No value becomes larger than it is allowed to, beyond what inlining pays for. -/
theorem growing (hbase : base.DistinctKeys) (fuel : Nat) : Growing base render fuel := by
  induction fuel using Nat.strongRecOn with
  | _ fuel ih =>
  intro path chain value hvalue
  cases fuel with
  | zero => exact affords_diverge
  | succ fuel =>
      have hless : ∀ less ≤ fuel, Growing base render less := fun less hle => ih less (Nat.lt_succ_of_le hle)
      cases value with
      | object object =>
          cases href : Map.get object "$ref" with
          | some node => exact growing_follow hless hbase hvalue href
          | none =>
              refine (growing_node _ _ (hless fuel (Nat.le_refl _)) hvalue (growing_properties hless hvalue) href).mono ?_
              by_cases hempty : object = []
              · rw [hempty]
                exact Nat.le_refl _
              · have hsum := sum_preparedCost_le hempty
                have hlarge : ¬ 1 + countMembers object ≤ 1 := by omega
                rw [countNodes, allowance, if_neg hlarge]
                split <;> omega
      | _ => exact affords_done (le_allowance _)

end Documents

section Results

theorem countNodes_stripSchema {schema : Value} (hschema : schema.DistinctKeys) :
    countNodes (stripSchema schema) ≤ countNodes schema := by
  cases schema with
  | object members =>
      have hremove := (Map.remove_perm hschema.nodup "$schema").map fun member => countNodes member.2
      have hle := sum_filter_le members (fun member => countNodes member.2) "$schema"
      rw [← hremove.sum_eq, ← countMembers_eq, ← countMembers_eq] at hle
      rw [stripSchema, countNodes, countNodes]
      omega
  | _ => exact Nat.le_refl _

/-- The normalization of a schema ends, no call of it has a reference twice in its active chain or one that the
document does not have, and the result has at most ten nodes for each node of the schema and of the budget. -/
theorem normalization_is_bounded (render : Value → String) (schema : Value) (hschema : schema.DistinctKeys) :
    (∃ fuel result, ∀ more, fuel ≤ more → normalizeStrictSchema render more schema = some result) ∧
    (∀ fuel, normalizeAsserting (stripSchema schema) render (SoundChain schema) fuel "#" [] (stripSchema schema) =
      normalize (stripSchema schema) render fuel "#" [] (stripSchema schema)) ∧
    ∀ fuel out, normalizeStrictSchema render fuel schema = some (.ok out) →
      countNodes out ≤ 10 * (countNodes schema + maxRefInlineNodes) := by
  have hknown : Known (stripSchema schema) (stripSchema schema) := fun _ hmem => hmem
  refine ⟨normalizeStrictSchema_total render schema, fun fuel => ?_, fun fuel out hout => ?_⟩
  · exact normalizeAsserting_eq (fun _ hchain => hchain.of_stripSchema) ⟨soundChain_nil _, hknown⟩
  · rw [normalizeStrictSchema] at hout
    split at hout
    · cases hout
    · cases hout
    · rename_i out' spent hrun
      split at hout
      · cases hout
        have hdistinct := distinctKeys_stripSchema hschema
        obtain ⟨hwithin, hsize⟩ := growing hdistinct fuel "#" [] _ hdistinct 0 out spent (Nat.zero_le _) hrun
        change spent ≤ maxRefInlineNodes at hwithin
        change countNodes out + 0 ≤ allowance (countNodes (stripSchema schema)) + 10 * spent at hsize
        have hallowance := allowance_le (countNodes (stripSchema schema))
        have hstrip := countNodes_stripSchema hschema
        omega
      · cases hout

/-- A tree whose branches refer to each other with a description. -/
def mutualTree : Value :=
  .object [("$schema", .string "draft"), ("type", .string "object"),
    ("properties", .object [("left", .object [("$ref", .string "#/$defs/Branch"), ("description", .string "left")])]),
    ("$defs", .object [("Branch", .object [("type", .string "object"),
      ("properties", .object [("up", .object [("$ref", .string "#"), ("description", .string "up")])])])])]

theorem distinctKeys_described (reference text : String) :
    Value.DistinctKeys (.object [("$ref", .string reference), ("description", .string text)]) :=
  .object (by simp) (by simpa using ⟨.string reference, .string text⟩)

theorem distinctKeys_mutualTree : mutualTree.DistinctKeys := by
  have hleft : Value.DistinctKeys
      (.object [("left", .object [("$ref", .string "#/$defs/Branch"), ("description", .string "left")])]) :=
    .object (by simp) (by simpa using distinctKeys_described _ _)
  have hup : Value.DistinctKeys (.object [("up", .object [("$ref", .string "#"), ("description", .string "up")])]) :=
    .object (by simp) (by simpa using distinctKeys_described _ _)
  have hbranch : Value.DistinctKeys (.object [("type", .string "object"),
      ("properties", .object [("up", .object [("$ref", .string "#"), ("description", .string "up")])])]) :=
    .object (by simp) (by simpa using ⟨.string "object", hup⟩)
  have hdefs : Value.DistinctKeys (.object [("Branch", .object [("type", .string "object"),
      ("properties", .object [("up", .object [("$ref", .string "#"), ("description", .string "up")])])])]) :=
    .object (by simp) (by simpa using hbranch)
  exact .object (by simp) (by simpa using ⟨.string "draft", .string "object", hleft, hdefs⟩)

theorem normalization_is_bounded_mutual :
    ∃ out, normalizeStrictSchema (fun _ => "") 30 mutualTree = some (.ok out) ∧ countNodes mutualTree < countNodes out ∧
      countNodes out ≤ 10 * (countNodes mutualTree + maxRefInlineNodes) := by
  obtain ⟨out, hout, hlarger⟩ := exists_result (show ((normalizeStrictSchema (fun _ => "") 30 mutualTree).bind
    Except.toOption).any (fun out => countNodes mutualTree < countNodes out) = true by decide +kernel)
  have hbounded := (normalization_is_bounded (fun _ => "") mutualTree distinctKeys_mutualTree).2.2 30 out hout
  exact ⟨out, hout, of_decide_eq_true hlarger, hbounded⟩

end Results

end OpenaiRs.StrictSchema
