import OpenaiRs.Serde.Value

/-!
# The leaves of a JSON value

Paths into a value, and its leaves in the order of the document. A leaf is what is neither an array nor an
object; it is found at its path, and there is no other leaf.
-/

namespace OpenaiRs.Serde

section Paths

/-- From a value to one that it holds. -/
inductive PathStep where
  | item (index : ℕ)
  | member (index : ℕ) (key : String)
  deriving DecidableEq

def PathStep.index : PathStep → ℕ
  | .item index => index
  | .member index _ => index

def Value.isLeaf : Value → Bool
  | .array _ => false
  | .object _ => false
  | _ => true

def Value.child : Value → PathStep → Option Value
  | .array items, .item index => items[index]?
  | .object members, .member index key => (members[index]?.filter (·.1 = key)).map Prod.snd
  | _, _ => none

/-- The value at the end of a path. -/
def Value.descend (value : Value) : List PathStep → Option Value
  | [] => some value
  | step :: rest => (value.child step).bind fun child => child.descend rest

/-- One path stands before another in the document. -/
def Before (path path' : List PathStep) : Prop :=
  List.Lex (· < ·) (path.map PathStep.index) (path'.map PathStep.index)

def Value.children : Value → List (PathStep × Value)
  | .array items => items.zipIdx.map fun entry => (.item entry.2, entry.1)
  | .object members => members.zipIdx.map fun entry => (.member entry.2 entry.1.1, entry.1.2)
  | _ => []

theorem Value.mem_children {value child : Value} {step : PathStep} :
    (step, child) ∈ value.children ↔ value.child step = some child := by
  cases value with
  | array items =>
      cases step with
      | item index => simp [children, Value.child, List.mem_zipIdx_iff_getElem?]
      | member index key => simp [children, Value.child]
  | object members =>
      cases step with
      | item index => simp [children, Value.child]
      | member index key =>
          simp only [children, Value.child, List.mem_map, List.mem_zipIdx_iff_getElem?, Prod.mk.injEq,
            PathStep.member.injEq, Option.map_eq_some_iff, Option.filter_eq_some_iff]
          constructor
          · rintro ⟨⟨⟨key', child'⟩, index'⟩, hat, ⟨rfl, rfl⟩, rfl⟩
            exact ⟨(key', child'), ⟨hat, by simp⟩, rfl⟩
          · rintro ⟨⟨key', child'⟩, ⟨hat, hkey⟩, rfl⟩
            exact ⟨((key', child'), index), hat, ⟨rfl, by simpa using hkey⟩, rfl⟩
  | _ => simp [children, Value.child]

theorem Value.isLeaf_of_child_none {value : Value} (h : value.isLeaf = true) (step : PathStep) :
    value.child step = none := by
  cases value with
  | array items => cases h
  | object members => cases h
  | _ => rfl

theorem Value.sizeOf_child {value child : Value} {step : PathStep} (h : (step, child) ∈ value.children) :
    sizeOf child < sizeOf value := by
  rw [mem_children] at h
  cases value with
  | array items =>
      cases step with
      | item index =>
          have hsize := List.sizeOf_lt_of_mem (List.mem_of_getElem? h)
          rw [Value.array.sizeOf_spec]
          omega
      | member index key => cases h
  | object members =>
      cases step with
      | item index => cases h
      | member index key =>
          obtain ⟨⟨key', child'⟩, hat, rfl⟩ := Option.map_eq_some_iff.mp h
          have hsize := List.sizeOf_lt_of_mem (List.mem_of_getElem? (Option.filter_eq_some_iff.mp hat).1)
          rw [Value.object.sizeOf_spec]
          rw [Prod.mk.sizeOf_spec] at hsize
          change sizeOf child' < _
          omega
  | _ => cases h

/-- What holds of a value when it holds of all that the value holds, holds of every value. -/
theorem Value.children_induction {P : Value → Prop}
    (h : ∀ value, (∀ step child, (step, child) ∈ value.children → P child) → P value) (value : Value) :
    P value := by
  induction hsize : sizeOf value using Nat.strongRecOn generalizing value with
  | _ size ih =>
      apply h
      intro step child hchild
      exact ih _ (hsize ▸ sizeOf_child hchild) child rfl

theorem Value.index_lt_children (value : Value) :
    value.children.Pairwise fun entry entry' => entry.1.index < entry'.1.index := by
  have hzip : ∀ {α : Type} (entries : List α) (start : ℕ),
      (entries.zipIdx start).Pairwise fun entry entry' => entry.2 < entry'.2 := by
    intro α entries start
    induction entries generalizing start with
    | nil => exact .nil
    | cons entry rest ih =>
        rw [List.zipIdx_cons, List.pairwise_cons]
        exact ⟨fun entry' hentry => (List.le_snd_of_mem_zipIdx hentry), ih (start + 1)⟩
  cases value with
  | array items => exact List.pairwise_map.mpr (hzip items 0)
  | object members => exact List.pairwise_map.mpr (hzip members 0)
  | _ => exact .nil

end Paths

section Leaves

/-- A path and the leaf at its end. -/
abbrev Leaf := List PathStep × Value

def Leaf.below (step : PathStep) (leaf : Leaf) : Leaf := (step :: leaf.1, leaf.2)

/-- The leaves in the order of the document. -/
def leaves (value : Value) : List Leaf :=
  if value.isLeaf then [([], value)]
  else value.children.attach.flatMap fun entry => (leaves entry.1.2).map (Leaf.below entry.1.1)
termination_by sizeOf value
decreasing_by exact Value.sizeOf_child entry.2

theorem leaves_leaf {value : Value} (h : value.isLeaf = true) : leaves value = [([], value)] := by
  rw [leaves, if_pos h]

theorem leaves_node {value : Value} (h : ¬ value.isLeaf = true) :
    leaves value = value.children.flatMap fun entry => (leaves entry.2).map (Leaf.below entry.1) := by
  rw [leaves, if_neg h]
  have hentries : ∀ entry (h : entry ∈ value.children),
      (leaves (⟨entry, h⟩ : Subtype (· ∈ value.children)).1.2).map (Leaf.below entry.1) =
        (leaves entry.2).map (Leaf.below entry.1) := fun _ _ => rfl
  rw [List.flatMap_subtype hentries, List.unattach_attach]

/-- The leaves are what paths find that is no array and no object. -/
theorem mem_leaves {value leaf : Value} {path : List PathStep} :
    (path, leaf) ∈ leaves value ↔ value.descend path = some leaf ∧ leaf.isLeaf = true := by
  induction value using Value.children_induction generalizing path with
  | h value ih =>
      by_cases hleaf : value.isLeaf = true
      · rw [leaves_leaf hleaf, List.mem_singleton, Prod.mk.injEq]
        cases path with
        | nil =>
            rw [Value.descend, Option.some.injEq]
            exact ⟨fun ⟨_, heq⟩ => ⟨heq.symm, heq ▸ hleaf⟩, fun ⟨heq, _⟩ => ⟨rfl, heq.symm⟩⟩
        | cons step rest => simp [Value.descend, Value.isLeaf_of_child_none hleaf]
      · rw [leaves_node hleaf, List.mem_flatMap]
        constructor
        · rintro ⟨⟨step, child⟩, hchild, hmem⟩
          obtain ⟨⟨rest, leaf'⟩, hrest, heq⟩ := List.mem_map.mp hmem
          cases heq
          obtain ⟨hdescend, hisLeaf⟩ := (ih step child hchild).mp hrest
          rw [Value.descend, Value.mem_children.mp hchild]
          exact ⟨hdescend, hisLeaf⟩
        · rintro ⟨hdescend, hisLeaf⟩
          cases path with
          | nil =>
              cases Option.some.inj hdescend
              exact absurd hisLeaf hleaf
          | cons step rest =>
              obtain ⟨child, hchild, hdescend⟩ := Option.bind_eq_some_iff.mp hdescend
              have hmem := Value.mem_children.mpr hchild
              exact ⟨(step, child), hmem,
                List.mem_map.mpr ⟨(rest, leaf), (ih step child hmem).mpr ⟨hdescend, hisLeaf⟩, rfl⟩⟩

/-- The leaves stand in the order of their paths. -/
theorem pairwise_leaves (value : Value) :
    (leaves value).Pairwise fun leaf leaf' => Before leaf.1 leaf'.1 := by
  induction value using Value.children_induction with
  | h value ih =>
      by_cases hleaf : value.isLeaf = true
      · rw [leaves_leaf hleaf]
        exact List.pairwise_singleton _ _
      · rw [leaves_node hleaf, List.pairwise_flatMap]
        constructor
        · rintro ⟨step, child⟩ hchild
          rw [List.pairwise_map]
          exact (ih step child hchild).imp fun h => List.Lex.cons h
        · refine (value.index_lt_children).imp ?_
          rintro ⟨step, child⟩ ⟨step', child'⟩ hlt leaf hleaf leaf' hleaf'
          obtain ⟨below, -, rfl⟩ := List.mem_map.mp hleaf
          obtain ⟨below', -, rfl⟩ := List.mem_map.mp hleaf'
          exact List.Lex.rel hlt

end Leaves

end OpenaiRs.Serde
