import OpenaiRs.Drift.Operations

/-!
# Interfaces

What two specifications are compared for: their operations with the parameters that are in effect, and the names of
their schemas. A shared parameter of a path is in effect unless the operation has one with its name and location.
What the report looks at of two operations is less than that.
-/

namespace OpenaiRs.Drift

open Serde Rust

/-! ## Operations and parameters of a document -/

structure Parameter where
  name : String
  location : Option String
  required : Bool
  deriving DecidableEq

/-- A parameter that is given inline with a name. -/
def Parameter.read (p : Value) : Option Parameter := do
  let name ← (get p "name").bind Value.asStr
  let location := (get p "in").bind Value.asStr
  let required := ((get p "required").bind Value.asBool).getD false
  pure { name, location, required }

namespace Operation

def own (o : Operation) : List Parameter := (parameters o.op).filterMap Parameter.read

def shared (o : Operation) : List Parameter := (parameters o.pathObj).filterMap Parameter.read

/-- The declared parameters, in the order in which they are read. -/
def declared (o : Operation) : List Parameter := o.allParams.filterMap Parameter.read

/-- A parameter of the operation has this name and this location. -/
def Overrides (o : Operation) (p : Parameter) : Prop := ∃ q ∈ o.own, q.name = p.name ∧ q.location = p.location

instance (o : Operation) (p : Parameter) : Decidable (o.Overrides p) :=
  inferInstanceAs (Decidable (∃ q ∈ o.own, q.name = p.name ∧ q.location = p.location))

/-- The parameters in effect. -/
def effective (o : Operation) : List Parameter := o.own ++ o.shared.filter fun p => ¬o.Overrides p

def successes (o : Operation) : List String := o.statuses.filter (startsWith · "2")

/-- The names with their locations. -/
def located (o : Operation) : List (String × String) := o.declared.filterMap fun p => p.location.map (p.name, ·)

/-- The location that is declared last for a name. -/
def lastLocation (o : Operation) (name : String) : Option String :=
  (o.located.reverse.find? (·.1 = name)).map Prod.snd

theorem declared_eq (o : Operation) : o.declared = o.own ++ o.shared := List.filterMap_append

theorem mem_effective {o : Operation} {p : Parameter} :
    p ∈ o.effective ↔ p ∈ o.own ∨ p ∈ o.shared ∧ ¬o.Overrides p := by
  rw [effective, List.mem_append, List.mem_filter, decide_eq_true_iff]

theorem mem_declared_of_mem_effective {o : Operation} {p : Parameter} (h : p ∈ o.effective) : p ∈ o.declared := by
  rw [declared_eq, List.mem_append]
  exact (mem_effective.mp h).imp_right And.left

/-- A declared name is in effect, with some location. -/
theorem exists_effective {o : Operation} {p : Parameter} (h : p ∈ o.declared) :
    ∃ q ∈ o.effective, q.name = p.name := by
  rw [declared_eq, List.mem_append] at h
  obtain hown | hshared := h
  · exact ⟨p, mem_effective.mpr (.inl hown), rfl⟩
  · by_cases hoverrides : o.Overrides p
    · obtain ⟨q, hq, hname, _⟩ := hoverrides
      exact ⟨q, mem_effective.mpr (.inl hq), hname⟩
    · exact ⟨p, mem_effective.mpr (.inr ⟨hshared, hoverrides⟩), rfl⟩

end Operation

/-- The operations of a path that have an id. -/
def declaredMethod (path : String) (pathObj : Map) (method : String) : List (String × Operation) :=
  match (pathObj.get method).bind Value.asObject with
  | none => []
  | some op =>
      match (op.get "operationId").bind Value.asStr with
      | none => []
      | some opId => [(opId, { path, method, pathObj, op })]

def declaredPath (member : String × Value) : List (String × Operation) :=
  match member.2.asObject with
  | none => []
  | some pathObj => httpMethods.flatMap (declaredMethod member.1 pathObj)

/-- The operations of a document with their ids. -/
def declaredOperations (doc : Value) : List (String × Operation) :=
  (((get doc "paths").bind Value.asObject).getD []).flatMap declaredPath

def schemaNames (doc : Value) : List String :=
  (((get doc "components").bind (get · "schemas")).bind Value.asObject).getD [] |>.map Prod.fst

/-- The operation ids are unique. -/
def UniqueIds (doc : Value) : Prop :=
  ∀ opId o o', (opId, o) ∈ declaredOperations doc → (opId, o') ∈ declaredOperations doc → o = o'

/-! ## Comparing two documents -/

section Compare

/-- What holds of the operations of both documents with one id. -/
def Common (doc doc' : Value) (rel : Operation → Operation → Prop) : Prop :=
  ∀ opId o o', (opId, o) ∈ declaredOperations doc → (opId, o') ∈ declaredOperations doc' → rel o o'

/-- The same operation ids and the same schema names. -/
structure SameNames (doc doc' : Value) : Prop where
  operations : ∀ opId, opId ∈ (declaredOperations doc).map Prod.fst ↔ opId ∈ (declaredOperations doc').map Prod.fst
  schemas : ∀ name, name ∈ schemaNames doc ↔ name ∈ schemaNames doc'

/-- Two operations with the same interface. -/
structure SameOperation (o o' : Operation) : Prop where
  method : o.method = o'.method
  path : o.path = o'.path
  deprecated : o.deprecated = o'.deprecated
  successes : ∀ status, status ∈ o.successes ↔ status ∈ o'.successes
  effective : ∀ p, p ∈ o.effective ↔ p ∈ o'.effective

/-- What the report looks at of two operations does not differ. -/
structure Alike (o o' : Operation) : Prop where
  method : o.method = o'.method
  path : o.path = o'.path
  deprecated : o'.deprecated → o.deprecated
  successes : ∀ status, status ∈ o.successes ↔ status ∈ o'.successes
  locations : ∀ name location, o'.lastLocation name = some location → o.lastLocation name = some location
  required : ∀ p ∈ o'.declared, p.required → ∃ q ∈ o.declared, q.name = p.name ∧ q.required
  names : ∀ p ∈ o'.declared, ∃ q ∈ o.declared, q.name = p.name

/-- Nothing that the report passes over differs: no deprecation is withdrawn, every parameter stays with its flag and
its location, and no name gets a second parameter. -/
structure Intact (o o' : Operation) : Prop where
  deprecated : o.deprecated → o'.deprecated
  kept : ∀ p ∈ o.effective, p ∈ o'.effective
  repeated : ∀ p ∈ o'.effective, ∀ q ∈ o'.effective, q.name = p.name → q ≠ p → p ∈ o.effective

/-- Two operations in which the report sees no difference are the same when nothing it passes over differs. -/
theorem Alike.same_iff {o o' : Operation} (h : Alike o o') : SameOperation o o' ↔ Intact o o' := by
  constructor
  · intro hsame
    refine ⟨fun hdeprecated => hsame.deprecated ▸ hdeprecated, fun p hp => (hsame.effective p).mp hp, ?_⟩
    exact fun p hp _ _ _ _ => (hsame.effective p).mpr hp
  · intro hintact
    refine ⟨h.method, h.path, Bool.eq_iff_iff.mpr ⟨hintact.deprecated, h.deprecated⟩, h.successes, fun p => ?_⟩
    refine ⟨hintact.kept p, fun hp => ?_⟩
    -- The name is declared in the first operation, where some parameter of that name is in effect and stays.
    obtain ⟨declared, hdeclared, hname⟩ := h.names p (Operation.mem_declared_of_mem_effective hp)
    obtain ⟨q, hq, hqname⟩ := Operation.exists_effective hdeclared
    by_cases hsame : q = p
    · exact hsame ▸ hq
    · exact hintact.repeated p hp q (hintact.kept q hq) (hqname.trans hname) hsame

/-- What the report looks at of two documents does not differ. -/
structure AlikeInterface (doc doc' : Value) : Prop where
  names : SameNames doc doc'
  operations : Common doc doc' Alike

/-- The same interface. -/
structure SameInterface (doc doc' : Value) : Prop where
  names : SameNames doc doc'
  operations : Common doc doc' SameOperation

end Compare

end OpenaiRs.Drift
