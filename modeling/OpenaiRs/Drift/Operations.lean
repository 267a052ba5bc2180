import OpenaiRs.Rust.BTreeMap
import OpenaiRs.Serde.Visited

/-!
# Operations of a specification

What the drift report reads of an OpenAPI document: for each operation id the route, the deprecation flag, the
success statuses and its parameters by name, and the names of the schemas.

## Implementation notes

The parameters of an operation are collected in two sets and a map, whose keys are the names alone. An operation id
that two operations have is that of the last one.
-/

namespace OpenaiRs.Drift

open Serde Rust

abbrev BTreeMap (β : Type) := Std.ExtTreeMap String β

abbrev BTreeSet := Std.ExtTreeSet String

def startsWith (text lead : String) : Bool := lead.toList.isPrefixOf text.toList

/-- `Value::get`. -/
def get (v : Value) (key : String) : Option Value := v.asObject.bind fun m => m.get key

def httpMethods : List String := ["get", "put", "post", "delete", "options", "head", "patch", "trace"]

structure OperationMeta where
  method : String
  path : String
  deprecated : Bool
  requiredParams : BTreeSet
  optionalParams : BTreeSet
  /-- The `in` of a name. -/
  paramLocations : BTreeMap String
  successStatuses : BTreeSet

/-- An operation object with its path item. -/
structure Operation where
  path : String
  method : String
  pathObj : Map
  op : Map

namespace Operation

def deprecated (o : Operation) : Bool := ((o.op.get "deprecated").bind Value.asBool).getD false

/-- The parameters an object declares. -/
def parameters (m : Map) : List Value := ((m.get "parameters").bind Value.asArray).getD []

/-- Those of the operation, then the shared ones of the path item. -/
def allParams (o : Operation) : List Value := parameters o.op ++ parameters o.pathObj

def statuses (o : Operation) : List String := ((o.op.get "responses").bind Value.asObject).getD [] |>.map Prod.fst

end Operation

/-- What is collected of the parameters of an operation. -/
structure Params where
  required : BTreeSet
  optional : BTreeSet
  locations : BTreeMap String

def Params.add (params : Params) (p : Value) : Params :=
  match (get p "name").bind Value.asStr with
  | none => params
  | some name =>
      let isReq := ((get p "required").bind Value.asBool).getD false
      let params :=
        if isReq then { params with required := params.required.insert name }
        else { params with optional := params.optional.insert name }
      match (get p "in").bind Value.asStr with
      | some location => { params with locations := params.locations.insert name location }
      | none => params

def addStatus (statuses : BTreeSet) (status : String) : BTreeSet :=
  if startsWith status "2" then statuses.insert status else statuses

def OperationMeta.of (o : Operation) : OperationMeta :=
  let params := o.allParams.foldl Params.add ⟨∅, ∅, ∅⟩
  { method := o.method
    path := o.path
    deprecated := o.deprecated
    requiredParams := params.required
    optionalParams := params.optional
    paramLocations := params.locations
    successStatuses := o.statuses.foldl addStatus ∅ }

def extractMethod (path : String) (pathObj : Map) (operations : BTreeMap OperationMeta) (method : String) :
    BTreeMap OperationMeta :=
  match (pathObj.get method).bind Value.asObject with
  | none => operations
  | some op =>
      match (op.get "operationId").bind Value.asStr with
      | none => operations
      | some opId => operations.insert opId (.of { path, method, pathObj, op })

def extractPath (operations : BTreeMap OperationMeta) (member : String × Value) : BTreeMap OperationMeta :=
  match member.2.asObject with
  | none => operations
  | some pathObj => httpMethods.foldl (extractMethod member.1 pathObj) operations

def extractOperations (doc : Value) : BTreeMap OperationMeta :=
  match (get doc "paths").bind Value.asObject with
  | none => ∅
  | some paths => paths.foldl extractPath ∅

def extractSchemaNames (doc : Value) : BTreeSet :=
  match ((get doc "components").bind (get · "schemas")).bind Value.asObject with
  | none => ∅
  | some schemas => schemas.foldl (fun names member => names.insert member.1) ∅

end OpenaiRs.Drift
