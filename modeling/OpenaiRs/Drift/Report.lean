import OpenaiRs.Drift.Operations
import OpenaiRs.Rust.Str

/-!
# The drift report

The comparison of two specifications. The operations of the first one are looked up in the second one, those that
are in both are compared field by field, and what is new in the second one is added at the end.

## Implementation notes

Reading a file and decoding JSON are parameters. Each check adds its changes behind those that were found before.
-/

namespace OpenaiRs.Drift

open Serde Rust

inductive Error where
  | io (action path : String)
  | json (path : String)

structure DriftReport where
  fromSource : String
  toSource : String
  fromOperationsCount : Nat
  toOperationsCount : Nat
  fromSchemasCount : Nat
  toSchemasCount : Nat
  lifecycleChanges : List String
  breakingChanges : List String
  additiveChanges : List String

namespace DriftReport

def isEmpty (report : DriftReport) : Bool :=
  report.lifecycleChanges.isEmpty && report.breakingChanges.isEmpty && report.additiveChanges.isEmpty

def lifecycle (report : DriftReport) (change : String) : DriftReport :=
  { report with lifecycleChanges := report.lifecycleChanges ++ [change] }

def breaking (report : DriftReport) (change : String) : DriftReport :=
  { report with breakingChanges := report.breakingChanges ++ [change] }

def additive (report : DriftReport) (change : String) : DriftReport :=
  { report with additiveChanges := report.additiveChanges ++ [change] }

@[simp] theorem isEmpty_lifecycle (report : DriftReport) (change : String) :
    (report.lifecycle change).isEmpty = false := by
  simp [isEmpty, lifecycle]

@[simp] theorem isEmpty_breaking (report : DriftReport) (change : String) :
    (report.breaking change).isEmpty = false := by
  simp [isEmpty, breaking]

@[simp] theorem isEmpty_additive (report : DriftReport) (change : String) :
    (report.additive change).isEmpty = false := by
  simp [isEmpty, additive]

end DriftReport

def isSunsetOrOmittedFamily (path : String) : Bool :=
  startsWith path "/assistants" || startsWith path "/threads" || startsWith path "/videos" ||
    startsWith path "/prompts"

def isSunsetSchemaFamily (name : String) : Bool :=
  startsWith name "Assistant" || startsWith name "Thread" || startsWith name "Run" || startsWith name "Video" ||
    startsWith name "Prompt"

section Compare

variable (opId : String) (fromOp toOp : OperationMeta)

def checkRoute (report : DriftReport) : DriftReport :=
  if fromOp.method ≠ toOp.method ∨ fromOp.path ≠ toOp.path then
    report.breaking (s!"operation `{opId}` route changed: {fromOp.method.toUpper} {fromOp.path} -> " ++
      s!"{toOp.method.toUpper} {toOp.path}")
  else report

def checkDeprecation (report : DriftReport) : DriftReport :=
  if ¬fromOp.deprecated ∧ toOp.deprecated then
    report.lifecycle s!"operation `{opId}` ({toOp.path}) was marked deprecated in OpenAPI"
  else report

def checkStatuses (report : DriftReport) : DriftReport :=
  let before := String.intercalate ", " fromOp.successStatuses.toList
  let after := String.intercalate ", " toOp.successStatuses.toList
  if fromOp.successStatuses ≠ toOp.successStatuses then
    report.breaking s!"operation `{opId}` success status codes changed: [{before}] -> [{after}]"
  else report

def checkLocation (report : DriftReport) (entry : String × String) : DriftReport :=
  let (param, toLoc) := entry
  match fromOp.paramLocations[param]? with
  | some fromLoc =>
      if fromLoc ≠ toLoc then
        report.breaking s!"operation `{opId}` parameter `{param}` moved from `{fromLoc}` to `{toLoc}`"
      else report
  | none => report.additive s!"operation `{opId}` parameter `{param}` now declares location `{toLoc}`"

def checkRequired (report : DriftReport) (req : String) : DriftReport :=
  if req ∉ fromOp.requiredParams then report.breaking s!"operation `{opId}` added new required parameter `{req}`"
  else report

def checkOptional (report : DriftReport) (opt : String) : DriftReport :=
  if opt ∉ fromOp.optionalParams ∧ opt ∉ fromOp.requiredParams then
    report.additive s!"operation `{opId}` added optional parameter `{opt}`"
  else report

def compareOperation (report : DriftReport) : DriftReport :=
  let report := checkRoute opId fromOp toOp report
  let report := checkDeprecation opId fromOp toOp report
  let report := checkStatuses opId fromOp toOp report
  let report := toOp.paramLocations.toList.foldl (checkLocation opId fromOp) report
  let report := toOp.requiredParams.toList.foldl (checkRequired opId fromOp) report
  toOp.optionalParams.toList.foldl (checkOptional opId fromOp) report

def operationRemoved (report : DriftReport) : DriftReport :=
  if isSunsetOrOmittedFamily fromOp.path || fromOp.deprecated then
    report.lifecycle (s!"operation `{opId}` ({fromOp.method.toUpper} {fromOp.path}) " ++
      "removed under lifecycle/sunset policy")
  else report.breaking s!"operation `{opId}` ({fromOp.method.toUpper} {fromOp.path}) was removed"

def operationAdded (report : DriftReport) : DriftReport :=
  if isSunsetOrOmittedFamily toOp.path then
    report.lifecycle s!"new operation `{opId}` in sunset/omitted family ({toOp.path}) - keep omitted per D0013"
  else report.additive s!"new operation `{opId}` ({toOp.method.toUpper} {toOp.path})"

end Compare

section Documents

variable (fromOps toOps : BTreeMap OperationMeta) (fromSchemas toSchemas : BTreeSet)

def checkOperation (report : DriftReport) (entry : String × OperationMeta) : DriftReport :=
  let (opId, fromOp) := entry
  match toOps[opId]? with
  | some toOp => compareOperation opId fromOp toOp report
  | none => operationRemoved opId fromOp report

def checkNewOperation (report : DriftReport) (entry : String × OperationMeta) : DriftReport :=
  let (opId, toOp) := entry
  if opId ∉ fromOps then operationAdded opId toOp report else report

def checkNewSchema (report : DriftReport) (schemaName : String) : DriftReport :=
  if schemaName ∉ fromSchemas then report.additive s!"new schema `{schemaName}`" else report

def checkOldSchema (report : DriftReport) (schemaName : String) : DriftReport :=
  if schemaName ∉ toSchemas then
    if isSunsetSchemaFamily schemaName then report.lifecycle s!"schema `{schemaName}` removed under sunset policy"
    else report.breaking s!"schema `{schemaName}` was removed"
  else report

/-- What is found, one check after the other. -/
def analyze (report : DriftReport) : DriftReport :=
  let report := fromOps.toList.foldl (checkOperation toOps) report
  let report := toOps.toList.foldl (checkNewOperation fromOps) report
  let report := toSchemas.toList.foldl (checkNewSchema fromSchemas) report
  fromSchemas.toList.foldl (checkOldSchema toSchemas) report

end Documents

section Files

variable (read : String → Option Bytes) (fromSlice : Bytes → Option Value)

def readFile (action path : String) : Except Error Bytes :=
  match read path with
  | some bytes => .ok bytes
  | none => .error (.io action path)

def parse (path : String) (bytes : Bytes) : Except Error Value :=
  match fromSlice bytes with
  | some doc => .ok doc
  | none => .error (.json path)

def computeDrift (fromPath toPath : String) : Except Error DriftReport := do
  let fromBytes ← readFile read "read from-spec for drift" fromPath
  let toBytes ← readFile read "read to-spec for drift" toPath
  let fromDoc ← parse fromSlice fromPath fromBytes
  let toDoc ← parse fromSlice toPath toBytes
  let fromOps := extractOperations fromDoc
  let toOps := extractOperations toDoc
  let fromSchemas := extractSchemaNames fromDoc
  let toSchemas := extractSchemaNames toDoc
  let report : DriftReport :=
    { fromSource := fromPath
      toSource := toPath
      fromOperationsCount := fromOps.size
      toOperationsCount := toOps.size
      fromSchemasCount := fromSchemas.size
      toSchemasCount := toSchemas.size
      lifecycleChanges := []
      breakingChanges := []
      additiveChanges := [] }
  pure (analyze fromOps toOps fromSchemas toSchemas report)

end Files

end OpenaiRs.Drift
