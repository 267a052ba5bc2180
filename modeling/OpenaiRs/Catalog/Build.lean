import Mathlib.Data.Finset.Insert
import Mathlib.Data.Finset.Dedup
import Mathlib.Data.List.AList
import Mathlib.Data.List.Sort
import OpenaiRs.Catalog.Names
import OpenaiRs.Serde.Value

/-!
# Building a tool catalog

`ToolCatalog::build` and `ToolCatalog::resolve` of `openai-rs-rmcp/src/catalog.rs`.

## Implementation notes

A `HashMap` is an association list without repeated keys and a `HashSet` a finite set; nothing depends on
the order of their elements. A call that never returns has the result `none`: the search for a nonce
does not return when every candidate is taken. The parts of an MCP tool that no function reads are in
`rest`.
-/

namespace OpenaiRs.Catalog

open Rust Serde

section Data

inductive ToolNamePolicy where
  | mapInvalid
  | rejectInvalid

inductive SchemaPolicy where
  | requireObject
  | normalizeObject
  | preserve

structure CatalogPolicy where
  names : ToolNamePolicy
  schemas : SchemaPolicy

inductive BridgeError where
  | invalidToolName (name : Bytes)
  | duplicateToolName (name : Bytes)
  | invalidSchema (tool : Bytes) (reason : String)

structure Tool (ρ : Type) where
  name : Bytes
  inputSchema : Map
  rest : ρ

structure CatalogEntry (ρ : Type) where
  openaiName : Bytes
  mcpTool : Tool ρ
  parameters : Map

structure ToolCatalog (ρ : Type) where
  entries : List (CatalogEntry ρ)
  byOpenaiName : AList fun _ : Bytes => Nat

end Data

section Operations

variable {ρ : Type}

def ToolCatalog.empty : ToolCatalog ρ := ⟨[], ∅⟩

/-- A further entry, under its name. -/
def ToolCatalog.push (catalog : ToolCatalog ρ) (entry : CatalogEntry ρ) : ToolCatalog ρ where
  entries := catalog.entries ++ [entry]
  byOpenaiName := catalog.byOpenaiName.insert entry.openaiName catalog.entries.length

def ToolCatalog.resolve (catalog : ToolCatalog ρ) (openaiName : Bytes) : Option (CatalogEntry ρ) :=
  (catalog.byOpenaiName.lookup openaiName).bind fun index => catalog.entries[index]?

/-- Whether this is the string `object`. -/
def isObjectType : Value → Bool
  | .string text => text = "object"
  | _ => false

def adaptSchema (tool : Tool ρ) : SchemaPolicy → Except BridgeError Map
  | .preserve => .ok tool.inputSchema
  | .requireObject =>
      if (Map.get tool.inputSchema "type").any isObjectType then .ok tool.inputSchema
      else .error (.invalidSchema tool.name "root schema must declare type `object`")
  | .normalizeObject =>
      match Map.get tool.inputSchema "type" with
      | none => .ok (Map.insert tool.inputSchema "type" (.string "object"))
      | some rootType =>
          if isObjectType rootType then .ok tool.inputSchema
          else .error (.invalidSchema tool.name "root schema explicitly declares a non-object type")

/-- The first name that occurs again. -/
def firstDuplicate (remoteNames : Finset Bytes) : List Bytes → Option Bytes
  | [] => none
  | name :: rest =>
      if name ∈ remoteNames then some name else firstDuplicate (insert name remoteNames) rest

variable (sha256 : Bytes → Vector UInt8 32)

/-- The search of `unique_mapped_name`, for `fuel` nonces. -/
def searchName (original : Bytes) (used : Finset Bytes) : Nat → UInt64 → Option Bytes
  | 0, _ => none
  | fuel + 1, nonce =>
      if mappedName sha256 original nonce ∈ used then searchName original used fuel (nonce + 1)
      else some (mappedName sha256 original nonce)

def uniqueMappedName (original : Bytes) (used : Finset Bytes) : Option Bytes :=
  searchName sha256 original used UInt64.size 0

/-- The name under which a tool is exposed, and the names that are taken then. -/
def exposeName (policy : ToolNamePolicy) (used : Finset Bytes) (name : Bytes) :
    Option (Except BridgeError (Bytes × Finset Bytes)) :=
  if isValidFunctionName name then some (.ok (name, used))
  else
    match policy with
    | .rejectInvalid => some (.error (.invalidToolName name))
    | .mapInvalid =>
        (uniqueMappedName sha256 name used).map fun candidate => .ok (candidate, insert candidate used)

/-- The loop of `build` over the sorted tools. -/
def freeze (policy : CatalogPolicy) (used : Finset Bytes) (catalog : ToolCatalog ρ) :
    List (Tool ρ) → Option (Except BridgeError (ToolCatalog ρ))
  | [] => some (.ok catalog)
  | tool :: rest =>
      match exposeName sha256 policy.names used tool.name with
      | none => none
      | some (.error error) => some (.error error)
      | some (.ok (openaiName, used)) =>
          match adaptSchema tool policy.schemas with
          | .error error => some (.error error)
          | .ok parameters => freeze policy used (catalog.push ⟨openaiName, tool, parameters⟩) rest

/-- `tools.sort_by`, which is stable. -/
def sortTools (tools : List (Tool ρ)) : List (Tool ρ) :=
  tools.insertionSort fun left right => left.name ≤ right.name

/-- The names that are valid already. -/
def reservedNames (tools : List (Tool ρ)) : Finset Bytes :=
  ((tools.map Tool.name).filter fun name => isValidFunctionName name).toFinset

/-- `ToolCatalog::build`. -/
def build (tools : List (Tool ρ)) (policy : CatalogPolicy) :
    Option (Except BridgeError (ToolCatalog ρ)) :=
  match firstDuplicate ∅ ((sortTools tools).map Tool.name) with
  | some name => some (.error (.duplicateToolName name))
  | none => freeze sha256 policy (reservedNames (sortTools tools)) .empty (sortTools tools)

end Operations

end OpenaiRs.Catalog
