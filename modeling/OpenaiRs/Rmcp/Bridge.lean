import OpenaiRs.Catalog.Reversible
import OpenaiRs.Rust.Chars
import OpenaiRs.ToolResult.Lossless

/-!
# Dispatching function calls

`ResponsesToolBridge::dispatch_parts` of `openai-rs-rmcp/src/bridge.rs` and `parse_function_arguments` of
`arguments.rs`, over the catalog and the result encoding: a function that was exposed for a tool calls this tool, and
nothing else calls any.

## Implementation notes

The executor is a function on a state of its own. The calls that it gets are returned beside the outcome. The name of
a function is a byte string, as in the catalog.
-/

namespace OpenaiRs.Bridge

open Rust Rust.Chars Serde Catalog ToolResult

section Definitions

inductive DispatchError (E Fault : Type) where
  | invalidArguments
  | argumentsMustBeObject
  | unknownFunction (name : Bytes)
  | executor (error : E)
  | output (error : ToolResult.BridgeError Fault)

structure FunctionCallOutput where
  callId : String
  output : String

inductive DispatchOutcome where
  | success (output : FunctionCallOutput)
  | toolError (output : FunctionCallOutput)

/-- `ResponsesToolExecutor::call_tool`. -/
abbrev Executor (σ E Rest Rich : Type) := σ → Bytes → Map → Except E (CallToolResult Rest Rich) × σ

/-- What a dispatch does: the calls of the executor, its new state, and the outcome. -/
structure Dispatched (σ E Fault : Type) where
  calls : List (Bytes × Map)
  state : σ
  outcome : Except (DispatchError E Fault) DispatchOutcome

variable {σ E Fault Rest Rich ρ : Type}

/-- `parse_function_arguments`. -/
def parseFunctionArguments (fromStr : String → Option Value) (arguments : String) :
    Except (DispatchError E Fault) Map :=
  if (trim arguments.toList).isEmpty then .ok []
  else
    match fromStr arguments with
    | none => .error .invalidArguments
    | some (.object members) => .ok members
    | some _ => .error .argumentsMustBeObject

/-- What is made of the result of a tool. -/
def encodeOutcome (codec : Codec Rest Rich Fault) (encoding : ResultEncoding) (callId : String)
    (result : CallToolResult Rest Rich) : Except (DispatchError E Fault) DispatchOutcome :=
  match encodeToolResult codec result encoding with
  | .error error => .error (.output error)
  | .ok encoded =>
      let output : FunctionCallOutput := ⟨callId, encoded.output⟩
      .ok (if encoded.isError then .toolError output else .success output)

/-- `dispatch_parts`. -/
def dispatchParts (codec : Codec Rest Rich Fault) (callTool : Executor σ E Rest Rich) (catalog : ToolCatalog ρ)
    (encoding : ResultEncoding) (state : σ) (callId : String) (openaiName : Bytes) (arguments : String) :
    Dispatched σ E Fault :=
  match parseFunctionArguments codec.fromStr arguments with
  | .error error => ⟨[], state, .error error⟩
  | .ok members =>
      match catalog.resolve openaiName with
      | none => ⟨[], state, .error (.unknownFunction openaiName)⟩
      | some binding =>
          let (result, state) := callTool state binding.mcpTool.name members
          ⟨[(binding.mcpTool.name, members)], state,
            match result with
            | .error error => .error (.executor error)
            | .ok result => encodeOutcome codec encoding callId result⟩

end Definitions

section Dispatch

variable {σ E Fault Rest Rich ρ : Type}

/-- The function that is exposed for a tool. -/
def Exposes (catalog : ToolCatalog ρ) (name : Bytes) (tool : Tool ρ) : Prop :=
  ∃ entry ∈ catalog.entries, entry.openaiName = name ∧ entry.mcpTool = tool

/-- The exposed functions and the tools correspond to each other. -/
structure Bijective (tools : List (Tool ρ)) (catalog : ToolCatalog ρ) : Prop where
  exposed : ∀ tool ∈ tools, ∃ name, Exposes catalog name tool ∧ ∀ other, Exposes catalog other tool → other = name
  tool : ∀ name tool, Exposes catalog name tool → tool ∈ tools ∧ ∀ other, Exposes catalog name other → other = tool

/-- A dispatch of a function that is exposed for a tool calls it once, and hands its result on in full. -/
structure Reaches (codec : Codec Rest Rich Fault) (callTool : Executor σ E Rest Rich) (encoding : ResultEncoding) (state : σ)
    (callId : String) (tool : Tool ρ) (members : Map) (dispatched : Dispatched σ E Fault) : Prop where
  calls : dispatched.calls = [(tool.name, members)]
  after : dispatched.state = (callTool state tool.name members).2
  failed : ∀ error, (callTool state tool.name members).1 = .error error → dispatched.outcome = .error (.executor error)
  lossless : ∀ result, (callTool state tool.name members).1 = .ok result → encoding = .losslessEnvelope →
    codec.RoundTrips result → ∃ output : FunctionCallOutput, output.callId = callId ∧
      dispatched.outcome = .ok (if result.isError = some true then .toolError output else .success output) ∧
      (codec.fromStr output.output).bind (ToolResultEnvelope.deserialize codec) =
        some (ToolResultEnvelope.fromRmcp result).withoutNull

variable {sha256 : Bytes → Vector UInt8 32} {tools : List (Tool ρ)} {policy : CatalogPolicy} {catalog : ToolCatalog ρ}

theorem bijective_of_reversible (h : Reversible tools catalog) : Bijective tools catalog := by
  have hname : ∀ entry ∈ catalog.entries, ∀ entry' ∈ catalog.entries, entry.openaiName = entry'.openaiName →
      entry = entry' := fun _ hmem _ hmem' => List.inj_on_of_nodup_map h.distinct hmem hmem'
  have htool : ∀ entry ∈ catalog.entries, ∀ entry' ∈ catalog.entries, entry.mcpTool = entry'.mcpTool →
      entry = entry' := by
    have hnodup : (catalog.entries.map CatalogEntry.mcpTool).Nodup := h.tools.nodup_iff.mpr (h.remote.of_map _)
    exact fun _ hmem _ hmem' => List.inj_on_of_nodup_map hnodup hmem hmem'
  constructor
  · intro tool hmem
    obtain ⟨entry, hentry, rfl⟩ := List.mem_map.mp (h.tools.mem_iff.mpr hmem)
    refine ⟨entry.openaiName, ⟨entry, hentry, rfl, rfl⟩, ?_⟩
    rintro other ⟨entry', hentry', rfl, hsame⟩
    rw [htool entry' hentry' entry hentry hsame]
  · rintro name tool ⟨entry, hentry, rfl, rfl⟩
    refine ⟨h.tools.mem_iff.mp (List.mem_map_of_mem hentry), ?_⟩
    rintro other ⟨entry', hentry', hsame, rfl⟩
    rw [hname entry' hentry' entry hentry hsame]

theorem isError_of_encodeToolResult {codec : Codec Rest Rich Fault} {result : CallToolResult Rest Rich}
    {encoding : ResultEncoding} {encoded : EncodedToolResult}
    (h : encodeToolResult codec result encoding = .ok encoded) : encoded.isError = result.isError.getD false := by
  have hbind : ∀ text : Except (ToolResult.BridgeError Fault) String,
      (text >>= fun output => .ok ⟨output, result.isError.getD false⟩) = .ok encoded →
        encoded.isError = result.isError.getD false := by
    intro text htext
    obtain ⟨output, -, heq⟩ := bind_eq_ok.mp htext
    rw [← Except.ok.inj heq]
  cases encoding with
  | losslessEnvelope => exact hbind _ h
  | compactWhenPossible =>
      simp only [encodeToolResult] at h
      split_ifs at h
      · exact hbind _ h
      · exact hbind _ h

/-- The outcome of a result that is encoded as its envelope. -/
theorem encodeOutcome_lossless {codec : Codec Rest Rich Fault} {result : CallToolResult Rest Rich} (h : codec.RoundTrips result)
    (callId : String) : ∃ output : FunctionCallOutput, output.callId = callId ∧
      (encodeOutcome codec .losslessEnvelope callId result : Except (DispatchError E Fault) DispatchOutcome) =
        .ok (if result.isError = some true then .toolError output else .success output) ∧
      (codec.fromStr output.output).bind (ToolResultEnvelope.deserialize codec) =
        some (ToolResultEnvelope.fromRmcp result).withoutNull := by
  obtain ⟨encoded, hencode, hread⟩ := read_output h
  refine ⟨⟨callId, encoded.output⟩, rfl, ?_, hread⟩
  have herror := isError_of_encodeToolResult hencode
  rw [encodeOutcome, hencode]
  simp only [herror]
  cases hflag : result.isError with
  | none => rfl
  | some flag => cases flag <;> rfl

/-- Every tool of a catalog is reached through exactly one function name, and through it a dispatch calls this tool
once, with the decoded arguments; a dispatch of anything else calls nothing. -/
theorem dispatch_reaches (codec : Codec Rest Rich Fault) (callTool : Executor σ E Rest Rich)
    (h : build sha256 tools policy = some (.ok catalog)) :
    Bijective tools catalog ∧ ∀ encoding state callId name arguments,
      match (parseFunctionArguments codec.fromStr arguments : Except (DispatchError E Fault) Map) with
      | .error error => dispatchParts codec callTool catalog encoding state callId name arguments =
          ⟨[], state, .error error⟩
      | .ok members =>
          (∀ tool, Exposes catalog name tool → Reaches codec callTool encoding state callId tool members
            (dispatchParts codec callTool catalog encoding state callId name arguments)) ∧
          ((∀ tool, ¬ Exposes catalog name tool) →
            dispatchParts codec callTool catalog encoding state callId name arguments =
              ⟨[], state, .error (.unknownFunction name)⟩) := by
  have hreversible := build_reversible h
  refine ⟨bijective_of_reversible hreversible, ?_⟩
  intro encoding state callId name arguments
  cases hparse : (parseFunctionArguments codec.fromStr arguments : Except (DispatchError E Fault) Map) with
  | error error => simp only [dispatchParts, hparse]
  | ok members =>
      constructor
      · rintro tool ⟨entry, hentry, rfl, rfl⟩
        have hresolve := (hreversible.resolve entry.openaiName entry).mpr ⟨hentry, rfl⟩
        have hdispatch : dispatchParts codec callTool catalog encoding state callId entry.openaiName arguments =
            ⟨[(entry.mcpTool.name, members)], (callTool state entry.mcpTool.name members).2,
              match (callTool state entry.mcpTool.name members).1 with
              | .error error => .error (.executor error)
              | .ok result => encodeOutcome codec encoding callId result⟩ := by
          simp only [dispatchParts, hparse, hresolve]
        rw [hdispatch]
        refine ⟨rfl, rfl, ?_, ?_⟩
        · intro error herror
          simp only [herror]
        · rintro result hresult rfl hroundTrips
          simp only [hresult]
          exact encodeOutcome_lossless hroundTrips callId
      · intro hnone
        have hresolve : catalog.resolve name = none := by
          rw [Option.eq_none_iff_forall_ne_some]
          intro entry hentry
          obtain ⟨hmem, hname⟩ := (hreversible.resolve name entry).mp hentry
          exact hnone entry.mcpTool ⟨entry, hmem, hname, rfl⟩
        simp only [dispatchParts, hparse, hresolve]

/-- An executor that answers every call with the same result. -/
def constant (result : CallToolResult Unit Empty) : Executor Unit Empty Unit Empty := fun _ _ _ => (.ok result, ())

theorem dispatch_reaches_crowded : ∃ catalog : ToolCatalog Unit,
    build nonceHash crowdedTools ⟨.mapInvalid, .normalizeObject⟩ = some (.ok catalog) ∧ Bijective crowdedTools catalog ∧
      ∀ name tool, Exposes catalog name tool → Reaches doneCodec (constant doneResult) .losslessEnvelope () "call_1" tool []
        (dispatchParts doneCodec (constant doneResult) catalog .losslessEnvelope () "call_1" name "") := by
  obtain ⟨catalog, hbuild⟩ : ∃ catalog, build nonceHash crowdedTools ⟨.mapInvalid, .normalizeObject⟩ = some (.ok catalog) :=
    ⟨_, rfl⟩
  obtain ⟨hbijective, hdispatch⟩ := dispatch_reaches doneCodec (constant doneResult) hbuild
  exact ⟨catalog, hbuild, hbijective, fun name => (hdispatch .losslessEnvelope () "call_1" name "").1⟩

end Dispatch

end OpenaiRs.Bridge
