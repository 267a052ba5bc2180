import OpenaiRs.Provenance.Manifest
import OpenaiRs.Provenance.Timestamp
import OpenaiRs.Interleaving.System
import OpenaiRs.Serde.Value

/-!
# Fetching and verifying the snapshot

`fetch` and `verify` of `xtask/src/spec.rs`, with the part of `xtask/src/codex_compat.rs` that reads the manifest.
Any number of fetches work on the two files of a checkout, one file system operation at a time.

## Implementation notes

What `curl` downloads, the clock and the failures of the file system are choices of the steps. A temporary file
belongs to the fetch that made it, so that only the link to it is an operation on the shared files. The parsers of
`serde_json` and SHA-256 are parameters, and so is what the checks of the Codex runtime find in the other files. Paths
in messages are left out.
-/

namespace OpenaiRs.Provenance

open Rust Rust.Chars Serde Interleaving

section Checks

abbrev Bytes := List UInt8

structure SnapshotSummary where
  byteLength : UInt64
  sha256 : Chars
  openapiVersion : Chars
  title : Chars
  apiVersion : Chars
  pathCount : UInt64
  clientOperationCount : UInt64
  webhookCount : UInt64
  webhookOperationCount : UInt64
  schemaCount : UInt64
  deriving DecidableEq

inductive SpecError where
  | json
  | notObject (pointer : List String)
  | notString (pointer : List String)
  | pathItem (pointer : List String) (name : String)
  | operation (pointer : List String) (name method : String)
  | verification (problems : List String)
  | manifest (error : ManifestError)
  | revision (revision : Chars)
  | unaudited (revision : Chars)
  | notOfficial (expected : Chars)
  | download
  | clock
  | io (operation : String)
  | different

def pinnedRevision : Chars := "690521b1753dce0c6d6b275f583d22537679cff9".toList

def sourceRepository : Chars := "openai/openai-openapi".toList

/-- What the `PINNED_` constants describe. -/
def pinned : SnapshotSummary where
  byteLength := 3405126
  sha256 := "5be8cde8490bd8422e1b3502b80e858e7c162ec3e01b187b633577dab6d0c899".toList
  openapiVersion := "3.1.0".toList
  title := "OpenAI API".toList
  apiVersion := "2.3.0".toList
  pathCount := 182
  clientOperationCount := 288
  webhookCount := 18
  webhookOperationCount := 18
  schemaCount := 1424

def officialUrl (revision : Chars) (file : String) : Chars :=
  "https://raw.githubusercontent.com/".toList ++ sourceRepository ++ ['/'] ++ revision ++ ['/'] ++ file.toList

/-- `official_source_url`. -/
def officialSourceUrl (revision : Chars) : Chars := officialUrl revision "openapi.json"

/-- `official_license_url`. -/
def officialLicenseUrl (revision : Chars) : Chars := officialUrl revision "LICENSE"

/-- `validate_revision`. -/
def validateRevision (revision : Chars) : Except SpecError Unit :=
  if revision.length = 40 ∧ revision.all (fun c => c.isDigit || decide ('a' ≤ c ∧ c ≤ 'f')) = true then .ok ()
  else .error (.revision revision)

structure FetchArguments where
  revision : Chars
  url : Option Chars

/-- `resolve_source_url`. -/
def resolveSourceUrl (arguments : FetchArguments) : Except SpecError Chars := do
  validateRevision arguments.revision
  if arguments.revision ≠ pinnedRevision then .error (.unaudited arguments.revision)
  else
    let expected := officialSourceUrl arguments.revision
    match arguments.url with
    | some url => if url ≠ expected then .error (.notOfficial expected) else .ok url
    | none => .ok expected

/-- `Value::pointer`, at keys of objects. -/
def pointerAt (document : Value) : List String → Option Value
  | [] => some document
  | key :: keys => (document.asObject.bind (Map.get · key)).bind (pointerAt · keys)

/-- `object_at`. -/
def objectAt (document : Value) (pointer : List String) : Except SpecError Map :=
  match (pointerAt document pointer).bind Value.asObject with
  | some members => .ok members
  | none => .error (.notObject pointer)

/-- `string_at`. -/
def stringAt (document : Value) (pointer : List String) : Except SpecError Chars :=
  match (pointerAt document pointer).bind Value.asStr with
  | some text => .ok text.toList
  | none => .error (.notString pointer)

def httpMethods : List String := ["get", "put", "post", "delete", "options", "head", "patch", "trace"]

/-- The operations of one path. -/
def countMethods (pointer : List String) (name : String) (pathItem : Map) : List String → Except SpecError ℕ
  | [] => .ok 0
  | method :: methods =>
      match pathItem.get method with
      | none => countMethods pointer name pathItem methods
      | some (.object _) => (countMethods pointer name pathItem methods).map (· + 1)
      | some _ => .error (.operation pointer name method)

/-- `count_operations`. -/
def countOperations (pointer : List String) : Map → Except SpecError ℕ
  | [] => .ok 0
  | (name, .object pathItem) :: rest => do
      let here ← countMethods pointer name pathItem httpMethods
      let behind ← countOperations pointer rest
      .ok (here + behind)
  | (name, _) :: _ => .error (.pathItem pointer name)

/-- `inspect_snapshot`. -/
def inspectSnapshot (fromSlice : Bytes → Option Value) (sha256 : Bytes → Chars) (bytes : Bytes) :
    Except SpecError SnapshotSummary := do
  let document ← match fromSlice bytes with
    | some document => .ok document
    | none => .error .json
  let paths ← objectAt document ["paths"]
  let webhooks ← objectAt document ["webhooks"]
  let schemas ← objectAt document ["components", "schemas"]
  let openapiVersion ← stringAt document ["openapi"]
  let title ← stringAt document ["info", "title"]
  let apiVersion ← stringAt document ["info", "version"]
  let clientOperationCount ← countOperations ["paths"] paths
  let webhookOperationCount ← countOperations ["webhooks"] webhooks
  .ok ⟨.ofNat bytes.length, sha256 bytes, openapiVersion, title, apiVersion, .ofNat paths.length,
    .ofNat clientOperationCount, .ofNat webhooks.length, .ofNat webhookOperationCount, .ofNat schemas.length⟩

/-- `compare`, and the problem that it pushes. -/
def compare {α : Type} [DecidableEq α] (display : α → Chars) (label : String) (expected actual : α) : List String :=
  if expected ≠ actual then
    [label ++ ": expected " ++ String.ofList (display expected) ++ ", found " ++ String.ofList (display actual)]
  else []

def compareText (label : String) (expected actual : Chars) : List String := compare id label expected actual

def compareNumber (label : String) (expected actual : UInt64) : List String :=
  compare (fun n => decimal n.toNat) label expected actual

/-- `verification_result`. -/
def verificationResult (problems : List String) : Except SpecError Unit :=
  if problems.isEmpty then .ok () else .error (.verification problems)

/-- `verify_pinned_summary`. -/
def verifyPinnedSummary (summary : SnapshotSummary) : Except SpecError Unit :=
  verificationResult
    (compareNumber "byte length" pinned.byteLength summary.byteLength ++
      compareText "SHA-256" pinned.sha256 summary.sha256 ++
      compareText "OpenAPI version" pinned.openapiVersion summary.openapiVersion ++
      compareText "API title" pinned.title summary.title ++
      compareText "API version" pinned.apiVersion summary.apiVersion ++
      compareNumber "path count" pinned.pathCount summary.pathCount ++
      compareNumber "client operation count" pinned.clientOperationCount summary.clientOperationCount ++
      compareNumber "webhook count" pinned.webhookCount summary.webhookCount ++
      compareNumber "webhook operation count" pinned.webhookOperationCount summary.webhookOperationCount ++
      compareNumber "schema count" pinned.schemaCount summary.schemaCount)

/-- `SourceManifest::new`. -/
def SourceManifest.new (fetchedAt : Chars) (summary : SnapshotSummary) : SourceManifest where
  schemaVersion := 1
  id := sourceId
  kind := "openapi".toList
  repository := sourceRepository
  revision := pinnedRevision
  url := officialSourceUrl pinnedRevision
  path := "spec/upstream/openapi-2026-08-29.json".toList
  fetchedAt := fetchedAt
  byteLength := summary.byteLength
  sha256 := summary.sha256
  license := "MIT".toList
  licenseUrl := officialLicenseUrl pinnedRevision
  openapiVersion := summary.openapiVersion
  apiVersion := summary.apiVersion
  pathCount := summary.pathCount
  clientOperationCount := summary.clientOperationCount
  webhookCount := summary.webhookCount
  webhookOperationCount := summary.webhookOperationCount
  schemaCount := summary.schemaCount

/-- `str::len`. -/
def byteLength (text : Chars) : ℕ := (text.map Char.utf8Size).sum

/-- What is asked of the time in a manifest. -/
def isUtc (text : Chars) : Bool :=
  !(byteLength text ≠ 20 || text.getLast? ≠ some 'Z' || !text.all fun c => decide (c.toNat < 128))

/-- `verify_manifest`. -/
def verifyManifest (manifest : SourceManifest) (summary : SnapshotSummary) : Except SpecError Unit :=
  verificationResult
    (compareNumber "manifest schema_version" 1 manifest.schemaVersion ++
      compareText "manifest id" sourceId manifest.id ++
      compareText "manifest kind" "openapi".toList manifest.kind ++
      compareText "manifest repository" sourceRepository manifest.repository ++
      compareText "manifest revision" pinnedRevision manifest.revision ++
      compareText "manifest URL" (officialSourceUrl pinnedRevision) manifest.url ++
      compareText "manifest path" "spec/upstream/openapi-2026-08-29.json".toList manifest.path ++
      compareNumber "manifest byte length" summary.byteLength manifest.byteLength ++
      compareText "manifest SHA-256" summary.sha256 manifest.sha256 ++
      compareText "manifest license" "MIT".toList manifest.license ++
      compareText "manifest license URL" (officialLicenseUrl pinnedRevision) manifest.licenseUrl ++
      compareText "manifest OpenAPI version" summary.openapiVersion manifest.openapiVersion ++
      compareText "manifest API version" summary.apiVersion manifest.apiVersion ++
      compareNumber "manifest path count" summary.pathCount manifest.pathCount ++
      compareNumber "manifest client operation count" summary.clientOperationCount manifest.clientOperationCount ++
      compareNumber "manifest webhook count" summary.webhookCount manifest.webhookCount ++
      compareNumber "manifest webhook operation count" summary.webhookOperationCount manifest.webhookOperationCount ++
      compareNumber "manifest schema count" summary.schemaCount manifest.schemaCount ++
      if isUtc manifest.fetchedAt then []
      else ["manifest fetched_at must use UTC YYYY-MM-DDTHH:MM:SSZ, found " ++ String.ofList manifest.fetchedAt])

/-- The lines that `verify_audited_runtime` looks for in the manifest. -/
def codexLines : List Chars :=
  ["id = \"codex-app-server-schema-0.144.5-aarch64-apple-darwin\"".toList,
    "runtime_version = \"0.144.5\"".toList,
    "runtime_target = \"aarch64-apple-darwin\"".toList,
    "runtime_executable_sha256 = \"5e29ab10ca1171be158f7335dd6bd8ce1aaf9af1556939db36a5ee338be6f5f2\"".toList,
    "path = \"spec/upstream/codex/0.144.5/codex_app_server_protocol.schemas.json\"".toList,
    "byte_length = 560640".toList,
    "sha256 = \"95f68321313fc4d64c8781737abf60657d6d100e2f516a036253ca936f4d73a2\"".toList]

/-- The problems of `verify_audited_runtime` with the manifest. -/
def missingLines (sources : Chars) : List String :=
  (codexLines.filter fun line => !(lines sources).any fun other => decide (trim other = line)).map fun line =>
    "spec/SOURCES.toml is missing audited Codex provenance line `" ++ String.ofList line ++ "`"

end Checks

section Files

/-- The content of a manifest file. -/
inductive SourcesFile where
  | text (text : Chars)
  /-- Bytes that are not UTF-8. -/
  | other (bytes : Bytes) (h : (fromUtf8 bytes).isOk = false)
  deriving DecidableEq

/-- The two files of a checkout. -/
structure Artifacts where
  snapshot : Option Bytes
  sources : Option SourcesFile
  deriving DecidableEq

/-- `fs::read_to_string`. -/
def readToString (action : String) : Option SourcesFile → Except SpecError Chars
  | some (.text text) => .ok text
  | some (.other _ _) => .error (.io action)
  | none => .error (.io action)

variable (fromSlice : Bytes → Option Value) (sha256 : Bytes → Chars) (fromStr : Chars → Option Chars)

/-- `load_manifest`. -/
def loadManifest (sources : Option SourcesFile) : Except SpecError SourceManifest := do
  let input ← readToString "read source manifest" sources
  match parseManifest fromStr input with
  | .ok manifest => .ok manifest
  | .error error => .error (.manifest error)

/-- `verify` up to the checks of the Codex runtime. -/
def verifyOpenapi (artifacts : Artifacts) : Except SpecError Unit := do
  let bytes ← match artifacts.snapshot with
    | some bytes => .ok bytes
    | none => .error (.io "read OpenAPI snapshot")
  let summary ← inspectSnapshot fromSlice sha256 bytes
  verifyPinnedSummary summary
  let manifest ← loadManifest fromStr artifacts.sources
  verifyManifest manifest summary

/-- `codex_compat::verify`, behind its checks of the other files. -/
def verifyCodex (others : Except SpecError (List String)) (sources : Option SourcesFile) : Except SpecError Unit := do
  let problems ← others
  let text ← readToString "read provenance sources" sources
  verificationResult (problems ++ missingLines text)

/-- `verify`. -/
def verify (others : Except SpecError (List String)) (artifacts : Artifacts) : Except SpecError Unit := do
  verifyOpenapi fromSlice sha256 fromStr artifacts
  verifyCodex others artifacts.sources

/-- Where `write_new_if_missing` stands. -/
inductive Stage where
  | looking
  | comparing
  | linking
  | removing
  deriving DecidableEq

/-- What a step leaves open. -/
inductive Choice where
  | proceed
  | answer (bytes : Bytes)
  | clock (seconds : UInt64)
  | fail

inductive Progress where
  | next (stage : Stage)
  | written
  | failed (error : SpecError)

/-- A step of `write_new_if_missing`. Where the file system fails, `exists` is false. -/
def writeNewIfMissing {α : Type} [DecidableEq α] (file : Option α) (content : α) :
    Stage → Choice → Option (Option α × Progress)
  | .looking, .proceed => some (file, .next (if file.isSome then .comparing else .linking))
  | .looking, .fail => some (file, .next .linking)
  | .comparing, .proceed =>
      match file with
      | none => some (file, .written)
      | some existing => some (file, if existing = content then .written else .failed .different)
  | .comparing, .fail => some (file, .failed (.io "read existing artifact"))
  | .linking, .proceed =>
      match file with
      | none => some (some content, .next .removing)
      | some _ => some (file, .failed (.io "install audited artifact without overwrite"))
  | .linking, .fail => some (file, .failed (.io "write temporary artifact"))
  | .removing, .proceed => some (file, .written)
  | .removing, .fail => some (file, .failed (.io "remove installed artifact temporary link"))
  | _, _ => none

/-- Where a fetch stands. -/
inductive Pc where
  | downloading (url : Chars)
  | auditing (bytes : Bytes) (summary : SnapshotSummary)
  | looking (bytes : Bytes) (summary : SnapshotSummary)
  | loading (bytes : Bytes) (summary : SnapshotSummary)
  | dating (bytes : Bytes) (summary : SnapshotSummary)
  | installing (bytes : Bytes) (manifest : Option SourceManifest) (stage : Stage)
  | recording (content : SourcesFile) (stage : Stage)
  | ended (result : Except SpecError Unit)

/-- Behind the write of the snapshot. -/
def behindSnapshot (printable : Char → Bool) : Option SourceManifest → Pc
  | some manifest => .recording (.text (renderManifest printable manifest)) .looking
  | none => .ended (.ok ())

/-- A step of `fetch`. -/
def fetchStep (printable : Char → Bool) (artifacts : Artifacts) : Pc → Choice → Option (Artifacts × Pc)
  | .downloading _, .answer bytes =>
      match inspectSnapshot fromSlice sha256 bytes with
      | .error error => some (artifacts, .ended (.error error))
      | .ok summary =>
          match verifyPinnedSummary summary with
          | .error error => some (artifacts, .ended (.error error))
          | .ok () => some (artifacts, .auditing bytes summary)
  | .downloading _, .fail => some (artifacts, .ended (.error .download))
  | .auditing bytes summary, .proceed =>
      match artifacts.snapshot with
      | none => some (artifacts, .looking bytes summary)
      | some existing =>
          if existing = bytes then some (artifacts, .looking bytes summary)
          else some (artifacts, .ended (.error .different))
  | .auditing _ _, .fail => some (artifacts, .ended (.error (.io "read existing artifact")))
  | .looking bytes summary, .proceed =>
      some (artifacts, if artifacts.sources.isSome then .loading bytes summary else .dating bytes summary)
  | .looking bytes summary, .fail => some (artifacts, .dating bytes summary)
  | .loading bytes summary, .proceed =>
      match loadManifest fromStr artifacts.sources with
      | .error error => some (artifacts, .ended (.error error))
      | .ok manifest =>
          match verifyManifest manifest summary with
          | .error error => some (artifacts, .ended (.error error))
          | .ok () => some (artifacts, .installing bytes none .looking)
  | .loading _ _, .fail => some (artifacts, .ended (.error (.io "read source manifest")))
  | .dating bytes summary, .clock seconds =>
      some (artifacts,
        .installing bytes (some (.new (formatUtcTimestamp seconds.toNat).toList summary)) .looking)
  | .dating _ _, .fail => some (artifacts, .ended (.error .clock))
  | .installing bytes manifest stage, choice =>
      (writeNewIfMissing artifacts.snapshot bytes stage choice).map fun (snapshot, progress) =>
        ({ artifacts with snapshot },
          match progress with
          | .next stage => .installing bytes manifest stage
          | .written => behindSnapshot printable manifest
          | .failed error => .ended (.error error))
  | .recording content stage, choice =>
      (writeNewIfMissing artifacts.sources content stage choice).map fun (sources, progress) =>
        ({ artifacts with sources },
          match progress with
          | .next stage => .recording content stage
          | .written => .ended (.ok ())
          | .failed error => .ended (.error error))
  | _, _ => none

/-- A checkout with any number of fetches on it. -/
def system (printable : Char → Bool) : System Artifacts Pc Choice FetchArguments where
  act artifacts _ pc choice := (fetchStep fromSlice sha256 fromStr printable artifacts pc choice).map fun (artifacts, pc) =>
    (artifacts, pc, [])
  env artifacts arguments :=
    some (artifacts, [match resolveSourceUrl arguments with
      | .ok url => .downloading url
      | .error error => .ended (.error error)])

end Files

end OpenaiRs.Provenance
