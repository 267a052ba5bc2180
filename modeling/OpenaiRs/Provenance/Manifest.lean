import OpenaiRs.Json.Quoted
import OpenaiRs.Rust.Result
import Mathlib.Tactic.Tauto

/-!
# The source manifest

`render_manifest` and `parse_manifest` of `xtask/src/spec.rs`, the record of where the API description comes from.

## Implementation notes

Texts are lists of characters. A `BTreeMap` of keys and raw values is the list of its entries as they were inserted;
only the error about unknown keys reads it in the order of the keys. `usize` has 64 bits. `serde_json::from_str` for
strings is the parameter `fromStr`.
-/

namespace OpenaiRs.Provenance

open Rust Rust.Chars

section Definitions

structure SourceManifest where
  schemaVersion : UInt64
  id : Chars
  kind : Chars
  repository : Chars
  revision : Chars
  url : Chars
  path : Chars
  fetchedAt : Chars
  byteLength : UInt64
  sha256 : Chars
  license : Chars
  licenseUrl : Chars
  openapiVersion : Chars
  apiVersion : Chars
  pathCount : UInt64
  clientOperationCount : UInt64
  webhookCount : UInt64
  webhookOperationCount : UInt64
  schemaCount : UInt64
  deriving DecidableEq

/-- `SOURCE_ID`. -/
def sourceId : Chars := "openai-openapi".toList

/-- A key with the text of its value. -/
abbrev Entry := Chars × Chars

/-- The assignments behind `[[source]]`. -/
def sourceEntries (printable : Char → Bool) (manifest : SourceManifest) : List Entry :=
  [("id".toList, debug printable manifest.id),
    ("kind".toList, debug printable manifest.kind),
    ("repository".toList, debug printable manifest.repository),
    ("revision".toList, debug printable manifest.revision),
    ("url".toList, debug printable manifest.url),
    ("path".toList, debug printable manifest.path),
    ("fetched_at".toList, debug printable manifest.fetchedAt),
    ("byte_length".toList, decimal manifest.byteLength.toNat),
    ("sha256".toList, debug printable manifest.sha256),
    ("license".toList, debug printable manifest.license),
    ("license_url".toList, debug printable manifest.licenseUrl),
    ("openapi_version".toList, debug printable manifest.openapiVersion),
    ("api_version".toList, debug printable manifest.apiVersion),
    ("path_count".toList, decimal manifest.pathCount.toNat),
    ("client_operation_count".toList, decimal manifest.clientOperationCount.toNat),
    ("webhook_count".toList, decimal manifest.webhookCount.toNat),
    ("webhook_operation_count".toList, decimal manifest.webhookOperationCount.toNat),
    ("schema_count".toList, decimal manifest.schemaCount.toNat)]

def assignment (entry : Entry) : Chars := entry.1 ++ " = ".toList ++ entry.2

def manifestLines (printable : Char → Bool) (manifest : SourceManifest) : List Chars :=
  ["# Frozen upstream provenance. Regenerate only through `cargo xtask spec fetch`.".toList,
    "# The URL and revision are immutable; normal builds and verification stay offline.".toList,
    [],
    assignment ("schema_version".toList, decimal manifest.schemaVersion.toNat),
    [],
    "[[source]]".toList] ++ (sourceEntries printable manifest).map assignment

/-- `render_manifest`. -/
def renderManifest (printable : Char → Bool) (manifest : SourceManifest) : Chars :=
  (manifestLines printable manifest).flatMap fun line => line ++ ['\n']

inductive ManifestError where
  | unsupportedSection (line : ℕ) (text : Chars)
  | invalidAssignment (line : ℕ)
  | duplicateKey (key : Chars)
  | noSource
  | missingKey (key : Chars)
  | missingSourceKey (key : Chars)
  | notString (key : Chars)
  | notNumber (key : Chars)
  | sourceCount (found : ℕ)
  | unknownKeys (keys : List Chars)

/-- The variables of the loop over the lines. -/
structure Reading where
  topLevel : List Entry
  sources : List (List Entry)
  current : Option (List Entry)

def insertEntry (values : List Entry) (entry : Entry) : Except ManifestError (List Entry) :=
  if entry.1 ∈ values.map Prod.fst then .error (.duplicateKey entry.1) else .ok (values ++ [entry])

/-- An entry of the current source or, in front of the first one, of the top level. -/
def Reading.insert (state : Reading) (entry : Entry) : Except ManifestError Reading :=
  match state.current with
  | some values => (insertEntry values entry).map fun values => ⟨state.topLevel, state.sources, some values⟩
  | none => (insertEntry state.topLevel entry).map fun topLevel => ⟨topLevel, state.sources, none⟩

/-- One round of the loop over the lines. -/
def readLine (lineNumber : ℕ) (rawLine : Chars) (state : Reading) : Except ManifestError Reading :=
  let line := trim rawLine
  if line.isEmpty || line.head? = some '#' then .ok state
  else if line = "[[source]]".toList then .ok ⟨state.topLevel, state.sources ++ state.current.toList, some []⟩
  else if line.head? = some '[' then .error (.unsupportedSection lineNumber line)
  else
    match splitOnce '=' line with
    | none => .error (.invalidAssignment lineNumber)
    | some (key, value) => state.insert (trim key, trim value)

def readLines (lineNumber : ℕ) : List Chars → Reading → Except ManifestError Reading
  | [], state => .ok state
  | rawLine :: rest, state => do
      let state ← readLine lineNumber rawLine state
      readLines (lineNumber + 1) rest state

/-- `BTreeMap::remove`. -/
def removeEntry (key : Chars) : List Entry → Option (Chars × List Entry)
  | [] => none
  | entry :: rest =>
      if entry.1 = key then some (entry.2, rest)
      else (removeEntry key rest).map fun (value, rest) => (value, entry :: rest)

/-- A reader of the values that are left. -/
abbrev Take := StateT (List Entry) (Except ManifestError)

variable (fromStr : Chars → Option Chars)

def takeString (key : String) : Take Chars := fun values =>
  match removeEntry key.toList values with
  | none => .error (.missingKey key.toList)
  | some (raw, rest) =>
      match fromStr raw with
      | none => .error (.notString key.toList)
      | some text => .ok (text, rest)

/-- `take_u64`, and `take_usize`. -/
def takeU64 (key : String) : Take UInt64 := fun values =>
  match removeEntry key.toList values with
  | none => .error (.missingKey key.toList)
  | some (raw, rest) =>
      match parseU64 raw with
      | none => .error (.notNumber key.toList)
      | some number => .ok (number, rest)

/-- `peek_string`. -/
def peekString (values : List Entry) (key : String) : Except ManifestError Chars :=
  match removeEntry key.toList values with
  | none => .error (.missingSourceKey key.toList)
  | some (raw, _) =>
      match fromStr raw with
      | none => .error (.notString key.toList)
      | some text => .ok text

def matchingSources : List (List Entry) → Except ManifestError (List (List Entry))
  | [] => .ok []
  | values :: rest => do
      let id ← peekString fromStr values "id"
      let matching ← matchingSources rest
      .ok (if id = sourceId then values :: matching else matching)

/-- That no value is left. -/
def finish : Take Unit := fun values =>
  if values.isEmpty then .ok ((), values)
  else .error (.unknownKeys ((values.map Prod.fst).mergeSort fun a b => decide (String.ofList a ≤ String.ofList b)))

/-- The fields of a source, in the order in which they are taken. -/
def takeSource (schemaVersion : UInt64) : Take SourceManifest := do
  let id ← takeString fromStr "id"
  let kind ← takeString fromStr "kind"
  let repository ← takeString fromStr "repository"
  let revision ← takeString fromStr "revision"
  let url ← takeString fromStr "url"
  let path ← takeString fromStr "path"
  let fetchedAt ← takeString fromStr "fetched_at"
  let byteLength ← takeU64 "byte_length"
  let sha256 ← takeString fromStr "sha256"
  let license ← takeString fromStr "license"
  let licenseUrl ← takeString fromStr "license_url"
  let openapiVersion ← takeString fromStr "openapi_version"
  let apiVersion ← takeString fromStr "api_version"
  let pathCount ← takeU64 "path_count"
  let clientOperationCount ← takeU64 "client_operation_count"
  let webhookCount ← takeU64 "webhook_count"
  let webhookOperationCount ← takeU64 "webhook_operation_count"
  let schemaCount ← takeU64 "schema_count"
  finish
  return ⟨schemaVersion, id, kind, repository, revision, url, path, fetchedAt, byteLength, sha256, license, licenseUrl,
    openapiVersion, apiVersion, pathCount, clientOperationCount, webhookCount, webhookOperationCount, schemaCount⟩

/-- `parse_manifest`. -/
def parseManifest (input : Chars) : Except ManifestError SourceManifest := do
  let reading ← readLines 1 (lines input) ⟨[], [], none⟩
  let sources := reading.sources ++ reading.current.toList
  if sources.isEmpty then
    throw .noSource
  let (schemaVersion, _) ← takeU64 "schema_version" reading.topLevel
  match ← matchingSources fromStr sources with
  | [values] => do
      let (manifest, _) ← takeSource fromStr schemaVersion values
      .ok manifest
  | matching => .error (.sourceCount matching.length)

end Definitions

section Lines

variable {printable : Char → Bool}

/-- The texts that stand on either side of an assignment. -/
def Bounded (text : Chars) : Prop :=
  text ≠ [] ∧ '\n' ∉ text ∧ (∀ c ∈ text.head?, Preview.isWhitespace c = false) ∧
    ∀ c ∈ text.getLast?, Preview.isWhitespace c = false

/-- A key of letters, digits and underscores. -/
def Key (key : Chars) : Prop := key ≠ [] ∧ ∀ c ∈ key, c.isAlphanum = true ∨ c = '_'

instance (key : Chars) : Decidable (Key key) := inferInstanceAs (Decidable (_ ∧ _))

theorem key_range {c : Char} (h : c.isAlphanum = true ∨ c = '_') : 0x30 ≤ c.toNat ∧ c.toNat ≤ 0x7A := by
  have hrange : ∀ {low high : Char}, c.val ≥ low.val ∧ c.val ≤ high.val → low.toNat ≤ c.toNat ∧ c.toNat ≤ high.toNat :=
    fun ⟨hlow, hhigh⟩ => ⟨UInt32.le_iff_toNat_le.mp hlow, UInt32.le_iff_toNat_le.mp hhigh⟩
  rcases h with h | rfl
  · rcases (Bool.or_eq_true _ _).mp h with hletter | hdigit
    · rcases (Bool.or_eq_true _ _).mp hletter with hupper | hlower
      · obtain ⟨hlow, hhigh⟩ := hrange (of_decide_eq_true hupper)
        exact ⟨le_trans (by decide) hlow, le_trans hhigh (by decide)⟩
      · obtain ⟨hlow, hhigh⟩ := hrange (((Bool.and_eq_true _ _).mp hlower).imp of_decide_eq_true of_decide_eq_true)
        exact ⟨le_trans (by decide) hlow, le_trans hhigh (by decide)⟩
    · obtain ⟨hlow, hhigh⟩ := hrange (((Bool.and_eq_true _ _).mp hdigit).imp of_decide_eq_true of_decide_eq_true)
      exact ⟨le_trans (by decide) hlow, le_trans hhigh (by decide)⟩
  · decide

theorem not_isWhitespace_of_key {c : Char} (h : c.isAlphanum = true ∨ c = '_') : Preview.isWhitespace c = false := by
  have hrange := key_range h
  simp only [Preview.isWhitespace, Bool.or_eq_false_iff, Bool.and_eq_false_iff, decide_eq_false_iff_not]
  omega

theorem bounded_debug (text : Chars) : Bounded (debug printable text) := by
  refine ⟨List.cons_ne_nil _ _, lf_notMem_debug printable text, ?_, ?_⟩
  · rintro c ⟨⟩
    rfl
  · intro c hc
    rw [debug, ← List.cons_append, List.getLast?_concat] at hc
    cases hc
    rfl

theorem bounded_decimal (n : ℕ) : Bounded (decimal n) := by
  have hdigit : ∀ c ∈ decimal n, Preview.isWhitespace c = false := fun c hc =>
    not_isWhitespace_of_key (.inl (by rw [Char.isAlphanum, isDigit_decimal hc, Bool.or_true]))
  exact ⟨Nat.toDigits_ne_nil, lf_notMem_toDigits (by decide) n, fun c hc => hdigit c (List.mem_of_mem_head? hc),
    fun c hc => hdigit c (List.mem_of_getLast? hc)⟩

theorem Key.bounded {key : Chars} (h : Key key) : Bounded key := by
  have hspace : ∀ c ∈ key, Preview.isWhitespace c = false := fun c hc => not_isWhitespace_of_key (h.2 c hc)
  refine ⟨h.1, fun hlf => ?_, fun c hc => hspace c (List.mem_of_mem_head? hc), fun c hc => hspace c (List.mem_of_getLast? hc)⟩
  exact absurd (h.2 _ hlf) (by decide)

theorem Bounded.trim_padded {left text right : Chars} (h : Bounded text)
    (hleft : ∀ c ∈ left, Preview.isWhitespace c = true) (hright : ∀ c ∈ right, Preview.isWhitespace c = true) :
    trim (left ++ (text ++ right)) = text :=
  Chars.trim_padded hleft hright h.1 h.2.2.1 h.2.2.2

/-- What is behind the key, up to the end of the line. -/
theorem bounded_assignment {entry : Entry} (hkey : Key entry.1) (hvalue : Bounded entry.2) :
    Bounded (assignment entry) := by
  obtain ⟨key, value⟩ := entry
  obtain ⟨first, rest, rfl⟩ := List.exists_cons_of_ne_nil hkey.1
  obtain ⟨init, last, rfl⟩ := (List.eq_nil_or_concat value).resolve_left hvalue.1
  refine ⟨List.cons_ne_nil _ _, ?_, hkey.bounded.2.2.1, ?_⟩
  · simp only [assignment, List.mem_append, not_or]
    exact ⟨⟨hkey.bounded.2.1, by decide⟩, hvalue.2.1⟩
  · rw [assignment, List.concat_eq_append, ← List.append_assoc, List.getLast?_concat]
    rw [List.concat_eq_append] at hvalue
    have hlast := hvalue.2.2.2
    rwa [List.getLast?_concat] at hlast

theorem trim_assignment {entry : Entry} (hkey : Key entry.1) (hvalue : Bounded entry.2) :
    trim (assignment entry) = assignment entry := by
  have h := (bounded_assignment hkey hvalue).trim_padded (List.forall_mem_nil _) (List.forall_mem_nil _)
  rwa [List.append_nil, List.nil_append] at h

theorem splitOnce_assignment {entry : Entry} (hkey : Key entry.1) :
    splitOnce '=' (assignment entry) = some (entry.1 ++ [' '], ' ' :: entry.2) := by
  have hnot : '=' ∉ entry.1 ++ [' '] := by
    simp only [List.mem_append, List.mem_singleton, not_or]
    exact ⟨fun h => absurd (hkey.2 _ h) (by decide), by decide⟩
  calc
    splitOnce '=' (assignment entry) = splitOnce '=' ((entry.1 ++ [' ']) ++ '=' :: ' ' :: entry.2) := by
      rw [assignment, List.append_assoc, List.append_assoc]
      rfl
    _ = some (entry.1 ++ [' '], ' ' :: entry.2) := splitOnce_append hnot _

/-- An assignment is read as its key and its value. -/
theorem readLine_assignment {entry : Entry} (hkey : Key entry.1) (hvalue : Bounded entry.2) (lineNumber : ℕ)
    (state : Reading) : readLine lineNumber (assignment entry) state = state.insert entry := by
  have htrim := trim_assignment hkey hvalue
  have hsplit := splitOnce_assignment hkey
  obtain ⟨key, value⟩ := entry
  have hkeyTrim : trim (key ++ [' ']) = key := hkey.bounded.trim_padded (List.forall_mem_nil _) (by decide)
  have hvalueTrim : trim (' ' :: value) = value := by
    have h : trim ([' '] ++ (value ++ [])) = value := hvalue.trim_padded (by decide) (List.forall_mem_nil _)
    rwa [List.append_nil] at h
  obtain ⟨first, rest, rfl⟩ := List.exists_cons_of_ne_nil hkey.1
  have hfirst := hkey.2 first List.mem_cons_self
  have hhead : (assignment (first :: rest, value)).head? = some first := rfl
  have hcomment : first ≠ '#' := fun h => absurd (h ▸ hfirst) (by decide)
  have hsection : first ≠ '[' := fun h => absurd (h ▸ hfirst) (by decide)
  have hsource : assignment (first :: rest, value) ≠ "[[source]]".toList := fun h => hsection (List.cons.inj h).1
  rw [readLine, htrim]
  simp only [hhead, hsplit, Option.some.injEq, hcomment, hsection, hsource, hkeyTrim, hvalueTrim, decide_false,
    Bool.or_false, if_false]
  rfl

theorem insertEntry_eq_ok {values : List Entry} {entry : Entry} (h : entry.1 ∉ values.map Prod.fst) :
    insertEntry values entry = .ok (values ++ [entry]) := if_neg h

theorem readLines_cons {lineNumber : ℕ} {line : Chars} {state state' : Reading}
    (h : readLine lineNumber line state = .ok state') (rest : List Chars) :
    readLines lineNumber (line :: rest) state = readLines (lineNumber + 1) rest state' := by
  rw [readLines, h]
  rfl

/-- Assignments with keys of their own are read into the current source. -/
theorem readLines_assignments {entries : List Entry} (hentries : ∀ entry ∈ entries, Key entry.1 ∧ Bounded entry.2)
    {values : List Entry} (hnodup : ((values ++ entries).map Prod.fst).Nodup) (lineNumber : ℕ) (topLevel : List Entry)
    (sources : List (List Entry)) :
    readLines lineNumber (entries.map assignment) ⟨topLevel, sources, some values⟩ =
      .ok ⟨topLevel, sources, some (values ++ entries)⟩ := by
  induction entries generalizing values lineNumber with
  | nil => rw [List.append_nil, List.map_nil, readLines]
  | cons entry rest ih =>
      obtain ⟨⟨hkey, hvalue⟩, hrest⟩ := List.forall_mem_cons.mp hentries
      have hnew : entry.1 ∉ values.map Prod.fst := by
        rw [List.map_append, List.map_cons, List.nodup_append] at hnodup
        exact fun h => hnodup.2.2 _ h _ List.mem_cons_self rfl
      have hshift : values ++ entry :: rest = (values ++ [entry]) ++ rest := by
        rw [List.append_assoc, List.singleton_append]
      have hstep : readLine lineNumber (assignment entry) ⟨topLevel, sources, some values⟩ =
          .ok ⟨topLevel, sources, some (values ++ [entry])⟩ := by
        rw [readLine_assignment hkey hvalue]
        simp only [Reading.insert, insertEntry_eq_ok hnew]
        rfl
      rw [List.map_cons, readLines_cons hstep]
      rw [hshift] at hnodup ⊢
      exact ih hrest hnodup (lineNumber + 1)

end Lines

section Render

variable {printable : Char → Bool} {fromStr : Chars → Option Chars}

theorem sourceEntries_bounded (manifest : SourceManifest) :
    ∀ entry ∈ sourceEntries printable manifest, Key entry.1 ∧ Bounded entry.2 := by
  simp only [sourceEntries, List.forall_mem_cons, bounded_debug, bounded_decimal, and_true, List.not_mem_nil,
    false_imp_iff, implies_true]
  decide

theorem sourceEntries_nodup (manifest : SourceManifest) : ((sourceEntries printable manifest).map Prod.fst).Nodup := by
  simp only [sourceEntries, List.map_cons, List.map_nil]
  decide

theorem schemaVersion_bounded (n : ℕ) : Key "schema_version".toList ∧ Bounded (decimal n) :=
  ⟨by decide, bounded_decimal n⟩

/-- The lines of a manifest are the lines it was written in. -/
theorem lines_renderManifest (manifest : SourceManifest) :
    lines (renderManifest printable manifest) = manifestLines printable manifest := by
  have hbounded : ∀ {line : Chars}, Bounded line → '\n' ∉ line ∧ line.getLast? ≠ some '\r' := fun h =>
    ⟨h.2.1, fun hcr => absurd (h.2.2.2 _ hcr) (by decide)⟩
  obtain ⟨hkey, hvalue⟩ := schemaVersion_bounded manifest.schemaVersion.toNat
  have hversion : Bounded (assignment ("schema_version".toList, decimal manifest.schemaVersion.toNat)) :=
    bounded_assignment hkey hvalue
  apply lines_flatMap
  rw [manifestLines, List.forall_mem_append]
  constructor
  · simp only [List.forall_mem_cons]
    exact ⟨by decide, by decide, by decide, hbounded hversion, by decide, by decide, List.forall_mem_nil _⟩
  · intro line hline
    obtain ⟨entry, hentry, rfl⟩ := List.mem_map.mp hline
    obtain ⟨hkey, hvalue⟩ := sourceEntries_bounded manifest entry hentry
    exact hbounded (bounded_assignment hkey hvalue)

/-- What the loop over the lines of a manifest collects. -/
theorem readLines_manifestLines (manifest : SourceManifest) :
    readLines 1 (manifestLines printable manifest) ⟨[], [], none⟩ =
      .ok ⟨[("schema_version".toList, decimal manifest.schemaVersion.toNat)], [],
        some (sourceEntries printable manifest)⟩ := by
  obtain ⟨hkey, hvalue⟩ := schemaVersion_bounded manifest.schemaVersion.toNat
  have hversion : readLine 4 (assignment ("schema_version".toList, decimal manifest.schemaVersion.toNat))
      ⟨[], [], none⟩ = .ok ⟨[("schema_version".toList, decimal manifest.schemaVersion.toNat)], [], none⟩ :=
    readLine_assignment hkey hvalue 4 ⟨[], [], none⟩
  have hnodup : (([] ++ sourceEntries printable manifest).map Prod.fst).Nodup := sourceEntries_nodup manifest
  have hentries := readLines_assignments (sourceEntries_bounded manifest) hnodup 7
    [("schema_version".toList, decimal manifest.schemaVersion.toNat)] []
  rw [manifestLines, List.cons_append, readLines_cons rfl, List.cons_append, readLines_cons rfl, List.cons_append,
    readLines_cons rfl, List.cons_append, readLines_cons hversion, List.cons_append, readLines_cons rfl,
    List.cons_append, readLines_cons rfl, List.nil_append]
  exact hentries

theorem removeEntry_cons (key value : Chars) (rest : List Entry) :
    removeEntry key ((key, value) :: rest) = some (value, rest) := if_pos rfl

/-- A string is taken from its `Debug` form, if that is a JSON string too. -/
theorem takeString_bind_eq_ok (hreads : Quoted.Reads fromStr) {β : Type} {key : String}
    {text : Chars} {rest : List Entry} {next : Chars → Take β} {result : β × List Entry} :
    (takeString fromStr key >>= next) ((key.toList, debug printable text) :: rest) = .ok result ↔
      (∀ c ∈ text, Quoted.Kept printable c) ∧ next text rest = .ok result := by
  change (takeString fromStr key _ >>= fun taken => next taken.1 taken.2) = _ ↔ _
  rw [takeString, removeEntry_cons]
  simp only [hreads.debug]
  by_cases h : ∀ c ∈ text, Quoted.Kept printable c
  · simp only [if_pos h]
    rw [and_iff_right h]
    rfl
  · simp only [h, false_and, iff_false]
    exact fun herror => nomatch herror

theorem takeU64_decimal (key : String) (n : UInt64) (rest : List Entry) :
    takeU64 key ((key.toList, decimal n.toNat) :: rest) = .ok (n, rest) := by
  rw [takeU64, removeEntry_cons]
  simp only [parseU64_decimal]

theorem takeU64_bind {β : Type} (key : String) (n : UInt64) (rest : List Entry) (next : UInt64 → Take β) :
    (takeU64 key >>= next) ((key.toList, decimal n.toNat) :: rest) = next n rest := by
  change (takeU64 key _ >>= fun taken => next taken.1 taken.2) = _
  rw [takeU64_decimal]
  rfl

/-- The texts of a manifest. -/
def SourceManifest.texts (manifest : SourceManifest) : List Chars :=
  [manifest.id, manifest.kind, manifest.repository, manifest.revision, manifest.url, manifest.path, manifest.fetchedAt,
    manifest.sha256, manifest.license, manifest.licenseUrl, manifest.openapiVersion, manifest.apiVersion]

/-- That the manifest is written without an escape that JSON does not know. -/
def Legible (printable : Char → Bool) (manifest : SourceManifest) : Prop :=
  ∀ text ∈ manifest.texts, ∀ c ∈ text, Quoted.Kept printable c

instance (printable : Char → Bool) (manifest : SourceManifest) : Decidable (Legible printable manifest) :=
  inferInstanceAs (Decidable (∀ text ∈ manifest.texts, ∀ c ∈ text, Quoted.Kept printable c))

theorem takeSource_sourceEntries (hreads : Quoted.Reads fromStr) (manifest : SourceManifest)
    (result : SourceManifest × List Entry) :
    takeSource fromStr manifest.schemaVersion (sourceEntries printable manifest) = .ok result ↔
      Legible printable manifest ∧ result = (manifest, []) := by
  have hfinish : ∀ next : Unit → Take SourceManifest, (finish >>= next) [] = next () [] := fun _ => rfl
  have hpure : ∀ (result : SourceManifest) (rest : List Entry),
      (pure result : Take SourceManifest) rest = .ok (result, rest) := fun _ _ => rfl
  rw [takeSource, sourceEntries]
  simp only [takeString_bind_eq_ok hreads, takeU64_bind]
  rw [Legible, SourceManifest.texts]
  simp only [List.forall_mem_cons, List.not_mem_nil, false_imp_iff, implies_true, and_true, and_assoc]
  rw [hfinish, hpure, Except.ok.injEq, eq_comm]

theorem matchingSources_sourceEntries (hreads : Quoted.Reads fromStr) (printable : Char → Bool)
    (manifest : SourceManifest) :
    matchingSources fromStr [sourceEntries printable manifest] =
      if ∀ c ∈ manifest.id, Quoted.Kept printable c then
        .ok (if manifest.id = sourceId then [sourceEntries printable manifest] else [])
      else .error (.notString "id".toList) := by
  have hid : removeEntry "id".toList (sourceEntries printable manifest) =
      some (debug printable manifest.id, (sourceEntries printable manifest).tail) := removeEntry_cons _ _ _
  simp only [matchingSources, peekString, hid, hreads.debug]
  by_cases h : ∀ c ∈ manifest.id, Quoted.Kept printable c
  · simp only [if_pos h]
    rfl
  · simp only [if_neg h]
    rfl

/-- A manifest is read as it was written, if it describes this source and JSON knows every escape in it, and is not
read otherwise. -/
theorem parseManifest_renderManifest (hreads : Quoted.Reads fromStr) (manifest manifest' : SourceManifest) :
    parseManifest fromStr (renderManifest printable manifest) = .ok manifest' ↔
      manifest' = manifest ∧ manifest.id = sourceId ∧ Legible printable manifest := by
  have hmatching := matchingSources_sourceEntries hreads printable manifest
  rw [parseManifest, lines_renderManifest, readLines_manifestLines]
  simp only [bind_eq_ok, Except.ok.injEq, exists_eq_left', List.nil_append, Option.toList_some, List.isEmpty_cons,
    Bool.false_eq_true, if_false, takeU64_decimal, hmatching]
  by_cases hkept : ∀ c ∈ manifest.id, Quoted.Kept printable c
  · by_cases hid : manifest.id = sourceId
    · simp only [if_pos hkept, if_pos hid, Except.ok.injEq, exists_eq_left']
      rw [bind_eq_ok]
      constructor
      · rintro ⟨taken, htaken, hresult⟩
        obtain ⟨hlegible, rfl⟩ := (takeSource_sourceEntries hreads manifest taken).mp htaken
        exact ⟨(Except.ok.inj hresult).symm, hid, hlegible⟩
      · rintro ⟨rfl, -, hlegible⟩
        exact ⟨_, (takeSource_sourceEntries hreads _ _).mpr ⟨hlegible, rfl⟩, rfl⟩
    · simp only [if_pos hkept, if_neg hid, Except.ok.injEq, exists_eq_left', reduceCtorEq, false_iff]
      exact fun h => hid h.2.1
  · simp only [if_neg hkept, reduceCtorEq, false_and, exists_false, false_iff]
    exact fun h => hkept (h.2.2 manifest.id List.mem_cons_self)

/-- A manifest with a quotation mark in its license. -/
def quotedLicense : SourceManifest where
  schemaVersion := 1
  id := sourceId
  kind := "openapi".toList
  repository := "openai/openai-openapi".toList
  revision := "690521b".toList
  url := "https://example.com/openapi.json".toList
  path := "spec/openapi.json".toList
  fetchedAt := "2026-08-29T00:00:00Z".toList
  byteLength := 12
  sha256 := "5be8cde8".toList
  license := "\"MIT\"".toList
  licenseUrl := "https://example.com/LICENSE".toList
  openapiVersion := "3.1.0".toList
  apiVersion := "2.3.0".toList
  pathCount := 1
  clientOperationCount := 1
  webhookCount := 0
  webhookOperationCount := 0
  schemaCount := 0

theorem parseManifest_renderManifest_quotedLicense :
    parseManifest Quoted.readLiteral (renderManifest (fun _ => true) quotedLicense) = .ok quotedLicense :=
  (parseManifest_renderManifest Quoted.reads_readLiteral quotedLicense quotedLicense).mpr ⟨rfl, rfl, by decide⟩

end Render

end OpenaiRs.Provenance
