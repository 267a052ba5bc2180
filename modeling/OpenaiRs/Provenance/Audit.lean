import OpenaiRs.Provenance.Checks

/-!
# Concurrent fetches

However the steps of the fetches of a checkout are interleaved and wherever they fail, a file that is there stays as it
is, and behind a fetch that succeeded both files are what `verify` asks of them, as far as `fetch` writes them.
-/

namespace OpenaiRs.Provenance

open Rust Rust.Chars Serde Interleaving

variable {fromSlice : Bytes → Option Value} {sha256 : Bytes → Chars} {fromStr : Chars → Option Chars}
  {printable : Char → Bool}

section Files

/-- A file that is there stays as it is. -/
def Keeps {α : Type} (file file' : Option α) : Prop := ∀ content, file = some content → file' = some content

def Artifacts.Keeps (artifacts artifacts' : Artifacts) : Prop :=
  Provenance.Keeps artifacts.snapshot artifacts'.snapshot ∧ Provenance.Keeps artifacts.sources artifacts'.sources

theorem Keeps.refl {α : Type} (file : Option α) : Keeps file file := fun _ h => h

theorem Keeps.isSome {α : Type} {file file' : Option α} (h : Keeps file file') (hfile : file.isSome = true) :
    file'.isSome = true := by
  obtain ⟨content, rfl⟩ := Option.isSome_iff_exists.mp hfile
  rw [h content rfl]
  rfl

theorem Artifacts.Keeps.trans {artifacts artifacts' artifacts'' : Artifacts} (h : artifacts.Keeps artifacts')
    (h' : artifacts'.Keeps artifacts'') : artifacts.Keeps artifacts'' :=
  ⟨fun content hcontent => h'.1 content (h.1 content hcontent), fun content hcontent => h'.2 content (h.2 content hcontent)⟩

theorem Artifacts.Keeps.refl (artifacts : Artifacts) : artifacts.Keeps artifacts := ⟨.refl _, .refl _⟩

/-- What is known of the file where a write stands. -/
def Stage.Holds {α : Type} (file : Option α) (content : α) : Stage → Prop
  | .looking => True
  | .comparing => file.isSome = true
  | .linking => True
  | .removing => file = some content

def Progress.Holds {α : Type} (file : Option α) (content : α) : Progress → Prop
  | .next stage => stage.Holds file content
  | .written => file = some content
  | .failed _ => True

theorem Stage.Holds.mono {α : Type} {file file' : Option α} {content : α} (hkeeps : Keeps file file') {stage : Stage}
    (h : stage.Holds file content) : stage.Holds file' content := by
  cases stage with
  | looking => trivial
  | comparing => exact hkeeps.isSome h
  | linking => trivial
  | removing => exact hkeeps content h

/-- A step of a write leaves the file as it is, or makes it. -/
theorem writeNewIfMissing_spec {α : Type} [DecidableEq α] {file file' : Option α} {content : α} {stage : Stage}
    {choice : Choice} {progress : Progress} (hholds : stage.Holds file content)
    (h : writeNewIfMissing file content stage choice = some (file', progress)) :
    Keeps file file' ∧ (∀ content', file' = some content' → file = some content' ∨ content' = content) ∧
      progress.Holds file' content := by
  have hsame : ∀ content', file = some content' → file = some content' ∨ content' = content := fun _ h => .inl h
  rw [writeNewIfMissing.eq_def] at h
  split at h
  · cases h
    refine ⟨.refl _, hsame, ?_⟩
    by_cases hfile : file.isSome = true
    · rw [if_pos hfile]
      exact hfile
    · rw [if_neg hfile]
      trivial
  · cases h
    exact ⟨.refl _, hsame, trivial⟩
  · split at h
    · cases hholds
    · rename_i existing
      cases h
      refine ⟨.refl _, hsame, ?_⟩
      by_cases heq : existing = content
      · rw [if_pos heq, heq]
        rfl
      · rw [if_neg heq]
        trivial
  · cases h
    exact ⟨.refl _, hsame, trivial⟩
  · split at h
    · cases h
      refine ⟨?_, ?_, rfl⟩
      · intro content' h
        cases h
      · intro content' h
        exact .inr (Option.some.inj h).symm
    · cases h
      exact ⟨.refl _, hsame, trivial⟩
  · cases h
    exact ⟨.refl _, hsame, trivial⟩
  · cases h
    exact ⟨.refl _, hsame, hholds⟩
  · cases h
    exact ⟨.refl _, hsame, trivial⟩
  · cases h

end Files

section Fetches

variable (fromSlice sha256 fromStr printable)

def Pinned (bytes : Bytes) : Prop := inspectSnapshot fromSlice sha256 bytes = .ok pinned

/-- The manifest of a fetch. -/
def manifestAt (seconds : UInt64) : SourceManifest := .new (formatUtcTimestamp seconds.toNat).toList pinned

/-- The manifest file is one of a fetch. -/
def Recorded (content : SourcesFile) : Prop :=
  ∃ seconds, content = .text (renderManifest printable (manifestAt seconds))

def Installed (artifacts : Artifacts) : Prop := ∃ bytes, artifacts.snapshot = some bytes ∧ Pinned fromSlice sha256 bytes

/-- The manifest is there and passes. -/
def Confirmed (artifacts : Artifacts) : Prop :=
  ∃ text manifest, artifacts.sources = some (.text text) ∧ parseManifest fromStr text = .ok manifest ∧
    verifyManifest manifest pinned = .ok ()

/-- What is known where a fetch stands. -/
def Pc.Holds (artifacts : Artifacts) : Pc → Prop
  | .downloading url => url = officialSourceUrl pinnedRevision
  | .auditing bytes summary => Pinned fromSlice sha256 bytes ∧ summary = pinned
  | .looking bytes summary => Pinned fromSlice sha256 bytes ∧ summary = pinned
  | .loading bytes summary => Pinned fromSlice sha256 bytes ∧ summary = pinned
  | .dating bytes summary => Pinned fromSlice sha256 bytes ∧ summary = pinned
  | .installing bytes manifest stage =>
      Pinned fromSlice sha256 bytes ∧ stage.Holds artifacts.snapshot bytes ∧
        (∀ known ∈ manifest, ∃ seconds, known = manifestAt seconds) ∧
        (manifest = none → Confirmed fromStr artifacts)
  | .recording content stage =>
      Recorded printable content ∧ stage.Holds artifacts.sources content ∧ Installed fromSlice sha256 artifacts
  | .ended (.ok ()) =>
      Installed fromSlice sha256 artifacts ∧
        (Confirmed fromStr artifacts ∨ ∃ content, artifacts.sources = some content ∧ Recorded printable content)
  | .ended (.error _) => True

/-- The manifest is the one from the start, or of a fetch. -/
def Audited (sources : Option SourcesFile) (artifacts : Artifacts) : Prop :=
  ∀ content, artifacts.sources = some content → sources = some content ∨ Recorded printable content

variable {fromSlice sha256 fromStr printable}

theorem Installed.mono {artifacts artifacts' : Artifacts} (hkeeps : artifacts.Keeps artifacts')
    (h : Installed fromSlice sha256 artifacts) : Installed fromSlice sha256 artifacts' := by
  obtain ⟨bytes, hbytes, hpinned⟩ := h
  exact ⟨bytes, hkeeps.1 bytes hbytes, hpinned⟩

theorem Confirmed.mono {artifacts artifacts' : Artifacts} (hkeeps : artifacts.Keeps artifacts')
    (h : Confirmed fromStr artifacts) : Confirmed fromStr artifacts' := by
  obtain ⟨text, manifest, htext, hmanifest⟩ := h
  exact ⟨text, manifest, hkeeps.2 _ htext, hmanifest⟩

/-- The files only grow, so that one fetch does not disturb another. -/
theorem Pc.Holds.mono {artifacts artifacts' : Artifacts} (hkeeps : artifacts.Keeps artifacts') {pc : Pc}
    (h : pc.Holds fromSlice sha256 fromStr printable artifacts) : pc.Holds fromSlice sha256 fromStr printable artifacts' := by
  match pc with
  | .downloading _ => exact h
  | .auditing _ _ => exact h
  | .looking _ _ => exact h
  | .loading _ _ => exact h
  | .dating _ _ => exact h
  | .installing _ _ _ => exact ⟨h.1, h.2.1.mono hkeeps.1, h.2.2.1, fun hnone => (h.2.2.2 hnone).mono hkeeps⟩
  | .recording _ _ => exact ⟨h.1, h.2.1.mono hkeeps.2, h.2.2.mono hkeeps⟩
  | .ended (.ok ()) =>
      refine ⟨h.1.mono hkeeps, h.2.imp (Confirmed.mono hkeeps) ?_⟩
      rintro ⟨text, htext, hrecorded⟩
      exact ⟨text, hkeeps.2 text htext, hrecorded⟩
  | .ended (.error _) => trivial

theorem readToString_eq_ok {action : String} {sources : Option SourcesFile} {text : Chars} :
    readToString action sources = .ok text ↔ sources = some (.text text) := by
  match sources with
  | none => exact iff_of_false (fun h => nomatch h) (fun h => nomatch h)
  | some (.other _ _) => exact iff_of_false (fun h => nomatch h) (fun h => nomatch h)
  | some (.text found) => simp [readToString]

theorem loadManifest_eq_ok {sources : Option SourcesFile} {manifest : SourceManifest} :
    loadManifest fromStr sources = .ok manifest ↔
      ∃ text, sources = some (.text text) ∧ parseManifest fromStr text = .ok manifest := by
  rw [loadManifest, bind_eq_ok]
  apply exists_congr
  intro text
  rw [readToString_eq_ok]
  apply and_congr_right
  intro _
  cases parseManifest fromStr text with
  | error error => exact iff_of_false (fun h => nomatch h) (fun h => nomatch h)
  | ok found => simp only [Except.ok.injEq]

/-- What a step of a fetch does to the files and to what is known of it. -/
theorem fetchStep_spec {initial : Option SourcesFile} {artifacts artifacts' : Artifacts} {pc pc' : Pc} {choice : Choice}
    (haudited : Audited printable initial artifacts) (hholds : pc.Holds fromSlice sha256 fromStr printable artifacts)
    (h : fetchStep fromSlice sha256 fromStr printable artifacts pc choice = some (artifacts', pc')) :
    artifacts.Keeps artifacts' ∧ Audited printable initial artifacts' ∧ pc'.Holds fromSlice sha256 fromStr printable artifacts' := by
  rw [fetchStep.eq_def] at h
  split at h
  · rename_i bytes
    split at h
    · cases h
      exact ⟨.refl _, haudited, trivial⟩
    · rename_i summary hinspect
      split at h
      · cases h
        exact ⟨.refl _, haudited, trivial⟩
      · rename_i hverify
        cases h
        obtain rfl := verifyPinnedSummary_eq_ok.mp hverify
        exact ⟨.refl _, haudited, hinspect, rfl⟩
  · cases h
    exact ⟨.refl _, haudited, trivial⟩
  · split at h
    · cases h
      exact ⟨.refl _, haudited, hholds⟩
    · split at h
      · cases h
        exact ⟨.refl _, haudited, hholds⟩
      · cases h
        exact ⟨.refl _, haudited, trivial⟩
  · cases h
    exact ⟨.refl _, haudited, trivial⟩
  · cases h
    refine ⟨.refl _, haudited, ?_⟩
    by_cases hsources : artifacts.sources.isSome = true
    · rw [if_pos hsources]
      exact hholds
    · rw [if_neg hsources]
      exact hholds
  · cases h
    exact ⟨.refl _, haudited, hholds⟩
  · obtain ⟨hpinned, rfl⟩ := hholds
    split at h
    · cases h
      exact ⟨.refl _, haudited, trivial⟩
    · rename_i manifest hload
      split at h
      · cases h
        exact ⟨.refl _, haudited, trivial⟩
      · rename_i hverify
        cases h
        obtain ⟨text, htext, hparse⟩ := loadManifest_eq_ok.mp hload
        refine ⟨.refl _, haudited, hpinned, trivial, ?_, fun _ => ⟨text, manifest, htext, hparse, hverify⟩⟩
        intro known hknown
        cases hknown
  · cases h
    exact ⟨.refl _, haudited, trivial⟩
  · rename_i seconds
    cases h
    obtain ⟨hpinned, rfl⟩ := hholds
    refine ⟨.refl _, haudited, hpinned, trivial, ?_, fun hnone => nomatch hnone⟩
    rintro known ⟨⟩
    exact ⟨seconds, rfl⟩
  · cases h
    exact ⟨.refl _, haudited, trivial⟩
  · rename_i bytes manifest stage
    obtain ⟨⟨snapshot, progress⟩, hwrite, heq⟩ := Option.map_eq_some_iff.mp h
    cases heq
    obtain ⟨hpinned, hstage, hknown, hsources⟩ := hholds
    obtain ⟨hkeeps, -, hprogress⟩ := writeNewIfMissing_spec hstage hwrite
    refine ⟨⟨hkeeps, .refl _⟩, haudited, ?_⟩
    cases progress with
    | next stage' => exact ⟨hpinned, hprogress, hknown, hsources⟩
    | written =>
        cases manifest with
        | some manifest =>
            obtain ⟨seconds, rfl⟩ := hknown manifest rfl
            exact ⟨⟨seconds, rfl⟩, trivial, bytes, hprogress, hpinned⟩
        | none => exact ⟨⟨bytes, hprogress, hpinned⟩, .inl (hsources rfl)⟩
    | failed error => trivial
  · rename_i text stage
    obtain ⟨⟨sources, progress⟩, hwrite, heq⟩ := Option.map_eq_some_iff.mp h
    cases heq
    obtain ⟨hrecorded, hstage, hinstalled⟩ := hholds
    obtain ⟨hkeeps, hnew, hprogress⟩ := writeNewIfMissing_spec hstage hwrite
    refine ⟨⟨.refl _, hkeeps⟩, ?_, ?_⟩
    · intro text' htext
      rcases hnew text' htext with hold | rfl
      · exact haudited text' hold
      · exact .inr hrecorded
    · cases progress with
      | next stage' => exact ⟨hrecorded, hprogress, hinstalled⟩
      | written => exact ⟨hinstalled, .inr ⟨text, hprogress, hrecorded⟩⟩
      | failed error => trivial
  · cases h

/-- The pinned revision is the only one that is fetched, and only from its official URL. -/
theorem resolveSourceUrl_eq_ok {arguments : FetchArguments} {url : Chars} (h : resolveSourceUrl arguments = .ok url) :
    url = officialSourceUrl pinnedRevision := by
  rw [resolveSourceUrl] at h
  obtain ⟨⟨⟩, -, h⟩ := bind_eq_ok.mp h
  by_cases hrevision : arguments.revision = pinnedRevision
  · rw [if_neg (not_not.mpr hrevision), hrevision] at h
    split at h
    · dsimp only at h
      split at h
      · cases h
      · rename_i hurl
        cases h
        exact not_not.mp hurl
    · cases h
      rfl
  · rw [if_pos hrevision] at h
    cases h

theorem stable_fetches (initial : Option SourcesFile) :
    System.Stable (system fromSlice sha256 fromStr printable) (fun _ _ => True) (fun _ => True) (Audited printable initial) (fun artifacts _ pc => pc.Holds fromSlice sha256 fromStr printable artifacts) where
  act _ _ _ hact hshared hlocal := by
    obtain ⟨⟨artifacts, pc⟩, hstep, heq⟩ := Option.map_eq_some_iff.mp hact
    cases heq
    obtain ⟨-, haudited, hholds⟩ := fetchStep_spec hshared hlocal hstep
    exact ⟨haudited, hholds, fun _ h => absurd h List.not_mem_nil⟩
  other _ _ _ hact hshared hlocal _ _ hother := by
    obtain ⟨⟨artifacts, pc⟩, hstep, heq⟩ := Option.map_eq_some_iff.mp hact
    cases heq
    exact hother.mono (fetchStep_spec hshared hlocal hstep).1
  env _ _ henv hshared := by
    cases henv
    refine ⟨hshared, fun _ _ _ h => h, ?_⟩
    intro pc hpc j
    rw [List.mem_singleton.mp hpc]
    split
    · rename_i url hurl
      exact resolveSourceUrl_eq_ok hurl
    · trivial

end Fetches

section Runs

/-- A checkout before any fetch. -/
def checkout (snapshot : Option Bytes) (sources : Option SourcesFile) : Config Artifacts Pc := ⟨⟨snapshot, sources⟩, []⟩

theorem holds_checkout (snapshot : Option Bytes) (sources : Option SourcesFile) :
    System.Holds (Audited printable sources) (fun artifacts _ pc => pc.Holds fromSlice sha256 fromStr printable artifacts)
      (checkout snapshot sources) :=
  ⟨fun _ h => .inl h, fun _ _ h => absurd h (by simp [checkout])⟩

theorem holds_run (fromSlice : Bytes → Option Value) (sha256 : Bytes → Chars) (fromStr : Chars → Option Chars)
    (printable : Char → Bool)
    (snapshot : Option Bytes) (sources : Option SourcesFile) (events : List (Event Choice FetchArguments)) :
    System.Holds (Audited printable sources) (fun artifacts _ pc => pc.Holds fromSlice sha256 fromStr printable artifacts)
      ((system fromSlice sha256 fromStr printable).run (checkout snapshot sources) events) :=
  (stable_fetches sources).preserved_self.run_free (holds_checkout snapshot sources) events

/-- A step of the system keeps the files. -/
theorem keeps_exec {sources : Option SourcesFile} {cfg : Config Artifacts Pc}
    (hholds : System.Holds (Audited printable sources)
      (fun artifacts _ pc => pc.Holds fromSlice sha256 fromStr printable artifacts) cfg) (event : Event Choice FetchArguments) :
    cfg.shared.Keeps ((system fromSlice sha256 fromStr printable).exec cfg event).shared := by
  have hmoves := (system fromSlice sha256 fromStr printable).exec_moves cfg event
  generalize (system fromSlice sha256 fromStr printable).exec cfg event = cfg' at hmoves
  cases hmoves with
  | still => exact .refl _
  | act htask hact =>
      obtain ⟨⟨artifacts, pc⟩, hstep, heq⟩ := Option.map_eq_some_iff.mp hact
      cases heq
      exact (fetchStep_spec hholds.shared (hholds.tasks _ _ htask) hstep).1
  | env henv =>
      cases henv
      exact .refl _

theorem keeps_run {sources : Option SourcesFile} {cfg : Config Artifacts Pc}
    (hholds : System.Holds (Audited printable sources)
      (fun artifacts _ pc => pc.Holds fromSlice sha256 fromStr printable artifacts) cfg)
    (events : List (Event Choice FetchArguments)) :
    cfg.shared.Keeps ((system fromSlice sha256 fromStr printable).run cfg events).shared := by
  induction events generalizing cfg with
  | nil => exact .refl _
  | cons event rest ih =>
      have hstep := (stable_fetches sources).preserved_self cfg event hholds trivial
      exact (keeps_exec hholds event).trans (ih hstep)

end Runs

section Verdicts

def isPlain (text : Chars) : Bool := text.all fun c => decide (0x20 ≤ c.toNat ∧ c.toNat < 0x7F)

theorem isPlain_fixed : ∀ text ∈ [sourceId, "openapi".toList, sourceRepository, pinnedRevision,
    officialSourceUrl pinnedRevision, "spec/upstream/openapi-2026-08-29.json".toList, pinned.sha256, "MIT".toList,
    officialLicenseUrl pinnedRevision, pinned.openapiVersion, pinned.apiVersion], isPlain text = true := by
  decide +kernel

theorem isPlain_formatUtcTimestamp (seconds : ℕ) : isPlain (formatUtcTimestamp seconds).toList = true := by
  obtain ⟨moment, -, htext, -⟩ := formatUtcTimestamp_moment seconds
  rw [htext]
  exact List.all_eq_true.mpr fun c hc => decide_eq_true ((timeText_timestamp _ _ _ _ _ _).ascii hc)

theorem kept_of_isPlain {text : Chars} (h : isPlain text = true) : ∀ c ∈ text, Quoted.Kept printable c := by
  intro c hc
  obtain ⟨hlow, hhigh⟩ := of_decide_eq_true (List.all_eq_true.mp h c hc)
  refine .inr ⟨?_, isPrintable_of_ascii printable hlow hhigh⟩
  rintro rfl
  exact absurd hlow (by decide)

theorem legible_manifestAt (seconds : UInt64) : Legible printable (manifestAt seconds) := by
  have hfixed := isPlain_fixed
  simp only [List.forall_mem_cons] at hfixed
  obtain ⟨h₁, h₂, h₃, h₄, h₅, h₆, h₇, h₈, h₉, h₁₀, h₁₁, -⟩ := hfixed
  have htime := isPlain_formatUtcTimestamp seconds.toNat
  rw [Legible, SourceManifest.texts, manifestAt, SourceManifest.new]
  simp only [List.forall_mem_cons]
  exact ⟨kept_of_isPlain h₁, kept_of_isPlain h₂, kept_of_isPlain h₃, kept_of_isPlain h₄, kept_of_isPlain h₅,
    kept_of_isPlain h₆, kept_of_isPlain htime, kept_of_isPlain h₇, kept_of_isPlain h₈, kept_of_isPlain h₉,
    kept_of_isPlain h₁₀, kept_of_isPlain h₁₁, List.forall_mem_nil _⟩

/-- A manifest of a fetch is read as it was written. -/
theorem parseManifest_manifestAt (hreads : Quoted.Reads fromStr) (seconds : UInt64) :
    parseManifest fromStr (renderManifest printable (manifestAt seconds)) = .ok (manifestAt seconds) :=
  (parseManifest_renderManifest hreads _ _).mpr ⟨rfl, rfl, legible_manifestAt seconds⟩

theorem fetchedAt_new (fetchedAt : Chars) (summary : SnapshotSummary) :
    (SourceManifest.new fetchedAt summary).fetchedAt = fetchedAt := rfl

theorem verifyManifest_manifestAt (seconds : UInt64) :
    verifyManifest (manifestAt seconds) pinned = .ok () ↔ seconds.toNat < 253402300800 := by
  rw [manifestAt, verifyManifest_eq_ok, fetchedAt_new, and_iff_right rfl]
  exact isUtc_formatUtcTimestamp seconds.toNat

theorem verifyOpenapi_eq_ok {bytes : Bytes} (hpinned : inspectSnapshot fromSlice sha256 bytes = .ok pinned)
    {sources : Option SourcesFile} :
    verifyOpenapi fromSlice sha256 fromStr ⟨some bytes, sources⟩ = .ok () ↔ Confirmed fromStr ⟨some bytes, sources⟩ := by
  have hsummary : verifyPinnedSummary pinned = .ok () := verifyPinnedSummary_eq_ok.mpr rfl
  rw [verifyOpenapi]
  simp only [bind_eq_ok, Except.ok.injEq, exists_eq_left', hpinned, hsummary, loadManifest_eq_ok]
  constructor
  · rintro ⟨-, -, manifest, ⟨text, htext, hparse⟩, hverify⟩
    exact ⟨text, manifest, htext, hparse, hverify⟩
  · rintro ⟨text, manifest, htext, hparse, hverify⟩
    exact ⟨(), trivial, manifest, ⟨text, htext, hparse⟩, hverify⟩

/-- The files of every run of fetches on a checkout. Each stays as it is once it is there, only the pinned revision is
downloaded, and behind a fetch that succeeded both files pass the checks of `verify` that stand in front of those of
the Codex runtime, unless the manifest has a year of five digits. -/
theorem fetches_write_once (hreads : Quoted.Reads fromStr) (snapshot : Option Bytes) (sources : Option SourcesFile)
    (events more : List (Event Choice FetchArguments)) :
    let fetches := system fromSlice sha256 fromStr printable
    let cfg := fetches.run (checkout snapshot sources) events
    cfg.shared.Keeps (fetches.run cfg more).shared ∧
      (∀ url, .downloading url ∈ cfg.tasks → url = officialSourceUrl pinnedRevision) ∧
      (.ended (.ok ()) ∈ cfg.tasks → ∃ bytes text, cfg.shared = ⟨some bytes, some (.text text)⟩ ∧
        inspectSnapshot fromSlice sha256 bytes = .ok pinned ∧
        (verifyOpenapi fromSlice sha256 fromStr cfg.shared = .ok () ↔
          ∀ seconds : UInt64, text = renderManifest printable (manifestAt seconds) → seconds.toNat < 253402300800)) := by
  have hholds := holds_run fromSlice sha256 fromStr printable snapshot sources events
  refine ⟨keeps_run hholds more, ?_, ?_⟩
  · intro url hmem
    obtain ⟨i, hi⟩ := List.mem_iff_getElem?.mp hmem
    exact hholds.tasks i _ hi
  · intro hmem
    obtain ⟨i, hi⟩ := List.mem_iff_getElem?.mp hmem
    obtain ⟨⟨bytes, hbytes, hpinned⟩, hsources⟩ := hholds.tasks i _ hi
    generalize ((system fromSlice sha256 fromStr printable).run (checkout snapshot sources) events).shared = files at hbytes hsources ⊢
    obtain ⟨text, htext⟩ : ∃ text, files.sources = some (.text text) := by
      rcases hsources with ⟨text, -, htext, -⟩ | ⟨content, htext, seconds, rfl⟩
      · exact ⟨text, htext⟩
      · exact ⟨_, htext⟩
    obtain ⟨snapshot', sources'⟩ := files
    obtain rfl : snapshot' = some bytes := hbytes
    obtain rfl : sources' = some (.text text) := htext
    refine ⟨bytes, text, rfl, hpinned, ?_⟩
    rw [verifyOpenapi_eq_ok hpinned]
    constructor
    · rintro ⟨text', manifest, ⟨⟩, hparse, hverify⟩ seconds rfl
      rw [parseManifest_manifestAt hreads] at hparse
      cases hparse
      exact (verifyManifest_manifestAt seconds).mp hverify
    · intro hseconds
      rcases hsources with hconfirmed | ⟨content, ⟨⟩, seconds, hrecorded⟩
      · exact hconfirmed
      · obtain rfl := SourcesFile.text.inj hrecorded
        exact ⟨_, manifestAt seconds, rfl, parseManifest_manifestAt hreads seconds,
          (verifyManifest_manifestAt seconds).mpr (hseconds seconds rfl)⟩

/-- A fetch that downloads no JSON, and a later one that is still waiting for its download. -/
def badDownload : List (Event Choice FetchArguments) :=
  [.env ⟨pinnedRevision, none⟩, .act 0 (.answer [0x78]), .env ⟨pinnedRevision, none⟩]

theorem fetches_write_once_badDownload :
    let fetches := system (fun _ => none) (fun _ => []) Quoted.readLiteral fun _ => true
    let cfg := fetches.run (checkout none none) badDownload
    cfg.shared.Keeps (fetches.run cfg badDownload).shared ∧
      ∀ url, .downloading url ∈ cfg.tasks → url = officialSourceUrl pinnedRevision := by
  have hfetches := @fetches_write_once (fun _ => none) (fun _ => []) Quoted.readLiteral (fun _ => true)
    Quoted.reads_readLiteral none none badDownload badDownload
  exact ⟨hfetches.1, hfetches.2.1⟩

/-- No line of a manifest of one source tells the version of a runtime. -/
theorem trim_ne_runtimeVersion (manifest : SourceManifest) :
    ∀ line ∈ lines (renderManifest printable manifest), trim line ≠ "runtime_version = \"0.144.5\"".toList := by
  have hassignment : ∀ entry : Entry, Key entry.1 → Bounded entry.2 → entry.1 ≠ "runtime_version".toList →
      trim (assignment entry) ≠ "runtime_version = \"0.144.5\"".toList := by
    intro entry hkey hvalue hne h
    have hsplit := splitOnce_assignment hkey
    rw [← trim_assignment hkey hvalue, h] at hsplit
    have hpair : ("runtime_version ".toList, " \"0.144.5\"".toList) = (entry.1 ++ [' '], ' ' :: entry.2) :=
      Option.some.inj hsplit
    exact hne (List.append_cancel_right (Prod.mk.inj hpair).1).symm
  have hversion : "schema_version".toList ≠ "runtime_version".toList := by decide
  obtain ⟨hkey, hvalue⟩ := schemaVersion_bounded manifest.schemaVersion.toNat
  rw [lines_renderManifest, manifestLines, List.forall_mem_append]
  constructor
  · simp only [List.forall_mem_cons]
    exact ⟨by decide, by decide, by decide,
      hassignment ("schema_version".toList, decimal manifest.schemaVersion.toNat) hkey hvalue hversion,
      by decide, by decide, List.forall_mem_nil _⟩
  · have hkeys : ∀ entry ∈ sourceEntries printable manifest, entry.1 ≠ "runtime_version".toList := by
      simp only [sourceEntries, List.forall_mem_cons]
      decide
    intro line hline
    obtain ⟨entry, hentry, rfl⟩ := List.mem_map.mp hline
    obtain ⟨hkey, hvalue⟩ := sourceEntries_bounded manifest entry hentry
    exact hassignment entry hkey hvalue (hkeys entry hentry)

theorem missingLines_ne_nil (manifest : SourceManifest) : missingLines (renderManifest printable manifest) ≠ [] := by
  have hline : "runtime_version = \"0.144.5\"".toList ∈ codexLines := by decide
  have hnone : ((lines (renderManifest printable manifest)).any fun other =>
      decide (trim other = "runtime_version = \"0.144.5\"".toList)) = false := by
    rw [List.any_eq_false]
    exact fun other hother h => trim_ne_runtimeVersion manifest other hother (of_decide_eq_true h)
  have hmem : "runtime_version = \"0.144.5\"".toList ∈ codexLines.filter fun line =>
      !(lines (renderManifest printable manifest)).any fun other => decide (trim other = line) := by
    rw [List.mem_filter, hnone]
    exact ⟨hline, rfl⟩
  intro hnil
  rw [missingLines, List.map_eq_nil_iff] at hnil
  rw [hnil] at hmem
  exact List.not_mem_nil hmem

/-- Where no manifest was in the checkout, no run of fetches leads to one that `verify` accepts: `fetch` writes no
provenance of the Codex schema, which `verify` looks for. -/
theorem verify_fetched_ne_ok (snapshot : Option Bytes) (events : List (Event Choice FetchArguments))
    (others : Except SpecError (List String)) :
    verify fromSlice sha256 fromStr others ((system fromSlice sha256 fromStr printable).run (checkout snapshot none) events).shared ≠
      .ok () := by
  have haudited := (holds_run fromSlice sha256 fromStr printable snapshot none events).shared
  generalize ((system fromSlice sha256 fromStr printable).run (checkout snapshot none) events).shared = files at haudited ⊢
  intro h
  obtain ⟨⟨⟩, -, hcodex⟩ := bind_eq_ok.mp h
  obtain ⟨problems, -, hcodex⟩ := bind_eq_ok.mp hcodex
  obtain ⟨text, htext, hresult⟩ := bind_eq_ok.mp hcodex
  obtain ⟨-, hmissing⟩ := List.append_eq_nil_iff.mp (verificationResult_eq_ok.mp hresult)
  rcases haudited _ (readToString_eq_ok.mp htext) with hnone | ⟨seconds, hrecorded⟩
  · cases hnone
  · cases hrecorded
    exact missingLines_ne_nil _ hmissing

end Verdicts

end OpenaiRs.Provenance
