import OpenaiRs.Webhooks.Verifier
import OpenaiRs.Rust.Result
import OpenaiRs.Json.Grammar

/-!
# The parts of webhook verification

One equivalence for each parser and check of the verifier: when it succeeds, and with what.
-/

namespace OpenaiRs.Webhooks

open Rust Serde

section Required

/-- Printable ASCII, with neither controls nor a tab. -/
def Printable (text : Bytes) : Prop := ∀ b ∈ text, 0x20 ≤ b ∧ b < 0x7F

theorem toStr_eq_some {value text : Bytes} :
    toStr value = some text ↔ value.all isVisibleAscii = true ∧ text = value := by
  rw [toStr]
  split
  · rename_i h
    simp [h, eq_comm]
  · rename_i h
    simp [h]

theorem printable_iff {text : Bytes} :
    Printable text ↔ text.all isVisibleAscii = true ∧ text.any isControl = false := by
  rw [List.all_eq_true, List.any_eq_false, ← forall₂_and]
  apply forall₂_congr
  intro b _
  simp only [isVisibleAscii, isControl, Bool.or_eq_true, Bool.and_eq_true, decide_eq_true_eq,
    UInt8.le_iff_toNat_le, UInt8.lt_iff_toNat_lt, ← UInt8.toNat_inj]
  simp only [show (0x20 : UInt8).toNat = 32 from rfl, show (0x7F : UInt8).toNat = 127 from rfl,
    show (0x09 : UInt8).toNat = 9 from rfl]
  omega

/-- A required header has one value, and that is a short printable text. -/
theorem requiredHeader_eq_ok {headers : HeaderMap} {name : String} {maxBytes : Nat} {text : Bytes} :
    requiredHeader headers name maxBytes = .ok text ↔
      getAll headers name = [text] ∧ text ≠ [] ∧ text.length ≤ maxBytes ∧ Printable text := by
  rw [requiredHeader]
  split
  · rename_i value hvalues
    rw [hvalues, List.cons.injEq, printable_iff]
    simp only [and_true]
    split
    · rename_i hstr
      rw [toStr] at hstr
      constructor
      · intro h
        cases h
      · rintro ⟨rfl, -, -, hvisible, -⟩
        rw [if_pos hvisible] at hstr
        cases hstr
    · rename_i text' hstr
      obtain ⟨hvisible, rfl⟩ := toStr_eq_some.mp hstr
      split
      · rename_i hinvalid
        simp only [Bool.or_eq_true, List.isEmpty_iff, decide_eq_true_eq] at hinvalid
        constructor
        · intro h
          cases h
        · rintro ⟨rfl, hne, hlength, -, hcontrol⟩
          obtain (hnil | hlong) | hany := hinvalid
          · exact absurd hnil hne
          · exact absurd hlength (Nat.not_le.mpr hlong)
          · rw [hcontrol] at hany
            cases hany
      · rename_i hvalid
        simp only [Bool.or_eq_true, List.isEmpty_iff, decide_eq_true_eq, not_or, Nat.not_lt,
          Bool.not_eq_true] at hvalid
        constructor
        · intro h
          cases h
          exact ⟨rfl, hvalid.1.1, hvalid.1.2, hvisible, hvalid.2⟩
        · rintro ⟨rfl, -⟩
          rfl
  · rename_i hvalues
    constructor
    · intro h
      cases h
    · rintro ⟨hsingle, -⟩
      exact absurd hsingle (hvalues text)

end Required

section Joined

/-- Values joined by single spaces, once a first one is not empty. -/
def joinSpaces (values : List Bytes) : Bytes := [space].intercalate (values.dropWhile List.isEmpty)

theorem intercalate_space (value : Bytes) (rest : List Bytes) :
    [space].intercalate (value :: rest) = value ++ rest.flatMap (space :: ·) := by
  induction rest generalizing value with
  | nil => simp
  | cons next rest ih => rw [List.intercalate_cons_cons, ih, List.flatMap_cons]; simp

theorem joinValues_nonempty {name : String} {maxBytes : Nat} (hmax : maxBytes < usizeSize - 1)
    {joined text : Bytes} (values : List Bytes) (hne : joined ≠ [])
    (hlength : joined.length ≤ maxBytes) :
    joinValues name maxBytes joined values = .ok text ↔
      (∀ value ∈ values, value.all isVisibleAscii = true) ∧
        text = joined ++ values.flatMap (space :: ·) ∧ text.length ≤ maxBytes := by
  have hempty : joined.isEmpty = false := by simpa using hne
  induction values generalizing joined with
  | nil =>
      rw [joinValues, hempty]
      constructor
      · intro h
        cases h
        exact ⟨by simp, by simp, hlength⟩
      · rintro ⟨-, rfl, -⟩
        simp
  | cons value rest ih =>
      rw [joinValues, hempty, toStr, List.forall_mem_cons]
      by_cases hvisible : value.all isVisibleAscii = true
      · rw [if_pos hvisible]
        simp only [Bool.false_eq_true, if_false, saturatingAdd_gt_iff hmax]
        split
        · rename_i hlong
          constructor
          · intro h
            cases h
          · rintro ⟨-, rfl, hfits⟩
            simp only [List.length_append, List.flatMap_cons, List.length_cons,
              List.length_nil] at hlong hfits
            omega
        · rename_i hfits
          have hfits' : (joined ++ [space] ++ value).length ≤ maxBytes := by
            rw [List.length_append]
            omega
          have hrest := ih (show joined ++ [space] ++ value ≠ [] by simp) hfits' (by simp)
          simpa [hvisible] using hrest
      · rw [if_neg hvisible]
        constructor
        · intro h
          cases h
        · rintro ⟨⟨h, -⟩, -⟩
          exact absurd h hvisible

theorem joinValues_empty {name : String} {maxBytes : Nat} (hmax : maxBytes < usizeSize - 1)
    {text : Bytes} (values : List Bytes) :
    joinValues name maxBytes [] values = .ok text ↔
      (∀ value ∈ values, value.all isVisibleAscii = true) ∧
        text = joinSpaces values ∧ text ≠ [] ∧ text.length ≤ maxBytes := by
  induction values with
  | nil =>
      rw [joinValues]
      constructor
      · intro h
        cases h
      · rintro ⟨-, rfl, hne, -⟩
        exact absurd rfl hne
  | cons value rest ih =>
      rw [List.forall_mem_cons]
      cases value with
      | nil =>
          have hskip : joinValues name maxBytes [] ([] :: rest) = joinValues name maxBytes [] rest := by
            rw [joinValues]
            simp [toStr, saturatingAdd]
          rw [hskip, ih]
          simp [joinSpaces]
      | cons b value =>
          have hjoin : joinSpaces ((b :: value) :: rest) = (b :: value) ++ rest.flatMap (space :: ·) := by
            rw [joinSpaces, List.dropWhile_cons_of_neg (by simp), intercalate_space]
          rw [joinValues, toStr, hjoin]
          by_cases hvisible : (b :: value).all isVisibleAscii = true
          · rw [if_pos hvisible]
            simp only [List.isEmpty_nil, if_true, saturatingAdd_gt_iff hmax, List.length_nil,
              Nat.zero_add, List.nil_append]
            split
            · rename_i hlong
              constructor
              · intro h
                cases h
              · rintro ⟨-, rfl, -, hfits⟩
                rw [List.length_append] at hfits
                omega
            · rename_i hfits
              rw [joinValues_nonempty hmax rest (by simp) (Nat.not_lt.mp hfits)]
              constructor
              · rintro ⟨hrest, rfl, hlength⟩
                exact ⟨⟨hvisible, hrest⟩, rfl, by simp, hlength⟩
              · rintro ⟨⟨-, hrest⟩, htext, -, hlength⟩
                exact ⟨hrest, htext, hlength⟩
          · rw [if_neg hvisible]
            constructor
            · intro h
              cases h
            · rintro ⟨⟨h, -⟩, -⟩
              exact absurd h hvisible

/-- Values that fit but hold other bytes are an invalid header. -/
theorem joinValues_invisible {name : String} {maxBytes : Nat} (hmax : maxBytes < usizeSize - 1)
    {joined : Bytes} {values : List Bytes} (hne : joined ≠ [])
    (hinvisible : ¬ ∀ value ∈ values, value.all isVisibleAscii = true)
    (hfits : (joined ++ values.flatMap (space :: ·)).length ≤ maxBytes) :
    joinValues name maxBytes joined values = .error (.invalidHeader name) := by
  have hempty : joined.isEmpty = false := by simpa using hne
  induction values generalizing joined with
  | nil => exact absurd (by simp) hinvisible
  | cons value rest ih =>
      rw [joinValues, hempty, toStr]
      by_cases hvisible : value.all isVisibleAscii = true
      · have hrest : ¬ ∀ value ∈ rest, value.all isVisibleAscii = true :=
          fun h => hinvisible (List.forall_mem_cons.mpr ⟨hvisible, h⟩)
        have hlength : ¬ maxBytes < (joined ++ [space]).length + value.length := by
          simp only [List.length_append, List.flatMap_cons, List.length_cons,
            List.length_nil] at hfits ⊢
          omega
        simp only [hvisible, if_true, Bool.false_eq_true, if_false, saturatingAdd_gt_iff hmax, hlength]
        exact ih (by simp) hrest (by simpa using hfits) (by simp)
      · rw [if_neg hvisible]

theorem joinValues_empty_invisible {name : String} {maxBytes : Nat} (hmax : maxBytes < usizeSize - 1)
    {values : List Bytes} (hinvisible : ¬ ∀ value ∈ values, value.all isVisibleAscii = true)
    (hfits : (joinSpaces values).length ≤ maxBytes) :
    joinValues name maxBytes [] values = .error (.invalidHeader name) := by
  induction values with
  | nil => exact absurd (by simp) hinvisible
  | cons value rest ih =>
      cases value with
      | nil =>
          have hrest : ¬ ∀ value ∈ rest, value.all isVisibleAscii = true :=
            fun h => hinvisible (List.forall_mem_cons.mpr ⟨rfl, h⟩)
          rw [joinSpaces, List.dropWhile_cons_of_pos (by rfl)] at hfits
          rw [joinValues, ← ih hrest hfits]
          simp [toStr, saturatingAdd]
      | cons b value =>
          rw [joinSpaces, List.dropWhile_cons_of_neg (by simp), intercalate_space] at hfits
          rw [joinValues, toStr]
          by_cases hvisible : (b :: value).all isVisibleAscii = true
          · have hrest : ¬ ∀ value ∈ rest, value.all isVisibleAscii = true :=
              fun h => hinvisible (List.forall_mem_cons.mpr ⟨hvisible, h⟩)
            have hlength : ¬ maxBytes < (b :: value).length := by
              rw [List.length_append] at hfits
              omega
            simp only [hvisible, if_true, List.isEmpty_nil, saturatingAdd_gt_iff hmax, List.length_nil,
              Nat.zero_add, hlength, if_false, List.nil_append]
            exact joinValues_invisible hmax (by simp) hrest hfits
          · rw [if_neg hvisible]

end Joined

section Candidates

theorem words_append {b : UInt8} (hb : isAsciiWhitespace b = true) (word text rest : Bytes) :
    words word (text ++ b :: rest) = words word text ++ words [] rest := by
  induction text generalizing word with
  | nil =>
      simp only [List.nil_append, words, hb, if_true]
      split <;> rfl
  | cons c text ih =>
      rw [List.cons_append, words, words]
      split
      · split
        · exact ih []
        · rw [ih, List.cons_append]
      · exact ih (word ++ [c])

/-- The candidates of all values of the signature header. -/
def candidates (values : List Bytes) : List Bytes := values.flatMap splitAsciiWhitespace

/-- The words of a text hold its bytes other than white space. -/
theorem forall_words {p : UInt8 → Prop} (word text : Bytes) :
    (∀ candidate ∈ words word text, ∀ b ∈ candidate, p b) ↔
      (∀ b ∈ word, p b) ∧ ∀ b ∈ text, isAsciiWhitespace b = false → p b := by
  induction text generalizing word with
  | nil =>
      rw [words]
      cases word <;> simp
  | cons c text ih =>
      rw [words, List.forall_mem_cons]
      by_cases hspace : isAsciiWhitespace c = true
      · rw [if_pos hspace]
        cases word with
        | nil => simp [ih, hspace]
        | cons b word => simp [ih, hspace]
      · rw [if_neg hspace, ih, List.forall_mem_append, List.forall_mem_singleton]
        simp only [Bool.not_eq_true] at hspace
        simp only [hspace, forall_const]
        exact and_assoc

theorem split_flatMap_space (value : Bytes) (rest : List Bytes) :
    splitAsciiWhitespace (value ++ rest.flatMap (space :: ·)) = candidates (value :: rest) := by
  induction rest generalizing value with
  | nil => simp [candidates]
  | cons next rest ih =>
      rw [List.flatMap_cons, List.cons_append, splitAsciiWhitespace, words_append (by decide)]
      have hnext := ih next
      rw [splitAsciiWhitespace] at hnext
      rw [hnext]
      rfl

/-- The white space of a header value is visible. -/
theorem visible_of_whitespace {b : UInt8} (hheader : isHeaderByte b = true)
    (hspace : isAsciiWhitespace b = true) : isVisibleAscii b = true := by
  simp only [isAsciiWhitespace, Bool.or_eq_true, decide_eq_true_eq] at hspace
  obtain (((rfl | rfl) | rfl) | rfl) | rfl := hspace
  · rfl
  · rfl
  · exact absurd hheader (by decide)
  · exact absurd hheader (by decide)
  · exact absurd hheader (by decide)

theorem getAll_valid {headers : HeaderMap} {name : String} {value : Bytes}
    (h : value ∈ getAll headers name) : ∀ b ∈ value, isHeaderByte b = true := by
  rw [getAll, List.mem_filterMap] at h
  obtain ⟨line, -, hline⟩ := h
  split at hline
  · cases hline
    exact List.all_eq_true.mp line.2.valid
  · cases hline

/-- Whether the values of a header are visible is seen from their candidates. -/
theorem visible_iff_candidates (headers : HeaderMap) (name : String) :
    (∀ value ∈ getAll headers name, value.all isVisibleAscii = true) ↔
      ∀ candidate ∈ candidates (getAll headers name), ∀ b ∈ candidate, isVisibleAscii b = true := by
  rw [candidates]
  simp only [List.mem_flatMap, forall_exists_index, and_imp]
  rw [forall_comm]
  constructor
  · intro h value candidate hvalue
    exact (forall_words [] value).mpr ⟨by simp, fun b hmem _ =>
      List.all_eq_true.mp (h value hvalue) b hmem⟩ candidate
  · intro h value hvalue
    rw [List.all_eq_true]
    intro b hmem
    by_cases hspace : isAsciiWhitespace b = true
    · exact visible_of_whitespace (getAll_valid hvalue b hmem) hspace
    · exact ((forall_words [] value).mp fun candidate hcandidate =>
        h value candidate hvalue hcandidate).2 b hmem (by simpa using hspace)

/-- Joining the values keeps their candidates. -/
theorem split_joinSpaces (values : List Bytes) :
    splitAsciiWhitespace (joinSpaces values) = candidates values := by
  induction values with
  | nil => rfl
  | cons value rest ih =>
      cases value with
      | nil =>
          rw [joinSpaces, List.dropWhile_cons_of_pos (by rfl)]
          exact ih
      | cons b value =>
          rw [joinSpaces, List.dropWhile_cons_of_neg (by simp), intercalate_space,
            split_flatMap_space]

end Candidates

section Tags

theorem foldl_or_eq_zero (pairs : List (UInt8 × UInt8)) (start : UInt8) :
    pairs.foldl (fun difference bytes => difference ||| (bytes.1 ^^^ bytes.2)) start = 0 ↔
      start = 0 ∧ ∀ pair ∈ pairs, pair.1 = pair.2 := by
  induction pairs generalizing start with
  | nil => simp
  | cons pair rest ih =>
      rw [List.foldl_cons, ih, List.forall_mem_cons, UInt8.or_eq_zero_iff, UInt8.xor_eq_zero_iff,
        and_assoc]

theorem forall_mem_zip_eq {xs ys : Bytes} (hlength : xs.length = ys.length) :
    (∀ pair ∈ xs.zip ys, pair.1 = pair.2) ↔ xs = ys := by
  induction xs generalizing ys with
  | nil =>
      cases ys with
      | nil => simp
      | cons y ys => cases hlength
  | cons x xs ih =>
      cases ys with
      | nil => cases hlength
      | cons y ys =>
          rw [List.zip_cons_cons, List.forall_mem_cons, List.cons.injEq, ih (by simpa using hlength)]

/-- The folded difference vanishes for equal tags only. -/
theorem difference_eq_zero {expected candidate : Tag} :
    difference expected candidate = 0 ↔ candidate = expected := by
  rw [difference, foldl_or_eq_zero, forall_mem_zip_eq (by simp), Vector.toList_inj]
  simp [eq_comm]

/-- The selected candidate is the expected tag, if it is among the candidates. -/
theorem selectSignature_eq (expected : Tag) (signatures : List Tag) :
    selectSignature expected signatures = if expected ∈ signatures then some expected else none := by
  have hloop : ∀ selected : Option Tag, signatures.foldl (fun selected signature =>
      if difference expected signature = 0 then some signature else selected) selected =
        if expected ∈ signatures then some expected else selected := by
    induction signatures with
    | nil => simp
    | cons signature rest ih =>
        intro selected
        rw [List.foldl_cons, ih]
        by_cases hrest : expected ∈ rest
        · simp [hrest]
        · by_cases heq : signature = expected
          · simp [difference_eq_zero, heq]
          · simp [difference_eq_zero, heq, hrest, Ne.symm heq]
  exact hloop none

variable {Event : Type} (crates : Crates Event)

/-- A candidate stands for a tag if it decodes to it, behind an optional version. -/
def Signs (candidate : Bytes) (tag : Tag) : Prop :=
  crates.base64 ((stripText (utf8 "v1,") candidate).getD candidate) = some tag.toList

theorem decodeCandidate_eq_some {candidate : Bytes} {tag : Tag} :
    decodeCandidate crates candidate = some tag ↔ Signs crates candidate tag := by
  rw [decodeCandidate, Signs]
  cases crates.base64 ((stripText (utf8 "v1,") candidate).getD candidate) with
  | none => simp
  | some decoded =>
      by_cases hlength : decoded.length = 32
      · simp only [hlength, dite_true, Option.some.injEq]
        constructor
        · rintro rfl
          simp
        · rintro rfl
          exact Vector.toArray_inj.mp Array.toArray_toList
      · simp only [hlength, dite_false, Option.some.injEq, reduceCtorEq, false_iff]
        rintro rfl
        exact hlength tag.length_toList

theorem decodeSignatures_eq_ok {header : Bytes} {signatures : List Tag} :
    decodeSignatures crates header = .ok signatures ↔
      signatures = (splitAsciiWhitespace header).filterMap (decodeCandidate crates) ∧
        signatures ≠ [] := by
  rw [decodeSignatures]
  split
  · rename_i hempty
    rw [List.isEmpty_iff] at hempty
    simp [hempty]
  · rename_i hempty
    rw [List.isEmpty_iff] at hempty
    simp only [Except.ok.injEq]
    constructor
    · rintro rfl
      exact ⟨rfl, hempty⟩
    · exact fun h => h.1.symm

/-- The signing key of a secret: base64 behind `whsec_`, the secret itself otherwise. -/
def SigningKey (secret key : Bytes) : Prop :=
  key ≠ [] ∧
    ((∃ encoded, stripText (utf8 "whsec_") secret = some encoded ∧ crates.base64 encoded = some key) ∨
      (stripText (utf8 "whsec_") secret = none ∧ key = secret))

theorem decodeSecret_eq_ok {secret key : Bytes} :
    decodeSecret crates secret = .ok key ↔ SigningKey crates secret key := by
  rw [decodeSecret, SigningKey]
  cases hstrip : stripText (utf8 "whsec_") secret with
  | none =>
      by_cases hempty : secret = []
      · simp [hempty]
      · simp only [List.isEmpty_iff, hempty, if_false, Except.ok.injEq]
        constructor
        · rintro rfl
          exact ⟨hempty, .inr ⟨trivial, rfl⟩⟩
        · rintro ⟨-, ⟨_, h, -⟩ | ⟨-, h⟩⟩
          · cases h
          · exact h.symm
  | some encoded =>
      have hne : secret ≠ [] := by
        rintro rfl
        cases hstrip
      simp only [List.isEmpty_iff, hne, if_false, Option.some.injEq, exists_eq_left', reduceCtorEq,
        false_and, or_false]
      cases crates.base64 encoded with
      | none => simp
      | some decoded =>
          by_cases hempty : decoded = []
          · simp only [hempty, if_true, Option.some.injEq, reduceCtorEq, false_iff, not_and]
            exact fun hkey h => hkey h.symm
          · simp only [hempty, if_false, Except.ok.injEq, Option.some.injEq]
            constructor
            · rintro rfl
              exact ⟨hempty, rfl⟩
            · exact And.right

/-- A verifier is only built for a secret with a signing key. -/
theorem new_eq_ok {secret : Bytes} {v : WebhookVerifier} :
    WebhookVerifier.new crates secret = .ok v ↔ (∃ key, SigningKey crates secret key) ∧
      v = ⟨secret, WebhookVerifier.defaultTolerance, WebhookVerifier.defaultMaxPayloadBytes⟩ := by
  have hdecode : WebhookVerifier.new crates secret = .ok v ↔ (∃ key, decodeSecret crates secret = .ok key) ∧
      v = ⟨secret, WebhookVerifier.defaultTolerance, WebhookVerifier.defaultMaxPayloadBytes⟩ := by
    rw [WebhookVerifier.new]
    split
    · rename_i hempty
      simp [decodeSecret, hempty]
    · rw [bind_eq_ok]
      constructor
      · rintro ⟨key, hkey, h⟩
        exact ⟨⟨key, hkey⟩, (Except.ok.inj h).symm⟩
      · rintro ⟨⟨key, hkey⟩, rfl⟩
        exact ⟨key, hkey, rfl⟩
  simp only [hdecode, decodeSecret_eq_ok]

end Tags

end OpenaiRs.Webhooks
