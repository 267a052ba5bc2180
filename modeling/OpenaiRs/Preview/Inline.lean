import OpenaiRs.Rust.Str
import OpenaiRs.Text.Bodies

/-!
# Inline redaction

`redact_inline` of `openai-rs-client/src/error.rs`: six passes over a text, each of which replaces every
occurrence of one prefix with the secret behind it.

## Implementation notes

A string is the list of its characters, and offsets count characters.
-/

namespace OpenaiRs.Preview

open Text

section Definitions

/-- `char::is_whitespace`: the characters with the Unicode property `White_Space`. -/
def isWhitespace (c : Char) : Bool :=
  (0x09 ≤ c.toNat && c.toNat ≤ 0x0D) || c.toNat = 0x20 || c.toNat = 0x85 || c.toNat = 0xA0 ||
    c.toNat = 0x1680 || (0x2000 ≤ c.toNat && c.toNat ≤ 0x200A) || c.toNat = 0x2028 ||
    c.toNat = 0x2029 || c.toNat = 0x202F || c.toNat = 0x205F || c.toNat = 0x3000

/-- A character that ends a secret. -/
def endsSecret (c : Char) : Bool := isWhitespace c || "\"',;<>&".toList.contains c

def redacted : List Char := "[REDACTED]".toList

/-- What a secret stands behind. -/
structure Marker where
  name : String
  nonempty : name.toList ≠ []

def Marker.text (m : Marker) : List Char := m.name.toList

theorem Marker.text_ne_nil (m : Marker) : m.text ≠ [] := m.nonempty

def bearerUpper : Marker := ⟨"Bearer ", by decide⟩
def bearerLower : Marker := ⟨"bearer ", by decide⟩
def skKey : Marker := ⟨"sk-", by decide⟩
def sessKey : Marker := ⟨"sess-", by decide⟩
def apiKeyEq : Marker := ⟨"api_key=", by decide⟩
def tokenEq : Marker := ⟨"token=", by decide⟩

/-- `PREFIXES`. -/
def prefixes : List Marker := [bearerUpper, bearerLower, skKey, sessKey, apiKeyEq, tokenEq]

/-- `str::find`: the offset of the first occurrence. -/
def find (pattern : List Char) : List Char → Option ℕ
  | [] => if pattern.isEmpty then some 0 else none
  | c :: rest =>
      if pattern.isPrefixOf (c :: rest) then some 0 else (find pattern rest).map (· + 1)

theorem find_lt {pattern text : List Char} {offset : ℕ} (hpattern : pattern ≠ [])
    (h : find pattern text = some offset) : offset < text.length := by
  induction text generalizing offset with
  | nil => simp [find, hpattern] at h
  | cons c rest ih =>
      rw [find] at h
      split at h
      · cases h
        exact Nat.zero_lt_succ _
      · obtain ⟨offset', hfind, rfl⟩ := Option.map_eq_some_iff.mp h
        exact Nat.succ_lt_succ (ih hfind)

/-- The loop for one prefix, over the output and the offset to search from. -/
def redactFrom (m : Marker) (output : List Char) (searchFrom : ℕ) : List Char :=
  match _h : find m.text (output.drop searchFrom) with
  | none => output
  | some relativeStart =>
      let start := searchFrom + relativeStart
      let secretStart := start + m.text.length
      let secretLen :=
        ((output.drop secretStart).findIdx? endsSecret).getD (output.length - secretStart)
      let secretEnd := secretStart + secretLen
      redactFrom m (output.take start ++ redacted ++ output.drop secretEnd) (start + redacted.length)
termination_by output.length - searchFrom
decreasing_by
  have hfound := find_lt m.text_ne_nil _h
  have hpos := List.length_pos_of_ne_nil m.text_ne_nil
  simp only [List.length_append, List.length_take, List.length_drop] at hfound ⊢
  omega

def redactChars (input : List Char) : List Char :=
  prefixes.foldl (fun output m => redactFrom m output 0) input

def redactInline (input : String) : String := String.ofList (redactChars input.toList)

end Definitions

section Loop

variable {m : Marker}

theorem find_marker (m : Marker) (text : List Char) : find m.text (m.text ++ text) = some 0 := by
  obtain ⟨c, rest, hm⟩ := List.exists_cons_of_ne_nil m.text_ne_nil
  rw [hm, List.cons_append, find, if_pos]
  rw [List.isPrefixOf_iff_prefix, ← List.cons_append]
  exact List.prefix_append _ _

theorem drop_secret (text : List Char) :
    text.drop ((text.findIdx? endsSecret).getD text.length) = afterBody endsSecret text := by
  induction text with
  | nil => rfl
  | cons c rest ih =>
      rw [List.findIdx?_cons, afterBody, List.dropWhile_cons]
      by_cases hc : endsSecret c = true
      · simp [hc]
      · rw [if_neg hc, if_pos (by simpa using hc), ← afterBody, ← ih]
        cases rest.findIdx? endsSecret <;> rfl

theorem redactFrom_none {output : List Char} {searchFrom : ℕ}
    (h : find m.text (output.drop searchFrom) = none) : redactFrom m output searchFrom = output := by
  rw [redactFrom]
  split
  · rfl
  · rename_i heq
    cases h.symm.trans heq

theorem redactFrom_some {output : List Char} {searchFrom relativeStart : ℕ}
    (h : find m.text (output.drop searchFrom) = some relativeStart) :
    redactFrom m output searchFrom =
      redactFrom m
        (output.take (searchFrom + relativeStart) ++ redacted ++
          output.drop (searchFrom + relativeStart + m.text.length +
            ((output.drop (searchFrom + relativeStart + m.text.length)).findIdx? endsSecret).getD
              (output.length - (searchFrom + relativeStart + m.text.length))))
        (searchFrom + relativeStart + redacted.length) := by
  rw [redactFrom]
  split
  · rename_i heq
    cases h.symm.trans heq
  · rename_i heq
    cases h.symm.trans heq
    rfl

/-- Without an occurrence at the offset the search goes on behind the next character. -/
theorem redactFrom_skip {done : List Char} {c : Char} {rest : List Char} (h : ¬ m.text <+: c :: rest) :
    redactFrom m (done ++ c :: rest) done.length =
      redactFrom m (done ++ c :: rest) (done.length + 1) := by
  have hfind : find m.text ((done ++ c :: rest).drop done.length) = (find m.text rest).map (· + 1) := by
    rw [List.drop_left, find, if_neg (by simpa using h)]
  have hnext : (done ++ c :: rest).drop (done.length + 1) = rest := by
    rw [← List.drop_drop, List.drop_left]
    rfl
  cases hrest : find m.text rest with
  | none =>
      rw [hrest] at hfind
      rw [redactFrom_none hfind, redactFrom_none (by rw [hnext, hrest])]
  | some offset =>
      rw [hrest, Option.map_some] at hfind
      have hlater : find m.text ((done ++ c :: rest).drop (done.length + 1)) = some offset := by
        rw [hnext, hrest]
      have hshift : done.length + (offset + 1) = done.length + 1 + offset := by omega
      rw [redactFrom_some hfind, redactFrom_some hlater, hshift]

/-- An occurrence at the offset is replaced with its secret. -/
theorem redactFrom_marker (done text : List Char) :
    redactFrom m (done ++ (m.text ++ text)) done.length =
      redactFrom m ((done ++ redacted) ++ afterBody endsSecret text) (done ++ redacted).length := by
  have hfind : find m.text ((done ++ (m.text ++ text)).drop done.length) = some 0 := by
    rw [List.drop_left]
    exact find_marker m text
  have hsecret : (done ++ (m.text ++ text)).drop (done.length + m.text.length) = text := by
    rw [← List.drop_drop, List.drop_left, List.drop_left]
  have hlength : (done ++ (m.text ++ text)).length - (done.length + m.text.length) = text.length := by
    rw [List.length_append, List.length_append]
    omega
  have hend : (done ++ (m.text ++ text)).drop (done.length + m.text.length +
      (text.findIdx? endsSecret).getD text.length) = afterBody endsSecret text := by
    rw [← List.drop_drop, hsecret, drop_secret]
  rw [redactFrom_some hfind, Nat.add_zero, hsecret, hlength, hend, List.take_left, List.length_append]

/-- The loop is a pass over the text behind the offset. -/
theorem redactFrom_eq (m : Marker) (text done : List Char) :
    redactFrom m (done ++ text) done.length =
      done ++ replaceBodies m.text redacted endsSecret text := by
  induction text using bodies_induction endsSecret m.text_ne_nil generalizing done with
  | hnil =>
      rw [replaceBodies]
      apply redactFrom_none
      rw [List.drop_left, find, if_neg (by simpa using m.text_ne_nil)]
  | hbody text ih =>
      rw [redactFrom_marker, ih, replaceBodies_lead m.text_ne_nil, List.append_assoc]
  | hcons c rest hmatch ih =>
      have hnext := ih (done ++ [c])
      rw [List.append_assoc, List.singleton_append, List.length_append, List.length_singleton] at hnext
      rw [redactFrom_skip hmatch, hnext, replaceBodies_cons redacted endsSecret hmatch, List.append_assoc,
        List.singleton_append]

/-- The pass for one prefix. -/
def redactPass (m : Marker) : List Char → List Char := replaceBodies m.text redacted endsSecret

theorem redactChars_eq (input : List Char) :
    redactChars input = prefixes.foldl (fun output m => redactPass m output) input := by
  have hpass : (fun output m => redactFrom m output 0) = fun output m => redactPass m output := by
    funext output m
    exact redactFrom_eq m output []
  rw [redactChars, hpass]

end Loop

section Clean

variable {m other : Marker}

theorem redacted_ne_nil : redacted ≠ [] := by decide

theorem foreign_redacted (hm : m ∈ prefixes) : Foreign redacted m.text := by
  have hmark : redacted = "[REDACTED".toList ++ [']'] := by decide
  have hfacts : ∀ m ∈ prefixes, ']' ∉ m.text ∧ ¬ m.text <:+: "[REDACTED".toList ∧ '[' ∉ m.text := by
    decide
  obtain ⟨hlast, hpart, hfirst⟩ := hfacts m hm
  rw [hmark]
  refine foreign_of_last hlast hpart ?_
  intro c hc
  have hhead : ("[REDACTED".toList ++ [']']).head? = some '[' := by decide
  cases hhead.symm.trans hc
  exact hfirst

/-- Passes keep a text free of a prefix. -/
theorem not_infix_foldl (ms : List Marker) (hother : other ∈ prefixes) {text : List Char}
    (h : ¬ other.text <:+: text) :
    ¬ other.text <:+: ms.foldl (fun output m => redactPass m output) text := by
  induction ms generalizing text with
  | nil => exact h
  | cons m ms ih =>
      refine ih ?_
      exact fun hin => h (infix_of_replaceBodies m.text_ne_nil redacted_ne_nil (foreign_redacted hother) hin)

theorem not_infix_passes (ms : List Marker) (hms : ∀ m ∈ ms, m ∈ prefixes) (hm : m ∈ ms)
    (text : List Char) : ¬ m.text <:+: ms.foldl (fun output m => redactPass m output) text := by
  induction ms generalizing text with
  | nil => cases hm
  | cons first ms ih =>
      have hrest : ∀ m ∈ ms, m ∈ prefixes := fun m hm => hms m (List.mem_cons_of_mem _ hm)
      obtain rfl | hm := List.mem_cons.mp hm
      · refine not_infix_foldl ms (hms m List.mem_cons_self) ?_
        exact not_infix_replaceBodies m.text_ne_nil redacted_ne_nil
          (foreign_redacted (hms m List.mem_cons_self)) text
      · exact ih hrest hm _

theorem not_infix_redactChars (hm : m ∈ prefixes) (input : List Char) :
    ¬ m.text <:+: redactChars input := by
  rw [redactChars_eq]
  exact not_infix_passes prefixes (fun _ h => h) hm input

/-- A text without any of the prefixes stays as it is. -/
theorem foldl_eq_self (ms : List Marker) {text : List Char} (h : ∀ m ∈ ms, ¬ m.text <:+: text) :
    ms.foldl (fun output m => redactPass m output) text = text := by
  induction ms with
  | nil => rfl
  | cons m ms ih =>
      have hfirst : redactPass m text = text := replaceBodies_eq_self m.text_ne_nil (h m List.mem_cons_self)
      rw [List.foldl_cons, hfirst]
      exact ih fun m hm => h m (List.mem_cons_of_mem _ hm)

theorem redactChars_redactChars (input : List Char) :
    redactChars (redactChars input) = redactChars input := by
  rw [redactChars_eq (redactChars input)]
  exact foldl_eq_self prefixes fun m hm => not_infix_redactChars hm input

end Clean

end OpenaiRs.Preview
