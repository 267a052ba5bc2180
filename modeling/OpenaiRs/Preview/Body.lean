import OpenaiRs.Preview.Inline
import OpenaiRs.Rust.Lossy
import OpenaiRs.Serde.Value
import Mathlib.Algebra.GroupWithZero.Nat

/-!
# Body previews

`BodyPreview::from_bytes` of `openai-rs-client/src/error.rs`: the start of a response body, redacted by the
structure of its JSON where it is JSON and as a text where it is not.

## Implementation notes

`serde_json` is the parameter `Codec`. A preview holds the characters of its text.
-/

namespace OpenaiRs.Preview

open Rust Serde

section Definitions

/-- `serde_json::from_slice` and `serde_json::to_string`. -/
structure Codec where
  fromSlice : Bytes → Except String Value
  toString : Value → Except String String

def maxBodyPreviewBytes : ℕ := 8 * 1024

def sensitiveKeys : List String :=
  ["authorization", "api_key", "apikey", "access_token", "refresh_token", "token", "secret", "password",
    "prompt", "input", "content", "output", "text", "delta", "arguments", "after", "before", "cursor",
    "url", "uri", "metadata", "user", "email"]

def isSensitiveKey (key : String) : Bool :=
  let normalized := key.toList.map Char.toLower
  sensitiveKeys.any fun sensitive =>
    normalized = sensitive.toList || sensitive.toList.isSuffixOf normalized

mutual

def redactJson (value : Value) (key : Option String) : Value :=
  if key.any isSensitiveKey then .string "[REDACTED]"
  else
    match value with
    | .object object => .object (redactMembers object)
    | .array values => .array (redactItems values key)
    | .string string => .string (redactInline string)
    | other => other

def redactMembers : List (String × Value) → List (String × Value)
  | [] => []
  | (key, value) :: rest => (key, redactJson value (some key)) :: redactMembers rest

def redactItems (values : List Value) (key : Option String) : List Value :=
  match values with
  | [] => []
  | value :: rest => redactJson value key :: redactItems rest key

end

/-- `str::len`. -/
def byteLen (text : List Char) : ℕ := (text.map Char.utf8Size).sum

def isCharBoundary : List Char → ℕ → Bool
  | _, 0 => true
  | [], _ + 1 => false
  | c :: rest, index + 1 => c.utf8Size ≤ index + 1 && isCharBoundary rest (index + 1 - c.utf8Size)

/-- The loop that walks back to a boundary. -/
def boundaryFrom (text : List Char) : ℕ → ℕ
  | 0 => 0
  | boundary + 1 =>
      if isCharBoundary text (boundary + 1) then boundary + 1 else boundaryFrom text boundary

/-- `String::truncate` at a boundary. -/
def truncate : List Char → ℕ → List Char
  | [], _ => []
  | c :: rest, length => if c.utf8Size ≤ length then c :: truncate rest (length - c.utf8Size) else []

structure BodyPreview where
  text : List Char
  truncated : Bool
  deriving DecidableEq

variable (codec : Codec)

/-- The redacted text, before it is cut to size. -/
def redactedText (previewBytes : Bytes) : List Char :=
  match codec.fromSlice previewBytes with
  | .ok value =>
      match codec.toString (redactJson value none) with
      | .ok text => text.toList
      | .error _ => "<unavailable JSON body>".toList
  | .error _ => redactChars (fromUtf8Lossy previewBytes)

/-- `BodyPreview::from_bytes`. -/
def fromBytes (bytes : Bytes) (truncated : Bool) : BodyPreview :=
  let previewBytes := bytes.take (min bytes.length maxBodyPreviewBytes)
  let truncated := truncated || previewBytes.length < bytes.length
  let text := redactedText codec previewBytes
  if maxBodyPreviewBytes < byteLen text then
    ⟨truncate text (boundaryFrom text maxBodyPreviewBytes), true⟩
  else ⟨text, truncated⟩

end Definitions

section Bounds

variable {codec : Codec}

theorem take_limit (bytes : Bytes) :
    bytes.take (min bytes.length maxBodyPreviewBytes) = bytes.take maxBodyPreviewBytes := by
  rw [List.take_eq_take_iff, min_assoc, min_left_comm, min_self, min_comm]

theorem boundaryFrom_le (text : List Char) (boundary : ℕ) : boundaryFrom text boundary ≤ boundary := by
  induction boundary with
  | zero => rw [boundaryFrom]
  | succ boundary ih =>
      rw [boundaryFrom]
      split
      · exact le_rfl
      · exact ih.trans (Nat.le_succ _)

theorem byteLen_truncate (text : List Char) (length : ℕ) : byteLen (truncate text length) ≤ length := by
  induction text generalizing length with
  | nil => exact Nat.zero_le _
  | cons c rest ih =>
      rw [truncate]
      split
      · rename_i hfits
        have hrest := ih (length - c.utf8Size)
        rw [byteLen, List.map_cons, List.sum_cons, ← byteLen]
        omega
      · exact Nat.zero_le _

/-- A preview is bounded, whatever its body. -/
theorem byteLen_fromBytes (bytes : Bytes) (truncated : Bool) :
    byteLen (fromBytes codec bytes truncated).text ≤ maxBodyPreviewBytes := by
  rw [fromBytes]
  split
  · exact (byteLen_truncate _ _).trans (boundaryFrom_le _ _)
  · rename_i hfits
    exact Nat.le_of_not_lt hfits

/-- A text that fits is the text of the preview. -/
theorem text_fromBytes {bytes : Bytes} {truncated : Bool}
    (h : byteLen (redactedText codec (bytes.take maxBodyPreviewBytes)) ≤ maxBodyPreviewBytes) :
    (fromBytes codec bytes truncated).text = redactedText codec (bytes.take maxBodyPreviewBytes) := by
  rw [fromBytes, take_limit, if_neg (Nat.not_lt.mpr h)]

theorem text_fromBytes_congr {bytes bytes' : Bytes} {truncated truncated' : Bool}
    (h : redactedText codec (bytes.take maxBodyPreviewBytes) =
      redactedText codec (bytes'.take maxBodyPreviewBytes)) :
    (fromBytes codec bytes truncated).text = (fromBytes codec bytes' truncated').text := by
  rw [fromBytes, fromBytes, take_limit, take_limit, h]
  split <;> rfl

end Bounds

end OpenaiRs.Preview
