import OpenaiRs.Rust.Str
import OpenaiRs.Serde.Value

/-!
# The webhook verifier

`WebhookVerifier` of `openai-rs-client/src/webhooks.rs`: header validation, signature
candidates, the comparison of tags and the decoding of the event.

## Implementation notes

Header values and texts are the bytes they consist of; every text here is ASCII once it
has passed `HeaderValue::to_str`. The crates that the verifier calls (`base64`, `hmac` with
`sha2`, and `serde_json` with the event types) are the fields of `Crates`.
-/

namespace OpenaiRs.Webhooks

open Rust Serde

def maxSignatureHeaderBytes : Nat := 8 * 1024
def maxWebhookIdBytes : Nat := 512
def maxTimestampBytes : Nat := 32

/-- A tag of HMAC-SHA-256. -/
abbrev Tag := Vector UInt8 32

/-- Line and column of a `serde_json::Error`. -/
structure Position where
  line : Nat
  column : Nat
  deriving DecidableEq

/-- What the verifier takes from other crates. -/
structure Crates (Event : Type) where
  /-- `STANDARD.decode`. -/
  base64 : Bytes → Option Bytes
  /-- The tag of a message under a key. -/
  hmacSha256 : Bytes → Bytes → Tag
  /-- `serde_json::from_slice` for the typed event. -/
  fromSlice : Bytes → Except Position Event
  /-- `serde_json::from_slice` for an untyped value. -/
  valueFromSlice : Bytes → Option Value

inductive WebhookVerificationError where
  | invalidHeader (name : String)
  | invalidSignatureHeader
  | invalidTimestamp
  | timestampTooOld
  | timestampTooNew
  | signatureMismatch
  | invalidSecret
  | invalidTolerance
  | invalidPayloadLimit
  | payloadTooLarge (limit : Nat)
  | decode (kind : String) (line column : Nat)
  deriving DecidableEq

/-- An authenticated event with its delivery id. -/
structure VerifiedWebhook (Event : Type) where
  webhookId : Bytes
  body : Event
  deriving DecidableEq

section Headers

/-- A byte of a header value: no control but the tab. -/
def isHeaderByte (b : UInt8) : Bool := (0x20 ≤ b && b ≠ 0x7F) || b = 0x09

/-- `http::HeaderValue`. -/
structure HeaderValue where
  bytes : Bytes
  valid : bytes.all isHeaderByte = true

/-- `http::HeaderMap`: the header lines with lower-case names. -/
abbrev HeaderMap := List (String × HeaderValue)

/-- The values of a header in the order of their lines. -/
def getAll (headers : HeaderMap) (name : String) : List Bytes :=
  headers.filterMap fun line => if line.1 = name then some line.2.bytes else none

/-- A byte that `HeaderValue::to_str` lets pass: printable ASCII or a tab. -/
def isVisibleAscii (b : UInt8) : Bool := (0x20 ≤ b && b < 0x7F) || b = 0x09

/-- `HeaderValue::to_str`. -/
def toStr (value : Bytes) : Option Bytes := if value.all isVisibleAscii then some value else none

/-- `char::is_control` on ASCII. -/
def isControl (b : UInt8) : Bool := b < 0x20 || b = 0x7F

def requiredHeader (headers : HeaderMap) (name : String) (maxBytes : Nat) :
    Except WebhookVerificationError Bytes :=
  match getAll headers name with
  | [value] =>
      match toStr value with
      | none => .error (.invalidHeader name)
      | some value =>
          if value.isEmpty || maxBytes < value.length || value.any isControl then
            .error (.invalidHeader name)
          else .ok value
  | _ => .error (.invalidHeader name)

/-- The loop of `joined_header_values` over the remaining values. -/
def joinValues (name : String) (maxBytes : Nat) (joined : Bytes) :
    List Bytes → Except WebhookVerificationError Bytes
  | [] => if joined.isEmpty then .error (.invalidHeader name) else .ok joined
  | value :: rest =>
      match toStr value with
      | none => .error (.invalidHeader name)
      | some value =>
          let joined := if joined.isEmpty then joined else joined ++ [space]
          if maxBytes < saturatingAdd joined.length value.length then .error .invalidSignatureHeader
          else joinValues name maxBytes (joined ++ value) rest

def joinedHeaderValues (headers : HeaderMap) (name : String) (maxBytes : Nat) :
    Except WebhookVerificationError Bytes :=
  joinValues name maxBytes [] (getAll headers name)

end Headers

section Texts

/-- `u8::is_ascii_whitespace`: space, tab, line feed, form feed or carriage return. -/
def isAsciiWhitespace (b : UInt8) : Bool :=
  b = space || b = 0x09 || b = lf || b = 0x0C || b = cr

/-- The words of a text; `word` is the beginning of the current one. -/
def words (word : Bytes) : Bytes → List Bytes
  | [] => if word.isEmpty then [] else [word]
  | b :: rest =>
      if isAsciiWhitespace b then
        if word.isEmpty then words [] rest else word :: words [] rest
      else words (word ++ [b]) rest

/-- `str::split_ascii_whitespace`. -/
def splitAsciiWhitespace (text : Bytes) : List Bytes := words [] text

/-- `str::strip_prefix`. -/
def stripText (expected text : Bytes) : Option Bytes :=
  if expected.isPrefixOf text then some (text.drop expected.length) else none

end Texts

section Verification

variable {Event : Type} (crates : Crates Event)

/-- One candidate: an optional version and base64 that decodes to the length of a tag. -/
def decodeCandidate (candidate : Bytes) : Option Tag :=
  let encoded := (stripText (utf8 "v1,") candidate).getD candidate
  match crates.base64 encoded with
  | none => none
  | some decoded => if h : decoded.length = 32 then some ⟨decoded.toArray, by simpa using h⟩ else none

def decodeSignatures (header : Bytes) : Except WebhookVerificationError (List Tag) :=
  let signatures := (splitAsciiWhitespace header).filterMap (decodeCandidate crates)
  if signatures.isEmpty then .error .invalidSignatureHeader else .ok signatures

def decodeSecret (secret : Bytes) : Except WebhookVerificationError Bytes :=
  if secret.isEmpty then .error .invalidSecret
  else
    match stripText (utf8 "whsec_") secret with
    | none => .ok secret
    | some encoded =>
        match crates.base64 encoded with
        | none => .error .invalidSecret
        | some decoded => if decoded.isEmpty then .error .invalidSecret else .ok decoded

/-- The bytes that are signed. -/
def signedBytes (webhookId timestamp payload : Bytes) : Bytes :=
  webhookId ++ 0x2E :: (timestamp ++ 0x2E :: payload)

/-- The folded difference of two tags, without a short circuit. -/
def difference (expected candidate : Tag) : UInt8 :=
  (expected.toList.zip candidate.toList).foldl (fun difference bytes => difference ||| (bytes.1 ^^^ bytes.2)) 0

/-- The last candidate that does not differ from the expected tag. -/
def selectSignature (expected : Tag) (signatures : List Tag) : Option Tag :=
  signatures.foldl
    (fun selected signature => if difference expected signature = 0 then some signature else selected) none

def sanitizedDecodeFailure (payload : Bytes) (error : Position) : WebhookVerificationError :=
  let kind :=
    match crates.valueFromSlice payload with
    | none => "syntax"
    | some value =>
        match (value.asObject.bind fun object => object.get "type").bind Value.asStr with
        | some _ => "type"
        | none => "discriminator"
  .decode kind error.line error.column

/-- A secret and a replay policy. -/
structure WebhookVerifier where
  secret : Bytes
  tolerance : Duration
  maxPayloadBytes : Nat

namespace WebhookVerifier

def defaultTolerance : Duration := ⟨5 * 60 * 1000000000⟩
def defaultMaxPayloadBytes : Nat := 16 * 1024 * 1024

def new (secret : Bytes) : Except WebhookVerificationError WebhookVerifier :=
  if secret.isEmpty then .error .invalidSecret
  else do
    let _ ← decodeSecret crates secret
    return ⟨secret, defaultTolerance, defaultMaxPayloadBytes⟩

def withTolerance (v : WebhookVerifier) (tolerance : Duration) :
    Except WebhookVerificationError WebhookVerifier :=
  if tolerance.nanos < 1000000000 then .error .invalidTolerance else .ok { v with tolerance }

def withMaxPayloadBytes (v : WebhookVerifier) (maxPayloadBytes : Nat) :
    Except WebhookVerificationError WebhookVerifier :=
  if maxPayloadBytes = 0 then .error .invalidPayloadLimit else .ok { v with maxPayloadBytes }

/-- `Duration::as_secs` of the tolerance. -/
def toleranceSeconds (v : WebhookVerifier) : Nat := v.tolerance.nanos / 1000000000

/-- The timestamp header: a strict unsigned integer within the replay window. -/
def checkTimestamp (v : WebhookVerifier) (headers : HeaderMap) (now : Nat) :
    Except WebhookVerificationError Bytes := do
  let timestampText ← requiredHeader headers "webhook-timestamp" maxTimestampBytes
  if timestampText.isEmpty || !timestampText.all isAsciiDigit then .error .invalidTimestamp
  else
    match parseU64 timestampText with
    | none => .error .invalidTimestamp
    | some timestamp =>
        if v.toleranceSeconds < now - timestamp then .error .timestampTooOld
        else if v.toleranceSeconds < timestamp - now then .error .timestampTooNew
        else .ok timestampText

/-- The typed event of an authenticated payload. -/
def decodeEvent (webhookId payload : Bytes) : Except WebhookVerificationError (VerifiedWebhook Event) :=
  match crates.fromSlice payload with
  | .error error => .error (sanitizedDecodeFailure crates payload error)
  | .ok event => .ok ⟨webhookId, event⟩

/-- The comparison with every candidate, the check of the selected one, and the decoding. -/
def authenticate (signatures : List Tag) (key webhookId timestampText payload : Bytes) :
    Except WebhookVerificationError (VerifiedWebhook Event) :=
  let signed := signedBytes webhookId timestampText payload
  match selectSignature (crates.hmacSha256 key signed) signatures with
  | none => .error .signatureMismatch
  | some signature =>
      if crates.hmacSha256 key signed ≠ signature then .error .signatureMismatch
      else decodeEvent crates webhookId payload

def verifyAt (v : WebhookVerifier) (payload : Bytes) (headers : HeaderMap) (now : Nat) :
    Except WebhookVerificationError (VerifiedWebhook Event) :=
  if v.maxPayloadBytes < payload.length then .error (.payloadTooLarge v.maxPayloadBytes)
  else do
    let timestampText ← v.checkTimestamp headers now
    let webhookId ← requiredHeader headers "webhook-id" maxWebhookIdBytes
    let signatureHeader ← joinedHeaderValues headers "webhook-signature" maxSignatureHeaderBytes
    let signatures ← decodeSignatures crates signatureHeader
    let key ← decodeSecret crates v.secret
    authenticate crates signatures key webhookId timestampText payload

end WebhookVerifier

end Verification

end OpenaiRs.Webhooks
