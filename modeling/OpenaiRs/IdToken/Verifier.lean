import OpenaiRs.Rust.Str
import OpenaiRs.Serde.Visited
import Mathlib.Algebra.Group.Nat.Defs

/-!
# Verification of ID tokens

`OidcVerifier` of `openai-rs-codex/src/direct/jwt.rs`: the key set of an issuer, the header and the claims of a
compact token, and the checks that lead to an account identifier.

## Implementation notes

A token is its bytes. Base64url, RSA, the tags of `secure_equal` and the documents of JSON texts are the fields of
`Crates`. Clock values and the times of the claims are `u64`.
-/

namespace OpenaiRs.IdToken

open Rust Serde

section Documents

inductive DirectError where
  | configuration (message : String)
  | jwt (message : String)
  deriving DecidableEq

/-- What the verifier takes from other crates. -/
structure Crates where
  /-- `URL_SAFE_NO_PAD.decode`. -/
  base64 : Bytes → Option Bytes
  /-- The document that `serde_json::from_slice` reads. -/
  fromSlice : Bytes → Option Value
  /-- `RsaPublicKeyComponents::verify`: modulus, exponent, message and signature. -/
  rsaVerify : Bytes → Bytes → Bytes → Bytes → Bool
  /-- HMAC-SHA-256 under the key of `secure_equal`. -/
  hmacSha256 : Bytes → Bytes

structure JsonWebKey where
  kty : String
  kid : String
  usage : Option String
  alg : Option String
  n : String
  e : String
  deriving DecidableEq

structure JsonWebKeySet where
  keys : List JsonWebKey
  deriving DecidableEq

structure JwtHeader where
  alg : String
  kid : String
  deriving DecidableEq

inductive Audience where
  | one (value : String)
  | many (values : List String)
  deriving DecidableEq

structure NamespacedAuthClaims where
  chatgptAccountId : Option String
  deriving DecidableEq

structure IdTokenClaims where
  iss : String
  aud : Audience
  exp : UInt64
  nbf : Option UInt64
  iat : Option UInt64
  azp : Option String
  nonce : String
  chatgptAccountId : Option String
  namespacedAuth : Option NamespacedAuthClaims
  deriving DecidableEq

def JsonWebKey.deserialize (document : Value) : Option JsonWebKey := do
  let field ← visit ["kty", "kid", "use", "alg", "n", "e"] document
  let kty ← (field "kty").required Value.asStr
  let kid ← (field "kid").required Value.asStr
  let usage ← (field "use").optional Value.asStr
  let alg ← (field "alg").optional Value.asStr
  let n ← (field "n").required Value.asStr
  let e ← (field "e").required Value.asStr
  return { kty, kid, usage, alg, n, e }

def JsonWebKeySet.deserialize (document : Value) : Option JsonWebKeySet := do
  let field ← visit ["keys"] document
  let keys ← (field "keys").required fun v => v.asArray.bind (List.mapM JsonWebKey.deserialize)
  return { keys }

def JwtHeader.deserialize (document : Value) : Option JwtHeader := do
  let field ← visit ["alg", "kid"] document
  let alg ← (field "alg").required Value.asStr
  let kid ← (field "kid").required Value.asStr
  return { alg, kid }

def Audience.deserialize : Value → Option Audience
  | .string value => some (.one value)
  | .array values => (values.mapM Value.asStr).map .many
  | _ => none

def NamespacedAuthClaims.deserialize (document : Value) : Option NamespacedAuthClaims := do
  let field ← visit ["chatgpt_account_id"] document
  let chatgptAccountId ← (field "chatgpt_account_id").optional Value.asStr
  return { chatgptAccountId }

def asU64 : Value → Option UInt64
  | .number n => n.asU64
  | _ => none

def IdTokenClaims.keys : List String :=
  ["iss", "aud", "exp", "nbf", "iat", "azp", "nonce", "chatgpt_account_id", "https://api.openai.com/auth"]

def IdTokenClaims.deserialize (document : Value) : Option IdTokenClaims := do
  let field ← visit keys document
  let iss ← (field "iss").required Value.asStr
  let aud ← (field "aud").required Audience.deserialize
  let exp ← (field "exp").required asU64
  let nbf ← (field "nbf").defaulted asU64
  let iat ← (field "iat").defaulted asU64
  let azp ← (field "azp").defaulted Value.asStr
  let nonce ← (field "nonce").required Value.asStr
  let chatgptAccountId ← (field "chatgpt_account_id").defaulted Value.asStr
  let namespacedAuth ← (field "https://api.openai.com/auth").defaulted NamespacedAuthClaims.deserialize
  return { iss, aud, exp, nbf, iat, azp, nonce, chatgptAccountId, namespacedAuth }

end Documents

section Accounts

def isAsciiAlphanumeric (b : UInt8) : Bool :=
  isAsciiDigit b || (0x41 ≤ b && b ≤ 0x5A) || (0x61 ≤ b && b ≤ 0x7A)

/-- An identifier of at most 256 letters, digits, hyphens and underscores. -/
structure WellFormedId (value : String) : Prop where
  nonempty : value ≠ ""
  short : (utf8 value).length ≤ 256
  bytes : ∀ b ∈ utf8 value, isAsciiAlphanumeric b ∨ b = 0x2D ∨ b = 0x5F

/-- A validated workspace or account identifier. -/
structure ChatGptAccountId where
  asStr : String
  wellFormed : WellFormedId asStr

instance (value : String) : Decidable (WellFormedId value) :=
  decidable_of_iff
    (value ≠ "" ∧ (utf8 value).length ≤ 256 ∧ ∀ b ∈ utf8 value, isAsciiAlphanumeric b ∨ b = 0x2D ∨ b = 0x5F)
    ⟨fun ⟨hne, hshort, hbytes⟩ => ⟨hne, hshort, hbytes⟩, fun h => ⟨h.nonempty, h.short, h.bytes⟩⟩

def ChatGptAccountId.parse (value : String) : Except DirectError ChatGptAccountId :=
  if h : WellFormedId value then .ok ⟨value, h⟩ else .error (.jwt "invalid ChatGPT account identifier claim")

end Accounts

section Verification

/-- A verifier is configured with an issuer, an audience and at least one key. -/
structure OidcVerifier where
  issuer : String
  audience : String
  jwks : JsonWebKeySet
  issuer_ne : issuer ≠ ""
  audience_ne : audience ≠ ""
  keys_ne : jwks.keys ≠ []

def OidcVerifier.new (issuer audience : String) (jwks : JsonWebKeySet) : Except DirectError OidcVerifier :=
  if h : issuer ≠ "" ∧ audience ≠ "" ∧ jwks.keys ≠ [] then .ok ⟨issuer, audience, jwks, h.1, h.2.1, h.2.2⟩
  else .error (.configuration "OIDC issuer, audience, and JWKS must be non-empty")

def maxJwtBytes : Nat := 64 * 1024

def dot : UInt8 := 0x2E

/-- An early return with an error. -/
def refuse (condition : Bool) (message : String) : Except DirectError Unit :=
  if condition then .error (.jwt message) else .ok ()

/-- A result whose error is replaced by a text. -/
def orRefuse {α : Type} (message : String) : Option α → Except DirectError α
  | none => .error (.jwt message)
  | some a => .ok a

variable (crates : Crates)

def decodeSegment (segment : Bytes) : Except DirectError Bytes :=
  orRefuse "invalid base64url in JWT or JWK" (crates.base64 segment)

/-- The comparison of two texts by their tags. -/
def secureEqual (first second : Bytes) : Bool := crates.hmacSha256 second = crates.hmacSha256 first

/-- The header, payload and signature of a compact token. -/
def compactSegments (token : Bytes) : Except DirectError (Bytes × Bytes × Bytes) :=
  let segments := token.splitOn dot
  let header := segments.getD 0 []
  let payload := segments.getD 1 []
  let signature := segments.getD 2 []
  if header.isEmpty || payload.isEmpty || signature.isEmpty || 3 < segments.length then
    .error (.jwt "malformed compact JWT")
  else .ok (header, payload, signature)

def decodeHeader (segment : Bytes) : Except DirectError JwtHeader := do
  let bytes ← decodeSegment crates segment
  let header ← orRefuse "invalid JWT header" ((crates.fromSlice bytes).bind JwtHeader.deserialize)
  refuse (header.alg ≠ "RS256" || header.kid.isEmpty) "only keyed RS256 ID tokens are accepted"
  return header

/-- The one key with the identifier. -/
def matchingKey (keys : List JsonWebKey) (kid : String) : Except DirectError JsonWebKey :=
  match keys.filter (·.kid = kid) with
  | [key] => .ok key
  | _ => .error (.jwt "JWT kid did not select exactly one JWK")

/-- The key that a header selects. -/
def selectKey (keys : List JsonWebKey) (kid : String) : Except DirectError JsonWebKey := do
  let key ← matchingKey keys kid
  refuse (key.kty ≠ "RSA" || key.usage.any (· ≠ "sig") || key.alg.any (· ≠ "RS256"))
    "selected JWK is not an RS256 signing key"
  return key

def verifySignature (key : JsonWebKey) (header payload signature : Bytes) : Except DirectError Unit := do
  let modulus ← decodeSegment crates (utf8 key.n)
  let exponent ← decodeSegment crates (utf8 key.e)
  let signature ← decodeSegment crates signature
  refuse (!crates.rsaVerify modulus exponent (header ++ dot :: payload) signature) "JWT signature verification failed"

def decodeClaims (segment : Bytes) : Except DirectError IdTokenClaims := do
  let payload ← decodeSegment crates segment
  orRefuse "invalid verified JWT claims" ((crates.fromSlice payload).bind IdTokenClaims.deserialize)

def validateAudience (claims : IdTokenClaims) (expected : String) : Except DirectError Unit :=
  match claims.aud with
  | .one value => refuse (value ≠ expected) "audience mismatch"
  | .many values =>
      if values.any (· = expected) then
        refuse (1 < values.length && claims.azp ≠ some expected) "multi-audience token omitted matching azp"
      else .error (.jwt "audience mismatch")

/-- The times of the claims, with an allowance of a minute for `iat`. -/
def validateTimes (claims : IdTokenClaims) (now : UInt64) : Except DirectError Unit := do
  refuse (claims.exp ≤ now) "ID token expired"
  refuse (claims.nbf.any (now < ·) || claims.iat.any fun issuedAt => saturatingAdd now.toNat 60 < issuedAt.toNat)
    "ID token is not yet valid"

/-- The account identifier of the two claims that may carry one. -/
def accountId (claims : IdTokenClaims) : Except DirectError String :=
  match claims.chatgptAccountId, claims.namespacedAuth.bind NamespacedAuthClaims.chatgptAccountId with
  | some first, some second =>
      if first ≠ second then .error (.jwt "conflicting ChatGPT account identifier claims") else .ok first
  | some value, none => .ok value
  | none, some value => .ok value
  | none, none => .error (.jwt "verified ID token omitted ChatGPT account identifier")

/-- The checks that follow the verification of the signature. -/
def validateClaims (verifier : OidcVerifier) (claims : IdTokenClaims) (expectedNonce : String) (now : UInt64) :
    Except DirectError ChatGptAccountId := do
  refuse (claims.iss ≠ verifier.issuer) "issuer mismatch"
  validateAudience claims verifier.audience
  validateTimes claims now
  refuse (!secureEqual crates (utf8 claims.nonce) (utf8 expectedNonce)) "nonce mismatch"
  let account ← accountId claims
  ChatGptAccountId.parse account

def OidcVerifier.verify (verifier : OidcVerifier) (token : Bytes) (expectedNonce : String) (now : UInt64) :
    Except DirectError ChatGptAccountId := do
  refuse (maxJwtBytes < token.length || expectedNonce.isEmpty) "token or expected nonce is invalid"
  let (header, payload, signature) ← compactSegments token
  let jwtHeader ← decodeHeader crates header
  let key ← selectKey verifier.jwks.keys jwtHeader.kid
  verifySignature crates key header payload signature
  let claims ← decodeClaims crates payload
  validateClaims crates verifier claims expectedNonce now

end Verification

end OpenaiRs.IdToken
