import OpenaiRs.IdToken.Verifier
import OpenaiRs.Rust.Result

/-!
# Which ID tokens are accepted

A token is accepted exactly when it meets its specification: its form, its header, the one key that it selects,
the signature under this key, and its claims. The order of the keys does not matter.
-/

namespace OpenaiRs.IdToken

open Rust Serde

section Specification

/-- A token of three non-empty segments. -/
structure Compact (token header payload signature : Bytes) : Prop where
  joined : token = header ++ dot :: (payload ++ dot :: signature)
  nonempty : header ≠ [] ∧ payload ≠ [] ∧ signature ≠ []
  plain : dot ∉ header ∧ dot ∉ payload ∧ dot ∉ signature

/-- The text of a segment is a document that reads as the result. -/
def Reads {α : Type} (crates : Crates) (read : Value → Option α) (segment : Bytes) (a : α) : Prop :=
  ∃ bytes document, crates.base64 segment = some bytes ∧ crates.fromSlice bytes = some document ∧ read document = some a

/-- The only key with the identifier, which is for signatures with RS256. -/
structure SigningKey (keys : List JsonWebKey) (kid : String) (key : JsonWebKey) : Prop where
  mem : key ∈ keys
  hasKid : key.kid = kid
  only : keys.countP (·.kid = kid) = 1
  kty : key.kty = "RSA"
  usage : ∀ usage ∈ key.usage, usage = "sig"
  alg : ∀ alg ∈ key.alg, alg = "RS256"

/-- The signature verifies under the key. -/
def Signed (crates : Crates) (key : JsonWebKey) (header payload signature : Bytes) : Prop :=
  ∃ modulus exponent decoded, crates.base64 (utf8 key.n) = some modulus ∧ crates.base64 (utf8 key.e) = some exponent ∧
    crates.base64 signature = some decoded ∧ crates.rsaVerify modulus exponent (header ++ dot :: payload) decoded = true

/-- The token is for the audience, as its authorized party if it is for others too. -/
def ForAudience (claims : IdTokenClaims) (audience : String) : Prop :=
  match claims.aud with
  | .one value => value = audience
  | .many values => audience ∈ values ∧ (1 < values.length → claims.azp = some audience)

/-- One of the two account claims is the identifier. -/
def NamesAccount (claims : IdTokenClaims) (account : String) : Prop :=
  claims.chatgptAccountId = some account ∨
    ∃ namespaced, claims.namespacedAuth = some namespaced ∧ namespaced.chatgptAccountId = some account

/-- What the claims are to say. -/
structure AcceptedClaims (verifier : OidcVerifier) (claims : IdTokenClaims) (nonce : String) (now : UInt64)
    (account : String) : Prop where
  issuer : claims.iss = verifier.issuer
  audience : ForAudience claims verifier.audience
  fresh : now < claims.exp
  notBefore : ∀ nbf ∈ claims.nbf, nbf ≤ now
  issuedAt : ∀ iat ∈ claims.iat, iat.toNat ≤ min (now.toNat + 60) (2 ^ 64 - 1)
  answers : claims.nonce = nonce
  names : NamesAccount claims account
  only : ∀ other, NamesAccount claims other → other = account
  wellFormed : WellFormedId account

/-- The specification of acceptance, with the parts of the token. -/
structure Accepted (crates : Crates) (verifier : OidcVerifier) (token : Bytes) (nonce : String) (now : UInt64)
    (account : String) (header payload signature : Bytes) (jwtHeader : JwtHeader) (key : JsonWebKey)
    (claims : IdTokenClaims) : Prop where
  short : token.length ≤ 64 * 1024
  nonce_ne : nonce ≠ ""
  compact : Compact token header payload signature
  headerRead : Reads crates JwtHeader.deserialize header jwtHeader
  headerAlg : jwtHeader.alg = "RS256"
  headerKid : jwtHeader.kid ≠ ""
  signingKey : SigningKey verifier.jwks.keys jwtHeader.kid key
  signed : Signed crates key header payload signature
  payloadRead : Reads crates IdTokenClaims.deserialize payload claims
  accepted : AcceptedClaims verifier claims nonce now account

end Specification

section Results

variable {α : Type}

@[simp] theorem refuse_eq_ok {condition : Bool} {message : String} {u : Unit} :
    refuse condition message = .ok u ↔ condition = false := by
  cases condition with
  | false => exact ⟨fun _ => rfl, fun _ => rfl⟩
  | true => exact ⟨nofun, nofun⟩

@[simp] theorem orRefuse_eq_ok {message : String} {found : Option α} {a : α} :
    orRefuse message found = .ok a ↔ found = some a := by
  cases found with
  | none => exact ⟨nofun, nofun⟩
  | some b => exact ⟨fun h => congrArg some (Except.ok.inj h), fun h => congrArg Except.ok (Option.some.inj h)⟩

end Results

section Segments

theorem not_mem_of_mem_splitOn {token piece : Bytes} (h : piece ∈ token.splitOn dot) : dot ∉ piece := by
  induction token generalizing piece with
  | nil =>
      rw [List.splitOn_nil, List.mem_singleton] at h
      rw [h]
      exact List.not_mem_nil
  | cons b rest ih =>
      rw [List.splitOn_cons_eq_if_modifyHead] at h
      split at h
      · obtain rfl | h := List.mem_cons.mp h
        · exact List.not_mem_nil
        · exact ih h
      · rename_i hb
        cases hpieces : rest.splitOn dot with
        | nil => exact absurd hpieces (List.splitOn_ne_nil dot rest)
        | cons first others =>
            rw [hpieces, List.modifyHead_cons] at h
            obtain rfl | h := List.mem_cons.mp h
            · rw [List.mem_cons, not_or]
              exact ⟨fun heq => hb (beq_iff_eq.mpr heq.symm), ih (hpieces ▸ List.mem_cons_self)⟩
            · exact ih (hpieces ▸ List.mem_cons_of_mem first h)

theorem splitOn_eq_three {token header payload signature : Bytes} :
    token.splitOn dot = [header, payload, signature] ↔
      token = header ++ dot :: (payload ++ dot :: signature) ∧ dot ∉ header ∧ dot ∉ payload ∧ dot ∉ signature := by
  constructor
  · intro h
    refine ⟨?_, ?_, ?_, ?_⟩
    · calc token
        _ = [dot].intercalate (token.splitOn dot) := (List.intercalate_splitOn dot).symm
        _ = [dot].intercalate [header, payload, signature] := by rw [h]
        _ = header ++ dot :: (payload ++ dot :: signature) := by simp
    · exact not_mem_of_mem_splitOn (h ▸ List.mem_cons_self)
    · exact not_mem_of_mem_splitOn (h ▸ List.mem_cons_of_mem _ List.mem_cons_self)
    · exact not_mem_of_mem_splitOn (h ▸ List.mem_cons_of_mem _ (List.mem_cons_of_mem _ List.mem_cons_self))
  · rintro ⟨rfl, hheader, hpayload, hsignature⟩
    rw [List.splitOn_append_cons_self_of_not_mem hheader, List.splitOn_append_cons_self_of_not_mem hpayload,
      List.splitOn_eq_singleton hsignature]

theorem compactSegments_eq_ok {token header payload signature : Bytes} :
    compactSegments token = .ok (header, payload, signature) ↔ Compact token header payload signature := by
  constructor
  · intro h
    rw [compactSegments] at h
    split at h
    · cases h
    · rename_i hparts
      simp only [Bool.or_eq_true, List.isEmpty_iff, decide_eq_true_eq, not_or] at hparts
      obtain ⟨⟨⟨hheader, hpayload⟩, hsignature⟩, hlength⟩ := hparts
      match hsegments : token.splitOn dot with
      | [] => exact absurd (by rw [hsegments]; rfl) hheader
      | [_] => exact absurd (by rw [hsegments]; rfl) hpayload
      | [_, _] => exact absurd (by rw [hsegments]; rfl) hsignature
      | [first, second, third] =>
          rw [hsegments] at h hheader hpayload hsignature
          cases h
          obtain ⟨hjoined, hplain⟩ := splitOn_eq_three.mp hsegments
          exact ⟨hjoined, ⟨hheader, hpayload, hsignature⟩, hplain⟩
      | _ :: _ :: _ :: _ :: _ =>
          rw [hsegments] at hlength
          exact absurd (by simp) hlength
  · rintro ⟨hjoined, ⟨hheader, hpayload, hsignature⟩, hplain⟩
    rw [compactSegments, splitOn_eq_three.mpr ⟨hjoined, hplain⟩]
    simp [hheader, hpayload, hsignature]

variable {crates : Crates}

theorem decodeSegment_eq_ok {segment bytes : Bytes} :
    decodeSegment crates segment = .ok bytes ↔ crates.base64 segment = some bytes := orRefuse_eq_ok

theorem decodeHeader_eq_ok {segment : Bytes} {header : JwtHeader} :
    decodeHeader crates segment = .ok header ↔
      Reads crates JwtHeader.deserialize segment header ∧ header.alg = "RS256" ∧ header.kid ≠ "" := by
  simp only [decodeHeader, bind_eq_ok, decodeSegment_eq_ok, orRefuse_eq_ok, refuse_eq_ok, Option.bind_eq_some_iff]
  constructor
  · rintro ⟨bytes, hbytes, header', ⟨document, hdocument, hread⟩, -, hheader, hpure⟩
    cases hpure
    refine ⟨⟨bytes, document, hbytes, hdocument, hread⟩, ?_⟩
    simpa using hheader
  · rintro ⟨⟨bytes, document, hbytes, hdocument, hread⟩, halg, hkid⟩
    exact ⟨bytes, hbytes, header, ⟨document, hdocument, hread⟩, (), by simp [halg, hkid], rfl⟩

theorem decodeClaims_eq_ok {segment : Bytes} {claims : IdTokenClaims} :
    decodeClaims crates segment = .ok claims ↔ Reads crates IdTokenClaims.deserialize segment claims := by
  simp only [decodeClaims, bind_eq_ok, decodeSegment_eq_ok, orRefuse_eq_ok, Option.bind_eq_some_iff]
  constructor
  · rintro ⟨bytes, hbytes, document, hdocument, hread⟩
    exact ⟨bytes, document, hbytes, hdocument, hread⟩
  · rintro ⟨bytes, document, hbytes, hdocument, hread⟩
    exact ⟨bytes, hbytes, document, hdocument, hread⟩

end Segments

section Keys

variable {keys : List JsonWebKey} {kid : String} {key : JsonWebKey}

theorem eq_of_countP_one {p : JsonWebKey → Bool} (hcount : keys.countP p = 1) (hmem : key ∈ keys) (hp : p key = true) :
    keys.filter p = [key] := by
  have hlength : (keys.filter p).length = 1 := by rw [← List.countP_eq_length_filter, hcount]
  obtain ⟨other, hother⟩ := List.length_eq_one_iff.mp hlength
  have hkey : key ∈ keys.filter p := List.mem_filter.mpr ⟨hmem, hp⟩
  rw [hother, List.mem_singleton] at hkey
  rw [hother, hkey]

theorem matchingKey_eq_ok :
    matchingKey keys kid = .ok key ↔ key ∈ keys ∧ key.kid = kid ∧ keys.countP (·.kid = kid) = 1 := by
  constructor
  · intro h
    rw [matchingKey] at h
    split at h
    · rename_i only honly
      cases h
      have hmem : key ∈ keys.filter (·.kid = kid) := honly ▸ List.mem_singleton_self key
      obtain ⟨hkeys, hkid⟩ := List.mem_filter.mp hmem
      have hcount : keys.countP (·.kid = kid) = 1 := by rw [List.countP_eq_length_filter, honly, List.length_singleton]
      exact ⟨hkeys, of_decide_eq_true hkid, hcount⟩
    · cases h
  · rintro ⟨hmem, hkid, hcount⟩
    rw [matchingKey, eq_of_countP_one hcount hmem (decide_eq_true hkid)]

theorem selectKey_eq_ok : selectKey keys kid = .ok key ↔ SigningKey keys kid key := by
  have hpurpose : ∀ {found : Option String} {text : String},
      found.any (· ≠ text) = false ↔ ∀ value ∈ found, value = text := by
    intro found text
    cases found <;> simp
  simp only [selectKey, bind_eq_ok, matchingKey_eq_ok, refuse_eq_ok, Bool.or_eq_false_iff, hpurpose,
    decide_eq_false_iff_not, not_not]
  constructor
  · rintro ⟨_, ⟨hmem, hkid, hcount⟩, -, ⟨⟨hkty, husage⟩, halg⟩, ⟨⟩⟩
    exact ⟨hmem, hkid, hcount, hkty, husage, halg⟩
  · rintro ⟨hmem, hkid, hcount, hkty, husage, halg⟩
    exact ⟨key, ⟨hmem, hkid, hcount⟩, (), ⟨⟨hkty, husage⟩, halg⟩, rfl⟩

/-- The order of the keys does not matter for the one that matches, nor for the error. -/
theorem matchingKey_perm {keys' : List JsonWebKey} (h : keys'.Perm keys) :
    matchingKey keys' kid = matchingKey keys kid := by
  have hfilter : (keys'.filter (·.kid = kid)).Perm (keys.filter (·.kid = kid)) := h.filter _
  rw [matchingKey, matchingKey]
  split
  · rename_i only honly
    rw [honly] at hfilter
    rw [hfilter.symm.eq_singleton]
  · rename_i hmany'
    split
    · rename_i only honly
      rw [honly] at hfilter
      exact absurd hfilter.eq_singleton (hmany' only)
    · rfl

variable {crates : Crates} {header payload signature : Bytes}

theorem verifySignature_eq_ok {u : Unit} :
    verifySignature crates key header payload signature = .ok u ↔ Signed crates key header payload signature := by
  simp only [verifySignature, bind_eq_ok, decodeSegment_eq_ok, refuse_eq_ok, Bool.not_eq_false']
  constructor
  · rintro ⟨modulus, hmodulus, exponent, hexponent, decoded, hdecoded, hverify⟩
    exact ⟨modulus, exponent, decoded, hmodulus, hexponent, hdecoded, hverify⟩
  · rintro ⟨modulus, exponent, decoded, hmodulus, hexponent, hdecoded, hverify⟩
    exact ⟨modulus, hmodulus, exponent, hexponent, decoded, hdecoded, hverify⟩

end Keys

section Claims

variable {crates : Crates} {verifier : OidcVerifier} {claims : IdTokenClaims} {nonce account : String} {now : UInt64}

theorem validateAudience_eq_ok {audience : String} {u : Unit} :
    validateAudience claims audience = .ok u ↔ ForAudience claims audience := by
  rw [validateAudience, ForAudience]
  cases claims.aud with
  | one value => simp
  | many values => by_cases hmem : audience ∈ values <;> simp [hmem]

theorem validateTimes_eq_ok {u : Unit} :
    validateTimes claims now = .ok u ↔ now < claims.exp ∧ (∀ nbf ∈ claims.nbf, nbf ≤ now) ∧
      ∀ iat ∈ claims.iat, iat.toNat ≤ min (now.toNat + 60) (2 ^ 64 - 1) := by
  have hexp : decide (claims.exp ≤ now) = false ↔ now < claims.exp := by simp
  have hnbf : claims.nbf.any (now < ·) = false ↔ ∀ nbf ∈ claims.nbf, nbf ≤ now := by
    cases claims.nbf <;> simp
  have hiat : (claims.iat.any fun issuedAt => saturatingAdd now.toNat 60 < issuedAt.toNat) = false ↔
      ∀ iat ∈ claims.iat, iat.toNat ≤ min (now.toNat + 60) (2 ^ 64 - 1) := by
    cases claims.iat with
    | none => simp
    | some iat =>
        rw [Option.any_some, decide_eq_false_iff_not, Nat.not_lt]
        simp [saturatingAdd, usizeSize]
  simp only [validateTimes, bind_eq_ok, refuse_eq_ok, Bool.or_eq_false_iff, hexp, hnbf, hiat]
  constructor
  · rintro ⟨-, hfresh, hvalid⟩
    exact ⟨hfresh, hvalid⟩
  · rintro ⟨hfresh, hvalid⟩
    exact ⟨(), hfresh, hvalid⟩

theorem accountId_eq_ok :
    accountId claims = .ok account ↔ NamesAccount claims account ∧ ∀ other, NamesAccount claims other → other = account := by
  have hnames : ∀ other, NamesAccount claims other ↔ claims.chatgptAccountId = some other ∨
      claims.namespacedAuth.bind NamespacedAuthClaims.chatgptAccountId = some other :=
    fun other => or_congr_right Option.bind_eq_some_iff.symm
  simp only [hnames]
  rw [accountId]
  cases claims.chatgptAccountId with
  | none =>
      cases claims.namespacedAuth.bind NamespacedAuthClaims.chatgptAccountId with
      | none => simp
      | some second => simp [eq_comm]
  | some first =>
      cases claims.namespacedAuth.bind NamespacedAuthClaims.chatgptAccountId with
      | none => simp [eq_comm]
      | some second =>
          by_cases heq : first = second
          · simp [heq, eq_comm]
          · simp [heq]
            grind

theorem parse_eq_ok {id : ChatGptAccountId} : ChatGptAccountId.parse account = .ok id ↔ account = id.asStr := by
  rw [ChatGptAccountId.parse]
  split
  · constructor
    · intro h
      cases h
      rfl
    · rintro rfl
      rfl
  · rename_i hformed
    constructor
    · exact nofun
    · rintro rfl
      exact absurd id.wellFormed hformed

/-- The claims are checked as specified, where the tag of the expected nonce tells it from the nonce of the claims. -/
theorem validateClaims_eq_ok {id : ChatGptAccountId}
    (hnonce : secureEqual crates (utf8 claims.nonce) (utf8 nonce) = true → claims.nonce = nonce) :
    validateClaims crates verifier claims nonce now = .ok id ↔ AcceptedClaims verifier claims nonce now id.asStr := by
  have htag : secureEqual crates (utf8 claims.nonce) (utf8 nonce) = true ↔ claims.nonce = nonce :=
    ⟨hnonce, fun h => by rw [h, secureEqual, decide_eq_true rfl]⟩
  simp only [validateClaims, bind_eq_ok, refuse_eq_ok, validateAudience_eq_ok, validateTimes_eq_ok, accountId_eq_ok,
    parse_eq_ok, Bool.not_eq_false', htag, decide_eq_false_iff_not, not_not]
  constructor
  · rintro ⟨-, hissuer, -, haudience, -, ⟨hfresh, hnbf, hiat⟩, -, hanswers, account, ⟨hnames, honly⟩, rfl⟩
    exact ⟨hissuer, haudience, hfresh, hnbf, hiat, hanswers, hnames, honly, id.wellFormed⟩
  · rintro ⟨hissuer, haudience, hfresh, hnbf, hiat, hanswers, hnames, honly, -⟩
    exact ⟨(), hissuer, (), haudience, (), ⟨hfresh, hnbf, hiat⟩, (), hanswers, id.asStr, ⟨hnames, honly⟩, rfl⟩

end Claims

/-- Two verifiers for the same issuer and audience agree on a token if the same key matches its header. -/
theorem verify_congr {crates : Crates} {verifier other : OidcVerifier} {token : Bytes} {nonce : String} {now : UInt64}
    (hissuer : other.issuer = verifier.issuer) (haudience : other.audience = verifier.audience)
    (hkeys : ∀ header, Reads crates JwtHeader.deserialize ((token.splitOn dot).getD 0 []) header →
      matchingKey other.jwks.keys header.kid = matchingKey verifier.jwks.keys header.kid) :
    other.verify crates token nonce now = verifier.verify crates token nonce now := by
  have hvalidate : ∀ claims, validateClaims crates other claims nonce now = validateClaims crates verifier claims nonce now :=
    fun claims => by rw [validateClaims, validateClaims, hissuer, haudience]
  simp only [OidcVerifier.verify, hvalidate]
  apply congrArg
  ext1 _
  cases hsegments : compactSegments token with
  | error e => rfl
  | ok segments =>
      obtain ⟨header, payload, signature⟩ := segments
      have hcompact := compactSegments_eq_ok.mp hsegments
      cases hheader : decodeHeader crates header with
      | error e => simp only [hheader, Except.bind, bind]
      | ok jwtHeader =>
          have hsegment : (token.splitOn dot).getD 0 [] = header := by
            rw [splitOn_eq_three.mpr ⟨hcompact.joined, hcompact.plain⟩]
            rfl
          have hsame := hkeys jwtHeader (hsegment ▸ (decodeHeader_eq_ok.mp hheader).1)
          have hselect : selectKey other.jwks.keys jwtHeader.kid = selectKey verifier.jwks.keys jwtHeader.kid := by
            rw [selectKey, selectKey, hsame]
          simp only [hheader, hselect, Except.bind, bind]

/-- A token is accepted with an identifier exactly when it meets the specification, and the order of the keys does not
matter. That the token does not carry another text with the tag of the expected nonce is what `secure_equal` rests on. -/
theorem verify_accepts_iff (crates : Crates) (verifier : OidcVerifier) (token : Bytes) (nonce : String) (now : UInt64)
    (id : ChatGptAccountId)
    (hnonce : ∀ claims, decodeClaims crates ((token.splitOn dot).getD 1 []) = .ok claims →
      secureEqual crates (utf8 claims.nonce) (utf8 nonce) = true → claims.nonce = nonce) :
    (verifier.verify crates token nonce now = .ok id ↔ ∃ header payload signature jwtHeader key claims,
      Accepted crates verifier token nonce now id.asStr header payload signature jwtHeader key claims) ∧
    ∀ other : OidcVerifier, other.issuer = verifier.issuer → other.audience = verifier.audience →
      other.jwks.keys.Perm verifier.jwks.keys →
        other.verify crates token nonce now = verifier.verify crates token nonce now := by
  have hinput : (decide (maxJwtBytes < token.length) || nonce.isEmpty) = false ↔
      token.length ≤ 64 * 1024 ∧ nonce ≠ "" := by
    rw [Bool.or_eq_false_iff, decide_eq_false_iff_not, Nat.not_lt, Bool.eq_false_iff, ne_eq, String.isEmpty_iff]
    rfl
  refine ⟨⟨?_, ?_⟩, ?_⟩
  · intro h
    obtain ⟨_, hshort, h⟩ := bind_eq_ok.mp h
    obtain ⟨⟨header, payload, signature⟩, hcompact, h⟩ := bind_eq_ok.mp h
    obtain ⟨jwtHeader, hheader, h⟩ := bind_eq_ok.mp h
    obtain ⟨key, hkey, h⟩ := bind_eq_ok.mp h
    obtain ⟨_, hsigned, h⟩ := bind_eq_ok.mp h
    obtain ⟨claims, hclaims, h⟩ := bind_eq_ok.mp h
    have hjoined := compactSegments_eq_ok.mp hcompact
    have hsegment : (token.splitOn dot).getD 1 [] = payload := by
      rw [splitOn_eq_three.mpr ⟨hjoined.joined, hjoined.plain⟩]
      rfl
    obtain ⟨hread, halg, hkid⟩ := decodeHeader_eq_ok.mp hheader
    obtain ⟨hlength, hne⟩ := hinput.mp (refuse_eq_ok.mp hshort)
    have hsame := hnonce claims (hsegment ▸ hclaims)
    exact ⟨header, payload, signature, jwtHeader, key, claims, hlength, hne, hjoined, hread, halg, hkid,
      selectKey_eq_ok.mp hkey, verifySignature_eq_ok.mp hsigned, decodeClaims_eq_ok.mp hclaims,
      (validateClaims_eq_ok hsame).mp h⟩
  · rintro ⟨header, payload, signature, jwtHeader, key, claims, h⟩
    have hsegment : (token.splitOn dot).getD 1 [] = payload := by
      rw [splitOn_eq_three.mpr ⟨h.compact.joined, h.compact.plain⟩]
      rfl
    have hclaims := decodeClaims_eq_ok.mpr h.payloadRead
    have hsame := hnonce claims (hsegment ▸ hclaims)
    apply bind_eq_ok.mpr ⟨(), refuse_eq_ok.mpr (hinput.mpr ⟨h.short, h.nonce_ne⟩), ?_⟩
    apply bind_eq_ok.mpr ⟨_, compactSegments_eq_ok.mpr h.compact, ?_⟩
    apply bind_eq_ok.mpr ⟨jwtHeader, decodeHeader_eq_ok.mpr ⟨h.headerRead, h.headerAlg, h.headerKid⟩, ?_⟩
    apply bind_eq_ok.mpr ⟨key, selectKey_eq_ok.mpr h.signingKey, ?_⟩
    apply bind_eq_ok.mpr ⟨(), verifySignature_eq_ok.mpr h.signed, ?_⟩
    exact bind_eq_ok.mpr ⟨claims, hclaims, (validateClaims_eq_ok hsame).mpr h.accepted⟩
  · intro other hissuer haudience hkeys
    exact verify_congr hissuer haudience fun header _ => matchingKey_perm hkeys

section Fixture

def fixtureHeader : Bytes := utf8 "eyJhbGciOiJSUzI1NiIsImtpZCI6ImsifQ"
def fixturePayload : Bytes :=
  utf8 "eyJpc3MiOiJodHRwczovL2lzc3Vlci50ZXN0IiwiYXVkIjoiY2xpZW50IiwiZXhw" ++
    utf8 "IjoyMDAwLCJub25jZSI6Im4iLCJjaGF0Z3B0X2FjY291bnRfaWQiOiJhY2N0LTEyMyJ9"
def fixtureSignature : Bytes := utf8 "c2ln"
def fixtureToken : Bytes := fixtureHeader ++ dot :: (fixturePayload ++ dot :: fixtureSignature)

def fixtureHeaderText : Bytes := utf8 "\x7b\"alg\":\"RS256\",\"kid\":\"k\"\x7d"
def fixturePayloadText : Bytes :=
  utf8 ("\x7b\"iss\":\"https://issuer.test\",\"aud\":\"client\",\"exp\":2000,\"nonce\":\"n\"," ++
    "\"chatgpt_account_id\":\"acct-123\"\x7d")

def fixtureHeaderDocument : Value := .object [("alg", .string "RS256"), ("kid", .string "k")]
def fixturePayloadDocument : Value :=
  .object [("iss", .string "https://issuer.test"), ("aud", .string "client"), ("exp", .number (.posInt 2000)),
    ("nonce", .string "n"), ("chatgpt_account_id", .string "acct-123")]

/-- The codecs on the fixture, with a signature check that always succeeds. -/
def fixtureCrates : Crates where
  base64 segment :=
    if segment = fixtureSignature then some (utf8 "sig")
    else if segment = utf8 "AQAB" then some [1, 0, 1]
    else if segment = fixtureHeader then some fixtureHeaderText
    else if segment = fixturePayload then some fixturePayloadText
    else none
  fromSlice text :=
    if text = fixtureHeaderText then some fixtureHeaderDocument
    else if text = fixturePayloadText then some fixturePayloadDocument
    else none
  rsaVerify _ _ _ _ := true
  hmacSha256 text := text

def fixtureKey : JsonWebKey := ⟨"RSA", "k", some "sig", some "RS256", "AQAB", "AQAB"⟩

def fixtureVerifier : OidcVerifier where
  issuer := "https://issuer.test"
  audience := "client"
  jwks := ⟨[fixtureKey]⟩
  issuer_ne := by decide
  audience_ne := by decide
  keys_ne := List.cons_ne_nil _ _

def fixtureClaims : IdTokenClaims :=
  ⟨"https://issuer.test", .one "client", 2000, none, none, none, "n", some "acct-123", none⟩

theorem reads_fixtureHeader : Reads fixtureCrates JwtHeader.deserialize fixtureHeader ⟨"RS256", "k"⟩ := by
  refine ⟨fixtureHeaderText, fixtureHeaderDocument, ?_, ?_, by decide⟩
  · dsimp only [fixtureCrates]
    rw [if_neg (by decide), if_neg (by decide), if_pos rfl]
  · dsimp only [fixtureCrates]
    rw [if_pos rfl]

theorem reads_fixturePayload : Reads fixtureCrates IdTokenClaims.deserialize fixturePayload fixtureClaims := by
  refine ⟨fixturePayloadText, fixturePayloadDocument, ?_, ?_, by decide⟩
  · dsimp only [fixtureCrates]
    rw [if_neg (by decide), if_neg (by decide), if_neg (by decide), if_pos rfl]
  · dsimp only [fixtureCrates]
    rw [if_neg (by decide), if_pos rfl]

theorem signed_fixture : Signed fixtureCrates fixtureKey fixtureHeader fixturePayload fixtureSignature := by
  have hexponent : fixtureCrates.base64 (utf8 "AQAB") = some [1, 0, 1] := by
    dsimp only [fixtureCrates]
    rw [if_neg (by decide), if_pos rfl]
  refine ⟨[1, 0, 1], [1, 0, 1], utf8 "sig", hexponent, hexponent, ?_, rfl⟩
  dsimp only [fixtureCrates]
  rw [if_pos rfl]

theorem short_fixtureToken : fixtureToken.length ≤ 64 * 1024 := by
  have hheader : fixtureHeader.length = 34 := by decide
  have hpayload : fixturePayload.length = 64 + 68 := List.length_append
  have hsignature : fixtureSignature.length = 4 := by decide
  simp only [fixtureToken, List.length_append, List.length_cons]
  omega

theorem compact_fixtureToken : Compact fixtureToken fixtureHeader fixturePayload fixtureSignature where
  joined := rfl
  nonempty := by decide
  plain := by decide

theorem verify_accepts_fixture :
    ∃ id, id.asStr = "acct-123" ∧ fixtureVerifier.verify fixtureCrates fixtureToken "n" 1000 = .ok id := by
  have hclaims : (fixtureToken.splitOn dot).getD 1 [] = fixturePayload := by
    rw [splitOn_eq_three.mpr ⟨compact_fixtureToken.joined, compact_fixtureToken.plain⟩]
    rfl
  have hformed : WellFormedId "acct-123" := by decide
  refine ⟨⟨"acct-123", hformed⟩, rfl, ?_⟩
  apply (verify_accepts_iff fixtureCrates fixtureVerifier fixtureToken "n" 1000 ⟨"acct-123", hformed⟩ ?_).1.mpr
  · refine ⟨fixtureHeader, fixturePayload, fixtureSignature, ⟨"RS256", "k"⟩, fixtureKey, fixtureClaims, ?_⟩
    refine ⟨short_fixtureToken, by decide, compact_fixtureToken, reads_fixtureHeader, rfl, by decide, ?_, signed_fixture,
      reads_fixturePayload, ?_⟩
    · exact ⟨List.mem_cons_self, rfl, rfl, rfl, by decide, by decide⟩
    · refine ⟨rfl, rfl, by decide, by decide, by decide, rfl, .inl rfl, ?_, hformed⟩
      rintro other (h | ⟨namespaced, hnone, -⟩)
      · exact (Option.some.inj h).symm
      · cases hnone
  · intro claims hdecoded _
    rw [hclaims, decodeClaims_eq_ok.mpr reads_fixturePayload] at hdecoded
    cases hdecoded
    rfl

end Fixture

end OpenaiRs.IdToken
