import OpenaiRs.IdToken.Acceptance

/-!
# Keys that are published beside the one of a token

A key set of an issuer may hold keys of every type. The decoder wants the members of an RSA key of all of them, so
further keys leave the decoding and the verification alone exactly when they have these members.
-/

namespace OpenaiRs.IdToken

open Rust Serde

/-- The members that a key type has. -/
def typeMembers : String → List String
  | "RSA" => ["n", "e"]
  | "EC" => ["crv", "x", "y"]
  | "oct" => ["k"]
  | "OKP" => ["crv", "x"]
  | _ => []

/-- The members of a JSON web key: their names are distinct, the type is there with its members, and the use, the
algorithm and the identifier are texts where they are there. -/
structure ValidJwk (members : Map) : Prop where
  nodup : (members.map Prod.fst).Nodup
  kty : ∃ kty, members.get "kty" = some (.string kty) ∧
    ∀ name ∈ typeMembers kty, ∃ text, members.get name = some (.string text)
  texts : ∀ name ∈ ["use", "alg", "kid"], members.get name = none ∨ ∃ text, members.get name = some (.string text)

/-- The members that the decoder wants besides the type. -/
def Readable (members : Map) : Prop := ∀ name ∈ ["kid", "n", "e"], ∃ text, members.get name = some (.string text)

/-- A document with the keys, and with members before and after them. -/
def jwksDocument (before after : Map) (keys : List Value) : Value :=
  .object (before ++ ("keys", .array keys) :: after)

/-- The longer document is decoded if the shorter one is, and verification is the same with both. -/
structure Unaffected (crates : Crates) (document longer : Value) (token : Bytes) (nonce : String) (now : UInt64) :
    Prop where
  decodes : (JsonWebKeySet.deserialize longer).isSome = (JsonWebKeySet.deserialize document).isSome
  verifies : ∀ verifier other : OidcVerifier, other.issuer = verifier.issuer → other.audience = verifier.audience →
    JsonWebKeySet.deserialize document = some verifier.jwks → JsonWebKeySet.deserialize longer = some other.jwks →
      other.verify crates token nonce now = verifier.verify crates token nonce now

theorem Reads.unique {α : Type} {crates : Crates} {read : Value → Option α} {segment : Bytes} {a b : α}
    (ha : Reads crates read segment a) (hb : Reads crates read segment b) : a = b := by
  obtain ⟨bytes, document, hbytes, hdocument, ha⟩ := ha
  obtain ⟨bytes', document', hbytes', hdocument', hb⟩ := hb
  rw [hbytes] at hbytes'
  cases hbytes'
  rw [hdocument] at hdocument'
  cases hdocument'
  exact Option.some.inj (ha.symm.trans hb)

section Traversal

variable {α β : Type} {read : α → Option β} {items : List α}

theorem isSome_mapM_iff : (items.mapM read).isSome ↔ ∀ a ∈ items, (read a).isSome := by
  induction items with
  | nil => exact ⟨fun _ => List.forall_mem_nil _, fun _ => rfl⟩
  | cons a rest ih =>
      rw [List.mapM_cons, List.forall_mem_cons, ← ih]
      cases read a with
      | none => simp
      | some b => cases rest.mapM read <;> simp

theorem filterMap_of_mapM {results : List β} (h : items.mapM read = some results) : items.filterMap read = results := by
  induction items generalizing results with
  | nil =>
      rw [List.mapM_nil] at h
      exact Option.some.inj h
  | cons a rest ih =>
      rw [List.mapM_cons] at h
      obtain ⟨b, hb, h⟩ := Option.bind_eq_some_iff.mp h
      obtain ⟨others, hothers, h⟩ := Option.bind_eq_some_iff.mp h
      rw [List.filterMap_cons, hb, ih hothers]
      exact Option.some.inj h

end Traversal

section Decoding

variable {members before after : Map} {keys : List Value}

theorem required_asStr {found : Option Value} {text : String} :
    (Found.ofMember found).required Value.asStr = some text ↔ found = some (.string text) := by
  cases found with
  | none => exact ⟨nofun, nofun⟩
  | some v => cases v <;> simp [Found.ofMember, Found.required, Value.asStr]

theorem optional_asStr {found : Option Value} (h : found = none ∨ ∃ text, found = some (.string text)) :
    ∃ text, (Found.ofMember found).optional Value.asStr = some text := by
  obtain rfl | ⟨text, rfl⟩ := h
  · exact ⟨none, rfl⟩
  · exact ⟨some text, rfl⟩

/-- A valid key is decoded exactly when it has an identifier, a modulus and an exponent. -/
theorem isSome_deserialize_iff (h : ValidJwk members) :
    (JsonWebKey.deserialize (.object members)).isSome ↔ Readable members := by
  obtain ⟨kty, hkty, -⟩ := h.kty
  obtain ⟨usage, husage⟩ := optional_asStr (h.texts "use" (by simp))
  obtain ⟨alg, halg⟩ := optional_asStr (h.texts "alg" (by simp))
  rw [JsonWebKey.deserialize, visit_of_nodup h.nodup, Option.isSome_iff_exists]
  simp only [Option.bind_eq_bind, Option.bind_some, Option.bind_eq_some_iff, required_asStr, hkty, husage, halg]
  constructor
  · rintro ⟨key, kty', -, kid, hkid, n, hn, e, he, -⟩
    rintro name (⟨⟩ | ⟨_, ⟨⟩ | ⟨_, ⟨⟩ | ⟨_, ⟨⟩⟩⟩⟩)
    · exact ⟨kid, hkid⟩
    · exact ⟨n, hn⟩
    · exact ⟨e, he⟩
  · intro hreadable
    obtain ⟨kid, hkid⟩ := hreadable "kid" (by simp)
    obtain ⟨n, hn⟩ := hreadable "n" (by simp)
    obtain ⟨e, he⟩ := hreadable "e" (by simp)
    exact ⟨⟨kty, kid, usage, alg, n, e⟩, kty, rfl, kid, hkid, n, hn, e, he, rfl⟩

theorem kid_of_deserialize {key : JsonWebKey} (hnodup : (members.map Prod.fst).Nodup)
    (h : JsonWebKey.deserialize (.object members) = some key) : members.get "kid" = some (.string key.kid) := by
  rw [JsonWebKey.deserialize, visit_of_nodup hnodup] at h
  simp only [Option.bind_eq_bind, Option.bind_some, Option.bind_eq_some_iff, required_asStr] at h
  obtain ⟨kty, -, kid, hkid, usage, -, alg, -, n, -, e, -, hkey⟩ := h
  cases hkey
  exact hkid

theorem visit_jwksDocument :
    visit ["keys"] (jwksDocument before after keys) =
      if "keys" ∈ (before ++ after).map Prod.fst then none
      else some fun key => .ofMember (Map.get (before ++ ("keys", .array keys) :: after) key) := by
  have hnodup : (((before ++ ("keys", Value.array keys) :: after).map Prod.fst).filter (· ∈ ["keys"])).Nodup ↔
      "keys" ∉ (before ++ after).map Prod.fst := by
    have hfilter : ∀ names : List String, names.filter (· ∈ ["keys"]) = List.replicate (names.count "keys") "keys" := by
      intro names
      rw [← List.filter_eq]
      exact List.filter_congr fun name _ => by simp
    rw [hfilter, List.nodup_replicate, List.map_append, List.map_cons, List.count_append, List.count_cons_self,
      List.map_append, List.mem_append, not_or, ← List.count_eq_zero, ← List.count_eq_zero]
    omega
  rw [jwksDocument, visit]
  split
  · rename_i h
    rw [if_neg (hnodup.mp h)]
  · rename_i h
    rw [if_pos (by_contra fun habsent => h (hnodup.mpr habsent))]

theorem deserialize_jwksDocument (h : "keys" ∉ (before ++ after).map Prod.fst) :
    JsonWebKeySet.deserialize (jwksDocument before after keys) = (keys.mapM JsonWebKey.deserialize).map .mk := by
  have hget : Map.get (before ++ ("keys", .array keys) :: after) "keys" = some (.array keys) := by
    have hbefore : before.get "keys" = none := by
      rw [← Option.not_isSome_iff_eq_none, ← Map.containsKey_eq_isSome, Bool.not_eq_true, Map.containsKey_eq_false_iff]
      intro member hmember heq
      rw [List.map_append] at h
      exact h (List.mem_append_left _ (List.mem_map.mpr ⟨member, hmember, heq⟩))
    rw [Map.get_append, hbefore, Option.none_or, Map.get_cons, if_pos rfl]
  rw [JsonWebKeySet.deserialize, visit_jwksDocument, if_neg h]
  simp only [Option.bind_eq_bind, Option.bind_some, hget]
  cases hkeys : keys.mapM JsonWebKey.deserialize with
  | none => simp [Found.ofMember, Found.required, Value.asArray, hkeys]
  | some results => simp [Found.ofMember, Found.required, Value.asArray, hkeys]

theorem deserialize_jwksDocument_repeated (h : "keys" ∈ (before ++ after).map Prod.fst) :
    JsonWebKeySet.deserialize (jwksDocument before after keys) = none := by
  rw [JsonWebKeySet.deserialize, visit_jwksDocument, if_pos h]
  rfl

end Decoding

section Extension

variable {before after : Map} {keys keys' : List Value} {added : List Map}

/-- The longer key set is decoded if the shorter one is and every added key is readable. -/
theorem isSome_longer_iff (hadded : keys'.Perm (keys ++ added.map .object)) (hvalid : ∀ jwk ∈ added, ValidJwk jwk)
    (h : "keys" ∉ (before ++ after).map Prod.fst) :
    (JsonWebKeySet.deserialize (jwksDocument before after keys')).isSome ↔
      (JsonWebKeySet.deserialize (jwksDocument before after keys)).isSome ∧ ∀ jwk ∈ added, Readable jwk := by
  rw [deserialize_jwksDocument h, deserialize_jwksDocument h, Option.isSome_map, Option.isSome_map, isSome_mapM_iff,
    isSome_mapM_iff]
  constructor
  · intro hall
    constructor
    · exact fun key hkey => hall key (hadded.symm.subset (List.mem_append_left _ hkey))
    · intro jwk hjwk
      apply (isSome_deserialize_iff (hvalid jwk hjwk)).mp
      exact hall _ (hadded.symm.subset (List.mem_append_right _ (List.mem_map_of_mem hjwk)))
  · rintro ⟨hkeys, hreadable⟩ key hkey
    obtain hkey | hkey := List.mem_append.mp (hadded.subset hkey)
    · exact hkeys key hkey
    · obtain ⟨jwk, hjwk, rfl⟩ := List.mem_map.mp hkey
      exact (isSome_deserialize_iff (hvalid jwk hjwk)).mpr (hreadable jwk hjwk)

/-- The key that matches an identifier is the same in the longer key set, where no added key has the identifier. -/
theorem matchingKey_longer {parsed longer : JsonWebKeySet} {kid : String}
    (hadded : keys'.Perm (keys ++ added.map .object)) (hvalid : ∀ jwk ∈ added, ValidJwk jwk)
    (hkid : ∀ jwk ∈ added, jwk.get "kid" ≠ some (.string kid))
    (hparsed : JsonWebKeySet.deserialize (jwksDocument before after keys) = some parsed)
    (hlonger : JsonWebKeySet.deserialize (jwksDocument before after keys') = some longer) :
    matchingKey longer.keys kid = matchingKey parsed.keys kid := by
  have h : "keys" ∉ (before ++ after).map Prod.fst := by
    intro hrepeated
    rw [deserialize_jwksDocument_repeated hrepeated] at hparsed
    cases hparsed
  rw [deserialize_jwksDocument h] at hparsed hlonger
  obtain ⟨results, hresults, rfl⟩ := Option.map_eq_some_iff.mp hparsed
  obtain ⟨results', hresults', rfl⟩ := Option.map_eq_some_iff.mp hlonger
  have hperm : results'.Perm (results ++ (added.map .object).filterMap JsonWebKey.deserialize) := by
    rw [← filterMap_of_mapM hresults, ← filterMap_of_mapM hresults', ← List.filterMap_append]
    exact hadded.filterMap _
  have hothers : ((added.map .object).filterMap JsonWebKey.deserialize).filter (·.kid = kid) = [] := by
    apply List.filter_eq_nil_iff.mpr
    intro key hkey heq
    obtain ⟨jwk, hjwk, hread⟩ := List.mem_filterMap.mp hkey
    obtain ⟨members, hmembers, rfl⟩ := List.mem_map.mp hjwk
    apply hkid members hmembers
    rw [kid_of_deserialize (hvalid members hmembers).nodup hread, of_decide_eq_true heq]
  rw [matchingKey_perm hperm, matchingKey, matchingKey, List.filter_append, hothers, List.append_nil]

end Extension

/-- Further keys with other identifiers leave a key set and the verification alone exactly when the key set was not
readable before, for a repeated member or one of its own keys, or all of them have an identifier, a modulus and an
exponent. -/
theorem published_keys_unaffected_iff (crates : Crates) (before after : Map) (keys keys' : List Value) (added : List Map)
    (token : Bytes) (nonce : String) (now : UInt64) (hadded : keys'.Perm (keys ++ added.map .object))
    (hvalid : ∀ jwk ∈ added, ValidJwk jwk)
    (hkid : ∀ jwk ∈ added, ∀ header, Reads crates JwtHeader.deserialize ((token.splitOn dot).getD 0 []) header →
      jwk.get "kid" ≠ some (.string header.kid)) :
    Unaffected crates (jwksDocument before after keys) (jwksDocument before after keys') token nonce now ↔
      "keys" ∈ (before ++ after).map Prod.fst ∨ (∃ key ∈ keys, JsonWebKey.deserialize key = none) ∨
        ∀ jwk ∈ added, Readable jwk := by
  have hverifies : ∀ verifier other : OidcVerifier, other.issuer = verifier.issuer → other.audience = verifier.audience →
      JsonWebKeySet.deserialize (jwksDocument before after keys) = some verifier.jwks →
      JsonWebKeySet.deserialize (jwksDocument before after keys') = some other.jwks →
        other.verify crates token nonce now = verifier.verify crates token nonce now := by
    intro verifier other hissuer haudience hparsed hlonger
    apply verify_congr hissuer haudience
    intro header hheader
    exact matchingKey_longer hadded hvalid (fun jwk hjwk => hkid jwk hjwk header hheader) hparsed hlonger
  by_cases h : "keys" ∈ (before ++ after).map Prod.fst
  · have hdecodes : (JsonWebKeySet.deserialize (jwksDocument before after keys')).isSome =
        (JsonWebKeySet.deserialize (jwksDocument before after keys)).isSome := by
      rw [deserialize_jwksDocument_repeated h, deserialize_jwksDocument_repeated h]
    exact ⟨fun _ => .inl h, fun _ => ⟨hdecodes, hverifies⟩⟩
  · have hown : (JsonWebKeySet.deserialize (jwksDocument before after keys)).isSome ↔
        ¬ ∃ key ∈ keys, JsonWebKey.deserialize key = none := by
      rw [deserialize_jwksDocument h, Option.isSome_map, isSome_mapM_iff]
      simp [Option.isSome_iff_ne_none]
    have hlonger := isSome_longer_iff hadded hvalid h
    constructor
    · intro hunaffected
      by_cases hunreadable : ∃ key ∈ keys, JsonWebKey.deserialize key = none
      · exact .inr (.inl hunreadable)
      · refine .inr (.inr (hlonger.mp ?_).2)
        rw [hunaffected.decodes]
        exact hown.mpr hunreadable
    · rintro (hrepeated | hunreadable | hreadable)
      · exact absurd hrepeated h
      · refine ⟨Bool.eq_iff_iff.mpr ⟨fun hsome => (hlonger.mp hsome).1, fun hsome => ?_⟩, hverifies⟩
        exact absurd hunreadable (hown.mp hsome)
      · exact ⟨Bool.eq_iff_iff.mpr ⟨fun hsome => (hlonger.mp hsome).1, fun hsome => hlonger.mpr ⟨hsome, hreadable⟩⟩, hverifies⟩

section Fixture

def fixtureJwk : Map :=
  [("kty", .string "RSA"), ("kid", .string "k"), ("use", .string "sig"), ("alg", .string "RS256"), ("n", .string "AQAB"),
    ("e", .string "AQAB")]

/-- A key that takes the place of the fixture's one. -/
def nextJwk : Map := [("kty", .string "RSA"), ("kid", .string "next"), ("n", .string "AQAB"), ("e", .string "AQAB")]

def ellipticJwk : Map :=
  [("kty", .string "EC"), ("kid", .string "next"), ("crv", .string "P-256"), ("x", .string "AQAB"), ("y", .string "AQAB")]

theorem validJwk_next : ValidJwk nextJwk where
  nodup := by decide
  kty := by
    refine ⟨"RSA", rfl, ?_⟩
    rintro name (⟨⟩ | ⟨_, ⟨⟩ | ⟨_, ⟨⟩⟩⟩)
    · exact ⟨_, rfl⟩
    · exact ⟨_, rfl⟩
  texts := by
    rintro name (⟨⟩ | ⟨_, ⟨⟩ | ⟨_, ⟨⟩ | ⟨_, ⟨⟩⟩⟩⟩)
    · exact .inl rfl
    · exact .inl rfl
    · exact .inr ⟨_, rfl⟩

theorem validJwk_elliptic : ValidJwk ellipticJwk where
  nodup := by decide
  kty := by
    refine ⟨"EC", rfl, ?_⟩
    rintro name (⟨⟩ | ⟨_, ⟨⟩ | ⟨_, ⟨⟩ | ⟨_, ⟨⟩⟩⟩⟩)
    · exact ⟨_, rfl⟩
    · exact ⟨_, rfl⟩
    · exact ⟨_, rfl⟩
  texts := by
    rintro name (⟨⟩ | ⟨_, ⟨⟩ | ⟨_, ⟨⟩ | ⟨_, ⟨⟩⟩⟩⟩)
    · exact .inl rfl
    · exact .inl rfl
    · exact .inr ⟨_, rfl⟩

theorem fixtureToken_kid {header : JwtHeader}
    (h : Reads fixtureCrates JwtHeader.deserialize ((fixtureToken.splitOn dot).getD 0 []) header) : header.kid = "k" := by
  rw [splitOn_eq_three.mpr ⟨compact_fixtureToken.joined, compact_fixtureToken.plain⟩] at h
  rw [Reads.unique h reads_fixtureHeader]

theorem published_keys_unaffected_next :
    Unaffected fixtureCrates (jwksDocument [] [] [.object fixtureJwk])
      (jwksDocument [] [] [.object nextJwk, .object fixtureJwk]) fixtureToken "n" 1000 := by
  apply (published_keys_unaffected_iff fixtureCrates [] [] _ _ [nextJwk] fixtureToken "n" 1000 ?_ ?_ ?_).mpr
  · refine .inr (.inr (List.forall_mem_singleton.mpr ?_))
    rintro name (⟨⟩ | ⟨_, ⟨⟩ | ⟨_, ⟨⟩ | ⟨_, ⟨⟩⟩⟩⟩)
    · exact ⟨_, rfl⟩
    · exact ⟨_, rfl⟩
    · exact ⟨_, rfl⟩
  · exact .swap _ _ _
  · exact List.forall_mem_singleton.mpr validJwk_next
  · intro jwk hjwk header hheader hkid
    rw [List.mem_singleton.mp hjwk, fixtureToken_kid hheader] at hkid
    exact absurd (Value.string.inj (Option.some.inj hkid)) (by decide)

/-- An elliptic-curve key makes the whole key set unreadable. -/
theorem elliptic_key_affects :
    ValidJwk ellipticJwk ∧
    (∀ header, Reads fixtureCrates JwtHeader.deserialize ((fixtureToken.splitOn dot).getD 0 []) header →
      Map.get ellipticJwk "kid" ≠ some (.string header.kid)) ∧
    ¬ Unaffected fixtureCrates (jwksDocument [] [] [.object fixtureJwk])
      (jwksDocument [] [] [.object fixtureJwk, .object ellipticJwk]) fixtureToken "n" 1000 := by
  refine ⟨validJwk_elliptic, ?_, ?_⟩
  · intro header hheader hkid
    rw [fixtureToken_kid hheader] at hkid
    exact absurd (Value.string.inj (Option.some.inj hkid)) (by decide)
  · intro h
    cases h.decodes

end Fixture

end OpenaiRs.IdToken
