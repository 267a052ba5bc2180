import OpenaiRs.Webhooks.Parts

/-!
# Which deliveries are accepted

`verify_at` succeeds exactly for the deliveries that its headers, the clock, the secret and
the payload make acceptable, and the outcome only depends on the set of signature
candidates.
-/

namespace OpenaiRs.Webhooks

open Rust Serde Json

section Specification

variable {Event : Type}

/-- The timestamp header: one value of digits that fits a word and lies within the window. -/
structure ValidTimestamp (fits : Bytes → Prop) (v : WebhookVerifier) (headers : HeaderMap) (now : Nat)
    (timestamp : Bytes) : Prop where
  single : getAll headers "webhook-timestamp" = [timestamp]
  digits : Digits timestamp
  fits : fits timestamp
  word : decimalValue timestamp < UInt64.size
  notOld : now ≤ decimalValue timestamp + v.toleranceSeconds
  notNew : decimalValue timestamp ≤ now + v.toleranceSeconds

/-- The id header: one printable value of bounded length. -/
structure ValidId (headers : HeaderMap) (webhookId : Bytes) : Prop where
  single : getAll headers "webhook-id" = [webhookId]
  nonempty : webhookId ≠ []
  fits : webhookId.length ≤ maxWebhookIdBytes
  printable : Printable webhookId

/-- What makes a delivery acceptable, for a bound on the timestamp text and a way of joining
the signature header values. -/
structure Acceptable (fits : Bytes → Prop) (join : List Bytes → Bytes) (crates : Crates Event)
    (v : WebhookVerifier) (payload : Bytes) (headers : HeaderMap) (now : Nat)
    (webhook : VerifiedWebhook Event) : Prop where
  limit : payload.length ≤ v.maxPayloadBytes
  webhookId : ValidId headers webhook.webhookId
  visible : ∀ value ∈ getAll headers "webhook-signature", value.all isVisibleAscii = true
  joined : (join (getAll headers "webhook-signature")).length ≤ maxSignatureHeaderBytes
  signature : ∃ timestamp key, ValidTimestamp fits v headers now timestamp ∧
    SigningKey crates v.secret key ∧
    ∃ candidate ∈ candidates (getAll headers "webhook-signature"),
      Signs crates candidate (crates.hmacSha256 key (signedBytes webhook.webhookId timestamp payload))
  event : crates.fromSlice payload = .ok webhook.body

/-- A timestamp text has at most 32 bytes. -/
def TimestampFits (timestamp : Bytes) : Prop := timestamp.length ≤ maxTimestampBytes

instance decidableTimestampFits (timestamp : Bytes) : Decidable (TimestampFits timestamp) :=
  inferInstanceAs (Decidable (timestamp.length ≤ maxTimestampBytes))

end Specification

section Equivalence

variable {Event : Type} {crates : Crates Event}

theorem printable_of_digits {text : Bytes} (h : Digits text) : Printable text := by
  intro b hmem
  have hdigit := h.2 b hmem
  simp only [isAsciiDigit, Bool.and_eq_true, decide_eq_true_eq, UInt8.le_iff_toNat_le] at hdigit
  rw [UInt8.le_iff_toNat_le, UInt8.lt_iff_toNat_lt]
  simp only [show (0x20 : UInt8).toNat = 32 from rfl, show (0x7F : UInt8).toNat = 127 from rfl,
    show (0x30 : UInt8).toNat = 48 from rfl, show (0x39 : UInt8).toNat = 57 from rfl] at hdigit ⊢
  omega

theorem checkTimestamp_eq_ok {v : WebhookVerifier} {headers : HeaderMap} {now : Nat}
    {timestamp : Bytes} :
    v.checkTimestamp headers now = .ok timestamp ↔
      ValidTimestamp TimestampFits v headers now timestamp := by
  rw [WebhookVerifier.checkTimestamp, bind_eq_ok]
  constructor
  · rintro ⟨text, hrequired, h⟩
    obtain ⟨hsingle, hne, hfits, -⟩ := requiredHeader_eq_ok.mp hrequired
    split at h
    · cases h
    · rename_i hstrict
      have hdigits : Digits text := by
        refine ⟨hne, ?_⟩
        simpa [hne] using hstrict
      rw [parseU64_digits hne (List.all_eq_true.mpr hdigits.2)] at h
      by_cases hword : decimalValue text < UInt64.size
      · rw [if_pos hword] at h
        simp only at h
        split at h
        · cases h
        · split at h
          · cases h
          · cases h
            exact ⟨hsingle, hdigits, hfits, hword, by omega, by omega⟩
      · rw [if_neg hword] at h
        cases h
  · intro h
    refine ⟨timestamp, ?_, ?_⟩
    · rw [requiredHeader_eq_ok]
      exact ⟨h.single, h.digits.1, h.fits, printable_of_digits h.digits⟩
    · have hall : timestamp.all isAsciiDigit = true := List.all_eq_true.mpr h.digits.2
      have hnotOld : ¬ v.toleranceSeconds < now - decimalValue timestamp := by
        have := h.notOld
        omega
      have hnotNew : ¬ v.toleranceSeconds < decimalValue timestamp - now := by
        have := h.notNew
        omega
      rw [parseU64_digits h.digits.1 hall, if_pos h.word, if_neg (by simp [h.digits.1, hall])]
      simp only [if_neg hnotOld, if_neg hnotNew]

theorem authenticate_eq (signatures : List Tag) (key webhookId timestamp payload : Bytes) :
    WebhookVerifier.authenticate crates signatures key webhookId timestamp payload =
      if crates.hmacSha256 key (signedBytes webhookId timestamp payload) ∈ signatures then
        WebhookVerifier.decodeEvent crates webhookId payload
      else .error .signatureMismatch := by
  simp only [WebhookVerifier.authenticate, selectSignature_eq]
  split
  · rename_i hselected
    split at hselected
    · cases hselected
    · rename_i hmem
      rw [if_neg hmem]
  · rename_i signature hselected
    split at hselected
    · rename_i hmem
      cases hselected
      rw [if_pos hmem, if_neg (by simp)]
    · cases hselected

theorem authenticate_eq_ok {signatures : List Tag} {key webhookId timestamp payload : Bytes}
    {webhook : VerifiedWebhook Event} :
    WebhookVerifier.authenticate crates signatures key webhookId timestamp payload = .ok webhook ↔
      crates.hmacSha256 key (signedBytes webhookId timestamp payload) ∈ signatures ∧
        crates.fromSlice payload = .ok webhook.body ∧ webhookId = webhook.webhookId := by
  rw [authenticate_eq, WebhookVerifier.decodeEvent]
  split
  · rename_i hmem
    cases hevent : crates.fromSlice payload with
    | error error => simp
    | ok event =>
        cases webhook with
        | mk id body => simp [hmem, and_comm]
  · rename_i hmem
    simp [hmem]

/-- A decoded signature comes from a candidate. -/
theorem mem_signatures {header : Bytes} {tag : Tag} :
    tag ∈ (splitAsciiWhitespace header).filterMap (decodeCandidate crates) ↔
      ∃ candidate ∈ splitAsciiWhitespace header, Signs crates candidate tag := by
  simp only [List.mem_filterMap, decodeCandidate_eq_some]

theorem signatureBound : maxSignatureHeaderBytes < usizeSize - 1 := by decide

/-- Joined values with a candidate are not empty. -/
theorem joinSpaces_ne_nil {values : List Bytes} {candidate : Bytes}
    (h : candidate ∈ candidates values) : joinSpaces values ≠ [] := by
  intro hnil
  rw [← split_joinSpaces, hnil] at h
  cases h

/-- `verify_at` succeeds exactly for acceptable deliveries. -/
theorem verifyAt_eq_ok {v : WebhookVerifier} {payload : Bytes} {headers : HeaderMap} {now : Nat}
    {webhook : VerifiedWebhook Event} :
    v.verifyAt crates payload headers now = .ok webhook ↔
      Acceptable TimestampFits joinSpaces crates v payload headers now webhook := by
  rw [WebhookVerifier.verifyAt]
  constructor
  · intro h
    split at h
    · cases h
    · rename_i hpayload
      obtain ⟨timestamp, htimestamp, h⟩ := bind_eq_ok.mp h
      obtain ⟨webhookId, hid, h⟩ := bind_eq_ok.mp h
      obtain ⟨header, hheader, h⟩ := bind_eq_ok.mp h
      obtain ⟨signatures, hsignatures, h⟩ := bind_eq_ok.mp h
      obtain ⟨key, hkey, h⟩ := bind_eq_ok.mp h
      obtain ⟨hmem, hevent, rfl⟩ := authenticate_eq_ok.mp h
      obtain ⟨hsingle, hne, hfits, hprintable⟩ := requiredHeader_eq_ok.mp hid
      obtain ⟨hvisible, rfl, -, hlength⟩ := (joinValues_empty signatureBound _).mp hheader
      obtain ⟨rfl, -⟩ := (decodeSignatures_eq_ok crates).mp hsignatures
      obtain ⟨candidate, hcandidate, hsigns⟩ := mem_signatures.mp hmem
      rw [split_joinSpaces] at hcandidate
      exact ⟨Nat.not_lt.mp hpayload, ⟨hsingle, hne, hfits, hprintable⟩, hvisible, hlength,
        ⟨timestamp, key, checkTimestamp_eq_ok.mp htimestamp, (decodeSecret_eq_ok crates).mp hkey,
          candidate, hcandidate, hsigns⟩, hevent⟩
  · rintro ⟨hpayload, hid, hvisible, hlength, ⟨timestamp, key, htimestamp, hkey, candidate,
      hcandidate, hsigns⟩, hevent⟩
    have hmem : crates.hmacSha256 key (signedBytes webhook.webhookId timestamp payload) ∈
        (splitAsciiWhitespace (joinSpaces (getAll headers "webhook-signature"))).filterMap
          (decodeCandidate crates) := by
      rw [mem_signatures, split_joinSpaces]
      exact ⟨candidate, hcandidate, hsigns⟩
    rw [if_neg (Nat.not_lt.mpr hpayload), bind_eq_ok]
    refine ⟨timestamp, checkTimestamp_eq_ok.mpr htimestamp, bind_eq_ok.mpr ?_⟩
    refine ⟨webhook.webhookId, requiredHeader_eq_ok.mpr ⟨hid.single, hid.nonempty, hid.fits,
      hid.printable⟩, bind_eq_ok.mpr ?_⟩
    refine ⟨_, (joinValues_empty signatureBound _).mpr ⟨hvisible, rfl, joinSpaces_ne_nil hcandidate,
      hlength⟩, bind_eq_ok.mpr ?_⟩
    refine ⟨_, (decodeSignatures_eq_ok crates).mpr ⟨rfl, List.ne_nil_of_mem hmem⟩,
      bind_eq_ok.mpr ?_⟩
    exact ⟨key, (decodeSecret_eq_ok crates).mpr hkey, authenticate_eq_ok.mpr ⟨hmem, hevent, rfl⟩⟩

end Equivalence

section Spread

variable {Event : Type} {crates : Crates Event}

/-- Two header maps that differ at most in how the same signature candidates are written. -/
structure SameCandidates (headers headers' : HeaderMap) : Prop where
  timestamp : getAll headers "webhook-timestamp" = getAll headers' "webhook-timestamp"
  webhookId : getAll headers "webhook-id" = getAll headers' "webhook-id"
  candidates : ∀ candidate, candidate ∈ candidates (getAll headers "webhook-signature") ↔
    candidate ∈ candidates (getAll headers' "webhook-signature")

/-- The joined signature header values stay within the bound. -/
def SignaturesFit (headers : HeaderMap) : Prop :=
  (joinSpaces (getAll headers "webhook-signature")).length ≤ maxSignatureHeaderBytes

/-- With a candidate and within the bound, joining fails only for values that are not visible. -/
theorem joinedHeaderValues_eq {headers : HeaderMap} (hfits : SignaturesFit headers) {candidate : Bytes}
    (hmem : candidate ∈ candidates (getAll headers "webhook-signature")) :
    joinedHeaderValues headers "webhook-signature" maxSignatureHeaderBytes =
      if (candidates (getAll headers "webhook-signature")).all (·.all isVisibleAscii) then
        .ok (joinSpaces (getAll headers "webhook-signature"))
      else .error (.invalidHeader "webhook-signature") := by
  have hiff : (candidates (getAll headers "webhook-signature")).all (·.all isVisibleAscii) = true ↔
      ∀ value ∈ getAll headers "webhook-signature", value.all isVisibleAscii = true := by
    rw [visible_iff_candidates]
    simp only [List.all_eq_true]
  split
  · rename_i hall
    exact (joinValues_empty signatureBound _).mpr ⟨hiff.mp hall, rfl, joinSpaces_ne_nil hmem, hfits⟩
  · rename_i hall
    exact joinValues_empty_invisible signatureBound (fun h => hall (hiff.mpr h)) hfits

/-- Decoding only depends on the set of candidates, up to the order and multiplicity of the
signatures. -/
theorem decodeSignatures_bind_congr {β : Type} {header header' : Bytes}
    (hcandidates : ∀ candidate, candidate ∈ splitAsciiWhitespace header ↔
      candidate ∈ splitAsciiWhitespace header')
    {next : List Tag → Except WebhookVerificationError β}
    (hnext : ∀ signatures signatures', (∀ tag, tag ∈ signatures ↔ tag ∈ signatures') →
      next signatures = next signatures') :
    (decodeSignatures crates header >>= next) = (decodeSignatures crates header' >>= next) := by
  have hsame : ∀ tag, tag ∈ (splitAsciiWhitespace header).filterMap (decodeCandidate crates) ↔
      tag ∈ (splitAsciiWhitespace header').filterMap (decodeCandidate crates) := by
    intro tag
    simp only [List.mem_filterMap, hcandidates]
  have hempty : ((splitAsciiWhitespace header).filterMap (decodeCandidate crates)).isEmpty =
      ((splitAsciiWhitespace header').filterMap (decodeCandidate crates)).isEmpty := by
    rw [Bool.eq_iff_iff, List.isEmpty_iff, List.isEmpty_iff, List.eq_nil_iff_forall_not_mem,
      List.eq_nil_iff_forall_not_mem]
    exact forall_congr' fun tag => not_congr (hsame tag)
  simp only [decodeSignatures, hempty]
  split
  · rfl
  · exact hnext _ _ hsame

theorem verifyAt_congr (v : WebhookVerifier) (payload : Bytes) {headers headers' : HeaderMap}
    (now : Nat) (hsame : SameCandidates headers headers') (hfits : SignaturesFit headers)
    (hfits' : SignaturesFit headers')
    (hne : candidates (getAll headers "webhook-signature") ≠ []) :
    v.verifyAt crates payload headers now = v.verifyAt crates payload headers' now := by
  obtain ⟨candidate, rest, hcons⟩ := List.exists_cons_of_ne_nil hne
  have hmem : candidate ∈ candidates (getAll headers "webhook-signature") := by simp [hcons]
  have htimestamp : v.checkTimestamp headers now = v.checkTimestamp headers' now := by
    simp only [WebhookVerifier.checkTimestamp, requiredHeader, hsame.timestamp]
  have hid : requiredHeader headers "webhook-id" maxWebhookIdBytes =
      requiredHeader headers' "webhook-id" maxWebhookIdBytes := by
    simp only [requiredHeader, hsame.webhookId]
  have hvisible : (candidates (getAll headers "webhook-signature")).all (·.all isVisibleAscii) =
      (candidates (getAll headers' "webhook-signature")).all (·.all isVisibleAscii) := by
    rw [Bool.eq_iff_iff, List.all_eq_true, List.all_eq_true]
    exact forall_congr' fun other => imp_congr_left (hsame.candidates other)
  simp only [WebhookVerifier.verifyAt, htimestamp, hid, joinedHeaderValues_eq hfits hmem,
    joinedHeaderValues_eq hfits' ((hsame.candidates candidate).mp hmem), hvisible]
  split
  · rfl
  · congr 1
    funext timestamp
    congr 1
    funext webhookId
    split
    · apply decodeSignatures_bind_congr
      · intro other
        rw [split_joinSpaces, split_joinSpaces]
        exact hsame.candidates other
      · intro signatures signatures' htags
        congr 1
        funext key
        simp only [authenticate_eq, htags]
    · rfl

/-- Without a candidate no delivery is accepted. -/
theorem verifyAt_no_candidates (v : WebhookVerifier) (payload : Bytes) {headers : HeaderMap} (now : Nat)
    (hnil : candidates (getAll headers "webhook-signature") = []) (webhook : VerifiedWebhook Event) :
    v.verifyAt crates payload headers now ≠ .ok webhook := by
  intro h
  obtain ⟨-, -, -, -, ⟨-, -, -, -, candidate, hmem, -⟩, -⟩ := verifyAt_eq_ok.mp h
  rw [hnil] at hmem
  cases hmem

/-- A delivery is accepted exactly if it is acceptable, and the order, the multiplicity and
the spread of the signature candidates over header lines do not matter within the bound: with a
candidate the outcome is the same, errors included, and without one there is no acceptance. -/
theorem verifyAt_accepts_exactly (crates : Crates Event) (v : WebhookVerifier) (payload : Bytes)
    (headers : HeaderMap) (now : Nat) :
    (∀ webhook, v.verifyAt crates payload headers now = .ok webhook ↔
      Acceptable TimestampFits joinSpaces crates v payload headers now webhook) ∧
    (∀ headers', SameCandidates headers headers' → SignaturesFit headers → SignaturesFit headers' →
      (candidates (getAll headers "webhook-signature") ≠ [] →
        v.verifyAt crates payload headers now = v.verifyAt crates payload headers' now) ∧
      (candidates (getAll headers "webhook-signature") = [] → ∀ webhook,
        v.verifyAt crates payload headers now ≠ .ok webhook ∧
        v.verifyAt crates payload headers' now ≠ .ok webhook)) := by
  refine ⟨fun webhook => verifyAt_eq_ok, ?_⟩
  intro headers' hsame hfits hfits'
  refine ⟨verifyAt_congr v payload now hsame hfits hfits', ?_⟩
  intro hnil webhook
  have hnil' : candidates (getAll headers' "webhook-signature") = [] := by
    rw [List.eq_nil_iff_forall_not_mem] at hnil ⊢
    exact fun candidate hmem => hnil candidate ((hsame.candidates candidate).mpr hmem)
  exact ⟨verifyAt_no_candidates v payload now hnil webhook,
    verifyAt_no_candidates v payload now hnil' webhook⟩

end Spread

section Deliveries

instance decidableSigns {Event : Type} (crates : Crates Event) (candidate : Bytes) (tag : Tag) :
    Decidable (Signs crates candidate tag) :=
  inferInstanceAs (Decidable (crates.base64 _ = some tag.toList))

/-- The payload of the deliveries below. -/
def deliveredPayload : Bytes := utf8 "\x7b\"type\":\"x\"\x7d"

def deliveredId : Bytes := utf8 "evt_1"

/-- The tag for the timestamp `1800000000`. -/
def deliveredTag : Tag :=
  #v[183, 82, 193, 110, 80, 106, 91, 150, 229, 84, 40, 251, 51, 242, 236, 212, 191, 88, 91, 70, 66,
    198, 14, 197, 46, 251, 109, 113, 96, 136, 239, 123]

def deliveredSignature : Bytes := utf8 "t1LBblBqW5blVCj7M/Ls1L9YW0ZCxg7FLvttcWCI73s="

/-- A timestamp text of 33 digits. -/
def paddedTimestamp : Bytes := utf8 "000000000000000000000001800000000"

/-- The tag for the padded timestamp. -/
def paddedTag : Tag :=
  #v[224, 125, 168, 18, 176, 9, 47, 209, 220, 223, 149, 172, 100, 227, 183, 106, 122, 197, 254, 47,
    229, 22, 248, 40, 235, 231, 223, 99, 56, 229, 107, 249]

def paddedSignature : Bytes := utf8 "4H2oErAJL9Hc35WsZOO3anrF/i/lFvgo6+ffYzjla/k="

/-- What the crates answer for the deliveries below, under the secret `webhook-test-secret`. -/
def recordedCrates : Crates Unit where
  base64 text :=
    if text = deliveredSignature then some deliveredTag.toList
    else if text = paddedSignature then some paddedTag.toList
    else none
  hmacSha256 _ message :=
    if message = signedBytes deliveredId paddedTimestamp deliveredPayload then paddedTag
    else deliveredTag
  fromSlice payload := if payload = deliveredPayload then .ok () else .error ⟨1, 0⟩
  valueFromSlice payload :=
    if payload = deliveredPayload then some (.object [("type", .string "x")]) else none

def recordedVerifier : WebhookVerifier := ⟨utf8 "webhook-test-secret", ⟨300000000000⟩, 1024⟩

/-- The headers of a delivery with the given timestamp and signature lines. -/
def deliveryHeaders (timestamp : HeaderValue) (signatures : List HeaderValue) : HeaderMap :=
  ("webhook-id", ⟨deliveredId, by decide⟩) :: ("webhook-timestamp", timestamp) ::
    signatures.map fun value => ("webhook-signature", value)

def recentTimestamp : HeaderValue := ⟨utf8 "1800000000", by decide⟩

/-- A signature line that fills the header bound with trailing spaces. -/
def fullLine : HeaderValue :=
  ⟨deliveredSignature ++ space :: List.replicate 8147 space, by
    rw [List.all_append, List.all_cons, List.all_replicate]
    decide⟩

theorem mem_candidates_fullLine : deliveredSignature ∈ candidates [[], fullLine.bytes] := by
  have hwords : words [] fullLine.bytes =
      words [] deliveredSignature ++ words [] (List.replicate 8147 space) :=
    words_append (by decide) [] deliveredSignature _
  have hmem : deliveredSignature ∈ words [] deliveredSignature := by decide
  rw [candidates, List.flatMap_cons, List.flatMap_cons, List.mem_append, List.mem_append]
  refine .inr (.inl ?_)
  rw [splitAsciiWhitespace, hwords]
  exact List.mem_append_left _ hmem

theorem verifyAt_paddedTimestamp :
    recordedVerifier.verifyAt recordedCrates deliveredPayload
      (deliveryHeaders ⟨paddedTimestamp, by decide⟩ [⟨paddedSignature, by decide⟩])
      1800000000 = .error (.invalidHeader "webhook-timestamp") := by
  decide

theorem fullLine_visible : fullLine.bytes.all isVisibleAscii = true := by
  rw [fullLine, List.all_append, List.all_cons, List.all_replicate]
  decide

theorem fullLine_length : fullLine.bytes.length = maxSignatureHeaderBytes := by
  rw [fullLine, List.length_append, List.length_cons, List.length_replicate]
  decide

theorem verifyAt_fullLine :
    recordedVerifier.verifyAt recordedCrates deliveredPayload
      (deliveryHeaders recentTimestamp [⟨[], rfl⟩, fullLine]) 1800000000 = .ok ⟨deliveredId, ()⟩ := by
  have hvalues : getAll (deliveryHeaders recentTimestamp [⟨[], rfl⟩, fullLine]) "webhook-signature" =
      [[], fullLine.bytes] := rfl
  have hjoined : joinSpaces [[], fullLine.bytes] = fullLine.bytes := by
    rw [joinSpaces, List.dropWhile_cons_of_pos (by rfl), List.dropWhile_cons_of_neg (by decide),
      List.intercalate_singleton]
  rw [verifyAt_eq_ok]
  refine ⟨by decide, ⟨rfl, by decide, by decide, ?_⟩, ?_, ?_, ?_, rfl⟩
  · rw [printable_iff]
    decide
  · rw [hvalues, List.forall_mem_cons, List.forall_mem_singleton]
    exact ⟨rfl, fullLine_visible⟩
  · rw [hvalues, hjoined]
    exact Nat.le_of_eq fullLine_length
  · refine ⟨utf8 "1800000000", utf8 "webhook-test-secret", ?_, ?_, deliveredSignature, ?_, ?_⟩
    · exact ⟨rfl, ⟨by decide, by decide⟩, by decide, by decide,
        by decide, by decide⟩
    · exact ⟨by decide, .inr ⟨by decide, rfl⟩⟩
    · rw [hvalues]
      exact mem_candidates_fullLine
    · decide

/-- A valid and an unusable candidate on two lines. -/
def twoLines : HeaderMap :=
  deliveryHeaders recentTimestamp
    [⟨deliveredSignature, by decide⟩, ⟨utf8 "v1,invalid", by decide⟩]

/-- The same candidates on one line, in the other order. -/
def oneLine : HeaderMap :=
  deliveryHeaders recentTimestamp [⟨utf8 "v1,invalid " ++ deliveredSignature, by decide⟩]

theorem verifyAt_accepts_two_lines :
    recordedVerifier.verifyAt recordedCrates deliveredPayload twoLines 1800000000 =
      recordedVerifier.verifyAt recordedCrates deliveredPayload oneLine 1800000000 := by
  have htwo : candidates (getAll twoLines "webhook-signature") =
      [deliveredSignature, utf8 "v1,invalid"] := by decide
  have hone : candidates (getAll oneLine "webhook-signature") =
      [utf8 "v1,invalid", deliveredSignature] := by decide
  refine ((verifyAt_accepts_exactly recordedCrates recordedVerifier deliveredPayload twoLines
    1800000000).2 oneLine ⟨rfl, rfl, ?_⟩ ?_ ?_).1 ?_
  · intro candidate
    rw [htwo, hone]
    simp [or_comm]
  · rw [SignaturesFit]
    decide
  · rw [SignaturesFit]
    decide
  · rw [htwo]
    exact List.cons_ne_nil _ _

/-- The bound on the text of the timestamp and the missing space behind leading empty values are
both observable, and so is which error a delivery without candidates gets. -/
theorem verifyAt_ne_plain_specification :
    (Acceptable (fun _ => True) [space].intercalate recordedCrates recordedVerifier deliveredPayload
        (deliveryHeaders ⟨paddedTimestamp, by decide⟩ [⟨paddedSignature, by decide⟩])
        1800000000 ⟨deliveredId, ()⟩ ∧
      ∀ webhook, recordedVerifier.verifyAt recordedCrates deliveredPayload
        (deliveryHeaders ⟨paddedTimestamp, by decide⟩ [⟨paddedSignature, by decide⟩])
        1800000000 ≠ .ok webhook) ∧
    (recordedVerifier.verifyAt recordedCrates deliveredPayload
        (deliveryHeaders recentTimestamp [⟨[], rfl⟩, fullLine]) 1800000000 = .ok ⟨deliveredId, ()⟩ ∧
      ∀ webhook, ¬ Acceptable (fun _ => True) [space].intercalate recordedCrates recordedVerifier
        deliveredPayload (deliveryHeaders recentTimestamp [⟨[], rfl⟩, fullLine]) 1800000000 webhook) ∧
    (SameCandidates (deliveryHeaders recentTimestamp [])
        (deliveryHeaders recentTimestamp [⟨[space], by decide⟩]) ∧
      recordedVerifier.verifyAt recordedCrates deliveredPayload (deliveryHeaders recentTimestamp [])
        1800000000 ≠
      recordedVerifier.verifyAt recordedCrates deliveredPayload
        (deliveryHeaders recentTimestamp [⟨[space], by decide⟩]) 1800000000) := by
  refine ⟨⟨?_, ?_⟩, ⟨verifyAt_fullLine, ?_⟩, ⟨⟨rfl, rfl, ?_⟩, by decide⟩⟩
  · refine ⟨by decide, ⟨rfl, by decide, by decide, ?_⟩, ?_, by decide,
      ⟨paddedTimestamp, utf8 "webhook-test-secret", ?_, ?_, paddedSignature, by decide,
        by decide⟩, rfl⟩
    · rw [printable_iff]
      decide
    · decide
    · exact ⟨rfl, ⟨by decide, by decide⟩, trivial, by decide,
        by decide, by decide⟩
    · exact ⟨by decide, .inr ⟨by decide, rfl⟩⟩
  · intro webhook h
    rw [verifyAt_paddedTimestamp] at h
    cases h
  · intro webhook h
    have hjoined := h.joined
    change ([space].intercalate [[], fullLine.bytes]).length ≤ _ at hjoined
    rw [intercalate_space, List.flatMap_singleton, List.nil_append, List.length_cons,
      fullLine_length] at hjoined
    omega
  · intro candidate
    have hblank : candidates (getAll (deliveryHeaders recentTimestamp [⟨[space], by decide⟩])
        "webhook-signature") = [] := by decide
    rw [hblank]
    rfl

end Deliveries

end OpenaiRs.Webhooks
