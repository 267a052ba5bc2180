import OpenaiRs.Webhooks.Acceptance
import OpenaiRs.Json.Framing

/-!
# Signed bytes have one reading

A signature covers `id.timestamp.payload`. The id may hold points and digits, so these bytes
alone could be cut in several places; accepted deliveries have digits for a timestamp and an
object for a payload, and for those there is one cut.
-/

namespace OpenaiRs.Webhooks

open Rust Serde Json

variable {Event : Type} {crates : Crates Event}

/-- What the signature of an accepted delivery covers. -/
theorem verifyAt_reading (hjson : ∀ payload event, crates.fromSlice payload = .ok event →
      ObjectText payload) {v : WebhookVerifier} {payload : Bytes} {headers : HeaderMap} {now : Nat}
    {webhook : VerifiedWebhook Event} (h : v.verifyAt crates payload headers now = .ok webhook) :
    ∃ timestamp, getAll headers "webhook-id" = [webhook.webhookId] ∧
      getAll headers "webhook-timestamp" = [timestamp] ∧ Digits timestamp ∧ ObjectText payload := by
  obtain ⟨-, hid, -, -, ⟨timestamp, -, htimestamp, -⟩, hevent⟩ := verifyAt_eq_ok.mp h
  exact ⟨timestamp, hid.single, htimestamp.single, htimestamp.digits, hjson _ _ hevent⟩

/-- Two accepted deliveries with equal signed bytes agree on the id, the timestamp text, the
payload and so on the event. -/
theorem signedBytes_unambiguous (crates : Crates Event)
    (hjson : ∀ payload event, crates.fromSlice payload = .ok event → ObjectText payload)
    (v v' : WebhookVerifier) (payload payload' : Bytes) (headers headers' : HeaderMap) (now now' : Nat)
    (webhook webhook' : VerifiedWebhook Event)
    (h : v.verifyAt crates payload headers now = .ok webhook)
    (h' : v'.verifyAt crates payload' headers' now' = .ok webhook') :
    ∃ id timestamp id' timestamp',
      getAll headers "webhook-id" = [id] ∧ getAll headers "webhook-timestamp" = [timestamp] ∧
      getAll headers' "webhook-id" = [id'] ∧ getAll headers' "webhook-timestamp" = [timestamp'] ∧
      (signedBytes id timestamp payload = signedBytes id' timestamp' payload' →
        id = id' ∧ timestamp = timestamp' ∧ payload = payload' ∧ webhook = webhook') := by
  obtain ⟨timestamp, hid, htimestamp, hdigits, hobject⟩ := verifyAt_reading hjson h
  obtain ⟨timestamp', hid', htimestamp', hdigits', hobject'⟩ := verifyAt_reading hjson h'
  refine ⟨webhook.webhookId, timestamp, webhook'.webhookId, timestamp', hid, htimestamp, hid',
    htimestamp', ?_⟩
  intro hsigned
  obtain ⟨heqId, heqTimestamp, heqPayload⟩ :=
    frame_injective hdigits hdigits' hobject hobject' hsigned
  refine ⟨heqId, heqTimestamp, heqPayload, ?_⟩
  have hevent := (verifyAt_eq_ok.mp h).event
  rw [heqPayload, (verifyAt_eq_ok.mp h').event] at hevent
  cases webhook
  cases webhook'
  cases hevent
  cases heqId
  rfl

theorem deliveredPayload_objectText : ObjectText deliveredPayload := by
  have hname : Str (utf8 "\"type\"") := by
    refine .mk (utf8 "type") ?_
    exact .unescaped _ _ rfl (.unescaped _ _ rfl (.unescaped _ _ rfl (.unescaped _ _ rfl .nil)))
  have hvalue : Padded (utf8 "\"x\"") := by
    refine .mk [] (utf8 "\"x\"") [] (by simp [Ws]) (.string _ ?_) (by simp [Ws])
    exact .mk (utf8 "x") (.unescaped _ _ rfl .nil)
  have hmembers : Members (utf8 "\"type\":\"x\"") :=
    .one [] (utf8 "\"type\"") [] (utf8 "\"x\"") (by simp [Ws]) hname (by simp [Ws]) hvalue
  exact .mk [] deliveredPayload [] (by simp [Ws]) (.members _ hmembers) (by simp [Ws])

theorem signedBytes_unambiguous_delivered :
    ∃ id timestamp id' timestamp',
      getAll twoLines "webhook-id" = [id] ∧ getAll twoLines "webhook-timestamp" = [timestamp] ∧
      getAll oneLine "webhook-id" = [id'] ∧ getAll oneLine "webhook-timestamp" = [timestamp'] ∧
      (signedBytes id timestamp deliveredPayload = signedBytes id' timestamp' deliveredPayload →
        id = id' ∧ timestamp = timestamp' ∧ deliveredPayload = deliveredPayload ∧
          (⟨deliveredId, ()⟩ : VerifiedWebhook Unit) = ⟨deliveredId, ()⟩) := by
  refine signedBytes_unambiguous recordedCrates ?_ recordedVerifier recordedVerifier deliveredPayload
    deliveredPayload twoLines oneLine 1800000000 1800000000 ⟨deliveredId, ()⟩ ⟨deliveredId, ()⟩
    (by decide) (by decide)
  intro payload event h
  simp only [recordedCrates] at h
  split at h
  · rename_i heq
    rw [heq]
    exact deliveredPayload_objectText
  · cases h

end OpenaiRs.Webhooks
