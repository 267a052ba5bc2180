import Mathlib.Data.List.Forall2
import OpenaiRs.Retry.Safety

/-!
# The loops agree

A trace says what becomes of each attempt. The loops read the clock at different places, and not equally
often; on rounds that follow one trace they send and sleep alike, and end alike.
-/

namespace OpenaiRs.Retry

open Rounds

section Traces

/-- What a trace says about one attempt. -/
structure Exchange where
  /-- The reading from which the budget of the attempt comes. -/
  reading : ℕ
  outcome : Outcome
  localRetryDelay : ℕ
  waitReading : ℕ

/-- The attempt alone: everything before it takes no time. -/
def Exchange.round (x : Exchange) : Round where
  beforeForm := x.reading
  form := .ready true
  beforeAuthorization := x.reading
  token := .ready .failed
  sentAt := x.reading
  built := true
  outcome := x.outcome
  localRetryDelay := x.localRetryDelay
  waitReading := x.waitReading
  jsonBodyEnabled := false
  discardReading := x.waitReading

/-- A round in which the attempt goes as the trace says, bodies are not logged, and the clock does not run
backwards. The form is built, unless the budget is used up before it is. -/
structure Follows (overallTimeout : ℕ) (x : Exchange) (r : Round) : Prop where
  beforeForm_le : r.beforeForm ≤ r.beforeAuthorization
  form : r.form = .ready true ∨ (r.form = .elapsed ∧ overallTimeout ≤ r.beforeAuthorization)
  beforeAuthorization_le : r.beforeAuthorization ≤ r.sentAt
  sentAt : r.sentAt = x.reading
  built : r.built = true
  outcome : r.outcome = x.outcome
  localRetryDelay : r.localRetryDelay = x.localRetryDelay
  waitReading : r.waitReading = x.waitReading
  jsonBodyEnabled : r.jsonBodyEnabled = false

theorem Exchange.follows_round (overallTimeout : ℕ) (x : Exchange) : Follows overallTimeout x x.round :=
  ⟨Nat.le_refl _, .inl rfl, Nat.le_refl _, rfl, rfl, rfl, rfl, rfl, rfl⟩

/-- The sends and the sleeps of a run. -/
def Event.shows : Event → Bool
  | .checked _ _ => false
  | _ => true

/-- The success tests say the same of the status that the trace has here. -/
def SucceedAlike (succeeds succeeds' : ℕ → Bool) (x : Exchange) : Prop :=
  ∀ response, x.outcome = .response response → succeeds response.status = succeeds' response.status

/-- The loop that all the others are copies of: a budget, and what is made of the attempt. -/
def plainLoop (retryable : Bool) (succeeds : ℕ → Bool) (maxRetries overallTimeout : ℕ) (s : LoopState)
    (x : Exchange) : Step :=
  match remainingTime x.reading overallTimeout with
  | none => .done [] (.error .deadlineExceeded)
  | some remaining => settle retryable succeeds maxRetries overallTimeout none remaining s x.round

end Traces

section Lanes

variable {client : Transport} {s : LoopState} {r : Round} {x : Exchange} {retryable : Bool}
  {succeeds succeeds' : ℕ → Bool} {maxRetries overallTimeout remaining : ℕ}

theorem settle_follows (h : Follows overallTimeout x r) (hsuccess : SucceedAlike succeeds succeeds' x) :
    settle retryable succeeds' maxRetries overallTimeout none remaining s r =
      settle retryable succeeds maxRetries overallTimeout none remaining s x.round := by
  simp only [settle, Exchange.round, h.sentAt, h.outcome, h.localRetryDelay, h.waitReading]
  cases houtcome : x.outcome with
  | failed error => rfl
  | response response =>
      dsimp only
      rw [hsuccess response houtcome]
      rfl

/-- Without logged bodies the second look at the clock changes nothing that shows. -/
theorem discarding_alike (h : r.jsonBodyEnabled = false) (iteration : Step) :
    (discarding overallTimeout r iteration).Alike Event.shows iteration := by
  rw [discarding.eq_def]
  split
  · rw [h, Bool.and_false, if_neg Bool.false_ne_true]
    exact ⟨rfl, rfl⟩
  · exact .refl _

/-- With an API key, only the last reading before the attempt matters. -/
theorem authorizationWithBudget_follows (hkey : client.auth = .apiKey)
    (h : Follows client.overallTimeout x r) :
    client.auth.authorizationWithBudget r client.overallTimeout =
      match remainingTime x.reading client.overallTimeout with
      | none => .error .deadlineExceeded
      | some remaining => .ok (none, remaining) := by
  have hle := h.beforeAuthorization_le
  rw [AuthProvider.authorizationWithBudget, hkey, ← h.sentAt]
  by_cases hopen : r.sentAt < client.overallTimeout
  · rw [remainingTime_of_lt hopen, remainingTime_of_lt (Nat.lt_of_le_of_lt hle hopen)]
    rfl
  · rw [remainingTime_of_le (Nat.le_of_not_lt hopen)]
    cases remainingTime r.beforeAuthorization client.overallTimeout <;> rfl

theorem sendReplayableJson_alike (hkey : client.auth = .apiKey) (h : Follows client.overallTimeout x r)
    (hsuccess : SucceedAlike succeeds isSuccessStatus x) :
    sendReplayableJson client s r =
      plainLoop (retryableOperation .replayable client.retryPolicy) succeeds
        client.retryPolicy.maxRetries client.overallTimeout s x := by
  rw [sendReplayableJson_eq, authorizationWithBudget_follows hkey h, plainLoop, h.built]
  cases remainingTime x.reading client.overallTimeout with
  | none => rfl
  | some remaining => exact settle_follows h hsuccess

/-- Building the form costs a loop nothing but time, which the next reading tells as well. -/
theorem sendReplayableForm_alike (h : Follows client.overallTimeout x r) :
    sendReplayableForm client s r = sendReplayableJson client s r := by
  have hbefore := h.beforeForm_le
  have hlate : client.overallTimeout ≤ r.beforeAuthorization →
      sendReplayableJson client s r = .done [] (.error .deadlineExceeded) := by
    intro hlate
    rw [sendReplayableJson_eq, AuthProvider.authorizationWithBudget, remainingTime_of_le hlate]
  rw [sendReplayableForm_eq]
  by_cases hopen : r.beforeForm < client.overallTimeout
  · rw [remainingTime_of_lt hopen]
    obtain hform | ⟨hform, hused⟩ := h.form
    · simp only [hform]
    · simp only [hform]
      exact (hlate hused).symm
  · rw [remainingTime_of_le (Nat.le_of_not_lt hopen)]
    exact (hlate (by omega)).symm

/-- Each lane does what the plain loop does, as far as it shows. -/
theorem Lane.step_alike (lane : Lane) (hkey : client.auth = .apiKey)
    (h : Follows client.overallTimeout x r) (hsuccess : SucceedAlike succeeds lane.succeeds x) :
    (plainLoop (retryableOperation lane.retryClass client.retryPolicy) succeeds
        client.retryPolicy.maxRetries client.overallTimeout s x).Alike Event.shows
      (lane.step client s r) := by
  cases lane with
  | json operation =>
      rw [step, sendWithStaticHeader_eq, authorizationWithBudget_follows hkey h, plainLoop, h.built]
      cases remainingTime x.reading client.overallTimeout with
      | none => exact .refl _
      | some remaining =>
          exact .trans (.of_eq (settle_follows h hsuccess).symm)
            (discarding_alike h.jsonBodyEnabled _).symm
  | replayableForm =>
      rw [step, sendReplayableForm_alike h, sendReplayableJson_alike hkey h hsuccess]
      exact .refl _
  | replayableJson =>
      rw [step, sendReplayableJson_alike hkey h hsuccess]
      exact .refl _
  | download =>
      rw [step, sendDownloadWithQuery_eq, authorizationWithBudget_follows hkey h, plainLoop, h.built]
      cases remainingTime x.reading client.overallTimeout with
      | none => exact .refl _
      | some remaining => exact .of_eq (settle_follows h hsuccess).symm
  | admin operation =>
      rw [step, adminSend_eq, h.sentAt, plainLoop]
      cases remainingTime x.reading client.overallTimeout with
      | none => exact .refl _
      | some remaining => exact .of_eq (settle_follows h hsuccess).symm

theorem Lane.run_alike (lane : Lane) (hkey : client.auth = .apiKey) {trace : List Exchange}
    {rounds : List Round} (hrounds : List.Forall₂ (Follows client.overallTimeout) trace rounds)
    (hsuccess : ∀ x ∈ trace, SucceedAlike succeeds lane.succeeds x) :
    (drive (plainLoop (retryableOperation lane.retryClass client.retryPolicy) succeeds
        client.retryPolicy.maxRetries client.overallTimeout) .start trace).filter Event.shows =
      (lane.run client rounds).filter Event.shows := by
  have hrelated := (List.forall₂_and_left _ _).mpr ⟨hsuccess, hrounds⟩
  have hstep : ∀ s x r, SucceedAlike succeeds lane.succeeds x ∧ Follows client.overallTimeout x r →
      (plainLoop (retryableOperation lane.retryClass client.retryPolicy) succeeds
        client.retryPolicy.maxRetries client.overallTimeout s x).Alike Event.shows
        (lane.step client s r) :=
    fun s x r hr => lane.step_alike hkey hr.2 hr.1
  exact drive_alike hstep hrelated .start

/-- Two lanes with the same retry class, on clients with the same policy and timeout and with API keys,
send and sleep alike and end alike on rounds that follow the same trace. -/
theorem lanes_agree (lane lane' : Lane) (client client' : Transport) (hkey : client.auth = .apiKey)
    (hkey' : client'.auth = .apiKey) (hpolicy : client'.retryPolicy = client.retryPolicy)
    (htimeout : client'.overallTimeout = client.overallTimeout)
    (hclass : lane'.retryClass = lane.retryClass) (trace : List Exchange)
    (hsuccess : ∀ x ∈ trace, SucceedAlike lane.succeeds lane'.succeeds x) (rounds rounds' : List Round)
    (hrounds : List.Forall₂ (Follows client.overallTimeout) trace rounds)
    (hrounds' : List.Forall₂ (Follows client.overallTimeout) trace rounds') :
    (lane.run client rounds).filter Event.shows = (lane'.run client' rounds').filter Event.shows := by
  rw [← htimeout] at hrounds'
  have hself : ∀ x ∈ trace, SucceedAlike lane.succeeds lane.succeeds x := fun _ _ _ _ => rfl
  rw [← lane.run_alike hkey hrounds hself, ← lane'.run_alike hkey' hrounds' hsuccess, hpolicy, htimeout,
    hclass]

/-- An attempt that is answered with 503. -/
def unavailable : Exchange := ⟨0, .response ⟨503, none, .absent⟩, 500, 20⟩

/-- An attempt that is answered with 200. -/
def answered : Exchange := ⟨530, .response ⟨200, none, .absent⟩, 500, 540⟩

theorem lanes_agree_unavailable :
    (Lane.replayableForm.run ⟨.apiKey, ⟨2, true⟩, 600⟩ [unavailable.round, answered.round]).filter
        Event.shows =
      ((Lane.admin ⟨.post, [200]⟩).run ⟨.apiKey, ⟨2, true⟩, 600⟩
        [unavailable.round, answered.round]).filter Event.shows :=
  lanes_agree .replayableForm (.admin ⟨.post, [200]⟩) ⟨.apiKey, ⟨2, true⟩, 600⟩
    ⟨.apiKey, ⟨2, true⟩, 600⟩ rfl rfl rfl rfl rfl [unavailable, answered]
    (by
      intro x hx response houtcome
      simp only [List.mem_cons, List.not_mem_nil, or_false] at hx
      obtain rfl | rfl := hx <;> cases houtcome <;> rfl)
    [unavailable.round, answered.round] [unavailable.round, answered.round]
    (.cons (unavailable.follows_round _) (.cons (answered.follows_round _) .nil))
    (.cons (unavailable.follows_round _) (.cons (answered.follows_round _) .nil))

end Lanes

end OpenaiRs.Retry
