import Mathlib.Tactic.Common

/-!
# What a request loop decides with

`RetryPolicy`, `RetryClass` and the helpers of `openai-rs-client/src/transport.rs`, `multipart.rs`,
`admin.rs` and `auth.rs` that the request loops call.

## Implementation notes

A `Duration` is a number of nanoseconds, and an `Instant` is the time since the operation started, which
is all that the loops ask of it. How the headers of a response classify the delay that the server asks
for, and the delay that `local_retry_delay` computes in floating point, are given.
-/

namespace OpenaiRs.Retry

section Durations

/-- `Duration::MAX`: `u64::MAX` seconds and 999999999 nanoseconds. -/
def durationMax : ℕ := 18446744073709551615 * 1000000000 + 999999999

def checkedAdd (a b : ℕ) : Option ℕ := if a + b ≤ durationMax then some (a + b) else none

def checkedSub (a b : ℕ) : Option ℕ := if b ≤ a then some (a - b) else none

/-- `remaining_time`, and the same expression in `authorization_with_budget` and in the other loops:
what is left of the timeout, unless it is used up. -/
def remainingTime (elapsed overallTimeout : ℕ) : Option ℕ :=
  (checkedSub overallTimeout elapsed).filter (fun remaining => remaining ≠ 0)

def canWait (elapsed delay overallTimeout : ℕ) : Bool :=
  match checkedAdd elapsed delay with
  | some elapsed => elapsed < overallTimeout
  | none => false

variable {elapsed delay overallTimeout remaining : ℕ}

theorem remainingTime_eq_some :
    remainingTime elapsed overallTimeout = some remaining ↔
      elapsed < overallTimeout ∧ remaining = overallTimeout - elapsed := by
  rw [remainingTime, checkedSub, Option.filter_eq_some_iff]
  split
  · simp only [Option.some.injEq, decide_eq_true_eq]
    omega
  · simp only [reduceCtorEq, false_and, false_iff, not_and]
    omega

theorem remainingTime_eq_none : remainingTime elapsed overallTimeout = none ↔ overallTimeout ≤ elapsed := by
  rw [Option.eq_none_iff_forall_ne_some]
  constructor
  · intro h
    by_contra hopen
    exact h _ (remainingTime_eq_some.mpr ⟨Nat.lt_of_not_le hopen, rfl⟩)
  · intro h remaining hremaining
    have := (remainingTime_eq_some.mp hremaining).1
    omega

theorem remainingTime_of_lt (h : elapsed < overallTimeout) :
    remainingTime elapsed overallTimeout = some (overallTimeout - elapsed) :=
  remainingTime_eq_some.mpr ⟨h, rfl⟩

theorem remainingTime_of_le (h : overallTimeout ≤ elapsed) : remainingTime elapsed overallTimeout = none :=
  remainingTime_eq_none.mpr h

theorem lt_of_canWait (h : canWait elapsed delay overallTimeout = true) :
    elapsed + delay < overallTimeout := by
  rw [canWait, checkedAdd] at h
  split at h
  · rename_i sum hsum
    split at hsum
    · cases hsum
      simpa using h
    · cases hsum
  · cases h

end Durations

section Policies

structure RetryPolicy where
  maxRetries : ℕ
  retryReplayableMutations : Bool

inductive RetryClass where
  | safe
  | replayable
  | never
  deriving DecidableEq

/-- `retryable_operation`, in `transport.rs` and in `admin.rs`. -/
def retryableOperation (retryClass : RetryClass) (policy : RetryPolicy) : Bool :=
  match retryClass with
  | .safe => true
  | .replayable => policy.retryReplayableMutations
  | .never => false

inductive Method where
  | options
  | get
  | post
  | put
  | delete
  | head
  | trace
  | connect
  | patch
  | extension (name : String)
  deriving DecidableEq

def adminRetryClass : Method → RetryClass
  | .get => .safe
  | .delete => .safe
  | _ => .replayable

end Policies

section Responses

inductive ServerDelay where
  | absent
  | valid (delay : ℕ)
  | tooLong
  deriving DecidableEq

/-- A response, with what its headers say about a retry. -/
structure Response where
  status : ℕ
  /-- The header `x-should-retry`, when it is text. -/
  xShouldRetry : Option String
  /-- `server_retry_delay` of the headers, with the policy's `max_server_delay`. -/
  serverDelay : ServerDelay
  deriving DecidableEq

/-- A `reqwest::Error` of `execute`. -/
structure TransportError where
  isConnect : Bool
  isTimeout : Bool
  deriving DecidableEq

def shouldRetryResponse (response : Response) : Bool :=
  match response.xShouldRetry with
  | some "true" => true
  | some "false" => false
  | _ =>
      response.status = 408 || response.status = 409 || response.status = 429 || 500 ≤ response.status

/-- `is_success_status` of `multipart.rs`. -/
def isSuccessStatus (status : ℕ) : Bool := status = 200 || status = 201

def unauthorized : ℕ := 401

/-- `retry_delay` of `multipart.rs`. -/
def retryDelay (response : Response) (localRetryDelay : ℕ) : Option ℕ :=
  match response.serverDelay with
  | .valid delay => some delay
  | .absent => some localRetryDelay
  | .tooLong => none

end Responses

end OpenaiRs.Retry
