import OpenaiRs.Retry.Policy
import OpenaiRs.Rounds.Drive
import OpenaiRs.Rust.Str

/-!
# Bounded polling

`poll_until` of `openai-rs-client/src/poll.rs`, which fetches a resource until it is terminal, and
`ResponseMeta::poll_after_ms` of `openai-rs-client/src/operation.rs`.

## Implementation notes

A round of the surroundings is what one iteration of the loop meets: whether the caller cancels, how the fetch
ends, and how much time passes besides the sleep itself. Time is counted in nanoseconds from `started`.
-/

namespace OpenaiRs.Polling

open Rounds Rust

open Retry (remainingTime)

variable {T E : Type}

/-- A decoded body with the `openai-poll-after-ms` header of its response. -/
structure ApiResponse (T : Type) where
  body : T
  pollAfter : Option Bytes

/-- `poll_after_ms`. -/
def pollAfterMs (pollAfter : Option Bytes) : Option ℕ := pollAfter.bind parseU64

inductive SharedPollError (E : Type) where
  | invalidConfiguration
  | deadlineExceeded (lastStatus : Option String)
  | cancelled
  | client (error : E)

/-- The arguments of `poll_until`; of a cancellation token only its presence is one. -/
structure Poller (T : Type) where
  terminal : T → Bool
  status : T → String
  interval : Option Duration
  fallbackInterval : Duration
  timeout : Duration
  cancellable : Bool

/-- Where the surroundings let a token end the call. -/
inductive Cancellation where
  | never
  | atHead
  | duringFetch
  | duringSleep
  deriving DecidableEq

/-- How `timeout(remaining, fetch())` ends. -/
inductive FetchEnd (T E : Type) where
  | elapsed
  | failed (error : E)
  | received (response : ApiResponse T)

structure Round (T E : Type) where
  cancellation : Cancellation
  fetch : FetchEnd T E
  /-- From the start of the fetch to the next reading of the clock. -/
  duration : ℕ
  /-- What passes besides the sleep until the reading behind it. -/
  delay : ℕ

inductive Event (T E : Type) where
  | fetch (startedAt budget : ℕ)
  | received (response : ApiResponse T)
  | failed (error : E)
  | sleep (startedAt length : ℕ)

/-- The variables of the loop: what the clock shows, and `last_status`. -/
structure State where
  elapsed : ℕ
  lastStatus : Option String

abbrev Verdict (T E : Type) := Except (SharedPollError E) (ApiResponse T)

abbrev PollRun (T E : Type) := Run (Event T E) (Verdict T E)

namespace Poller

variable (poller : Poller T)

/-- The check in front of the loop. -/
def rejected : Bool :=
  poller.interval.any (fun interval => interval.nanos = 0) || poller.fallbackInterval.nanos = 0 ||
    poller.timeout.nanos = 0

/-- The pacing of a response before the clamp. -/
def pacing (response : ApiResponse T) : Duration :=
  (poller.interval.or ((pollAfterMs response.pollAfter).map Duration.fromMillis)).getD poller.fallbackInterval

def iteration (s : State) (r : Round T E) : Iteration State (Event T E) (Verdict T E) :=
  if poller.cancellable ∧ r.cancellation = .atHead then .done [] (.error .cancelled)
  else
    match remainingTime s.elapsed poller.timeout.nanos with
    | none => .done [] (.error (.deadlineExceeded s.lastStatus))
    | some budget =>
        if poller.cancellable ∧ r.cancellation = .duringFetch then
          .done [.fetch s.elapsed budget] (.error .cancelled)
        else
          match r.fetch with
          | .elapsed => .done [.fetch s.elapsed budget] (.error (.deadlineExceeded s.lastStatus))
          | .failed error => .done [.fetch s.elapsed budget, .failed error] (.error (.client error))
          | .received response =>
              let lastStatus := some (poller.status response.body)
              let elapsed := s.elapsed + r.duration
              if poller.terminal response.body then
                .done [.fetch s.elapsed budget, .received response] (.ok response)
              else
                match remainingTime elapsed poller.timeout.nanos with
                | none =>
                    .done [.fetch s.elapsed budget, .received response] (.error (.deadlineExceeded lastStatus))
                | some remaining =>
                    let length := min (poller.pacing response).nanos remaining
                    let events := [.fetch s.elapsed budget, .received response, .sleep elapsed length]
                    if poller.cancellable ∧ r.cancellation = .duringSleep then .done events (.error .cancelled)
                    else .again events ⟨elapsed + length + r.delay, lastStatus⟩

/-- `poll_until`, where the clock first shows `start`. -/
def pollUntil (start : ℕ) (rounds : List (Round T E)) : PollRun T E :=
  if poller.rejected then ⟨[], some (.error .invalidConfiguration)⟩
  else drive poller.iteration ⟨start, none⟩ rounds

end Poller

section Iterations

variable {poller : Poller T} {s : State} {r : Round T E}

/-- What an iteration can be. -/
inductive Iterates (poller : Poller T) (s : State) (r : Round T E) :
    Iteration State (Event T E) (Verdict T E) → Prop
  | cancelled : poller.cancellable = true → Iterates poller s r (.done [] (.error .cancelled))
  | late : Iterates poller s r (.done [] (.error (.deadlineExceeded s.lastStatus)))
  | cancelledFetch : poller.cancellable = true → s.elapsed < poller.timeout.nanos → Iterates poller s r
      (.done [.fetch s.elapsed (poller.timeout.nanos - s.elapsed)] (.error .cancelled))
  | timedOut : s.elapsed < poller.timeout.nanos → Iterates poller s r
      (.done [.fetch s.elapsed (poller.timeout.nanos - s.elapsed)] (.error (.deadlineExceeded s.lastStatus)))
  | failed (error : E) : s.elapsed < poller.timeout.nanos → Iterates poller s r
      (.done [.fetch s.elapsed (poller.timeout.nanos - s.elapsed), .failed error] (.error (.client error)))
  | terminal (response : ApiResponse T) : s.elapsed < poller.timeout.nanos →
      poller.terminal response.body = true → Iterates poller s r
      (.done [.fetch s.elapsed (poller.timeout.nanos - s.elapsed), .received response] (.ok response))
  | lateAnswer (response : ApiResponse T) : s.elapsed < poller.timeout.nanos →
      poller.terminal response.body = false → Iterates poller s r
      (.done [.fetch s.elapsed (poller.timeout.nanos - s.elapsed), .received response]
        (.error (.deadlineExceeded (some (poller.status response.body)))))
  | cancelledSleep (response : ApiResponse T) : poller.cancellable = true →
      s.elapsed + r.duration < poller.timeout.nanos → poller.terminal response.body = false → Iterates poller s r
      (.done [.fetch s.elapsed (poller.timeout.nanos - s.elapsed), .received response,
        .sleep (s.elapsed + r.duration)
          (min (poller.pacing response).nanos (poller.timeout.nanos - (s.elapsed + r.duration)))]
        (.error .cancelled))
  | again (response : ApiResponse T) : r.fetch = .received response →
      s.elapsed + r.duration < poller.timeout.nanos → poller.terminal response.body = false → Iterates poller s r
      (.again [.fetch s.elapsed (poller.timeout.nanos - s.elapsed), .received response,
        .sleep (s.elapsed + r.duration)
          (min (poller.pacing response).nanos (poller.timeout.nanos - (s.elapsed + r.duration)))]
        ⟨s.elapsed + r.duration +
          min (poller.pacing response).nanos (poller.timeout.nanos - (s.elapsed + r.duration)) + r.delay,
          some (poller.status response.body)⟩)

theorem iterates (poller : Poller T) (s : State) (r : Round T E) : Iterates poller s r (poller.iteration s r) := by
  rw [Poller.iteration]
  split
  · rename_i hcancelled
    exact .cancelled hcancelled.1
  · split
    · exact .late
    · rename_i budget hbudget
      obtain ⟨hopen, rfl⟩ := Retry.remainingTime_eq_some.mp hbudget
      split
      · rename_i hcancelled
        exact .cancelledFetch hcancelled.1 hopen
      · split
        · exact .timedOut hopen
        · exact .failed _ hopen
        · rename_i response hfetch
          simp only
          split
          · rename_i hterminal
            exact .terminal response hopen hterminal
          · rename_i hgoing
            replace hgoing := Bool.eq_false_iff.mpr hgoing
            split
            · exact .lateAnswer response hopen hgoing
            · rename_i remaining hremaining
              obtain ⟨hleft, rfl⟩ := Retry.remainingTime_eq_some.mp hremaining
              split
              · rename_i hcancelled
                exact .cancelledSleep response hcancelled.1 hleft hgoing
              · exact .again response hfetch hleft hgoing

end Iterations

end OpenaiRs.Polling
