import OpenaiRs.Retry.Policy
import OpenaiRs.Rounds.Drive

/-!
# The request loops

`Transport::send_with_static_header`, the loops of `multipart.rs`, the loop of `AdminClient::send` and
`X509Client::execute_json`, each by itself, as one iteration over what a round answers.

## Implementation notes

Code between two `await`s takes no time: an attempt is sent at the reading at which its authorization
is there. What a request is made of (its URL, headers and body) is left out; that it cannot be built, or
leaves the origin, is an answer of the round.
-/

namespace OpenaiRs.Retry

open Rounds

section Environment

inductive AuthProvider where
  | apiKey
  | workload
  deriving DecidableEq

/-- What comes of a wait under `tokio::time::timeout`. -/
inductive Timed (α : Type) where
  | ready (answer : α)
  | elapsed

/-- The generation of an `AuthLease`, or that there is none to be had. -/
inductive Authorization where
  | lease (generation : Option UInt64)
  | failed

inductive Outcome where
  | failed (error : TransportError)
  | response (response : Response)
  deriving DecidableEq

/-- What the surroundings answer in one iteration. Readings of the clock are times since the operation
started. -/
structure Round where
  /-- The reading before the multipart form is built. -/
  beforeForm : ℕ
  /-- Whether `build_form` succeeds. -/
  form : Timed Bool
  /-- The reading before the authorization. -/
  beforeAuthorization : ℕ
  /-- What a workload credential answers. -/
  token : Timed Authorization
  /-- The reading at which the authorization is there, and the attempt is sent. -/
  sentAt : ℕ
  /-- The request is built and stays within the origin. -/
  built : Bool
  outcome : Outcome
  /-- What `local_retry_delay` computes. -/
  localRetryDelay : ℕ
  /-- The reading of `can_wait`. -/
  waitReading : ℕ
  /-- `trace::json_body_enabled`. -/
  jsonBodyEnabled : Bool
  /-- The reading of the second `can_wait`, after a discarded body. -/
  discardReading : ℕ

inductive Error where
  | deadlineExceeded
  | authorization
  | form
  | request
  | transport (error : TransportError)
  | api (response : Response)
  deriving DecidableEq

inductive Event where
  /-- The request is sent with this timeout, at this time, and this comes of it. -/
  | sent (timeout sentAt : ℕ) (outcome : Outcome)
  /-- A call of `can_wait`. -/
  | checked (elapsed delay : ℕ)
  | slept (delay : ℕ)
  /-- The credential is invalidated, and the request goes out again. -/
  | refreshed
  deriving DecidableEq

structure LoopState where
  retries : ℕ
  authRefreshed : Bool
  deriving DecidableEq

def LoopState.start : LoopState := ⟨0, false⟩

abbrev Step : Type := Iteration LoopState Event (Except Error Response)

end Environment

section Authorizing

/-- `AuthProvider::authorization`. The header of an API key is always there. -/
def AuthProvider.authorization (auth : AuthProvider) (r : Round) : Timed Authorization :=
  match auth with
  | .apiKey => .ready (.lease none)
  | .workload => r.token

/-- The generation of the lease, and the budget that is left. -/
def AuthProvider.authorizationWithBudget (auth : AuthProvider) (r : Round) (timeout : ℕ) :
    Except Error (Option UInt64 × ℕ) :=
  match remainingTime r.beforeAuthorization timeout with
  | none => .error .deadlineExceeded
  | some _ =>
      match auth.authorization r with
      | .elapsed => .error .deadlineExceeded
      | .ready .failed => .error .authorization
      | .ready (.lease generation) =>
          match remainingTime r.sentAt timeout with
          | none => .error .deadlineExceeded
          | some remaining => .ok (generation, remaining)

end Authorizing

section Lanes

/-- What the clients are configured with. -/
structure Transport where
  auth : AuthProvider
  retryPolicy : RetryPolicy
  overallTimeout : ℕ

structure OperationMeta where
  retry : RetryClass
  successStatuses : List ℕ

structure AdminOperation where
  method : Method
  successStatuses : List ℕ

variable (client : Transport) (s : LoopState) (r : Round)

/-- The loop of `Transport::send_with_static_header`. -/
def sendWithStaticHeader (operation : OperationMeta) : Step :=
  match client.auth.authorizationWithBudget r client.overallTimeout with
  | .error error => .done [] (.error error)
  | .ok (generation, remaining) =>
      if !r.built then .done [] (.error .request)
      else
        match r.outcome with
        | .failed error =>
            if retryableOperation operation.retry client.retryPolicy
                && s.retries < client.retryPolicy.maxRetries && (error.isConnect || error.isTimeout) then
              if !canWait r.waitReading r.localRetryDelay client.overallTimeout then
                .done [.sent remaining r.sentAt r.outcome, .checked r.waitReading r.localRetryDelay]
                  (.error (.transport error))
              else
                .again [.sent remaining r.sentAt r.outcome, .checked r.waitReading r.localRetryDelay,
                  .slept r.localRetryDelay] { s with retries := s.retries + 1 }
            else .done [.sent remaining r.sentAt r.outcome] (.error (.transport error))
        | .response response =>
            if response.status = unauthorized && generation.isSome && !s.authRefreshed then
              .again [.sent remaining r.sentAt r.outcome, .refreshed] { s with authRefreshed := true }
            else if operation.successStatuses.contains response.status then
              .done [.sent remaining r.sentAt r.outcome] (.ok response)
            else if retryableOperation operation.retry client.retryPolicy
                && s.retries < client.retryPolicy.maxRetries && shouldRetryResponse response then
              let wait : Option ℕ :=
                match response.serverDelay with
                | .valid delay => some delay
                | .absent => some r.localRetryDelay
                | .tooLong => none
              match wait with
              | none => .done [.sent remaining r.sentAt r.outcome] (.error (.api response))
              | some delay =>
                  if canWait r.waitReading delay client.overallTimeout then
                    -- The body of the discarded response is read only when it is logged.
                    if !canWait r.discardReading delay client.overallTimeout && r.jsonBodyEnabled then
                      .done [.sent remaining r.sentAt r.outcome, .checked r.waitReading delay,
                        .checked r.discardReading delay] (.error (.api response))
                    else
                      .again [.sent remaining r.sentAt r.outcome, .checked r.waitReading delay,
                        .checked r.discardReading delay, .slept delay]
                        { s with retries := s.retries + 1 }
                  else
                    .done [.sent remaining r.sentAt r.outcome, .checked r.waitReading delay]
                      (.error (.api response))
            else .done [.sent remaining r.sentAt r.outcome] (.error (.api response))

def sendReplayableForm : Step :=
  match remainingTime r.beforeForm client.overallTimeout with
  | none => .done [] (.error .deadlineExceeded)
  | some _ =>
      match r.form with
      | .elapsed => .done [] (.error .deadlineExceeded)
      | .ready false => .done [] (.error .form)
      | .ready true =>
          match client.auth.authorizationWithBudget r client.overallTimeout with
          | .error error => .done [] (.error error)
          | .ok (generation, remaining) =>
              if !r.built then .done [] (.error .request)
              else
                match r.outcome with
                | .failed error =>
                    if client.retryPolicy.retryReplayableMutations
                        && s.retries < client.retryPolicy.maxRetries
                        && (error.isConnect || error.isTimeout) then
                      if !canWait r.waitReading r.localRetryDelay client.overallTimeout then
                        .done [.sent remaining r.sentAt r.outcome,
                          .checked r.waitReading r.localRetryDelay] (.error (.transport error))
                      else
                        .again [.sent remaining r.sentAt r.outcome,
                          .checked r.waitReading r.localRetryDelay, .slept r.localRetryDelay]
                          { s with retries := s.retries + 1 }
                    else .done [.sent remaining r.sentAt r.outcome] (.error (.transport error))
                | .response response =>
                    if response.status = unauthorized && generation.isSome && !s.authRefreshed then
                      .again [.sent remaining r.sentAt r.outcome, .refreshed]
                        { s with authRefreshed := true }
                    else if isSuccessStatus response.status then
                      .done [.sent remaining r.sentAt r.outcome] (.ok response)
                    else if client.retryPolicy.retryReplayableMutations
                        && s.retries < client.retryPolicy.maxRetries
                        && shouldRetryResponse response then
                      match retryDelay response r.localRetryDelay with
                      | none => .done [.sent remaining r.sentAt r.outcome] (.error (.api response))
                      | some delay =>
                          if canWait r.waitReading delay client.overallTimeout then
                            .again [.sent remaining r.sentAt r.outcome, .checked r.waitReading delay,
                              .slept delay] { s with retries := s.retries + 1 }
                          else
                            .done [.sent remaining r.sentAt r.outcome, .checked r.waitReading delay]
                              (.error (.api response))
                    else .done [.sent remaining r.sentAt r.outcome] (.error (.api response))

def sendReplayableJson : Step :=
  match client.auth.authorizationWithBudget r client.overallTimeout with
  | .error error => .done [] (.error error)
  | .ok (generation, remaining) =>
      if !r.built then .done [] (.error .request)
      else
        match r.outcome with
        | .failed error =>
            if client.retryPolicy.retryReplayableMutations
                && s.retries < client.retryPolicy.maxRetries && (error.isConnect || error.isTimeout) then
              if !canWait r.waitReading r.localRetryDelay client.overallTimeout then
                .done [.sent remaining r.sentAt r.outcome, .checked r.waitReading r.localRetryDelay]
                  (.error (.transport error))
              else
                .again [.sent remaining r.sentAt r.outcome, .checked r.waitReading r.localRetryDelay,
                  .slept r.localRetryDelay] { s with retries := s.retries + 1 }
            else .done [.sent remaining r.sentAt r.outcome] (.error (.transport error))
        | .response response =>
            if response.status = unauthorized && generation.isSome && !s.authRefreshed then
              .again [.sent remaining r.sentAt r.outcome, .refreshed] { s with authRefreshed := true }
            else if isSuccessStatus response.status then
              .done [.sent remaining r.sentAt r.outcome] (.ok response)
            else if client.retryPolicy.retryReplayableMutations
                && s.retries < client.retryPolicy.maxRetries && shouldRetryResponse response then
              match retryDelay response r.localRetryDelay with
              | none => .done [.sent remaining r.sentAt r.outcome] (.error (.api response))
              | some delay =>
                  if canWait r.waitReading delay client.overallTimeout then
                    .again [.sent remaining r.sentAt r.outcome, .checked r.waitReading delay,
                      .slept delay] { s with retries := s.retries + 1 }
                  else
                    .done [.sent remaining r.sentAt r.outcome, .checked r.waitReading delay]
                      (.error (.api response))
            else .done [.sent remaining r.sentAt r.outcome] (.error (.api response))

/-- The loop of `send_download_with_query`, which asks no retry class. -/
def sendDownloadWithQuery : Step :=
  match client.auth.authorizationWithBudget r client.overallTimeout with
  | .error error => .done [] (.error error)
  | .ok (generation, remaining) =>
      if !r.built then .done [] (.error .request)
      else
        match r.outcome with
        | .failed error =>
            if s.retries < client.retryPolicy.maxRetries && (error.isConnect || error.isTimeout) then
              if !canWait r.waitReading r.localRetryDelay client.overallTimeout then
                .done [.sent remaining r.sentAt r.outcome, .checked r.waitReading r.localRetryDelay]
                  (.error (.transport error))
              else
                .again [.sent remaining r.sentAt r.outcome, .checked r.waitReading r.localRetryDelay,
                  .slept r.localRetryDelay] { s with retries := s.retries + 1 }
            else .done [.sent remaining r.sentAt r.outcome] (.error (.transport error))
        | .response response =>
            if response.status = unauthorized && generation.isSome && !s.authRefreshed then
              .again [.sent remaining r.sentAt r.outcome, .refreshed] { s with authRefreshed := true }
            else if isSuccessStatus response.status then
              .done [.sent remaining r.sentAt r.outcome] (.ok response)
            else if s.retries < client.retryPolicy.maxRetries && shouldRetryResponse response then
              match retryDelay response r.localRetryDelay with
              | none => .done [.sent remaining r.sentAt r.outcome] (.error (.api response))
              | some delay =>
                  if canWait r.waitReading delay client.overallTimeout then
                    .again [.sent remaining r.sentAt r.outcome, .checked r.waitReading delay,
                      .slept delay] { s with retries := s.retries + 1 }
                  else
                    .done [.sent remaining r.sentAt r.outcome, .checked r.waitReading delay]
                      (.error (.api response))
            else .done [.sent remaining r.sentAt r.outcome] (.error (.api response))

/-- The loop of `AdminClient::send`, whose `request_timeout` is the overall timeout and whose header is
fixed. -/
def adminSend (operation : AdminOperation) : Step :=
  match remainingTime r.sentAt client.overallTimeout with
  | none => .done [] (.error .deadlineExceeded)
  | some remaining =>
      match r.outcome with
      | .failed error =>
          if retryableOperation (adminRetryClass operation.method) client.retryPolicy
              && s.retries < client.retryPolicy.maxRetries && (error.isConnect || error.isTimeout) then
            if !canWait r.waitReading r.localRetryDelay client.overallTimeout then
              .done [.sent remaining r.sentAt r.outcome, .checked r.waitReading r.localRetryDelay]
                (.error (.transport error))
            else
              .again [.sent remaining r.sentAt r.outcome, .checked r.waitReading r.localRetryDelay,
                .slept r.localRetryDelay] { s with retries := s.retries + 1 }
          else .done [.sent remaining r.sentAt r.outcome] (.error (.transport error))
      | .response response =>
          if operation.successStatuses.contains response.status then
            .done [.sent remaining r.sentAt r.outcome] (.ok response)
          else if retryableOperation (adminRetryClass operation.method) client.retryPolicy
              && s.retries < client.retryPolicy.maxRetries && shouldRetryResponse response then
            let wait : Option ℕ :=
              match response.serverDelay with
              | .valid delay => some delay
              | .absent => some r.localRetryDelay
              | .tooLong => none
            match wait with
            | none => .done [.sent remaining r.sentAt r.outcome] (.error (.api response))
            | some delay =>
                if canWait r.waitReading delay client.overallTimeout then
                  .again [.sent remaining r.sentAt r.outcome, .checked r.waitReading delay,
                    .slept delay] { s with retries := s.retries + 1 }
                else
                  .done [.sent remaining r.sentAt r.outcome, .checked r.waitReading delay]
                    (.error (.api response))
          else .done [.sent remaining r.sentAt r.outcome] (.error (.api response))

/-- `send_one_shot_form`, which does not loop. -/
def sendOneShotForm : Run Event (Except Error Response) :=
  match client.auth.authorizationWithBudget r client.overallTimeout with
  | .error error => ⟨[], some (.error error)⟩
  | .ok (_, remaining) =>
      if !r.built then ⟨[], some (.error .request)⟩
      else
        match r.outcome with
        | .failed error => ⟨[.sent remaining r.sentAt r.outcome], some (.error (.transport error))⟩
        | .response response =>
            if isSuccessStatus response.status then
              ⟨[.sent remaining r.sentAt r.outcome], some (.ok response)⟩
            else ⟨[.sent remaining r.sentAt r.outcome], some (.error (.api response))⟩

/-- A loop of the client that repeats a request, with the operation that it is given. -/
inductive Lane where
  | json (operation : OperationMeta)
  | replayableForm
  | replayableJson
  | download
  | admin (operation : AdminOperation)

def Lane.step (lane : Lane) (client : Transport) (s : LoopState) (r : Round) : Step :=
  match lane with
  | .json operation => sendWithStaticHeader client s r operation
  | .replayableForm => sendReplayableForm client s r
  | .replayableJson => sendReplayableJson client s r
  | .download => sendDownloadWithQuery client s r
  | .admin operation => adminSend client s r operation

def Lane.run (lane : Lane) (client : Transport) (rounds : List Round) :
    Run Event (Except Error Response) :=
  drive (lane.step client) .start rounds

/-- The class under which a lane repeats its request. -/
def Lane.retryClass : Lane → RetryClass
  | .json operation => operation.retry
  | .replayableForm => .replayable
  | .replayableJson => .replayable
  | .download => .safe
  | .admin operation => adminRetryClass operation.method

/-- The success test of a lane. -/
def Lane.succeeds : Lane → ℕ → Bool
  | .json operation => fun status => operation.successStatuses.contains status
  | .replayableForm => isSuccessStatus
  | .replayableJson => isSuccessStatus
  | .download => isSuccessStatus
  | .admin operation => fun status => operation.successStatuses.contains status

/-- Whether a lane authenticates with a credential that a 401 refreshes. -/
def Lane.refreshes (lane : Lane) (client : Transport) : Bool :=
  match lane with
  | .admin _ => false
  | _ => client.auth = .workload

end Lanes

section Leases

/-- What the surroundings answer in one iteration of `X509Client::execute_json`. -/
structure LeaseRound where
  /-- The reading before the lease. -/
  beforeLease : ℕ
  /-- Whether `lease` gives a lease. -/
  lease : Bool
  /-- The reading at which the lease is there, and the attempt is sent. -/
  sentAt : ℕ
  outcome : Outcome

/-- The loop of `X509Client::execute_json`; its state is `auth_replayed`. -/
def executeJson (requestTimeout : ℕ) (authReplayed : Bool) (r : LeaseRound) :
    Iteration Bool Event (Except Error Response) :=
  match remainingTime r.beforeLease requestTimeout with
  | none => .done [] (.error .deadlineExceeded)
  | some remaining =>
      if !r.lease then .done [] (.error .authorization)
      else
        match r.outcome with
        | .failed error => .done [.sent remaining r.sentAt r.outcome] (.error (.transport error))
        | .response response =>
            if response.status = unauthorized && !authReplayed then
              .again [.sent remaining r.sentAt r.outcome, .refreshed] true
            else if response.status = 200 then .done [.sent remaining r.sentAt r.outcome] (.ok response)
            else .done [.sent remaining r.sentAt r.outcome] (.error (.api response))

end Leases

end OpenaiRs.Retry
