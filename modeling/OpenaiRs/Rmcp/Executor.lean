import OpenaiRs.Interleaving.Monitor
import OpenaiRs.Rust.Result

/-!
# Cancellable tool calls

`CancellationToken` and `ExecutionControl` of `openai-rs-rmcp/src/control.rs`, and `RmcpExecutor::call_tool` of
`executor.rs`, as tasks that share one token and one peer and take one atomic operation at a time.

## Implementation notes

A step reads from its `Choice` what it finds of the timer, of the channel to the peer and of the response. `select!`
polls its branches in their order; `wait_for_cancellation` is the future of `cancelled()`, which keeps its `Notified`
between two polls of the `select!` it is in. `notified()` registers where it is called, and a `Notified` that is
dropped is registered no more. A `Duration` is a natural number. `alarm` and `stopped`, `requests` and `cancellations`
only record what happened; no step reads them. A call whose future is dropped takes no step any more.
-/

namespace OpenaiRs.Rmcp

open Interleaving

variable {ρ : Type}

section Data

/-- `rmcp::service::ServiceError`, as far as it is told apart. -/
inductive ServiceError where
  | timeout (duration : ℕ)
  | cancelled (reason : Option String)
  | transportSend
  | transportClosed
  | unexpectedResponse
  | other (message : String)

inductive BridgeError where
  | transport (source : ServiceError)
  | protocol (source : ServiceError)
  | timeout (duration : ℕ)
  | cancelled (reason : Option String)
  | unsupportedResult (kind : String)

/-- `BridgeError::from_service`. -/
def BridgeError.fromService : ServiceError → BridgeError
  | .timeout duration => .timeout duration
  | .cancelled reason => .cancelled reason
  | .transportSend => .transport .transportSend
  | .transportClosed => .transport .transportClosed
  | source => .protocol source

inductive ServerResult (ρ : Type) where
  | callToolResult (result : ρ)
  | inputRequired
  | createTask
  | other

/-- What comes out of the channel of a request. -/
inductive Response (ρ : Type) where
  | closed
  | failed (error : ServiceError)
  | served (result : ServerResult ρ)

def Response.result : Response ρ → Except BridgeError ρ
  | .closed => .error (.fromService .transportClosed)
  | .failed error => .error (.fromService error)
  | .served (.callToolResult result) => .ok result
  | .served .inputRequired => .error (.unsupportedResult "input_required")
  | .served .createTask => .error (.unsupportedResult "task")
  | .served .other => .error (.fromService .unexpectedResponse)

structure ExecutionControl where
  timeout : Option ℕ
  /-- That the token is attached. -/
  cancellable : Bool

/-- The token, with the tasks whose `Notified` waits. -/
structure Shared where
  cancelled : Bool
  reason : Option String
  waiters : List ℕ
  /-- That the flag is set and the tasks are still to be notified. -/
  alarm : Bool
  /-- The reasons with which calls were cancelled here. -/
  stopped : List (Option String)

def Shared.init : Shared := ⟨false, none, [], false, []⟩

inductive CancelPc where
  | storing
  | swapping
  | notifying
  | done

/-- The `select!` that a call is in. -/
inductive Phase where
  | enqueue
  | respond

inductive Pc (ρ : Type) where
  | preflight
  | refusing
  | subscribing (phase : Phase)
  | checking (phase : Phase)
  | waiting (phase : Phase)
  | timing (phase : Phase)
  | parked (phase : Phase)
  /-- The response is polled; `fresh` where the cancellation was not polled yet. -/
  | receiving (fresh : Bool)
  | reading (phase : Phase)
  | withdrawing (error : BridgeError)
  | ended (result : Except BridgeError ρ)

structure Call (ρ : Type) where
  control : ExecutionControl
  pc : Pc ρ
  /-- The requests that went to the peer. -/
  requests : ℕ
  /-- The cancellations that went to the peer. -/
  cancellations : ℕ

inductive Task (ρ : Type) where
  | cancel (reason : Option String) (pc : CancelPc)
  | call (call : Call ρ)

/-- What a step finds. -/
structure Choice (ρ : Type) where
  elapsed : Bool
  sending : Option (Except ServiceError Unit)
  response : Option (Response ρ)
  delivered : Bool

end Data

section Steps

def Shared.register (s : Shared) (i : ℕ) : Shared := { s with waiters := i :: s.waiters }

def Shared.forget (s : Shared) (i : ℕ) : Shared := { s with waiters := s.waiters.filter (· ≠ i) }

/-- `cancel_inner`. -/
def cancelStep (s : Shared) (reason : Option String) : CancelPc → Option (Shared × CancelPc)
  | .storing => some ({ s with reason := s.reason <|> reason }, .swapping)
  | .swapping =>
      if s.cancelled then some (s, .done) else some ({ s with cancelled := true, alarm := true }, .notifying)
  | .notifying => some ({ s with waiters := [], alarm := false }, .done)
  | .done => none

/-- The poll of a cancellation that was not polled before. -/
def pollFresh (control : ExecutionControl) (phase : Phase) : Pc ρ :=
  if control.cancellable then .subscribing phase else .timing phase

/-- The poll of a cancellation that waits. -/
def pollAgain (control : ExecutionControl) (phase : Phase) : Pc ρ :=
  if control.cancellable then .waiting phase else .timing phase

/-- The timer fires. -/
def expire (timeout : ℕ) : Phase → Pc ρ
  | .enqueue => .ended (.error (.timeout timeout))
  | .respond => .withdrawing (.timeout timeout)

def Call.move (call : Call ρ) (pc : Pc ρ) : Call ρ := { call with pc }

/-- A step of `call_cancellable` in call `i`. -/
def callStep (s : Shared) (i : ℕ) (choice : Choice ρ) (call : Call ρ) : Option (Shared × Call ρ) :=
  let control := call.control
  match call.pc with
  | .preflight =>
      if control.cancellable && s.cancelled then some (s, call.move .refusing)
      else if control.timeout = some 0 then some (s, call.move (.ended (.error (.timeout 0))))
      else some (s, call.move (pollFresh control .enqueue))
  | .refusing =>
      some ({ s with stopped := s.reason :: s.stopped }, call.move (.ended (.error (.cancelled s.reason))))
  | .subscribing phase => some (s.register i, call.move (.checking phase))
  | .checking phase =>
      if s.cancelled then some (s.forget i, call.move (.reading phase)) else some (s, call.move (.waiting phase))
  | .waiting phase =>
      some (s, call.move (if i ∈ s.waiters then .timing phase else .subscribing phase))
  | .timing phase =>
      match control.timeout, choice.elapsed with
      | some duration, true => some (s.forget i, call.move (expire duration phase))
      | _, _ =>
          match phase, choice.sending with
          | .enqueue, some (.ok ()) =>
              some (s.forget i, { call with pc := .receiving true, requests := call.requests + 1 })
          | .enqueue, some (.error error) => some (s.forget i, call.move (.ended (.error (.fromService error))))
          | _, _ => some (s, call.move (.parked phase))
  | .parked .enqueue => some (s, call.move (pollAgain control .enqueue))
  | .parked .respond => some (s, call.move (.receiving false))
  | .receiving fresh =>
      match choice.response with
      | some response => some (s.forget i, call.move (.ended response.result))
      | none => some (s, call.move (if fresh then pollFresh control .respond else pollAgain control .respond))
  | .reading phase =>
      some ({ s with stopped := s.reason :: s.stopped },
        call.move (match phase with
          | .enqueue => .ended (.error (.cancelled s.reason))
          | .respond => .withdrawing (.cancelled s.reason)))
  | .withdrawing error =>
      some (s, { call with
        pc := .ended (.error error)
        cancellations := if choice.delivered then call.cancellations + 1 else call.cancellations })
  | .ended _ => none

/-- New calls, and calls of `cancel` and `cancel_with_reason`. -/
inductive Outside where
  | call (control : ExecutionControl)
  | cancel (reason : Option String)

def Outside.task : Outside → Task ρ
  | .call control => .call ⟨control, .preflight, 0, 0⟩
  | .cancel (some reason) => .cancel (some reason) .storing
  | .cancel none => .cancel none .swapping

/-- One token and one peer with any number of tasks. -/
def system : System Shared (Task ρ) (Choice ρ) Outside where
  act s i task choice :=
    match task with
    | .cancel reason pc => (cancelStep s reason pc).map fun (s, pc) => (s, .cancel reason pc, [])
    | .call call => (callStep s i choice call).map fun (s, call) => (s, .call call, [])
  env s event := some (s, [event.task])

def start : Config Shared (Task ρ) := ⟨.init, []⟩

end Steps

end OpenaiRs.Rmcp
