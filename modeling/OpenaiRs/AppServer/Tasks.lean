import OpenaiRs.AppServer.Connection

/-!
# The tasks of an app-server connection

`request_value`, `write_message`, `terminate`, the drop guards and the stdout reader of
`openai-rs-codex/src/app_server/client.rs`, as tasks that take one atomic operation at a
time. Between any two operations every other task may act.

## Implementation notes

A task stands before its next operation. What a call still has to do on its way out, drop
guards included, is the list of its cleanup actions in the order in which they run. A call
can be dropped, and the exchange of a request can time out, where it awaits something. A task
that was handed the writer lock or a permit but was not resumed yet can be dropped as well.

The child process only shows in the answers of the operating system: how many bytes stdin
accepts, whether a write fails, and whether the child has exited.
-/

namespace OpenaiRs.AppServer

open Serde Rust Interleaving

section Types

/-- What a task was started for. -/
inductive Job where
  | request (call : Call) (id : Nat)
  | message (body : Value)
  | shutdown

/-- How a task ended. -/
inductive Exit where
  | received (result : PendingResult)
  | written
  | failed (error : Error)
  | timedOut
  | cancelled
  | finished

/-- What a task still does on its way out. -/
inductive Cleanup where
  | close
  | record (failure : ConnectionFailure)
  | spawn (failure : ConnectionFailure)
  | unlock
  | dropReceiver
  | remove
  | overwrite (failure : ConnectionFailure)
  | terminate (pc : TerminatePc)

inductive Task where
  | start (call : Call)
  | unclosed (call : Call)
  | acquiring (call : Call)
  | granted (call : Call)
  | permitted (call : Call)
  | identified (call : Call) (id : Nat)
  | entering (job : Job)
  | locking (job : Job) (frame : Bytes)
  | locked (job : Job) (frame : Bytes)
  | writing (job : Job) (frame : Bytes)
  | flushing (job : Job)
  | responding (call : Call) (id : Nat)
  | leaving (job : Job) (actions : List Cleanup) (exit : Exit)
  | ended (id : Option Nat) (exit : Exit)

/-- What a step leaves open. -/
inductive Choice where
  | proceed
  | accept (count : Nat)
  | pick (position : Nat)
  | fail (message : String)
  | exited (status : String)
  | noRuntime
  | cancel
  | timeout

end Types

section Jobs

namespace Job

def id : Job → Option Nat
  | request _ id => some id
  | _ => none

/-- The value that is written. -/
def body (settings : Settings) : Job → Value
  | request call id => .object (call.message id settings.trace)
  | message body => body
  | shutdown => .null

/-- `write_message` returned an error: a request removes its entry, drops the exchange with the
receiver, and then the guard. -/
def refused : Job → List Cleanup
  | request _ _ => [.remove, .dropReceiver, .remove]
  | _ => []

/-- The exchange of a request is dropped, and then the guard. -/
def dropped : Job → List Cleanup
  | request _ _ => [.dropReceiver, .remove]
  | _ => []

/-- The timer of a request drops the exchange before the write has completed. -/
def overtime : Job → List Cleanup
  | request call id =>
      [.dropReceiver, .remove, .overwrite (call.writeTimeout id),
        .terminate (.swap (call.writeTimeout id)), .remove]
  | _ => []

/-- Only requests have a timer. -/
def timed : Job → Bool
  | request _ _ => true
  | _ => false

end Job

/-- What `WriteCancellationGuard` and the writer lock do when a write is dropped. -/
def guardActions : List Cleanup :=
  [.close, .record cancelledWrite, .spawn cancelledWrite, .unlock]

/-- A write failed: the lock is released, and then the connection is terminated. -/
def ioFailure (job : Job) (failure : ConnectionFailure) : Task :=
  .leaving job (.unlock :: .terminate (.swap failure) :: job.refused) (.failed (.connection failure))

/-- The write is complete and the lock released. -/
def Job.wrote : Job → Task
  | .request call id => .responding call id
  | job => .ended job.id .written

end Jobs

section Terminate

/-- Where `terminate` awaits. -/
def TerminatePc.awaits : TerminatePc → Bool
  | probe _ | reap | takeWriter => true
  | _ => false

/-- An exit status is folded into failures that do not carry one. -/
def foldStatus (failure : ConnectionFailure) (status : String) : ConnectionFailure :=
  match failure.kind with
  | .closed | .childExit => failure
  | kind => ⟨kind, failure.message ++ "; app-server child exited with status " ++ status⟩

/-- One operation of `terminate`; without a next state it has returned. -/
def terminateNext (s : Connection) : TerminatePc → Choice → Option (Operation × Option TerminatePc)
  | .swap failure, .proceed =>
      if s.shutdownStarted then some (.skip, none) else some (.startShutdown, some (.close failure))
  | .close failure, .proceed => some (.close, some (.probe failure))
  | .probe failure, .proceed => some (.skip, some (.record failure))
  | .probe failure, .exited status => some (.skip, some (.record (foldStatus failure status)))
  | .record failure, .proceed =>
      some (.record failure, some (.takeEvents (s.terminalFailure.getD failure)))
  | .takeEvents failure, .proceed => some (.takeEvents, some (.drain failure))
  | .drain failure, .proceed => some (.drain, some (.broadcast failure))
  | .broadcast failure, .pick position =>
      match s.drained[position]? with
      | some id => some (.broadcast failure id, some (.release failure id))
      | none => none
  | .broadcast _, .proceed => if s.drained = [] then some (.skip, some .closeSlots) else none
  | .release failure id, .proceed => some (.dropPermit id, some (.broadcast failure))
  | .closeSlots, .proceed => some (.closeSlots, some .reap)
  | .reap, .proceed => some (.skip, some .takeWriter)
  | .reap, .fail _ => some (.skip, none)
  | .takeWriter, .proceed => if s.writer = none then some (.takeStdin, none) else none
  | _, _ => none

end Terminate

section Steps

/-- A started `terminate` on its own: `close`, and the task that a dropped write spawns. -/
def shutdownTask (failure : ConnectionFailure) : Task :=
  .leaving .shutdown [.terminate (.swap failure)] .finished

/-- One cleanup action of a task. -/
def leave (s : Connection) (job : Job) (action : Cleanup) (rest : List Cleanup) (exit : Exit)
    (choice : Choice) : Option (Operation × Task × List Task) :=
  match action, choice with
  | .close, .proceed => some (.close, .leaving job rest exit, [])
  | .record failure, .proceed => some (.record failure, .leaving job rest exit, [])
  | .spawn failure, .proceed => some (.skip, .leaving job rest exit, [shutdownTask failure])
  | .spawn _, .noRuntime => some (.skip, .leaving job rest exit, [])
  | .unlock, .proceed => some (.unlock, .leaving job rest exit, [])
  | .dropReceiver, .proceed => job.id.map fun id => (.dropReceiver id, .leaving job rest exit, [])
  | .remove, .proceed => job.id.map fun id => (.remove id, .leaving job rest exit, [])
  | .overwrite failure, .proceed => some (.overwrite failure, .leaving job rest exit, [])
  | .terminate pc, .cancel =>
      if pc.awaits then
        -- In the exchange the receiver is still there; behind the timer only the guard is.
        match exit with
        | .timedOut => some (.skip, .leaving job [.remove] .cancelled, [])
        | _ => some (.skip, .leaving job job.dropped .cancelled, [])
      else none
  | .terminate pc, .timeout =>
      match exit with
      | .timedOut => none
      | _ =>
          if pc.awaits && job.timed then some (.skip, .leaving job job.overtime .timedOut, [])
          else none
  | .terminate pc, choice =>
      (terminateNext s pc choice).map fun step =>
        match step with
        | (op, some pc') => (op, .leaving job (.terminate pc' :: rest) exit, [])
        | (op, none) => (op, .leaving job rest exit, [])
  | _, _ => none

/-- The part of a request before its entry is registered. -/
def prologue (s : Connection) (task : Nat) : Task → Choice → Option (Operation × Task × List Task)
  | .start call, .proceed =>
      match s.terminalFailure with
      | some failure => some (.skip, .ended none (.failed (.connection failure)), [])
      | none => some (.skip, .unclosed call, [])
  | .unclosed call, .proceed =>
      if s.closed then
        some (.skip, .ended none (.failed (.connection (closedFailure "app-server connection is closed"))), [])
      else some (.skip, .acquiring call, [])
  | .acquiring call, .proceed =>
      if s.slotsClosed then
        some (.skip, .ended none (.failed (.connection
          (closedFailure "app-server pending request queue is closed"))), [])
      else if 0 < s.available then some (.acquire, .granted call, [])
      else none
  | .acquiring _, .timeout => some (.skip, .ended none (.failed .pendingCapacityTimeout), [])
  | .acquiring _, .cancel => some (.skip, .ended none .cancelled, [])
  | .granted call, .proceed => some (.skip, .permitted call, [])
  | .granted _, .cancel => some (.release, .ended none .cancelled, [])
  | .permitted call, .proceed =>
      if s.nextId + 1 < UInt64.size then some (.takeId task, .identified call s.nextId, [])
      else
        some (.release, .ended none (.failed (.invalidConfiguration
          "app-server request id space exhausted")), [])
  | .identified call id, .proceed => some (.insert id, .entering (.request call id), [])
  | _, _ => none

/-- `write_message`, and the wait for the response. -/
def exchange (settings : Settings) (s : Connection) (task : Nat) :
    Task → Choice → Option (Operation × Task × List Task)
  | .entering job, .proceed =>
      if s.closed then
        some (.skip, .leaving job job.refused (.failed (.connection
          (closedFailure "app-server connection is closed"))), [])
      else
        match encode settings (job.body settings) with
        | .error error => some (.skip, .leaving job job.refused (.failed error), [])
        | .ok frame => some (.skip, .locking job frame, [])
  | .locking job frame, .proceed =>
      if s.writer = none then some (.lock task, .locked job frame, []) else none
  | .locking job _, .cancel => some (.skip, .leaving job job.dropped .cancelled, [])
  | .locking job _, .timeout =>
      if job.timed then some (.skip, .leaving job job.overtime .timedOut, []) else none
  | .locked job frame, .proceed =>
      if s.closed then
        some (.skip, .leaving job (.unlock :: job.refused) (.failed (.connection
          (closedFailure "app-server connection closed while waiting to write"))), [])
      else if s.stdinOpen then some (.begin frame, .writing job frame, [])
      else
        some (.skip, .leaving job (.unlock :: job.refused) (.failed (.connection
          (closedFailure "app-server stdin is closed"))), [])
  | .locked job _, .cancel => some (.skip, .leaving job (.unlock :: job.dropped) .cancelled, [])
  | .locked job _, .timeout =>
      if job.timed then some (.skip, .leaving job (.unlock :: job.overtime) .timedOut, []) else none
  | .writing job frame, .accept count =>
      match s.stdin.head? with
      | some chunk =>
          if 0 < count ∧ chunk.accepted + count ≤ frame.length then
            some (.accept count, .writing job frame, [])
          else none
      | none => none
  | .writing job frame, .proceed =>
      match s.stdin.head? with
      | some chunk => if chunk.accepted = frame.length then some (.skip, .flushing job, []) else none
      | none => none
  | .writing job _, .fail message =>
      some (.skip, ioFailure job ⟨.io, "could not write app-server stdin: " ++ message⟩, [])
  | .writing job _, .cancel =>
      some (.skip, .leaving job (guardActions ++ job.dropped) .cancelled, [])
  | .writing job _, .timeout =>
      if job.timed then some (.skip, .leaving job (guardActions ++ job.overtime) .timedOut, []) else none
  | .flushing job, .proceed => some (.unlock, job.wrote, [])
  | .flushing job, .fail message =>
      some (.skip, ioFailure job ⟨.io, "could not flush app-server stdin: " ++ message⟩, [])
  | .flushing job, .cancel =>
      some (.skip, .leaving job (guardActions ++ job.dropped) .cancelled, [])
  | .flushing job, .timeout =>
      if job.timed then some (.skip, .leaving job (guardActions ++ job.overtime) .timedOut, []) else none
  | .responding call id, .proceed =>
      match (s.channels id).value with
      | some result => some (.skip, .leaving (.request call id) [.remove] (.received result), [])
      | none =>
          if (s.channels id).senderDropped then
            some (.skip, .leaving (.request call id) [.dropReceiver, .remove]
              (.failed (.responseChannelClosed id)), [])
          else none
  | .responding call id, .cancel =>
      some (.skip, .leaving (.request call id) [.dropReceiver, .remove] .cancelled, [])
  | .responding call id, .timeout =>
      some (.skip, .leaving (.request call id) [.dropReceiver, .remove, .remove] .timedOut, [])
  | _, _ => none

/-- The next operation of a task, where it stands afterwards, and the tasks it spawns. -/
def next (settings : Settings) (s : Connection) (task : Nat) (t : Task) (choice : Choice) :
    Option (Operation × Task × List Task) :=
  match t with
  | .leaving job [] exit =>
      match choice with
      | .proceed => some (.skip, .ended job.id exit, [])
      | _ => none
  | .leaving job (action :: rest) exit => leave s job action rest exit choice
  | .start _ | .unclosed _ | .acquiring _ | .granted _ | .permitted _ | .identified _ _ =>
      prologue s task t choice
  | _ => exchange settings s task t choice

end Steps

section Reader

/-- What comes from outside: calls of the application, the child's output, and the consumer of
events. A line is not empty; `reader` lets the stdout reader go on. -/
inductive Outside where
  | call (call : Call)
  | send (body : Value)
  | shutdown
  | line (frame : Frame)
  | stop (failure : ConnectionFailure)
  | reader (choice : Choice)
  | consume

/-- `handle_inbound` has classified a line. -/
def handled (frame : Frame) : ReaderPc :=
  match classify frame with
  | .invalid failure => .refusing failure
  | .event event => .cloning event
  | .response id object raw => .looking id object raw

/-- `handle_inbound` with `send_event` after the line was read, and the `terminate` of the
reader if they fail. -/
def readerNext (settings : Settings) (s : Connection) (choice : Choice) :
    ReaderPc → Option (Operation × ReaderPc)
  | .looking id object raw =>
      if id ∈ s.pending then
        -- The response is validated before the entry is removed.
        match responseResult settings object with
        | .error failure => some (.skip, .refusing failure)
        | .ok result => some (.skip, .accepting id result raw)
      else some (.skip, .cloning (.orphanResponse (.number id) raw))
  | .accepting id result raw =>
      if id ∈ s.pending then some (.take id, .sending id result)
      else some (.skip, .cloning (.orphanResponse (.number id) raw))
  | .sending id result => some (.deliver id result, .dropping id)
  | .dropping id => some (.dropPermit id, .reading)
  | .cloning event =>
      if s.eventsTx then some (.skip, .pushing event)
      else some (.skip, .refusing (closedFailure "app-server event channel is closed"))
  | .pushing event =>
      if s.events.length < settings.eventQueueCapacity then some (.emit event, .reading)
      else
        some (.skip, .refusing ⟨.eventQueueFull,
          "app-server event queue rejected an event: no available capacity"⟩)
  | .refusing failure => some (.dispose (.failed failure), .terminating (.swap failure))
  | .terminating pc =>
      (terminateNext s pc choice).map fun step =>
        match step with
        | (op, some pc') => (op, .terminating pc')
        | (op, none) => (op, .stopped)
  | _ => none

def outside (settings : Settings) (s : Connection) : Outside → Option (Connection × List Task)
  | .call call => some (s, [.start call])
  | .send body => some (s, [.entering (.message body)])
  | .shutdown => some (s, [shutdownTask (closedFailure "app-server client closed")])
  | .line frame =>
      match s.reader with
      | .reading => some ({ s.perform (.read frame) with reader := handled frame }, [])
      | _ => none
  | .stop failure =>
      match s.reader with
      | .reading => some ({ s with reader := .terminating (.swap failure) }, [])
      | _ => none
  | .reader choice =>
      (readerNext settings s choice s.reader).map fun step =>
        ({ s.perform step.1 with reader := step.2 }, [])
  | .consume => some (s.perform .consume, [])

/-- The connection with any number of calls on it. -/
def system (settings : Settings) : System Connection Task Choice Outside where
  act s task t choice :=
    (next settings s task t choice).map fun step => (s.perform step.1, step.2.1, step.2.2)
  env s event := outside settings s event

def start (settings : Settings) : Config Connection Task := ⟨Connection.init settings, []⟩

end Reader

end OpenaiRs.AppServer
