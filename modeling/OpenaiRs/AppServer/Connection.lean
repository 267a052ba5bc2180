import OpenaiRs.AppServer.Protocol
import OpenaiRs.Interleaving.System

/-!
# The shared state of an app-server connection

`Inner` of `openai-rs-codex/src/app_server/client.rs`, and the atomic operations that tasks
perform on it: one access to an atomic, or one critical section of a mutex, each.

## Implementation notes

A pending entry owns the sender of its request and one permit, so it is given by the id of
the request. Ids are never reused; inserting one that is present does not occur. Two local
variables that own entries are part of this state, because only one call ever has them: the
entry that `handle_inbound` has removed, and the entries that the first `terminate` has
drained. Fields after `stdin` only record what happened; no step reads them.
-/

namespace OpenaiRs.AppServer

open Serde Rust

/-- The one-shot channel of a request. -/
structure Channel where
  value : Option PendingResult
  receiverDropped : Bool
  senderDropped : Bool

def Channel.new : Channel := ⟨none, false, false⟩

/-- `Sender::send`: the value is lost if the receiver is gone. -/
def Channel.send (channel : Channel) (result : PendingResult) : Channel :=
  if channel.receiverDropped then { channel with senderDropped := true }
  else { channel with value := some result, senderDropped := true }

/-- A frame that was handed to the child's stdin, and how many of its bytes were accepted. -/
structure Chunk where
  frame : Bytes
  accepted : Nat
  deriving DecidableEq

def Chunk.bytes (chunk : Chunk) : Bytes := chunk.frame.take chunk.accepted

/-- What became of an inbound frame. -/
inductive Disposal where
  | delivered (id : Nat) (result : PendingResult)
  | discarded (id : Nat)
  | emitted (event : AppServerEvent)
  | failed (failure : ConnectionFailure)

/-- Where a call of `terminate` stands. -/
inductive TerminatePc where
  | swap (failure : ConnectionFailure)
  | close (failure : ConnectionFailure)
  | probe (failure : ConnectionFailure)
  | record (failure : ConnectionFailure)
  | takeEvents (failure : ConnectionFailure)
  | drain (failure : ConnectionFailure)
  | broadcast (failure : ConnectionFailure)
  | release (failure : ConnectionFailure) (id : Nat)
  | closeSlots
  | reap
  | takeWriter

/-- Where the stdout reader stands. -/
inductive ReaderPc where
  | reading
  | refusing (failure : ConnectionFailure)
  | looking (id : Nat) (object : Map) (raw : Value)
  | accepting (id : Nat) (result : PendingResult) (raw : Value)
  | sending (id : Nat) (result : PendingResult)
  | dropping (id : Nat)
  | cloning (event : AppServerEvent)
  | pushing (event : AppServerEvent)
  | terminating (pc : TerminatePc)
  | stopped

structure Connection where
  /-- The task that holds the writer lock. -/
  writer : Option Nat
  stdinOpen : Bool
  pending : List Nat
  available : Nat
  slotsClosed : Bool
  nextId : Nat
  eventsTx : Bool
  events : List AppServerEvent
  terminalFailure : Option ConnectionFailure
  closed : Bool
  shutdownStarted : Bool
  /-- The channels of the requests, by id. -/
  channels : Nat → Channel
  /-- The entry that `handle_inbound` has removed. -/
  accepted : Option Nat
  /-- The entries that `terminate` has drained and not yet answered. -/
  drained : List Nat
  /-- Answered entries whose permit is not dropped yet. -/
  spent : List Nat
  reader : ReaderPc
  /-- The frames written, the latest first. -/
  stdin : List Chunk
  /-- The task that took an id. -/
  owners : Nat → Option Nat
  /-- The requests whose permit was given back. -/
  returned : List Nat
  drainedIds : List Nat
  drainDone : Bool
  inbound : List Frame
  disposals : List Disposal

namespace Connection

def init (settings : Settings) : Connection where
  writer := none
  stdinOpen := true
  pending := []
  available := settings.maxPendingRequests
  slotsClosed := false
  nextId := 1
  eventsTx := true
  events := []
  terminalFailure := none
  closed := false
  shutdownStarted := false
  channels := fun _ => Channel.new
  accepted := none
  drained := []
  spent := []
  reader := .reading
  stdin := []
  owners := fun _ => none
  returned := []
  drainedIds := []
  drainDone := false
  inbound := []
  disposals := []

/-- Every request whose sender is still owned by an entry. -/
def senders (s : Connection) : List Nat := s.pending ++ s.accepted.toList ++ s.drained

end Connection

/-- The atomic operations. -/
inductive Operation where
  | skip
  | acquire
  | release
  | takeId (task : Nat)
  | insert (id : Nat)
  | remove (id : Nat)
  | lock (task : Nat)
  | unlock
  | begin (frame : Bytes)
  | accept (count : Nat)
  | close
  | record (failure : ConnectionFailure)
  | overwrite (failure : ConnectionFailure)
  | dropReceiver (id : Nat)
  | startShutdown
  | takeEvents
  | drain
  | broadcast (failure : ConnectionFailure) (id : Nat)
  | dropPermit (id : Nat)
  | closeSlots
  | takeStdin
  | read (frame : Frame)
  | dispose (disposal : Disposal)
  | take (id : Nat)
  | deliver (id : Nat) (result : PendingResult)
  | emit (event : AppServerEvent)
  | consume

/-- Bytes that stdin accepts belong to the frame written last. -/
def acceptBytes (count : Nat) : List Chunk → List Chunk
  | [] => []
  | chunk :: rest => { chunk with accepted := chunk.accepted + count } :: rest

/-- What happens to a delivered result. -/
def Channel.disposal (channel : Channel) (id : Nat) (result : PendingResult) : Disposal :=
  if channel.receiverDropped then .discarded id else .delivered id result

namespace Connection

def perform (s : Connection) : Operation → Connection
  | .skip => s
  | .acquire => { s with available := s.available - 1 }
  | .release => { s with available := s.available + 1 }
  | .takeId task =>
      { s with nextId := s.nextId + 1, owners := Function.update s.owners s.nextId (some task) }
  | .insert id => { s with pending := id :: s.pending }
  | .remove id =>
      -- The entry is dropped before the lock is released: its permit returns, its sender goes.
      if id ∈ s.pending then
        { s with
          pending := s.pending.erase id
          available := s.available + 1
          returned := id :: s.returned
          channels := Function.update s.channels id { s.channels id with senderDropped := true } }
      else s
  | .lock task => { s with writer := some task }
  | .unlock => { s with writer := none }
  | .begin frame => { s with stdin := ⟨frame, 0⟩ :: s.stdin }
  | .accept count => { s with stdin := acceptBytes count s.stdin }
  | .close => { s with closed := true }
  | .record failure => { s with terminalFailure := s.terminalFailure.or (some failure) }
  | .overwrite failure => { s with terminalFailure := some failure }
  | .dropReceiver id =>
      { s with
        channels := Function.update s.channels id { s.channels id with receiverDropped := true } }
  | .startShutdown => { s with shutdownStarted := true }
  | .takeEvents => { s with eventsTx := false }
  | .drain =>
      { s with
        pending := []
        drained := s.drained ++ s.pending
        drainedIds := s.drainedIds ++ s.pending
        drainDone := true }
  | .broadcast failure id =>
      { s with
        drained := s.drained.erase id
        spent := id :: s.spent
        channels := Function.update s.channels id ((s.channels id).send (.connection failure)) }
  | .dropPermit id =>
      if id ∈ s.spent then
        { s with
          spent := s.spent.erase id
          available := s.available + 1
          returned := id :: s.returned }
      else s
  | .closeSlots => { s with slotsClosed := true }
  | .takeStdin => { s with stdinOpen := false }
  | .read frame => { s with inbound := s.inbound ++ [frame] }
  | .dispose disposal => { s with disposals := s.disposals ++ [disposal] }
  | .take id => { s with pending := s.pending.erase id, accepted := some id }
  | .deliver id result =>
      { s with
        accepted := none
        spent := id :: s.spent
        channels := Function.update s.channels id ((s.channels id).send result)
        disposals := s.disposals ++ [(s.channels id).disposal id result] }
  | .emit event =>
      { s with events := s.events ++ [event], disposals := s.disposals ++ [.emitted event] }
  | .consume => { s with events := s.events.tail }

end Connection

end OpenaiRs.AppServer
