import OpenaiRs.Machines.Run
import OpenaiRs.WebSocket.Message

/-!
# The Realtime WebSocket

`RealtimeWebSocket` of `openai-rs-client/src/realtime.rs`, with its keepalive.

## Implementation notes

An `Instant` is a number of nanoseconds. The ticker is the time of its last tick; it ticks again one
interval later at the earliest.
-/

namespace OpenaiRs.WebSocket

variable {Outgoing Incoming Fault : Type}

section State

structure RealtimeKeepalive where
  pingInterval : ℕ
  pongTimeout : ℕ
  deriving DecidableEq

/-- `silence_window`. `validate` refuses a configuration for which the sum is not a `Duration`. -/
def RealtimeKeepalive.silenceWindow (config : RealtimeKeepalive) : ℕ :=
  config.pingInterval + config.pongTimeout

structure RealtimeKeepaliveState where
  config : RealtimeKeepalive
  ticker : ℕ
  lastInbound : ℕ
  lastPoll : ℕ
  deriving DecidableEq

structure RealtimeWebSocket where
  maxMessageBytes : ℕ
  keepalive : Option RealtimeKeepaliveState
  closed : Bool
  lastClose : Option (UInt16 × String)
  /-- A call of `recv` awaits a message. -/
  receiving : Bool
  deriving DecidableEq

/-- The socket that `connect` returns. -/
def RealtimeWebSocket.connected (maxMessageBytes : ℕ) (keepalive : Option RealtimeKeepalive)
    (connectedAt : ℕ) : RealtimeWebSocket where
  maxMessageBytes := maxMessageBytes
  keepalive := keepalive.map fun config => ⟨config, connectedAt, connectedAt, connectedAt⟩
  closed := false
  lastClose := none
  receiving := false

inductive RealtimeInbound where
  | event (text : String)
  | ignore
  | closed (frame : Option CloseFrame)
  | reject (reason : String)

def classifyRealtimeInbound : Message → RealtimeInbound
  | .text text => .event text
  | .ping => .ignore
  | .pong => .ignore
  | .close frame => .closed frame
  | .binary => .reject "Realtime WebSocket sent a binary data message"
  | .frame => .reject "Realtime WebSocket exposed an unexpected raw frame"

def keepaliveTimeoutReason : String :=
  "Realtime keepalive timed out: no inbound frames within ping_interval + pong_timeout"

end State

namespace RealtimeWebSocket

section Methods

variable (codec : Codec Outgoing Incoming Fault) (s : RealtimeWebSocket)

def send (event : Outgoing) (written : Option (Except Fault Unit)) :
    RealtimeWebSocket × Output Incoming Fault :=
  if s.closed then
    (s, ⟨[], some (.send (.error
      (.webSocketProtocol "cannot send on a closed Realtime WebSocket")))⟩)
  else
    match codec.toString event with
    | .error fault => (s, ⟨[], some (.send (.error (.encode fault)))⟩)
    | .ok encoded =>
        if s.maxMessageBytes < encoded.utf8ByteSize then
          (s, ⟨[], some (.send (.error (.webSocketProtocol
            "outgoing Realtime event exceeds the configured message limit")))⟩)
        else
          match written with
          | none => (s, ⟨[.write encoded], none⟩)
          | some (.ok ()) => (s, ⟨[.write encoded], some (.send (.ok ()))⟩)
          | some (.error fault) =>
              ({ s with closed := true }, ⟨[.write encoded], some (.send (.error (.webSocket fault)))⟩)

/-- The top of the receive loop: a gap since the loop was here last sets the anchor anew. -/
def pollTop (keepalive : RealtimeKeepaliveState) (top : Top) : RealtimeKeepaliveState :=
  if keepalive.config.pingInterval ≤ top.polled - keepalive.lastPoll then
    { keepalive with lastInbound := top.now, lastPoll := top.now }
  else { keepalive with lastPoll := top.now }

/-- An inbound frame, of any kind. -/
def refresh (keepalive : RealtimeKeepaliveState) (readAt : ℕ) : RealtimeKeepaliveState :=
  { keepalive with lastInbound := readAt }

/-- The receive loop up to where it awaits. -/
def await (top : Top) : RealtimeWebSocket × Output Incoming Fault :=
  ({ s with keepalive := s.keepalive.map (pollTop · top), receiving := true }, ⟨[.next], none⟩)

def recv (top : Top) : RealtimeWebSocket × Output Incoming Fault :=
  if s.closed then (s, ⟨[], some (.recv (.ok none))⟩) else s.await top

/-- `recv` returns. -/
def returns (result : Except (Error Fault) (Option Incoming)) :
    RealtimeWebSocket × Output Incoming Fault :=
  ({ s with receiving := false }, ⟨[], some (.recv result)⟩)

/-- `recv` retires the socket and returns. -/
def retires (result : Except (Error Fault) (Option Incoming)) :
    RealtimeWebSocket × Output Incoming Fault :=
  ({ s with closed := true, receiving := false }, ⟨[], some (.recv result)⟩)

/-- The loop with the next message of the socket. -/
def inbound (message : Option (Except Fault Message)) (readAt : ℕ) (top : Top) :
    RealtimeWebSocket × Output Incoming Fault :=
  match message with
  | none => s.retires (.ok none)
  | some message =>
      -- Every inbound frame refreshes the window, before it is looked at.
      let s := { s with keepalive := s.keepalive.map (refresh · readAt) }
      match message with
      | .error fault => s.retires (.error (.webSocket fault))
      | .ok message =>
          match classifyRealtimeInbound message with
          | .event text =>
              if s.maxMessageBytes < text.utf8ByteSize then
                s.retires (.error (.webSocketProtocol
                  "incoming Realtime event exceeds the configured message limit"))
              else
                match codec.deserializeJson text with
                | .error fault => s.returns (.error (.decode fault))
                | .ok event => s.returns (.ok (some event))
          | .ignore => s.await top
          | .closed none => s.retires (.ok none)
          | .closed (some frame) =>
              ({ s with lastClose := some (frame.code, frame.reason) } : RealtimeWebSocket).retires (.ok none)
          | .reject reason => s.retires (.error (.webSocketProtocol reason))

/-- The loop with the next tick. -/
def tick (keepalive : RealtimeKeepaliveState) (takenAt judgedAt : ℕ)
    (probe : Option (Except Fault Unit)) (top : Top) : RealtimeWebSocket × Output Incoming Fault :=
  let keepalive := { keepalive with ticker := takenAt }
  let s := { s with keepalive := some keepalive }
  if keepalive.config.silenceWindow ≤ judgedAt - keepalive.lastInbound then
    s.retires (.error (.webSocketProtocol keepaliveTimeoutReason))
  else
    match probe with
    | none => ({ s with receiving := false }, ⟨[.ping], none⟩)
    | some (.error fault) =>
        ({ s with closed := true, receiving := false },
          ⟨[.ping], some (.recv (.error (.webSocket fault)))⟩)
    | some (.ok ()) =>
        let (s, output) := s.await top
        (s, { output with ops := .ping :: output.ops })

def close (done : Option (Except Fault Unit)) : RealtimeWebSocket × Output Incoming Fault :=
  if s.closed then (s, ⟨[], some (.close (.ok ()))⟩)
  else
    match done with
    | none => (s, ⟨[.close (some ⟨1000, ""⟩)], none⟩)
    | some (.error fault) =>
        (s, ⟨[.close (some ⟨1000, ""⟩)], some (.close (.error (.webSocket fault)))⟩)
    | some (.ok ()) =>
        ({ s with closed := true }, ⟨[.close (some ⟨1000, ""⟩)], some (.close (.ok ()))⟩)

/-- What the surroundings may do in a state. -/
def step (a : Action Outgoing Fault) : Option (RealtimeWebSocket × Output Incoming Fault) :=
  match a with
  | .send event written => if s.receiving then none else some (s.send codec event written)
  | .recv top => if s.receiving then none else some (s.recv top)
  | .close done => if s.receiving then none else some (s.close done)
  | .inbound message readAt top => if s.receiving then some (s.inbound codec message readAt top) else none
  | .drop _ => if s.receiving then some ({ s with receiving := false }, ⟨[], none⟩) else none
  | .tick takenAt judgedAt probe top =>
      match s.keepalive with
      | none => none
      | some keepalive =>
          if s.receiving && keepalive.ticker + keepalive.config.pingInterval ≤ takenAt then
            some (s.tick keepalive takenAt judgedAt probe top)
          else none

end Methods

end RealtimeWebSocket

end OpenaiRs.WebSocket
