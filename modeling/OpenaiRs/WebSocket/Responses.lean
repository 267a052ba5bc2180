import OpenaiRs.Machines.Run
import OpenaiRs.WebSocket.Message

/-!
# The Responses WebSockets

`ResponsesWebSocket` of `openai-rs-client/src/responses_websocket.rs` and `BetaResponsesWebSocket` of
`beta_responses.rs`, which is the same code with texts of its own and another close frame.
-/

namespace OpenaiRs.WebSocket

variable {Outgoing Incoming Fault : Type}

section State

structure ResponsesWebSocket where
  maxMessageBytes : ℕ
  closed : Bool
  lastClose : Option (UInt16 × String)
  /-- A call of `recv` awaits a message. -/
  receiving : Bool
  deriving DecidableEq

/-- The socket that `connect` returns. -/
def ResponsesWebSocket.connected (maxMessageBytes : ℕ) : ResponsesWebSocket where
  maxMessageBytes := maxMessageBytes
  closed := false
  lastClose := none
  receiving := false

/-- What the two faces do not share. -/
structure Face where
  cannotSend : String
  outgoingLimit : String
  incomingLimit : String
  binary : String
  rawFrame : String
  closeFrame : Option CloseFrame

def responsesFace : Face where
  cannotSend := "cannot send on a closed Responses WebSocket"
  outgoingLimit := "outgoing Responses event exceeds the configured message limit"
  incomingLimit := "incoming Responses event exceeds the configured message limit"
  binary := "Responses WebSocket sent a binary data message"
  rawFrame := "Responses WebSocket exposed an unexpected raw frame"
  closeFrame := some ⟨1000, ""⟩

def betaResponsesFace : Face where
  cannotSend := "cannot send on a closed beta Responses WebSocket"
  outgoingLimit := "outgoing beta Responses event exceeds the configured message limit"
  incomingLimit := "incoming beta Responses event exceeds the configured message limit"
  binary := "beta Responses WebSocket sent a binary data message"
  rawFrame := "beta Responses WebSocket exposed an unexpected raw frame"
  closeFrame := none

end State

namespace ResponsesWebSocket

section Methods

variable (face : Face) (codec : Codec Outgoing Incoming Fault) (s : ResponsesWebSocket)

def sendEvent (event : Outgoing) (written : Option (Except Fault Unit)) :
    ResponsesWebSocket × Output Incoming Fault :=
  if s.closed then (s, ⟨[], some (.send (.error (.webSocketProtocol face.cannotSend)))⟩)
  else
    match codec.toString event with
    | .error fault => (s, ⟨[], some (.send (.error (.encode fault)))⟩)
    | .ok encoded =>
        match validateStreamId codec encoded with
        | .error error => (s, ⟨[], some (.send (.error error))⟩)
        | .ok () =>
            if s.maxMessageBytes < encoded.utf8ByteSize then
              (s, ⟨[], some (.send (.error (.webSocketProtocol face.outgoingLimit)))⟩)
            else
              match written with
              | none => (s, ⟨[.write encoded], none⟩)
              | some (.ok ()) => (s, ⟨[.write encoded], some (.send (.ok ()))⟩)
              | some (.error fault) =>
                  ({ s with closed := true },
                    ⟨[.write encoded], some (.send (.error (.webSocket fault)))⟩)

/-- The receive loop up to where it awaits. -/
def await : ResponsesWebSocket × Output Incoming Fault :=
  ({ s with receiving := true }, ⟨[.next], none⟩)

def recv : ResponsesWebSocket × Output Incoming Fault :=
  if s.closed then (s, ⟨[], some (.recv (.ok none))⟩) else s.await

/-- `recv` returns. -/
def returns (result : Except (Error Fault) (Option Incoming)) :
    ResponsesWebSocket × Output Incoming Fault :=
  ({ s with receiving := false }, ⟨[], some (.recv result)⟩)

/-- `recv` retires the socket and returns. -/
def retires (result : Except (Error Fault) (Option Incoming)) :
    ResponsesWebSocket × Output Incoming Fault :=
  ({ s with closed := true, receiving := false }, ⟨[], some (.recv result)⟩)

/-- The loop with the next message of the socket. -/
def inbound (message : Option (Except Fault Message)) : ResponsesWebSocket × Output Incoming Fault :=
  match message with
  | none => s.retires (.ok none)
  | some (.error fault) => s.retires (.error (.webSocket fault))
  | some (.ok message) =>
      match message with
      | .text text =>
          if s.maxMessageBytes < text.utf8ByteSize then
            s.retires (.error (.webSocketProtocol face.incomingLimit))
          else
            match codec.deserializeJson text with
            | .error fault => s.returns (.error (.decode fault))
            | .ok event => s.returns (.ok (some event))
      | .ping => s.await
      | .pong => s.await
      | .close none => s.retires (.ok none)
      | .close (some frame) =>
          ({ s with lastClose := some (frame.code, frame.reason) } : ResponsesWebSocket).retires (.ok none)
      | .binary => s.retires (.error (.webSocketProtocol face.binary))
      | .frame => s.retires (.error (.webSocketProtocol face.rawFrame))

def close (done : Option (Except Fault Unit)) : ResponsesWebSocket × Output Incoming Fault :=
  if s.closed then (s, ⟨[], some (.close (.ok ()))⟩)
  else
    match done with
    | none => (s, ⟨[.close face.closeFrame], none⟩)
    | some (.error fault) =>
        (s, ⟨[.close face.closeFrame], some (.close (.error (.webSocket fault)))⟩)
    | some (.ok ()) =>
        ({ s with closed := true }, ⟨[.close face.closeFrame], some (.close (.ok ()))⟩)

/-- What the surroundings may do in a state; these faces have no ticker. -/
def step (a : Action Outgoing Fault) : Option (ResponsesWebSocket × Output Incoming Fault) :=
  match a with
  | .send event written => if s.receiving then none else some (s.sendEvent face codec event written)
  | .recv _ => if s.receiving then none else some s.recv
  | .close done => if s.receiving then none else some (s.close face done)
  | .inbound message _ _ => if s.receiving then some (s.inbound face codec message) else none
  | .drop _ => if s.receiving then some ({ s with receiving := false }, ⟨[], none⟩) else none
  | .tick _ _ _ _ => none

end Methods

end ResponsesWebSocket

end OpenaiRs.WebSocket
