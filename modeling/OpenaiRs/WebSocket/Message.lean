import OpenaiRs.Serde.Value

/-!
# What the WebSocket faces exchange with their socket

The messages and operations of a tungstenite socket, what the methods of a face return, and the check
that the Responses faces make before they write.

## Implementation notes

`send`, `recv` and `close` take `&mut self`, so that they do not overlap, but a caller may drop the future of
any of them. A `recv` is cut where it awaits: an action runs the code from one such point to the next.
-/

namespace OpenaiRs.WebSocket

open Serde (Value)

section Messages

structure CloseFrame where
  code : UInt16
  reason : String
  deriving DecidableEq

/-- A `tungstenite::Message`. Only texts and close frames are looked into. -/
inductive Message where
  | text (text : String)
  | binary
  | ping
  | pong
  | close (frame : Option CloseFrame)
  | frame
  deriving DecidableEq

/-- An operation that a face performs on its socket. -/
inductive Op where
  | next
  | write (text : String)
  | ping
  | close (frame : Option CloseFrame)
  deriving DecidableEq

inductive Error (Fault : Type) where
  | webSocketProtocol (reason : String)
  /-- `map_websocket_error` of what the socket reports. -/
  | webSocket (fault : Fault)
  | encode (fault : Fault)
  | decode (fault : Fault)
  deriving DecidableEq

/-- The serde functions that a face calls. -/
structure Codec (Outgoing Incoming Fault : Type) where
  toString : Outgoing → Except Fault String
  fromStr : String → Except Fault Value
  deserializeJson : String → Except Fault Incoming

/-- Every event is written as an empty object, and no text is an event. -/
def emptyCodec : Codec Unit Unit Unit where
  toString _ := .ok "{}"
  fromStr _ := .ok (.object [])
  deserializeJson _ := .error ()

/-- What a method of a face returns. -/
inductive Returned (Incoming Fault : Type) where
  | send (result : Except (Error Fault) Unit)
  | recv (result : Except (Error Fault) (Option Incoming))
  | close (result : Except (Error Fault) Unit)

/-- The operations that an action performs, and what it returns if it returns. -/
structure Output (Incoming Fault : Type) where
  ops : List Op
  returned : Option (Returned Incoming Fault)

/-- The readings of the clock at the top of the receive loop. -/
structure Top where
  now : ℕ
  polled : ℕ

/-- What the caller and the socket do. -/
inductive Action (Outgoing Fault : Type) where
  /-- A call of `send`, and how the write ends; `none` is a caller that does not wait for it. -/
  | send (event : Outgoing) (written : Option (Except Fault Unit))
  /-- A call of `recv`. -/
  | recv (top : Top)
  /-- The socket gives a message, its end, or an error. -/
  | inbound (message : Option (Except Fault Message)) (readAt : ℕ) (top : Top)
  /-- The ticker of the keepalive ticks, is judged, and the probe ends like this. -/
  | tick (takenAt judgedAt : ℕ) (probe : Option (Except Fault Unit)) (top : Top)
  /-- The caller drops `recv`. -/
  | drop (leftAt : ℕ)
  /-- A call of `close`, and how the close handshake is started. -/
  | close (done : Option (Except Fault Unit))

end Messages

section StreamIds

variable {Outgoing Incoming Fault : Type}

def isAsciiAlphanumeric (byte : UInt8) : Bool :=
  (48 ≤ byte && byte ≤ 57) || (65 ≤ byte && byte ≤ 90) || (97 ≤ byte && byte ≤ 122)

/-- An ASCII letter or digit, an underscore, a full stop or a hyphen. -/
def isLaneByte (byte : UInt8) : Bool :=
  isAsciiAlphanumeric byte || byte = 95 || byte = 46 || byte = 45

def validateStreamId (codec : Codec Outgoing Incoming Fault) (encoded : String) :
    Except (Error Fault) Unit :=
  match codec.fromStr encoded with
  | .error fault => .error (.encode fault)
  | .ok value =>
      match value.asObject.bind (fun members => members.get "stream_id") with
      | none => .ok ()
      | some streamId =>
          match streamId.asStr with
          | none => .error (.webSocketProtocol "stream_id must be a string")
          | some streamId =>
              if streamId.isEmpty || 256 < streamId.utf8ByteSize
                  || !streamId.toUTF8.toList.all isLaneByte then
                .error (.webSocketProtocol "stream_id must match ^[A-Za-z0-9_.-]\x7b1,256\x7d$")
              else .ok ()

end StreamIds

section Turns

variable {σ β : Type} {receiving : Bool} {x : σ × β} {s : σ} {o : β}

theorem turn_call (h : (if receiving = true then none else some x) = some (s, o)) :
    receiving = false ∧ x.1 = s ∧ x.2 = o := by
  cases receiving with
  | true => simp at h
  | false => exact ⟨rfl, Prod.mk.inj (Option.some.inj h)⟩

theorem turn_wake (h : (if receiving = true then some x else none) = some (s, o)) :
    receiving = true ∧ x.1 = s ∧ x.2 = o := by
  cases receiving with
  | true => exact ⟨rfl, Prod.mk.inj (Option.some.inj h)⟩
  | false => simp at h

end Turns

end OpenaiRs.WebSocket
