import OpenaiRs.Rust.Str
import OpenaiRs.Serde.Value

/-!
# Frames of the app-server connection

The JSON-RPC data of `openai-rs-codex/src/app_server/client.rs` and `error.rs`: failures,
errors, outbound messages and the part of `handle_inbound` that only looks at the frame.

## Implementation notes

A frame is the result of `serde_json::from_slice` on a line: a value or the text of the
error. Notifications are kept as they arrive; their typed decoding never fails.
-/

namespace OpenaiRs.AppServer

open Serde Rust

section Failures

/-- Category of a terminal connection failure. -/
inductive ConnectionFailureKind where
  | closed
  | endOfFile
  | io
  | invalidJson
  | invalidMessage
  | lineTooLong
  | eventQueueFull
  | childExit
  | writeTimeout
  deriving DecidableEq

structure ConnectionFailure where
  kind : ConnectionFailureKind
  message : String
  deriving DecidableEq

/-- A JSON-RPC identifier. -/
inductive RpcId where
  | number (id : Nat)
  | string (id : String)
  deriving DecidableEq

/-- The untagged decoding of an identifier. -/
def RpcId.fromValue : Value → Except String RpcId
  | .number n =>
      match n.asU64 with
      | some id => .ok (.number id.toNat)
      | none => .error "data did not match any variant of untagged enum RpcId"
  | .string id => .ok (.string id)
  | _ => .error "data did not match any variant of untagged enum RpcId"

structure RpcError where
  code : Int64
  message : String
  data : Omittable (Nullable Value)
  extra : Map

/-- What a pending request is answered with. -/
inductive PendingResult where
  | result (value : Value)
  | rpcError (error : RpcError)
  | connection (failure : ConnectionFailure)

/-- Why a request, a notification or a response failed. -/
inductive Error where
  | connection (failure : ConnectionFailure)
  | invalidConfiguration (message : String)
  | json (message : String)
  | requestPayloadTooLarge (limitBytes : Nat)
  | pendingCapacityTimeout
  | requestTimeout (method : String) (id : Nat)
  | responseChannelClosed (id : Nat)
  | rpc (error : RpcError)

def closedFailure (message : String) : ConnectionFailure := ⟨.closed, message⟩

/-- The failure that a dropped write leaves. -/
def cancelledWrite : ConnectionFailure :=
  ⟨.io, "app-server write was cancelled; JSONL framing is no longer guaranteed"⟩

end Failures

/-- Limits, the trace context of the client, and the encoders that it uses. -/
structure Settings where
  maxLineBytes : Nat
  maxPendingRequests : Nat
  eventQueueCapacity : Nat
  trace : Omittable Value
  /-- `serde_json::to_vec`, or the text of its error. -/
  toVec : Value → Except String Bytes
  /-- `serde_json::from_value` for a JSON-RPC error object, or the text of its error. -/
  rpcErrorFromValue : Value → Except String RpcError

section Outbound

/-- A request of the application. -/
structure Call where
  method : String
  params : Option Value

/-- The object that a request writes. -/
def Call.message (call : Call) (id : Nat) (trace : Omittable Value) : Map :=
  let object : Map :=
    [("method", .string call.method), ("id", .number (.posInt (UInt64.ofNat id)))]
  let object := (call.params.map (object.insert "params")).getD object
  (trace.toOption.map (object.insert "trace")).getD object

/-- The failure of a request that timed out before its write completed. -/
def Call.writeTimeout (call : Call) (id : Nat) : ConnectionFailure :=
  ⟨.writeTimeout, "request " ++ call.method ++ " (id " ++ toString id ++ ") timed out mid-write; the " ++
    "possibly half-written frame desynchronizes the JSONL stream"⟩

/-- A JSONL frame: the encoded message and a line feed. -/
def encode (settings : Settings) (message : Value) : Except Error Bytes :=
  match settings.toVec message with
  | .error text => .error (.json text)
  | .ok encoded =>
      if settings.maxLineBytes < encoded.length then
        .error (.requestPayloadTooLarge settings.maxLineBytes)
      else .ok (encoded ++ [lf])

end Outbound

section Inbound

/-- What the consumer of events sees. -/
inductive AppServerEvent where
  | notification (method : String) (params : Option Value) (raw : Value)
  | serverRequest (id : RpcId) (method : String) (params : Option Value) (raw : Value)
  | orphanResponse (id : RpcId) (raw : Value)

abbrev Frame := Except String Value

/-- How a frame is handled: it fails the connection, becomes an event, or answers a numeric
request id. -/
inductive Inbound where
  | invalid (failure : ConnectionFailure)
  | event (event : AppServerEvent)
  | response (id : Nat) (object : Map) (raw : Value)

/-- `handle_inbound` up to the first look at the pending requests. -/
def classify : Frame → Inbound
  | .error text => .invalid ⟨.invalidJson, "invalid JSON from app-server: " ++ text⟩
  | .ok raw =>
      match raw.asObject with
      | none => .invalid ⟨.invalidMessage, "app-server JSONL frame was not an object"⟩
      | some object =>
          match (object.get "method").bind Value.asStr, object.get "id" with
          | some method, none => .event (.notification method (object.get "params") raw)
          | some method, some idValue =>
              match RpcId.fromValue idValue with
              | .error text => .invalid ⟨.invalidMessage, "invalid server request id: " ++ text⟩
              | .ok id => .event (.serverRequest id method (object.get "params") raw)
          | none, some idValue =>
              match RpcId.fromValue idValue with
              | .error text => .invalid ⟨.invalidMessage, "invalid response id: " ++ text⟩
              | .ok (.string id) => .event (.orphanResponse (.string id) raw)
              | .ok (.number id) => .response id object raw
          | none, none =>
              .invalid ⟨.invalidMessage, "app-server message contained neither method nor id"⟩

/-- The answer of a response object, which has exactly one of `result` and `error`. A `null`
result becomes an empty object. -/
def responseResult (settings : Settings) (object : Map) : Except ConnectionFailure PendingResult :=
  match object.containsKey "result", object.containsKey "error" with
  | true, false =>
      let value := (object.get "result").getD .null
      .ok (.result (if value.isNull then .object [] else value))
  | false, true =>
      match settings.rpcErrorFromValue ((object.get "error").getD .null) with
      | .error text => .error ⟨.invalidMessage, "invalid JSON-RPC error object: " ++ text⟩
      | .ok error => .ok (.rpcError error)
  | _, _ =>
      .error ⟨.invalidMessage, "JSON-RPC response must contain exactly one of result or error"⟩

/-- The frame is a response that answers the request `id` with `result`. -/
def Answers (settings : Settings) (frame : Frame) (id : Nat) (result : PendingResult) : Prop :=
  ∃ object raw, classify frame = .response id object raw ∧ responseResult settings object = .ok result

end Inbound

end OpenaiRs.AppServer
