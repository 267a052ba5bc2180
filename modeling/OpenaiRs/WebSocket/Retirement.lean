import OpenaiRs.WebSocket.Realtime
import OpenaiRs.WebSocket.Responses

/-!
# A WebSocket that failed is not used again

What the three faces do, seen without the keepalive, is one relation. A run of a face keeps the promise
that it makes about failed sockets exactly when a failed `close` is the last thing that happens in it.
-/

namespace OpenaiRs.WebSocket

open Machines

variable {σ Outgoing Incoming Fault : Type}

section Connections

/-- What a face remembers of its socket. -/
structure Connection where
  maxMessageBytes : ℕ
  closed : Bool
  receiving : Bool
  lastClose : Option (UInt16 × String)

/-- The socket is retired while `recv` returns. -/
def Connection.retired (c : Connection) : Connection := { c with closed := true, receiving := false }

/-- A face of the client. -/
structure Endpoint (σ Outgoing Incoming Fault : Type) where
  step : σ → Action Outgoing Fault → Option (σ × Output Incoming Fault)
  view : σ → Connection
  /-- The text that is written for an event, or why it is rejected before. -/
  encode : ℕ → Outgoing → Except (Error Fault) String
  decode : String → Except Fault Incoming
  cannotSend : String

variable (e : Endpoint σ Outgoing Incoming Fault)

/-- What an action does to a connection. -/
inductive Does (c : Connection) : Action Outgoing Fault → Output Incoming Fault → Connection → Prop
  | refused (hclosed : c.closed = true) (event : Outgoing) (written : Option (Except Fault Unit)) :
      Does c (.send event written) ⟨[], some (.send (.error (.webSocketProtocol e.cannotSend)))⟩ c
  | rejected (hopen : c.closed = false) (event : Outgoing) (written : Option (Except Fault Unit))
      (error : Error Fault) (hencode : e.encode c.maxMessageBytes event = .error error) :
      Does c (.send event written) ⟨[], some (.send (.error error))⟩ c
  | writing (hopen : c.closed = false) (event : Outgoing) (text : String)
      (hencode : e.encode c.maxMessageBytes event = .ok text) :
      Does c (.send event none) ⟨[.write text], none⟩ c
  | written (hopen : c.closed = false) (event : Outgoing) (text : String)
      (hencode : e.encode c.maxMessageBytes event = .ok text) :
      Does c (.send event (some (.ok ()))) ⟨[.write text], some (.send (.ok ()))⟩ c
  | unwritten (hopen : c.closed = false) (event : Outgoing) (text : String) (fault : Fault)
      (hencode : e.encode c.maxMessageBytes event = .ok text) :
      Does c (.send event (some (.error fault)))
        ⟨[.write text], some (.send (.error (.webSocket fault)))⟩ { c with closed := true }
  | finished (hclosed : c.closed = true) (top : Top) :
      Does c (.recv top) ⟨[], some (.recv (.ok none))⟩ c
  | awaiting (hopen : c.closed = false) (top : Top) :
      Does c (.recv top) ⟨[.next], none⟩ { c with receiving := true }
  | ended (readAt : ℕ) (top : Top) :
      Does c (.inbound none readAt top) ⟨[], some (.recv (.ok none))⟩ c.retired
  | broken (fault : Fault) (readAt : ℕ) (top : Top) :
      Does c (.inbound (some (.error fault)) readAt top)
        ⟨[], some (.recv (.error (.webSocket fault)))⟩ c.retired
  | oversized (text reason : String) (readAt : ℕ) (top : Top)
      (hsize : c.maxMessageBytes < text.utf8ByteSize) :
      Does c (.inbound (some (.ok (.text text))) readAt top)
        ⟨[], some (.recv (.error (.webSocketProtocol reason)))⟩ c.retired
  | undecoded (text : String) (fault : Fault) (readAt : ℕ) (top : Top)
      (hsize : text.utf8ByteSize ≤ c.maxMessageBytes) (hdecode : e.decode text = .error fault) :
      Does c (.inbound (some (.ok (.text text))) readAt top)
        ⟨[], some (.recv (.error (.decode fault)))⟩ { c with receiving := false }
  | decoded (text : String) (event : Incoming) (readAt : ℕ) (top : Top)
      (hsize : text.utf8ByteSize ≤ c.maxMessageBytes) (hdecode : e.decode text = .ok event) :
      Does c (.inbound (some (.ok (.text text))) readAt top)
        ⟨[], some (.recv (.ok (some event)))⟩ { c with receiving := false }
  | ignored (message : Message) (readAt : ℕ) (top : Top) (hcontrol : message = .ping ∨ message = .pong) :
      Does c (.inbound (some (.ok message)) readAt top) ⟨[.next], none⟩ { c with receiving := true }
  | closedBare (readAt : ℕ) (top : Top) :
      Does c (.inbound (some (.ok (.close none))) readAt top) ⟨[], some (.recv (.ok none))⟩ c.retired
  | closedWith (frame : CloseFrame) (readAt : ℕ) (top : Top) :
      Does c (.inbound (some (.ok (.close (some frame)))) readAt top) ⟨[], some (.recv (.ok none))⟩
        { c.retired with lastClose := some (frame.code, frame.reason) }
  | violated (message : Message) (reason : String) (readAt : ℕ) (top : Top)
      (hmessage : message = .binary ∨ message = .frame) :
      Does c (.inbound (some (.ok message)) readAt top)
        ⟨[], some (.recv (.error (.webSocketProtocol reason)))⟩ c.retired
  | timedOut (takenAt judgedAt : ℕ) (probe : Option (Except Fault Unit)) (top : Top) (reason : String) :
      Does c (.tick takenAt judgedAt probe top)
        ⟨[], some (.recv (.error (.webSocketProtocol reason)))⟩ c.retired
  | probing (takenAt judgedAt : ℕ) (top : Top) :
      Does c (.tick takenAt judgedAt none top) ⟨[.ping], none⟩ { c with receiving := false }
  | probed (takenAt judgedAt : ℕ) (top : Top) :
      Does c (.tick takenAt judgedAt (some (.ok ())) top) ⟨[.ping, .next], none⟩
        { c with receiving := true }
  | unprobed (takenAt judgedAt : ℕ) (top : Top) (fault : Fault) :
      Does c (.tick takenAt judgedAt (some (.error fault)) top)
        ⟨[.ping], some (.recv (.error (.webSocket fault)))⟩ c.retired
  | dropped (leftAt : ℕ) : Does c (.drop leftAt) ⟨[], none⟩ { c with receiving := false }
  | done (hclosed : c.closed = true) (result : Option (Except Fault Unit)) :
      Does c (.close result) ⟨[], some (.close (.ok ()))⟩ c
  | closing (hopen : c.closed = false) (frame : Option CloseFrame) :
      Does c (.close none) ⟨[.close frame], none⟩ c
  | unclosed (hopen : c.closed = false) (frame : Option CloseFrame) (fault : Fault) :
      Does c (.close (some (.error fault))) ⟨[.close frame], some (.close (.error (.webSocket fault)))⟩ c
  | closed (hopen : c.closed = false) (frame : Option CloseFrame) :
      Does c (.close (some (.ok ()))) ⟨[.close frame], some (.close (.ok ()))⟩ { c with closed := true }

/-- Messages, drops and ticks come while `recv` awaits, and calls while it does not. -/
def TakesTurns (c : Connection) (a : Action Outgoing Fault) : Prop :=
  match a with
  | .send _ _ => c.receiving = false
  | .recv _ => c.receiving = false
  | .close _ => c.receiving = false
  | .inbound _ _ _ => c.receiving = true
  | .tick _ _ _ _ => c.receiving = true
  | .drop _ => c.receiving = true

/-- A face that does to its connection what an endpoint does. -/
structure Endpoint.Lawful : Prop where
  does : ∀ s a s' o, e.step s a = some (s', o) →
    TakesTurns (e.view s) a ∧ Does e (e.view s) a o (e.view s')
  /-- No rejection reads like the refusal of a closed socket. -/
  rejection : ∀ limit event, e.encode limit event ≠ .error (.webSocketProtocol e.cannotSend)

end Connections

section Faces

variable (codec : Codec Outgoing Incoming Fault)

/-- The checks of `RealtimeWebSocket::send`. -/
def realtimeEncode (limit : ℕ) (event : Outgoing) : Except (Error Fault) String :=
  match codec.toString event with
  | .error fault => .error (.encode fault)
  | .ok encoded =>
      if limit < encoded.utf8ByteSize then
        .error (.webSocketProtocol "outgoing Realtime event exceeds the configured message limit")
      else .ok encoded

/-- The checks of `send_event`. -/
def responsesEncode (face : Face) (limit : ℕ) (event : Outgoing) : Except (Error Fault) String :=
  match codec.toString event with
  | .error fault => .error (.encode fault)
  | .ok encoded =>
      match validateStreamId codec encoded with
      | .error error => .error error
      | .ok () =>
          if limit < encoded.utf8ByteSize then .error (.webSocketProtocol face.outgoingLimit)
          else .ok encoded

def realtimeWebSocket : Endpoint RealtimeWebSocket Outgoing Incoming Fault where
  step := RealtimeWebSocket.step codec
  view s := ⟨s.maxMessageBytes, s.closed, s.receiving, s.lastClose⟩
  encode := realtimeEncode codec
  decode := codec.deserializeJson
  cannotSend := "cannot send on a closed Realtime WebSocket"

def faceWebSocket (face : Face) : Endpoint ResponsesWebSocket Outgoing Incoming Fault where
  step := ResponsesWebSocket.step face codec
  view s := ⟨s.maxMessageBytes, s.closed, s.receiving, s.lastClose⟩
  encode := responsesEncode codec face
  decode := codec.deserializeJson
  cannotSend := face.cannotSend

def responsesWebSocket : Endpoint ResponsesWebSocket Outgoing Incoming Fault :=
  faceWebSocket codec responsesFace

def betaResponsesWebSocket : Endpoint ResponsesWebSocket Outgoing Incoming Fault :=
  faceWebSocket codec betaResponsesFace

section Realtime

variable (s : RealtimeWebSocket)

/-- The connection of a Realtime socket. -/
def connection : Connection := ⟨s.maxMessageBytes, s.closed, s.receiving, s.lastClose⟩

theorem send_does (event : Outgoing) (written : Option (Except Fault Unit)) :
    Does (realtimeWebSocket codec) (connection s) (.send event written) (s.send codec event written).2
      (connection (s.send codec event written).1) := by
  rw [RealtimeWebSocket.send]
  cases hclosed : s.closed with
  | true => exact .refused hclosed event written
  | false =>
      cases hstring : codec.toString event with
      | error fault =>
          exact .rejected hclosed event written _ (by simp [realtimeWebSocket, realtimeEncode, hstring])
      | ok encoded =>
          by_cases hsize : s.maxMessageBytes < encoded.utf8ByteSize
          · simp only [Bool.false_eq_true, if_false, if_pos hsize]
            exact .rejected hclosed event written _
              (by simp [realtimeWebSocket, realtimeEncode, hstring, connection, hsize])
          · simp only [Bool.false_eq_true, if_false, if_neg hsize]
            have hencode : (realtimeWebSocket codec).encode (connection s).maxMessageBytes event =
                .ok encoded := by
              simp [realtimeWebSocket, realtimeEncode, hstring, connection, hsize]
            cases written with
            | none => exact .writing hclosed event encoded hencode
            | some written =>
                cases written with
                | ok done => exact .written hclosed event encoded hencode
                | error fault => exact .unwritten hclosed event encoded fault hencode

theorem recv_does (top : Top) :
    Does (realtimeWebSocket codec) (connection s) (.recv top)
      (s.recv top : RealtimeWebSocket × Output Incoming Fault).2
      (connection (s.recv top : RealtimeWebSocket × Output Incoming Fault).1) := by
  rw [RealtimeWebSocket.recv]
  cases hclosed : s.closed with
  | true => exact .finished hclosed top
  | false => exact .awaiting hclosed top

theorem inbound_does (message : Option (Except Fault Message)) (readAt : ℕ) (top : Top) :
    Does (realtimeWebSocket codec) (connection s) (.inbound message readAt top)
      (s.inbound codec message readAt top).2 (connection (s.inbound codec message readAt top).1) := by
  cases message with
  | none => exact .ended readAt top
  | some message =>
      cases message with
      | error fault => exact .broken fault readAt top
      | ok message =>
          cases message with
          | text text =>
              rw [RealtimeWebSocket.inbound]
              simp only [classifyRealtimeInbound]
              split
              · rename_i hsize
                exact .oversized text _ readAt top hsize
              · rename_i hsize
                cases hdecode : codec.deserializeJson text with
                | error fault =>
                    exact .undecoded text fault readAt top (Nat.le_of_not_lt hsize) hdecode
                | ok event => exact .decoded text event readAt top (Nat.le_of_not_lt hsize) hdecode
          | binary => exact .violated .binary _ readAt top (.inl rfl)
          | ping => exact .ignored .ping readAt top (.inl rfl)
          | pong => exact .ignored .pong readAt top (.inr rfl)
          | close frame =>
              cases frame with
              | none => exact .closedBare readAt top
              | some frame => exact .closedWith frame readAt top
          | frame => exact .violated .frame _ readAt top (.inr rfl)

theorem tick_does (keepalive : RealtimeKeepaliveState) (takenAt judgedAt : ℕ)
    (probe : Option (Except Fault Unit)) (top : Top) :
    Does (realtimeWebSocket codec) (connection s) (.tick takenAt judgedAt probe top)
      (s.tick keepalive takenAt judgedAt probe top : RealtimeWebSocket × Output Incoming Fault).2
      (connection
        (s.tick keepalive takenAt judgedAt probe top : RealtimeWebSocket × Output Incoming Fault).1) := by
  rw [RealtimeWebSocket.tick.eq_def]
  dsimp only
  split
  · exact .timedOut takenAt judgedAt probe top _
  · cases probe with
    | none => exact .probing takenAt judgedAt top
    | some probe =>
        cases probe with
        | ok done => exact .probed takenAt judgedAt top
        | error fault => exact .unprobed takenAt judgedAt top fault

theorem close_does (result : Option (Except Fault Unit)) :
    Does (realtimeWebSocket codec) (connection s) (.close result)
      (s.close result : RealtimeWebSocket × Output Incoming Fault).2
      (connection (s.close result : RealtimeWebSocket × Output Incoming Fault).1) := by
  rw [RealtimeWebSocket.close.eq_def]
  cases hclosed : s.closed with
  | true => exact .done hclosed result
  | false =>
      cases result with
      | none => exact .closing hclosed _
      | some result =>
          cases result with
          | ok done => exact .closed hclosed _
          | error fault => exact .unclosed hclosed _ fault

theorem realtimeWebSocket_lawful : (realtimeWebSocket codec).Lawful := by
  refine ⟨?_, ?_⟩
  · intro s a s' o h
    simp only [realtimeWebSocket, RealtimeWebSocket.step] at h
    cases a with
    | send event written =>
        obtain ⟨hturn, rfl, rfl⟩ := turn_call h
        exact ⟨hturn, send_does codec s event written⟩
    | recv top =>
        obtain ⟨hturn, rfl, rfl⟩ := turn_call h
        exact ⟨hturn, recv_does codec s top⟩
    | inbound message readAt top =>
        obtain ⟨hturn, rfl, rfl⟩ := turn_wake h
        exact ⟨hturn, inbound_does codec s message readAt top⟩
    | tick takenAt judgedAt probe top =>
        cases hkeepalive : s.keepalive with
        | none => simp [hkeepalive] at h
        | some keepalive =>
            simp only [hkeepalive] at h
            obtain ⟨hturn, rfl, rfl⟩ := turn_wake h
            exact ⟨(Bool.and_eq_true_iff.mp hturn).1, tick_does codec s keepalive takenAt judgedAt probe top⟩
    | drop leftAt =>
        obtain ⟨hturn, rfl, rfl⟩ := turn_wake h
        exact ⟨hturn, .dropped leftAt⟩
    | close result =>
        obtain ⟨hturn, rfl, rfl⟩ := turn_call h
        exact ⟨hturn, close_does codec s result⟩
  · intro limit event h
    simp only [realtimeWebSocket, realtimeEncode] at h
    split at h
    · cases h
    · split at h
      · simp at h
      · cases h

end Realtime

section Responses

variable (face : Face) (s : ResponsesWebSocket)

/-- The connection of a Responses socket. -/
def responsesConnection : Connection := ⟨s.maxMessageBytes, s.closed, s.receiving, s.lastClose⟩

theorem sendEvent_does (event : Outgoing) (written : Option (Except Fault Unit)) :
    Does (faceWebSocket codec face) (responsesConnection s) (.send event written)
      (s.sendEvent face codec event written).2
      (responsesConnection (s.sendEvent face codec event written).1) := by
  rw [ResponsesWebSocket.sendEvent]
  cases hclosed : s.closed with
  | true => exact .refused hclosed event written
  | false =>
      cases hstring : codec.toString event with
      | error fault =>
          exact .rejected hclosed event written _ (by simp [faceWebSocket, responsesEncode, hstring])
      | ok encoded =>
          cases hlane : validateStreamId codec encoded with
          | error error =>
              simp only [Bool.false_eq_true, if_false, hlane]
              exact .rejected hclosed event written _
                (by simp [faceWebSocket, responsesEncode, hstring, hlane])
          | ok valid =>
              simp only [Bool.false_eq_true, if_false, hlane]
              by_cases hsize : s.maxMessageBytes < encoded.utf8ByteSize
              · rw [if_pos hsize]
                exact .rejected hclosed event written _
                  (by simp [faceWebSocket, responsesEncode, hstring, hlane, responsesConnection, hsize])
              · rw [if_neg hsize]
                have hencode : (faceWebSocket codec face).encode (responsesConnection s).maxMessageBytes
                    event = .ok encoded := by
                  simp [faceWebSocket, responsesEncode, hstring, hlane, responsesConnection, hsize]
                cases written with
                | none => exact .writing hclosed event encoded hencode
                | some written =>
                    cases written with
                    | ok done => exact .written hclosed event encoded hencode
                    | error fault => exact .unwritten hclosed event encoded fault hencode

theorem recvMessage_does (top : Top) :
    Does (faceWebSocket codec face) (responsesConnection s) (.recv top)
      (s.recv : ResponsesWebSocket × Output Incoming Fault).2
      (responsesConnection (s.recv : ResponsesWebSocket × Output Incoming Fault).1) := by
  rw [ResponsesWebSocket.recv]
  cases hclosed : s.closed with
  | true => exact .finished hclosed top
  | false => exact .awaiting hclosed top

theorem inboundMessage_does (message : Option (Except Fault Message)) (readAt : ℕ) (top : Top) :
    Does (faceWebSocket codec face) (responsesConnection s) (.inbound message readAt top)
      (s.inbound face codec message).2 (responsesConnection (s.inbound face codec message).1) := by
  cases message with
  | none => exact .ended readAt top
  | some message =>
      cases message with
      | error fault => exact .broken fault readAt top
      | ok message =>
          cases message with
          | text text =>
              rw [ResponsesWebSocket.inbound]
              split
              · rename_i hsize
                exact .oversized text _ readAt top hsize
              · rename_i hsize
                cases hdecode : codec.deserializeJson text with
                | error fault =>
                    exact .undecoded text fault readAt top (Nat.le_of_not_lt hsize) hdecode
                | ok event => exact .decoded text event readAt top (Nat.le_of_not_lt hsize) hdecode
          | binary => exact .violated .binary _ readAt top (.inl rfl)
          | ping => exact .ignored .ping readAt top (.inl rfl)
          | pong => exact .ignored .pong readAt top (.inr rfl)
          | close frame =>
              cases frame with
              | none => exact .closedBare readAt top
              | some frame => exact .closedWith frame readAt top
          | frame => exact .violated .frame _ readAt top (.inr rfl)

theorem closeFace_does (result : Option (Except Fault Unit)) :
    Does (faceWebSocket codec face) (responsesConnection s) (.close result)
      (s.close face result : ResponsesWebSocket × Output Incoming Fault).2
      (responsesConnection (s.close face result : ResponsesWebSocket × Output Incoming Fault).1) := by
  rw [ResponsesWebSocket.close.eq_def]
  cases hclosed : s.closed with
  | true => exact .done hclosed result
  | false =>
      cases result with
      | none => exact .closing hclosed _
      | some result =>
          cases result with
          | ok done => exact .closed hclosed _
          | error fault => exact .unclosed hclosed _ fault

theorem validateStreamId_error {encoded reason : String}
    (h : validateStreamId codec encoded = .error (.webSocketProtocol reason)) :
    reason = "stream_id must be a string" ∨
      reason = "stream_id must match ^[A-Za-z0-9_.-]{1,256}$" := by
  rw [validateStreamId] at h
  split at h
  · cases h
  · split at h
    · cases h
    · split at h
      · left
        cases h
        rfl
      · split at h
        · right
          cases h
          rfl
        · cases h

/-- The reasons for which an event is rejected before it is written. -/
theorem responsesEncode_error {limit : ℕ} {event : Outgoing} {reason : String}
    (h : responsesEncode codec face limit event = .error (.webSocketProtocol reason)) :
    reason = face.outgoingLimit ∨ reason = "stream_id must be a string" ∨
      reason = "stream_id must match ^[A-Za-z0-9_.-]{1,256}$" := by
  rw [responsesEncode] at h
  split at h
  · cases h
  · split at h
    · rename_i error hlane
      cases h
      exact .inr (validateStreamId_error codec hlane)
    · split at h
      · left
        cases h
        rfl
      · cases h

theorem faceWebSocket_lawful (hlimit : face.outgoingLimit ≠ face.cannotSend)
    (htext : face.cannotSend ≠ "stream_id must be a string")
    (hlane : face.cannotSend ≠ "stream_id must match ^[A-Za-z0-9_.-]{1,256}$") :
    (faceWebSocket codec face).Lawful := by
  refine ⟨?_, ?_⟩
  · intro s a s' o h
    simp only [faceWebSocket, ResponsesWebSocket.step] at h
    cases a with
    | send event written =>
        obtain ⟨hturn, rfl, rfl⟩ := turn_call h
        exact ⟨hturn, sendEvent_does codec face s event written⟩
    | recv top =>
        obtain ⟨hturn, rfl, rfl⟩ := turn_call h
        exact ⟨hturn, recvMessage_does codec face s top⟩
    | inbound message readAt top =>
        obtain ⟨hturn, rfl, rfl⟩ := turn_wake h
        exact ⟨hturn, inboundMessage_does codec face s message readAt top⟩
    | tick takenAt judgedAt probe top => cases h
    | drop leftAt =>
        obtain ⟨hturn, rfl, rfl⟩ := turn_wake h
        exact ⟨hturn, .dropped leftAt⟩
    | close result =>
        obtain ⟨hturn, rfl, rfl⟩ := turn_call h
        exact ⟨hturn, closeFace_does codec face s result⟩
  · intro limit event h
    obtain hreason | hreason | hreason := responsesEncode_error codec face h
    · exact hlimit hreason.symm
    · exact htext hreason
    · exact hlane hreason

theorem responsesWebSocket_lawful : (responsesWebSocket codec).Lawful :=
  faceWebSocket_lawful codec responsesFace (by decide) (by decide) (by decide)

theorem betaResponsesWebSocket_lawful : (betaResponsesWebSocket codec).Lawful :=
  faceWebSocket_lawful codec betaResponsesFace (by decide) (by decide) (by decide)

end Responses

end Faces

section Promises

variable (e : Endpoint σ Outgoing Incoming Fault)

/-- How a call on a retired socket ends, without an operation. -/
def Endpoint.unused : Action Outgoing Fault → Option (Output Incoming Fault)
  | .send _ _ => some ⟨[], some (.send (.error (.webSocketProtocol e.cannotSend)))⟩
  | .recv _ => some ⟨[], some (.recv (.ok none))⟩
  | .close _ => some ⟨[], some (.close (.ok ()))⟩
  | _ => none

/-- An error, the end of the stream, a close frame, a binary or raw frame, or a text that is too long. -/
def Failing (maxMessageBytes : ℕ) : Option (Except Fault Message) → Prop
  | some (.ok (.text text)) => maxMessageBytes < text.utf8ByteSize
  | some (.ok .ping) => False
  | some (.ok .pong) => False
  | _ => True

/-- An operation of the action has reported a failure. -/
def Reports (maxMessageBytes : ℕ) (a : Action Outgoing Fault) (o : Output Incoming Fault) : Prop :=
  match a with
  | .send _ (some (.error _)) => o.ops ≠ []
  | .tick _ _ (some (.error _)) _ => o.ops ≠ []
  | .close (some (.error _)) => o.ops ≠ []
  | .inbound message _ _ => Failing maxMessageBytes message
  | _ => False

abbrev Step (σ Outgoing Incoming Fault : Type) : Type :=
  Transition σ (Action Outgoing Fault) (Output Incoming Fault)

/-- What is promised about a run from a fresh connection to a state. -/
structure NeverUsedAgain (run : List (Step σ Outgoing Incoming Fault)) (s : σ) : Prop where
  /-- After a failure every call ends without an operation. -/
  unused : ∀ before t later, run = before ++ t :: later →
    Reports (e.view t.before).maxMessageBytes t.action t.output →
    ∀ u ∈ later, e.unused u.action = some u.output
  staysClosed : ∀ t ∈ run, (e.view t.before).closed = true → (e.view t.after).closed = true
  /-- An event that does not decode is returned as such, and the socket stays usable. -/
  undecoded : ∀ t ∈ run, ∀ text readAt top fault,
    t.action = .inbound (some (.ok (.text text))) readAt top →
    text.utf8ByteSize ≤ (e.view t.before).maxMessageBytes → e.decode text = .error fault →
    t.output = ⟨[], some (.recv (.error (.decode fault)))⟩ ∧ (e.view t.after).closed = false
  /-- An event that is rejected before it is written costs no operation, and the socket stays usable. -/
  rejected : ∀ t ∈ run, ∀ event written error, t.action = .send event written →
    (e.view t.before).closed = false → e.encode (e.view t.before).maxMessageBytes event = .error error →
    t.output = ⟨[], some (.send (.error error))⟩ ∧ e.view t.after = e.view t.before
  closeCode : ∀ code reason, (e.view s).lastClose = some (code, reason) ↔
    ∃ t ∈ run, ∃ readAt top, t.action = .inbound (some (.ok (.close (some ⟨code, reason⟩)))) readAt top

/-- A call of `close` on an open socket, for which the socket reports an error. -/
def FailedClose (t : Step σ Outgoing Incoming Fault) : Prop :=
  (e.view t.before).closed = false ∧ ∃ fault, t.action = .close (some (.error fault))

/-- A retired socket is not being received from, and only a retired one has a close code. -/
structure Settled (c : Connection) : Prop where
  closed : c.closed = true → c.receiving = false
  lastClose : c.closed = false → c.lastClose = none

variable {e} {c c' : Connection} {a : Action Outgoing Fault} {o : Output Incoming Fault}

theorem Settled.open_of_receiving (h : Settled c) (hreceiving : c.receiving = true) :
    c.closed = false := by
  cases hclosed : c.closed with
  | false => rfl
  | true =>
      have := h.closed hclosed
      rw [hreceiving] at this
      cases this

theorem settled_retired (c : Connection) : Settled c.retired := ⟨fun _ => rfl, by simp [Connection.retired]⟩

theorem Does.settled (h : Does e c a o c') (hturn : TakesTurns c a) (hsettled : Settled c) :
    Settled c' := by
  have hawaits : c.closed = false → Settled { c with receiving := true } := fun hopen =>
    ⟨fun hclosed => by simp [hopen] at hclosed, hsettled.lastClose⟩
  have hreturns : Settled { c with receiving := false } := ⟨fun _ => rfl, hsettled.lastClose⟩
  have hcloses : c.receiving = false → Settled { c with closed := true } := fun hidle =>
    ⟨fun _ => hidle, by simp⟩
  cases h with
  | refused => exact hsettled
  | rejected => exact hsettled
  | writing => exact hsettled
  | written => exact hsettled
  | unwritten => exact hcloses hturn
  | finished => exact hsettled
  | awaiting hopen => exact hawaits hopen
  | ended => exact settled_retired c
  | broken => exact settled_retired c
  | oversized => exact settled_retired c
  | undecoded => exact hreturns
  | decoded => exact hreturns
  | ignored => exact hawaits (hsettled.open_of_receiving hturn)
  | closedBare => exact settled_retired c
  | closedWith => exact ⟨fun _ => rfl, by simp [Connection.retired]⟩
  | violated => exact settled_retired c
  | timedOut => exact settled_retired c
  | probing => exact hreturns
  | probed => exact hawaits (hsettled.open_of_receiving hturn)
  | unprobed => exact settled_retired c
  | dropped => exact hreturns
  | done => exact hsettled
  | closing => exact hsettled
  | unclosed => exact hsettled
  | closed => exact hcloses hturn

/-- A retired connection answers calls, and nothing else. -/
theorem Does.unused (h : Does e c a o c') (hturn : TakesTurns c a) (hclosed : c.closed = true)
    (hidle : c.receiving = false) : c' = c ∧ e.unused a = some o := by
  cases h with
  | refused => exact ⟨rfl, rfl⟩
  | finished => exact ⟨rfl, rfl⟩
  | done => exact ⟨rfl, rfl⟩
  | _ => simp_all [TakesTurns]

/-- An open connection answers no call as a retired one does. -/
theorem Does.used (h : Does e c a o c')
    (hrejection : ∀ limit event, e.encode limit event ≠ .error (.webSocketProtocol e.cannotSend))
    (hopen : c.closed = false) : e.unused a ≠ some o := by
  cases h with
  | rejected _ event written error hencode =>
      intro heq
      simp only [Endpoint.unused, Option.some.injEq, Output.mk.injEq, Returned.send.injEq,
        Except.error.injEq, true_and] at heq
      exact hrejection _ _ (heq ▸ hencode)
  | _ => simp_all [Endpoint.unused]

/-- What performs no operation, and receives nothing, reports nothing. -/
theorem not_reports_send {limit : ℕ} {event : Outgoing} {written : Option (Except Fault Unit)}
    {returned : Option (Returned Incoming Fault)} : ¬ Reports limit (.send event written) ⟨[], returned⟩ := by
  obtain _ | _ | _ := written <;> simp [Reports]

theorem not_reports_close {limit : ℕ} {result : Option (Except Fault Unit)}
    {returned : Option (Returned Incoming Fault)} :
    ¬ Reports limit (.close result : Action Outgoing Fault) ⟨[], returned⟩ := by
  obtain _ | _ | _ := result <;> simp [Reports]

/-- A failure retires the connection, unless it is that of a `close`. -/
theorem Does.reports (h : Does e c a o c') (hreports : Reports c.maxMessageBytes a o) :
    c'.closed = true ∨ (c.closed = false ∧ ∃ fault, a = .close (some (.error fault))) := by
  cases h with
  | refused => exact absurd hreports not_reports_send
  | rejected => exact absurd hreports not_reports_send
  | writing => exact hreports.elim
  | written => exact hreports.elim
  | unwritten => exact .inl rfl
  | finished => exact hreports.elim
  | awaiting => exact hreports.elim
  | ended => exact .inl rfl
  | broken => exact .inl rfl
  | oversized => exact .inl rfl
  | undecoded text fault readAt top hsize => exact absurd hreports (Nat.not_lt_of_le hsize)
  | decoded text event readAt top hsize => exact absurd hreports (Nat.not_lt_of_le hsize)
  | ignored message readAt top hcontrol =>
      obtain rfl | rfl := hcontrol
      · exact hreports.elim
      · exact hreports.elim
  | closedBare => exact .inl rfl
  | closedWith => exact .inl rfl
  | violated => exact .inl rfl
  | timedOut => exact .inl rfl
  | probing => exact hreports.elim
  | probed => exact hreports.elim
  | unprobed => exact .inl rfl
  | dropped => exact hreports.elim
  | done => exact absurd hreports not_reports_close
  | closing => exact hreports.elim
  | unclosed hopen frame fault => exact .inr ⟨hopen, fault, rfl⟩
  | closed => exact hreports.elim

/-- A close code is read from a close frame, and once. -/
theorem Does.lastClose (h : Does e c a o c') (hturn : TakesTurns c a) (hsettled : Settled c)
    (code : UInt16) (reason : String) :
    c'.lastClose = some (code, reason) ↔ c.lastClose = some (code, reason) ∨
      ∃ readAt top, a = .inbound (some (.ok (.close (some ⟨code, reason⟩)))) readAt top := by
  cases h with
  | closedWith frame readAt top =>
      have hnone : c.lastClose = none := hsettled.lastClose (hsettled.open_of_receiving hturn)
      obtain ⟨code', reason'⟩ := frame
      simp [hnone]
  | ignored message readAt top hcontrol => obtain rfl | rfl := hcontrol <;> simp
  | violated message reason readAt top hmessage =>
      obtain rfl | rfl := hmessage <;> simp [Connection.retired]
  | _ => simp [Connection.retired]

theorem Does.of_undecoded {text : String} {readAt : ℕ} {top : Top} {fault : Fault}
    (h : Does e c (.inbound (some (.ok (.text text))) readAt top) o c')
    (hsize : text.utf8ByteSize ≤ c.maxMessageBytes) (hdecode : e.decode text = .error fault) :
    o = ⟨[], some (.recv (.error (.decode fault)))⟩ ∧ c' = { c with receiving := false } := by
  cases h with
  | oversized _ reason _ _ hlong => exact absurd hlong (Nat.not_lt_of_le hsize)
  | undecoded _ fault' _ _ _ hfault =>
      rw [hdecode] at hfault
      cases hfault
      exact ⟨rfl, rfl⟩
  | decoded _ event _ _ _ hevent =>
      rw [hdecode] at hevent
      cases hevent
  | ignored _ _ _ hcontrol => simp at hcontrol
  | violated _ _ _ _ hmessage => simp at hmessage

theorem Does.of_rejected {event : Outgoing} {written : Option (Except Fault Unit)} {error : Error Fault}
    (h : Does e c (.send event written) o c') (hopen : c.closed = false)
    (hencode : e.encode c.maxMessageBytes event = .error error) :
    o = ⟨[], some (.send (.error error))⟩ ∧ c' = c := by
  cases h with
  | refused hclosed => simp [hopen] at hclosed
  | rejected _ _ _ error' herror =>
      rw [hencode] at herror
      cases herror
      exact ⟨rfl, rfl⟩
  | writing _ _ text htext => simp [hencode] at htext
  | written _ _ text htext => simp [hencode] at htext
  | unwritten _ _ text fault htext => simp [hencode] at htext

section Runs

variable {s s' : σ} {run : List (Step σ Outgoing Incoming Fault)}

theorem Endpoint.Lawful.settled (h : e.Lawful) (hrun : Run e.step s run s')
    (hsettled : Settled (e.view s)) : Settled (e.view s') :=
  hrun.invariant (fun s => Settled (e.view s)) (fun s a s' o hs hstep =>
    (h.does s a s' o hstep).2.settled (h.does s a s' o hstep).1 hs) hsettled

/-- On a retired socket a run goes on without operations, and stays retired. -/
theorem Endpoint.Lawful.unused (h : e.Lawful) (hrun : Run e.step s run s')
    (hclosed : (e.view s).closed = true) (hidle : (e.view s).receiving = false) :
    ∀ u ∈ run, e.unused u.action = some u.output := by
  have hstep : ∀ s a s' o, (e.view s).closed = true ∧ (e.view s).receiving = false →
      e.step s a = some (s', o) →
      ((e.view s').closed = true ∧ (e.view s').receiving = false) ∧ e.unused a = some o := by
    rintro s a s' o ⟨hclosed, hidle⟩ hstep
    obtain ⟨hturn, hdoes⟩ := h.does s a s' o hstep
    obtain ⟨hsame, hunused⟩ := hdoes.unused hturn hclosed hidle
    rw [hsame]
    exact ⟨⟨hclosed, hidle⟩, hunused⟩
  have hall := hrun.forall (fun s => (e.view s).closed = true ∧ (e.view s).receiving = false)
    (fun u => e.unused u.action = some u.output) hstep ⟨hclosed, hidle⟩
  exact fun u hu => (hall.2 u hu).2

theorem Endpoint.Lawful.lastClose (h : e.Lawful) (hrun : Run e.step s run s')
    (hsettled : Settled (e.view s)) (code : UInt16) (reason : String) :
    (e.view s').lastClose = some (code, reason) ↔ (e.view s).lastClose = some (code, reason) ∨
      ∃ t ∈ run, ∃ readAt top,
        t.action = .inbound (some (.ok (.close (some ⟨code, reason⟩)))) readAt top := by
  induction hrun with
  | nil s => simp
  | cons hstep hrest ih =>
      obtain ⟨hturn, hdoes⟩ := h.does _ _ _ _ hstep
      rw [ih (hdoes.settled hturn hsettled), hdoes.lastClose hturn hsettled]
      simp [or_assoc]

theorem Endpoint.Lawful.steps (h : e.Lawful) (hrun : Run e.step s run s')
    (hsettled : Settled (e.view s)) :
    ∀ t ∈ run, Settled (e.view t.before) ∧ TakesTurns (e.view t.before) t.action ∧
      Does e (e.view t.before) t.action t.output (e.view t.after) := by
  refine (hrun.forall (fun s => Settled (e.view s)) (fun t => TakesTurns (e.view t.before) t.action ∧
    Does e (e.view t.before) t.action t.output (e.view t.after)) ?_ hsettled).2
  intro s a s' o hs hstep
  obtain ⟨hturn, hdoes⟩ := h.does s a s' o hstep
  exact ⟨hdoes.settled hturn hs, hturn, hdoes⟩

/-- No failed `close` is followed by anything. -/
def FailedCloseIsLast (e : Endpoint σ Outgoing Incoming Fault)
    (run : List (Step σ Outgoing Incoming Fault)) : Prop :=
  ∀ before t later, run = before ++ t :: later → FailedClose e t → later = []

theorem Endpoint.Lawful.unused_iff (h : e.Lawful) (hrun : Run e.step s run s')
    (hsettled : Settled (e.view s)) :
    (∀ before t later, run = before ++ t :: later →
      Reports (e.view t.before).maxMessageBytes t.action t.output →
      ∀ u ∈ later, e.unused u.action = some u.output) ↔ FailedCloseIsLast e run := by
  constructor
  · rintro hunused before t later rfl ⟨hopen, fault, haction⟩
    cases later with
    | nil => rfl
    | cons u later =>
        obtain ⟨hbefore, hstep, hlater⟩ := hrun.split
        obtain ⟨hturn, hdoes⟩ := h.does _ _ _ _ hstep
        rw [haction] at hdoes
        have hafter : (e.view t.after).closed = false ∧ t.output.ops ≠ [] := by
          generalize t.output = o at hdoes
          generalize e.view t.after = c' at hdoes
          cases hdoes with
          | done hclosed => simp [hopen] at hclosed
          | unclosed => exact ⟨hopen, by simp⟩
        have hreports : Reports (e.view t.before).maxMessageBytes t.action t.output := by
          rw [haction]
          exact hafter.2
        have hu := hunused before t (u :: later) rfl hreports u (.head _)
        cases hlater with
        | cons hfirst _ =>
            exact absurd hu ((h.does _ _ _ _ hfirst).2.used h.rejection hafter.1)
  · rintro hlast before t later rfl hreports
    obtain ⟨hbefore, hstep, hlater⟩ := hrun.split
    obtain ⟨hturn, hdoes⟩ := h.does _ _ _ _ hstep
    have hnext : Settled (e.view t.after) := hdoes.settled hturn (h.settled hbefore hsettled)
    obtain hclosed | ⟨hopen, hfailed⟩ := hdoes.reports hreports
    · exact h.unused hlater hclosed (hnext.closed hclosed)
    · rw [hlast before t later rfl ⟨hopen, hfailed⟩]
      simp

theorem Endpoint.Lawful.neverUsedAgain_iff (h : e.Lawful) (hrun : Run e.step s run s')
    (hidle : (e.view s).receiving = false) (hnone : (e.view s).lastClose = none) : NeverUsedAgain e run s' ↔ FailedCloseIsLast e run := by
  have hsettled : Settled (e.view s) := ⟨fun _ => hidle, fun _ => hnone⟩
  have hsteps := h.steps hrun hsettled
  constructor
  · intro hpromise
    exact (h.unused_iff hrun hsettled).mp hpromise.unused
  · intro hlast
    refine ⟨(h.unused_iff hrun hsettled).mpr hlast, ?_, ?_, ?_, ?_⟩
    · intro t ht hclosed
      obtain ⟨hbefore, hturn, hdoes⟩ := hsteps t ht
      rw [(hdoes.unused hturn hclosed (hbefore.closed hclosed)).1]
      exact hclosed
    · intro t ht text readAt top fault haction hsize hdecode
      obtain ⟨hbefore, hturn, hdoes⟩ := hsteps t ht
      rw [haction] at hturn hdoes
      obtain ⟨houtput, hafter⟩ := hdoes.of_undecoded hsize hdecode
      rw [hafter]
      exact ⟨houtput, hbefore.open_of_receiving hturn⟩
    · intro t ht event written error haction hopen hencode
      obtain ⟨hbefore, hturn, hdoes⟩ := hsteps t ht
      rw [haction] at hdoes
      exact hdoes.of_rejected hopen hencode
    · intro code reason
      rw [h.lastClose hrun hsettled code reason, hnone]
      simp

end Runs

variable (codec : Codec Outgoing Incoming Fault)

/-- Each of the three faces keeps its promise exactly in the runs in which nothing follows on a failed
`close`. -/
theorem webSockets_neverUsedAgain_iff :
    (∀ maxMessageBytes keepalive connectedAt run s,
      Run (realtimeWebSocket codec).step
        (RealtimeWebSocket.connected maxMessageBytes keepalive connectedAt) run s →
      (NeverUsedAgain (realtimeWebSocket codec) run s ↔
        FailedCloseIsLast (realtimeWebSocket codec) run)) ∧
    (∀ maxMessageBytes run s,
      Run (responsesWebSocket codec).step (ResponsesWebSocket.connected maxMessageBytes) run s →
      (NeverUsedAgain (responsesWebSocket codec) run s ↔
        FailedCloseIsLast (responsesWebSocket codec) run)) ∧
    ∀ maxMessageBytes run s,
      Run (betaResponsesWebSocket codec).step (ResponsesWebSocket.connected maxMessageBytes) run s →
      (NeverUsedAgain (betaResponsesWebSocket codec) run s ↔
        FailedCloseIsLast (betaResponsesWebSocket codec) run) := by
  refine ⟨?_, ?_, ?_⟩
  · intro maxMessageBytes keepalive connectedAt run s hrun
    exact (realtimeWebSocket_lawful codec).neverUsedAgain_iff hrun rfl rfl
  · intro maxMessageBytes run s hrun
    exact (responsesWebSocket_lawful codec).neverUsedAgain_iff hrun rfl rfl
  · intro maxMessageBytes run s hrun
    exact (betaResponsesWebSocket_lawful codec).neverUsedAgain_iff hrun rfl rfl

def openSocket : ResponsesWebSocket := .connected 100

/-- A `close` that fails, and a `recv` that polls the same socket. -/
def receivedAfterClose : List (Step ResponsesWebSocket Unit Unit Unit) :=
  [⟨openSocket, .close (some (.error ())),
      ⟨[.close (some ⟨1000, ""⟩)], some (.close (.error (.webSocket ())))⟩, openSocket⟩,
    ⟨openSocket, .recv ⟨0, 0⟩, ⟨[.next], none⟩, { openSocket with receiving := true }⟩]

theorem receivedAfterClose_used :
    Run (responsesWebSocket emptyCodec).step (ResponsesWebSocket.connected 100) receivedAfterClose
        { openSocket with receiving := true } ∧
      ¬ NeverUsedAgain (responsesWebSocket emptyCodec) receivedAfterClose
        { openSocket with receiving := true } := by
  refine ⟨.cons rfl (.cons rfl (.nil _)), ?_⟩
  intro hpromise
  have := hpromise.unused [] _ _ rfl (by simp [Reports]) _ (.head _)
  simp [Endpoint.unused] at this

/-- A write that fails, and a `recv` that does not poll the socket. -/
def receivedAfterWrite : List (Step ResponsesWebSocket Unit Unit Unit) :=
  [⟨openSocket, .send () (some (.error ())),
      ⟨[.write "{}"], some (.send (.error (.webSocket ())))⟩, { openSocket with closed := true }⟩,
    ⟨{ openSocket with closed := true }, .recv ⟨0, 0⟩, ⟨[], some (.recv (.ok none))⟩,
      { openSocket with closed := true }⟩]

theorem webSockets_neverUsedAgain_receivedAfterWrite :
    NeverUsedAgain (responsesWebSocket emptyCodec) receivedAfterWrite { openSocket with closed := true } := by
  have hrun : Run (responsesWebSocket emptyCodec).step (ResponsesWebSocket.connected 100)
      receivedAfterWrite { openSocket with closed := true } :=
    .cons rfl (.cons rfl (.nil _))
  refine ((webSockets_neverUsedAgain_iff emptyCodec).2.1 100 receivedAfterWrite _ hrun).mpr ?_
  rintro before t later hsplit ⟨-, fault, hfault⟩
  have ht : t ∈ receivedAfterWrite := hsplit ▸ List.mem_append_right _ (.head _)
  simp only [receivedAfterWrite, List.mem_cons, List.not_mem_nil, or_false] at ht
  obtain rfl | rfl := ht
  · cases hfault
  · cases hfault

end Promises

end OpenaiRs.WebSocket
