import OpenaiRs.Sse.Decoder

/-!
# The endpoint-aware SSE stream decoder

`SseStreamDecoder` of `openai-rs-client/src/sse.rs`: the low-level parser with the
terminal markers and remote-error events of one endpoint.

## Implementation notes

`PushLog` records, next to the dispatches and the error returned by the source,
the frames that the inner decoder handed over. The public functions forget them;
statements about a consumed sentinel, which leaves no dispatch, read them. The
`while` loop over a chunk works on the bytes not fed yet and takes their number
as its bound.
-/

namespace OpenaiRs.Sse

open Rust

/-- Whether EOF is itself a valid endpoint terminator. -/
inductive SseEofBehavior where
  | complete
  | requireTerminal
  deriving DecidableEq, Repr

/-- Endpoint-specific terminal and remote-error rules. -/
structure SseEndpointPolicy where
  eof : SseEofBehavior
  terminalEvents : List Bytes
  consumedDataSentinels : List Bytes
  remoteErrorEvents : List Bytes
  deriving DecidableEq, Repr

inductive FrameClassification where
  | event
  | emittedTerminal
  | consumedTerminal
  | remoteError
  deriving DecidableEq, Repr

namespace SseEndpointPolicy

/-- A custom policy with no event or data matchers. -/
def new (eof : SseEofBehavior) : SseEndpointPolicy := ⟨eof, [], [], []⟩

def withTerminalEvent (p : SseEndpointPolicy) (event : Bytes) : SseEndpointPolicy :=
  { p with terminalEvents := p.terminalEvents ++ [event] }

def withConsumedDataSentinel (p : SseEndpointPolicy) (data : Bytes) : SseEndpointPolicy :=
  { p with consumedDataSentinels := p.consumedDataSentinels ++ [data] }

def withRemoteErrorEvent (p : SseEndpointPolicy) (event : Bytes) : SseEndpointPolicy :=
  { p with remoteErrorEvents := p.remoteErrorEvents ++ [event] }

/-- A stream whose clean EOF is its only terminal condition. -/
def eofTerminated : SseEndpointPolicy := new .complete

/-- Legacy Chat and Completions behaviour requiring `data: [DONE]`. -/
def legacyDone : SseEndpointPolicy :=
  ((new .requireTerminal).withConsumedDataSentinel (utf8 "[DONE]")).withRemoteErrorEvent
    (utf8 "error")

/-- Responses lifecycle behaviour. -/
def responses : SseEndpointPolicy :=
  (((((new .requireTerminal).withTerminalEvent (utf8 "response.completed")).withTerminalEvent
    (utf8 "response.failed")).withTerminalEvent (utf8 "response.incomplete")).withConsumedDataSentinel
    (utf8 "[DONE]")).withRemoteErrorEvent (utf8 "error")

/-- The data sentinel is looked at first, then remote errors, then terminal events. -/
def classify (p : SseEndpointPolicy) (frame : SseFrame) : FrameClassification :=
  if p.consumedDataSentinels.contains frame.data then .consumedTerminal
  else if frame.event.any p.remoteErrorEvents.contains then .remoteError
  else if frame.event.any p.terminalEvents.contains then .emittedTerminal
  else .event

/-- The description of the markers in an unexpected-EOF error. -/
def expectedTerminal (p : SseEndpointPolicy) : Bytes :=
  let expected :=
    p.terminalEvents.map (fun event => utf8 "event `" ++ event ++ utf8 "`") ++
      p.consumedDataSentinels.map (fun data => utf8 "data sentinel `" ++ data ++ utf8 "`")
  if expected.isEmpty then utf8 "the endpoint's required terminal marker"
  else List.intercalate (utf8 " or ") expected

end SseEndpointPolicy

/-- An endpoint-aware decoder output. -/
inductive SseDispatch where
  | event (frame : SseFrame)
  | terminal (frame : SseFrame)
  | remoteError (frame : SseFrame)
  deriving DecidableEq, Repr

namespace SseDispatch

def frame : SseDispatch → SseFrame
  | .event f => f
  | .terminal f => f
  | .remoteError f => f

/-- Whether this dispatch closes the endpoint stream. -/
def isTerminal : SseDispatch → Bool
  | .event _ => false
  | .terminal _ => true
  | .remoteError _ => true

end SseDispatch

/-- A bounded SSE decoder with endpoint-specific completion semantics. -/
structure SseStreamDecoder where
  decoder : SseDecoder
  policy : SseEndpointPolicy
  state : SseStreamState
  deriving DecidableEq

/-- What one call did: the frames handed over by the inner decoder, the dispatches
made of them, and the error that ended the call. -/
structure PushLog where
  frames : List SseFrame
  dispatches : List SseDispatch
  error : Option SseDecodeError
  deriving DecidableEq

/-- The result type of the `_with_flushed` functions. -/
def PushLog.result (log : PushLog) :
    Except (SseDecodeError × List SseDispatch) (List SseDispatch) :=
  match log.error with
  | none => .ok log.dispatches
  | some e => .error (e, log.dispatches)

namespace SseStreamDecoder

def new (limits : SseLimits) (policy : SseEndpointPolicy) : SseStreamDecoder where
  decoder := SseDecoder.new limits
  policy := policy
  state := .active

/-- Close the inner decoder and leave the active state. -/
def closeAs (s : SseStreamDecoder) (state : SseStreamState) : SseStreamDecoder :=
  { s with decoder := s.decoder.close, state := state }

/-- Classify frames up to the first one that closes the stream. -/
def classifyFrames (s : SseStreamDecoder) : List SseFrame → SseStreamDecoder × List SseDispatch
  | [] => (s, [])
  | frame :: rest =>
      match s.policy.classify frame with
      | .event =>
          let (s, dispatches) := classifyFrames s rest
          (s, .event frame :: dispatches)
      | .emittedTerminal => (s.closeAs .completed, [.terminal frame])
      | .consumedTerminal => (s.closeAs .completed, [])
      | .remoteError => (s.closeAs .remoteError, [.remoteError frame])

/-- How many bytes to feed next: one after a trailing CR, else up to and including
the next terminator, else everything. -/
def nextCut (lineBuffer rest : Bytes) : Nat :=
  if lineBuffer.getLast? = some cr then 1
  else
    match rest.findIdx? (fun b => b = cr || b = lf) with
    | some relative => relative + 1
    | none => rest.length

/-- The loop of `push_with_flushed` over the bytes of the chunk not fed yet. -/
def pushLoop : Nat → SseStreamDecoder → Bytes → SseStreamDecoder × PushLog
  | 0, s, _ => (s, ⟨[], [], none⟩)
  | _ + 1, s, [] => (s, ⟨[], [], none⟩)
  | fuel + 1, s, b :: rest =>
      let cut := nextCut s.decoder.lineBuffer (b :: rest)
      match s.decoder.push ((b :: rest).take cut) with
      | (decoder, .error e) => ({ s with decoder := decoder, state := .failed }, ⟨[], [], some e⟩)
      | (decoder, .ok frames) =>
          let (s, dispatches) := { s with decoder := decoder }.classifyFrames frames
          if s.state ≠ .active then (s, ⟨frames, dispatches, none⟩)
          else
            let (s, log) := pushLoop fuel s ((b :: rest).drop cut)
            (s, ⟨frames ++ log.frames, dispatches ++ log.dispatches, log.error⟩)

/-- `push_with_flushed`, with its log. -/
def pushLog (s : SseStreamDecoder) (chunk : Bytes) : SseStreamDecoder × PushLog :=
  if s.state = .active then pushLoop chunk.length s chunk
  else (s, ⟨[], [], some (.streamInactive s.state)⟩)

/-- `finish_with_flushed`, with its log. -/
def finishLog (s : SseStreamDecoder) : SseStreamDecoder × PushLog :=
  if s.state = .active then
    match s.decoder.finish with
    | (decoder, .error e) => ({ s with decoder := decoder, state := .failed }, ⟨[], [], some e⟩)
    | (decoder, .ok frames) =>
        let (s, dispatches) := { s with decoder := decoder }.classifyFrames frames
        if s.state ≠ .active then (s, ⟨frames, dispatches, none⟩)
        else
          match s.policy.eof with
          | .complete => ({ s with state := .completed }, ⟨frames, dispatches, none⟩)
          | .requireTerminal =>
              ({ s with state := .failed },
                ⟨frames, dispatches, some (.unexpectedEof s.policy.expectedTerminal)⟩)
  else (s, ⟨[], [], some (.streamInactive s.state)⟩)

/-- Feed a transport chunk, retaining complete events before a parsing error. -/
def pushWithFlushed (s : SseStreamDecoder) (chunk : Bytes) :
    SseStreamDecoder × Except (SseDecodeError × List SseDispatch) (List SseDispatch) :=
  ((s.pushLog chunk).1, (s.pushLog chunk).2.result)

/-- Process EOF, keeping the flushed dispatches even when EOF itself fails. -/
def finishWithFlushed (s : SseStreamDecoder) :
    SseStreamDecoder × Except (SseDecodeError × List SseDispatch) (List SseDispatch) :=
  (s.finishLog.1, s.finishLog.2.result)

/-- Discard buffered input because the caller stopped early. -/
def close (s : SseStreamDecoder) : SseStreamDecoder :=
  if s.state = .active then s.closeAs .completed else s

end SseStreamDecoder

/-- Dispatches, final error and final state of a whole run. -/
structure StreamOutcome where
  dispatches : List SseDispatch
  error : Option SseDecodeError
  state : SseStreamState
  deriving DecidableEq

namespace StreamOutcome

/-- Put the dispatches of an earlier part in front. -/
def after (dispatches : List SseDispatch) (rest : StreamOutcome) : StreamOutcome :=
  { rest with dispatches := dispatches ++ rest.dispatches }

/-- The outcome of a call that ends the run. -/
def ofResult :
    SseStreamDecoder × Except (SseDecodeError × List SseDispatch) (List SseDispatch) →
      StreamOutcome
  | (s, .ok dispatches) => ⟨dispatches, none, s.state⟩
  | (s, .error (e, dispatches)) => ⟨dispatches, some e, s.state⟩

end StreamOutcome

namespace SseStreamDecoder

/-- Feed the chunks in order until an error or until the state leaves `active`, and
finish if the decoder is then still active. -/
def runChunks (s : SseStreamDecoder) : List Bytes → StreamOutcome
  | [] => StreamOutcome.ofResult s.finishWithFlushed
  | chunk :: rest =>
      match s.pushWithFlushed chunk with
      | (s, .error e) => StreamOutcome.ofResult (s, .error e)
      | (s, .ok dispatches) =>
          if s.state ≠ .active then ⟨dispatches, none, s.state⟩
          else StreamOutcome.after dispatches (runChunks s rest)

end SseStreamDecoder

end OpenaiRs.Sse
