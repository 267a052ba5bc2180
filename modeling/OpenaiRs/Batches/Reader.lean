import OpenaiRs.Batches.Writer

/-!
# The batch JSONL reader

`BatchJsonlReader` of `openai-rs-types/src/batches.rs`.

## Implementation notes

A `BufRead` is the list of what its calls of `fill_buf` return. An empty fill is the end of the
input, and so is the end of the list. Bytes of a fill that are not consumed are returned by the next
call. No fill is longer than the largest `usize`, so the place behind a newline in it is a plain
sum. The decoding of one line is `serde_json`'s and stays a parameter.
-/

namespace OpenaiRs.Batches

open Rust

section Types

/-- The fills that the source returns, in order. -/
abbrev BufRead := List (Except String Bytes)

/-- The source after `count` bytes of the fill `available` are consumed. -/
def consume (available : Bytes) (count : Nat) (rest : BufRead) : BufRead :=
  if available.length ≤ count then rest else .ok (available.drop count) :: rest

structure BatchJsonlReader where
  reader : BufRead
  buffer : Bytes
  lineCount : Nat
  maxLineBytes : Nat
  finished : Bool

/-- How the loop of `read_next_line` is left. -/
inductive LoopExit where
  /-- By `break`, with a line in the buffer. -/
  | line
  /-- By `return Ok(None)`. -/
  | endOfInput
  | failed (e : BatchJsonlError)
  deriving DecidableEq

end Types

section Reader

namespace BatchJsonlReader

def new (reader : BufRead) : BatchJsonlReader where
  reader := reader
  buffer := []
  lineCount := 0
  maxLineBytes := defaultBatchJsonlLineLimit
  finished := false

def withLineLimit (r : BatchJsonlReader) (maxLineBytes : Nat) : BatchJsonlReader :=
  { r with maxLineBytes := maxLineBytes }

/-- An empty fill ends the input; a line can be in the buffer. -/
def atEnd (buffer : Bytes) : LoopExit := if buffer.isEmpty then .endOfInput else .line

/-- The loop of `read_next_line`: how it is left, the buffer, and the source. -/
def readLoop (line maxLineBytes : Nat) (buffer : Bytes) : BufRead → LoopExit × Bytes × BufRead
  | [] => (atEnd buffer, buffer, [])
  | .error source :: rest => (.failed (.io line source), buffer, rest)
  | .ok available :: rest =>
      if available.isEmpty then (atEnd buffer, buffer, rest)
      else
        match available.findIdx? (fun byte => byte = lf) with
        | some position =>
            if maxLineBytes < saturatingAdd buffer.length position then
              (.failed (.lineTooLong line maxLineBytes), buffer, .ok available :: rest)
            else
              (.line, buffer ++ available.take position, consume available (position + 1) rest)
        | none =>
            if maxLineBytes < saturatingAdd buffer.length available.length then
              (.failed (.lineTooLong line maxLineBytes), buffer, .ok available :: rest)
            else readLoop line maxLineBytes (buffer ++ available) rest

/-- The buffer without a last `cr`. -/
def popCr (buffer : Bytes) : Bytes :=
  if buffer.getLast? = some cr then buffer.dropLast else buffer

def readNextLine (r : BatchJsonlReader) : BatchJsonlReader × Except BatchJsonlError (Option Bytes) :=
  let line := saturatingAdd r.lineCount 1
  match readLoop line r.maxLineBytes [] r.reader with
  | (.endOfInput, buffer, reader) => ({ r with reader := reader, buffer := buffer }, .ok none)
  | (.failed e, buffer, reader) =>
      -- The length check sets `finished` here, `next` does so for every error.
      ({ r with
          reader := reader
          buffer := buffer
          finished := r.finished || decide (e = .lineTooLong line r.maxLineBytes) }, .error e)
  | (.line, buffer, reader) =>
      let buffer := popCr buffer
      let r := { r with reader := reader, buffer := buffer, lineCount := line }
      if buffer.isEmpty then (r, .error (.emptyLine line)) else (r, .ok (some buffer))

variable {T : Type} (fromSlice : Bytes → Except String T)

def next (r : BatchJsonlReader) : BatchJsonlReader × Option (Except BatchJsonlError T) :=
  if r.finished then (r, none)
  else
    match r.readNextLine with
    | (r, .ok none) => ({ r with finished := true }, none)
    | (r, .ok (some bytes)) =>
        match fromSlice bytes with
        | .ok value => (r, some (.ok value))
        | .error source => ({ r with finished := true }, some (.error (.decode r.lineCount source)))
    | (r, .error e) => ({ r with finished := true }, some (.error e))

/-- The reader after some calls of `next`. -/
def afterNexts (r : BatchJsonlReader) : Nat → BatchJsonlReader
  | 0 => r
  | count + 1 => afterNexts (r.next fromSlice).1 count

end BatchJsonlReader

end Reader

end OpenaiRs.Batches
