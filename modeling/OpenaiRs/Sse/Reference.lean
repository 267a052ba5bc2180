import OpenaiRs.Sse.LineRun

/-!
# The event-stream grammar on whole inputs

The decoder is compared with a definition that sees the complete input. Lines
are grouped into blocks of fields; a block is turned into a frame when it ends,
and the limits are checked line by line. No buffer, cursor or register occurs
here. The registers of the decoder are recovered as functions of the fields of
the current block and of all fields seen so far.
-/

namespace OpenaiRs.Sse

open Rust Text

/-- A field line: the name before the first colon and the value after it. -/
structure Field where
  name : Bytes
  value : Bytes
  deriving DecidableEq, Repr

/-- The field of a non-blank line, none for a comment. One space after the colon
is not part of the value. -/
def Field.ofLine (line : Bytes) : Option Field :=
  if line.head? = some colon then none
  else
    let value := (line.dropWhile (· ≠ colon)).drop 1
    some
      { name := line.takeWhile (· ≠ colon)
        value := if value.head? = some space then value.drop 1 else value }

/-- Values of the `data` fields of a block. -/
def dataValues (block : List Field) : List Bytes :=
  (block.filter (·.name = utf8 "data")).map (·.value)

/-- The `data` values joined with a single line feed. -/
def joinedData (block : List Field) : Bytes := List.intercalate [lf] (dataValues block)

/-- The last `event` value of a block; an empty value names no event. -/
def blockEvent (block : List Field) : Option Bytes :=
  (((block.filter (·.name = utf8 "event")).map (·.value)).getLast?).filter (· ≠ [])

/-- The latest `id` value without NUL among all fields seen so far. -/
def latestId (seen : List Field) : Option Bytes :=
  ((seen.filter fun f => f.name = utf8 "id" ∧ nul ∉ f.value).map (·.value)).getLast?

/-- The delay of a `retry` field: a non-empty digit string that fits `u64`. -/
def Field.retry? (f : Field) : Option Duration :=
  if f.name = utf8 "retry" ∧ f.value ≠ [] ∧ f.value.all isAsciiDigit ∧
      decimalValue f.value < UInt64.size then
    some (Duration.fromMillis (decimalValue f.value))
  else none

/-- The last valid `retry` delay among some fields. -/
def latestRetry (fields : List Field) : Option Duration :=
  (fields.filterMap Field.retry?).getLast?

/-- The frame of a block, present exactly when it has a `data` field. -/
def blockFrame (seen block : List Field) : Option SseFrame :=
  if dataValues block = [] then none
  else some
    { event := blockEvent block
      data := joinedData block
      id := latestId seen
      retry := latestRetry block }

/-- The fields contributed by one line. -/
def lineFields (line : Bytes) : List Field :=
  if line = [] then [] else (Field.ofLine line).toList

/-- The block after one line: a blank line starts a new one. -/
def nextBlock (block : List Field) (line : Bytes) : List Field :=
  if line = [] then [] else block ++ lineFields line

/-- Frames of a list of lines, given the fields seen and the open block. -/
def referenceFrames (seen block : List Field) : List Bytes → List SseFrame
  | [] => (blockFrame seen block).toList
  | line :: rest =>
      (if line = [] then (blockFrame seen block).toList else []) ++
        referenceFrames (seen ++ lineFields line) (nextBlock block line) rest

/-- The first limit or encoding rule broken by a line of the given open block. -/
def violation (limits : SseLimits) (block : List Field) (line : Bytes) :
    Option SseDecodeError :=
  if limits.maxLineBytes.toNat < line.length then some (.lineTooLarge limits.maxLineBytes)
  else
    match fromUtf8 line with
    | .error e => some (.invalidUtf8 e.validUpTo e.errorLen)
    | .ok _ =>
        if (lineFields line).any (·.name = utf8 "data") then
          if limits.maxDataLines.toNat < (dataValues (nextBlock block line)).length then
            some (.tooManyDataLines limits.maxDataLines)
          else if limits.maxEventBytes.toNat < (joinedData (nextBlock block line)).length then
            some (.eventTooLarge limits.maxEventBytes)
          else none
        else none

/-- The violation of the first offending line. -/
def firstViolation (limits : SseLimits) (block : List Field) :
    List Bytes → Option SseDecodeError
  | [] => none
  | line :: rest =>
      match violation limits block line with
      | some e => some e
      | none => firstViolation limits (nextBlock block line) rest

/-- The whole-input definition: the violation of the first offending line of the
input without its mark, or else all its frames. -/
def reference (limits : SseLimits) (input : Bytes) : Except SseDecodeError (List SseFrame) :=
  match firstViolation limits [] (lines cr lf [] (stripBom input)) with
  | some e => .error e
  | none => .ok (referenceFrames [] [] (lines cr lf [] (stripBom input)))

/-- The registers of a decoder that has seen these fields and has this open block. -/
def registersOf (seen block : List Field) : EventRegisters where
  eventName := blockEvent block
  eventData := joinedData block
  dataLines := (dataValues block).length
  lastEventId := latestId seen
  eventRetry := latestRetry block
  reconnectRetry := latestRetry seen

section Fields

theorem splitOnce_eq (line : Bytes) :
    (splitOnce colon line).getD (line, []) =
      (line.takeWhile (· ≠ colon), (line.dropWhile (· ≠ colon)).drop 1) := by
  induction line with
  | nil => rfl
  | cons b rest ih =>
      by_cases hb : b = colon
      · simp [splitOnce, hb]
      · have htake : (b :: rest).takeWhile (· ≠ colon) = b :: rest.takeWhile (· ≠ colon) := by
          simp [hb]
        have hdrop : (b :: rest).dropWhile (· ≠ colon) = rest.dropWhile (· ≠ colon) := by
          simp [hb]
        rw [htake, hdrop, splitOnce, if_neg hb]
        cases hs : splitOnce colon rest with
        | none =>
            rw [hs] at ih
            exact congrArg (fun parts => (b :: parts.1, parts.2)) ih
        | some parts =>
            rw [hs] at ih
            exact congrArg (fun parts => (b :: parts.1, parts.2)) ih

theorem stripPrefix_eq (expected : UInt8) (value : Bytes) :
    (stripPrefix expected value).getD value =
      if value.head? = some expected then value.drop 1 else value := by
  cases value with
  | nil => simp [stripPrefix]
  | cons b rest => by_cases hb : b = expected <;> simp [stripPrefix, hb]

/-- Splitting at the first colon gives the field of the grammar. -/
theorem ofLine_eq {line : Bytes} (h : line.head? ≠ some colon) :
    Field.ofLine line =
      some ⟨(EventRegisters.splitField line).1, (EventRegisters.splitField line).2⟩ := by
  simp only [Field.ofLine, if_neg h, EventRegisters.splitField, splitOnce_eq, stripPrefix_eq]

end Fields

section Registers

theorem dataValues_append (block : List Field) (f : Field) :
    dataValues (block ++ [f]) =
      if f.name = utf8 "data" then dataValues block ++ [f.value] else dataValues block := by
  by_cases hf : f.name = utf8 "data" <;> simp [dataValues, List.filter_append, hf]

theorem blockEvent_append (block : List Field) (f : Field) :
    blockEvent (block ++ [f]) =
      if f.name = utf8 "event" then (if f.value.isEmpty then none else some f.value)
      else blockEvent block := by
  by_cases hf : f.name = utf8 "event"
  · by_cases hv : f.value = [] <;> simp [blockEvent, List.filter_append, hf, hv]
  · simp [blockEvent, List.filter_append, hf]

theorem latestId_append (seen : List Field) (f : Field) :
    latestId (seen ++ [f]) =
      if f.name = utf8 "id" ∧ nul ∉ f.value then some f.value else latestId seen := by
  by_cases hf : f.name = utf8 "id" ∧ nul ∉ f.value
  · simp [latestId, List.filter_append, hf]
  · rw [if_neg hf]
    simp [latestId, List.filter_append, hf]

theorem latestRetry_append (fields : List Field) (f : Field) :
    latestRetry (fields ++ [f]) = f.retry?.or (latestRetry fields) := by
  cases hf : f.retry? <;> simp [latestRetry, List.filterMap_append, hf]

theorem intercalate_concat (separator : Bytes) (values : List Bytes) (value : Bytes) :
    List.intercalate separator (values ++ [value]) =
      if values = [] then value else List.intercalate separator values ++ separator ++ value := by
  induction values with
  | nil => simp
  | cons first rest ih =>
      cases rest with
      | nil => simp [List.intercalate]
      | cons second rest =>
          simp only [List.cons_append, List.intercalate_cons_cons, reduceCtorEq, if_false] at ih ⊢
          rw [ih]
          simp

theorem joinedData_append (block : List Field) (f : Field) :
    joinedData (block ++ [f]) =
      if f.name = utf8 "data" then
        if dataValues block = [] then f.value else joinedData block ++ [lf] ++ f.value
      else joinedData block := by
  unfold joinedData
  rw [dataValues_append]
  by_cases hf : f.name = utf8 "data"
  · rw [if_pos hf, if_pos hf, intercalate_concat]
  · rw [if_neg hf, if_neg hf]

theorem event_ne_data : utf8 "event" ≠ utf8 "data" := by decide
theorem event_ne_id : utf8 "event" ≠ utf8 "id" := by decide
theorem event_ne_retry : utf8 "event" ≠ utf8 "retry" := by decide
theorem data_ne_id : utf8 "data" ≠ utf8 "id" := by decide
theorem data_ne_retry : utf8 "data" ≠ utf8 "retry" := by decide
theorem id_ne_retry : utf8 "id" ≠ utf8 "retry" := by decide

theorem retry?_of_ne {f : Field} (h : f.name ≠ utf8 "retry") : f.retry? = none := by
  simp [Field.retry?, h]

/-- The registers after a field, read off field by field. -/
theorem registersOf_append (seen block : List Field) (f : Field) :
    registersOf (seen ++ [f]) (block ++ [f]) =
      { eventName :=
          if f.name = utf8 "event" then (if f.value.isEmpty then none else some f.value)
          else blockEvent block
        eventData := joinedData (block ++ [f])
        dataLines := (dataValues (block ++ [f])).length
        lastEventId :=
          if f.name = utf8 "id" ∧ nul ∉ f.value then some f.value else latestId seen
        eventRetry := f.retry?.or (latestRetry block)
        reconnectRetry := f.retry?.or (latestRetry seen) } := by
  simp only [registersOf, blockEvent_append, latestId_append, latestRetry_append]

/-- Only `data` fields touch the joined data. -/
theorem registersOf_append_of_ne (seen block : List Field) {f : Field}
    (h : f.name ≠ utf8 "data") :
    registersOf (seen ++ [f]) (block ++ [f]) =
      { registersOf seen block with
        eventName :=
          if f.name = utf8 "event" then (if f.value.isEmpty then none else some f.value)
          else blockEvent block
        lastEventId :=
          if f.name = utf8 "id" ∧ nul ∉ f.value then some f.value else latestId seen
        eventRetry := f.retry?.or (latestRetry block)
        reconnectRetry := f.retry?.or (latestRetry seen) } := by
  rw [registersOf_append, joinedData_append, dataValues_append, if_neg h, if_neg h]
  rfl

/-- The word bound never decides: a length that does not fit exceeds every limit. -/
theorem pushData_eq (limits : SseLimits) (r : EventRegisters) (value : Bytes) :
    r.pushData limits value =
      if limits.maxDataLines.toNat ≤ r.dataLines then
        .error (.tooManyDataLines limits.maxDataLines)
      else if limits.maxEventBytes.toNat <
          ((if r.dataLines ≠ 0 then r.eventData ++ [lf] else r.eventData) ++ value).length then
        .error (.eventTooLarge limits.maxEventBytes)
      else .ok { r with
        eventData := (if r.dataLines ≠ 0 then r.eventData ++ [lf] else r.eventData) ++ value
        dataLines := r.dataLines + 1 } := by
  have hbound : limits.maxEventBytes.toNat < usizeSize := limits.maxEventBytes.toNat_lt
  have hlength : ((if r.dataLines ≠ 0 then r.eventData ++ [lf] else r.eventData) ++ value).length =
      r.eventData.length + (if r.dataLines ≠ 0 then 1 else 0) + value.length := by
    split
    · simp only [List.length_append, List.length_singleton]
    · simp only [List.length_append, Nat.add_zero]
  simp only [EventRegisters.pushData, checkedAdd_bind, hlength]
  by_cases hfits : r.eventData.length + (if r.dataLines ≠ 0 then 1 else 0) + value.length < usizeSize
  · simp only [if_pos hfits]
  · have hlarge : limits.maxEventBytes.toNat <
        r.eventData.length + (if r.dataLines ≠ 0 then 1 else 0) + value.length := by omega
    simp only [if_neg hfits, if_pos hlarge]

/-- A `data` field that keeps the limits is appended to the block. -/
theorem pushData_registersOf (limits : SseLimits) (seen block : List Field) (f : Field)
    (hname : f.name = utf8 "data") :
    (registersOf seen block).pushData limits f.value =
      if limits.maxDataLines.toNat < (dataValues (block ++ [f])).length then
        .error (.tooManyDataLines limits.maxDataLines)
      else if limits.maxEventBytes.toNat < (joinedData (block ++ [f])).length then
        .error (.eventTooLarge limits.maxEventBytes)
      else .ok (registersOf (seen ++ [f]) (block ++ [f])) := by
  have hcount : (dataValues (block ++ [f])).length = (registersOf seen block).dataLines + 1 := by
    rw [dataValues_append, if_pos hname, List.length_append, List.length_singleton]
    rfl
  have hjoined : joinedData (block ++ [f]) =
      (if (registersOf seen block).dataLines ≠ 0 then (registersOf seen block).eventData ++ [lf]
        else (registersOf seen block).eventData) ++ f.value := by
    rw [joinedData_append, if_pos hname]
    by_cases hv : dataValues block = []
    · simp [registersOf, hv, joinedData]
    · simp [registersOf, hv]
  have hafter : registersOf (seen ++ [f]) (block ++ [f]) =
      { registersOf seen block with
        eventData := joinedData (block ++ [f])
        dataLines := (dataValues (block ++ [f])).length } := by
    rw [registersOf_append]
    simp only [hname, event_ne_data.symm, data_ne_id, if_false, false_and,
      retry?_of_ne (hname ▸ data_ne_retry), Option.none_or]
    rfl
  rw [pushData_eq, hafter, hcount, hjoined]
  simp only [Nat.lt_succ_iff]

/-- A `retry` field sets both delays when its value is valid. -/
theorem setRetry_registersOf (seen block : List Field) (f : Field)
    (hname : f.name = utf8 "retry") :
    (registersOf seen block).setRetry f.value =
      registersOf (seen ++ [f]) (block ++ [f]) := by
  rw [registersOf_append_of_ne seen block (hname ▸ data_ne_retry.symm)]
  simp only [hname, event_ne_retry.symm, id_ne_retry.symm, if_false, false_and]
  unfold EventRegisters.setRetry
  by_cases hvalid : f.value ≠ [] ∧ f.value.all isAsciiDigit = true
  · obtain ⟨hne, hdigits⟩ := hvalid
    have hempty : f.value.isEmpty = false := by simpa using hne
    have hcond : ¬ (f.value.isEmpty || !f.value.all isAsciiDigit) = true := by
      simp [hempty, hdigits]
    rw [if_neg hcond, parseU64_digits hne hdigits]
    by_cases hfits : decimalValue f.value < UInt64.size
    · have hretry : f.retry? = some (Duration.fromMillis (decimalValue f.value)) := by
        rw [Field.retry?, if_pos ⟨hname, hne, hdigits, hfits⟩]
      rw [if_pos hfits, hretry]
      rfl
    · have hretry : f.retry? = none := by
        rw [Field.retry?, if_neg]
        rintro ⟨-, -, -, hless⟩
        exact hfits hless
      rw [if_neg hfits, hretry]
      rfl
  · have hcond : (f.value.isEmpty || !f.value.all isAsciiDigit) = true := by
      by_cases hne : f.value = []
      · simp [hne]
      · have hdigits : ¬ f.value.all isAsciiDigit = true := fun hd => hvalid ⟨hne, hd⟩
        simp [hdigits]
    have hretry : f.retry? = none := by
      rw [Field.retry?, if_neg]
      rintro ⟨-, hne, hdigits, -⟩
      exact hvalid ⟨hne, hdigits⟩
    rw [if_pos hcond, hretry]
    rfl

end Registers

section Simulation

/-- A blank line, like end of input, closes the block and keeps what outlives it. -/
theorem takeEvent_registersOf (seen block : List Field) :
    (registersOf seen block).takeEvent = (registersOf seen [], blockFrame seen block) := by
  have hnil : registersOf seen [] =
      { registersOf seen block with
        eventName := none, eventData := [], dataLines := 0, eventRetry := none } := rfl
  rw [hnil, EventRegisters.takeEvent, blockFrame]
  by_cases hv : dataValues block = []
  · have hzero : (registersOf seen block).dataLines = 0 := by simp [registersOf, hv]
    have hdata : (registersOf seen block).eventData = [] := by
      simp [registersOf, joinedData, hv]
    rw [if_pos hzero, if_pos hv]
    simp only [hzero, hdata]
  · have hzero : (registersOf seen block).dataLines ≠ 0 := by simp [registersOf, hv]
    rw [if_neg hzero, if_neg hv]
    rfl

/-- One line: the decoder fails exactly on a violation, and otherwise its registers
and its frame are those of the grammar. -/
theorem processLine_registersOf (limits : SseLimits) (seen block : List Field) (line : Bytes) :
    (registersOf seen block).processLine limits line =
      match violation limits block line with
      | some e => .error e
      | none => .ok (registersOf (seen ++ lineFields line) (nextBlock block line),
          if line = [] then (blockFrame seen block).toList else []) := by
  unfold EventRegisters.processLine violation
  by_cases hlong : limits.maxLineBytes.toNat < line.length
  · simp only [if_pos hlong]
  rw [if_neg hlong, if_neg hlong]
  cases htext : fromUtf8 line with
  | error e => rfl
  | ok text =>
      obtain rfl := eq_of_fromUtf8_ok htext
      by_cases hblank : text = []
      · subst hblank
        simp [takeEvent_registersOf, lineFields, nextBlock]
      have hnext : nextBlock block text = block ++ lineFields text := if_neg hblank
      have hempty : ¬ text.isEmpty = true := by simpa using hblank
      simp only [hempty, if_false, hblank, Bool.false_eq_true]
      by_cases hcomment : text.head? = some colon
      · have hfields : lineFields text = [] := by
          simp [lineFields, hblank, Field.ofLine, hcomment]
        simp [hcomment, hnext, hfields]
      simp only [hcomment, if_false]
      generalize hsplit : EventRegisters.splitField text = parts
      obtain ⟨name, value⟩ := parts
      have hfields : lineFields text = [⟨name, value⟩] := by
        simp only [lineFields, hblank, if_false, ofLine_eq hcomment, hsplit, Option.toList_some]
      rw [hnext, hfields]
      simp only [List.any_cons, List.any_nil, Bool.or_false, decide_eq_true_eq]
      by_cases hdata : name = utf8 "data"
      · subst hdata
        rw [if_neg event_ne_data.symm, if_pos rfl, if_pos rfl,
          pushData_registersOf limits seen block ⟨utf8 "data", value⟩ rfl]
        by_cases hlines : limits.maxDataLines.toNat <
            (dataValues (block ++ [⟨utf8 "data", value⟩])).length
        · simp only [if_pos hlines]
        · by_cases hlarge : limits.maxEventBytes.toNat <
              (joinedData (block ++ [⟨utf8 "data", value⟩])).length
          · simp only [if_neg hlines, if_pos hlarge]
          · simp only [if_neg hlines, if_neg hlarge]
      · rw [if_neg hdata, registersOf_append_of_ne seen block hdata]
        by_cases hevent : name = utf8 "event"
        · subst hevent
          simp only [if_true, event_ne_id, false_and, if_false,
            retry?_of_ne (f := ⟨utf8 "event", value⟩) event_ne_retry, Option.none_or]
          rfl
        · rw [if_neg hevent, if_neg hdata]
          by_cases hid : name = utf8 "id" ∧ nul ∉ value
          · obtain ⟨rfl, hnul⟩ := hid
            simp only [if_neg hevent, hnul, not_false_iff, and_self, if_true,
              retry?_of_ne (f := ⟨utf8 "id", value⟩) id_ne_retry, Option.none_or]
            rfl
          · rw [if_neg hid]
            by_cases hretry : name = utf8 "retry"
            · subst hretry
              rw [if_pos rfl, setRetry_registersOf seen block ⟨utf8 "retry", value⟩ rfl,
                registersOf_append_of_ne seen block hdata]
            · have hnone := retry?_of_ne (f := ⟨name, value⟩) hretry
              simp only [if_neg hretry, if_neg hevent, if_neg hid, hnone, Option.none_or]
              rfl

/-- A run over lines is decided by the first violation; without one its frames are
those of the grammar. -/
theorem runLines_registersOf (limits : SseLimits) (input : List Bytes) (seen block : List Field) :
    (runLines limits (registersOf seen block) input).result =
      match firstViolation limits block input with
      | some e => .error e
      | none => .ok (referenceFrames seen block input) := by
  induction input generalizing seen block with
  | nil =>
      simp [runLines_nil, takeEvent_registersOf, Outcome.result, firstViolation, referenceFrames]
  | cons line rest ih =>
      have hline := processLine_registersOf limits seen block line
      rw [firstViolation, referenceFrames]
      cases hv : violation limits block line with
      | some e =>
          rw [hv] at hline
          rw [runLines_cons_error hline]
          rfl
      | none =>
          rw [hv] at hline
          rw [runLines_cons_ok hline, Outcome.result_after, ih]
          simp only
          cases firstViolation limits (nextBlock block line) rest <;> rfl

/-- For every input and every way of cutting it into chunks, the incremental decoder
gives what the whole-input definition gives: the same error on the first offending
line, or the same frames. -/
theorem decode_eq_reference (limits : SseLimits) (chunks : List Bytes) :
    (SseDecoder.new limits).decode chunks = reference limits chunks.flatten := by
  calc
    (SseDecoder.new limits).decode chunks =
        ((SseDecoder.new limits).remaining chunks.flatten).result :=
      SseDecoder.decode_eq chunks (SseDecoder.ready_new limits)
    _ = (runLines limits EventRegisters.empty (lines cr lf [] (stripBom chunks.flatten))).result := by
      rw [SseDecoder.remaining_new]
    _ = reference limits chunks.flatten := runLines_registersOf limits _ [] []

end Simulation

end OpenaiRs.Sse
