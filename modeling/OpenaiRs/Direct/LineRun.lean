import OpenaiRs.Direct.Sse
import OpenaiRs.Sse.LineRun

/-!
# Line semantics of the direct decoder

The remaining outcome of the byte-at-a-time decoder, read off the physical lines
of the rest of its stream. The scan with a flag is the `scanLines` form of the
line grammar; the undecided byte order mark prefix is put back in front of the
rest of the input.
-/

namespace OpenaiRs.Direct

open Rust Text
open Sse (stripBom EventRegisters)

/-- Items and final error of a run. -/
abbrev ItemOutcome := Outcome SseItem SseError

/-- One whole line: nothing is read behind the sentinel, and an oversized line is
rejected before it is interpreted. -/
def lineStep (maxLineBytes maxEventBytes : UInt64) (p : PendingEvent) (line : Bytes) :
    Except SseError (PendingEvent × List SseItem) :=
  if p.done then .ok (p, [])
  else if maxLineBytes.toNat < line.length then
    .error (SseDecoder.lineExceeded maxLineBytes.toNat)
  else p.processLine maxEventBytes line

/-- Process whole lines in order and flush the pending event at the end. -/
def runLines (maxLineBytes maxEventBytes : UInt64) (p : PendingEvent) (input : List Bytes) :
    ItemOutcome :=
  runSteps (lineStep maxLineBytes maxEventBytes) (fun p => p.dispatch.2) p input

/-- A field line is split where the platform decoder splits it. -/
theorem processLine_field (maxEventBytes : UInt64) (p : PendingEvent) {line : Bytes}
    (hblank : line ≠ []) (hcolon : line.head? ≠ some colon) (hvalid : fromUtf8 line = .ok line) :
    p.processLine maxEventBytes line =
      if (EventRegisters.splitField line).1 = utf8 "data" then
        (p.pushData maxEventBytes (EventRegisters.splitField line).2).map fun p => (p, [])
      else .ok (p, []) := by
  have hempty : ¬ line.isEmpty = true := by simpa using hblank
  rw [PendingEvent.processLine, if_neg hempty, if_neg hcolon, hvalid]
  rcases hpush : p.pushData maxEventBytes (EventRegisters.splitField line).2 with e | p' <;>
    (rw [EventRegisters.splitField] at hpush ⊢; simp only [hpush]; rfl)

theorem dispatch_of_done {p : PendingEvent} (h : p.done = true) : p.dispatch.2 = [] := by
  rw [PendingEvent.dispatch, if_pos h]

/-- Behind the sentinel there is nothing. -/
theorem runLines_of_done {p : PendingEvent} (h : p.done = true)
    (maxLineBytes maxEventBytes : UInt64) (input : List Bytes) :
    runLines maxLineBytes maxEventBytes p input = ([], none) := by
  induction input with
  | nil => exact congrArg (·, none) (dispatch_of_done h)
  | cons line rest ih =>
      have hstep : lineStep maxLineBytes maxEventBytes p line = .ok (p, []) := by
        rw [lineStep, if_pos h]
      rw [runLines, runSteps_cons_ok hstep]
      exact ih

namespace SseDecoder

/-- The outcome of the decoder on the rest of its stream. -/
def remaining (d : SseDecoder) (more : Bytes) : ItemOutcome :=
  runLines d.maxLineBytes d.maxEventBytes d.toPendingEvent
    (scanLines cr lf d.line d.afterCr
      (if d.bomChecked then more else stripBom (utf8Bom.take d.bomLen ++ more)))

/-- The invariant of the decoder between bytes. -/
structure Sound (d : SseDecoder) : Prop where
  line_le : d.line.length ≤ d.maxLineBytes.toNat
  line_of_cr : d.afterCr = true → d.line = []
  line_of_done : d.done = true → d.line = []
  undecided : d.bomChecked = false →
    d.line = [] ∧ d.afterCr = false ∧ d.done = false ∧ d.bomLen < utf8Bom.length

theorem sound_new (maxLineBytes maxEventBytes : UInt64) :
    (new maxLineBytes maxEventBytes).Sound where
  line_le := Nat.zero_le _
  line_of_cr := by intro h; cases h
  line_of_done := by intro h; cases h
  undecided := by intro _; exact ⟨rfl, rfl, rfl, Nat.zero_lt_succ _⟩

theorem remaining_new (maxLineBytes maxEventBytes : UInt64) (input : Bytes) :
    (new maxLineBytes maxEventBytes).remaining input =
      runLines maxLineBytes maxEventBytes ⟨[], false, false⟩
        (lines cr lf [] (stripBom input)) := by
  rw [← (scanLines_eq (stripBom input) []).1]
  rfl

theorem remaining_of_bomChecked {d : SseDecoder} (h : d.bomChecked = true) (more : Bytes) :
    d.remaining more =
      runLines d.maxLineBytes d.maxEventBytes d.toPendingEvent
        (scanLines cr lf d.line d.afterCr more) := by
  rw [remaining, if_pos h]

/-- Once the sentinel was seen the rest of the stream is ignored. -/
theorem remaining_of_done {d : SseDecoder} (h : d.done = true) (more : Bytes) :
    d.remaining more = ([], none) :=
  runLines_of_done h _ _ _

/-- What a call on `input` may answer, in terms of the remaining outcome. -/
abbrev Answers (d : SseDecoder) (input : Bytes)
    (result : SseDecoder × Except SseError (List SseItem)) : Prop :=
  Text.Answers Sound remaining d input result

/-- The answer to a single byte: a failure drops no item. -/
abbrev Lossless (d : SseDecoder) (input : Bytes)
    (result : SseDecoder × Except SseError (List SseItem)) : Prop :=
  Text.Lossless Sound remaining d input result

section Byte

/-- The decoder after a line that was accepted. -/
def acceptLine (d : SseDecoder) (p : PendingEvent) (afterCr : Bool) : SseDecoder :=
  { d with toPendingEvent := p, line := [], afterCr := afterCr }

theorem sound_acceptLine {d : SseDecoder} (hbom : d.bomChecked = true) (p : PendingEvent)
    (afterCr : Bool) : (d.acceptLine p afterCr).Sound where
  line_le := Nat.zero_le _
  line_of_cr := fun _ => rfl
  line_of_done := fun _ => rfl
  undecided := by
    intro h
    change d.bomChecked = false at h
    rw [hbom] at h
    cases h

/-- The outcome of a stream whose next byte ends the current line. -/
theorem remaining_line {d : SseDecoder} (h : d.Sound) (hbom : d.bomChecked = true)
    (hdone : d.done = false) (byte : UInt8) (afterCr : Bool)
    (hscan : ∀ more, scanLines cr lf d.line d.afterCr (byte :: more) =
      d.line :: scanLines cr lf [] afterCr more) (more : Bytes) :
    d.remaining (byte :: more) =
      match d.toPendingEvent.processLine d.maxEventBytes d.line with
      | .error e => ([], some e)
      | .ok (p, items) => Outcome.after items ((d.acceptLine p afterCr).remaining more) := by
  have hstep : lineStep d.maxLineBytes d.maxEventBytes d.toPendingEvent d.line =
      d.toPendingEvent.processLine d.maxEventBytes d.line := by
    rw [lineStep, if_neg (by simp [hdone]), if_neg (Nat.not_lt.mpr h.line_le)]
  rw [remaining_of_bomChecked hbom, hscan]
  rcases hline : d.toPendingEvent.processLine d.maxEventBytes d.line with e | ⟨p, items⟩
  · exact runSteps_cons_error (hstep.trans hline) _
  · have haccept : (d.acceptLine p afterCr).bomChecked = true := hbom
    simp only [remaining_of_bomChecked haccept]
    exact runSteps_cons_ok (hstep.trans hline) _

/-- A content byte beyond the limit makes the line under construction too long. -/
theorem remaining_oversized {d : SseDecoder} (hbom : d.bomChecked = true)
    (hdone : d.done = false) {byte : UInt8} (hplain : byte ≠ cr ∧ byte ≠ lf)
    (hlong : d.maxLineBytes.toNat ≤ d.line.length) (more : Bytes) :
    d.remaining (byte :: more) = ([], some (lineExceeded d.maxLineBytes.toNat)) := by
  have hne : d.line ++ [byte] ≠ [] := by simp
  obtain ⟨suffix, tail, heq⟩ := lines_head cr lf hne more
  have hscan : scanLines cr lf d.line d.afterCr (byte :: more) =
      (d.line ++ [byte] ++ suffix) :: tail := by
    rw [scanLines, if_neg hplain.2, if_neg hplain.1, (scanLines_eq more _).1, heq]
  have hstep : lineStep d.maxLineBytes d.maxEventBytes d.toPendingEvent
      (d.line ++ [byte] ++ suffix) = .error (lineExceeded d.maxLineBytes.toNat) := by
    rw [lineStep, if_neg (by simp [hdone]), if_pos]
    simp only [List.length_append, List.length_singleton]
    omega
  rw [remaining_of_bomChecked hbom, hscan]
  exact runSteps_cons_error hstep _

theorem terminateLine_eq (d : SseDecoder) :
    d.terminateLine =
      match d.toPendingEvent.processLine d.maxEventBytes d.line with
      | .error e => ({ d with line := [] }, .error e)
      | .ok (p, items) => (d.acceptLine p d.afterCr, .ok items) := by
  unfold terminateLine acceptLine
  rfl

/-- The byte that ends a line answers to itself. -/
theorem lossless_line {d : SseDecoder} (h : d.Sound) (hbom : d.bomChecked = true)
    (hdone : d.done = false) (byte : UInt8) (afterCr : Bool)
    (hscan : ∀ more, scanLines cr lf d.line d.afterCr (byte :: more) =
      d.line :: scanLines cr lf [] afterCr more) :
    match d.toPendingEvent.processLine d.maxEventBytes d.line with
    | .error e => ∀ after, d.Lossless [byte] (after, .error e)
    | .ok (p, items) => d.Lossless [byte] (d.acceptLine p afterCr, .ok items) := by
  have hrun := remaining_line h hbom hdone byte afterCr hscan
  rcases hline : d.toPendingEvent.processLine d.maxEventBytes d.line with e | ⟨p, items⟩
  · intro after more
    have hmore := hrun more
    rw [hline] at hmore
    exact hmore
  · refine ⟨sound_acceptLine hbom p afterCr, fun more => ?_⟩
    have hmore := hrun more
    rw [hline] at hmore
    exact hmore

/-- The invariant while bytes are read: the mark is decided, the sentinel not seen. -/
structure Reading (d : SseDecoder) : Prop where
  sound : d.Sound
  decided : d.bomChecked = true
  unfinished : d.done = false

/-- A byte inside a line only extends the line, up to the limit. -/
theorem pushLineByte_plain {d : SseDecoder} (h : d.Reading) {byte : UInt8}
    (hplain : byte ≠ cr ∧ byte ≠ lf) :
    Text.Lossless Reading remaining d [byte] (d.pushLineByte byte) ∧
      Silent (d.pushLineByte byte) := by
  obtain ⟨-, hbom, hdone⟩ := h
  rw [pushLineByte, if_neg hplain.1, if_neg hplain.2]
  by_cases hlong : d.maxLineBytes.toNat ≤ d.line.length
  · simp only [if_pos hlong]
    exact ⟨remaining_oversized hbom hdone hplain hlong, by intro items hok; cases hok⟩
  · simp only [if_neg hlong]
    refine ⟨⟨⟨⟨?_, ?_, ?_, ?_⟩, hbom, hdone⟩, fun more => ?_⟩,
      fun _ hok => (Except.ok.inj hok).symm⟩
    · rw [List.length_append, List.length_singleton]
      change d.line.length + 1 ≤ d.maxLineBytes.toNat
      omega
    · intro hfalse
      cases hfalse
    · intro hfalse
      exact absurd hfalse (by simp [hdone])
    · intro hfalse
      exact absurd hfalse (by simp [hbom])
    · rw [List.singleton_append, remaining_of_bomChecked hbom, Outcome.after_nil, scanLines,
        if_neg hplain.2, if_neg hplain.1]
      exact (remaining_of_bomChecked
        (d := { d with afterCr := false, line := d.line ++ [byte] }) hbom more).symm

/-- One content byte is read without loss. -/
theorem pushLineByte_lossless {d : SseDecoder} (hreading : d.Reading) (byte : UInt8) :
    d.Lossless [byte] (d.pushLineByte byte) := by
  have ⟨h, hbom, hdone⟩ := hreading
  have hcrlf : cr ≠ lf := by decide
  have hdecided : ¬ d.bomChecked = false := by simp [hbom]
  by_cases hplain : byte ≠ cr ∧ byte ≠ lf
  · exact (pushLineByte_plain hreading hplain).1.mono fun _ hd => hd.sound
  rw [pushLineByte]
  by_cases hcr : byte = cr
  · have hanswers := lossless_line h hbom hdone byte true
      (by intro more; rw [scanLines, if_neg (hcr ▸ hcrlf), if_pos hcr])
    rw [if_pos hcr, terminateLine_eq]
    change d.Lossless [byte]
      (match d.toPendingEvent.processLine d.maxEventBytes d.line with
        | .error e => ({ d with afterCr := true, line := [] }, .error e)
        | .ok (p, items) => (d.acceptLine p true, .ok items))
    rcases hline : d.toPendingEvent.processLine d.maxEventBytes d.line with e | ⟨p, items⟩
    · rw [hline] at hanswers
      exact hanswers _
    · rw [hline] at hanswers
      exact hanswers
  · rw [if_neg hcr]
    by_cases hlf : byte = lf
    · rw [if_pos hlf]
      cases hafter : d.afterCr with
      | false =>
          have hanswers := lossless_line h hbom hdone byte false
            (by intro more; rw [scanLines, if_pos hlf, hafter]; rfl)
          rw [if_pos (by decide), terminateLine_eq]
          rcases hline : d.toPendingEvent.processLine d.maxEventBytes d.line with e | ⟨p, items⟩
          · rw [hline] at hanswers
            exact hanswers _
          · rw [hline] at hanswers
            exact hanswers
      | true =>
          rw [if_neg (by simp)]
          refine ⟨⟨h.line_le, (by intro hfalse; cases hfalse), h.line_of_done,
            fun hfalse => absurd hfalse hdecided⟩, fun more => ?_⟩
          rw [List.singleton_append, remaining_of_bomChecked hbom,
            remaining_of_bomChecked (d := { d with afterCr := false }) hbom, Outcome.after_nil,
            scanLines, if_pos hlf, hafter, if_pos rfl]
    · exact absurd ⟨hcr, hlf⟩ hplain

end Byte

section Feed

/-- Replaying bytes of one line. -/
theorem pushLineBytes_plain {d : SseDecoder} (h : d.Reading) {bytes : Bytes}
    (hplain : Plain cr lf bytes) :
    Text.Lossless Reading remaining d bytes (d.pushLineBytes bytes) ∧
      Silent (d.pushLineBytes bytes) := by
  have hall := lossless_feedAll (fun byte => [byte]) bytes
    (fun _ byte hbyte hd => pushLineByte_plain hd (hplain byte hbyte)) h
  rwa [List.flatMap_singleton'] at hall

theorem plain_utf8Bom_take (count : Nat) : Plain cr lf (utf8Bom.take count) := by
  have hall : ∀ b ∈ utf8Bom, b ≠ cr ∧ b ≠ lf := by simp [utf8Bom, cr, lf]
  exact fun b hb => hall b (List.mem_of_mem_take hb)

/-- The decoder that takes its undecided prefix for content. -/
theorem reading_replay {d : SseDecoder} (h : d.Sound) (hbom : d.bomChecked = false) :
    Reading { d with bomChecked := true } := by
  obtain ⟨-, -, hdone, -⟩ := h.undecided hbom
  exact ⟨⟨h.line_le, h.line_of_cr, h.line_of_done, by intro hfalse; cases hfalse⟩, rfl, hdone⟩

/-- Without a mark the prefix is content. -/
theorem remaining_replay {d : SseDecoder} (hbom : d.bomChecked = false) {more : Bytes}
    (hstrip : stripBom (utf8Bom.take d.bomLen ++ more) = utf8Bom.take d.bomLen ++ more) :
    d.remaining more =
      remaining { d with bomChecked := true } (utf8Bom.take d.bomLen ++ more) := by
  rw [remaining, if_neg (by simp [hbom]), hstrip]
  rfl

/-- A prefix of the mark that goes on differently is content. -/
theorem stripBom_mismatch {count : Nat} (hcount : count < utf8Bom.length) {byte : UInt8}
    (hbyte : utf8Bom[count]? ≠ some byte) (more : Bytes) :
    stripBom (utf8Bom.take count ++ byte :: more) = utf8Bom.take count ++ byte :: more := by
  rw [stripBom, if_neg]
  intro hprefix
  obtain ⟨tail, htail⟩ := List.isPrefixOf_iff_prefix.mp hprefix
  apply hbyte
  have hget : (utf8Bom ++ tail)[count]? = (utf8Bom.take count ++ byte :: more)[count]? :=
    congrArg (fun bytes => bytes[count]?) htail
  have hlen : (utf8Bom.take count).length = count := by
    rw [List.length_take]
    omega
  rw [List.getElem?_append_left hcount, List.getElem?_append_right (Nat.le_of_eq hlen), hlen,
    Nat.sub_self] at hget
  exact hget

theorem stripBom_short {input : Bytes} (h : input.length < utf8Bom.length) :
    stripBom input = input := by
  rw [stripBom, if_neg]
  intro hprefix
  have hle := (List.isPrefixOf_iff_prefix.mp hprefix).length_le
  change utf8Bom.length ≤ _ at hle
  omega

theorem stripBom_match (more : Bytes) : stripBom (utf8Bom ++ more) = more := by
  have hprefix : Sse.utf8Bom.isPrefixOf (utf8Bom ++ more) = true :=
    List.isPrefixOf_iff_prefix.mpr (List.prefix_append _ _)
  rw [stripBom, if_pos hprefix]
  exact List.drop_left

theorem feedByte_lossless {d : SseDecoder} (h : d.Sound) (hdone : d.done = false)
    (byte : UInt8) : d.Lossless [byte] (d.feedByte byte) := by
  rw [feedByte]
  cases hbom : d.bomChecked with
  | true => exact pushLineByte_lossless ⟨h, hbom, hdone⟩ byte
  | false =>
      obtain ⟨hline, hcr, -, hlen⟩ := h.undecided hbom
      have hundecided : ¬ d.bomChecked = true := by simp [hbom]
      rw [if_pos (by decide)]
      by_cases hbyte : utf8Bom[d.bomLen]? = some byte
      · have htake : utf8Bom.take (d.bomLen + 1) = utf8Bom.take d.bomLen ++ [byte] := by
          rw [List.take_add_one, hbyte]
          rfl
        rw [if_pos hbyte]
        by_cases hfull : d.bomLen + 1 = utf8Bom.length
        · simp only [if_pos hfull]
          refine ⟨⟨h.line_le, h.line_of_cr, h.line_of_done, by intro hfalse; cases hfalse⟩,
            fun more => ?_⟩
          rw [hfull, List.take_length] at htake
          rw [Outcome.after_nil, remaining, if_neg hundecided, ← List.append_assoc, ← htake,
            stripBom_match]
          rfl
        · simp only [if_neg hfull]
          refine ⟨⟨h.line_le, h.line_of_cr, h.line_of_done, fun _ => ⟨hline, hcr, hdone, ?_⟩⟩,
            fun more => ?_⟩
          · change d.bomLen + 1 < utf8Bom.length
            omega
          · rw [Outcome.after_nil, remaining, if_neg hundecided, ← List.append_assoc, ← htake,
              remaining, if_neg (by simp)]
      · rw [if_neg hbyte]
        obtain ⟨hreplay, hsilent⟩ := pushLineBytes_plain (reading_replay h hbom) (plain_utf8Bom_take d.bomLen)
        have hrun : ∀ more, d.remaining ([byte] ++ more) =
            remaining { d with bomChecked := true }
              (utf8Bom.take d.bomLen ++ [byte] ++ more) := by
          intro more
          rw [List.append_assoc]
          exact remaining_replay hbom (stripBom_mismatch hlen hbyte more)
        refine Text.Lossless.transfer ?_ hrun
        rcases hresult : pushLineBytes { d with bomChecked := true } (utf8Bom.take d.bomLen) with
          ⟨middle, e | items⟩
        · rw [hresult] at hreplay
          exact hreplay.error_append [byte]
        · rw [hresult] at hreplay hsilent
          obtain rfl : items = [] := hsilent items rfl
          exact hreplay.join (pushLineByte_lossless hreplay.1 byte)

theorem feed_answers (chunk : Bytes) {d : SseDecoder} (h : d.Sound) :
    d.Answers chunk (d.feed chunk) := by
  induction chunk generalizing d with
  | nil => exact answers_nil h
  | cons byte rest ih =>
      rw [feed]
      cases hdone : d.done with
      | true =>
          refine ⟨h, fun more => ?_⟩
          rw [remaining_of_done hdone, remaining_of_done hdone]
          rfl
      | false =>
          have hbyte := (feedByte_lossless h hdone byte).answers
          rw [if_neg (by simp), ← List.singleton_append]
          rcases hresult : d.feedByte byte with ⟨middle, e | items⟩
          · rw [hresult] at hbyte
            exact hbyte.error_append rest
          · rw [hresult] at hbyte
            exact hbyte.join (ih hbyte.1)

end Feed

section Finish

theorem dispatch_of_no_data {p : PendingEvent} (h : p.hasData = false) : p.dispatch.2 = [] := by
  unfold PendingEvent.dispatch
  split
  · rfl
  · simp [h]

/-- The items flushed at end of input are those of an unconditional dispatch. -/
theorem flushed_eq (d : SseDecoder) (last : List SseItem) :
    (if d.hasData then
        let (p, flushed) := d.toPendingEvent.dispatch
        (({ d with toPendingEvent := p } : SseDecoder), Except.ok (last ++ flushed))
      else (d, (.ok last : Except SseError (List SseItem)))).2 =
      .ok (last ++ d.toPendingEvent.dispatch.2) := by
  cases hdata : d.hasData with
  | true => rfl
  | false =>
      rw [dispatch_of_no_data hdata, List.append_nil]
      rfl

theorem remaining_eof {d : SseDecoder} (hbom : d.bomChecked = true) :
    d.remaining [] =
      runLines d.maxLineBytes d.maxEventBytes d.toPendingEvent
        (if d.line = [] then [] else [d.line]) := by
  rw [remaining_of_bomChecked hbom, scanLines]

theorem flush_spec {d : SseDecoder} (h : d.Sound) (hbom : d.bomChecked = true) :
    d.flush.2 = (d.remaining []).result := by
  rw [remaining_eof hbom, flush]
  by_cases hline : d.line = []
  · have hempty : d.line.isEmpty = true := by simpa using hline
    rw [if_pos hline]
    simp only [if_pos hempty]
    exact flushed_eq d []
  · have hdone : d.done = false := by
      cases hd : d.done with
      | true => exact absurd (h.line_of_done hd) hline
      | false => rfl
    have hstep : lineStep d.maxLineBytes d.maxEventBytes d.toPendingEvent d.line =
        d.toPendingEvent.processLine d.maxEventBytes d.line := by
      rw [lineStep, if_neg (by simp [hdone]), if_neg (Nat.not_lt.mpr h.line_le)]
    have hempty : ¬ d.line.isEmpty = true := by simpa using hline
    rw [if_neg hline]
    simp only [if_neg hempty, terminateLine_eq]
    rcases hprocess : d.toPendingEvent.processLine d.maxEventBytes d.line with e | ⟨p, items⟩
    · rw [runLines, runSteps_cons_error (hstep.trans hprocess)]
      rfl
    · rw [runLines, runSteps_cons_ok (hstep.trans hprocess), flushed_eq]
      rfl

/-- End of input gives the whole remaining outcome. -/
theorem finish_spec {d : SseDecoder} (h : d.Sound) : d.finish.2 = (d.remaining []).result := by
  rw [finish]
  cases hbom : d.bomChecked with
  | true =>
      have hflush := flush_spec h hbom
      rw [if_neg (by simp)]
      simp only
      rcases hresult : d.flush with ⟨after, e | items⟩
      · rw [hresult] at hflush
        exact hflush
      · rw [hresult] at hflush
        exact hflush
  | false =>
      obtain ⟨-, -, -, hlen⟩ := h.undecided hbom
      have hstrip : stripBom (utf8Bom.take d.bomLen ++ []) = utf8Bom.take d.bomLen ++ [] := by
        apply stripBom_short
        rw [List.append_nil, List.length_take]
        omega
      obtain ⟨hreplay, -⟩ :=
        pushLineBytes_plain (reading_replay h hbom) (plain_utf8Bom_take d.bomLen)
      rw [if_pos (by decide), remaining_replay hbom hstrip]
      rcases hresult : pushLineBytes { d with bomChecked := true } (utf8Bom.take d.bomLen) with
        ⟨middle, e | items⟩
      · rw [hresult] at hreplay
        rw [hreplay []]
        rfl
      · rw [hresult] at hreplay
        obtain ⟨hreading, hrun⟩ := hreplay
        have hflush := flush_spec hreading.sound hreading.decided
        rw [hrun, Outcome.result_after, ← hflush]
        simp only
        rcases middle.flush with ⟨after, e | later⟩ <;> rfl

/-- A whole run depends on the concatenation of its chunks only. -/
theorem decode_eq (chunks : List Bytes) {d : SseDecoder} (h : d.Sound) :
    d.decode chunks = (d.remaining chunks.flatten).result :=
  decodeAll_eq (fun _ chunk hd => feed_answers chunk hd) (fun _ hd => finish_spec hd) chunks h

end Finish

end SseDecoder

end OpenaiRs.Direct
