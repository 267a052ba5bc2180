import OpenaiRs.Sse.LineRun
import OpenaiRs.Sse.Stream

/-!
# Feeding no farther than one line

The stream decoder feeds its parser in segments that complete at most one line.
On such a segment a failing call loses no frame, and a successful call hands over
at most one. Both facts fail for arbitrary chunks, where a `Result` drops the
frames of the lines before a malformed one.
-/

namespace OpenaiRs.Sse

open Rust Text

/-- A buffer with at most one complete line, after which hardly anything is left. -/
def SingleLine (buffer : Bytes) : Prop :=
  ∀ line rest, splitLine cr lf false buffer = some (line, rest) →
    splitLine cr lf false rest = none ∧ rest.length ≤ 1

theorem singleLine_of_plain {buffer : Bytes} (h : Plain cr lf buffer) : SingleLine buffer := by
  intro line rest hsplit
  rw [splitLine_plain h] at hsplit
  cases hsplit

/-- Plain content followed by at most one more byte. -/
theorem singleLine_of_plain_append {content tail : Bytes} (h : Plain cr lf content)
    (htail : tail.length ≤ 1) : SingleLine (content ++ tail) := by
  intro line rest hsplit
  rw [splitLine_plain_append h] at hsplit
  obtain ⟨p, hp, heq⟩ := Option.map_eq_some_iff.mp hsplit
  obtain ⟨rfl, rfl⟩ := Prod.mk.inj heq
  have hlen := splitLine_length hp
  have hnil : p.2 = [] := List.length_eq_zero_iff.mp (by omega)
  rw [hnil]
  exact ⟨rfl, Nat.zero_le _⟩

/-- Plain content, an undecided CR, and the byte that decides it. -/
theorem singleLine_of_cr {content : Bytes} (h : Plain cr lf content) (b : UInt8) :
    SingleLine (content ++ [cr, b]) := by
  intro line rest hsplit
  rw [splitLine_plain_append h] at hsplit
  obtain ⟨p, hp, heq⟩ := Option.map_eq_some_iff.mp hsplit
  obtain ⟨rfl, rfl⟩ := Prod.mk.inj heq
  have hcrlf : cr ≠ lf := by decide
  have hp' : splitLine cr lf false [cr, b] = some ([], dropLf lf [b]) := by
    simp [splitLine, hcrlf]
  rw [hp'] at hp
  cases hp
  by_cases hb : b = lf
  · simp [dropLf, hb, splitLine]
  · by_cases hcr : b = cr <;> simp [dropLf, hb, hcr, splitLine, hcrlf]

theorem plain_utf8Bom : Plain cr lf utf8Bom := by
  have hall : ∀ b ∈ utf8Bom, b ≠ cr ∧ b ≠ lf := by simp [utf8Bom, cr, lf]
  exact hall

/-- Removing the mark does not add lines. -/
theorem singleLine_stripBom {buffer : Bytes} (h : SingleLine buffer) :
    SingleLine (stripBom buffer) := by
  unfold stripBom
  split
  · rename_i hbom
    obtain ⟨rest, rfl⟩ := List.isPrefixOf_iff_prefix.mp hbom
    rw [List.drop_left]
    intro line tail hsplit
    apply h (utf8Bom ++ line) tail
    rw [splitLine_plain_append plain_utf8Bom, hsplit]
    rfl
  · exact h

theorem plain_stripBom {buffer : Bytes} (h : Plain cr lf buffer) :
    Plain cr lf (stripBom buffer) := by
  unfold stripBom
  split
  · intro b hb
    exact h b (List.mem_of_mem_drop hb)
  · exact h

/-- One line gives at most one frame. -/
theorem processLine_length {limits : SseLimits} {r r' : EventRegisters} {line : Bytes}
    {frames : List SseFrame} (h : r.processLine limits line = .ok (r', frames)) :
    frames.length ≤ 1 := by
  have hopt : ∀ frame : Option SseFrame, frame.toList.length ≤ 1 := by
    intro frame
    cases frame <;> simp
  unfold EventRegisters.processLine at h
  repeat' split at h
  all_goals cases h
  all_goals first
    | exact hopt _
    | exact Nat.zero_le _

namespace SseDecoder

/-- The decision about the mark leaves the stripped buffer. -/
theorem lineBuffer_of_ensureBomChecked {d decided : SseDecoder} {eof : Bool}
    (h : d.ensureBomChecked eof = (decided, true)) :
    decided.lineBuffer = if d.bomChecked then d.lineBuffer else stripBom d.lineBuffer := by
  unfold ensureBomChecked at h
  split at h
  · rename_i hb
    cases h
    rw [if_pos hb]
  · rename_i hb
    split at h
    · cases h
    · cases h
      rw [if_neg hb]
      unfold stripBom
      split <;> rfl

/-- With at most one complete line, draining either fails on the first line, or
completes none, or completes one and leaves at most one byte. -/
theorem drainLoop_singleLine {d : SseDecoder} (hscan : d.Scannable)
    (h : SingleLine d.lineBuffer) :
    match drainLoop false (d.lineBuffer.length + 1) d with
    | (after, .ok frames) =>
        frames.length ≤ 1 ∧ ((frames = [] ∧ after.lineBuffer = d.lineBuffer) ∨
          after.lineBuffer.length ≤ 1)
    | (_, .error e) => ∀ more, d.runBuffer more = ([], some e) := by
  cases hsplit : splitLine cr lf false d.lineBuffer with
  | none =>
      obtain ⟨position, hloop, -⟩ := drainLoop_none hscan d.lineBuffer.length hsplit
      rw [hloop]
      exact ⟨Nat.zero_le _, Or.inl ⟨rfl, rfl⟩⟩
  | some p =>
      obtain ⟨line, rest⟩ := p
      obtain ⟨hrest, hshort⟩ := h line rest hsplit
      have hlen := splitLine_length hsplit
      obtain ⟨fuel, hfuel⟩ : ∃ fuel, d.lineBuffer.length = fuel + 1 :=
        ⟨d.lineBuffer.length - 1, by omega⟩
      rw [hfuel, drainLoop_some hscan (fuel + 1) hsplit]
      rcases hline : d.toEventRegisters.processLine d.limits line with e | ⟨r, frames⟩
      · intro more
        rw [runBuffer, lines_of_splitLine hsplit]
        exact runLines_cons_error hline _
      · obtain ⟨position, hloop, -⟩ := drainLoop_none
          (d := { d.consumeLine rest with toEventRegisters := r })
          (scannable_consumeLine d rest) fuel hrest
        simp only [hloop, List.append_nil]
        exact ⟨processLine_length hline, Or.inr hshort⟩

theorem drainCompleteLines_singleLine {d : SseDecoder} (hscan : d.Scannable)
    (hstart : d.bomChecked = false → d.searchFrom = 0) (h : SingleLine d.lineBuffer) :
    match d.drainCompleteLines false with
    | (after, .ok frames) =>
        frames.length ≤ 1 ∧ (frames = [] ∨ after.lineBuffer.length ≤ 1) ∧
          (Plain cr lf d.lineBuffer → frames = [] ∧ Plain cr lf after.lineBuffer)
    | (_, .error e) => ∀ more, d.remaining more = ([], some e) := by
  have hbom := ensureBomChecked_spec d false hscan hstart
  rw [drainCompleteLines]
  rcases hcheck : d.ensureBomChecked false with ⟨decided, _ | _⟩
  · rw [hcheck] at hbom
    obtain ⟨rfl, -, -⟩ := hbom
    exact ⟨Nat.zero_le _, Or.inl rfl, fun hplain => ⟨rfl, hplain⟩⟩
  · rw [hcheck] at hbom
    obtain ⟨hdecided, -, -, hscan', hrun⟩ := hbom
    have hbuffer := lineBuffer_of_ensureBomChecked hcheck
    have hsingle : SingleLine decided.lineBuffer := by
      rw [hbuffer]
      split
      · exact h
      · exact singleLine_stripBom h
    have hloop := drainLoop_singleLine hscan' hsingle
    simp only
    rcases hresult : drainLoop false (decided.lineBuffer.length + 1) decided with
      ⟨after, e | frames⟩
    · rw [hresult] at hloop
      intro more
      rw [hrun more (by simp), remaining_of_bomChecked hdecided]
      exact hloop more
    · rw [hresult] at hloop
      obtain ⟨hlen, hcases⟩ := hloop
      refine ⟨hlen, hcases.imp (fun hc => hc.1) id, ?_⟩
      intro hplain
      have hplain' : Plain cr lf decided.lineBuffer := by
        rw [hbuffer]
        split
        · exact hplain
        · exact plain_stripBom hplain
      obtain ⟨position, hnone, -⟩ := drainLoop_none hscan' decided.lineBuffer.length
        (splitLine_plain hplain' false)
      rw [hnone] at hresult
      cases hresult
      exact ⟨rfl, hplain'⟩

/-- A buffer of at most one byte never exceeds the line limit. -/
theorem checkIncompleteLineLimit_short {d : SseDecoder} (h : d.lineBuffer.length ≤ 1) :
    d.checkIncompleteLineLimit = .ok () := by
  have hpos := d.limits.line_pos
  have hlen : d.contentLen ≤ 1 := by
    unfold contentLen
    split <;> omega
  unfold checkIncompleteLineLimit
  split
  · rfl
  · rw [if_neg]
    omega

/-- A slice that completes at most one line: a failure loses no frame. -/
theorem feedSlice_singleLine {d : SseDecoder} (h : d.Ready) (slice : Bytes)
    (hsingle : SingleLine (d.lineBuffer ++ slice)) :
    match d.feedSlice slice with
    | (after, .ok frames) =>
        frames.length ≤ 1 ∧
          (Plain cr lf (d.lineBuffer ++ slice) → frames = [] ∧ Plain cr lf after.lineBuffer)
    | (_, .error e) => ∀ more, d.remaining (slice ++ more) = ([], some e) := by
  have hscan := scannable_extend h.settled.scannable slice
  have hdrain := drainCompleteLines_singleLine hscan h.cursor hsingle
  have hspec := drainCompleteLines_spec { d with lineBuffer := d.lineBuffer ++ slice } false
    hscan h.cursor
  rw [feedSlice]
  rcases hresult : drainCompleteLines { d with lineBuffer := d.lineBuffer ++ slice } false with
    ⟨after, e | frames⟩
  · rw [hresult] at hdrain
    intro more
    rw [← remaining_extend]
    exact hdrain more
  · rw [hresult] at hdrain hspec
    obtain ⟨hlen, hcases, hplain⟩ := hdrain
    obtain ⟨-, -, hsettled, hrun⟩ := hspec
    simp only
    rcases hlimit : after.checkIncompleteLineLimit with e | _
    · intro more
      obtain rfl | hshort := hcases
      · rw [← remaining_extend, hrun more (by simp), Outcome.after_nil]
        exact checkIncompleteLineLimit_error hsettled hlimit more
      · rw [checkIncompleteLineLimit_short hshort] at hlimit
        cases hlimit
    · exact ⟨hlen, hplain⟩

/-- A last byte is not in a slice that others follow. -/
theorem content_of_earlier_slice {slice content tail : Bytes} {rest : List Bytes}
    (hrest : rest ≠ []) (hne : ∀ piece ∈ rest, piece ≠ [])
    (hflat : slice ++ rest.flatten = content ++ tail) (htail : tail.length ≤ 1) :
    ∃ content', content = slice ++ content' ∧ rest.flatten = content' ++ tail := by
  have hlen : 1 ≤ rest.flatten.length := by
    obtain ⟨first, others, rfl⟩ := List.exists_cons_of_ne_nil hrest
    have hfirst := List.length_pos_iff.mpr (hne first (by simp))
    rw [List.flatten_cons, List.length_append]
    omega
  obtain ⟨content', hc, hr⟩ | ⟨extra, hs, ht⟩ := List.append_eq_append_iff.mp hflat
  · exact ⟨content', hc, hr⟩
  · have hnil : extra = [] := by
      have hsum := congrArg List.length ht
      rw [List.length_append] at hsum
      exact List.length_eq_zero_iff.mp (by omega)
    subst hnil
    exact ⟨[], by simpa using hs.symm, by simpa using ht.symm⟩

/-- The slices of one segment: plain content, then at most one more byte. -/
theorem feedSlices_singleLine (slices : List Bytes) {d : SseDecoder} (h : d.Ready)
    (hne : ∀ slice ∈ slices, slice ≠ []) {content tail : Bytes}
    (hflat : slices.flatten = content ++ tail) (hcontent : Plain cr lf (d.lineBuffer ++ content))
    (htail : tail.length ≤ 1) :
    match d.feedSlices slices with
    | (_, .ok frames) => frames.length ≤ 1 ∧ (tail = [] → frames = [])
    | (_, .error e) => ∀ more, d.remaining (slices.flatten ++ more) = ([], some e) := by
  induction slices generalizing d content with
  | nil => exact ⟨Nat.zero_le _, fun _ => rfl⟩
  | cons slice rest ih =>
      obtain ⟨hbuffer, hplain⟩ := plain_append.mp hcontent
      rw [feedSlices_cons]
      rw [List.flatten_cons] at hflat
      by_cases hrest : rest = []
      · subst hrest
        rw [List.flatten_nil, List.append_nil] at hflat
        have hsingle : SingleLine (d.lineBuffer ++ slice) := by
          rw [hflat, ← List.append_assoc]
          exact singleLine_of_plain_append hcontent htail
        have hslice := feedSlice_singleLine h slice hsingle
        rcases hfeed : d.feedSlice slice with ⟨after, e | frames⟩
        · rw [hfeed] at hslice
          simpa using hslice
        · rw [hfeed] at hslice
          change (frames ++ []).length ≤ 1 ∧ (tail = [] → frames ++ [] = [])
          rw [List.append_nil]
          refine ⟨hslice.1, fun hnil => (hslice.2 ?_).1⟩
          rw [hflat, hnil, List.append_nil]
          exact hcontent
      · -- The terminator, if any, is in a later slice: this one is plain content.
        obtain ⟨content', rfl, hflat'⟩ := content_of_earlier_slice hrest
          (fun piece hp => hne piece (List.mem_cons_of_mem _ hp)) hflat htail
        obtain ⟨hslicePlain, hplain'⟩ := plain_append.mp hplain
        have hwhole : Plain cr lf (d.lineBuffer ++ slice) := plain_append.mpr ⟨hbuffer, hslicePlain⟩
        have hslice := feedSlice_singleLine h slice (singleLine_of_plain hwhole)
        have hanswers := feedSlice_answers h slice
        rw [List.flatten_cons]
        rcases hfeed : d.feedSlice slice with ⟨after, e | frames⟩
        · rw [hfeed] at hslice
          intro more
          rw [List.append_assoc]
          exact hslice (rest.flatten ++ more)
        · rw [hfeed] at hslice hanswers
          obtain ⟨rfl, hafter⟩ := hslice.2 hwhole
          obtain ⟨hready, hrun⟩ := hanswers
          have hlater := ih hready (fun piece hp => hne piece (List.mem_cons_of_mem _ hp)) hflat'
            (plain_append.mpr ⟨hafter, hplain'⟩)
          simp only
          rcases hfeeds : after.feedSlices rest with ⟨last, e | frames⟩
          · rw [hfeeds] at hlater
            intro more
            rw [List.append_assoc, hrun, Outcome.after_nil]
            exact hlater more
          · rw [hfeeds] at hlater
            exact hlater

/-- Between calls the buffer is plain content, possibly with one undecided CR. -/
theorem Ready.buffer {d : SseDecoder} (h : d.Ready) :
    Plain cr lf d.lineBuffer ∨
      ∃ content, Plain cr lf content ∧ d.lineBuffer = content ++ [cr] := by
  cases hb : d.bomChecked with
  | true => exact plain_of_splitLine_none (h.settled.noLine hb)
  | false =>
      obtain ⟨-, ⟨rest, hprefix⟩, -, -⟩ := h.settled.undecided hb
      have hbom := plain_utf8Bom
      rw [← hprefix] at hbom
      exact Or.inl (plain_append.mp hbom).1

/-- A push of plain content followed by at most one byte onto plain content. -/
theorem push_of_plain {d : SseDecoder} (h : d.Ready) {content tail : Bytes}
    (hcontent : Plain cr lf (d.lineBuffer ++ content)) (htail : tail.length ≤ 1) :
    match d.push (content ++ tail) with
    | (_, .ok frames) => frames.length ≤ 1 ∧ (tail = [] → frames = [])
    | (_, .error e) => ∀ more, d.remaining (content ++ tail ++ more) = ([], some e) := by
  have hsize : 0 < feedSliceBytes := by decide
  have hflat := chunks_flatten hsize (content ++ tail)
  have hslices := feedSlices_singleLine (chunks feedSliceBytes (content ++ tail)) h
    (chunks_ne_nil hsize _) hflat hcontent htail
  rw [hflat] at hslices
  rw [push_eq h.active, pushInner]
  rcases hfeed : d.feedSlices (chunks feedSliceBytes (content ++ tail)) with ⟨after, e | frames⟩
  · rw [hfeed] at hslices
    exact hslices
  · rw [hfeed] at hslices
    exact hslices

/-- A push of the single byte that decides a pending CR. -/
theorem push_of_cr {d : SseDecoder} (h : d.Ready) {content : Bytes}
    (hcontent : Plain cr lf content) (hbuffer : d.lineBuffer = content ++ [cr]) (b : UInt8) :
    match d.push [b] with
    | (_, .ok frames) => frames.length ≤ 1
    | (_, .error e) => ∀ more, d.remaining ([b] ++ more) = ([], some e) := by
  have hsingle : SingleLine (d.lineBuffer ++ [b]) := by
    rw [hbuffer, List.append_assoc]
    exact singleLine_of_cr hcontent b
  have hslice := feedSlice_singleLine h [b] hsingle
  have hone : chunks feedSliceBytes [b] = [[b]] := rfl
  rw [push_eq h.active, pushInner, hone]
  simp only [feedSlices_cons]
  rcases hfeed : d.feedSlice [b] with ⟨after, e | frames⟩
  · rw [hfeed] at hslice
    exact hslice
  · rw [hfeed] at hslice
    change (frames ++ []).length ≤ 1
    rw [List.append_nil]
    exact hslice.1

end SseDecoder

section Cut

/-- Where the next terminator is: the bytes up to it are plain. -/
theorem take_findIdx {rest : Bytes} {relative : Nat}
    (h : rest.findIdx? (fun b => b = cr || b = lf) = some relative) :
    relative < rest.length ∧ Plain cr lf (rest.take relative) := by
  induction rest generalizing relative with
  | nil => simp at h
  | cons b rest ih =>
      rw [List.findIdx?_cons] at h
      by_cases hb : (b = cr || b = lf) = true
      · rw [if_pos hb] at h
        cases h
        exact ⟨by simp, plain_nil⟩
      · rw [if_neg hb] at h
        obtain ⟨k, hk, rfl⟩ := Option.map_eq_some_iff.mp h
        obtain ⟨hlt, hplain⟩ := ih hk
        refine ⟨by simpa using hlt, ?_⟩
        rw [List.take_succ_cons]
        refine plain_cons.mpr ⟨?_, hplain⟩
        simpa using hb

theorem plain_of_findIdx_none {rest : Bytes}
    (h : rest.findIdx? (fun b => b = cr || b = lf) = none) : Plain cr lf rest := by
  intro b hb
  have := List.findIdx?_eq_none_iff.mp h b hb
  simpa using this

/-- After plain content a cut is plain content with at most the terminator behind it. -/
theorem take_nextCut {lineBuffer : Bytes} (h : Plain cr lf lineBuffer) (rest : Bytes) :
    ∃ content tail, rest.take (SseStreamDecoder.nextCut lineBuffer rest) = content ++ tail ∧
      Plain cr lf content ∧ tail.length ≤ 1 ∧
      (tail = [] → SseStreamDecoder.nextCut lineBuffer rest = rest.length ∧ Plain cr lf rest) := by
  have hlast : lineBuffer.getLast? ≠ some cr := by
    intro hcr
    exact (h cr (List.mem_of_getLast? hcr)).1 rfl
  rw [SseStreamDecoder.nextCut, if_neg hlast]
  cases hfind : rest.findIdx? (fun b => b = cr || b = lf) with
  | none =>
      have hplain := plain_of_findIdx_none hfind
      exact ⟨rest, [], by simp, hplain, Nat.zero_le _, fun _ => ⟨rfl, hplain⟩⟩
  | some relative =>
      obtain ⟨hlt, hplain⟩ := take_findIdx hfind
      refine ⟨rest.take relative, [rest[relative]], ?_, hplain, Nat.le_refl _, by simp⟩
      exact (List.take_append_getElem hlt).symm

theorem nextCut_of_cr {content : Bytes} (rest : Bytes) :
    SseStreamDecoder.nextCut (content ++ [cr]) rest = 1 := by
  rw [SseStreamDecoder.nextCut, if_pos]
  simp

theorem nextCut_pos (lineBuffer : Bytes) (b : UInt8) (rest : Bytes) :
    0 < SseStreamDecoder.nextCut lineBuffer (b :: rest) := by
  unfold SseStreamDecoder.nextCut
  split
  · exact Nat.one_pos
  · split <;> simp

end Cut

namespace SseDecoder

/-- Pushing the next segment of a chunk: at most one frame, and none lost on failure. -/
theorem push_segment {d : SseDecoder} (h : d.Ready) (b : UInt8) (rest : Bytes) :
    match d.push ((b :: rest).take (SseStreamDecoder.nextCut d.lineBuffer (b :: rest))) with
    | (_, .ok frames) => frames.length ≤ 1
    | (_, .error e) => ∀ more,
        d.remaining ((b :: rest).take (SseStreamDecoder.nextCut d.lineBuffer (b :: rest)) ++ more) =
          ([], some e) := by
  obtain hplain | ⟨content, hcontent, hbuffer⟩ := h.buffer
  · obtain ⟨content, tail, htake, hcontent, htail, -⟩ := take_nextCut hplain (b :: rest)
    have hpush := push_of_plain h (plain_append.mpr ⟨hplain, hcontent⟩) htail
    rw [htake]
    rcases hresult : d.push (content ++ tail) with ⟨after, e | frames⟩
    · rw [hresult] at hpush
      exact hpush
    · rw [hresult] at hpush
      exact hpush.1
  · have hcut : SseStreamDecoder.nextCut d.lineBuffer (b :: rest) = 1 := by
      rw [hbuffer, nextCut_of_cr]
    rw [hcut, List.take_succ_cons, List.take_zero]
    exact push_of_cr h hcontent hbuffer b

end SseDecoder

section Eof

/-- What is left between calls is at most one line. -/
theorem lines_buffer_length {buffer : Bytes}
    (h : Plain cr lf buffer ∨ ∃ content, Plain cr lf content ∧ buffer = content ++ [cr]) :
    (lines cr lf [] buffer).length ≤ 1 := by
  obtain hplain | ⟨content, hplain, rfl⟩ := h
  · rw [lines_plain hplain]
    split <;> simp
  · have hcrlf : cr ≠ lf := by decide
    rw [lines_plain_append hplain, lines_cons, if_neg hcrlf, if_pos rfl]
    simp [dropLf, lines_nil]

/-- A line that gives a frame leaves nothing to flush. -/
theorem processLine_flush {limits : SseLimits} {r r' : EventRegisters} {line : Bytes}
    {frames : List SseFrame} (h : r.processLine limits line = .ok (r', frames)) :
    frames = [] ∨ r'.dataLines = 0 := by
  unfold EventRegisters.processLine at h
  repeat' split at h
  all_goals cases h
  all_goals try exact Or.inl rfl
  rename_i frame heq
  unfold EventRegisters.takeEvent at heq
  split at heq
  · cases heq
    exact Or.inl rfl
  · cases heq
    exact Or.inr rfl

theorem takeEvent_of_dataLines {r : EventRegisters} (h : r.dataLines = 0) :
    r.takeEvent.2 = none := by
  rw [EventRegisters.takeEvent, if_pos h]

/-- At most one line before end of input: at most one frame, and none with an error. -/
theorem runLines_single {ls : List Bytes} (h : ls.length ≤ 1) (limits : SseLimits)
    (r : EventRegisters) :
    (runLines limits r ls).1.length ≤ 1 ∧
      ∀ e, (runLines limits r ls).2 = some e → (runLines limits r ls).1 = [] := by
  have hopt : ∀ frame : Option SseFrame, frame.toList.length ≤ 1 := by
    intro frame
    cases frame <;> simp
  cases ls with
  | nil => exact ⟨hopt _, by intro e he; cases he⟩
  | cons line rest =>
      have hrest : rest = [] := by
        rw [List.length_cons] at h
        exact List.length_eq_zero_iff.mp (by omega)
      subst hrest
      rcases hline : r.processLine limits line with e | ⟨r', frames⟩
      · rw [runLines_cons_error hline]
        exact ⟨Nat.zero_le _, fun _ _ => rfl⟩
      · rw [runLines_cons_ok hline]
        refine ⟨?_, by intro e he; cases he⟩
        change (frames ++ r'.takeEvent.2.toList).length ≤ 1
        obtain rfl | hflush := processLine_flush hline
        · exact hopt _
        · rw [takeEvent_of_dataLines hflush, Option.toList_none, List.append_nil]
          exact processLine_length hline

/-- End of input between calls gives at most one frame, and loses none on failure. -/
theorem SseDecoder.remaining_eof {d : SseDecoder} (h : d.Ready) :
    (d.remaining []).1.length ≤ 1 ∧ ∀ e, (d.remaining []).2 = some e → (d.remaining []).1 = [] := by
  apply runLines_single
  rw [List.append_nil]
  split
  · exact lines_buffer_length h.buffer
  · rename_i hbom
    obtain ⟨-, -, hlen, -⟩ := h.settled.undecided (by simpa using hbom)
    have hstrip : stripBom d.lineBuffer = d.lineBuffer := by
      rw [stripBom, if_neg]
      intro hprefix
      have := (List.isPrefixOf_iff_prefix.mp hprefix).length_le
      omega
    rw [hstrip]
    exact lines_buffer_length h.buffer

end Eof

end OpenaiRs.Sse
