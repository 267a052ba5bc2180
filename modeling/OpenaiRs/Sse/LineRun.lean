import OpenaiRs.Sse.Decoder
import OpenaiRs.Text.Lines
import OpenaiRs.Text.Outcome

/-!
# What the decoder still has to say about its input

`remaining d more` is the outcome of an active decoder `d` on the rest of the
stream: the frames it will give and the error that stops it, read off the lines
of its buffer followed by `more`. Every operation is shown to keep this outcome,
apart from the frames it hands out. Chunk boundaries do not occur in `remaining`,
so results about whole runs follow by induction on the list of chunks.

## Implementation notes

The invariant `Ready` holds between calls. While lines are being drained only
`Scannable` holds, namely that the scan cursor has not passed a terminator.
-/

namespace OpenaiRs.Sse

open Rust Text

/-- The input after one leading byte order mark. -/
def stripBom (input : Bytes) : Bytes :=
  if utf8Bom.isPrefixOf input then input.drop utf8Bom.length else input

/-- Frames and final error of a run. -/
abbrev LineOutcome := Outcome SseFrame SseDecodeError

/-- Process whole lines in order and flush the pending event at the end. -/
def runLines (limits : SseLimits) (r : EventRegisters) (input : List Bytes) : LineOutcome :=
  runSteps (EventRegisters.processLine limits) (fun r => r.takeEvent.2.toList) r input

theorem runLines_nil (limits : SseLimits) (r : EventRegisters) :
    runLines limits r [] = (r.takeEvent.2.toList, none) := rfl

theorem runLines_cons_error {limits : SseLimits} {r : EventRegisters} {line : Bytes}
    {e : SseDecodeError} (h : r.processLine limits line = .error e) (rest : List Bytes) :
    runLines limits r (line :: rest) = ([], some e) :=
  runSteps_cons_error h rest

theorem runLines_cons_ok {limits : SseLimits} {r r' : EventRegisters} {line : Bytes}
    {frames : List SseFrame} (h : r.processLine limits line = .ok (r', frames))
    (rest : List Bytes) :
    runLines limits r (line :: rest) = Outcome.after frames (runLines limits r' rest) :=
  runSteps_cons_ok h rest

/-- An oversized line is rejected before anything else is looked at. -/
theorem processLine_oversized {limits : SseLimits} (r : EventRegisters) {line : Bytes}
    (h : limits.maxLineBytes.toNat < line.length) :
    r.processLine limits line = .error (.lineTooLarge limits.maxLineBytes) := by
  rw [EventRegisters.processLine, if_pos h]

namespace SseDecoder

/-- The outcome on the buffer followed by `more`, the BOM being decided. -/
def runBuffer (d : SseDecoder) (more : Bytes) : LineOutcome :=
  runLines d.limits d.toEventRegisters (lines cr lf [] (d.lineBuffer ++ more))

/-- The outcome of the decoder on everything it has not processed yet. -/
def remaining (d : SseDecoder) (more : Bytes) : LineOutcome :=
  runLines d.limits d.toEventRegisters
    (lines cr lf []
      (if d.bomChecked then d.lineBuffer ++ more else stripBom (d.lineBuffer ++ more)))

/-- The cursor is inside the buffer and no terminator stands before it. -/
def Scannable (d : SseDecoder) : Prop :=
  d.searchFrom ≤ d.lineBuffer.length ∧ Plain cr lf (d.lineBuffer.take d.searchFrom)

/-- No complete line is left in the buffer. Before the BOM decision the buffer
is a strict prefix of the mark, and at end of input the decision is made. -/
structure Settled (eof : Bool) (d : SseDecoder) : Prop where
  scannable : d.Scannable
  noLine : d.bomChecked = true → splitLine cr lf eof d.lineBuffer = none
  undecided : d.bomChecked = false →
    eof = false ∧ d.lineBuffer <+: utf8Bom ∧ d.lineBuffer.length < utf8Bom.length ∧
      d.searchFrom = 0

/-- The invariant of an active decoder between calls. -/
structure Ready (d : SseDecoder) : Prop where
  active : d.state = .active
  settled : d.Settled false

theorem Ready.cursor {d : SseDecoder} (h : d.Ready) (hb : d.bomChecked = false) :
    d.searchFrom = 0 := (h.settled.undecided hb).2.2.2

theorem ready_new (limits : SseLimits) : (new limits).Ready where
  active := rfl
  settled :=
    { scannable := ⟨Nat.le_refl _, plain_nil⟩
      noLine := by intro h; cases h
      undecided := by intro _; exact ⟨rfl, List.nil_prefix, Nat.zero_lt_succ _, rfl⟩ }

theorem remaining_of_bomChecked {d : SseDecoder} (h : d.bomChecked = true) (more : Bytes) :
    d.remaining more = d.runBuffer more := by
  simp only [remaining, runBuffer, h, if_true]

theorem remaining_new (limits : SseLimits) (input : Bytes) :
    (new limits).remaining input =
      runLines limits EventRegisters.empty (lines cr lf [] (stripBom input)) := rfl

section Scan

theorem scanFrom_cons (eof : Bool) (cursor : Nat) (b : UInt8) (rest : Bytes) :
    scanFrom eof cursor (b :: rest) =
      if b = lf then .inr (cursor, 1)
      else if b = cr then
        if rest = [] && !eof then .inl cursor
        else .inr (cursor, if rest.head? = some lf then 2 else 1)
      else scanFrom eof (cursor + 1) rest := by
  cases rest with
  | nil => cases eof <;> simp [scanFrom]
  | cons next tail => simp [scanFrom]

/-- The cursor scan finds exactly the line that `splitLine` takes off. -/
theorem scanFrom_of_some {eof : Bool} {bytes line rest : Bytes} (cursor : Nat)
    (h : splitLine cr lf eof bytes = some (line, rest)) :
    ∃ terminatorLen, scanFrom eof cursor bytes = .inr (cursor + line.length, terminatorLen) ∧
      bytes.take line.length = line ∧ bytes.drop (line.length + terminatorLen) = rest := by
  induction bytes generalizing cursor line with
  | nil => simp [splitLine] at h
  | cons b bytes ih =>
      rw [splitLine] at h
      rw [scanFrom_cons]
      split at h
      · rename_i hlf
        obtain ⟨rfl, rfl⟩ := Prod.mk.inj (Option.some.inj h)
        exact ⟨1, by simp [hlf], rfl, rfl⟩
      · rename_i hlf
        split at h
        · rename_i hcr
          split at h
          · cases h
          · rename_i hopen
            obtain ⟨rfl, rfl⟩ := Prod.mk.inj (Option.some.inj h)
            cases bytes with
            | nil =>
                have heof : eof = true := by simpa using hopen
                exact ⟨1, by rw [if_neg hlf, if_pos hcr]; simp [heof], rfl, rfl⟩
            | cons next tail =>
                by_cases hnext : next = lf
                · exact ⟨2, by rw [if_neg hlf, if_pos hcr]; simp [hnext], rfl, by simp [dropLf, hnext]⟩
                · exact ⟨1, by rw [if_neg hlf, if_pos hcr]; simp [hnext], rfl, by simp [dropLf, hnext]⟩
        · rename_i hcr
          obtain ⟨p, hp, heq⟩ := Option.map_eq_some_iff.mp h
          obtain ⟨rfl, rfl⟩ := Prod.mk.inj heq
          obtain ⟨terminatorLen, hscan, htake, hdrop⟩ := ih (cursor + 1) hp
          refine ⟨terminatorLen, ?_, ?_, ?_⟩
          · rw [if_neg hlf, if_neg hcr, hscan, List.length_cons]
            congr 2
            omega
          · rw [List.length_cons, List.take_succ_cons, htake]
          · rw [List.length_cons, Nat.add_right_comm, List.drop_succ_cons, hdrop]

/-- A scan without result stops at a position before which there is no terminator. -/
theorem scanFrom_of_none {eof : Bool} {bytes : Bytes} (cursor : Nat)
    (h : splitLine cr lf eof bytes = none) :
    ∃ scanned, scanFrom eof cursor bytes = .inl (cursor + scanned) ∧
      scanned ≤ bytes.length ∧ Plain cr lf (bytes.take scanned) := by
  induction bytes generalizing cursor with
  | nil => exact ⟨0, rfl, Nat.le_refl _, plain_nil⟩
  | cons b bytes ih =>
      rw [splitLine] at h
      rw [scanFrom_cons]
      split at h
      · cases h
      · rename_i hlf
        split at h
        · rename_i hcr
          split at h
          · rename_i hrest
            obtain ⟨rfl, rfl⟩ : bytes = [] ∧ eof = false := by simpa using hrest
            exact ⟨0, by rw [if_neg hlf, if_pos hcr]; simp, Nat.zero_le _, plain_nil⟩
          · cases h
        · rename_i hcr
          obtain ⟨scanned, hscan, hlen, hplain⟩ :=
            ih (cursor + 1) (Option.map_eq_none_iff.mp h)
          refine ⟨scanned + 1, ?_, Nat.succ_le_succ hlen, ?_⟩
          · rw [if_neg hlf, if_neg hcr, hscan]
            congr 1
            omega
          · rw [List.take_succ_cons]
            exact plain_cons.mpr ⟨⟨hcr, hlf⟩, hplain⟩

variable {d : SseDecoder}

/-- Resuming at the cursor splits the buffer as a scan from its start would. -/
theorem splitLine_resume (h : d.Scannable) (eof : Bool) :
    splitLine cr lf eof d.lineBuffer =
      (splitLine cr lf eof (d.lineBuffer.drop d.searchFrom)).map
        fun p => (d.lineBuffer.take d.searchFrom ++ p.1, p.2) := by
  have hsplit := splitLine_plain_append h.2 eof (d.lineBuffer.drop d.searchFrom)
  rwa [List.take_append_drop] at hsplit

/-- The start of the scan is the cursor itself. -/
theorem nextLine_eq (h : d.Scannable) (eof : Bool) :
    d.nextLine eof =
      match scanFrom eof d.searchFrom (d.lineBuffer.drop d.searchFrom) with
      | .inl position => ({ d with searchFrom := position }, none)
      | .inr found => (d, some found) := by
  rcases hscan : scanFrom eof d.searchFrom (d.lineBuffer.drop d.searchFrom) with position | found <;>
    simp only [nextLine, Nat.min_eq_left h.1, hscan]

/-- A successful `next_line` cuts the buffer where `splitLine` does. -/
theorem nextLine_of_some (h : d.Scannable) {eof : Bool} {line rest : Bytes}
    (hsplit : splitLine cr lf eof d.lineBuffer = some (line, rest)) :
    ∃ lineEnd terminatorLen, d.nextLine eof = (d, some (lineEnd, terminatorLen)) ∧
      d.lineBuffer.take lineEnd = line ∧
      d.lineBuffer.drop (lineEnd + terminatorLen) = rest := by
  rw [splitLine_resume h] at hsplit
  obtain ⟨p, hp, heq⟩ := Option.map_eq_some_iff.mp hsplit
  obtain ⟨rfl, rfl⟩ := Prod.mk.inj heq
  obtain ⟨terminatorLen, hscan, htake, hdrop⟩ :=
    scanFrom_of_some d.searchFrom hp
  refine ⟨d.searchFrom + p.1.length, terminatorLen, by rw [nextLine_eq h, hscan], ?_, ?_⟩
  · rw [List.take_add, htake]
  · rw [Nat.add_assoc, ← List.drop_drop, hdrop]

/-- An unsuccessful `next_line` only moves the cursor, and not past a terminator. -/
theorem nextLine_of_none (h : d.Scannable) {eof : Bool}
    (hsplit : splitLine cr lf eof d.lineBuffer = none) :
    ∃ position, d.nextLine eof = ({ d with searchFrom := position }, none) ∧
      Scannable { d with searchFrom := position } := by
  rw [splitLine_resume h] at hsplit
  obtain ⟨scanned, hscan, hlen, hplain⟩ :=
    scanFrom_of_none d.searchFrom (Option.map_eq_none_iff.mp hsplit)
  refine ⟨d.searchFrom + scanned, by rw [nextLine_eq h, hscan], ?_, ?_⟩
  · have hcursor := h.1
    rw [List.length_drop] at hlen
    change d.searchFrom + scanned ≤ d.lineBuffer.length
    omega
  · change Plain cr lf (d.lineBuffer.take (d.searchFrom + scanned))
    rw [List.take_add]
    exact plain_append.mpr ⟨h.2, hplain⟩

end Scan

section Drain

/-- What draining leaves untouched, and that no complete line is left. -/
structure Drained (eof : Bool) (before after : SseDecoder) : Prop where
  limits : after.limits = before.limits
  state : after.state = before.state
  bomChecked : after.bomChecked = before.bomChecked
  scannable : after.Scannable
  noLine : splitLine cr lf eof after.lineBuffer = none

/-- The buffer without its first line, as the loop body leaves it. -/
def consumeLine (d : SseDecoder) (rest : Bytes) : SseDecoder :=
  { d with lineBuffer := rest, searchFrom := 0 }

theorem scannable_consumeLine (d : SseDecoder) (rest : Bytes) :
    (d.consumeLine rest).Scannable := ⟨Nat.zero_le _, plain_nil⟩

/-- One round of the drain loop without a complete line. -/
theorem drainLoop_none {d : SseDecoder} (h : d.Scannable) {eof : Bool} (fuel : Nat)
    (hsplit : splitLine cr lf eof d.lineBuffer = none) :
    ∃ position, drainLoop eof (fuel + 1) d = ({ d with searchFrom := position }, .ok []) ∧
      Drained eof d { d with searchFrom := position } := by
  obtain ⟨position, hnext, hplain⟩ := nextLine_of_none h hsplit
  exact ⟨position, by simp only [drainLoop, hnext], rfl, rfl, rfl, hplain, hsplit⟩

/-- One round of the drain loop with a complete line. -/
theorem drainLoop_some {d : SseDecoder} (h : d.Scannable) {eof : Bool} (fuel : Nat)
    {line rest : Bytes} (hsplit : splitLine cr lf eof d.lineBuffer = some (line, rest)) :
    drainLoop eof (fuel + 1) d =
      match d.toEventRegisters.processLine d.limits line with
      | .error e => (d.consumeLine rest, .error e)
      | .ok (r, frames) =>
          match drainLoop eof fuel { d.consumeLine rest with toEventRegisters := r } with
          | (d, .error e) => (d, .error e)
          | (d, .ok more) => (d, .ok (frames ++ more)) := by
  obtain ⟨lineEnd, terminatorLen, hnext, hline, hrest⟩ := nextLine_of_some h hsplit
  rcases hprocess : d.toEventRegisters.processLine d.limits line with e | ⟨r, frames⟩
  · simp only [drainLoop, hnext, hline, hrest, hprocess, consumeLine]
  · rcases hmore : drainLoop eof fuel { d.consumeLine rest with toEventRegisters := r } with
      ⟨after, e | more⟩ <;>
      simp only [consumeLine] at hmore <;>
      simp only [drainLoop, hnext, hline, hrest, hprocess, consumeLine, hmore]

/-- Draining hands out a prefix of the outcome of the buffer and keeps the rest. -/
theorem drainLoop_spec (eof : Bool) (more : Bytes) (hmore : eof = true → more = []) (fuel : Nat)
    (d : SseDecoder) (hfuel : d.lineBuffer.length < fuel) (h : d.Scannable) :
    match drainLoop eof fuel d with
    | (after, .ok frames) =>
        Drained eof d after ∧ d.runBuffer more = Outcome.after frames (after.runBuffer more)
    | (_, .error e) => ∃ frames, d.runBuffer more = (frames, some e) := by
  induction fuel generalizing d with
  | zero => omega
  | succ fuel ih =>
      cases hsplit : splitLine cr lf eof d.lineBuffer with
      | none =>
          obtain ⟨position, hloop, hdrained⟩ := drainLoop_none h fuel hsplit
          rw [hloop]
          exact ⟨hdrained, rfl⟩
      | some p =>
          obtain ⟨line, rest⟩ := p
          have hlines := lines_of_split hsplit hmore
          rw [drainLoop_some h fuel hsplit]
          cases hline : d.toEventRegisters.processLine d.limits line with
          | error e =>
              refine ⟨[], ?_⟩
              rw [runBuffer, hlines]
              exact runLines_cons_error hline _
          | ok result =>
              obtain ⟨r, frames⟩ := result
              have hlen := splitLine_length hsplit
              have hrun : d.runBuffer more = Outcome.after frames
                  (runBuffer { d.consumeLine rest with toEventRegisters := r } more) := by
                rw [runBuffer, hlines]
                exact runLines_cons_ok hline _
              have hrest := ih { d.consumeLine rest with toEventRegisters := r }
                (by change rest.length < fuel; omega) (scannable_consumeLine d rest)
              simp only
              cases hloop : drainLoop eof fuel { d.consumeLine rest with toEventRegisters := r } with
              | mk after outcome =>
                  rw [hloop] at hrest
                  cases outcome with
                  | error e =>
                      obtain ⟨later, heq⟩ := hrest
                      exact ⟨frames ++ later, by rw [hrun, heq]; rfl⟩
                  | ok later =>
                      obtain ⟨hdrained, heq⟩ := hrest
                      refine ⟨⟨hdrained.limits, hdrained.state, hdrained.bomChecked,
                        hdrained.scannable, hdrained.noLine⟩, ?_⟩
                      rw [hrun, heq, Outcome.after_after]

end Drain

section Bom

/-- A buffer that is not a strict prefix of the mark decides the mark for every
extension of the buffer. -/
theorem stripBom_append {buffer : Bytes}
    (h : ¬ (buffer.length < utf8Bom.length ∧ buffer <+: utf8Bom)) (more : Bytes) :
    stripBom (buffer ++ more) = stripBom buffer ++ more := by
  unfold stripBom
  by_cases hbom : utf8Bom <+: buffer
  · have hlen : utf8Bom.length ≤ buffer.length := hbom.length_le
    have happ : utf8Bom <+: buffer ++ more := hbom.trans (List.prefix_append _ _)
    rw [if_pos (List.isPrefixOf_iff_prefix.mpr hbom),
      if_pos (List.isPrefixOf_iff_prefix.mpr happ), List.drop_append_of_le_length hlen]
  · have happ : ¬ utf8Bom <+: buffer ++ more := by
      intro hpre
      obtain hb | hb := List.prefix_or_prefix_of_prefix hpre (List.prefix_append buffer more)
      · exact hbom hb
      · have hlen : utf8Bom.length ≤ buffer.length := by
          by_contra hlt
          exact h ⟨Nat.lt_of_not_le hlt, hb⟩
        exact hbom (hb.eq_of_length_le hlen ▸ List.prefix_rfl)
    rw [if_neg (by simpa using happ), if_neg (by simpa using hbom)]

/-- Deciding the mark keeps the outcome; without a decision nothing changes. -/
theorem ensureBomChecked_spec (d : SseDecoder) (eof : Bool) (hscan : d.Scannable)
    (hstart : d.bomChecked = false → d.searchFrom = 0) :
    match d.ensureBomChecked eof with
    | (after, false) => after = d ∧ d.bomChecked = false ∧ d.Settled eof
    | (after, true) =>
        after.bomChecked = true ∧ after.limits = d.limits ∧ after.state = d.state ∧
          after.Scannable ∧
          ∀ more, (eof = true → more = []) → d.remaining more = after.remaining more := by
  cases hb : d.bomChecked with
  | true =>
      simp only [ensureBomChecked, hb, if_true]
      exact ⟨trivial, trivial, trivial, hscan, fun _ _ => trivial⟩
  | false =>
      have hzero := hstart hb
      by_cases hwait : eof = false ∧ d.lineBuffer.length < utf8Bom.length ∧
          d.lineBuffer <+: utf8Bom
      · obtain ⟨heof, hlen, hpre⟩ := hwait
        have hcond : (!eof && decide (d.lineBuffer.length < utf8Bom.length) &&
            d.lineBuffer.isPrefixOf utf8Bom) = true := by
          simp [heof, hlen, hpre]
        simp only [ensureBomChecked, hb, hcond, if_true, Bool.false_eq_true, if_false]
        refine ⟨trivial, trivial, hscan, ?_, fun _ => ⟨heof, hpre, hlen, hzero⟩⟩
        intro htrue
        rw [hb] at htrue
        cases htrue
      · have hcond : ¬ (!eof && decide (d.lineBuffer.length < utf8Bom.length) &&
            d.lineBuffer.isPrefixOf utf8Bom) = true := by
          intro hc
          apply hwait
          simpa [and_assoc] using hc
        have hstrip : ∀ more, (eof = true → more = []) →
            stripBom (d.lineBuffer ++ more) = stripBom d.lineBuffer ++ more := by
          intro more hmore
          cases eof with
          | true => simp [hmore rfl]
          | false => exact stripBom_append (fun hc => hwait ⟨rfl, hc⟩) more
        simp only [ensureBomChecked, hb, hcond, Bool.false_eq_true, if_false]
        refine ⟨trivial, ?_, ?_, ?_, ?_⟩
        · split <;> rfl
        · split <;> rfl
        · split
          · exact ⟨by simp [hzero], by simp [hzero, plain_nil]⟩
          · exact hscan
        · intro more hmore
          simp only [remaining, hb, Bool.false_eq_true, if_false, if_true, hstrip more hmore]
          by_cases hbom : utf8Bom.isPrefixOf d.lineBuffer = true
          · simp only [stripBom, hbom, if_true]
          · simp only [stripBom, hbom, Bool.false_eq_true, if_false]

/-- Draining a buffer hands out a prefix of the outcome and settles the buffer. -/
theorem drainCompleteLines_spec (d : SseDecoder) (eof : Bool) (hscan : d.Scannable)
    (hstart : d.bomChecked = false → d.searchFrom = 0) :
    match d.drainCompleteLines eof with
    | (after, .ok frames) =>
        after.limits = d.limits ∧ after.state = d.state ∧ after.Settled eof ∧
          ∀ more, (eof = true → more = []) →
            d.remaining more = Outcome.after frames (after.remaining more)
    | (_, .error e) =>
        ∀ more, (eof = true → more = []) → ∃ frames, d.remaining more = (frames, some e) := by
  have hbom := ensureBomChecked_spec d eof hscan hstart
  rw [drainCompleteLines]
  rcases hcheck : d.ensureBomChecked eof with ⟨decided, _ | _⟩
  · rw [hcheck] at hbom
    obtain ⟨rfl, -, hsettled⟩ := hbom
    exact ⟨rfl, rfl, hsettled, fun more _ => (Outcome.after_nil _).symm⟩
  · rw [hcheck] at hbom
    obtain ⟨hdecided, hlimits, hstate, hscan', hrun⟩ := hbom
    have hdrain := fun more hmore => drainLoop_spec eof more hmore
      (decided.lineBuffer.length + 1) decided (Nat.lt_succ_self _) hscan'
    simp only
    rcases hloop : drainLoop eof (decided.lineBuffer.length + 1) decided with ⟨after, e | frames⟩
    · intro more hmore
      have hmore' := hdrain more hmore
      rw [hloop] at hmore'
      rw [hrun more hmore, remaining_of_bomChecked hdecided]
      exact hmore'
    · have hdrained : Drained eof decided after := by
        have hnil := hdrain [] (fun _ => rfl)
        rw [hloop] at hnil
        exact hnil.1
      have hafter : after.bomChecked = true := hdrained.bomChecked.trans hdecided
      refine ⟨hdrained.limits.trans hlimits, hdrained.state.trans hstate,
        ⟨hdrained.scannable, fun _ => hdrained.noLine, ?_⟩, ?_⟩
      · intro hfalse
        rw [hafter] at hfalse
        cases hfalse
      · intro more hmore
        have hmore' := hdrain more hmore
        rw [hloop] at hmore'
        rw [hrun more hmore, remaining_of_bomChecked hdecided, remaining_of_bomChecked hafter]
        exact hmore'.2

end Bom

section Feed

/-- The incomplete-line check fails only when the line under construction is
already too long, whatever follows. -/
theorem oversized_of_checkIncompleteLineLimit {d : SseDecoder} {e : SseDecodeError}
    (hsettled : d.Settled false) (h : d.checkIncompleteLineLimit = .error e) :
    d.bomChecked = true ∧ e = .lineTooLarge d.limits.maxLineBytes ∧
      ∀ more, ∃ line tail, lines cr lf [] (d.lineBuffer ++ more) = line :: tail ∧
        d.limits.maxLineBytes.toNat < line.length := by
  have hbom : d.bomChecked = true := by
    by_contra hb
    rw [Bool.not_eq_true] at hb
    obtain ⟨-, hpre, -⟩ := hsettled.undecided hb
    simp [checkIncompleteLineLimit, hb, hpre] at h
  have hsplit := hsettled.noLine hbom
  simp only [checkIncompleteLineLimit, hbom, Bool.not_true, Bool.false_and,
    Bool.false_eq_true, if_false] at h
  split at h
  · rename_i hlong
    cases h
    refine ⟨hbom, rfl, ?_⟩
    intro more
    obtain hplain | ⟨content, hplain, hbuffer⟩ := plain_of_splitLine_none hsplit
    · have hlen : d.limits.maxLineBytes.toNat < d.lineBuffer.length := by
        rw [contentLen] at hlong
        split at hlong <;> omega
      have hne : d.lineBuffer ≠ [] := by
        intro hnil
        simp [hnil] at hlen
      obtain ⟨suffix, tail, heq⟩ := lines_head cr lf hne more
      refine ⟨_, tail, by rw [lines_plain_append hplain, List.nil_append, heq], ?_⟩
      rw [List.length_append]
      omega
    · have hlen : d.limits.maxLineBytes.toNat < content.length := by
        simpa [contentLen, hbuffer] using hlong
      have hne : content ≠ [] := by
        intro hnil
        simp [hnil] at hlen
      obtain ⟨suffix, tail, heq⟩ := lines_head cr lf hne (cr :: more)
      refine ⟨content ++ suffix, tail, ?_, ?_⟩
      · rw [hbuffer, List.append_assoc, lines_plain_append hplain, List.nil_append]
        exact heq
      · rw [List.length_append]
        omega
  · cases h

theorem checkIncompleteLineLimit_error {d : SseDecoder} {e : SseDecodeError}
    (hsettled : d.Settled false) (h : d.checkIncompleteLineLimit = .error e) (more : Bytes) :
    d.remaining more = ([], some e) := by
  obtain ⟨hbom, rfl, hhead⟩ := oversized_of_checkIncompleteLineLimit hsettled h
  obtain ⟨line, tail, heq, hlen⟩ := hhead more
  rw [remaining_of_bomChecked hbom, runBuffer, heq]
  exact runLines_cons_error (processLine_oversized _ hlen) tail

/-- Buffering a slice moves it from the rest of the input into the decoder. -/
theorem remaining_extend (d : SseDecoder) (slice more : Bytes) :
    remaining { d with lineBuffer := d.lineBuffer ++ slice } more =
      d.remaining (slice ++ more) := by
  simp only [remaining, List.append_assoc]

/-- Extending the buffer does not move the cursor past a terminator. -/
theorem scannable_extend {d : SseDecoder} (h : d.Scannable) (slice : Bytes) :
    Scannable { d with lineBuffer := d.lineBuffer ++ slice } := by
  constructor
  · have hcursor := h.1
    simp only [List.length_append]
    omega
  · simp only [List.take_append_of_le_length h.1]
    exact h.2

/-- What a call on `input` may answer, in terms of the remaining outcome. -/
abbrev Answers (d : SseDecoder) (input : Bytes)
    (result : SseDecoder × Except SseDecodeError (List SseFrame)) : Prop :=
  Text.Answers Ready remaining d input result

theorem feedSlice_answers {d : SseDecoder} (h : d.Ready) (slice : Bytes) :
    d.Answers slice (d.feedSlice slice) := by
  have hdrain := drainCompleteLines_spec { d with lineBuffer := d.lineBuffer ++ slice } false
    (scannable_extend h.settled.scannable slice) h.cursor
  rw [feedSlice]
  rcases hresult : drainCompleteLines { d with lineBuffer := d.lineBuffer ++ slice } false with
    ⟨after, e | frames⟩
  · rw [hresult] at hdrain
    intro more
    rw [← remaining_extend]
    exact hdrain more (by simp)
  · rw [hresult] at hdrain
    obtain ⟨hlimits, hstate, hsettled, hrun⟩ := hdrain
    simp only
    rcases hlimit : after.checkIncompleteLineLimit with e | _
    · intro more
      refine ⟨frames, ?_⟩
      rw [← remaining_extend, hrun more (by simp),
        checkIncompleteLineLimit_error hsettled hlimit more]
      simp [Outcome.after]
    · refine ⟨⟨hstate.trans h.active, hsettled⟩, fun more => ?_⟩
      rw [← remaining_extend, hrun more (by simp)]

theorem feedSlices_cons (d : SseDecoder) (slice : Bytes) (rest : List Bytes) :
    d.feedSlices (slice :: rest) =
      match d.feedSlice slice with
      | (d, .error e) => (d, .error e)
      | (d, .ok frames) => joinOutputs frames (d.feedSlices rest) := by
  rw [feedSlices, feedAll]
  rcases d.feedSlice slice with ⟨after, e | frames⟩ <;> rfl

theorem feedSlices_answers (slices : List Bytes) {d : SseDecoder} (h : d.Ready) :
    d.Answers slices.flatten (d.feedSlices slices) := by
  have hall := answers_feedAll id slices (fun _ slice _ hd => feedSlice_answers hd slice) h
  rwa [List.flatMap_id] at hall

theorem push_eq {d : SseDecoder} (h : d.state = .active) (chunk : Bytes) :
    d.push chunk =
      match d.pushInner chunk with
      | (d, .error e) => (d.fail, .error e)
      | (d, .ok frames) => (d, .ok frames) := by
  rcases hinner : d.pushInner chunk with ⟨after, e | frames⟩ <;>
    simp only [push, ensureActive, h, hinner, if_true]

/-- Pushing a chunk answers to the chunk, whatever its size. -/
theorem push_answers {d : SseDecoder} (h : d.Ready) (chunk : Bytes) :
    d.Answers chunk (d.push chunk) := by
  have hslices := feedSlices_answers (chunks feedSliceBytes chunk) h
  have hsize : 0 < feedSliceBytes := by decide
  rw [chunks_flatten hsize] at hslices
  rw [push_eq h.active, pushInner]
  rcases hfeed : d.feedSlices (chunks feedSliceBytes chunk) with ⟨after, e | frames⟩
  · rw [hfeed] at hslices
    exact hslices
  · rw [hfeed] at hslices
    exact hslices

end Feed

section Finish

/-- A settled buffer at end of input is the last line, if it is not empty. -/
theorem remaining_of_settled_eof {d : SseDecoder} (h : d.Settled true) :
    d.remaining [] = runLines d.limits d.toEventRegisters
      (if d.lineBuffer = [] then [] else [d.lineBuffer]) := by
  have hbom : d.bomChecked = true := by
    by_contra hb
    rw [Bool.not_eq_true] at hb
    cases (h.undecided hb).1
  rw [remaining_of_bomChecked hbom, runBuffer, List.append_nil,
    lines_plain (plain_of_splitLine_eof_none (h.noLine hbom))]

theorem finishInner_spec {d : SseDecoder} (h : d.Ready) :
    d.finishInner.2 = (d.remaining []).result := by
  have hdrain := drainCompleteLines_spec d true h.settled.scannable h.cursor
  rw [finishInner]
  rcases hresult : d.drainCompleteLines true with ⟨after, e | frames⟩
  · rw [hresult] at hdrain
    obtain ⟨frames, heq⟩ := hdrain [] (fun _ => rfl)
    rw [heq]
    rfl
  · rw [hresult] at hdrain
    obtain ⟨-, -, hsettled, hrun⟩ := hdrain
    rw [hrun [] (fun _ => rfl), Outcome.result_after, remaining_of_settled_eof hsettled]
    by_cases hempty : after.lineBuffer = []
    · simp [hempty, runLines_nil, Outcome.result, Except.map]
    · simp only [hempty, if_false, List.isEmpty_iff]
      rcases hline : after.toEventRegisters.processLine after.limits after.lineBuffer with
        e | ⟨r, last⟩
      · rw [runLines_cons_error hline]
        rfl
      · rw [runLines_cons_ok hline]
        simp [runLines_nil, Outcome.after, Outcome.result, Except.map]

/-- End of input gives the whole remaining outcome. -/
theorem finish_spec {d : SseDecoder} (h : d.Ready) :
    d.finish.2 = (d.remaining []).result := by
  rw [← finishInner_spec h]
  simp only [finish, ensureActive, h.active, if_true]
  rcases d.finishInner with ⟨after, e | frames⟩ <;> rfl

/-- A whole run depends on the concatenation of its chunks only. -/
theorem decode_eq (chunks : List Bytes) {d : SseDecoder} (h : d.Ready) :
    d.decode chunks = (d.remaining chunks.flatten).result :=
  decodeAll_eq (fun _ chunk hd => push_answers hd chunk) (fun _ hd => finish_spec hd) chunks h

end Finish

end SseDecoder

end OpenaiRs.Sse
