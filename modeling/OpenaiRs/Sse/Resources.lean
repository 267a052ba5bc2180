import OpenaiRs.Sse.LineRun

/-!
# What the decoder retains

Over any sequence of calls an active decoder keeps one incomplete line, one event under
construction and two field values, each within its limit. A decoder that has finished or
failed keeps nothing and stays as it is.
-/

namespace OpenaiRs.Sse

open Rust Text

namespace EventRegisters

/-- The event under construction respects the limits. -/
structure Bounded (limits : SseLimits) (r : EventRegisters) : Prop where
  name : ∀ name ∈ r.eventName, name.length ≤ limits.maxLineBytes.toNat
  id : ∀ id ∈ r.lastEventId, id.length ≤ limits.maxLineBytes.toNat
  data : r.eventData.length ≤ limits.maxEventBytes.toNat
  lines : r.dataLines ≤ limits.maxDataLines.toNat
  blank : r.dataLines = 0 → r.eventData = []

variable {limits : SseLimits} {r r' : EventRegisters}

theorem bounded_empty (limits : SseLimits) : empty.Bounded limits where
  name _ h := nomatch h
  id _ h := nomatch h
  data := Nat.zero_le _
  lines := Nat.zero_le _
  blank _ := rfl

theorem Bounded.takeEvent (h : r.Bounded limits) : r.takeEvent.1.Bounded limits := by
  rw [EventRegisters.takeEvent]
  split
  · exact { h with name := fun _ hname => nomatch hname }
  · exact {
      name := fun _ hname => nomatch hname
      id := h.id
      data := Nat.zero_le _
      lines := Nat.zero_le _
      blank := fun _ => rfl }

theorem Bounded.setRetry (h : r.Bounded limits) (value : Bytes) : (r.setRetry value).Bounded limits := by
  rw [EventRegisters.setRetry]
  split
  · exact h
  · split
    · exact h
    · exact ⟨h.name, h.id, h.data, h.lines, h.blank⟩

theorem Bounded.pushData (h : r.Bounded limits) {value : Bytes} (hpush : r.pushData limits value = .ok r') :
    r'.Bounded limits := by
  simp only [EventRegisters.pushData, checkedAdd_bind] at hpush
  split at hpush
  · cases hpush
  · rename_i hlines
    split at hpush
    · cases hpush
    · rename_i nextLen hnext
      split at hpush
      · cases hpush
      · rename_i hfits
        cases hpush
        have hlen : r.eventData.length + (if r.dataLines ≠ 0 then 1 else 0) + value.length = nextLen :=
          Option.some.inj (Option.ite_none_right_eq_some.mp hnext).2
        refine ⟨h.name, h.id, ?_, Nat.lt_of_not_le hlines, fun hzero => nomatch hzero⟩
        split at hlen
        · rename_i hsome
          simp only [if_pos hsome, List.length_append, List.length_singleton]
          omega
        · rename_i hnone
          simp only [if_neg hnone, List.length_append]
          omega

/-- The value of a field is no longer than its line. -/
theorem splitField_length (line : Bytes) : (splitField line).2.length ≤ line.length := by
  have hparts : ((splitOnce colon line).getD (line, [])).2.length ≤ line.length := by
    induction line with
    | nil => exact Nat.le_refl 0
    | cons b rest ih =>
        rw [splitOnce]
        split
        · exact Nat.le_succ _
        · cases hsplit : splitOnce colon rest with
          | none => exact Nat.zero_le _
          | some parts =>
              rw [hsplit] at ih
              exact Nat.le_succ_of_le ih
  have hstrip : ∀ value : Bytes, ((stripPrefix space value).getD value).length ≤ value.length := by
    intro value
    cases value with
    | nil => exact Nat.le_refl 0
    | cons b rest =>
        rw [stripPrefix]
        split
        · exact Nat.le_succ _
        · exact Nat.le_refl _
  exact Nat.le_trans (hstrip _) hparts

theorem Bounded.processLine (h : r.Bounded limits) {line : Bytes} {frames : List SseFrame}
    (hline : r.processLine limits line = .ok (r', frames)) : r'.Bounded limits := by
  rw [EventRegisters.processLine] at hline
  split at hline
  · cases hline
  · rename_i hfits
    split at hline
    · cases hline
    · rename_i text htext
      have hvalue : (splitField text).2.length ≤ limits.maxLineBytes.toNat := by
        have hlength := splitField_length text
        rw [eq_of_fromUtf8_ok htext] at hlength ⊢
        omega
      split at hline
      · cases hline
        exact h.takeEvent
      · split at hline
        · cases hline
          exact h
        · dsimp only at hline
          split at hline
          · cases hline
            refine { h with name := ?_ }
            intro name hname
            split at hname
            · cases hname
            · cases hname
              exact hvalue
          · split at hline
            · split at hline
              · cases hline
              · rename_i hpush
                cases hline
                exact h.pushData hpush
            · split at hline
              · cases hline
                refine { h with id := ?_ }
                rintro id ⟨rfl⟩
                exact hvalue
              · split at hline
                · cases hline
                  exact h.setRetry _
                · cases hline
                  exact h

end EventRegisters

namespace SseDecoder

section Retained

/-- `SseDecoder::buffered_bytes`. -/
def bufferedBytes (d : SseDecoder) : Nat :=
  saturatingAdd
    (saturatingAdd (saturatingAdd d.lineBuffer.length d.eventData.length)
      (d.eventName.elim 0 List.length))
    (d.lastEventId.elim 0 List.length)

/-- The retained line and the event under construction respect the limits. -/
structure Bounded (d : SseDecoder) : Prop where
  registers : d.toEventRegisters.Bounded d.limits
  line : d.lineBuffer.length ≤ d.limits.maxLineBytes.toNat + 1

/-- An active decoder between two calls. -/
structure Held (d : SseDecoder) : Prop where
  ready : d.Ready
  bounded : d.Bounded

/-- A decoder that has stopped keeps nothing. -/
structure Released (d : SseDecoder) : Prop where
  stopped : d.state ≠ .active
  registers : d.toEventRegisters = EventRegisters.empty
  line : d.lineBuffer = []

variable {d after : SseDecoder} {frames : List SseFrame}

theorem held_new (limits : SseLimits) : (new limits).Held where
  ready := ready_new limits
  bounded := ⟨EventRegisters.bounded_empty limits, Nat.zero_le _⟩

theorem released_fail (d : SseDecoder) : d.fail.Released := ⟨by simp [fail], rfl, rfl⟩

theorem nextLine_registers (d : SseDecoder) (eof : Bool) :
    (d.nextLine eof).1.toEventRegisters = d.toEventRegisters ∧ (d.nextLine eof).1.limits = d.limits := by
  rw [nextLine]
  split <;> exact ⟨rfl, rfl⟩

theorem drainLoop_registers {eof : Bool} {fuel : Nat} {limits : SseLimits} (hd : d.limits = limits)
    (h : d.toEventRegisters.Bounded limits) (hloop : drainLoop eof fuel d = (after, .ok frames)) :
    after.toEventRegisters.Bounded limits := by
  induction fuel generalizing d frames with
  | zero =>
      cases hloop
      exact h
  | succ fuel ih =>
      obtain ⟨hregisters, hlimits⟩ := nextLine_registers d eof
      rw [drainLoop] at hloop
      rcases hnext : d.nextLine eof with ⟨d', _ | ⟨lineEnd, terminatorLen⟩⟩
      · rw [hnext] at hregisters hloop
        cases hloop
        rw [hregisters]
        exact h
      · rw [hnext] at hregisters hlimits hloop
        dsimp only at hregisters hlimits hloop
        rw [hregisters, hlimits, hd] at hloop
        split at hloop
        · cases hloop
        · rename_i r lineFrames hline
          split at hloop
          · cases hloop
          · rename_i hrest
            cases hloop
            exact ih rfl (h.processLine hline) hrest

theorem drainCompleteLines_registers {eof : Bool} {limits : SseLimits} (hd : d.limits = limits)
    (h : d.toEventRegisters.Bounded limits)
    (hdrain : d.drainCompleteLines eof = (after, .ok frames)) :
    after.toEventRegisters.Bounded limits := by
  have hchecked : (d.ensureBomChecked eof).1.toEventRegisters = d.toEventRegisters ∧
      (d.ensureBomChecked eof).1.limits = d.limits := by
    rw [ensureBomChecked]
    split
    · exact ⟨rfl, rfl⟩
    · split
      · exact ⟨rfl, rfl⟩
      · dsimp only
        split <;> exact ⟨rfl, rfl⟩
  rw [drainCompleteLines] at hdrain
  rcases hcheck : d.ensureBomChecked eof with ⟨decided, _ | _⟩
  · rw [hcheck] at hchecked hdrain
    cases hdrain
    rw [hchecked.1]
    exact h
  · rw [hcheck] at hchecked hdrain
    exact drainLoop_registers (hchecked.2.trans hd) (by rw [hchecked.1]; exact h) hdrain

/-- A line that passes the check has at most one byte more than the limit: a final CR. -/
theorem checkIncompleteLineLimit_ok (hsettled : d.Settled false)
    (hcheck : d.checkIncompleteLineLimit = .ok ()) :
    d.lineBuffer.length ≤ d.limits.maxLineBytes.toNat + 1 := by
  cases hbom : d.bomChecked with
  | false =>
      obtain ⟨-, -, hshort, -⟩ := hsettled.undecided hbom
      have hbytes : utf8Bom.length = 3 := rfl
      have hpos := d.limits.line_pos
      omega
  | true =>
      simp only [checkIncompleteLineLimit, hbom, Bool.not_true, Bool.false_and, Bool.false_eq_true,
        if_false] at hcheck
      split at hcheck
      · cases hcheck
      · rename_i hfits
        rw [contentLen] at hfits
        split at hfits <;> omega

theorem Held.feedSlice (h : d.Held) {slice : Bytes} (hfeed : d.feedSlice slice = (after, .ok frames)) :
    after.Held := by
  have hready : after.Ready := by
    have hanswers := feedSlice_answers h.ready slice
    rw [hfeed] at hanswers
    exact hanswers.1
  have hspec := drainCompleteLines_spec { d with lineBuffer := d.lineBuffer ++ slice } false
    (scannable_extend h.ready.settled.scannable slice) h.ready.cursor
  rw [SseDecoder.feedSlice] at hfeed
  rcases hdrain : drainCompleteLines { d with lineBuffer := d.lineBuffer ++ slice } false with
    ⟨drained, e | drainedFrames⟩
  · rw [hdrain] at hfeed
    cases hfeed
  · rw [hdrain] at hspec hfeed
    obtain ⟨hlimits, -, hsettled, -⟩ := hspec
    have hregisters : drained.toEventRegisters.Bounded d.limits :=
      drainCompleteLines_registers (d := { d with lineBuffer := d.lineBuffer ++ slice }) rfl
        h.bounded.registers hdrain
    dsimp only at hfeed
    rcases hcheck : drained.checkIncompleteLineLimit with e | ⟨⟩
    · rw [hcheck] at hfeed
      cases hfeed
    · rw [hcheck] at hfeed
      cases hfeed
      refine ⟨hready, ?_, checkIncompleteLineLimit_ok hsettled hcheck⟩
      rw [hlimits]
      exact hregisters

theorem Held.feedSlices (h : d.Held) {slices : List Bytes}
    (hfeed : d.feedSlices slices = (after, .ok frames)) : after.Held := by
  induction slices generalizing d frames with
  | nil =>
      cases hfeed
      exact h
  | cons slice rest ih =>
      rw [feedSlices_cons] at hfeed
      rcases hslice : d.feedSlice slice with ⟨middle, e | first⟩
      · rw [hslice] at hfeed
        cases hfeed
      · rw [hslice] at hfeed
        rcases hrest : middle.feedSlices rest with ⟨last, e | later⟩
        · simp only [hrest, joinOutputs] at hfeed
          cases hfeed
        · simp only [hrest, joinOutputs] at hfeed
          cases hfeed
          exact ih (h.feedSlice hslice) hrest

end Retained

section Calls

/-- A call on the decoder. -/
inductive DecoderCall where
  | push (chunk : Bytes)
  | finish
  | close

def call (d : SseDecoder) : DecoderCall → SseDecoder × Except SseDecodeError (List SseFrame)
  | .push chunk => d.push chunk
  | .finish => d.finish
  | .close => (d.close, .ok [])

def afterCalls (d : SseDecoder) (calls : List DecoderCall) : SseDecoder :=
  calls.foldl (fun d c => (d.call c).1) d

variable {d : SseDecoder}

/-- A call on an active decoder keeps it within its limits or releases everything. -/
theorem Held.call (h : d.Held) (c : DecoderCall) : (d.call c).1.Held ∨ (d.call c).1.Released := by
  cases c with
  | push chunk =>
      rw [SseDecoder.call, push_eq h.ready.active, pushInner]
      rcases hfeed : d.feedSlices (chunks feedSliceBytes chunk) with ⟨after, e | frames⟩
      · exact .inr (released_fail after)
      · exact .inl (h.feedSlices hfeed)
  | finish =>
      right
      simp only [SseDecoder.call, SseDecoder.finish, ensureActive, h.ready.active, if_true]
      obtain ⟨after, e | frames⟩ := d.finishInner
      · exact released_fail after
      · exact ⟨by simp, rfl, rfl⟩
  | close =>
      right
      rw [SseDecoder.call, SseDecoder.close, if_pos h.ready.active]
      exact ⟨by simp, rfl, rfl⟩

/-- A call on a decoder that has stopped changes nothing and returns no frame. -/
theorem call_stopped (h : d.state ≠ .active) (c : DecoderCall) :
    (d.call c).1 = d ∧ ∀ frames, (d.call c).2 = .ok frames → frames = [] := by
  cases c with
  | push chunk => simp [SseDecoder.call, SseDecoder.push, ensureActive, h]
  | finish => simp [SseDecoder.call, SseDecoder.finish, ensureActive, h]
  | close => simp [SseDecoder.call, SseDecoder.close, h]

theorem afterCalls_stopped (h : d.state ≠ .active) (calls : List DecoderCall) :
    d.afterCalls calls = d := by
  induction calls with
  | nil => rfl
  | cons c rest ih =>
      rw [afterCalls, List.foldl_cons, (call_stopped h c).1]
      exact ih

theorem held_or_released (h : d.Held) (calls : List DecoderCall) :
    (d.afterCalls calls).Held ∨ (d.afterCalls calls).Released := by
  induction calls generalizing d with
  | nil => exact .inl h
  | cons c rest ih =>
      rw [afterCalls, List.foldl_cons]
      obtain hheld | hreleased := h.call c
      · exact ih hheld
      · have hsame := afterCalls_stopped hreleased.stopped rest
        rw [afterCalls] at hsame
        rw [hsame]
        exact .inr hreleased

/-- The buffer of an active decoder has no LF, and a CR only at its end. -/
theorem Ready.noTerminator (h : d.Ready) : lf ∉ d.lineBuffer ∧ cr ∉ d.lineBuffer.dropLast := by
  have hplain : ∀ buffer : Bytes, Plain cr lf buffer → lf ∉ buffer ∧ cr ∉ buffer.dropLast := by
    intro buffer hbuffer
    exact ⟨fun hmem => (hbuffer lf hmem).2 rfl,
      fun hmem => (hbuffer cr (List.dropLast_subset _ hmem)).1 rfl⟩
  cases hbom : d.bomChecked with
  | false =>
      obtain ⟨-, hpart, -⟩ := h.settled.undecided hbom
      apply hplain
      intro b hmem
      have hmark : ∀ b ∈ utf8Bom, b ≠ cr ∧ b ≠ lf := by simp [utf8Bom, cr, lf]
      exact hmark b (hpart.subset hmem)
  | true =>
      obtain hbuffer | ⟨content, hcontent, heq⟩ := plain_of_splitLine_none (h.settled.noLine hbom)
      · exact hplain _ hbuffer
      · rw [heq, List.dropLast_concat]
        constructor
        · intro hmem
          obtain hin | hlast := List.mem_append.mp hmem
          · exact (hcontent lf hin).2 rfl
          · cases List.mem_singleton.mp hlast
        · exact fun hmem => (hcontent cr hmem).1 rfl

/-- What a decoder retains between two calls. -/
structure Retains (d : SseDecoder) : Prop where
  line : d.lineBuffer.length ≤ d.limits.maxLineBytes.toNat + 1
  data : d.eventData.length ≤ d.limits.maxEventBytes.toNat
  dataLines : d.dataLines ≤ d.limits.maxDataLines.toNat
  name : ∀ name ∈ d.eventName, name.length ≤ d.limits.maxLineBytes.toNat
  id : ∀ id ∈ d.lastEventId, id.length ≤ d.limits.maxLineBytes.toNat
  blank : d.dataLines = 0 → d.eventData = []
  cursor : d.searchFrom ≤ d.lineBuffer.length
  noLf : lf ∉ d.lineBuffer
  noCr : cr ∉ d.lineBuffer.dropLast

theorem Held.retains (h : d.Held) : d.Retains where
  line := h.bounded.line
  data := h.bounded.registers.data
  dataLines := h.bounded.registers.lines
  name := h.bounded.registers.name
  id := h.bounded.registers.id
  blank := h.bounded.registers.blank
  cursor := h.ready.settled.scannable.1
  noLf := h.ready.noTerminator.1
  noCr := h.ready.noTerminator.2

theorem Released.bufferedBytes (h : d.Released) : d.bufferedBytes = 0 := by
  rw [SseDecoder.bufferedBytes, h.registers, h.line]
  rfl

/-- In every state that calls on a new decoder reach: an active decoder retains no more than its
limits allow, and one that has finished or failed retains nothing, for good. -/
theorem retained_within_limits (limits : SseLimits) (calls : List DecoderCall) :
    (((new limits).afterCalls calls).state = .active → ((new limits).afterCalls calls).Retains) ∧
    (((new limits).afterCalls calls).state ≠ .active →
      ((new limits).afterCalls calls).bufferedBytes = 0 ∧
      ∀ later c, (((new limits).afterCalls calls).afterCalls later).state ≠ .active ∧
        ∀ frames, ((((new limits).afterCalls calls).afterCalls later).call c).2 = .ok frames →
          frames = []) := by
  have hcalls := held_or_released (held_new limits) calls
  generalize (new limits).afterCalls calls = d at hcalls
  constructor
  · intro hactive
    obtain hheld | hreleased := hcalls
    · exact hheld.retains
    · exact absurd hactive hreleased.stopped
  · intro hstopped
    obtain hheld | hreleased := hcalls
    · exact absurd hheld.ready.active hstopped
    · refine ⟨hreleased.bufferedBytes, fun later c => ?_⟩
      rw [afterCalls_stopped hstopped later]
      exact ⟨hstopped, (call_stopped hstopped c).2⟩

end Calls

end SseDecoder

end OpenaiRs.Sse
