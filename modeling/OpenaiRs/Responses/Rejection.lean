import OpenaiRs.Responses.Identity

/-!
# Rejected events

`push` records the sequence number of an event before it validates the event. A rejected
event therefore leaves the observable state unchanged exactly when it was refused by the
terminal check or by the sequence check itself.
-/

namespace OpenaiRs.Responses

open Rust

namespace ResponseAccumulator

/-- Everything a caller can observe of an accumulator. -/
structure Observation where
  snapshot : Option Response
  outputText : String
  functionArguments : String → Option String
  lastSequenceNumber : Option Nat
  finishes : Bool

def observe (s : ResponseAccumulator) : Observation where
  snapshot := s.snapshot
  outputText := s.outputText
  functionArguments := s.functionArgumentsOf
  lastSequenceNumber := s.lastSequenceNumber
  finishes := s.finish.isOk

/-- An event without a known sequence number is accepted by an open accumulator. -/
theorem push_unnumbered {event : ResponseStreamEvent} (hnumber : event.sequenceNumber = none)
    {s : ResponseAccumulator} (h : s.terminal = false) : (push event s).2 = .ok () := by
  cases event with
  | unknown event =>
      have hcheck : checkSequence (.unknown event) s = (s, .ok ()) := by
        rw [checkSequence, hnumber]
      rw [push, h, if_neg Bool.false_ne_true, Update.andThen_ok hcheck]
      rfl
  | _ => cases hnumber

/-- A rejected event changes nothing observable exactly when the accumulator was already
terminal or the event has a known sequence number that is not larger than the last one. -/
theorem push_rejected_unchanged_iff (event : ResponseStreamEvent) (s : ResponseAccumulator)
    (e : ResponseAccumulatorError) (h : (push event s).2 = .error e) :
    (push event s).1.observe = s.observe ↔
      s.terminal = true ∨ ∃ number previous, event.sequenceNumber = some number ∧
        s.lastSequenceNumber = some previous ∧ number ≤ previous := by
  cases hterminal : s.terminal with
  | true =>
      rw [push, hterminal, if_pos rfl]
      simp
  | false =>
      have hlast := @push_lastSequenceNumber event s hterminal
      rcases checkSequence_cases event s with
        ⟨hnone, -⟩ | ⟨number, hnumber, hlarger, hcheck⟩ | ⟨number, previous, error, hnumber, hprevious, hle, hcheck⟩
      · rw [push_unnumbered hnone hterminal] at h
        cases h
      · rw [hcheck] at hlast
        constructor
        · intro hsame
          have hrecorded : s.lastSequenceNumber = some number :=
            (congrArg Observation.lastSequenceNumber hsame).symm.trans hlast
          exact absurd (hlarger number hrecorded) (Nat.lt_irrefl number)
        · rintro (hopen | ⟨other, previous, hother, hprevious, hle⟩)
          · cases hopen
          · rw [hnumber] at hother
            obtain rfl := Option.some.inj hother
            exact absurd (hlarger previous hprevious) (Nat.not_lt.mpr hle)
      · have hpush : push event s = (s, .error error) := by
          rw [push, hterminal, if_neg Bool.false_ne_true, Update.andThen_error hcheck]
        rw [hpush]
        exact ⟨fun _ => .inr ⟨number, previous, hnumber, hprevious, hle⟩, fun _ => rfl⟩

/-- A repeated sequence number is refused without a trace. -/
theorem push_rejected_unchanged_duplicate :
    (push (.outputTextDelta ⟨⟨1, 0, "a"⟩, 0, "x"⟩)
        (pushEach [.outputTextDelta ⟨⟨1, 0, "a"⟩, 0, "x"⟩] new)).1.observe =
      (pushEach [.outputTextDelta ⟨⟨1, 0, "a"⟩, 0, "x"⟩] new).observe :=
  (push_rejected_unchanged_iff _ _ (.duplicateSequence 1) (by decide)).mpr
    (.inr ⟨1, 1, rfl, by decide, Nat.le_refl 1⟩)

/-- A delta for another item at a bound index is rejected, but its sequence number stays. -/
theorem push_rejected_recordsNumber :
    (push (.outputTextDelta ⟨⟨2, 0, "b"⟩, 0, "y"⟩)
        (pushEach [.outputTextDelta ⟨⟨1, 0, "a"⟩, 0, "x"⟩] new)).2 =
      .error (.itemIdentityMismatch 0 "a" "b") ∧
    (push (.outputTextDelta ⟨⟨2, 0, "b"⟩, 0, "y"⟩)
        (pushEach [.outputTextDelta ⟨⟨1, 0, "a"⟩, 0, "x"⟩] new)).1.observe ≠
      (pushEach [.outputTextDelta ⟨⟨1, 0, "a"⟩, 0, "x"⟩] new).observe := by
  refine ⟨by decide, fun hsame => ?_⟩
  have hnumber := congrArg Observation.lastSequenceNumber hsame
  revert hnumber
  simp only [observe]
  decide

end ResponseAccumulator

end OpenaiRs.Responses
