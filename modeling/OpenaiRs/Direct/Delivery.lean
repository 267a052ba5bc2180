import OpenaiRs.Direct.Grammar
import OpenaiRs.Direct.Transport

/-!
# What a direct Codex stream delivers

`deliver` is the sequence that a stream yields when no event is lost. A feed that
fails returns its error alone, so the events completed by the same chunk are lost;
this makes the yielded sequence depend on the chunks. The bodies on which it does
not depend on them, and those on which the stream ends at a terminal event, are
characterized by the events of the body and the place of its first malformed line.
-/

namespace OpenaiRs.Direct

open Rust Text Responses

variable {Http Json : Type} (decodeJson : Bytes → Except Json ResponseStreamEvent)
  (contentTypeMissing : Bool)

section Deliver

/-- The items behind the last event. -/
def closing (saw : Bool) : Option SseError → List (StreamItem Http Json)
  | some e => [.error (.sse e)]
  | none => if contentTypeMissing && !saw then [.error (.sse noEvents)] else []

/-- The items of an outcome none of whose events is lost. -/
def deliver (saw : Bool) (outcome : ItemOutcome) : List (StreamItem Http Json) :=
  let (sent, stop) := dispatchSseItems Http decodeJson outcome.1
  if stop then sent
  else sent ++ closing contentTypeMissing (saw || !outcome.1.isEmpty) outcome.2

variable {decodeJson contentTypeMissing}

/-- Dispatching one part after another, up to the first stop. -/
theorem dispatchSseItems_append (first second : List SseItem) :
    dispatchSseItems Http decodeJson (first ++ second) =
      match dispatchSseItems Http decodeJson first with
      | (sent, true) => (sent, true)
      | (sent, false) =>
          (sent ++ (dispatchSseItems Http decodeJson second).1, (dispatchSseItems Http decodeJson second).2) := by
  induction first with
  | nil => rfl
  | cons item rest ih =>
      cases item with
      | done => rfl
      | data payload =>
          rw [List.cons_append, dispatchSseItems, dispatchSseItems]
          obtain e | event := decodeJson payload
          · rfl
          · simp only [ih]
            rcases dispatchSseItems Http decodeJson rest with
              ⟨sent, _ | _⟩ <;> rfl

/-- Delivering the events of a chunk and then the rest. -/
theorem deliver_after (saw : Bool) (items : List SseItem) (rest : ItemOutcome) :
    (deliver decodeJson contentTypeMissing saw (Outcome.after items rest) :
        List (StreamItem Http Json)) =
      match dispatchSseItems Http decodeJson items with
      | (sent, true) => sent
      | (sent, false) => sent ++ deliver decodeJson contentTypeMissing (saw || !items.isEmpty) rest := by
  rw [deliver, Outcome.after]
  simp only [dispatchSseItems_append]
  rcases dispatchSseItems Http decodeJson items with
    ⟨sent, _ | _⟩
  · rw [deliver]
    rcases dispatchSseItems Http decodeJson rest.1 with
      ⟨later, _ | _⟩
    · rcases items with _ | ⟨item, items⟩ <;> simp
    · simp
  · rfl

end Deliver

section Feed

namespace SseDecoder

/-- Feeding one chunk after another is feeding their concatenation. -/
theorem feed_append (first second : Bytes) (d : SseDecoder) :
    d.feed (first ++ second) =
      match d.feed first with
      | (after, .error e) => (after, .error e)
      | (after, .ok items) => joinOutputs items (after.feed second) := by
  induction first generalizing d with
  | nil =>
      change d.feed second = joinOutputs [] (d.feed second)
      rcases d.feed second with ⟨after, e | items⟩ <;> rfl
  | cons byte rest ih =>
      cases hdone : d.done with
      | true =>
          rw [feed_of_done hdone, feed_of_done hdone]
          simp only [feed_of_done hdone]
          rfl
      | false =>
          rw [List.cons_append, feed_cons hdone, feed_cons hdone]
          obtain ⟨middle, e | items⟩ := d.feedByte byte
          · rfl
          · simp only [ih]
            obtain ⟨after, e | later⟩ := middle.feed rest
            · rfl
            · simp only [joinOutputs]
              obtain ⟨last, e | more⟩ := after.feed second
              · rfl
              · simp

/-- At end of input at most one line is left. -/
theorem pendingLines_eof {d : SseDecoder} (h : d.Sound) :
    (scanLines cr lf d.line d.afterCr
      (if d.bomChecked then [] else Sse.stripBom (utf8Bom.take d.bomLen ++ []))).length ≤ 1 := by
  cases hbom : d.bomChecked with
  | true =>
      rw [if_pos rfl, scanLines]
      split <;> simp
  | false =>
      obtain ⟨hline, hcr, -, hlen⟩ := h.undecided hbom
      have hshort : (utf8Bom.take d.bomLen).length < utf8Bom.length := by
        rw [List.length_take]
        omega
      rw [if_neg (by simp), List.append_nil, stripBom_short hshort, hline, hcr,
        (scanLines_eq _ []).1, lines_plain (plain_utf8Bom_take d.bomLen)]
      split <;> simp

/-- At end of input a failure drops no item. -/
theorem remaining_eof_lossless {d : SseDecoder} (h : d.Sound) {e : SseError}
    (herror : (d.remaining []).2 = some e) : (d.remaining []).1 = [] := by
  have hlength := pendingLines_eof h
  rw [remaining, runLines] at herror ⊢
  generalize scanLines cr lf d.line d.afterCr
    (if d.bomChecked then [] else Sse.stripBom (utf8Bom.take d.bomLen ++ [])) = pending
    at hlength herror ⊢
  obtain _ | ⟨line, _ | ⟨second, rest⟩⟩ := pending
  · cases herror
  · rcases hstep : lineStep d.maxLineBytes d.maxEventBytes d.toPendingEvent line with
      e' | ⟨p, items⟩
    · rw [runSteps_cons_error hstep]
    · rw [runSteps_cons_ok hstep] at herror
      cases herror
  · simp at hlength

/-- No failing feed of this run drops an item. -/
def NothingDropped (d : SseDecoder) : List Bytes → Prop
  | [] => True
  | chunk :: rest =>
      match d.feed chunk with
      | (_, .error _) => (d.remaining (chunk ++ rest.flatten)).1 = []
      | (d, .ok _) => NothingDropped d rest

/-- Single bytes drop nothing. -/
theorem nothingDropped_bytes (body : Bytes) {d : SseDecoder} (h : d.Sound) :
    d.NothingDropped (body.map fun byte => [byte]) := by
  induction body generalizing d with
  | nil => trivial
  | cons byte rest ih =>
      rw [List.map_cons, NothingDropped]
      have hanswers := feed_answers [byte] h
      rcases hfeed : d.feed [byte] with ⟨after, e | items⟩
      · cases hdone : d.done with
        | true =>
            rw [feed_of_done hdone] at hfeed
            cases hfeed
        | false =>
            have hlossless := feedByte_lossless h hdone byte
            rw [feed_cons hdone] at hfeed
            rcases hbyte : d.feedByte byte with ⟨middle, e' | items⟩
            · rw [hbyte] at hlossless
              exact congrArg Prod.fst (hlossless _)
            · rw [hbyte] at hfeed
              cases hfeed
      · rw [hfeed] at hanswers
        exact ih hanswers.1

/-- If the whole input at once drops nothing, then no way of cutting it does. -/
theorem nothingDropped_of_feed (chunks : List Bytes) {d : SseDecoder} (h : d.Sound)
    (hwhole : (∃ e, (d.feed chunks.flatten).2 = .error e) →
      (d.remaining chunks.flatten).1 = []) : d.NothingDropped chunks := by
  induction chunks generalizing d with
  | nil => trivial
  | cons chunk rest ih =>
      rw [List.flatten_cons, feed_append] at hwhole
      rw [NothingDropped]
      have hanswers := feed_answers chunk h
      rcases hfeed : d.feed chunk with ⟨after, e | items⟩
      · rw [hfeed] at hwhole
        exact hwhole ⟨e, rfl⟩
      · rw [hfeed] at hwhole hanswers
        obtain ⟨hsound, hrun⟩ := hanswers
        apply ih hsound
        intro hfails
        have hnil := hwhole ((fails_joinOutputs _ _).mpr hfails)
        rw [hrun] at hnil
        exact (List.append_eq_nil_iff.mp hnil).2

end SseDecoder

end Feed

section Read

variable {decodeJson contentTypeMissing}

theorem readBody_nil (d : SseDecoder) (saw : Bool) :
    (readBody decodeJson contentTypeMissing d saw [] : List (StreamItem Http Json)) =
      match d.finish.2 with
      | .error e => [.error (.sse e)]
      | .ok items => deliver decodeJson contentTypeMissing saw (items, none) := by
  rw [readBody]
  obtain ⟨after, e | items⟩ := d.finish
  · rfl
  · simp only [deliver, closing]
    obtain ⟨sent, _ | _⟩ := dispatchSseItems Http decodeJson items
    · simp only [Bool.false_eq_true, if_false]
      split <;> simp
    · rfl

/-- Every run delivers a prefix of the events of its input, all of them if nothing is
dropped, and events are lost only in front of an error. -/
theorem readBody_eq (chunks : List Bytes) {d : SseDecoder} (h : d.Sound) (saw : Bool) :
    ∃ kept lost, (d.remaining chunks.flatten).1 = kept ++ lost ∧
      (lost ≠ [] → (d.remaining chunks.flatten).2.isSome = true) ∧
      (d.NothingDropped chunks → lost = []) ∧
      (readBody decodeJson contentTypeMissing d saw (chunks.map .ok) :
          List (StreamItem Http Json)) =
        deliver decodeJson contentTypeMissing saw (kept, (d.remaining chunks.flatten).2) := by
  induction chunks generalizing d saw with
  | nil =>
      have hspec := SseDecoder.finish_spec h
      have hlossless := fun e => SseDecoder.remaining_eof_lossless h (e := e)
      refine ⟨(d.remaining []).1, [], (List.append_nil _).symm, by simp, fun _ => rfl, ?_⟩
      rw [List.map_nil, readBody_nil, List.flatten_nil, hspec]
      rcases hremaining : d.remaining [] with ⟨items, _ | e⟩
      · rfl
      · rw [hremaining] at hlossless
        obtain rfl : items = [] := hlossless e rfl
        rfl
  | cons chunk rest ih =>
      have hanswers := SseDecoder.feed_answers chunk h
      rw [List.map_cons, readBody, List.flatten_cons, SseDecoder.NothingDropped]
      rcases hfeed : d.feed chunk with ⟨after, e | items⟩
      · rw [hfeed] at hanswers
        obtain ⟨lost, heq⟩ := hanswers rest.flatten
        refine ⟨[], lost, by rw [heq]; rfl, by simp [heq], ?_, by rw [heq]; rfl⟩
        intro hnone
        rw [heq] at hnone
        exact hnone
      · rw [hfeed] at hanswers
        obtain ⟨hsound, hrun⟩ := hanswers
        obtain ⟨kept, lost, hitems, herror, hdropped, hread⟩ := ih hsound (saw || !items.isEmpty)
        refine ⟨items ++ kept, lost, ?_, ?_, hdropped, ?_⟩
        · rw [hrun, Outcome.after, hitems, List.append_assoc]
        · rw [hrun]
          exact herror
        · rw [hrun]
          change _ = deliver decodeJson contentTypeMissing saw
            (Outcome.after items (kept, (after.remaining rest.flatten).2))
          rw [deliver_after]
          simp only [hread]
          rcases dispatchSseItems Http decodeJson items with ⟨sent, _ | _⟩ <;> rfl

end Read

section Stream

variable (Http) (maxLineBytes maxEventBytes : UInt64)

/-- The items in front of the first malformed line of a body, dispatched. -/
def dispatchedEvents (body : Bytes) : List (StreamItem Http Json) :=
  (dispatchSseItems Http decodeJson (bodyEvents maxLineBytes maxEventBytes body).1).1

/-- What a stream that is independent of chunking promises for a body: every way of cutting
it yields the same items, and they begin with the events in front of its first malformed
line. -/
def DeliversEvents (body : Bytes) : Prop :=
  (∀ chunks chunks' : List Bytes, chunks.flatten = body → chunks'.flatten = body →
    (streamItems decodeJson maxLineBytes maxEventBytes contentTypeMissing (chunks.map .ok) :
        List (StreamItem Http Json)) =
      streamItems decodeJson maxLineBytes maxEventBytes contentTypeMissing (chunks'.map .ok)) ∧
  ∀ chunks : List Bytes, chunks.flatten = body →
    dispatchedEvents Http decodeJson maxLineBytes maxEventBytes body <+:
      streamItems decodeJson maxLineBytes maxEventBytes contentTypeMissing (chunks.map .ok)

variable {Http decodeJson contentTypeMissing maxLineBytes maxEventBytes}

/-- A stream that loses nothing delivers the outcome of the body. -/
theorem streamItems_of_nothingDropped {chunks : List Bytes}
    (h : (SseDecoder.new maxLineBytes maxEventBytes).NothingDropped chunks) :
    (streamItems decodeJson maxLineBytes maxEventBytes contentTypeMissing (chunks.map .ok) :
        List (StreamItem Http Json)) =
      deliver decodeJson contentTypeMissing false
        ((SseDecoder.new maxLineBytes maxEventBytes).remaining chunks.flatten) := by
  obtain ⟨kept, lost, hitems, -, hdropped, hread⟩ :=
    @readBody_eq Http Json decodeJson contentTypeMissing chunks _
      (SseDecoder.sound_new maxLineBytes maxEventBytes) false
  rw [hdropped h, List.append_nil] at hitems
  rw [streamItems, hread, ← hitems]

theorem flatten_bytes (body : Bytes) : (body.map fun byte => [byte]).flatten = body := by
  induction body with
  | nil => rfl
  | cons byte rest ih => rw [List.map_cons, List.flatten_cons, ih, List.singleton_append]

/-- A stream that is fed single bytes loses nothing. -/
theorem streamItems_bytes (body : Bytes) :
    (streamItems decodeJson maxLineBytes maxEventBytes contentTypeMissing
        ((body.map fun byte => [byte]).map .ok) : List (StreamItem Http Json)) =
      deliver decodeJson contentTypeMissing false
        ((SseDecoder.new maxLineBytes maxEventBytes).remaining body) := by
  rw [streamItems_of_nothingDropped (SseDecoder.nothingDropped_bytes body
    (SseDecoder.sound_new maxLineBytes maxEventBytes)), flatten_bytes]

/-- An outcome with an event is not delivered as a decoder error alone. -/
theorem deliver_ne_error {saw : Bool} {outcome : ItemOutcome} (h : outcome.1 ≠ [])
    (e : SseError) :
    (deliver decodeJson contentTypeMissing saw outcome : List (StreamItem Http Json)) ≠
      [.error (.sse e)] := by
  rw [deliver]
  obtain ⟨_ | ⟨item, rest⟩, error⟩ := outcome
  · exact absurd rfl h
  · cases item with
    | done => simp [dispatchSseItems]
    | data payload =>
        rw [dispatchSseItems]
        obtain e' | event := decodeJson payload
        · simp
        · rcases dispatchSseItems Http decodeJson rest with ⟨sent, _ | _⟩ <;> simp

theorem streamItems_whole_error {body : Bytes} {e : SseError}
    (h : ((SseDecoder.new maxLineBytes maxEventBytes).feed body).2 = .error e) :
    (streamItems decodeJson maxLineBytes maxEventBytes contentTypeMissing ([body].map .ok) :
        List (StreamItem Http Json)) = [.error (.sse e)] := by
  rw [streamItems, List.map_singleton, readBody]
  rcases hfeed : (SseDecoder.new maxLineBytes maxEventBytes).feed body with ⟨after, e' | items⟩
  · rw [hfeed] at h
    obtain rfl : e' = e := Except.error.inj h
    rfl
  · rw [hfeed] at h
    cases h

/-- The items of a body do not depend on its chunks, and begin with its events, exactly
when no event is complete in front of a line that is found malformed before the end. -/
theorem deliversEvents_iff (Http : Type) (decodeJson : Bytes → Except Json ResponseStreamEvent)
    (contentTypeMissing : Bool) (maxLineBytes maxEventBytes : UInt64) (body : Bytes) :
    DeliversEvents Http decodeJson contentTypeMissing maxLineBytes maxEventBytes body ↔
      ((judgedEvents maxLineBytes maxEventBytes body).2 = true →
        (judgedEvents maxLineBytes maxEventBytes body).1 = []) := by
  rw [← SseDecoder.feed_new_lossless_iff]
  constructor
  · rintro ⟨hsame, -⟩ ⟨e, hfails⟩
    by_contra hlost
    have hcut := hsame (body.map fun byte => [byte]) [body] (flatten_bytes body) (by simp)
    rw [streamItems_bytes, streamItems_whole_error hfails] at hcut
    exact deliver_ne_error hlost e hcut
  · intro hlossless
    have hall : ∀ chunks : List Bytes, chunks.flatten = body →
        (streamItems decodeJson maxLineBytes maxEventBytes contentTypeMissing (chunks.map .ok) :
            List (StreamItem Http Json)) =
          deliver decodeJson contentTypeMissing false
            ((SseDecoder.new maxLineBytes maxEventBytes).remaining body) := by
      rintro chunks rfl
      exact streamItems_of_nothingDropped
        (SseDecoder.nothingDropped_of_feed chunks (SseDecoder.sound_new _ _) hlossless)
    refine ⟨fun chunks chunks' h h' => ?_, fun chunks h => ?_⟩
    · rw [hall chunks h, hall chunks' h']
    · rw [hall chunks h, dispatchedEvents, ← (SseDecoder.remaining_new_events _ _ body).1, deliver]
      rcases dispatchSseItems Http decodeJson
        ((SseDecoder.new maxLineBytes maxEventBytes).remaining body).1 with ⟨sent, _ | _⟩
      · exact List.prefix_append _ _
      · exact List.prefix_rfl

/-- One chunk that completes an event and then holds a line that is not UTF-8 yields the
error alone; cut behind the event it yields both. -/
theorem not_deliversEvents_invalidLine :
    ¬ DeliversEvents Unit
      (fun payload =>
        if payload = utf8 "\x7b\"type\":\"x\"\x7d" then .ok (.unknown ⟨utf8 "x", none⟩)
        else .error ()) false 1024 1024
      (utf8 "data: \x7b\"type\":\"x\"\x7d\n\n" ++ [0xFF, lf]) := by
  rintro ⟨hsame, -⟩
  have hcut := hsame [utf8 "data: \x7b\"type\":\"x\"\x7d\n\n" ++ [0xFF, lf]]
    [utf8 "data: \x7b\"type\":\"x\"\x7d\n\n", [0xFF, lf]] (by simp) (by simp)
  revert hcut
  decide

end Stream

end OpenaiRs.Direct
