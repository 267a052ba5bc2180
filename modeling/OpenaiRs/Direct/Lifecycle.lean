import OpenaiRs.Direct.Delivery

/-!
# The end of a direct Codex stream

`dispatch_sse_items` stops at the sentinel and at a payload that does not decode, but it
does not look at the decoded event. A stream therefore ends at its lifecycle terminal
only when the body itself has nothing behind it but the sentinel.
-/

namespace OpenaiRs.Direct

open Rust Text Responses

variable {Http Json : Type}

/-- An error or a terminal event. -/
def Closes : StreamItem Http Json → Prop
  | .error _ => True
  | .ok event => event.isTerminal = true

section Events

variable (decodeJson : Bytes → Except Json ResponseStreamEvent)

/-- An item that is dispatched as a typed event. -/
def Decodes (item : SseItem) : Prop := ∃ payload event, item = .data payload ∧ decodeJson payload = .ok event

/-- Every terminal event that is reached is followed by the sentinel, or by nothing at all. -/
def TerminalLast (items : List SseItem) (fails : Bool) : Prop :=
  ∀ before payload after event, items = before ++ .data payload :: after →
    (∀ item ∈ before, Decodes decodeJson item) → decodeJson payload = .ok event →
      event.isTerminal = true → after.head? = some .done ∨ (after = [] ∧ fails = false)

variable {decodeJson}

theorem TerminalLast.tail {payload : Bytes} {event : ResponseStreamEvent} {rest : List SseItem}
    {fails : Bool} (h : TerminalLast decodeJson (.data payload :: rest) fails)
    (hdecode : decodeJson payload = .ok event) : TerminalLast decodeJson rest fails := by
  intro before payload' after event' heq hbefore
  refine h (.data payload :: before) payload' after event' (by rw [heq, List.cons_append]) ?_
  intro item hmem
  obtain rfl | hmem := List.mem_cons.mp hmem
  · exact ⟨payload, event, rfl, hdecode⟩
  · exact hbefore item hmem

/-- A malformed line is only reported when the sentinel was not reached. -/
theorem eventsOf_done {maxLineBytes maxEventBytes : UInt64} {eof : Bool} (input : List Bytes)
    (block : List Sse.Field)
    (h : .done ∈ (eventsOf maxLineBytes maxEventBytes eof block input).1) :
    (eventsOf maxLineBytes maxEventBytes eof block input).2 = false := by
  induction input generalizing block with
  | nil => rfl
  | cons line rest ih =>
      rw [eventsOf] at h ⊢
      by_cases hbad : Malformed maxLineBytes maxEventBytes block line
      · rw [if_pos hbad] at h
        cases h
      · rw [if_neg hbad] at h ⊢
        by_cases hblank : line = []
        · rw [if_pos hblank] at h ⊢
          rcases hitem : blockItem block with _ | item
          · rw [hitem] at h
            exact ih [] h
          · rw [hitem] at h
            cases item with
            | done => rfl
            | data payload =>
                obtain heq | hmem := List.mem_cons.mp h
                · cases heq
                · exact ih [] hmem
        · rw [if_neg hblank] at h ⊢
          exact ih (Sse.nextBlock block line) h

/-- Losing events in front of an error keeps terminal events last. -/
theorem TerminalLast.kept {kept lost : List SseItem} {fails : Bool}
    (h : TerminalLast decodeJson (kept ++ lost) fails) (hlost : lost ≠ [] → fails = true)
    (hdone : .done ∈ kept ++ lost → fails = false) : TerminalLast decodeJson kept fails := by
  intro before payload after event heq hbefore hdecode hterminal
  have hsplit : kept ++ lost = before ++ .data payload :: (after ++ lost) := by
    rw [heq, List.append_assoc, List.cons_append]
  obtain hhead | ⟨hnil, hok⟩ := h before payload (after ++ lost) event hsplit hbefore hdecode hterminal
  · cases after with
    | cons item after => exact .inl hhead
    | nil =>
        cases lost with
        | nil => cases hhead
        | cons item lost =>
            obtain rfl : item = .done := Option.some.inj hhead
            rw [hdone (by simp)] at hlost
            exact absurd (hlost (by simp)) Bool.false_ne_true
  · exact .inr ⟨(List.append_eq_nil_iff.mp hnil).1, hok⟩

end Events

section Deliver

variable {decodeJson : Bytes → Except Json ResponseStreamEvent} {contentTypeMissing : Bool}

theorem deliver_done (saw : Bool) (rest : List SseItem) (error : Option SseError) :
    (deliver decodeJson contentTypeMissing saw (.done :: rest, error) : List (StreamItem Http Json)) =
      [] := rfl

theorem deliver_data_error {payload : Bytes} {e : Json} (h : decodeJson payload = .error e) (saw : Bool)
    (rest : List SseItem) (error : Option SseError) :
    (deliver decodeJson contentTypeMissing saw (.data payload :: rest, error) :
        List (StreamItem Http Json)) = [.error (.json e)] := by
  simp [deliver, dispatchSseItems, h]

theorem deliver_data_ok {payload : Bytes} {event : ResponseStreamEvent}
    (h : decodeJson payload = .ok event) (saw : Bool) (rest : List SseItem) (error : Option SseError) :
    (deliver decodeJson contentTypeMissing saw (.data payload :: rest, error) :
        List (StreamItem Http Json)) =
      .ok event :: deliver decodeJson contentTypeMissing true (rest, error) := by
  have hfirst : dispatchSseItems Http decodeJson [.data payload] = ([.ok event], false) := by
    simp [dispatchSseItems, h]
  have hafter := @deliver_after Http Json decodeJson contentTypeMissing saw [.data payload] (rest, error)
  rw [hfirst, List.isEmpty_cons, Bool.not_false, Bool.or_true] at hafter
  exact hafter

theorem deliver_nil_some (saw : Bool) (e : SseError) :
    (deliver decodeJson contentTypeMissing saw ([], some e) : List (StreamItem Http Json)) =
      [.error (.sse e)] := rfl

/-- Behind an event nothing is delivered only at the sentinel and at a clean end. -/
theorem deliver_eq_nil_iff (items : List SseItem) (error : Option SseError) :
    (deliver decodeJson contentTypeMissing true (items, error) : List (StreamItem Http Json)) = [] ↔
      items.head? = some .done ∨ (items = [] ∧ error = none) := by
  cases items with
  | nil =>
      cases error with
      | none => simp [deliver, dispatchSseItems, closing]
      | some e => simp [deliver_nil_some]
  | cons item rest =>
      cases item with
      | done => simp [deliver_done]
      | data payload =>
          rcases hdecode : decodeJson payload with e | event
          · simp [deliver_data_error hdecode]
          · simp [deliver_data_ok hdecode]

/-- A delivered event is the decoded form of one of the items, and the rest of the items
is delivered behind it. -/
theorem deliver_split {before : List SseItem} (h : ∀ item ∈ before, Decodes decodeJson item)
    {payload : Bytes} {event : ResponseStreamEvent} (hdecode : decodeJson payload = .ok event)
    (saw : Bool) (after : List SseItem) (error : Option SseError) :
    ∃ sent, (deliver decodeJson contentTypeMissing saw (before ++ .data payload :: after, error) :
        List (StreamItem Http Json)) =
      sent ++ .ok event :: deliver decodeJson contentTypeMissing true (after, error) := by
  induction before generalizing saw with
  | nil => exact ⟨[], deliver_data_ok hdecode saw after error⟩
  | cons item before ih =>
      obtain ⟨payload', event', rfl, hdecode'⟩ := h item (by simp)
      obtain ⟨sent, heq⟩ := ih (fun item hmem => h item (List.mem_cons_of_mem _ hmem)) true
      exact ⟨.ok event' :: sent, by rw [List.cons_append, deliver_data_ok hdecode', heq, List.cons_append]⟩

/-- Nothing stands behind an item of a list with at most one item. -/
theorem after_eq_nil_of_short {α : Type} {items before after : List α} {item : α}
    (hshort : items.length ≤ 1) (heq : items = before ++ item :: after) : after = [] := by
  rw [heq, List.length_append, List.length_cons] at hshort
  exact List.length_eq_zero_iff.mp (by omega)

/-- If terminal events are last, then nothing is delivered behind a closing item. -/
theorem deliver_ends (items : List SseItem) {error : Option SseError}
    (h : TerminalLast decodeJson items error.isSome) (saw : Bool)
    {before after : List (StreamItem Http Json)} {item : StreamItem Http Json}
    (heq : deliver decodeJson contentTypeMissing saw (items, error) = before ++ item :: after)
    (hcloses : Closes item) : after = [] := by
  induction items generalizing saw before with
  | nil =>
      refine after_eq_nil_of_short ?_ heq
      cases error with
      | none =>
          simp only [deliver, dispatchSseItems, closing, Bool.false_eq_true, if_false,
            List.nil_append]
          split <;> simp
      | some e => simp [deliver_nil_some]
  | cons first rest ih =>
      cases first with
      | done =>
          rw [deliver_done] at heq
          exact absurd heq.symm (by simp)
      | data payload =>
          rcases hdecode : decodeJson payload with e | event
          · rw [deliver_data_error hdecode] at heq
            exact after_eq_nil_of_short (by simp) heq
          · rw [deliver_data_ok hdecode] at heq
            cases before with
            | nil =>
                obtain ⟨rfl, rfl⟩ := List.cons.inj heq
                rw [deliver_eq_nil_iff]
                have hlast := h [] payload rest event rfl (by simp) hdecode hcloses
                rwa [Option.isSome_eq_false_iff, Option.isNone_iff_eq_none] at hlast
            | cons sent before =>
                exact ih (h.tail hdecode) true (List.cons.inj heq).2

end Deliver

section Stream

variable (Http) (decodeJson : Bytes → Except Json ResponseStreamEvent) (contentTypeMissing : Bool)
  (maxLineBytes maxEventBytes : UInt64)

/-- What a stream that ends at its terminal promises for a body: in every way of cutting it,
nothing is yielded behind a terminal event or an error, and nothing behind the sentinel. -/
def EndsAtTerminal (body : Bytes) : Prop :=
  ∀ chunks : List Bytes, chunks.flatten = body →
    (∀ before item after,
      (streamItems decodeJson maxLineBytes maxEventBytes contentTypeMissing (chunks.map .ok) :
        List (StreamItem Http Json)) = before ++ item :: after → Closes item → after = []) ∧
    ∀ before after, (bodyEvents maxLineBytes maxEventBytes body).1 = before ++ .done :: after →
      streamItems decodeJson maxLineBytes maxEventBytes contentTypeMissing (chunks.map .ok) =
        (dispatchSseItems Http decodeJson before).1

variable {Http decodeJson contentTypeMissing maxLineBytes maxEventBytes}

/-- Every stream delivers the events of its body up to those lost in front of an error. -/
theorem streamItems_eq (chunks : List Bytes) :
    ∃ kept lost error, (bodyEvents maxLineBytes maxEventBytes chunks.flatten).1 = kept ++ lost ∧
      (bodyEvents maxLineBytes maxEventBytes chunks.flatten).2 = Option.isSome error ∧
      (lost ≠ [] → Option.isSome error = true) ∧
      (streamItems decodeJson maxLineBytes maxEventBytes contentTypeMissing (chunks.map .ok) :
          List (StreamItem Http Json)) =
        deliver decodeJson contentTypeMissing false (kept, error) := by
  obtain ⟨kept, lost, hitems, herror, -, hread⟩ :=
    @readBody_eq Http Json decodeJson contentTypeMissing chunks _
      (SseDecoder.sound_new maxLineBytes maxEventBytes) false
  obtain ⟨hevents, hfails⟩ :=
    SseDecoder.remaining_new_events maxLineBytes maxEventBytes chunks.flatten
  exact ⟨kept, lost, _, hevents.symm.trans hitems, hfails.symm, herror, hread⟩

/-- Nothing is yielded behind the sentinel. -/
theorem streamItems_done {chunks : List Bytes} {before after : List SseItem}
    (h : (bodyEvents maxLineBytes maxEventBytes chunks.flatten).1 = before ++ .done :: after) :
    (streamItems decodeJson maxLineBytes maxEventBytes contentTypeMissing (chunks.map .ok) :
        List (StreamItem Http Json)) = (dispatchSseItems Http decodeJson before).1 := by
  obtain ⟨kept, lost, error, hitems, hfails, hlost, hread⟩ :=
    @streamItems_eq Http Json decodeJson contentTypeMissing maxLineBytes maxEventBytes chunks
  have hmem : .done ∈ (bodyEvents maxLineBytes maxEventBytes chunks.flatten).1 := by
    rw [h]
    simp
  rw [bodyEvents] at hmem hfails
  rw [eventsOf_done _ _ hmem] at hfails
  have hnone : lost = [] := by
    by_contra hne
    rw [← hfails] at hlost
    exact Bool.false_ne_true (hlost hne)
  rw [hnone, List.append_nil, h] at hitems
  rw [hread, ← hitems, deliver]
  simp only [dispatchSseItems_append]
  obtain ⟨sent, _ | _⟩ := dispatchSseItems Http decodeJson before
  · simp [dispatchSseItems]
  · simp

/-- A stream ends at its terminal for every chunking of a body exactly when the terminal
events that the body reaches are followed by the sentinel or by nothing at all. -/
theorem endsAtTerminal_iff (Http : Type) (decodeJson : Bytes → Except Json ResponseStreamEvent)
    (contentTypeMissing : Bool) (maxLineBytes maxEventBytes : UInt64) (body : Bytes) :
    EndsAtTerminal Http decodeJson contentTypeMissing maxLineBytes maxEventBytes body ↔
      TerminalLast decodeJson (bodyEvents maxLineBytes maxEventBytes body).1
        (bodyEvents maxLineBytes maxEventBytes body).2 := by
  constructor
  · intro hends before payload after event heq hbefore hdecode hterminal
    obtain ⟨hlast, -⟩ := hends (body.map fun byte => [byte]) (flatten_bytes body)
    obtain ⟨hevents, hfails⟩ := SseDecoder.remaining_new_events maxLineBytes maxEventBytes body
    obtain ⟨sent, hsent⟩ := @deliver_split Http Json decodeJson contentTypeMissing before hbefore
      payload event hdecode false after
      ((SseDecoder.new maxLineBytes maxEventBytes).remaining body).2
    have hnil := hlast sent (.ok event)
      (deliver decodeJson contentTypeMissing true
        (after, ((SseDecoder.new maxLineBytes maxEventBytes).remaining body).2))
      (by rw [streamItems_bytes, ← hsent, ← heq, ← hevents]) hterminal
    rw [deliver_eq_nil_iff] at hnil
    rw [← hfails, Option.isSome_eq_false_iff, Option.isNone_iff_eq_none]
    exact hnil
  · rintro hlast chunks rfl
    refine ⟨fun before item after heq hcloses => ?_, fun before after h => streamItems_done h⟩
    obtain ⟨kept, lost, error, hitems, hfails, hlost, hread⟩ :=
      @streamItems_eq Http Json decodeJson contentTypeMissing maxLineBytes maxEventBytes chunks
    rw [hitems, hfails] at hlast
    have hdone : .done ∈ kept ++ lost → error.isSome = false := by
      intro hmem
      rw [← hfails]
      rw [← hitems] at hmem
      exact eventsOf_done _ _ hmem
    exact deliver_ends kept (hlast.kept hlost hdone) false (hread.symm.trans heq) hcloses

/-- Behind a typed error event the stream goes on with the next frame. -/
theorem not_endsAtTerminal_errorEvent :
    ¬ EndsAtTerminal Unit
      (fun payload =>
        if payload = utf8 "\x7b\"type\":\"error\",\"code\":null,\"message\":\"m\",\"param\":null,\"sequence_number\":1\x7d"
        then .ok (.error ⟨none, "m", none, 1⟩)
        else if payload = utf8 "\x7b\"type\":\"x\"\x7d" then .ok (.unknown ⟨utf8 "x", none⟩)
        else .error ()) false 1024 1024
      (utf8 "data: \x7b\"type\":\"error\",\"code\":null,\"message\":\"m\",\"param\":null,\"sequence_number\":1\x7d\n\ndata: \x7b\"type\":\"x\"\x7d\n\n") := by
  intro hends
  obtain ⟨hlast, -⟩ := hends
    [utf8 "data: \x7b\"type\":\"error\",\"code\":null,\"message\":\"m\",\"param\":null,\"sequence_number\":1\x7d\n\ndata: \x7b\"type\":\"x\"\x7d\n\n"]
    (by simp)
  have hnil := hlast [] (.ok (.error ⟨none, "m", none, 1⟩)) [.ok (.unknown ⟨utf8 "x", none⟩)]
    (by decide +kernel) rfl
  cases hnil

end Stream

end OpenaiRs.Direct
