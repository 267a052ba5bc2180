import OpenaiRs.Sse.Terminal

/-!
# Readers of typed event streams

The typed event streams of `openai-rs-client` share one loop. It pushes the chunks of the
response body into the stream decoder, yields an item for every dispatch, and returns at
the first dispatch, error or closed decoder that ends the stream; at end of input the
flushed dispatches are yielded in the same way.

A reader is lawful for a set of closing items if it returns exactly when it has yielded
one. The items of a lawful reader end with at most one closing item, and they depend on
the bytes of the body only.

## Implementation notes

The streams differ in what they yield for a dispatch and in the dispatches at which they
return, separately for the loop over the chunks and for the flush. These are the fields
of `Reader`.
-/

namespace OpenaiRs.Sse

open Rust

/-- What a typed event stream yields for each dispatch, and whether it then returns. -/
structure Reader (Transport Item : Type) where
  onPushed : SseDispatch → Item × Bool
  onFlushed : SseDispatch → Item × Bool
  onSseError : SseDecodeError → Item
  onTransportError : Transport → Item

section Items

variable {Item : Type} (handle : SseDispatch → Item × Bool)

/-- The `for` loop over dispatches; the flag says that it returned from the stream. -/
def yieldDispatches : List SseDispatch → List Item × Bool
  | [] => ([], false)
  | dispatch :: rest =>
      let (item, returns) := handle dispatch
      if returns then ([item], true)
      else
        let (items, returned) := yieldDispatches rest
        (item :: items, returned)

end Items

/-- The dispatches and the error of a `_with_flushed` call. -/
def flushedParts :
    Except (SseDecodeError × List SseDispatch) (List SseDispatch) →
      List SseDispatch × Option SseDecodeError
  | .ok dispatches => (dispatches, none)
  | .error (source, flushed) => (flushed, some source)

theorem flushedParts_result (log : PushLog) :
    flushedParts log.result = (log.dispatches, log.error) := by
  obtain ⟨frames, dispatches, error⟩ := log
  cases error <;> rfl

namespace Reader

variable {Transport Item : Type} (r : Reader Transport Item)

/-- The flush at end of input. -/
def readEof (s : SseStreamDecoder) : List Item :=
  let (dispatches, eofError) := flushedParts s.finishWithFlushed.2
  let (items, returned) := yieldDispatches r.onFlushed dispatches
  if returned then items else items ++ (eofError.map r.onSseError).toList

/-- Everything a reader yields for the chunks of the response body. -/
def readChunks (s : SseStreamDecoder) : List (Except Transport Bytes) → List Item
  | [] => r.readEof s
  | .error e :: _ => [r.onTransportError e]
  | .ok chunk :: rest =>
      let (dispatches, chunkError) := flushedParts (s.pushWithFlushed chunk).2
      let (items, returned) := yieldDispatches r.onPushed dispatches
      if returned then items
      else
        match chunkError with
        | some source => items ++ [r.onSseError source]
        | none =>
            if (s.pushWithFlushed chunk).1.state ≠ .active then items
            else items ++ readChunks (s.pushWithFlushed chunk).1 rest

/-- The decoder calls that a reader can make on the chunks of a body. -/
def calls : List (Except Transport Bytes) → List SseStreamDecoder.StreamCall
  | [] => [.finish]
  | .error _ :: _ => []
  | .ok chunk :: rest => .push chunk :: calls rest

/-- A reader that returns exactly when it has yielded a closing item. The flush may go on
behind a dispatch that closes the decoder, since nothing follows it. -/
structure Lawful (r : Reader Transport Item) (policy : SseEndpointPolicy)
    (Closes : Item → Prop) : Prop where
  event : ∀ frame, policy.classify frame = .event →
    ((r.onPushed (.event frame)).2 = true ↔ Closes (r.onPushed (.event frame)).1)
  terminal : ∀ frame, policy.classify frame = .emittedTerminal →
    Closes (r.onPushed (.terminal frame)).1
  remoteError : ∀ frame, policy.classify frame = .remoteError →
    Closes (r.onPushed (.remoteError frame)).1
  flushedEvent : ∀ frame, policy.classify frame = .event →
    r.onFlushed (.event frame) = r.onPushed (.event frame)
  flushedTerminal : ∀ frame, policy.classify frame = .emittedTerminal →
    (r.onFlushed (.terminal frame)).1 = (r.onPushed (.terminal frame)).1
  flushedRemoteError : ∀ frame, policy.classify frame = .remoteError →
    (r.onFlushed (.remoteError frame)).1 = (r.onPushed (.remoteError frame)).1
  sseError : ∀ e, Closes (r.onSseError e)
  transportError : ∀ e, Closes (r.onTransportError e)

end Reader

section Deliver

variable {Transport Item : Type}

/-- The items of some dispatches and, if the loop did not return, those behind them. -/
def deliverItems (handle : SseDispatch → Item × Bool) (dispatches : List SseDispatch)
    (behind : List Item) : List Item :=
  if (yieldDispatches handle dispatches).2 then (yieldDispatches handle dispatches).1
  else (yieldDispatches handle dispatches).1 ++ behind

variable {handle : SseDispatch → Item × Bool}

theorem deliverItems_nil (behind : List Item) : deliverItems handle [] behind = behind := rfl

theorem deliverItems_cons (dispatch : SseDispatch) (rest : List SseDispatch)
    (behind : List Item) :
    deliverItems handle (dispatch :: rest) behind =
      if (handle dispatch).2 then [(handle dispatch).1]
      else (handle dispatch).1 :: deliverItems handle rest behind := by
  rw [deliverItems, deliverItems, yieldDispatches]
  obtain ⟨item, _ | _⟩ := handle dispatch
  · rcases yieldDispatches handle rest with ⟨items, _ | _⟩ <;> rfl
  · rfl

theorem deliverItems_append (first second : List SseDispatch) (behind : List Item) :
    deliverItems handle (first ++ second) behind =
      deliverItems handle first (deliverItems handle second behind) := by
  induction first with
  | nil => rfl
  | cons dispatch first ih =>
      rw [List.cons_append, deliverItems_cons, deliverItems_cons, ih]

/-- A dispatch at the end of the stream is yielded whether or not the loop returns. -/
theorem deliverItems_last (dispatch : SseDispatch) :
    deliverItems handle [dispatch] [] = [(handle dispatch).1] := by
  rw [deliverItems_cons]
  split <;> rfl

/-- The items of a whole outcome. -/
def Reader.deliverOutcome (r : Reader Transport Item) (handle : SseDispatch → Item × Bool)
    (outcome : StreamOutcome) : List Item :=
  deliverItems handle outcome.dispatches (outcome.error.map r.onSseError).toList

theorem Reader.deliverOutcome_after (r : Reader Transport Item) (dispatches : List SseDispatch)
    (rest : StreamOutcome) :
    r.deliverOutcome handle (StreamOutcome.after dispatches rest) =
      deliverItems handle dispatches (r.deliverOutcome handle rest) :=
  deliverItems_append dispatches rest.dispatches _

end Deliver

namespace Reader

variable {Transport Item : Type} {r : Reader Transport Item}

section Run

theorem readEof_eq (s : SseStreamDecoder) :
    r.readEof s = r.deliverOutcome r.onFlushed (StreamOutcome.ofResult s.finishWithFlushed) := by
  rw [readEof, SseStreamDecoder.finishWithFlushed, StreamOutcome.ofResult_result]
  simp only [flushedParts_result, deliverOutcome, deliverItems]

/-- One round of the loop over the chunks. -/
theorem readChunks_push (s : SseStreamDecoder) (chunk : Bytes)
    (rest : List (Except Transport Bytes)) :
    r.readChunks s (.ok chunk :: rest) =
      deliverItems r.onPushed (s.pushLog chunk).2.dispatches
        (match (s.pushLog chunk).2.error with
        | some source => [r.onSseError source]
        | none =>
            if (s.pushLog chunk).1.state ≠ .active then []
            else r.readChunks (s.pushLog chunk).1 rest) := by
  rw [readChunks, SseStreamDecoder.pushWithFlushed]
  simp only [flushedParts_result, deliverItems]
  split
  · rfl
  · obtain _ | source := (s.pushLog chunk).2.error
    · simp only
      split
      · rw [List.append_nil]
      · rfl
    · rfl

/-- A push either leaves a running decoder or decides the rest of the items. -/
theorem readChunks_cases {s : SseStreamDecoder} (h : s.Running) (chunk : Bytes)
    (rest : List (Except Transport Bytes)) :
    ((s.pushLog chunk).1.Running ∧
        (s.pushLog chunk).1.policy = s.policy ∧
        (∀ frame ∈ (s.pushLog chunk).2.frames, s.policy.classify frame = .event) ∧
        (s.pushLog chunk).2.dispatches = (s.pushLog chunk).2.frames.map .event ∧
        (∀ more, s.outcome (chunk ++ more) = StreamOutcome.after (s.pushLog chunk).2.dispatches
          ((s.pushLog chunk).1.outcome more)) ∧
        r.readChunks s (.ok chunk :: rest) = deliverItems r.onPushed
          (s.pushLog chunk).2.dispatches (r.readChunks (s.pushLog chunk).1 rest)) ∨
      ((s.pushLog chunk).1.state ≠ .active ∧
        (∀ more, s.decoded (chunk ++ more) = (s.pushLog chunk).2.frames) ∧
        ∀ more, r.readChunks s (.ok chunk :: rest) =
          r.deliverOutcome r.onPushed (s.outcome (chunk ++ more))) := by
  have hrecords := SseStreamDecoder.call_records h (.push chunk)
  rw [readChunks_push]
  obtain ⟨herror, hrunning, hmore⟩ | ⟨hend, -, hmore⟩ := SseStreamDecoder.pushLog_delivers h chunk
  · obtain ⟨-, hpolicy, hevents⟩ := hrecords.running hrunning.active
    refine Or.inl ⟨hrunning, hpolicy, hevents, ?_, fun more => (hmore more).1, ?_⟩
    · exact hrecords.dispatches.trans (flatMap_dispatch_events hevents)
    · rw [herror]
      simp only [hrunning.active, ne_eq, not_true_eq_false, if_false]
  · refine Or.inr ⟨hend, fun more => (hmore more).2, fun more => ?_⟩
    rw [(hmore more).1, deliverOutcome]
    obtain _ | source := (s.pushLog chunk).2.error
    · simp only [if_pos hend]
      rfl
    · rfl

/-- Items of dispatches come from a dispatch or stand behind all of them. -/
theorem mem_deliverItems {handle : SseDispatch → Item × Bool} {dispatches : List SseDispatch}
    {behind : List Item} {item : Item} (h : item ∈ deliverItems handle dispatches behind) :
    (∃ dispatch ∈ dispatches, (handle dispatch).1 = item) ∨ item ∈ behind := by
  induction dispatches with
  | nil => exact .inr h
  | cons dispatch rest ih =>
      rw [deliverItems_cons] at h
      by_cases hfirst : item = (handle dispatch).1
      · exact .inl ⟨dispatch, by simp, hfirst.symm⟩
      · have hlater : item ∈ deliverItems handle rest behind := by
          split at h
          · exact absurd (List.mem_singleton.mp h) hfirst
          · exact (List.mem_cons.mp h).resolve_left hfirst
        obtain ⟨later, hmem, heq⟩ | hbehind := ih hlater
        · exact .inl ⟨later, List.mem_cons_of_mem _ hmem, heq⟩
        · exact .inr hbehind

/-- A property of the items of all dispatches and errors holds for every item yielded. -/
theorem readChunks_forall {P : Item → Prop} {s : SseStreamDecoder}
    (hpushed : ∀ frame, ∀ dispatch ∈ s.policy.dispatch frame, P (r.onPushed dispatch).1)
    (hflushed : ∀ frame, ∀ dispatch ∈ s.policy.dispatch frame, P (r.onFlushed dispatch).1)
    (hsse : ∀ e, P (r.onSseError e)) (htransport : ∀ e, P (r.onTransportError e))
    (h : s.Running) (chunks : List (Except Transport Bytes)) :
    ∀ item ∈ r.readChunks s chunks, P item := by
  induction chunks generalizing s with
  | nil =>
      intro item hitem
      rw [readChunks, readEof_eq, SseStreamDecoder.finishWithFlushed, StreamOutcome.ofResult_result,
        deliverOutcome, (SseStreamDecoder.finishLog_records h).dispatches] at hitem
      obtain ⟨dispatch, hmem, rfl⟩ | hbehind := mem_deliverItems hitem
      · obtain ⟨frame, -, hmem⟩ := List.mem_flatMap.mp hmem
        exact hflushed frame dispatch hmem
      · obtain ⟨e, -, rfl⟩ := Option.map_eq_some_iff.mp (Option.mem_toList.mp hbehind)
        exact hsse e
  | cons chunk rest ih =>
      obtain e | chunk := chunk
      · intro item hitem
        rw [readChunks, List.mem_singleton] at hitem
        exact hitem ▸ htransport e
      · have hrecords := SseStreamDecoder.call_records h (.push chunk)
        intro item hitem
        rw [readChunks_push] at hitem
        obtain ⟨dispatch, hmem, rfl⟩ | hbehind := mem_deliverItems hitem
        · rw [show (s.pushLog chunk).2.dispatches = _ from hrecords.dispatches] at hmem
          obtain ⟨frame, -, hmem⟩ := List.mem_flatMap.mp hmem
          exact hpushed frame dispatch hmem
        · split at hbehind
          · rename_i source _
            rw [List.mem_singleton] at hbehind
            exact hbehind ▸ hsse source
          · split at hbehind
            · cases hbehind
            · rename_i hactive
              obtain ⟨hrunning, hpolicy, -⟩ := hrecords.running (not_not.mp hactive)
              exact ih (hpolicy ▸ hpushed) (hpolicy ▸ hflushed) hrunning item hbehind

variable {policy : SseEndpointPolicy} {Closes : Item → Prop}

/-- The flush yields what the loop over the chunks would yield. -/
theorem Lawful.deliver_flushed (hr : r.Lawful policy Closes) (error : Option SseDecodeError)
    (frames : List SseFrame) :
    r.deliverOutcome r.onFlushed (classifyRun policy error frames) =
      r.deliverOutcome r.onPushed (classifyRun policy error frames) := by
  induction frames with
  | nil =>
      simp only [classifyRun]
      split <;> rfl
  | cons frame rest ih =>
      rw [classifyRun]
      cases hclass : policy.classify frame with
      | event =>
          simp only [deliverOutcome_after, deliverItems_cons, deliverItems_nil, ih,
            hr.flushedEvent frame hclass]
      | emittedTerminal =>
          simp only [deliverOutcome, Option.map_none, Option.toList_none, deliverItems_last,
            hr.flushedTerminal frame hclass]
      | consumedTerminal => rfl
      | remoteError =>
          simp only [deliverOutcome, Option.map_none, Option.toList_none, deliverItems_last,
            hr.flushedRemoteError frame hclass]

theorem Lawful.readEof_eq_outcome {s : SseStreamDecoder} (hr : r.Lawful s.policy Closes)
    (h : s.Running) : r.readEof s = r.deliverOutcome r.onPushed (s.outcome []) := by
  rw [readEof_eq, SseStreamDecoder.finish_outcome h]
  exact hr.deliver_flushed _ _

/-- Without transport errors the items are those of the outcome of the body, if the flush is. -/
theorem readChunks_eq_of_readEof
    (heof : ∀ s : SseStreamDecoder, s.policy = policy → s.Running →
      r.readEof s = r.deliverOutcome r.onPushed (s.outcome []))
    {s : SseStreamDecoder} (hpolicy : s.policy = policy) (h : s.Running) (chunks : List Bytes) :
    r.readChunks s (chunks.map .ok) = r.deliverOutcome r.onPushed (s.outcome chunks.flatten) := by
  induction chunks generalizing s with
  | nil => exact heof s hpolicy h
  | cons chunk rest ih =>
      rw [List.map_cons, List.flatten_cons]
      rcases @readChunks_cases Transport Item r s h chunk (rest.map .ok) with
        ⟨hrunning, hafter, -, -, houtcome, hread⟩ | ⟨-, -, hread⟩
      · rw [hread, houtcome, deliverOutcome_after, ih (hafter.trans hpolicy) hrunning]
      · exact hread rest.flatten

theorem Lawful.readChunks_eq {s : SseStreamDecoder} (hr : r.Lawful s.policy Closes) (h : s.Running)
    (chunks : List Bytes) :
    r.readChunks s (chunks.map .ok) = r.deliverOutcome r.onPushed (s.outcome chunks.flatten) :=
  readChunks_eq_of_readEof (fun _ hpolicy hrunning => (hpolicy ▸ hr).readEof_eq_outcome hrunning) rfl h
    chunks

/-- A flush that handles dispatches like the loop over the chunks. -/
theorem readChunks_eq_of_same (hsame : r.onFlushed = r.onPushed) {s : SseStreamDecoder} (h : s.Running)
    (chunks : List Bytes) :
    r.readChunks s (chunks.map .ok) = r.deliverOutcome r.onPushed (s.outcome chunks.flatten) := by
  refine readChunks_eq_of_readEof (fun s _ hrunning => ?_) rfl h chunks
  rw [readEof_eq, SseStreamDecoder.finish_outcome hrunning, hsame]

end Run

section Shape

variable (Closes : Item → Prop) (done : Prop)

/-- Items that do not close, then at most one that does; without it `done` holds. -/
def Shaped (items : List Item) : Prop :=
  ∃ before closing, items = before ++ Option.toList closing ∧ (∀ item ∈ before, ¬ Closes item) ∧
    (∀ item, closing = some item → Closes item) ∧ (closing = none → done)

variable {Closes done}

theorem Shaped.mono {done' : Prop} {items : List Item} (h : Shaped Closes done items)
    (himp : done → done') : Shaped Closes done' items := by
  obtain ⟨before, closing, heq, hbefore, hclosing, hnone⟩ := h
  exact ⟨before, closing, heq, hbefore, hclosing, fun hc => himp (hnone hc)⟩

theorem shaped_closing {item : Item} (h : Closes item) : Shaped Closes done [item] := by
  refine ⟨[], some item, rfl, by simp, ?_, by simp⟩
  intro item' heq
  rwa [← Option.some.inj heq]

theorem shaped_nil (h : done) : Shaped Closes done [] :=
  ⟨[], none, rfl, by simp, by simp, fun _ => h⟩

theorem Shaped.cons {item : Item} (hitem : ¬ Closes item) {items : List Item}
    (h : Shaped Closes done items) : Shaped Closes done (item :: items) := by
  obtain ⟨before, closing, rfl, hbefore, hclosing, hnone⟩ := h
  refine ⟨item :: before, closing, rfl, ?_, hclosing, hnone⟩
  intro item' hmem
  obtain rfl | hmem := List.mem_cons.mp hmem
  · exact hitem
  · exact hbefore item' hmem

variable {policy : SseEndpointPolicy}

/-- Ordinary events in front keep the shape. -/
theorem Lawful.shaped_events (hr : r.Lawful policy Closes) {frames : List SseFrame}
    (hevents : ∀ frame ∈ frames, policy.classify frame = .event) {behind : List Item}
    (h : Shaped Closes done behind) :
    Shaped Closes done (deliverItems r.onPushed (frames.map .event) behind) := by
  induction frames with
  | nil => exact h
  | cons frame frames ih =>
      have hlaw := hr.event frame (hevents frame (by simp))
      rw [List.map_cons, deliverItems_cons]
      by_cases hreturns : (r.onPushed (.event frame)).2 = true
      · rw [if_pos hreturns]
        exact shaped_closing (hlaw.mp hreturns)
      · rw [if_neg hreturns]
        refine Shaped.cons (fun hcloses => hreturns (hlaw.mpr hcloses)) (ih ?_)
        intro frame hmem
        exact hevents frame (List.mem_cons_of_mem _ hmem)

/-- The items of an outcome close, or a sentinel was consumed. -/
theorem Lawful.shaped_classifyRun (hr : r.Lawful policy Closes) (heof : policy.eof = .requireTerminal)
    (error : Option SseDecodeError) (frames : List SseFrame) :
    Shaped Closes (∃ frame ∈ policy.seen frames, policy.classify frame = .consumedTerminal)
      (r.deliverOutcome r.onPushed (classifyRun policy error frames)) := by
  induction frames with
  | nil =>
      cases error with
      | none =>
          simp only [classifyRun, heof]
          exact shaped_closing (hr.sseError _)
      | some e => exact shaped_closing (hr.sseError e)
  | cons frame rest ih =>
      rw [classifyRun, SseEndpointPolicy.seen]
      cases hclass : policy.classify frame with
      | event =>
          rw [if_pos rfl, deliverOutcome_after]
          have hevents : ∀ only ∈ [frame], policy.classify only = .event := by simpa using hclass
          refine hr.shaped_events hevents (ih.mono ?_)
          rintro ⟨sentinel, hmem, hconsumed⟩
          exact ⟨sentinel, List.mem_cons_of_mem _ hmem, hconsumed⟩
      | emittedTerminal =>
          rw [deliverOutcome, Option.map_none, Option.toList_none, deliverItems_last]
          exact shaped_closing (hr.terminal frame hclass)
      | consumedTerminal => exact shaped_nil ⟨frame, by simp, hclass⟩
      | remoteError =>
          rw [deliverOutcome, Option.map_none, Option.toList_none, deliverItems_last]
          exact shaped_closing (hr.remoteError frame hclass)

/-- Whatever the chunks and the end of the body are, the items are ordinary ones followed
by at most one closing item, which is only missing behind a consumed sentinel. -/
theorem Lawful.shaped_readChunks {s : SseStreamDecoder} (hr : r.Lawful s.policy Closes)
    (heof : s.policy.eof = .requireTerminal) (h : s.Running)
    (chunks : List (Except Transport Bytes)) :
    Shaped Closes
      (∃ frame ∈ (s.trace (calls chunks)).frames, s.policy.classify frame = .consumedTerminal)
      (r.readChunks s chunks) := by
  induction chunks generalizing s with
  | nil =>
      change Shaped Closes (∃ frame ∈ s.finishLog.2.frames ++ [], _) (r.readEof s)
      rw [List.append_nil, SseStreamDecoder.finishLog_frames h, hr.readEof_eq_outcome h]
      exact hr.shaped_classifyRun heof _ _
  | cons chunk rest ih =>
      obtain e | chunk := chunk
      · exact shaped_closing (hr.transportError e)
      · change Shaped Closes (∃ frame ∈ (s.pushLog chunk).2.frames ++
          ((s.pushLog chunk).1.trace (calls rest)).frames, _) _
        rcases @readChunks_cases Transport Item r s h chunk rest with
          ⟨hrunning, hpolicy, hevents, hdispatches, -, hread⟩ | ⟨hend, hframes, hread⟩
        · rw [hread, hdispatches]
          have hrest := ih (hpolicy ▸ hr) (hpolicy ▸ heof) hrunning
          rw [hpolicy] at hrest
          refine hr.shaped_events hevents (hrest.mono ?_)
          rintro ⟨sentinel, hmem, hconsumed⟩
          exact ⟨sentinel, List.mem_append_right _ hmem, hconsumed⟩
        · rw [hread [], SseStreamDecoder.trace_closed hend, List.append_nil, ← hframes []]
          exact hr.shaped_classifyRun heof _ _

end Shape

end Reader

end OpenaiRs.Sse
