import OpenaiRs.Sse.Judged
import OpenaiRs.Sse.Reader

/-!
# Readers that push without flushing

`SseStreamDecoder::push` returns the error of a failing push alone. A reader that pushes with it loses the
events that the same chunk completed in front of the error, so what it yields depends on the chunks.
`Loses` says for which bodies it does.
-/

namespace OpenaiRs.Sse

open Rust Text

/-- Feed a transport chunk. A parsing error drops the dispatches in front of it. -/
def SseStreamDecoder.push (s : SseStreamDecoder) (chunk : Bytes) :
    SseStreamDecoder × Except SseDecodeError (List SseDispatch) :=
  ((s.pushWithFlushed chunk).1, (s.pushWithFlushed chunk).2.mapError Prod.fst)

/-- Everything a reader that does not flush failing pushes yields for the chunks of the body. -/
def Reader.readPushed {Transport Item : Type} (r : Reader Transport Item) (s : SseStreamDecoder) :
    List (Except Transport Bytes) → List Item
  | [] => r.readEof s
  | .error e :: _ => [r.onTransportError e]
  | .ok chunk :: rest =>
      match (s.push chunk).2 with
      | .error source => [r.onSseError source]
      | .ok dispatches =>
          let (items, returned) := yieldDispatches r.onPushed dispatches
          if returned then items
          else if (s.push chunk).1.state ≠ .active then items
          else items ++ readPushed r (s.push chunk).1 rest

/-- A frame is completed in front of a violation that is found before the end, and none closes the
stream. -/
def Loses (limits : SseLimits) (policy : SseEndpointPolicy) (body : Bytes) : Prop :=
  (judgedEvents limits body).2.isSome = true ∧ (judgedEvents limits body).1 ≠ [] ∧
    ∀ frame ∈ (judgedEvents limits body).1, policy.classify frame = .event

instance instDecidableLoses (limits : SseLimits) (policy : SseEndpointPolicy) (body : Bytes) :
    Decidable (Loses limits policy body) :=
  inferInstanceAs (Decidable (_ ∧ _ ∧ _))

namespace SseStreamDecoder

section Judge

/-- What a call says about what is judged of its input, whatever follows. -/
structure Judges (s : SseStreamDecoder) (input : Bytes) (after : SseStreamDecoder) (log : PushLog) :
    Prop where
  error : ∀ e, log.error = some e → ∀ more, ∃ frames, s.decoder.judged (input ++ more) = (frames, some e)
  active : after.state = .active → after.decoder.Judgeable ∧
    ∀ more, s.decoder.judged (input ++ more) = Outcome.after log.frames (after.decoder.judged more)

theorem judges_nil {s : SseStreamDecoder} (hjudgeable : s.decoder.Judgeable) : s.Judges [] s ⟨[], [], none⟩ where
  error e herror := by cases herror
  active _ := ⟨hjudgeable, fun _ => rfl⟩

/-- The loop over a chunk judges the chunk. -/
theorem pushLoop_judges (fuel : Nat) (s : SseStreamDecoder) (chunk : Bytes)
    (hfuel : chunk.length ≤ fuel) (hactive : s.state = .active) (hjudgeable : s.decoder.Judgeable) :
    s.Judges chunk (pushLoop fuel s chunk).1 (pushLoop fuel s chunk).2 := by
  induction fuel generalizing s chunk with
  | zero =>
      obtain rfl : chunk = [] := List.length_eq_zero_iff.mp (Nat.le_zero.mp hfuel)
      exact judges_nil hjudgeable
  | succ fuel ih =>
      cases chunk with
      | nil => exact judges_nil hjudgeable
      | cons b rest =>
          have hpushed := SseDecoder.push_judges hjudgeable
            ((b :: rest).take (nextCut s.decoder.lineBuffer (b :: rest)))
          have hcut := nextCut_pos s.decoder.lineBuffer b rest
          have hsplit : ∀ more, (b :: rest) ++ more =
              (b :: rest).take (nextCut s.decoder.lineBuffer (b :: rest)) ++
                ((b :: rest).drop (nextCut s.decoder.lineBuffer (b :: rest)) ++ more) := by
            intro more
            rw [← List.append_assoc, List.take_append_drop]
          rw [pushLoop_cons]
          rcases hpush : s.decoder.push
              ((b :: rest).take (nextCut s.decoder.lineBuffer (b :: rest))) with
            ⟨decoder, e | frames⟩
          · rw [hpush] at hpushed
            refine ⟨fun e' herror more => ?_, fun hcontra => by cases hcontra⟩
            obtain rfl := Option.some.inj herror
            rw [hsplit]
            exact hpushed _
          · rw [hpush] at hpushed
            obtain ⟨hnext, hrun⟩ := hpushed
            rcases classifyFrames_cases { s with decoder := decoder } frames with
              ⟨heq, -⟩ | ⟨hstate, -, -, -⟩
            · simp only [heq, if_neg (not_not.mpr hactive)]
              have hlater := ih { s with decoder := decoder }
                ((b :: rest).drop (nextCut s.decoder.lineBuffer (b :: rest)))
                (by rw [List.length_drop]; rw [List.length_cons] at hfuel ⊢; omega) hactive hnext
              refine ⟨fun e herror more => ?_, fun hstate => ⟨(hlater.active hstate).1, fun more => ?_⟩⟩
              · obtain ⟨later, hjudged⟩ := hlater.error e herror more
                refine ⟨frames ++ later, ?_⟩
                rw [hsplit, hrun, hjudged]
                rfl
              · rw [hsplit, hrun, (hlater.active hstate).2 more, Outcome.after_after]
            · simp only [if_pos hstate]
              exact ⟨fun e herror => (by cases herror), fun hcontra => absurd hcontra hstate⟩

theorem pushLog_judges {s : SseStreamDecoder} (h : s.Running) (hjudgeable : s.decoder.Judgeable)
    (chunk : Bytes) : s.Judges chunk (s.pushLog chunk).1 (s.pushLog chunk).2 := by
  rw [pushLog, if_pos h.active]
  exact pushLoop_judges chunk.length s chunk (Nat.le_refl _) h.active hjudgeable

end Judge

section Drop

/-- Behind a closing frame there is no error. -/
theorem classifyRun_error_of_closing {policy : SseEndpointPolicy} {frames : List SseFrame}
    (h : ¬ ∀ frame ∈ frames, policy.classify frame = .event) (error : Option SseDecodeError) :
    (classifyRun policy error frames).error = none := by
  induction frames with
  | nil => exact absurd (by simp) h
  | cons frame frames ih =>
      rw [classifyRun]
      cases hclass : policy.classify frame with
      | event =>
          refine ih ?_
          intro hall
          exact h (List.forall_mem_cons.mpr ⟨hclass, hall⟩)
      | emittedTerminal => rfl
      | consumedTerminal => rfl
      | remoteError => rfl

/-- What the decoder judges of an input is an error behind events that do not close the stream. -/
def LosesFrom (s : SseStreamDecoder) (input : Bytes) : Prop :=
  (s.decoder.judged input).2.isSome = true ∧ (s.decoder.judged input).1 ≠ [] ∧
    ∀ frame ∈ (s.decoder.judged input).1, s.policy.classify frame = .event

/-- No failing push of this run drops a dispatch. -/
def NothingDropped (s : SseStreamDecoder) : List Bytes → Prop
  | [] => True
  | chunk :: rest =>
      ((s.pushLog chunk).2.error.isSome = true → (s.pushLog chunk).2.dispatches = []) ∧
        ((s.pushLog chunk).1.state = .active → NothingDropped (s.pushLog chunk).1 rest)

variable {s : SseStreamDecoder}

theorem outcome_of_judged {input : Bytes} {frames : List SseFrame} {e : SseDecodeError}
    (h : s.decoder.judged input = (frames, some e)) :
    s.outcome input = classifyRun s.policy (some e) frames := by
  rw [outcome, SseDecoder.remaining_of_judged h]

/-- A failing push judges its input, and what it drops are events. -/
theorem losesFrom_of_dropped (h : s.Running) (hjudgeable : s.decoder.Judgeable) {chunk : Bytes}
    (herror : (s.pushLog chunk).2.error.isSome = true) (hdropped : (s.pushLog chunk).2.dispatches ≠ [])
    (more : Bytes) : s.LosesFrom (chunk ++ more) := by
  obtain ⟨e, he⟩ := Option.isSome_iff_exists.mp herror
  obtain ⟨frames, hjudged⟩ := (pushLog_judges h hjudgeable chunk).error e he more
  have houtcome := outcome_of_judged hjudged
  obtain ⟨hnone, -⟩ | ⟨-, -, hmore⟩ := pushLog_delivers h chunk
  · rw [hnone] at he
    cases he
  · rw [(hmore more).1, he] at houtcome
    have hevents : ∀ frame ∈ frames, s.policy.classify frame = .event := by
      by_contra hclosing
      have hnone := classifyRun_error_of_closing hclosing (some e)
      rw [← houtcome] at hnone
      cases hnone
    rw [LosesFrom, hjudged]
    refine ⟨rfl, ?_, hevents⟩
    rintro rfl
    exact hdropped (congrArg StreamOutcome.dispatches houtcome)

/-- An input of which nothing is lost drops nothing, however it is cut. -/
theorem nothingDropped_of_not_losesFrom (chunks : List Bytes) (h : s.Running)
    (hjudgeable : s.decoder.Judgeable) (hkept : ¬ s.LosesFrom chunks.flatten) : s.NothingDropped chunks := by
  induction chunks generalizing s with
  | nil => trivial
  | cons chunk rest ih =>
      rw [List.flatten_cons] at hkept
      refine ⟨fun herror => ?_, fun hactive => ?_⟩
      · by_contra hdropped
        exact hkept (losesFrom_of_dropped h hjudgeable herror hdropped rest.flatten)
      · obtain ⟨hnext, hrun⟩ := (pushLog_judges h hjudgeable chunk).active hactive
        obtain ⟨hrunning, hpolicy, hevents⟩ := (call_records h (.push chunk)).running hactive
        refine ih hrunning hnext ?_
        rintro ⟨herror, hframes, hall⟩
        refine hkept ?_
        rw [LosesFrom, hrun]
        refine ⟨herror, ?_, ?_⟩
        · exact List.append_ne_nil_of_right_ne_nil _ hframes
        · rw [show (s.pushLog chunk).1.policy = s.policy from hpolicy] at hall
          exact List.forall_mem_append.mpr ⟨hevents, hall⟩

/-- A push of one byte drops nothing. -/
theorem dispatches_of_single (h : s.state = .active) (b : UInt8)
    (herror : (s.pushLog [b]).2.error.isSome = true) : (s.pushLog [b]).2.dispatches = [] := by
  rw [pushLog, if_pos h, List.length_singleton, pushLoop_cons] at herror ⊢
  rcases hpush : s.decoder.push ([b].take (nextCut s.decoder.lineBuffer [b])) with ⟨decoder, e | frames⟩
  · rfl
  · rw [hpush] at herror
    simp only [pushLoop] at herror
    split at herror
    · cases herror
    · cases herror

theorem nothingDropped_bytes (body : Bytes) (h : s.Running) :
    s.NothingDropped (body.map fun b => [b]) := by
  induction body generalizing s with
  | nil => trivial
  | cons b rest ih =>
      refine ⟨dispatches_of_single h.active b, fun hactive => ?_⟩
      exact ih ((call_records h (.push [b])).running hactive).1

/-- A push of the whole input fails on it, if it is lost. -/
theorem pushLog_of_losesFrom (h : s.Running) (hjudgeable : s.decoder.Judgeable) {input : Bytes}
    (hloses : s.LosesFrom input) :
    ∃ (frame : SseFrame) (frames : List SseFrame) (e : SseDecodeError),
      (s.pushLog input).2.error = some e ∧
      s.outcome input = ⟨.event frame :: frames.map .event, some e, .failed⟩ := by
  obtain ⟨herror, hframes, hevents⟩ := hloses
  obtain ⟨e, he⟩ := Option.isSome_iff_exists.mp herror
  obtain ⟨frame, frames, hcons⟩ := List.exists_cons_of_ne_nil hframes
  have houtcome : s.outcome input = ⟨.event frame :: frames.map .event, some e, .failed⟩ := by
    have hrun := classifyRun_events hevents (some e) []
    rw [List.append_nil, hcons] at hrun
    rw [outcome_of_judged (Prod.ext hcons he), hrun]
    simp [classifyRun, StreamOutcome.after]
  refine ⟨frame, frames, e, ?_, houtcome⟩
  obtain ⟨-, hrunning, -⟩ | ⟨-, -, hmore⟩ := pushLog_delivers h input
  · -- A push that goes on has judged its input without an error.
    obtain ⟨hnext, hrun⟩ := (pushLog_judges h hjudgeable input).active hrunning.active
    have hjudged := hrun []
    rw [List.append_nil, SseDecoder.judged_nil hnext] at hjudged
    rw [hjudged] at he
    cases he
  · have hend := (hmore []).1
    rw [List.append_nil, houtcome] at hend
    exact (congrArg StreamOutcome.error hend).symm

end Drop

end SseStreamDecoder

namespace Reader

variable {Transport Item : Type} {r : Reader Transport Item}

section Read

/-- One round of the loop over the chunks. -/
theorem readPushed_push (s : SseStreamDecoder) (chunk : Bytes) (rest : List (Except Transport Bytes)) :
    r.readPushed s (.ok chunk :: rest) =
      match (s.pushLog chunk).2.error with
      | some source => [r.onSseError source]
      | none =>
          deliverItems r.onPushed (s.pushLog chunk).2.dispatches
            (if (s.pushLog chunk).1.state ≠ .active then []
            else r.readPushed (s.pushLog chunk).1 rest) := by
  rw [readPushed, SseStreamDecoder.push, SseStreamDecoder.pushWithFlushed, PushLog.result]
  cases (s.pushLog chunk).2.error with
  | some source => rfl
  | none =>
      simp only [Except.mapError, deliverItems]
      split
      · rfl
      · split
        · rw [List.append_nil]
        · rfl

/-- A run that drops nothing yields what it would yield with the dropped dispatches flushed. -/
theorem readPushed_of_nothingDropped (chunks : List Bytes) {s : SseStreamDecoder}
    (h : s.NothingDropped chunks) :
    r.readPushed s (chunks.map .ok) = r.readChunks s (chunks.map .ok) := by
  induction chunks generalizing s with
  | nil => rfl
  | cons chunk rest ih =>
      obtain ⟨hdropped, hrest⟩ := h
      rw [List.map_cons, readPushed_push, readChunks_push]
      cases herror : (s.pushLog chunk).2.error with
      | some source =>
          rw [hdropped (by rw [herror]; rfl)]
          rfl
      | none =>
          by_cases hactive : (s.pushLog chunk).1.state = .active
          · rw [if_neg (not_not.mpr hactive), ih (hrest hactive)]
            simp only [if_neg (not_not.mpr hactive)]
          · simp only [if_pos hactive]

/-- Nothing follows a closing item. -/
def ClosesLast (Closes : Item → Prop) (items : List Item) : Prop :=
  ∀ before item after, items = before ++ item :: after → Closes item → after = []

variable {Closes : Item → Prop}

theorem closesLast_nil : ClosesLast Closes [] := by
  intro before item after h
  simp at h

theorem closesLast_single (item : Item) : ClosesLast Closes [item] := by
  intro before item' after h _
  cases before with
  | nil => exact (List.cons.inj h).2.symm
  | cons first before => simp at h

theorem ClosesLast.cons {item : Item} {items : List Item} (hitem : ¬ Closes item)
    (h : ClosesLast Closes items) : ClosesLast Closes (item :: items) := by
  intro before item' after heq hcloses
  cases before with
  | nil =>
      obtain ⟨rfl, -⟩ := List.cons.inj heq
      exact absurd hcloses hitem
  | cons first before => exact h before item' after (List.cons.inj heq).2 hcloses

/-- A loop that returns at its closing items, in front of items that close last. -/
theorem closesLast_deliverItems {handle : SseDispatch → Item × Bool}
    (hreturns : ∀ dispatch, Closes (handle dispatch).1 → (handle dispatch).2 = true)
    (dispatches : List SseDispatch) {behind : List Item} (h : ClosesLast Closes behind) :
    ClosesLast Closes (deliverItems handle dispatches behind) := by
  induction dispatches with
  | nil => exact h
  | cons dispatch rest ih =>
      rw [deliverItems_cons]
      split
      · exact closesLast_single _
      · rename_i hgoes
        exact ih.cons (fun hcloses => hgoes (hreturns dispatch hcloses))

/-- However the body is cut and however it ends, nothing follows a closing item. -/
theorem readPushed_closesLast
    (hpushed : ∀ dispatch, Closes (r.onPushed dispatch).1 → (r.onPushed dispatch).2 = true)
    (hflushed : ∀ dispatch, Closes (r.onFlushed dispatch).1 → (r.onFlushed dispatch).2 = true)
    (chunks : List (Except Transport Bytes)) (s : SseStreamDecoder) :
    ClosesLast Closes (r.readPushed s chunks) := by
  induction chunks generalizing s with
  | nil =>
      change ClosesLast Closes (r.readEof s)
      rw [readEof_eq, deliverOutcome]
      refine closesLast_deliverItems hflushed _ ?_
      cases (StreamOutcome.ofResult s.finishWithFlushed).error with
      | none => exact closesLast_nil
      | some e => exact closesLast_single _
  | cons chunk rest ih =>
      cases chunk with
      | error e => exact closesLast_single _
      | ok chunk =>
          rw [readPushed_push]
          cases (s.pushLog chunk).2.error with
          | some source => exact closesLast_single _
          | none =>
              refine closesLast_deliverItems hpushed _ ?_
              split
              · exact closesLast_nil
              · exact ih _

end Read

section Deliver

/-- What is yielded for the frames of a body that blank lines end in front of its first violation. -/
def completedItems (r : Reader Transport Item) (limits : SseLimits) (policy : SseEndpointPolicy)
    (body : Bytes) : List Item :=
  (yieldDispatches r.onPushed (classifyRun policy none
    (framesBefore limits [] [] (lines cr lf [] (stripBom body))).1).dispatches).1

/-- What a stream that does not depend on the chunks promises for a body: every way of cutting it yields
the same items, and they begin with those of the frames in front of its first violation. -/
def DeliversBody (r : Reader Transport Item) (limits : SseLimits) (policy : SseEndpointPolicy)
    (body : Bytes) : Prop :=
  (∀ chunks chunks' : List Bytes, chunks.flatten = body → chunks'.flatten = body →
    r.readPushed (.new limits policy) (chunks.map .ok) =
      r.readPushed (.new limits policy) (chunks'.map .ok)) ∧
  ∀ chunks : List Bytes, chunks.flatten = body →
    r.completedItems limits policy body <+: r.readPushed (.new limits policy) (chunks.map .ok)

/-- With its flush at the end, a run over lines has the frames in front of the first violation first. -/
theorem framesBefore_prefix (limits : SseLimits) (seen block : List Field) (input : List Bytes) :
    (framesBefore limits seen block input).1 <+: (runLines limits (registersOf seen block) input).1 := by
  induction input generalizing seen block with
  | nil => exact List.nil_prefix
  | cons line rest ih =>
      have hline := processLine_registersOf limits seen block line
      rw [framesBefore]
      cases hviolation : violation limits block line with
      | some e => exact List.nil_prefix
      | none =>
          rw [hviolation] at hline
          rw [runLines_cons_ok hline]
          exact (List.prefix_append_right_inj _).mpr (ih _ _)

/-- The dispatches of the first frames come first. -/
theorem classifyRun_dispatches_prefix (policy : SseEndpointPolicy) (error : Option SseDecodeError)
    (frames more : List SseFrame) :
    (classifyRun policy none frames).dispatches <+:
      (classifyRun policy error (frames ++ more)).dispatches := by
  induction frames with
  | nil =>
      cases heof : policy.eof with
      | complete => simp [classifyRun, heof]
      | requireTerminal => simp [classifyRun, heof]
  | cons frame frames ih =>
      rw [List.cons_append, classifyRun, classifyRun]
      cases policy.classify frame with
      | event => exact (List.prefix_append_right_inj [.event frame]).mpr ih
      | emittedTerminal => exact List.prefix_rfl
      | consumedTerminal => exact List.prefix_rfl
      | remoteError => exact List.prefix_rfl

theorem yieldDispatches_prefix (handle : SseDispatch → Item × Bool) (dispatches more : List SseDispatch)
    (behind : List Item) :
    (yieldDispatches handle dispatches).1 <+: deliverItems handle (dispatches ++ more) behind := by
  rw [deliverItems_append, deliverItems]
  split
  · exact List.prefix_rfl
  · exact List.prefix_append _ _

theorem completedItems_prefix (limits : SseLimits) (policy : SseEndpointPolicy) (body : Bytes) :
    r.completedItems limits policy body <+:
      r.deliverOutcome r.onPushed ((SseStreamDecoder.new limits policy).outcome body) := by
  obtain ⟨flushed, hframes⟩ := framesBefore_prefix limits [] [] (lines cr lf [] (stripBom body))
  obtain ⟨more, hdispatches⟩ := classifyRun_dispatches_prefix policy
    ((SseDecoder.new limits).remaining body).2
    (framesBefore limits [] [] (lines cr lf [] (stripBom body))).1 flushed
  have houtcome : ((SseStreamDecoder.new limits policy).outcome body).dispatches =
      (classifyRun policy none
        (framesBefore limits [] [] (lines cr lf [] (stripBom body))).1).dispatches ++ more := by
    rw [hdispatches, hframes]
    rfl
  rw [completedItems, deliverOutcome, houtcome]
  exact yieldDispatches_prefix _ _ _ _

theorem losesFrom_new (limits : SseLimits) (policy : SseEndpointPolicy) (body : Bytes) :
    (SseStreamDecoder.new limits policy).LosesFrom body ↔ Loses limits policy body := by
  have hjudged : (SseStreamDecoder.new limits policy).decoder.judged body = judgedEvents limits body :=
    SseDecoder.judged_new limits body
  rw [SseStreamDecoder.LosesFrom, hjudged]
  exact Iff.rfl

/-- What a reader without flush yields is independent of the chunks, and begins with the frames in front of
the first violation, for exactly the bodies of which nothing is lost. -/
theorem deliversBody_iff (hsame : r.onFlushed = r.onPushed)
    (hdistinct : ∀ frame e, (r.onPushed (.event frame)).1 ≠ r.onSseError e)
    (limits : SseLimits) (policy : SseEndpointPolicy) (body : Bytes) :
    r.DeliversBody limits policy body ↔ ¬ Loses limits policy body := by
  have hrunning := SseStreamDecoder.running_new limits policy
  have hjudgeable : (SseStreamDecoder.new limits policy).decoder.Judgeable := SseDecoder.judgeable_new limits
  have hread : ∀ chunks : List Bytes, (SseStreamDecoder.new limits policy).NothingDropped chunks →
      r.readPushed (.new limits policy) (chunks.map .ok) =
        r.deliverOutcome r.onPushed ((SseStreamDecoder.new limits policy).outcome chunks.flatten) := by
    intro chunks hdropped
    rw [readPushed_of_nothingDropped chunks hdropped, readChunks_eq_of_same hsame hrunning]
  constructor
  · rintro ⟨hsame, -⟩ hloses
    obtain ⟨frame, frames, e, herror, houtcome⟩ :=
      SseStreamDecoder.pushLog_of_losesFrom hrunning hjudgeable ((losesFrom_new limits policy body).mpr hloses)
    -- The body in one chunk against the body byte by byte.
    have hflat : (body.map fun b => [b]).flatten = body := by
      rw [← List.flatMap_def, List.flatMap_singleton']
    have hwhole : r.readPushed (.new limits policy) ([body].map .ok) = [r.onSseError e] := by
      rw [List.map_singleton, readPushed_push, herror]
    have hcut := hsame [body] (body.map fun b => [b]) (by simp) hflat
    rw [hwhole, hread _ (SseStreamDecoder.nothingDropped_bytes body hrunning), hflat, houtcome,
      deliverOutcome, deliverItems_cons] at hcut
    refine hdistinct frame e ?_
    split at hcut
    · exact (List.cons.inj hcut).1.symm
    · exact (List.cons.inj hcut).1.symm
  · intro hkept
    have hall : ∀ chunks : List Bytes, chunks.flatten = body →
        r.readPushed (.new limits policy) (chunks.map .ok) =
          r.deliverOutcome r.onPushed ((SseStreamDecoder.new limits policy).outcome body) := by
      rintro chunks rfl
      refine hread chunks (SseStreamDecoder.nothingDropped_of_not_losesFrom chunks hrunning hjudgeable ?_)
      rw [losesFrom_new]
      exact hkept
    refine ⟨fun chunks chunks' h h' => ?_, fun chunks h => ?_⟩
    · rw [hall chunks h, hall chunks' h']
    · rw [hall chunks h]
      exact completedItems_prefix limits policy body

end Deliver

end Reader

end OpenaiRs.Sse
