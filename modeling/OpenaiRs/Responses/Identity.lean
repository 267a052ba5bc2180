import OpenaiRs.Responses.Operations

/-!
# The identity invariant

Every stored text and every stored argument belongs to the item that is bound to its
output index. The operations of an event write only behind a binding of the same item, so
the invariant holds even between the operations of one event and survives an event that
is rejected halfway. It makes the identity checks of the writing methods redundant.
-/

namespace OpenaiRs.Responses

open Rust Text

namespace Operation

/-- The binding that an operation makes. -/
def binding : Operation → Option (Nat × String)
  | bind outputIndex itemId => some (outputIndex, itemId)
  | _ => none

/-- The item that an operation writes to. -/
def target : Operation → Option (Nat × String)
  | text outputIndex _ itemId _ => some (outputIndex, itemId)
  | arguments outputIndex itemId _ => some (outputIndex, itemId)
  | _ => none

/-- Every write stands behind a binding of its item, or the item is bound before. -/
def Guarded (bound : List (Nat × String)) : List Operation → Prop
  | [] => True
  | op :: rest =>
      (∀ item, op.target = some item → item ∈ bound) ∧ Guarded (op.binding.toList ++ bound) rest

theorem Guarded.mono {ops : List Operation} {bound bound' : List (Nat × String)}
    (hsub : ∀ item ∈ bound, item ∈ bound') (h : Guarded bound ops) : Guarded bound' ops := by
  induction ops generalizing bound bound' with
  | nil => trivial
  | cons op ops ih =>
      refine ⟨fun item htarget => hsub item (h.1 item htarget), ih ?_ h.2⟩
      intro item hmem
      obtain hmem | hmem := List.mem_append.mp hmem
      · exact List.mem_append_left _ hmem
      · exact List.mem_append_right _ (hsub item hmem)

theorem guarded_of_targets {ops : List Operation} {bound : List (Nat × String)}
    (h : ∀ op ∈ ops, ∀ item, op.target = some item → item ∈ bound) : Guarded bound ops := by
  induction ops with
  | nil => trivial
  | cons op ops ih =>
      refine ⟨h op (by simp), Guarded.mono (fun item hmem => List.mem_append_right _ hmem) (ih ?_)⟩
      intro op hmem
      exact h op (List.mem_cons_of_mem _ hmem)

theorem guarded_append {first second : List Operation} {bound : List (Nat × String)}
    (hfirst : Guarded bound first) (hsecond : Guarded bound second) :
    Guarded bound (first ++ second) := by
  induction first generalizing bound with
  | nil => exact hsecond
  | cons op first ih =>
      exact ⟨hfirst.1, ih hfirst.2 (hsecond.mono fun item hmem => List.mem_append_right _ hmem)⟩

theorem guarded_flatMap {α : Type} (items : List α) (ops : α → List Operation)
    (h : ∀ item ∈ items, Guarded [] (ops item)) : Guarded [] (items.flatMap ops) := by
  induction items with
  | nil => trivial
  | cons item items ih =>
      rw [List.flatMap_cons]
      exact guarded_append (h item (by simp)) (ih fun item hmem => h item (List.mem_cons_of_mem _ hmem))

/-- Behind a binding, writes to its item are guarded. -/
theorem guarded_bind {outputIndex : Nat} {itemId : String} {ops : List Operation}
    (h : ∀ op ∈ ops, ∀ item, op.target = some item → item = (outputIndex, itemId)) :
    Guarded [] (.bind outputIndex itemId :: ops) := by
  refine ⟨by rintro item ⟨⟩, guarded_of_targets ?_⟩
  intro op hmem item htarget
  rw [h op hmem item htarget]
  exact List.mem_append_left _ (by simp [binding])

end Operation

section Guards

theorem guarded_itemOperations (outputIndex : Nat) (item : ResponseOutputItem) :
    Operation.Guarded [] (itemOperations outputIndex item) := by
  cases item with
  | message message =>
      apply Operation.guarded_bind
      intro op hmem item htarget
      obtain ⟨entry, -, hentry⟩ := List.mem_filterMap.mp hmem
      obtain ⟨text, -, rfl⟩ := Option.map_eq_some_iff.mp hentry
      exact (Option.some.inj htarget).symm
  | functionCall call =>
      obtain ⟨_ | itemId, arguments⟩ := call
      · trivial
      · apply Operation.guarded_bind
        intro op hmem item htarget
        obtain rfl := List.mem_singleton.mp hmem
        exact (Option.some.inj htarget).symm
  | identified kind itemId => exact Operation.guarded_bind (by simp)
  | customToolCall => trivial
  | unknown rawId =>
      cases rawId with
      | none => trivial
      | some itemId => exact Operation.guarded_bind (by simp)

theorem guarded_responseOperations (response : Response) (terminal : Bool) :
    Operation.Guarded [] (responseOperations response terminal) := by
  refine Operation.guarded_append (Operation.guarded_flatMap _ _ ?_) ⟨by rintro item ⟨⟩, trivial⟩
  rintro ⟨item, outputIndex⟩ -
  exact guarded_itemOperations outputIndex item

/-- Every event binds an item before it writes to it. -/
theorem guarded_operations (event : ResponseStreamEvent) :
    Operation.Guarded [] (operations event) := by
  cases event with
  | queued event => exact guarded_responseOperations event.response false
  | created event => exact guarded_responseOperations event.response false
  | inProgress event => exact guarded_responseOperations event.response false
  | completed event => exact guarded_responseOperations event.response true
  | failed event => exact guarded_responseOperations event.response true
  | incomplete event => exact guarded_responseOperations event.response true
  | outputItemAdded event => exact guarded_itemOperations event.outputIndex event.item
  | outputItemDone event => exact guarded_itemOperations event.outputIndex event.item
  | contentPartAdded event =>
      apply Operation.guarded_bind
      intro op hmem item htarget
      obtain ⟨text, -, rfl⟩ := List.mem_map.mp hmem
      exact (Option.some.inj htarget).symm
  | contentPartDone event =>
      apply Operation.guarded_bind
      intro op hmem item htarget
      obtain ⟨text, -, rfl⟩ := List.mem_map.mp hmem
      exact (Option.some.inj htarget).symm
  | outputTextDelta event => exact Operation.guarded_bind (by simp [Operation.target])
  | outputTextDone event => exact Operation.guarded_bind (by simp [Operation.target])
  | functionCallArgumentsDelta event => exact Operation.guarded_bind (by simp [Operation.target])
  | functionCallArgumentsDone event => exact Operation.guarded_bind (by simp [Operation.target])
  | item kind event => exact Operation.guarded_bind (by simp)
  | unbound kind sequenceNumber => trivial
  | error event => exact ⟨by rintro item ⟨⟩, trivial⟩
  | unknown event => trivial

end Guards

namespace ResponseAccumulator

/-- Every stored text and argument carries the id bound to its output index. -/
structure Consistent (s : ResponseAccumulator) : Prop where
  text : ∀ (outputIndex contentIndex : Nat) (part : AccumulatedText),
    s.text[(outputIndex, contentIndex)]? = some part → s.itemIds[outputIndex]? = some part.itemId
  arguments : ∀ (outputIndex : Nat) (current : AccumulatedArguments),
    s.functionArguments[outputIndex]? = some current →
      s.itemIds[outputIndex]? = some current.itemId

/-- The bindings of the first state are still those of the second. -/
def KeepsBindings (s after : ResponseAccumulator) : Prop :=
  ∀ (outputIndex : Nat) (itemId : String), s.itemIds[outputIndex]? = some itemId →
    after.itemIds[outputIndex]? = some itemId

theorem KeepsBindings.trans {s middle after : ResponseAccumulator}
    (hfirst : s.KeepsBindings middle) (hsecond : middle.KeepsBindings after) :
    s.KeepsBindings after :=
  fun outputIndex itemId h => hsecond outputIndex itemId (hfirst outputIndex itemId h)

section Operations

theorem consistent_new : new.Consistent where
  text outputIndex contentIndex part h := by simp [new] at h
  arguments outputIndex current h := by simp [new] at h

theorem keepsBindings_apply (op : Operation) (s : ResponseAccumulator) :
    s.KeepsBindings (op.apply s).1 := by
  have hchange := apply_changes op s
  generalize (op.apply s).1 = after at hchange ⊢
  cases hchange with
  | bound itemId hnone =>
      rename_i index
      intro outputIndex itemId' h
      simp only [getElem?_insert_eq]
      split
      · rename_i heq
        rw [← heq, hnone] at h
        cases h
      · exact h
  | _ => exact fun _ _ h => h

/-- A successful binding is there. -/
theorem bound_apply {op : Operation} {s after : ResponseAccumulator} {item : Nat × String}
    (hbinding : op.binding = some item) (h : op.apply s = (after, .ok ())) :
    after.itemIds[item.1]? = some item.2 := by
  cases op with
  | bind outputIndex itemId =>
      obtain rfl := Option.some.inj hbinding
      obtain ⟨_, _, _, heq⟩ | ⟨hsame, heq⟩ | ⟨_, heq⟩ := bindItem_cases s outputIndex itemId
      · cases heq.symm.trans h
      · cases heq.symm.trans h
        exact hsame
      · cases heq.symm.trans h
        simp only [getElem?_insert_eq, if_true]
  | _ => cases hbinding

/-- A write to a bound item succeeds. -/
theorem target_apply {op : Operation} {s : ResponseAccumulator} (hs : s.Consistent)
    {item : Nat × String} (htarget : op.target = some item)
    (hbound : s.itemIds[item.1]? = some item.2) : (op.apply s).2 = .ok () := by
  cases op with
  | text outputIndex contentIndex itemId write =>
      obtain rfl := Option.some.inj htarget
      obtain ⟨part, hpart, hne, -⟩ | heq := text_cases s outputIndex contentIndex itemId write
      · have hsame := hs.text outputIndex contentIndex part hpart
        rw [hbound] at hsame
        exact absurd (Option.some.inj hsame).symm hne
      · rw [heq]
  | arguments outputIndex itemId write =>
      obtain rfl := Option.some.inj htarget
      obtain ⟨current, hcurrent, hne, -⟩ | heq := arguments_cases s outputIndex itemId write
      · have hsame := hs.arguments outputIndex current hcurrent
        rw [hbound] at hsame
        exact absurd (Option.some.inj hsame).symm hne
      · rw [heq]
  | _ => cases htarget

/-- An operation on a bound item, or on none, keeps the invariant. -/
theorem consistent_apply (op : Operation) {s : ResponseAccumulator} (hs : s.Consistent)
    (hbound : ∀ item, op.target = some item → s.itemIds[item.1]? = some item.2) :
    (op.apply s).1.Consistent := by
  have hkeeps := keepsBindings_apply op s
  have hchange := apply_changes op s
  generalize (op.apply s).1 = after at hkeeps hchange ⊢
  cases hchange with
  | text index content itemId write value =>
      refine ⟨?_, hs.arguments⟩
      intro outputIndex contentIndex part hpart
      simp only [insertText, getElem?_insert_eq] at hpart
      split at hpart
      · rename_i heq
        obtain ⟨rfl, rfl⟩ := Prod.mk.inj heq
        obtain rfl := Option.some.inj hpart
        exact hbound (index, itemId) rfl
      · exact hs.text outputIndex contentIndex part hpart
  | arguments index itemId write value =>
      refine ⟨hs.text, ?_⟩
      intro outputIndex current hcurrent
      simp only [insertArguments, getElem?_insert_eq] at hcurrent
      split at hcurrent
      · rename_i heq
        subst heq
        obtain rfl := Option.some.inj hcurrent
        exact hbound (index, itemId) rfl
      · exact hs.arguments outputIndex current hcurrent
  | _ =>
      exact ⟨fun outputIndex contentIndex part h => hkeeps _ _ (hs.text outputIndex contentIndex part h),
        fun outputIndex current h => hkeeps _ _ (hs.arguments outputIndex current h)⟩

end Operations

section Runs

/-- Guarded operations keep the invariant wherever they stop, and every write among them
succeeds in the state in which it is executed. -/
theorem run_guarded (ops : List Operation) {bound : List (Nat × String)} {s : ResponseAccumulator}
    (hguard : Operation.Guarded bound ops) (hs : s.Consistent)
    (hbound : ∀ item ∈ bound, s.itemIds[item.1]? = some item.2) :
    (Operation.run ops s).1.Consistent ∧
      ∀ before op after middle, ops = before ++ op :: after →
        Operation.run before s = (middle, .ok ()) → op.target ≠ none →
          (op.apply middle).2 = .ok () := by
  induction ops generalizing bound s with
  | nil =>
      refine ⟨hs, ?_⟩
      intro before op after middle heq
      simp at heq
  | cons first rest ih =>
      obtain ⟨htargets, hrest⟩ := hguard
      have hfirst : ∀ item, first.target = some item → s.itemIds[item.1]? = some item.2 :=
        fun item htarget => hbound item (htargets item htarget)
      have hwrites : first.target ≠ none → (first.apply s).2 = .ok () := by
        intro htarget
        obtain ⟨item, hitem⟩ := Option.ne_none_iff_exists'.mp htarget
        exact target_apply hs hitem (hfirst item hitem)
      have hconsistent := consistent_apply first hs hfirst
      have hkeeps := keepsBindings_apply first s
      rcases happly : first.apply s with ⟨middle, e | ⟨⟨⟩⟩⟩
      · rw [run_cons, Update.andThen_error happly]
        rw [happly] at hconsistent
        refine ⟨hconsistent, ?_⟩
        intro before op after middle' heq hbefore htarget
        cases before with
        | nil =>
            obtain ⟨rfl, -⟩ := List.cons.inj heq
            obtain ⟨rfl, -⟩ := Prod.mk.inj hbefore
            exact hwrites htarget
        | cons earlier before =>
            obtain ⟨rfl, -⟩ := List.cons.inj heq
            rw [run_cons, Update.andThen_error happly] at hbefore
            cases hbefore
      · rw [run_cons, Update.andThen_ok happly]
        rw [happly] at hconsistent hkeeps
        have hbound' : ∀ item ∈ first.binding.toList ++ bound,
            middle.itemIds[item.1]? = some item.2 := by
          intro item hmem
          obtain hmem | hmem := List.mem_append.mp hmem
          · exact bound_apply (Option.mem_toList.mp hmem) happly
          · exact hkeeps item.1 item.2 (hbound item hmem)
        obtain ⟨hlast, hexecuted⟩ := ih hrest hconsistent hbound'
        refine ⟨hlast, ?_⟩
        intro before op after middle' heq hbefore htarget
        cases before with
        | nil =>
            obtain ⟨rfl, -⟩ := List.cons.inj heq
            obtain ⟨rfl, -⟩ := Prod.mk.inj hbefore
            exact hwrites htarget
        | cons earlier before =>
            obtain ⟨rfl, hsplit⟩ := List.cons.inj heq
            rw [run_cons, Update.andThen_ok happly] at hbefore
            exact hexecuted before op after middle' hsplit hbefore htarget

/-- A push of the event executes the operation in the given state. -/
def Executes (event : ResponseStreamEvent) (s : ResponseAccumulator) (op : Operation)
    (middle : ResponseAccumulator) : Prop :=
  s.terminal = false ∧ ∃ checked before after, checkSequence event s = (checked, .ok ()) ∧
    operations event = before ++ op :: after ∧ Operation.run before checked = (middle, .ok ())

theorem consistent_last {s : ResponseAccumulator} (hs : s.Consistent) (last : Option Nat) :
    ({ s with lastSequenceNumber := last } : ResponseAccumulator).Consistent :=
  ⟨hs.text, hs.arguments⟩

theorem consistent_checkSequence (event : ResponseStreamEvent) {s : ResponseAccumulator}
    (hs : s.Consistent) : (checkSequence event s).1.Consistent := by
  obtain ⟨last, hlast⟩ := checkSequence_fst event s
  rw [hlast]
  exact consistent_last hs last

theorem consistent_push (event : ResponseStreamEvent) {s : ResponseAccumulator}
    (hs : s.Consistent) : (push event s).1.Consistent := by
  have hchecked := consistent_checkSequence event hs
  rw [push]
  split
  · exact hs
  · rcases hcheck : checkSequence event s with ⟨checked, e | ⟨⟨⟩⟩⟩
    · rw [Update.andThen_error hcheck]
      rwa [hcheck] at hchecked
    · rw [Update.andThen_ok hcheck, acceptEvent_eq]
      rw [hcheck] at hchecked
      exact (run_guarded _ (guarded_operations event) hchecked (by simp)).1

/-- A write that a push executes succeeds. -/
theorem executes_ok {event : ResponseStreamEvent} {s middle : ResponseAccumulator} {op : Operation}
    (hs : s.Consistent) (h : Executes event s op middle) (htarget : op.target ≠ none) :
    (op.apply middle).2 = .ok () := by
  obtain ⟨-, checked, before, after, hcheck, hops, hbefore⟩ := h
  have hchecked := consistent_checkSequence event hs
  rw [hcheck] at hchecked
  exact (run_guarded _ (guarded_operations event) hchecked (by simp)).2 before op after middle hops
    hbefore htarget

/-- A push that fails was refused by its checks or by an operation that it executes. -/
theorem push_error {event : ResponseStreamEvent} {s : ResponseAccumulator}
    {e : ResponseAccumulatorError} (h : (push event s).2 = .error e) :
    e = .eventAfterTerminal ∨ (checkSequence event s).2 = .error e ∨
      ∃ op middle, Executes event s op middle ∧ (op.apply middle).2 = .error e := by
  rw [push] at h
  split at h
  · exact .inl (Except.error.inj h).symm
  · rename_i hopen
    rcases hcheck : checkSequence event s with ⟨checked, e' | ⟨⟨⟩⟩⟩
    · rw [Update.andThen_error hcheck] at h
      exact .inr (.inl h)
    · rw [Update.andThen_ok hcheck, acceptEvent_eq] at h
      obtain ⟨before, method, rest, middle, hops, hbefore, hmethod⟩ :=
        Update.all_eq_error (Prod.ext rfl h)
      obtain ⟨ops, tail, hsplit, rfl, htail⟩ := List.map_eq_append_iff.mp hops
      obtain ⟨op, ops', rfl, rfl, -⟩ := List.map_eq_cons_iff.mp htail
      exact .inr (.inr ⟨op, middle,
        ⟨by simpa using hopen, checked, ops, ops', hcheck, hsplit, hbefore⟩, by rw [hmethod]⟩)

/-- The only error that an event carries is that of a stream. -/
theorem operations_fail {event : ResponseStreamEvent} {error : ResponseAccumulatorError}
    (h : .fail error ∈ operations event) :
    ∃ code message param sequenceNumber, error = .stream code message param sequenceNumber := by
  have hitem : ∀ outputIndex item, .fail error ∉ itemOperations outputIndex item := by
    intro outputIndex item hmem
    rcases mem_itemOperations hmem with ⟨_, heq⟩ | ⟨_, _, _, heq⟩ | ⟨_, _, heq⟩ <;> cases heq
  have hresponse : ∀ response terminal, .fail error ∉ responseOperations response terminal := by
    intro response terminal hmem
    obtain ⟨outputIndex, item, hmem⟩ | heq := mem_responseOperations hmem
    · exact hitem outputIndex item hmem
    · cases heq
  cases event with
  | queued event => exact absurd h (hresponse event.response false)
  | created event => exact absurd h (hresponse event.response false)
  | inProgress event => exact absurd h (hresponse event.response false)
  | completed event => exact absurd h (hresponse event.response true)
  | failed event => exact absurd h (hresponse event.response true)
  | incomplete event => exact absurd h (hresponse event.response true)
  | outputItemAdded event => exact absurd h (hitem event.outputIndex event.item)
  | outputItemDone event => exact absurd h (hitem event.outputIndex event.item)
  | error event =>
      obtain heq := List.mem_singleton.mp h
      exact ⟨_, _, _, _, Operation.fail.inj heq⟩
  | _ => simp [operations] at h

/-- The sequence check never reports an identity. -/
theorem checkSequence_error {event : ResponseStreamEvent} {s : ResponseAccumulator}
    {e : ResponseAccumulatorError} (h : (checkSequence event s).2 = .error e) :
    (∃ number, e = .duplicateSequence number) ∨
      ∃ previous received, e = .nonMonotonicSequence previous received := by
  rw [checkSequence] at h
  split at h
  · cases h
  · split at h
    · split at h
      · exact .inl ⟨_, (Except.error.inj h).symm⟩
      · split at h
        · exact .inr ⟨_, _, (Except.error.inj h).symm⟩
        · cases h
    · cases h

/-- No push reports a content identity mismatch. -/
theorem push_ne_contentIdentityMismatch (event : ResponseStreamEvent) {s : ResponseAccumulator}
    (hs : s.Consistent) (outputIndex contentIndex : Nat) (expected received : String) :
    (push event s).2 ≠
      .error (.contentIdentityMismatch outputIndex contentIndex expected received) := by
  intro h
  obtain heq | herror | ⟨op, middle, hexecutes, herror⟩ := push_error h
  · cases heq
  · rcases checkSequence_error herror with ⟨_, heq⟩ | ⟨_, _, heq⟩ <;> cases heq
  · cases op with
    | bind index itemId =>
        rcases bindItem_cases middle index itemId with ⟨_, _, _, heq⟩ | ⟨_, heq⟩ | ⟨_, heq⟩ <;>
          rw [Operation.apply, heq] at herror <;> cases herror
    | text index content itemId write =>
        rw [executes_ok hs hexecutes (by simp [Operation.target])] at herror
        cases herror
    | arguments index itemId write =>
        rw [executes_ok hs hexecutes (by simp [Operation.target])] at herror
        cases herror
    | keep response terminal => cases herror
    | fail error =>
        obtain ⟨-, checked, before, after, -, hops, -⟩ := hexecutes
        obtain rfl := Except.error.inj herror
        have hmem : .fail (.contentIdentityMismatch outputIndex contentIndex expected received) ∈
            operations event := by
          rw [hops]
          simp
        obtain ⟨_, _, _, _, heq⟩ := operations_fail hmem
        cases heq

end Runs

section Sequence

theorem apply_lastSequenceNumber (op : Operation) (s : ResponseAccumulator) :
    (op.apply s).1.lastSequenceNumber = s.lastSequenceNumber := by
  have hchange := apply_changes op s
  generalize (op.apply s).1 = after at hchange ⊢
  cases hchange <;> rfl

/-- Behind the checks a push does not touch the last sequence number. -/
theorem push_lastSequenceNumber {event : ResponseStreamEvent} {s : ResponseAccumulator}
    (h : s.terminal = false) :
    (push event s).1.lastSequenceNumber = (checkSequence event s).1.lastSequenceNumber := by
  rw [push, h, if_neg Bool.false_ne_true]
  rcases hcheck : checkSequence event s with ⟨checked, e | ⟨⟨⟩⟩⟩
  · rw [Update.andThen_error hcheck]
  · rw [Update.andThen_ok hcheck, acceptEvent_eq]
    refine @Update.all_preserves _ _
      (fun s => s.lastSequenceNumber = checked.lastSequenceNumber) _ ?_ checked rfl
    intro method hmem s hs
    obtain ⟨op, -, rfl⟩ := List.mem_map.mp hmem
    rw [apply_lastSequenceNumber, hs]

/-- A push keeps the last sequence number or replaces it by a larger one. -/
theorem push_last_cases (event : ResponseStreamEvent) (s : ResponseAccumulator) :
    (push event s).1.lastSequenceNumber = s.lastSequenceNumber ∨
      ∃ number, event.sequenceNumber = some number ∧
        (push event s).1.lastSequenceNumber = some number ∧
        ∀ previous, s.lastSequenceNumber = some previous → previous < number := by
  cases hterminal : s.terminal with
  | true =>
      rw [push, hterminal, if_pos rfl]
      exact .inl rfl
  | false =>
      rw [push_lastSequenceNumber hterminal]
      rcases checkSequence_cases event s with
        ⟨_, heq⟩ | ⟨number, hnumber, hlarger, heq⟩ | ⟨_, _, _, _, _, _, heq⟩
      · exact .inl (by rw [heq])
      · exact .inr ⟨number, hnumber, by rw [heq], hlarger⟩
      · exact .inl (by rw [heq])

/-- An accepted number is the new last one, and larger than the one before. -/
theorem push_accepted {event : ResponseStreamEvent} {s after : ResponseAccumulator} {number : Nat}
    (h : push event s = (after, .ok ())) (hnumber : event.sequenceNumber = some number) :
    after.lastSequenceNumber = some number ∧
      ∀ previous, s.lastSequenceNumber = some previous → previous < number := by
  have hterminal : s.terminal = false := by
    rw [push] at h
    split at h
    · cases h
    · rename_i hopen
      simpa using hopen
  have hlast := @push_lastSequenceNumber event s hterminal
  rw [h] at hlast
  rw [push, hterminal, if_neg Bool.false_ne_true] at h
  rcases checkSequence_cases event s with
    ⟨hnone, _⟩ | ⟨number', hnumber', hlarger, heq⟩ | ⟨_, _, _, _, _, _, heq⟩
  · rw [hnumber] at hnone
    cases hnone
  · obtain rfl : number' = number := Option.some.inj (hnumber'.symm.trans hnumber)
    rw [heq] at hlast
    exact ⟨hlast, hlarger⟩
  · rw [Update.andThen_error heq] at h
    cases h

/-- The known sequence numbers of the accepted events, over pushes of which any may fail. -/
def acceptedSequenceNumbers (s : ResponseAccumulator) : List ResponseStreamEvent → List Nat
  | [] => []
  | event :: rest =>
      (match (push event s).2 with
        | .ok () => event.sequenceNumber.toList
        | .error _ => []) ++ acceptedSequenceNumbers (push event s).1 rest

theorem acceptedSequenceNumbers_larger (events : List ResponseStreamEvent) {s : ResponseAccumulator}
    {previous : Nat} (h : s.lastSequenceNumber = some previous) :
    ∀ number ∈ acceptedSequenceNumbers s events, previous < number := by
  induction events generalizing s previous with
  | nil => simp [acceptedSequenceNumbers]
  | cons event events ih =>
      intro number hmem
      rw [acceptedSequenceNumbers, List.mem_append] at hmem
      obtain hmem | hmem := hmem
      · rcases hpush : push event s with ⟨after, e | ⟨⟨⟩⟩⟩
        · rw [hpush] at hmem
          cases hmem
        · rw [hpush] at hmem
          exact (push_accepted hpush (Option.mem_toList.mp hmem)).2 previous h
      · obtain hsame | ⟨last, -, hlast, hlarger⟩ := push_last_cases event s
        · exact ih (hsame.trans h) number hmem
        · exact Nat.lt_trans (hlarger previous h) (ih hlast number hmem)

/-- Accepted sequence numbers increase strictly. -/
theorem acceptedSequenceNumbers_pairwise (events : List ResponseStreamEvent)
    (s : ResponseAccumulator) : (acceptedSequenceNumbers s events).Pairwise (· < ·) := by
  induction events generalizing s with
  | nil => exact .nil
  | cons event events ih =>
      rw [acceptedSequenceNumbers]
      rcases hpush : push event s with ⟨after, e | ⟨⟨⟩⟩⟩
      · exact ih after
      · rcases hnumber : event.sequenceNumber with _ | number
        · exact ih after
        · exact List.pairwise_cons.mpr
            ⟨acceptedSequenceNumbers_larger events (push_accepted hpush hnumber).1, ih after⟩

end Sequence

section Reachable

/-- Push events in order, whether they are accepted or rejected. -/
def pushEach (events : List ResponseStreamEvent) (s : ResponseAccumulator) : ResponseAccumulator :=
  events.foldl (fun s event => (push event s).1) s

theorem consistent_pushEach (events : List ResponseStreamEvent) {s : ResponseAccumulator}
    (h : s.Consistent) : (pushEach events s).Consistent := by
  induction events generalizing s with
  | nil => exact h
  | cons event events ih => exact ih (consistent_push event h)

theorem keepsBindings_push (event : ResponseStreamEvent) (s : ResponseAccumulator) :
    s.KeepsBindings (push event s).1 := by
  refine @push_preserves (s.KeepsBindings ·) event ?_ ?_ s fun _ _ h => h
  · intro middle hmiddle
    obtain ⟨last, hlast⟩ := checkSequence_fst event middle
    rw [hlast]
    exact hmiddle
  · exact fun op _ middle hmiddle => hmiddle.trans (keepsBindings_apply op middle)

theorem keepsBindings_pushEach (events : List ResponseStreamEvent) (s : ResponseAccumulator) :
    s.KeepsBindings (pushEach events s) := by
  induction events generalizing s with
  | nil => exact fun _ _ h => h
  | cons event events ih => exact (keepsBindings_push event s).trans (ih (push event s).1)

/-- The identity invariant, after any pushes: every entry carries the id bound to its output
index; bindings stay; accepted sequence numbers increase; no push reports a content identity
mismatch; and the methods that write arguments succeed wherever a push calls them. -/
theorem pushEach_identity :
    (∀ events, (pushEach events new).Consistent) ∧
    (∀ events more, (pushEach events new).KeepsBindings (pushEach (events ++ more) new)) ∧
    (∀ events, (acceptedSequenceNumbers new events).Pairwise (· < ·)) ∧
    (∀ events event outputIndex contentIndex expected received,
      (push event (pushEach events new)).2 ≠
        .error (.contentIdentityMismatch outputIndex contentIndex expected received)) ∧
    ∀ events event outputIndex itemId write middle,
      Executes event (pushEach events new) (.arguments outputIndex itemId write) middle →
        ((Operation.arguments outputIndex itemId write).apply middle).2 = .ok () := by
  have hconsistent : ∀ events, (pushEach events new).Consistent :=
    fun events => consistent_pushEach events consistent_new
  refine ⟨hconsistent, fun events more => ?_,
    fun events => acceptedSequenceNumbers_pairwise events new, ?_, ?_⟩
  · have hsplit : pushEach (events ++ more) new = pushEach more (pushEach events new) :=
      List.foldl_append
    rw [hsplit]
    exact keepsBindings_pushEach more _
  · exact fun events event => push_ne_contentIdentityMismatch event (hconsistent events)
  · exact fun events event _ _ _ middle h =>
      executes_ok (hconsistent events) h (by simp [Operation.target])

/-- The delta of a fresh call is appended behind its binding. -/
theorem pushEach_identity_firstDelta :
    (appendFunctionArguments 0 "call" "x"
      (bindItem 0 "call" { new with lastSequenceNumber := some 1 }).1).2 = .ok () := by
  refine pushEach_identity.2.2.2.2 [] (.functionCallArgumentsDelta ⟨⟨1, 0, "call"⟩, "x"⟩) 0 "call"
    (.append "x") _ ⟨rfl, { new with lastSequenceNumber := some 1 }, [.bind 0 "call"], [], rfl, rfl, ?_⟩
  rw [run_singleton]
  exact Prod.ext rfl (by decide)

end Reachable

end ResponseAccumulator

end OpenaiRs.Responses
