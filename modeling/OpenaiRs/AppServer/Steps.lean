import OpenaiRs.AppServer.Tasks

/-!
# What a step of an app-server task can do

The steps of tasks and of `terminate` as relations, with the guards under which they are
taken. Everything that is proved about the connection is proved from these.
-/

namespace OpenaiRs.AppServer

open Serde Rust Interleaving

section Terminate

/-- A step within `terminate`. -/
inductive TerminateStep (s : Connection) : TerminatePc → Operation → TerminatePc → Prop
  | swap {failure} : s.shutdownStarted = false →
      TerminateStep s (.swap failure) .startShutdown (.close failure)
  | close {failure} : TerminateStep s (.close failure) .close (.probe failure)
  | probe {failure failure'} : TerminateStep s (.probe failure) .skip (.record failure')
  | record {failure} : TerminateStep s (.record failure) (.record failure)
      (.takeEvents (s.terminalFailure.getD failure))
  | takeEvents {failure} : TerminateStep s (.takeEvents failure) .takeEvents (.drain failure)
  | drain {failure} : TerminateStep s (.drain failure) .drain (.broadcast failure)
  | broadcast {failure id} : id ∈ s.drained →
      TerminateStep s (.broadcast failure) (.broadcast failure id) (.release failure id)
  | answered {failure} : s.drained = [] → TerminateStep s (.broadcast failure) .skip .closeSlots
  | release {failure id} :
      TerminateStep s (.release failure id) (.dropPermit id) (.broadcast failure)
  | closeSlots : TerminateStep s .closeSlots .closeSlots .reap
  | reap : TerminateStep s .reap .skip .takeWriter

/-- The last step of `terminate`. -/
inductive TerminateEnd (s : Connection) : TerminatePc → Operation → Prop
  | started {failure} : s.shutdownStarted = true → TerminateEnd s (.swap failure) .skip
  | reap : TerminateEnd s .reap .skip
  | takeWriter : s.writer = none → TerminateEnd s .takeWriter .takeStdin

theorem terminateNext_cases {s : Connection} {pc : TerminatePc} {choice : Choice} {op : Operation}
    {pc' : Option TerminatePc} (h : terminateNext s pc choice = some (op, pc')) :
    (∃ next, pc' = some next ∧ TerminateStep s pc op next) ∨ (pc' = none ∧ TerminateEnd s pc op) := by
  cases pc with
  | swap failure =>
      cases choice <;> simp only [terminateNext, reduceCtorEq] at h
      split at h
      · rename_i hstarted
        cases h
        exact .inr ⟨rfl, .started hstarted⟩
      · rename_i hstarted
        cases h
        exact .inl ⟨_, rfl, .swap (by simpa using hstarted)⟩
  | close failure =>
      cases choice <;> cases h
      exact .inl ⟨_, rfl, .close⟩
  | probe failure =>
      cases choice <;> cases h
      · exact .inl ⟨_, rfl, .probe⟩
      · exact .inl ⟨_, rfl, .probe⟩
  | record failure =>
      cases choice <;> cases h
      exact .inl ⟨_, rfl, .record⟩
  | takeEvents failure =>
      cases choice <;> cases h
      exact .inl ⟨_, rfl, .takeEvents⟩
  | drain failure =>
      cases choice <;> cases h
      exact .inl ⟨_, rfl, .drain⟩
  | broadcast failure =>
      cases choice <;> simp only [terminateNext, reduceCtorEq] at h
      · split at h
        · rename_i hdrained
          cases h
          exact .inl ⟨_, rfl, .answered hdrained⟩
        · cases h
      · split at h
        · rename_i id hid
          cases h
          exact .inl ⟨_, rfl, .broadcast (List.mem_of_getElem? hid)⟩
        · cases h
  | release failure id =>
      cases choice <;> cases h
      exact .inl ⟨_, rfl, .release⟩
  | closeSlots =>
      cases choice <;> cases h
      exact .inl ⟨_, rfl, .closeSlots⟩
  | reap =>
      cases choice <;> cases h
      · exact .inl ⟨_, rfl, .reap⟩
      · exact .inr ⟨rfl, .reap⟩
  | takeWriter =>
      cases choice <;> simp only [terminateNext, reduceCtorEq] at h
      split at h
      · rename_i hwriter
        cases h
        exact .inr ⟨rfl, .takeWriter hwriter⟩
      · cases h

end Terminate

section Tasks

/-- How a job that is given up ends: its write was refused, it was dropped, or it timed out. -/
inductive Tail (job : Job) : List Cleanup → Exit → Prop
  | refused (error : Error) : Tail job job.refused (.failed error)
  | dropped : Tail job job.dropped .cancelled
  | overtime : job.timed = true → Tail job job.overtime .timedOut

/-- How a request that waits for its response is given up. -/
inductive Unanswered : List Cleanup → Exit → Prop
  | failed (error : Error) : Unanswered [.dropReceiver, .remove] (.failed error)
  | dropped : Unanswered [.dropReceiver, .remove] .cancelled
  | timedOut : Unanswered [.dropReceiver, .remove, .remove] .timedOut

/-- A cleanup action that is one operation. -/
inductive CleanupStep (job : Job) : Cleanup → Operation → List Task → Prop
  | close : CleanupStep job .close .close []
  | record {failure} : CleanupStep job (.record failure) (.record failure) []
  | spawn {failure} : CleanupStep job (.spawn failure) .skip [shutdownTask failure]
  | noRuntime {failure} : CleanupStep job (.spawn failure) .skip []
  | unlock : CleanupStep job .unlock .unlock []
  | dropReceiver {id} : job.id = some id → CleanupStep job .dropReceiver (.dropReceiver id) []
  | remove {id} : job.id = some id → CleanupStep job .remove (.remove id) []
  | overwrite {failure} : CleanupStep job (.overwrite failure) (.overwrite failure) []

/-- A step of task `i`. -/
inductive Step (settings : Settings) (s : Connection) (i : Nat) :
    Task → Choice → Operation → Task → List Task → Prop
  -- The prologue of a request.
  | turnedAway {t choice exit} :
      (∃ call, t = .start call ∨ t = .unclosed call ∨ t = .acquiring call) →
      (∀ result, exit ≠ .received result) → Step settings s i t choice .skip (.ended none exit) []
  | unclosed {call choice} : s.terminalFailure = none →
      Step settings s i (.start call) choice .skip (.unclosed call) []
  | acquiring {call choice} : s.closed = false →
      Step settings s i (.unclosed call) choice .skip (.acquiring call) []
  | granted {call choice} : 0 < s.available →
      Step settings s i (.acquiring call) choice .acquire (.granted call) []
  | permitted {call choice} : Step settings s i (.granted call) choice .skip (.permitted call) []
  | released {t choice exit} : (∃ call, t = .granted call ∨ t = .permitted call) →
      (∀ result, exit ≠ .received result) → Step settings s i t choice .release (.ended none exit) []
  | identified {call choice} : s.nextId + 1 < UInt64.size →
      Step settings s i (.permitted call) choice (.takeId i) (.identified call s.nextId) []
  | registered {call id choice} :
      Step settings s i (.identified call id) choice (.insert id) (.entering (.request call id)) []
  -- `write_message`.
  | refused {job choice tail exit} : Tail job tail exit →
      Step settings s i (.entering job) choice .skip (.leaving job tail exit) []
  | locking {job choice frame} : s.closed = false → encode settings (job.body settings) = .ok frame →
      Step settings s i (.entering job) choice .skip (.locking job frame) []
  | lock {job choice frame} : s.writer = none →
      Step settings s i (.locking job frame) choice (.lock i) (.locked job frame) []
  | unqueued {job choice frame tail exit} : Tail job tail exit →
      Step settings s i (.locking job frame) choice .skip (.leaving job tail exit) []
  | unlocked {job choice frame tail exit} : Tail job tail exit →
      Step settings s i (.locked job frame) choice .skip (.leaving job (.unlock :: tail) exit) []
  | begin {job frame} : s.closed = false →
      Step settings s i (.locked job frame) .proceed (.begin frame) (.writing job frame) []
  | accept {job frame chunk count} : s.stdin.head? = some chunk →
      0 < count → chunk.accepted + count ≤ frame.length →
      Step settings s i (.writing job frame) (.accept count) (.accept count) (.writing job frame) []
  | flushing {job choice frame chunk} : s.stdin.head? = some chunk →
      chunk.accepted = frame.length →
      Step settings s i (.writing job frame) choice .skip (.flushing job) []
  | writeFailed {job frame message failure} :
      Step settings s i (.writing job frame) (.fail message) .skip (ioFailure job failure) []
  | flushFailed {job choice failure} :
      Step settings s i (.flushing job) choice .skip (ioFailure job failure) []
  | writeDropped {job choice frame tail exit} : Tail job tail exit →
      Step settings s i (.writing job frame) choice .skip (.leaving job (guardActions ++ tail) exit) []
  | flushDropped {job choice tail exit} : Tail job tail exit →
      Step settings s i (.flushing job) choice .skip (.leaving job (guardActions ++ tail) exit) []
  | wrote {job choice} : Step settings s i (.flushing job) choice .unlock job.wrote []
  -- The wait for the response.
  | received {call id choice result} : (s.channels id).value = some result →
      Step settings s i (.responding call id) choice .skip
        (.leaving (.request call id) [.remove] (.received result)) []
  | unanswered {call id choice actions exit} : Unanswered actions exit →
      Step settings s i (.responding call id) choice .skip
        (.leaving (.request call id) actions exit) []
  -- The way out.
  | cleanup {job action choice rest exit op started} : CleanupStep job action op started →
      Step settings s i (.leaving job (action :: rest) exit) choice op (.leaving job rest exit) started
  | terminate {job pc choice rest exit op pc'} : TerminateStep s pc op pc' →
      Step settings s i (.leaving job (.terminate pc :: rest) exit) choice op
        (.leaving job (.terminate pc' :: rest) exit) []
  | terminated {job pc choice rest exit op} : TerminateEnd s pc op →
      Step settings s i (.leaving job (.terminate pc :: rest) exit) choice op (.leaving job rest exit) []
  | abandoned {job pc choice rest exit tail exit'} : pc.awaits = true → Tail job tail exit' →
      Step settings s i (.leaving job (.terminate pc :: rest) exit) choice .skip
        (.leaving job tail exit') []
  | guarded {job pc choice rest} : pc.awaits = true →
      Step settings s i (.leaving job (.terminate pc :: rest) .timedOut) choice .skip
        (.leaving job [.remove] .cancelled) []
  | ended {job choice exit} :
      Step settings s i (.leaving job [] exit) choice .skip (.ended job.id exit) []

variable {settings : Settings} {s : Connection} {i : Nat}

theorem prologue_step {t t' : Task} {choice : Choice} {op : Operation} {started : List Task}
    (h : prologue s i t choice = some (op, t', started)) : Step settings s i t choice op t' started := by
  cases t with
  | start call =>
      cases choice <;> simp only [prologue, reduceCtorEq] at h
      split at h <;> cases h
      · exact .turnedAway ⟨call, .inl rfl⟩ (by simp)
      · exact .unclosed ‹_›
  | unclosed call =>
      cases choice <;> simp only [prologue, reduceCtorEq] at h
      split at h <;> cases h
      · exact .turnedAway ⟨call, .inr (.inl rfl)⟩ (by simp)
      · rename_i hclosed
        exact .acquiring (by simpa using hclosed)
  | acquiring call =>
      cases choice <;> simp only [prologue, reduceCtorEq] at h
      · split at h
        · cases h
          exact .turnedAway ⟨call, .inr (.inr rfl)⟩ (by simp)
        · split at h
          · cases h
            exact .granted ‹_›
          · cases h
      · cases h
        exact .turnedAway ⟨call, .inr (.inr rfl)⟩ (by simp)
      · cases h
        exact .turnedAway ⟨call, .inr (.inr rfl)⟩ (by simp)
  | granted call =>
      cases choice <;> cases h
      · exact .permitted
      · exact .released ⟨call, .inl rfl⟩ (by simp)
  | permitted call =>
      cases choice <;> simp only [prologue, reduceCtorEq] at h
      split at h <;> cases h
      · exact .identified ‹_›
      · exact .released ⟨call, .inr rfl⟩ (by simp)
  | identified call id =>
      cases choice <;> cases h
      exact .registered
  | _ => cases choice <;> cases h

theorem exchange_step {t t' : Task} {choice : Choice} {op : Operation} {started : List Task}
    (h : exchange settings s i t choice = some (op, t', started)) :
    Step settings s i t choice op t' started := by
  cases t with
  | entering job =>
      cases choice <;> simp only [exchange, reduceCtorEq] at h
      split at h
      · cases h
        exact .refused (.refused _)
      · rename_i hclosed
        split at h <;> cases h
        · exact .refused (.refused _)
        · exact .locking (by simpa using hclosed) ‹_›
  | locking job frame =>
      cases choice <;> simp only [exchange, reduceCtorEq] at h
      · split at h <;> cases h
        exact .lock ‹_›
      · cases h
        exact .unqueued .dropped
      · split at h <;> cases h
        exact .unqueued (.overtime ‹_›)
  | locked job frame =>
      cases choice <;> simp only [exchange, reduceCtorEq] at h
      · split at h
        · cases h
          exact .unlocked (.refused _)
        · rename_i hclosed
          split at h <;> cases h
          · exact .begin (by simpa using hclosed)
          · exact .unlocked (.refused _)
      · cases h
        exact .unlocked .dropped
      · split at h <;> cases h
        exact .unlocked (.overtime ‹_›)
  | writing job frame =>
      cases choice <;> simp only [exchange, reduceCtorEq] at h
      · split at h
        · split at h <;> cases h
          exact .flushing ‹_› ‹_›
        · cases h
      · split at h
        · split at h
          · rename_i hfits
            cases h
            exact .accept ‹_› hfits.1 hfits.2
          · cases h
        · cases h
      · cases h
        exact .writeFailed
      · cases h
        exact .writeDropped .dropped
      · split at h <;> cases h
        exact .writeDropped (.overtime ‹_›)
  | flushing job =>
      cases choice <;> simp only [exchange, reduceCtorEq] at h
      · cases h
        exact .wrote
      · cases h
        exact .flushFailed
      · cases h
        exact .flushDropped .dropped
      · split at h <;> cases h
        exact .flushDropped (.overtime ‹_›)
  | responding call id =>
      cases choice <;> simp only [exchange, reduceCtorEq] at h
      · split at h
        · cases h
          exact .received ‹_›
        · split at h <;> cases h
          exact .unanswered (.failed _)
      · cases h
        exact .unanswered .dropped
      · cases h
        exact .unanswered .timedOut
  | _ => cases choice <;> cases h

theorem leave_step {job : Job} {action : Cleanup} {rest : List Cleanup} {exit : Exit} {t' : Task}
    {choice : Choice} {op : Operation} {started : List Task}
    (h : leave s job action rest exit choice = some (op, t', started)) :
    Step settings s i (.leaving job (action :: rest) exit) choice op t' started := by
  cases action with
  | close => cases choice <;> cases h; exact .cleanup .close
  | record failure => cases choice <;> cases h; exact .cleanup .record
  | spawn failure =>
      cases choice <;> cases h
      · exact .cleanup .spawn
      · exact .cleanup .noRuntime
  | unlock => cases choice <;> cases h; exact .cleanup .unlock
  | dropReceiver =>
      cases choice <;> simp only [leave, reduceCtorEq] at h
      obtain ⟨id, hid, hstep⟩ := Option.map_eq_some_iff.mp h
      cases hstep
      exact .cleanup (.dropReceiver hid)
  | remove =>
      cases choice <;> simp only [leave, reduceCtorEq] at h
      obtain ⟨id, hid, hstep⟩ := Option.map_eq_some_iff.mp h
      cases hstep
      exact .cleanup (.remove hid)
  | overwrite failure => cases choice <;> cases h; exact .cleanup .overwrite
  | terminate pc =>
      cases choice with
      | cancel =>
          simp only [leave] at h
          split at h
          · rename_i hawaits
            split at h <;> cases h
            · exact .guarded hawaits
            · exact .abandoned hawaits .dropped
          · cases h
      | timeout =>
          simp only [leave] at h
          split at h
          · cases h
          · split at h <;> cases h
            rename_i hawaits
            rw [Bool.and_eq_true] at hawaits
            exact .abandoned hawaits.1 (.overtime hawaits.2)
      | _ =>
          obtain ⟨⟨op', pc'⟩, hnext, hstep⟩ := Option.map_eq_some_iff.mp h
          obtain ⟨pc'', rfl, hterminate⟩ | ⟨rfl, hend⟩ := terminateNext_cases hnext
          · cases hstep
            exact .terminate hterminate
          · cases hstep
            exact .terminated hend

/-- Every enabled step is one of the relation. -/
theorem next_step {t t' : Task} {choice : Choice} {op : Operation} {started : List Task}
    (h : next settings s i t choice = some (op, t', started)) :
    Step settings s i t choice op t' started := by
  cases t with
  | leaving job actions exit =>
      cases actions with
      | nil => cases choice <;> cases h; exact .ended
      | cons action rest => exact leave_step h
  | start call => exact prologue_step h
  | unclosed call => exact prologue_step h
  | acquiring call => exact prologue_step h
  | granted call => exact prologue_step h
  | permitted call => exact prologue_step h
  | identified call id => exact prologue_step h
  | _ => exact exchange_step h

theorem act_step {t t' : Task} {choice : Choice} {s' : Connection} {started : List Task}
    (h : (system settings).act s i t choice = some (s', t', started)) :
    ∃ op, s' = s.perform op ∧ Step settings s i t choice op t' started := by
  obtain ⟨⟨op, t'', started'⟩, hnext, hstep⟩ := Option.map_eq_some_iff.mp h
  cases hstep
  exact ⟨op, rfl, next_step hnext⟩

end Tasks

section Reader

/-- A step of the stdout reader behind a line. -/
inductive ReaderStep (settings : Settings) (s : Connection) : ReaderPc → Operation → ReaderPc → Prop
  | invalid {id object raw failure} : responseResult settings object = .error failure →
      ReaderStep settings s (.looking id object raw) .skip (.refusing failure)
  | valid {id object raw result} : responseResult settings object = .ok result →
      ReaderStep settings s (.looking id object raw) .skip (.accepting id result raw)
  | orphan {id object raw} : id ∉ s.pending →
      ReaderStep settings s (.looking id object raw) .skip
        (.cloning (.orphanResponse (.number id) raw))
  | lateOrphan {id result raw} : id ∉ s.pending →
      ReaderStep settings s (.accepting id result raw) .skip
        (.cloning (.orphanResponse (.number id) raw))
  | take {id result raw} : id ∈ s.pending →
      ReaderStep settings s (.accepting id result raw) (.take id) (.sending id result)
  | deliver {id result} :
      ReaderStep settings s (.sending id result) (.deliver id result) (.dropping id)
  | dropPermit {id} : ReaderStep settings s (.dropping id) (.dropPermit id) .reading
  | pushing {event} : ReaderStep settings s (.cloning event) .skip (.pushing event)
  | unsent {pc event failure} : pc = .cloning event ∨ pc = .pushing event →
      ReaderStep settings s pc .skip (.refusing failure)
  | emit {event} : ReaderStep settings s (.pushing event) (.emit event) .reading
  | refuse {failure} : ReaderStep settings s (.refusing failure) (.dispose (.failed failure))
      (.terminating (.swap failure))
  | terminate {pc op pc'} : TerminateStep s pc op pc' →
      ReaderStep settings s (.terminating pc) op (.terminating pc')
  | terminated {pc op} : TerminateEnd s pc op → ReaderStep settings s (.terminating pc) op .stopped

/-- A task as the application starts it. -/
inductive Started : Task → Prop
  | call (call : Call) : Started (.start call)
  | send (body : Value) : Started (.entering (.message body))
  | shutdown (failure : ConnectionFailure) : Started (shutdownTask failure)

/-- A step from outside: an operation, and where the reader stands afterwards. -/
inductive EnvStep (settings : Settings) (s : Connection) : Operation → ReaderPc → List Task → Prop
  | started {t} : Started t → EnvStep settings s .skip s.reader [t]
  | line {frame} : s.reader = .reading → EnvStep settings s (.read frame) (handled frame) []
  | stop {failure} : s.reader = .reading →
      EnvStep settings s .skip (.terminating (.swap failure)) []
  | reader {op pc} : ReaderStep settings s s.reader op pc → EnvStep settings s op pc []
  | consume : EnvStep settings s .consume s.reader []

variable {settings : Settings} {s : Connection}

theorem readerNext_step {choice : Choice} {pc pc' : ReaderPc} {op : Operation}
    (h : readerNext settings s choice pc = some (op, pc')) : ReaderStep settings s pc op pc' := by
  cases pc with
  | looking id object raw =>
      simp only [readerNext] at h
      split at h
      · split at h <;> cases h
        · exact .invalid ‹_›
        · exact .valid ‹_›
      · cases h
        exact .orphan ‹_›
  | accepting id result raw =>
      simp only [readerNext] at h
      split at h <;> cases h
      · exact .take ‹_›
      · exact .lateOrphan ‹_›
  | sending id result => cases h; exact .deliver
  | dropping id => cases h; exact .dropPermit
  | cloning event =>
      simp only [readerNext] at h
      split at h <;> cases h
      · exact .pushing
      · exact .unsent (.inl rfl)
  | pushing event =>
      simp only [readerNext] at h
      split at h <;> cases h
      · exact .emit
      · exact .unsent (.inr rfl)
  | refusing failure => cases h; exact .refuse
  | terminating pc =>
      obtain ⟨⟨op', next⟩, hnext, hstep⟩ := Option.map_eq_some_iff.mp h
      obtain ⟨pc'', rfl, hterminate⟩ | ⟨rfl, hend⟩ := terminateNext_cases hnext
      · cases hstep
        exact .terminate hterminate
      · cases hstep
        exact .terminated hend
  | _ => cases h

theorem env_step {event : Outside} {s' : Connection} {started : List Task}
    (h : (system settings).env s event = some (s', started)) :
    ∃ op pc, s' = { s.perform op with reader := pc } ∧ EnvStep settings s op pc started := by
  change outside settings s event = _ at h
  cases event with
  | call call => cases h; exact ⟨.skip, s.reader, rfl, .started (.call call)⟩
  | send body => cases h; exact ⟨.skip, s.reader, rfl, .started (.send body)⟩
  | shutdown => cases h; exact ⟨.skip, s.reader, rfl, .started (.shutdown _)⟩
  | line frame =>
      simp only [outside] at h
      split at h <;> cases h
      exact ⟨.read frame, _, rfl, .line ‹_›⟩
  | stop failure =>
      simp only [outside] at h
      split at h <;> cases h
      exact ⟨.skip, _, rfl, .stop ‹_›⟩
  | reader choice =>
      obtain ⟨⟨op, pc⟩, hnext, hstep⟩ := Option.map_eq_some_iff.mp h
      cases hstep
      exact ⟨op, pc, rfl, .reader (readerNext_step hnext)⟩
  | consume => cases h; exact ⟨.consume, s.reader, rfl, .consume⟩

end Reader

end OpenaiRs.AppServer
