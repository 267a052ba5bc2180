import OpenaiRs.AppServer.Framing
import OpenaiRs.AppServer.Matching

/-!
# The shutdown of an app-server connection

Tasks and the reader all call `terminate`, and at most one of these calls gets past its first
operation. It closes the connection before it drains the pending requests, and it answers all
that it has drained.
-/

namespace OpenaiRs.AppServer

open Serde Rust Interleaving

section Parties

/-- Where a task stands in `terminate`. -/
def Task.shutdown : Task → Option TerminatePc
  | .leaving _ (.terminate pc :: _) _ => some pc
  | _ => none

def ReaderPc.shutdown : ReaderPc → Option TerminatePc
  | .terminating pc => some pc
  | _ => none

/-- Where a party stands in `terminate`: a task, or the reader (`none`). -/
def party (cfg : Config Connection Task) : Option Nat → Option TerminatePc
  | some i => cfg.tasks[i]?.bind Task.shutdown
  | none => cfg.shared.reader.shutdown

/-- A call of `terminate` that has not done anything yet, or none. -/
def Idle (pc : Option TerminatePc) : Prop := pc = none ∨ ∃ failure, pc = some (.swap failure)

/-- What a task still has to do on its way out: calls of `terminate` start at their beginning, and
the failure of the connection is only replaced by that of a request that timed out. -/
structure Queued (actions : List Cleanup) : Prop where
  swap : ∀ pc, Cleanup.terminate pc ∈ actions → ∃ failure, pc = .swap failure
  overwrite : ∀ failure, Cleanup.overwrite failure ∈ actions → ∃ call id, failure = Call.writeTimeout call id

/-- A task that is on its way out has only begun the first of its actions. -/
def Task.Orderly (t : Task) : Prop :=
  ∀ job action rest exit, t = .leaving job (action :: rest) exit →
    Queued rest ∧ ∀ failure, action = .overwrite failure → ∃ call id, failure = Call.writeTimeout call id

/-- The operations that are not those of `terminate` alone. -/
def Operation.Quiet : Operation → Prop
  | .startShutdown => False
  | .takeEvents => False
  | .drain => False
  | .broadcast _ _ => False
  | .closeSlots => False
  | .takeStdin => False
  | _ => True

/-- What a step of a party does in `terminate`. -/
inductive Shutdowns (s : Connection) : Option TerminatePc → Operation → Option TerminatePc → Prop
  | step {pc op pc'} : TerminateStep s pc op pc' → Shutdowns s (some pc) op (some pc')
  | finish {pc op after} : TerminateEnd s pc op → Idle after → Shutdowns s (some pc) op after
  | rest {pc op} : op.Quiet → Shutdowns s pc op pc
  | quiet {before op after} : (∀ pc, before = some pc → pc.awaits = true) → op.Quiet → Idle after →
      Shutdowns s before op after

theorem Queued.idle {actions : List Cleanup} (h : Queued actions) (job : Job) (exit : Exit) :
    Idle (Task.leaving job actions exit).shutdown := by
  cases actions with
  | nil => exact .inl rfl
  | cons action rest =>
      cases action with
      | terminate pc =>
          obtain ⟨failure, rfl⟩ := h.swap pc (.head _)
          exact .inr ⟨failure, rfl⟩
      | _ => exact .inl rfl

theorem Queued.orderly {actions : List Cleanup} (h : Queued actions) (job : Job) (exit : Exit) :
    (Task.leaving job actions exit).Orderly := by
  rintro _ action rest _ ⟨⟩
  constructor
  · exact ⟨fun pc hmem => h.swap pc (.tail _ hmem), fun failure hmem => h.overwrite failure (.tail _ hmem)⟩
  · rintro failure rfl
    exact h.overwrite failure (.head _)

theorem Tail.queued {job : Job} {tail : List Cleanup} {exit : Exit} (h : Tail job tail exit) :
    Queued tail := by
  cases h with
  | refused => cases job <;> exact ⟨by simp [Job.refused], by simp [Job.refused]⟩
  | dropped => cases job <;> exact ⟨by simp [Job.dropped], by simp [Job.dropped]⟩
  | overtime =>
      cases job with
      | request call id =>
          constructor
          · simp [Job.overtime]
          · intro failure hmem
            exact ⟨call, id, by simpa [Job.overtime] using hmem⟩
      | message body => exact ⟨by simp [Job.overtime], by simp [Job.overtime]⟩
      | shutdown => exact ⟨by simp [Job.overtime], by simp [Job.overtime]⟩

theorem Queued.cons {action : Cleanup} {tail : List Cleanup} (h : Queued tail)
    (hswap : ∀ pc, action = .terminate pc → ∃ failure, pc = .swap failure)
    (hoverwrite : ∀ failure, action ≠ .overwrite failure) : Queued (action :: tail) := by
  constructor
  · intro pc hmem
    obtain heq | hmem := List.mem_cons.mp hmem
    · exact hswap pc heq.symm
    · exact h.swap pc hmem
  · intro failure hmem
    obtain heq | hmem := List.mem_cons.mp hmem
    · exact absurd heq.symm (hoverwrite failure)
    · exact h.overwrite failure hmem

theorem Queued.guardActions {tail : List Cleanup} (h : Queued tail) : Queued (guardActions ++ tail) :=
  (((h.cons (by simp) (by simp)).cons (by simp) (by simp)).cons (by simp) (by simp)).cons (by simp)
    (by simp)

variable {settings : Settings} {s : Connection} {i : Nat} {t t' : Task} {choice : Choice}
  {op : Operation} {started : List Task}

theorem Task.orderly_of_shutdown (h : ∀ job actions exit, t ≠ .leaving job actions exit) : t.Orderly :=
  fun job action rest exit heq => absurd heq (h job (action :: rest) exit)

theorem Started.orderly (h : Started t) : t.Orderly ∧ Idle t.shutdown := by
  cases h with
  | call call => exact ⟨Task.orderly_of_shutdown (by simp), .inl rfl⟩
  | send body => exact ⟨Task.orderly_of_shutdown (by simp), .inl rfl⟩
  | shutdown failure =>
      have hqueued : Queued [.terminate (.swap failure)] := ⟨by simp, by simp⟩
      exact ⟨hqueued.orderly _ _, hqueued.idle _ _⟩

/-- A step that leads to a task on its way out. -/
theorem Queued.shutdowns {before : Option TerminatePc} {actions : List Cleanup} (h : Queued actions)
    (hbefore : ∀ pc, before = some pc → pc.awaits = true) (hquiet : op.Quiet) (job : Job) (exit : Exit) :
    Shutdowns s before op (Task.leaving job actions exit).shutdown ∧
      (Task.leaving job actions exit).Orderly :=
  ⟨.quiet hbefore hquiet (h.idle job exit), h.orderly job exit⟩

/-- What a step of a task does in `terminate`. -/
theorem Step.shutdowns (h : Step settings s i t choice op t' started) (horderly : t.Orderly) :
    Shutdowns s t.shutdown op t'.shutdown ∧ t'.Orderly := by
  have hskip : Operation.skip.Quiet := trivial
  have hquiet : (∀ job actions exit, t' ≠ .leaving job actions exit) → t.shutdown = none → op.Quiet →
      t'.shutdown = none → Shutdowns s t.shutdown op t'.shutdown ∧ t'.Orderly := by
    intro hne hbefore hop hafter
    exact ⟨.quiet (by simp [hbefore]) hop (.inl hafter), Task.orderly_of_shutdown hne⟩
  cases h with
  | turnedAway ht => exact hquiet (by simp) (by obtain ⟨call, rfl | rfl | rfl⟩ := ht <;> rfl) trivial rfl
  | released ht => exact hquiet (by simp) (by obtain ⟨call, rfl | rfl⟩ := ht <;> rfl) trivial rfl
  | refused htail => exact htail.queued.shutdowns (by simp [Task.shutdown]) hskip _ _
  | unqueued htail => exact htail.queued.shutdowns (by simp [Task.shutdown]) hskip _ _
  | unlocked htail =>
      exact (htail.queued.cons (by simp) (by simp)).shutdowns (by simp [Task.shutdown]) hskip _ _
  | @writeFailed job _ _ failure =>
      have htail : Tail job job.refused (.failed (.connection failure)) := .refused _
      exact ((htail.queued.cons (by simp) (by simp)).cons (by simp) (by simp)).shutdowns
        (by simp [Task.shutdown]) hskip _ _
  | @flushFailed job _ failure =>
      have htail : Tail job job.refused (.failed (.connection failure)) := .refused _
      exact ((htail.queued.cons (by simp) (by simp)).cons (by simp) (by simp)).shutdowns
        (by simp [Task.shutdown]) hskip _ _
  | writeDropped htail =>
      exact htail.queued.guardActions.shutdowns (by simp [Task.shutdown]) hskip _ _
  | flushDropped htail =>
      exact htail.queued.guardActions.shutdowns (by simp [Task.shutdown]) hskip _ _
  | @wrote job => cases job <;> exact hquiet (by simp [Job.wrote]) rfl trivial rfl
  | received =>
      have hqueued : Queued [.remove] := ⟨by simp, by simp⟩
      exact hqueued.shutdowns (by simp [Task.shutdown]) hskip _ _
  | @unanswered call id _ actions exit hactions =>
      have hqueued : Queued actions := by cases hactions <;> exact ⟨by simp, by simp⟩
      exact hqueued.shutdowns (by simp [Task.shutdown]) hskip _ _
  | @cleanup job action _ rest exit _ _ haction =>
      obtain ⟨hqueued, -⟩ := horderly _ _ _ _ rfl
      have hbefore : (Task.leaving job (action :: rest) exit).shutdown = none := by
        cases haction <;> rfl
      have hop : op.Quiet := by cases haction <;> exact trivial
      exact hqueued.shutdowns (by simp [hbefore]) hop _ _
  | terminate hterminate =>
      refine ⟨.step hterminate, ?_⟩
      rintro _ _ _ _ ⟨⟩
      exact ⟨(horderly _ _ _ _ rfl).1, by simp⟩
  | terminated hend =>
      obtain ⟨hqueued, -⟩ := horderly _ _ _ _ rfl
      exact ⟨.finish hend (hqueued.idle _ _), hqueued.orderly _ _⟩
  | abandoned hawaits htail =>
      refine htail.queued.shutdowns ?_ hskip _ _
      rintro _ ⟨⟩
      exact hawaits
  | guarded hawaits =>
      have hqueued : Queued [.remove] := ⟨by simp, by simp⟩
      refine hqueued.shutdowns ?_ hskip _ _
      rintro _ ⟨⟩
      exact hawaits
  | _ => exact hquiet (by simp) rfl trivial rfl

theorem ReaderStep.shutdowns {pc pc' : ReaderPc} (h : ReaderStep settings s pc op pc') :
    Shutdowns s pc.shutdown op pc'.shutdown := by
  cases h with
  | unsent hsource => rcases hsource with rfl | rfl <;> exact .quiet (by simp [ReaderPc.shutdown]) trivial (.inl rfl)
  | refuse => exact .quiet (by simp [ReaderPc.shutdown]) trivial (.inr ⟨_, rfl⟩)
  | terminate hterminate => exact .step hterminate
  | terminated hend => exact .finish hend (.inl rfl)
  | _ => exact .quiet (by simp [ReaderPc.shutdown]) trivial (.inl rfl)

end Parties

section Events

/-- The task that takes the step stands before replacing the failure of the connection by that of
its own timeout. -/
def Overwrites (cfg : Config Connection Task) (event : Event Choice Outside) : Prop :=
  ∃ i choice job failure rest exit, event = .act i choice ∧
    cfg.tasks[i]? = some (.leaving job (.overwrite failure :: rest) exit)

/-- An event as the operation of one party. -/
structure PartyStep (cfg : Config Connection Task) (event : Event Choice Outside)
    (cfg' : Config Connection Task) (who : Option Nat) (op : Operation) : Prop where
  legal : Legal cfg.shared who op
  shared : ∃ pc, cfg'.shared = { cfg.shared.perform op with reader := pc }
  shutdown : Shutdowns cfg.shared (party cfg who) op (party cfg' who)
  others : ∀ other, other ≠ who →
    party cfg' other = party cfg other ∨ (party cfg other = none ∧ Idle (party cfg' other))
  answers : ∀ id result failure, op = .deliver id result → result ≠ .connection failure
  overwrites : ∀ failure, op = .overwrite failure →
    (∃ call id, failure = Call.writeTimeout call id) ∧ Overwrites cfg event

variable {settings : Settings}

theorem responseResult_ne_connection {object : Map} {result : PendingResult}
    (h : responseResult settings object = .ok result) (failure : ConnectionFailure) :
    result ≠ .connection failure := by
  rintro rfl
  rw [responseResult] at h
  split at h
  · cases h
  · split at h <;> cases h
  · cases h

/-- The reader only delivers answers of frames. -/
theorem Logged.sending {s : Connection} (h : Logged settings s) {id : Nat} {result : PendingResult}
    (hreader : s.reader = .sending id result) (failure : ConnectionFailure) :
    result ≠ .connection failure := by
  have hbalance := h.balance
  rw [hreader] at hbalance
  have hlt : s.disposals.length < s.inbound.length := by
    rw [hbalance]
    exact Nat.lt_succ_self _
  have hanswers := h.handles _ (List.getElem?_eq_getElem hlt)
  rw [hreader] at hanswers
  obtain ⟨object, raw, -, hresult⟩ := hanswers
  exact responseResult_ne_connection hresult failure

theorem ReaderStep.answers {s : Connection} {pc : ReaderPc} {id : Nat} {result : PendingResult}
    (h : ReaderStep settings s s.reader (.deliver id result) pc) : s.reader = .sending id result := by
  generalize s.reader = reader at h
  cases h with
  | deliver => rfl
  | terminate hterminate => cases hterminate
  | terminated hend => cases hend

theorem Step.overwrites {s : Connection} {i : Nat} {t t' : Task} {choice : Choice}
    {failure : ConnectionFailure} {started : List Task}
    (h : Step settings s i t choice (.overwrite failure) t' started) :
    ∃ job rest exit, t = .leaving job (.overwrite failure :: rest) exit := by
  cases h with
  | cleanup haction =>
      cases haction
      exact ⟨_, _, _, rfl⟩
  | terminate hterminate => cases hterminate
  | terminated hend => cases hend

theorem handled_shutdown (frame : Frame) : (handled frame).shutdown = none := by
  rw [handled]
  cases classify frame <;> rfl

theorem shutdown_append {tasks started : List Task} (hstarted : ∀ u ∈ started, Started u) (j : Nat) :
    (tasks ++ started)[j]?.bind Task.shutdown = tasks[j]?.bind Task.shutdown ∨
      (tasks[j]?.bind Task.shutdown = none ∧ Idle ((tasks ++ started)[j]?.bind Task.shutdown)) := by
  obtain hlt | hge := Nat.lt_or_ge j tasks.length
  · left
    rw [List.getElem?_append_left hlt]
  · right
    rw [List.getElem?_append_right hge, List.getElem?_eq_none hge]
    constructor
    · rfl
    · cases hget : started[j - tasks.length]? with
      | none => exact .inl rfl
      | some u => exact (hstarted u (List.mem_of_getElem? hget)).orderly.2

/-- Every event is an operation of one party, or does nothing. -/
theorem exec_party {cfg : Config Connection Task} (hcfg : Owned cfg)
    (hlogged : Logged settings cfg.shared)
    (horderly : ∀ (i : Nat) (t : Task), cfg.tasks[i]? = some t → t.Orderly) (event : Event Choice Outside) :
    (system settings).exec cfg event = cfg ∨
      ∃ who op, PartyStep cfg event ((system settings).exec cfg event) who op := by
  have hmoves := (system settings).exec_moves cfg event
  generalize (system settings).exec cfg event = cfg' at hmoves
  cases hmoves with
  | still => exact .inl rfl
  | @act i choice t t' shared started htask hact =>
      obtain ⟨op, rfl, hstep⟩ := act_step hact
      have hlegal := hstep.legal (hcfg.tasks i t htask)
      have hreader := (accepted_perform hlegal).2
      have hlt : i < cfg.tasks.length := (List.getElem?_eq_some_iff.mp htask).1
      refine .inr ⟨some i, op, hlegal, ⟨cfg.shared.reader, ?_⟩, ?_, ?_, ?_, ?_⟩
      · rw [← hreader]
      · have hafter : (cfg.tasks.set i t' ++ started)[i]? = some t' := by
          rw [List.getElem?_append_left (by simpa using hlt), List.getElem?_set_self hlt]
        simp only [party, htask, hafter, Option.bind_some]
        exact (hstep.shutdowns (horderly i t htask)).1
      · intro other hne
        cases other with
        | none =>
            left
            simp only [party, hreader]
        | some j =>
            have hother : (cfg.tasks.set i t')[j]? = cfg.tasks[j]? :=
              List.getElem?_set_ne (fun heq => hne (congrArg some heq.symm))
            simp only [party]
            rw [← hother]
            exact shutdown_append (started_spawned hstep) j
      · rintro id result failure rfl
        cases hlegal
      · rintro failure rfl
        obtain ⟨job, rest, exit, rfl⟩ := hstep.overwrites
        exact ⟨(horderly i _ htask _ _ _ _ rfl).2 failure rfl, i, choice, job, failure, rest, exit, rfl,
          htask⟩
  | @env event shared started henv =>
      obtain ⟨op, pc, rfl, hstep⟩ := env_step henv
      have hlegal := hstep.legal hcfg.shared.2
      refine .inr ⟨none, op, hlegal, ⟨pc, rfl⟩, ?_, ?_, ?_, ?_⟩
      · change Shutdowns cfg.shared cfg.shared.reader.shutdown op pc.shutdown
        cases hstep with
        | reader hreader => exact hreader.shutdowns
        | started => exact .rest trivial
        | consume => exact .rest trivial
        | line hreading =>
            rw [hreading]
            exact .quiet (by simp [ReaderPc.shutdown]) trivial (.inl (handled_shutdown _))
        | stop hreading =>
            rw [hreading]
            exact .quiet (by simp [ReaderPc.shutdown]) trivial (.inr ⟨_, rfl⟩)
      · intro other hne
        cases other with
        | none => exact absurd rfl hne
        | some j => exact shutdown_append hstep.started_mem j
      · rintro id result failure rfl
        cases hstep with
        | reader hreader => exact hlogged.sending hreader.answers failure
      · rintro failure rfl
        cases hlegal

end Events

section Order

/-- Where `terminate` has closed the connection. -/
def TerminatePc.closing : TerminatePc → Bool
  | .swap _ => false
  | .close _ => false
  | _ => true

/-- Where `terminate` answers what it has drained. -/
def TerminatePc.answering : TerminatePc → Bool
  | .broadcast _ => true
  | .release _ _ => true
  | _ => false

/-- One call of `terminate` at most is under way, the connection is closed before the pending
requests are drained, and drained entries are being answered. -/
structure Solitary (cfg : Config Connection Task) : Prop where
  solo : ∀ a b, ¬ Idle (party cfg a) → ¬ Idle (party cfg b) → a = b
  started : ∀ a, ¬ Idle (party cfg a) → cfg.shared.shutdownStarted = true
  closed : ∀ a pc, party cfg a = some pc → pc.closing = true → cfg.shared.closed = true
  done : cfg.shared.drainDone = true → cfg.shared.closed = true
  loop : cfg.shared.drained ≠ [] → ∃ a pc, party cfg a = some pc ∧ pc.answering = true

variable {s : Connection} {op : Operation} {before after : Option TerminatePc}

theorem shutdownStarted_perform (op : Operation) (h : s.shutdownStarted = true) :
    (s.perform op).shutdownStarted = true := by
  cases op with
  | startShutdown => rfl
  | remove id =>
      simp only [Connection.perform]
      split <;> exact h
  | dropPermit id =>
      simp only [Connection.perform]
      split <;> exact h
  | _ => exact h

theorem drainDone_perform (h : (s.perform op).drainDone = true) : s.drainDone = true ∨ op = .drain := by
  cases op with
  | drain => exact .inr rfl
  | remove id =>
      simp only [Connection.perform] at h
      split at h <;> exact .inl h
  | dropPermit id =>
      simp only [Connection.perform] at h
      split at h <;> exact .inl h
  | _ => exact .inl h

theorem drained_perform (h : (s.perform op).drained ≠ []) : s.drained ≠ [] ∨ op = .drain := by
  cases op with
  | drain => exact .inr rfl
  | broadcast failure id =>
      left
      intro heq
      exact h (by simp [Connection.perform, heq])
  | remove id =>
      simp only [Connection.perform] at h
      split at h <;> exact .inl h
  | dropPermit id =>
      simp only [Connection.perform] at h
      split at h <;> exact .inl h
  | _ => exact .inl h

/-- A party gets past the start of `terminate` once. -/
theorem Shutdowns.active (h : Shutdowns s before op after) (hactive : ¬ Idle after) :
    ¬ Idle before ∨ (s.shutdownStarted = false ∧ op = .startShutdown) := by
  cases h with
  | step hstep =>
      cases hstep with
      | swap hstarted => exact .inr ⟨hstarted, rfl⟩
      | _ => exact .inl (by simp [Idle])
  | finish _ hidle => exact absurd hidle hactive
  | rest => exact .inl hactive
  | quiet _ _ hidle => exact absurd hidle hactive

theorem Shutdowns.closing (h : Shutdowns s before op after)
    (hbefore : ∀ pc, before = some pc → pc.closing = true → s.closed = true) {pc : TerminatePc}
    (hafter : after = some pc) (hpc : pc.closing = true) : (s.perform op).closed = true := by
  have hidle : Idle after → (s.perform op).closed = true := by
    rintro (hnone | ⟨failure, hswap⟩)
    · rw [hnone] at hafter
      cases hafter
    · rw [hswap] at hafter
      cases hafter
      cases hpc
  cases h with
  | step hstep =>
      cases hafter
      cases hstep with
      | close => rfl
      | swap => cases hpc
      | _ => exact closed_perform _ (hbefore _ rfl rfl)
  | finish _ hafter => exact hidle hafter
  | rest => exact closed_perform op (hbefore pc hafter hpc)
  | quiet _ _ hafter => exact hidle hafter

/-- The entries are drained behind the close. -/
theorem Shutdowns.drain (h : Shutdowns s before .drain after) :
    ∃ failure, before = some (.drain failure) ∧ after = some (.broadcast failure) := by
  cases h with
  | step hstep =>
      cases hstep
      exact ⟨_, rfl, rfl⟩
  | finish hend => cases hend
  | rest hquiet => exact hquiet.elim
  | quiet _ hquiet => exact hquiet.elim

/-- A party leaves the loop that answers drained entries when there are none. -/
theorem Shutdowns.answering {pc : TerminatePc} (h : Shutdowns s (some pc) op after)
    (hpc : pc.answering = true) (hdrained : s.drained ≠ []) :
    ∃ next, after = some next ∧ next.answering = true := by
  cases h with
  | step hstep =>
      cases hstep with
      | broadcast => exact ⟨_, rfl, rfl⟩
      | release => exact ⟨_, rfl, rfl⟩
      | answered hempty => exact absurd hempty hdrained
      | _ => cases hpc
  | finish hend => cases hend <;> cases hpc
  | rest => exact ⟨pc, rfl, hpc⟩
  | quiet hawaits =>
      have hpc' := hawaits pc rfl
      cases pc with
      | broadcast failure => cases hpc'
      | release failure id => cases hpc'
      | _ => cases hpc

section Step

variable {cfg cfg' : Config Connection Task} {event : Event Choice Outside} {who : Option Nat}

theorem PartyStep.other_active (h : PartyStep cfg event cfg' who op) {a : Option Nat} (hne : a ≠ who)
    (hactive : ¬ Idle (party cfg' a)) : party cfg' a = party cfg a := by
  obtain heq | ⟨-, hidle⟩ := h.others a hne
  · exact heq
  · exact absurd hidle hactive

/-- A party that is past the start was so before, or has just been the first. -/
theorem PartyStep.active (h : PartyStep cfg event cfg' who op) {a : Option Nat}
    (hactive : ¬ Idle (party cfg' a)) :
    ¬ Idle (party cfg a) ∨ (a = who ∧ cfg.shared.shutdownStarted = false ∧ op = .startShutdown) := by
  by_cases heq : a = who
  · subst heq
    exact (h.shutdown.active hactive).imp (fun h => h) (fun h => ⟨rfl, h⟩)
  · rw [h.other_active heq hactive] at hactive
    exact .inl hactive

theorem PartyStep.solitary (h : PartyStep cfg event cfg' who op) (hsolitary : Solitary cfg) :
    Solitary cfg' := by
  obtain ⟨reader, hshared⟩ := h.shared
  constructor
  · intro a b ha hb
    obtain ha' | ⟨rfl, hstarted, -⟩ := h.active ha
    · obtain hb' | ⟨rfl, hstarted, -⟩ := h.active hb
      · exact hsolitary.solo a b ha' hb'
      · rw [hsolitary.started a ha'] at hstarted
        cases hstarted
    · obtain hb' | ⟨rfl, -⟩ := h.active hb
      · rw [hsolitary.started b hb'] at hstarted
        cases hstarted
      · rfl
  · intro a ha
    rw [hshared]
    obtain ha' | ⟨-, -, rfl⟩ := h.active ha
    · exact shutdownStarted_perform op (hsolitary.started a ha')
    · rfl
  · intro a pc ha hclosing
    rw [hshared]
    by_cases heq : a = who
    · subst heq
      exact h.shutdown.closing (hsolitary.closed a) ha hclosing
    · have hactive : ¬ Idle (party cfg' a) := by
        rw [ha]
        rintro (hnone | ⟨failure, hswap⟩)
        · cases hnone
        · cases hswap
          cases hclosing
      rw [h.other_active heq hactive] at ha
      exact closed_perform op (hsolitary.closed a pc ha hclosing)
  · intro hdone
    rw [hshared] at hdone ⊢
    obtain hbefore | rfl := drainDone_perform hdone
    · exact closed_perform op (hsolitary.done hbefore)
    · obtain ⟨failure, hbefore, -⟩ := h.shutdown.drain
      exact closed_perform _ (hsolitary.closed who _ hbefore rfl)
  · intro hdrained
    rw [hshared] at hdrained
    by_cases hop : op = .drain
    · subst hop
      obtain ⟨failure, -, hafter⟩ := h.shutdown.drain
      exact ⟨who, _, hafter, rfl⟩
    · have hbefore := (drained_perform hdrained).resolve_right hop
      obtain ⟨a, pc, ha, hanswering⟩ := hsolitary.loop hbefore
      by_cases heq : a = who
      · subst heq
        have hstep := h.shutdown
        rw [ha] at hstep
        obtain ⟨next, hnext, hanswering⟩ := hstep.answering hanswering hbefore
        exact ⟨a, next, hnext, hanswering⟩
      · obtain hsame | ⟨hnone, -⟩ := h.others a heq
        · exact ⟨a, pc, hsame.trans ha, hanswering⟩
        · rw [ha] at hnone
          cases hnone

end Step

end Order

section Runs

variable (settings : Settings)

/-- The invariants of a configuration under shutdown. -/
structure Coordinated (cfg : Config Connection Task) : Prop where
  owned : Owned cfg
  consistent : System.Holds (Consistent settings) Receives cfg
  orderly : ∀ (i : Nat) (t : Task), cfg.tasks[i]? = some t → t.Orderly
  solitary : Solitary cfg

theorem orderly_stable : System.Stable (system settings) (fun _ _ => True) (fun _ => True)
    (fun _ => True) (fun _ _ t => t.Orderly) where
  act {cfg i choice t s' t' started} _ _ _ hact _ horderly := by
    obtain ⟨op, -, hstep⟩ := act_step hact
    exact ⟨trivial, (hstep.shutdowns horderly).2, fun u hmem _ => (started_spawned hstep u hmem).orderly.1⟩
  other _ _ _ _ _ _ _ _ horderly := horderly
  env {cfg event s' started} _ _ henv _ := by
    obtain ⟨op, pc, -, hstep⟩ := env_step henv
    exact ⟨trivial, fun _ _ _ horderly => horderly, fun u hmem _ => (hstep.started_mem u hmem).orderly.1⟩

theorem coordinated_preserved : (system settings).Preserved (fun _ _ => True) (Coordinated settings) := by
  intro cfg event hcfg _
  obtain ⟨howned, hconsistent⟩ :=
    consistent_preserved settings cfg event ⟨hcfg.owned, hcfg.consistent⟩ trivial
  have horderly := (orderly_stable settings).preserved_self cfg event ⟨trivial, hcfg.orderly⟩ trivial
  refine ⟨howned, hconsistent, horderly.tasks, ?_⟩
  obtain heq | ⟨who, op, hstep⟩ := exec_party hcfg.owned hcfg.consistent.shared.logged hcfg.orderly event
  · rw [heq]
    exact hcfg.solitary
  · exact hstep.solitary hcfg.solitary

theorem party_start (a : Option Nat) : party (start settings) a = none := by
  cases a <;> rfl

theorem coordinated_start : Coordinated settings (start settings) := by
  have hidle : ∀ a, Idle (party (start settings) a) := fun a => .inl (party_start settings a)
  refine ⟨owned_start settings, consistent_start settings, ?_, ?_, ?_, ?_, ?_, ?_⟩
  · intro i t htask
    cases htask
  · intro a b ha
    exact absurd (hidle a) ha
  · intro a ha
    exact absurd (hidle a) ha
  · intro a pc ha
    rw [party_start] at ha
    cases ha
  · intro hdone
    cases hdone
  · intro hdrained
    exact absurd rfl hdrained

theorem coordinated_run (events : List (Event Choice Outside)) :
    Coordinated settings ((system settings).run (start settings) events) :=
  (coordinated_preserved settings).run_free (coordinated_start settings) events

end Runs

end OpenaiRs.AppServer
