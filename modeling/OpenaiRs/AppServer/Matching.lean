import OpenaiRs.AppServer.Capacity
import OpenaiRs.AppServer.Delivery

/-!
# Requests and their responses

A request that returns a result returns the value of its channel, and that is the answer of
an inbound frame with its id, or the failure of the connection. A response that is accepted
while its request is pending can only get lost if the request has stopped waiting; one whose
request is not pending becomes an event or fails the connection.
-/

namespace OpenaiRs.AppServer

open Serde Rust Interleaving

section Requests

/-- How the call of a task ends, once that is settled. -/
def Task.exit : Task → Option Exit
  | .leaving _ _ exit => some exit
  | .ended _ exit => some exit
  | _ => none

/-- The task ends without a result. -/
def Task.Quits (t : Task) : Prop := ∃ exit, t.exit = some exit ∧ ∀ result, exit ≠ .received result

/-- A task returns the value of its channel, and drops its receiver only if it returns none. -/
structure Receives (s : Connection) (_ : Nat) (t : Task) : Prop where
  value : ∀ result, t.exit = some (.received result) →
    ∃ id, t.id = some id ∧ (s.channels id).value = some result
  last : ∀ job actions result, t = .leaving job actions (.received result) →
    ∀ action ∈ actions, action = .remove
  quits : ∀ id, t.id = some id → (s.channels id).receiverDropped = true → t.Quits

variable {settings : Settings} {s : Connection} {who : Option Nat} {i : Nat} {t t' : Task}
  {choice : Choice} {op : Operation} {started : List Task}

/-- Operations of others do not interfere with what a task receives. -/
theorem Receives.other {j : Nat} {u : Task} (h : Receives s j u) (hsound : Sound s) (hown : Owns s j u)
    (hlegal : Legal s who op) (hwho : who ≠ some j) : Receives (s.perform op) j u where
  value result hexit := by
    obtain ⟨id, hid, hvalue⟩ := h.value result hexit
    exact ⟨id, hid, hsound.value_stays hlegal hvalue⟩
  last := h.last
  quits id hid hreceiver := by
    refine h.quits id hid ?_
    rwa [receiverDropped_perform] at hreceiver
    rintro rfl
    cases hlegal with
    | dropReceiver howner =>
        rw [(hown.owner id hid).1] at howner
        exact hwho howner.symm

/-- A task that returns no result. -/
theorem Receives.move (op : Operation) (h : Receives s i t) (hid : t'.id = t.id ∨ t'.id = none)
    (hexit : ∀ result, t'.exit ≠ some (.received result)) (hquits : t.Quits → t'.Quits)
    (hop : ∀ id, op = .dropReceiver id → t'.Quits) : Receives (s.perform op) i t' where
  value result heq := absurd heq (hexit result)
  last job actions result heq := absurd (by rw [heq]; rfl) (hexit result)
  quits id hid' hreceiver := by
    by_cases hdrop : op = .dropReceiver id
    · exact hop id hdrop
    · rw [receiverDropped_perform op hdrop] at hreceiver
      obtain hid | hid := hid
      · exact hquits (h.quits id (hid ▸ hid') hreceiver)
      · rw [hid] at hid'
        cases hid'

/-- A call that has given up. -/
theorem Receives.giveUp {job : Job} {actions : List Cleanup} {exit : Exit} (h : Receives s i t)
    (hid : t.id = job.id) (hexit : ∀ result, exit ≠ .received result) :
    Receives s i (.leaving job actions exit) :=
  h.move .skip (.inl hid.symm) (fun result heq => hexit result (Option.some.inj heq))
    (fun _ => ⟨exit, rfl, hexit⟩) (by simp)

theorem Tail.exit_ne {job : Job} {tail : List Cleanup} {exit : Exit} (h : Tail job tail exit)
    (result : PendingResult) : exit ≠ .received result := by
  cases h <;> simp

/-- A task without a settled end has not quit. -/
theorem Task.not_quits (h : t.exit = none) : ¬ t.Quits := by
  rintro ⟨exit, hexit, -⟩
  rw [h] at hexit
  cases hexit

/-- A step on the way to the response. -/
theorem Receives.goOn (op : Operation) (h : Receives s i t) (hid : t'.id = t.id ∨ t'.id = none)
    (hbefore : t.exit = none) (hafter : ∀ result, t'.exit ≠ some (.received result))
    (hop : ∀ id, op ≠ .dropReceiver id) : Receives (s.perform op) i t' :=
  h.move op hid hafter (fun hquits => absurd hquits (Task.not_quits hbefore))
    (fun id heq => absurd heq (hop id))

/-- A task keeps what it receives. -/
theorem Step.receives (h : Step settings s i t choice op t' started) (hsound : Sound s)
    (hown : Owns s i t) (hreceives : Receives s i t) : Receives (s.perform op) i t' := by
  have hlegal := h.legal hown
  cases h with
  | turnedAway ht hexit =>
      refine hreceives.goOn _ (.inr rfl) ?_ (by simpa [Task.exit] using hexit) (by simp)
      obtain ⟨call, rfl | rfl | rfl⟩ := ht <;> rfl
  | released ht hexit =>
      refine hreceives.goOn _ (.inr rfl) ?_ (by simpa [Task.exit] using hexit) (by simp)
      obtain ⟨call, rfl | rfl⟩ := ht <;> rfl
  | identified =>
      refine ⟨by simp [Task.exit], by simp, ?_⟩
      rintro id ⟨⟩ hreceiver
      rw [receiverDropped_perform _ (by simp), (hsound.unissued _ (Nat.le_refl _)).1] at hreceiver
      cases hreceiver
  | refused htail => exact hreceives.giveUp rfl htail.exit_ne
  | unqueued htail => exact hreceives.giveUp rfl htail.exit_ne
  | unlocked htail => exact hreceives.giveUp rfl htail.exit_ne
  | writeFailed => exact hreceives.giveUp rfl (by simp)
  | flushFailed => exact hreceives.giveUp rfl (by simp)
  | writeDropped htail => exact hreceives.giveUp rfl htail.exit_ne
  | flushDropped htail => exact hreceives.giveUp rfl htail.exit_ne
  | @wrote job =>
      cases job with
      | request call id => exact hreceives.goOn _ (.inl rfl) rfl (by simp [Job.wrote, Task.exit]) (by simp)
      | message body => exact hreceives.goOn _ (.inr rfl) rfl (by simp [Job.wrote, Task.exit]) (by simp)
      | shutdown => exact hreceives.goOn _ (.inr rfl) rfl (by simp [Job.wrote, Task.exit]) (by simp)
  | @received call id choice result hvalue =>
      refine ⟨?_, ?_, ?_⟩
      · rintro _ ⟨⟩
        exact ⟨id, rfl, hvalue⟩
      · rintro _ _ _ ⟨⟩
        simp
      · intro other hid hreceiver
        exact absurd (hreceives.quits other hid hreceiver) (Task.not_quits rfl)
  | unanswered hactions =>
      refine hreceives.giveUp rfl ?_
      cases hactions <;> simp
  | @cleanup job action _ rest exit _ _ haction =>
      constructor
      · intro result hexit
        obtain ⟨id, hid, hvalue⟩ := hreceives.value result hexit
        exact ⟨id, hid, hsound.value_stays hlegal hvalue⟩
      · rintro _ _ result ⟨⟩ other hmem
        exact hreceives.last job _ result rfl other (.tail _ hmem)
      · intro id hid hreceiver
        by_cases hdrop : op = .dropReceiver id
        · subst hdrop
          refine ⟨exit, rfl, ?_⟩
          rintro result rfl
          cases hreceives.last job _ result rfl action (.head _)
          cases haction
        · rw [receiverDropped_perform op hdrop] at hreceiver
          exact hreceives.quits id hid hreceiver
  | @terminate job pc _ rest exit _ _ hterminate =>
      have hexit : ∀ result, exit ≠ .received result := by
        rintro result rfl
        cases hreceives.last job _ result rfl _ (.head _)
      refine hreceives.move op (.inl rfl) (by simpa [Task.exit] using hexit)
        (fun _ => ⟨exit, rfl, hexit⟩) ?_
      rintro id rfl
      cases hterminate
  | @terminated job pc _ rest exit _ hend =>
      have hexit : ∀ result, exit ≠ .received result := by
        rintro result rfl
        cases hreceives.last job _ result rfl _ (.head _)
      refine hreceives.move op (.inl rfl) (by simpa [Task.exit] using hexit)
        (fun _ => ⟨exit, rfl, hexit⟩) ?_
      rintro id rfl
      cases hend
  | abandoned _ htail => exact hreceives.giveUp rfl htail.exit_ne
  | guarded => exact hreceives.giveUp rfl (by simp)
  | ended => exact ⟨hreceives.value, by simp, hreceives.quits⟩
  | unclosed => exact hreceives.goOn _ (.inr rfl) rfl (by simp [Task.exit]) (by simp)
  | acquiring => exact hreceives.goOn _ (.inr rfl) rfl (by simp [Task.exit]) (by simp)
  | granted => exact hreceives.goOn _ (.inr rfl) rfl (by simp [Task.exit]) (by simp)
  | permitted => exact hreceives.goOn _ (.inr rfl) rfl (by simp [Task.exit]) (by simp)
  | _ => exact hreceives.goOn _ (.inl rfl) rfl (by simp [Task.exit]) (by simp)

theorem Started.receives (h : Started t) : Receives s i t := by
  cases h with
  | call call => exact ⟨by simp [Task.exit], by simp, by simp [Task.id]⟩
  | send body => exact ⟨by simp [Task.exit], by simp, by simp [Task.id, Job.id]⟩
  | shutdown failure =>
      exact ⟨by simp [shutdownTask, Task.exit], by simp [shutdownTask], by simp [shutdownTask, Task.id, Job.id]⟩

end Requests

section Ids

variable {settings : Settings} {s : Connection} {i : Nat} {t t' : Task} {choice : Choice}
  {op : Operation} {started : List Task}

theorem nextId_perform_eq (hop : ∀ task, op ≠ .takeId task) : (s.perform op).nextId = s.nextId := by
  cases op with
  | takeId task => exact absurd rfl (hop task)
  | remove id =>
      simp only [Connection.perform]
      split <;> rfl
  | dropPermit id =>
      simp only [Connection.perform]
      split <;> rfl
  | _ => rfl

/-- Ids fit into their machine type. -/
theorem Step.nextId_lt (h : Step settings s i t choice op t' started) (hlt : s.nextId < UInt64.size) :
    (s.perform op).nextId < UInt64.size := by
  by_cases hop : ∃ task, op = .takeId task
  · obtain ⟨task, rfl⟩ := hop
    cases h with
    | identified hnext => exact hnext
    | cleanup haction => cases haction
    | terminate hterminate => cases hterminate
    | terminated hend => cases hend
  · rw [nextId_perform_eq (not_exists.mp hop)]
    exact hlt

/-- A request writes its id: the other members do not replace it. -/
theorem Call.message_id (call : Call) (trace : Omittable Value) {id : Nat} (hid : id < UInt64.size) :
    ((call.message id trace).get "id").map RpcId.fromValue = some (.ok (.number id)) := by
  have hget : (call.message id trace).get "id" = some (.number (.posInt (UInt64.ofNat id))) := by
    have hkeep : ∀ (object : Map) (field : Option Value) (key : String), key ≠ "id" →
        object.get "id" = some (.number (.posInt (UInt64.ofNat id))) →
        ((field.map (object.insert key)).getD object).get "id" =
          some (.number (.posInt (UInt64.ofNat id))) := by
      intro object field key hne hobject
      cases field with
      | none => exact hobject
      | some value => exact Map.get_insert_of_ne hobject hne value
    exact hkeep _ _ _ (by decide) (hkeep _ _ _ (by decide) rfl)
  rw [hget]
  simp only [Option.map_some, RpcId.fromValue, Number.asU64, UInt64.toNat_ofNat_of_lt' hid]

end Ids

section Runs

variable (settings : Settings)

/-- What the shared state says about frames and answers. -/
structure Consistent (s : Connection) : Prop where
  logged : Logged settings s
  answered : Answered s
  ids : s.nextId < UInt64.size

variable {settings} {s : Connection} {op : Operation} {pc : ReaderPc} {started : List Task}

theorem ReaderStep.failed {reader : ReaderPc} (h : ReaderStep settings s reader op pc)
    (disposal : Disposal) (hop : op = .dispose disposal) : ∃ failure, disposal = .failed failure := by
  subst hop
  cases h with
  | @refuse failure => exact ⟨failure, rfl⟩
  | terminate hterminate => cases hterminate
  | terminated hend => cases hend

theorem EnvStep.failed (h : EnvStep settings s op pc started) (disposal : Disposal)
    (hop : op = .dispose disposal) : ∃ failure, disposal = .failed failure := by
  cases h with
  | reader hreader => exact hreader.failed disposal hop
  | started => cases hop
  | line => cases hop
  | stop => cases hop
  | consume => cases hop

theorem Answered.withReader (h : Answered s) (pc : ReaderPc) : Answered { s with reader := pc } :=
  ⟨h.spent, h.nodup, h.value, h.delivered, h.discarded, h.drained, h.queued⟩

variable (settings)

theorem consistent_stable :
    System.Stable (system settings) (fun _ _ => True) Owned (Consistent settings) Receives where
  act {cfg i choice t s' t' started} hcfg _ htask hact hconsistent hreceives := by
    obtain ⟨op, rfl, hstep⟩ := act_step hact
    have hown := hcfg.tasks i t htask
    have hlegal := hstep.legal hown
    refine ⟨⟨?_, ?_, ?_⟩, hstep.receives hcfg.shared.1 hown hreceives, ?_⟩
    · exact hconsistent.logged.act hlegal
    · refine hconsistent.answered.perform hcfg.shared.1 hlegal ?_
      rintro disposal rfl
      cases hlegal
    · exact hstep.nextId_lt hconsistent.ids
    · intro u hmem j
      exact (started_spawned hstep u hmem).receives
  other {cfg i choice t s' t' started j u} hcfg _ htask hact _ _ hne hother hreceives := by
    obtain ⟨op, rfl, hstep⟩ := act_step hact
    exact hreceives.other hcfg.shared.1 (hcfg.tasks j u hother) (hstep.legal (hcfg.tasks i t htask))
      (fun heq => hne (Option.some.inj heq).symm)
  env {cfg event s' started} hcfg _ henv hconsistent := by
    obtain ⟨op, pc, rfl, hstep⟩ := env_step henv
    have hlegal := hstep.legal hcfg.shared.2
    refine ⟨⟨hstep.logged hconsistent.logged, ?_, ?_⟩, ?_, ?_⟩
    · exact (hconsistent.answered.perform hcfg.shared.1 hlegal hstep.failed).withReader pc
    · have hids : (cfg.shared.perform op).nextId = cfg.shared.nextId := by
        refine nextId_perform_eq ?_
        rintro task rfl
        cases hlegal
      change (cfg.shared.perform op).nextId < UInt64.size
      rw [hids]
      exact hconsistent.ids
    · intro j u hother hreceives
      have hkept := hreceives.other hcfg.shared.1 (hcfg.tasks j u hother) hlegal (by simp)
      exact ⟨hkept.value, hkept.last, hkept.quits⟩
    · intro u hmem j
      exact (hstep.started_mem u hmem).receives

theorem consistent_preserved : (system settings).Preserved (fun _ _ => True)
    fun cfg => Owned cfg ∧ System.Holds (Consistent settings) Receives cfg :=
  (consistent_stable settings).preserved (owned_preserved settings)

theorem consistent_start : System.Holds (Consistent settings) Receives (start settings) := by
  refine ⟨⟨⟨rfl, ?_, ?_⟩, ⟨?_, ?_, ?_, ?_, ?_, ?_, ?_⟩, ?_⟩, ?_⟩
  · intro frame hframe
    trivial
  · intro n disposal hdisposal
    cases hdisposal
  · intro id hmem
    cases hmem
  · exact List.nodup_nil
  · intro id result hvalue
    cases hvalue
  · intro id result hmem
    cases hmem
  · intro id hmem
    cases hmem
  · intro id hmem
    cases hmem
  · exact List.suffix_refl _
  · change 1 < UInt64.size
    decide
  · intro i t htask
    cases htask

theorem consistent_run (events : List (Event Choice Outside)) :
    Owned ((system settings).run (start settings) events) ∧
      System.Holds (Consistent settings) Receives ((system settings).run (start settings) events) :=
  (consistent_preserved settings).run_free ⟨owned_start settings, consistent_start settings⟩ events

end Runs

section Orphans

variable {settings : Settings} {s : Connection} {n : Nat} {event : AppServerEvent}

/-- The frame at position `n` becomes an event, or fails the connection. -/
def Orphaned (n : Nat) (event : AppServerEvent) (s : Connection) : Prop :=
  (s.disposals.length = n ∧
    (s.reader = .cloning event ∨ s.reader = .pushing event ∨ ∃ failure, s.reader = .refusing failure)) ∨
  ∃ disposal, s.disposals[n]? = some disposal ∧
    (disposal = .emitted event ∨ ∃ failure, disposal = .failed failure)

/-- A disposal stays. -/
theorem Orphaned.settled {s' : Connection} {op : Operation} {disposal : Disposal}
    (hdisposals : s'.disposals = (s.perform op).disposals) (h : s.disposals[n]? = some disposal)
    (hevent : disposal = .emitted event ∨ ∃ failure, disposal = .failed failure) :
    Orphaned n event s' := by
  refine .inr ⟨disposal, ?_, hevent⟩
  rw [hdisposals, disposals_perform, List.getElem?_append_left (List.getElem?_eq_some_iff.mp h).1]
  exact h

theorem EnvStep.orphaned {op : Operation} {pc : ReaderPc} {started : List Task}
    (hstep : EnvStep settings s op pc started) (h : Orphaned n event s) :
    Orphaned n event { s.perform op with reader := pc } := by
  obtain ⟨hlength, hreader⟩ | ⟨disposal, hdisposal, hevent⟩ := h
  · cases hstep with
    | started => exact .inl ⟨hlength, hreader⟩
    | consume => exact .inl ⟨hlength, hreader⟩
    | line hreading => simp [hreading] at hreader
    | stop hreading => simp [hreading] at hreader
    | reader hstep =>
        generalize hpc : s.reader = reader at hreader hstep
        obtain rfl | rfl | ⟨failure, rfl⟩ := hreader
        · cases hstep with
          | pushing => exact .inl ⟨hlength, .inr (.inl rfl)⟩
          | unsent _ => exact .inl ⟨hlength, .inr (.inr ⟨_, rfl⟩)⟩
        · cases hstep with
          | unsent _ => exact .inl ⟨hlength, .inr (.inr ⟨_, rfl⟩)⟩
          | emit =>
              refine .inr ⟨.emitted event, ?_, .inl rfl⟩
              rw [← hlength]
              exact List.getElem?_concat_length
        · cases hstep with
          | unsent hsource => simp at hsource
          | refuse =>
              refine .inr ⟨.failed failure, ?_, .inr ⟨failure, rfl⟩⟩
              rw [← hlength]
              exact List.getElem?_concat_length
  · exact Orphaned.settled rfl hdisposal hevent

theorem orphaned_preserved (settings : Settings) (n : Nat) (event : AppServerEvent) :
    (system settings).Preserved (fun _ _ => True)
      fun cfg => Owned cfg ∧ System.Holds (Orphaned n event) (fun _ _ _ => True) cfg := by
  refine System.Stable.preserved (owned_preserved settings) ⟨?_, fun _ _ _ _ _ _ _ _ _ => trivial, ?_⟩
  · intro cfg i choice t s' t' started hcfg _ htask hact horphaned _
    obtain ⟨op, rfl, hstep⟩ := act_step hact
    have hlegal := hstep.legal (hcfg.tasks i t htask)
    refine ⟨?_, trivial, fun _ _ _ => trivial⟩
    rw [Orphaned, (log_perform hlegal).2.1, (accepted_perform hlegal).2]
    exact horphaned
  · intro cfg outer s' started _ _ henv horphaned
    obtain ⟨op, pc, rfl, hstep⟩ := env_step henv
    exact ⟨hstep.orphaned horphaned, fun _ _ _ _ => trivial, fun _ _ _ => trivial⟩

/-- The reader looks for the request of a response. -/
def ReaderPc.seeks (pc : ReaderPc) (id : Nat) (raw : Value) : Prop :=
  (∃ object, pc = .looking id object raw) ∨ ∃ result, pc = .accepting id result raw

/-- A response without its request becomes an event or fails the connection, whatever follows. -/
theorem orphan_kept (settings : Settings) {cfg : Config Connection Task} (hcfg : Owned cfg) {id : Nat}
    {raw : Value} (hreader : cfg.shared.reader.seeks id raw) (hpending : id ∉ cfg.shared.pending)
    (choice : Choice) (more : List (Event Choice Outside)) {disposal : Disposal}
    (hdisposal : ((system settings).run ((system settings).exec cfg (.env (.reader choice))) more
      ).shared.disposals[cfg.shared.disposals.length]? = some disposal) :
    disposal = .emitted (.orphanResponse (.number id) raw) ∨ ∃ failure, disposal = .failed failure := by
  have hnext : (system settings).exec cfg (.env (.reader choice)) =
      ⟨{ cfg.shared with reader := .cloning (.orphanResponse (.number id) raw) }, cfg.tasks ++ []⟩ := by
    obtain ⟨object, hreader⟩ | ⟨result, hreader⟩ := hreader
    · simp [System.exec, system, outside, readerNext, hreader, hpending, Connection.perform]
    · simp [System.exec, system, outside, readerNext, hreader, hpending, Connection.perform]
  have hstart : Orphaned cfg.shared.disposals.length (.orphanResponse (.number id) raw)
      ((system settings).exec cfg (.env (.reader choice))).shared := by
    rw [hnext]
    exact .inl ⟨rfl, .inl rfl⟩
  have howned := owned_preserved settings cfg (.env (.reader choice)) hcfg trivial
  have hrun := ((orphaned_preserved settings _ _).run_free ⟨howned, hstart, fun _ _ _ => trivial⟩ more).2
  obtain ⟨hlength, -⟩ | ⟨other, hother, hevent⟩ := hrun.shared
  · rw [List.getElem?_eq_none (Nat.le_of_eq hlength)] at hdisposal
    cases hdisposal
  · cases hdisposal.symm.trans hother
    exact hevent

end Orphans

section Values

/-- The value of a channel stays in every run. -/
theorem value_run (settings : Settings) {cfg : Config Connection Task} (hcfg : Owned cfg) {id : Nat}
    {result : PendingResult} (h : (cfg.shared.channels id).value = some result)
    (more : List (Event Choice Outside)) :
    (((system settings).run cfg more).shared.channels id).value = some result := by
  have hstable : System.Stable (system settings) (fun _ _ => True) Owned
      (fun s => (s.channels id).value = some result) (fun _ _ _ => True) := by
    refine ⟨?_, fun _ _ _ _ _ _ _ _ _ => trivial, ?_⟩
    · intro cfg i choice t s' t' started hcfg _ htask hact hvalue _
      obtain ⟨op, rfl, hstep⟩ := act_step hact
      have hlegal := hstep.legal (hcfg.tasks i t htask)
      exact ⟨hcfg.shared.1.value_stays hlegal hvalue, trivial, fun _ _ _ => trivial⟩
    · intro cfg event s' started hcfg _ henv hvalue
      obtain ⟨op, pc, rfl, hstep⟩ := env_step henv
      have hlegal := hstep.legal hcfg.shared.2
      exact ⟨hcfg.shared.1.value_stays hlegal hvalue, fun _ _ _ _ => trivial, fun _ _ _ => trivial⟩
  exact ((hstable.preserved (owned_preserved settings)).run_free ⟨hcfg, h, fun _ _ _ => trivial⟩
    more).2.shared

end Values

section Main

/-- How requests and inbound frames are matched. -/
structure Matched (settings : Settings) (cfg : Config Connection Task) : Prop where
  /-- A result is the failure of the connection, or the answer of a frame with the id of the
  request, delivered to that request. -/
  received : ∀ (i : Nat) t result, cfg.tasks[i]? = some t → t.exit = some (.received result) →
    ∃ id, t.id = some id ∧ (cfg.shared.channels id).value = some result ∧
      ((∃ failure, result = .connection failure) ∨
        ∃ (n : Nat) (frame : Frame), cfg.shared.inbound[n]? = some frame ∧
          cfg.shared.disposals[n]? = some (.delivered id result) ∧ Answers settings frame id result)
  /-- A request writes the id that it waits for. -/
  written : ∀ (i : Nat) t id, cfg.tasks[i]? = some t → t.id = some id → ∀ call : Call,
    ((call.message id settings.trace).get "id").map RpcId.fromValue = some (.ok (.number id))
  /-- Every frame but the one that is handled has one disposal. -/
  balance : cfg.shared.inbound.length =
    cfg.shared.disposals.length + if cfg.shared.reader.handling then 1 else 0
  disposed : ∀ (n : Nat) disposal, cfg.shared.disposals[n]? = some disposal →
    ∃ frame, cfg.shared.inbound[n]? = some frame ∧ Disposed settings frame disposal
  /-- No request is answered by two frames. -/
  nodup : (cfg.shared.disposals.filterMap Disposal.target).Nodup
  /-- The event queue holds frames whose disposal is an event. -/
  queued : cfg.shared.events <:+ cfg.shared.disposals.filterMap Disposal.event
  /-- A delivered result is returned, unless the request has stopped waiting. -/
  delivered : ∀ (n : Nat) id result, cfg.shared.disposals[n]? = some (.delivered id result) →
    ∀ (i : Nat) t, cfg.tasks[i]? = some t → t.id = some id →
      t.exit = none ∨ t.exit = some (.received result) ∨ t.Quits
  /-- An accepted response is only lost if the request has stopped waiting. -/
  discarded : ∀ (n : Nat) id, cfg.shared.disposals[n]? = some (.discarded id) →
    (cfg.shared.channels id).receiverDropped = true ∧
      ∀ (i : Nat) t, cfg.tasks[i]? = some t → t.id = some id → t.Quits

theorem matched_of_consistent {settings : Settings} {cfg : Config Connection Task} (hcfg : Owned cfg)
    (h : System.Holds (Consistent settings) Receives cfg) : Matched settings cfg where
  received i t result htask hexit := by
    obtain ⟨id, hid, hvalue⟩ := (h.tasks i t htask).value result hexit
    refine ⟨id, hid, hvalue, ?_⟩
    obtain hfailure | hmem := h.shared.answered.value id result hvalue
    · exact .inl hfailure
    · obtain ⟨n, hn⟩ := List.mem_iff_getElem?.mp hmem
      obtain ⟨frame, hframe, hanswers⟩ := h.shared.logged.disposed n _ hn
      exact .inr ⟨n, frame, hframe, hn, hanswers⟩
  written i t id htask hid call := by
    have hissued := ((hcfg.tasks i t htask).owner id hid).2
    exact call.message_id settings.trace (Nat.lt_trans hissued h.shared.ids)
  balance := h.shared.logged.balance
  disposed := h.shared.logged.disposed
  nodup := h.shared.answered.nodup
  queued := h.shared.answered.queued
  delivered n id result hn i t htask hid := by
    have hvalue := h.shared.answered.delivered id result (List.mem_of_getElem? hn)
    cases hexit : t.exit with
    | none => exact .inl rfl
    | some exit =>
        right
        cases exit with
        | received other =>
            obtain ⟨id', hid', hvalue'⟩ := (h.tasks i t htask).value other hexit
            cases hid.symm.trans hid'
            cases hvalue.symm.trans hvalue'
            exact .inl rfl
        | _ => exact .inr ⟨_, hexit, by simp⟩
  discarded n id hn := by
    have hreceiver := h.shared.answered.discarded id (List.mem_of_getElem? hn)
    exact ⟨hreceiver, fun i t htask hid => (h.tasks i t htask).quits id hid hreceiver⟩

/-- In every reachable state requests and frames are matched; a request never gets a second
result; and a response whose request is not pending when the reader looks for it becomes an
event or fails the connection. -/
theorem responses_matched (settings : Settings) (events : List (Event Choice Outside)) :
    let cfg := (system settings).run (start settings) events
    Matched settings cfg ∧
    (∀ more id result, (cfg.shared.channels id).value = some result →
      (((system settings).run cfg more).shared.channels id).value = some result) ∧
    (∀ id raw choice more disposal, cfg.shared.reader.seeks id raw → id ∉ cfg.shared.pending →
      ((system settings).run ((system settings).exec cfg (.env (.reader choice))) more
        ).shared.disposals[cfg.shared.disposals.length]? = some disposal →
      disposal = .emitted (.orphanResponse (.number id) raw) ∨ ∃ failure, disposal = .failed failure) := by
  intro cfg
  obtain ⟨hcfg, hconsistent⟩ := consistent_run settings events
  refine ⟨matched_of_consistent hcfg hconsistent, ?_, ?_⟩
  · intro more id result hvalue
    exact value_run settings hcfg hvalue more
  · intro id raw choice more disposal hreader hpending hdisposal
    exact orphan_kept settings hcfg hreader hpending choice more hdisposal

/-- The request times out while it waits, and its response arrives before its entry is removed. -/
def overdueResponse : List (Event Choice Outside) :=
  writtenRequest ++ [.act 0 .timeout, .act 0 .proceed, .env (.line response), .env (.reader .proceed),
    .env (.reader .proceed), .env (.reader .proceed)]

def Disposal.isDiscarded : Disposal → Bool
  | .discarded _ => true
  | _ => false

def Task.timesOut : Task → Bool
  | .leaving _ _ .timedOut => true
  | _ => false

/-- The response is lost, and its request was not cancelled. -/
theorem overdue_response_lost :
    ((system singleRequest).run (start singleRequest) overdueResponse).shared.disposals.map
      Disposal.isDiscarded = [true] ∧
    ((system singleRequest).run (start singleRequest) overdueResponse).shared.events.length = 0 ∧
    ((system singleRequest).run (start singleRequest) overdueResponse).tasks.map Task.timesOut = [true] := by
  decide

end Main

end OpenaiRs.AppServer
