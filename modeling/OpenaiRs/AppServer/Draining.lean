import OpenaiRs.AppServer.Shutdown

/-!
# Requests and the drain

Nobody waits for an entry that is still pending behind the drain. The connection was closed
before the drain, so a request that registers later fails at a closed check of
`write_message`, and one that had passed these checks was registered in time to be drained.
-/

namespace OpenaiRs.AppServer

open Serde Rust Interleaving

section Waiting

/-- The request has passed the closed checks of `write_message` and not ended. -/
def Task.Sent : Task → Prop
  | .writing _ _ => True
  | .flushing _ => True
  | .responding _ _ => True
  | _ => False

/-- The request is registered and still has a closed check before it. -/
def Task.Unchecked : Task → Prop
  | .entering _ => True
  | .locking _ _ => True
  | .locked _ _ => True
  | _ => False

/-- The call has sent nothing and returns no result. -/
def Task.Unsent (t : Task) : Prop := ¬ t.Sent ∧ ∀ result, t.exit ≠ some (.received result)

/-- While a request is sent, its entry is only pending before the drain, and the sender of a
registered request is owned by somebody until it is used. -/
structure Awaits (s : Connection) (_ : Nat) (t : Task) : Prop where
  undrained : t.Sent → ∀ id, t.id = some id → id ∈ s.pending → s.drainDone = false
  sender : ∀ id, t.id = some id → (∀ call, t ≠ .identified call id) →
    id ∈ s.senders ∨ (s.channels id).senderDropped = true

variable {settings : Settings} {s : Connection} {who : Option Nat} {i : Nat} {t t' : Task}
  {choice : Choice} {op : Operation} {started : List Task} {id : Nat}

theorem undrained_perform (hop : op ≠ .insert id) (h : id ∈ s.pending → s.drainDone = false)
    (hmem : id ∈ (s.perform op).pending) : (s.perform op).drainDone = false := by
  have hbefore := h ((mem_pending_perform hmem).resolve_right hop)
  by_contra hdone
  obtain hdone | rfl := drainDone_perform (by simpa using hdone)
  · rw [hdone] at hbefore
    cases hbefore
  · cases hmem

/-- A sender is used or stays. -/
theorem sender_perform (hlegal : Legal s who op)
    (h : id ∈ s.senders ∨ (s.channels id).senderDropped = true) :
    id ∈ (s.perform op).senders ∨ ((s.perform op).channels id).senderDropped = true := by
  obtain hmem | hdropped := h
  · rw [mem_senders] at hmem ⊢
    cases hlegal with
    | insert =>
        left
        simp only [Connection.perform, List.mem_cons]
        tauto
    | @remove i other =>
        by_cases hother : other ∈ s.pending
        · simp only [Connection.perform, if_pos hother]
          by_cases heq : id = other
          · right
            rw [heq, Function.update_self]
          · left
            rw [List.mem_erase_of_ne heq]
            exact hmem
        · left
          simp only [Connection.perform, if_neg hother]
          exact hmem
    | drain =>
        left
        simp only [Connection.perform, List.not_mem_nil, false_or, List.mem_append]
        tauto
    | @broadcast _ failure other =>
        by_cases heq : id = other
        · right
          simp only [Connection.perform, heq, Function.update_self, Channel.send_senderDropped]
        · left
          simp only [Connection.perform, List.mem_erase_of_ne heq]
          exact hmem
    | @dropPermit _ other =>
        left
        simp only [Connection.perform]
        split <;> exact hmem
    | @take other hother hnone =>
        left
        simp only [Connection.perform, Option.some.injEq]
        by_cases heq : id = other
        · exact .inr (.inl heq.symm)
        · rw [List.mem_erase_of_ne heq]
          simp only [hnone, reduceCtorEq, false_or] at hmem
          tauto
    | @deliver other result haccepted =>
        by_cases heq : id = other
        · right
          simp only [Connection.perform, heq, Function.update_self, Channel.send_senderDropped]
        · left
          simp only [haccepted, Option.some.injEq, Ne.symm heq, false_or] at hmem
          simp only [Connection.perform]
          tauto
    | _ => exact .inl hmem
  · exact .inr (senderDropped_perform op hdropped)

/-- Operations of others do not interfere with a request that waits. -/
theorem Awaits.other {j : Nat} {u : Task} (h : Awaits s j u) (hown : Owns s j u) (hlegal : Legal s who op)
    (hwho : who ≠ some j) : Awaits (s.perform op) j u where
  undrained hsent id hid hmem := by
    refine undrained_perform ?_ (h.undrained hsent id hid) hmem
    rintro rfl
    cases hlegal with
    | insert howner =>
        rw [(hown.owner id hid).1] at howner
        exact hwho howner.symm
  sender id hid hne := sender_perform hlegal (h.sender id hid hne)

/-- A task becomes a sent one behind its closed check. -/
theorem Step.sent (h : Step settings s i t choice op t' started) (hsent : t'.Sent) :
    (∀ id, op ≠ .insert id) ∧ ((t.Sent ∧ t'.id = t.id) ∨ s.closed = false) := by
  cases h with
  | begin hclosed => exact ⟨by simp, .inr hclosed⟩
  | accept => exact ⟨by simp, .inl ⟨trivial, rfl⟩⟩
  | flushing => exact ⟨by simp, .inl ⟨trivial, rfl⟩⟩
  | @wrote job =>
      cases job with
      | request call id => exact ⟨by simp, .inl ⟨trivial, rfl⟩⟩
      | message body => exact hsent.elim
      | shutdown => exact hsent.elim
  | _ => exact hsent.elim

theorem Step.awaits (h : Step settings s i t choice op t' started) (hown : Owns s i t)
    (hdone : s.drainDone = true → s.closed = true) (hawaits : Awaits s i t) :
    Awaits (s.perform op) i t' where
  undrained hsent id hid hmem := by
    obtain ⟨hop, hbefore⟩ := h.sent hsent
    refine undrained_perform (hop id) ?_ hmem
    obtain ⟨hsent', hid'⟩ | hclosed := hbefore
    · exact hawaits.undrained hsent' id (hid' ▸ hid)
    · intro _
      by_contra hne
      rw [hdone (by simpa using hne)] at hclosed
      cases hclosed
  sender := by
    refine h.keeps hawaits.sender (fun id hid => sender_perform (h.legal hown) hid) ?_
    rintro id rfl
    exact .inl (mem_senders.mpr (.inl (List.mem_cons_self)))

theorem Started.awaits (h : Started t) : Awaits s i t := by
  have hid := h.id_eq_none
  exact ⟨fun _ => by simp [hid], by simp [hid]⟩

/-- On a closed connection nothing is sent any more. -/
theorem Step.unsent (h : Step settings s i t choice op t' started) (hclosed : s.closed = true)
    (hunsent : t.Unsent) : t'.Unsent := by
  cases h with
  | turnedAway _ hexit => exact ⟨fun h => h, by simpa [Task.exit] using hexit⟩
  | released _ hexit => exact ⟨fun h => h, by simpa [Task.exit] using hexit⟩
  | begin hopen =>
      rw [hclosed] at hopen
      cases hopen
  | refused htail => exact ⟨fun h => h, by simpa [Task.exit] using htail.exit_ne⟩
  | unqueued htail => exact ⟨fun h => h, by simpa [Task.exit] using htail.exit_ne⟩
  | unlocked htail => exact ⟨fun h => h, by simpa [Task.exit] using htail.exit_ne⟩
  | abandoned _ htail => exact ⟨fun h => h, by simpa [Task.exit] using htail.exit_ne⟩
  | guarded => exact ⟨fun h => h, by simp [Task.exit]⟩
  | cleanup => exact ⟨fun h => h, hunsent.2⟩
  | terminate => exact ⟨fun h => h, hunsent.2⟩
  | terminated => exact ⟨fun h => h, hunsent.2⟩
  | ended => exact ⟨fun h => h, hunsent.2⟩
  | accept => exact absurd trivial hunsent.1
  | flushing => exact absurd trivial hunsent.1
  | writeFailed => exact absurd trivial hunsent.1
  | flushFailed => exact absurd trivial hunsent.1
  | writeDropped => exact absurd trivial hunsent.1
  | flushDropped => exact absurd trivial hunsent.1
  | wrote => exact absurd trivial hunsent.1
  | received => exact absurd trivial hunsent.1
  | unanswered => exact absurd trivial hunsent.1
  | _ => exact ⟨fun h => h, by simp [Task.exit]⟩

end Waiting

section Runs

variable (settings : Settings)

theorem awaits_stable :
    System.Stable (system settings) (fun _ _ => True) (Coordinated settings) (fun _ => True) Awaits where
  act {cfg i choice t s' t' started} hcfg _ htask hact _ hawaits := by
    obtain ⟨op, rfl, hstep⟩ := act_step hact
    refine ⟨trivial, hstep.awaits (hcfg.owned.tasks i t htask) hcfg.solitary.done hawaits, ?_⟩
    exact fun u hmem j => (started_spawned hstep u hmem).awaits
  other {cfg i choice t s' t' started j u} hcfg _ htask hact _ _ hne hother hawaits := by
    obtain ⟨op, rfl, hstep⟩ := act_step hact
    exact hawaits.other (hcfg.owned.tasks j u hother) (hstep.legal (hcfg.owned.tasks i t htask))
      (fun heq => hne (Option.some.inj heq).symm)
  env {cfg event s' started} hcfg _ henv _ := by
    obtain ⟨op, pc, rfl, hstep⟩ := env_step henv
    have hlegal := hstep.legal hcfg.owned.shared.2
    refine ⟨trivial, ?_, fun u hmem j => (hstep.started_mem u hmem).awaits⟩
    intro j u hother hawaits
    have hkept := hawaits.other (hcfg.owned.tasks j u hother) hlegal (by simp)
    exact ⟨hkept.undrained, hkept.sender⟩

theorem awaits_run (events : List (Event Choice Outside)) :
    ∀ (i : Nat) (t : Task), ((system settings).run (start settings) events).tasks[i]? = some t →
      Awaits ((system settings).run (start settings) events).shared i t :=
  (((awaits_stable settings).preserved (coordinated_preserved settings)).run_free
    ⟨coordinated_start settings, trivial, fun _ _ h => by cases h⟩ events).2.tasks

/-- A task that has sent nothing when the connection is closed never does. -/
theorem unsent_stable (i : Nat) : System.Stable (system settings) (fun _ _ => True) (fun _ => True)
    (fun s => s.closed = true) (fun _ j t => j = i → t.Unsent) where
  act {cfg j choice t s' t' started} _ _ _ hact hclosed hunsent := by
    obtain ⟨op, rfl, hstep⟩ := act_step hact
    refine ⟨closed_perform op hclosed, fun heq => hstep.unsent hclosed (hunsent heq), ?_⟩
    intro u hmem _ _
    cases started_spawned hstep u hmem with
    | call call => exact ⟨fun h => h, by simp [Task.exit]⟩
    | send body => exact ⟨fun h => h, by simp [Task.exit]⟩
    | shutdown failure => exact ⟨fun h => h, by simp [shutdownTask, Task.exit]⟩
  other _ _ _ _ _ _ _ _ hunsent := hunsent
  env {cfg event s' started} _ _ henv hclosed := by
    obtain ⟨op, pc, rfl, hstep⟩ := env_step henv
    refine ⟨closed_perform op hclosed, fun _ _ _ hunsent => hunsent, ?_⟩
    intro u hmem _ _
    cases hstep.started_mem u hmem with
    | call call => exact ⟨fun h => h, by simp [Task.exit]⟩
    | send body => exact ⟨fun h => h, by simp [Task.exit]⟩
    | shutdown failure => exact ⟨fun h => h, by simp [shutdownTask, Task.exit]⟩

theorem unsent_run {cfg : Config Connection Task} (hclosed : cfg.shared.closed = true) {i : Nat} {t : Task}
    (htask : cfg.tasks[i]? = some t) (hunsent : t.Unsent) (more : List (Event Choice Outside)) :
    ∃ t', ((system settings).run cfg more).tasks[i]? = some t' ∧ t'.Unsent := by
  obtain ⟨t', htask'⟩ := (system settings).run_task htask more
  refine ⟨t', htask', ?_⟩
  refine ((unsent_stable settings i).preserved_self.run_free ⟨hclosed, ?_⟩ more).tasks i t' htask' rfl
  rintro j u hother rfl
  cases htask.symm.trans hother
  exact hunsent

end Runs

section Main

/-- Behind the drain of the pending requests. -/
structure Unstranded (settings : Settings) (cfg : Config Connection Task) : Prop where
  /-- A drained request has the failure of the connection, has stopped waiting, or is among the
  entries that `terminate` is answering at this moment. -/
  drained : ∀ id ∈ cfg.shared.drainedIds,
    (∃ failure, (cfg.shared.channels id).value = some (.connection failure)) ∨
    (cfg.shared.channels id).receiverDropped = true ∨
    (id ∈ cfg.shared.drained ∧ ∃ a pc, party cfg a = some pc ∧ pc.answering = true)
  /-- A request whose entry is pending still has a closed check before it, or is giving up. -/
  registered : ∀ (i : Nat) (t : Task) id, cfg.tasks[i]? = some t → t.id = some id →
    id ∈ cfg.shared.pending → t.Unchecked ∨ t.Quits
  /-- A request that waits is not pending: its sender was used, or is in the hands of `terminate`
  or of the reader. -/
  waiting : ∀ (i : Nat) (t : Task) id, cfg.tasks[i]? = some t → t.Sent → t.id = some id →
    id ∉ cfg.shared.pending ∧ ((cfg.shared.channels id).senderDropped = true ∨
      id ∈ cfg.shared.drained ∨ cfg.shared.accepted = some id)
  /-- Both checks fail, and whoever has not passed them yet never does. -/
  checks : ∀ (i : Nat) (job : Job),
    next settings cfg.shared i (.entering job) .proceed = some (.skip, .leaving job job.refused
      (.failed (.connection (closedFailure "app-server connection is closed"))), []) ∧
    ∀ frame, next settings cfg.shared i (.locked job frame) .proceed =
      some (.skip, .leaving job (.unlock :: job.refused) (.failed (.connection
        (closedFailure "app-server connection closed while waiting to write"))), [])
  failing : ∀ (i : Nat) (t : Task), cfg.tasks[i]? = some t → t.Unsent →
    ∀ more, ∃ t', ((system settings).run cfg more).tasks[i]? = some t' ∧ t'.Unsent

/-- A registered request has a closed check before it, is sent, has a result, or is giving up. -/
theorem Owns.stage {s : Connection} {i id : Nat} {t : Task} (h : Owns s i t) (hid : t.id = some id)
    (hmem : id ∈ s.pending) :
    t.Unchecked ∨ t.Sent ∨ (∃ result, t.exit = some (.received result)) ∨ t.Quits := by
  have hleaving : ∀ exit, t.exit = some exit → (∃ result, t.exit = some (.received result)) ∨ t.Quits := by
    intro exit hexit
    cases exit with
    | received result => exact .inl ⟨result, hexit⟩
    | _ => exact .inr ⟨_, hexit, by simp⟩
  cases t with
  | identified call id' =>
      cases hid
      exact absurd (mem_senders.mpr (.inl hmem)) (h.fresh _ _ rfl).1
  | entering job => exact .inl trivial
  | locking job frame => exact .inl trivial
  | locked job frame => exact .inl trivial
  | writing job frame => exact .inr (.inl trivial)
  | flushing job => exact .inr (.inl trivial)
  | responding call id' => exact .inr (.inl trivial)
  | leaving job actions exit => exact .inr (.inr (hleaving exit rfl))
  | ended id' exit => exact .inr (.inr (hleaving exit rfl))
  | _ => cases hid

/-- In every reachable state behind the drain no request is stranded. -/
theorem no_request_stranded (settings : Settings) (events : List (Event Choice Outside))
    (hdone : ((system settings).run (start settings) events).shared.drainDone = true) :
    Unstranded settings ((system settings).run (start settings) events) := by
  have hcfg := coordinated_run settings events
  have hawaits := awaits_run settings events
  generalize (system settings).run (start settings) events = cfg at hdone hcfg hawaits
  have hanswered := hcfg.consistent.shared.answered
  have hsound := hcfg.owned.shared.1
  constructor
  · intro id hmem
    obtain hdrained | hreceiver | hvalue := hanswered.drained id hmem
    · exact .inr (.inr ⟨hdrained, hcfg.solitary.loop (List.ne_nil_of_mem hdrained)⟩)
    · exact .inr (.inl hreceiver)
    · exact .inl hvalue
  · intro i t id htask hid hmem
    obtain hunchecked | hsent | ⟨result, hexit⟩ | hquits := (hcfg.owned.tasks i t htask).stage hid hmem
    · exact .inl hunchecked
    · have hundone := (hawaits i t htask).undrained hsent id hid hmem
      rw [hdone] at hundone
      cases hundone
    · obtain ⟨id', hid', hvalue⟩ := (hcfg.consistent.tasks i t htask).value result hexit
      cases hid.symm.trans hid'
      rw [(hsound.unanswered id (mem_senders.mpr (.inl hmem))).1] at hvalue
      cases hvalue
    · exact .inr hquits
  · intro i t id htask hsent hid
    have hpending : id ∉ cfg.shared.pending := by
      intro hmem
      have hundone := (hawaits i t htask).undrained hsent id hid hmem
      rw [hdone] at hundone
      cases hundone
    refine ⟨hpending, ?_⟩
    obtain hsender | hdropped := (hawaits i t htask).sender id hid (by rintro call rfl; exact hsent)
    · obtain hmem | haccepted | hdrained := mem_senders.mp hsender
      · exact absurd hmem hpending
      · exact .inr (.inr haccepted)
      · exact .inr (.inl hdrained)
    · exact .inl hdropped
  · intro i job
    have hclosed := hcfg.solitary.done hdone
    exact ⟨by simp [next, exchange, hclosed], fun frame => by simp [next, exchange, hclosed]⟩
  · intro i t htask hunsent more
    exact unsent_run settings (hcfg.solitary.done hdone) htask hunsent more

/-- A second request waits for the permit of the first; the connection is shut down, and the
second request registers behind the drain. -/
def registeredLate : List (Event Choice Outside) :=
  writtenRequest ++ [.env (.call ⟨"thread/list", none⟩), .act 1 .proceed, .act 1 .proceed,
    .env .shutdown] ++ List.replicate 6 (.act 2 .proceed) ++ [.act 2 (.pick 0), .act 2 .proceed] ++
    List.replicate 4 (.act 1 .proceed)

theorem no_request_stranded_late :
    ((system singleRequest).run (start singleRequest) registeredLate).shared.pending = [2] ∧
      Unstranded singleRequest ((system singleRequest).run (start singleRequest) registeredLate) :=
  ⟨by decide, no_request_stranded singleRequest registeredLate (by decide)⟩

end Main

end OpenaiRs.AppServer
